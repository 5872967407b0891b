import TCPClientServer.Basis.Throwing
import TCPClientServer.Calculator.Data
import TCPClientServer.Client.Scraper

/-!
# `DataScraper`

`get_datum` reads lines into a buffer of 1000 characters until one is not blank, and parses the buffer
through a string stream of its own.

* `readLine` : the loop over lines; `readLine_eq` is its unfolding;
* `parseDatum` : the four items of a line; it throws nothing but `bad_data_error`;
* `getDatum` : `get_datum`.
-/

namespace TCPClientServer.Calculator
open TCPClientServer.Basis TCPClientServer.Client

/-- What the uninitialised memory of a call of `get_datum` holds: the members of `d` that have no
constructor, and `op`. Whatever is in the memory of an operand, it is a `double`. -/
structure Locals where
  id : Int32t
  operand1 : Double
  op : Byte
  operand2 : Double
  padding : Padding
  proper1 : operand1.Proper
  proper2 : operand2.Proper

/-! ## Reading a line -/

def maxInputLength : Nat := 1000

/-- The C string in a buffer. -/
def cstr (buffer : Bytes) : Bytes := buffer.takeWhile (· != 0)

theorem cstr_eq_self {l : Bytes} (h : (0 : Byte) ∉ l) : cstr l = l :=
  List.takeWhile_eq_self_iff.mpr fun b hb => by simpa using fun hz : b = 0 => h (hz ▸ hb)

/-- The loop over lines, for at most so many of them; of the buffer only its C string is looked at. -/
def lineLoop : Nat → IStream → Bytes → Bytes × IStream
  | 0, is, buffer => (buffer, is)
  | n + 1, is, buffer =>
    if is.ok && !is.eof && buffer.isEmpty then
      let (line, is) := is.getline maxInputLength
      lineLoop n is (cstr line)
    else (buffer, is)

/-- The line a datum is read from, and the stream after it. Every line takes a character at least. -/
def readLine (is : IStream) : Bytes × IStream := lineLoop (is.unread.length + 1) is []

theorem good_eq (is : IStream) : (is.ok && !is.eof) = is.good := by
  obtain ⟨t, e, f, b⟩ := is
  cases e <;> cases f <;> cases b <;> rfl

theorem lineLoop_of_not_good {n : Nat} {is : IStream} (h : is.good = false) (buffer : Bytes) :
    lineLoop n is buffer = (buffer, is) := by
  cases n with
  | zero => rfl
  | succ n => simp [lineLoop, good_eq, h]

theorem lineLoop_of_ne {n : Nat} {buffer : Bytes} (h : buffer ≠ []) (is : IStream) :
    lineLoop n is buffer = (buffer, is) := by
  cases n with
  | zero => rfl
  | succ n => simp [lineLoop, h]

/-- A count above the number of unread characters is as good as any other. -/
theorem lineLoop_stable {n m : Nat} {is : IStream} {buffer : Bytes} (hn : is.unread.length < n)
    (hm : is.unread.length < m) : lineLoop n is buffer = lineLoop m is buffer := by
  induction n generalizing m is buffer with
  | zero => omega
  | succ n ih =>
    obtain ⟨m, rfl⟩ : ∃ m', m = m' + 1 := ⟨m - 1, by omega⟩
    rw [lineLoop, lineLoop, good_eq]
    split
    · rename_i h
      have hgood : is.good = true := by simpa using (Bool.and_eq_true _ _ ▸ h).1
      rcases is.getline_progress maxInputLength hgood with hstop | hless
      · simp only [lineLoop_of_not_good hstop]
      · exact ih (hless.trans_le (by omega)) (hless.trans_le (by omega))
    · rfl

/-- **One round of the loop over lines.** -/
theorem readLine_eq (is : IStream) : readLine is =
    if is.good then
      let (line, is) := is.getline maxInputLength
      if cstr line = [] then readLine is else (cstr line, is)
    else ([], is) := by
  rw [readLine, lineLoop, good_eq]
  cases hgood : is.good with
  | false => simp
  | true =>
    simp only [List.isEmpty_nil, Bool.and_true, if_true]
    split
    · rename_i hline
      rw [hline]
      rcases is.getline_progress maxInputLength hgood with hstop | hless
      · rw [readLine, lineLoop_of_not_good hstop, lineLoop_of_not_good hstop]
      · exact lineLoop_stable hless (Nat.lt_succ_self _)
    · rename_i hline
      exact lineLoop_of_ne hline _

/-! ## Parsing it -/

/-- `get_item`: an item already there is kept when the stream is no longer good. -/
def getItem {α : Type} (extract : IStream → Option α × IStream) (is : IStream) (item : α) :
    Except ScrapeError (α × IStream) :=
  let (found, is) := if is.good then extract is else (some item, is)
  if !is.ok then .error .badDataError
  else if is.bad then .error .runtimeError
  else .ok (found.getD item, is)

/-- The switch over the operator. -/
def parseOperation (op : Byte) : Except ScrapeError Operation :=
  if op = ch '+' then .ok .add
  else if op = ch '-' then .ok .subtract
  else if op = ch '*' then .ok .multiply
  else if op = ch '/' then .ok .divide
  else .error .badDataError

/-- What `get_datum` does with the line in its buffer. -/
def parseDatum (u : Locals) (clientId : Bytes) (buffer : Bytes) : Except ScrapeError ClientData := do
  let datumInput := IStream.ofText buffer
  let (id, datumInput) ← getItem (IStream.extract scanInt32) datumInput u.id
  let (operand1, datumInput) ← getItem (IStream.extract scanDouble) datumInput u.operand1
  let (op, datumInput) ← getItem IStream.extractChar datumInput u.op
  let operation ← parseOperation op
  let (operand2, _) ← getItem (IStream.extract scanDouble) datumInput u.operand2
  return { clientId, id, operand1, operation, operand2, padding := u.padding }

def getDatum (clientId : Bytes) (u : Locals) (is : IStream) : Except ScrapeError ClientData × IStream :=
  let (buffer, is) := readLine is
  if is.bad then (.error .runtimeError, is)
  else if buffer = [] then (.error .outOfData, is)
  else (parseDatum u clientId buffer, is)

theorem getItem_error {α : Type} {extract : IStream → Option α × IStream} {is : IStream} {item : α}
    {e : ScrapeError} (h : getItem extract is item = .error e) : e = .badDataError := by
  unfold getItem at h
  generalize (if is.good = true then extract is else (some item, is)) = r at h
  obtain ⟨found, is'⟩ := r
  dsimp only at h
  cases hok : is'.ok with
  | false => simpa [hok] using h.symm
  | true =>
    have hbad : is'.bad = false := by
      rw [IStream.ok, Bool.and_eq_true] at hok
      simpa using hok.2
    simp [hok, hbad] at h

theorem getItem_ok {α : Type} {P : α → Prop} {extract : IStream → Option α × IStream} {is is' : IStream}
    {item x : α} (hitem : P item) (hfound : ∀ y, (extract is).1 = some y → P y)
    (h : getItem extract is item = .ok (x, is')) : P x := by
  unfold getItem at h
  have hsome : ∀ y, (if is.good = true then extract is else (some item, is)).1 = some y → P y := by
    split
    · exact hfound
    · rintro y ⟨⟩
      exact hitem
  generalize (if is.good = true then extract is else (some item, is)) = r at h hsome
  obtain ⟨found, is₁⟩ := r
  dsimp only at h
  split at h
  · cases h
  split at h
  · cases h
  cases h
  cases found with
  | none => exact hitem
  | some y => exact hsome y rfl

theorem parseOperation_error {op : Byte} {e : ScrapeError} (h : parseOperation op = .error e) :
    e = .badDataError := by
  unfold parseOperation at h
  split at h <;> try cases h
  split at h <;> try cases h
  split at h <;> try cases h
  split at h <;> cases h
  rfl

theorem parseOperation_valid {op : Byte} {operation : Operation} (h : parseOperation op = .ok operation) :
    operation.Valid := by
  unfold parseOperation at h
  split at h
  · cases h; exact .inl rfl
  split at h
  · cases h; exact .inr (.inl rfl)
  split at h
  · cases h; exact .inr (.inr (.inl rfl))
  split at h
  · cases h; exact .inr (.inr (.inr rfl))
  · cases h

end TCPClientServer.Calculator
