import TCPClientServer.Calculator.Scraping

/-!
# The grammar of a datum

A line is meant to hold an integer, a real number, an operator and a second real number. The parser
finds them by formatted extraction, and reads an item only while the stream is good: a line that ends right
behind one of its two first numerals leaves the stream at its end, and every later item is then taken from
uninitialised memory without an error.

* `lineItems` : the items of a line, found one behind the other; no flag of a stream has a part in it;
* `EndsEarly` : the line ends right behind the first or the second numeral;
* `parseDatum_regular`, `parseDatum_early` : what the parser makes of the two kinds of lines;
* `line_grammar_iff` : the parser has the grammar unless memory holds an operator for a line that ends early.
-/

namespace TCPClientServer.Calculator
open TCPClientServer.Basis TCPClientServer.Client

/-- What a scan finds behind white space, and the text after it. -/
def item {α : Type} (scan : Bytes → Option α × Bytes) (t : Bytes) : Option (α × Bytes) :=
  (scan (t.dropWhile isSpace)).1.map (·, (scan (t.dropWhile isSpace)).2)

def scanOperation : Bytes → Option Operation × Bytes
  | [] => (none, [])
  | b :: t => ((parseOperation b).toOption, t)

structure Items where
  id : Int32t
  operand1 : Double
  operation : Operation
  operand2 : Double

/-- The items of a line; anything behind them is ignored. -/
def lineItems (line : Bytes) : Option Items := do
  let (id, t) ← item scanInt32 line
  let (operand1, t) ← item scanDouble t
  let (operation, t) ← item scanOperation t
  let (operand2, _) ← item scanDouble t
  return ⟨id, operand1, operation, operand2⟩

/-- The line ends right behind its first numeral. -/
def EndsBehindId (line : Bytes) : Prop := ∃ id, item scanInt32 line = some (id, [])

instance (line : Bytes) : Decidable (EndsBehindId line) :=
  decidable_of_iff ((item scanInt32 line).any (·.2.isEmpty) = true) <| by
    unfold EndsBehindId
    cases item scanInt32 line <;> simp [Prod.ext_iff]

/-- The line ends right behind its first or its second numeral. -/
def EndsEarly (line : Bytes) : Prop :=
  (∃ id, item scanInt32 line = some (id, [])) ∨
    ∃ id t operand1, item scanInt32 line = some (id, t) ∧ item scanDouble t = some (operand1, [])

def endsEarly (line : Bytes) : Bool :=
  match item scanInt32 line with
  | none => false
  | some (_, t) => t.isEmpty || (item scanDouble t).any (·.2.isEmpty)

theorem endsEarly_iff (line : Bytes) : endsEarly line = true ↔ EndsEarly line := by
  unfold endsEarly EndsEarly
  cases hid : item scanInt32 line with
  | none => simp
  | some found =>
    obtain ⟨id, t⟩ := found
    cases h1 : item scanDouble t with
    | none => simp [h1]
    | some found =>
      obtain ⟨operand1, u⟩ := found
      simp [h1]

instance (line : Bytes) : Decidable (EndsEarly line) := decidable_of_iff _ (endsEarly_iff line)

def Items.datum (i : Items) (u : Locals) (clientId : Bytes) : ClientData :=
  ⟨clientId, i.id, i.operand1, i.operation, i.operand2, u.padding⟩

/-! ## One item -/

section OneItem
variable {α : Type} {scan : Bytes → Option α × Bytes}

theorem scanDouble_nil : scanDouble [] = (none, []) := rfl

theorem getItem_scan (hnil : scan [] = (none, [])) (t : Bytes) (x : α) :
    getItem (IStream.extract scan) (.ofText t) x =
      match item scan t with
      | none => .error .badDataError
      | some (y, rest) => .ok (y, .rest rest true) := by
  unfold getItem
  rw [if_pos (good_ofText t), IStream.extract_ofText hnil, item]
  cases (scan (t.dropWhile isSpace)).1 with
  | none => rfl
  | some y => rfl

theorem getItem_char (t : Bytes) (x : Byte) :
    getItem IStream.extractChar (.ofText t) x =
      match t.dropWhile isSpace with
      | [] => .error .badDataError
      | b :: rest => .ok (b, .ofText rest) := by
  cases hskip : t.dropWhile isSpace with
  | nil => simp [getItem, IStream.extractChar, IStream.sentry, IStream.ofText, hskip]
  | cons b rest => simp [getItem, IStream.extractChar, IStream.sentry, IStream.ofText, hskip]

/-- At the end of the stream an item keeps what it holds. -/
theorem getItem_end (extract : IStream → Option α × IStream) (x : α) :
    getItem extract (.rest [] true) x = .ok (x, .rest [] true) := rfl

end OneItem

theorem rest_of_ne_nil {t : Bytes} (h : t ≠ []) : IStream.rest t true = .ofText t := by
  cases t with
  | nil => exact absurd rfl h
  | cons b t => rfl

/-! ## Lines -/

section Lines
variable (clientId : Bytes) {line : Bytes}

theorem scanInt32_nil : scanInt32 [] = (none, []) := rfl

theorem item_scanOperation_nil {t : Bytes} (h : t.dropWhile isSpace = []) : item scanOperation t = none := by
  rw [item, h]
  rfl

theorem item_scanOperation_cons {t rest : Bytes} {b : Byte} (h : t.dropWhile isSpace = b :: rest) :
    item scanOperation t = (parseOperation b).toOption.map (·, rest) := by
  rw [item, h]
  rfl

/-- The datum that memory completes, when it holds an operator; its first operand is from there only if the line ends
behind the id. -/
theorem parseDatum_early (h : EndsEarly line) : ∃ (id : Int32t) (operand1 : Double → Double),
    (¬ EndsBehindId line → ∀ x y, operand1 x = operand1 y) ∧
    ∀ u, parseDatum u clientId line = (parseOperation u.op >>= fun operation =>
      .ok ⟨clientId, id, operand1 u.operand1, operation, u.operand2, u.padding⟩) := by
  rcases h with ⟨id, hid⟩ | ⟨id, t, operand1, hid, h1⟩
  · refine ⟨id, fun operand1 => operand1, fun hbehind => absurd ⟨id, hid⟩ hbehind, fun u => ?_⟩
    simp only [parseDatum, getItem_scan scanInt32_nil, hid, ok_bind, getItem_end, pure_eq_ok]
  · have hne : t ≠ [] := by
      rintro rfl
      cases h1
    refine ⟨id, fun _ => operand1, fun _ _ _ => rfl, fun u => ?_⟩
    simp only [parseDatum, getItem_scan scanInt32_nil, getItem_scan scanDouble_nil, hid, h1, ok_bind,
      rest_of_ne_nil hne, getItem_end, pure_eq_ok]

theorem lineItems_early (h : EndsEarly line) : lineItems line = none := by
  rcases h with ⟨id, hid⟩ | ⟨id, t, operand1, hid, h1⟩
  · rw [lineItems, hid]
    rfl
  · rw [lineItems, hid, Option.bind_eq_bind, Option.bind_some]
    dsimp only
    rw [h1]
    rfl

/-- A line that does not end early gives the datum of its items. -/
theorem parseDatum_regular (u : Locals) (h : ¬ EndsEarly line) : parseDatum u clientId line =
    match lineItems line with
    | none => .error .badDataError
    | some items => .ok (items.datum u clientId) := by
  simp only [parseDatum, lineItems, getItem_scan scanInt32_nil]
  cases hid : item scanInt32 line with
  | none => rfl
  | some found =>
    obtain ⟨id, t₁⟩ := found
    have h₁ : t₁ ≠ [] := by
      rintro rfl
      exact h (.inl ⟨id, hid⟩)
    simp only [ok_bind, rest_of_ne_nil h₁, getItem_scan scanDouble_nil, Option.bind_eq_bind, Option.bind_some]
    cases h1 : item scanDouble t₁ with
    | none => rfl
    | some found =>
      obtain ⟨operand1, t₂⟩ := found
      have h₂ : t₂ ≠ [] := by
        rintro rfl
        exact h (.inr ⟨id, t₁, operand1, hid, h1⟩)
      simp only [ok_bind, rest_of_ne_nil h₂, getItem_char, Option.bind_some]
      cases hskip : t₂.dropWhile isSpace with
      | nil =>
        rw [item_scanOperation_nil hskip]
        rfl
      | cons op t₃ =>
        rw [item_scanOperation_cons hskip]
        cases hop : parseOperation op with
        | error e =>
          rw [ok_bind]
          simp only [hop, error_bind]
          rw [parseOperation_error hop]
          rfl
        | ok operation =>
          simp only [ok_bind, hop, Except.toOption, Option.map_some, Option.bind_some,
            getItem_scan scanDouble_nil]
          cases item scanDouble t₃ with
          | none => rfl
          | some found => rfl

end Lines

/-! ## The grammar -/

/-- `get_datum` on a line returns a datum exactly when the line has its items, and then the datum has their
values; it throws `bad_data_error` on every other line. -/
structure ParsesGrammar (clientId : Bytes) (u : Locals) (line t : Bytes) : Prop where
  accepted : (∃ d, (getDatum clientId u (.ofText (line ++ newline :: t))).1 = .ok d) ↔
    ∃ items, lineItems line = some items
  values : ∀ d items, (getDatum clientId u (.ofText (line ++ newline :: t))).1 = .ok d →
    lineItems line = some items → d.id = items.id ∧ d.operand1 = items.operand1 ∧
      d.operation = items.operation ∧ d.operand2 = items.operand2
  refused : lineItems line = none →
    (getDatum clientId u (.ofText (line ++ newline :: t))).1 = .error .badDataError

section Grammar
variable {clientId : Bytes} {u : Locals} {line : Bytes}

theorem parsesGrammar_of_eq {t : Bytes} (h : (getDatum clientId u (.ofText (line ++ newline :: t))).1 =
    match lineItems line with
    | none => .error .badDataError
    | some items => .ok (items.datum u clientId)) : ParsesGrammar clientId u line t := by
  cases hitems : lineItems line with
  | none =>
    simp only [hitems] at h
    refine ⟨?_, fun d items _ hsome => ?_, fun _ => h⟩
    · simp [h, hitems]
    · simp [hitems] at hsome
  | some items =>
    simp only [hitems] at h
    refine ⟨iff_of_true ⟨_, h⟩ ⟨items, hitems⟩, fun d items' hd hsome => ?_, fun hnone => ?_⟩
    · rw [hitems] at hsome
      cases hsome
      rw [h] at hd
      cases hd
      exact ⟨rfl, rfl, rfl, rfl⟩
    · simp [hitems] at hnone

theorem getDatum_eq_parseDatum (hline : Clean line) (hne : line ≠ []) (hlen : line.length < maxInputLength)
    (t : Bytes) : (getDatum clientId u (.ofText (line ++ newline :: t))).1 = parseDatum u clientId line :=
  congrArg Prod.fst (getDatum_line clientId u hline hne hlen t)

/-- A line that ends early is accepted when memory holds an operator. -/
theorem not_parsesGrammar_early {operation : Operation} {t : Bytes} (hline : Clean line) (hne : line ≠ [])
    (hlen : line.length < maxInputLength) (hearly : EndsEarly line) (hop : parseOperation u.op = .ok operation) :
    ¬ ParsesGrammar clientId u line t := by
  intro hgrammar
  obtain ⟨id, operand1, -, hmemory⟩ := parseDatum_early clientId hearly
  have hparse := hmemory u
  rw [hop, ok_bind, ← getDatum_eq_parseDatum hline hne hlen t] at hparse
  obtain ⟨items, hitems⟩ := hgrammar.accepted.mp ⟨_, hparse⟩
  rw [lineItems_early hearly] at hitems
  cases hitems

/-- **The parser has the grammar** exactly when the line does not end right behind one of its first two
numerals, or the memory of the operator holds none of the four. -/
theorem line_grammar_iff (clientId : Bytes) (u : Locals) (hline : Clean line) (hne : line ≠ [])
    (hlen : line.length < maxInputLength) (t : Bytes) : ParsesGrammar clientId u line t ↔
      ¬ (EndsEarly line ∧ ∃ operation, parseOperation u.op = .ok operation) := by
  constructor
  · rintro hgrammar ⟨hearly, operation, hop⟩
    exact not_parsesGrammar_early hline hne hlen hearly hop hgrammar
  · intro h
    refine parsesGrammar_of_eq ((getDatum_eq_parseDatum hline hne hlen t).trans ?_)
    by_cases hearly : EndsEarly line
    · cases hop : parseOperation u.op with
      | ok operation => exact absurd ⟨hearly, operation, hop⟩ h
      | error e =>
        obtain ⟨id, operand1, -, hparse⟩ := parseDatum_early clientId hearly
        rw [hparse u, hop, error_bind, lineItems_early hearly, parseOperation_error hop]
    · exact parseDatum_regular clientId u hearly

end Grammar

theorem line_grammar_sum : ParsesGrammar [] .zero sumLine [] ↔
    ¬ (EndsEarly sumLine ∧ ∃ operation, parseOperation Locals.zero.op = .ok operation) :=
  line_grammar_iff [] .zero clean_sumLine (by decide) (by decide) []

def Locals.plus : Locals := { Locals.zero with op := ch '+' }

theorem line_without_grammar : ¬ ∀ (clientId : Bytes) (u : Locals) (line t : Bytes), Clean line → line ≠ [] →
    line.length < maxInputLength → ParsesGrammar clientId u line t := by
  intro h
  have hline : Clean [ch '1'] := ⟨by decide, by decide⟩
  have hearly : EndsEarly [ch '1'] := .inl ⟨.literal 1, rfl⟩
  exact not_parsesGrammar_early hline (by decide) (by decide) hearly (rfl : parseOperation Locals.plus.op = .ok .add)
    (h [] .plus [ch '1'] [] hline (by decide) (by decide))

end TCPClientServer.Calculator
