import TCPClientServer.Calculator.DataScraper

/-!
# The scraper on lines

What `Scraper::start` with `get_datum` pushes from a text made of lines. A line that fits the buffer
gives the datum it parses to, if any, and leaves a good stream; a longer one fails the stream, so that
it gives the datum its first 999 characters parse to and ends the loop.

* `getDatum_blank`, `getDatum_line`, `getDatum_long`, `getDatum_end` : the ways a call of `get_datum` goes;
* `lineData` : what a line gives; `scrapeLines` : what a list of lines gives;
* `pushes_text` : the loop pushes `scrapeLines`;
* `lines_scraped_independently` : when this is what the lines give one by one.
-/

namespace TCPClientServer.Calculator
open TCPClientServer.Basis TCPClientServer.Client

/-- A line without NUL bytes. -/
structure Clean (l : Bytes) : Prop where
  newline : newline ∉ l
  nul : (0 : Byte) ∉ l

theorem Clean.take {l : Bytes} (h : Clean l) (n : Nat) : Clean (l.take n) :=
  ⟨fun hm => h.newline (List.mem_of_mem_take hm), fun hm => h.nul (List.mem_of_mem_take hm)⟩

/-- Lines, each ended by a newline. -/
def text (ls : List Bytes) : Bytes := ls.flatMap (· ++ [newline])

theorem text_cons (l : Bytes) (ls : List Bytes) : text (l :: ls) = l ++ newline :: text ls := by
  simp [text]

/-! ## Calls of `get_datum` -/

section Calls
variable (clientId : Bytes) (u : Locals)

def failed (t : Bytes) : IStream := { IStream.ofText t with fail := true }

@[simp] theorem good_ofText (t : Bytes) : (IStream.ofText t).good = true := rfl

@[simp] theorem ok_ofText (t : Bytes) : (IStream.ofText t).ok = true := rfl

@[simp] theorem bad_ofText (t : Bytes) : (IStream.ofText t).bad = false := rfl

@[simp] theorem ok_failed (t : Bytes) : (failed t).ok = false := rfl

@[simp] theorem bad_failed (t : Bytes) : (failed t).bad = false := rfl

/-- A blank line is passed over within the call. -/
theorem getDatum_blank (t : Bytes) :
    getDatum clientId u (.ofText (newline :: t)) = getDatum clientId u (.ofText t) := by
  have hline := IStream.getline_line (n := maxInputLength) (l := []) (by simp) (by decide) t
  have hread : readLine (.ofText (newline :: t)) = readLine (.ofText t) := by
    rw [List.nil_append] at hline
    rw [readLine_eq]
    simp [hline, cstr]
  simp only [getDatum, hread]

theorem getDatum_line {l : Bytes} (hl : Clean l) (hne : l ≠ []) (hlen : l.length < maxInputLength) (t : Bytes) :
    getDatum clientId u (.ofText (l ++ newline :: t)) = (parseDatum u clientId l, .ofText t) := by
  have hread : readLine (.ofText (l ++ newline :: t)) = (l, .ofText t) := by
    rw [readLine_eq]
    simp [IStream.getline_line hl.newline hlen, cstr_eq_self hl.nul, hne]
  simp [getDatum, hread, hne]

/-- A line that does not fit the buffer leaves its rest unread and the stream failed. -/
theorem getDatum_long {l : Bytes} (hl : Clean l) (hlen : maxInputLength ≤ l.length) (t : Bytes) :
    getDatum clientId u (.ofText (l ++ newline :: t)) =
      (parseDatum u clientId (l.take (maxInputLength - 1)),
        failed (l.drop (maxInputLength - 1) ++ newline :: t)) := by
  have hne : l.take (maxInputLength - 1) ≠ [] := by
    intro h
    have := congrArg List.length h
    simp only [List.length_take, List.length_nil, maxInputLength] at this hlen
    omega
  have hread : readLine (.ofText (l ++ newline :: t)) =
      (l.take (maxInputLength - 1), failed (l.drop (maxInputLength - 1) ++ newline :: t)) := by
    rw [readLine_eq]
    simp [IStream.getline_long hl.newline (by decide) hlen (t := newline :: t) (by simp), cstr_eq_self (hl.take _).nul,
      hne, failed]
  simp [getDatum, hread, hne]

theorem getDatum_end : getDatum clientId u (.ofText []) =
    (.error .outOfData, { IStream.ofText [] with eof := true, fail := true }) := by
  rfl

end Calls

/-- **The parser throws nothing but `bad_data_error`.** -/
theorem parseDatum_error {u : Locals} {clientId buffer : Bytes} {e : ScrapeError}
    (h : parseDatum u clientId buffer = .error e) : e = .badDataError := by
  unfold parseDatum at h
  rcases bind_eq_error.mp h with h | ⟨⟨id, is⟩, -, h⟩
  · exact getItem_error h
  rcases bind_eq_error.mp h with h | ⟨⟨operand1, is⟩, -, h⟩
  · exact getItem_error h
  rcases bind_eq_error.mp h with h | ⟨⟨op, is⟩, -, h⟩
  · exact getItem_error h
  rcases bind_eq_error.mp h with h | ⟨operation, -, h⟩
  · exact parseOperation_error h
  rcases bind_eq_error.mp h with h | ⟨⟨operand2, is⟩, -, h⟩
  · exact getItem_error h
  · cases h

theorem parseDatum_items {u : Locals} {clientId buffer : Bytes} {d : ClientData}
    (h : parseDatum u clientId buffer = .ok d) : ∃ is₁ is₂ op is₃ is₄,
      getItem (IStream.extract scanInt32) (.ofText buffer) u.id = .ok (d.id, is₁) ∧
      getItem (IStream.extract scanDouble) is₁ u.operand1 = .ok (d.operand1, is₂) ∧
      getItem IStream.extractChar is₂ u.op = .ok (op, is₃) ∧ parseOperation op = .ok d.operation ∧
      getItem (IStream.extract scanDouble) is₃ u.operand2 = .ok (d.operand2, is₄) ∧ d.padding = u.padding := by
  unfold parseDatum at h
  obtain ⟨⟨id, is₁⟩, hid, h⟩ := bind_eq_ok.mp h
  obtain ⟨⟨operand1, is₂⟩, h1, h⟩ := bind_eq_ok.mp h
  obtain ⟨⟨op, is₃⟩, hop, h⟩ := bind_eq_ok.mp h
  obtain ⟨operation, hparse, h⟩ := bind_eq_ok.mp h
  obtain ⟨⟨operand2, is₄⟩, h2, h⟩ := bind_eq_ok.mp h
  cases h
  exact ⟨is₁, is₂, op, is₃, is₄, hid, h1, hop, hparse, h2, rfl⟩

/-- **A datum that is scraped has one of the four operations.** -/
theorem parseDatum_valid {u : Locals} {clientId buffer : Bytes} {d : ClientData}
    (h : parseDatum u clientId buffer = .ok d) : d.operation.Valid := by
  obtain ⟨_, _, op, _, _, -, -, -, hparse, -, -⟩ := parseDatum_items h
  exact parseOperation_valid hparse

theorem extract_scanDouble_proper {is : IStream} {x : Double} (h : (is.extract scanDouble).1 = some x) : x.Proper := by
  unfold IStream.extract at h
  rcases hs : is.sentry with ⟨_ | _, s⟩
  · simp [hs] at h
  · have hscan : (((scanReal s.unread).1.map fun n => Double.ofRat n.toRat).filter Double.isFinite) = some x := by
      simp only [hs, if_true] at h
      exact h
    obtain ⟨n, -, rfl⟩ := Option.map_eq_some_iff.mp (Option.filter_eq_some_iff.mp hscan).1
    exact Double.proper_ofRat _

/-- The operands of a datum are those of a `double`, read or left in memory. -/
theorem parseDatum_proper {u : Locals} {clientId buffer : Bytes} {d : ClientData}
    (h : parseDatum u clientId buffer = .ok d) : d.operand1.Proper ∧ d.operand2.Proper := by
  obtain ⟨_, _, _, _, _, -, h1, -, -, h2, -⟩ := parseDatum_items h
  exact ⟨getItem_ok u.proper1 (fun _ => extract_scanDouble_proper) h1,
    getItem_ok u.proper2 (fun _ => extract_scanDouble_proper) h2⟩

theorem getDatum_parsed {clientId : Bytes} {u : Locals} {is is' : IStream} {d : ClientData}
    (h : getDatum clientId u is = (.ok d, is')) : ∃ buffer, parseDatum u clientId buffer = .ok d := by
  unfold getDatum at h
  dsimp only at h
  split at h
  · cases h
  split at h
  · cases h
  · exact ⟨_, congrArg Prod.fst h⟩

/-! ## The loop over lines -/

section Loop
variable (clientId : Bytes) (u : Locals)

/-- The datum of a line, read from as much of it as the buffer takes. -/
def lineData (l : Bytes) : Option ClientData :=
  (parseDatum u clientId (l.take (maxInputLength - 1))).toOption

theorem lineData_nil : lineData clientId u [] = none := rfl

theorem lineData_of_fits {l : Bytes} (h : l.length < maxInputLength) :
    lineData clientId u l = (parseDatum u clientId l).toOption := by
  rw [lineData, List.take_of_length_le (by omega)]

/-- What is pushed from lines: up to and including the first that does not fit the buffer. A blank line
takes no call of `get_datum`. -/
def scrapeLines (us : Nat → Locals) : List Bytes → List ClientData
  | [] => []
  | l :: ls =>
    if l = [] then scrapeLines us ls
    else (lineData clientId (us 0) l).toList ++
      if l.length < maxInputLength then scrapeLines (fun i => us (i + 1)) ls else []

variable {clientId u} {us : Nat → Locals}

/-- A round that parses a line pushes what the line gives and goes on with the stream. -/
theorem pushes_parsed {is is' : IStream} {buffer : Bytes} {ds : List ClientData} (hok : is.ok = true)
    (hget : getDatum clientId (us 0) is = (parseDatum (us 0) clientId buffer, is'))
    (h : Pushes (getDatum clientId) (fun i => us (i + 1)) is' ds) :
    Pushes (getDatum clientId) us is ((parseDatum (us 0) clientId buffer).toOption.toList ++ ds) := by
  cases hparse : parseDatum (us 0) clientId buffer with
  | ok d => exact .datum hok (hget.trans (by rw [hparse])) h
  | error e =>
    refine .skip ?_ hok (hget.trans (by rw [hparse])) h
    rw [parseDatum_error hparse]
    decide

theorem pushes_blank {t : Bytes} {ds : List ClientData} (h : Pushes (getDatum clientId) us (.ofText t) ds) :
    Pushes (getDatum clientId) us (.ofText (newline :: t)) ds := by
  obtain ⟨n, hn⟩ := h
  refine ⟨n, ?_⟩
  cases n with
  | zero => cases hn
  | succ n =>
    rw [start, getDatum_blank]
    exact hn

theorem pushes_end : Pushes (getDatum clientId) us (.ofText []) [] :=
  .skip (by decide) rfl (getDatum_end clientId (us 0)) (.stopped rfl)

/-- **What is pushed from a text of lines.** -/
theorem pushes_text (us : Nat → Locals) (ls : List Bytes) (h : ∀ l ∈ ls, Clean l) :
    Pushes (getDatum clientId) us (.ofText (text ls)) (scrapeLines clientId us ls) := by
  induction ls generalizing us with
  | nil => exact pushes_end
  | cons l ls ih =>
    have hl := h l List.mem_cons_self
    have hls := fun x hx => h x (List.mem_cons_of_mem l hx)
    rw [text_cons, scrapeLines]
    by_cases hne : l = []
    · subst l
      rw [if_pos rfl]
      exact pushes_blank (ih us hls)
    rw [if_neg hne]
    by_cases hlen : l.length < maxInputLength
    · rw [if_pos hlen, lineData_of_fits clientId _ hlen]
      exact pushes_parsed rfl (getDatum_line clientId _ hl hne hlen _) (ih _ hls)
    · rw [if_neg hlen]
      exact pushes_parsed rfl (getDatum_long clientId _ hl (not_lt.mp hlen) _) (.stopped rfl)

theorem pushes_line {l : Bytes} (hl : Clean l) :
    Pushes (getDatum clientId) (fun _ => u) (.ofText (l ++ [newline])) (lineData clientId u l).toList := by
  have h : Pushes (getDatum clientId) (fun _ => u) _ _ := pushes_text (fun _ => u) [l] (by simpa using hl)
  have hone : scrapeLines clientId (fun _ => u) [l] = (lineData clientId u l).toList := by
    by_cases hne : l = []
    · simp [scrapeLines, hne, lineData_nil]
    · simp [scrapeLines, hne]
  rwa [hone, text_cons] at h

/-- Nothing is lost exactly when no line behind one that does not fit the buffer holds a datum. -/
theorem scrapeLines_eq_iff (ls : List Bytes) :
    scrapeLines clientId (fun _ => u) ls = ls.flatMap (fun l => (lineData clientId u l).toList) ↔
      ls.Pairwise fun l l' => maxInputLength ≤ l.length → lineData clientId u l' = none := by
  induction ls with
  | nil => simp [scrapeLines]
  | cons l ls ih =>
    rw [List.flatMap_cons, List.pairwise_cons]
    by_cases hne : l = []
    · subst l
      rw [scrapeLines, if_pos rfl, lineData_nil, Option.toList_none, List.nil_append, ih]
      simp [maxInputLength]
    rw [scrapeLines, if_neg hne, List.append_cancel_left_eq]
    by_cases hlen : l.length < maxInputLength
    · rw [if_pos hlen, ih]
      simp [not_le.mpr hlen]
    · -- behind a line that does not fit nothing is pushed
      have hlong := not_lt.mp hlen
      have hnone : (∀ l' ∈ ls, lineData clientId u l' = none) →
          ls.Pairwise fun l l' => maxInputLength ≤ l.length → lineData clientId u l' = none := fun h =>
        List.pairwise_of_forall_mem_list fun _ _ l' hl' _ => h l' hl'
      simp only [if_neg hlen, hlong, true_imp_iff]
      rw [eq_comm, List.flatMap_eq_nil_iff]
      simp only [Option.toList_eq_nil_iff]
      exact ⟨fun h => ⟨h, hnone h⟩, fun h => h.1⟩

end Loop

/-! ## Line by line -/

theorem lineData_eq_none_iff {clientId : Bytes} {u : Locals} {l : Bytes} : lineData clientId u l = none ↔
    ¬ ∃ d, parseDatum u clientId (l.take (maxInputLength - 1)) = .ok d := by
  rw [lineData]
  cases parseDatum u clientId (l.take (maxInputLength - 1)) <;> simp [Except.toOption]

theorem flatten_of_pushes_lines {clientId : Bytes} {u : Locals} {ls : List Bytes} {single : List (List ClientData)}
    (h : List.Forall₂ (fun l ds => Pushes (getDatum clientId) (fun _ => u) (.ofText (l ++ [newline])) ds) ls single)
    (hls : ∀ l ∈ ls, Clean l) : single.flatten = ls.flatMap fun l => (lineData clientId u l).toList := by
  induction h with
  | nil => rfl
  | cons hl _ ih =>
    rw [List.flatten_cons, List.flatMap_cons, ih fun x hx => hls x (List.mem_cons_of_mem _ hx),
      hl.unique (pushes_line (hls _ List.mem_cons_self))]

/-- **Lines are scraped independently** exactly when no line that stands behind one of 1000 characters or
more holds a datum in its first 999 characters. -/
theorem lines_scraped_independently (clientId : Bytes) (u : Locals) (ls : List Bytes)
    (hls : ∀ l ∈ ls, Clean l) :
    (∃ whole, Pushes (getDatum clientId) (fun _ => u) (.ofText (text ls)) whole) ∧
    ∀ whole single, Pushes (getDatum clientId) (fun _ => u) (.ofText (text ls)) whole →
      List.Forall₂ (fun l ds => Pushes (getDatum clientId) (fun _ => u) (.ofText (l ++ [newline])) ds) ls single →
      (whole = single.flatten ↔ ls.Pairwise fun l l' =>
        maxInputLength ≤ l.length → ¬ ∃ d, parseDatum u clientId (l'.take (maxInputLength - 1)) = .ok d) := by
  refine ⟨⟨_, pushes_text _ ls hls⟩, fun whole single hwhole hsingle => ?_⟩
  rw [hwhole.unique (pushes_text _ ls hls), flatten_of_pushes_lines hsingle hls, scrapeLines_eq_iff]
  simp only [lineData_eq_none_iff]

theorem lineData_of_letter (clientId : Bytes) (u : Locals) (t : Bytes) :
    lineData clientId u (ch 'x' :: t) = none := rfl

def Locals.zero : Locals := ⟨.literal 0, .finite 0, 0, .finite 0, .replicate 0,
  Double.proper_zero, Double.proper_zero⟩

def longLine : Bytes := ch 'x' :: List.replicate 999 (ch 'x')

def sumLine : Bytes := "1 2 + 3".toList.map ch

theorem clean_sumLine : Clean sumLine := ⟨by decide, by decide⟩

theorem lines_scraped_independently_blank_sum :
    scrapeLines [] (fun _ => .zero) [[], sumLine] = [[], (lineData [] .zero sumLine).toList].flatten ↔
      [[], sumLine].Pairwise fun l l' =>
        maxInputLength ≤ l.length → ¬ ∃ d, parseDatum .zero [] (l'.take (maxInputLength - 1)) = .ok d := by
  have hnil : Clean [] := ⟨by simp, by simp⟩
  have hls : ∀ l ∈ [[], sumLine], Clean l := by simp [hnil, clean_sumLine]
  exact (lines_scraped_independently [] .zero [[], sumLine] hls).2 _ _ (pushes_text _ _ hls)
    (.cons (pushes_line hnil) (.cons (pushes_line clean_sumLine) .nil))

theorem lines_not_scraped_independently :
    ¬ ∀ (clientId : Bytes) (u : Locals) (ls : List Bytes), (∀ l ∈ ls, Clean l) → ∀ whole single,
      Pushes (getDatum clientId) (fun _ => u) (.ofText (text ls)) whole →
      List.Forall₂ (fun l ds => Pushes (getDatum clientId) (fun _ => u) (.ofText (l ++ [newline])) ds) ls single →
      whole = single.flatten := by
  intro h
  have hlong : Clean longLine :=
    ⟨fun hm => absurd (List.eq_of_mem_replicate (n := 1000) hm) (by decide),
      fun hm => absurd (List.eq_of_mem_replicate (n := 1000) hm) (by decide)⟩
  have hls : ∀ l ∈ [longLine, sumLine], Clean l := by simp [hlong, clean_sumLine]
  have heq := h [] .zero [longLine, sumLine] hls _ _ (pushes_text _ _ hls)
    (.cons (pushes_line hlong) (.cons (pushes_line clean_sumLine) .nil))
  have hnone : lineData [] .zero longLine = none := lineData_of_letter [] .zero _
  have hsome : (lineData [] .zero sumLine).isSome = true := by decide +kernel
  obtain ⟨d, hd⟩ := Option.isSome_iff_exists.mp hsome
  have hlen : longLine.length = maxInputLength := by
    rw [longLine, List.length_cons, List.length_replicate, maxInputLength]
  have hne : longLine ≠ [] := List.cons_ne_nil _ _
  simp [scrapeLines, hne, hnone, hd, hlen] at heq

end TCPClientServer.Calculator
