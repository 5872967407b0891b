import TCPClientServer.Calculator.Scraping

/-!
# Printing data and scraping them

The data generator prints a datum on a line and a blank line after it. The scraper gets the data back,
without those whose operation is `NOP`: the word stands where the parser looks for an operator.

* `printLine`, `generate` : `operator<<` and the generator's loop over it;
* `parseDatum_printLine` : a printed line parses to the datum; `parseDatum_printLine_nop` : or to nothing;
* `length_printLine` : a printed line fits the buffer;
* `scraping_undoes_printing`.
-/

namespace TCPClientServer.Calculator
open TCPClientServer.Basis TCPClientServer.Client

/-- `os << std::setprecision(15) << x`. -/
def formatDouble : Double → Bytes
  | .finite q => (formatReal 15 q).render
  | .posInf => "inf".toList.map ch
  | .negInf => "-inf".toList.map ch
  | .nan => "nan".toList.map ch

/-- `operator<<` for `client_data`, up to its `std::endl`. -/
def printLine (d : ClientData) : Bytes :=
  formatInt d.id.1 ++ ch ' ' :: (formatDouble d.operand1 ++ ch ' ' :: (d.operation.toText ++
    ch ' ' :: formatDouble d.operand2))

def print (d : ClientData) : Bytes := printLine d ++ [newline]

/-- The loop of the data generator: each datum is printed and followed by a `std::endl`. -/
def generate (ds : List ClientData) : Bytes := ds.flatMap fun d => print d ++ [newline]

theorem generate_eq_text (ds : List ClientData) : generate ds = text (ds.flatMap fun d => [printLine d, []]) := by
  simp [generate, text, print, List.flatMap_assoc]

def Operation.Named (op : Operation) : Prop := op = .nop ∨ op.Valid

/-- A finite `double` that is read back from its numeral at precision 15. -/
def Printable (x : Double) : Prop := ∃ q, x = .finite q ∧ Double.ofRat (formatReal 15 q).toRat = .finite q

/-- What is written for `x` at precision 15 is read as `y`. -/
def ReadAs (x y : Double) : Prop :=
  x.Proper ∧ ∃ q r, x = .finite q ∧ y = .finite r ∧ Double.ofRat (formatReal 15 q).toRat = .finite r

theorem Printable.readAs {x : Double} (h : Printable x) : ReadAs x x := by
  obtain ⟨q, rfl, hq⟩ := h
  exact ⟨⟨_, hq⟩, q, q, rfl, rfl, hq⟩

/-! ## A printed line parses -/

section Items
variable {α : Type} {item x : α}

theorem getItem_found {extract : IStream → Option α × IStream} {is is' : IStream} (hgood : is.good = true)
    (hfound : extract is = (some x, is')) (hok : is'.ok = true) : getItem extract is item = .ok (x, is') := by
  have hbad : is'.bad = false := by
    rw [IStream.ok, Bool.and_eq_true] at hok
    simpa using hok.2
  simp [getItem, hgood, hfound, hok, hbad]

theorem getItem_word {scan : Bytes → Option α × Bytes} (ws : Bytes) {w t : Bytes}
    (hws : ∀ b ∈ ws, isSpace b = true) (hw : ∀ b ∈ w, isNumeralChar b = true) (hne : w ≠ [])
    (hscan : ∀ t, Delimited t → scan (w ++ t) = (some x, t)) :
    getItem (IStream.extract scan) (.ofText (ws ++ (w ++ ch ' ' :: t))) item = .ok (x, .ofText (ch ' ' :: t)) :=
  getItem_found rfl
    (IStream.extract_word hws (fun b hb => isSpace_of_isNumeralChar (hw b (List.mem_of_mem_head? hb))) hne
      (hscan _ (Delimited.blank t))) rfl

theorem getItem_last {scan : Bytes → Option α × Bytes} (ws : Bytes) (item : α) {w : Bytes}
    (hws : ∀ b ∈ ws, isSpace b = true) (hw : ∀ b ∈ w, isNumeralChar b = true) (hne : w ≠ [])
    (hscan : ∀ t, Delimited t → scan (w ++ t) = (some x, t)) :
    getItem (IStream.extract scan) (.ofText (ws ++ w)) item = .ok (x, IStream.rest [] true) := by
  have hfound := IStream.extract_word hws
    (fun b hb => isSpace_of_isNumeralChar (hw b (List.mem_of_mem_head? hb))) hne (hscan _ Delimited.nil)
  rw [List.append_nil] at hfound
  exact getItem_found rfl hfound rfl

end Items

theorem isNumeralChar_formatDouble {x y : Double} (hx : ReadAs x y) {b : Byte} (hb : b ∈ formatDouble x) :
    isNumeralChar b = true := by
  obtain ⟨-, q, r, rfl, -⟩ := hx
  exact (formatReal_wellFormed 15 q).isNumeralChar_render hb

theorem formatDouble_ne_nil {x y : Double} (hx : ReadAs x y) : formatDouble x ≠ [] := by
  obtain ⟨-, q, r, rfl, -⟩ := hx
  simp [formatDouble, RealNumeral.render, (formatReal_wellFormed 15 q).whole_ne]

theorem scanDouble_formatDouble {x y : Double} (hx : ReadAs x y) (t : Bytes) (ht : Delimited t) :
    scanDouble (formatDouble x ++ t) = (some y, t) := by
  obtain ⟨-, q, r, rfl, rfl, hr⟩ := hx
  exact scanDouble_render (formatReal_wellFormed 15 q) hr rfl ht

theorem parseOperation_toText {op : Operation} (h : op.Valid) :
    ∃ c, op.toText = [c] ∧ isSpace c = false ∧ parseOperation c = .ok op := by
  rcases h with rfl | rfl | rfl | rfl <;> exact ⟨_, rfl, by decide, rfl⟩

section Line
variable {d : ClientData} {x y : Double} (u : Locals) (clientId : Bytes)

theorem parse_front (h1 : ReadAs d.operand1 x) (t : Bytes) :
    getItem (IStream.extract scanInt32) (.ofText (formatInt d.id.1 ++ ch ' ' :: (formatDouble d.operand1 ++
        ch ' ' :: t))) u.id =
      .ok (d.id, .ofText (ch ' ' :: (formatDouble d.operand1 ++ ch ' ' :: t))) ∧
    getItem (IStream.extract scanDouble) (.ofText (ch ' ' :: (formatDouble d.operand1 ++ ch ' ' :: t))) u.operand1 =
      .ok (x, .ofText (ch ' ' :: t)) := by
  refine ⟨?_, ?_⟩
  · exact getItem_word [] (by simp) (fun _ => isNumeralChar_formatInt) (formatInt_ne_nil _)
      fun _ => scanInt32_formatInt d.id
  · exact getItem_word [ch ' '] isSpace_blank (fun _ => isNumeralChar_formatDouble h1)
      (formatDouble_ne_nil h1) (scanDouble_formatDouble h1)

theorem getItem_operator (op : Byte) {c : Byte} (hc : isSpace c = false) (t : Bytes) :
    getItem IStream.extractChar (.ofText (ch ' ' :: c :: t)) op = .ok (c, .ofText t) :=
  getItem_found rfl (IStream.extractChar_word [ch ' '] isSpace_blank hc t) rfl

/-- **A printed line parses to its datum** as its operands are read, with the scraper's client id and whatever
padding there is. -/
theorem parseDatum_printLine (hop : d.operation.Valid) (h1 : ReadAs d.operand1 x) (h2 : ReadAs d.operand2 y) :
    parseDatum u clientId (printLine d) =
      .ok { d with clientId, operand1 := x, operand2 := y, padding := u.padding } := by
  obtain ⟨c, hc, hspace, hparse⟩ := parseOperation_toText hop
  obtain ⟨hid, hoperand1⟩ := parse_front u h1 (c :: ch ' ' :: formatDouble d.operand2)
  have hop := getItem_operator u.op hspace (ch ' ' :: formatDouble d.operand2)
  have hoperand2 := getItem_last [ch ' '] u.operand2 isSpace_blank
    (fun _ => isNumeralChar_formatDouble h2) (formatDouble_ne_nil h2) (scanDouble_formatDouble h2)
  rw [List.singleton_append] at hoperand2
  simp only [parseDatum, printLine, hc, List.singleton_append, hid, hoperand1, hop, hparse, hoperand2, ok_bind,
    pure_eq_ok]

theorem parseDatum_printLine_nop (hop : d.operation = .nop) (h1 : ReadAs d.operand1 x) :
    parseDatum u clientId (printLine d) = .error .badDataError := by
  have htext : d.operation.toText = ch 'N' :: "OP".toList.map ch := by rw [hop]; rfl
  obtain ⟨hid, hoperand1⟩ := parse_front u h1 (ch 'N' :: ("OP".toList.map ch ++ ch ' ' :: formatDouble d.operand2))
  have hop := getItem_operator u.op (c := ch 'N') (by decide)
    ("OP".toList.map ch ++ ch ' ' :: formatDouble d.operand2)
  simp only [parseDatum, printLine, htext, List.cons_append, hid, hoperand1, hop, ok_bind]
  rfl

end Line

/-! ## A printed line fits the buffer -/

theorem length_formatDouble {x y : Double} (hx : ReadAs x y) : (formatDouble x).length ≤ 22 := by
  obtain ⟨hproper, q, r, rfl, -⟩ := hx
  exact length_render_formatReal (Double.Representable.inRange hproper)

theorem length_toText {op : Operation} (h : op.Named) : op.toText.length ≤ 3 := by
  rcases h with rfl | rfl | rfl | rfl | rfl <;> decide

theorem length_printLine {d : ClientData} {x y : Double} (hop : d.operation.Named) (h1 : ReadAs d.operand1 x)
    (h2 : ReadAs d.operand2 y) : (printLine d).length < maxInputLength := by
  have hid := length_formatInt d.id
  have hoperand1 := length_formatDouble h1
  have hoperand2 := length_formatDouble h2
  have htext := length_toText hop
  simp only [printLine, List.length_append, List.length_cons, maxInputLength]
  omega

theorem printLine_ne_nil (d : ClientData) : printLine d ≠ [] := by simp [printLine, formatInt_ne_nil]

theorem clean_toText {op : Operation} (h : op.Named) : Clean op.toText := by
  rcases h with rfl | rfl | rfl | rfl | rfl <;> exact ⟨by decide, by decide⟩

theorem clean_of_isNumeralChar {w : Bytes} (h : ∀ b ∈ w, isNumeralChar b = true) : Clean w :=
  ⟨fun hb => absurd (h _ hb) (by decide), fun hb => ne_nul_of_isNumeralChar (h _ hb) rfl⟩

theorem clean_blank {v w : Bytes} (hv : Clean v) (hw : Clean w) : Clean (v ++ ch ' ' :: w) := by
  constructor
  · have hblank : newline ≠ ch ' ' := by decide
    simp [hv.newline, hw.newline, hblank]
  · have hblank : (0 : Byte) ≠ ch ' ' := by decide
    simp [hv.nul, hw.nul, hblank]

theorem clean_printLine_of_readAs {d : ClientData} {x y : Double} (hop : d.operation.Named) (h1 : ReadAs d.operand1 x)
    (h2 : ReadAs d.operand2 y) : Clean (printLine d) :=
  clean_blank (clean_of_isNumeralChar fun _ => isNumeralChar_formatInt)
    (clean_blank (clean_of_isNumeralChar fun _ => isNumeralChar_formatDouble h1)
      (clean_blank (clean_toText hop) (clean_of_isNumeralChar fun _ => isNumeralChar_formatDouble h2)))

theorem clean_printLine {d : ClientData} (hop : d.operation.Named) (h1 : Printable d.operand1)
    (h2 : Printable d.operand2) : Clean (printLine d) := clean_printLine_of_readAs hop h1.readAs h2.readAs

/-! ## The round trip -/

structure ScrapedAs (clientId : Bytes) (d e : ClientData) : Prop where
  clientId : e.clientId = clientId
  id : e.id = d.id
  operand1 : e.operand1 = d.operand1
  operation : e.operation = d.operation
  operand2 : e.operand2 = d.operand2

/-- What is scraped from printed lines, as far as it is known of each of them. -/
theorem scrapeLines_of_readAs {R : ClientData → ClientData → Prop} (clientId : Bytes) (ds : List ClientData)
    (us : Nat → Locals) (h : ∀ d ∈ ds, d.operation.Named ∧ ∃ x y, ReadAs d.operand1 x ∧ ReadAs d.operand2 y ∧
      ∀ padding, R d { d with clientId, operand1 := x, operand2 := y, padding }) :
    List.Forall₂ R (ds.filter (·.operation ≠ .nop))
      (scrapeLines clientId us (ds.flatMap fun d => [printLine d, []])) := by
  induction ds generalizing us with
  | nil => exact .nil
  | cons d ds ih =>
    obtain ⟨hop, x, y, h1, h2, hR⟩ := h d List.mem_cons_self
    have hds := ih (fun i => us (i + 1)) fun x hx => h x (List.mem_cons_of_mem d hx)
    have hlen := length_printLine hop h1 h2
    have hlines : scrapeLines clientId us ((d :: ds).flatMap fun d => [printLine d, []]) =
        (parseDatum (us 0) clientId (printLine d)).toOption.toList ++
          scrapeLines clientId (fun i => us (i + 1)) (ds.flatMap fun d => [printLine d, []]) := by
      simp [scrapeLines, printLine_ne_nil, hlen, lineData_of_fits clientId (us 0) hlen]
    rw [hlines]
    rcases hop with hnop | hvalid
    · rw [parseDatum_printLine_nop (us 0) clientId hnop h1, List.filter_cons_of_neg (by simp [hnop])]
      exact hds
    · have hne : d.operation ≠ .nop := by
        rcases hvalid with h | h | h | h <;> rw [h] <;> decide
      rw [parseDatum_printLine (us 0) clientId hvalid h1 h2, List.filter_cons_of_pos (by simp [hne])]
      exact .cons (hR _) hds

theorem scrapeLines_printed (clientId : Bytes) (ds : List ClientData) (us : Nat → Locals)
    (h : ∀ d ∈ ds, d.operation.Named ∧ Printable d.operand1 ∧ Printable d.operand2) :
    List.Forall₂ (ScrapedAs clientId) (ds.filter (·.operation ≠ .nop))
      (scrapeLines clientId us (ds.flatMap fun d => [printLine d, []])) :=
  scrapeLines_of_readAs clientId ds us fun d hd =>
    have ⟨hop, h1, h2⟩ := h d hd
    ⟨hop, _, _, h1.readAs, h2.readAs, fun _ => ⟨rfl, rfl, rfl, rfl, rfl⟩⟩

/-- **Scraping undoes printing.** What is scraped from the generator's text are the data it printed,
without those whose operation is `NOP`, under the scraper's client id. -/
theorem scraping_undoes_printing (clientId : Bytes) (us : Nat → Locals) (ds : List ClientData)
    (hop : ∀ d ∈ ds, d.operation.Named) (hdouble : ∀ d ∈ ds, Printable d.operand1 ∧ Printable d.operand2) :
    ∃ out, (∀ out', Pushes (getDatum clientId) us (.ofText (generate ds)) out' ↔ out' = out) ∧
      List.Forall₂ (ScrapedAs clientId) (ds.filter (·.operation ≠ .nop)) out := by
  have hclean : ∀ l ∈ ds.flatMap fun d => [printLine d, []], Clean l := by
    intro l hl
    obtain ⟨d, hd, hl⟩ := List.mem_flatMap.mp hl
    rcases List.mem_pair.mp hl with rfl | rfl
    · exact clean_printLine (hop d hd) (hdouble d hd).1 (hdouble d hd).2
    · exact ⟨by simp, by simp⟩
  have hpushes : Pushes (getDatum clientId) us _ _ := pushes_text us _ hclean
  rw [← generate_eq_text] at hpushes
  exact ⟨_, fun out' => ⟨fun h => h.unique hpushes, fun h => h ▸ hpushes⟩,
    scrapeLines_printed clientId ds us fun d hd => ⟨hop d hd, hdouble d hd⟩⟩

def printedSum : ClientData := ⟨[], ⟨-7, by decide⟩, .finite (1 / 2), .add, .finite (-5 / 2), .replicate 0⟩

def printedNop : ClientData := { printedSum with operation := .nop }

theorem scraping_undoes_printing_of_sum_and_nop :
    ∃ out, (∀ out', Pushes (getDatum (ch 'a' :: [])) (fun _ => .zero)
        (.ofText (generate [printedSum, printedNop, printedSum])) out' ↔ out' = out) ∧
      List.Forall₂ (ScrapedAs (ch 'a' :: [])) [printedSum, printedSum] out := by
  have hdouble : Printable printedSum.operand1 ∧ Printable printedSum.operand2 :=
    ⟨⟨1 / 2, rfl, by decide +kernel⟩, ⟨-5 / 2, rfl, by decide +kernel⟩⟩
  refine scraping_undoes_printing (ch 'a' :: []) (fun _ => .zero) [printedSum, printedNop, printedSum] ?_ ?_
  · simp [Operation.Named, Operation.Valid, printedSum, printedNop]
  · simpa [printedNop] using hdouble

end TCPClientServer.Calculator
