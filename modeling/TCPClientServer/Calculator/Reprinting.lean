import TCPClientServer.Basis.Significant
import TCPClientServer.Calculator.Actions
import TCPClientServer.Calculator.Printing

/-!
# Printing what was scraped

The data generator prints operands at precision 15, which is less than a `double` has. What the scraper gets is close
to what was generated, and from then on nothing is lost: it is printed with the same digits, by the generator's
operator and by the client's strategy, and scraped again as it is.

* `requestText`, `responseText` : what the strategy writes;
* `OrdinaryOperand`, `readAs_rereadDouble` : the operands that are read back, and as what;
* `ReprintedAs`, `RereadAs` : a datum as it is scraped from its printed line;
* `reprinting_keeps_text`.
-/

namespace TCPClientServer.Calculator
open TCPClientServer.Basis TCPClientServer.Io TCPClientServer.Server TCPClientServer.Client

def chars (s : String) : Bytes := s.toList.map ch

/-- What `request_type::operator()` writes. -/
def requestText (d : ClientData) : Bytes :=
  chars "Request Id: " ++ (formatInt d.id.1 ++ (chars ". Request: " ++ (formatDouble d.operand1 ++
    ch ' ' :: (d.operation.toText ++ ch ' ' :: (formatDouble d.operand2 ++ [ch '.', newline, newline])))))

/-- What `response_type::operator()` writes, with the text of a time. -/
def responseText (timeText : Int → Bytes) (r : Response ServerData) : Bytes :=
  chars "Request Id: " ++ (formatInt r.data.id.1 ++ (ch '.' :: newline :: (chars "Result: " ++
    (formatDouble r.data.result ++ (chars ", computed at " ++ (timeText r.data.timestamp ++
      [ch '.', newline, newline]))))))

/-! ## One operand -/

def OrdinaryOperand (x : Double) : Prop := x.Proper ∧ ∃ q, x = .finite q ∧ Ordinary q

/-- The `double` that what is printed for another is read as. -/
def rereadDouble : Double → Double
  | .finite q => .finite (reread q)
  | x => x

/-- Close to each other, as far as the first 14 digits go. -/
def Close (x y : Double) : Prop := ∃ p q : ℚ, x = .finite p ∧ y = .finite q ∧ |q - p| * 10 ^ 14 ≤ |p|

section Operand
variable {x : Double}

theorem readAs_rereadDouble (h : OrdinaryOperand x) : ReadAs x (rereadDouble x) := by
  obtain ⟨hproper, q, rfl, hq⟩ := h
  exact ⟨hproper, q, _, rfl, rfl, hq.ofRat_toRat⟩

theorem formatDouble_rereadDouble (h : OrdinaryOperand x) : formatDouble (rereadDouble x) = formatDouble x := by
  obtain ⟨-, q, rfl, hq⟩ := h
  rw [rereadDouble, formatDouble, formatDouble, hq.formatReal_reread]

theorem printable_rereadDouble (h : OrdinaryOperand x) : Printable (rereadDouble x) := by
  obtain ⟨-, q, rfl, hq⟩ := h
  exact ⟨reread q, rfl, by rw [hq.formatReal_reread]; exact hq.ofRat_toRat⟩

theorem close_rereadDouble (h : OrdinaryOperand x) : Close x (rereadDouble x) := by
  obtain ⟨-, q, rfl, hq⟩ := h
  exact ⟨q, reread q, rfl, rfl, hq.abs_reread_sub_self_le⟩

end Operand

/-! ## Data -/

/-- A datum as it is scraped from its printed line. -/
structure ReprintedAs (clientId : Bytes) (d e : ClientData) : Prop where
  clientId : e.clientId = clientId
  id : e.id = d.id
  operation : e.operation = d.operation
  operand1 : Close d.operand1 e.operand1
  operand2 : Close d.operand2 e.operand2
  text1 : formatDouble e.operand1 = formatDouble d.operand1
  text2 : formatDouble e.operand2 = formatDouble d.operand2
  printable : Printable e.operand1 ∧ Printable e.operand2

/-- Reprinted, and as exactly which datum. -/
structure RereadAs (clientId : Bytes) (d e : ClientData) : Prop extends ReprintedAs clientId d e where
  reread1 : e.operand1 = rereadDouble d.operand1
  reread2 : e.operand2 = rereadDouble d.operand2

section Data
variable {clientId : Bytes} {ds es : List ClientData} {d e : ClientData}

theorem ReprintedAs.printLine (h : ReprintedAs clientId d e) : printLine e = printLine d := by
  rw [Calculator.printLine, Calculator.printLine, h.id, h.operation, h.text1, h.text2]

theorem ReprintedAs.requestText (h : ReprintedAs clientId d e) : requestText e = requestText d := by
  rw [Calculator.requestText, Calculator.requestText, h.id, h.operation, h.text1, h.text2]

theorem rereadAs_of_ordinary (h1 : OrdinaryOperand d.operand1) (h2 : OrdinaryOperand d.operand2) (padding : Padding) :
    RereadAs clientId d
      { d with clientId, operand1 := rereadDouble d.operand1, operand2 := rereadDouble d.operand2, padding } where
  clientId := rfl
  id := rfl
  operation := rfl
  operand1 := close_rereadDouble h1
  operand2 := close_rereadDouble h2
  text1 := formatDouble_rereadDouble h1
  text2 := formatDouble_rereadDouble h2
  printable := ⟨printable_rereadDouble h1, printable_rereadDouble h2⟩
  reread1 := rfl
  reread2 := rfl

theorem exists_reprinted (h : List.Forall₂ (ReprintedAs clientId) ds es) (he : e ∈ es) :
    ∃ d ∈ ds, ReprintedAs clientId d e := by
  induction h with
  | nil => simp at he
  | cons hd _ ih =>
    rcases List.mem_cons.mp he with rfl | he
    · exact ⟨_, List.mem_cons_self, hd⟩
    · obtain ⟨d, hmem, hd⟩ := ih he
      exact ⟨d, List.mem_cons_of_mem _ hmem, hd⟩

theorem generate_of_reprinted (h : List.Forall₂ (ReprintedAs clientId) ds es) : generate es = generate ds := by
  induction h with
  | nil => rfl
  | cons hd hds ih =>
    rw [generate, List.flatMap_cons, ← generate, ih, print, hd.printLine]
    rfl

theorem requestTexts_of_reprinted (h : List.Forall₂ (ReprintedAs clientId) ds es) :
    es.map requestText = ds.map requestText := by
  induction h with
  | nil => rfl
  | cons hd hds ih => rw [List.map_cons, List.map_cons, ih, hd.requestText]

theorem clean_printed (h : ∀ d ∈ ds, d.operation.Named ∧ ∃ x y, ReadAs d.operand1 x ∧ ReadAs d.operand2 y) :
    ∀ l ∈ ds.flatMap fun d => [printLine d, []], Clean l ∧ l.length < maxInputLength := by
  intro l hl
  obtain ⟨d, hd, hl⟩ := List.mem_flatMap.mp hl
  obtain ⟨hop, x, y, h1, h2⟩ := h d hd
  rcases List.mem_pair.mp hl with rfl | rfl
  · exact ⟨clean_printLine_of_readAs hop h1 h2, length_printLine hop h1 h2⟩
  · exact ⟨⟨by simp, by simp⟩, by decide⟩

theorem read_of_ordinary (hop : ∀ d ∈ ds, d.operation.Named)
    (hordinary : ∀ d ∈ ds, OrdinaryOperand d.operand1 ∧ OrdinaryOperand d.operand2) :
    ∀ d ∈ ds, d.operation.Named ∧ ∃ x y, ReadAs d.operand1 x ∧ ReadAs d.operand2 y := fun d hd =>
  ⟨hop d hd, _, _, readAs_rereadDouble (hordinary d hd).1, readAs_rereadDouble (hordinary d hd).2⟩

/-- The generator's text is scraped line by line. -/
theorem pushes_generate (clientId : Bytes) (us : Nat → Locals)
    (h : ∀ d ∈ ds, d.operation.Named ∧ ∃ x y, ReadAs d.operand1 x ∧ ReadAs d.operand2 y) :
    Pushes (getDatum clientId) us (.ofText (generate ds))
      (scrapeLines clientId us (ds.flatMap fun d => [printLine d, []])) := by
  rw [generate_eq_text]
  exact pushes_text us _ fun l hl => (clean_printed h l hl).1

/-- What is scraped from the generator's lines are these, reprinted. -/
theorem reread_scrapeLines (clientId : Bytes) (us : Nat → Locals) (hop : ∀ d ∈ ds, d.operation.Named)
    (hordinary : ∀ d ∈ ds, OrdinaryOperand d.operand1 ∧ OrdinaryOperand d.operand2) :
    List.Forall₂ (RereadAs clientId) (ds.filter (·.operation ≠ .nop))
      (scrapeLines clientId us (ds.flatMap fun d => [printLine d, []])) :=
  scrapeLines_of_readAs clientId ds us fun d hd => ⟨hop d hd, _, _, readAs_rereadDouble (hordinary d hd).1,
    readAs_rereadDouble (hordinary d hd).2, rereadAs_of_ordinary (hordinary d hd).1 (hordinary d hd).2⟩

/-- **Printing what was scraped gives the text again.** From the text that the generator prints for any data with
ordinary operands the scraper gets data close to them, without those whose operation is `NOP`; they are printed as
the same text, by the generator's operator and by the client's strategy, and scraped from it unchanged. -/
theorem reprinting_keeps_text (clientId : Bytes) (us : Nat → Locals) (ds : List ClientData)
    (hop : ∀ d ∈ ds, d.operation.Named)
    (hordinary : ∀ d ∈ ds, OrdinaryOperand d.operand1 ∧ OrdinaryOperand d.operand2) :
    ∃ out, (∀ out', Pushes (getDatum clientId) us (.ofText (generate ds)) out' ↔ out' = out) ∧
      List.Forall₂ (ReprintedAs clientId) (ds.filter (·.operation ≠ .nop)) out ∧
      generate out = generate (ds.filter (·.operation ≠ .nop)) ∧
      out.map requestText = (ds.filter (·.operation ≠ .nop)).map requestText ∧
      ∀ us' out', Pushes (getDatum clientId) us' (.ofText (generate out)) out' →
        List.Forall₂ (ScrapedAs clientId) out out' := by
  have hpushes := pushes_generate clientId us (read_of_ordinary hop hordinary)
  have hreprinted := (reread_scrapeLines clientId us hop hordinary).imp fun d e h => h.toReprintedAs
  refine ⟨_, fun out' => ⟨fun h => h.unique hpushes, fun h => h ▸ hpushes⟩, hreprinted,
    generate_of_reprinted hreprinted, requestTexts_of_reprinted hreprinted, fun us' out' hpushes' => ?_⟩
  set out := scrapeLines clientId us (ds.flatMap fun d => [printLine d, []])
  have hout : ∀ e ∈ out, e.operation ≠ .nop ∧ e.operation.Named ∧ Printable e.operand1 ∧ Printable e.operand2 := by
    intro e he
    obtain ⟨d, hd, hde⟩ := exists_reprinted hreprinted he
    obtain ⟨hd, hnop⟩ := List.mem_filter.mp hd
    rw [hde.operation]
    exact ⟨by simpa using hnop, hop d hd, hde.printable⟩
  have hfilter : out.filter (·.operation ≠ .nop) = out := List.filter_eq_self.mpr fun e he => by
    simpa using (hout e he).1
  have hagain := pushes_generate clientId us' fun e he =>
    ⟨(hout e he).2.1, _, _, (hout e he).2.2.1.readAs, (hout e he).2.2.2.readAs⟩
  rw [hpushes'.unique hagain]
  conv => arg 2; rw [← hfilter]
  exact scrapeLines_printed clientId out us' fun e he => (hout e he).2

end Data

def third : Double := .finite (6004799503160661 / 2 ^ 54)

def printedQuotient : ClientData := { printedSum with operand1 := third, operation := .divide }

theorem reprinting_keeps_text_of_quotient :
    ∃ out, (∀ out', Pushes (getDatum [ch 'a']) (fun _ => .zero) (.ofText (generate [printedQuotient, printedNop]))
        out' ↔ out' = out) ∧
      List.Forall₂ (ReprintedAs [ch 'a']) [printedQuotient] out ∧
      generate out = generate [printedQuotient] ∧
      out.map requestText = [printedQuotient].map requestText ∧
      ∀ us' out', Pushes (getDatum [ch 'a']) us' (.ofText (generate out)) out' →
        List.Forall₂ (ScrapedAs [ch 'a']) out out' := by
  have hthird : OrdinaryOperand third := ⟨⟨1 / 3, by decide +kernel⟩, _, rfl, by decide +kernel⟩
  have hsum1 : OrdinaryOperand printedSum.operand1 := ⟨⟨1 / 2, by decide +kernel⟩, _, rfl, by decide +kernel⟩
  have hsum2 : OrdinaryOperand printedSum.operand2 := ⟨⟨-5 / 2, by decide +kernel⟩, _, rfl, by decide +kernel⟩
  refine reprinting_keeps_text [ch 'a'] (fun _ => .zero) [printedQuotient, printedNop] ?_ ?_
  · simp [Operation.Named, Operation.Valid, printedQuotient, printedNop, printedSum]
  · intro d hd
    rcases List.mem_pair.mp hd with rfl | rfl
    · exact ⟨hthird, hsum2⟩
    · exact ⟨hsum1, hsum2⟩

end TCPClientServer.Calculator
