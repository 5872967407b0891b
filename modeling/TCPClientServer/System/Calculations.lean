import TCPClientServer.Basis.Integers
import TCPClientServer.System.Transcript

/-!
# Calculations with integers

Operands and results with at most 15 digits go through the numerals, the `double`s, the archives, the network and
the server without a loss: for calculations with integers that come out even, what is typed in settles what is
written, down to the last digit.

* `Calculation` : a calculation with its result; `line`, `requestText`, `responseText` : how it is typed and written;
* `typed_dataIn` : what the scraper gets from the lines;
* `Shown` : the text about calculations that are answered;
* `calculations_shown`.
-/

namespace TCPClientServer.System
open TCPClientServer.Basis TCPClientServer.Io TCPClientServer.Server TCPClientServer.Client TCPClientServer.Calculator

/-- A calculation with integers of at most 15 digits that has such a result. A product or a quotient is not zero: it
may be written with a sign. -/
structure Calculation where
  id : Int32t
  operand1 : Int
  operation : Operation
  operand2 : Int
  result : Int
  exact : operation.exactResult operand1 operand2 = some (result : ℚ)
  digits1 : operand1.natAbs < 10 ^ 15
  digits2 : operand2.natAbs < 10 ^ 15
  digits : result.natAbs < 10 ^ 15
  unsigned : result = 0 → operation = .add ∨ operation = .subtract

namespace Calculation

def datum (c : Calculation) : ClientData :=
  ⟨[], c.id, .finite c.operand1, c.operation, .finite c.operand2, .replicate 0⟩

def line (c : Calculation) : Bytes :=
  formatInt c.id.1 ++ ch ' ' :: (formatInt c.operand1 ++ ch ' ' :: (c.operation.toText ++
    ch ' ' :: formatInt c.operand2))

def requestText (c : Calculation) : Bytes :=
  chars "Request Id: " ++ (formatInt c.id.1 ++ (chars ". Request: " ++ (formatInt c.operand1 ++
    ch ' ' :: (c.operation.toText ++ ch ' ' :: (formatInt c.operand2 ++ [ch '.', newline, newline])))))

def responseText (time : Bytes) (c : Calculation) : Bytes :=
  chars "Request Id: " ++ (formatInt c.id.1 ++ (ch '.' :: newline :: (chars "Result: " ++
    (formatInt c.result ++ (chars ", computed at " ++ (time ++ [ch '.', newline, newline]))))))

structure Typed (c : Calculation) (d : ClientData) : Prop where
  id : d.id = c.id
  operand1 : d.operand1 = .finite c.operand1
  operation : d.operation = c.operation
  operand2 : d.operand2 = .finite c.operand2

theorem valid (c : Calculation) : c.operation.Valid := by
  have hexact := c.exact
  cases h : c.operation <;> simp_all [Operation.exactResult, Operation.Valid]

theorem ofRat_intCast {n : Int} (h : n.natAbs < 10 ^ 15) : Double.ofRat n = .finite n := by
  refine Basis.Double.ofRat_intCast ?_
  rw [Int.abs_eq_natAbs]
  omega

theorem formatDouble_intCast {n : Int} (h : n.natAbs < 10 ^ 15) : formatDouble (.finite n) = formatInt n :=
  render_formatReal_intCast h

theorem printable_intCast {n : Int} (h : n.natAbs < 10 ^ 15) : Printable (.finite n) :=
  ⟨n, rfl, by rw [toRat_formatReal_intCast h, ofRat_intCast h]⟩

theorem printLine_datum (c : Calculation) : printLine c.datum = c.line := by
  rw [printLine, datum, formatDouble_intCast c.digits1, formatDouble_intCast c.digits2, line]

end Calculation

/-! ## What is typed -/

section Lines
variable (clientId : Bytes)

/-- **The data of the lines are those of the calculations.** -/
theorem typed_dataIn (us : Nat → Locals) (cs : List Calculation) :
    List.Forall₂ Calculation.Typed cs (dataIn clientId us (readable (text (cs.map Calculation.line)))) := by
  have hline : ∀ c : Calculation, Clean c.line ∧ c.line.length < maxInputLength := fun c => by
    have h1 := Calculation.printable_intCast c.digits1
    have h2 := Calculation.printable_intCast c.digits2
    rw [← c.printLine_datum]
    exact ⟨clean_printLine (.inr c.valid) h1 h2, length_printLine (.inr c.valid) h1.readAs h2.readAs⟩
  rw [readable_text fun l hl => by
    obtain ⟨c, -, rfl⟩ := List.mem_map.mp hl
    exact hline c]
  induction cs generalizing us with
  | nil => exact .nil
  | cons c cs ih =>
    have hparse := parseDatum_printLine (us 0) clientId (d := c.datum) c.valid
      (Calculation.printable_intCast c.digits1).readAs (Calculation.printable_intCast c.digits2).readAs
    rw [List.map_cons, List.cons_append, dataIn, lineBuffer_eq_self (hline c).1 (hline c).2,
      datumIn_of_ok (c.printLine_datum ▸ hparse), List.singleton_append]
    exact .cons ⟨rfl, rfl, rfl, rfl⟩ (ih _)

end Lines

/-! ## What is written -/

def Calculation.ShownAs (timeText : Int → Bytes) (c : Calculation) (piece : Bytes) : Prop :=
  ∃ n now, piece = (List.replicate (n + 1) c.requestText).flatten ++ c.responseText (timeText now)

def Shown (timeText : Int → Bytes) (cs : List Calculation) (t : Bytes) : Prop :=
  ∃ pieces, List.Forall₂ (Calculation.ShownAs timeText) cs pieces ∧ t = pieces.flatten

section Text
variable {timeText : Int → Bytes} {c : Calculation} {d : ClientData} {r : Response ServerData}

theorem requestText_of_typed (h : c.Typed d) : Calculator.requestText d = c.requestText := by
  rw [Calculator.requestText, h.id, h.operand1, h.operation, h.operand2,
    Calculation.formatDouble_intCast c.digits1, Calculation.formatDouble_intCast c.digits2, Calculation.requestText]

/-- The server calculates the result itself. -/
theorem result_of_typed (h : c.Typed d) (hr : Answers d r) : r.data.result = .finite c.result := by
  have hanswer := hr.result
  rw [h.operand1, h.operation, h.operand2] at hanswer
  rw [Operation.answer_eq_ofRat hanswer c.exact, Calculation.ofRat_intCast c.digits]

theorem responseText_of_typed (h : c.Typed d) (hr : Answers d r) :
    Calculator.responseText timeText r = c.responseText (timeText r.data.timestamp) := by
  rw [Calculator.responseText, hr.id, h.id, result_of_typed h hr, Calculation.formatDouble_intCast c.digits,
    Calculation.responseText]

/-- **A calculation that is answered is shown.** -/
theorem shownAs_of_typed (h : c.Typed d) (hr : Answers d r) (n : Nat) :
    c.ShownAs timeText (answeredText timeText n d r) :=
  ⟨n, r.data.timestamp, by rw [answeredText, requestText_of_typed h, responseText_of_typed h hr]⟩

end Text

section Calculator
variable {z : Zlib} {compressed : Bool} {ar : TextArchive}

/-- **Calculations with integers are exact.** When they are typed in, what the strategy writes in a run are the
requests and the results of the first of them, each request once or more often, and perhaps the request of the next
one; when the client has returned, after settled stops only, of all of them. -/
theorem calculations_shown (hz : compressed = true → z.Lawful) (har : ar.Lawful) {cs : List Calculation}
    (timeText : Int → Bytes) {clientId : Bytes} {keepAlive secured : Bool} {padding : Padding} {connection : Connection}
    {cdata : ClientData} {response : Response ServerData} {ls : List Label} {s : State}
    (hrun : Runs (StepOf (State.step (createFilter z compressed) (requestCodec ar) (responseCodec ar) clientId keepAlive
      secured)) (.init (.ofText (text (cs.map Calculation.line))) padding connection cdata response) ls s) :
    ∃ k before again,
      (outputs (State.step (createFilter z compressed) (requestCodec ar) (responseCodec ar) clientId keepAlive secured)
        (State.calls (createFilter z compressed) (responseCodec ar))
          (.init (.ofText (text (cs.map Calculation.line))) padding connection cdata response) ls).flatMap
            (callText timeText) = before ++ again.flatMap Calculation.requestText ∧
      Shown timeText (cs.take k) before ∧ (∀ c ∈ again, cs[k]? = some c) ∧
      (keepAlive = false → s.threads.client.pc = .returned →
        Always (StepOf (State.step (createFilter z compressed) (requestCodec ar) (responseCodec ar) clientId keepAlive
          secured)) (State.Settled clientId)
            (.init (.ofText (text (cs.map Calculation.line))) padding connection cdata response) ls →
        cs.length ≤ k ∧ again = []) := by
  obtain ⟨pieces, again, htext, hpieces, hagain, hend⟩ := written_of_data hz har
    (fun c d hc => requestText_of_typed hc) (fun c d r n hc hr => shownAs_of_typed hc hr n)
    (fun us => typed_dataIn clientId us cs) hrun
  refine ⟨pieces.length, _, again, htext, ⟨pieces, hpieces, rfl⟩, hagain, ?_⟩
  intro hkeep hpc hsettled
  obtain ⟨hlength, hnone⟩ := hend hkeep hpc hsettled
  exact ⟨hlength.ge, hnone⟩

def typedSum : Calculation where
  id := ⟨1, by decide⟩
  operand1 := 2
  operation := .add
  operand2 := 3
  result := 5
  exact := by norm_num [Operation.exactResult]
  digits1 := by decide
  digits2 := by decide
  digits := by decide
  unsigned := by decide

/-- The sum is sent twice, and its result is 5. -/
theorem calculations_shown_of_sum :
    ∃ s, Runs (StepOf (State.step (createFilter ⟨id, .ok⟩ false) (requestCodec plainArchive)
        (responseCodec plainArchive) [ch 'a'] false false))
          (.init (.ofText (text ([typedSum].map Calculation.line))) (.replicate 0) .fresh blankRequest blankResponse)
            completedSum s ∧
      Shown (fun _ => []) [typedSum] ((outputs (State.step (createFilter ⟨id, .ok⟩ false) (requestCodec plainArchive)
        (responseCodec plainArchive) [ch 'a'] false false) (State.calls (createFilter ⟨id, .ok⟩ false)
          (responseCodec plainArchive)) (.init (.ofText (text ([typedSum].map Calculation.line))) (.replicate 0) .fresh
            blankRequest blankResponse) completedSum).flatMap (callText fun _ => [])) := by
  have hplay : (play (guarded (State.step (createFilter ⟨id, .ok⟩ false) (requestCodec plainArchive)
      (responseCodec plainArchive) [ch 'a'] false false) (State.Settled [ch 'a']))
        (.init (.ofText (text ([typedSum].map Calculation.line))) (.replicate 0) .fresh blankRequest blankResponse)
          completedSum).any (fun s => decide (s.threads.client.pc = .returned)) = true := by
    decide +kernel
  obtain ⟨s, hs, hpc⟩ := (Option.any_eq_true _ _).mp hplay
  obtain ⟨hrun, hsettled⟩ := runs_of_play_guarded hs
  obtain ⟨k, before, again, htext, hshown, -, hend⟩ :=
    calculations_shown (by simp) plainArchive_lawful (fun _ => []) hrun
  obtain ⟨hk, rfl⟩ := hend rfl (of_decide_eq_true hpc) hsettled
  rw [List.flatMap_nil, List.append_nil] at htext
  rw [List.take_of_length_le hk] at hshown
  exact ⟨s, hrun, htext ▸ hshown⟩

end Calculator

end TCPClientServer.System
