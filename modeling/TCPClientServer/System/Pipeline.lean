import TCPClientServer.Calculator.Generator
import TCPClientServer.System.Transcript

/-!
# From the generator to the results

The output of the data generator is the input of a client. What the client's strategy writes is then known down to the
texts of the requests: they are those of the data generated, as they were generated, without the `NOP`s.

* `RequestsOf` : what is written about a datum that is answered;
* `generated_shown`.
-/

namespace TCPClientServer.System
open TCPClientServer.Basis TCPClientServer.Io TCPClientServer.Server TCPClientServer.Client TCPClientServer.Calculator

/-- The result of what is scraped of the datum is not zero, or the zero of a sum or a difference, which has no sign. -/
def Unsigned (d : ClientData) : Prop :=
  d.operation.answer (rereadDouble d.operand1) (rereadDouble d.operand2) = .ok (.finite 0) →
    d.operation = .add ∨ d.operation = .subtract

/-- The text about a datum that is answered: the request as it was generated, once or more often, and the response to
what was scraped of it. -/
def RequestsOf (clientId : Bytes) (timeText : Int → Bytes) (d : ClientData) (piece : Bytes) : Prop :=
  ∃ n e r, ReprintedAs clientId d e ∧ Answers e r ∧
    (r.data.result = .finite 0 → d.operation = .add ∨ d.operation = .subtract) ∧
    piece = (List.replicate (n + 1) (requestText d)).flatten ++ responseText timeText r

theorem requestsOf_reread {clientId : Bytes} {timeText : Int → Bytes} {d e : ClientData} {r : Response ServerData}
    (hunsigned : Unsigned d) (h : RereadAs clientId d e) (hr : Answers e r) (n : Nat) :
    RequestsOf clientId timeText d (answeredText timeText n e r) := by
  refine ⟨n, e, r, h.toReprintedAs, hr, fun hzero => hunsigned ?_, by rw [answeredText, h.requestText]⟩
  have hanswer := hr.result
  rwa [h.operation, h.reread1, h.reread2, hzero] at hanswer

section Calculator
variable {z : Zlib} {compressed : Bool} {ar : TextArchive} {ρ : Type} {dice : Dice ρ}

def valid (ds : List ClientData) : List ClientData := ds.filter (·.operation ≠ .nop)

theorem printed_shown (hz : compressed = true → z.Lawful) (har : ar.Lawful) (timeText : Int → Bytes)
    {ds : List ClientData} (hop : ∀ d ∈ ds, d.operation.Named)
    (hordinary : ∀ d ∈ ds, OrdinaryOperand d.operand1 ∧ OrdinaryOperand d.operand2)
    (hunsigned : ∀ d ∈ ds, Unsigned d) {clientId : Bytes} {keepAlive secured : Bool} {padding : Padding}
    {connection : Connection} {cdata : ClientData} {response : Response ServerData} {ls : List Label} {s : State}
    (hrun : Runs (StepOf (State.step (createFilter z compressed) (requestCodec ar) (responseCodec ar) clientId keepAlive
      secured)) (.init (.ofText (generate ds)) padding connection cdata response) ls s) :
    ∃ pieces again,
      (outputs (State.step (createFilter z compressed) (requestCodec ar) (responseCodec ar) clientId keepAlive secured)
        (State.calls (createFilter z compressed) (responseCodec ar))
          (.init (.ofText (generate ds)) padding connection cdata response) ls).flatMap (callText timeText) =
            pieces.flatten ++ again.flatMap requestText ∧
      List.Forall₂ (RequestsOf clientId timeText) ((valid ds).take pieces.length) pieces ∧
      (∀ d ∈ again, (valid ds)[pieces.length]? = some d) ∧
      (keepAlive = false → s.threads.client.pc = .returned →
        Always (StepOf (State.step (createFilter z compressed) (requestCodec ar) (responseCodec ar) clientId keepAlive
          secured)) (State.Settled clientId) (.init (.ofText (generate ds)) padding connection cdata response) ls →
        pieces.length = (valid ds).length ∧ again = []) := by
  have hrequest : ∀ d e, Unsigned d ∧ RereadAs clientId d e → requestText e = requestText d :=
    fun d e h => h.2.requestText
  have hpiece : ∀ d e r n, Unsigned d ∧ RereadAs clientId d e → Answers e r →
      RequestsOf clientId timeText d (answeredText timeText n e r) := fun d e r n h hr => requestsOf_reread h.1 h.2 hr n
  have hdata : ∀ us, List.Forall₂ (fun d e => Unsigned d ∧ RereadAs clientId d e) (valid ds)
      (dataIn clientId us (readable (generate ds))) := fun us =>
    (List.forall₂_and_left _ _).mpr ⟨fun d hd => hunsigned d (List.mem_of_mem_filter hd),
      reread_dataIn clientId us ds hop hordinary⟩
  exact written_of_data hz har hrequest hpiece hdata hrun

/-- **What is generated is shown.** When a client is fed with the generator's output, whatever is drawn as long as no
product or quotient comes out zero, what its strategy writes in a run are the pieces about the first data that were
generated with another operation than `NOP`, in the order of their ids and with the texts that were generated, and
perhaps the request of the next one; when the client has returned, after settled stops only, the pieces about all of
them. -/
theorem generated_shown (hz : compressed = true → z.Lawful) (har : ar.Lawful) (timeText : Int → Bytes) {n : DataSize}
    {engine : ρ} (hordinary : ∀ d ∈ generated dice n engine, OrdinaryOperand d.operand1 ∧ OrdinaryOperand d.operand2)
    (hunsigned : ∀ d ∈ generated dice n engine, Unsigned d) {clientId : Bytes} {keepAlive secured : Bool}
    {padding : Padding} {connection : Connection} {cdata : ClientData} {response : Response ServerData}
    {ls : List Label} {s : State}
    (hrun : Runs (StepOf (State.step (createFilter z compressed) (requestCodec ar) (responseCodec ar) clientId keepAlive
      secured)) (.init (.ofText (generate (generated dice n engine))) padding connection cdata response) ls s) :
    ((valid (generated dice n engine)).map fun d => d.id.1).Pairwise (· < ·) ∧ ∃ pieces again,
      (outputs (State.step (createFilter z compressed) (requestCodec ar) (responseCodec ar) clientId keepAlive secured)
        (State.calls (createFilter z compressed) (responseCodec ar))
          (.init (.ofText (generate (generated dice n engine))) padding connection cdata response) ls).flatMap
            (callText timeText) = pieces.flatten ++ again.flatMap requestText ∧
      List.Forall₂ (RequestsOf clientId timeText) ((valid (generated dice n engine)).take pieces.length) pieces ∧
      (∀ d ∈ again, (valid (generated dice n engine))[pieces.length]? = some d) ∧
      (keepAlive = false → s.threads.client.pc = .returned →
        Always (StepOf (State.step (createFilter z compressed) (requestCodec ar) (responseCodec ar) clientId keepAlive
          secured)) (State.Settled clientId)
            (.init (.ofText (generate (generated dice n engine))) padding connection cdata response) ls →
        pieces.length = (valid (generated dice n engine)).length ∧ again = []) := by
  have hids : (valid (generated dice n engine)).Sublist (generated dice n engine) := List.filter_sublist
  exact ⟨ids_increase hids, printed_shown hz har timeText (named_generated n engine) hordinary hunsigned hrun⟩

/-- Dice that give a sum of two and three, and then a `NOP`. -/
def sumThenNop : Dice Nat where
  operation k := (if k = 0 then 1 else 0, k + 1)
  operand k := (.finite (k + 1), k + 1)

/-- The generated sum is sent twice over two connections and answered, the scraper comes to the end of the text, and
the client returns. -/
def generatedSum : List Label :=
  resentSum ++ List.replicate 8 (Label.thread (.scrape .zero)) ++ List.replicate 3 (Label.thread (.client .internal))

theorem generated_shown_sum :
    ∃ s pieces, Runs (StepOf (State.step (createFilter ⟨id, .ok⟩ false) (requestCodec plainArchive)
        (responseCodec plainArchive) [ch 'a'] false false))
          (.init (.ofText (generate (generated sumThenNop ⟨2, by decide⟩ 0))) (.replicate 0) .fresh blankRequest
            blankResponse) generatedSum s ∧
      List.Forall₂ (RequestsOf [ch 'a'] fun _ => []) (valid (generated sumThenNop ⟨2, by decide⟩ 0)) pieces ∧
      (outputs (State.step (createFilter ⟨id, .ok⟩ false) (requestCodec plainArchive) (responseCodec plainArchive)
        [ch 'a'] false false) (State.calls (createFilter ⟨id, .ok⟩ false) (responseCodec plainArchive))
          (.init (.ofText (generate (generated sumThenNop ⟨2, by decide⟩ 0))) (.replicate 0) .fresh blankRequest
            blankResponse) generatedSum).flatMap (callText fun _ => []) = pieces.flatten := by
  have hplay : (play (guarded (State.step (createFilter ⟨id, .ok⟩ false) (requestCodec plainArchive)
      (responseCodec plainArchive) [ch 'a'] false false) (State.Settled [ch 'a']))
        (.init (.ofText (generate (generated sumThenNop ⟨2, by decide⟩ 0))) (.replicate 0) .fresh blankRequest
          blankResponse) generatedSum).any (fun s => decide (s.threads.client.pc = .returned)) = true := by
    decide +kernel
  have hordinary : ∀ d ∈ generated sumThenNop ⟨2, by decide⟩ 0,
      OrdinaryOperand d.operand1 ∧ OrdinaryOperand d.operand2 := by
    have hdraw : ∀ k < 6, OrdinaryOperand (sumThenNop.operand k).1 := fun k hk =>
      ⟨⟨k + 1, by interval_cases k <;> decide +kernel⟩, k + 1, rfl, by interval_cases k <;> decide +kernel⟩
    intro d hd
    rcases List.mem_pair.mp hd with rfl | rfl
    · exact ⟨hdraw 1 (by decide), hdraw 2 (by decide)⟩
    · exact ⟨hdraw 4 (by decide), hdraw 5 (by decide)⟩
  have hunsigned : ∀ d ∈ generated sumThenNop ⟨2, by decide⟩ 0, Unsigned d := by
    intro d hd
    rcases List.mem_pair.mp hd with rfl | rfl
    · exact fun _ => .inl rfl
    · exact nofun
  obtain ⟨s, hs, hpc⟩ := (Option.any_eq_true _ _).mp hplay
  obtain ⟨hrun, hsettled⟩ := runs_of_play_guarded hs
  obtain ⟨-, pieces, again, htext, hpieces, -, hend⟩ :=
    generated_shown (by simp) plainArchive_lawful (fun _ => []) hordinary hunsigned hrun
  obtain ⟨hlength, rfl⟩ := hend rfl (of_decide_eq_true hpc) hsettled
  rw [List.flatMap_nil, List.append_nil] at htext
  rw [hlength, List.take_length] at hpieces
  exact ⟨s, pieces, hrun, hpieces, htext⟩

end Calculator

end TCPClientServer.System
