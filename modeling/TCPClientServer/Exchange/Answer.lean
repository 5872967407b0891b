import TCPClientServer.Exchange.Retry

/-!
# What a request is answered with

A pass of `listen` against a peer that sends whatever it likes. A response is given to the strategy when
the error code is clear and the status is `OK`, and both are so after an invalid header if the memory of
the response happens to hold an `OK`: the read returns early and sets neither.

* `AnswerFrame` : a complete frame with a response whose status is `OK`;
* `ConsumedByFrames` : the strategy is given such a response, or nothing is popped;
* `Unread` : the exchange in which this goes wrong;
* `answerFrame_of_handed` : in every other one the response comes from a frame;
* `consumed_by_frames`.
-/

namespace TCPClientServer.Exchange
open TCPClientServer.Basis TCPClientServer.Io TCPClientServer.Server TCPClientServer.Client

section Answer
variable {σ D A : Type} (f : Filter) (cd : Codec D) (cr : Codec (Response A)) (strat : Strategy σ D A)
  (keepAlive : Bool) (l : Listener σ D A) (r : Round D A)

/-- What arrives begins with a whole frame whose body decodes to this response, and its status is `OK`. -/
structure AnswerFrame (s : Source) (resp : Response A) : Prop where
  frame : ∃ size, handleDetermineDataSize (s.bytes.take headerLength) = some size ∧
    headerLength + size ≤ s.bytes.length ∧ decode f cr (Connection.bodyOf s size) = .ok resp
  status : resp.transmissionStatus = .ok

/-- A response given to the strategy was decoded from a frame, and the front of the queue is not popped
without one. -/
structure ConsumedByFrames : Prop where
  handed : ∀ resp, handed (pass f cd cr strat keepAlive l r) = some resp → AnswerFrame f cr r.source resp
  popped : ∀ p, pass f cd cr strat keepAlive l r = .ok p → p.listener.queue ≠ l.queue ++ r.arriving →
    ∃ resp, p.responded = some resp ∧ AnswerFrame f cr r.source resp

/-- A request is written, the header that comes back is not valid, and the memory of the response holds
the status `OK`. -/
structure Unread : Prop where
  sent : ∃ d q, l.queue = d :: q ∧ Written f cd d r.sink
  header : headerLength ≤ r.source.bytes.length
  invalid : handleDetermineDataSize (r.source.bytes.take headerLength) = none
  status : r.fresh.transmissionStatus = .ok

variable {f cd cr strat keepAlive l r}

theorem bodyBuffer_of_complete {size : Nat} (h : headerLength + size ≤ r.source.bytes.length) :
    bodyBuffer l r size = Connection.bodyOf r.source size := by
  refine fill_full ?_
  rw [length_resized, Connection.bodyOf, List.length_take, List.length_drop]
  omega

/-- A response that `send` delivers with a clear error code and the status `OK` comes from a frame, or
from nowhere. -/
theorem answerFrame_of_send {d : D} {sent : Sent A}
    (hsend : send f cd cr l.connection d r.sink r.fresh r.source = .ok sent) (hec : sent.ec = none)
    (hstatus : sent.response.transmissionStatus = .ok) :
    AnswerFrame f cr r.source sent.response ∨
      (Written f cd d r.sink ∧ headerLength ≤ r.source.bytes.length ∧
        handleDetermineDataSize (r.source.bytes.take headerLength) = none ∧
        r.fresh.transmissionStatus = .ok) := by
  by_cases hw : Written f cd d r.sink
  swap
  · obtain ⟨sent', e, hsend', hec'⟩ := send_not_written cr l.connection r.fresh r.source hw
    rw [hsend] at hsend'
    cases hsend'
    rw [hec] at hec'
    cases hec'
  rcases lt_or_ge r.source.bytes.length headerLength with hshort | hheader
  · obtain ⟨r', hread, hec', -⟩ := Connection.read_header_fault (f := f) (c := cr)
      (staged f cd l.connection d) (t := r.fresh) hshort
    rw [send_written hw, hread, ok_bind] at hsend
    cases hsend
    simp [hec'] at hec
  cases hsize : handleDetermineDataSize (r.source.bytes.take headerLength) with
  | none =>
    obtain ⟨r', hread, -, hvalue, -⟩ := Connection.read_invalid (f := f) (c := cr)
      (staged f cd l.connection d) (t := r.fresh) hheader hsize
    rw [send_written hw, hread, ok_bind] at hsend
    cases hsend
    exact .inr ⟨hw, hheader, rfl, hvalue ▸ hstatus⟩
  | some size =>
    rcases lt_or_ge vectorMaxSize size with hlarge | hfit
    · rw [send_written hw, Connection.read_large _ hheader hsize hlarge, error_bind] at hsend
      cases hsend
    obtain ⟨conn, hbody⟩ := send_body cr l ⟨hw, hheader, hsize⟩ hfit
    rw [hsend] at hbody
    obtain ⟨resp, hdec, hresp⟩ := bind_eq_ok.mp hbody.symm
    cases hresp
    rw [Connection.bodyError, ite_eq_left_iff] at hec
    have hcomplete : headerLength + size ≤ r.source.bytes.length := by
      by_contra hcut
      cases hec hcut
    rw [bodyBuffer_of_complete hcomplete] at hdec
    exact .inl ⟨⟨size, hsize, hcomplete, hdec⟩, hstatus⟩

/-- **A response given to the strategy was decoded from a frame**, but for an unread one. -/
theorem answerFrame_of_handed (h : ¬ Unread f cd l r) {resp : Response A}
    (hresp : handed (pass f cd cr strat keepAlive l r) = some resp) : AnswerFrame f cr r.source resp := by
  cases hq : l.queue with
  | nil => simp [Client.pass, hq, Listener.finish, Client.handed] at hresp
  | cons d q =>
    cases hsend : send f cd cr l.connection d r.sink r.fresh r.source with
    | error e => simp [pass_of_throw hq hsend, Client.handed] at hresp
    | ok sent =>
      rw [pass_of_send hq hsend] at hresp
      obtain ⟨hec, hstatus, rfl⟩ := handed_afterSend hresp
      rcases answerFrame_of_send hsend hec hstatus with hframe | ⟨hw, hheader, hinvalid, hfresh⟩
      · exact hframe
      · exact absurd ⟨⟨d, q, hq, hw⟩, hheader, hinvalid, hfresh⟩ h

/-- An unread response is given to the strategy as it is in memory. -/
theorem handed_of_unread (h : Unread f cd l r) : handed (pass f cd cr strat keepAlive l r) = some r.fresh := by
  obtain ⟨d, q, hq, hw⟩ := h.sent
  obtain ⟨r', hread, hec, hvalue, -⟩ := Connection.read_invalid (f := f) (c := cr)
    (staged f cd l.connection d) (t := r.fresh) h.header h.invalid
  have hsend : send f cd cr l.connection d r.sink r.fresh r.source = _ := send_written hw
  rw [hread, ok_bind, hec, hvalue] at hsend
  have hreact : react none r.fresh.transmissionStatus = .respond := react_respond.mpr ⟨rfl, h.status⟩
  rw [pass_of_send hq hsend, afterSend]
  simp only [hreact]
  cases strat.response (strat.request l.strategy d) r.fresh <;> rfl

/-- **No request is consumed without an answer** exactly when the exchange is not one whose header is
invalid while the memory of the response holds an `OK`. -/
theorem consumed_by_frames :
    ConsumedByFrames f cd cr strat keepAlive l r ↔ ¬ Unread f cd l r := by
  constructor
  · intro hconsumed hunread
    obtain ⟨⟨size, hsize, -⟩, -⟩ := hconsumed.handed _ (handed_of_unread hunread)
    rw [hunread.invalid] at hsize
    cases hsize
  · intro h
    refine ⟨fun resp => answerFrame_of_handed h, fun p hp hpopped => ?_⟩
    cases hresponded : p.responded with
    | none =>
      refine absurd (pass_queue hp) ?_
      simpa [hresponded] using hpopped
    | some resp =>
      exact ⟨resp, rfl, answerFrame_of_handed h (by rw [hp]; exact hresponded)⟩

end Answer

/-! ## An answer from nowhere -/

section Example
open Calculator

/-- The request is taken, and eight letters come back as a header. -/
def letterRound : Round ClientData ServerData :=
  ⟨⟨none, .eof⟩, blankResponse, ⟨[List.replicate 8 (ch 'z')], .eof⟩, [], true⟩

theorem not_consumed_by_frames :
    ¬ ∀ (l : Listener Padding ClientData ServerData) (r : Round ClientData ServerData),
      ConsumedByFrames defaultFilter (requestCodec plainArchive) (responseCodec plainArchive) ClientActions false
        l r := by
  intro h
  have hunread : Unread defaultFilter (requestCodec plainArchive) sumListener letterRound :=
    ⟨⟨sumRequest, [], rfl, sumRequest_accepted, by simp [Sink.Takes, letterRound]⟩, by decide, by decide, rfl⟩
  obtain ⟨⟨size, hsize, -⟩, -⟩ := (h sumListener letterRound).handed _ (handed_of_unread hunread)
  rw [hunread.invalid] at hsize
  cases hsize

end Example

end TCPClientServer.Exchange
