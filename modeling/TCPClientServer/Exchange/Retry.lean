import TCPClientServer.Calculator.Actions
import TCPClientServer.Calculator.Archive

/-!
# A connection that breaks during an exchange

A pass of `listen` whose connection fails, at some byte, with one of the errors after which another
connection is tried. While the request is written or the header of the response read, the pass keeps the
request and asks for another connection. A body that is cut short is decoded all the same, from what was
received over the older contents of the buffer, and what that throws leaves the client.

* `Cut` : where the connection fails; `Retried` : what then ought to happen;
* `retried_of_reported` : it does when `send` reports the error;
* `broken_connection_retried` : this is when the contents of the body buffer decode.
-/

namespace TCPClientServer.Exchange
open TCPClientServer.Basis TCPClientServer.Io TCPClientServer.Server TCPClientServer.Client

section Retry
variable {σ D A : Type} (f : Filter) (cd : Codec D) (cr : Codec (Response A)) (strat : Strategy σ D A)
  (keepAlive : Bool) (l : Listener σ D A) (d : D) (r : Round D A) (e : Fault)

structure BodyBegun (size : Nat) : Prop where
  written : Written f cd d r.sink
  header : headerLength ≤ r.source.bytes.length
  size : handleDetermineDataSize (r.source.bytes.take headerLength) = some size

/-- The connection fails with the error `e` before the exchange is completed. -/
inductive Cut : Prop where
  | request (n : Nat) (accepted : Accepted f cd d) (room : r.sink.room = some n)
      (cut : n < (frame f cd d).length) (fault : r.sink.fault = e)
  | header (written : Written f cd d r.sink) (cut : r.source.bytes.length < headerLength)
      (fault : r.source.fault = e)
  | body (size : Nat) (begun : BodyBegun f cd d r size) (fits : size ≤ vectorMaxSize)
      (cut : r.source.bytes.length < headerLength + size) (fault : r.source.fault = e)

def bodyBuffer (size : Nat) : Bytes :=
  fill (resized l.connection.inboundData size) (Connection.bodyOf r.source size)

/-- The error is reported and the request kept, and `listen` ends with another connection to be tried. -/
structure Retried : Prop where
  reported : ∃ sent, send f cd cr l.connection d r.sink r.fresh r.source = .ok sent ∧ sent.ec = some e
  kept : ∃ p, pass f cd cr strat keepAlive l r = .ok p ∧ p.responded = none ∧
    p.listener.answered = l.answered ∧ p.listener.queue = l.queue ++ r.arriving ∧
    p.connectionOk = false ∧ p.inputOk = true

variable {f cd cr strat keepAlive l d r e} {q : List D}

/-- **An error that `send` reports is followed by a retry.** -/
theorem retried_of_reported (hq : l.queue = d :: q) (he : Broken e)
    (h : ∃ sent, send f cd cr l.connection d r.sink r.fresh r.source = .ok sent ∧ sent.ec = some e) :
    Retried f cd cr strat keepAlive l d r e := by
  refine ⟨h, ?_⟩
  obtain ⟨sent, hsend, hec⟩ := h
  rw [pass_of_send hq hsend, afterSend, hec]
  simp only [react_broken he]
  exact ⟨_, rfl, rfl, rfl, rfl, rfl, by simp [Listener.finish, hq]⟩

variable (cr l) in
theorem send_body {size : Nat} (hb : BodyBegun f cd d r size) (hfit : size ≤ vectorMaxSize) :
    ∃ conn, send f cd cr l.connection d r.sink r.fresh r.source =
      (decode f cr (bodyBuffer l r size) >>= fun resp =>
        .ok ⟨conn, resp, Connection.bodyError r.source size, (frame f cd d).length,
          some (headerLength + (Connection.bodyOf r.source size).length)⟩) := by
  obtain ⟨s', -, -, hread⟩ := Connection.read_body (f := f) (c := cr) (staged f cd l.connection d)
    (t := r.fresh) hb.header hb.size hfit
  refine ⟨(staged f cd l.connection d).withBody r.source size, ?_⟩
  rw [send_written hb.written, hread]
  have hbuffer : (Connection.withBody (staged f cd l.connection d) r.source size).inboundData =
      bodyBuffer l r size := rfl
  rw [hbuffer]
  cases decode f cr (bodyBuffer l r size) with
  | error e => rfl
  | ok resp => rfl

theorem bodyError_of_cut {size : Nat} (h : r.source.bytes.length < headerLength + size) :
    Connection.bodyError r.source size = some r.source.fault := by
  rw [Connection.bodyError, if_neg (by omega)]

/-- A body that is cut short and decodes is reported like any other failure. -/
theorem retried_of_decodes {size : Nat} (hq : l.queue = d :: q) (he : Broken r.source.fault)
    (hb : BodyBegun f cd d r size) (hfit : size ≤ vectorMaxSize)
    (hcut : r.source.bytes.length < headerLength + size) {resp : Response A}
    (hdec : decode f cr (bodyBuffer l r size) = .ok resp) :
    Retried f cd cr strat keepAlive l d r r.source.fault := by
  refine retried_of_reported hq he ?_
  obtain ⟨conn, hsend⟩ := send_body cr l hb hfit
  rw [hdec, ok_bind, bodyError_of_cut hcut] at hsend
  exact ⟨_, hsend, rfl⟩

theorem not_retried_of_throws {size : Nat} (hb : BodyBegun f cd d r size) (hfit : size ≤ vectorMaxSize)
    {exn : Exn} (hdec : decode f cr (bodyBuffer l r size) = .error exn) :
    ¬ Retried f cd cr strat keepAlive l d r e := by
  rintro ⟨⟨sent, hsent, -⟩, -⟩
  obtain ⟨conn, hsend⟩ := send_body cr l hb hfit
  rw [hdec, error_bind] at hsend
  rw [hsend] at hsent
  cases hsent

/-- **A broken connection is retried without losing the request** exactly when the failure comes before
the body of the response has begun or what the body buffer then holds decodes. -/
theorem broken_connection_retried (hq : l.queue = d :: q) (he : Broken e) (hcut : Cut f cd d r e) :
    Retried f cd cr strat keepAlive l d r e ↔
      ∀ size, BodyBegun f cd d r size → ∃ resp, decode f cr (bodyBuffer l r size) = .ok resp := by
  cases hcut with
  | request n ha hroom hn hfault =>
    subst hfault
    refine iff_of_true (retried_of_reported hq he (send_write_fault _ _ _ _ ha hroom hn)) fun size hb => ?_
    exact absurd (hb.written.2 n hroom) (by omega)
  | header hw hlen hfault =>
    subst hfault
    refine iff_of_true (retried_of_reported hq he ?_) fun size hb => ?_
    · obtain ⟨r', hread, hec, -⟩ := Connection.read_header_fault (f := f) (c := cr)
        (staged f cd l.connection d) (t := r.fresh) hlen
      rw [send_written hw, hread, ok_bind]
      exact ⟨_, rfl, hec⟩
    · exact absurd hb.header (by omega)
  | body size hb hfit hlen hfault =>
    subst hfault
    constructor
    · intro h size' hb'
      obtain rfl : size = size' := Option.some_inj.mp (hb.size.symm.trans hb'.size)
      cases hdec : decode f cr (bodyBuffer l r size) with
      | ok resp => exact ⟨resp, rfl⟩
      | error exn => exact absurd h (not_retried_of_throws hb hfit hdec)
    · intro h
      obtain ⟨resp, hdec⟩ := h size hb
      exact retried_of_decodes hq he hb hfit hlen hdec

end Retry

/-! ## A response cut in its body -/

section Example
open Calculator

def sumListener : Listener Padding ClientData ServerData := ⟨.fresh, [sumRequest], .replicate 0, []⟩

/-- The request is taken, and of the response the header and the first byte arrive. -/
def cutRound : Round ClientData ServerData :=
  ⟨⟨none, .eof⟩, blankResponse, ⟨[formatHeader 4096, [ch '2']], .connectionReset⟩, [], true⟩

theorem sumRequest_accepted : Accepted defaultFilter (requestCodec plainArchive) sumRequest := by decide +kernel

theorem cutRound_begun : BodyBegun defaultFilter (requestCodec plainArchive) sumRequest cutRound 4096 where
  written := ⟨sumRequest_accepted, by simp [Sink.Takes, cutRound]⟩
  header := by decide
  size := handleDetermineDataSize_formatHeader (show 4096 < 16 ^ headerLength by decide)

/-- A connection that is reset in the header of the response. -/
theorem broken_connection_retried_in_header :
    Retried defaultFilter (requestCodec plainArchive) (responseCodec plainArchive) ClientActions false
      sumListener sumRequest ⟨⟨none, .eof⟩, blankResponse, ⟨[[ch ' ']], .connectionReset⟩, [], true⟩
      .connectionReset := by
  refine (broken_connection_retried (l := sumListener) rfl (.inl rfl)
    (.header ⟨sumRequest_accepted, by simp [Sink.Takes]⟩ (by decide) rfl)).mpr fun size hb => ?_
  exact absurd hb.header (by decide)

theorem cut_body_not_retried :
    ¬ ∀ (l : Listener Padding ClientData ServerData) (d : ClientData) (q : List ClientData)
      (r : Round ClientData ServerData) (e : Fault), l.queue = d :: q → Broken e →
      Cut defaultFilter (requestCodec plainArchive) d r e →
      Retried defaultFilter (requestCodec plainArchive) (responseCodec plainArchive) ClientActions false l d r e := by
  intro h
  have hb := cutRound_begun
  have hdec : decode defaultFilter (responseCodec plainArchive)
      (bodyBuffer sumListener cutRound 4096) = .error .archive := by decide +kernel
  refine not_retried_of_throws hb (by decide) hdec
    (h sumListener sumRequest [] cutRound .connectionReset rfl (.inl rfl) ?_)
  exact .body 4096 hb (by decide) (by decide) rfl

end Example

end TCPClientServer.Exchange
