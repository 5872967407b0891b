import TCPClientServer.Client.Connector

/-!
# `Client::listen`

One pass of the loop takes the datum at the front of the queue through `send`, and the error switch
decides what becomes of it: answered and popped, kept for another connection, or the end of the client.

* `react` : the error switch;
* `Strategy` : what is done with requests and responses;
* `pass` : one pass of the loop body and the test behind it;
* `pass_of_send` : a pass from what its `send` gives; `pass_cases` : how one comes to its end;
* `handed` : the response a pass gives to the strategy; `pass_queue` : it pops exactly then.
-/

namespace TCPClientServer.Client
open TCPClientServer.Basis TCPClientServer.Io TCPClientServer.Server

/-- What the switch over the error code, with the status looked at on success, comes to. -/
inductive Reaction where
  | respond
  | reconnect
  | throws (fault : Fault)
deriving DecidableEq

def react (ec : ErrorCode) (status : TransmitionStatus) : Reaction :=
  match ec with
  | none => if status = .ok then .respond else .reconnect
  | some .connectionAborted => .reconnect
  | some .connectionReset => .reconnect
  | some .timedOut => .reconnect
  | some fault => .throws fault

def Broken (e : Fault) : Prop := e = .connectionReset ∨ e = .connectionAborted ∨ e = .timedOut

theorem react_broken {e : Fault} (h : Broken e) (status : TransmitionStatus) :
    react (some e) status = .reconnect := by
  rcases h with rfl | rfl | rfl <;> rfl

theorem react_respond {ec : ErrorCode} {status : TransmitionStatus} :
    react ec status = .respond ↔ ec = none ∧ status = .ok := by
  unfold react
  split <;> simp

/-- The two parts of a strategy, with the state they keep. A `response` that gives no state is one whose
assertion fails. -/
structure Strategy (σ D A : Type) where
  request : σ → D → σ
  response : σ → Response A → Option σ

/-- What `listen` works on, and the calls of `strategy_.response` so far with the requests they answer. -/
structure Listener (σ D A : Type) where
  connection : Connection
  queue : List D
  strategy : σ
  answered : List (D × Response A)

/-- What a pass meets: the two halves of the connection, the memory of a response not yet decoded, the
data the scraper pushes before the test, and whether the scraper is good there. -/
structure Round (D A : Type) where
  sink : Sink
  fresh : Response A
  source : Source
  arriving : List D
  scraperGood : Bool

/-- How a client ends inside a pass: something is thrown, or the assertion of the strategy fails. -/
inductive Halt (A : Type) where
  | thrown (e : Exn)
  | assertion (r : Response A)
deriving DecidableEq

/-- A pass that comes to its end: whether a response was given to the strategy, and the two flags the loop
tests. `listen` returns the second of them. -/
structure Passed (σ D A : Type) where
  listener : Listener σ D A
  responded : Option (Response A)
  connectionOk : Bool
  inputOk : Bool

section Pass
variable {σ D A : Type} (f : Filter) (cd : Codec D) (cr : Codec (Response A)) (strat : Strategy σ D A)
  (keepAlive : Bool)

/-- The end of the loop body: the scraper has pushed what arrives, and `input_ok` is computed. -/
def Listener.finish (l : Listener σ D A) (r : Round D A) (responded : Option (Response A)) (connectionOk : Bool) :
    Passed σ D A :=
  let queue := l.queue ++ r.arriving
  ⟨{ l with queue }, responded, connectionOk, keepAlive || !queue.isEmpty || r.scraperGood⟩

/-- The body of the loop behind the `send` of `d`, which was at the front of the queue. -/
def afterSend (l : Listener σ D A) (d : D) (r : Round D A) (sent : Sent A) : Except (Halt A) (Passed σ D A) :=
  let l := { l with connection := sent.connection }
  match react sent.ec sent.response.transmissionStatus with
  | .throws fault => .error (.thrown (.systemError fault))
  | .reconnect => .ok (l.finish keepAlive r none false)
  | .respond =>
    match strat.response l.strategy sent.response with
    | none => .error (.assertion sent.response)
    | some strategy =>
      let l := { l with strategy, queue := l.queue.tail, answered := l.answered ++ [(d, sent.response)] }
      .ok (l.finish keepAlive r (some sent.response) true)

/-- One pass of the loop in `listen`, and the test behind it. -/
def pass (l : Listener σ D A) (r : Round D A) : Except (Halt A) (Passed σ D A) :=
  match l.queue with
  | [] => .ok (l.finish keepAlive r none true)
  | d :: _ =>
    let l := { l with strategy := strat.request l.strategy d }
    match send f cd cr l.connection d r.sink r.fresh r.source with
    | .error e => .error (.thrown e)
    | .ok sent => afterSend strat keepAlive l d r sent

def handed : Except (Halt A) (Passed σ D A) → Option (Response A)
  | .ok p => p.responded
  | .error (.assertion r) => some r
  | .error (.thrown _) => none

variable {f cd cr strat keepAlive} {l : Listener σ D A} {r : Round D A}

theorem pass_of_throw {d : D} {q : List D} {e : Exn} (hq : l.queue = d :: q)
    (hsend : send f cd cr l.connection d r.sink r.fresh r.source = .error e) :
    pass f cd cr strat keepAlive l r = .error (.thrown e) := by
  simp only [pass, hq, hsend]

/-- **A pass from what its `send` gives.** -/
theorem pass_of_send {d : D} {q : List D} {sent : Sent A} (hq : l.queue = d :: q)
    (hsend : send f cd cr l.connection d r.sink r.fresh r.source = .ok sent) :
    pass f cd cr strat keepAlive l r =
      afterSend strat keepAlive { l with strategy := strat.request l.strategy d } d r sent := by
  simp only [pass, hq, hsend]

theorem handed_afterSend {d : D} {sent : Sent A} {resp : Response A}
    (h : handed (afterSend strat keepAlive l d r sent) = some resp) :
    sent.ec = none ∧ sent.response.transmissionStatus = .ok ∧ sent.response = resp := by
  unfold afterSend at h
  dsimp only at h
  cases hreact : react sent.ec sent.response.transmissionStatus with
  | throws fault => simp [hreact, handed] at h
  | reconnect => simp [hreact, handed, Listener.finish] at h
  | respond =>
    obtain ⟨hec, hstatus⟩ := react_respond.mp hreact
    refine ⟨hec, hstatus, ?_⟩
    rw [hreact] at h
    cases hresponse : strat.response l.strategy sent.response with
    | none => simpa [hresponse, handed] using h
    | some strategy => simpa [hresponse, handed, Listener.finish] using h

theorem pass_cases {p : Passed σ D A} (h : pass f cd cr strat keepAlive l r = .ok p) :
    (l.queue = [] ∧ p = l.finish keepAlive r none true) ∨
    ∃ (d : D) (q : List D) (sent : Sent A), l.queue = d :: q ∧
      ((react sent.ec sent.response.transmissionStatus = .reconnect ∧ p = Listener.finish keepAlive
        { l with connection := sent.connection, strategy := strat.request l.strategy d } r none false) ∨
      ∃ strategy, react sent.ec sent.response.transmissionStatus = .respond ∧
        strat.response (strat.request l.strategy d) sent.response = some strategy ∧ p = Listener.finish keepAlive
          ⟨sent.connection, l.queue.tail, strategy, l.answered ++ [(d, sent.response)]⟩ r (some sent.response) true) := by
  cases hq : l.queue with
  | nil =>
    simp only [pass, hq] at h
    cases h
    exact .inl ⟨rfl, rfl⟩
  | cons d q =>
    right
    cases hsend : send f cd cr l.connection d r.sink r.fresh r.source with
    | error e =>
      rw [pass_of_throw hq hsend] at h
      cases h
    | ok sent =>
      rw [pass_of_send hq hsend, afterSend] at h
      dsimp only at h
      cases hreact : react sent.ec sent.response.transmissionStatus with
      | throws fault => simp [hreact] at h
      | reconnect =>
        simp only [hreact, hq, Except.ok.injEq] at h
        exact ⟨d, q, sent, rfl, .inl ⟨hreact, h.symm⟩⟩
      | respond =>
        cases hresponse : strat.response (strat.request l.strategy d) sent.response with
        | none => simp [hreact, hresponse] at h
        | some strategy =>
          simp only [hreact, hresponse, hq, Except.ok.injEq] at h
          exact ⟨d, q, sent, rfl, .inr ⟨strategy, hreact, hresponse, h.symm⟩⟩

/-- **The front of the queue is popped exactly when a response was given to the strategy.** -/
theorem pass_queue {p : Passed σ D A} (h : pass f cd cr strat keepAlive l r = .ok p) :
    p.listener.queue = (if p.responded.isSome then l.queue.tail else l.queue) ++ r.arriving := by
  rcases pass_cases h with ⟨-, rfl⟩ | ⟨d, q, sent, -, ⟨-, rfl⟩ | ⟨strategy, -, -, rfl⟩⟩
  · rfl
  · rfl
  · rfl

end Pass

end TCPClientServer.Client
