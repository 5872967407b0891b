import TCPClientServer.Calculator.Actions
import TCPClientServer.Calculator.Archive
import TCPClientServer.Server.AsyncServer

/-!
# What one client can do to the server

An exception thrown by a completion handler leaves `io_service.run()`. The handlers throw on a failed
initialization, on a header whose size no vector can have, and on a body that the filter, the archive or the
strategy rejects; nothing catches what they throw, since the `try` in `start` is left before they run.

* `Session.Harmless`, `AsyncServer.Harmless` : the completions on which no handler throws;
  `complete_ok_iff`, `step_ok_iff` say that these are all;
* `SameBut` : two servers that differ in one session only; `sameBut_step`, `sameBut_skip`;
* `contained` : what holds in every run of harmless steps.
-/

namespace TCPClientServer.Server
open TCPClientServer.Basis TCPClientServer.Io

section Containment
variable {D A : Type} (f : Filter) (cd : Codec D) (cr : Codec (Response A)) (strategy : Int → D → Except Exn A)
  (secured : Bool)

/-- The initialization succeeds, the size in a header is one a vector can have, and a body is accepted by
the filter, the archive and the strategy. -/
def Session.Harmless (s : Session D A) (c : Completion) : Prop :=
  match s.pending with
  | .handshake => c.ec = none
  | .readHeader => c.ec = none → ∀ size,
      handleDetermineDataSize (s.connection.inboundHeader.fill c.received).1 = some size → size ≤ vectorMaxSize
  | .readBody _ => c.ec = none → ∃ d data,
      decode f cd (fill s.connection.inboundData c.received) = .ok d ∧ strategy c.now d = .ok data
  | _ => True

def AsyncServer.Harmless (srv : AsyncServer D A) (e : Event D A) : Prop :=
  match e with
  | .accepted .. => True
  | .completed i c => ∀ s, srv.sessions[i]? = some s → s.Harmless f cd strategy c

variable {f cd cr strategy secured}

namespace Session
variable {s : Session D A} {c : Completion}

theorem onReceived_ok_iff (ec : ErrorCode) (now : Int) :
    (∃ t, onReceived f cr strategy s ec now = .ok t) ↔
      (ec = none → ∃ data, strategy now s.cdata = .ok data) := by
  cases ec with
  | some e => simp [onReceived]
  | none =>
    cases hdata : strategy now s.cdata with
    | error e => simp [onReceived, hdata]
    | ok data => simp [onReceived, hdata]

variable (cr) in
/-- **A handler throws exactly on the completions that are not harmless.** -/
theorem complete_ok_iff : (∃ t, complete f cd cr strategy s c = .ok t) ↔ s.Harmless f cd strategy c := by
  rw [complete, Harmless]
  cases hp : s.pending with
  | accept => simp
  | idle => simp
  | write frame => simp
  | handshake =>
    cases hec : c.ec with
    | none => simp [onInitialized]
    | some e => simp [onInitialized]
  | readHeader =>
    cases hec : c.ec with
    | some e => simp [Connection.handleReadHeader, onReceived]
    | none =>
      simp only [Connection.handleReadHeader, Connection.prepareBody, true_imp_iff]
      cases hsize : handleDetermineDataSize (s.connection.inboundHeader.fill c.received).1 with
      | none => simp [onReceived]
      | some size =>
        by_cases hfit : size ≤ vectorMaxSize
        · simp [resize, hfit]
        · simp [resize, hfit]
  | readBody b =>
    cases hec : c.ec with
    | some e => simp [Connection.handleReadData, onReceived]
    | none =>
      simp only [Connection.handleReadData, true_imp_iff]
      cases hdec : decode f cd (fill s.connection.inboundData c.received) with
      | error e => simp
      | ok d =>
        simp only [ok_bind, pure_eq_ok, onReceived_ok_iff, true_imp_iff]
        simp

end Session

namespace AsyncServer
variable {srv srv' t : AsyncServer D A} {e : Event D A} {k : Nat}

theorem step_ok_iff : (∃ srv', Step f cd cr strategy secured srv e srv') ↔ srv.Harmless f cd strategy e := by
  cases e with
  | accepted i ec cdata response =>
    refine iff_of_true ?_ trivial
    by_cases hacc : srv.Accepting i
    · obtain ⟨s, hs, hp⟩ := hacc
      exact ⟨_, step_accepted hs hp ec cdata response⟩
    · exact ⟨_, step_not_accepting hacc ec cdata response⟩
  | completed i c =>
    cases hs : srv.sessions[i]? with
    | none => exact iff_of_true ⟨_, step_completed_none hs c⟩ (by simp [Harmless, hs])
    | some s =>
      have hharmless : srv.Harmless f cd strategy (.completed i c) ↔ s.Harmless f cd strategy c := by
        simp [Harmless, hs]
      rw [hharmless, ← Session.complete_ok_iff cr]
      simp only [Step, step_completed hs, bind_eq_ok]
      constructor
      · rintro ⟨-, t, ht, -⟩
        exact ⟨t, ht⟩
      · rintro ⟨t, ht⟩
        exact ⟨_, t, ht, rfl⟩

/-! ## Two servers that differ in one session -/

/-- The same server but for the session `k`, which accepts in both or in neither. -/
structure SameBut (k : Nat) (srv srv' : AsyncServer D A) : Prop where
  count : srv.count = srv'.count
  length : srv.sessions.length = srv'.sessions.length
  others : ∀ j, j ≠ k → srv.sessions[j]? = srv'.sessions[j]?
  accepting : srv.Accepting k ↔ srv'.Accepting k

theorem SameBut.refl (k : Nat) (srv : AsyncServer D A) : SameBut k srv srv := ⟨rfl, rfl, fun _ _ => rfl, .rfl⟩

theorem SameBut.accepting_iff (h : SameBut k srv srv') (i : Nat) : srv.Accepting i ↔ srv'.Accepting i := by
  by_cases hi : i = k
  · rw [hi]
    exact h.accepting
  · rw [Accepting, Accepting, h.others i hi]

/-- The event is one that the client of session `k` causes once it has connected. -/
def Event.isFor (k : Nat) : Event D A → Bool
  | .accepted .. => false
  | .completed i _ => i == k

theorem SameBut.doAccept {i : Nat} {s s' : Session D A} (h : SameBut k srv srv')
    (hs : srv.sessions[i]? = some s) (hs' : srv'.sessions[i]? = some s') (heq : i ≠ k → s = s') {p : Pending}
    (hp : p ≠ .accept) (cdata : D) (response : Response A) :
    SameBut k (AsyncServer.doAccept { srv with sessions := srv.sessions.set i { s with pending := p } } cdata response)
      (AsyncServer.doAccept { srv' with sessions := srv'.sessions.set i { s' with pending := p } } cdata response) := by
  constructor
  · simp [AsyncServer.doAccept, h.count]
  · simp [AsyncServer.doAccept, h.length]
  · intro j hj
    simp only [getElem?_doAccept, List.length_set, getElem?_set_some hs, getElem?_set_some hs', h.length, h.count]
    by_cases hji : j = i
    · rw [heq (hji ▸ hj), if_pos hji, if_pos hji]
    · rw [if_neg hji, if_neg hji, h.others j hj]
  · simp only [Accepting, getElem?_doAccept, List.length_set, getElem?_set_some hs, getElem?_set_some hs', h.length]
    by_cases hk : k = srv'.sessions.length
    · simp [hk, Session.create]
    rw [if_neg hk, if_neg hk]
    by_cases hki : k = i
    · simp [hki, hp]
    · rw [if_neg hki, if_neg hki]
      exact h.accepting

/-- A step that is not caused by client `k` is the same step of both servers. -/
theorem sameBut_step (h : SameBut k srv srv') (hstep : Step f cd cr strategy secured srv e t)
    (he : Event.isFor k e = false) : ∃ t', Step f cd cr strategy secured srv' e t' ∧ SameBut k t t' := by
  cases steps_of_step hstep with
  | accepted i ec cdata response s hs hp =>
    obtain ⟨s', hs', hp'⟩ := (h.accepting_iff i).mp ⟨s, hs, hp⟩
    refine ⟨_, step_accepted hs' hp' ec cdata response, h.doAccept hs hs' (fun hi => ?_)
      (acceptedPending_ne_accept ec) cdata response⟩
    rw [h.others i hi, hs'] at hs
    cases hs
    rfl
  | notAccepting i ec cdata response hacc =>
    exact ⟨srv', step_not_accepting (fun hacc' => hacc ((h.accepting_iff i).mpr hacc')) ec cdata response, h⟩
  | completed i c s s₁ hs hs₁ =>
    have hi : i ≠ k := by simpa [Event.isFor] using he
    have hs' : srv'.sessions[i]? = some s := h.others i hi ▸ hs
    refine ⟨{ srv' with sessions := srv'.sessions.set i s₁ }, ?_, ?_⟩
    · rw [Step, step_completed hs', hs₁, ok_bind]
    · refine ⟨h.count, by simpa using h.length, fun j hj => ?_, ?_⟩
      · simp only [getElem?_set_some hs, getElem?_set_some hs', h.others j hj]
      · simp only [Accepting, getElem?_set_some hs, getElem?_set_some hs', if_neg (Ne.symm hi)]
        exact h.accepting
  | missing i c hs =>
    have hi : i ≠ k := by simpa [Event.isFor] using he
    exact ⟨srv', step_completed_none (h.others i hi ▸ hs) c, h⟩

/-- A step that client `k` causes changes no other session. -/
theorem sameBut_skip (h : SameBut k srv srv') (hstep : Step f cd cr strategy secured srv e t)
    (he : Event.isFor k e = true) : SameBut k t srv' := by
  cases steps_of_step hstep with
  | accepted i ec cdata response s hs hp => cases he
  | notAccepting i ec cdata response hacc => cases he
  | completed i c s s₁ hs hs₁ =>
    obtain rfl : i = k := by simpa [Event.isFor] using he
    refine ⟨h.count, by simpa using h.length, fun j hj => ?_, ?_⟩
    · simp only [getElem?_set_some hs, if_neg hj, h.others j hj]
    · rw [← h.accepting]
      simp only [Accepting, getElem?_set_some hs, if_true]
      by_cases hp : s.pending = .accept
      · rw [Session.complete_accept hp] at hs₁
        cases hs₁
        simp [hs]
      · have hp' := (Session.handled_complete hp hs₁).accept
        simp [hs, hp, hp']
  | missing i c hs => exact h

end AsyncServer

/-! ## Runs of harmless steps -/

/-- **No client takes the server down**, in every run whose steps are all harmless: no handler throws, one
accept stays outstanding, and every session but that of client `k` is as it is when `k` sends nothing. -/
theorem contained (cdata : D) (response : Response A) (es : List (Event D A)) (k : Nat)
    (h : Always (AsyncServer.Step f cd cr strategy secured) (AsyncServer.Harmless f cd strategy)
      (.init cdata response) es) :
    ∃ srv, Runs (AsyncServer.Step f cd cr strategy secured) (.init cdata response) es srv ∧
      (∃! i, srv.Accepting i) ∧
      ∃ srv', Runs (AsyncServer.Step f cd cr strategy secured) (.init cdata response)
          (es.filter fun e => !AsyncServer.Event.isFor k e) srv' ∧
        ∀ j, j ≠ k → srv.sessions[j]? = srv'.sessions[j]? := by
  obtain ⟨srv, hrun⟩ := h.runs fun srv e he => AsyncServer.step_ok_iff.mpr he
  obtain ⟨srv', hrun', hsame⟩ := hrun.simulate (R := AsyncServer.SameBut k)
    (fun e => !AsyncServer.Event.isFor k e) (AsyncServer.SameBut.refl k _)
    (fun t t' e u hR hstep he => AsyncServer.sameBut_step hR hstep (by simpa using he))
    (fun t t' e u hR hstep he => AsyncServer.sameBut_skip hR hstep (by simpa using he))
  have hwf := AsyncServer.wellFormed_run hrun (AsyncServer.wellFormed_init cdata response)
  exact ⟨srv, hrun, hwf.existsUnique_accepting, srv', hrun', hsame.others⟩

end Containment

/-! ## A client that leaves in the middle of its frame, and one that fails the handshake -/

section Example
open Calculator

abbrev CalculatorStep (secured : Bool) :=
  AsyncServer.Step defaultFilter (requestCodec plainArchive) (responseCodec plainArchive) serverAction secured

/-- The step of the calculator's server, where it is up after it. -/
def nextUp (srv : AsyncServer ClientData ServerData) (e : Event ClientData ServerData) :
    Option (AsyncServer ClientData ServerData) :=
  (srv.step defaultFilter (requestCodec plainArchive) (responseCodec plainArchive) serverAction false e).toOption

theorem stepOf_nextUp : StepOf nextUp = CalculatorStep false := by
  funext srv e srv'
  rw [StepOf, nextUp, CalculatorStep, AsyncServer.Step]
  cases srv.step defaultFilter (requestCodec plainArchive) (responseCodec plainArchive) serverAction false e with
  | ok t => simp [Except.toOption]
  | error exn => simp [Except.toOption]

theorem nextUp_of_step {srv srv' : AsyncServer ClientData ServerData} {e : Event ClientData ServerData}
    (h : CalculatorStep false srv e srv') : nextUp srv e = some srv' := by
  rwa [← stepOf_nextUp] at h

instance (srv : AsyncServer ClientData ServerData) (e : Event ClientData ServerData) :
    Decidable (srv.Harmless defaultFilter (requestCodec plainArchive) serverAction e) :=
  decidable_of_iff ((nextUp srv e).isSome = true) <| by
    have hsteps : (∃ srv', CalculatorStep false srv e srv') ↔ _ := AsyncServer.step_ok_iff
    rw [← hsteps, ← stepOf_nextUp, Option.isSome_iff_exists]
    rfl

def sumFrame : Bytes := frame defaultFilter (requestCodec plainArchive) sumRequest

def noise : Bytes := List.replicate headerLength 122

/-- One client is answered, while another one sends its header and leaves within its body, and a third one sends
noise. -/
def cutFrame : List (Event ClientData ServerData) :=
  [.accepted 0 none blankRequest blankResponse, .accepted 1 none blankRequest blankResponse,
    .accepted 2 none blankRequest blankResponse, .completed 1 ⟨sumFrame.take 8, none, 0⟩,
    .completed 0 ⟨sumFrame.take 8, none, 0⟩, .completed 2 ⟨noise, none, 1⟩, .completed 0 ⟨sumFrame.drop 8, none, 5⟩,
    .completed 1 ⟨(sumFrame.drop 8).take 3, some .eof, 6⟩, .completed 0 ⟨[], none, 7⟩]

/-- The session of the first client has read its request and sent a reply, as it does without the second one. -/
theorem contained_cutFrame :
    ∃ srv, Runs (CalculatorStep false) (.init blankRequest blankResponse) cutFrame srv ∧ (∃! i, srv.Accepting i) ∧
      (∃ srv', Runs (CalculatorStep false) (.init blankRequest blankResponse)
          (cutFrame.filter fun e => !AsyncServer.Event.isFor 1 e) srv' ∧
        ∀ j, j ≠ 1 → srv.sessions[j]? = srv'.sessions[j]?) ∧
      ∃ s, srv.sessions[0]? = some s ∧ s.requests = [sumRequest] ∧ s.replies.length = 1 := by
  have hharmless : Always (CalculatorStep false) (AsyncServer.Harmless defaultFilter (requestCodec plainArchive)
      serverAction) (.init blankRequest blankResponse) cutFrame :=
    always_of_alongside nextUp (fun _ _ _ => nextUp_of_step) (by decide +kernel)
  obtain ⟨srv, hrun, haccepting, hothers⟩ := contained blankRequest blankResponse cutFrame 1 hharmless
  have hreplied : ((play nextUp (.init blankRequest blankResponse) cutFrame).any fun srv => srv.sessions[0]?.any
      fun s => decide (s.requests = [sumRequest] ∧ s.replies.length = 1)) = true := by decide +kernel
  have hplay : Runs (StepOf nextUp) (.init blankRequest blankResponse) cutFrame srv := by
    rw [stepOf_nextUp]
    exact hrun
  rw [play_of_runs hplay, Option.any_some, Option.any_eq_true] at hreplied
  obtain ⟨s, hs, hsent⟩ := hreplied
  exact ⟨srv, hrun, haccepting, hothers, s, hs, of_decide_eq_true hsent⟩

def failingClient (fault : Fault) : List (Event ClientData ServerData) :=
  [.accepted 0 none blankRequest blankResponse] ++ [.completed 0 ⟨[], some fault, 0⟩]

def connected (secured : Bool) : AsyncServer ClientData ServerData :=
  .doAccept ⟨[{ Session.create 0 blankRequest blankResponse with
    pending := AsyncServer.acceptedPending secured none }], 1⟩ blankRequest blankResponse

theorem runs_connected_iff {secured : Bool} {srv : AsyncServer ClientData ServerData} :
    Runs (CalculatorStep secured) (.init blankRequest blankResponse)
      [.accepted 0 none blankRequest blankResponse] srv ↔ srv = connected secured := by
  have hstep : (AsyncServer.init blankRequest blankResponse).step defaultFilter (requestCodec plainArchive)
      (responseCodec plainArchive) serverAction secured (.accepted 0 none blankRequest blankResponse) =
        .ok (connected secured) := AsyncServer.step_accepted rfl rfl none blankRequest blankResponse
  rw [← List.nil_append [_], runs_snoc_iff]
  simp only [runs_nil_iff, exists_eq_left', AsyncServer.Step, hstep, Except.ok.injEq]
  exact eq_comm

/-- A client of a secured server that fails the handshake takes the server down. -/
theorem not_contained :
    ¬ ∀ es : List (Event ClientData ServerData),
      Always (CalculatorStep true) AsyncServer.Possible (.init blankRequest blankResponse) es →
      ∃ srv, Runs (CalculatorStep true) (.init blankRequest blankResponse) es srv := by
  intro h
  have hpossible : Always (CalculatorStep true) AsyncServer.Possible (.init blankRequest blankResponse)
      (failingClient (.other 1)) := by
    refine Always.snoc [Event.accepted 0 none blankRequest blankResponse] _
      (Always.snoc [] _ (always_nil _ _) fun t ht => ?_) fun t ht => ?_
    · obtain rfl := runs_nil_iff.mp ht
      exact AsyncServer.accepting_init _ _
    · obtain rfl := runs_connected_iff.mp ht
      exact ⟨_, rfl, nofun, nofun, by decide⟩
  obtain ⟨srv, hrun⟩ := h _ hpossible
  obtain ⟨t, ht, hstep⟩ := runs_snoc_iff.mp hrun
  obtain rfl := runs_connected_iff.mp ht
  cases hstep

end Example

end TCPClientServer.Server
