import TCPClientServer.Basis.Runs
import TCPClientServer.Server.Session

/-!
# `AsyncServer`

The server is one thread that runs completion handlers. Every session is created to accept a client; the
accept handler starts it and creates the next one. An exception that a handler throws leaves
`io_service.run()`, and the server with it.

* `Event`, `step` : the completion of one operation, and what its handler does;
* `Runs` of `Step` : the runs of a server that is up; `Steps` lists the steps;
* `WellFormed` : the last session is the one that accepts, and the ids count the sessions, in a `size_t`;
  `wellFormed_run`.
-/

namespace TCPClientServer.Server
open TCPClientServer.Basis TCPClientServer.Io

def sizeModulus : Nat := 2 ^ 64

/-- The sessions created so far, in order, and `Session::count`. -/
structure AsyncServer (D A : Type) where
  sessions : List (Session D A)
  count : Nat

/-- A completion: of the accept of a session, after which the next session is created in some memory, or
of another operation of a session. -/
inductive Event (D A : Type) where
  | accepted (i : Nat) (ec : ErrorCode) (cdata : D) (response : Response A)
  | completed (i : Nat) (c : Completion)

section Server
variable {D A : Type}

namespace AsyncServer

def doAccept (srv : AsyncServer D A) (cdata : D) (response : Response A) : AsyncServer D A where
  sessions := srv.sessions ++ [.create srv.count cdata response]
  count := (srv.count + 1) % sizeModulus

def init (cdata : D) (response : Response A) : AsyncServer D A := doAccept ⟨[], 0⟩ cdata response

variable (f : Filter) (cd : Codec D) (cr : Codec (Response A)) (strategy : Int → D → Except Exn A)
  (secured : Bool)

/-- The handler in `do_accept`, and the other handlers. An operation that is not pending is not completed. -/
def step (srv : AsyncServer D A) (e : Event D A) : Except Exn (AsyncServer D A) :=
  match e with
  | .accepted i ec cdata response =>
    match srv.sessions[i]? with
    | none => .ok srv
    | some s =>
      if s.pending = .accept then do
        let s ← match ec with
          | none => s.start secured
          | some _ => .ok { s with pending := .idle }
        return doAccept { srv with sessions := srv.sessions.set i s } cdata response
      else .ok srv
  | .completed i c =>
    match srv.sessions[i]? with
    | none => .ok srv
    | some s => do
      let s ← s.complete f cd cr strategy c
      return { srv with sessions := srv.sessions.set i s }

def Step (srv : AsyncServer D A) (e : Event D A) (srv' : AsyncServer D A) : Prop :=
  srv.step f cd cr strategy secured e = .ok srv'

def Accepting (srv : AsyncServer D A) (i : Nat) : Prop := ∃ s, srv.sessions[i]? = some s ∧ s.pending = .accept

/-- What can happen next: an outstanding accept is completed, or another pending operation is, with what the
transport can complete it with. -/
def Possible (srv : AsyncServer D A) (e : Event D A) : Prop :=
  match e with
  | .accepted i .. => srv.Accepting i
  | .completed i c => ∃ s, srv.sessions[i]? = some s ∧ s.pending ≠ .accept ∧ s.pending ≠ .idle ∧ s.pending.Fits c

instance (srv : AsyncServer D A) (i : Nat) : Decidable (srv.Accepting i) :=
  match h : srv.sessions[i]? with
  | none => isFalse fun ⟨_, hs, _⟩ => Option.some_ne_none _ (hs.symm.trans h)
  | some s => decidable_of_iff (s.pending = .accept)
      ⟨fun hp => ⟨s, h, hp⟩, fun ⟨_, hs, hp⟩ => Option.some.inj (h.symm.trans hs) ▸ hp⟩

instance (srv : AsyncServer D A) (e : Event D A) : Decidable (srv.Possible e) :=
  match e with
  | .accepted i .. => inferInstanceAs (Decidable (srv.Accepting i))
  | .completed i c =>
    match h : srv.sessions[i]? with
    | none => isFalse fun ⟨_, hs, _⟩ => Option.some_ne_none _ (hs.symm.trans h)
    | some s => decidable_of_iff (s.pending ≠ .accept ∧ s.pending ≠ .idle ∧ s.pending.Fits c)
        ⟨fun hp => ⟨s, h, hp⟩, fun ⟨_, hs, hp⟩ => Option.some.inj (h.symm.trans hs) ▸ hp⟩

variable {f cd cr strategy secured} {srv srv' : AsyncServer D A}

/-! ## Steps -/

variable (secured) in
def acceptedPending (ec : ErrorCode) : Pending :=
  match ec with
  | none => if secured then .handshake else .readHeader
  | some _ => .idle

theorem acceptedPending_ne_accept (ec : ErrorCode) : acceptedPending secured ec ≠ .accept := by
  cases ec with
  | some e => simp [acceptedPending]
  | none => cases secured <;> simp [acceptedPending]

/-- **An accept is followed by another one**, and never throws. -/
theorem step_accepted {i : Nat} {s : Session D A} (hs : srv.sessions[i]? = some s) (hp : s.pending = .accept)
    (ec : ErrorCode) (cdata : D) (response : Response A) :
    srv.step f cd cr strategy secured (.accepted i ec cdata response) =
      .ok (doAccept { srv with sessions := srv.sessions.set i { s with pending := acceptedPending secured ec } }
        cdata response) := by
  cases ec with
  | some e => simp [step, hs, hp, acceptedPending]
  | none =>
    cases secured with
    | true => simp [step, hs, hp, acceptedPending, Session.start]
    | false => simp [step, hs, hp, acceptedPending, Session.start, Session.onInitialized, Session.doReceive]

/-- An accept event for a session that does not accept is none. -/
theorem step_not_accepting {i : Nat} (h : ¬ srv.Accepting i) (ec : ErrorCode) (cdata : D) (response : Response A) :
    srv.step f cd cr strategy secured (.accepted i ec cdata response) = .ok srv := by
  cases hs : srv.sessions[i]? with
  | none => simp [step, hs]
  | some s =>
    have hp : s.pending ≠ .accept := fun hp => h ⟨s, hs, hp⟩
    simp [step, hs, hp]

theorem step_completed {i : Nat} {s : Session D A} (hs : srv.sessions[i]? = some s) (c : Completion) :
    srv.step f cd cr strategy secured (.completed i c) = (s.complete f cd cr strategy c >>= fun t =>
      .ok { srv with sessions := srv.sessions.set i t }) := by
  simp only [step, hs, pure_eq_ok]

theorem step_completed_none {i : Nat} (hs : srv.sessions[i]? = none) (c : Completion) :
    srv.step f cd cr strategy secured (.completed i c) = .ok srv := by
  simp only [step, hs]

variable (f cd cr strategy secured) in
/-- The steps, one constructor for each way through `step`. -/
inductive Steps (srv : AsyncServer D A) : Event D A → AsyncServer D A → Prop where
  | accepted (i : Nat) (ec : ErrorCode) (cdata : D) (response : Response A) (s : Session D A)
    (hs : srv.sessions[i]? = some s) (hp : s.pending = .accept) : Steps srv (.accepted i ec cdata response)
      (doAccept { srv with sessions := srv.sessions.set i { s with pending := acceptedPending secured ec } } cdata
        response)
  | notAccepting (i : Nat) (ec : ErrorCode) (cdata : D) (response : Response A) (hacc : ¬ srv.Accepting i) :
    Steps srv (.accepted i ec cdata response) srv
  | completed (i : Nat) (c : Completion) (s t : Session D A) (hs : srv.sessions[i]? = some s)
    (ht : s.complete f cd cr strategy c = .ok t) : Steps srv (.completed i c)
      { srv with sessions := srv.sessions.set i t }
  | missing (i : Nat) (c : Completion) (hs : srv.sessions[i]? = none) : Steps srv (.completed i c) srv

theorem steps_of_step {e : Event D A} (h : Step f cd cr strategy secured srv e srv') :
    Steps f cd cr strategy secured srv e srv' := by
  cases e with
  | accepted i ec cdata response =>
    by_cases hacc : srv.Accepting i
    · obtain ⟨s, hs, hp⟩ := hacc
      rw [Step, step_accepted hs hp] at h
      cases h
      exact .accepted i ec cdata response s hs hp
    · rw [Step, step_not_accepting hacc] at h
      cases h
      exact .notAccepting i ec cdata response hacc
  | completed i c =>
    cases hs : srv.sessions[i]? with
    | none =>
      rw [Step, step_completed_none hs] at h
      cases h
      exact .missing i c hs
    | some s =>
      rw [Step, step_completed hs] at h
      obtain ⟨t, ht, heq⟩ := bind_eq_ok.mp h
      cases heq
      exact .completed i c s t hs ht

/-! ## The accept and the ids -/

/-- The last session accepts, unused, and no other does, and the ids are the numbers of the sessions, counted
in a `size_t`. -/
structure WellFormed (srv : AsyncServer D A) : Prop where
  accepting : ∀ i, srv.Accepting i ↔ i + 1 = srv.sessions.length
  sessionId : ∀ i s, srv.sessions[i]? = some s → s.sessionId = i % sizeModulus
  count : srv.count = srv.sessions.length % sizeModulus
  nonempty : srv.sessions ≠ []
  unused : ∀ (i : Nat) (s : Session D A), srv.sessions[i]? = some s → s.pending = .accept →
    s.requests = [] ∧ s.replies = []

theorem WellFormed.existsUnique_accepting (h : srv.WellFormed) : ∃! i, srv.Accepting i := by
  have hpos := List.length_pos_iff.mpr h.nonempty
  refine ⟨srv.sessions.length - 1, (h.accepting _).mpr (by omega), fun i hi => ?_⟩
  have := (h.accepting i).mp hi
  omega

theorem getElem?_doAccept (srv : AsyncServer D A) (cdata : D) (response : Response A) (j : Nat) :
    (srv.doAccept cdata response).sessions[j]? =
      if j = srv.sessions.length then some (.create srv.count cdata response) else srv.sessions[j]? := by
  rw [doAccept, List.getElem?_append]
  rcases lt_trichotomy j srv.sessions.length with h | h | h
  · rw [if_pos h, if_neg h.ne]
  · simp [h]
  · rw [if_neg (by omega), if_neg h.ne', List.getElem?_eq_none (by simp; omega), List.getElem?_eq_none h.le]

theorem getElem?_set_some {i : Nat} {s : Session D A} (hs : srv.sessions[i]? = some s) (t : Session D A)
    (j : Nat) : (srv.sessions.set i t)[j]? = if j = i then some t else srv.sessions[j]? := by
  obtain ⟨hi, -⟩ := List.getElem?_eq_some_iff.mp hs
  rw [List.getElem?_set]
  by_cases h : j = i
  · subst h
    simp [hi]
  · rw [if_neg (Ne.symm h), if_neg h]

theorem set_self {i : Nat} {s : Session D A} (hs : srv.sessions[i]? = some s) : srv.sessions.set i s = srv.sessions := by
  obtain ⟨hi, rfl⟩ := List.getElem?_eq_some_iff.mp hs
  exact List.set_getElem_self hi

theorem wellFormed_init (cdata : D) (response : Response A) : (init cdata response).WellFormed := by
  constructor
  · intro i
    simp only [Accepting, init, getElem?_doAccept]
    cases i with
    | zero => simp [Session.create, doAccept]
    | succ i => simp [doAccept]
  · intro i s hs
    simp only [init, getElem?_doAccept] at hs
    split at hs
    · rename_i h
      cases hs
      simp [Session.create, h]
    · simp at hs
  · rfl
  · simp [init, doAccept]
  · intro i s hs _
    simp only [init, getElem?_doAccept] at hs
    split at hs
    · cases hs
      exact ⟨rfl, rfl⟩
    · simp at hs

theorem accepting_init (cdata : D) (response : Response A) : (init cdata response).Accepting 0 :=
  ⟨_, rfl, rfl⟩

theorem wellFormed_accepted {i : Nat} {s t : Session D A} (h : srv.WellFormed) (hs : srv.sessions[i]? = some s)
    (hp : s.pending = .accept) (hid : t.sessionId = s.sessionId) (ht : t.pending ≠ .accept) (cdata : D)
    (response : Response A) :
    (doAccept { srv with sessions := srv.sessions.set i t } cdata response).WellFormed := by
  have hlast : i + 1 = srv.sessions.length := (h.accepting i).mp ⟨s, hs, hp⟩
  constructor
  · intro j
    simp only [Accepting, getElem?_doAccept, List.length_set, getElem?_set_some hs]
    have hlen : (doAccept { srv with sessions := srv.sessions.set i t } cdata response).sessions.length =
        srv.sessions.length + 1 := by simp [doAccept]
    rw [hlen]
    by_cases hj : j = srv.sessions.length
    · simp [hj, Session.create]
    rw [if_neg hj]
    refine iff_of_false ?_ (by omega)
    rintro ⟨s', hs', hp'⟩
    by_cases hji : j = i
    · rw [if_pos hji] at hs'
      cases hs'
      exact ht hp'
    · rw [if_neg hji] at hs'
      have := (h.accepting j).mp ⟨s', hs', hp'⟩
      omega
  · intro j s' hs'
    simp only [getElem?_doAccept, List.length_set, getElem?_set_some hs] at hs'
    split at hs'
    · rename_i hj
      cases hs'
      simp [Session.create, hj, h.count]
    split at hs'
    · rename_i hj
      cases hs'
      rw [hid, hj]
      exact h.sessionId i s hs
    · exact h.sessionId j s' hs'
  · simp [doAccept, h.count]
  · simp [doAccept]
  · intro j s' hs' hp'
    simp only [getElem?_doAccept, List.length_set, getElem?_set_some hs] at hs'
    split at hs'
    · cases hs'
      exact ⟨rfl, rfl⟩
    split at hs'
    · cases hs'
      exact absurd hp' ht
    · exact h.unused j s' hs' hp'

/-- The handler of another operation leaves the accept and the ids alone. -/
theorem wellFormed_completed {i : Nat} {s t : Session D A} (h : srv.WellFormed) (hs : srv.sessions[i]? = some s)
    (hp : s.pending ≠ .accept) (ht : Session.Handled f cr s t) :
    ({ srv with sessions := srv.sessions.set i t } : AsyncServer D A).WellFormed := by
  constructor
  · intro j
    simp only [Accepting, getElem?_set_some hs, List.length_set]
    by_cases hj : j = i
    · subst hj
      have hlast : ¬ j + 1 = srv.sessions.length := fun hlast => by
        obtain ⟨s', hs', hp'⟩ := (h.accepting j).mpr hlast
        rw [hs] at hs'
        cases hs'
        exact hp hp'
      refine iff_of_false ?_ hlast
      rintro ⟨s', hs', hp'⟩
      rw [if_pos rfl] at hs'
      cases hs'
      exact ht.accept hp'
    · rw [if_neg hj]
      exact h.accepting j
  · intro j s' hs'
    simp only [getElem?_set_some hs] at hs'
    split at hs'
    · rename_i hj
      cases hs'
      rw [ht.sessionId, hj]
      exact h.sessionId i s hs
    · exact h.sessionId j s' hs'
  · simp [h.count]
  · simpa using h.nonempty
  · intro j s' hs' hp'
    simp only [getElem?_set_some hs] at hs'
    split at hs'
    · cases hs'
      exact absurd hp' ht.accept
    · exact h.unused j s' hs' hp'

/-- **Every step keeps one accept outstanding** and the ids in order. -/
theorem wellFormed_step {e : Event D A} (h : srv.WellFormed) (hstep : Step f cd cr strategy secured srv e srv') :
    srv'.WellFormed := by
  cases steps_of_step hstep with
  | accepted i ec cdata response s hs hp =>
    exact wellFormed_accepted (t := { s with pending := acceptedPending secured ec }) h hs hp rfl
      (acceptedPending_ne_accept ec) cdata response
  | notAccepting i ec cdata response hacc => exact h
  | completed i c s t hs ht =>
    by_cases hp : s.pending = .accept
    · rw [Session.complete_accept hp] at ht
      cases ht
      rwa [set_self hs]
    · exact wellFormed_completed h hs hp (Session.handled_complete hp ht)
  | missing i c hs => exact h

/-- **In every run one accept is outstanding**, and the ids count the sessions. -/
theorem wellFormed_run {es : List (Event D A)} (hrun : Runs (Step f cd cr strategy secured) srv es srv')
    (h : srv.WellFormed) : srv'.WellFormed :=
  hrun.invariant (I := fun _ srv => srv.WellFormed) h fun _ _ _ _ _ ih hstep => wellFormed_step ih hstep

/-! ## One session -/

/-- **What a step does to a session that has been accepted**: it is the completion of an operation of this
session, or the session stays as it is. -/
theorem session_of_step {e : Event D A} {i : Nat} {s : Session D A} (hs : srv.sessions[i]? = some s)
    (hp : s.pending ≠ .accept) (hstep : Step f cd cr strategy secured srv e srv') :
    (∃ c t, e = .completed i c ∧ s.complete f cd cr strategy c = .ok t ∧ srv'.sessions[i]? = some t) ∨
      ((∀ c, e ≠ .completed i c) ∧ srv'.sessions[i]? = some s) := by
  cases steps_of_step hstep with
  | accepted j ec cdata response s' hs' hp' =>
    have hi := (List.getElem?_eq_some_iff.mp hs).1
    have hne : i ≠ j := by
      rintro rfl
      rw [hs] at hs'
      cases hs'
      exact hp hp'
    refine .inr ⟨nofun, ?_⟩
    simp only [getElem?_doAccept, List.length_set, getElem?_set_some hs', if_neg hi.ne, if_neg hne, hs]
  | notAccepting j ec cdata response hacc => exact .inr ⟨nofun, hs⟩
  | completed j c s' t hs' ht =>
    by_cases hne : i = j
    · subst hne
      rw [hs] at hs'
      cases hs'
      exact .inl ⟨c, t, rfl, ht, by rw [getElem?_set_some hs, if_pos rfl]⟩
    · refine .inr ⟨fun c heq => ?_, by rw [getElem?_set_some hs', if_neg hne, hs]⟩
      cases heq
      exact hne rfl
  | missing j c hs' =>
    refine .inr ⟨fun c heq => ?_, hs⟩
    cases heq
    rw [hs] at hs'
    cases hs'

end AsyncServer

end Server

end TCPClientServer.Server
