import TCPClientServer.Server.Chain

/-!
# The buffers of a session

The transport refers to members of the connection for as long as an operation is under way. The conditions on
the chain of handlers: when a handler is called nothing is under way, what it modifies comes before what it
starts, and it starts nothing once it has been called with an error.

* `Called`, `Sound` : what holds when a handler is called, and when it has returned;
* `Keeps`, `Handles` : the triples of the functions; `handles_handler` is about every handler;
* `follows_run` : every run is that of a `Session`;
* `buffers_stable` : what the conditions come to in every run.
-/

set_option mvcgen.warning false

namespace TCPClientServer.Server
open TCPClientServer.Basis TCPClientServer.Io Std.Do

section Buffers
variable {D A T : Type} (f : Filter) (cd : Codec D) (cr : Codec (Response A)) (strategy : Int → D → Except Exn A)
  (secured : Bool)

namespace Chain

/-- A handler is called: no operation is under way, and the session has met an error if this is one. -/
structure Called (ec : ErrorCode) (s : Chain D A) : Prop where
  quiet : Quiet s.deeds
  rest : s.ops = []
  failed : s.failed = ec.isSome

/-- Between two handlers nothing was done to the buffers of an operation, and none follows an error. -/
structure Sound (s : Chain D A) : Prop where
  quiet : Quiet s.deeds
  failed : s.failed = true → s.ops = []
  holds : ∀ i op, (i, op) ∈ s.ops → op.Holds s.connection

structure AtRest (s : Chain D A) : Prop where
  quiet : Quiet s.deeds
  rest : s.ops = []

section Conditions
variable {s : Chain D A} {ec : ErrorCode}

theorem Called.sound (h : Called ec s) : s.Sound where
  quiet := h.quiet
  failed _ := h.rest
  holds i op hop := by
    rw [h.rest] at hop
    cases hop

theorem Called.atRest (h : Called ec s) : s.AtRest := ⟨h.quiet, h.rest⟩

theorem AtRest.sound_failed (h : s.AtRest) : Sound { s with failed := true } where
  quiet := h.quiet
  failed _ := h.rest
  holds i op hop := by
    have hrest : (i, op) ∈ s.ops := hop
    rw [h.rest] at hrest
    cases hrest

end Conditions

end Chain

namespace Code

/-- From states with `P`, code that returns leads to ones with `Q`, and none is started by code that throws. -/
abbrev Keeps (P : Chain D A → Prop) (x : Code D A T) (Q : T → Chain D A → Prop) : Prop :=
  ⦃fun s => ⌜P s⌝⦄ x ⦃post⟨fun a s => ⌜Q a s⌝, fun _ s => ⌜s.AtRest⌝⟩⦄

/-- Called with `ec`, the code leaves what holds between two handlers. -/
abbrev Handles (ec : ErrorCode) (x : Code D A Unit) : Prop := Keeps (Chain.Called ec) x fun _ s => s.Sound

variable {handler : ErrorCode → Nat → Code D A Unit} {ec : ErrorCode}

@[spec] theorem assign_spec (m : Member) (b : Bytes) : Keeps (fun s : Chain D A => s.Called none) (assign m b)
    fun _ s => s.Called none ∧ ∃ conn, s.connection = m.assign b conn := by
  mvcgen [assign]
  rename_i s h t
  refine ⟨⟨h.quiet.concat (.inl h.rest), ?_, h.failed⟩, s.connection, rfl⟩
  rw [Chain.ops_modified, h.rest]

@[spec] theorem begin_spec (op : Op) : Keeps (fun s : Chain D A => s.Called none ∧ op.Holds s.connection)
    (begin op) fun _ s => s.Sound := by
  mvcgen [begin]
  rename_i s h t
  obtain ⟨h, hholds⟩ := h
  have hops : (s.started op).ops = [(s.deeds.length, op)] := by rw [Chain.ops_started, h.rest, List.nil_append]
  refine ⟨h.quiet.concat (.inl h.rest), ?_, ?_⟩
  · intro hfailed
    have hclear : s.failed = false := h.failed
    rw [show s.failed = true from hfailed] at hclear
    cases hclear
  · intro i op' hop
    rw [hops, List.mem_singleton] at hop
    cases hop
    exact hholds

@[spec] theorem refuse_spec (length : Nat)
    (h : ∀ length, Handles (some .invalidArgument) (handler (some .invalidArgument) length)) :
    Handles none (refuse handler length) := by
  mvcgen [refuse, h]
  rename_i s hs t
  exact ⟨hs.quiet, hs.rest, rfl⟩

@[spec] theorem attempt_spec (x : Except Exn T) :
    Keeps (fun s : Chain D A => s.Called none) (attempt x) fun a s => s.Called none ∧ x = .ok a := by
  mvcgen [attempt]
  rename_i s hs
  exact hs.atRest

/-! ### The functions -/

theorem handles_asyncWrite (r : Response A)
    (h : ∀ length, Handles (some .invalidArgument) (handler (some .invalidArgument) length)) :
    Handles none (asyncWrite f cr r handler) := by
  mvcgen [asyncWrite, h]
  · rename_i hs _ _
    exact hs.1
  · rename_i hs _ _
    exact hs.1
  · rename_i hs conn
    exact ⟨hs.1, rfl, rfl⟩

theorem handles_handleReadHeader (length : Nat) (h : ∀ ec length, Handles ec (handler ec length)) :
    Handles ec (handleReadHeader ec length handler) := by
  mvcgen [handleReadHeader, h]
  · rename_i hs
    exact hs.1
  · rename_i size _ _ _ hdata _ t ht
    obtain ⟨hcalled, conn, hconn⟩ := ht
    refine ⟨hcalled, ?_⟩
    show t.connection.inboundData.length = size
    rw [hconn]
    exact length_of_resize hdata.2

theorem handles_handleReadData (length : Nat) (h : ∀ ec length, Handles ec (handler ec length)) :
    Handles ec (handleReadData f cd ec length handler) := by
  mvcgen [handleReadData, h]
  rename_i hs _
  exact ⟨hs.1.quiet, hs.1.rest, hs.1.failed⟩

theorem handles_doReceive : Handles none (doReceive : Code D A Unit) := by
  mvcgen [doReceive, asyncRead]

theorem handles_onWritten (ec : ErrorCode) (length : Nat) : Handles ec (onWritten ec length : Code D A Unit) := by
  mvcgen [onWritten, handles_doReceive]
  rename_i hs
  exact hs.sound

theorem handles_onReceived (now : Int) (ec : ErrorCode) (length : Nat) :
    Handles ec (onReceived f cr strategy now ec length) := by
  mvcgen [onReceived, doReply, handles_asyncWrite, handles_onWritten]
  · rename_i hs t
    exact ⟨hs.1.quiet, hs.1.rest, hs.1.failed⟩
  · rename_i hs
    exact hs.sound

theorem handles_onInitialized (ec : ErrorCode) : Handles ec (onInitialized ec : Code D A Unit) := by
  mvcgen [onInitialized, handles_doReceive]
  rename_i hs
  exact hs.atRest

theorem handles_onAccepted (ec : ErrorCode) : Handles ec (onAccepted secured ec : Code D A Unit) := by
  mvcgen [onAccepted, start, handles_onInitialized]
  rename_i hs
  exact hs.sound

/-- **Every handler leaves what it found**: the buffers of what it starts are not touched any more. -/
theorem handles_handler (op : Op) (c : Completion) : Handles c.ec (Code.handler f cd cr strategy secured op c) := by
  cases op with
  | accept => exact handles_onAccepted secured c.ec
  | handshake => exact handles_onInitialized c.ec
  | gatherWrite header data => exact handles_onWritten c.ec c.received.length
  | readHeader => exact handles_handleReadHeader _ (handles_onReceived f cr strategy c.now)
  | readBody b => exact handles_handleReadData f cd _ (handles_onReceived f cr strategy c.now)

theorem Keeps.run {s : Chain D A} {P : Chain D A → Prop} {x : Code D A T} {Q : T → Chain D A → Prop}
    (h : Keeps P x Q) (hs : P s) :
    (∃ a t, x.run s = .ok a t ∧ Q a t) ∨ ∃ e t, x.run s = .error e t ∧ t.AtRest := by
  have hwp := h s hs
  cases hx : x.run s with
  | ok a t =>
    have hQ : Q a t := by simpa [wp, PredTrans.apply, hx] using hwp
    exact .inl ⟨a, t, rfl, hQ⟩
  | error e t =>
    have hrest : t.AtRest := by simpa [wp, PredTrans.apply, hx] using hwp
    exact .inr ⟨e, t, rfl, hrest⟩

end Code

namespace Chain

variable {f cd cr strategy secured} {s t : Chain D A}

theorem Sound.ops_of_mem (h : s.Sound) {i : ℕ} {op : Op} (hop : (i, op) ∈ s.ops) : s.ops = [(i, op)] := by
  have hlen : s.ops.length ≤ 1 := h.quiet.length_underWay_le
  obtain ⟨o, ho⟩ := List.length_eq_one_iff.mp (le_antisymm hlen (List.length_pos_of_mem hop))
  rw [ho, List.mem_singleton] at hop
  rw [ho, hop]

theorem Sound.called_completed (h : s.Sound) {i : ℕ} {op : Op} (hop : (i, op) ∈ s.ops) (c : Completion) :
    Called c.ec (s.completed i op c) := by
  have hops := h.ops_of_mem hop
  refine ⟨h.quiet.concat (.inr ⟨i, rfl⟩), ?_, ?_⟩
  · have hunderWay : underWay s.deeds = [(i, op)] := hops
    simp [ops, completed, Deed.after, hunderWay]
  · have hclear : s.failed = false := by
      by_contra hfailed
      rw [h.failed (by simpa using hfailed)] at hops
      cases hops
    simp [completed, hclear]

theorem sound_next (h : s.Sound) {e : ℕ × Completion} (hnext : s.next f cd cr strategy secured e = some t) :
    t.Sound := by
  obtain ⟨⟨i, op⟩, hfind, rfl⟩ := Option.map_eq_some_iff.mp hnext
  have hi : i = e.1 := by simpa using List.find?_some hfind
  subst hi
  have hcalled := h.called_completed (List.mem_of_find?_eq_some hfind) e.2
  rcases (Code.handles_handler f cd cr strategy secured op e.2).run hcalled with
    ⟨⟨⟩, u, hrun, hsound⟩ | ⟨exn, u, hrun, hrest⟩
  · simp only [hrun]
    exact hsound
  · simp only [hrun]
    exact hrest.sound_failed

theorem sound_create (cdata : D) (response : Response A) : (create cdata response).Sound where
  quiet := quiet_nil.concat (.inl rfl)
  failed h := by cases h
  holds i op hop := by
    obtain ⟨rfl, rfl⟩ : i = 0 ∧ op = .accept := by simpa [ops, create, underWay, Deed.after] using hop
    trivial

theorem sound_run {cdata : D} {response : Response A} {es : List (ℕ × Completion)}
    (hrun : Runs (StepOf (next f cd cr strategy secured)) (create cdata response) es s) : s.Sound :=
  hrun.invariant (I := fun _ s => s.Sound) (sound_create cdata response) fun _ _ _ _ _ hs hnext => sound_next hs hnext

variable (f cd cr strategy secured) in
/-- The chain has followed a session that is given the same completions: it has what the session has, or a
handler has thrown. -/
def Follows (t : Session D A) (es : List (ℕ × Completion)) (s : Chain D A) : Prop :=
  (∃ t', t.handleAll f cd cr strategy secured (es.map Prod.snd) = .ok t' ∧ Represents s t') ∨
    (s.failed = true ∧ ∃ e, t.handleAll f cd cr strategy secured (es.map Prod.snd) = .error e)

/-- **Every run of the chain follows its session.** -/
theorem follows_run (sessionId : ℕ) {cdata : D} {response : Response A} {es : List (ℕ × Completion)}
    (hrun : Runs (StepOf (next f cd cr strategy secured)) (create cdata response) es s) :
    Follows f cd cr strategy secured (.create sessionId cdata response) es s := by
  refine hrun.invariant (.inl ⟨_, rfl, represents_create sessionId cdata response⟩) ?_
  intro es s e u hrun h hnext
  have hsound := sound_run hrun
  obtain ⟨⟨i, op⟩, hfind, -⟩ := Option.map_eq_some_iff.mp hnext
  have hi : i = e.1 := by simpa using List.find?_some hfind
  subst hi
  have hops := hsound.ops_of_mem (List.mem_of_find?_eq_some hfind)
  rcases h with ⟨t, ht, hrepresents⟩ | ⟨hfailed, -⟩
  swap
  · rw [hsound.failed hfailed] at hops
    cases hops
  rw [Follows, List.map_append, List.map_singleton, Session.handleAll_concat, ht, ok_bind]
  rcases follows_session f cd cr strategy secured hrepresents hops e.2 with
    ⟨s', t', hstep, ht', hrepresents'⟩ | ⟨s', exn, hstep, hthrown, hfailed⟩
  · obtain rfl : s' = u := Option.some.inj (hstep.symm.trans hnext)
    exact .inl ⟨t', ht', hrepresents'⟩
  · obtain rfl : s' = u := Option.some.inj (hstep.symm.trans hnext)
    exact .inr ⟨hfailed, exn, hthrown⟩

variable (f cd cr strategy secured) in
/-- **The buffers of an operation are stable.** Whatever completes, and in whatever order, no more than one
operation has ever been under way at a time, and none is once the session has met an error; what an operation
refers to is not modified between its start and its completion, nor used by another that is started, and it is
what the operation was handed. -/
theorem buffers_stable (cdata : D) (response : Response A) {es : List (ℕ × Completion)}
    (hrun : Runs (StepOf (next f cd cr strategy secured)) (create cdata response) es s) :
    (∀ deeds, deeds <+: s.deeds → (underWay deeds).length ≤ 1) ∧ (s.failed = true → s.ops = []) ∧
      Stable Op.Uses s.deeds ∧ ∀ i op, (i, op) ∈ s.ops → op.Holds s.connection := by
  have h : s.Sound := sound_run hrun
  refine ⟨?_, h.failed, stable_of_quiet h.quiet, h.holds⟩
  rintro deeds ⟨rest, hrest⟩
  have hquiet := h.quiet
  rw [← hrest] at hquiet
  exact hquiet.of_append.length_underWay_le

end Chain

end Buffers

namespace Chain

def oneReply : List (ℕ × Completion) :=
  [(0, ⟨[], none, 0⟩), (2, ⟨formatHeader 1, none, 0⟩), (5, ⟨[7], none, 0⟩), (9, ⟨[], none, 0⟩),
    (11, ⟨List.replicate 8 (ch 'z'), none, 0⟩)]

def unaryRequest : Codec ℕ := ⟨fun n => List.replicate n 0, fun b => .ok b.length⟩

def unaryResponse : Codec (Response ℕ) := ⟨fun r => unaryRequest.save r.data, fun b => .ok ⟨.ok, b.length⟩⟩

theorem buffers_stable_oneReply : ∃ s, Runs (StepOf (next ⟨id, .ok⟩ unaryRequest unaryResponse (fun _ n => .ok n) false))
    (create 0 ⟨.bad, 0⟩) oneReply s ∧ s.response.data = 1 ∧ s.failed = true ∧ s.ops = [] ∧ Stable Op.Uses s.deeds := by
  have hplay : ∃ s, play (next ⟨id, .ok⟩ unaryRequest unaryResponse (fun _ n => .ok n) false)
      (create 0 ⟨.bad, 0⟩) oneReply = some s ∧ s.response.data = 1 ∧ s.failed = true := ⟨_, rfl, rfl, rfl⟩
  obtain ⟨s, hs, hdata, hfailed⟩ := hplay
  obtain ⟨-, hrest, hstable, -⟩ := buffers_stable ⟨id, .ok⟩ unaryRequest unaryResponse (fun _ n => .ok n) false 0
    ⟨.bad, 0⟩ (runs_of_play hs)
  exact ⟨s, runs_of_play hs, hdata, hfailed, hrest hfailed, hstable⟩

end Chain

end TCPClientServer.Server
