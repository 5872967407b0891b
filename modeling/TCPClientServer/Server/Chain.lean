import TCPClientServer.Basis.Operations
import TCPClientServer.Server.AsyncServer

/-!
# The chain of handlers

The handlers of a session and of its connection once more, now one assignment to a buffer and one call of the
transport after another. Nothing is assumed of how many operations are under way: a handler starts what the
source starts there, and any operation that is under way can be completed next.

* `Op.Uses` : the members of the connection that an operation refers to;
* `Chain`, `Code` : what the handlers work on, with what they have done to the buffers;
* `asyncWrite`, `asyncRead`, `doReceive`, `doReply`, … : the functions, with the handlers they are given;
* `Mirrors` : code that ends as a handler of `Session` does; `follows_session`.
-/

namespace TCPClientServer.Server
open TCPClientServer.Basis TCPClientServer.Io

inductive Member where
  | outboundHeader
  | outboundData
  | inboundHeader
  | inboundData
deriving DecidableEq

/-- An operation of the transport. A write has the contents of its two buffers when it is started. -/
inductive Op where
  | accept
  | handshake
  | gatherWrite (header data : Bytes)
  | readHeader
  | readBody (b : Connection.BodyRead)
deriving DecidableEq

def Op.Uses : Op → Member → Prop
  | gatherWrite .., m => m = .outboundHeader ∨ m = .outboundData
  | readHeader, m => m = .inboundHeader
  | readBody _, m => m = .inboundData
  | _, _ => False

def Op.Holds : Op → Connection → Prop
  | gatherWrite header data, conn => conn.outboundHeader = header ∧ conn.outboundData = data
  | readBody b, conn => conn.inboundData.length = b.size
  | _, _ => True

def Member.assign (m : Member) (b : Bytes) (conn : Connection) : Connection :=
  match m with
  | outboundHeader => { conn with outboundHeader := b }
  | outboundData => { conn with outboundData := b }
  | inboundHeader => { conn with inboundHeader := conn.inboundHeader.fill b }
  | inboundData => { conn with inboundData := b }

/-- What the handlers of a session work on, what they have done to the buffers, and whether the session has
met an error. -/
structure Chain (D A : Type) where
  connection : Connection
  cdata : D
  response : Response A
  deeds : List (Deed Op Member)
  failed : Bool

namespace Chain

def ops {D A : Type} (s : Chain D A) : List (ℕ × Op) := underWay s.deeds

def create {D A : Type} (cdata : D) (response : Response A) : Chain D A :=
  ⟨.fresh, cdata, response, [.started 0 .accept], false⟩

section Deeds
variable {D A : Type} (s : Chain D A)

def modified (m : Member) (b : Bytes) : Chain D A :=
  { s with connection := m.assign b s.connection, deeds := s.deeds ++ [.modified m] }

def started (op : Op) : Chain D A := { s with deeds := s.deeds ++ [.started s.deeds.length op] }

@[simp] theorem ops_modified (m : Member) (b : Bytes) : (s.modified m b).ops = s.ops := by
  simp [ops, modified, Deed.after]

@[simp] theorem ops_started (op : Op) : (s.started op).ops = s.ops ++ [(s.deeds.length, op)] := by
  simp [ops, started, Deed.after]

end Deeds

end Chain

/-- What runs in a handler: it may throw, and what it has done by then stays done. -/
abbrev Code (D A T : Type) := EStateM Exn (Chain D A) T

section Code
variable {D A T : Type} (f : Filter) (cd : Codec D) (cr : Codec (Response A)) (strategy : Int → D → Except Exn A)
  (secured : Bool)

namespace Code

def assign (m : Member) (b : Bytes) : Code D A Unit := modify fun s => s.modified m b

def begin (op : Op) : Code D A Unit := modify fun s => s.started op

/-- The connection calls the handler it was given with an error of its own. -/
def refuse (handler : ErrorCode → Nat → Code D A Unit) (length : Nat) : Code D A Unit := do
  modify fun s => { s with failed := true }
  handler (some .invalidArgument) length

def attempt (x : Except Exn T) : Code D A T :=
  match x with
  | .ok a => pure a
  | .error e => throw e

/-! ### `Connection_base` -/

def asyncWrite (r : Response A) (handler : ErrorCode → Nat → Code D A Unit) : Code D A Unit := do
  assign .outboundData (encode f cr r)
  let header := formatHeader (← get).connection.outboundData.length
  if header.length ≠ headerLength then refuse handler headerLength
  else do
    assign .outboundHeader header
    let conn := (← get).connection
    begin (.gatherWrite conn.outboundHeader conn.outboundData)

def asyncRead : Code D A Unit := begin .readHeader

def handleReadHeader (ec : ErrorCode) (length : Nat) (handler : ErrorCode → Nat → Code D A Unit) : Code D A Unit :=
  match ec with
  | some e => handler (some e) length
  | none => do
    match handleDetermineDataSize (← get).connection.inboundHeader.1 with
    | none => refuse handler length
    | some size => do
      assign .inboundData (← attempt (resize (← get).connection.inboundData size))
      begin (.readBody ⟨size, length⟩)

def handleReadData (ec : ErrorCode) (length : Nat) (handler : ErrorCode → Nat → Code D A Unit) : Code D A Unit :=
  match ec with
  | some e => handler (some e) length
  | none => do
    let cdata ← attempt (decode f cd (← get).connection.inboundData)
    modify fun s => { s with cdata }
    handler none length

/-! ### `Session` -/

def doReceive : Code D A Unit := asyncRead

def onWritten (ec : ErrorCode) (_length : Nat) : Code D A Unit :=
  match ec with
  | none => doReceive
  | some _ => pure ()

def doReply : Code D A Unit := do asyncWrite f cr (← get).response onWritten

def onReceived (now : Int) (ec : ErrorCode) (_length : Nat) : Code D A Unit :=
  match ec with
  | none => do
    let data ← attempt (strategy now (← get).cdata)
    modify fun s => { s with response := ⟨.ok, data⟩ }
    doReply f cr
  | some _ => pure ()

def onInitialized (ec : ErrorCode) : Code D A Unit :=
  match ec with
  | none => doReceive
  | some e => throw (.systemError e)

/-- `start`: the handshake of a secured connection is started, and an unsecured one calls its handler at
once. -/
def start : Code D A Unit := if secured then begin .handshake else onInitialized none

def onAccepted (ec : ErrorCode) : Code D A Unit :=
  match ec with
  | none => start secured
  | some _ => pure ()

def handler (op : Op) (c : Completion) : Code D A Unit :=
  match op with
  | .accept => onAccepted secured c.ec
  | .handshake => onInitialized c.ec
  | .gatherWrite .. => onWritten c.ec c.received.length
  | .readHeader => handleReadHeader c.ec c.received.length (onReceived f cr strategy c.now)
  | .readBody b => handleReadData f cd c.ec (b.length + c.received.length) (onReceived f cr strategy c.now)

end Code

namespace Chain

def completed (s : Chain D A) (i : ℕ) (op : Op) (c : Completion) : Chain D A where
  connection :=
    match op with
    | .readHeader => { s.connection with inboundHeader := s.connection.inboundHeader.fill c.received }
    | .readBody _ => { s.connection with inboundData := fill s.connection.inboundData c.received }
    | _ => s.connection
  cdata := s.cdata
  response := s.response
  deeds := s.deeds ++ [.completed i]
  failed := s.failed || c.ec.isSome

/-- One of the operations under way is completed, and its handler called. What the handler throws is an
error as well. -/
def next (s : Chain D A) (e : ℕ × Completion) : Option (Chain D A) :=
  (s.ops.find? fun o => o.1 = e.1).map fun o =>
    match (Code.handler f cd cr strategy secured o.2 e.2).run (s.completed e.1 o.2 e.2) with
    | .ok _ t => t
    | .error _ t => { t with failed := true }

end Chain

/-! ## The handlers of a session -/

def Op.pending : Op → Pending
  | accept => .accept
  | handshake => .handshake
  | gatherWrite header data => .write (header ++ data)
  | readHeader => .readHeader
  | readBody b => .readBody b

namespace Session

/-- The handler in `do_accept`, as far as it is about this session. -/
def accepted (secured : Bool) (t : Session D A) (ec : ErrorCode) : Except Exn (Session D A) :=
  match ec with
  | none => t.start secured
  | some _ => .ok { t with pending := .idle }

def handle (t : Session D A) (c : Completion) : Except Exn (Session D A) :=
  match t.pending with
  | .accept => t.accepted secured c.ec
  | _ => t.complete f cd cr strategy c

def handleAll (t : Session D A) (cs : List Completion) : Except Exn (Session D A) :=
  cs.foldlM (handle f cd cr strategy secured) t

theorem handleAll_concat (t : Session D A) (cs : List Completion) (c : Completion) :
    t.handleAll f cd cr strategy secured (cs ++ [c]) =
      (t.handleAll f cd cr strategy secured cs >>= fun t => t.handle f cd cr strategy secured c) := by
  simp only [handleAll, List.foldlM_append, List.foldlM_cons, List.foldlM_nil, bind_pure]

end Session

namespace Chain

structure SameMembers (s : Chain D A) (t : Session D A) : Prop where
  connection : s.connection = t.connection
  cdata : s.cdata = t.cdata
  response : s.response = t.response

/-- A session waits for the operation that is under way. -/
structure Represents (s : Chain D A) (t : Session D A) : Prop extends SameMembers s t where
  pending : (s.ops = [] ∧ t.pending = .idle) ∨ ∃ i op, s.ops = [(i, op)] ∧ t.pending = op.pending

theorem represents_create (sessionId : Nat) (cdata : D) (response : Response A) :
    Represents (create cdata response) (Session.create sessionId cdata response) :=
  ⟨⟨rfl, rfl, rfl⟩, .inr ⟨0, .accept, rfl, rfl⟩⟩

theorem SameMembers.modified {s : Chain D A} {t : Session D A} (h : SameMembers s t) (m : Member) (b : Bytes) :
    SameMembers (s.modified m b) { t with connection := m.assign b t.connection } :=
  ⟨congrArg (m.assign b) h.connection, h.cdata, h.response⟩

end Chain

namespace Code
open Chain

variable {f cd cr strategy secured} {s : Chain D A} {t t' : Session D A} {handler : ErrorCode → Nat → Code D A Unit}

/-- Code started where nothing is under way ends as a handler of `Session` does. -/
def Mirrors (x : Code D A Unit) (t : Session D A) (y : Except Exn (Session D A)) : Prop :=
  ∀ s, s.ops = [] → SameMembers s t →
    (∃ s' t', x.run s = .ok () s' ∧ y = .ok t' ∧ Represents s' t') ∨ ∃ e s', x.run s = .error e s' ∧ y = .error e

theorem mirrors_begin (op : Op) (hconnection : t'.connection = t.connection) (hcdata : t'.cdata = t.cdata)
    (hresponse : t'.response = t.response) (hpending : t'.pending = op.pending) : Mirrors (begin op) t (.ok t') := by
  intro s hrest h
  have hmembers : SameMembers (s.started op) t' :=
    ⟨h.connection.trans hconnection.symm, h.cdata.trans hcdata.symm, h.response.trans hresponse.symm⟩
  refine .inl ⟨s.started op, t', rfl, rfl, hmembers, .inr ⟨s.deeds.length, op, ?_, hpending⟩⟩
  rw [ops_started, hrest, List.nil_append]

theorem mirrors_pure (t : Session D A) : Mirrors (pure ()) t (.ok { t with pending := .idle }) := by
  intro s hrest h
  exact .inl ⟨s, _, rfl, rfl, ⟨h.connection, h.cdata, h.response⟩, .inl ⟨hrest, rfl⟩⟩

theorem mirrors_throw (e : Exn) (t : Session D A) : Mirrors (throw e) t (.error e) := by
  intro s _ _
  exact .inr ⟨e, s, rfl, rfl⟩

theorem Mirrors.after_modify {x : Code D A Unit} {y : Except Exn (Session D A)} {g : Chain D A → Chain D A}
    (h : Mirrors x t' y) (hops : ∀ s, (g s).ops = s.ops) (hmembers : ∀ s, SameMembers s t → SameMembers (g s) t') :
    Mirrors (do modify g; x) t y := by
  intro s hrest hs
  exact h (g s) ((hops s).trans hrest) (hmembers s hs)

theorem Mirrors.after_assign {x : Code D A Unit} {y : Except Exn (Session D A)} {m : Member} {b : Bytes}
    (h : Mirrors x { t with connection := m.assign b t.connection } y) : Mirrors (do assign m b; x) t y :=
  h.after_modify (fun s => ops_modified s m b) fun _ hs => hs.modified m b

theorem Mirrors.refuse (h : ∀ length, Mirrors (handler (some .invalidArgument) length) t (.ok t')) (length : Nat) :
    Mirrors (refuse handler length) t (.ok t') := by
  intro s hrest hs
  exact h length { s with failed := true } hrest ⟨hs.connection, hs.cdata, hs.response⟩

theorem Mirrors.attempt {x : Except Exn T} {g : T → Code D A Unit} {y : T → Except Exn (Session D A)}
    (h : ∀ a, x = .ok a → Mirrors (g a) t (y a)) : Mirrors (attempt x >>= g) t (x >>= y) := by
  intro s hrest hs
  cases x with
  | ok a => exact h a rfl s hrest hs
  | error e => exact .inr ⟨e, s, rfl, rfl⟩

theorem Mirrors.get {g : Chain D A → Code D A Unit} {y : Except Exn (Session D A)}
    (h : ∀ s, SameMembers s t → Mirrors (g s) t y) : Mirrors (do g (← MonadState.get)) t y := by
  intro s hrest hs
  exact h s hs s hrest hs

theorem mirrors_onWritten (ec : ErrorCode) (length : Nat) (t : Session D A) :
    Mirrors (onWritten ec length) t (.ok (t.onWritten ec)) := by
  cases ec with
  | none => exact mirrors_begin .readHeader rfl rfl rfl rfl
  | some e => exact mirrors_pure t

theorem mirrors_doReply (t : Session D A) : Mirrors (doReply f cr) t (.ok (t.doReply f cr)) := by
  unfold doReply
  apply Mirrors.get
  intro s hs
  rw [hs.response]
  unfold asyncWrite
  apply Mirrors.after_assign
  apply Mirrors.get
  intro s' hs'
  rw [hs'.connection]
  dsimp only [Member.assign]
  by_cases ha : Accepted f cr t.response
  · rw [Session.doReply, Connection.asyncWrite, Connection.stage_accepted ha]
    rw [if_neg (not_not.mpr (length_formatHeader ha))]
    apply Mirrors.after_assign
    apply Mirrors.get
    intro s'' hs''
    rw [hs''.connection]
    exact mirrors_begin _ rfl rfl rfl rfl
  · rw [Session.doReply, Connection.asyncWrite, Connection.stage_refused ha]
    rw [if_pos ((length_formatHeader_ne_iff (encode f cr t.response).length).mpr (not_lt.mp ha))]
    exact Mirrors.refuse (fun length => mirrors_pure _) _

theorem mirrors_onReceived (now : Int) (ec : ErrorCode) (length : Nat) (t : Session D A) :
    Mirrors (onReceived f cr strategy now ec length) t (t.onReceived f cr strategy ec now) := by
  cases ec with
  | some e => exact mirrors_pure t
  | none =>
    apply Mirrors.get
    intro s hs
    rw [hs.cdata]
    apply Mirrors.attempt
    intro data _
    apply Mirrors.after_modify
    · exact mirrors_doReply _
    · exact fun _ => rfl
    · exact fun _ hs => ⟨hs.connection, hs.cdata, rfl⟩

theorem mirrors_onInitialized (ec : ErrorCode) (t : Session D A) :
    Mirrors (onInitialized ec) t (t.onInitialized ec) := by
  cases ec with
  | none => exact mirrors_begin .readHeader rfl rfl rfl rfl
  | some e => exact mirrors_throw _ t

theorem mirrors_onAccepted (ec : ErrorCode) (t : Session D A) :
    Mirrors (onAccepted secured ec) t (t.accepted secured ec) := by
  cases ec with
  | some e => exact mirrors_pure t
  | none =>
    cases secured with
    | true => exact mirrors_begin .handshake rfl rfl rfl rfl
    | false => exact mirrors_onInitialized none t

variable (f cr strategy) in
theorem mirrors_handleReadHeader (now : Int) (ec : ErrorCode) (length : Nat) (t : Session D A) :
    Mirrors (handleReadHeader ec length (onReceived f cr strategy now)) t (do
      match ← t.connection.handleReadHeader ec length with
      | (connection, .handler ec _) => Session.onReceived f cr strategy { t with connection } ec now
      | (connection, .pending b) => return { t with connection, pending := .readBody b }) := by
  cases ec with
  | some e => exact mirrors_pure t
  | none =>
    apply Mirrors.get
    intro s hs
    rw [hs.connection]
    cases hsize : handleDetermineDataSize t.connection.inboundHeader.1 with
    | none =>
      simp only [Connection.handleReadHeader, Connection.prepareBody, hsize, ok_bind, pure_eq_ok]
      exact Mirrors.refuse (fun length => mirrors_pure _) _
    | some size =>
      simp only [Connection.handleReadHeader, Connection.prepareBody, hsize, pure_eq_ok, bind_assoc, ok_bind]
      apply Mirrors.get
      intro s' hs'
      rw [hs'.connection]
      apply Mirrors.attempt
      intro data _
      apply Mirrors.after_assign
      exact mirrors_begin _ rfl rfl rfl rfl

variable (f cd cr strategy) in
theorem mirrors_handleReadData (now : Int) (ec : ErrorCode) (length : Nat) (t : Session D A) :
    Mirrors (handleReadData f cd ec length (onReceived f cr strategy now)) t (do
      let (ec, _, cdata) ← t.connection.handleReadData f cd ec length t.cdata
      Session.onReceived f cr strategy { t with cdata } ec now) := by
  cases ec with
  | some e => exact mirrors_pure t
  | none =>
    apply Mirrors.get
    intro s hs
    rw [hs.connection]
    simp only [Connection.handleReadData, bind_assoc, pure_eq_ok, ok_bind]
    apply Mirrors.attempt
    intro cdata _
    apply Mirrors.after_modify
    · exact mirrors_onReceived now none length _
    · exact fun _ => rfl
    · exact fun _ hs => ⟨hs.connection, rfl, hs.response⟩

variable (f cd cr strategy secured) in
theorem mirrors_handler (op : Op) (c : Completion) (hpending : t.pending = op.pending) : ∃ t₀,
    (∀ s i, SameMembers s t → SameMembers (s.completed i op c) t₀) ∧
      Mirrors (Code.handler f cd cr strategy secured op c) t₀ (t.handle f cd cr strategy secured c) := by
  rw [Session.handle, Session.complete, hpending]
  cases op with
  | accept => exact ⟨t, fun s i h => ⟨h.connection, h.cdata, h.response⟩, mirrors_onAccepted c.ec t⟩
  | handshake => exact ⟨t, fun s i h => ⟨h.connection, h.cdata, h.response⟩, mirrors_onInitialized c.ec t⟩
  | gatherWrite header data =>
    exact ⟨t, fun s i h => ⟨h.connection, h.cdata, h.response⟩, mirrors_onWritten c.ec c.received.length t⟩
  | readHeader =>
    refine ⟨_, ?_, mirrors_handleReadHeader f cr strategy c.now c.ec c.received.length
      { t with connection := { t.connection with inboundHeader := t.connection.inboundHeader.fill c.received } }⟩
    intro s i h
    exact ⟨by simp only [completed, h.connection], h.cdata, h.response⟩
  | readBody b =>
    refine ⟨_, ?_, mirrors_handleReadData f cd cr strategy c.now c.ec (b.length + c.received.length)
      { t with connection := { t.connection with inboundData := fill t.connection.inboundData c.received } }⟩
    intro s i h
    exact ⟨by simp only [completed, h.connection], h.cdata, h.response⟩

end Code

namespace Chain

/-- **The steps are those of `Session`**: the completion of the operation that is under way runs the handler
that `Session` runs, which leaves the same or throws the same. -/
theorem follows_session (hs : Represents s t) {i : ℕ} {op : Op} (hops : s.ops = [(i, op)]) (c : Completion) :
    (∃ s' t', s.next f cd cr strategy secured (i, c) = some s' ∧ t.handle f cd cr strategy secured c = .ok t' ∧
      Represents s' t') ∨
    ∃ s' e, s.next f cd cr strategy secured (i, c) = some s' ∧ t.handle f cd cr strategy secured c = .error e ∧
      s'.failed = true := by
  have hpending : t.pending = op.pending := by
    rcases hs.pending with ⟨hrest, -⟩ | ⟨i', op', hops', hpending⟩
    · rw [hrest] at hops
      cases hops
    · rw [hops'] at hops
      cases hops
      exact hpending
  have hfind : (s.ops.find? fun o => o.1 = i) = some (i, op) := by simp [hops]
  have hrest : (s.completed i op c).ops = [] := by
    have hunderWay : underWay s.deeds = [(i, op)] := hops
    simp [ops, completed, Deed.after, hunderWay]
  obtain ⟨t₀, hmembers, hmirrors⟩ := Code.mirrors_handler f cd cr strategy secured op c hpending
  rcases hmirrors _ hrest (hmembers s i hs.toSameMembers) with ⟨s', t', hrun, ht', hrepresents⟩ | ⟨e, s', hrun, ht'⟩
  · refine .inl ⟨s', t', ?_, ht', hrepresents⟩
    simp only [next, hfind, Option.map_some, hrun]
  · refine .inr ⟨{ s' with failed := true }, e, ?_, ht', rfl⟩
    simp only [next, hfind, Option.map_some, hrun]

end Chain

end Code

end TCPClientServer.Server
