import TCPClientServer.Io.Framing
import TCPClientServer.Server.Response

/-!
# `Session`

One client's session is a chain of handlers: it reads a request, replies to it, and reads again. Between
two handlers it waits for one operation of the transport, and the completion of that operation runs the
next handler, which starts the next operation, ends the chain or throws.

* `Pending`, `Completion` : the operation waited for, and what the transport completes it with;
* `complete` : the handler of the pending operation;
* `complete_header`, `complete_body` : the handlers of a session whose client sends frames;
* `Handled` : what every handler leaves as it was, and the write it may start.
-/

namespace TCPClientServer.Server
open TCPClientServer.Basis TCPClientServer.Io

/-- What a session waits for. An idle one has no handler left to be called. -/
inductive Pending where
  | accept
  | handshake
  | readHeader
  | readBody (b : Connection.BodyRead)
  | write (frame : Bytes)
  | idle
deriving DecidableEq

/-- The completion of an operation: the bytes received by it, its error code, and the clock when its
handler runs. -/
structure Completion where
  received : Bytes
  ec : ErrorCode
  now : Int

def Pending.size : Pending → Nat
  | readHeader => headerLength
  | readBody b => b.size
  | _ => 0

/-- What the transport can complete an operation with: all bytes, or an error and some of them. -/
def Pending.Fits (p : Pending) (c : Completion) : Prop :=
  c.received.length ≤ p.size ∧ (c.ec = none → c.received.length = p.size)

instance (p : Pending) (c : Completion) : Decidable (p.Fits c) := inferInstanceAs (Decidable (_ ∧ _))

/-- The members of a `Session`, the operation it waits for, and what it has done so far: the requests that
were read and the responses whose write was started. -/
structure Session (D A : Type) where
  sessionId : Nat
  connection : Connection
  cdata : D
  response : Response A
  pending : Pending
  requests : List D
  replies : List (Response A)

section Handlers
variable {D A : Type} (f : Filter) (cd : Codec D) (cr : Codec (Response A)) (strategy : Int → D → Except Exn A)

/-- A session as its constructor leaves it, its acceptor set to work: the request and the response are
whatever is in memory. -/
def Session.create (sessionId : Nat) (cdata : D) (response : Response A) : Session D A :=
  ⟨sessionId, .fresh, cdata, response, .accept, [], []⟩

namespace Session

def doReceive (s : Session D A) : Session D A := { s with pending := .readHeader }

def onWritten (s : Session D A) (ec : ErrorCode) : Session D A :=
  match ec with
  | none => s.doReceive
  | some _ => { s with pending := .idle }

def doReply (s : Session D A) : Session D A :=
  match s.connection.asyncWrite f cr s.response with
  | (connection, .handler ec _) => onWritten { s with connection } ec
  | (connection, .pending frame) =>
    { s with connection, pending := .write frame, replies := s.replies ++ [s.response] }

def onReceived (s : Session D A) (ec : ErrorCode) (now : Int) : Except Exn (Session D A) :=
  match ec with
  | some _ => .ok { s with pending := .idle }
  | none => do
    let s := { s with requests := s.requests ++ [s.cdata] }
    let data ← strategy now s.cdata
    return doReply f cr { s with response := ⟨.ok, data⟩ }

def onInitialized (s : Session D A) (ec : ErrorCode) : Except Exn (Session D A) :=
  match ec with
  | none => .ok s.doReceive
  | some e => .error (.systemError e)

/-- `start`: the handshake of a secured connection is waited for, and an unsecured one calls its handler
at once. -/
def start (secured : Bool) (s : Session D A) : Except Exn (Session D A) :=
  if secured then .ok { s with pending := .handshake } else s.onInitialized none

/-- The handler of the operation that is waited for. The acceptor's is the server's. -/
def complete (s : Session D A) (c : Completion) : Except Exn (Session D A) :=
  match s.pending with
  | .handshake => s.onInitialized c.ec
  | .readHeader => do
    let connection := { s.connection with inboundHeader := s.connection.inboundHeader.fill c.received }
    match ← connection.handleReadHeader c.ec c.received.length with
    | (connection, .handler ec _) => onReceived f cr strategy { s with connection } ec c.now
    | (connection, .pending b) => return { s with connection, pending := .readBody b }
  | .readBody b => do
    let connection := { s.connection with inboundData := fill s.connection.inboundData c.received }
    let (ec, _, cdata) ← connection.handleReadData f cd c.ec (b.length + c.received.length) s.cdata
    onReceived f cr strategy { s with connection, cdata } ec c.now
  | .write _ => .ok (s.onWritten c.ec)
  | .accept | .idle => .ok s

/-! ## A session whose client sends frames -/

section Frames
variable {f cd cr strategy} {s : Session D A} {now : Int} {d : D}

variable (cr strategy now) in
/-- The header of a frame is followed by the read of its body, into a buffer of its size. -/
theorem complete_header (hp : s.pending = .readHeader) (hd : Accepted f cd d) :
    ∃ connection, complete f cd cr strategy s ⟨formatHeader (encode f cd d).length, none, now⟩ =
      .ok { s with connection, pending := .readBody ⟨(encode f cd d).length, headerLength⟩ } ∧
      connection.inboundData.length = (encode f cd d).length := by
  have hlen : (formatHeader (encode f cd d).length).length = headerLength := length_formatHeader hd
  have hheader := HeaderBuffer.fill_full s.connection.inboundHeader hlen
  have hsize := handleDetermineDataSize_formatHeader (show (encode f cd d).length < 16 ^ headerLength from hd)
  have hfit := Connection.accepted_le_vectorMaxSize hd
  rw [complete, hp]
  simp only [Connection.handleReadHeader, Connection.prepareBody, hheader, hsize, resize, if_pos hfit, ok_bind,
    pure_eq_ok, hlen]
  exact ⟨_, rfl, length_resized _ _⟩

variable (cr strategy now) in
theorem complete_body {b : Connection.BodyRead} (hp : s.pending = .readBody b)
    (hlen : s.connection.inboundData.length = (encode f cd d).length) (hd : Decodes f cd d) :
    complete f cd cr strategy s ⟨encode f cd d, none, now⟩ =
      (strategy now d >>= fun data => .ok (doReply f cr
        { s with
          connection := { s.connection with inboundData := encode f cd d }, cdata := d,
          requests := s.requests ++ [d], response := ⟨.ok, data⟩ })) := by
  have hbody : fill s.connection.inboundData (encode f cd d) = encode f cd d := fill_full hlen.symm
  rw [complete, hp]
  simp only [hbody, Connection.handleReadData, show decode f cd (encode f cd d) = .ok d from hd, ok_bind,
    pure_eq_ok, onReceived]

theorem doReply_accepted (h : Accepted f cr s.response) :
    ∃ connection, doReply f cr s =
      { s with
        connection, pending := .write (frame f cr s.response), replies := s.replies ++ [s.response] } := by
  rw [doReply, Connection.asyncWrite, Connection.stage_accepted h]
  exact ⟨_, rfl⟩

theorem doReply_refused (h : ¬ Accepted f cr s.response) :
    ∃ connection, doReply f cr s = { s with connection, pending := .idle } := by
  rw [doReply, Connection.asyncWrite, Connection.stage_refused h]
  exact ⟨_, rfl⟩

end Frames

/-! ## What a handler leaves as it was -/

section Handled
variable {f cd cr strategy} {s t : Session D A} {c : Completion}

variable (f cr) in
/-- A handler keeps the id of its session, does not set it to accepting, and starts no write or that of one
more reply. -/
structure Handled (s t : Session D A) : Prop where
  sessionId : t.sessionId = s.sessionId
  accept : t.pending ≠ .accept
  replies : (t.replies = s.replies ∧ ∀ put, t.pending ≠ .write put) ∨
    ∃ r, t.replies = s.replies ++ [r] ∧ t.pending = .write (frame f cr r)

theorem handled_doReply (s : Session D A) : Handled f cr s (doReply f cr s) := by
  by_cases h : Accepted f cr s.response
  · obtain ⟨connection, hreply⟩ := doReply_accepted h
    rw [hreply]
    exact ⟨rfl, by simp, .inr ⟨s.response, rfl, rfl⟩⟩
  · obtain ⟨connection, hreply⟩ := doReply_refused h
    rw [hreply]
    exact ⟨rfl, by simp, .inl ⟨rfl, by simp⟩⟩

theorem handled_onReceived {ec : ErrorCode} {now : Int} (h : onReceived f cr strategy s ec now = .ok t) :
    Handled f cr s t := by
  cases ec with
  | some e =>
    cases h
    exact ⟨rfl, by simp, .inl ⟨rfl, by simp⟩⟩
  | none =>
    obtain ⟨data, -, ht⟩ := bind_eq_ok.mp h
    cases ht
    have hreply : Handled f cr _ _ := handled_doReply
      { s with requests := s.requests ++ [s.cdata], response := ⟨.ok, data⟩ }
    exact ⟨hreply.sessionId, hreply.accept, hreply.replies⟩

theorem handled_onWritten (s : Session D A) (ec : ErrorCode) : Handled f cr s (s.onWritten ec) := by
  cases ec with
  | some e => exact ⟨rfl, by simp [onWritten], .inl ⟨rfl, by simp [onWritten]⟩⟩
  | none => exact ⟨rfl, by simp [onWritten, doReceive], .inl ⟨rfl, by simp [onWritten, doReceive]⟩⟩

theorem complete_accept (hp : s.pending = .accept) : complete f cd cr strategy s c = .ok s := by
  rw [complete, hp]

theorem complete_idle (hp : s.pending = .idle) : complete f cd cr strategy s c = .ok s := by
  rw [complete, hp]

theorem handled_complete (hp : s.pending ≠ .accept) (h : complete f cd cr strategy s c = .ok t) :
    Handled f cr s t := by
  rw [complete] at h
  cases hpending : s.pending with
  | accept => exact absurd hpending hp
  | idle =>
    rw [hpending] at h
    cases h
    exact ⟨rfl, hp, .inl ⟨rfl, by simp [hpending]⟩⟩
  | handshake =>
    simp only [hpending, onInitialized] at h
    split at h
    · cases h
      exact ⟨rfl, by simp [doReceive], .inl ⟨rfl, by simp [doReceive]⟩⟩
    · cases h
  | write frame =>
    simp only [hpending] at h
    cases h
    exact handled_onWritten s c.ec
  | readHeader =>
    simp only [hpending] at h
    obtain ⟨⟨connection, started⟩, -, h⟩ := bind_eq_ok.mp h
    cases started with
    | handler ec length =>
      have hreceived := handled_onReceived h
      exact ⟨hreceived.sessionId, hreceived.accept, hreceived.replies⟩
    | pending b =>
      cases h
      exact ⟨rfl, by simp, .inl ⟨rfl, by simp⟩⟩
  | readBody b =>
    simp only [hpending] at h
    obtain ⟨⟨ec, length, cdata⟩, -, h⟩ := bind_eq_ok.mp h
    have hreceived := handled_onReceived h
    exact ⟨hreceived.sessionId, hreceived.accept, hreceived.replies⟩

end Handled

end Session

end Handlers

end TCPClientServer.Server
