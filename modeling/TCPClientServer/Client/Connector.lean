import TCPClientServer.Io.Framing
import TCPClientServer.Server.Response

/-!
# `Connector::send`

One request is written and one response read, on the connection that is open. The response is a variable
that nothing initialises: it holds whatever `fresh` is until a response has been decoded into it.

* `send` : the call; `Written` : its write is completed; `send_of_write` : its two halves;
* `send_refused`, `send_write_fault` : the two ways the write ends it;
* `send_written` : otherwise it does what the read does.
-/

namespace TCPClientServer.Client
open TCPClientServer.Basis TCPClientServer.Io TCPClientServer.Server

/-- What a `send` that does not throw leaves: the connection, the response, the error code and the two
lengths. The length received is not set when nothing was read. -/
structure Sent (A : Type) where
  connection : Connection
  response : Response A
  ec : ErrorCode
  sentLength : Nat
  receivedLength : Option Nat

section Send
variable {D A : Type} (f : Filter) (cd : Codec D) (cr : Codec (Response A))

def send (conn : Connection) (data : D) (k : Sink) (fresh : Response A) (s : Source) : Except Exn (Sent A) :=
  let w := conn.write f cd data k
  match w.ec with
  | some e => .ok ⟨w.connection, fresh, some e, w.length, none⟩
  | none => do
    let r ← w.connection.read f cr fresh s
    return ⟨r.connection, r.value, r.ec, w.length, some r.length⟩

/-- The write of the request is completed. -/
def Written (data : D) (k : Sink) : Prop := Accepted f cd data ∧ k.Takes (frame f cd data)

instance (data : D) (k : Sink) : Decidable (Written f cd data k) := inferInstanceAs (Decidable (_ ∧ _))

def staged (conn : Connection) (data : D) : Connection :=
  { conn with outboundData := encode f cd data, outboundHeader := formatHeader (encode f cd data).length }

variable {f cd cr} {conn : Connection} {data : D} {k : Sink} {fresh : Response A} {s : Source}

theorem send_of_write (h : (conn.write f cd data k).ec = none) :
    send f cd cr conn data k fresh s = ((conn.write f cd data k).connection.read f cr fresh s >>= fun r =>
      .ok ⟨r.connection, r.value, r.ec, (conn.write f cd data k).length, some r.length⟩) := by
  simp only [send, h, pure_eq_ok]

theorem write_written (h : Written f cd data k) :
    conn.write f cd data k = ⟨staged f cd conn data, (frame f cd data).length, none, frame f cd data⟩ := by
  simp only [Connection.write, Connection.stage_accepted h.1, writeImpl_takes h.2]
  rfl

variable (cr conn fresh s) in
theorem send_refused (h : ¬ Accepted f cd data) :
    ∃ sent, send f cd cr conn data k fresh s = .ok sent ∧ sent.ec = some .invalidArgument := by
  simp only [send, Connection.write, Connection.stage_refused h]
  exact ⟨_, rfl, rfl⟩

variable (cr conn fresh s) in
theorem send_write_fault {n : Nat} (h : Accepted f cd data) (hroom : k.room = some n)
    (hcut : n < (frame f cd data).length) :
    ∃ sent, send f cd cr conn data k fresh s = .ok sent ∧ sent.ec = some k.fault := by
  simp only [send, Connection.write, Connection.stage_accepted h, writeImpl_cut hroom hcut]
  exact ⟨_, rfl, rfl⟩

/-- **A request that is written is followed by a read.** -/
theorem send_written (h : Written f cd data k) :
    send f cd cr conn data k fresh s = ((staged f cd conn data).read f cr fresh s >>= fun r =>
      .ok ⟨r.connection, r.value, r.ec, (frame f cd data).length, some r.length⟩) := by
  rw [send_of_write (by rw [write_written h]), write_written h]

variable (conn) in
theorem write_not_written (h : ¬ Written f cd data k) : ∃ e, (conn.write f cd data k).ec = some e := by
  by_cases ha : Accepted f cd data
  · have hcut : ∃ n, k.room = some n ∧ n < (frame f cd data).length := by
      simpa [Written, ha, Sink.Takes] using h
    obtain ⟨n, hroom, hn⟩ := hcut
    exact ⟨k.fault, by simp only [Connection.write, Connection.stage_accepted ha, writeImpl_cut hroom hn]⟩
  · exact ⟨.invalidArgument, by simp only [Connection.write, Connection.stage_refused ha]⟩

variable (cr conn fresh s) in
theorem send_not_written (h : ¬ Written f cd data k) :
    ∃ sent e, send f cd cr conn data k fresh s = .ok sent ∧ sent.ec = some e := by
  obtain ⟨e, he⟩ := write_not_written conn h
  simp only [send, he]
  exact ⟨_, e, rfl, rfl⟩

variable (f cd cr conn data k s) in
/-- The memory of the response is seen only in a `send` that reports an error or meets a header that is not
valid. -/
theorem send_fresh (fresh fresh' : Response A) :
    send f cd cr conn data k fresh s = send f cd cr conn data k fresh' s ∨
      ∃ conn' ec sent received, send f cd cr conn data k fresh s = .ok ⟨conn', fresh, ec, sent, received⟩ ∧
        send f cd cr conn data k fresh' s = .ok ⟨conn', fresh', ec, sent, received⟩ ∧
        (ec = none → headerLength ≤ s.bytes.length ∧
          handleDetermineDataSize (s.bytes.take headerLength) = none) := by
  cases hec : (conn.write f cd data k).ec with
  | some e =>
    simp only [send, hec]
    exact .inr ⟨_, _, _, _, rfl, rfl, fun hclear => by cases hclear⟩
  | none =>
    rw [send_of_write hec, send_of_write hec]
    rcases Connection.read_value (f := f) (c := cr) (conn.write f cd data k).connection fresh fresh' s with
      hsame | ⟨conn', length, ec, s', hread, hread', hheader⟩
    · exact .inl (by rw [hsame])
    · rw [hread, hread', ok_bind, ok_bind]
      exact .inr ⟨_, _, _, _, rfl, rfl, hheader⟩

end Send

end TCPClientServer.Client
