import TCPClientServer.Basis.Numeral
import TCPClientServer.Basis.Throwing

/-!
# The transport under a connection

What the socket operations of `UnsecuredIO` and `SSL_IO` report: an error code and the bytes that were
transferred. The incoming half of a connection is the deliveries it still makes before it fails, the
outgoing half the number of bytes it still takes. A blocking transfer returns when the whole buffer is
transferred or the connection has failed, so an error means that the buffer was not completed.

* `readImpl n` : the `read_impl` of a buffer of `n` bytes; `readImpl_bytes`, `readImpl_rest` say that the
  way the transport splits the bytes is not seen;
* `writeImpl b` : the `write_impl` of the bytes `b`.
-/

namespace TCPClientServer.Io
open TCPClientServer.Basis

/-- The error codes that are told apart. The `invalid_argument` is also the connection's own. -/
inductive Fault where
  | connectionAborted
  | connectionReset
  | timedOut
  | invalidArgument
  | eof
  | other (value : Int)
deriving DecidableEq

/-- A `boost::system::error_code`; `none` is the clear one. -/
abbrev ErrorCode := Option Fault

/-- What is thrown. `outOfRange` stands for an access past the end of a container. -/
inductive Exn where
  | systemError (f : Fault)
  | errorCode (f : Fault)
  | lengthError
  | outOfRange
  | filter
  | archive
  | logicError
  | runtimeError
deriving DecidableEq

/-! ## The incoming half -/

/-- The deliveries that still arrive, and the error after them. -/
structure Source where
  deliveries : List Bytes
  fault : Fault
deriving DecidableEq

namespace Source

def bytes (s : Source) : Bytes := s.deliveries.flatten

end Source

/-- The repeated `read_some` of a composed read: up to `n` bytes, and the deliveries left. -/
def collect : Nat → List Bytes → Bytes × List Bytes
  | _, [] => ([], [])
  | n, d :: ds =>
    if d.length ≤ n then (d ++ (collect (n - d.length) ds).1, (collect (n - d.length) ds).2)
    else (d.take n, d.drop n :: ds)

theorem collect_fst (n : Nat) (ds : List Bytes) : (collect n ds).1 = ds.flatten.take n := by
  induction ds generalizing n with
  | nil => simp [collect]
  | cons d ds ih =>
    unfold collect
    split
    · rename_i h
      simp [ih, List.take_append, List.take_of_length_le h]
    · rename_i h
      rw [List.flatten_cons, List.take_append_of_le_length (by omega)]

theorem collect_snd (n : Nat) (ds : List Bytes) : (collect n ds).2.flatten = ds.flatten.drop n := by
  induction ds generalizing n with
  | nil => simp [collect]
  | cons d ds ih =>
    unfold collect
    split
    · rename_i h
      simp [ih, List.drop_append, List.drop_of_length_le h]
    · rename_i h
      rw [List.flatten_cons, List.flatten_cons, List.drop_append_of_le_length (by omega)]

/-- `boost::asio::read` into a buffer of `n` bytes: the bytes received, the error code and what is left. -/
def readImpl (n : Nat) (s : Source) : Bytes × ErrorCode × Source :=
  let (received, left) := collect n s.deliveries
  (received, if received.length = n then none else some s.fault, { s with deliveries := left })

theorem readImpl_bytes (n : Nat) (s : Source) : (readImpl n s).1 = s.bytes.take n := collect_fst n _

theorem readImpl_rest (n : Nat) (s : Source) : (readImpl n s).2.2.bytes = s.bytes.drop n := collect_snd n _

theorem length_readImpl {n : Nat} {s : Source} (h : n ≤ s.bytes.length) : (readImpl n s).1.length = n := by
  rw [readImpl_bytes, List.length_take, Nat.min_eq_left h]

theorem readImpl_ec (n : Nat) (s : Source) :
    (readImpl n s).2.1 = if n ≤ s.bytes.length then none else some s.fault := by
  have hec : (readImpl n s).2.1 = if (readImpl n s).1.length = n then none else some s.fault := rfl
  rw [hec, readImpl_bytes, List.length_take]
  split <;> split <;> first | rfl | omega

/-! ## The outgoing half -/

/-- How many bytes are still taken before the connection fails; `none` when it does not fail. -/
structure Sink where
  room : Option Nat
  fault : Fault

/-- `boost::asio::write` of a sequence of buffers: the bytes put on the socket and the error code. -/
def writeImpl (b : Bytes) (k : Sink) : Bytes × ErrorCode :=
  match k.room with
  | none => (b, none)
  | some room => if b.length ≤ room then (b, none) else (b.take room, some k.fault)

def Sink.Takes (k : Sink) (b : Bytes) : Prop := ∀ n ∈ k.room, b.length ≤ n

instance (k : Sink) (b : Bytes) : Decidable (k.Takes b) := inferInstanceAs (Decidable (∀ n ∈ k.room, b.length ≤ n))

theorem writeImpl_takes {b : Bytes} {k : Sink} (h : k.Takes b) : writeImpl b k = (b, none) := by
  unfold writeImpl
  split
  · rfl
  · rename_i n hn
    rw [if_pos (h n (by simp [hn]))]

theorem writeImpl_cut {b : Bytes} {k : Sink} {n : Nat} (hroom : k.room = some n) (h : n < b.length) :
    writeImpl b k = (b.take n, some k.fault) := by
  simp [writeImpl, hroom, not_le.mpr h]

theorem writeImpl_starts (b : Bytes) (k : Sink) : (writeImpl b k).1 <+: b := by
  unfold writeImpl
  split
  · exact List.prefix_rfl
  split
  · exact List.prefix_rfl
  · exact List.take_prefix _ _

end TCPClientServer.Io
