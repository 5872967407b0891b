import TCPClientServer.Basis.Stream
import TCPClientServer.Io.Filter

/-!
# `Connection_base`

A connection sends a value as a frame, an 8-character header with the size of the data in hexadecimal
followed by the data, and reads frames back, both blocking (`write`, `read`) and through completion
handlers (`asyncWrite`, `asyncRead`). The buffers are members that outlive a call: a read leaves what it
received in them, and a failed one only a part of it over the older contents.

* `formatHeader`, `handleDetermineDataSize` : the header out and in;
* `stage` : what the two writes do before the transport is called;
* `prepareBody` : what the two reads do between the header and the body;
* `decode` : filter and archive, what the two reads do with a body.
-/

namespace TCPClientServer.Io
open TCPClientServer.Basis

def headerLength : Nat := 8

abbrev HeaderBuffer := { b : Bytes // b.length = headerLength }

/-- A buffer after the bytes received into it: the rest keeps its contents. -/
def fill (buffer received : Bytes) : Bytes := (received ++ buffer.drop received.length).take buffer.length

theorem length_fill (buffer received : Bytes) : (fill buffer received).length = buffer.length := by
  simp only [fill, List.length_take, List.length_append, List.length_drop]
  omega

theorem fill_full {buffer received : Bytes} (h : received.length = buffer.length) :
    fill buffer received = received := by
  rw [fill, h, List.drop_length, List.append_nil, ← h, List.take_length]

def HeaderBuffer.fill (buffer : HeaderBuffer) (received : Bytes) : HeaderBuffer :=
  ⟨Io.fill buffer.1 received, (length_fill _ _).trans buffer.2⟩

theorem HeaderBuffer.fill_full (buffer : HeaderBuffer) {received : Bytes}
    (h : received.length = headerLength) : (buffer.fill received).1 = received :=
  Io.fill_full (h.trans buffer.2.symm)

def vectorMaxSize : Nat := 2 ^ 63 - 1

def resized (v : Bytes) (n : Nat) : Bytes := v.take n ++ List.replicate (n - v.length) 0

theorem length_resized (v : Bytes) (n : Nat) : (resized v n).length = n := by
  simp only [resized, List.length_append, List.length_take, List.length_replicate]
  omega

/-- `std::vector<char>::resize(n)`. -/
def resize (v : Bytes) (n : Nat) : Except Exn Bytes :=
  if n ≤ vectorMaxSize then .ok (resized v n) else .error .lengthError

theorem length_of_resize {v w : Bytes} {n : Nat} (h : resize v n = .ok w) : w.length = n := by
  unfold resize at h
  split at h
  · cases h
    exact length_resized v n
  · cases h

/-! ## The connection -/

/-- The members of a `Connection_base` that hold bytes. -/
structure Connection where
  outboundHeader : Bytes
  outboundData : Bytes
  inboundHeader : HeaderBuffer
  inboundData : Bytes
deriving DecidableEq

def Connection.fresh : Connection := ⟨[], [], ⟨List.replicate headerLength 0, rfl⟩, []⟩

/-- `header_stream << std::setw(header_length) << std::hex << size`. -/
def formatHeader (size : Nat) : Bytes := (numeral 16 size).leftpad headerLength (ch ' ')

/-- `handle_determine_data_size`: the size in the header, `none` when the header is not valid. -/
def handleDetermineDataSize (header : Bytes) : Option Nat :=
  (IStream.extract scanHexUInt64 (.ofText header)).1

section Operations
variable {T : Type} (f : Filter) (c : Codec T)

/-- The filtered serialization of a value. -/
def encode (t : T) : Bytes := f.outputFilter (c.save t)

def decode (data : Bytes) : Except Exn T := do
  let inbound ← f.inputFilter data
  c.load inbound

namespace Connection

/-! ### Writing -/

/-- The steps of both writes before the transport: the data and the header are put in place. `none` when
the header does not have its length, and then only the data was. -/
def stage (conn : Connection) (t : T) : Connection × Option Bytes :=
  let conn := { conn with outboundData := encode f c t }
  let header := formatHeader conn.outboundData.length
  if header.length ≠ headerLength then (conn, none)
  else
    let conn := { conn with outboundHeader := header }
    (conn, some (conn.outboundHeader ++ conn.outboundData))

/-- What a `write` did: the length it returns, the error code it sets and the bytes put on the socket. -/
structure Written where
  connection : Connection
  length : Nat
  ec : ErrorCode
  put : Bytes

def write (conn : Connection) (t : T) (k : Sink) : Written :=
  match stage f c conn t with
  | (conn, none) => ⟨conn, (formatHeader conn.outboundData.length).length, some .invalidArgument, []⟩
  | (conn, some frame) =>
    let (put, ec) := writeImpl frame k
    ⟨conn, put.length, ec, put⟩

/-- What an asynchronous call ends in: an operation of the transport started, or the caller's handler
called. -/
inductive Started (Op : Type) where
  | pending (op : Op)
  | handler (ec : ErrorCode) (length : Nat)

/-- `async_write`. The handler of a write that was started is called with what the transport reports. -/
def asyncWrite (conn : Connection) (t : T) : Connection × Started Bytes :=
  match stage f c conn t with
  | (conn, none) => (conn, .handler (some .invalidArgument) headerLength)
  | (conn, some frame) => (conn, .pending frame)

/-! ### Reading -/

/-- The steps of both reads between header and body: the size is taken from the header and the body
buffer resized to it. `none` when the header is not valid. -/
def prepareBody (conn : Connection) : Except Exn (Option (Connection × Nat)) :=
  match handleDetermineDataSize conn.inboundHeader.1 with
  | none => .ok none
  | some size => do
    let inboundData ← resize conn.inboundData size
    return some ({ conn with inboundData }, size)

/-- What a `read` that does not throw did: the length it returns, the error code and the value after it,
and what has not arrived yet. -/
structure Read (T : Type) where
  connection : Connection
  length : Nat
  ec : ErrorCode
  value : T
  source : Source

/-- `read`. An invalid header is reported to the null handler, that is to nobody, and the error code of
the body does not keep it from being decoded. -/
def read (conn : Connection) (t : T) (s : Source) : Except Exn (Read T) :=
  let (header, ec, s) := readImpl headerLength s
  let conn := { conn with inboundHeader := conn.inboundHeader.fill header }
  match ec with
  | some e => .ok ⟨conn, header.length, some e, t, s⟩
  | none => do
    match ← prepareBody conn with
    | none => return ⟨conn, 0, none, t, s⟩
    | some (conn, size) =>
      let (body, ec, s) := readImpl size s
      let conn := { conn with inboundData := fill conn.inboundData body }
      let t ← decode f c conn.inboundData
      return ⟨conn, header.length + body.length, ec, t, s⟩

/-- A body read in progress: its size, and the length of the header read before it. -/
structure BodyRead where
  size : Nat
  length : Nat
deriving DecidableEq

def handleReadHeader (conn : Connection) (ec : ErrorCode) (length : Nat) :
    Except Exn (Connection × Started BodyRead) :=
  match ec with
  | some e => .ok (conn, .handler (some e) length)
  | none => do
    match ← prepareBody conn with
    | none => return (conn, .handler (some .invalidArgument) length)
    | some (conn, size) => return (conn, .pending ⟨size, length⟩)

/-- `handle_read_data`: what the caller's handler is called with, and the value read. -/
def handleReadData (conn : Connection) (ec : ErrorCode) (length : Nat) (t : T) :
    Except Exn (ErrorCode × Nat × T) :=
  match ec with
  | some e => .ok (some e, length, t)
  | none => do
    let t ← decode f c conn.inboundData
    return (none, length, t)

/-- `async_read`, with each operation it starts completed by the transport. -/
def asyncRead (conn : Connection) (t : T) (s : Source) : Except Exn (Read T) := do
  let (header, ec, s) := readImpl headerLength s
  let conn := { conn with inboundHeader := conn.inboundHeader.fill header }
  match ← handleReadHeader conn ec header.length with
  | (conn, .handler ec length) => return ⟨conn, length, ec, t, s⟩
  | (conn, .pending ⟨size, length⟩) =>
    let (body, ec, s) := readImpl size s
    let conn := { conn with inboundData := fill conn.inboundData body }
    let (ec, length, t) ← handleReadData f c conn ec (length + body.length) t
    return ⟨conn, length, ec, t, s⟩

end Connection

/-! ## What the reads do

Each of the four lemmas about a read takes one way through it: the header is not completed, it is not
valid, its size is too large for a vector, or the body is read and decoded. -/

namespace Connection
variable {f c} (conn : Connection) {t : T} {s : Source} {size : Nat}

def withHeader (conn : Connection) (s : Source) : Connection :=
  { conn with inboundHeader := conn.inboundHeader.fill (readImpl headerLength s).1 }

def bodyOf (s : Source) (size : Nat) : Bytes := (s.bytes.drop headerLength).take size

def bodyError (s : Source) (size : Nat) : ErrorCode :=
  if headerLength + size ≤ s.bytes.length then none else some s.fault

def withBody (conn : Connection) (s : Source) (size : Nat) : Connection :=
  { withHeader conn s with inboundData := fill (resized conn.inboundData size) (bodyOf s size) }

theorem inboundHeader_withHeader (h : headerLength ≤ s.bytes.length) :
    (withHeader conn s).inboundHeader.1 = s.bytes.take headerLength := by
  rw [withHeader, readImpl_bytes]
  exact HeaderBuffer.fill_full _ (by rw [List.length_take, Nat.min_eq_left h])

theorem prepareBody_none (h : headerLength ≤ s.bytes.length)
    (hsize : handleDetermineDataSize (s.bytes.take headerLength) = none) :
    prepareBody (withHeader conn s) = .ok none := by
  simp [prepareBody, inboundHeader_withHeader conn h, hsize]

theorem prepareBody_large (h : headerLength ≤ s.bytes.length)
    (hsize : handleDetermineDataSize (s.bytes.take headerLength) = some size) (hlarge : vectorMaxSize < size) :
    prepareBody (withHeader conn s) = .error .lengthError := by
  simp [prepareBody, inboundHeader_withHeader conn h, hsize, resize, not_le.mpr hlarge]

theorem prepareBody_some (h : headerLength ≤ s.bytes.length)
    (hsize : handleDetermineDataSize (s.bytes.take headerLength) = some size) (hfit : size ≤ vectorMaxSize) :
    prepareBody (withHeader conn s) =
      .ok (some ({ withHeader conn s with inboundData := resized conn.inboundData size }, size)) := by
  simp only [prepareBody, inboundHeader_withHeader conn h, hsize, resize, if_pos hfit, ok_bind, pure_eq_ok]
  rfl

theorem readImpl_fault_ec (h : s.bytes.length < headerLength) :
    (readImpl headerLength s).2.1 = some s.fault := by
  rw [readImpl_ec, if_neg (by omega)]

theorem readImpl_clear (h : headerLength ≤ s.bytes.length) : (readImpl headerLength s).2.1 = none := by
  rw [readImpl_ec, if_pos h]

theorem bodyOf_eq : (readImpl size (readImpl headerLength s).2.2).1 = bodyOf s size := by
  rw [readImpl_bytes, readImpl_rest, bodyOf]

theorem bodyError_eq (h : headerLength ≤ s.bytes.length) :
    (readImpl size (readImpl headerLength s).2.2).2.1 = bodyError s size := by
  rw [readImpl_ec, readImpl_rest, List.length_drop, bodyError]
  split <;> split <;> first | rfl | omega

/-- A header that is cut short is reported. -/
theorem read_header_fault (h : s.bytes.length < headerLength) :
    ∃ r, read f c conn t s = .ok r ∧ r.ec = some s.fault ∧ r.value = t ∧ r.length = s.bytes.length ∧
      r.source.bytes = s.bytes.drop headerLength := by
  simp only [read, readImpl_fault_ec h, readImpl_bytes, List.take_of_length_le h.le]
  exact ⟨_, rfl, rfl, rfl, rfl, readImpl_rest _ _⟩

/-- A header that is not valid is reported to nobody. -/
theorem read_invalid (h : headerLength ≤ s.bytes.length)
    (hsize : handleDetermineDataSize (s.bytes.take headerLength) = none) :
    ∃ r, read f c conn t s = .ok r ∧ r.ec = none ∧ r.value = t ∧ r.length = 0 ∧
      r.source.bytes = s.bytes.drop headerLength := by
  have hprep := prepareBody_none conn h hsize
  simp only [withHeader] at hprep
  simp only [read, readImpl_clear h, hprep, ok_bind]
  exact ⟨_, rfl, rfl, rfl, rfl, readImpl_rest _ _⟩

theorem read_large (h : headerLength ≤ s.bytes.length)
    (hsize : handleDetermineDataSize (s.bytes.take headerLength) = some size) (hlarge : vectorMaxSize < size) :
    read f c conn t s = .error .lengthError := by
  have hprep := prepareBody_large conn h hsize hlarge
  simp only [withHeader] at hprep
  simp only [read, readImpl_clear h, hprep, error_bind]

/-- A body is decoded whether it was received whole or not. -/
theorem read_body (h : headerLength ≤ s.bytes.length)
    (hsize : handleDetermineDataSize (s.bytes.take headerLength) = some size) (hfit : size ≤ vectorMaxSize) :
    ∃ s' : Source, s'.bytes = s.bytes.drop (headerLength + size) ∧ s'.fault = s.fault ∧
      read f c conn t s = (decode f c (withBody conn s size).inboundData >>= fun t =>
        .ok ⟨withBody conn s size, headerLength + (bodyOf s size).length, bodyError s size, t, s'⟩) := by
  have hprep := prepareBody_some conn h hsize hfit
  refine ⟨(readImpl size (readImpl headerLength s).2.2).2.2, ?_, rfl, ?_⟩
  · rw [readImpl_rest, readImpl_rest, List.drop_drop]
  · simp only [withHeader] at hprep
    simp only [read, readImpl_clear h, hprep, ok_bind, bodyOf_eq, bodyError_eq h]
    rw [length_readImpl h]
    rfl

/-- The value that a read is given is seen only where none is decoded, and then either an error is reported or
the header is not valid. -/
theorem read_value (t t' : T) (s : Source) : read f c conn t s = read f c conn t' s ∨
    ∃ conn' length ec s', read f c conn t s = .ok ⟨conn', length, ec, t, s'⟩ ∧
      read f c conn t' s = .ok ⟨conn', length, ec, t', s'⟩ ∧
      (ec = none → headerLength ≤ s.bytes.length ∧
        handleDetermineDataSize (s.bytes.take headerLength) = none) := by
  rcases lt_or_ge s.bytes.length headerLength with hshort | hheader
  · simp only [read, readImpl_fault_ec hshort]
    exact .inr ⟨_, _, _, _, rfl, rfl, fun hclear => by cases hclear⟩
  cases hsize : handleDetermineDataSize (s.bytes.take headerLength) with
  | none =>
    have hprep := prepareBody_none conn hheader hsize
    simp only [withHeader] at hprep
    simp only [read, readImpl_clear hheader, hprep, ok_bind]
    exact .inr ⟨_, _, _, _, rfl, rfl, fun _ => ⟨hheader, trivial⟩⟩
  | some size =>
    left
    by_cases hfit : size ≤ vectorMaxSize
    · have hprep := prepareBody_some conn hheader hsize hfit
      simp only [withHeader] at hprep
      simp only [read, readImpl_clear hheader, hprep, ok_bind]
    · rw [read_large conn hheader hsize (by omega), read_large conn hheader hsize (by omega)]

theorem asyncRead_header_fault (h : s.bytes.length < headerLength) :
    ∃ r, asyncRead f c conn t s = .ok r ∧ r.ec = some s.fault ∧ r.value = t ∧ r.length = s.bytes.length ∧
      r.source.bytes = s.bytes.drop headerLength := by
  simp only [asyncRead, handleReadHeader, readImpl_fault_ec h, readImpl_bytes, List.take_of_length_le h.le, ok_bind]
  exact ⟨_, rfl, rfl, rfl, rfl, readImpl_rest _ _⟩

/-- The caller's handler is told of an invalid header. -/
theorem asyncRead_invalid (h : headerLength ≤ s.bytes.length)
    (hsize : handleDetermineDataSize (s.bytes.take headerLength) = none) :
    ∃ r, asyncRead f c conn t s = .ok r ∧ r.ec = some .invalidArgument ∧ r.value = t ∧
      r.length = headerLength ∧ r.source.bytes = s.bytes.drop headerLength := by
  have hprep := prepareBody_none conn h hsize
  simp only [withHeader] at hprep
  simp only [asyncRead, handleReadHeader, readImpl_clear h, hprep, ok_bind, pure_eq_ok]
  exact ⟨_, rfl, rfl, rfl, length_readImpl h, readImpl_rest _ _⟩

theorem asyncRead_large (h : headerLength ≤ s.bytes.length)
    (hsize : handleDetermineDataSize (s.bytes.take headerLength) = some size) (hlarge : vectorMaxSize < size) :
    asyncRead f c conn t s = .error .lengthError := by
  have hprep := prepareBody_large conn h hsize hlarge
  simp only [withHeader] at hprep
  simp only [asyncRead, handleReadHeader, readImpl_clear h, hprep, error_bind]

/-- A body that was received whole is decoded; one that was not is reported. -/
theorem asyncRead_body (h : headerLength ≤ s.bytes.length)
    (hsize : handleDetermineDataSize (s.bytes.take headerLength) = some size) (hfit : size ≤ vectorMaxSize) :
    ∃ s' : Source, s'.bytes = s.bytes.drop (headerLength + size) ∧ s'.fault = s.fault ∧
      asyncRead f c conn t s = (handleReadData f c (withBody conn s size) (bodyError s size)
        (headerLength + (bodyOf s size).length) t >>= fun call =>
          .ok ⟨withBody conn s size, call.2.1, call.1, call.2.2, s'⟩) := by
  have hprep := prepareBody_some conn h hsize hfit
  refine ⟨(readImpl size (readImpl headerLength s).2.2).2.2, ?_, rfl, ?_⟩
  · rw [readImpl_rest, readImpl_rest, List.drop_drop]
  · simp only [withHeader] at hprep
    simp only [asyncRead, handleReadHeader, readImpl_clear h, hprep, ok_bind, pure_eq_ok, bodyOf_eq,
      bodyError_eq h]
    rw [length_readImpl h]
    rfl

end Connection

end Operations

/-! ## Headers -/

theorem length_formatHeader_ne_iff (size : Nat) :
    (formatHeader size).length ≠ headerLength ↔ 16 ^ headerLength ≤ size := by
  have h := length_numeral_le_iff (n := size) (by decide : 1 < 16) (by decide : 0 < headerLength)
  rw [formatHeader, List.length_leftpad]
  have hmax : max headerLength (numeral 16 size).length ≠ headerLength ↔
      ¬ (numeral 16 size).length ≤ headerLength := by omega
  rw [hmax, h]
  omega

theorem length_formatHeader {size : Nat} (h : size < 16 ^ headerLength) :
    (formatHeader size).length = headerLength := by
  by_contra hne
  exact absurd ((length_formatHeader_ne_iff size).mp hne) (by omega)

/-- **The header round trip**: the size in a header of full length is read back, for every size that has
such a header. -/
theorem handleDetermineDataSize_formatHeader {size : Nat} (h : size < 16 ^ headerLength) :
    handleDetermineDataSize (formatHeader size) = some size := by
  have hspaces : ∀ b ∈ List.replicate (headerLength - (numeral 16 size).length) (ch ' '), isSpace b = true := by
    intro b hb
    rw [List.eq_of_mem_replicate hb]
    decide
  have hfront : ∀ b ∈ (numeral 16 size).head?, isSpace b = false := by
    intro b hb
    obtain ⟨d, hd, rfl⟩ := mem_numeral (by decide : 1 < 16) (List.mem_of_mem_head? hb)
    exact isSpace_digitChar hd
  have hscan : scanHexUInt64 (numeral 16 size ++ []) = (some size, []) := by
    rw [List.append_nil]
    exact scanHexUInt64_numeral (h.trans_le (by decide))
  have := IStream.extract_word hspaces hfront (numeral_ne_nil 16 size) hscan
  rw [List.append_nil] at this
  rw [handleDetermineDataSize, formatHeader, List.leftpad]
  rw [this]

end TCPClientServer.Io
