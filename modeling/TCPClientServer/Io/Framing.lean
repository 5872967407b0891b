import TCPClientServer.Io.Archive
import TCPClientServer.Io.Connection

/-!
# Framing

A value whose filtered serialization has a size of at most eight hexadecimal digits goes out as one
frame, `formatHeader size ++ data`, and any other value is refused before a byte is sent. The reads
decode the frames one by one, whatever is left in the buffers and however the transport splits the bytes.

* `stage_accepted`, `stage_refused` : the two ways a write begins;
* `read_frame`, `asyncRead_frame` : a read with a frame in front; `frame_of_read` : with a part of one;
* `sendAll`, `receiveAll` : a stream of writes and of reads, of either kind each;
* `framing_round_trip` : what is received is what was accepted.
-/

namespace TCPClientServer.Io
open TCPClientServer.Basis

variable {T : Type}

section Frames
variable (f : Filter) (c : Codec T)

/-- The bytes of an accepted value on the socket. -/
def frame (t : T) : Bytes := formatHeader (encode f c t).length ++ encode f c t

/-- The size of the data has at most `headerLength` hexadecimal digits. -/
def Accepted (t : T) : Prop := (encode f c t).length < 16 ^ headerLength

instance (t : T) : Decidable (Accepted f c t) := inferInstanceAs (Decidable (_ < _))

/-- The filter and the archive give the value back. -/
def Decodes (t : T) : Prop := decode f c (encode f c t) = .ok t

instance [DecidableEq T] (t : T) : Decidable (Decodes f c t) := inferInstanceAs (Decidable (_ = _))

/-- The filter and the archive give nothing but the value back; they may throw. -/
def Sound (t : T) : Prop := ∀ t', decode f c (encode f c t) = .ok t' → t' = t

end Frames

variable {f : Filter} {c : Codec T}

theorem decodes_of_inverts {t : T} (hf : f.Inverts (c.save t)) (hc : c.load (c.save t) = .ok t) :
    Decodes f c t := by
  rw [Filter.Inverts] at hf
  simp [Decodes, decode, encode, hf, hc]

theorem Decodes.sound {t : T} (h : Decodes f c t) : Sound f c t := fun _ h' => Except.ok.inj (h'.symm.trans h)

theorem decode_throws {t : T} {e : Exn} (hf : f.Inverts (c.save t)) (hc : c.load (c.save t) = .error e) :
    decode f c (encode f c t) = .error e := by
  rw [Filter.Inverts] at hf
  simp [decode, encode, hf, hc]

theorem sound_of_reads_or_throws {ar : TextArchive} (har : ar.Lawful) {p : Serial T} {t : T}
    (hf : f.Inverts ((ar.codec p).save t)) (h : p.Reads t ∨ p.Throws t) : Sound f (ar.codec p) t := by
  rcases h with hreads | hthrows
  · exact (decodes_of_inverts hf (TextArchive.codec_load har hreads)).sound
  · intro t' h'
    obtain ⟨e, he⟩ := TextArchive.codec_load_throws har hthrows
    rw [decode_throws hf he] at h'
    cases h'

namespace Connection

theorem stage_accepted {t : T} (h : Accepted f c t) (conn : Connection) :
    stage f c conn t =
      ({ conn with outboundData := encode f c t, outboundHeader := formatHeader (encode f c t).length },
        some (frame f c t)) := by
  simp only [stage, length_formatHeader h, ne_eq, not_true_eq_false, if_false, frame]

theorem stage_refused {t : T} (h : ¬ Accepted f c t) (conn : Connection) :
    stage f c conn t = ({ conn with outboundData := encode f c t }, none) := by
  have hlen := (length_formatHeader_ne_iff (encode f c t).length).mpr (not_lt.mp h)
  simp only [stage, if_pos hlen]

/-! ## A frame in front of the source -/

section OneFrame
variable (conn : Connection) {t : T} (t₀ : T) {s : Source} {rest : Bytes}

theorem headerLength_le_of_frame (ht : Accepted f c t) (hs : s.bytes = frame f c t ++ rest) :
    headerLength ≤ s.bytes.length := by
  rw [hs, frame, List.length_append, List.length_append, length_formatHeader ht]
  omega

theorem handleDetermineDataSize_of_frame (ht : Accepted f c t) (hs : s.bytes = frame f c t ++ rest) :
    handleDetermineDataSize (s.bytes.take headerLength) = some (encode f c t).length := by
  rw [hs, frame, List.append_assoc, ← length_formatHeader ht, List.take_left]
  exact handleDetermineDataSize_formatHeader ht

theorem accepted_le_vectorMaxSize (ht : Accepted f c t) : (encode f c t).length ≤ vectorMaxSize := by
  have hlt : (encode f c t).length < 16 ^ headerLength := ht
  have hle : 16 ^ headerLength ≤ vectorMaxSize := by decide
  omega

theorem bodyOf_of_frame (ht : Accepted f c t) (hs : s.bytes = frame f c t ++ rest) :
    bodyOf s (encode f c t).length = encode f c t := by
  rw [bodyOf, hs, frame, List.append_assoc, ← length_formatHeader ht, List.drop_left, List.take_left]

theorem bodyError_of_frame (ht : Accepted f c t) (hs : s.bytes = frame f c t ++ rest) :
    bodyError s (encode f c t).length = none := by
  rw [bodyError, if_pos]
  rw [hs, frame, List.length_append, List.length_append, length_formatHeader ht]
  omega

theorem drop_frame (ht : Accepted f c t) (hs : s.bytes = frame f c t ++ rest) :
    s.bytes.drop (headerLength + (encode f c t).length) = rest := by
  have hlen : headerLength + (encode f c t).length = (frame f c t).length := by
    rw [frame, List.length_append, length_formatHeader ht]
  rw [hlen, hs, List.drop_left]

theorem inboundData_withBody (ht : Accepted f c t) (hs : s.bytes = frame f c t ++ rest) :
    (withBody conn s (encode f c t).length).inboundData = encode f c t := by
  rw [withBody, bodyOf_of_frame ht hs]
  exact fill_full (length_resized _ _).symm

/-- **A frame is read back** by the blocking read, and no byte behind it is taken. -/
theorem read_frame (ht : Accepted f c t) (hd : Decodes f c t) (hs : s.bytes = frame f c t ++ rest) :
    ∃ r, read f c conn t₀ s = .ok r ∧ r.ec = none ∧ r.value = t ∧ r.source.bytes = rest := by
  obtain ⟨s', hs', -, hread⟩ := read_body conn (t := t₀) (headerLength_le_of_frame ht hs)
    (handleDetermineDataSize_of_frame ht hs) (accepted_le_vectorMaxSize ht)
  rw [inboundData_withBody conn ht hs, hd, ok_bind, bodyError_of_frame ht hs] at hread
  exact ⟨_, hread, rfl, rfl, hs'.trans (drop_frame ht hs)⟩

/-- A frame whose data do not decode leaves the blocking read with an exception. -/
theorem read_frame_throws {e : Exn} (ht : Accepted f c t) (hd : decode f c (encode f c t) = .error e)
    (hs : s.bytes = frame f c t ++ rest) : read f c conn t₀ s = .error e := by
  obtain ⟨s', -, -, hread⟩ := read_body conn (t := t₀) (headerLength_le_of_frame ht hs)
    (handleDetermineDataSize_of_frame ht hs) (accepted_le_vectorMaxSize ht)
  rw [hread, inboundData_withBody conn ht hs, hd, error_bind]

/-- A blocking read that ends well in front of a part of a frame has read the whole frame. -/
theorem frame_of_read {r : Read T} (ht : Accepted f c t) (hs : s.bytes <+: frame f c t)
    (hread : read f c conn t₀ s = .ok r) (hec : r.ec = none) :
    s.bytes = frame f c t ∧ decode f c (encode f c t) = .ok r.value ∧ r.source.bytes = [] := by
  obtain ⟨missing, hmissing⟩ := hs
  rcases lt_or_ge s.bytes.length headerLength with hshort | hheader
  · obtain ⟨r', hread', hec', -⟩ := read_header_fault (f := f) (c := c) conn (t := t₀) hshort
    rw [hread] at hread'
    cases hread'
    simp [hec'] at hec
  have hsize : handleDetermineDataSize (s.bytes.take headerLength) = some (encode f c t).length := by
    have htake : (s.bytes ++ missing).take headerLength = s.bytes.take headerLength :=
      List.take_append_of_le_length hheader
    rw [← htake, hmissing, frame, ← length_formatHeader ht, List.take_left]
    exact handleDetermineDataSize_formatHeader ht
  obtain ⟨s', hs', -, hbody⟩ := read_body conn (t := t₀) hheader hsize (accepted_le_vectorMaxSize ht)
  rw [hread] at hbody
  obtain ⟨value, hdecode, hr⟩ := bind_eq_ok.mp hbody.symm
  cases hr
  rw [bodyError, ite_eq_left_iff] at hec
  have hwhole : headerLength + (encode f c t).length ≤ s.bytes.length := by
    by_contra hcut
    cases hec hcut
  have hframe : s.bytes = frame f c t := by
    refine List.IsPrefix.eq_of_length_le ⟨missing, hmissing⟩ ?_
    rwa [frame, List.length_append, length_formatHeader ht]
  have hnothing : s.bytes = frame f c t ++ [] := by rw [hframe, List.append_nil]
  rw [inboundData_withBody conn ht hnothing] at hdecode
  exact ⟨hframe, hdecode, hs'.trans (drop_frame ht hnothing)⟩

/-- **A frame is read back** through the completion handlers. -/
theorem asyncRead_frame (ht : Accepted f c t) (hd : Decodes f c t) (hs : s.bytes = frame f c t ++ rest) :
    ∃ r, asyncRead f c conn t₀ s = .ok r ∧ r.ec = none ∧ r.value = t ∧ r.source.bytes = rest := by
  obtain ⟨s', hs', -, hread⟩ := asyncRead_body conn (t := t₀) (headerLength_le_of_frame ht hs)
    (handleDetermineDataSize_of_frame ht hs) (accepted_le_vectorMaxSize ht)
  rw [bodyError_of_frame ht hs, handleReadData, inboundData_withBody conn ht hs, hd, ok_bind, pure_eq_ok,
    ok_bind] at hread
  exact ⟨_, hread, rfl, rfl, hs'.trans (drop_frame ht hs)⟩

end OneFrame

end Connection

/-! ## Streams of values -/

/-- Which of the two writes, or of the two reads, is called. -/
inductive Mode where
  | blocking
  | callback
deriving DecidableEq

section Streams
variable (f : Filter) (c : Codec T)

/-- One write on a transport without faults: the error code its caller gets and the bytes it put on the
socket. -/
def send (m : Mode) (conn : Connection) (t : T) : Connection × ErrorCode × Bytes :=
  match m with
  | .blocking =>
    let w := conn.write f c t ⟨none, .eof⟩
    (w.connection, w.ec, w.put)
  | .callback =>
    match conn.asyncWrite f c t with
    | (conn, .handler ec _) => (conn, ec, [])
    | (conn, .pending frame) => (conn, none, frame)

def sendAll (conn : Connection) : List (Mode × T) → List ErrorCode × Bytes
  | [] => ([], [])
  | (m, t) :: ops =>
    let (conn, ec, put) := send f c m conn t
    let (ecs, puts) := sendAll conn ops
    (ec :: ecs, put ++ puts)

def receive (m : Mode) (conn : Connection) (t : T) (s : Source) : Except Exn (Connection.Read T) :=
  match m with
  | .blocking => conn.read f c t s
  | .callback => conn.asyncRead f c t s

/-- Reads one after another into the same variable, up to the first that reports an error: the values
read and what is left of the source. -/
def receiveAll (conn : Connection) (t : T) (s : Source) : List Mode → Except Exn (List T × Source)
  | [] => .ok ([], s)
  | m :: ms => do
    let r ← receive f c m conn t s
    match r.ec with
    | some _ => return ([], r.source)
    | none =>
      let (ts, s) ← receiveAll r.connection r.value r.source ms
      return (r.value :: ts, s)

variable {f c}

theorem send_accepted {t : T} (h : Accepted f c t) (m : Mode) (conn : Connection) :
    ∃ conn', send f c m conn t = (conn', none, frame f c t) := by
  cases m <;>
    simp [send, Connection.write, Connection.asyncWrite, Connection.stage_accepted h, writeImpl]

theorem send_refused {t : T} (h : ¬ Accepted f c t) (m : Mode) (conn : Connection) :
    ∃ conn', send f c m conn t = (conn', some .invalidArgument, []) := by
  cases m <;> simp [send, Connection.write, Connection.asyncWrite, Connection.stage_refused h]

/-- The error codes and the bytes of a stream of writes are determined value by value: neither the
members nor the values refused before have a part in them. -/
theorem sendAll_eq (ops : List (Mode × T)) (conn : Connection) : sendAll f c conn ops =
    (ops.map fun op => if Accepted f c op.2 then none else some .invalidArgument,
      ((ops.map Prod.snd).filter (Accepted f c ·)).flatMap (frame f c)) := by
  induction ops generalizing conn with
  | nil => rfl
  | cons op ops ih =>
    obtain ⟨m, t⟩ := op
    by_cases h : Accepted f c t
    · obtain ⟨conn', hsend⟩ := send_accepted h m conn
      simp [sendAll, hsend, ih conn', h]
    · obtain ⟨conn', hsend⟩ := send_refused h m conn
      simp [sendAll, hsend, ih conn', h]

theorem receive_frame (conn : Connection) {t : T} (t₀ : T) {s : Source} {rest : Bytes} (ht : Accepted f c t)
    (hd : Decodes f c t) (hs : s.bytes = frame f c t ++ rest) (m : Mode) :
    ∃ r, receive f c m conn t₀ s = .ok r ∧ r.ec = none ∧ r.value = t ∧ r.source.bytes = rest := by
  cases m with
  | blocking => exact Connection.read_frame conn t₀ ht hd hs
  | callback => exact Connection.asyncRead_frame conn t₀ ht hd hs

theorem receiveAll_frames {ts : List T} {ms : List Mode} (hlen : ms.length = ts.length)
    (h : ∀ t ∈ ts, Accepted f c t ∧ Decodes f c t) (conn : Connection) (t₀ : T) {s : Source} {rest : Bytes}
    (hs : s.bytes = ts.flatMap (frame f c) ++ rest) :
    ∃ s', receiveAll f c conn t₀ s ms = .ok (ts, s') ∧ s'.bytes = rest := by
  induction ts generalizing ms conn t₀ s with
  | nil =>
    obtain rfl := List.length_eq_zero_iff.mp hlen
    exact ⟨s, rfl, hs⟩
  | cons t ts ih =>
    obtain ⟨m, ms, rfl⟩ := List.exists_cons_of_length_eq_add_one hlen
    have ht := h t List.mem_cons_self
    rw [List.flatMap_cons, List.append_assoc] at hs
    obtain ⟨r, hr, hec, hval, hleft⟩ := receive_frame conn t₀ ht.1 ht.2 hs m
    obtain ⟨s', hs', hrest⟩ := ih (by simpa using hlen) (fun x hx => h x (List.mem_cons_of_mem t hx))
      r.connection r.value hleft
    rw [hval] at hs'
    exact ⟨s', by simp [receiveAll, hr, hec, hs', hval], hrest⟩

end Streams

/-- **Framing round trip.** Through either filter, a value is refused exactly when its size needs more
than eight hexadecimal digits, and reads of either kind, as many as values were accepted, give those
values in order and use up the bytes the writes put on the socket, however they are delivered. -/
theorem framing_round_trip (z : Zlib) (compressed : Bool) (hf : f = createFilter z compressed)
    (hz : compressed = true → ∀ b, z.decompress (z.compress b) = .ok b)
    (hzne : compressed = true → ∀ b, z.compress b ≠ []) (ops : List (Mode × T))
    (hload : ∀ op ∈ ops, c.load (c.save op.2) = .ok op.2) (hsave : ∀ op ∈ ops, c.save op.2 ≠ [])
    (sender receiver : Connection) (t₀ : T) (s : Source) (ms : List Mode) (hs : s.bytes = (sendAll f c sender ops).2)
    (hms : ms.length = ((ops.map Prod.snd).filter (Accepted f c ·)).length) :
    (sendAll f c sender ops).1 = (ops.map fun op =>
      if 16 ^ 8 ≤ (encode f c op.2).length then some .invalidArgument else none) ∧
    (∀ m conn t, 16 ^ 8 ≤ (encode f c t).length → (send f c m conn t).2.2 = []) ∧
    (∀ conn, (sendAll f c conn (ops.filter (Accepted f c ·.2))).2 = (sendAll f c sender ops).2) ∧
    ∃ s', receiveAll f c receiver t₀ s ms = .ok ((ops.map Prod.snd).filter (Accepted f c ·), s') ∧
      s'.bytes = [] := by
  have hdec : ∀ op ∈ ops, Decodes f c op.2 := fun op hop => by
    subst hf
    refine decodes_of_inverts ?_ (hload op hop)
    cases compressed with
    | true => exact compressionFilter_inverts (hzne rfl _) (hz rfl _)
    | false => exact defaultFilter_inverts (hsave op hop)
  have hrefused : ∀ t, 16 ^ 8 ≤ (encode f c t).length ↔ ¬ Accepted f c t := fun t => by
    rw [Accepted, not_lt, headerLength]
  refine ⟨?_, ?_, ?_, ?_⟩
  · rw [sendAll_eq]
    refine List.map_congr_left fun op _ => ?_
    simp only [hrefused, ite_not]
  · intro m conn t h
    obtain ⟨conn', hsend⟩ := send_refused ((hrefused t).mp h) m conn
    rw [hsend]
  · intro conn
    rw [sendAll_eq, sendAll_eq]
    simp [List.filter_map, Function.comp_def]
  · rw [sendAll_eq] at hs
    refine receiveAll_frames hms (fun t ht => ?_) receiver t₀ (by simpa using hs)
    obtain ⟨hmem, haccepted⟩ := List.mem_filter.mp ht
    obtain ⟨op, hop, rfl⟩ := List.mem_map.mp hmem
    exact ⟨by simpa using haccepted, hdec op hop⟩

/-- Two integers, one written in each way and delivered in two pieces. -/
theorem framing_round_trip_of_integers :
    let c := plainArchive.codec int32Primitive.serial
    let put := (sendAll defaultFilter c .fresh [(.blocking, ⟨5, by decide⟩), (.callback, ⟨-3, by decide⟩)]).2
    ∃ s', receiveAll defaultFilter c .fresh ⟨0, by decide⟩ ⟨[put.take 3, put.drop 3], .eof⟩
      [.callback, .blocking] = .ok ([⟨5, by decide⟩, ⟨-3, by decide⟩], s') ∧ s'.bytes = [] := by
  intro c put
  obtain ⟨-, -, -, s', hs', hleft⟩ := framing_round_trip (f := defaultFilter) (c := c) ⟨id, .ok⟩ false rfl (by simp)
    (by simp) [(.blocking, ⟨5, by decide⟩), (.callback, ⟨-3, by decide⟩)]
    (fun op _ => TextArchive.codec_load plainArchive_lawful (int32Primitive_reads op.2))
    (fun _ _ => TextArchive.codec_save_ne_nil plainArchive_lawful) .fresh .fresh ⟨0, by decide⟩
    ⟨[put.take 3, put.drop 3], .eof⟩ [.callback, .blocking] (by simp [Source.bytes, put]) (by decide)
  refine ⟨s', hs'.trans ?_, hleft⟩
  congr 2

end TCPClientServer.Io
