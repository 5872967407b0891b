import TCPClientServer.Io.Framing

/-!
# What the calls of a connection report

The reads and writes, in both of their kinds, on every stream of incoming bytes and every fault: whether
the two reads agree, whether the lengths reported are those of the bytes transferred, and what the input
filter is handed. The blocking read looks neither at an invalid header nor at the error of the body, and a
refused write reports the length of a header that it does not send.

* `Arrival` : the four ways in which a read can go;
* `handed` : the vector a read hands to the input filter; `receive_of_handed`, `receive_of_not_handed` say
  what becomes of the call with it and without it;
* `reads_agree_iff`, `lengths_transferred_iff`, `input_filter_in_range_iff` : when the calls do what they
  should.
-/

namespace TCPClientServer.Io
open TCPClientServer.Basis

inductive Arrival (s : Source) : Prop where
  | short (h : s.bytes.length < headerLength)
  | invalid (h : headerLength ≤ s.bytes.length)
      (hsize : handleDetermineDataSize (s.bytes.take headerLength) = none)
  | large (size : Nat) (h : headerLength ≤ s.bytes.length)
      (hsize : handleDetermineDataSize (s.bytes.take headerLength) = some size) (hlarge : vectorMaxSize < size)
  | body (size : Nat) (h : headerLength ≤ s.bytes.length)
      (hsize : handleDetermineDataSize (s.bytes.take headerLength) = some size) (hfit : size ≤ vectorMaxSize)

theorem arrival (s : Source) : Arrival s := by
  rcases lt_or_ge s.bytes.length headerLength with hshort | hheader
  · exact .short hshort
  cases hsize : handleDetermineDataSize (s.bytes.take headerLength) with
  | none => exact .invalid hheader hsize
  | some size =>
    rcases lt_or_ge vectorMaxSize size with hlarge | hfit
    · exact .large size hheader hsize hlarge
    · exact .body size hheader hsize hfit

/-! ## What the input filter is handed -/

/-- A filter and an archive that take down what they are given. -/
def notingFilter : Filter := ⟨fun outbound => outbound, .ok⟩

def notingCodec : Codec (Option Bytes) := ⟨fun _ => [], fun inbound => .ok (some inbound)⟩

/-- The vector that a read hands to the input filter, when it comes to that. -/
def handed (m : Mode) (conn : Connection) (s : Source) : Option Bytes :=
  match receive notingFilter notingCodec m conn none s with
  | .ok r => r.value
  | .error _ => none

theorem decode_noting (inbound : Bytes) : decode notingFilter notingCodec inbound = .ok (some inbound) := rfl

section Handed
variable {T : Type} {f : Filter} {c : Codec T} (m : Mode) (conn : Connection) {t : T} {s : Source} {size : Nat}

theorem receive_short (h : s.bytes.length < headerLength) :
    ∃ r, receive f c m conn t s = .ok r ∧ r.ec = some s.fault ∧ r.value = t ∧ r.length = s.bytes.length ∧
      r.source.bytes = s.bytes.drop headerLength := by
  cases m with
  | blocking => exact Connection.read_header_fault conn h
  | callback => exact Connection.asyncRead_header_fault conn h

theorem receive_invalid (h : headerLength ≤ s.bytes.length)
    (hsize : handleDetermineDataSize (s.bytes.take headerLength) = none) :
    ∃ r, receive f c m conn t s = .ok r ∧ r.value = t := by
  cases m with
  | blocking =>
    obtain ⟨r, hr, -, hvalue, -⟩ := Connection.read_invalid (f := f) (c := c) conn (t := t) h hsize
    exact ⟨r, hr, hvalue⟩
  | callback =>
    obtain ⟨r, hr, -, hvalue, -⟩ := Connection.asyncRead_invalid (f := f) (c := c) conn (t := t) h hsize
    exact ⟨r, hr, hvalue⟩

theorem receive_large (h : headerLength ≤ s.bytes.length)
    (hsize : handleDetermineDataSize (s.bytes.take headerLength) = some size) (hlarge : vectorMaxSize < size) :
    receive f c m conn t s = .error .lengthError := by
  cases m with
  | blocking => exact Connection.read_large conn h hsize hlarge
  | callback => exact Connection.asyncRead_large conn h hsize hlarge

theorem receive_decoded (h : headerLength ≤ s.bytes.length)
    (hsize : handleDetermineDataSize (s.bytes.take headerLength) = some size) (hfit : size ≤ vectorMaxSize)
    (hm : m = .callback → Connection.bodyError s size = none) :
    ∃ s' : Source, s'.bytes = s.bytes.drop (headerLength + size) ∧
      receive f c m conn t s = (decode f c (conn.withBody s size).inboundData >>= fun t =>
        .ok ⟨conn.withBody s size, headerLength + (Connection.bodyOf s size).length, Connection.bodyError s size, t,
          s'⟩) := by
  cases m with
  | blocking =>
    obtain ⟨s', hs', -, hread⟩ := Connection.read_body (f := f) (c := c) conn (t := t) h hsize hfit
    exact ⟨s', hs', hread⟩
  | callback =>
    obtain ⟨s', hs', -, hread⟩ := Connection.asyncRead_body (f := f) (c := c) conn (t := t) h hsize hfit
    refine ⟨s', hs', hread.trans ?_⟩
    simp only [hm rfl, Connection.handleReadData]
    cases decode f c (conn.withBody s size).inboundData with
    | error e => rfl
    | ok t => rfl

theorem receive_cut {e : Fault} (h : headerLength ≤ s.bytes.length)
    (hsize : handleDetermineDataSize (s.bytes.take headerLength) = some size) (hfit : size ≤ vectorMaxSize)
    (he : Connection.bodyError s size = some e) :
    ∃ s' : Source, s'.bytes = s.bytes.drop (headerLength + size) ∧ receive f c .callback conn t s =
      .ok ⟨conn.withBody s size, headerLength + (Connection.bodyOf s size).length, some e, t, s'⟩ := by
  obtain ⟨s', hs', -, hread⟩ := Connection.asyncRead_body (f := f) (c := c) conn (t := t) h hsize hfit
  refine ⟨s', hs', hread.trans ?_⟩
  rw [he]
  rfl

theorem handed_short (h : s.bytes.length < headerLength) : handed m conn s = none := by
  obtain ⟨r, hr, -, hvalue, -⟩ :=
    receive_short (f := notingFilter) (c := notingCodec) m conn (t := none) h
  simp only [handed, hr, hvalue]

theorem handed_invalid (h : headerLength ≤ s.bytes.length)
    (hsize : handleDetermineDataSize (s.bytes.take headerLength) = none) : handed m conn s = none := by
  obtain ⟨r, hr, hvalue⟩ := receive_invalid (f := notingFilter) (c := notingCodec) m conn (t := none) h hsize
  simp only [handed, hr, hvalue]

theorem handed_large (h : headerLength ≤ s.bytes.length)
    (hsize : handleDetermineDataSize (s.bytes.take headerLength) = some size) (hlarge : vectorMaxSize < size) :
    handed m conn s = none := by
  rw [handed, receive_large m conn h hsize hlarge]

theorem handed_body (h : headerLength ≤ s.bytes.length)
    (hsize : handleDetermineDataSize (s.bytes.take headerLength) = some size) (hfit : size ≤ vectorMaxSize)
    (hm : m = .callback → Connection.bodyError s size = none) :
    handed m conn s = some (conn.withBody s size).inboundData := by
  obtain ⟨s', -, hr⟩ :=
    receive_decoded (f := notingFilter) (c := notingCodec) m conn (t := none) h hsize hfit hm
  rw [handed, hr, decode_noting, ok_bind]

theorem handed_cut {e : Fault} (h : headerLength ≤ s.bytes.length)
    (hsize : handleDetermineDataSize (s.bytes.take headerLength) = some size) (hfit : size ≤ vectorMaxSize)
    (he : Connection.bodyError s size = some e) : handed .callback conn s = none := by
  obtain ⟨s', -, hr⟩ := receive_cut (f := notingFilter) (c := notingCodec) conn (t := none) h hsize hfit he
  rw [handed, hr]

/-- A call that hands a vector to the filter goes on with what the filter and the archive make of it. -/
theorem receive_of_handed {inbound : Bytes} (h : handed m conn s = some inbound) :
    ∃ conn' length ec s', receive f c m conn t s =
      (decode f c inbound >>= fun t => .ok ⟨conn', length, ec, t, s'⟩) := by
  cases arrival s with
  | short hshort => simp [handed_short m conn hshort] at h
  | invalid hheader hsize => simp [handed_invalid m conn hheader hsize] at h
  | large size hheader hsize hlarge => simp [handed_large m conn hheader hsize hlarge] at h
  | body size hheader hsize hfit =>
    have hm : m = .callback → Connection.bodyError s size = none := by
      rintro rfl
      cases he : Connection.bodyError s size with
      | none => rfl
      | some e => simp [handed_cut conn hheader hsize hfit he] at h
    rw [handed_body m conn hheader hsize hfit hm] at h
    cases h
    obtain ⟨s', -, hr⟩ := receive_decoded (f := f) (c := c) m conn (t := t) hheader hsize hfit hm
    exact ⟨_, _, _, s', hr⟩

/-- A call that hands nothing to the filter leaves the value alone, or throws what the vector throws. -/
theorem receive_of_not_handed (h : handed m conn s = none) :
    (∃ r, receive f c m conn t s = .ok r ∧ r.value = t) ∨ receive f c m conn t s = .error .lengthError := by
  cases arrival s with
  | short hshort =>
    obtain ⟨r, hr, -, hvalue, -⟩ := receive_short (f := f) (c := c) m conn (t := t) hshort
    exact .inl ⟨r, hr, hvalue⟩
  | invalid hheader hsize => exact .inl (receive_invalid m conn hheader hsize)
  | large size hheader hsize hlarge => exact .inr (receive_large m conn hheader hsize hlarge)
  | body size hheader hsize hfit =>
    cases he : Connection.bodyError s size with
    | none => simp [handed_body m conn hheader hsize hfit fun _ => he] at h
    | some e =>
      cases m with
      | blocking => simp [handed_body .blocking conn hheader hsize hfit (by simp)] at h
      | callback =>
        obtain ⟨s', -, hr⟩ := receive_cut (f := f) (c := c) conn (t := t) hheader hsize hfit he
        exact .inl ⟨_, hr, rfl⟩

end Handed

/-! ## The two reads -/

section Agreement
variable {T : Type}

/-- Both throw, or both report the same error code and, when it is clear, the same value and length. -/
def SameOutcome : Except Exn (Connection.Read T) → Except Exn (Connection.Read T) → Prop
  | .error _, .error _ => True
  | .ok r, .ok r' => r.ec = r'.ec ∧ (r.ec = none → r.value = r'.value ∧ r.length = r'.length)
  | _, _ => False

/-- The two reads have the same outcome, and neither hands the filter bytes it has not received behind the
header. -/
structure ReadsAgree (f : Filter) (c : Codec T) (conn : Connection) (t : T) (s : Source) : Prop where
  outcome : SameOutcome (conn.read f c t s) (conn.asyncRead f c t s)
  received : ∀ m, ∀ inbound ∈ handed m conn s, s.bytes.take headerLength ++ inbound <+: s.bytes

theorem bodyError_eq_none_iff {s : Source} {size : Nat} :
    Connection.bodyError s size = none ↔ headerLength + size ≤ s.bytes.length := by
  rw [Connection.bodyError, ite_eq_left_iff]
  simp

theorem length_inboundData_withBody (conn : Connection) (s : Source) (size : Nat) :
    (conn.withBody s size).inboundData.length = size :=
  (length_fill _ _).trans (length_resized _ _)

theorem inboundData_withBody_whole {s : Source} {size : Nat} (conn : Connection)
    (h : headerLength + size ≤ s.bytes.length) : (conn.withBody s size).inboundData = Connection.bodyOf s size := by
  refine fill_full ?_
  rw [length_resized, Connection.bodyOf, List.length_take, List.length_drop]
  omega

theorem header_body_prefix (s : Source) (size : Nat) :
    s.bytes.take headerLength ++ Connection.bodyOf s size <+: s.bytes := by
  have h := List.take_prefix (headerLength + size) s.bytes
  rwa [List.take_add] at h

variable {f : Filter} {c : Codec T} {conn : Connection} {t : T} {s : Source}

theorem readsAgree_short (h : s.bytes.length < headerLength) : ReadsAgree f c conn t s := by
  obtain ⟨r, hr, hec, -⟩ := Connection.read_header_fault (f := f) (c := c) conn (t := t) h
  obtain ⟨r', hr', hec', -⟩ := Connection.asyncRead_header_fault (f := f) (c := c) conn (t := t) h
  constructor
  · rw [hr, hr', SameOutcome, hec, hec']
    exact ⟨rfl, fun hclear => by cases hclear⟩
  · intro m inbound hm
    rw [handed_short m conn h] at hm
    cases hm

theorem readsAgree_large {size : Nat} (h : headerLength ≤ s.bytes.length)
    (hsize : handleDetermineDataSize (s.bytes.take headerLength) = some size) (hlarge : vectorMaxSize < size) :
    ReadsAgree f c conn t s := by
  constructor
  · rw [Connection.read_large conn h hsize hlarge, Connection.asyncRead_large conn h hsize hlarge]
    trivial
  · intro m inbound hm
    rw [handed_large m conn h hsize hlarge] at hm
    cases hm

theorem readsAgree_whole {size : Nat} (h : headerLength + size ≤ s.bytes.length)
    (hsize : handleDetermineDataSize (s.bytes.take headerLength) = some size) (hfit : size ≤ vectorMaxSize) :
    ReadsAgree f c conn t s := by
  have hheader : headerLength ≤ s.bytes.length := by omega
  have he := bodyError_eq_none_iff.mpr h
  constructor
  · obtain ⟨s₁, -, hread⟩ := receive_decoded (f := f) (c := c) .blocking conn (t := t) hheader hsize hfit fun _ => he
    obtain ⟨s₂, -, hasync⟩ := receive_decoded (f := f) (c := c) .callback conn (t := t) hheader hsize hfit fun _ => he
    change conn.read f c t s = _ at hread
    change conn.asyncRead f c t s = _ at hasync
    rw [hread, hasync]
    cases decode f c (conn.withBody s size).inboundData with
    | error e => trivial
    | ok value => exact ⟨rfl, fun _ => ⟨rfl, rfl⟩⟩
  · intro m inbound hm
    rw [handed_body m conn hheader hsize hfit fun _ => he, inboundData_withBody_whole conn h] at hm
    cases hm
    exact header_body_prefix s size

theorem not_readsAgree_invalid (h : headerLength ≤ s.bytes.length)
    (hsize : handleDetermineDataSize (s.bytes.take headerLength) = none) : ¬ ReadsAgree f c conn t s := by
  intro hagree
  obtain ⟨r, hr, hec, -⟩ := Connection.read_invalid (f := f) (c := c) conn (t := t) h hsize
  obtain ⟨r', hr', hec', -⟩ := Connection.asyncRead_invalid (f := f) (c := c) conn (t := t) h hsize
  have hsame := hagree.outcome
  rw [hr, hr', SameOutcome, hec, hec'] at hsame
  cases hsame.1

/-- **The two reads agree** exactly when the header does not arrive, or it is valid and either its size is
too large for a vector or the body arrives. -/
theorem reads_agree_iff (f : Filter) (c : Codec T) (conn : Connection) (t : T) (s : Source) :
    ReadsAgree f c conn t s ↔ s.bytes.length < headerLength ∨
      ∃ size, handleDetermineDataSize (s.bytes.take headerLength) = some size ∧
        (vectorMaxSize < size ∨ headerLength + size ≤ s.bytes.length) := by
  cases arrival s with
  | short hshort => exact iff_of_true (readsAgree_short hshort) (.inl hshort)
  | invalid hheader hsize =>
    refine iff_of_false (not_readsAgree_invalid hheader hsize) ?_
    rintro (hshort | ⟨size, hsize', -⟩)
    · omega
    · rw [hsize] at hsize'
      cases hsize'
  | large size hheader hsize hlarge =>
    exact iff_of_true (readsAgree_large hheader hsize hlarge) (.inr ⟨size, hsize, .inl hlarge⟩)
  | body size hheader hsize hfit =>
    constructor
    · intro hagree
      -- the blocking read decodes a vector of the size in the header, which must then have arrived
      have hhanded := handed_body .blocking conn hheader hsize hfit (by simp)
      have hlen := (hagree.received .blocking _ hhanded).length_le
      rw [List.length_append, length_inboundData_withBody, List.length_take, Nat.min_eq_left hheader] at hlen
      exact .inr ⟨size, hsize, .inr hlen⟩
    · rintro (hshort | ⟨size', hsize', hsizes⟩)
      · omega
      · rw [hsize] at hsize'
        cases hsize'
        exact readsAgree_whole (hsizes.resolve_left (by omega)) hsize hfit

def garbage : Source := ⟨[List.replicate 8 (ch 'z')], .eof⟩

theorem reads_disagree : ¬ ∀ (T : Type) (f : Filter) (c : Codec T) (conn : Connection) (t : T) (s : Source),
    ReadsAgree f c conn t s := fun h =>
  not_readsAgree_invalid (by decide) (by decide)
    (h Int32t defaultFilter (plainArchive.codec int32Primitive.serial) .fresh (.literal 0) garbage)

end Agreement

/-! ## The lengths reported -/

section Lengths
variable {T : Type} (f : Filter) (c : Codec T)

/-- `async_write` with the operation it starts completed by the transport: what the handler is called with,
and the bytes put on the socket. -/
def completeWrite (conn : Connection) (t : T) (k : Sink) : Connection.Written :=
  match conn.asyncWrite f c t with
  | (conn, .handler ec length) => ⟨conn, length, ec, []⟩
  | (conn, .pending frame) =>
    let (put, ec) := writeImpl frame k
    ⟨conn, put.length, ec, put⟩

def written (m : Mode) (conn : Connection) (t : T) (k : Sink) : Connection.Written :=
  match m with
  | .blocking => conn.write f c t k
  | .callback => completeWrite f c conn t k

/-- A write reports the number of bytes it put on the socket. -/
def WriteLength (m : Mode) (conn : Connection) (t : T) (k : Sink) : Prop :=
  (written f c m conn t k).length = (written f c m conn t k).put.length

/-- A read that reports a length reports the number of bytes it took from the socket. -/
def ReadLength (m : Mode) (conn : Connection) (t : T) (s : Source) : Prop :=
  ∀ r, receive f c m conn t s = .ok r → ∃ taken, s.bytes = taken ++ r.source.bytes ∧ r.length = taken.length

variable {f c} {conn : Connection} {t : T}

theorem writeLength_iff (m : Mode) (k : Sink) : WriteLength f c m conn t k ↔ Accepted f c t := by
  by_cases h : Accepted f c t
  · refine iff_of_true ?_ h
    cases m <;>
      simp [WriteLength, written, completeWrite, Connection.write, Connection.asyncWrite, Connection.stage_accepted h]
  · refine iff_of_false ?_ h
    have hlen : 0 < (formatHeader (encode f c t).length).length := by
      rw [formatHeader, List.length_leftpad]
      exact lt_max_of_lt_left (by decide)
    cases m with
    | blocking => simp [WriteLength, written, Connection.write, Connection.stage_refused h, hlen.ne']
    | callback =>
      simp [WriteLength, written, completeWrite, Connection.asyncWrite, Connection.stage_refused h, headerLength]

variable {s : Source}

/-- A read that stopped behind `n` bytes and reports as many. -/
theorem taken_of_rest {r : Connection.Read T} {n : Nat} (hrest : r.source.bytes = s.bytes.drop n)
    (hlen : r.length = (s.bytes.take n).length) :
    ∃ taken, s.bytes = taken ++ r.source.bytes ∧ r.length = taken.length :=
  ⟨s.bytes.take n, by rw [hrest, List.take_append_drop], hlen⟩

theorem length_header_body {size : Nat} (h : headerLength ≤ s.bytes.length) :
    headerLength + (Connection.bodyOf s size).length = (s.bytes.take (headerLength + size)).length := by
  rw [List.take_add, List.length_append, List.length_take, Nat.min_eq_left h, Connection.bodyOf]

theorem readLength_short (m : Mode) (h : s.bytes.length < headerLength) : ReadLength f c m conn t s := by
  intro r hr
  obtain ⟨r', hr', -, -, hlen, hrest⟩ := receive_short (f := f) (c := c) m conn (t := t) h
  rw [hr] at hr'
  cases hr'
  refine taken_of_rest hrest (hlen.trans ?_)
  rw [List.length_take, Nat.min_eq_right h.le]

/-- Of an invalid header the asynchronous read reports its eight bytes, and the blocking one none. -/
theorem readLength_invalid_iff (m : Mode) (h : headerLength ≤ s.bytes.length)
    (hsize : handleDetermineDataSize (s.bytes.take headerLength) = none) :
    ReadLength f c m conn t s ↔ m ≠ .blocking := by
  have htake : (s.bytes.take headerLength).length = headerLength := by rw [List.length_take, Nat.min_eq_left h]
  cases m with
  | blocking =>
    refine iff_of_false (fun hlength => ?_) (fun hne => hne rfl)
    obtain ⟨r, hr, -, -, hlen, hrest⟩ := Connection.read_invalid (f := f) (c := c) conn (t := t) h hsize
    obtain ⟨taken, htaken, hlen'⟩ := hlength r hr
    have hall := congrArg List.length htaken
    rw [List.length_append, hrest, List.length_drop, ← hlen', hlen] at hall
    rw [headerLength] at h hall
    omega
  | callback =>
    refine iff_of_true (fun r hr => ?_) (by decide)
    obtain ⟨r', hr', -, -, hlen, hrest⟩ := Connection.asyncRead_invalid (f := f) (c := c) conn (t := t) h hsize
    change conn.asyncRead f c t s = _ at hr
    rw [hr] at hr'
    cases hr'
    exact taken_of_rest hrest (hlen.trans htake.symm)

theorem readLength_body {size : Nat} (m : Mode) (h : headerLength ≤ s.bytes.length)
    (hsize : handleDetermineDataSize (s.bytes.take headerLength) = some size) (hfit : size ≤ vectorMaxSize) :
    ReadLength f c m conn t s := by
  intro r hr
  by_cases hm : m = .callback → Connection.bodyError s size = none
  · obtain ⟨s', hs', hr'⟩ := receive_decoded (f := f) (c := c) m conn (t := t) h hsize hfit hm
    obtain ⟨value, -, hread⟩ := bind_eq_ok.mp (hr'.symm.trans hr)
    cases hread
    exact taken_of_rest hs' (length_header_body h)
  · obtain ⟨rfl, hcut⟩ := Classical.not_imp.mp hm
    obtain ⟨e, he⟩ := Option.ne_none_iff_exists'.mp hcut
    obtain ⟨s', hs', hr'⟩ := receive_cut (f := f) (c := c) conn (t := t) h hsize hfit he
    rw [hr'] at hr
    cases hr
    exact taken_of_rest hs' (length_header_body h)

theorem readLength_iff (m : Mode) : ReadLength f c m conn t s ↔
    ¬ (m = .blocking ∧ headerLength ≤ s.bytes.length ∧
      handleDetermineDataSize (s.bytes.take headerLength) = none) := by
  cases arrival s with
  | short hshort => exact iff_of_true (readLength_short m hshort) fun hbad => by omega
  | invalid hheader hsize =>
    rw [readLength_invalid_iff m hheader hsize]
    exact ⟨fun hm hbad => hm hbad.1, fun h hm => h ⟨hm, hheader, hsize⟩⟩
  | large size hheader hsize hlarge =>
    refine iff_of_true (fun r hr => ?_) (by simp [hsize])
    rw [receive_large m conn hheader hsize hlarge] at hr
    cases hr
  | body size hheader hsize hfit => exact iff_of_true (readLength_body m hheader hsize hfit) (by simp [hsize])

/-- **The lengths reported are those of the bytes transferred** exactly when a write is not refused, and
when a blocking read does not meet an invalid header. -/
theorem lengths_transferred_iff (f : Filter) (c : Codec T) (m : Mode) (conn : Connection) (t : T) :
    (∀ k, WriteLength f c m conn t k ↔ Accepted f c t) ∧
    (∀ s, ReadLength f c m conn t s ↔ ¬ (m = .blocking ∧ headerLength ≤ s.bytes.length ∧
      handleDetermineDataSize (s.bytes.take headerLength) = none)) :=
  ⟨fun k => writeLength_iff m k, fun _ => readLength_iff m⟩

theorem length_not_transferred : ¬ ∀ (T : Type) (f : Filter) (c : Codec T) (m : Mode) (conn : Connection) (t : T),
    (∀ k, WriteLength f c m conn t k) ∧ ∀ s, ReadLength f c m conn t s := fun h =>
  absurd ((h Int32t defaultFilter (plainArchive.codec int32Primitive.serial) .blocking .fresh (.literal 0)).2 garbage)
    fun hlength => (readLength_invalid_iff .blocking (by decide) (by decide)).mp hlength rfl

end Lengths

/-! ## What the input filter reads -/

section InRange
variable {m : Mode} {conn : Connection} {s : Source}

/-- The positions of its vector that an input filter reads: `inbound[0]`, and from there the `size()`
characters that it copies or hands to zlib. -/
def positionsRead (inbound : Bytes) : List Nat := 0 :: List.range inbound.length

/-- The vector is not empty, and every position read lies in it. -/
def InRange (inbound : Bytes) : Prop := inbound ≠ [] ∧ ∀ i ∈ positionsRead inbound, i < inbound.length

theorem inRange_iff (inbound : Bytes) : InRange inbound ↔ inbound ≠ [] := by
  refine ⟨And.left, fun hne => ⟨hne, fun i hi => ?_⟩⟩
  rcases List.mem_cons.mp hi with rfl | hi
  · exact List.length_pos_of_ne_nil hne
  · exact List.mem_range.mp hi

/-- Both filters read out of range on an empty vector only. -/
theorem inputFilter_outOfRange (z : Zlib) (compressed : Bool) {inbound : Bytes} (h : ¬ InRange inbound) :
    (createFilter z compressed).inputFilter inbound = .error .outOfRange := by
  have hnil : inbound = [] := by simpa [inRange_iff] using h
  subst hnil
  cases compressed <;> rfl

theorem length_handed {inbound : Bytes} {size : Nat} (h : handed m conn s = some inbound)
    (hheader : headerLength ≤ s.bytes.length)
    (hsize : handleDetermineDataSize (s.bytes.take headerLength) = some size) : inbound.length = size := by
  by_cases hfit : size ≤ vectorMaxSize
  · by_cases hm : m = .callback → Connection.bodyError s size = none
    · rw [handed_body m conn hheader hsize hfit hm] at h
      cases h
      exact length_inboundData_withBody conn s size
    · obtain ⟨rfl, hcut⟩ := Classical.not_imp.mp hm
      obtain ⟨e, he⟩ := Option.ne_none_iff_exists'.mp hcut
      rw [handed_cut conn hheader hsize hfit he] at h
      cases h
  · rw [handed_large m conn hheader hsize (by omega)] at h
    cases h

/-- An empty body is handed to the filter on both paths. -/
theorem handed_empty (m : Mode) (conn : Connection) (h : headerLength ≤ s.bytes.length)
    (hsize : handleDetermineDataSize (s.bytes.take headerLength) = some 0) : handed m conn s = some [] := by
  rw [handed_body m conn h hsize (by decide) fun _ => bodyError_eq_none_iff.mpr h]
  exact congrArg some (List.length_eq_zero_iff.mp (length_inboundData_withBody conn s 0))

theorem receive_empty {T : Type} (z : Zlib) (compressed : Bool) (c : Codec T) (m : Mode) (conn : Connection) (t : T)
    (h : headerLength ≤ s.bytes.length)
    (hsize : handleDetermineDataSize (s.bytes.take headerLength) = some 0) :
    receive (createFilter z compressed) c m conn t s = .error .outOfRange := by
  obtain ⟨conn', length, ec, s', hr⟩ := receive_of_handed (f := createFilter z compressed) (c := c) m conn (t := t)
    (handed_empty m conn h hsize)
  rw [hr, decode, inputFilter_outOfRange z compressed (by simp [inRange_iff])]
  rfl

/-- **The input filters read within their vector** exactly when no header says that its body is empty. -/
theorem input_filter_in_range_iff (m : Mode) (conn : Connection) (s : Source) :
    (∀ inbound ∈ handed m conn s, InRange inbound) ↔
      ¬ (headerLength ≤ s.bytes.length ∧ handleDetermineDataSize (s.bytes.take headerLength) = some 0) := by
  constructor
  · rintro h ⟨hheader, hsize⟩
    exact (h [] (handed_empty m conn hheader hsize)).1 rfl
  · intro hnot inbound hinbound
    rw [inRange_iff]
    rintro rfl
    cases arrival s with
    | short hshort => simp [handed_short m conn hshort] at hinbound
    | invalid hheader hsize => simp [handed_invalid m conn hheader hsize] at hinbound
    | large size hheader hsize hlarge => simp [handed_large m conn hheader hsize hlarge] at hinbound
    | body size hheader hsize hfit =>
      have hzero : size = 0 := (length_handed hinbound hheader hsize).symm
      exact hnot ⟨hheader, hzero ▸ hsize⟩

/-- A header that says that its body is empty, and then nothing. -/
def emptyFrame : Source := ⟨[formatHeader 0], .eof⟩

theorem input_filter_not_in_range :
    ¬ ∀ (m : Mode) (conn : Connection) (s : Source), ∀ inbound ∈ handed m conn s, InRange inbound := fun h =>
  (h .callback .fresh emptyFrame [] (handed_empty .callback .fresh (by decide) (by decide))).1 rfl

end InRange

end TCPClientServer.Io
