import TCPClientServer.Calculator.Data
import TCPClientServer.Io.Framing
import TCPClientServer.Server.Response

/-!
# The data of the calculator in an archive

The `serialize` members, over any text archive.

* `clientData_reads`, `clientData_throws` : a `client_data` is read back when its operands are, and reading one
  throws when an operand is not finite;
* `response_reads`, `response_throws` : the same of a response and its result;
* `request_decodes`, `response_decodes` : behind a filter, what is finite is decoded; `request_sound`,
  `response_sound` : nothing else ever is.
-/

namespace TCPClientServer.Calculator
open TCPClientServer.Basis TCPClientServer.Io TCPClientServer.Server

section Serialize
variable (ar : TextArchive)

/-- `operation_type::serialize`. -/
def operationSerial : Serial Operation where
  save op := ar.int32.serial.save op.code
  load t := do
    let (c, t) ← ar.int32.serial.load t
    return (.ofCode c, t)

def paddingSerial : Serial Padding := ar.charArray paddingSize

def clientDataSerial : Serial ClientData where
  save d := ar.string.serial.save d.clientId ++ (ar.int32.serial.save d.id ++ (ar.double.serial.save d.operand1 ++
    ((operationSerial ar).save d.operation ++ (ar.double.serial.save d.operand2 ++
      (paddingSerial ar).save d.padding))))
  load t := do
    let (clientId, t) ← ar.string.serial.load t
    let (id, t) ← ar.int32.serial.load t
    let (operand1, t) ← ar.double.serial.load t
    let (operation, t) ← (operationSerial ar).load t
    let (operand2, t) ← ar.double.serial.load t
    let (padding, t) ← (paddingSerial ar).load t
    return ({ clientId, id, operand1, operation, operand2, padding }, t)

def serverDataSerial : Serial ServerData where
  save r := ar.ptime.serial.save r.timestamp ++ (ar.int32.serial.save r.id ++ (ar.double.serial.save r.result ++
    (paddingSerial ar).save r.padding))
  load t := do
    let (timestamp, t) ← ar.ptime.serial.load t
    let (id, t) ← ar.int32.serial.load t
    let (result, t) ← ar.double.serial.load t
    let (padding, t) ← (paddingSerial ar).load t
    return ({ timestamp, id, result, padding }, t)

def responseSerial : Serial (Response ServerData) where
  save r := ar.int32.serial.save r.transmissionStatus.code ++ (serverDataSerial ar).save r.data
  load t := do
    let (status, t) ← ar.int32.serial.load t
    let (data, t) ← (serverDataSerial ar).load t
    return ({ transmissionStatus := .ofCode status, data }, t)

def requestCodec : Codec ClientData := ar.codec (clientDataSerial ar)

def responseCodec : Codec (Response ServerData) := ar.codec (responseSerial ar)

end Serialize

section Lawful
variable {ar : TextArchive}

theorem operation_save (op : Operation) : (operationSerial ar).save op = ar.int32.serial.save op.code := rfl

theorem delimited_padding (har : ar.Lawful) (p : Padding) {rest : Bytes} (h : Delimited rest) :
    Delimited ((paddingSerial ar).save p ++ rest) := har.delimited paddingSize p rest h

theorem operation_reads (har : ar.Lawful) (op : Operation) : (operationSerial ar).Reads op := by
  intro rest hrest
  simp only [operationSerial, har.int32 op.code rest hrest, ok_bind, pure_eq_ok, Operation.ofCode_code]

theorem padding_reads (har : ar.Lawful) (p : Padding) : (paddingSerial ar).Reads p := har.charArray paddingSize p

/-- **A request is read back** when its operands are. -/
theorem clientData_reads (har : ar.Lawful) {d : ClientData} (h1 : ar.double.serial.Reads d.operand1)
    (h2 : ar.double.serial.Reads d.operand2) : (clientDataSerial ar).Reads d := by
  intro rest hrest
  have hoperation := (operation_reads har d.operation).before ar.double
  rw [operation_save] at hoperation
  have hoperand2 := h2 _ (delimited_padding har d.padding hrest)
  have hpadding := padding_reads har d.padding rest hrest
  simp only [clientDataSerial, List.append_assoc, operation_save, (har.string _).before, (har.int32 d.id).before,
    h1.before, hoperation, hoperand2, hpadding, ok_bind, pure_eq_ok]

/-- A request with an operand that is no finite value cannot be read. -/
theorem clientData_throws (har : ar.Lawful) {d : ClientData} (h1 : d.operand1.Proper)
    (h : d.operand1.isFinite = false ∨ d.operand2.isFinite = false) : (clientDataSerial ar).Throws d := by
  intro rest hrest
  rcases har.reads_of_proper h1 with hreads | hthrows
  · rcases h with h | h
    · obtain ⟨e, he⟩ := har.nonfinite _ h _ Delimited.nil
      rw [hreads _ Delimited.nil] at he
      cases he
    · have hoperation := (operation_reads har d.operation).before ar.double
      rw [operation_save] at hoperation
      obtain ⟨e, he⟩ := har.nonfinite _ h _ (delimited_padding har d.padding hrest)
      refine ⟨e, ?_⟩
      simp only [clientDataSerial, List.append_assoc, operation_save, (har.string _).before, (har.int32 d.id).before,
        hreads.before, hoperation, he, ok_bind, error_bind]
  · obtain ⟨e, he⟩ := har.nonfinite _ hthrows (ar.int32.serial.save d.operation.code ++
      (ar.double.serial.save d.operand2 ++ ((paddingSerial ar).save d.padding ++ rest))) (Delimited.blank _)
    refine ⟨e, ?_⟩
    simp only [clientDataSerial, List.append_assoc, operation_save, (har.string _).before, (har.int32 d.id).before,
      he, ok_bind, error_bind]

/-- **A response is read back** when its result is. -/
theorem response_reads (har : ar.Lawful) {r : Response ServerData} (h : ar.double.serial.Reads r.data.result) :
    (responseSerial ar).Reads r := by
  intro rest hrest
  have hresult := h _ (delimited_padding har r.data.padding hrest)
  have hpadding := padding_reads har r.data.padding rest hrest
  simp only [responseSerial, serverDataSerial, List.append_assoc, (har.int32 r.transmissionStatus.code).before,
    (har.ptime _).before, (har.int32 r.data.id).before, hresult, hpadding, ok_bind, pure_eq_ok,
    TransmitionStatus.ofCode_code]

/-- A response whose result is no finite value cannot be read. -/
theorem response_throws (har : ar.Lawful) {r : Response ServerData} (h : r.data.result.isFinite = false) :
    (responseSerial ar).Throws r := by
  intro rest hrest
  obtain ⟨e, he⟩ := har.nonfinite _ h _ (delimited_padding har r.data.padding hrest)
  refine ⟨e, ?_⟩
  simp only [responseSerial, serverDataSerial, List.append_assoc, (har.int32 r.transmissionStatus.code).before,
    (har.ptime _).before, (har.int32 r.data.id).before, he, ok_bind, error_bind]

/-! ## Behind a filter -/

section Filtered
variable {z : Zlib} {compressed : Bool}

theorem request_decodes (hz : compressed = true → z.Lawful) (har : ar.Lawful) {d : ClientData}
    (h1 : d.operand1.Proper) (hfin1 : d.operand1.isFinite = true) (h2 : d.operand2.Proper)
    (hfin2 : d.operand2.isFinite = true) : Decodes (createFilter z compressed) (requestCodec ar) d :=
  decodes_of_inverts (createFilter_inverts hz (TextArchive.codec_save_ne_nil har))
    (TextArchive.codec_load har (clientData_reads har (har.reads_of_finite h1 hfin1) (har.reads_of_finite h2 hfin2)))

theorem response_decodes (hz : compressed = true → z.Lawful) (har : ar.Lawful) {r : Response ServerData}
    (h : r.data.result.Proper) (hfin : r.data.result.isFinite = true) :
    Decodes (createFilter z compressed) (responseCodec ar) r :=
  decodes_of_inverts (createFilter_inverts hz (TextArchive.codec_save_ne_nil har))
    (TextArchive.codec_load har (response_reads har (har.reads_of_finite h hfin)))

theorem request_sound (hz : compressed = true → z.Lawful) (har : ar.Lawful) {d : ClientData}
    (h1 : d.operand1.Proper) (h2 : d.operand2.Proper) :
    Sound (createFilter z compressed) (requestCodec ar) d := by
  refine sound_of_reads_or_throws har (createFilter_inverts hz (TextArchive.codec_save_ne_nil har)) ?_
  rcases har.reads_of_proper h1 with hreads1 | hthrows1
  · rcases har.reads_of_proper h2 with hreads2 | hthrows2
    · exact .inl (clientData_reads har hreads1 hreads2)
    · exact .inr (clientData_throws har h1 (.inr hthrows2))
  · exact .inr (clientData_throws har h1 (.inl hthrows1))

theorem response_sound (hz : compressed = true → z.Lawful) (har : ar.Lawful) {r : Response ServerData}
    (h : r.data.result.Proper) : Sound (createFilter z compressed) (responseCodec ar) r :=
  sound_of_reads_or_throws har (createFilter_inverts hz (TextArchive.codec_save_ne_nil har))
    ((har.reads_of_proper h).imp (response_reads har) (response_throws har))

end Filtered

end Lawful

/-! ## Examples -/

/-- A request and a response that nothing has been decoded into, their memory all zeros. -/
def blankRequest : ClientData := ⟨[], .literal 0, .finite 0, .nop, .finite 0, .replicate 0⟩

def blankResponse : Response ServerData := ⟨.ok, 0, .literal 0, .finite 0, .replicate 0⟩

def sumRequest : ClientData := ⟨[ch 'a'], .literal 1, .finite 2, .add, .finite 3, .replicate 0⟩

end TCPClientServer.Calculator
