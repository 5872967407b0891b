import TCPClientServer.Io.Transport

/-!
# Serialization and filters

A value crosses a connection as the text of an archive, sent through an output filter and read back
through the input filter. The archives and zlib are not part of the sources: they are parameters, and
what is relied on of them is a hypothesis where it is used.

* `Codec` : `archive << t` and `archive >> t` for one type;
* `Filter` : the interface `Filter_base`, with `defaultFilter` and `compressionFilter`;
* `Filter.Inverts` : the input filter undoes the output filter.
-/

namespace TCPClientServer.Io
open TCPClientServer.Basis

/-- Writing a value to a text archive, and reading one. -/
structure Codec (T : Type) where
  save : T → Bytes
  load : Bytes → Except Exn T

structure Filter where
  outputFilter : Bytes → Bytes
  inputFilter : Bytes → Except Exn Bytes

/-- `inbound[0]`. -/
def front (inbound : Bytes) : Except Exn Byte :=
  match inbound with
  | [] => .error .outOfRange
  | b :: _ => .ok b

def defaultFilter : Filter where
  outputFilter outbound := outbound
  inputFilter inbound := do
    let _ ← front inbound
    return inbound

/-- zlib's two directions on whole buffers. -/
structure Zlib where
  compress : Bytes → Bytes
  decompress : Bytes → Except Exn Bytes

def compressionFilter (z : Zlib) : Filter where
  outputFilter outbound := z.compress outbound
  inputFilter inbound := do
    let _ ← front inbound
    z.decompress inbound

/-- `Filter_base_factory::create`. -/
def createFilter (z : Zlib) (compressed : Bool) : Filter :=
  if compressed then compressionFilter z else defaultFilter

/-- What was filtered for output is filtered back. -/
def Filter.Inverts (f : Filter) (outbound : Bytes) : Prop :=
  f.inputFilter (f.outputFilter outbound) = .ok outbound

theorem front_of_ne_nil {inbound : Bytes} (h : inbound ≠ []) : ∃ b, front inbound = .ok b := by
  cases inbound with
  | nil => exact absurd rfl h
  | cons b t => exact ⟨b, rfl⟩

theorem defaultFilter_inverts {outbound : Bytes} (h : outbound ≠ []) : defaultFilter.Inverts outbound := by
  obtain ⟨b, hb⟩ := front_of_ne_nil h
  simp [Filter.Inverts, defaultFilter, hb]

theorem compressionFilter_inverts {z : Zlib} {outbound : Bytes} (h : z.compress outbound ≠ [])
    (hz : z.decompress (z.compress outbound) = .ok outbound) : (compressionFilter z).Inverts outbound := by
  obtain ⟨b, hb⟩ := front_of_ne_nil h
  simp [Filter.Inverts, compressionFilter, hb, hz]

/-- What is relied on of zlib: nothing is compressed to nothing, and what was compressed is given back. -/
structure Zlib.Lawful (z : Zlib) : Prop where
  compress_ne : ∀ b, z.compress b ≠ []
  decompress : ∀ b, z.decompress (z.compress b) = .ok b

theorem createFilter_inverts {z : Zlib} {compressed : Bool} (hz : compressed = true → z.Lawful)
    {outbound : Bytes} (h : outbound ≠ []) : (createFilter z compressed).Inverts outbound := by
  cases compressed with
  | true => exact compressionFilter_inverts ((hz rfl).compress_ne outbound) ((hz rfl).decompress outbound)
  | false => exact defaultFilter_inverts h

end TCPClientServer.Io
