import TCPClientServer.Basis.Hexadecimal
import TCPClientServer.Io.Connection

/-!
# Headers that are accepted

A header is meant to be a size in hexadecimal behind blanks. The extraction that reads it takes more: other
white space, a sign, a prefix, and anything at all behind the digits.

* `IsHeader` : the grammar of headers; `MeetsGrammar` : a header is read as the grammar has it;
* `HexNumeral.Beyond` : what the extraction takes and the grammar does not have;
* `meets_grammar_iff` : a header is read as the grammar has it unless it is a numeral of that kind.
-/

namespace TCPClientServer.Io
open TCPClientServer.Basis

/-- Blanks, and hexadecimal digits up to the end. -/
structure IsHeader (header digits : Bytes) : Prop where
  blanks : ∃ n, header = List.replicate n (ch ' ') ++ digits
  digits_ne : digits ≠ []
  digits : ∀ b ∈ digits, (digitIn 16 b).isSome = true

/-- The headers of the grammar are accepted and no others, and the size is that of the digits. -/
structure MeetsGrammar (header : HeaderBuffer) : Prop where
  accepted : (∃ size, handleDetermineDataSize header.1 = some size) ↔ ∃ digits, IsHeader header.1 digits
  size : ∀ digits, IsHeader header.1 digits → handleDetermineDataSize header.1 = some (hexValue digits)
  bounded : ∀ size, handleDetermineDataSize header.1 = some size → size < 16 ^ headerLength

/-- The numeral has white space other than blanks, a sign or a prefix, or something behind its digits. -/
def Beyond (n : HexNumeral) : Prop :=
  (∃ b ∈ n.space, b ≠ ch ' ') ∨ n.sign ≠ [] ∨ n.zeroX ≠ [] ∨ n.rest ≠ []

theorem IsHeader.pairwise {header digits : Bytes} (h : IsHeader header digits) :
    header.Pairwise fun b b' => (digitIn 16 b).isSome = true → (digitIn 16 b').isSome = true := by
  obtain ⟨n, rfl⟩ := h.blanks
  refine List.pairwise_append.mpr ⟨?_, ?_, ?_⟩
  · refine List.pairwise_replicate.mpr (.inr ?_)
    decide
  · exact List.pairwise_of_forall_mem_list fun _ _ b' hb' _ => h.digits b' hb'
  · exact fun _ _ b' hb' _ => h.digits b' hb'

theorem IsHeader.mem {header digits : Bytes} (h : IsHeader header digits) {b : Byte} (hb : b ∈ header) :
    b = ch ' ' ∨ (digitIn 16 b).isSome = true := by
  obtain ⟨n, rfl⟩ := h.blanks
  rcases List.mem_append.mp hb with hb | hb
  · exact .inl (List.eq_of_mem_replicate hb)
  · exact .inr (h.digits b hb)

theorem IsHeader.numeral {header digits : Bytes} (h : IsHeader header digits) :
    ∃ n : HexNumeral, n.WellFormed ∧ n.text = header ∧ n.sign = [] ∧ n.digits = digits := by
  obtain ⟨k, hk⟩ := h.blanks
  refine ⟨⟨List.replicate k (ch ' '), [], [], digits, []⟩, ?_, ?_, rfl, rfl⟩
  · refine ⟨fun b hb => ?_, .inl rfl, .inl rfl, h.digits_ne, h.digits, Halts.nil 16, by simp⟩
    rw [List.eq_of_mem_replicate hb]
    decide
  · simp [HexNumeral.text, hk]

theorem isHeader_of_not_beyond {n : HexNumeral} (hn : n.WellFormed) (h : ¬ Beyond n) : IsHeader n.text n.digits := by
  simp only [Beyond, not_or, not_exists, not_and, not_not] at h
  obtain ⟨hspace, hsign, hzeroX, hrest⟩ := h
  refine ⟨⟨n.space.length, ?_⟩, hn.digits_ne, hn.digits⟩
  rw [HexNumeral.text, hsign, hzeroX, hrest, List.nil_append, List.nil_append, List.append_nil]
  exact congrArg (· ++ n.digits) (List.eq_replicate_of_mem hspace)

theorem IsHeader.not_mem {header digits : Bytes} (h : IsHeader header digits) {b : Byte} (hblank : b ≠ ch ' ')
    (hdigit : (digitIn 16 b).isSome = false) : b ∉ header := fun hb => by
  rw [(h.mem hb).resolve_left hblank] at hdigit
  cases hdigit

theorem not_isHeader_of_beyond {n : HexNumeral} {digits : Bytes} (hn : n.WellFormed) (hbeyond : Beyond n) :
    ¬ IsHeader n.text digits := by
  intro h
  rcases hbeyond with ⟨b, hb, hne⟩ | hsign | hzeroX | hrest
  · obtain ⟨d, hd⟩ := Option.isSome_iff_exists.mp ((h.mem (List.mem_append_left _ hb)).resolve_left hne)
    have hspace := hn.space b hb
    rw [isSpace_of_digitIn hd] at hspace
    cases hspace
  · rcases hn.sign with hs | hs | hs
    · exact hsign hs
    · exact h.not_mem (b := ch '-') (by decide) (by decide) (by simp [HexNumeral.text, hs])
    · exact h.not_mem (b := ch '+') (by decide) (by decide) (by simp [HexNumeral.text, hs])
  · rcases hn.zeroX with hz | hz | hz
    · exact hzeroX hz
    · exact h.not_mem (b := ch 'x') (by decide) (by decide) (by simp [HexNumeral.text, hz])
    · exact h.not_mem (b := ch 'X') (by decide) (by decide) (by simp [HexNumeral.text, hz])
  · -- what stands behind the digits begins with no digit
    obtain ⟨d, ds, hds⟩ := List.exists_cons_of_ne_nil hn.digits_ne
    obtain ⟨c, rest, hc⟩ := List.exists_cons_of_ne_nil hrest
    have htail : (n.digits ++ n.rest).Pairwise _ :=
      (List.pairwise_append.mp (List.pairwise_append.mp (List.pairwise_append.mp h.pairwise).2.1).2.1).2.1
    have hdigit := (List.pairwise_append.mp htail).2.2 d (by simp [hds]) c (by simp [hc])
      (hn.digits d (by simp [hds]))
    have hhalts := hn.rest c (by simp [hc])
    rw [hhalts] at hdigit
    cases hdigit

theorem length_digits_le (n : HexNumeral) : n.digits.length ≤ n.text.length := by
  simp only [HexNumeral.text, List.length_append]
  omega

theorem hexValue_lt_of_header {header : HeaderBuffer} {n : HexNumeral} (h : n.text = header.1) :
    hexValue n.digits < 16 ^ headerLength := by
  have hlen := length_digits_le n
  rw [h, header.2] at hlen
  exact (hexValue_lt n.digits).trans_le (Nat.pow_le_pow_right (by decide) hlen)

/-- **A numeral that fills a header is read**, whatever stands around its digits. -/
theorem handleDetermineDataSize_numeral {header : HeaderBuffer} {n : HexNumeral} (hn : n.WellFormed)
    (h : n.text = header.1) : handleDetermineDataSize header.1 = some n.toNat := by
  rw [handleDetermineDataSize, ← h]
  exact hn.extract ((hexValue_lt_of_header h).trans (by decide))

theorem handleDetermineDataSize_isHeader {header : HeaderBuffer} {digits : Bytes} (h : IsHeader header.1 digits) :
    handleDetermineDataSize header.1 = some (hexValue digits) := by
  obtain ⟨n, hn, htext, hsign, rfl⟩ := h.numeral
  rw [handleDetermineDataSize_numeral hn htext, HexNumeral.toNat, hsign, if_neg (by decide)]

/-- **The header parser accepts its grammar** exactly on the headers that are no numeral beyond it. -/
theorem meets_grammar_iff (header : HeaderBuffer) :
    MeetsGrammar header ↔ ¬ ∃ n : HexNumeral, n.WellFormed ∧ n.text = header.1 ∧ Beyond n := by
  constructor
  · rintro h ⟨n, hn, htext, hbeyond⟩
    obtain ⟨digits, hdigits⟩ := h.accepted.mp ⟨_, handleDetermineDataSize_numeral hn htext⟩
    rw [← htext] at hdigits
    exact not_isHeader_of_beyond hn hbeyond hdigits
  · intro h
    have hgrammar : ∀ size, handleDetermineDataSize header.1 = some size → ∃ digits, IsHeader header.1 digits := by
      intro size hsize
      obtain ⟨n, hn, htext, -, -⟩ := exists_hexNumeral hsize
      have hnot : ¬ Beyond n := fun hbeyond => h ⟨n, hn, htext, hbeyond⟩
      exact ⟨n.digits, htext ▸ isHeader_of_not_beyond hn hnot⟩
    refine ⟨⟨fun ⟨size, hsize⟩ => hgrammar size hsize, fun ⟨digits, hd⟩ => ⟨_, handleDetermineDataSize_isHeader hd⟩⟩,
      fun digits => handleDetermineDataSize_isHeader, fun size hsize => ?_⟩
    obtain ⟨digits, hd⟩ := hgrammar size hsize
    obtain ⟨n, -, htext, -, rfl⟩ := hd.numeral
    rw [handleDetermineDataSize_isHeader hd] at hsize
    cases hsize
    exact hexValue_lt_of_header htext

def negativeHeader : HexNumeral := ⟨List.replicate 6 (ch ' '), [ch '-'], [], [ch '1'], []⟩

/-- The header "      -1" is accepted, as the size 2^64 - 1. -/
theorem not_meets_grammar : ¬ ∀ header : HeaderBuffer, MeetsGrammar header := fun h =>
  absurd ((h ⟨negativeHeader.text, by decide⟩).bounded (2 ^ 64 - 1) (by decide)) (by decide)

end TCPClientServer.Io
