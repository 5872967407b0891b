import TCPClientServer.Basis.Stream

/-!
# Hexadecimal numerals as they are extracted

What `is >> std::hex >> n` takes off the front of a text: white space, a sign, a prefix and digits, up to
the first byte that cannot continue the numeral.

* `HexNumeral` : a text in these parts; `HexNumeral.WellFormed` : they are the ones an extraction sees;
* `WellFormed.extract` : the texts of well-formed numerals are extracted, with their value; `exists_hexNumeral` : and
  nothing else is.
-/

namespace TCPClientServer.Basis

def hexValue (digits : Bytes) : Nat := value 16 (digits.filterMap (digitIn 16))

theorem not_x_of_digit {b : Byte} (h : (digitIn 16 b).isSome = true) : b ≠ ch 'x' ∧ b ≠ ch 'X' := by
  constructor <;> rintro rfl <;> revert h <;> decide

theorem scanHexPrefix_eq_self {t : Bytes} (h : ∀ c u, t = ch '0' :: c :: u → c ≠ ch 'x' ∧ c ≠ ch 'X') :
    scanHexPrefix t = t := by
  unfold scanHexPrefix
  split
  · rename_i b c u
    rw [if_neg]
    rintro ⟨rfl, hx⟩
    exact hx.elim (h c u rfl).1 (h c u rfl).2
  · rfl

theorem digitIn_lt {base d : Nat} {b : Byte} (h : digitIn base b = some d) : d < base := by
  simpa using (Option.filter_eq_some_iff.mp h).2

theorem hexValue_lt (digits : Bytes) : hexValue digits < 16 ^ digits.length := by
  have hlt := Nat.ofDigits_lt_base_pow_length (b := 16) (l := (digits.filterMap (digitIn 16)).reverse) (by decide)
    (fun d hd => by
      obtain ⟨b, -, hb⟩ := List.mem_filterMap.mp (List.mem_reverse.mp hd)
      exact digitIn_lt hb)
  refine hlt.trans_le (Nat.pow_le_pow_right (by decide) ?_)
  rw [List.length_reverse]
  exact List.length_filterMap_le _ _

structure HexNumeral where
  space : Bytes
  sign : Bytes
  zeroX : Bytes
  digits : Bytes
  rest : Bytes

namespace HexNumeral

def text (n : HexNumeral) : Bytes := n.space ++ (n.sign ++ (n.zeroX ++ (n.digits ++ n.rest)))

/-- The number it is read as; a negative numeral wraps. -/
def toNat (n : HexNumeral) : Nat :=
  if n.sign = [ch '-'] then (2 ^ 64 - hexValue n.digits) % 2 ^ 64 else hexValue n.digits

/-- The parts are as an extraction takes them: there is a digit, no digit follows the digits, and a zero
followed by an `x` is a prefix. -/
structure WellFormed (n : HexNumeral) : Prop where
  space : ∀ b ∈ n.space, isSpace b = true
  sign : n.sign = [] ∨ n.sign = [ch '-'] ∨ n.sign = [ch '+']
  zeroX : n.zeroX = [] ∨ n.zeroX = [ch '0', ch 'x'] ∨ n.zeroX = [ch '0', ch 'X']
  digits_ne : n.digits ≠ []
  digits : ∀ b ∈ n.digits, (digitIn 16 b).isSome = true
  rest : Halts 16 n.rest
  no_zeroX : n.zeroX = [] → n.digits = [ch '0'] → ∀ b ∈ n.rest.head?, b ≠ ch 'x' ∧ b ≠ ch 'X'

variable {n : HexNumeral}

theorem WellFormed.head (hn : n.WellFormed) :
    ∃ b t, n.zeroX ++ (n.digits ++ n.rest) = b :: t ∧ (digitIn 16 b).isSome = true := by
  obtain ⟨b, ds, hds⟩ := List.exists_cons_of_ne_nil hn.digits_ne
  rcases hn.zeroX with h | h | h
  · exact ⟨b, ds ++ n.rest, by rw [h, hds]; rfl, hn.digits b (hds ▸ List.mem_cons_self)⟩
  · exact ⟨ch '0', ch 'x' :: (n.digits ++ n.rest), by rw [h]; rfl, by decide⟩
  · exact ⟨ch '0', ch 'X' :: (n.digits ++ n.rest), by rw [h]; rfl, by decide⟩

theorem WellFormed.scanSign (hn : n.WellFormed) : Basis.scanSign (n.sign ++ (n.zeroX ++ (n.digits ++ n.rest))) =
    (decide (n.sign = [ch '-']), n.zeroX ++ (n.digits ++ n.rest)) := by
  obtain ⟨b, t, hbt, hb⟩ := hn.head
  rw [hbt]
  rcases hn.sign with h | h | h
  · rw [h, List.nil_append]
    have hminus : b ≠ ch '-' := by
      rintro rfl
      revert hb
      decide
    have hplus : b ≠ ch '+' := by
      rintro rfl
      revert hb
      decide
    simp [Basis.scanSign, hminus, hplus]
  · simp [Basis.scanSign, h]
  · rw [h]
    rfl

theorem WellFormed.scanHexPrefix (hn : n.WellFormed) :
    Basis.scanHexPrefix (n.zeroX ++ (n.digits ++ n.rest)) = n.digits ++ n.rest := by
  rcases hn.zeroX with h | h | h
  · rw [h, List.nil_append]
    refine scanHexPrefix_eq_self fun c u hcu => ?_
    rcases hds : n.digits with _ | ⟨b, _ | ⟨b', ds⟩⟩
    · exact absurd hds hn.digits_ne
    · rw [hds, List.singleton_append, List.cons.injEq] at hcu
      exact hn.no_zeroX h (by rw [hds, hcu.1]) c (by simp [hcu.2])
    · -- the byte behind the zero is a digit
      rw [hds, List.cons_append, List.cons_append, List.cons.injEq, List.cons.injEq] at hcu
      have hdigit := hn.digits b' (by simp [hds])
      rw [hcu.2.1] at hdigit
      exact not_x_of_digit hdigit
  · rw [h]
    rfl
  · rw [h]
    rfl

theorem WellFormed.readDigits (hn : n.WellFormed) :
    Basis.readDigits 16 (n.digits ++ n.rest) = (n.digits.filterMap (digitIn 16), n.rest) :=
  readDigits_append hn.digits hn.rest

theorem WellFormed.filterMap_ne_nil (hn : n.WellFormed) : n.digits.filterMap (digitIn 16) ≠ [] := by
  obtain ⟨b, ds, hds⟩ := List.exists_cons_of_ne_nil hn.digits_ne
  obtain ⟨d, hd⟩ := Option.isSome_iff_exists.mp (hn.digits b (hds ▸ List.mem_cons_self))
  rw [hds, List.filterMap_cons_some hd]
  exact List.cons_ne_nil _ _

/-- **The numeral is scanned** when its digits are those of a 64-bit number. -/
theorem WellFormed.scan (hn : n.WellFormed) (hsize : hexValue n.digits < 2 ^ 64) :
    scanHexUInt64 (n.sign ++ (n.zeroX ++ (n.digits ++ n.rest))) = (some n.toNat, n.rest) := by
  have hfound : ¬ (n.digits.filterMap (digitIn 16) = [] ∨ 2 ^ 64 ≤ value 16 (n.digits.filterMap (digitIn 16))) :=
    not_or.mpr ⟨hn.filterMap_ne_nil, not_le.mpr hsize⟩
  simp only [scanHexUInt64, hn.scanSign, hn.scanHexPrefix, hn.readDigits, if_neg hfound, decide_eq_true_eq]
  rfl

theorem WellFormed.extract (hn : n.WellFormed) (hsize : hexValue n.digits < 2 ^ 64) :
    (IStream.extract scanHexUInt64 (.ofText n.text)).1 = some n.toNat := by
  obtain ⟨b, t, hbt, hb⟩ := hn.head
  have hfront : ∃ b t, n.sign ++ (n.zeroX ++ (n.digits ++ n.rest)) = b :: t ∧ isSpace b = false := by
    rcases hn.sign with h | h | h
    · obtain ⟨d, hd⟩ := Option.isSome_iff_exists.mp hb
      exact ⟨b, t, by rw [h, hbt]; rfl, isSpace_of_digitIn hd⟩
    · exact ⟨ch '-', b :: t, by rw [h, hbt]; rfl, by decide⟩
    · exact ⟨ch '+', b :: t, by rw [h, hbt]; rfl, by decide⟩
  obtain ⟨b', t', hbt', hb'⟩ := hfront
  have hscan := hn.scan hsize
  rw [hbt'] at hscan
  rw [text, hbt']
  simp only [IStream.extract, IStream.sentry_spaces hn.space hb', if_true, IStream.unread_ofText, hscan]

end HexNumeral

/-! ## From the text to the numeral -/

theorem exists_sign (t : Bytes) : ∃ sign u, t = sign ++ u ∧ (sign = [] ∨ sign = [ch '-'] ∨ sign = [ch '+']) ∧
    (scanSign t).2 = u := by
  cases t with
  | nil => exact ⟨[], [], rfl, .inl rfl, rfl⟩
  | cons b t =>
    by_cases hminus : b = ch '-'
    · exact ⟨[b], t, rfl, .inr (.inl (by rw [hminus])), by simp [scanSign, hminus]⟩
    by_cases hplus : b = ch '+'
    · exact ⟨[b], t, rfl, .inr (.inr (by rw [hplus])), by rw [scanSign, if_neg hminus, if_pos hplus]⟩
    · exact ⟨[], b :: t, rfl, .inl rfl, by rw [scanSign, if_neg hminus, if_neg hplus]⟩

theorem exists_zeroX (t : Bytes) : ∃ zeroX u, t = zeroX ++ u ∧
    (zeroX = [] ∨ zeroX = [ch '0', ch 'x'] ∨ zeroX = [ch '0', ch 'X']) ∧ scanHexPrefix t = u ∧
    (zeroX = [] → ∀ c v, u = ch '0' :: c :: v → c ≠ ch 'x' ∧ c ≠ ch 'X') := by
  by_cases h : ∀ c v, t = ch '0' :: c :: v → c ≠ ch 'x' ∧ c ≠ ch 'X'
  · exact ⟨[], t, rfl, .inl rfl, scanHexPrefix_eq_self h, fun _ => h⟩
  · push Not at h
    obtain ⟨c, v, rfl, hc⟩ := h
    by_cases hx : c = ch 'x'
    · subst hx
      exact ⟨[ch '0', ch 'x'], v, rfl, .inr (.inl rfl), rfl, by simp⟩
    · obtain rfl := hc hx
      exact ⟨[ch '0', ch 'X'], v, rfl, .inr (.inr rfl), rfl, by simp⟩

theorem scanHexUInt64_nil : scanHexUInt64 [] = (none, []) := rfl

/-- **What is extracted is a well-formed numeral.** -/
theorem exists_hexNumeral {t : Bytes} {size : Nat}
    (h : (IStream.extract scanHexUInt64 (.ofText t)).1 = some size) :
    ∃ n : HexNumeral, n.WellFormed ∧ n.text = t ∧ hexValue n.digits < 2 ^ 64 ∧ n.toNat = size := by
  obtain ⟨sign, u, hu, hsign, hscanSign⟩ := exists_sign (t.dropWhile isSpace)
  obtain ⟨zeroX, v, hv, hzeroX, hscanPrefix, hplain⟩ := exists_zeroX u
  obtain ⟨digits, rest, hw, hdigits, hrest⟩ := exists_digits 16 v
  have hread := readDigits_append hdigits hrest
  rw [IStream.extract_ofText scanHexUInt64_nil] at h
  have hfound : ¬ (digits.filterMap (digitIn 16) = [] ∨ 2 ^ 64 ≤ value 16 (digits.filterMap (digitIn 16))) := by
    intro hnone
    simp only [scanHexUInt64, hscanSign, hscanPrefix, hw, hread, if_pos hnone] at h
    cases h
  obtain ⟨hne, hsize⟩ := not_or.mp hfound
  have hwell : HexNumeral.WellFormed ⟨t.takeWhile isSpace, sign, zeroX, digits, rest⟩ := by
    refine ⟨fun b => List.mem_takeWhile_imp, hsign, hzeroX, ?_, hdigits, hrest, ?_⟩
    · rintro rfl
      exact hne rfl
    · rintro rfl rfl b hb
      obtain ⟨rest', rfl⟩ := List.head?_eq_some_iff.mp hb
      exact hplain rfl b rest' hw
  have htext : HexNumeral.text ⟨t.takeWhile isSpace, sign, zeroX, digits, rest⟩ = t := by
    rw [HexNumeral.text, ← hw, ← hv, ← hu, List.takeWhile_append_dropWhile]
  refine ⟨_, hwell, htext, not_le.mp hsize, ?_⟩
  have hextract := hwell.extract (not_le.mp hsize)
  rw [htext, IStream.extract_ofText scanHexUInt64_nil, h] at hextract
  exact (Option.some.inj hextract).symm

end TCPClientServer.Basis
