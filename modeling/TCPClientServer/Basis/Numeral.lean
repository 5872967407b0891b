import Mathlib.Data.Nat.Digits.Lemmas
import Mathlib.Tactic.IntervalCases

/-!
# Numerals over bytes

Positional numerals as text: the digits a formatted output stream writes in a base, and the longest
run of digits a formatted input stream takes off the front of a text.

* `numeral base n` : the digits of `n`, lower case, most significant first;
* `readDigits base t` : the longest prefix of `t` made of digits of the base, and the rest of `t`;
* `readDigits_numeral`, `value_numeralDigits` : the two are inverse on a text whose next byte is no
  digit;
* `length_numeral_le_iff` : a numeral of at most `k` digits is one of a number below `base ^ k`.
-/

namespace TCPClientServer.Basis

/-- A C++ `char`. -/
abbrev Byte := UInt8

abbrev Bytes := List Byte

/-- The byte of an ASCII character. -/
abbrev ch (c : Char) : Byte := c.toUInt8

/-- `std::isspace` in the classic locale. -/
def isSpace (b : Byte) : Bool := b == ch ' ' || (9 ≤ b && b ≤ 13)

/-! ## Digits -/

def digitVal (b : Byte) : Option Nat :=
  if ch '0' ≤ b ∧ b ≤ ch '9' then some (b.toNat - 48)
  else if ch 'a' ≤ b ∧ b ≤ ch 'f' then some (b.toNat - 87)
  else if ch 'A' ≤ b ∧ b ≤ ch 'F' then some (b.toNat - 55)
  else none

def digitIn (base : Nat) (b : Byte) : Option Nat := (digitVal b).filter (· < base)

def digitChar (d : Nat) : Byte := if d < 10 then UInt8.ofNat (48 + d) else UInt8.ofNat (87 + d)

theorem digitVal_digitChar {d : Nat} (hd : d < 16) : digitVal (digitChar d) = some d := by
  have key : ∀ d < 16, digitVal (digitChar d) = some d := by decide
  exact key d hd

theorem digitIn_digitChar {base d : Nat} (hb : base ≤ 16) (hd : d < base) :
    digitIn base (digitChar d) = some d := by
  rw [digitIn, digitVal_digitChar (by omega)]
  simp [hd]

/-- The characters numerals are made of: hexadecimal digits, signs and the point. An `e` is a digit. -/
def isNumeralChar (b : Byte) : Bool := (digitVal b).isSome || b == ch '-' || b == ch '+' || b == ch '.'

theorem byte_all {p : Byte → Bool} (h : ∀ n : Fin 256, p (UInt8.ofNat n) = true) (b : Byte) : p b = true := by
  have hb := h ⟨b.toNat, b.toNat_lt⟩
  rwa [show UInt8.ofNat b.toNat = b from UInt8.ofNat_toNat] at hb

theorem isSpace_blank : ∀ b ∈ [ch ' '], isSpace b = true := by
  intro b hb
  rw [List.mem_singleton.mp hb]
  rfl

theorem isSpace_of_isNumeralChar {b : Byte} (h : isNumeralChar b = true) : isSpace b = false := by
  have key := byte_all (p := fun b => !isNumeralChar b || !isSpace b) (by decide +kernel) b
  simpa [h] using key

theorem ne_nul_of_isNumeralChar {b : Byte} (h : isNumeralChar b = true) : b ≠ 0 := by
  rintro rfl
  cases h

theorem isNumeralChar_digitChar {d : Nat} (hd : d < 16) : isNumeralChar (digitChar d) = true := by
  rw [isNumeralChar, digitVal_digitChar hd]
  rfl

theorem isSpace_digitChar {d : Nat} (hd : d < 16) : isSpace (digitChar d) = false :=
  isSpace_of_isNumeralChar (isNumeralChar_digitChar hd)

theorem isSpace_of_digitIn {base : Nat} {b : Byte} {d : Nat} (h : digitIn base b = some d) :
    isSpace b = false := by
  rw [digitIn, Option.filter_eq_some_iff] at h
  refine isSpace_of_isNumeralChar ?_
  rw [isNumeralChar, h.1]
  rfl

/-! ## Writing -/

/-- The digits of `n`, most significant first. -/
def numeralDigits (base n : Nat) : List Nat := if n = 0 then [0] else (Nat.digits base n).reverse

/-- `os << n` in the given base. -/
def numeral (base n : Nat) : Bytes := (numeralDigits base n).map digitChar

def value (base : Nat) (ds : List Nat) : Nat := Nat.ofDigits base ds.reverse

theorem numeralDigits_ne_nil (base n : Nat) : numeralDigits base n ≠ [] := by
  unfold numeralDigits
  split
  · simp
  · simpa using Nat.digits_ne_nil_iff_ne_zero.mpr ‹n ≠ 0›

theorem numeralDigits_lt {base n d : Nat} (hb : 1 < base) (hd : d ∈ numeralDigits base n) : d < base := by
  unfold numeralDigits at hd
  split at hd
  · rw [List.mem_singleton.mp hd]; omega
  · exact Nat.digits_lt_base hb (List.mem_reverse.mp hd)

theorem value_numeralDigits (base n : Nat) : value base (numeralDigits base n) = n := by
  unfold value numeralDigits
  split
  · subst n; simp
  · rw [List.reverse_reverse, Nat.ofDigits_digits]

theorem numeral_ne_nil (base n : Nat) : numeral base n ≠ [] := by
  simpa [numeral] using numeralDigits_ne_nil base n

theorem length_numeral_le_iff {base n k : Nat} (hb : 1 < base) (hk : 0 < k) :
    (numeral base n).length ≤ k ↔ n < base ^ k := by
  rw [numeral, List.length_map, numeralDigits]
  split
  · subst n
    simp only [List.length_singleton]
    exact ⟨fun _ => Nat.pos_of_ne_zero (pow_ne_zero k (by omega)), fun _ => hk⟩
  · rw [List.length_reverse, Nat.digits_length_le_iff hb]

theorem mem_numeral {base n : Nat} (hb : 1 < base) {b : Byte} (h : b ∈ numeral base n) :
    ∃ d < base, b = digitChar d := by
  obtain ⟨d, hd, rfl⟩ := List.mem_map.mp h
  exact ⟨d, numeralDigits_lt hb hd, rfl⟩

/-! ## Reading -/

def readDigits (base : Nat) : Bytes → List Nat × Bytes
  | [] => ([], [])
  | b :: t =>
    match digitIn base b with
    | some d => (d :: (readDigits base t).1, (readDigits base t).2)
    | none => ([], b :: t)

def Halts (base : Nat) (t : Bytes) : Prop := ∀ b ∈ t.head?, digitIn base b = none

theorem Halts.nil (base : Nat) : Halts base [] := by simp [Halts]

theorem Halts.cons {base : Nat} {b : Byte} (h : digitIn base b = none) (t : Bytes) : Halts base (b :: t) := by
  simpa [Halts] using h

theorem readDigits_of_halts {base : Nat} {t : Bytes} (h : Halts base t) : readDigits base t = ([], t) := by
  cases t with
  | nil => rfl
  | cons b t => simp [readDigits, h b (by simp)]

theorem readDigits_append {base : Nat} {w t : Bytes} (hw : ∀ b ∈ w, (digitIn base b).isSome = true)
    (ht : Halts base t) : readDigits base (w ++ t) = (w.filterMap (digitIn base), t) := by
  induction w with
  | nil => exact readDigits_of_halts ht
  | cons b w ih =>
    obtain ⟨d, hd⟩ := Option.isSome_iff_exists.mp (hw b List.mem_cons_self)
    have hrest := ih fun x hx => hw x (List.mem_cons_of_mem b hx)
    simp [readDigits, hd, hrest]

theorem exists_digits (base : Nat) (t : Bytes) :
    ∃ w rest, t = w ++ rest ∧ (∀ b ∈ w, (digitIn base b).isSome = true) ∧ Halts base rest := by
  induction t with
  | nil => exact ⟨[], [], rfl, by simp, Halts.nil base⟩
  | cons b t ih =>
    cases hb : digitIn base b with
    | none => exact ⟨[], b :: t, rfl, by simp, Halts.cons hb t⟩
    | some d =>
      obtain ⟨w, rest, rfl, hw, hrest⟩ := ih
      refine ⟨b :: w, rest, rfl, ?_, hrest⟩
      rintro x (_ | ⟨_, hx⟩)
      · rw [hb]
        rfl
      · exact hw x hx

theorem readDigits_map_digitChar {base : Nat} (hb : base ≤ 16) {t : Bytes} (ht : Halts base t) {ds : List Nat}
    (h : ∀ d ∈ ds, d < base) : readDigits base (ds.map digitChar ++ t) = (ds, t) := by
  induction ds with
  | nil => exact readDigits_of_halts ht
  | cons d ds ih =>
    have hds := ih fun x hx => h x (List.mem_cons_of_mem d hx)
    simp [readDigits, digitIn_digitChar hb (h d List.mem_cons_self), hds]

/-- **A numeral is read back digit by digit**, up to the byte that cannot continue it. -/
theorem readDigits_numeral {base : Nat} (hb : 1 < base) (hb' : base ≤ 16) (n : Nat) {t : Bytes}
    (ht : Halts base t) : readDigits base (numeral base n ++ t) = (numeralDigits base n, t) :=
  readDigits_map_digitChar hb' ht fun _ => numeralDigits_lt hb

end TCPClientServer.Basis
