import TCPClientServer.Basis.Decimal
import TCPClientServer.Basis.Rounding

/-!
# Significant digits

A number written with `p` digits and read back is the nearest one that has `p` digits. A `double` near enough to it
is written with the same digits, so that nothing is lost from the second time on.

* `significant p m e` : the number with the `p` digits of `m`, the first of them at the exponent `e`;
* `leadingDigits_range`, `abs_significant_sub_le` : the leading digits of a number, and how far off they are;
* `abs_toRat_formatReal` : what a formatted number stands for;
* `leadingDigits_near`, `formatReal_near` : numbers near to one with `p` digits have its digits.
-/

namespace TCPClientServer.Basis
open Double

/-- `m` with `p` digits, the first of them at the exponent `e`. -/
def significant (p m : Nat) (e : ℤ) : ℚ := m * 10 ^ (e + 1 - p)

theorem ten_zpow_pos (e : ℤ) : (0 : ℚ) < 10 ^ e := zpow_pos (by norm_num) _

theorem log_ten_eq {x : ℚ} {e : ℤ} (hlow : (10 : ℚ) ^ e ≤ x) (hhigh : x < 10 ^ (e + 1)) : Int.log 10 x = e := by
  have hpos : 0 < x := (ten_zpow_pos e).trans_le hlow
  have hle : e ≤ Int.log 10 x := (Int.zpow_le_iff_le_log (by norm_num) hpos).mp (by exact_mod_cast hlow)
  have hlt : Int.log 10 x < e + 1 := (Int.lt_zpow_iff_log_lt (by norm_num) hpos).mp (by exact_mod_cast hhigh)
  omega

/-! ## The leading digits -/

section Leading
variable {p m : Nat} {e : ℤ} {x q : ℚ}

theorem roundEven_mem {a b : ℤ} (hlow : (a : ℚ) ≤ q) (hhigh : q ≤ b) : a ≤ roundEven q ∧ roundEven q ≤ b := by
  have herr := abs_le.mp (abs_roundEven_sub_le q)
  constructor
  · have hlt : (a : ℚ) < roundEven q + 1 := by linarith
    exact Int.lt_add_one_iff.mp (by exact_mod_cast hlt)
  · have hlt : (roundEven q : ℚ) < b + 1 := by linarith
    exact Int.lt_add_one_iff.mp (by exact_mod_cast hlt)

theorem shifted_mem (hp : 0 < p) (hq : 0 < q) :
    (10 : ℚ) ^ (p - 1) ≤ q * 10 ^ ((p : ℤ) - 1 - Int.log 10 q) ∧ q * 10 ^ ((p : ℤ) - 1 - Int.log 10 q) < 10 ^ p := by
  have hlow : (10 : ℚ) ^ Int.log 10 q ≤ q := by exact_mod_cast Int.zpow_log_le_self (by norm_num) hq
  have hhigh : q < 10 ^ (Int.log 10 q + 1) := by exact_mod_cast Int.lt_zpow_succ_log_self (by norm_num) q
  have hten := ten_zpow_pos ((p : ℤ) - 1 - Int.log 10 q)
  constructor
  · calc (10 : ℚ) ^ (p - 1) = 10 ^ Int.log 10 q * 10 ^ ((p : ℤ) - 1 - Int.log 10 q) := by
          rw [← zpow_add₀ (by norm_num), ← zpow_natCast]
          congr 1
          omega
      _ ≤ q * 10 ^ ((p : ℤ) - 1 - Int.log 10 q) := by gcongr
  · calc q * 10 ^ ((p : ℤ) - 1 - Int.log 10 q)
        < 10 ^ (Int.log 10 q + 1) * 10 ^ ((p : ℤ) - 1 - Int.log 10 q) := by gcongr
      _ = 10 ^ p := by
          rw [← zpow_add₀ (by norm_num), ← zpow_natCast]
          congr 1
          omega

theorem roundEven_shifted (hp : 0 < p) (hq : 0 < q) : ∃ n : Nat,
    roundEven (q * 10 ^ ((p : ℤ) - 1 - Int.log 10 q)) = n ∧ 10 ^ (p - 1) ≤ n ∧ n ≤ 10 ^ p := by
  obtain ⟨hlow, hhigh⟩ := shifted_mem hp hq
  have hlow' : (((10 ^ (p - 1) : Nat) : ℤ) : ℚ) ≤ q * 10 ^ ((p : ℤ) - 1 - Int.log 10 q) := by
    push_cast
    exact hlow
  have hhigh' : q * 10 ^ ((p : ℤ) - 1 - Int.log 10 q) ≤ (((10 ^ p : Nat) : ℤ) : ℚ) := by
    push_cast
    exact hhigh.le
  obtain ⟨hle, hge⟩ := roundEven_mem hlow' hhigh'
  obtain ⟨n, hn⟩ := Int.eq_ofNat_of_zero_le (le_trans (Int.natCast_nonneg _) hle)
  rw [hn] at hle hge
  exact ⟨n, hn, by exact_mod_cast hle, by exact_mod_cast hge⟩

theorem leadingDigits_range (hp : 0 < p) (hq : 0 < q) :
    10 ^ (p - 1) ≤ (leadingDigits p q).1 ∧ (leadingDigits p q).1 < 10 ^ p := by
  obtain ⟨n, hn, hlow, -⟩ := roundEven_shifted hp hq
  refine ⟨?_, leadingDigits_lt hp q⟩
  simp only [leadingDigits, hn, Int.toNat_natCast]
  split
  · exact hlow
  · exact le_rfl

theorem mul_ten_zpow_shift (y : ℚ) (a b : ℤ) : y * 10 ^ a * 10 ^ b = y * 10 ^ (a + b) := by
  rw [mul_assoc, ← zpow_add₀ (by norm_num)]

theorem ten_zpow_eq (hp : 0 < p) (e : ℤ) : (10 : ℚ) ^ e = 10 ^ (p - 1) * 10 ^ (e + 1 - p) := by
  rw [← zpow_natCast, ← zpow_add₀ (by norm_num)]
  congr 1
  omega

theorem ten_zpow_succ_eq (p : Nat) (e : ℤ) : (10 : ℚ) ^ (e + 1) = 10 ^ p * 10 ^ (e + 1 - p) := by
  rw [← zpow_natCast, ← zpow_add₀ (by norm_num)]
  congr 1
  omega

theorem leadingDigits_of_le {y : ℚ} (hp : 0 < p) (hlow : (10 : ℚ) ^ (p - 1) ≤ y) (hm : m < 10 ^ p)
    (hnear : |y - m| < 1 / 2) : leadingDigits p (y * 10 ^ (e + 1 - p)) = (m, e) := by
  have hs := ten_zpow_pos (e + 1 - p)
  have hy : y < 10 ^ p := by
    have hm' : (m : ℚ) + 1 ≤ 10 ^ p := by exact_mod_cast hm
    have := (abs_lt.mp hnear).2
    linarith
  have hlog : Int.log 10 (y * 10 ^ (e + 1 - p)) = e := by
    refine log_ten_eq ?_ ?_
    · rw [ten_zpow_eq hp]
      gcongr
    · rw [ten_zpow_succ_eq p]
      gcongr
  have hshift : y * 10 ^ (e + 1 - p) * 10 ^ ((p : ℤ) - 1 - e) = y := by
    rw [mul_ten_zpow_shift, show e + 1 - p + ((p : ℤ) - 1 - e) = 0 by ring, zpow_zero, mul_one]
  have hround : roundEven y = m := roundEven_eq_of_near (by exact_mod_cast hnear)
  simp only [leadingDigits, hlog, hshift, hround, Int.toNat_natCast, if_pos hm]

theorem leadingDigits_of_lt {y : ℚ} (hp : 0 < p) (hhigh : y < 10 ^ (p - 1)) (hnear : |y * 10 - 10 ^ p| < 1 / 2) :
    leadingDigits p (y * 10 ^ (e + 1 - p)) = (10 ^ (p - 1), e) := by
  have hs := ten_zpow_pos (e + 1 - p)
  have hlow : (10 : ℚ) ^ (p - 1) / 10 ≤ y := by
    have hone : (1 : ℚ) ≤ 10 ^ (p - 1) := one_le_pow₀ (by norm_num)
    have hten : (10 : ℚ) ^ p = 10 ^ (p - 1) * 10 := by rw [← pow_succ, Nat.sub_add_cancel hp]
    have := (abs_lt.mp hnear).1
    linarith
  have hlog : Int.log 10 (y * 10 ^ (e + 1 - p)) = e - 1 := by
    refine log_ten_eq ?_ ?_
    · calc (10 : ℚ) ^ (e - 1) = 10 ^ (p - 1) / 10 * 10 ^ (e + 1 - p) := by
            rw [zpow_sub_one₀ (by norm_num), ten_zpow_eq hp]
            ring
        _ ≤ y * 10 ^ (e + 1 - p) := by gcongr
    · rw [sub_add_cancel, ten_zpow_eq hp e]
      gcongr
  have hshift : y * 10 ^ (e + 1 - p) * 10 ^ ((p : ℤ) - 1 - (e - 1)) = y * 10 := by
    rw [mul_ten_zpow_shift, show e + 1 - p + ((p : ℤ) - 1 - (e - 1)) = 1 by ring, zpow_one]
  have hround : roundEven (y * 10) = ((10 ^ p : Nat) : ℤ) := roundEven_eq_of_near (by exact_mod_cast hnear)
  simp only [leadingDigits, hlog, hshift, hround, Int.toNat_natCast, lt_irrefl, if_false, sub_add_cancel]

/-- **The digits of a number near to one with `p` digits** are those of that one. -/
theorem leadingDigits_near (hp : 0 < p) (hlow : 10 ^ (p - 1) ≤ m) (hhigh : m < 10 ^ p)
    (h : |x - significant p m e| * (2 * 10 ^ p) < significant p m e) : leadingDigits p x = (m, e) := by
  have hs := ten_zpow_pos (e + 1 - p)
  have hten : (10 : ℚ) ^ p = 10 ^ (p - 1) * 10 := by rw [← pow_succ, Nat.sub_add_cancel hp]
  obtain ⟨y, rfl⟩ : ∃ y, x = y * 10 ^ (e + 1 - p) := ⟨x / 10 ^ (e + 1 - p), (div_mul_cancel₀ _ hs.ne').symm⟩
  have hnear : |y - m| * (2 * 10 ^ p) < m := by
    rw [significant, ← sub_mul, abs_mul, abs_of_pos hs, mul_right_comm] at h
    exact lt_of_mul_lt_mul_right h hs.le
  have hhalf : |y - m| < 1 / 2 := by
    have hm : (m : ℚ) < 10 ^ p := by exact_mod_cast hhigh
    have : |y - m| * (2 * 10 ^ p) < 1 / 2 * (2 * 10 ^ p) := by linarith
    exact lt_of_mul_lt_mul_right this (by positivity)
  rcases le_or_gt ((10 : ℚ) ^ (p - 1)) y with hy | hy
  · exact leadingDigits_of_le hp hy hhigh hhalf
  · -- then `m` is the power of ten that it is just below
    obtain rfl : m = 10 ^ (p - 1) := by
      have hlt : (m : ℚ) < 10 ^ (p - 1) + 1 := by linarith [(abs_lt.mp hhalf).1]
      have : m < 10 ^ (p - 1) + 1 := by exact_mod_cast hlt
      omega
    refine leadingDigits_of_lt hp hy ?_
    push_cast at hnear
    have hscaled : |y * 10 - 10 ^ p| = |y - 10 ^ (p - 1)| * 10 := by
      rw [hten, ← sub_mul, abs_mul]
      norm_num
    rw [hten] at hnear
    rw [hscaled]
    have hpos : (0 : ℚ) < 10 ^ (p - 1) := by positivity
    have : |y - 10 ^ (p - 1)| * 10 * (2 * 10 ^ (p - 1)) < 1 / 2 * (2 * 10 ^ (p - 1)) := by linarith
    exact lt_of_mul_lt_mul_right this (by positivity)

/-- The leading digits, without their carry. -/
theorem significant_leadingDigits (hp : 0 < p) (hq : 0 < q) :
    significant p (leadingDigits p q).1 (leadingDigits p q).2 =
      roundEven (q * 10 ^ ((p : ℤ) - 1 - Int.log 10 q)) * 10 ^ (Int.log 10 q + 1 - p) := by
  obtain ⟨n, hn, -, hhigh⟩ := roundEven_shifted hp hq
  simp only [leadingDigits, hn, Int.toNat_natCast]
  split
  · rw [significant, Int.cast_natCast]
  · rename_i hcarry
    obtain rfl : n = 10 ^ p := by omega
    have hten : (10 : ℚ) ^ p = 10 ^ (p - 1) * 10 := by rw [← pow_succ, Nat.sub_add_cancel hp]
    have hexp : Int.log 10 q + 1 + 1 - (p : ℤ) = Int.log 10 q + 1 - p + 1 := by ring
    rw [significant, hexp, zpow_add_one₀ (by norm_num)]
    push_cast
    rw [hten]
    ring

/-- **The leading digits are off** by a part of the number that has as many zeros at most. -/
theorem abs_significant_sub_le (hp : 0 < p) (hq : 0 < q) :
    |significant p (leadingDigits p q).1 (leadingDigits p q).2 - q| * (2 * 10 ^ (p - 1)) ≤ q := by
  have hlow : (10 : ℚ) ^ Int.log 10 q ≤ q := by exact_mod_cast Int.zpow_log_le_self (by norm_num) hq
  have hs := ten_zpow_pos (Int.log 10 q + 1 - p)
  have herr := abs_roundEven_sub_le (q * 10 ^ ((p : ℤ) - 1 - Int.log 10 q))
  have hback : q * 10 ^ ((p : ℤ) - 1 - Int.log 10 q) * 10 ^ (Int.log 10 q + 1 - p) = q := by
    rw [mul_ten_zpow_shift, show (p : ℤ) - 1 - Int.log 10 q + (Int.log 10 q + 1 - p) = 0 by ring, zpow_zero, mul_one]
  have hscaled : |significant p (leadingDigits p q).1 (leadingDigits p q).2 - q| ≤
      1 / 2 * 10 ^ (Int.log 10 q + 1 - p) := by
    calc |significant p (leadingDigits p q).1 (leadingDigits p q).2 - q|
        = |roundEven (q * 10 ^ ((p : ℤ) - 1 - Int.log 10 q)) - q * 10 ^ ((p : ℤ) - 1 - Int.log 10 q)| *
            10 ^ (Int.log 10 q + 1 - p) := by
          rw [significant_leadingDigits hp hq, ← abs_of_pos hs, ← abs_mul, abs_of_pos hs, sub_mul, hback]
      _ ≤ 1 / 2 * 10 ^ (Int.log 10 q + 1 - p) := by gcongr
  calc |significant p (leadingDigits p q).1 (leadingDigits p q).2 - q| * (2 * 10 ^ (p - 1))
      ≤ 1 / 2 * 10 ^ (Int.log 10 q + 1 - p) * (2 * 10 ^ (p - 1)) := by gcongr
    _ = 10 ^ Int.log 10 q := by
        rw [ten_zpow_eq hp (Int.log 10 q)]
        ring
    _ ≤ q := hlow

theorem significant_pos (hlow : 10 ^ (p - 1) ≤ m) : 0 < significant p m e := by
  have hm : 0 < m := lt_of_lt_of_le (by positivity) hlow
  exact mul_pos (by exact_mod_cast hm) (ten_zpow_pos _)

end Leading

/-! ## What a formatted number stands for -/

section Value
variable {p : Nat} {q x : ℚ} {xs ys : List Nat}

theorem value_append (base : Nat) (xs ys : List Nat) :
    value base (xs ++ ys) = value base xs * base ^ ys.length + value base ys := by
  rw [value, value, value, List.reverse_append, Nat.ofDigits_append, List.length_reverse]
  ring

theorem value_replicate_zero (base k : Nat) : value base (List.replicate k 0) = 0 := by
  induction k with
  | zero => rfl
  | succ k ih => rw [List.replicate_succ', value_append, ih]; simp [value]

theorem exists_stripZeros (ds : List Nat) : ∃ k, ds = stripZeros ds ++ List.replicate k 0 := by
  induction ds using List.reverseRecOn with
  | nil => exact ⟨0, rfl⟩
  | append_singleton ds d ih =>
    by_cases hd : d = 0
    · obtain ⟨k, hk⟩ := ih
      refine ⟨k + 1, ?_⟩
      rw [stripZeros, List.rdropWhile_concat_pos _ _ _ (by simp [hd]), ← stripZeros, List.replicate_succ',
        ← List.append_assoc, ← hk, hd]
    · refine ⟨0, ?_⟩
      rw [stripZeros, List.rdropWhile_concat_neg _ _ _ (by simp [hd]), List.replicate_zero, List.append_nil]

theorem fraction_stripZeros (xs ys : List Nat) (k : ℤ) :
    (value 10 (xs ++ stripZeros ys) : ℚ) * 10 ^ (k - (stripZeros ys).length) =
      value 10 (xs ++ ys) * 10 ^ (k - ys.length) := by
  obtain ⟨n, hn⟩ := exists_stripZeros ys
  generalize stripZeros ys = zs at *
  subst hn
  have hexp : k - (zs.length : ℤ) = k - ((zs ++ List.replicate n 0).length : ℤ) + n := by
    rw [List.length_append, List.length_replicate]
    push_cast
    ring
  rw [← List.append_assoc, value_append 10 (xs ++ zs), value_replicate_zero, List.length_replicate, hexp,
    zpow_add₀ (by norm_num), zpow_natCast]
  push_cast
  ring

theorem value_exponentDigits (e : ℤ) : value 10 (exponentDigits e) = e.natAbs := by
  unfold exponentDigits
  split
  · rw [← List.singleton_append, value_append, value_numeralDigits]
    simp [value]
  · exact value_numeralDigits 10 _

theorem exponentValue_exponentDigits (e : ℤ) :
    RealNumeral.exponentValue (some (decide (e < 0), exponentDigits e)) = e := by
  simp only [RealNumeral.exponentValue, value_exponentDigits, decide_eq_true_eq]
  split <;> omega

theorem length_numeralDigits_eq {m : Nat} (hp : 0 < p) (hlow : 10 ^ (p - 1) ≤ m) (hhigh : m < 10 ^ p) :
    (numeralDigits 10 m).length = p := by
  have hiff : ∀ k, 0 < k → ((numeralDigits 10 m).length ≤ k ↔ m < 10 ^ k) := fun k hk => by
    simpa [numeral] using length_numeral_le_iff (n := m) (by decide : 1 < 10) hk
  have hle := (hiff p hp).mpr hhigh
  rcases Nat.eq_zero_or_pos (p - 1) with hone | hmore
  · have := List.length_pos_iff.mpr (numeralDigits_ne_nil 10 m)
    omega
  · have := mt (hiff (p - 1) hmore).mp (not_lt.mpr hlow)
    omega

/-- **A formatted number stands for its leading digits.** -/
theorem magnitude_formatReal (hp : 0 < p) (hq : q ≠ 0) : (formatReal p q).magnitude =
    significant p (leadingDigits p |q|).1 (leadingDigits p |q|).2 := by
  obtain ⟨hlow, hhigh⟩ := leadingDigits_range hp (abs_pos.mpr hq)
  unfold formatReal
  rw [if_neg hq]
  generalize leadingDigits p |q| = me at *
  obtain ⟨m, e⟩ := me
  have hlen : (numeralDigits 10 m).length = p := length_numeralDigits_eq hp hlow hhigh
  dsimp only
  split
  · rw [RealNumeral.magnitude, fraction_stripZeros, exponentValue_exponentDigits, List.take_append_drop,
      value_numeralDigits, List.length_drop, hlen, significant]
    congr 2
    omega
  · rename_i hpositional
    split
    · have hzeros : [0] ++ (List.replicate (-e - 1).toNat 0 ++ stripZeros (numeralDigits 10 m)) =
          List.replicate ((-e - 1).toNat + 1) 0 ++ stripZeros (numeralDigits 10 m) := by
        rw [List.replicate_succ]
        rfl
      have hexp : (RealNumeral.exponentValue none : ℤ) -
          ((List.replicate (-e - 1).toNat 0 ++ stripZeros (numeralDigits 10 m)).length : ℤ) =
          e + 1 - ((stripZeros (numeralDigits 10 m)).length : ℤ) := by
        rw [List.length_append, List.length_replicate, RealNumeral.exponentValue]
        push_cast
        omega
      rw [RealNumeral.magnitude, hzeros, hexp, fraction_stripZeros, value_append, value_replicate_zero,
        value_numeralDigits, hlen, significant]
      push_cast
      ring
    · rw [RealNumeral.magnitude, fraction_stripZeros, List.take_append_drop, value_numeralDigits, List.length_drop,
        hlen, significant, RealNumeral.exponentValue]
      congr 2
      omega

theorem negative_formatReal (hq : q ≠ 0) : (formatReal p q).negative = decide (q < 0) := by
  unfold formatReal
  rw [if_neg hq]
  dsimp only
  split
  · rfl
  · split <;> rfl

theorem abs_toRat_formatReal (hp : 0 < p) (hq : q ≠ 0) : |(formatReal p q).toRat| =
    significant p (leadingDigits p |q|).1 (leadingDigits p |q|).2 := by
  have hpos := significant_pos (e := (leadingDigits p |q|).2) (leadingDigits_range hp (abs_pos.mpr hq)).1
  rw [RealNumeral.toRat, magnitude_formatReal hp hq]
  split
  · rw [abs_neg, abs_of_pos hpos]
  · exact abs_of_pos hpos

theorem toRat_formatReal_neg_iff (hp : 0 < p) (hq : q ≠ 0) : (formatReal p q).toRat < 0 ↔ q < 0 := by
  have hpos := significant_pos (e := (leadingDigits p |q|).2) (leadingDigits_range hp (abs_pos.mpr hq)).1
  rw [RealNumeral.toRat, magnitude_formatReal hp hq, negative_formatReal hq]
  simp only [decide_eq_true_eq]
  split
  · rename_i hneg
    exact ⟨fun _ => hneg, fun _ => neg_neg_of_pos hpos⟩
  · rename_i hneg
    exact ⟨fun h => absurd hpos h.not_gt, fun h => absurd h hneg⟩

theorem toRat_formatReal_zero (p : Nat) : (formatReal p 0).toRat = 0 := by
  simp [formatReal, RealNumeral.toRat, RealNumeral.magnitude, value]

/-- **A formatted number is off** by half a unit of its last digit at most. -/
theorem abs_toRat_formatReal_sub_le (hp : 0 < p) (q : ℚ) :
    |(formatReal p q).toRat - q| * (2 * 10 ^ (p - 1)) ≤ |q| := by
  by_cases hq : q = 0
  · simp [hq, toRat_formatReal_zero]
  have hmagnitude := abs_significant_sub_le hp (abs_pos.mpr hq)
  rw [← abs_toRat_formatReal hp hq] at hmagnitude
  have hsame : |(formatReal p q).toRat - q| = |(|(formatReal p q).toRat| - |q|)| := by
    have hsign := toRat_formatReal_neg_iff hp hq
    rcases lt_or_ge q 0 with hneg | hnonneg
    · rw [abs_of_neg hneg, abs_of_neg (hsign.mpr hneg), ← abs_neg]
      congr 1
      ring
    · rw [abs_of_nonneg hnonneg, abs_of_nonneg (not_lt.mp fun h => absurd (hsign.mp h) hnonneg.not_gt)]
  rwa [hsame]

/-- **A number near to a formatted one is written like it.** -/
theorem formatReal_near (hp : 0 < p) (hq : q ≠ 0)
    (h : |x - (formatReal p q).toRat| * (2 * 10 ^ p) < |(formatReal p q).toRat|) : formatReal p x = formatReal p q := by
  have hrange := leadingDigits_range hp (abs_pos.mpr hq)
  have hpos : 0 < |(formatReal p q).toRat| := by
    rw [abs_toRat_formatReal hp hq]
    exact significant_pos hrange.1
  have hone : (1 : ℚ) ≤ 2 * 10 ^ p := by
    have : (1 : ℚ) ≤ 10 ^ p := one_le_pow₀ (by norm_num)
    linarith
  have hclose : |x - (formatReal p q).toRat| < |(formatReal p q).toRat| :=
    (le_mul_of_one_le_right (abs_nonneg _) hone).trans_lt h
  have hdigits : leadingDigits p |x| = ((leadingDigits p |q|).1, (leadingDigits p |q|).2) := by
    refine leadingDigits_near hp hrange.1 hrange.2 ?_
    rw [← abs_toRat_formatReal hp hq]
    exact (mul_le_mul_of_nonneg_right (abs_abs_sub_abs_le x _) (by positivity)).trans_lt h
  have hsign : x < 0 ↔ q < 0 := by
    rw [← toRat_formatReal_neg_iff hp hq]
    obtain ⟨hlow, hhigh⟩ := abs_lt.mp hclose
    constructor
    · intro hx
      by_contra hnonneg
      rw [abs_of_nonneg (not_lt.mp hnonneg)] at hlow
      linarith
    · intro hneg
      rw [abs_of_neg hneg] at hhigh
      linarith
  have hx : x ≠ 0 := by
    rintro rfl
    rw [zero_sub, abs_neg] at hclose
    exact lt_irrefl _ hclose
  unfold formatReal
  simp only [if_neg hx, if_neg hq, hdigits, hsign]

end Value

/-! ## Fifteen digits of a double -/

section Doubles
variable {q : ℚ}

/-- A value far enough from both ends of the range of a `double` for all of its digits. -/
def Ordinary (q : ℚ) : Prop := q = 0 ∨ (10 : ℚ) ^ (-307 : ℤ) ≤ |q| ∧ |q| < 10 ^ (308 : ℤ)

instance (q : ℚ) : Decidable (Ordinary q) := inferInstanceAs (Decidable (_ ∨ _))

/-- The nearest `double` to the number written for a value. -/
def reread (q : ℚ) : ℚ := roundFinite (formatReal 15 q).toRat

/-- What is written for an ordinary value is between the same powers of ten. -/
theorem Ordinary.written (h : Ordinary q) (hq : q ≠ 0) :
    (10 : ℚ) ^ (-307 : ℤ) ≤ |(formatReal 15 q).toRat| ∧ |(formatReal 15 q).toRat| ≤ 10 ^ (308 : ℤ) := by
  obtain ⟨hlow, hhigh⟩ := h.resolve_left hq
  have hpos := abs_pos.mpr hq
  have hlog : -307 ≤ Int.log 10 |q| := (Int.zpow_le_iff_le_log (by norm_num) hpos).mp (by exact_mod_cast hlow)
  have hlog' : Int.log 10 |q| < 308 := (Int.lt_zpow_iff_log_lt (by norm_num) hpos).mp (by exact_mod_cast hhigh)
  obtain ⟨n, hn, hle, hge⟩ := roundEven_shifted (by decide : 0 < 15) hpos
  have hs := ten_zpow_pos (Int.log 10 |q| + 1 - (15 : Nat))
  have hle' : (10 : ℚ) ^ (15 - 1) ≤ n := by exact_mod_cast hle
  have hge' : (n : ℚ) ≤ 10 ^ 15 := by exact_mod_cast hge
  rw [abs_toRat_formatReal (by decide) hq, significant_leadingDigits (by decide) hpos, hn, Int.cast_natCast]
  constructor
  · calc (10 : ℚ) ^ (-307 : ℤ) ≤ 10 ^ Int.log 10 |q| := zpow_le_zpow_right₀ (by norm_num) hlog
      _ = 10 ^ (15 - 1) * 10 ^ (Int.log 10 |q| + 1 - (15 : Nat)) := ten_zpow_eq (by decide) _
      _ ≤ n * 10 ^ (Int.log 10 |q| + 1 - (15 : Nat)) := by gcongr
  · calc (n : ℚ) * 10 ^ (Int.log 10 |q| + 1 - (15 : Nat))
        ≤ 10 ^ 15 * 10 ^ (Int.log 10 |q| + 1 - (15 : Nat)) := by gcongr
      _ = 10 ^ (Int.log 10 |q| + 1) := (ten_zpow_succ_eq 15 _).symm
      _ ≤ 10 ^ (308 : ℤ) := zpow_le_zpow_right₀ (by norm_num) (by omega)

/-- **An ordinary value is read back finite**, as the nearest `double` to what is written for it. -/
theorem Ordinary.ofRat_toRat (h : Ordinary q) : ofRat (formatReal 15 q).toRat = .finite (reread q) := by
  refine ofRat_eq_finite ?_
  by_cases hq : q = 0
  · rw [hq, toRat_formatReal_zero]
    decide +kernel
  · refine (h.written hq).2.trans_lt ?_
    decide +kernel

theorem Ordinary.abs_reread_sub_le (h : Ordinary q) (hq : q ≠ 0) :
    |reread q - (formatReal 15 q).toRat| ≤ |(formatReal 15 q).toRat| * 2 ^ (-53 : ℤ) := by
  refine abs_roundFinite_sub_le_mul (le_trans ?_ (h.written hq).1)
  decide +kernel

/-- **Fifteen digits survive**: what is read back is written with the same digits. -/
theorem Ordinary.formatReal_reread (h : Ordinary q) : formatReal 15 (reread q) = formatReal 15 q := by
  by_cases hq : q = 0
  · subst hq
    decide +kernel
  refine formatReal_near (by decide) hq ?_
  have hpos : 0 < |(formatReal 15 q).toRat| := (ten_zpow_pos _).trans_le (h.written hq).1
  calc |reread q - (formatReal 15 q).toRat| * (2 * 10 ^ 15)
      ≤ |(formatReal 15 q).toRat| * 2 ^ (-53 : ℤ) * (2 * 10 ^ 15) := by
        gcongr
        exact h.abs_reread_sub_le hq
    _ = |(formatReal 15 q).toRat| * (2 ^ (-53 : ℤ) * (2 * 10 ^ 15)) := by ring
    _ < |(formatReal 15 q).toRat| := mul_lt_of_lt_one_right hpos (by norm_num)

/-- **What is read back is off** by one part in `10 ^ 14` at most. -/
theorem Ordinary.abs_reread_sub_self_le (h : Ordinary q) : |reread q - q| * 10 ^ 14 ≤ |q| := by
  by_cases hq : q = 0
  · subst hq
    decide +kernel
  have hround := h.abs_reread_sub_le hq
  have hformat := abs_toRat_formatReal_sub_le (by decide : 0 < 15) q
  have hsize : |(formatReal 15 q).toRat| ≤ |(formatReal 15 q).toRat - q| + |q| := by
    simpa using abs_add_le ((formatReal 15 q).toRat - q) q
  have hsum : |reread q - q| ≤ |reread q - (formatReal 15 q).toRat| + |(formatReal 15 q).toRat - q| :=
    abs_sub_le _ _ _
  have hnonneg := abs_nonneg q
  norm_num at hround hformat
  linarith

end Doubles

end TCPClientServer.Basis
