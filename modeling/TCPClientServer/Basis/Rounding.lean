import TCPClientServer.Basis.Binary64

/-!
# How far rounding moves a number

* `abs_roundFinite_sub_le` : by half of its last place at most;
* `abs_roundFinite_sub_le_mul` : by `2 ^ (-53)` of its magnitude at most, above the subnormal numbers;
* `roundFinite_eq_self` : not at all, when it is a multiple of its last place; `roundFinite_intCast`, `ofRat_intCast`
  for integers.
-/

namespace TCPClientServer.Basis.Double

theorem roundEven_eq_of_near {q : ℚ} {n : ℤ} (h : |q - n| < 1 / 2) : roundEven q = n := by
  have hround := abs_roundEven_sub_le q
  have hdist : |((roundEven q - n : ℤ) : ℚ)| < 1 := by
    push_cast
    calc |(roundEven q : ℚ) - n| ≤ |roundEven q - q| + |q - n| := abs_sub_le _ _ _
      _ < 1 / 2 + 1 / 2 := add_lt_add_of_le_of_lt hround h
      _ = 1 := by norm_num
  have hzero : |roundEven q - n| < 1 := by exact_mod_cast hdist
  have := Int.abs_lt_one_iff.mp hzero
  omega

theorem roundEven_intCast (n : ℤ) : roundEven (n : ℚ) = n := roundEven_eq_of_near (by simp)

/-- **Rounding moves a number by half of its last place** at most. -/
theorem abs_roundFinite_sub_le (q : ℚ) : |roundFinite q - q| ≤ 2 ^ (lastPlace q - 1) := by
  have hpos : (0 : ℚ) < 2 ^ lastPlace q := zpow_pos (by norm_num) _
  have herr := abs_roundEven_sub_le (q / 2 ^ lastPlace q)
  have hscaled : roundFinite q - q = (roundEven (q / 2 ^ lastPlace q) - q / 2 ^ lastPlace q) * 2 ^ lastPlace q := by
    rw [roundFinite, sub_mul, div_mul_cancel₀ _ hpos.ne']
  rw [hscaled, abs_mul, abs_of_pos hpos, zpow_sub_one₀ (by norm_num)]
  calc |(roundEven (q / 2 ^ lastPlace q) : ℚ) - q / 2 ^ lastPlace q| * 2 ^ lastPlace q
      ≤ 1 / 2 * 2 ^ lastPlace q := by gcongr
    _ = 2 ^ lastPlace q * 2⁻¹ := by ring

/-- Of a normal number, by a fixed part of its magnitude. -/
theorem abs_roundFinite_sub_le_mul {q : ℚ} (h : (2 : ℚ) ^ (-1022 : ℤ) ≤ |q|) :
    |roundFinite q - q| ≤ |q| * 2 ^ (-53 : ℤ) := by
  have hpos : 0 < |q| := lt_of_lt_of_le (by positivity) h
  have hlog : -1022 ≤ Int.log 2 |q| := (Int.zpow_le_iff_le_log (by norm_num) hpos).mp h
  have hlast : lastPlace q - 1 = Int.log 2 |q| + -53 := by
    rw [lastPlace, max_eq_left hlog]
    ring
  have hpow : (2 : ℚ) ^ Int.log 2 |q| ≤ |q| := Int.zpow_log_le_self (by norm_num) hpos
  calc |roundFinite q - q| ≤ 2 ^ (lastPlace q - 1) := abs_roundFinite_sub_le q
    _ = 2 ^ Int.log 2 |q| * 2 ^ (-53 : ℤ) := by rw [hlast, zpow_add₀ (by norm_num)]
    _ ≤ |q| * 2 ^ (-53 : ℤ) := by gcongr

/-- **A multiple of its last place is not moved.** -/
theorem roundFinite_eq_self {q : ℚ} (n : ℤ) (hq : q = n * 2 ^ lastPlace q) : roundFinite q = q := by
  have hpos : (0 : ℚ) < 2 ^ lastPlace q := zpow_pos (by norm_num) _
  have hscaled : q / 2 ^ lastPlace q = n := by rw [div_eq_iff hpos.ne', ← hq]
  rw [roundFinite, hscaled, roundEven_intCast, ← hq]

theorem lastPlace_nonpos {q : ℚ} (h : |q| < 2 ^ 53) : lastPlace q ≤ 0 := by
  have hlog : Int.log 2 |q| < 53 := by
    by_cases hq : q = 0
    · simp [hq]
    · refine (Int.lt_zpow_iff_log_lt (by norm_num) (abs_pos.mpr hq)).mp (lt_of_lt_of_eq h ?_)
      norm_num
  rw [lastPlace]
  omega

theorem roundFinite_intCast {n : ℤ} (h : |n| < 2 ^ 53) : roundFinite (n : ℚ) = n := by
  have hlast : lastPlace (n : ℚ) ≤ 0 := lastPlace_nonpos (by exact_mod_cast h)
  obtain ⟨k, hk⟩ := Int.eq_ofNat_of_zero_le (Int.neg_nonneg_of_nonpos hlast)
  refine roundFinite_eq_self (n * 2 ^ k) ?_
  have hlast' : lastPlace (n : ℚ) = -(k : ℤ) := by omega
  rw [hlast', zpow_neg, zpow_natCast]
  push_cast
  rw [mul_assoc, mul_inv_cancel₀ (by positivity), mul_one]

theorem ofRat_eq_finite {q : ℚ} (h : |q| < overflowThreshold) : ofRat q = .finite (roundFinite q) := by
  rw [ofRat, if_neg (not_le.mpr h)]

theorem ofRat_intCast {n : ℤ} (h : |n| < 2 ^ 53) : ofRat (n : ℚ) = .finite n := by
  have hsmall : |(n : ℚ)| < overflowThreshold := by
    calc |(n : ℚ)| < 2 ^ 53 := by exact_mod_cast h
      _ < overflowThreshold := by decide +kernel
  rw [ofRat_eq_finite hsmall, roundFinite_intCast h]

end TCPClientServer.Basis.Double
