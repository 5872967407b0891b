import TCPClientServer.Basis.Significant
import TCPClientServer.Basis.Stream

/-!
# Integers as doubles

An integer that has no more digits than the precision is written like an integer.

* `render_formatReal_intCast` : what is written for it.
-/

namespace TCPClientServer.Basis
open Double

variable {p : Nat} {n : ℤ}

theorem numeralDigits_mul_pow {k : Nat} (hk : k ≠ 0) (j : Nat) :
    numeralDigits 10 (k * 10 ^ j) = numeralDigits 10 k ++ List.replicate j 0 := by
  have hne : k * 10 ^ j ≠ 0 := by positivity
  rw [numeralDigits, if_neg hne, numeralDigits, if_neg hk, Nat.mul_comm,
    Nat.digits_base_pow_mul (by decide) (Nat.pos_of_ne_zero hk), List.reverse_append, List.reverse_replicate]

theorem stripZeros_replicate (j : Nat) : stripZeros (List.replicate j 0) = [] := by
  rw [stripZeros, List.rdropWhile_eq_nil_iff]
  intro d hd
  simp [List.eq_of_mem_replicate hd]

theorem leadingDigits_natCast {k L : Nat} (hlow : 10 ^ L ≤ k) (hhigh : k < 10 ^ (L + 1)) (hp : L + 1 ≤ p) :
    leadingDigits p (k : ℚ) = (k * 10 ^ (p - (L + 1)), (L : ℤ)) := by
  have hexact : significant p (k * 10 ^ (p - (L + 1))) L = k := by
    have hexp : (L : ℤ) + 1 - p = -((p - (L + 1) : Nat) : ℤ) := by omega
    rw [significant, hexp, zpow_neg, zpow_natCast]
    push_cast
    rw [mul_assoc, mul_inv_cancel₀ (by positivity), mul_one]
  have hk : 0 < k := lt_of_lt_of_le (by positivity) hlow
  refine leadingDigits_near (by omega) ?_ ?_ ?_
  · calc 10 ^ (p - 1) = 10 ^ L * 10 ^ (p - (L + 1)) := by rw [← pow_add]; congr 1; omega
      _ ≤ k * 10 ^ (p - (L + 1)) := by gcongr
  · calc k * 10 ^ (p - (L + 1)) < 10 ^ (L + 1) * 10 ^ (p - (L + 1)) := by gcongr
      _ = 10 ^ p := by rw [← pow_add]; congr 1; omega
  · rw [hexact, sub_self, abs_zero, zero_mul]
    exact_mod_cast hk

/-- A positive number lies between powers of ten. -/
theorem exists_length {k : Nat} (hk : k ≠ 0) (h : k < 10 ^ p) :
    ∃ L, L + 1 ≤ p ∧ 10 ^ L ≤ k ∧ k < 10 ^ (L + 1) ∧ (numeralDigits 10 k).length = L + 1 := by
  have hlow := Nat.pow_log_le_self 10 hk
  have hhigh := Nat.lt_pow_succ_log_self (by decide : 1 < 10) k
  refine ⟨Nat.log 10 k, ?_, hlow, hhigh, length_numeralDigits_eq (by omega) hlow hhigh⟩
  exact Nat.succ_le_of_lt ((Nat.pow_lt_pow_iff_right (by decide)).mp (hlow.trans_lt h))

/-- **An integer is written like one**, if it has no more digits than the precision. -/
theorem formatReal_intCast (h : n.natAbs < 10 ^ p) :
    formatReal p (n : ℚ) = ⟨decide (n < 0), numeralDigits 10 n.natAbs, [], none⟩ := by
  by_cases hn : n = 0
  · subst hn
    simp [formatReal, numeralDigits]
  obtain ⟨L, hL, hlow, hhigh, hlen⟩ := exists_length (Int.natAbs_ne_zero.mpr hn) h
  have habs : |(n : ℚ)| = (n.natAbs : ℚ) := by
    rw [← Int.cast_abs, Int.abs_eq_natAbs, Int.cast_natCast]
  unfold formatReal
  rw [if_neg (by exact_mod_cast hn), habs, leadingDigits_natCast hlow hhigh hL]
  dsimp only
  rw [if_neg (by omega), if_neg (by omega), numeralDigits_mul_pow (Int.natAbs_ne_zero.mpr hn), Int.toNat_natCast,
    ← hlen, List.take_left, List.drop_left, stripZeros_replicate]
  simp

theorem render_formatReal_intCast (h : n.natAbs < 10 ^ p) : (formatReal p (n : ℚ)).render = formatInt n := by
  rw [formatReal_intCast h]
  simp [RealNumeral.render, RealNumeral.renderFraction, RealNumeral.renderExponent, formatInt, numeral]

theorem toRat_formatReal_intCast (h : n.natAbs < 10 ^ p) : (formatReal p (n : ℚ)).toRat = n := by
  rw [formatReal_intCast h]
  simp only [RealNumeral.toRat, RealNumeral.magnitude, RealNumeral.exponentValue, List.append_nil, value_numeralDigits,
    List.length_nil, Nat.cast_zero, sub_zero, zpow_zero, mul_one, decide_eq_true_eq]
  split
  · rw [← Int.cast_natCast, ← Int.cast_neg]
    congr 1
    omega
  · rw [← Int.cast_natCast]
    congr 1
    omega

end TCPClientServer.Basis
