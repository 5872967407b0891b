import Mathlib.Data.Int.Log
import Mathlib.Data.Rat.Floor
import Mathlib.Algebra.Order.Field.Power
import Mathlib.Tactic.Linarith
import Mathlib.Tactic.NormNum
import Mathlib.Tactic.Ring

/-!
# Doubles as rationals

A `double` is a rational or one of the three non-finite values; the two zeros are not told apart.
Arithmetic is exact arithmetic followed by one rounding, to nearest with ties to even, and a result
whose magnitude is `overflowThreshold` or more is an infinity.

* `isFinite_ofRat` : a rational rounds to a finite value exactly when it is below the threshold;
* `Representable.inRange` : a finite value is zero or has a magnitude from `2 ^ (-1074)` to below `2 ^ 1024`;
* `isFinite_add`, `isFinite_sub`, `isFinite_mul`, `isFinite_div` : when an operation on finite operands
  has a finite result.
-/

namespace TCPClientServer.Basis

inductive Double where
  | finite (q : ℚ)
  | posInf
  | negInf
  | nan
deriving DecidableEq

namespace Double

def isFinite : Double → Bool
  | finite _ => true
  | _ => false

/-! ## Rounding -/

/-- The nearest integer, the even one of two equally near. -/
def roundEven (q : ℚ) : ℤ := if Int.fract q = 1 / 2 ∧ ⌊q⌋ % 2 = 0 then ⌊q⌋ else ⌊q + 1 / 2⌋

/-- The exponent of the last place of a 53-bit significand at `q`, gradual underflow included. -/
def lastPlace (q : ℚ) : ℤ := max (Int.log 2 |q|) (-1022) - 52

def roundFinite (q : ℚ) : ℚ := roundEven (q / 2 ^ lastPlace q) * 2 ^ lastPlace q

/-- The midpoint above the greatest finite value: from here on a result rounds to infinity. -/
def overflowThreshold : ℚ := 2 ^ 1024 - 2 ^ 970

def infinity (negative : Bool) : Double := if negative then negInf else posInf

/-- The double a real result is rounded to. -/
def ofRat (q : ℚ) : Double :=
  if overflowThreshold ≤ |q| then infinity (decide (q < 0)) else finite (roundFinite q)

@[simp] theorem isFinite_finite (q : ℚ) : (finite q).isFinite = true := rfl

@[simp] theorem isFinite_infinity (negative : Bool) : (infinity negative).isFinite = false := by
  cases negative <;> rfl

theorem isFinite_ofRat (q : ℚ) : (ofRat q).isFinite = true ↔ |q| < overflowThreshold := by
  unfold ofRat
  split
  · rename_i h
    simpa using h
  · rename_i h
    simpa using h

/-! ### The range of the finite values -/

def InRange (q : ℚ) : Prop := (2 : ℚ) ^ (-1074 : ℤ) ≤ |q| ∧ |q| < 2 ^ 1024

theorem abs_roundEven_sub_le (q : ℚ) : |roundEven q - q| ≤ 1 / 2 := by
  have hfloor := Int.self_sub_floor q
  rw [abs_le]
  unfold roundEven
  split
  · rename_i h
    rw [h.1] at hfloor
    constructor <;> linarith
  · have hle := Int.floor_le (q + 1 / 2)
    have hlt := Int.lt_floor_add_one (q + 1 / 2)
    constructor <;> linarith

theorem two_zpow_lastPlace_le (q : ℚ) : (2 : ℚ) ^ (-1074 : ℤ) ≤ 2 ^ lastPlace q :=
  zpow_le_zpow_right₀ (by norm_num) (by rw [lastPlace]; omega)

theorem abs_roundFinite (q : ℚ) : |roundFinite q| = |(roundEven (q / 2 ^ lastPlace q) : ℚ)| * 2 ^ lastPlace q := by
  rw [roundFinite, abs_mul, abs_of_pos (zpow_pos (by norm_num : (0 : ℚ) < 2) _)]

/-- Rounding moves a number by half of its last place at most. -/
theorem abs_roundFinite_le (q : ℚ) : |roundFinite q| ≤ |q| + 2 ^ (lastPlace q - 1) := by
  have hpos : (0 : ℚ) < 2 ^ lastPlace q := zpow_pos (by norm_num) _
  have hround := abs_sub_abs_le_abs_sub (roundEven (q / 2 ^ lastPlace q) : ℚ) (q / 2 ^ lastPlace q)
  have herr := abs_roundEven_sub_le (q / 2 ^ lastPlace q)
  have habs : |q / 2 ^ lastPlace q| * 2 ^ lastPlace q = |q| := by
    rw [abs_div, abs_of_pos hpos, div_mul_cancel₀ _ hpos.ne']
  have hhalf : (2 : ℚ) ^ (lastPlace q - 1) = 1 / 2 * 2 ^ lastPlace q := by
    rw [zpow_sub_one₀ (by norm_num)]
    ring
  rw [abs_roundFinite, hhalf]
  calc |(roundEven (q / 2 ^ lastPlace q) : ℚ)| * 2 ^ lastPlace q
      ≤ (|q / 2 ^ lastPlace q| + 1 / 2) * 2 ^ lastPlace q := by gcongr; linarith
    _ = |q| + 1 / 2 * 2 ^ lastPlace q := by rw [add_mul, habs]

theorem lastPlace_le {q : ℚ} (h : |q| < 2 ^ 1024) : lastPlace q ≤ 971 := by
  have hlog : Int.log 2 |q| < 1024 := by
    by_cases hq : q = 0
    · simp [hq]
    · refine (Int.lt_zpow_iff_log_lt (by norm_num) (abs_pos.mpr hq)).mp (lt_of_lt_of_eq h ?_)
      decide +kernel
  rw [lastPlace]
  omega

theorem abs_roundFinite_lt {q : ℚ} (h : |q| < overflowThreshold) : |roundFinite q| < 2 ^ 1024 := by
  have hq : lastPlace q ≤ 971 := lastPlace_le (h.trans (by decide +kernel))
  have hlast : (2 : ℚ) ^ (lastPlace q - 1) ≤ 2 ^ (970 : ℤ) := zpow_le_zpow_right₀ (by norm_num) (by omega)
  have hthreshold : overflowThreshold + 2 ^ (970 : ℤ) = 2 ^ 1024 := by decide +kernel
  calc |roundFinite q| ≤ |q| + 2 ^ (lastPlace q - 1) := abs_roundFinite_le q
    _ < overflowThreshold + 2 ^ (970 : ℤ) := add_lt_add_of_lt_of_le h hlast
    _ = 2 ^ 1024 := hthreshold

theorem le_abs_roundFinite (q : ℚ) : roundFinite q = 0 ∨ (2 : ℚ) ^ (-1074 : ℤ) ≤ |roundFinite q| := by
  by_cases hm : roundEven (q / 2 ^ lastPlace q) = 0
  · left
    simp [roundFinite, hm]
  · right
    have hone : (1 : ℚ) ≤ |(roundEven (q / 2 ^ lastPlace q) : ℚ)| := by
      exact_mod_cast Int.one_le_abs hm
    rw [abs_roundFinite]
    exact (two_zpow_lastPlace_le q).trans (le_mul_of_one_le_left (zpow_pos (by norm_num) _).le hone)

def Representable (q : ℚ) : Prop := ∃ r, ofRat r = finite q

/-- What a `double` can hold: a finite value is representable. -/
def Proper : Double → Prop
  | finite q => Representable q
  | _ => True

theorem proper_of_not_isFinite {x : Double} (h : x.isFinite = false) : x.Proper := by
  cases x with
  | finite q => cases h
  | posInf => trivial
  | negInf => trivial
  | nan => trivial

theorem proper_ofRat (q : ℚ) : (ofRat q).Proper := by
  cases h : ofRat q with
  | finite r => exact ⟨q, h⟩
  | posInf => trivial
  | negInf => trivial
  | nan => trivial

theorem proper_infinity (negative : Bool) : (infinity negative).Proper :=
  proper_of_not_isFinite (isFinite_infinity negative)

theorem proper_zero : (finite 0).Proper := ⟨0, by decide +kernel⟩

/-- **A finite value is zero or in the range.** -/
theorem Representable.inRange {q : ℚ} (h : Representable q) : q = 0 ∨ InRange q := by
  obtain ⟨r, h⟩ := h
  have hfin := (isFinite_ofRat r).mp (by rw [h]; rfl)
  rw [ofRat, if_neg (not_le.mpr hfin)] at h
  cases h
  exact (le_abs_roundFinite r).imp_right fun hle => ⟨hle, abs_roundFinite_lt hfin⟩

/-! ## Arithmetic -/

def isNeg : Double → Bool
  | finite q => decide (q < 0)
  | negInf => true
  | _ => false

def neg : Double → Double
  | finite q => finite (-q)
  | posInf => negInf
  | negInf => posInf
  | nan => nan

def add : Double → Double → Double
  | nan, _ | _, nan => nan
  | finite p, finite q => ofRat (p + q)
  | finite _, y => y
  | x, finite _ => x
  | x, y => if x = y then x else nan

def sub (x y : Double) : Double := add x (neg y)

def mul : Double → Double → Double
  | nan, _ | _, nan => nan
  | finite p, finite q => ofRat (p * q)
  | x, y => if x = finite 0 ∨ y = finite 0 then nan else infinity (x.isNeg != y.isNeg)

/-- `x / y`, the zero of a divisor taken as the positive one. -/
def div : Double → Double → Double
  | nan, _ | _, nan => nan
  | finite p, finite q =>
    if q = 0 then if p = 0 then nan else infinity (decide (p < 0)) else ofRat (p / q)
  | finite _, _ => finite 0
  | x, finite q => infinity (x.isNeg != decide (q < 0))
  | _, _ => nan

/-! ### The results are proper -/

theorem proper_add (x y : Double) : (add x y).Proper := by
  cases x <;> cases y <;> first | exact proper_ofRat _ | exact proper_of_not_isFinite (by simp [add, isFinite])

theorem proper_sub (x y : Double) : (sub x y).Proper := proper_add x (neg y)

theorem proper_mul (x y : Double) : (mul x y).Proper := by
  cases x <;> cases y <;> simp only [mul] <;> first
    | exact proper_ofRat _
    | trivial
    | (split <;> first | trivial | exact proper_infinity _)

theorem proper_div (x y : Double) : (div x y).Proper := by
  cases x <;> cases y <;> simp only [div] <;> first
    | trivial
    | exact proper_zero
    | exact proper_infinity _
    | skip
  split
  · split
    · trivial
    · exact proper_infinity _
  · exact proper_ofRat _

/-! ### When the results are finite -/

theorem isFinite_add (p q : ℚ) : (add (finite p) (finite q)).isFinite = true ↔ |p + q| < overflowThreshold :=
  isFinite_ofRat _

theorem isFinite_sub (p q : ℚ) : (sub (finite p) (finite q)).isFinite = true ↔ |p - q| < overflowThreshold := by
  rw [sub_eq_add_neg]
  exact isFinite_ofRat _

theorem isFinite_mul (p q : ℚ) : (mul (finite p) (finite q)).isFinite = true ↔ |p * q| < overflowThreshold :=
  isFinite_ofRat _

/-- **A quotient of finite operands is finite** when the divisor is no zero and the quotient does not
overflow. -/
theorem isFinite_div (p q : ℚ) :
    (div (finite p) (finite q)).isFinite = true ↔ q ≠ 0 ∧ |p / q| < overflowThreshold := by
  by_cases hq : q = 0
  · have hdiv : (div (finite p) (finite q)).isFinite = false := by
      simp only [div, hq, if_true]
      split
      · rfl
      · exact isFinite_infinity _
    rw [hdiv]
    simp [hq]
  · simp [div, hq, isFinite_ofRat]

example : add (finite (1 / 2)) (finite (1 / 4)) = finite (3 / 4) := by decide +kernel

end Double

end TCPClientServer.Basis
