import Mathlib.Analysis.SpecialFunctions.Trigonometric.Arctan
import Mathlib.Analysis.SpecialFunctions.Pow.Real
import DualOpt.Proofs.Exact.Scalar

/-!
The elementary functions of the real numbers.
-/
namespace DualOpt

noncomputable instance : Elementary ℝ where
  toScalar := inferInstance
  exp := Real.exp
  log := Real.log
  log1p x := Real.log (1 + x)
  sin := Real.sin
  cos := Real.cos
  tan := Real.tan
  atan := Real.arctan
  tanh := Real.tanh
  pow x y := x ^ y
  hypot x y := √(x ^ 2 + y ^ 2)

namespace Scalar

private theorem mul_pow_digit (r a : ℝ) (n : ℕ) :
    (if n % 2 = 1 then r * a else r) = r * a ^ (n % 2) := by
  rcases Nat.mod_two_eq_zero_or_one n with even | odd
  · simp [even]
  · simp [odd]

/-- Each binary digit of the exponent takes its part of the power. -/
theorem powNat_real (r a : ℝ) (n : ℕ) : powNat r a n = r * a ^ n := by
  induction r, a, n using powNat.induct with
  | case1 r a n last =>
    have single : n % 2 = n := by omega
    rw [powNat, if_pos last, mul_pow_digit, single]
  | case2 r a n next more ih =>
    calc powNat r a n = next * (a * a) ^ (n / 2) := by rw [powNat, if_neg more]; exact ih
      _ = r * a ^ (n % 2) * (a * a) ^ (n / 2) := by rw [← mul_pow_digit]; rfl
      _ = r * a ^ (n % 2 + 2 * (n / 2)) := by rw [pow_add, pow_mul, sq, mul_assoc]
      _ = r * a ^ n := by rw [Nat.mod_add_div]

theorem powInt_real (a : ℝ) (n : ℤ) : powInt a n = a ^ n := by
  rw [powInt, powNat_real, one_mul]
  cases n with
  | ofNat n => simp
  | negSucc n => simp [zpow_negSucc]

end Scalar
end DualOpt
