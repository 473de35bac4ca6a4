import Mathlib
import DualOpt.Proofs.UnitProduct
import DualOpt.Proofs.Forward.Powers

/-!
Real powers with a whole constant exponent beside integer powers.

At a base that is not zero both are the same in exact arithmetic. At a zero base the derivative of
the real power is the value times a quotient by the base, which nothing makes finite, while the
integer power takes its slope from the next lower power.
-/
namespace DualOpt

section Zero
variable {F : Type} [Scalar F] [PowerRules F]

/-- The digit of the exponent that comes last multiplies by a zero, and every other digit leaves the
product finite. -/
theorem Scalar.powNat_zero_base {r a : F} {n : ℕ} (finite : isFinite r = true)
    (zero : (a == 0) = true) (positive : 1 ≤ n) : (powNat r a n == 0) = true := by
  induction r, a, n using powNat.induct with
  | case1 r a n last =>
    have odd : n % 2 = 1 := by omega
    rw [powNat, if_pos last, if_pos odd]
    exact ZeroRules.finite_mul finite zero
  | case2 r a n next more ih =>
    have kept : isFinite next = true := by
      by_cases odd : n % 2 = 1
      · rw [show next = r * a from if_pos odd]
        exact PowerRules.isFinite_of_zero (ZeroRules.finite_mul finite zero)
      · rw [show next = r from if_neg odd]
        exact finite
    have square := ZeroRules.mul zero (PowerRules.isFinite_of_zero zero)
    rw [powNat, if_neg more]
    exact ih kept square (by omega)

theorem Scalar.powInt_zero_base {a : F} {n : ℤ} (zero : (a == 0) = true) (positive : 1 ≤ n) :
    (powInt a n == 0) = true := by
  have nonneg : ¬ n < 0 := by omega
  rw [powInt, if_neg nonneg]
  exact powNat_zero_base ZeroRules.isFinite_one zero (by omega)

namespace Dual
variable {d : Dual F} {n : ℤ}

theorem primal_powInt_of_zero (zero : (d.primal == 0) = true) (positive : 1 ≤ n) :
    ((d.powInt n).primal == 0) = true := by
  have nonzero : n ≠ 0 := by omega
  rw [powInt, if_neg nonzero]
  exact Scalar.powInt_zero_base zero positive

/-- From the second power on the slope at zero is a power of zero too. -/
theorem tangent_powInt_of_zero (zero : (d.primal == 0) = true)
    (finite : Scalar.isFinite d.tangent = true) (exponent : Scalar.isFinite (n : F) = true)
    (two : 2 ≤ n) : ((d.powInt n).tangent == 0) = true := by
  have nonzero : n ≠ 0 := by omega
  rw [powInt, if_neg nonzero, powIntSlope, exponentBelow_of_nonneg (by omega)]
  exact ZeroRules.finite_mul finite
    (ZeroRules.finite_mul exponent (Scalar.powInt_zero_base zero (by omega)))

/-- The first power has the slope one at every base. -/
theorem tangent_powInt_one (d : Dual F) (one : ((1 : ℤ) : F) = 1) :
    (d.powInt 1).tangent = d.tangent := by
  have power : Scalar.powInt d.primal (exponentBelow 1) = 1 := by
    rw [exponentBelow_of_nonneg zero_le_one]
    simp [Scalar.powInt, Scalar.powNat]
  rw [powInt, if_neg one_ne_zero, powIntSlope, power, one]
  show d.tangent * (1 * 1) = d.tangent
  rw [PowerRules.mul_one, PowerRules.mul_one]

end Dual
end Zero

namespace Dual
variable {F : Type} [Elementary F] [PowerRules F] {d : Dual F}

/-- The slope of a real power divides by its base before the value could make it vanish. -/
theorem not_isFinite_slope (zero : (d.primal == 0) = true) (n : Dual F) (part : F) :
    Scalar.isFinite (n.primal * d.tangent / d.primal + part) = false := by
  refine Bool.eq_false_iff.mpr fun finite => ?_
  have quotient := PowerRules.isFinite_of_add part finite
  rw [PowerRules.not_isFinite_div _ zero] at quotient
  cases quotient

theorem not_isFinite_tangent_pow (zero : (d.primal == 0) = true) (n : Dual F) :
    Scalar.isFinite (d.pow n).tangent = false := by
  refine Bool.eq_false_iff.mpr fun finite => ?_
  have slope := (ZeroRules.isFinite_of_mul finite).2
  rw [not_isFinite_slope zero n] at slope
  cases slope

theorem isNaN_tangent_pow (zero : (d.primal == 0) = true) (n : Dual F)
    (vanishes : ((d.pow n).primal == 0) = true) : Scalar.isNaN (d.pow n).tangent = true :=
  ZeroRules.isNaN_mul vanishes (not_isFinite_slope zero n _)

omit [Elementary F] [PowerRules F] in
/-- A real power with a positive whole constant for its exponent is the integer power wherever the
base is not zero, in exact arithmetic. At a zero base its derivative is never finite, and not a
number where its value is zero, while the integer power is zero there and has the derivative of the
first or of a higher power. -/
theorem pow_constant_powInt {n : ℤ} (positive : 1 ≤ n) :
    (∀ d : Dual ℝ, d.primal ≠ 0 → d.pow (constant (n : ℝ)) = d.powInt n ∧
      d.powInt n = ⟨d.primal ^ n, n * d.primal ^ (n - 1) * d.tangent⟩) ∧
    ∀ (F : Type) [Elementary F] [PowerRules F] (d : Dual F), (d.primal == 0) = true →
      Scalar.isFinite d.tangent = true → Scalar.isFinite (n : F) = true →
        Scalar.isFinite (d.pow (constant (n : F))).tangent = false ∧
          (((d.pow (constant (n : F))).primal == 0) = true →
            Scalar.isNaN (d.pow (constant (n : F))).tangent = true) ∧
          ((d.powInt n).primal == 0) = true ∧
          (n = 1 → ((1 : ℤ) : F) = 1 → (d.powInt n).tangent = d.tangent) ∧
          (2 ≤ n → ((d.powInt n).tangent == 0) = true) := by
  constructor
  · intro d nonzero
    have below := exponentBelow_of_nonneg (zero_le_one.trans positive)
    exact ⟨pow_constant d nonzero below, powInt_eq d below⟩
  · intro F _ _ d zero finite exponent
    refine ⟨not_isFinite_tangent_pow zero _, isNaN_tangent_pow zero _,
      primal_powInt_of_zero zero positive, ?_, tangent_powInt_of_zero zero finite exponent⟩
    rintro rfl one
    exact tangent_powInt_one d one

/-- The square at minus one, and the first and the second power at zero in double precision. -/
theorem pow_constant_powInt_zero :
    (⟨-1, 1⟩ : Dual ℝ).pow (constant ((2 : ℤ) : ℝ)) = (⟨-1, 1⟩ : Dual ℝ).powInt 2 ∧
      Scalar.isFinite ((⟨0, 1⟩ : Dual Float).pow (constant ((1 : ℤ) : Float))).tangent = false ∧
      ((⟨0, 1⟩ : Dual Float).powInt 1).tangent = 1 ∧
      (((⟨0, 1⟩ : Dual Float).powInt 2).tangent == 0) = true := by
  have nonzero : (⟨-1, 1⟩ : Dual ℝ).primal ≠ 0 := neg_ne_zero.mpr one_ne_zero
  obtain ⟨-, at_zero⟩ := pow_constant_powInt le_rfl
  obtain ⟨square, at_zero'⟩ := pow_constant_powInt one_le_two
  obtain ⟨unbounded, -, -, first, -⟩ := at_zero Float ⟨0, 1⟩ rfl (by decide) (by decide +kernel)
  obtain ⟨-, -, -, -, second⟩ := at_zero' Float ⟨0, 1⟩ rfl (by decide) (by decide +kernel)
  exact ⟨(square ⟨-1, 1⟩ nonzero).1, unbounded, first rfl (by decide +kernel), second (by decide)⟩

/-- At zero the first power of a variable has the derivative one as an integer power, and none that
is finite as a real power. -/
theorem unbounded_pow_at_zero :
    ((⟨0, 1⟩ : Dual Float).powInt 1).tangent = 1 ∧
      Scalar.isFinite ((⟨0, 1⟩ : Dual Float).pow (constant ((1 : ℤ) : Float))).tangent = false :=
  ⟨tangent_powInt_one ⟨0, 1⟩ (by decide +kernel), not_isFinite_tangent_pow rfl _⟩

end Dual
end DualOpt
