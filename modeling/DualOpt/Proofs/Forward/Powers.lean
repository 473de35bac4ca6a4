import DualOpt.Dual.Elementary
import DualOpt.Proofs.Exact.Elementary

/-!
Integer powers of dual numbers in exact arithmetic.

A power that is computed by repeated squaring, with the closed form of its derivative, is the
product of as many equal factors or the reciprocal of such a product. Where the base is not zero, a
real power with a whole constant for its exponent is the same power.
-/
namespace DualOpt.Dual

/-- The product `d * d * … * d` of `n` factors; without factors it is the constant one. -/
def power {F : Type} [Scalar F] (d : Dual F) : ℕ → Dual F
  | 0 => constant 1
  | 1 => d
  | n + 2 => d.power (n + 1) * d

/-- The product rule, applied once for each further factor. -/
theorem power_eq (d : Dual ℝ) (n : ℕ) :
    d.power n = ⟨d.primal ^ n, n * d.primal ^ (n - 1) * d.tangent⟩ := by
  induction n using Nat.twoStepInduction with
  | zero => simp [power, constant]
  | one => simp [power]
  | more n _ ih =>
    have product : d.power (n + 2) = ⟨d.primal ^ (n + 1) * d.primal,
        d.primal ^ (n + 1) * d.tangent + (n + 1 : ℕ) * d.primal ^ n * d.tangent * d.primal⟩ := by
      rw [power, ih]
      rfl
    rw [product, mk.injEq, ← pow_succ, Nat.add_succ_sub_one]
    refine ⟨rfl, ?_⟩
    push_cast
    ring

/-- The closed form holds at a zero base too. -/
theorem powInt_eq (d : Dual ℝ) {n : ℤ} (below : exponentBelow n = n - 1) :
    d.powInt n = ⟨d.primal ^ n, n * d.primal ^ (n - 1) * d.tangent⟩ := by
  by_cases zero : n = 0
  · simp [powInt, zero, constant]
  · rw [powInt, if_neg zero, powIntSlope, Scalar.powInt_real, Scalar.powInt_real, below, chain,
      mk.injEq]
    exact ⟨rfl, mul_comm _ _⟩

/-- The reciprocals of the products continue the closed form to negative exponents. -/
theorem recip_power (d : Dual ℝ) (nonzero : d.primal ≠ 0) (n : ℕ) :
    (d.power n).recip =
      ⟨d.primal ^ (-n : ℤ), (-n : ℤ) * d.primal ^ (-n - 1 : ℤ) * d.tangent⟩ := by
  have inverse : 1 / d.primal ^ n = d.primal ^ (-n : ℤ) := by
    rw [zpow_neg, zpow_natCast, one_div]
  rw [power_eq, recip, chain, mk.injEq, inverse]
  refine ⟨rfl, ?_⟩
  cases n with
  | zero => simp
  | succ n =>
    have shift : d.primal ^ n * d.primal ^ (-(n + 1 : ℕ) : ℤ) * d.primal ^ (-(n + 1 : ℕ) : ℤ) =
        d.primal ^ (-(n + 1 : ℕ) - 1 : ℤ) := by
      rw [← zpow_natCast, ← zpow_add₀ nonzero, ← zpow_add₀ nonzero]
      congr 1
      push_cast
      ring
    rw [← shift, Nat.add_sub_cancel]
    push_cast
    ring

/-- A power with an exponent that is not negative is the product of its factors, whatever the base;
with a negative one other than the least, and a base that is not zero, it is the reciprocal of that
product. -/
theorem powInt_eq_power (d : Dual ℝ) {n : ℤ} (above : n ≠ Int32.minValue.toInt) :
    (0 ≤ n → d.powInt n = d.power n.toNat) ∧
      (n < 0 → d.primal ≠ 0 → d.powInt n = (d.power (-n).toNat).recip) := by
  have closed := powInt_eq d (exponentBelow_of_ne above)
  constructor
  · intro nonneg
    obtain ⟨k, rfl⟩ := Int.eq_ofNat_of_zero_le nonneg
    rw [closed, Int.toNat_natCast, power_eq, zpow_natCast, Int.cast_natCast]
    cases k with
    | zero => simp
    | succ k =>
      have predecessor : ((k + 1 : ℕ) : ℤ) - 1 = k := by omega
      rw [predecessor, zpow_natCast, Nat.add_sub_cancel]
  · intro negative nonzero
    obtain ⟨k, hk⟩ := Int.eq_ofNat_of_zero_le (neg_nonneg.mpr negative.le)
    obtain rfl : n = -k := by rw [← hk, neg_neg]
    rw [closed, neg_neg, Int.toNat_natCast, recip_power d nonzero]

/-- The cube and its reciprocal at a negative base, and the first power at zero. -/
theorem powInt_eq_power_cube :
    (⟨-1, 1⟩ : Dual ℝ).powInt 3 = (⟨-1, 1⟩ : Dual ℝ).power 3 ∧
      (⟨-1, 1⟩ : Dual ℝ).powInt (-3) = ((⟨-1, 1⟩ : Dual ℝ).power 3).recip ∧
      (⟨0, 1⟩ : Dual ℝ).powInt 1 = ⟨0, 1⟩ := by
  have nonzero : (⟨-1, 1⟩ : Dual ℝ).primal ≠ 0 := neg_ne_zero.mpr one_ne_zero
  exact ⟨(powInt_eq_power ⟨-1, 1⟩ (by decide)).1 (by decide),
    (powInt_eq_power ⟨-1, 1⟩ (by decide)).2 (by decide) nonzero,
    (powInt_eq_power ⟨0, 1⟩ (by decide)).1 (by decide)⟩

/-- At a base that is not zero, a real power with a whole constant for its exponent is the integer
power. -/
theorem pow_constant (d : Dual ℝ) (nonzero : d.primal ≠ 0) {n : ℤ}
    (below : exponentBelow n = n - 1) :
    d.pow (constant (n : ℝ)) = d.powInt n := by
  have value : Elementary.pow d.primal (n : ℝ) = d.primal ^ n := Real.rpow_intCast d.primal n
  have still : ((0 : ℝ) == 0) = true := beq_self_eq_true 0
  rw [powInt_eq d below, pow, constant, value, mk.injEq]
  refine ⟨rfl, ?_⟩
  dsimp only
  rw [if_pos still, add_zero, zpow_sub_one₀ nonzero]
  ring

end DualOpt.Dual
