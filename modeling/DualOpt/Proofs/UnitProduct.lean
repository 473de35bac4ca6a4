import Mathlib
import DualOpt.Proofs.SignedZero

/-!
Products with one, and what is not finite.

A number of the format is not rounded again: the product with one is the number that one started
from, digit for digit. A zero divisor leaves nothing finite, nor does an infinite or undefined
summand.
-/
namespace DualOpt
open Float.Model UnpackedFloat

section Unpacked
variable {format : Format} {a b : UnpackedFloat}

/-- A zero divisor leaves nothing finite. -/
theorem unpacked_div_zero (format : Format) (a : UnpackedFloat) (s : Sign) :
    (∃ s', UnpackedFloat.div format a (.zero s) = .infinity s') ∨
      UnpackedFloat.div format a (.zero s) = .notANumber := by
  cases a with
  | infinity s' => exact .inl ⟨_, rfl⟩
  | notANumber => exact .inr rfl
  | zero s' => exact .inr rfl
  | finite s' m e _ => exact .inl ⟨_, rfl⟩

theorem unpacked_not_isFinite_add (format : Format) (infinite : a.isFinite = false) :
    (∃ s, UnpackedFloat.add format a b = .infinity s) ∨
      UnpackedFloat.add format a b = .notANumber := by
  cases a with
  | notANumber => exact .inr rfl
  | infinity s =>
    cases b with
    | notANumber => exact .inr rfl
    | infinity s' =>
      by_cases same : (s == s') = true
      · exact .inl ⟨s, if_pos same⟩
      · exact .inr (if_neg same)
    | zero s' => exact .inl ⟨s, rfl⟩
    | finite s' m' e' _ => exact .inl ⟨s, rfl⟩
  | zero s => cases infinite
  | finite s m e _ => cases infinite

theorem log2_mul_two_pow {m : ℕ} (positive : 0 < m) (k : ℕ) :
    (m * 2 ^ k).log2 = m.log2 + k := by
  induction k with
  | zero => rw [pow_zero, mul_one, add_zero]
  | succ k ih =>
    have nonzero : m * 2 ^ k ≠ 0 := (Nat.mul_pos positive (Nat.two_pow_pos k)).ne'
    rw [pow_succ', mul_left_comm, Nat.log2_two_mul nonzero, ih, add_assoc]

/-- A shift that drops only zero digits is exact. -/
theorem shift_exact (m k : ℕ) :
    ExtendedMantissa.ofMantissaAndAccuracy (m * 2 ^ k) .exact >>> k =
      ExtendedMantissa.ofMantissaAndAccuracy m .exact := by
  change k.repeat ExtendedMantissa.shiftRightOne _ = _
  induction k generalizing m with
  | zero => rw [pow_zero, mul_one]; rfl
  | succ k ih =>
    rw [Nat.repeat, pow_succ', ← mul_assoc, ih]
    simp [ExtendedMantissa.shiftRightOne, ExtendedMantissa.ofMantissaAndAccuracy]

/-- The shift to the exponent that the format has for a number takes off zero digits behind a
mantissa that fits. -/
theorem shiftToTargetExponent_exact {m : ℕ} {e : ℤ} (positive : 0 < m)
    (fits : format.targetExponent (totalExponent m e) = e) (k : ℕ) :
    shiftToTargetExponent format (m * 2 ^ k) (e - k) .exact =
      (ExtendedMantissa.ofMantissaAndAccuracy m .exact, e) := by
  have total : totalExponent (m * 2 ^ k) (e - k) = totalExponent m e := by
    rw [totalExponent, totalExponent, log2_mul_two_pow positive]
    omega
  have distance : (e - (e - k)).toNat = k := by omega
  rw [shiftToTargetExponent, total, fits, shiftToExponent, distance, shift_exact, sub_add_cancel]

/-- Rounding leaves a number that fits the format, however many zero digits stand behind its
mantissa. -/
theorem roundWithAccuracy_exact (s : Sign) {m : ℕ} {e : ℤ} (positive : 0 < m)
    (fits : format.targetExponent (totalExponent m e) = e) (k : ℕ) :
    roundWithAccuracy format s (m * 2 ^ k) (e - k) .exact = .finite s m e positive := by
  have again := shiftToTargetExponent_exact positive fits 0
  rw [pow_zero, mul_one, Nat.cast_zero, sub_zero] at again
  have rounded : (ExtendedMantissa.ofMantissaAndAccuracy m .exact).roundedMantissa = m := rfl
  rw [roundWithAccuracy, shiftToTargetExponent_exact positive fits]
  dsimp only
  rw [rounded, again]
  exact dif_neg positive.ne'

/-- The exponent of an unpacked number is the one that the format has for it. -/
theorem targetExponent_of_unpack {x : BitVec format.numBits} {s : Sign} {m : ℕ} {e : ℤ}
    {positive : 0 < m} (h : UnpackedFloat.unpack format x = .finite s m e positive) :
    format.targetExponent (totalExponent m e) = e := by
  have bias := Nat.two_pow_pos (format.exponentBits - 1)
  have powers : (2 : ℤ) ^ (format.exponentBits - 1) = (2 ^ (format.exponentBits - 1) : ℕ) := by
    rw [Nat.cast_pow, Nat.cast_ofNat]
  simp only [Format.targetExponent, totalExponent, Format.minExponent, Format.mantissaBits, powers]
  rw [UnpackedFloat.unpack] at h
  split at h
  · split at h <;> cases h
  · split at h
    · split at h
      · cases h
      · next smallest nonempty =>
        injection h with _ mantissa exponent
        have short : m.log2 < format.mantissaBitsWithoutImplicit :=
          (Nat.log2_lt positive.ne').mpr (mantissa ▸ BitVec.isLt _)
        simp only [smallest, BitVec.toNat_ofNat, Nat.zero_mod, Format.exponentBias] at exponent
        omega
    · next largest smallest =>
      injection h with _ mantissa exponent
      have long : m.log2 = format.mantissaBitsWithoutImplicit := by
        rw [BitVec.toNat_append, ← Nat.shiftLeft_add_eq_or_of_lt (BitVec.isLt _), Nat.shiftLeft_eq,
          BitVec.toNat_ofNat] at mantissa
        have bound := (unpackMantissa x).isLt
        rw [Nat.log2_eq_iff positive.ne', pow_succ]
        omega
      have above : (unpackExponent x).toNat ≠ 0 := by
        rwa [← BitVec.toNat_inj, BitVec.toNat_ofNat, Nat.zero_mod] at smallest
      simp only [Format.exponentBias] at exponent
      omega

/-- One is a power of two that its exponent takes back, and a product with it is not rounded. -/
theorem unpacked_mul_one (fits : ∀ s m e positive, a = .finite s m e positive →
    format.targetExponent (totalExponent m e) = e) (k : ℕ) :
    UnpackedFloat.mul format a (.finite .positive (2 ^ k) (-k) (Nat.two_pow_pos k)) = a := by
  cases a with
  | infinity s => cases s <;> rfl
  | notANumber => rfl
  | zero s => cases s <;> rfl
  | finite s m e positive =>
    have sign : s * .positive = s := by cases s <;> rfl
    rw [UnpackedFloat.mul, sign, ← sub_eq_add_neg]
    exact roundWithAccuracy_exact s positive (fits s m e positive rfl) k

/-- Packed again, a product with one has the digits it started from. -/
theorem pack_mul_one {x : BitVec format.numBits} (valid : format.Valid x)
    (wide : 2 ≤ format.exponentBits) (k : ℕ) :
    UnpackedFloat.pack format (UnpackedFloat.mul format (UnpackedFloat.unpack format x)
      (.finite .positive (2 ^ k) (-k) (Nat.two_pow_pos k))) = x := by
  rw [unpacked_mul_one (fun _ _ _ _ h => targetExponent_of_unpack h) k,
    UnpackedFloat.pack_unpack_of_valid valid wide]

end Unpacked

/-- What a power of zero asks of an arithmetic. -/
class PowerRules (F : Type) [Scalar F] : Prop extends ZeroRules F where
  mul_one (x : F) : x * 1 = x
  isFinite_of_zero {x : F} (zero : (x == 0) = true) : Scalar.isFinite x = true
  isFinite_of_add {x : F} (y : F) (finite : Scalar.isFinite (x + y) = true) :
    Scalar.isFinite x = true
  not_isFinite_div (x : F) {y : F} (zero : (y == 0) = true) : Scalar.isFinite (x / y) = false

/-- The laws that zeros add hold of packed numbers, if one is a unit there. -/
theorem PackedIn.powerRules {F : Type} [Scalar F] [ZeroRules F] {format : Format}
    {unpacked : F → UnpackedFloat} {packed : UnpackedFloat → F}
    (h : PackedIn format unpacked packed) (mul_one : ∀ x : F, x * 1 = x) : PowerRules F where
  mul_one := mul_one
  isFinite_of_zero {x} zero := by
    obtain ⟨s, hs⟩ := h.isZero_iff.mp zero
    rw [h.isFinite, hs]
    rfl
  isFinite_of_add {x} y finite := by
    refine eq_true_of_ne_false fun infinite => ?_
    rw [h.isFinite] at infinite
    rw [h.add, h.not_isFinite_packed (unpacked_not_isFinite_add format infinite)] at finite
    cases finite
  not_isFinite_div x {y} zero := by
    obtain ⟨s, hs⟩ := h.isZero_iff.mp zero
    rw [h.div, hs]
    exact h.not_isFinite_packed (unpacked_div_zero format _ s)

theorem Double.mul_one (x : Float) : x * 1 = x := by
  obtain ⟨⟨bits⟩, valid⟩ := x
  have same := pack_mul_one valid (by decide) 52
  refine congrArg Float.ofModel ?_
  change Float.Model.mk _ _ = _
  congr 1
  exact congrArg UInt64.ofBitVec same

theorem Single.mul_one (x : Float32) : x * 1 = x := by
  obtain ⟨⟨bits⟩, valid⟩ := x
  have same := pack_mul_one valid (by decide) 23
  refine congrArg Float32.ofModel ?_
  change Float32.Model.mk _ _ = _
  congr 1
  exact congrArg UInt32.ofBitVec same

instance : PowerRules Float := Double.packedIn.powerRules Double.mul_one

instance : PowerRules Float32 := Single.packedIn.powerRules Single.mul_one

end DualOpt
