import Mathlib
import DualOpt.Proofs.NotANumber

/-!
What arithmetic makes of zeros, of either sign.

A zero times a finite number is a zero, and times anything else it is not a number. Divided by a
finite number other than zero it is a zero. Together with the laws of what is not a number this says
what becomes of a vanishing derivative.
-/
namespace DualOpt

/-- How an arithmetic treats what is equal to zero. -/
class ZeroRules (F : Type) [Scalar F] : Prop extends NaNRules F where
  zero : ((0 : F) == 0) = true
  neg {x : F} (zero : (x == 0) = true) : (-x == 0) = true
  add {x y : F} (hx : (x == 0) = true) (hy : (y == 0) = true) : (x + y == 0) = true
  sub {x y : F} (hx : (x == 0) = true) (hy : (y == 0) = true) : (x - y == 0) = true
  mul {x y : F} (zero : (x == 0) = true) (finite : Scalar.isFinite y = true) : (x * y == 0) = true
  finite_mul {x y : F} (finite : Scalar.isFinite x = true) (zero : (y == 0) = true) :
    (x * y == 0) = true
  div {x y : F} (zero : (x == 0) = true) (finite : Scalar.isFinite y = true)
    (nonzero : (y == 0) = false) : (x / y == 0) = true
  isNaN_mul {x y : F} (zero : (x == 0) = true) (infinite : Scalar.isFinite y = false) :
    Scalar.isNaN (x * y) = true
  isNaN_div {x y : F} (hx : (x == 0) = true) (hy : (y == 0) = true) : Scalar.isNaN (x / y) = true
  isNaN_neg {x : F} (nan : Scalar.isNaN x = true) : Scalar.isNaN (-x) = true
  isNaN_sub_left {x : F} (y : F) (nan : Scalar.isNaN x = true) : Scalar.isNaN (x - y) = true
  isNaN_sub_right (x : F) {y : F} (nan : Scalar.isNaN y = true) : Scalar.isNaN (x - y) = true
  isNaN_mul_right (x : F) {y : F} (nan : Scalar.isNaN y = true) : Scalar.isNaN (x * y) = true
  nonzero_of_isNaN {x : F} (nan : Scalar.isNaN x = true) : (x == 0) = false
  isFinite_one : Scalar.isFinite (1 : F) = true
  isFinite_neg {x : F} (finite : Scalar.isFinite x = true) : Scalar.isFinite (-x) = true
  isFinite_of_mul {x y : F} (finite : Scalar.isFinite (x * y) = true) :
    Scalar.isFinite x = true ∧ Scalar.isFinite y = true

open Float.Model UnpackedFloat

section Unpacked
variable {a b : UnpackedFloat}

theorem unpacked_isZero_iff : a.beq (.zero .positive) = true ↔ ∃ s, a = .zero s := by
  cases a with
  | infinity s => cases s <;> simp [UnpackedFloat.beq, UnpackedFloat.compare]
  | notANumber => simp [UnpackedFloat.beq, UnpackedFloat.compare]
  | zero s => simp [UnpackedFloat.beq, UnpackedFloat.compare]
  | finite s m e _ => cases s <;> simp [UnpackedFloat.beq, UnpackedFloat.compare]

theorem unpacked_add_zero (format : Format) (s s' : Sign) :
    ∃ z, UnpackedFloat.add format (.zero s) (.zero s') = .zero z := by
  cases s <;> cases s' <;> exact ⟨_, rfl⟩

theorem unpacked_sub_zero (format : Format) (s s' : Sign) :
    ∃ z, UnpackedFloat.sub format (.zero s) (.zero s') = .zero z := by
  cases s <;> cases s' <;> exact ⟨_, rfl⟩

theorem unpacked_zero_mul (format : Format) (s : Sign) (finite : b.isFinite = true) :
    ∃ z, UnpackedFloat.mul format (.zero s) b = .zero z := by
  cases b with
  | infinity s' => cases finite
  | notANumber => cases finite
  | zero s' => exact ⟨_, rfl⟩
  | finite s' m e _ => exact ⟨_, rfl⟩

theorem unpacked_mul_zero (format : Format) (finite : a.isFinite = true) (s : Sign) :
    ∃ z, UnpackedFloat.mul format a (.zero s) = .zero z := by
  cases a with
  | infinity s' => cases finite
  | notANumber => cases finite
  | zero s' => exact ⟨_, rfl⟩
  | finite s' m e _ => exact ⟨_, rfl⟩

theorem unpacked_zero_mul_of_not_finite (format : Format) (s : Sign)
    (infinite : b.isFinite = false) :
    UnpackedFloat.mul format (.zero s) b = .notANumber := by
  cases b with
  | infinity s' => rfl
  | notANumber => rfl
  | zero s' => cases infinite
  | finite s' m e _ => cases infinite

theorem unpacked_zero_div (format : Format) (s : Sign) (finite : b.isFinite = true)
    (nonzero : ¬ ∃ s', b = .zero s') : ∃ z, UnpackedFloat.div format (.zero s) b = .zero z := by
  cases b with
  | infinity s' => cases finite
  | notANumber => cases finite
  | zero s' => exact absurd ⟨s', rfl⟩ nonzero
  | finite s' m e _ => exact ⟨_, rfl⟩

theorem unpacked_sub_notANumber (format : Format) (a : UnpackedFloat) :
    UnpackedFloat.sub format a .notANumber = .notANumber := by
  cases a <;> rfl

theorem unpacked_mul_notANumber (format : Format) (a : UnpackedFloat) :
    UnpackedFloat.mul format a .notANumber = .notANumber := by
  cases a <;> rfl

/-- A factor that is not finite leaves a product that is not finite. -/
theorem unpacked_not_isFinite_mul (format : Format)
    (infinite : a.isFinite = false ∨ b.isFinite = false) :
    (∃ s, UnpackedFloat.mul format a b = .infinity s) ∨
      UnpackedFloat.mul format a b = .notANumber := by
  cases a with
  | notANumber => exact .inr rfl
  | infinity s =>
    cases b with
    | notANumber => exact .inr rfl
    | infinity s' => exact .inl ⟨_, rfl⟩
    | zero s' => exact .inr rfl
    | finite s' m' e' _ => exact .inl ⟨_, rfl⟩
  | zero s =>
    cases b with
    | notANumber => exact .inr rfl
    | infinity s' => exact .inr rfl
    | zero s' => rcases infinite with h | h <;> cases h
    | finite s' m' e' _ => rcases infinite with h | h <;> cases h
  | finite s m e _ =>
    cases b with
    | notANumber => exact .inr rfl
    | infinity s' => exact .inl ⟨_, rfl⟩
    | zero s' => rcases infinite with h | h <;> cases h
    | finite s' m' e' _ => rcases infinite with h | h <;> cases h

end Unpacked

section Packing
variable {format : Format}

theorem ne_largest_iff {n : Nat} {e : BitVec n} : e ≠ -1#_ ↔ e.toNat + 1 < 2 ^ n := by
  have bound := e.isLt
  rw [BitVec.neg_one_eq_allOnes, ne_eq, ← BitVec.toNat_inj, BitVec.toNat_allOnes]
  omega

/-- Finite numbers are those that are packed without the largest exponent. -/
theorem isFinite_unpack_iff (b : BitVec format.numBits) :
    (UnpackedFloat.unpack format b).isFinite = true ↔
      (unpackExponent b).toNat + 1 < 2 ^ format.exponentBits := by
  rw [← ne_largest_iff, UnpackedFloat.unpack]
  by_cases largest : unpackExponent b = -1#_
  · by_cases empty : unpackMantissa b = 0#_ <;> simp [largest, empty, UnpackedFloat.isFinite]
  · by_cases smallest : unpackExponent b = 0#_
    · by_cases empty : unpackMantissa b = 0#_ <;>
        simp [smallest, empty, UnpackedFloat.isFinite, Nat.pos_iff_ne_zero.mp format.he]
    · simp [largest, smallest, UnpackedFloat.isFinite]

/-- The exponent of an unpacked number fits. -/
theorem exponent_lt_of_unpack (wide : 2 < 2 ^ format.exponentBits) {b : BitVec format.numBits}
    {s : Sign} {m : Nat} {e : Int} {positive : 0 < m}
    (h : UnpackedFloat.unpack format b = .finite s m e positive) :
    (e + format.exponentBias + format.mantissaBitsWithoutImplicit).toNat + 1 <
      2 ^ format.exponentBits := by
  have finite : (UnpackedFloat.unpack format b).isFinite = true := by rw [h]; rfl
  have below := (isFinite_unpack_iff b).mp finite
  rw [UnpackedFloat.unpack] at h
  simp only [if_neg (ne_largest_iff.mpr below)] at h
  split at h
  · split at h
    · cases h
    -- A number without the implicit bit is unpacked as if its exponent were one.
    · next smallest _ =>
      injection h with _ _ exponent
      simp only [smallest, BitVec.toNat_ofNat, Nat.zero_mod] at exponent
      omega
  · injection h with _ _ exponent
    omega

theorem zero_add_one_lt :
    (0#_ : BitVec format.exponentBits).toNat + 1 < 2 ^ format.exponentBits := by
  rw [BitVec.toNat_ofNat, Nat.zero_mod]
  exact Nat.one_lt_two_pow (Nat.pos_iff_ne_zero.mp format.he)

theorem isFinite_unpack_pack {s : Sign} {m : Nat} {e : Int} (positive : 0 < m)
    (fits : (e + format.exponentBias + format.mantissaBitsWithoutImplicit).toNat + 1 <
      2 ^ format.exponentBits) :
    (UnpackedFloat.unpack format (UnpackedFloat.pack format (.finite s m e positive))).isFinite =
      true := by
  rw [isFinite_unpack_iff, UnpackedFloat.pack]
  simp only [if_neg (Nat.not_le.mpr fits)]
  split
  · rwa [unpackExponent_packComponents, BitVec.toNat_ofNat, Nat.mod_eq_of_lt (by omega)]
  · rw [unpackExponent_packComponents]
    exact zero_add_one_lt

/-- A finite number keeps its exponent when its sign is turned. -/
theorem isFinite_unpack_pack_neg (wide : 2 < 2 ^ format.exponentBits) {b : BitVec format.numBits}
    (finite : (UnpackedFloat.unpack format b).isFinite = true) :
    (UnpackedFloat.unpack format
      (UnpackedFloat.pack format (UnpackedFloat.unpack format b).neg)).isFinite = true := by
  cases h : UnpackedFloat.unpack format b with
  | infinity s => rw [h] at finite; cases finite
  | notANumber => rw [h] at finite; cases finite
  | zero s =>
    rw [isFinite_unpack_iff, UnpackedFloat.neg, UnpackedFloat.pack, packedZero,
      unpackExponent_packComponents]
    exact zero_add_one_lt
  | finite s m e positive => exact isFinite_unpack_pack positive (exponent_lt_of_unpack wide h)

end Packing

/-- Numbers that are kept packed: an operation unpacks its operands and packs what it makes of
them. -/
structure PackedIn {F : Type} [Scalar F] (format : Format) (unpacked : F → UnpackedFloat)
    (packed : UnpackedFloat → F) : Prop where
  beq_zero (x : F) : (x == 0) = (unpacked x).beq (.zero .positive)
  isNaN (x : F) : Scalar.isNaN x = (unpacked x).isNaN
  isFinite (x : F) : Scalar.isFinite x = (unpacked x).isFinite
  neg (x : F) : -x = packed (unpacked x).neg
  add (x y : F) : x + y = packed (UnpackedFloat.add format (unpacked x) (unpacked y))
  sub (x y : F) : x - y = packed (UnpackedFloat.sub format (unpacked x) (unpacked y))
  mul (x y : F) : x * y = packed (UnpackedFloat.mul format (unpacked x) (unpacked y))
  div (x y : F) : x / y = packed (UnpackedFloat.div format (unpacked x) (unpacked y))
  unpacked_zero (s : Sign) : unpacked (packed (.zero s)) = .zero s
  unpacked_infinity (s : Sign) : unpacked (packed (.infinity s)) = .infinity s
  unpacked_notANumber : unpacked (packed .notANumber) = .notANumber
  isFinite_neg {x : F} (finite : (unpacked x).isFinite = true) :
    (unpacked (packed (unpacked x).neg)).isFinite = true

namespace PackedIn
variable {F : Type} [Scalar F] {format : Format} {unpacked : F → UnpackedFloat}
variable {packed : UnpackedFloat → F} (h : PackedIn format unpacked packed) {a : UnpackedFloat}
include h

theorem isZero_iff {x : F} : (x == 0) = true ↔ ∃ s, unpacked x = .zero s := by
  rw [h.beq_zero, unpacked_isZero_iff]

theorem isZero_packed (zero : ∃ s, a = .zero s) : (packed a == 0) = true := by
  obtain ⟨s, rfl⟩ := zero
  exact h.isZero_iff.mpr ⟨s, h.unpacked_zero s⟩

theorem isNaN_packed (nan : a = .notANumber) : Scalar.isNaN (packed a) = true := by
  rw [h.isNaN, nan, h.unpacked_notANumber]
  rfl

theorem unpacked_eq {x : F} (nan : Scalar.isNaN x = true) : unpacked x = .notANumber :=
  unpacked_eq_notANumber ((h.isNaN x).symm.trans nan)

theorem not_isFinite_packed (infinite : (∃ s, a = .infinity s) ∨ a = .notANumber) :
    Scalar.isFinite (packed a) = false := by
  rw [h.isFinite]
  rcases infinite with ⟨s, rfl⟩ | rfl
  · rw [h.unpacked_infinity]
    rfl
  · rw [h.unpacked_notANumber]
    rfl

theorem isFinite_of_mul {x y : F} (finite : Scalar.isFinite (x * y) = true) :
    Scalar.isFinite x = true ∧ Scalar.isFinite y = true := by
  rw [h.isFinite x, h.isFinite y]
  have clash (infinite : (unpacked x).isFinite = false ∨ (unpacked y).isFinite = false) :
      False := by
    rw [h.mul, h.not_isFinite_packed (unpacked_not_isFinite_mul format infinite)] at finite
    cases finite
  exact ⟨eq_true_of_ne_false fun hx => clash (.inl hx),
    eq_true_of_ne_false fun hy => clash (.inr hy)⟩

/-- The laws of zeros hold of packed numbers because they hold of the unpacked ones. -/
theorem zeroRules [NaNRules F] (zero : ((0 : F) == 0) = true)
    (one : Scalar.isFinite (1 : F) = true) : ZeroRules F where
  zero := zero
  neg {x} hx := by
    obtain ⟨s, hs⟩ := h.isZero_iff.mp hx
    rw [h.neg, hs]
    exact h.isZero_packed ⟨-s, rfl⟩
  add {x y} hx hy := by
    obtain ⟨s, hs⟩ := h.isZero_iff.mp hx
    obtain ⟨s', hs'⟩ := h.isZero_iff.mp hy
    rw [h.add, hs, hs']
    exact h.isZero_packed (unpacked_add_zero format s s')
  sub {x y} hx hy := by
    obtain ⟨s, hs⟩ := h.isZero_iff.mp hx
    obtain ⟨s', hs'⟩ := h.isZero_iff.mp hy
    rw [h.sub, hs, hs']
    exact h.isZero_packed (unpacked_sub_zero format s s')
  mul {x y} hx finite := by
    obtain ⟨s, hs⟩ := h.isZero_iff.mp hx
    rw [h.isFinite] at finite
    rw [h.mul, hs]
    exact h.isZero_packed (unpacked_zero_mul format s finite)
  finite_mul {x y} finite hy := by
    obtain ⟨s, hs⟩ := h.isZero_iff.mp hy
    rw [h.isFinite] at finite
    rw [h.mul, hs]
    exact h.isZero_packed (unpacked_mul_zero format finite s)
  div {x y} hx finite nonzero := by
    obtain ⟨s, hs⟩ := h.isZero_iff.mp hx
    rw [h.isFinite] at finite
    rw [h.div, hs]
    exact h.isZero_packed (unpacked_zero_div format s finite
      (mt h.isZero_iff.mpr (Bool.eq_false_iff.mp nonzero)))
  isNaN_mul {x y} hx infinite := by
    obtain ⟨s, hs⟩ := h.isZero_iff.mp hx
    rw [h.isFinite] at infinite
    rw [h.mul, hs]
    exact h.isNaN_packed (unpacked_zero_mul_of_not_finite format s infinite)
  isNaN_div {x y} hx hy := by
    obtain ⟨s, hs⟩ := h.isZero_iff.mp hx
    obtain ⟨s', hs'⟩ := h.isZero_iff.mp hy
    rw [h.div, hs, hs']
    exact h.isNaN_packed rfl
  isNaN_neg {x} nan := by
    rw [h.neg, h.unpacked_eq nan]
    exact h.isNaN_packed rfl
  isNaN_sub_left {x} y nan := by
    rw [h.sub, h.unpacked_eq nan]
    exact h.isNaN_packed rfl
  isNaN_sub_right x {y} nan := by
    rw [h.sub, h.unpacked_eq nan]
    exact h.isNaN_packed (unpacked_sub_notANumber format _)
  isNaN_mul_right x {y} nan := by
    rw [h.mul, h.unpacked_eq nan]
    exact h.isNaN_packed (unpacked_mul_notANumber format _)
  nonzero_of_isNaN {x} nan := by
    refine Bool.eq_false_iff.mpr fun zero => ?_
    obtain ⟨s, hs⟩ := h.isZero_iff.mp zero
    rw [h.unpacked_eq nan] at hs
    cases hs
  isFinite_one := one
  isFinite_neg {x} finite := by
    rw [h.isFinite] at finite
    rw [h.neg, h.isFinite]
    exact h.isFinite_neg finite
  isFinite_of_mul := h.isFinite_of_mul

end PackedIn

theorem Double.packedIn : PackedIn .binary64 (fun x : Float => x.toModel.unpack)
    fun a => Float.ofModel (Float.Model.pack a) where
  beq_zero _ := rfl
  isNaN _ := rfl
  isFinite _ := rfl
  neg _ := rfl
  add _ _ := rfl
  sub _ _ := rfl
  mul _ _ := rfl
  div _ _ := rfl
  unpacked_zero s := by cases s <;> rfl
  unpacked_infinity s := by cases s <;> rfl
  unpacked_notANumber := rfl
  isFinite_neg := isFinite_unpack_pack_neg (by decide)

theorem Single.packedIn : PackedIn .binary32 (fun x : Float32 => x.toModel.unpack)
    fun a => Float32.ofModel (Float32.Model.pack a) where
  beq_zero _ := rfl
  isNaN _ := rfl
  isFinite _ := rfl
  neg _ := rfl
  add _ _ := rfl
  sub _ _ := rfl
  mul _ _ := rfl
  div _ _ := rfl
  unpacked_zero s := by cases s <;> rfl
  unpacked_infinity s := by cases s <;> rfl
  unpacked_notANumber := rfl
  isFinite_neg := isFinite_unpack_pack_neg (by decide)

instance : ZeroRules Float := Double.packedIn.zeroRules rfl rfl

instance : ZeroRules Float32 := Single.packedIn.zeroRules rfl rfl

end DualOpt
