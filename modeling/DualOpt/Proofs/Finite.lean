import DualOpt.Scalar.Binary

/-!
Finite numbers lie below infinity.

This is all that is asked of an arithmetic where it matters that a value was measured at all.
-/
namespace DualOpt

class FiniteBelowInfinity (F : Type) [Scalar F] : Prop where
  below (x : F) (finite : Scalar.isFinite x = true) : Scalar.belowInfinity x = true

open Float.Model in
theorem unpacked_lt_infinity {a : UnpackedFloat} (finite : a.isFinite = true) :
    a.lt (.infinity .positive) = true := by
  cases a with
  | infinity sign => cases finite
  | notANumber => cases finite
  | zero sign => rfl
  | finite sign mantissa exponent positive => rfl

theorem Double.lt_infinity {x : Float} (finite : x.isFinite = true) : x.lt (1 / 0) = true := by
  have infinite : (1 / 0 : Float).toModel.unpack = .infinity .positive := by rfl
  refine decide_eq_true ?_
  show x.toModel.unpack.lt (1 / 0 : Float).toModel.unpack = true
  rw [infinite]
  exact unpacked_lt_infinity finite

theorem Single.lt_infinity {x : Float32} (finite : x.isFinite = true) : x.lt (1 / 0) = true := by
  have infinite : (1 / 0 : Float32).toModel.unpack = .infinity .positive := by rfl
  refine decide_eq_true ?_
  show x.toModel.unpack.lt (1 / 0 : Float32).toModel.unpack = true
  rw [infinite]
  exact unpacked_lt_infinity finite

instance : FiniteBelowInfinity Float where
  below _ finite := decide_eq_true (Double.lt_infinity finite)

instance : FiniteBelowInfinity Float32 where
  below _ finite := decide_eq_true (Single.lt_infinity finite)

end DualOpt
