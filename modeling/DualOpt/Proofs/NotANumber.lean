import DualOpt.Scalar.Binary

/-!
A value that is not a number.

It goes through sums, products, quotients and roots, and no comparison with it holds. Only the
larger of two arguments passes it over.
-/
namespace DualOpt

/-- How an arithmetic treats a value that is not a number. -/
class NaNRules (F : Type) [Scalar F] : Prop where
  add_left {x : F} (y : F) (nan : Scalar.isNaN x = true) : Scalar.isNaN (x + y) = true
  add_right (x : F) {y : F} (nan : Scalar.isNaN y = true) : Scalar.isNaN (x + y) = true
  mul_left {x : F} (y : F) (nan : Scalar.isNaN x = true) : Scalar.isNaN (x * y) = true
  div_left {x : F} (y : F) (nan : Scalar.isNaN x = true) : Scalar.isNaN (x / y) = true
  sqrt {x : F} (nan : Scalar.isNaN x = true) : Scalar.isNaN (Scalar.sqrt x) = true
  abs {x : F} (nan : Scalar.isNaN x = true) : Scalar.isNaN (Scalar.abs x) = true
  not_lt {x : F} (y : F) (nan : Scalar.isNaN x = true) : ¬ x < y
  max_right (x : F) {y : F} (nan : Scalar.isNaN y = true) : Scalar.max x y = x

open Float.Model

theorem unpacked_eq_notANumber {a : UnpackedFloat} (nan : a.isNaN = true) : a = .notANumber := by
  cases a with
  | infinity sign => cases nan
  | notANumber => rfl
  | zero sign => cases nan
  | finite sign mantissa exponent positive => cases nan

theorem unpacked_add_notANumber (format : Format) (a : UnpackedFloat) :
    UnpackedFloat.add format a .notANumber = .notANumber := by
  cases a <;> rfl

theorem unpacked_not_lt {a : UnpackedFloat} (nan : a.isNaN = true) (b : UnpackedFloat) :
    a.lt b = false := by
  rw [unpacked_eq_notANumber nan]
  rfl

/-- An operation that keeps what is not a number does so on packed numbers. -/
theorem Double.isNaN_of_keeps (op : UnpackedFloat → UnpackedFloat)
    (keeps : op .notANumber = .notANumber) {x : Float} (nan : x.isNaN = true) :
    (Float.ofModel (Float.Model.pack (op x.toModel.unpack))).isNaN = true := by
  rw [unpacked_eq_notANumber nan, keeps]
  rfl

theorem Single.isNaN_of_keeps (op : UnpackedFloat → UnpackedFloat)
    (keeps : op .notANumber = .notANumber) {x : Float32} (nan : x.isNaN = true) :
    (Float32.ofModel (Float32.Model.pack (op x.toModel.unpack))).isNaN = true := by
  rw [unpacked_eq_notANumber nan, keeps]
  rfl

instance : NaNRules Float where
  add_left y := Double.isNaN_of_keeps (UnpackedFloat.add .binary64 · y.toModel.unpack) rfl
  add_right x _ := Double.isNaN_of_keeps (UnpackedFloat.add .binary64 x.toModel.unpack)
    (unpacked_add_notANumber _ _)
  mul_left y := Double.isNaN_of_keeps (UnpackedFloat.mul .binary64 · y.toModel.unpack) rfl
  div_left y := Double.isNaN_of_keeps (UnpackedFloat.div .binary64 · y.toModel.unpack) rfl
  sqrt := Double.isNaN_of_keeps (UnpackedFloat.sqrt .binary64) rfl
  abs := Double.isNaN_of_keeps UnpackedFloat.abs rfl
  not_lt y nan less := Bool.false_ne_true
    ((unpacked_not_lt nan y.toModel.unpack).symm.trans (of_decide_eq_true less))
  max_right _ _ nan := if_pos nan

instance : NaNRules Float32 where
  add_left y := Single.isNaN_of_keeps (UnpackedFloat.add .binary32 · y.toModel.unpack) rfl
  add_right x _ := Single.isNaN_of_keeps (UnpackedFloat.add .binary32 x.toModel.unpack)
    (unpacked_add_notANumber _ _)
  mul_left y := Single.isNaN_of_keeps (UnpackedFloat.mul .binary32 · y.toModel.unpack) rfl
  div_left y := Single.isNaN_of_keeps (UnpackedFloat.div .binary32 · y.toModel.unpack) rfl
  sqrt := Single.isNaN_of_keeps (UnpackedFloat.sqrt .binary32) rfl
  abs := Single.isNaN_of_keeps UnpackedFloat.abs rfl
  not_lt y nan less := Bool.false_ne_true
    ((unpacked_not_lt nan y.toModel.unpack).symm.trans (of_decide_eq_true less))
  max_right _ _ nan := if_pos nan

end DualOpt
