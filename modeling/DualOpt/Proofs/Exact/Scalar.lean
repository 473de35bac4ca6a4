import Mathlib.Analysis.Real.Sqrt
import DualOpt.Scalar.Binary

/-!
The real numbers as a scalar: every operation is exact and every value is finite.

`epsilon` and the usual settings are those of double precision. There is no infinite real, so the
value before the first measurement is arbitrary and every measured value lies below it.
-/
namespace DualOpt

noncomputable instance : Scalar ℝ where
  zero := 0
  one := 1
  toAdd := inferInstance
  toSub := inferInstance
  toMul := inferInstance
  toDiv := inferInstance
  toNeg := inferInstance
  toLT := inferInstance
  toLE := inferInstance
  toBEq := inferInstance
  toIntCast := inferInstance
  toOfScientific := inferInstance
  decLT := inferInstance
  decLE := inferInstance
  sqrt := Real.sqrt
  abs x := |x|
  signum x := if x < 0 then -1 else 1
  max := max
  isFinite _ := true
  isNaN _ := false
  infinity := 0
  belowInfinity _ := true
  epsilon := (2 ^ 52)⁻¹

noncomputable instance : Precision ℝ := ⟨1e-8, 32⟩

namespace Scalar

@[simp] theorem sqrt_real (x : ℝ) : Scalar.sqrt x = √x := rfl

@[simp] theorem abs_real (x : ℝ) : Scalar.abs x = |x| := rfl

@[simp] theorem max_real (x y : ℝ) : Scalar.max x y = Max.max x y := rfl

end Scalar
end DualOpt
