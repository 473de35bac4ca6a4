import DualOpt.Proofs.Exact.Scalar

/-!
The reals with one more scalar, the undefined result of a division by zero.

An operation on it is undefined again, and no comparison holds of it. A definition that returns
defined scalars over this arithmetic has not divided by zero on the way to any of them.
-/
namespace DualOpt

inductive PartialReal where
  | undefined
  | exact (x : ℝ)

namespace PartialReal

def map (f : ℝ → ℝ) : PartialReal → PartialReal
  | undefined => undefined
  | exact x => exact (f x)

def map₂ (f : ℝ → ℝ → ℝ) : PartialReal → PartialReal → PartialReal
  | exact x, exact y => exact (f x y)
  | _, _ => undefined

noncomputable def divide : PartialReal → PartialReal → PartialReal
  | exact x, exact y => if y = 0 then undefined else exact (x / y)
  | _, _ => undefined

def Holds (p : ℝ → ℝ → Prop) : PartialReal → PartialReal → Prop
  | exact x, exact y => p x y
  | _, _ => False

def isDefined : PartialReal → Bool
  | undefined => false
  | exact _ => true

noncomputable instance : Scalar PartialReal where
  zero := exact 0
  one := exact 1
  add := map₂ (· + ·)
  sub := map₂ (· - ·)
  mul := map₂ (· * ·)
  div := divide
  neg := map (- ·)
  lt := Holds (· < ·)
  le := Holds (· ≤ ·)
  beq x y := @decide (Holds (· = ·) x y) (Classical.propDecidable _)
  intCast n := exact n
  ofScientific m negative e := exact (OfScientific.ofScientific m negative e)
  decLT _ _ := Classical.propDecidable _
  decLE _ _ := Classical.propDecidable _
  sqrt := map Scalar.sqrt
  abs := map Scalar.abs
  signum := map Scalar.signum
  max := map₂ Scalar.max
  isFinite := isDefined
  isNaN x := !x.isDefined
  infinity := exact Scalar.infinity
  belowInfinity := isDefined
  epsilon := exact Scalar.epsilon

theorem abs_exact (x : ℝ) : Scalar.abs (exact x) = exact |x| := rfl

theorem exact_le_iff {x y : ℝ} : exact x ≤ exact y ↔ x ≤ y := Iff.rfl

theorem exact_div {y : ℝ} (nonzero : y ≠ 0) (x : ℝ) : exact x / exact y = exact (x / y) :=
  if_neg nonzero

end PartialReal
end DualOpt
