import DualOpt.Dual.Basic

/-!
Elementary functions of dual numbers: each pairs the scalar function with its derivative.

At the edge of a domain the formulas are used as they stand, so an infinite or undefined slope
shows up in the tangent and never in the primal part.
-/
namespace DualOpt.Dual

section Arithmetic
variable {F : Type} [Scalar F]

def recip (d : Dual F) : Dual F :=
  let inv := 1 / d.primal
  d.chain inv (-inv * inv)

def sqrt (d : Dual F) : Dual F :=
  let root := Scalar.sqrt d.primal
  d.chain root (1 / (2.0 * root))

/-- The exponent below another one. Exponents are integers of 32 bits, so below the least of them
comes the largest. -/
def exponentBelow (n : Int) : Int :=
  if n = Int32.minValue.toInt then Int32.maxValue.toInt else n - 1

theorem exponentBelow_of_ne {n : Int} (h : n ≠ Int32.minValue.toInt) : exponentBelow n = n - 1 :=
  if_neg h

/-- This is the difference of 32-bit integers. -/
theorem exponentBelow_toInt (n : Int32) : exponentBelow n.toInt = (n - 1).toInt := by
  by_cases least : n = Int32.minValue
  · subst least
    rfl
  · have above : n.toInt ≠ Int32.minValue.toInt := mt Int32.toInt_inj.mp least
    have lower := n.le_toInt
    have upper := n.toInt_lt
    rw [exponentBelow_of_ne above, Int32.toInt_sub]
    have bounded : Int32.minValue.toInt = -2 ^ 31 := rfl
    have step : (1 : Int32).toInt = 1 := rfl
    rw [step, Int.bmod_eq_of_le] <;> omega

theorem exponentBelow_of_nonneg {n : Int} (nonneg : 0 ≤ n) : exponentBelow n = n - 1 := by
  refine exponentBelow_of_ne ?_
  rintro rfl
  exact absurd nonneg (by decide)

/-- The slope of an integer power at a base. -/
def powIntSlope (a : F) (n : Int) : F := (n : F) * Scalar.powInt a (exponentBelow n)

/-- An integer power. The zeroth power is the constant one whatever the base. -/
def powInt (d : Dual F) (n : Int) : Dual F :=
  if n = 0 then constant 1 else d.chain (Scalar.powInt d.primal n) (powIntSlope d.primal n)

def abs (d : Dual F) : Dual F := d.chain (Scalar.abs d.primal) (Scalar.signum d.primal)

/-- The larger operand with its tangent; the first one on a tie. -/
def max (a b : Dual F) : Dual F := if b ≤ a then a else b

/-- The smaller operand with its tangent; the first one on a tie. -/
def min (a b : Dual F) : Dual F := if a ≤ b then a else b

end Arithmetic

variable {F : Type} [Elementary F]

/-- A power with a dual exponent. The logarithm of the base enters only if the exponent varies. -/
def pow (d n : Dual F) : Dual F :=
  let value := Elementary.pow d.primal n.primal
  let exponentPart := if n.tangent == 0 then 0 else n.tangent * Elementary.log d.primal
  ⟨value, value * (n.primal * d.tangent / d.primal + exponentPart)⟩

def exp (d : Dual F) : Dual F :=
  let value := Elementary.exp d.primal
  d.chain value value

def log (d : Dual F) : Dual F := d.chain (Elementary.log d.primal) (1 / d.primal)

def log1p (d : Dual F) : Dual F := d.chain (Elementary.log1p d.primal) (1 / (1 + d.primal))

def sin (d : Dual F) : Dual F := d.chain (Elementary.sin d.primal) (Elementary.cos d.primal)

def cos (d : Dual F) : Dual F := d.chain (Elementary.cos d.primal) (-Elementary.sin d.primal)

def tan (d : Dual F) : Dual F :=
  let c := Elementary.cos d.primal
  d.chain (Elementary.tan d.primal) (1 / (c * c))

def atan (d : Dual F) : Dual F :=
  d.chain (Elementary.atan d.primal) (1 / (1 + d.primal * d.primal))

def tanh (d : Dual F) : Dual F :=
  let t := Elementary.tanh d.primal
  d.chain t (1 - t * t)

def hypot (a b : Dual F) : Dual F :=
  let h := Elementary.hypot a.primal b.primal
  ⟨h, (a.primal * a.tangent + b.primal * b.tangent) / h⟩

end DualOpt.Dual
