import DualOpt.Forward

/-!
Problem functions: a residual has any number of outputs, an objective exactly one. Both are
functions of dual vectors and return a payload beside their outputs. Where one has no value it
faults, and with it the computation that asked for the value.
-/
namespace DualOpt

/-- A residual function. The number of its outputs may depend on the length of its argument and
on nothing else. -/
abbrev Residual (F A : Type) := VectorFn F A

abbrev Objective (F A : Type) := ScalarFn F A

variable {F A : Type} [Scalar F]

namespace Residual

/-- The number of outputs at a point. -/
def outputs (r : Residual F A) (y : Vec F) : Except Fault Nat := do
  return (← r (Dual.constants y)).1.length

/-- The values and the payload at a point. -/
def evaluate (r : Residual F A) (y : Vec F) : Except Fault (Vec F × A) := do
  let (outputs, payload) ← r (Dual.constants y)
  return (outputs.map Dual.primal, payload)

/-- The sum of the squared outputs, as an objective. -/
def sumOfSquares (r : Residual F A) : Objective F A := fun y => do
  let (outputs, payload) ← r y
  return (Dual.sum (outputs.map fun d => d * d), payload)

/-- The gradient of the sum of squares, `2·(Jᵀr)`. -/
def stationarity (r : Residual F A) (y : Vec F) : Except Fault (Vec F) := do
  let l ← linearise r y
  return Vec.scale (1 + 1) (l.jacobian.transposeMulVec l.values y.length)

end Residual

/-- The value and the payload of an objective at a point. -/
def Objective.evaluate (f : Objective F A) (y : Vec F) : Except Fault (F × A) := do
  let (d, payload) ← f (Dual.constants y)
  return (d.primal, payload)

end DualOpt
