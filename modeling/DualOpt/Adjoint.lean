import DualOpt.Forward
import DualOpt.Linear.QrSolver
import DualOpt.Traced

/-!
Derivatives of a solution with respect to parameters, by the implicit function theorem.

If `c(y, θ) = 0` holds along the solution `y(θ)`, its derivative is `-C_y⁺ C_θ` with the partial
Jacobians of `c`. The full derivative, its product with a parameter tangent and the product of its
transpose with a solution cotangent each solve with the factors of `C_y`.
-/
namespace DualOpt

/-- A condition on a solution and its parameters, in this order. -/
abbrev Condition (F : Type) := List (Dual F) → List (Dual F) → Except Fault (List (Dual F))

/-- How derivatives through a solution are taken, and how far from zero the stationarity
condition of a solution may be before this is reported. -/
structure ImplicitAdjoint (F : Type) where
  linearSolver : QrSolver F
  tolerance : F

/-- Whether a norm shows a violation: above the bound, or not a number. -/
def exceeds {F : Type} [Scalar F] (norm bound : F) : Bool := norm > bound || Scalar.isNaN norm

namespace ImplicitAdjoint
variable {F : Type} [Scalar F]

def standard : ImplicitAdjoint F := ⟨{}, 1e-6⟩

/-- Returns the solution unchanged, and reports a stationarity condition that is far from zero. -/
def apply {Y : Type} (adjoint : ImplicitAdjoint F) (value : Y) (stationarity : Vec F) :
    Traced F Y := do
  let norm := Vec.maxNorm stationarity
  Traced.emitIf (exceeds norm adjoint.tolerance) (.notStationary norm adjoint.tolerance)
  return value

/-- The partial Jacobians in the solution and in the parameters, from one Jacobian in both. A
condition that does not hold at the point is reported. -/
def partialJacobians (c : Condition F) (y θ : Vec F) : Traced F (Rows F × Rows F) := do
  let n := y.length
  let (values, jac) ← jacobian (fun d => c (d.take n) (d.drop n)) (y ++ θ)
  let norm := Vec.maxNorm values
  Traced.emitIf (exceeds norm 1e-6) (.conditionViolated norm)
  return (jac.map (·.take n), jac.map (·.drop n))

/-- Solves for each parameter in turn; the statuses are merged. -/
def solveColumns (solver : QrSolver F) (s : Factored F) :
    List (Vec F) → Except Fault (List (Vec F) × Status)
  | [] => .ok ([], .successful)
  | b :: bs => do
    let (x, status) ← solver.solve s b
    let (xs, later) ← solveColumns solver s bs
    return (x :: xs, status.merge later)

/-- The derivative of the solution: a row per component, a column per parameter. -/
def jacobian (adjoint : ImplicitAdjoint F) (c : Condition F) (y θ : Vec F) :
    Traced F (Rows F × Status) := do
  let (cy, cθ) ← partialJacobians c y θ
  let state ← adjoint.linearSolver.factor (.dense (← Dense.ofRows cy))
  let (columns, status) ← solveColumns adjoint.linearSolver state
    ((cθ.columns θ.length).map Vec.neg)
  return (Rows.columns y.length columns, status)

/-- The derivative of the solution along a direction of the parameters. -/
def tangent (adjoint : ImplicitAdjoint F) (c : Condition F) (y θ θDot : Vec F) :
    Traced F (Vec F × Status) := do
  if θDot.length ≠ θ.length then Traced.fault (.parameterTangent θDot.length θ.length)
  else
    let (cy, cθ) ← partialJacobians c y θ
    let state ← adjoint.linearSolver.factor (.dense (← Dense.ofRows cy))
    adjoint.linearSolver.solve state (Vec.neg (cθ.mulVec θDot))

/-- The transpose of the derivative applied to a cotangent of the solution, through the
transposed system of the same factors. -/
def vjp (adjoint : ImplicitAdjoint F) (c : Condition F) (y θ yBar : Vec F) :
    Traced F (Vec F × Status) := do
  if yBar.length ≠ y.length then Traced.fault (.solutionCotangent yBar.length y.length)
  else
    let (cy, cθ) ← partialJacobians c y θ
    let state ← adjoint.linearSolver.factor (.dense (← Dense.ofRows cy))
    let (multipliers, status) ← adjoint.linearSolver.solve state.transpose yBar
    return (Vec.neg (cθ.transposeMulVec multipliers θ.length), status)

end ImplicitAdjoint
end DualOpt
