import DualOpt.Iteration
import DualOpt.Problem

/-!
Newton's method for a zero of a residual function: each step subtracts the solution of `J·d = r`.
-/
namespace DualOpt

structure Newton (F : Type) where
  linearSolver : QrSolver F := {}
  /-- The largest absolute residual that counts as zero lies below this. -/
  tolerance : F

namespace Newton
variable {F A : Type} [Scalar F]

def step (n : Newton F) (r : Residual F A) (y : Vec F) : Traced F (Vec F × F × A) := do
  let l ← linearise r y
  let factored ← n.linearSolver.factor (.dense (← Dense.ofRows l.jacobian))
  let (d, _) ← n.linearSolver.solve factored l.values
  let next := Vec.sub y d
  let (values, _) ← r.evaluate next
  return (next, Vec.maxNorm values, l.payload)

/-- The method as a solver whose state is the largest absolute residual at the candidate. -/
def solver (n : Newton F) (r : Residual F A) : Solver F (Vec F) F A where
  init _ _ _ := pure (.ok Scalar.infinity)
  step y _ := n.step r y
  terminate y norm :=
    (norm < n.tolerance, Status.select (Vec.allFinite y) .successful .nonlinearDivergence)

end Newton
end DualOpt
