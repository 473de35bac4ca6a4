import DualOpt.Proofs.Checked.GaussNewton
import DualOpt.Proofs.Checked.Lbfgs

/-!
No step of either method fails inside, and so no run of it faults.

The values of the problem function do not matter for this, only its number of outputs: the sizes
that a step asserts always hold, and the search that it makes always starts.
-/
namespace DualOpt

variable {F A B : Type} [Scalar F]

theorem Residual.HasOutputs.sumOfSquares {r : Residual F A} {n m : Nat} (h : r.HasOutputs n m) :
    r.sumOfSquares.HasValues n := by
  intro d hd
  obtain ⟨outputs, payload, computed, -⟩ := h d hd
  exact ⟨(Dual.sum (outputs.map fun d => d * d), payload), by simp [Residual.sumOfSquares, computed]⟩

end DualOpt
