import DualOpt.Proofs.Forward.Interior
import DualOpt.Proofs.Sensitivity

/-!
The partial derivatives of a condition on a solution and its parameters, in exact arithmetic.

One Jacobian in both is cut into two. Where a condition stays inside the domains of its operations,
the two parts are its partial derivatives, and they say how its values change along any curve of the
solution and the parameters.
-/
namespace DualOpt

open Filter Matrix Topology

namespace System
variable {s : System ℝ} {y θ v w : Vec ℝ}

end System

namespace Condition

/-- Is what a program returns for `n` variables and `k` parameters, and the program ends there. -/
def ComputedBy {F : Type} [Elementary F] (c : Condition F) (p : Program F) (n k : ℕ) : Prop :=
  ∀ d t : List (Dual F), d.length = n → t.length = k →
    ∃ steps sides, p.run d t steps [] = some ⟨sides, c d t⟩

/-- The values at numbers. -/
def values {F : Type} [Scalar F] (c : Condition F) (y θ : Vec F) : Except Fault (Vec F) :=
  evaluate (c · (Dual.constants θ)) y

variable {c : Condition ℝ} {y θ : Vec ℝ} {m : ℕ}

theorem computedBy_ofSystem {F : Type} [Elementary F] (s : System F) (n k : ℕ) :
    s.condition.ComputedBy (.ofSystem s) n k :=
  fun _ _ _ _ => ⟨1, _, rfl⟩

/-- From where it comes to certain outputs, a computed condition returns these. -/
theorem ComputedBy.eq_of_leads {p : Program ℝ} (h : c.ComputedBy p y.length θ.length)
    {s : System ℝ} {d t : List (Dual ℝ)} (leads : p.Leads d t [] s.outputs)
    (hd : d.length = y.length) (ht : t.length = θ.length) : c d t = s.outputsAt d t := by
  obtain ⟨steps, sides, ends⟩ := h d t hd ht
  obtain ⟨steps', sides', ends'⟩ := leads.exists_run
  exact congrArg Program.Outcome.outputs (p.run_unique ends ends')

end Condition
end DualOpt
