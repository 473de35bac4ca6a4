import DualOpt.Proofs.Solver.GaussNewton
import DualOpt.Proofs.Solver.Lbfgs

/-!
The objective along the runs of the Gauss-Newton and L-BFGS methods, in exact arithmetic.

A step goes to the least value that its search has met, and the search has met the value where it
starts. So the objective never rises, whatever the direction, the line search and its budget are.
-/
namespace DualOpt

namespace Solver
variable {S A : Type}

/-- Along the runs of a solver a value never rises, and each state records how far it fell. -/
structure Descends (solver : Solver ℝ (Vec ℝ) S A) (valueAt : Vec ℝ → Except Fault ℝ)
    (decrease : S → ℝ) : Prop where
  falls : ∀ y outputs tags s₀, (solver.init y outputs tags).outcome = .ok (.ok s₀) → ∀ k p q,
    solver.after y s₀ k = .ok p → solver.after y s₀ (k + 1) = .ok q →
    ∃ v v', valueAt p.1 = .ok v ∧ valueAt q.1 = .ok v' ∧ v' ≤ v ∧ decrease q.2.1 = v - v'
  /-- What a solve returns or raises is no worse than where it started. -/
  solution_le : ∀ y outputs (options : SolveOptions ℝ) stationarity solution,
    (solver.solve y outputs options stationarity).outcome = .ok (options.deliver solution) →
    ∀ v, valueAt y = .ok v → ∃ v', valueAt solution.value = .ok v' ∧ v' ≤ v

/-- What a single step has to satisfy for this, under an invariant of the run. -/
structure StepDescends (solver : Solver ℝ (Vec ℝ) S A) (valueAt : Vec ℝ → Except Fault ℝ)
    (decrease : S → ℝ) (inv : Vec ℝ → S → Prop) : Prop where
  start : ∀ y outputs tags s, (solver.init y outputs tags).outcome = .ok (.ok s) → inv y s
  keeps : ∀ y s q, inv y s → (solver.step y s).outcome = .ok q → inv q.1 q.2.1
  falls : ∀ y s q, inv y s → (solver.step y s).outcome = .ok q →
    ∃ v v', valueAt y = .ok v ∧ valueAt q.1 = .ok v' ∧ v' ≤ v ∧ decrease q.2.1 = v - v'

variable {solver : Solver ℝ (Vec ℝ) S A} {valueAt : Vec ℝ → Except Fault ℝ} {decrease : S → ℝ}
variable {inv : Vec ℝ → S → Prop}

/-- No member of the sequence has a value above that of the start. -/
theorem StepDescends.value_le (h : solver.StepDescends valueAt decrease inv) {y : Vec ℝ} {s : S}
    (start : inv y s) {v : ℝ} (hv : valueAt y = .ok v) {k : ℕ} {p : Vec ℝ × S × Option A}
    (hp : solver.after y s k = .ok p) : ∃ v', valueAt p.1 = .ok v' ∧ v' ≤ v := by
  have below : inv p.1 p.2.1 ∧ ∃ v', valueAt p.1 = .ok v' ∧ v' ≤ v := by
    refine solver.after_induction (P := fun y s => inv y s ∧ ∃ v', valueAt y = .ok v' ∧ v' ≤ v)
      ⟨start, v, hv, le_rfl⟩ ?_ hp
    rintro y s q ⟨inv_y, w, hw, hle⟩ hstep
    obtain ⟨w₀, w', hw₀, hw', hfall, -⟩ := h.falls y s q inv_y hstep
    obtain rfl : w = w₀ := Except.ok.inj (hw.symm.trans hw₀)
    exact ⟨h.keeps y s q inv_y hstep, w', hw', hfall.trans hle⟩
  exact below.2

theorem StepDescends.descends (h : solver.StepDescends valueAt decrease inv) :
    solver.Descends valueAt decrease where
  falls y outputs tags s₀ hinit k p q hp hq := by
    obtain ⟨r, next, hr, hstep, rfl⟩ := solver.exists_of_after_succ hq
    obtain rfl := Except.ok.inj (hp.symm.trans hr)
    have inv_p : inv p.1 p.2.1 :=
      solver.after_induction (h.start y outputs tags s₀ hinit) h.keeps hp
    exact h.falls _ _ next inv_p hstep
  solution_le y outputs options stationarity solution hsolve v hv := by
    rcases solver.solve_cases hsolve with ⟨e, -, hfound⟩ | ⟨s₀, k, p, hinit, -, hp, -, hfound⟩
    · exact absurd hfound (options.deliver_ne_config solution e)
    · obtain rfl := options.deliver_injective hfound
      exact h.value_le (h.start y outputs options.tags s₀ hinit) hv hp

end Solver

namespace GaussNewton
variable {A : Type}

/-- Half the sum of squares does not rise over a step. -/
theorem stepDescends (g : GaussNewton ℝ) (r : Residual ℝ A) :
    (g.solver r).StepDescends (valueAt r) (·.objectiveDiff) fun _ _ => True where
  start _ _ _ _ _ := trivial
  keeps _ _ _ _ _ := trivial
  falls y s q _ hstep := by
    obtain ⟨-, stays | ⟨d, n, f, moves⟩⟩ := g.stays_or_moves hstep
    · refine ⟨_, _, stays.value, stays.next ▸ stays.value, le_rfl, ?_⟩
      rw [stays.change, sub_self]
    · refine ⟨f, _, moves.surveyed.value_eq moves.length, ?_, moves.surveyed.least_le, moves.change⟩
      rw [moves.next, moves.surveyed.value_next]

end GaussNewton

namespace Lbfgs
variable {A : Type}

/-- The objective does not rise over a step from a state that goes with its candidate. -/
theorem stepDescends (l : Lbfgs ℝ) (f : Objective ℝ A) :
    (l.solver f).StepDescends (valueAt f) (·.objectiveDiff) (Coherent f) where
  start y outputs tags s hinit := (l.coherent_of_init hinit).1
  keeps y s q coherent hstep := (coherent.step l hstep).2
  falls y s q coherent hstep := by
    obtain ⟨v, gradient, found, settled, g, hcurrent, hfound, hsettled, hg, rfl⟩ :=
      l.step_outcome_iff.mp hstep
    obtain ⟨payload, hgradient⟩ := coherent.current hcurrent
    have value : valueAt f y = .ok v := valueAt_of_gradientWith hgradient
    have value_next : valueAt f (Vec.add y settled.1) = .ok g.value := valueAt_of_gradientWith hg
    refine ⟨v, g.value, value, value_next, ?_, rfl⟩
    rcases l.settle_cases rfl rfl hfound hsettled with
      ⟨-, rfl⟩ | ⟨-, rfl⟩ | ⟨-, f₀, least, n, surveyed, -⟩
    · rw [Vec.add_zerosLike, value] at value_next
      exact (Except.ok.inj value_next).ge
    · rw [Vec.add_zerosLike, value] at value_next
      exact (Except.ok.inj value_next).ge
    · have length_d := length_direction (length_of_gradientWith hgradient) coherent.sized
      obtain rfl : v = f₀ := Except.ok.inj (value.symm.trans (surveyed.value_eq length_d))
      obtain rfl : g.value = least :=
        Except.ok.inj (value_next.symm.trans surveyed.value_next)
      exact surveyed.least_le

end Lbfgs

/-- Neither method raises its objective, whatever its configuration and its problem. -/
theorem objective_descends {A B : Type} (g : GaussNewton ℝ) (r : Residual ℝ A) (l : Lbfgs ℝ)
    (f : Objective ℝ B) :
    (g.solver r).Descends (GaussNewton.valueAt r) (·.objectiveDiff) ∧
      (l.solver f).Descends (Lbfgs.valueAt f) (·.objectiveDiff) :=
  ⟨(g.stepDescends r).descends, (l.stepDescends f).descends⟩

end DualOpt
