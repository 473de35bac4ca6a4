import DualOpt.Proofs.Forward.Affine
import DualOpt.Proofs.Linear.PseudoInverse
import DualOpt.Proofs.Solver.GaussNewton
import DualOpt.Solve

/-!
The Gauss-Newton method on affine residuals, in exact arithmetic.

The search tries the whole step after the zero step and meets nothing better, so one step goes to
the solution. The next step is zero and ends the run.
-/
namespace DualOpt

open Matrix

namespace Residual.Affine
variable {A : Type} {r : Residual ℝ A} {a : Dense ℝ} {b y : Vec ℝ}

theorem length_values (h : r.Affine a b) :
    (Vec.sub (a.rows.mulVec y) b).length = a.rows.length := by
  rw [Vec.length_sub, Rows.length_mulVec, h.size, Nat.min_self]

theorem coords_values (h : r.Affine a b) :
    Vec.coords a.rows.length (Vec.sub (a.rows.mulVec y) b) = a.residual b y :=
  Dense.coords_sub_mulVec h.size y

theorem evaluate (h : r.Affine a b) (hy : y.length = a.inSize) :
    ∃ p, r.evaluate y = .ok p ∧ p.1 = Vec.sub (a.rows.mulVec y) b := by
  obtain ⟨payload, hl⟩ := h.linearise y hy
  exact ⟨_, GaussNewton.evaluate_of_linearise hl, rfl⟩

theorem outputs (h : r.Affine a b) (hy : y.length = a.inSize) : ∃ m, r.outputs y = .ok m := by
  obtain ⟨payload, hl⟩ := h.linearise y hy
  obtain ⟨p, hp, -⟩ := bind_eq_ok_iff.mp hl
  exact ⟨p.1.length, by rw [Residual.outputs, hp]; rfl⟩

theorem stationarity (h : r.Affine a b) (hy : y.length = a.inSize) :
    ∃ v, r.stationarity y = .ok v := by
  obtain ⟨payload, hl⟩ := h.linearise y hy
  exact ⟨_, by rw [Residual.stationarity, hl]; rfl⟩

theorem valueAt_eq (h : r.Affine a b) (hy : y.length = a.inSize) :
    GaussNewton.valueAt r y = .ok (0.5 * (a.residual b y ⬝ᵥ a.residual b y)) := by
  obtain ⟨p, hp, values⟩ := h.evaluate hy
  have square := Vec.inner_eq_dotProduct (Vec.sub (a.rows.mulVec y) b) (h.length_values (y := y)).le
  rw [h.coords_values] at square
  simp [GaussNewton.valueAt, hp, values, GaussNewton.halfSquares, Vec.sumSquares, square]

/-- The objective at a multiple of the step that the pseudo-inverse proposes. -/
theorem valueAt_line (h : r.Affine a b) {P : Matrix (Fin a.inSize) (Fin a.rows.length) ℝ}
    {d : Vec ℝ} (hy : y.length = a.inSize) (hd : d.length = a.inSize)
    (along : Vec.coords a.inSize d = -(P *ᵥ a.residual b y)) (α : ℝ) :
    GaussNewton.valueAt r (Vec.axpy α d y) = .ok (0.5 *
      ((a.residual b y - α • (a.matrix *ᵥ (P *ᵥ a.residual b y))) ⬝ᵥ
        (a.residual b y - α • (a.matrix *ᵥ (P *ᵥ a.residual b y))))) := by
  have length : (Vec.axpy α d y).length = a.inSize := by
    rw [Vec.length_axpy, hy, hd, Nat.min_self]
  have point : a.residual b (Vec.axpy α d y) =
      a.residual b y - α • (a.matrix *ᵥ (P *ᵥ a.residual b y)) := by
    rw [Dense.residual_of_coords (Vec.coords_axpy α hd hy), along, smul_neg, mulVec_neg,
      mulVec_smul, sub_eq_add_neg]
  rw [h.valueAt_eq length, point]

end Residual.Affine

namespace GaussNewton
variable {A : Type} {g : GaussNewton ℝ} {r : Residual ℝ A} {a : Dense ℝ} {b y : Vec ℝ}
variable {P : Matrix (Fin a.inSize) (Fin a.rows.length) ℝ} {s : Factored ℝ}

/-- A search along the proposed step takes the whole step: it is the first trial after the zero
step, and no other multiple of the step is lower. -/
theorem Moves.coords_diff {d : Vec ℝ} {n : ℕ} {f : ℝ} {q : Vec ℝ × GaussNewtonState ℝ × A}
    (moves : g.Moves r y d n f q) (affine : r.Affine a b) (inverse : PseudoInverse a.matrix P)
    (shrinks : g.lineSearch.decreaseFactor ≠ 0) (budget : 2 ≤ g.searchSteps)
    (hy : y.length = a.inSize) (along : Vec.coords a.inSize d = -(P *ᵥ a.residual b y)) :
    Vec.coords a.inSize q.2.1.diff = -(P *ᵥ a.residual b y) := by
  have hd : d.length = a.inSize := moves.length.trans hy
  have tried : 0 < n := by
    by_contra none
    exact none (moves.early (by omega)).1
  obtain ⟨v, hv, hle⟩ := moves.surveyed.lower 0 tried
  obtain ⟨α, hα, hdiff⟩ := moves.surveyed.exists_multiplier
  rw [g.lineSearch.multiplier_zero shrinks, affine.valueAt_line hy hd along, one_smul] at hv
  rw [affine.valueAt_line hy hd along] at hα
  rw [← Except.ok.inj hv, ← Except.ok.inj hα] at hle
  have whole : α • (P *ᵥ a.residual b y) = P *ᵥ a.residual b y :=
    inverse.smul_eq_of_residual_le (by linarith)
  rw [hdiff, Vec.coords_scale α hd, along, smul_neg, whole]

/-- One step goes to the solution, and from a solution nowhere. -/
theorem exists_step_affine (affine : r.Affine a b) (nonempty : a.rows ≠ [])
    (hs : g.linearSolver.factor (.dense a) = .ok s) (applies : g.linearSolver.Applies s P)
    (inverse : PseudoInverse a.matrix P) (mode : g.lineSearch.mode = .gaussNewton)
    (shrinks : g.lineSearch.decreaseFactor ≠ 0) (budget : 2 ≤ g.searchSteps)
    (hy : y.length = a.inSize) (state : GaussNewtonState ℝ) (success : state.status = .successful) :
    ∃ q, (g.step r y state).outcome = .ok q ∧ q.2.1.status = .successful ∧
      q.1.length = a.inSize ∧
      Vec.coords a.inSize q.1 = Vec.coords a.inSize y - P *ᵥ a.residual b y ∧
      (P *ᵥ a.residual b y = 0 → q.1 = y ∧ (g.terminate q.1 q.2.1).1 = true) := by
  obtain ⟨payload, hl⟩ := affine.linearise y hy
  obtain ⟨newton, hnewton, length_newton, coords_newton⟩ := applies _ affine.length_values
  rw [affine.coords_values] at coords_newton
  have ha := a.ofRows_rows nonempty
  have length_d : (Vec.scale (-1) newton).length = a.inSize := by
    rw [Vec.length_scale, length_newton]
  have along : Vec.coords a.inSize (Vec.scale (-1) newton) = -(P *ᵥ a.residual b y) := by
    rw [Vec.coords_scale (-1) length_newton, coords_newton, neg_one_smul]
  have total (α : ℝ) : ∃ p, r.evaluate (Vec.axpy α (Vec.scale (-1) newton) y) = .ok p := by
    obtain ⟨p, hp, -⟩ := affine.evaluate (y := Vec.axpy α (Vec.scale (-1) newton) y)
      (by rw [Vec.length_axpy, hy, length_d, Nat.min_self])
    exact ⟨p, hp⟩
  obtain ⟨q, n, f, hstep, hstatus, later, moves⟩ := g.exists_moves_along mode (by omega) hl ha
    nonempty hs hnewton total success
  have diff := moves.coords_diff affine inverse shrinks budget hy along
  have length_diff : q.2.1.diff.length = a.inSize := by
    rw [moves.surveyed.length_diff, length_d]
  refine ⟨q, hstep, hstatus, ?_, ?_, fun still => ?_⟩
  · rw [moves.next, Vec.length_add, hy, length_diff, Nat.min_self]
  · rw [moves.next, Vec.coords_add hy length_diff, diff, sub_eq_add_neg]
  · have zero : q.2.1.diff = Vec.zerosLike y := by
      apply Vec.eq_of_coords_eq length_diff ((Vec.length_zerosLike y).trans hy)
      rw [diff, still, neg_zero, Vec.coords_zerosLike]
    exact moves.done_of_zero later zero

/-- A run on an affine residual has its first stop after one or two steps, at the solution. -/
theorem exists_isLeast_affine (affine : r.Affine a b) (nonempty : a.rows ≠ [])
    (hs : g.linearSolver.factor (.dense a) = .ok s) (applies : g.linearSolver.Applies s P)
    (inverse : PseudoInverse a.matrix P) (mode : g.lineSearch.mode = .gaussNewton)
    (shrinks : g.lineSearch.decreaseFactor ≠ 0) (budget : 2 ≤ g.searchSteps)
    (hy : y.length = a.inSize) :
    ∃ k p, k ≤ 2 ∧ IsLeast ((g.solver r).stopTimes y (initialState y)) k ∧
      (g.solver r).after y (initialState y) k = .ok p ∧
      ((g.solver r).terminate p.1 p.2.1).2 = .successful ∧ p.1.length = a.inSize ∧
      Vec.coords a.inSize p.1 = Vec.coords a.inSize y - P *ᵥ a.residual b y := by
  obtain ⟨q, hq, success, length_q, coords_q, -⟩ := exists_step_affine affine nonempty hs applies
    inverse mode shrinks budget hy (initialState y) rfl
  -- What is left at the solution has nothing that the pseudo-inverse sees.
  have solved : P *ᵥ a.residual b q.1 = 0 := by
    rw [Dense.residual_of_coords (coords_q.trans (sub_eq_add_neg ..)), mulVec_neg,
      ← sub_eq_add_neg, inverse.mulVec_residual]
  obtain ⟨q', hq', success', -, -, still⟩ := exists_step_affine affine nonempty hs applies
    inverse mode shrinks budget length_q q.2.1 success
  obtain ⟨stays, done⟩ := still solved
  have after_one : (g.solver r).after y (initialState y) 1 = .ok (q.1, q.2.1, some q.2.2) := by
    rw [(g.solver r).after_succ (p := (y, initialState y, none)) rfl]
    exact congrArg (Except.map _) hq
  have after_two : (g.solver r).after y (initialState y) 2 = .ok (q'.1, q'.2.1, some q'.2.2) := by
    rw [(g.solver r).after_succ after_one]
    exact congrArg (Except.map _) hq'
  have starts : ¬ (g.solver r).Stops y (initialState y) := by
    rintro (done | failed)
    · cases done
    · exact failed g.terminate_status
  by_cases stops : (g.solver r).Stops q.1 q.2.1
  · refine ⟨1, _, by omega, (g.solver r).isLeast_stopTimes after_one stops ?_, after_one,
      g.terminate_status.trans success, length_q, coords_q⟩
    intro k hk p hp
    obtain rfl : k = 0 := by omega
    obtain rfl := Except.ok.inj hp
    exact starts
  · refine ⟨2, _, le_rfl, (g.solver r).isLeast_stopTimes after_two (.inl done) ?_, after_two,
      g.terminate_status.trans success', stays ▸ length_q, stays ▸ coords_q⟩
    intro k hk p hp
    obtain rfl | rfl : k = 0 ∨ k = 1 := by omega
    · obtain rfl := Except.ok.inj hp
      exact starts
    · obtain rfl := Except.ok.inj (after_one.symm.trans hp)
      exact stops

/-- An affine residual of full rank is solved exactly in at most two steps, whatever the
tolerances, the slope and the decrease factor are. -/
theorem leastSquaresDirect_affine (g : GaussNewton ℝ) (affine : r.Affine a b)
    (nonempty : a.rows ≠ []) (full : a.matrix.rank = min a.rows.length a.inSize)
    (exceeds : ∀ s, g.linearSolver.factor (.dense a) = .ok s →
      ∀ p ∈ s.factors.r.diagonal, g.linearSolver.cutoff s.factors < |p|)
    (mode : g.lineSearch.mode = .gaussNewton) (shrinks : g.lineSearch.decreaseFactor ≠ 0)
    (budget : 2 ≤ g.searchSteps) (hy : y.length = a.inSize) (options : SolveOptions ℝ)
    (enough : 2 ≤ options.limit) :
    ∃ x payload k P, (leastSquaresDirect g.solver r y options).outcome =
        .ok (.ok ⟨x, .successful, payload, ⟨k, options.maxSteps⟩⟩) ∧ k ≤ 2 ∧
      x.length = a.inSize ∧ PseudoInverse a.matrix P ∧
      Vec.coords a.inSize x = Vec.coords a.inSize y - P *ᵥ a.residual b y ∧
      (a.inSize ≤ a.rows.length →
        LeastSquares a.matrix (Vec.coords _ b) (Vec.coords _ x)) ∧
      (a.rows.length < a.inSize →
        NearestSolution a.matrix (Vec.coords _ b) (Vec.coords _ y) (Vec.coords _ x)) := by
  obtain ⟨s, P, hs, applies, inverse, left, right⟩ :=
    g.linearSolver.exists_factor_pseudoInverse nonempty full exceeds
  obtain ⟨k, p, hk, first, hp, success, length, coords⟩ := exists_isLeast_affine affine nonempty hs
    applies inverse mode shrinks budget hy
  refine ⟨p.1, p.2.2, k, P, ?_, hk, length, inverse, coords, fun tall => ?_, fun wide => ?_⟩
  · obtain ⟨outputs, houtputs⟩ := affine.outputs hy
    obtain ⟨v, hv⟩ := affine.stationarity length
    rw [leastSquaresDirect, Traced.outcome_bind, Traced.outcome_liftM, houtputs, ok_bind,
      (g.solver r).solve_of_isLeast _ rfl first hp (hk.trans enough)]
    simp [success, Solver.examine, hv, SolveOptions.deliver, Status.isSuccessful]
  · rw [coords]
    exact inverse.leastSquares (left tall) _ _
  · rw [coords]
    exact inverse.nearestSolution (right wide) _ _

/-- Three equations for two unknowns that hold at `(1, 1)`. -/
def threeLines : System ℝ where
  outputs := [
    .scalarRight .sub (.binary .add (.scalarRight .mul (.var 0) (2 : ℕ)) (.var 1)) (3 : ℕ),
    .binary .sub (.var 0) (.var 1),
    .scalarRight .sub (.scalarRight .mul (.var 1) (4 : ℕ)) (4 : ℕ)]

def threeLinesMatrix : Dense ℝ := ⟨[[(2 : ℕ), 1], [1, -1], [0, (4 : ℕ)]], 2, by decide⟩

theorem matrix_threeLinesMatrix :
    threeLinesMatrix.matrix = (!![2, 1; 1, -1; 0, 4] : Matrix (Fin 3) (Fin 2) ℝ) := by
  ext i j
  fin_cases i <;> fin_cases j <;> rfl

theorem rank_threeLinesMatrix : threeLinesMatrix.matrix.rank = 2 := by
  have left : (!![1 / 3, 1 / 3, 0; 1 / 3, -2 / 3, 0] : Matrix (Fin 2) (Fin 3) ℝ) *
      (!![2, 1; 1, -1; 0, 4] : Matrix (Fin 3) (Fin 2) ℝ) = 1 := by
    ext i j
    fin_cases i <;> fin_cases j <;> norm_num [mul_apply, Fin.sum_univ_succ]
  rw [matrix_threeLinesMatrix]
  refine le_antisymm (rank_le_width _) ?_
  calc 2 = (1 : Matrix (Fin 2) (Fin 2) ℝ).rank := by simp
    _ ≤ (!![2, 1; 1, -1; 0, 4] : Matrix (Fin 3) (Fin 2) ℝ).rank := left ▸ rank_mul_le_right _ _

theorem residual_threeLinesMatrix : threeLinesMatrix.residual [3, 0, 4] [1, 1] = 0 := by
  have zero : Vec.sub (threeLinesMatrix.rows.mulVec [1, 1]) [3, 0, 4] = Vec.fill 3 0 := by
    norm_num [threeLinesMatrix, Rows.mulVec, Vec.inner, Vec.sub, Vec.fill, List.replicate]
  rw [← Dense.coords_sub_mulVec rfl, zero, Vec.coords_fill_zero]

theorem affine_threeLines : (threeLines.residual []).Affine threeLinesMatrix [3, 0, 4] := by
  refine System.affine_residual (θ := []) rfl ?_ ?_ ?_ ?_
  · simp [threeLines, Expr.Composed, threeLinesMatrix]
  · intro y _
    simp [threeLines, Expr.Interior, BinaryOp.Interior, ScalarOp.Interior]
  · rfl
  · intro y hy
    obtain ⟨u, v, rfl⟩ := List.length_eq_two.mp hy
    simp [threeLines, threeLinesMatrix, System.values, Expr.value, BinaryOp.function,
      ScalarOp.function, Vec.sub, Rows.mulVec, Vec.inner, mul_comm, sub_eq_add_neg]

/-- A budget of two steps is enough, and the common point is found exactly. -/
theorem leastSquaresDirect_affine_threeLines : ∃ payload k, k ≤ 2 ∧
    (leastSquaresDirect
      ({ GaussNewton.standard with linearSolver := ⟨some 0⟩ } : GaussNewton ℝ).solver
      (threeLines.residual []) [0, 0]
      { SolveOptions.standard with maxSteps := some 2 }).outcome =
        .ok (.ok ⟨[1, 1], .successful, payload, ⟨k, some 2⟩⟩) := by
  have nonempty : threeLinesMatrix.rows ≠ [] := by simp [threeLinesMatrix]
  obtain ⟨x, payload, k, P, hsolve, hk, length, -, -, least, -⟩ := leastSquaresDirect_affine
    ({ GaussNewton.standard with linearSolver := ⟨some 0⟩ } : GaussNewton ℝ) affine_threeLines
    nonempty rank_threeLinesMatrix (QrSolver.cutoff_lt_of_rank nonempty rank_threeLinesMatrix) rfl
    (Backtracking.standard_decreaseFactor_ne_zero _) (by decide) (y := [0, 0]) rfl
    { SolveOptions.standard with maxSteps := some 2 } le_rfl
  obtain rfl : x = [1, 1] := by
    by_contra other
    have lower := least (Nat.le_succ 2) (Vec.coords threeLinesMatrix.inSize [1, 1])
      fun same => other (Vec.eq_of_coords_eq length rfl same.symm)
    rw [← Dense.residual, ← Dense.residual, residual_threeLinesMatrix, zero_dotProduct] at lower
    exact lower.not_ge (dotProduct_self_nonneg _)
  exact ⟨payload, k, hk, hsolve⟩

end GaussNewton
end DualOpt
