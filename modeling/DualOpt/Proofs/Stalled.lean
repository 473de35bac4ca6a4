import DualOpt.Proofs.Linear.LeastSquares
import DualOpt.Proofs.Solver.GaussNewton
import DualOpt.Proofs.Solver.Lbfgs

/-!
Stalled solves of the usual Gauss-Newton and L-BFGS methods, in exact arithmetic.

Both report a run as a success when it takes the zero step, although this does not make its last
point stationary. It happens exactly where none of the multipliers `1, 1/2, …, 2⁻³⁰` leads to a
lower objective along the direction of the step, and a steep enough curvature makes such a point of
any slope. So a success with a zero step means a stationary point only where one of these trials is
lower at every other point.
-/
namespace DualOpt

/-- When a stalled run is reported as a success: a run of either method stands still exactly where
no trial of its line search is lower, whatever the slope is there. -/
theorem standsStill_standard {A B : Type} (r : Residual ℝ A) (f : Objective ℝ B) :
    ((GaussNewton.standard : GaussNewton ℝ).solver r).StandsStill (·.diff)
        (fun y _ => GaussNewton.standard.Blocked r y)
        (fun y _ => GaussNewton.standard.Directed r y) ∧
      ((Lbfgs.standard : Lbfgs ℝ).solver f).StandsStill (·.diff) (Lbfgs.standard.Blocked f)
        (Lbfgs.Directed f) := by
  have shrinks := Backtracking.standard_decreaseFactor_ne_zero
  have nonneg := Backtracking.standard_slope_nonneg
  have budget : 0 < Precision.searchSteps ℝ := by decide
  exact ⟨(GaussNewton.standard.stepStandsStill r (shrinks _) (nonneg _) budget).standsStill,
    (Lbfgs.standard.stepStandsStill f (shrinks _) (nonneg _) budget).standsStill⟩

/-- `2³¹·x² - x`: from zero, the trials of a search do not get below the curvature. -/
noncomputable def steepDip (d : List (Dual ℝ)) : Dual ℝ :=
  let x := d.headD (.constant 0)
  x * x * (2147483648 : ℝ) - x

theorem steepDip_singleton (x t : ℝ) :
    steepDip [⟨x, t⟩] = ⟨x * x * 2147483648 - x, (x * t + t * x) * 2147483648 - t⟩ := rfl

theorem steepDip_trial_nonneg {k : ℕ} (hk : k < 31) :
    0 ≤ (0.5 : ℝ) ^ k * 0.5 ^ k * 2147483648 - 0.5 ^ k := by
  have shrunk : (0.5 : ℝ) ^ 30 ≤ 0.5 ^ k :=
    pow_le_pow_of_le_one (by norm_num) (by norm_num) (by omega)
  have large : (1 : ℝ) ≤ 0.5 ^ k * 2147483648 := by
    calc (1 : ℝ) ≤ 0.5 ^ 30 * 2147483648 := by norm_num
      _ ≤ 0.5 ^ k * 2147483648 := mul_le_mul_of_nonneg_right shrunk (by norm_num)
  calc (0 : ℝ) ≤ 0.5 ^ k * (0.5 ^ k * 2147483648 - 1) :=
        mul_nonneg (by positivity) (by linarith)
    _ = 0.5 ^ k * 0.5 ^ k * 2147483648 - 0.5 ^ k := by ring

theorem seedAt_zero : Dual.seedAt [(0 : ℝ)] 0 = [⟨0, 1⟩] := by
  simp [Dual.seedAt, Vec.unit, List.range_succ]

theorem constants_axpy (α : ℝ) : Dual.constants (Vec.axpy α [1] [0]) = [⟨α, 0⟩] := by
  simp [Dual.constants, Dual.constant, Vec.axpy]

section Objective

/-- The dip as an objective. -/
noncomputable def dipObjective : Objective ℝ Unit := fun d => .ok (steepDip d, ())

theorem gradientWith_dipObjective : gradientWith dipObjective [0] = .ok ⟨0, [-1], ()⟩ := by
  have start : Dual.constants [(0 : ℝ)] = [⟨0, 0⟩] := rfl
  refine (gradientWith_ok (fun d => (steepDip d, ())) [0]).trans ?_
  simp [start, seedAt_zero, steepDip_singleton]

theorem blocked_dipObjective :
    Lbfgs.standard.Blocked dipObjective [0] (Lbfgs.initialState [0]) := by
  have direction : Lbfgs.direction [(-1 : ℝ)] [] = [1] := by
    simp [Lbfgs.direction, Lbfgs.firstPass, Lbfgs.scaleByNewest, Lbfgs.secondPass, Vec.scale]
  have value (α : ℝ) : Lbfgs.valueAt dipObjective (Vec.axpy α [1] [0]) =
      .ok (α * α * 2147483648 - α) := by
    simp [Lbfgs.valueAt, Objective.evaluate, dipObjective, constants_axpy, steepDip_singleton]
  refine ⟨⟨0, [-1], ()⟩, gradientWith_dipObjective, ?_⟩
  rw [show Lbfgs.direction [(-1 : ℝ)] (Lbfgs.initialState [0]).history = [1] from direction]
  refine ⟨0, ?_, fun k hk => ⟨_, value _, steepDip_trial_nonneg hk⟩⟩
  simp [Lbfgs.valueAt, Objective.evaluate, dipObjective, Dual.constants, Dual.constant,
    steepDip_singleton]

theorem stalled_dipObjective : ∃ s payload,
    ((Lbfgs.standard.solver dipObjective).solve [0] 1
      { SolveOptions.standard with maxSteps := some 1 } none).outcome =
        .ok (.ok ⟨[0], .successful, payload, ⟨1, some 1⟩⟩) ∧
      (Lbfgs.standard.solver dipObjective).after [0] (Lbfgs.initialState [0]) 1 =
        .ok ([0], s, payload) ∧
      s.diff = Vec.zerosLike [0] := by
  have shrinks := Backtracking.standard_decreaseFactor_ne_zero .gradient
  have nonneg := Backtracking.standard_slope_nonneg .gradient
  have budget : 0 < Precision.searchSteps ℝ := by decide
  obtain ⟨q, hstep, success⟩ := Lbfgs.standard.exists_step rfl
    (fun d => (steepDip d, ())) [0] (Lbfgs.initialState [0])
  have law := Lbfgs.standard.stepStandsStill dipObjective shrinks nonneg budget
  obtain ⟨hsolve, hafter, zero⟩ := law.solve_of_blocked 1
    { SolveOptions.standard with maxSteps := some 1 } rfl (Lbfgs.standard.terminate_status) hstep
    (Lbfgs.standard.terminate_status.trans success) blocked_dipObjective le_rfl
  exact ⟨q.2.1, some q.2.2, hsolve, hafter, zero⟩

end Objective

section Residual

/-- The dip above one, as a residual. -/
noncomputable def dipResidual : Residual ℝ Unit := fun d => .ok ([(1 : ℝ) + steepDip d], ())

/-- Its Jacobian at zero. -/
noncomputable def dipJacobian : Dense ℝ := ⟨[[-1]], 1, by simp⟩

theorem linearise_dipResidual : linearise dipResidual [0] = .ok ⟨[1], [[-1]], ()⟩ := by
  have start : Dual.constants [(0 : ℝ)] = [⟨0, 0⟩] := rfl
  have shift (x t : ℝ) : (1 : ℝ) + (⟨x, t⟩ : Dual ℝ) = ⟨1 + x, t⟩ := rfl
  simp [linearise, tangentsAlong, dipResidual, start, seedAt_zero, steepDip_singleton,
    List.range_succ, shift, Rows.columns]

theorem factor_dipJacobian (solver : QrSolver ℝ) :
    solver.factor (.dense dipJacobian) = .ok ⟨⟨[[-1]], [[1]]⟩, false⟩ := by
  have root : √((-1 - 1 : ℝ) * (-1 - 1)) = 2 := by
    rw [Real.sqrt_mul_self_eq_abs]
    norm_num
  have normal : Householder.normal? [(-1 : ℝ)] = some [-1] := by
    simp [Householder.normal?, Vec.twoNorm, Vec.sumSquares, Vec.inner, (one_pos (α := ℝ)).not_ge,
      root]
    norm_num
  have reduced : Householder.reduce [[(-1 : ℝ)]] = ([some [-1]], [[1]]) := by
    simp [Householder.reduce, normal, Householder.reflect, Vec.inner]
  have width : dipJacobian.rows.width = 1 := rfl
  rw [solver.factor_tall le_rfl, QrFactors.ofRows_eq width dipJacobian.rectangular le_rfl]
  simp [dipJacobian, Rows.columns, reduced, QrFactors.orthonormalColumns, List.range_succ,
    Householder.applyProduct, Householder.reflect, Vec.unit, Vec.inner]

theorem solve_dipJacobian : (⟨none⟩ : QrSolver ℝ).solve ⟨⟨[[-1]], [[1]]⟩, false⟩ [1] =
    .ok ([-1], .successful) := by
  have cutoff : (⟨none⟩ : QrSolver ℝ).cutoff ⟨[[-1]], [[1]]⟩ = (2 ^ 52)⁻¹ := by
    simp [QrSolver.cutoff, QrFactors.maxDiagonal, QrFactors.rows, QrFactors.columns, Rows.diagonal,
      Vec.maxNorm]
    rfl
  have kept : Triangular.isCut ((2 ^ 52)⁻¹ : ℝ) 1 = false := by
    norm_num [Triangular.isCut]
  simp [QrSolver.solve, Factored.inSize, QrFactors.rows, QrFactors.columns, cutoff,
    Triangular.solveUpper, Triangular.servesBack, Triangular.backSubstitute, kept,
    Rows.transposeMulVec, Vec.accumulate, Vec.fill]

theorem ofRows_dipJacobian : Dense.ofRows [[(-1 : ℝ)]] = .ok dipJacobian :=
  dif_pos dipJacobian.rectangular

theorem valueAt_dipResidual {x : ℝ} :
    GaussNewton.valueAt dipResidual [x] = .ok (0.5 * (1 + (x * x * 2147483648 - x)) ^ 2) := by
  have shift (x t : ℝ) : (1 : ℝ) + (⟨x, t⟩ : Dual ℝ) = ⟨1 + x, t⟩ := rfl
  simp [GaussNewton.valueAt, Residual.evaluate, dipResidual, Dual.constants, Dual.constant,
    steepDip_singleton, shift, GaussNewton.halfSquares, Vec.sumSquares, Vec.inner, sq]

theorem blocked_dipResidual : GaussNewton.standard.Blocked dipResidual [0] := by
  have direction : (GaussNewton.standard : GaussNewton ℝ).direction dipResidual [0] = .ok [1] := by
    have solver : (GaussNewton.standard : GaussNewton ℝ).linearSolver = ⟨none⟩ := rfl
    simp [GaussNewton.direction, linearise_dipResidual, ofRows_dipJacobian, factor_dipJacobian,
      solver, solve_dipJacobian, Vec.scale]
  have trial (α : ℝ) : Vec.axpy α [1] [0] = [α] := by simp [Vec.axpy]
  refine ⟨[1], direction, _, valueAt_dipResidual, ?_⟩
  intro k hk
  rw [trial]
  refine ⟨_, valueAt_dipResidual, ?_⟩
  have nonneg := steepDip_trial_nonneg hk
  calc (0.5 : ℝ) * (1 + (0 * 0 * 2147483648 - 0)) ^ 2 = 0.5 * 1 ^ 2 := by norm_num
    _ ≤ 0.5 * (1 + (0.5 ^ k * 0.5 ^ k * 2147483648 - 0.5 ^ k)) ^ 2 := by gcongr; linarith

theorem stalled_dipResidual : ∃ s payload,
    ((GaussNewton.standard.solver dipResidual).solve [0] 1
      { SolveOptions.standard with maxSteps := some 1 } none).outcome =
        .ok (.ok ⟨[0], .successful, payload, ⟨1, some 1⟩⟩) ∧
      (GaussNewton.standard.solver dipResidual).after [0] (GaussNewton.initialState [0]) 1 =
        .ok ([0], s, payload) ∧
      s.diff = Vec.zerosLike [0] := by
  have shrinks := Backtracking.standard_decreaseFactor_ne_zero .gaussNewton
  have nonneg := Backtracking.standard_slope_nonneg .gaussNewton
  have budget : 0 < Precision.searchSteps ℝ := by decide
  obtain ⟨q, hstep, success⟩ := GaussNewton.standard.exists_step
    (s := GaussNewton.initialState [0]) budget linearise_dipResidual ofRows_dipJacobian
    (factor_dipJacobian _) solve_dipJacobian (fun α => ⟨_, rfl⟩) rfl
  have law := GaussNewton.standard.stepStandsStill dipResidual shrinks nonneg budget
  obtain ⟨hsolve, hafter, zero⟩ := law.solve_of_blocked 1
    { SolveOptions.standard with maxSteps := some 1 } rfl (GaussNewton.standard.terminate_status)
    hstep (GaussNewton.standard.terminate_status.trans success) blocked_dipResidual le_rfl
  exact ⟨q.2.1, some q.2.2, hsolve, hafter, zero⟩

theorem stationarity_dipResidual : dipResidual.stationarity [0] = .ok [-2] := by
  simp [Residual.stationarity, linearise_dipResidual, Rows.transposeMulVec, Vec.accumulate,
    Vec.fill, Vec.scale]
  norm_num

end Residual

/-- At zero no trial is lower for either method, and both directions lead downhill. -/
theorem standsStill_standard_dip :
    (∃ s payload,
      (Lbfgs.standard.solver dipObjective).after [0] (Lbfgs.initialState [0]) 1 =
          .ok ([0], s, payload) ∧
        Lbfgs.standard.Blocked dipObjective [0] s ∧ Lbfgs.Directed dipObjective [0] s) ∧
      GaussNewton.standard.Blocked dipResidual [0] ∧
      GaussNewton.standard.Directed dipResidual [0] := by
  obtain ⟨residual, objective⟩ := standsStill_standard dipResidual dipObjective
  constructor
  · obtain ⟨s, payload, hsolve, hafter, zero⟩ := stalled_dipObjective
    obtain ⟨s₀, s', hinit, hafter', stands⟩ := objective.blocked_of_solve _ _ _ _ _ hsolve rfl
    obtain rfl : Lbfgs.initialState [0] = s₀ := Except.ok.inj (Except.ok.inj hinit)
    obtain rfl : s = s' := by simpa using Except.ok.inj (hafter.symm.trans hafter')
    exact ⟨s, payload, hafter, stands zero⟩
  · obtain ⟨s, payload, hsolve, hafter, zero⟩ := stalled_dipResidual
    obtain ⟨s₀, s', hinit, hafter', stands⟩ := residual.blocked_of_solve _ _ _ _ _ hsolve rfl
    obtain rfl : GaussNewton.initialState [0] = s₀ := Except.ok.inj (Except.ok.inj hinit)
    obtain rfl : s = s' := by simpa using Except.ok.inj (hafter.symm.trans hafter')
    exact stands zero

/-- Both methods report a success at zero, where their only step is zero and the slope is not. -/
theorem stalled_at_slope :
    (∃ s payload,
      ((Lbfgs.standard.solver dipObjective).solve [0] 1
        { SolveOptions.standard with maxSteps := some 1 } none).outcome =
          .ok (.ok ⟨[0], .successful, payload, ⟨1, some 1⟩⟩) ∧
        (Lbfgs.standard.solver dipObjective).after [0] (Lbfgs.initialState [0]) 1 =
          .ok ([0], s, payload) ∧
        s.diff = Vec.zerosLike [0] ∧ gradientWith dipObjective [0] = .ok ⟨0, [-1], ()⟩) ∧
    ∃ s payload,
      ((GaussNewton.standard.solver dipResidual).solve [0] 1
        { SolveOptions.standard with maxSteps := some 1 } none).outcome =
          .ok (.ok ⟨[0], .successful, payload, ⟨1, some 1⟩⟩) ∧
        (GaussNewton.standard.solver dipResidual).after [0] (GaussNewton.initialState [0]) 1 =
          .ok ([0], s, payload) ∧
        s.diff = Vec.zerosLike [0] ∧ dipResidual.stationarity [0] = .ok [-2] := by
  obtain ⟨s, payload, hsolve, hafter, zero⟩ := stalled_dipObjective
  obtain ⟨s', payload', hsolve', hafter', zero'⟩ := stalled_dipResidual
  exact ⟨⟨s, payload, hsolve, hafter, zero, gradientWith_dipObjective⟩,
    s', payload', hsolve', hafter', zero', stationarity_dipResidual⟩

end DualOpt
