import DualOpt.Proofs.Solver.GaussNewton
import DualOpt.Proofs.Solver.Lbfgs

/-!
What a run returns describes the candidate that it returns, in any arithmetic in which finite
numbers lie below infinity.

A search keeps the least value it has measured with the difference to the point where it was
measured. The next candidate is built from this difference by the operations that built that point,
so it is the same point, and what was measured there holds at the candidate.
-/
namespace DualOpt

/-- Every step of a run comes to data of which `D` holds, and a run returns the candidate and the
payload of its last step. -/
structure Solver.Returns {F Y S A : Type} [Scalar F] (solver : Solver F Y S A) (y : Y)
    (D : Y → S → Y × S × A → Prop) : Prop where
  reached : ∀ outputs tags s, (solver.init y outputs tags).outcome = .ok (.ok s) →
    ∀ k p, solver.after y s (k + 1) = .ok p → ∃ last q, solver.after y s k = .ok last ∧
      p = (q.1, q.2.1, some q.2.2) ∧ D last.1 last.2.1 q
  returned : ∀ outputs options stationarity solution,
    (solver.solve y outputs options stationarity).outcome = .ok (options.deliver solution) →
    ∀ k, solution.stats.numSteps = k + 1 → ∃ s last q,
      (solver.init y outputs options.tags).outcome = .ok (.ok s) ∧
      solver.after y s k = .ok last ∧ solver.after y s (k + 1) = .ok (q.1, q.2.1, some q.2.2) ∧
      solution.value = q.1 ∧ solution.payload = some q.2.2 ∧ D last.1 last.2.1 q

theorem Solver.returns_of_step {F Y S A : Type} [Scalar F] {solver : Solver F Y S A}
    {D : Y → S → Y × S × A → Prop}
    (step : ∀ y s q, (solver.step y s).outcome = .ok q → D y s q) (y : Y) : solver.Returns y D where
  reached _ _ s _ k p hp := by
    obtain ⟨last, q, hlast, hq, rfl⟩ := solver.exists_of_after_succ hp
    exact ⟨last, q, hlast, rfl, step _ _ q hq⟩
  returned outputs options stationarity solution h k steps := by
    rcases solver.solve_cases h with ⟨e, -, refused⟩ | ⟨s, n, p, hinit, -, hp, -, hfound⟩
    · exact absurd refused (options.deliver_ne_config solution e)
    obtain rfl := options.deliver_injective hfound
    obtain rfl : n = k + 1 := steps
    obtain ⟨last, q, hlast, hq, rfl⟩ := solver.exists_of_after_succ hp
    exact ⟨s, last, q, hinit, hlast, hp, rfl, rfl, step _ _ q hq⟩

variable {F A : Type} [Scalar F]

namespace GaussNewton

/-- The search of a step from `y`. -/
def search (g : GaussNewton F) (r : Residual F A) (y : Vec F) :
    Except Fault (Backtracking.Found F) := do
  let l ← linearise r y
  let a ← Dense.ofRows l.jacobian
  let factored ← g.linearSolver.factor (.dense a)
  let newton ← g.linearSolver.solve factored l.values
  g.lineSearch.find (measure r y (Vec.scale (-1) newton.1)) (searchInput l a y) g.searchSteps

/-- The payload is that of the candidate. After a success the objective is that of the candidate,
and it is the least value that the search reports. -/
structure Describes (g : GaussNewton F) (r : Residual F A) (y : Vec F)
    (q : Vec F × GaussNewtonState F × A) : Prop where
  payload : ∃ values, r.evaluate q.1 = .ok (values, q.2.2)
  objective : q.2.1.status = .successful → valueAt r q.1 = .ok q.2.1.objective
  reported : q.2.1.status = .successful → ∃ solution report, g.search r y = .ok (.ok solution) ∧
    solution.payload = some report ∧ report.runningMin = some q.2.1.objective

/-- A search that adds no failure has not diverged. -/
theorem exists_of_settle {y : Vec F} {f : F} {found : Backtracking.Found F}
    {settled : Vec F × F × Status} (h : (settle y f found).outcome = .ok settled)
    (success : settled.2.2 = .successful) :
    ∃ solution, found = .ok solution ∧ solution.status ≠ .nonlinearDivergence := by
  cases found with
  | error e =>
    rw [settle_error] at h
    obtain rfl := Except.ok.inj h
    cases success
  | ok solution =>
    refine ⟨solution, rfl, fun diverged => ?_⟩
    have failed : settled.2.2 = .nonlinearDivergence := by
      cases payload : solution.payload with
      | none =>
        obtain rfl : _ = settled := by simpa [settle, payload, diverged] using h
        rfl
      | some report =>
        obtain rfl : _ = settled := by simpa [settle, payload, diverged] using h
        rfl
    rw [failed] at success
    cases success

/-- A search that adds no failure settles on the least value that it reports, and on the difference
to a point with this value. -/
theorem exists_least [FiniteBelowInfinity F] {g : GaussNewton F} {r : Residual F A} {y d : Vec F}
    {input : SearchInput F} {f : F} {found : Backtracking.Found F} {settled : Vec F × F × Status}
    (budget : 0 < g.searchSteps) (fresh : input.initialObjective = none)
    (hfound : g.lineSearch.find (measure r y d) input g.searchSteps = .ok found)
    (hsettled : (settle y f found).outcome = .ok settled) (success : settled.2.2 = .successful) :
    valueAt r (Vec.add y settled.1) = .ok settled.2.1 ∧
      ∃ solution report, found = .ok solution ∧ solution.payload = some report ∧
        report.runningMin = some settled.2.1 := by
  obtain ⟨solution, rfl, status⟩ := exists_of_settle hsettled success
  rw [measure_eq] at hfound
  obtain ⟨report, v, hreport, running, value⟩ :=
    g.lineSearch.exists_report fresh budget hfound status
  rw [settle_report status hreport running] at hsettled
  obtain rfl := Except.ok.inj hsettled
  exact ⟨value, solution, report, rfl, hreport, running⟩

theorem describes_of_step [FiniteBelowInfinity F] {g : GaussNewton F} {r : Residual F A} {y : Vec F}
    {s : GaussNewtonState F} (budget : 0 < g.searchSteps) {q : Vec F × GaussNewtonState F × A}
    (h : (g.step r y s).outcome = .ok q) : g.Describes r y q := by
  obtain ⟨l, hl⟩ := exists_linearise_of_step h
  by_cases finite : l.IsFinite
  · obtain ⟨a, factored, newton, found, settled, last, ha, hfactored, hnewton, hfound, hsettled,
      hlast, rfl⟩ := (step_of_finite hl finite).mp h
    have searched : g.search r y = .ok found := by
      simp only [search, hl, ha, hfactored, hnewton, ok_bind]
      exact hfound
    have least := exists_least budget rfl hfound hsettled
    refine ⟨⟨last.1, hlast⟩, fun success => ?_, fun success => ?_⟩
    · exact (least (Status.merge_eq_successful_iff.mp success).2).1
    · obtain ⟨-, solution, report, rfl, hreport, running⟩ :=
        least (Status.merge_eq_successful_iff.mp success).2
      exact ⟨solution, report, searched, hreport, running⟩
  · rw [step_of_not_finite hl finite] at h
    obtain rfl := Except.ok.inj h
    have fails : ¬ s.status.merge .nonlinearDivergence = .successful := fun success => by
      cases (Status.merge_eq_successful_iff.mp success).2
    exact ⟨⟨l.values, evaluate_of_linearise hl⟩, fun success => absurd success fails,
      fun success => absurd success fails⟩

end GaussNewton

namespace Lbfgs

/-- The search of a step from `y`. -/
def search (l : Lbfgs F) (f : Objective F A) (y : Vec F) (s : LbfgsState F) :
    Except Fault (Backtracking.Found F) := do
  let (_, gradient) ← current f y s
  l.lineSearch.find (measure f y (direction gradient s.history)) (searchInput gradient y)
    l.searchSteps

/-- The objective, the gradient and the payload are those of the candidate. After a success the
objective is also the least value that the search reports. -/
structure Describes (l : Lbfgs F) (f : Objective F A) (y : Vec F) (s : LbfgsState F)
    (q : Vec F × LbfgsState F × A) : Prop where
  evaluated : f.evaluate q.1 = .ok (q.2.1.objective, q.2.2)
  gradient : ∃ gradient, q.2.1.gradient = some gradient ∧
    gradientWith f q.1 = .ok ⟨q.2.1.objective, gradient, q.2.2⟩
  reported : q.2.1.status = .successful → ∃ solution report, l.search f y s = .ok (.ok solution) ∧
    solution.payload = some report ∧ report.runningMin = some q.2.1.objective

theorem exists_of_settle {y : Vec F} {found : Backtracking.Found F}
    {settled : Vec F × Status} (h : (settle y found).outcome = .ok settled)
    (success : settled.2 = .successful) :
    ∃ solution, found = .ok solution ∧ solution.status ≠ .nonlinearDivergence := by
  cases found with
  | error e =>
    rw [settle_error] at h
    obtain rfl := Except.ok.inj h
    cases success
  | ok solution =>
    refine ⟨solution, rfl, fun diverged => ?_⟩
    obtain rfl : _ = settled := by simpa [settle, diverged] using h
    cases success

theorem describes_of_step [FiniteBelowInfinity F] {l : Lbfgs F} {f : Objective F A} {y : Vec F}
    {s : LbfgsState F} (budget : 0 < l.searchSteps) {q : Vec F × LbfgsState F × A}
    (h : (l.step f y s).outcome = .ok q) : l.Describes f y s q := by
  obtain ⟨v, gradient, found, settled, g, hcurrent, hfound, hsettled, hg, rfl⟩ :=
    l.step_outcome_iff.mp h
  refine ⟨evaluate_of_gradientWith hg, ⟨g.gradient, rfl, hg⟩, fun success => ?_⟩
  have searched : l.search f y s = .ok found := by
    simp only [search, hcurrent, ok_bind]
    exact hfound
  obtain ⟨solution, rfl, status⟩ :=
    exists_of_settle hsettled (Status.merge_eq_successful_iff.mp success).2
  rw [measure_eq] at hfound
  obtain ⟨report, least, hreport, running, value⟩ :=
    l.lineSearch.exists_report rfl budget hfound status
  rw [settle_report status hreport] at hsettled
  obtain rfl := Except.ok.inj hsettled
  -- The gradient is taken at the point that the search has measured.
  obtain rfl : g.value = least :=
    Except.ok.inj ((valueAt_of_gradientWith hg).symm.trans value)
  exact ⟨solution, report, searched, hreport, running⟩

end Lbfgs

/-- Whatever a run returns describes the candidate it returns. After every number of steps the
payload is that of the candidate; after a success the objective is that of the candidate and the
least value that the search reports; and the gradient is that of the candidate. -/
theorem runs_describe_candidates [FiniteBelowInfinity F] (g : GaussNewton F) (l : Lbfgs F)
    (budget : 0 < g.searchSteps) (budget' : 0 < l.searchSteps) (r : Residual F A)
    (f : Objective F A) (y : Vec F) :
    (g.solver r).Returns y (fun last _ q => g.Describes r last q) ∧
      (l.solver f).Returns y (fun last s q => l.Describes f last s q) :=
  ⟨Solver.returns_of_step (fun _ _ _ h => GaussNewton.describes_of_step budget h) y,
    Solver.returns_of_step (fun _ _ _ h => Lbfgs.describes_of_step budget' h) y⟩

/-- How far squares are from two, and their number. -/
def squaresOffTwo : Residual Float ℕ := fun d =>
  .ok (d.map fun x => x * x - (2 : Float), d.length)

/-- The first step of either solver towards the root of two succeeds, in double precision. -/
theorem runs_describe_candidates_squaresOffTwo :
    (∃ p, (GaussNewton.standard.solver squaresOffTwo).after [1.5]
        (GaussNewton.initialState [1.5]) 1 = .ok p ∧ p.2.1.status = .successful ∧
      GaussNewton.valueAt squaresOffTwo p.1 = .ok p.2.1.objective) ∧
    ∃ p, (Lbfgs.standard.solver squaresOffTwo.sumOfSquares).after [1.5]
        (Lbfgs.initialState [1.5]) 1 = .ok p ∧ p.2.1.status = .successful ∧
      ∃ gradient, p.2.1.gradient = some gradient ∧
        (gradientWith squaresOffTwo.sumOfSquares p.1).map (·.gradient) = .ok gradient := by
  obtain ⟨runs, runs'⟩ := runs_describe_candidates GaussNewton.standard Lbfgs.standard
    (by decide) (by decide) squaresOffTwo squaresOffTwo.sumOfSquares [1.5]
  refine ⟨?_, ?_⟩
  · have succeeds : ((GaussNewton.standard.solver squaresOffTwo).after [1.5]
        (GaussNewton.initialState [1.5]) 1).map (·.2.1.status) = .ok .successful := by
      decide +kernel
    obtain ⟨p, hp, success⟩ := map_eq_ok_iff.mp succeeds
    obtain ⟨last, q, -, rfl, describes⟩ := runs.reached 1 .empty _ rfl 0 p hp
    exact ⟨_, hp, success, describes.objective success⟩
  · have succeeds : ((Lbfgs.standard.solver squaresOffTwo.sumOfSquares).after [1.5]
        (Lbfgs.initialState [1.5]) 1).map (·.2.1.status) = .ok .successful := by
      decide +kernel
    obtain ⟨p, hp, success⟩ := map_eq_ok_iff.mp succeeds
    obtain ⟨last, q, -, rfl, describes⟩ := runs'.reached 1 .empty _ rfl 0 p hp
    obtain ⟨gradient, stored, taken⟩ := describes.gradient
    exact ⟨_, hp, success, gradient, stored, by rw [taken]; rfl⟩

end DualOpt
