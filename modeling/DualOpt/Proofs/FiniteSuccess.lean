import DualOpt.Proofs.Returned

/-!
A solve that ends as a success ends at finite numbers, in any arithmetic in which finite numbers lie
below infinity.

Infinities and values that are not numbers may enter with the start, the problem function, a sum of
squares that overflows, a direction or a trial point. Each way leads to a test that a success has to
pass: of the candidate, of the objective, of the linearisation, or of what a search has measured.
-/
namespace DualOpt

variable {F A : Type} [Scalar F]

/-- Every success has taken a step, to a finite candidate and a state with a finite objective. -/
def Solver.SucceedsFinitely {S : Type} (solver : Solver F (Vec F) S A) (objective : S → F) : Prop :=
  ∀ y outputs options stationarity solution,
    (solver.solve y outputs options stationarity).outcome = .ok (.ok solution) →
    solution.status = .successful →
    0 < solution.stats.numSteps ∧ (∀ x ∈ solution.value, Scalar.isFinite x = true) ∧
      ∃ s last, (solver.init y outputs options.tags).outcome = .ok (.ok s) ∧
        solver.after y s solution.stats.numSteps = .ok (solution.value, last, solution.payload) ∧
        Scalar.isFinite (objective last) = true

/-- What a single step and the test of a solver have to satisfy for this. -/
structure Solver.StepSucceedsFinitely {S : Type} (solver : Solver F (Vec F) S A)
    (objective : S → F) : Prop where
  waits : ∀ y outputs tags s, (solver.init y outputs tags).outcome = .ok (.ok s) →
    (solver.terminate y s).1 = false
  value : ∀ y s, (solver.terminate y s).2 = .successful → Vec.allFinite y = true
  objective : ∀ y s q, (solver.step y s).outcome = .ok q →
    (solver.terminate q.1 q.2.1).2 = .successful → Scalar.isFinite (objective q.2.1) = true

theorem Solver.StepSucceedsFinitely.succeedsFinitely {S : Type} {solver : Solver F (Vec F) S A}
    {objective : S → F} (h : solver.StepSucceedsFinitely objective) :
    solver.SucceedsFinitely objective := by
  intro y outputs options stationarity solution hsolve success
  obtain ⟨s, last, hinit, hlast, done⟩ := solver.exists_of_successful hsolve success
  have status : (solver.terminate solution.value last).2 = .successful := congrArg Prod.snd done
  have finite : ∀ x ∈ solution.value, Scalar.isFinite x = true :=
    List.all_eq_true.mp (h.value _ _ status)
  have stepped := solver.numSteps_pos_of_successful (h.waits y outputs options.tags) hsolve success
  obtain ⟨k, steps⟩ := Nat.exists_eq_add_one_of_ne_zero stepped.ne'
  refine ⟨stepped, finite, s, last, hinit, hlast, ?_⟩
  rw [steps] at hlast
  obtain ⟨r, q, -, hq, reached⟩ := solver.exists_of_after_succ hlast
  obtain ⟨hvalue, rfl, -⟩ : solution.value = q.1 ∧ last = q.2.1 ∧
      solution.payload = some q.2.2 := by simpa using reached
  exact h.objective _ _ q hq (hvalue ▸ status)

namespace GaussNewton

/-- What a search settles on without a failure is finite. -/
theorem isFinite_settled [FiniteBelowInfinity F] {g : GaussNewton F} {r : Residual F A}
    {y d : Vec F} {input : SearchInput F} {f : F} {found : Backtracking.Found F}
    {settled : Vec F × F × Status}
    (budget : 0 < g.searchSteps) (fresh : input.initialObjective = none)
    (hfound : g.lineSearch.find (measure r y d) input g.searchSteps = .ok found)
    (hsettled : (settle y f found).outcome = .ok settled) (success : settled.2.2 = .successful) :
    Scalar.isFinite settled.2.1 = true := by
  obtain ⟨-, solution, report, rfl, hreport, running⟩ :=
    exists_least budget fresh hfound hsettled success
  obtain ⟨same, hsame, status⟩ := exists_of_settle hsettled success
  obtain rfl := Except.ok.inj hsame
  exact g.lineSearch.isFinite_of_report fresh hfound status hreport running

theorem terminate_successful {g : GaussNewton F} {y : Vec F} {s : GaussNewtonState F}
    (h : (g.terminate y s).2 = .successful) : Vec.allFinite y = true ∧ s.status = .successful := by
  have status : Status.select (Vec.allFinite y) s.status .nonlinearDivergence = .successful := by
    by_cases first : s.step = 0
    · rwa [terminate, if_pos first] at h
    · rwa [terminate, if_neg first] at h
  cases finite : Vec.allFinite y with
  | false =>
    rw [finite] at status
    cases status
  | true =>
    rw [finite] at status
    exact ⟨rfl, status⟩

theorem stepSucceedsFinitely [FiniteBelowInfinity F] (g : GaussNewton F) (r : Residual F A)
    (budget : 0 < g.searchSteps) : (g.solver r).StepSucceedsFinitely (·.objective) where
  waits y outputs tags s hinit := by
    obtain rfl : initialState y = s := Except.ok.inj (Except.ok.inj hinit)
    rfl
  value y s success := (terminate_successful success).1
  objective y s q hq success := by
    have status := (terminate_successful success).2
    obtain ⟨l, hl⟩ := exists_linearise_of_step hq
    by_cases finite : l.IsFinite
    · obtain ⟨a, factored, newton, found, settled, last, -, -, -, hfound, hsettled, -, rfl⟩ :=
        (step_of_finite hl finite).mp hq
      exact isFinite_settled budget rfl hfound hsettled (Status.merge_eq_successful_iff.mp status).2
    · have hstep : (g.step r y s).outcome = .ok q := hq
      rw [step_of_not_finite hl finite] at hstep
      obtain rfl := Except.ok.inj hstep
      cases (Status.merge_eq_successful_iff.mp status).2

end GaussNewton

namespace Lbfgs

theorem terminate_successful {l : Lbfgs F} {y : Vec F} {s : LbfgsState F}
    (h : (l.terminate y s).2 = .successful) :
    Vec.allFinite y = true ∧ (s.step = 0 ∨ Scalar.isFinite s.objective = true) := by
  have status : Status.select (Vec.allFinite y && (s.step == 0 || Scalar.isFinite s.objective))
      s.status .nonlinearDivergence = .successful := by
    by_cases first : s.step = 0
    · rwa [terminate, if_pos first] at h
    · rwa [terminate, if_neg first] at h
  cases finite : Vec.allFinite y && (s.step == 0 || Scalar.isFinite s.objective) with
  | false =>
    rw [finite] at status
    cases status
  | true => simpa using finite

theorem stepSucceedsFinitely (l : Lbfgs F) (f : Objective F A) :
    (l.solver f).StepSucceedsFinitely (·.objective) where
  waits y outputs tags s hinit := by
    obtain ⟨-, rfl⟩ := l.coherent_of_init hinit
    rfl
  value y s success := (terminate_successful success).1
  objective y s q hq success := by
    obtain ⟨v, gradient, found, settled, g, -, -, -, -, rfl⟩ := l.step_outcome_iff.mp hq
    exact (terminate_successful success).2.resolve_left (Nat.succ_ne_zero s.step)

end Lbfgs

/-- Neither method ends as a success before its first step, at a candidate that is not finite, or
with an objective that is not finite, whatever its problem, its start and its configuration. -/
theorem success_is_finite [FiniteBelowInfinity F] {B : Type} (g : GaussNewton F) (l : Lbfgs F)
    (budget : 0 < g.searchSteps) (r : Residual F A) (f : Objective F B) :
    (g.solver r).SucceedsFinitely (·.objective) ∧ (l.solver f).SucceedsFinitely (·.objective) :=
  ⟨(g.stepSucceedsFinitely r budget).succeedsFinitely, (l.stepSucceedsFinitely f).succeedsFinitely⟩

/-- How far the entries are from one. At zero it is not a number. -/
def offOne : Residual Float Unit := fun d =>
  .ok (d.map fun x => x - (1 : Float) + (0 : Float) / x, ())

/-- Searches of at most three trials. -/
def threeTrials : Lbfgs Float := { Lbfgs.standard with searchSteps := 3 }

omit [Scalar F] in
private theorem exists_success {Y : Type}
    {found : Except Fault (Except (SolveError F Y A) (Solution Y A))}
    (h : found.map (·.toOption.map (·.status)) = .ok (some .successful)) :
    ∃ solution, found = .ok (.ok solution) ∧ solution.status = .successful := by
  obtain ⟨result, rfl, status⟩ := map_eq_ok_iff.mp h
  cases result with
  | error e => cases status
  | ok solution => exact ⟨solution, rfl, Option.some.inj status⟩

/-- Both methods reach one in double precision. -/
theorem success_is_finite_offOne :
    (∃ solution, ((GaussNewton.standard.solver offOne).solve [2] 1 .standard none).outcome =
        .ok (.ok solution) ∧ solution.status = .successful ∧
      0 < solution.stats.numSteps ∧ ∀ x ∈ solution.value, Scalar.isFinite x = true) ∧
    ∃ solution, ((threeTrials.solver offOne.sumOfSquares).solve [1.5] 1 .standard none).outcome =
        .ok (.ok solution) ∧ solution.status = .successful ∧
      0 < solution.stats.numSteps ∧ ∀ x ∈ solution.value, Scalar.isFinite x = true := by
  obtain ⟨least, minimum⟩ := success_is_finite GaussNewton.standard threeTrials (by decide) offOne
    offOne.sumOfSquares
  constructor
  · have succeeds : ((GaussNewton.standard.solver offOne).solve [2] 1 .standard none).outcome.map
        (·.toOption.map (·.status)) = .ok (some .successful) := by decide +kernel
    obtain ⟨solution, hsolution, status⟩ := exists_success succeeds
    obtain ⟨stepped, finite, -⟩ := least [2] 1 .standard none solution hsolution status
    exact ⟨solution, hsolution, status, stepped, finite⟩
  · have succeeds : ((threeTrials.solver offOne.sumOfSquares).solve [1.5] 1 .standard
        none).outcome.map (·.toOption.map (·.status)) = .ok (some .successful) := by decide +kernel
    obtain ⟨solution, hsolution, status⟩ := exists_success succeeds
    obtain ⟨stepped, finite, -⟩ := minimum [1.5] 1 .standard none solution hsolution status
    exact ⟨solution, hsolution, status, stepped, finite⟩

end DualOpt
