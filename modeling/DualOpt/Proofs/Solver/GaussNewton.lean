import DualOpt.Proofs.Linear.LeastSquares
import DualOpt.Proofs.LineSearch
import DualOpt.Proofs.Solver.SearchGradient
import DualOpt.Proofs.Solver.Standstill
import DualOpt.Solver.GaussNewton

/-!
One step of the Gauss-Newton method in exact arithmetic: where it leads, its direction, and when it
stands still.
-/
namespace DualOpt

open Matrix

/-- Whether a linearisation allows a search. -/
def Linearisation.IsFinite {F A : Type} [Scalar F] (l : Linearisation F A) : Prop :=
  Vec.allFinite l.values = true ∧ l.jacobian.all Vec.allFinite = true

namespace GaussNewton
variable {A : Type}

section Definitions
variable {F : Type} [Scalar F]

/-- The objective at a point. -/
def valueAt (r : Residual F A) (x : Vec F) : Except Fault F := do
  let (values, _) ← r.evaluate x
  return halfSquares values

theorem measure_eq (r : Residual F A) (y d : Vec F) :
    measure r y d = Backtracking.alongLine (valueAt r) y d := by
  funext α
  simp only [measure, Backtracking.alongLine, valueAt]
  cases r.evaluate (Vec.axpy α d y) <;> rfl

theorem evaluate_of_linearise {r : Residual F A} {y : Vec F} {l : Linearisation F A}
    (h : linearise r y = .ok l) : r.evaluate y = .ok (l.values, l.payload) := by
  obtain ⟨p, hp, h⟩ := bind_eq_ok_iff.mp h
  obtain ⟨columns, -, h⟩ := bind_eq_ok_iff.mp h
  obtain rfl := Except.ok.inj h
  simp [Residual.evaluate, hp]

theorem valueAt_of_linearise {r : Residual F A} {y : Vec F} {l : Linearisation F A}
    (h : linearise r y = .ok l) : valueAt r y = .ok (halfSquares l.values) := by
  simp [valueAt, evaluate_of_linearise h]

/-- The gradient of half the sum of squares, `Jᵀr`. -/
def gradient (l : Linearisation F A) (y : Vec F) : Vec F :=
  l.jacobian.transposeMulVec l.values y.length

/-- The direction along which a step searches. -/
def direction (g : GaussNewton F) (r : Residual F A) (y : Vec F) : Except Fault (Vec F) := do
  let l ← linearise r y
  let factored ← g.linearSolver.factor (.dense (← Dense.ofRows l.jacobian))
  let (newton, _) ← g.linearSolver.solve factored l.values
  return Vec.scale (-1) newton

theorem direction_of_solve {g : GaussNewton F} {r : Residual F A} {y : Vec F}
    {l : Linearisation F A} {a : Dense F} {factored : Factored F} {newton : Vec F × Status}
    (hl : linearise r y = .ok l) (ha : Dense.ofRows l.jacobian = .ok a)
    (hfactored : g.linearSolver.factor (.dense a) = .ok factored)
    (hnewton : g.linearSolver.solve factored l.values = .ok newton) :
    g.direction r y = .ok (Vec.scale (-1) newton.1) := by
  simp [direction, hl, ha, hfactored, hnewton]

/-- What a search is told at a linearisation. -/
def searchInput (l : Linearisation F A) (a : Dense F) (y : Vec F) : SearchInput F :=
  { vector := some l.values, operator := some (.dense a), diff := some y }

/-- What a step returns that settles on a difference, an objective and a status. -/
def stepResult (y : Vec F) (s : GaussNewtonState F) (f : F) (linear : Status)
    (settled : Vec F × F × Status) (payload : A) : Vec F × GaussNewtonState F × A :=
  (Vec.add y settled.1,
    ⟨s.step + 1, settled.2.1, f - settled.2.1, settled.1,
      (s.status.merge linear).merge settled.2.2⟩,
    payload)

section Step
variable {g : GaussNewton F} {r : Residual F A} {y : Vec F} {s : GaussNewtonState F}
variable {l : Linearisation F A} {q : Vec F × GaussNewtonState F × A}

theorem exists_linearise_of_step (h : (g.step r y s).outcome = .ok q) :
    ∃ l, linearise r y = .ok l := by
  rw [step, Traced.outcome_bind, Traced.outcome_liftM] at h
  obtain ⟨l, hl, -⟩ := bind_eq_ok_iff.mp h
  exact ⟨l, hl⟩

/-- Where the residual or its Jacobian is not finite a step stays and fails. -/
theorem step_of_not_finite (hl : linearise r y = .ok l) (infinite : ¬ l.IsFinite) :
    (g.step r y s).outcome = .ok (y, ⟨s.step + 1, halfSquares l.values, 0, Vec.zerosLike y,
      s.status.merge .nonlinearDivergence⟩, l.payload) := by
  have stays : (!Vec.allFinite l.values || !l.jacobian.all Vec.allFinite) = true := by
    by_contra searches
    exact infinite (by simpa [Linearisation.IsFinite] using searches)
  rw [step, Traced.outcome_bind, Traced.outcome_liftM, hl, ok_bind]
  simp only [stays, if_true]
  rfl

/-- Elsewhere it searches along the solution of the linearised problem. -/
theorem step_of_finite (hl : linearise r y = .ok l) (finite : l.IsFinite) :
    (g.step r y s).outcome = .ok q ↔
    ∃ a factored newton found settled last,
      Dense.ofRows l.jacobian = .ok a ∧ g.linearSolver.factor (.dense a) = .ok factored ∧
      g.linearSolver.solve factored l.values = .ok newton ∧
      g.lineSearch.find (measure r y (Vec.scale (-1) newton.1)) (searchInput l a y)
        g.searchSteps = .ok found ∧
      (settle y (halfSquares l.values) found).outcome = .ok settled ∧
      r.evaluate (Vec.add y settled.1) = .ok last ∧
      q = stepResult y s (halfSquares l.values) newton.2 settled last.2 := by
  have searches : (!Vec.allFinite l.values || !l.jacobian.all Vec.allFinite) = false := by
    simp [finite.1, finite.2]
  rw [step, Traced.outcome_bind, Traced.outcome_liftM, hl, ok_bind]
  simp only [searches, Bool.false_eq_true, if_false, Traced.outcome_bind]
  constructor
  · intro h
    obtain ⟨a, ha, h⟩ := bind_eq_ok_iff.mp h
    obtain ⟨factored, hfactored, h⟩ := bind_eq_ok_iff.mp h
    obtain ⟨newton, hnewton, h⟩ := bind_eq_ok_iff.mp h
    obtain ⟨found, hfound, h⟩ := bind_eq_ok_iff.mp h
    obtain ⟨settled, hsettled, h⟩ := bind_eq_ok_iff.mp h
    obtain ⟨last, hlast, h⟩ := bind_eq_ok_iff.mp h
    exact ⟨a, factored, newton, found, settled, last, ha, hfactored, hnewton, hfound, hsettled,
      hlast, (Except.ok.inj h).symm⟩
  · rintro ⟨a, factored, newton, found, settled, last, ha, hfactored, hnewton, hfound, hsettled,
      hlast, rfl⟩
    rw [Backtracking.find, searchInput] at hfound
    simp only [Traced.outcome_liftM, ha, ok_bind, hfactored, hnewton, hfound, hsettled, hlast]
    rfl

theorem settle_error {f : F} (e : SolveError F F (SearchReport F Unit)) :
    (settle y f (.error e)).outcome = .ok (Vec.zerosLike y, f, .nonlinearDivergence) := by
  cases e <;> rfl

theorem settle_report {f least : F} {solution : Solution F (SearchReport F Unit)}
    {report : SearchReport F Unit} (status : solution.status ≠ .nonlinearDivergence)
    (payload : solution.payload = some report) (running : report.runningMin = some least) :
    (settle y f (.ok solution)).outcome = .ok (report.runningMinDiff, least, .successful) := by
  simp [settle, payload, running, status, Status.select]

theorem settle_none {f : F} {solution : Solution F (SearchReport F Unit)}
    (status : solution.status ≠ .nonlinearDivergence) (payload : solution.payload = none) :
    (settle y f (.ok solution)).outcome = .ok (Vec.zerosLike y, f, .successful) := by
  simp [settle, payload, status, Status.select]

/-- The gradient of a search is the vector it is told, or has an entry for each column of the
operator. -/
theorem length_of_gradientOf {search : Backtracking F} {a : Dense F}
    (width : a.rows.width = a.inSize) {vector gradient : Vec F}
    (h : (search.gradientOf (.dense a) vector).outcome = .ok (.ok gradient)) :
    gradient = vector ∨ gradient.length = a.inSize := by
  cases mode : search.mode with
  | gradient =>
    rw [Backtracking.gradientOf, mode] at h
    exact .inl (Except.ok.inj (Except.ok.inj h)).symm
  | gaussNewton =>
    rw [Backtracking.gradientOf, mode] at h
    by_cases size : (Operator.dense a).outSize = vector.length
    · simp only [size, ne_eq, not_true_eq_false, if_false, Traced.outcome_bind] at h
      obtain ⟨product, hproduct, h⟩ := bind_eq_ok_iff.mp h
      obtain rfl := Except.ok.inj (Except.ok.inj h)
      rw [Traced.outcome_liftM, Operator.transpose, Operator.mulVec,
        if_pos (show vector.length = a.transpose.inSize from size.symm)] at hproduct
      obtain rfl := Except.ok.inj hproduct
      exact .inr (by rw [Rows.length_mulVec, a.length_transpose_rows width])
    · simp [size] at h

theorem inSize_eq {a : Dense F} (hl : linearise r y = .ok l)
    (ha : Dense.ofRows l.jacobian = .ok a) (nonempty : a.rows ≠ []) : y.length = a.inSize := by
  obtain ⟨row, mem⟩ := List.exists_mem_of_ne_nil _ nonempty
  rw [← (shape_of_linearise hl).2 row ((Dense.eq_of_ofRows ha).1 ▸ mem), a.rectangular row mem]

variable (g) in
/-- On a residual and its Jacobian the search starts if their sizes fit. -/
theorem exists_init (mode : g.lineSearch.mode = .gaussNewton) {a : Dense F}
    (height : l.values.length = a.rows.length) (width : a.rows.width = a.inSize)
    (hy : y.length = a.inSize) :
    ∃ start, (g.lineSearch.init (searchInput l a y)).outcome = .ok (.ok start) ∧
      start.gradient = a.transpose.rows.mulVec l.values := by
  refine g.lineSearch.exists_init mode width rfl rfl height fun d hd => ?_
  exact Option.some.inj hd ▸ hy

end Step

end Definitions

/-- Whether the linear solver cuts a pivot of a Jacobian. -/
def CutsPivot (g : GaussNewton ℝ) (l : Linearisation ℝ A) : Prop :=
  ∃ a s, Dense.ofRows l.jacobian = .ok a ∧ g.linearSolver.factor (.dense a) = .ok s ∧
    ¬ g.linearSolver.KeepsAll s.factors

/-- No trial of the search that starts at `y` is lower. -/
def Blocked (g : GaussNewton ℝ) (r : Residual ℝ A) (y : Vec ℝ) : Prop :=
  ∃ d, g.direction r y = .ok d ∧
    Backtracking.Blocked (valueAt r) y d g.lineSearch.decreaseFactor (g.searchSteps - 1)

/-- The gradient at `y` is zero, or the search there goes downhill, or a pivot is cut. -/
def Directed (g : GaussNewton ℝ) (r : Residual ℝ A) (y : Vec ℝ) : Prop :=
  ∃ l d, linearise r y = .ok l ∧ g.direction r y = .ok d ∧
    (gradient l y = Vec.zerosLike y ∨ Vec.inner (gradient l y) d < 0 ∨ g.CutsPivot l)

variable (g : GaussNewton ℝ) {r : Residual ℝ A} {y : Vec ℝ} {s : GaussNewtonState ℝ}

theorem step_outcome_iff {q : Vec ℝ × GaussNewtonState ℝ × A} :
    (g.step r y s).outcome = .ok q ↔
    ∃ l a factored newton found settled last, linearise r y = .ok l ∧
      Dense.ofRows l.jacobian = .ok a ∧ g.linearSolver.factor (.dense a) = .ok factored ∧
      g.linearSolver.solve factored l.values = .ok newton ∧
      g.lineSearch.find (measure r y (Vec.scale (-1) newton.1)) (searchInput l a y)
        g.searchSteps = .ok found ∧
      (settle y (halfSquares l.values) found).outcome = .ok settled ∧
      r.evaluate (Vec.add y settled.1) = .ok last ∧
      q = stepResult y s (halfSquares l.values) newton.2 settled last.2 := by
  have finite (l : Linearisation ℝ A) : l.IsFinite := by
    simp [Linearisation.IsFinite, Vec.allFinite_real]
  constructor
  · intro h
    obtain ⟨l, hl⟩ := exists_linearise_of_step h
    obtain ⟨a, factored, newton, found, settled, last, searched⟩ :=
      (step_of_finite hl (finite l)).mp h
    exact ⟨l, a, factored, newton, found, settled, last, hl, searched⟩
  · rintro ⟨l, a, factored, newton, found, settled, last, hl, searched⟩
    exact (step_of_finite hl (finite l)).mpr
      ⟨a, factored, newton, found, settled, last, searched⟩

/-- A search that starts has found the Jacobian as wide as the candidate is long, also where the
residual has no outputs and its Jacobian no rows to tell. -/
theorem length_eq_of_init {l : Linearisation ℝ A} {a : Dense ℝ} {start : BacktrackingState ℝ}
    (hl : linearise r y = .ok l) (ha : Dense.ofRows l.jacobian = .ok a)
    (hinit : (g.lineSearch.init (searchInput l a y)).outcome = .ok (.ok start)) :
    y.length = a.inSize := by
  obtain ⟨rows, width⟩ := Dense.eq_of_ofRows ha
  have height := (shape_of_linearise hl).1
  by_cases nonempty : a.rows = []
  · obtain ⟨vector, operator, gradient, hvector, hoperator, hgradient, hdiff, -⟩ :=
      g.lineSearch.exists_of_init hinit
    obtain rfl := Option.some.inj hvector
    obtain rfl := Option.some.inj hoperator
    have inSize : a.inSize = 0 := by rw [← width, nonempty]; rfl
    have values : l.values.length = 0 := by rw [← height, ← rows, nonempty]; rfl
    rw [hdiff y rfl, inSize]
    rcases length_of_gradientOf width hgradient with rfl | length
    · exact values
    · rw [length, inSize]
  · exact inSize_eq hl ha nonempty

/-- Where every pivot is kept and the gradient is not zero, the direction leads downhill. -/
theorem stationary_or_downhill {l : Linearisation ℝ A} {a : Dense ℝ} {factored : Factored ℝ}
    {newton : Vec ℝ × Status} (ha : Dense.ofRows l.jacobian = .ok a)
    (hfactored : g.linearSolver.factor (.dense a) = .ok factored)
    (hnewton : g.linearSolver.solve factored l.values = .ok newton) (size : y.length = a.inSize)
    (length : newton.1.length = y.length) :
    gradient l y = Vec.zerosLike y ∨ Vec.inner (gradient l y) (Vec.scale (-1) newton.1) < 0 ∨
      g.CutsPivot l := by
  by_cases keeps : g.linearSolver.KeepsAll factored.factors
  · rw [gradient, size, ← (Dense.eq_of_ofRows ha).1]
    rcases QrSolver.transposeMulVec_eq_fill_or_inner_pos hfactored keeps hnewton with
      zero | uphill
    · left
      rw [zero, Vec.zerosLike, size]
    · right
      left
      have length_gradient := Rows.length_transposeMulVec a.rows l.values a.inSize
      rw [Vec.inner_eq_dotProduct _ length_gradient.le] at uphill ⊢
      rw [Vec.coords_scale _ (length.trans size), dotProduct_smul, smul_eq_mul]
      linarith
  · right
    right
    exact ⟨a, factored, ha, hfactored, keeps⟩

/-- A step that stays where it is, because its search could not start or was not to begin. -/
structure Stays (g : GaussNewton ℝ) (r : Residual ℝ A) (y : Vec ℝ)
    (q : Vec ℝ × GaussNewtonState ℝ × A) : Prop where
  next : q.1 = y
  value : valueAt r y = .ok q.2.1.objective
  change : q.2.1.objectiveDiff = 0
  reason : q.2.1.status ≠ .successful ∨ g.searchSteps = 0

/-- A step that searched along `d` with `n` trials and went to the best point it met. -/
structure Moves (g : GaussNewton ℝ) (r : Residual ℝ A) (y d : Vec ℝ) (n : ℕ) (f : ℝ)
    (q : Vec ℝ × GaussNewtonState ℝ × A) : Prop where
  direction : g.direction r y = .ok d
  length : d.length = y.length
  surveyed : Backtracking.Surveyed (valueAt r) y d g.lineSearch.multiplier n f q.2.1.objective
    q.2.1.diff
  within : n ≤ g.searchSteps - 1
  early : n < g.searchSteps - 1 → 0 < n ∧ (0 ≤ g.lineSearch.slope → q.2.1.objective < f)
  next : q.1 = Vec.add y q.2.1.diff
  change : q.2.1.objectiveDiff = f - q.2.1.objective
  directed : g.Directed r y

/-- A step stays or moves. -/
theorem stays_or_moves {q : Vec ℝ × GaussNewtonState ℝ × A} (h : (g.step r y s).outcome = .ok q) :
    q.2.1.step = s.step + 1 ∧ (g.Stays r y q ∨ ∃ d n f, g.Moves r y d n f q) := by
  obtain ⟨l, a, factored, newton, found, settled, last, hl, ha, hfactored, hnewton, hfound,
    hsettled, -, rfl⟩ := g.step_outcome_iff.mp h
  refine ⟨rfl, ?_⟩
  have direction := direction_of_solve hl ha hfactored hnewton
  have value := valueAt_of_linearise hl
  rw [measure_eq] at hfound
  rcases g.lineSearch.find_alongLine rfl rfl hfound with ⟨e, -, rfl⟩ |
    ⟨state, solution, hinit, rfl, status, ⟨none, payload⟩ | ⟨report, f₀, least, n, payload,
      reports⟩⟩
  · rw [settle_error] at hsettled
    obtain rfl := Except.ok.inj hsettled
    refine .inl ⟨Vec.add_zerosLike y, value, sub_self _, .inl fun success => ?_⟩
    cases (Status.merge_eq_successful_iff.mp success).2
  · rw [settle_none status payload] at hsettled
    obtain rfl := Except.ok.inj hsettled
    exact .inl ⟨Vec.add_zerosLike y, value, sub_self _, .inr none⟩
  · have width := (Dense.eq_of_ofRows ha).2
    have size : y.length = a.inSize := g.length_eq_of_init hl ha hinit
    have length_newton : newton.1.length = y.length :=
      (g.linearSolver.length_of_solve width hfactored hnewton).trans size.symm
    have length_d : (Vec.scale (-1) newton.1).length = y.length := by
      rw [Vec.length_scale, length_newton]
    have directed := g.stationary_or_downhill ha hfactored hnewton size length_newton
    -- The search measures again what the step knows from the linearisation.
    obtain rfl : halfSquares l.values = f₀ :=
      Except.ok.inj (value.symm.trans (reports.surveyed.value_eq length_d))
    rw [settle_report status payload reports.running] at hsettled
    obtain rfl := Except.ok.inj hsettled
    have within := reports.within
    refine .inr ⟨Vec.scale (-1) newton.1, n, halfSquares l.values, ?_⟩
    exact {
      direction := direction
      length := length_d
      surveyed := reports.surveyed
      within := by omega
      early := fun hlt => reports.early (by omega)
      next := rfl
      change := rfl
      directed := ⟨l, _, hl, direction, directed⟩ }

/-- A step that does not fail moves if its search has a budget. -/
theorem exists_moves (budget : 0 < g.searchSteps) {q : Vec ℝ × GaussNewtonState ℝ × A}
    (h : (g.step r y s).outcome = .ok q) (success : q.2.1.status = .successful) :
    q.2.1.step ≠ 0 ∧ ∃ d n f, g.Moves r y d n f q := by
  obtain ⟨later, stays | moves⟩ := g.stays_or_moves h
  · exact (stays.reason.elim (absurd success) budget.ne').elim
  · exact ⟨by rw [later]; exact Nat.succ_ne_zero s.step, moves⟩

theorem terminate_status : (g.terminate y s).2 = s.status := by
  by_cases first : s.step = 0 <;> simp [terminate, first, Vec.allFinite_real, Status.select]

theorem terminate_of_zero (later : s.step ≠ 0) (zero : s.diff = Vec.zerosLike y)
    (unchanged : s.objectiveDiff = 0) : (g.terminate y s).1 = true := by
  simp only [terminate, if_neg later, zero, unchanged, g.convergence.converged_zerosLike,
    Bool.or_true]

/-- A step that moves is zero exactly if no trial of its search is lower. -/
theorem Moves.diff_eq_zerosLike_iff {g : GaussNewton ℝ} {d : Vec ℝ} {n : ℕ} {f : ℝ}
    {q : Vec ℝ × GaussNewtonState ℝ × A} (h : g.Moves r y d n f q)
    (shrinks : g.lineSearch.decreaseFactor ≠ 0) (nonneg : 0 ≤ g.lineSearch.slope) :
    q.2.1.diff = Vec.zerosLike y ↔ g.Blocked r y := by
  have surveyed := h.surveyed
  rw [g.lineSearch.multiplier_eq_pow shrinks] at surveyed
  rw [surveyed.diff_eq_zerosLike_iff h.length h.within fun hlt => (h.early hlt).2 nonneg]
  constructor
  · intro blocked
    exact ⟨d, h.direction, blocked⟩
  · rintro ⟨d', direction', blocked⟩
    obtain rfl : d = d' := Except.ok.inj (h.direction.symm.trans direction')
    exact blocked

/-- A step by the zero vector passes every test. -/
theorem Moves.done_of_zero {g : GaussNewton ℝ} {d : Vec ℝ} {n : ℕ} {f : ℝ}
    {q : Vec ℝ × GaussNewtonState ℝ × A} (h : g.Moves r y d n f q) (later : q.2.1.step ≠ 0)
    (zero : q.2.1.diff = Vec.zerosLike y) : q.1 = y ∧ (g.terminate q.1 q.2.1).1 = true := by
  have stays : q.1 = y := by rw [h.next, zero, Vec.add_zerosLike]
  have unchanged : q.2.1.objectiveDiff = 0 := by
    rw [h.change, h.surveyed.least_eq h.length zero, sub_self]
  rw [stays]
  exact ⟨rfl, g.terminate_of_zero later zero unchanged⟩

/-- A step stands still exactly if no trial of its search is lower, and this passes every test. -/
theorem stepStandsStill (r : Residual ℝ A) (shrinks : g.lineSearch.decreaseFactor ≠ 0)
    (nonneg : 0 ≤ g.lineSearch.slope) (budget : 0 < g.searchSteps) :
    (g.solver r).StepStandsStill (·.diff) (fun y _ => g.Blocked r y) (fun y _ => g.Directed r y)
      fun _ _ => True where
  start y outputs tags s hinit := by
    obtain rfl : initialState y = s := Except.ok.inj (Except.ok.inj hinit)
    exact ⟨trivial, rfl⟩
  keeps _ _ _ _ _ := trivial
  zero_iff y s q _ hstep success := by
    rw [solver, terminate_status] at success
    obtain ⟨-, d, n, f, moves⟩ := g.exists_moves budget hstep success
    exact moves.diff_eq_zerosLike_iff shrinks nonneg
  stays y s q _ hstep success zero := by
    rw [solver, terminate_status] at success
    obtain ⟨later, d, n, f, moves⟩ := g.exists_moves budget hstep success
    obtain ⟨stays, done⟩ := moves.done_of_zero later zero
    refine ⟨stays, done, ?_⟩
    rw [stays]
    exact ⟨id, moves.directed⟩
  length y s q _ hstep success := by
    rw [solver, terminate_status] at success
    obtain ⟨-, d, n, f, moves⟩ := g.exists_moves budget hstep success
    rw [moves.next, Vec.length_add, moves.surveyed.length_diff, moves.length, Nat.min_self]

/-- A step whose linear solve and search can start returns, if the residual has a value on the line
of the search. -/
theorem exists_step (budget : 0 < g.searchSteps) {l : Linearisation ℝ A} {a : Dense ℝ}
    {factored : Factored ℝ} {newton : Vec ℝ} {start : BacktrackingState ℝ}
    (hl : linearise r y = .ok l) (ha : Dense.ofRows l.jacobian = .ok a)
    (hfactored : g.linearSolver.factor (.dense a) = .ok factored)
    (hnewton : g.linearSolver.solve factored l.values = .ok (newton, .successful))
    (total : ∀ α, ∃ p, r.evaluate (Vec.axpy α (Vec.scale (-1) newton) y) = .ok p)
    (hinit : (g.lineSearch.init (searchInput l a y)).outcome = .ok (.ok start)) :
    ∃ q, (g.step r y s).outcome = .ok q ∧ q.2.1.status = s.status := by
  have values (α : ℝ) : ∃ v, valueAt r (Vec.axpy α (Vec.scale (-1) newton) y) = .ok v := by
    obtain ⟨p, hp⟩ := total α
    exact ⟨halfSquares p.1, by simp [valueAt, hp]⟩
  obtain ⟨found, hfound⟩ := g.lineSearch.exists_find_alongLine values g.searchSteps hinit
  rcases g.lineSearch.find_alongLine rfl rfl hfound with ⟨e, he, -⟩ |
    ⟨-, solution, -, rfl, status, ⟨none, -⟩ | ⟨report, f₀, least, n, payload, reports⟩⟩
  · rw [hinit] at he
    cases he
  · exact absurd none budget.ne'
  have hsettled := settle_report (y := y) (f := halfSquares l.values) status payload
    reports.running
  obtain ⟨α, -, hdiff⟩ := reports.surveyed.exists_multiplier
  obtain ⟨last, hlast⟩ := total α
  rw [Vec.axpy_eq_add_scale, ← hdiff] at hlast
  rw [← measure_eq] at hfound
  refine ⟨_, g.step_outcome_iff.mpr ⟨l, a, factored, (newton, .successful), _, _, last, hl, ha,
    hfactored, hnewton, hfound, hsettled, hlast, rfl⟩, ?_⟩
  rw [stepResult, Status.merge_successful, Status.merge_successful]

/-- Such a step moves along the solution of the linear solve, if nothing has failed before. -/
theorem exists_moves_along (mode : g.lineSearch.mode = .gaussNewton) (budget : 0 < g.searchSteps)
    {l : Linearisation ℝ A} {a : Dense ℝ} {factored : Factored ℝ} {newton : Vec ℝ}
    (hl : linearise r y = .ok l) (ha : Dense.ofRows l.jacobian = .ok a) (nonempty : a.rows ≠ [])
    (hfactored : g.linearSolver.factor (.dense a) = .ok factored)
    (hnewton : g.linearSolver.solve factored l.values = .ok (newton, .successful))
    (total : ∀ α, ∃ p, r.evaluate (Vec.axpy α (Vec.scale (-1) newton) y) = .ok p)
    (success : s.status = .successful) :
    ∃ q n f, (g.step r y s).outcome = .ok q ∧ q.2.1.status = .successful ∧ q.2.1.step ≠ 0 ∧
      g.Moves r y (Vec.scale (-1) newton) n f q := by
  have height : l.values.length = a.rows.length := by
    rw [(Dense.eq_of_ofRows ha).1, (shape_of_linearise hl).1]
  obtain ⟨start, hinit, -⟩ :=
    g.exists_init mode height (a.width_rows nonempty) (inSize_eq hl ha nonempty)
  obtain ⟨q, hq, status⟩ := g.exists_step (s := s) budget hl ha hfactored hnewton total hinit
  obtain ⟨later, d, n, f, moves⟩ := g.exists_moves budget hq (status.trans success)
  obtain rfl : Vec.scale (-1) newton = d :=
    Except.ok.inj ((direction_of_solve hl ha hfactored hnewton).symm.trans moves.direction)
  exact ⟨q, n, f, hq, status.trans success, later, moves⟩

end GaussNewton
end DualOpt
