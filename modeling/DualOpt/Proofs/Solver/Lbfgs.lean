import DualOpt.Proofs.LineSearch
import DualOpt.Proofs.Forward.Shape
import DualOpt.Proofs.Solver.Direction
import DualOpt.Proofs.Solver.Standstill

/-!
One step of the limited-memory BFGS method: what holds in every state that is reached, in any
arithmetic, and when a step stands still, in exact arithmetic.
-/
namespace DualOpt

namespace Lbfgs
variable {A : Type}

section Sizes
variable {F : Type} [Scalar F] {n : ℕ} {history : List (CurvaturePair F)}

theorem sized_remember {memory : ℕ} {step change : Vec F} (sized : Sized n history)
    (hstep : step.length = n) (hchange : change.length = n) :
    Sized n (remember memory history step change) := by
  rw [remember]
  split
  · intro p hp
    rcases List.mem_append.mp hp with old | new
    · split at old
      · exact sized p (List.mem_of_mem_tail old)
      · exact sized p old
    · obtain rfl := List.mem_singleton.mp new
      exact ⟨hstep, hchange⟩
  · exact sized

theorem curved_remember {memory : ℕ} {step change : Vec F} (curved : Curved history) :
    Curved (remember memory history step change) := by
  rw [remember]
  split
  · next accepted =>
    intro p hp
    rcases List.mem_append.mp hp with old | new
    · split at old
      · exact curved p (List.mem_of_mem_tail old)
      · exact curved p old
    · obtain rfl := List.mem_singleton.mp new
      simp only [Bool.and_eq_true, decide_eq_true_eq] at accepted
      exact ⟨accepted.1, rfl⟩
  · exact curved

/-- The objective at a point. -/
def valueAt (f : Objective F A) (x : Vec F) : Except Fault F := do
  let (value, _) ← f.evaluate x
  return value

theorem measure_eq (f : Objective F A) (y d : Vec F) :
    measure f y d = Backtracking.alongLine (valueAt f) y d := by
  funext α
  simp only [measure, Backtracking.alongLine, valueAt]
  cases f.evaluate (Vec.axpy α d y) <;> rfl

theorem evaluate_of_gradientWith {f : Objective F A} {y : Vec F} {g : Gradient F A}
    (h : gradientWith f y = .ok g) : f.evaluate y = .ok (g.value, g.payload) := by
  obtain ⟨p, hp, h⟩ := bind_eq_ok_iff.mp h
  obtain ⟨gradient, -, h⟩ := bind_eq_ok_iff.mp h
  obtain rfl := Except.ok.inj h
  simp [Objective.evaluate, hp]

theorem valueAt_of_gradientWith {f : Objective F A} {y : Vec F} {g : Gradient F A}
    (h : gradientWith f y = .ok g) : valueAt f y = .ok g.value := by
  simp [valueAt, evaluate_of_gradientWith h]

/-- What holds at every candidate of a run: the value and the gradient that the state keeps are
those of the candidate, and the history is made of pairs of its length with positive curvature. -/
structure Coherent (f : Objective F A) (y : Vec F) (s : LbfgsState F) : Prop where
  kept : ∀ gradient ∈ s.gradient, ∃ payload, gradientWith f y = .ok ⟨s.objective, gradient, payload⟩
  sized : Sized y.length s.history
  curved : Curved s.history

theorem Coherent.current {f : Objective F A} {y : Vec F} {s : LbfgsState F}
    (h : Coherent f y s) {v : F} {gradient : Vec F} (hcurrent : current f y s = .ok (v, gradient)) :
    ∃ payload, gradientWith f y = .ok ⟨v, gradient, payload⟩ := by
  rw [Lbfgs.current] at hcurrent
  cases hgradient : s.gradient with
  | some kept =>
    rw [hgradient] at hcurrent
    obtain ⟨rfl, rfl⟩ := Prod.mk.inj (Except.ok.inj hcurrent)
    exact h.kept _ hgradient
  | none =>
    rw [hgradient] at hcurrent
    obtain ⟨g, hg, hpair⟩ := bind_eq_ok_iff.mp hcurrent
    obtain ⟨rfl, rfl⟩ := Prod.mk.inj (Except.ok.inj hpair)
    exact ⟨g.payload, hg⟩

section Step
variable (l : Lbfgs F) {f : Objective F A} {y : Vec F} {s : LbfgsState F}

/-- What a search is told. -/
def searchInput (gradient y : Vec F) : SearchInput F :=
  { vector := some gradient, operator := some (.identity y.length) }

/-- What a step returns that settles on a difference and meets the gradient `g` there. -/
def stepResult (y : Vec F) (s : LbfgsState F) (v : F) (gradient : Vec F)
    (settled : Vec F × Status) (g : Gradient F A) : Vec F × LbfgsState F × A :=
  (Vec.add y settled.1,
    { step := s.step + 1, objective := g.value, gradient := some g.gradient,
      objectiveDiff := v - g.value, diff := settled.1, status := s.status.merge settled.2,
      history := remember l.memory s.history settled.1 (Vec.sub g.gradient gradient) },
    g.payload)

theorem step_outcome_iff {q : Vec F × LbfgsState F × A} : (l.step f y s).outcome = .ok q ↔
    ∃ v gradient found settled g, current f y s = .ok (v, gradient) ∧
      l.lineSearch.find (measure f y (direction gradient s.history)) (searchInput gradient y)
        l.searchSteps = .ok found ∧
      (settle y found).outcome = .ok settled ∧
      gradientWith f (Vec.add y settled.1) = .ok g ∧ q = l.stepResult y s v gradient settled g := by
  rw [step, Traced.outcome_bind, Traced.outcome_liftM]
  constructor
  · intro h
    obtain ⟨⟨v, gradient⟩, hcurrent, h⟩ := bind_eq_ok_iff.mp h
    simp only [Traced.outcome_bind] at h
    obtain ⟨found, hfound, h⟩ := bind_eq_ok_iff.mp h
    obtain ⟨settled, hsettled, h⟩ := bind_eq_ok_iff.mp h
    obtain ⟨g, hg, h⟩ := bind_eq_ok_iff.mp h
    exact ⟨v, gradient, found, settled, g, hcurrent, hfound, hsettled, hg, (Except.ok.inj h).symm⟩
  · rintro ⟨v, gradient, found, settled, g, hcurrent, hfound, hsettled, hg, rfl⟩
    rw [Backtracking.find, searchInput] at hfound
    simp only [hcurrent, ok_bind, Traced.outcome_bind, hfound, hsettled, Traced.outcome_liftM, hg]
    rfl

theorem settle_error (e : SolveError F F (SearchReport F Unit)) :
    (settle y (.error e)).outcome = .ok (Vec.zerosLike y, .nonlinearDivergence) := by
  cases e <;> rfl

theorem settle_report {solution : Solution F (SearchReport F Unit)}
    {report : SearchReport F Unit} (status : solution.status ≠ .nonlinearDivergence)
    (payload : solution.payload = some report) :
    (settle y (.ok solution)).outcome = .ok (report.runningMinDiff, .successful) := by
  simp [settle, payload, status, Status.select]

theorem settle_none {solution : Solution F (SearchReport F Unit)}
    (status : solution.status ≠ .nonlinearDivergence) (payload : solution.payload = none) :
    (settle y (.ok solution)).outcome = .ok (Vec.zerosLike y, .successful) := by
  simp [settle, payload, status, Status.select]

/-- Along an identity, the gradient of a search is the one it is told. -/
theorem initialState_of_init {gradient : Vec F} {s : BacktrackingState F}
    (h : (l.lineSearch.init (searchInput gradient y)).outcome = .ok (.ok s)) :
    s = Backtracking.initialState (searchInput gradient y) gradient := by
  obtain ⟨vector, operator, told, hvector, hoperator, htold, -, rfl⟩ :=
    l.lineSearch.exists_of_init h
  obtain rfl := Option.some.inj hvector
  obtain rfl := Option.some.inj hoperator
  rw [l.lineSearch.eq_of_gradientOf_identity htold]

/-- A search settles on a step as long as the candidate, if the gradient and the remembered pairs
have its length. -/
theorem length_settled {gradient : Vec F} (hgradient : gradient.length = y.length)
    (sized : Sized y.length s.history) {found : Backtracking.Found F}
    (hfound : l.lineSearch.find (measure f y (direction gradient s.history))
      (searchInput gradient y) l.searchSteps = .ok found)
    {settled : Vec F × Status} (h : (settle y found).outcome = .ok settled) :
    settled.1.length = y.length := by
  cases found with
  | error e =>
    rw [settle_error] at h
    obtain rfl := Except.ok.inj h
    exact Vec.length_zerosLike y
  | ok solution =>
    obtain rfl := Except.ok.inj h
    cases hpayload : solution.payload with
    | none => exact Vec.length_zerosLike y
    | some report =>
      rw [measure_eq] at hfound
      refine l.lineSearch.length_of_find (length_direction hgradient sized) (fun s hinit => ?_)
        hfound hpayload
      rw [l.initialState_of_init hinit]
      exact hgradient

theorem Coherent.length_settled (coherent : Coherent f y s) {v : F} {gradient : Vec F}
    (hcurrent : Lbfgs.current f y s = .ok (v, gradient))
    {found : Backtracking.Found F}
    (hfound : l.lineSearch.find (measure f y (direction gradient s.history))
      (searchInput gradient y) l.searchSteps = .ok found)
    {settled : Vec F × Status} (h : (settle y found).outcome = .ok settled) :
    settled.1.length = y.length := by
  obtain ⟨payload, hgradient⟩ := coherent.current hcurrent
  exact l.length_settled (length_of_gradientWith hgradient) coherent.sized hfound h

/-- A step keeps the length of the candidate, and the state goes with the new candidate. -/
theorem Coherent.step (coherent : Coherent f y s)
    {q : Vec F × LbfgsState F × A} (h : (l.step f y s).outcome = .ok q) :
    q.1.length = y.length ∧ Coherent f q.1 q.2.1 := by
  obtain ⟨v, gradient, found, settled, g, hcurrent, hfound, hsettled, hg, rfl⟩ :=
    l.step_outcome_iff.mp h
  obtain ⟨payload, hgradient⟩ := coherent.current hcurrent
  have length_settled := coherent.length_settled l hcurrent hfound hsettled
  have length_next : (Vec.add y settled.1).length = y.length := by
    rw [Vec.length_add, length_settled, Nat.min_self]
  dsimp only [stepResult]
  refine ⟨length_next, ?_, ?_, curved_remember coherent.curved⟩
  · intro kept hkept
    obtain rfl := Option.some.inj hkept
    exact ⟨g.payload, hg⟩
  · rw [length_next]
    refine sized_remember coherent.sized length_settled ?_
    rw [Vec.length_sub, length_of_gradientWith hg, length_next, length_of_gradientWith hgradient,
      Nat.min_self]

/-- A run starts with nothing kept and nothing remembered. -/
theorem coherent_of_init {outputs : ℕ} {tags : Tags}
    (hinit : ((l.solver f).init y outputs tags).outcome = .ok (.ok s)) :
    Coherent f y s ∧ s = initialState y := by
  rw [solver, Traced.outcome_bind] at hinit
  obtain ⟨s', hs', hs⟩ := bind_eq_ok_iff.mp hinit
  obtain ⟨-, -, hinitial⟩ := bind_eq_ok_iff.mp hs'
  obtain rfl : s' = s := Except.ok.inj (Except.ok.inj hs)
  obtain rfl := Except.ok.inj hinitial
  refine ⟨⟨?_, List.forall_mem_nil _, List.forall_mem_nil _⟩, rfl⟩
  intro gradient hgradient
  cases hgradient

end Step

end Sizes

/-- No trial of the search that starts at a state is lower. -/
def Blocked (l : Lbfgs ℝ) (f : Objective ℝ A) (y : Vec ℝ) (s : LbfgsState ℝ) : Prop :=
  ∃ g, gradientWith f y = .ok g ∧
    Backtracking.Blocked (valueAt f) y (direction g.gradient s.history)
      l.lineSearch.decreaseFactor (l.searchSteps - 1)

/-- The gradient is zero, or the search that starts at a state goes downhill. -/
def Directed (f : Objective ℝ A) (y : Vec ℝ) (s : LbfgsState ℝ) : Prop :=
  ∃ g, gradientWith f y = .ok g ∧
    (g.gradient = Vec.zerosLike y ∨ Vec.inner g.gradient (direction g.gradient s.history) < 0)

/-- Where the gradient of a state that is reached is not zero, the direction leads downhill. -/
theorem Coherent.directed {f : Objective ℝ A} {y : Vec ℝ} {s : LbfgsState ℝ} (h : Coherent f y s)
    {g : Gradient ℝ A} (hg : gradientWith f y = .ok g) : Directed f y s := by
  have length : g.gradient.length = y.length := length_of_gradientWith hg
  refine ⟨g, hg, ?_⟩
  by_cases zero : Vec.coords y.length g.gradient = 0
  · left
    apply Vec.eq_of_coords_eq length (Vec.length_zerosLike y)
    rw [zero, Vec.coords_zerosLike]
  · right
    exact inner_direction_neg h.sized h.curved length zero

variable (l : Lbfgs ℝ) {f : Objective ℝ A} {y : Vec ℝ} {s : LbfgsState ℝ}

/-- The settled step is zero, if the search could not start or was not to begin, or it goes to the
best point that the search met. -/
theorem settle_cases {d : Vec ℝ} {input : SearchInput ℝ}
    (fresh : input.initialObjective = none) (unset : input.initialMultiplier = none)
    {found : Backtracking.Found ℝ}
    (hfound : l.lineSearch.find (measure f y d) input l.searchSteps = .ok found)
    {settled : Vec ℝ × Status} (h : (settle y found).outcome = .ok settled) :
    ((∃ e, (l.lineSearch.init input).outcome = .ok (.error e)) ∧
      settled = (Vec.zerosLike y, .nonlinearDivergence)) ∨
    (l.searchSteps = 0 ∧ settled = (Vec.zerosLike y, .successful)) ∨
    settled.2 = .successful ∧ ∃ f₀ least n,
      Backtracking.Surveyed (valueAt f) y d l.lineSearch.multiplier n f₀ least settled.1 ∧
      n ≤ l.searchSteps - 1 ∧
      (n < l.searchSteps - 1 → 0 ≤ l.lineSearch.slope → least < f₀) := by
  rw [measure_eq] at hfound
  rcases l.lineSearch.find_alongLine fresh unset hfound with ⟨e, hinit, rfl⟩ |
    ⟨-, solution, -, rfl, status, ⟨none, payload⟩ | ⟨report, f₀, least, n, payload, reports⟩⟩
  · rw [settle_error] at h
    exact .inl ⟨⟨e, hinit⟩, (Except.ok.inj h).symm⟩
  · rw [settle_none status payload] at h
    exact .inr (.inl ⟨none, (Except.ok.inj h).symm⟩)
  · rw [settle_report status payload] at h
    obtain rfl := Except.ok.inj h
    have within := reports.within
    exact .inr (.inr ⟨rfl, f₀, least, n, reports.surveyed, by omega,
      fun hlt => (reports.early (by omega)).2⟩)

theorem terminate_status : (l.terminate y s).2 = s.status := by
  by_cases first : s.step = 0 <;> simp [terminate, first, Vec.allFinite_real, Status.select]

/-- A zero step has no curvature, so it is not remembered. -/
theorem remember_zerosLike (memory : ℕ) (history : List (CurvaturePair ℝ)) (y change : Vec ℝ) :
    remember memory history (Vec.zerosLike y) change = history := by
  have curvature : Vec.inner (Vec.zerosLike y) change = 0 := by
    rw [Vec.inner_eq_dotProduct (n := y.length) change (by simp), Vec.coords_zerosLike,
      zero_dotProduct]
  simp [remember, curvature]

theorem terminate_of_zero (later : s.step ≠ 0) (zero : s.diff = Vec.zerosLike y)
    (unchanged : s.objectiveDiff = 0) : (l.terminate y s).1 = true := by
  simp only [terminate, if_neg later, zero, unchanged, l.convergence.converged_zerosLike]

/-- A step that does not fail is zero exactly if no trial of its search is lower. -/
theorem Coherent.diff_eq_zerosLike_iff (shrinks : l.lineSearch.decreaseFactor ≠ 0)
    (nonneg : 0 ≤ l.lineSearch.slope) (budget : 0 < l.searchSteps) (coherent : Coherent f y s)
    {q : Vec ℝ × LbfgsState ℝ × A} (h : (l.step f y s).outcome = .ok q)
    (success : q.2.1.status = .successful) :
    q.2.1.diff = Vec.zerosLike y ↔ l.Blocked f y s := by
  obtain ⟨v, gradient, found, settled, g, hcurrent, hfound, hsettled, hg, rfl⟩ :=
    l.step_outcome_iff.mp h
  obtain ⟨payload, hgradient⟩ := coherent.current hcurrent
  have length_d := length_direction (length_of_gradientWith hgradient) coherent.sized
  have searched : settled.2 = .successful := (Status.merge_eq_successful_iff.mp success).2
  rcases l.settle_cases rfl rfl hfound hsettled with
    ⟨-, rfl⟩ | ⟨none, -⟩ | ⟨-, f₀, least, n, surveyed, hn, early⟩
  · cases searched
  · exact absurd none budget.ne'
  rw [l.lineSearch.multiplier_eq_pow shrinks] at surveyed
  dsimp only [stepResult]
  rw [surveyed.diff_eq_zerosLike_iff length_d hn fun hlt => early hlt nonneg]
  constructor
  · intro blocked
    exact ⟨_, hgradient, blocked⟩
  · rintro ⟨g', hg', blocked⟩
    obtain rfl := Except.ok.inj (hgradient.symm.trans hg')
    exact blocked

/-- A zero step changes nothing of the state that a later step or the test looks at. -/
theorem Coherent.stays (coherent : Coherent f y s) {q : Vec ℝ × LbfgsState ℝ × A}
    (h : (l.step f y s).outcome = .ok q) (zero : q.2.1.diff = Vec.zerosLike y) :
    q.1 = y ∧ q.2.1.history = s.history ∧ q.2.1.objectiveDiff = 0 ∧ q.2.1.step = s.step + 1 := by
  obtain ⟨v, gradient, found, settled, g, hcurrent, -, -, hg, rfl⟩ := l.step_outcome_iff.mp h
  obtain ⟨payload, hgradient⟩ := coherent.current hcurrent
  have hzero : settled.1 = Vec.zerosLike y := zero
  have stays : Vec.add y settled.1 = y := by rw [hzero, Vec.add_zerosLike]
  rw [stays, hgradient] at hg
  obtain rfl := Except.ok.inj hg
  refine ⟨stays, ?_, sub_self v, rfl⟩
  dsimp only [stepResult]
  rw [hzero, remember_zerosLike]

/-- A step stands still exactly if no trial of its search is lower, and this passes every test. -/
theorem stepStandsStill (f : Objective ℝ A) (shrinks : l.lineSearch.decreaseFactor ≠ 0)
    (nonneg : 0 ≤ l.lineSearch.slope) (budget : 0 < l.searchSteps) :
    (l.solver f).StepStandsStill (·.diff) (l.Blocked f) (Directed f) (Coherent f) where
  start y outputs tags s hinit := by
    obtain ⟨coherent, rfl⟩ := l.coherent_of_init hinit
    exact ⟨coherent, rfl⟩
  keeps y s q coherent hstep := (coherent.step l hstep).2
  zero_iff y s q coherent hstep success := by
    rw [solver, terminate_status] at success
    exact coherent.diff_eq_zerosLike_iff l shrinks nonneg budget hstep success
  stays y s q coherent hstep _ zero := by
    obtain ⟨stays, history, unchanged, steps⟩ := coherent.stays l hstep zero
    have next : Coherent f q.1 q.2.1 := (coherent.step l hstep).2
    obtain ⟨v, gradient, -, -, -, hcurrent, -⟩ := l.step_outcome_iff.mp hstep
    obtain ⟨payload, hgradient⟩ := coherent.current hcurrent
    rw [stays] at next ⊢
    refine ⟨rfl, ?_, ?_, next.directed hgradient⟩
    · exact l.terminate_of_zero (by omega) zero unchanged
    · -- The history is the same, so the next search is the one that has just been made.
      rw [Blocked, Blocked, history]
      exact id
  length y s q coherent hstep _ := (coherent.step l hstep).1

theorem exists_current (f : List (Dual ℝ) → Dual ℝ × A) (y : Vec ℝ) (s : LbfgsState ℝ) :
    ∃ v gradient, current (fun d => .ok (f d)) y s = .ok (v, gradient) := by
  rw [current]
  cases s.gradient with
  | some gradient => exact ⟨_, _, rfl⟩
  | none =>
    rw [gradientWith_ok]
    exact ⟨_, _, rfl⟩

/-- A step on a function with a value everywhere returns and adds no failure. -/
theorem exists_step (mode : l.lineSearch.mode = .gradient) (f : List (Dual ℝ) → Dual ℝ × A)
    (y : Vec ℝ) (s : LbfgsState ℝ) :
    ∃ q, (l.step (fun d => .ok (f d)) y s).outcome = .ok q ∧ q.2.1.status = s.status := by
  obtain ⟨v, gradient, hcurrent⟩ := exists_current f y s
  have hinit : (l.lineSearch.init (searchInput gradient y)).outcome =
      .ok (.ok (Backtracking.initialState (searchInput gradient y) gradient)) := by
    simp [Backtracking.init, searchInput, Backtracking.gradientOf, mode]
  have total (α : ℝ) : ∃ v, valueAt (fun d => .ok (f d))
      (Vec.axpy α (direction gradient s.history) y) = .ok v := ⟨_, rfl⟩
  obtain ⟨found, hfound⟩ := l.lineSearch.exists_find_alongLine total l.searchSteps hinit
  obtain ⟨settled, hsettled⟩ : ∃ settled, (settle y found).outcome = .ok settled := by
    cases found with
    | error e => exact ⟨_, settle_error e⟩
    | ok solution => exact ⟨_, rfl⟩
  rw [← measure_eq] at hfound
  have searched : settled.2 = .successful := by
    rcases l.settle_cases rfl rfl hfound hsettled with ⟨⟨e, he⟩, -⟩ | ⟨-, rfl⟩ | ⟨successful, -⟩
    · rw [hinit] at he
      cases he
    · rfl
    · exact successful
  refine ⟨_, l.step_outcome_iff.mpr ⟨v, gradient, found, settled, _, hcurrent, hfound, hsettled,
    gradientWith_ok f _, rfl⟩, ?_⟩
  rw [stepResult, searched, Status.merge_successful]

end Lbfgs
end DualOpt
