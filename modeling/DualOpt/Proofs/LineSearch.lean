import DualOpt.Proofs.Exact.Coordinates
import DualOpt.Proofs.Finite
import DualOpt.Proofs.Loop
import DualOpt.LineSearch.Backtracking

/-!
The backtracking search along a line in exact arithmetic.

A search that starts by measuring the zero step goes on to the multipliers `1, t, t², …`. What it
reports is the least value it has met. It makes a trial before it may end, and it ends before its
budget only where the test of sufficient decrease holds of the latest trial, which is below the
first value if the slope is not negative. In any arithmetic the least value was measured at the
difference that is reported with it.
-/
namespace DualOpt

namespace Vec

theorem axpy_eq_add_scale {F : Type} [Scalar F] (α : F) (x a : Vec F) :
    axpy α x a = add a (scale α x) := by
  rw [axpy, add, scale, List.zipWith_map_right]

theorem add_zerosLike (y : Vec ℝ) : add y (zerosLike y) = y :=
  eq_of_coords_eq (n := y.length) (by simp) rfl (by rw [coords_add rfl (by simp)]; simp)

theorem scale_zero (x : Vec ℝ) : scale 0 x = zerosLike x :=
  eq_of_coords_eq (n := x.length) (by simp) (by simp) (by rw [coords_scale 0 rfl]; simp)

end Vec

namespace Backtracking

/-- What a search within a step of another solver comes to. -/
abbrev Found (F : Type) :=
  Except (SolveError F F (SearchReport F Unit)) (Solution F (SearchReport F Unit))

/-- A search within a step of another solver, by at most `N` trials. -/
def find {F : Type} [Scalar F] (search : Backtracking F) (measure : F → Except Fault (Trial F Unit))
    (input : SearchInput F) (N : ℕ) : Except Fault (Found F) :=
  ((search.solver measure input).solve (search.firstInitial input) 1
    { SolveOptions.standard with maxSteps := some N, raise := false } none).outcome

/-- Measures a function along a line. -/
def alongLine {F : Type} [Scalar F] (value : Vec F → Except Fault F) (y d : Vec F) (α : F) :
    Except Fault (Trial F Unit) := do
  return { objective := ← value (Vec.axpy α d y), diff := Vec.scale α d, payload := (),
           status := .successful }

theorem step_alongLine {F : Type} [Scalar F] (search : Backtracking F)
    {value : Vec F → Except Fault F} {y d : Vec F} {α : F} {s : BacktrackingState F}
    {q : F × BacktrackingState F × SearchReport F Unit}
    (h : search.step (alongLine value y d) α s = .ok q) :
    ∃ v, value (Vec.axpy (trialAt α s) d y) = .ok v ∧
      q = search.record ⟨v, Vec.scale (trialAt α s) d, (), .successful⟩ α s := by
  rw [step] at h
  obtain ⟨trial, htrial, hrecord⟩ := bind_eq_ok_iff.mp h
  obtain ⟨v, hv, hv'⟩ := bind_eq_ok_iff.mp htrial
  obtain rfl := Except.ok.inj hv'
  exact ⟨v, hv, (Except.ok.inj hrecord).symm⟩

/-- The multiplier of the trial number `k` after the zero step. -/
noncomputable def multiplier (search : Backtracking ℝ) (k : ℕ) : ℝ :=
  search.decreaseFactor ^ (k + 1) * (1 / search.decreaseFactor)

theorem multiplier_zero (search : Backtracking ℝ) (shrinks : search.decreaseFactor ≠ 0) :
    search.multiplier 0 = 1 := by
  rw [multiplier, zero_add, pow_one, mul_one_div_cancel shrinks]

theorem multiplier_eq_pow (search : Backtracking ℝ) (shrinks : search.decreaseFactor ≠ 0) :
    search.multiplier = fun k => search.decreaseFactor ^ k := by
  funext k
  rw [multiplier, pow_succ, mul_assoc, mul_one_div_cancel shrinks, mul_one]

theorem multiplier_succ (search : Backtracking ℝ) (k : ℕ) :
    search.decreaseFactor * search.multiplier k = search.multiplier (k + 1) := by
  rw [multiplier, multiplier, pow_succ' _ (k + 1), mul_assoc]

variable {value : Vec ℝ → Except Fault ℝ} {y d diff : Vec ℝ} {μ : ℕ → ℝ} {f₀ least : ℝ} {n : ℕ}

/-- None of the first `n` trials along `d` is lower than the start. -/
def Blocked (value : Vec ℝ → Except Fault ℝ) (y d : Vec ℝ) (t : ℝ) (n : ℕ) : Prop :=
  ∃ f₀, value y = .ok f₀ ∧ ∀ k < n, ∃ v, value (Vec.axpy (t ^ k) d y) = .ok v ∧ f₀ ≤ v

/-- What is known after the zero step and `n` trials at the multipliers `μ`: `least` is the least
value met, and `diff` is a step to it, the zero step unless a trial is lower. -/
structure Surveyed (value : Vec ℝ → Except Fault ℝ) (y d : Vec ℝ) (μ : ℕ → ℝ) (n : ℕ)
    (f₀ least : ℝ) (diff : Vec ℝ) : Prop where
  start : value (Vec.axpy 0 d y) = .ok f₀
  lower : ∀ k < n, ∃ v, value (Vec.axpy (μ k) d y) = .ok v ∧ least ≤ v
  best : (least = f₀ ∧ diff = Vec.scale 0 d) ∨
    (least < f₀ ∧ ∃ k < n, value (Vec.axpy (μ k) d y) = .ok least ∧ diff = Vec.scale (μ k) d)

namespace Surveyed

theorem least_le (h : Surveyed value y d μ n f₀ least diff) : least ≤ f₀ := by
  rcases h.best with ⟨rfl, -⟩ | ⟨hlt, -⟩
  · exact le_rfl
  · exact hlt.le

theorem next_of_le (h : Surveyed value y d μ n f₀ least diff) {v : ℝ}
    (hv : value (Vec.axpy (μ n) d y) = .ok v) (hle : least ≤ v) :
    Surveyed value y d μ (n + 1) f₀ least diff := by
  refine ⟨h.start, ?_, ?_⟩
  · intro k hk
    rcases Nat.lt_succ_iff_lt_or_eq.mp hk with hk | rfl
    · exact h.lower k hk
    · exact ⟨v, hv, hle⟩
  · rcases h.best with stayed | ⟨hlt, k, hk, hvalue, hdiff⟩
    · exact .inl stayed
    · exact .inr ⟨hlt, k, Nat.lt_succ_of_lt hk, hvalue, hdiff⟩

theorem next_of_lt (h : Surveyed value y d μ n f₀ least diff) {v : ℝ}
    (hv : value (Vec.axpy (μ n) d y) = .ok v) (hlt : v < least) :
    Surveyed value y d μ (n + 1) f₀ v (Vec.scale (μ n) d) := by
  refine ⟨h.start, ?_, .inr ⟨hlt.trans_le h.least_le, n, Nat.lt_succ_self n, hv, rfl⟩⟩
  intro k hk
  rcases Nat.lt_succ_iff_lt_or_eq.mp hk with hk | rfl
  · obtain ⟨w, hw, hle⟩ := h.lower k hk
    exact ⟨w, hw, hlt.le.trans hle⟩
  · exact ⟨v, hv, le_rfl⟩

theorem length_diff (h : Surveyed value y d μ n f₀ least diff) : diff.length = d.length := by
  rcases h.best with ⟨-, rfl⟩ | ⟨-, k, -, -, rfl⟩
  · exact Vec.length_scale 0 d
  · exact Vec.length_scale (μ k) d

theorem value_eq (h : Surveyed value y d μ n f₀ least diff) (hd : d.length = y.length) :
    value y = .ok f₀ := by
  rw [← h.start, Vec.axpy_zero hd]

/-- A zero difference with a multiplier that is not zero would stay at the start, so it is not a
step to a lower value. -/
theorem least_eq (h : Surveyed value y d μ n f₀ least diff) (hd : d.length = y.length)
    (zero : diff = Vec.zerosLike y) : least = f₀ := by
  rcases h.best with ⟨hleast, -⟩ | ⟨hlt, k, -, hvalue, hscale⟩
  · exact hleast
  · have stay : Vec.axpy (μ k) d y = y := by
      rw [Vec.axpy_eq_add_scale, ← hscale, zero, Vec.add_zerosLike]
    rw [stay, h.value_eq hd] at hvalue
    exact absurd (Except.ok.inj hvalue) hlt.ne'

/-- The step leads to the least value. -/
theorem exists_multiplier (h : Surveyed value y d μ n f₀ least diff) :
    ∃ α, value (Vec.axpy α d y) = .ok least ∧ diff = Vec.scale α d := by
  rcases h.best with ⟨rfl, hdiff⟩ | ⟨-, k, -, hvalue, hdiff⟩
  · exact ⟨0, h.start, hdiff⟩
  · exact ⟨μ k, hvalue, hdiff⟩

theorem value_next (h : Surveyed value y d μ n f₀ least diff) :
    value (Vec.add y diff) = .ok least := by
  obtain ⟨α, hvalue, rfl⟩ := h.exists_multiplier
  rwa [← Vec.axpy_eq_add_scale]

/-- A search that may end early only below its start takes the zero step exactly if no trial of its
whole budget is lower. -/
theorem diff_eq_zerosLike_iff {t : ℝ} (h : Surveyed value y d (fun k => t ^ k) n f₀ least diff)
    (hd : d.length = y.length) {m : ℕ} (hn : n ≤ m) (early : n < m → least < f₀) :
    diff = Vec.zerosLike y ↔ Blocked value y d t m := by
  constructor
  · intro zero
    have hleast := h.least_eq hd zero
    obtain rfl : n = m := by
      by_contra hne
      exact (early (lt_of_le_of_ne hn hne)).ne hleast
    exact ⟨f₀, h.value_eq hd, hleast ▸ h.lower⟩
  · rintro ⟨f, hf, blocked⟩
    obtain rfl : f₀ = f := Except.ok.inj ((h.value_eq hd).symm.trans hf)
    rcases h.best with ⟨-, hdiff⟩ | ⟨hlt, k, hk, hvalue, -⟩
    · rw [hdiff, Vec.scale_zero, Vec.zerosLike, Vec.zerosLike, hd]
    · obtain ⟨v, hv, hle⟩ := blocked k (hk.trans_le hn)
      obtain rfl : least = v := Except.ok.inj (hvalue.symm.trans hv)
      exact absurd hle hlt.not_ge

end Surveyed

/-- The state of a search after the zero step and `n` trials. -/
structure Tracks (value : Vec ℝ → Except Fault ℝ) (y d : Vec ℝ) (μ : ℕ → ℝ) (n : ℕ)
    (f₀ least : ℝ) (s : BacktrackingState ℝ) : Prop where
  steps : s.step = n + 1
  measured : s.measureInitial = false
  status : s.status = .successful
  initial : s.initialObjective = f₀
  running : s.runningMin = some least
  latest : least ≤ s.objective
  surveyed : Surveyed value y d μ n f₀ least s.runningMinDiff

/-- The first measurement of a fresh search is at the zero step. -/
theorem tracks_zero (search : Backtracking ℝ) {input : SearchInput ℝ} {gradient : Vec ℝ} {α : ℝ}
    (fresh : input.initialObjective = none)
    {q : ℝ × BacktrackingState ℝ × SearchReport ℝ Unit}
    (h : search.step (alongLine value y d) α (initialState input gradient) = .ok q) :
    ∃ f₀, Tracks value y d μ 0 f₀ f₀ q.2.1 := by
  obtain ⟨v, hv, rfl⟩ := search.step_alongLine h
  simp only [initialState, fresh, trialAt, if_true] at hv ⊢
  refine ⟨v, rfl, rfl, rfl, rfl, rfl, le_rfl, hv, ?_, .inl ⟨rfl, rfl⟩⟩
  intro k hk
  exact absurd hk (Nat.not_lt_zero k)

/-- A trial either is lower than all before it or changes nothing of what is reported. -/
theorem Tracks.next (search : Backtracking ℝ) {s : BacktrackingState ℝ}
    (h : Tracks value y d μ n f₀ least s) {q : ℝ × BacktrackingState ℝ × SearchReport ℝ Unit}
    (hq : search.step (alongLine value y d) (μ n) s = .ok q) :
    ∃ least', Tracks value y d μ (n + 1) f₀ least' q.2.1 := by
  obtain ⟨v, hv, rfl⟩ := search.step_alongLine hq
  have trial : trialAt (μ n) s = μ n := by simp [trialAt, h.measured]
  rw [trial] at hv ⊢
  have status : s.status.merge .successful = .successful := by rw [h.status]; rfl
  by_cases hlt : v < least
  · have improved : improves v s.runningMin = true := by simpa [improves, h.running] using hlt
    refine ⟨v, ?_, rfl, status, ?_, ?_, le_rfl, ?_⟩
    · simp [record, h.steps]
    · simp [record, h.measured, h.initial]
    · simp [record, improved]
    · simpa [record, improved, Vec.choose] using h.surveyed.next_of_lt hv hlt
  · have kept : improves v s.runningMin = false := by simpa [improves, h.running] using hlt
    refine ⟨least, ?_, rfl, status, ?_, ?_, not_lt.mp hlt, ?_⟩
    · simp [record, h.steps]
    · simp [record, h.measured, h.initial]
    · exact (if_neg (Bool.eq_false_iff.mp kept)).trans h.running
    · simpa [record, kept, Vec.choose] using h.surveyed.next_of_le hv (not_lt.mp hlt)

theorem standard_decreaseFactor_ne_zero (mode : SearchMode) :
    (standard mode : Backtracking ℝ).decreaseFactor ≠ 0 := by
  norm_num [standard]

theorem standard_slope_nonneg (mode : SearchMode) :
    0 ≤ (standard mode : Backtracking ℝ).slope := by
  norm_num [standard]

/-- A decrease factor that is accepted lies strictly between zero and one. -/
theorem create_bounds {mode : SearchMode} {slope t : ℝ} {search : Backtracking ℝ}
    (created : create mode slope t = .ok search) : search = ⟨mode, slope, t⟩ ∧ 0 < t ∧ t < 1 := by
  by_cases accepted : Scalar.epsilon < t ∧ t < 1
  · have epsilon : 0 < (Scalar.epsilon : ℝ) := by
      change (0 : ℝ) < (2 ^ 52)⁻¹
      positivity
    have same : search = ⟨mode, slope, t⟩ := by simpa [create, accepted, eq_comm] using created
    exact ⟨same, epsilon.trans accepted.1, accepted.2⟩
  · simp [create, accepted] at created

section Reports
variable {F A : Type} [Scalar F] (search : Backtracking F) {input : SearchInput F}
variable {measure : F → Except Fault (Trial F A)}

/-- A step shrinks the multiplier and reports the least value of its state. -/
theorem step_report {α : F} {s : BacktrackingState F}
    {q : F × BacktrackingState F × SearchReport F A} (h : search.step measure α s = .ok q) :
    q.1 = search.decreaseFactor * α ∧ q.2.2.runningMin = q.2.1.runningMin ∧
      q.2.2.runningMinDiff = q.2.1.runningMinDiff := by
  obtain ⟨trial, -, hrecord⟩ := bind_eq_ok_iff.mp h
  obtain rfl := Except.ok.inj hrecord
  exact ⟨rfl, rfl, rfl⟩

theorem step_pos {α : F} {s : BacktrackingState F}
    {q : F × BacktrackingState F × SearchReport F A} (h : search.step measure α s = .ok q) :
    0 < q.2.1.step := by
  obtain ⟨trial, -, hrecord⟩ := bind_eq_ok_iff.mp h
  obtain rfl := Except.ok.inj hrecord
  exact Nat.succ_pos s.step

/-- The difference that is kept is an earlier one or that of the trial. -/
theorem length_of_step {n : ℕ} (trials : ∀ α trial, measure α = .ok trial → trial.diff.length = n)
    {α : F} {s : BacktrackingState F} (hs : s.runningMinDiff.length = n)
    {q : F × BacktrackingState F × SearchReport F A} (h : search.step measure α s = .ok q) :
    q.2.1.runningMinDiff.length = n := by
  obtain ⟨trial, htrial, hrecord⟩ := bind_eq_ok_iff.mp h
  obtain rfl := Except.ok.inj hrecord
  dsimp only [record, Vec.choose]
  split
  · exact trials _ _ htrial
  · exact hs

/-- A search that starts has a gradient of the length of the differences, as far as it is told. -/
theorem exists_of_init {s : BacktrackingState F}
    (h : (search.init input).outcome = .ok (.ok s)) :
    ∃ vector operator gradient, input.vector = some vector ∧ input.operator = some operator ∧
      (search.gradientOf operator vector).outcome = .ok (.ok gradient) ∧
      (∀ diff ∈ input.diff, diff.length = gradient.length) ∧
      s = initialState input gradient := by
  cases hvector : input.vector with
  | none => simp [init, hvector] at h
  | some vector =>
    cases hoperator : input.operator with
    | none => simp [init, hvector, hoperator] at h
    | some operator =>
      simp only [init, hvector, hoperator, Traced.outcome_bind] at h
      obtain ⟨found, hfound, hs⟩ := bind_eq_ok_iff.mp h
      cases found with
      | error e => simp at hs
      | ok gradient =>
        refine ⟨vector, operator, gradient, rfl, rfl, hfound, ?_⟩
        cases hdiff : input.diff with
        | none => simpa [hdiff, eq_comm] using hs
        | some diff =>
          by_cases hlen : diff.length = gradient.length
          · simpa [hdiff, hlen, eq_comm] using hs
          · simp [hdiff, hlen] at hs

/-- The transpose of an identity changes no vector. -/
theorem eq_of_gradientOf_identity {n : ℕ} {vector gradient : Vec F}
    (h : (search.gradientOf (.identity n) vector).outcome = .ok (.ok gradient)) :
    gradient = vector := by
  cases hmode : search.mode with
  | gradient =>
    rw [gradientOf, hmode] at h
    exact (Except.ok.inj (Except.ok.inj h)).symm
  | gaussNewton =>
    by_cases same : n = vector.length
    · simpa [gradientOf, hmode, Operator.outSize, Operator.transpose, Operator.mulVec, same,
        eq_comm] using h
    · simp [gradientOf, hmode, Operator.outSize, same] at h

/-- A search over differences of one length reports one of this length. -/
theorem length_of_solve {n : ℕ}
    (trials : ∀ α trial, measure α = .ok trial → trial.diff.length = n)
    (start : ∀ s, (search.init input).outcome = .ok (.ok s) → s.runningMinDiff.length = n)
    {α : F} {outputs : ℕ} {options : SolveOptions F}
    {stationarity : Option (F → Traced F (Vec F))} {solution : Solution F (SearchReport F A)}
    (h : ((search.solver measure input).solve α outputs options stationarity).outcome =
      .ok (.ok solution)) {report : SearchReport F A} (reported : solution.payload = some report) :
    report.runningMinDiff.length = n := by
  rcases Solver.solve_cases _ h with ⟨e, -, hfound⟩ | ⟨s, k, p, hinit, -, hp, -, hfound⟩
  · cases hfound
  obtain rfl := SolveOptions.eq_of_deliver hfound.symm
  cases k with
  | zero =>
    obtain rfl := Except.ok.inj hp
    cases reported
  | succ k =>
    obtain ⟨r, q, hr, hq, rfl⟩ := Solver.exists_of_after_succ _ hp
    obtain rfl := Option.some.inj reported
    have kept : r.2.1.runningMinDiff.length = n :=
      Solver.after_induction _ (P := fun _ s => s.runningMinDiff.length = n) (start s hinit)
        (fun _ _ _ hs hstep => search.length_of_step trials hs hstep) hr
    obtain ⟨-, -, same⟩ := search.step_report hq
    rw [same, search.length_of_step trials kept hq]

theorem length_of_alongLine {value : Vec F → Except Fault F} {y d : Vec F}
    (hd : d.length = y.length) (α : F) (trial : Trial F Unit)
    (h : alongLine value y d α = .ok trial) : trial.diff.length = y.length := by
  obtain ⟨v, -, h⟩ := bind_eq_ok_iff.mp h
  obtain rfl := Except.ok.inj h
  rw [Vec.length_scale, hd]

/-- A search along a line reports a difference as long as the first point, if its gradient is. -/
theorem length_of_find {value : Vec F → Except Fault F} {y d : Vec F} (hd : d.length = y.length)
    (started : ∀ s, (search.init input).outcome = .ok (.ok s) → s.gradient.length = y.length)
    {N : ℕ} {solution : Solution F (SearchReport F Unit)}
    (h : search.find (alongLine value y d) input N = .ok (.ok solution))
    {report : SearchReport F Unit} (reported : solution.payload = some report) :
    report.runningMinDiff.length = y.length := by
  refine search.length_of_solve (length_of_alongLine hd) (fun s hinit => ?_) h reported
  obtain ⟨-, -, gradient, -, -, -, -, rfl⟩ := search.exists_of_init hinit
  have same : (initialState input gradient).runningMinDiff.length =
      (initialState input gradient).gradient.length := by
    rw [initialState]
    cases input.initialObjective <;> exact Vec.length_zerosLike gradient
  exact same.trans (started _ hinit)

/-- The least value that is kept, if any, was measured at the difference that goes with it. -/
def Paired (value : Vec F → Except Fault F) (y d : Vec F) (s : BacktrackingState F) : Prop :=
  ∀ v ∈ s.runningMin, ∃ α, value (Vec.axpy α d y) = .ok v ∧ s.runningMinDiff = Vec.scale α d

section Pairs
variable {value : Vec F → Except Fault F} {y d : Vec F} {α : F} {s : BacktrackingState F}

theorem paired_initialState (fresh : input.initialObjective = none) (gradient : Vec F) :
    Paired value y d (initialState input gradient) := by
  intro v hv
  simp [initialState, fresh] at hv

/-- A trial takes the place of the least value or leaves it as it is. -/
theorem Paired.step (h : Paired value y d s)
    {q : F × BacktrackingState F × SearchReport F Unit}
    (hq : search.step (alongLine value y d) α s = .ok q) : Paired value y d q.2.1 := by
  obtain ⟨w, hw, rfl⟩ := search.step_alongLine hq
  intro v hv
  by_cases improved : improves w s.runningMin = true
  · obtain rfl : w = v := by simpa [record, improved] using hv
    exact ⟨trialAt α s, hw, by simp [record, improved, Vec.choose]⟩
  · obtain ⟨β, hβ, hdiff⟩ := h v (by simpa [record, improved] using hv)
    exact ⟨β, hβ, by simp [record, improved, Vec.choose, hdiff]⟩

/-- After a measurement below infinity there is a least value. -/
theorem exists_runningMin {q : F × BacktrackingState F × SearchReport F A}
    (hq : search.step measure α s = .ok q)
    (below : Scalar.belowInfinity q.2.1.objective = true) : ∃ v, q.2.1.runningMin = some v := by
  obtain ⟨trial, -, hrecord⟩ := bind_eq_ok_iff.mp hq
  obtain rfl := Except.ok.inj hrecord
  by_cases improved : improves trial.objective s.runningMin = true
  · exact ⟨trial.objective, if_pos improved⟩
  · cases running : s.runningMin with
    | none =>
      rw [running] at improved
      exact absurd below improved
    | some least => exact ⟨least, by simp [record, running, running ▸ improved]⟩

/-- Before its first measurement a search stops only as diverged. -/
theorem terminate_initialState (fresh : input.initialObjective = none) (gradient : Vec F)
    (stops : (search.solver measure input).Stops α (initialState input gradient)) :
    ((search.solver measure input).terminate α (initialState input gradient)).2 =
      .nonlinearDivergence := by
  have waits : ((search.solver measure input).terminate α (initialState input gradient)).1 =
      false := by
    simp [solver, terminate, initialState, fresh]
  have failed := stops.resolve_left (Bool.eq_false_iff.mp waits)
  simp only [solver, terminate, initialState, fresh, Status.select] at failed ⊢
  split
  · rfl
  · simp_all

/-- After a measurement that is not finite a search has diverged. -/
theorem terminate_of_not_finite (later : 0 < s.step)
    (infinite : Scalar.isFinite s.objective = false) :
    ((search.solver measure input).terminate α s).2 = .nonlinearDivergence := by
  simp [solver, terminate, later, infinite, Status.select]

/-- A search with a budget that has not diverged reports a least value and a difference to a point
with this value. -/
theorem exists_report [FiniteBelowInfinity F] (fresh : input.initialObjective = none) {N : ℕ}
    (budget : 0 < N) {solution : Solution F (SearchReport F Unit)}
    (h : search.find (alongLine value y d) input N = .ok (.ok solution))
    (status : solution.status ≠ .nonlinearDivergence) :
    ∃ report v, solution.payload = some report ∧ report.runningMin = some v ∧
      value (Vec.add y report.runningMinDiff) = .ok v := by
  rcases Solver.solve_cases _ h with ⟨e, -, hfound⟩ | ⟨s, k, p, hinit, -, hp, stops, hfound⟩
  · cases hfound
  obtain rfl := SolveOptions.eq_of_deliver hfound.symm
  obtain ⟨-, -, gradient, -, -, -, -, rfl⟩ := search.exists_of_init hinit
  cases k with
  | zero =>
    obtain rfl := Except.ok.inj hp
    have stopped := stops budget
    rw [Solver.finalStatus_of_stops _ stopped] at status
    exact absurd (search.terminate_initialState fresh gradient stopped) status
  | succ k =>
    obtain ⟨r, q, hr, hq, rfl⟩ := Solver.exists_of_after_succ _ hp
    have hstep : search.step (alongLine value y d) r.1 r.2.1 = .ok q := hq
    have paired : Paired value y d r.2.1 :=
      Solver.after_induction _ (P := fun _ s => Paired value y d s)
        (paired_initialState fresh gradient) (fun _ _ _ hs hstep => hs.step search hstep) hr
    have finite : Scalar.isFinite q.2.1.objective = true := by
      by_contra infinite
      have diverged : ((search.solver (alongLine value y d) input).terminate q.1 q.2.1).2 =
          .nonlinearDivergence :=
        search.terminate_of_not_finite (search.step_pos hstep) (Bool.eq_false_iff.mpr infinite)
      have stopped : (search.solver (alongLine value y d) input).Stops q.1 q.2.1 :=
        .inr (by rw [diverged]; exact fun h => Status.noConfusion h)
      exact status ((Solver.finalStatus_of_stops _ stopped).trans diverged)
    obtain ⟨v, running⟩ := search.exists_runningMin hstep (FiniteBelowInfinity.below _ finite)
    obtain ⟨β, hβ, hdiff⟩ := paired.step search hstep v running
    obtain ⟨-, report, reportDiff⟩ := search.step_report hstep
    refine ⟨q.2.2, v, rfl, report.trans running, ?_⟩
    rw [reportDiff, hdiff, ← Vec.axpy_eq_add_scale, hβ]

/-- A step keeps the least value or replaces it by what it has measured. -/
theorem runningMin_of_step {q : F × BacktrackingState F × SearchReport F A}
    (h : search.step measure α s = .ok q) {v : F} (hv : v ∈ q.2.1.runningMin) :
    v = q.2.1.objective ∨ v ∈ s.runningMin := by
  obtain ⟨trial, -, hrecord⟩ := bind_eq_ok_iff.mp h
  obtain rfl := Except.ok.inj hrecord
  by_cases improved : improves trial.objective s.runningMin = true
  · obtain rfl : trial.objective = v := by simpa [record, improved] using hv
    exact .inl rfl
  · exact .inr (by simpa [record, improved] using hv)

/-- As long as a search has not diverged, the least value that it keeps is finite. -/
theorem isFinite_runningMin_after (fresh : input.initialObjective = none) {gradient : Vec F} {n : ℕ}
    (healthy : ∀ k ≤ n, ∀ p,
      (search.solver measure input).after α (initialState input gradient) k = .ok p →
      ((search.solver measure input).terminate p.1 p.2.1).2 ≠ .nonlinearDivergence)
    {p : F × BacktrackingState F × Option (SearchReport F A)}
    (hp : (search.solver measure input).after α (initialState input gradient) n = .ok p)
    {v : F} (hv : v ∈ p.2.1.runningMin) : Scalar.isFinite v = true := by
  induction n generalizing p with
  | zero =>
    obtain rfl := Except.ok.inj hp
    simp [initialState, fresh] at hv
  | succ n ih =>
    have status := healthy (n + 1) le_rfl p hp
    obtain ⟨r, q, hr, hq, rfl⟩ := Solver.exists_of_after_succ _ hp
    have hstep : search.step measure r.1 r.2.1 = .ok q := hq
    rcases search.runningMin_of_step hstep hv with rfl | hv
    · by_contra infinite
      exact status (search.terminate_of_not_finite (search.step_pos hstep)
        (Bool.eq_false_iff.mpr infinite))
    · exact ih (fun k hk => healthy k (hk.trans n.le_succ)) hr hv

/-- What a search reports that has not diverged is finite. -/
theorem isFinite_of_report {measure : F → Except Fault (Trial F Unit)}
    (fresh : input.initialObjective = none) {N : ℕ} {solution : Solution F (SearchReport F Unit)}
    (h : search.find measure input N = .ok (.ok solution))
    (status : solution.status ≠ .nonlinearDivergence) {report : SearchReport F Unit}
    (reported : solution.payload = some report) {v : F} (running : report.runningMin = some v) :
    Scalar.isFinite v = true := by
  have delivered := h
  rcases Solver.solve_cases _ h with ⟨e, -, hfound⟩ | ⟨s, k, p, hinit, -, hp, -, hfound⟩
  · cases hfound
  rw [find, hfound] at delivered
  obtain rfl := SolveOptions.eq_of_deliver hfound.symm
  obtain ⟨-, -, gradient, -, -, -, -, rfl⟩ := search.exists_of_init hinit
  cases k with
  | zero =>
    obtain rfl := Except.ok.inj hp
    cases reported
  | succ k =>
    refine search.isFinite_runningMin_after fresh (fun j hj q hq => ?_) hp (v := v) ?_
    · exact Solver.status_ne_of_solve _ hinit delivered status hj hq
    · obtain ⟨r, q, -, hq, rfl⟩ := Solver.exists_of_after_succ _ hp
      obtain rfl := Option.some.inj reported
      exact (search.step_report hq).2.1.symm.trans running

end Pairs

end Reports

section Run
variable (search : Backtracking ℝ) {input : SearchInput ℝ} {gradient : Vec ℝ}

/-- A run of the search that is one step past the zero step has made `n` trials. -/
theorem tracks_after (fresh : input.initialObjective = none)
    {p : ℝ × BacktrackingState ℝ × Option (SearchReport ℝ Unit)}
    (h : (search.solver (alongLine value y d) input).after (1 / search.decreaseFactor)
      (initialState input gradient) (n + 1) = .ok p) :
    p.1 = search.multiplier n ∧
      (∃ f₀ least, Tracks value y d search.multiplier n f₀ least p.2.1) ∧
      ∃ report, p.2.2 = some report ∧ report.runningMin = p.2.1.runningMin ∧
        report.runningMinDiff = p.2.1.runningMinDiff := by
  induction n generalizing p with
  | zero =>
    obtain ⟨r, q, hr, hq, rfl⟩ := Solver.exists_of_after_succ _ h
    obtain rfl := Except.ok.inj hr
    obtain ⟨f₀, tracks⟩ := search.tracks_zero fresh hq
    obtain ⟨multiplier, report⟩ := search.step_report hq
    refine ⟨?_, ⟨f₀, f₀, tracks⟩, _, rfl, report⟩
    rw [multiplier, Backtracking.multiplier, zero_add, pow_one]
  | succ n ih =>
    obtain ⟨r, q, hr, hq, rfl⟩ := Solver.exists_of_after_succ _ h
    obtain ⟨multiplier, ⟨f₀, least, tracks⟩, -⟩ := ih hr
    have hq' : search.step (alongLine value y d) (search.multiplier n) r.2.1 = .ok q :=
      multiplier ▸ hq
    obtain ⟨least', tracks'⟩ := tracks.next search hq'
    obtain ⟨shrunk, report⟩ := search.step_report hq'
    exact ⟨by rw [shrunk, multiplier_succ], ⟨f₀, least', tracks'⟩, _, rfl, report⟩

theorem not_stops_initialState (measure : ℝ → Except Fault (Trial ℝ Unit)) (α : ℝ) :
    ¬ (search.solver measure input).Stops α (initialState input gradient) := by
  cases hinitial : input.initialObjective <;>
    simp [Solver.Stops, solver, terminate, initialState, hinitial, Status.select]

/-- The value `value` at the difference `diff` lies below the line through the start whose slope is
a part of the one that the gradient predicts, and a decrease is predicted. -/
def SufficientDecrease (slope f₀ : ℝ) (gradient : Vec ℝ) (value : ℝ) (diff : Vec ℝ) : Prop :=
  Vec.inner gradient diff < 0 ∧ value < f₀ + slope * Vec.inner gradient diff

theorem SufficientDecrease.lt {slope f₀ value : ℝ} {gradient diff : Vec ℝ} (nonneg : 0 ≤ slope)
    (h : SufficientDecrease slope f₀ gradient value diff) : value < f₀ := by
  have change : slope * Vec.inner gradient diff ≤ 0 :=
    mul_nonpos_of_nonneg_of_nonpos nonneg h.1.le
  linarith [h.2]

theorem terminate_real (α : ℝ) (s : BacktrackingState ℝ) :
    (search.terminate α s).2 = s.status ∧
      ((search.terminate α s).1 = true ↔ 1 < s.step ∧
        SufficientDecrease search.slope s.initialObjective s.gradient s.objective s.diff) := by
  refine ⟨by simp [terminate, Status.select], ?_⟩
  rw [terminate, Bool.and_eq_true, Bool.and_eq_true]
  constructor
  · rintro ⟨⟨below, later⟩, descent⟩
    exact ⟨of_decide_eq_true later, of_decide_eq_true descent, of_decide_eq_true below⟩
  · rintro ⟨later, descent, below⟩
    exact ⟨⟨decide_eq_true below, decide_eq_true later⟩, decide_eq_true descent⟩

theorem stops_iff {A : Type} {measure : ℝ → Except Fault (Trial ℝ A)} {α : ℝ}
    {s : BacktrackingState ℝ} (healthy : s.status = .successful) :
    (search.solver measure input).Stops α s ↔ 1 < s.step ∧
      SufficientDecrease search.slope s.initialObjective s.gradient s.objective s.diff := by
  obtain ⟨status, done⟩ := search.terminate_real α s
  refine Iff.trans ?_ done
  refine or_iff_left (not_not.mpr ?_)
  exact status.trans healthy

/-- A search ends by itself only after a trial, and only below its start unless the slope allows
more. -/
theorem tried_of_stops {s : BacktrackingState ℝ} (tracks : Tracks value y d μ n f₀ least s)
    {measure : ℝ → Except Fault (Trial ℝ Unit)} {α : ℝ}
    (stops : (search.solver measure input).Stops α s) :
    0 < n ∧ (0 ≤ search.slope → least < f₀) := by
  obtain ⟨later, decrease⟩ := (search.stops_iff tracks.status).mp stops
  rw [tracks.steps] at later
  rw [tracks.initial] at decrease
  exact ⟨Nat.lt_of_succ_lt_succ later, fun nonneg => tracks.latest.trans_lt (decrease.lt nonneg)⟩

/-- A search of at most `N` steps reports the least of what it has measured. -/
structure Reports (value : Vec ℝ → Except Fault ℝ) (y d : Vec ℝ) (N n : ℕ) (f₀ least : ℝ)
    (report : SearchReport ℝ Unit) : Prop where
  running : report.runningMin = some least
  within : n + 1 ≤ N
  surveyed : Surveyed value y d search.multiplier n f₀ least report.runningMinDiff
  early : n + 1 < N → 0 < n ∧ (0 ≤ search.slope → least < f₀)

/-- A search cannot start, or its budget does not allow a measurement, or it reports. -/
theorem find_alongLine (fresh : input.initialObjective = none)
    (unset : input.initialMultiplier = none) {N : ℕ}
    {found : Found ℝ} (h : search.find (alongLine value y d) input N = .ok found) :
    (∃ e, (search.init input).outcome = .ok (.error e) ∧ found = .error (.config e)) ∨
    ∃ s solution, (search.init input).outcome = .ok (.ok s) ∧ found = .ok solution ∧
      solution.status ≠ .nonlinearDivergence ∧
      ((N = 0 ∧ solution.payload = none) ∨ ∃ report f₀ least n, solution.payload = some report ∧
        search.Reports value y d N n f₀ least report) := by
  rcases Solver.solve_cases _ h with ⟨e, hinit, rfl⟩ | ⟨s, k, p, hinit, hk, hp, stops, rfl⟩
  · exact .inl ⟨e, hinit, rfl⟩
  obtain ⟨-, -, gradient, -, -, -, -, rfl⟩ := search.exists_of_init hinit
  rw [firstInitial, unset, Option.getD_none] at hp
  have limit : ({ SolveOptions.standard with maxSteps := some N, raise := false } :
      SolveOptions ℝ).limit = N := rfl
  rw [limit] at hk stops
  refine .inr ⟨_, _, hinit, rfl, ?_⟩
  cases k with
  | zero =>
    obtain rfl := Except.ok.inj hp
    have waits : ¬ (search.solver (alongLine value y d) input).Stops (1 / search.decreaseFactor)
        (initialState input gradient) := search.not_stops_initialState _ _
    refine ⟨Solver.finalStatus_ne_nonlinearDivergence _ (not_not.mp (not_or.mp waits).2),
      .inl ⟨?_, rfl⟩⟩
    by_contra budget
    exact waits (stops (Nat.pos_of_ne_zero budget))
  | succ n =>
    obtain ⟨-, ⟨f₀, least, tracks⟩, report, hreport, running, diff⟩ := search.tracks_after fresh hp
    have status : ((search.solver (alongLine value y d) input).terminate p.1 p.2.1).2 =
        .successful := by
      simp [solver, terminate, Status.select, tracks.status]
    refine ⟨Solver.finalStatus_ne_nonlinearDivergence _ status,
      .inr ⟨report, f₀, least, n, hreport, ?_⟩⟩
    exact {
      running := running.trans tracks.running
      within := hk
      surveyed := diff ▸ tracks.surveyed
      early := fun early => search.tried_of_stops tracks (stops early) }

/-- A search returns if the function has a value everywhere on the line. -/
theorem exists_find_alongLine (total : ∀ α, ∃ v, value (Vec.axpy α d y) = .ok v) (N : ℕ)
    {started : Except (ConfigError ℝ) (BacktrackingState ℝ)}
    (hinit : (search.init input).outcome = .ok started) :
    ∃ found, search.find (alongLine value y d) input N = .ok found := by
  refine Solver.exists_solve_of_forall_step _ (fun α s => ?_) rfl hinit
  obtain ⟨v, hv⟩ := total (trialAt α s)
  refine ⟨search.record ⟨v, Vec.scale (trialAt α s) d, (), .successful⟩ α s, ?_⟩
  simp [solver, step, alongLine, hv]

end Run

end Backtracking
end DualOpt
