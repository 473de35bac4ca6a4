import DualOpt.Proofs.LineSearch.Trials

/-!
The least value of a backtracking search, whatever its evaluations return.

Values may be infinite or no numbers, differences may be any vectors, and every evaluation may be by
a function of its own. Nothing but the laws of comparison is used.
-/
namespace DualOpt.Backtracking

variable {F A : Type} [Scalar F] (search : Backtracking F)

/-- Steps from `(α, s₀)` to `(β, s)` whose evaluations returned `trials`. Every step may measure by
a function of its own. -/
inductive Steps (α : F) (s₀ : BacktrackingState F) :
    List (Trial F A) → F → BacktrackingState F → Prop
  | start : Steps α s₀ [] α s₀
  | next {trials : List (Trial F A)} {β : F} {s : BacktrackingState F}
      (before : Steps α s₀ trials β s) {measure : F → Except Fault (Trial F A)} {trial : Trial F A}
      (measured : measure (trialAt β s) = .ok trial)
      {q : F × BacktrackingState F × SearchReport F A} (stepped : search.step measure β s = .ok q) :
      Steps α s₀ (trials ++ [trial]) q.1 q.2.1

section Steps
variable {search} {input : SearchInput F} {α β : F} {s₀ s : BacktrackingState F}
variable {trials : List (Trial F A)}

theorem Steps.exists_recordAll (run : search.Steps α s₀ trials β s) :
    ∃ report, search.recordAll α s₀ trials = (β, s, report) := by
  induction run with
  | start => exact ⟨none, rfl⟩
  | next before measured stepped ih =>
    obtain ⟨report, hbefore⟩ := ih
    rw [step, measured] at stepped
    obtain rfl := Except.ok.inj stepped
    rw [recordAll_append, hbefore]
    exact ⟨_, rfl⟩

theorem steps_recordAll (α : F) (s₀ : BacktrackingState F) (trials : List (Trial F A)) :
    search.Steps α s₀ trials (search.recordAll α s₀ trials).1
      (search.recordAll α s₀ trials).2.1 := by
  induction trials using List.reverseRecOn with
  | nil => exact .start
  | append_singleton trials trial ih =>
    rw [recordAll_append]
    let measure : F → Except Fault (Trial F A) := Function.const F (.ok trial)
    have measured : measure (trialAt (search.recordAll α s₀ trials).1
      (search.recordAll α s₀ trials).2.1) = .ok trial := rfl
    exact ih.next measured rfl

/-- What a search has found when its evaluations returned `trials`. -/
structure BestOf (start : F) (zero : Vec F) (trials : List (Trial F A))
    (s : BacktrackingState F) : Prop where
  number : Scalar.isNaN s.least = false
  le_start : s.least ≤ start
  le_trial : ∀ t ∈ trials, Scalar.isNaN t.objective = false → s.least ≤ t.objective
  attained : s.least = start ∨ ∃ t ∈ trials, s.least = t.objective
  unmoved : (∀ t ∈ trials, ¬ t.objective < start) → s.runningMinDiff = zero
  moved : (∃ t ∈ trials, t.objective < start) →
    (trials.find? (·.objective == s.least)).map (·.diff) = some s.runningMinDiff

variable [InfinityRules F]

theorem improves_iff {v : F} {least : Option F} :
    improves v least = true ↔ v < least.getD Scalar.infinity := by
  cases least with
  | none => exact InfinityRules.below_iff
  | some f => exact decide_eq_true_iff

variable [ComparisonRules F]

open ComparisonRules

theorem FirstLeast.bestOf {start : Option F} {zero : Vec F}
    (number : Scalar.isNaN (start.getD Scalar.infinity) = false)
    (h : FirstLeast start zero trials s.runningMin s.runningMinDiff) :
    BestOf (start.getD Scalar.infinity) zero trials s := by
  generalize hleast : s.runningMin = least, hdiff : s.runningMinDiff = diff at h
  have value : s.least = least.getD Scalar.infinity := by rw [BacktrackingState.least, hleast]
  cases h with
  | kept none_below =>
    have not_below (t : Trial F A) (ht : t ∈ trials) :
        ¬ t.objective < start.getD Scalar.infinity := by
      rw [← improves_iff, none_below t ht]
      exact Bool.false_ne_true
    constructor
    case number => rwa [value]
    case le_start => rw [value]; exact ComparisonRules.le_refl number
    case le_trial =>
      intro t ht numeric
      rw [value]
      exact le_of_not_lt number numeric (not_below t ht)
    case attained => exact .inl value
    case unmoved => exact fun _ => hdiff
    case moved => exact fun ⟨t, ht, below⟩ => absurd below (not_below t ht)
  | found earlier t later split below first lowest =>
    have below_start : t.objective ≤ start.getD Scalar.infinity := le_of_lt (improves_iff.mp below)
    have numeric := isNaN_left below_start
    rw [Option.getD_some] at value
    constructor
    case number => rwa [value]
    case le_start => rwa [value]
    case le_trial =>
      intro u hu hnumeric
      rw [value]
      rw [split, List.mem_append, List.mem_cons] at hu
      rcases hu with hu | rfl | hu
      · exact (le_total numeric hnumeric).resolve_right (first u hu)
      · exact ComparisonRules.le_refl numeric
      · exact le_of_not_lt numeric hnumeric (lowest u hu)
    case attained => exact .inr ⟨t, by simp [split], value⟩
    case unmoved =>
      intro not_below
      exact absurd (improves_iff.mp below) (not_below t (by simp [split]))
    case moved =>
      rintro -
      have earlier_misses : earlier.find? (·.objective == t.objective) = none :=
        List.find?_eq_none.mpr fun u hu same => first u hu (beq_iff.mp same).1
      have reaches : (t.objective == t.objective) = true :=
        beq_iff.mpr ⟨ComparisonRules.le_refl numeric, ComparisonRules.le_refl numeric⟩
      simp [value, hdiff, split, earlier_misses, reaches]

/-- A step never raises the least value. -/
theorem least_of_step (numeric : Scalar.isNaN s.least = false)
    {measure : F → Except Fault (Trial F A)} {q : F × BacktrackingState F × SearchReport F A}
    (h : search.step measure β s = .ok q) : q.2.1.least ≤ s.least := by
  obtain ⟨trial, -, hrecord⟩ := bind_eq_ok_iff.mp h
  obtain rfl := Except.ok.inj hrecord
  cases improved : improves trial.objective s.runningMin with
  | true =>
    have replaced : (search.record trial β s).2.1.least = trial.objective := by
      simp [BacktrackingState.least, record, improved]
    rw [replaced]
    exact le_of_lt (improves_iff.mp improved)
  | false =>
    have kept : (search.record trial β s).2.1.least = s.least := by
      simp [BacktrackingState.least, record, improved]
    rw [kept]
    exact ComparisonRules.le_refl numeric

/-- Whatever the evaluations return, a search holds the least of the numbers among the values and
its start, with the difference of the first evaluation that reached it; a step never raises the
least value; the status is the first failure; and the objective at the zero step is the first value
or the known one. -/
theorem bestOf_steps (hinit : (search.init input).outcome = .ok (.ok s₀))
    (number : Scalar.isNaN input.startObjective = false) (run : search.Steps α s₀ trials β s) :
    BestOf input.startObjective (Vec.zerosLike s₀.gradient) trials s ∧
      (∀ (measure : F → Except Fault (Trial F A)) (q : F × BacktrackingState F × SearchReport F A),
        search.step measure β s = .ok q → q.2.1.least ≤ s.least) ∧
      s.status = .firstFailure (trials.map (·.status)) ∧
      s.initialObjective = if input.measuresZero then
        (trials.head?.map (·.objective)).getD input.startObjective else input.startObjective := by
  obtain ⟨-, -, gradient, -, -, -, -, rfl⟩ := search.exists_of_init hinit
  obtain ⟨report, hrun⟩ := run.exists_recordAll
  have recorded := search.recorded_recordAll α (initialState input gradient) trials
  have least := search.firstLeast_recordAll α (initialState input gradient) trials
  rw [hrun, initialState_eq] at recorded least
  have best := least.bestOf number
  rw [initialState_eq]
  exact ⟨best, fun measure q hq => least_of_step best.number hq, recorded.status, recorded.initial⟩

end Steps

/-- A search from infinity, along a line in one dimension. -/
def freshInput : SearchInput Float := { vector := some [1], operator := some (.identity 1) }

/-- No number, both zeros, a tie below them and infinity; the third evaluation reports a failure. -/
def mixedTrials : List (Trial Float Unit) :=
  [⟨0 / 0, [0], (), .successful⟩, ⟨0, [1], (), .successful⟩, ⟨-0, [-0], (), .singularMatrix⟩,
    ⟨-1, [-1], (), .successful⟩, ⟨-1, [1], (), .maxStepsReached⟩, ⟨1 / 0, [0], (), .successful⟩]

theorem bestOf_steps_mixed : ∃ s₀ β s,
    ((standard .gradient).init freshInput).outcome = .ok (.ok s₀) ∧
    Scalar.isNaN freshInput.startObjective = false ∧
    (standard .gradient).Steps 1 s₀ mixedTrials β s ∧
    BestOf freshInput.startObjective (Vec.zerosLike s₀.gradient) mixedTrials s ∧
    s.runningMinDiff = [-1] ∧ s.status = .singularMatrix ∧
    Scalar.isNaN s.initialObjective = true := by
  have hinit : ((standard .gradient).init freshInput).outcome =
      .ok (.ok (initialState freshInput [1])) := rfl
  have run : (standard .gradient).Steps 1 (initialState freshInput [1]) mixedTrials _ _ :=
    steps_recordAll 1 _ mixedTrials
  obtain ⟨best, -, status, initial⟩ := bestOf_steps hinit rfl run
  refine ⟨_, _, _, hinit, rfl, run, best, ?_, status, ?_⟩
  · decide +kernel
  · rw [initial]
    rfl

end DualOpt.Backtracking
