import DualOpt.Proofs.LineSearch.Trials

/-!
Where a backtracking search for a function ends in exact arithmetic.

A search that starts by measuring the zero step puts every later trial to the test of sufficient
decrease, and it ends with the first that passes or with its budget. Where it stands after some
trials is its course, which a search follows until it ends and until a measurement faults.
-/
namespace DualOpt.Backtracking

/-- When a search ends, and as what: with the first trial that is accepted, where trial zero follows
the zero step, or with its budget. -/
inductive EndsAfter (accepts : ℕ → Prop) (budget : Option ℕ) : ℕ → Status → Prop
  | accepted (k : ℕ) (accepted : accepts k) (first : ∀ j < k, ¬ accepts j) :
      EndsAfter accepts budget (k + 2) .successful
  | exhausted {N : ℕ} (spent : budget = some N) (rejected : ∀ k, k + 2 ≤ N → ¬ accepts k) :
      EndsAfter accepts budget N .maxStepsReached

namespace EndsAfter
variable {accepts : ℕ → Prop} {budget : Option ℕ} {T : ℕ} {status : Status}

theorem not_before (h : EndsAfter accepts budget T status) {k : ℕ} (before : k + 2 < T) :
    ¬ accepts k := by
  cases h with
  | accepted j accepted first => exact first k (by omega)
  | exhausted spent rejected => exact rejected k before.le

/-- A budget brings every search to an end. -/
theorem exists_of_budget (accepts : ℕ → Prop) (N : ℕ) :
    ∃ T status, T ≤ N ∧ EndsAfter accepts (some N) T status := by
  classical
  by_cases found : ∃ k, k + 2 ≤ N ∧ accepts k
  · obtain ⟨within, accepted⟩ := Nat.find_spec found
    refine ⟨_, _, within, .accepted _ accepted fun j hj sooner => ?_⟩
    exact Nat.find_min found hj ⟨by omega, sooner⟩
  · exact ⟨N, _, le_rfl, .exhausted rfl fun k within accepted => found ⟨k, within, accepted⟩⟩

theorem pos {N : ℕ} (h : EndsAfter accepts (some N) T status) (positive : 0 < N) : 0 < T := by
  cases h with
  | accepted k => exact Nat.succ_pos _
  | exhausted spent => exact Option.some.inj spent ▸ positive

theorem eq_of_isLeast {N k : ℕ} (h : EndsAfter accepts (some N) T status)
    (hk : IsLeast {k | accepts k} k) (within : k + 2 ≤ N) : status = .successful ∧ T = k + 2 := by
  cases h with
  | accepted j accepted first =>
    have le : k ≤ j := hk.2 accepted
    have ge : ¬ k < j := fun lt => first k lt hk.1
    exact ⟨rfl, by omega⟩
  | exhausted spent rejected =>
    obtain rfl := Option.some.inj spent
    exact absurd hk.1 (rejected k within)

theorem eq_of_not_exists {N : ℕ} (h : EndsAfter accepts (some N) T status) (within : T ≤ N)
    (none_found : ¬ ∃ k, IsLeast {k | accepts k} k ∧ k + 2 ≤ N) :
    status = .maxStepsReached ∧ T = N := by
  cases h with
  | accepted j accepted first =>
    refine absurd ⟨j, ⟨accepted, fun k hk => ?_⟩, within⟩ none_found
    exact not_lt.mp fun lt => first k lt hk
  | exhausted spent rejected => exact ⟨rfl, (Option.some.inj spent).symm⟩

end EndsAfter

variable {A : Type} (search : Backtracking ℝ)

/-- What the search asks of a function at a multiplier. -/
def Accepts (gradient : Vec ℝ) (φ : ℝ → Trial ℝ A) (β : ℝ) : Prop :=
  SufficientDecrease search.slope (φ 0).objective gradient (φ β).objective (φ β).diff

/-- After the zero step, the latest trial is judged by the test, whatever lies between. -/
theorem done_recordAll_iff {input : SearchInput ℝ} (measuring : input.measuresZero = true) (α : ℝ)
    (gradient : Vec ℝ) (zero : Trial ℝ A) (middle : List (Trial ℝ A)) (last : Trial ℝ A) :
    let p := search.recordAll α (initialState input gradient) (zero :: (middle ++ [last]))
    (search.terminate p.1 p.2.1).1 = true ↔
      SufficientDecrease search.slope zero.objective gradient last.objective last.diff := by
  have recorded := search.recorded_recordAll α (initialState input gradient)
    (zero :: (middle ++ [last]))
  have later : 1 < (search.recordAll α (initialState input gradient)
      (zero :: (middle ++ [last]))).2.1.step := by
    rw [recorded.steps, List.length_cons, List.length_append, List.length_singleton]
    omega
  have latest : (zero :: (middle ++ [last])).getLast? = some last := by
    rw [← List.cons_append, List.getLast?_concat]
  refine (search.terminate_real _ _).2.trans ?_
  rw [and_iff_right later, recorded.initial, recorded.gradient, recorded.objective, recorded.diff,
    latest, initialState_eq, if_pos measuring]
  rfl

section Course
variable (α : ℝ) (input : SearchInput ℝ) (gradient : Vec ℝ) (φ : ℝ → Trial ℝ A)

/-- Where a search for a function stands after `n` trials, whether or not it has ended before. -/
noncomputable def course (n : ℕ) : ℝ × BacktrackingState ℝ × Option (SearchReport ℝ A) :=
  search.recordAll α (initialState input gradient)
    ((search.points α (initialState input gradient) n).map φ)

theorem exists_report_course (n : ℕ) :
    ∃ report, (search.course α input gradient φ (n + 1)).2.2 = some report ∧
      report.runningMin = (search.course α input gradient φ (n + 1)).2.1.runningMin ∧
      report.runningMinDiff = (search.course α input gradient φ (n + 1)).2.1.runningMinDiff := by
  rw [course, points_succ, List.map_append, List.map_singleton]
  exact search.exists_report_recordAll _ _ _ _

variable {α input gradient φ}

theorem point_zero (measuring : input.measuresZero = true) :
    search.point α (initialState input gradient) 0 = 0 := by
  rw [point, if_pos rfl, trialAt, initialState_eq, if_pos measuring]

theorem status_course (healthy : ∀ β, (φ β).status = .successful) (n : ℕ) :
    (search.course α input gradient φ n).2.1.status = .successful := by
  have recorded := search.recorded_recordAll α (initialState input gradient)
    ((search.points α (initialState input gradient) n).map φ)
  rw [course, recorded.status, initialState_eq]
  refine Status.firstFailure_of_forall ?_
  simp [healthy]

/-- The second trial is the first that may end a search. -/
theorem stops_course_iff (measuring : input.measuresZero = true)
    (healthy : ∀ β, (φ β).status = .successful) {measure : ℝ → Except Fault (Trial ℝ A)} {n : ℕ} :
    (search.solver measure input).Stops (search.course α input gradient φ n).1
        (search.course α input gradient φ n).2.1 ↔
      ∃ k, n = k + 2 ∧
        search.Accepts gradient φ (search.point α (initialState input gradient) (k + 1)) := by
  rw [search.stops_iff (search.status_course healthy n)]
  by_cases later : 1 < n
  · obtain ⟨k, rfl⟩ : ∃ k, n = k + 2 := ⟨n - 2, by omega⟩
    obtain ⟨middle, hmiddle⟩ : ∃ middle,
        (search.points α (initialState input gradient) (k + 1)).map φ = φ 0 :: middle := by
      rw [points, List.range_succ_eq_map, List.map_cons, List.map_cons, search.point_zero measuring]
      exact ⟨_, rfl⟩
    have split : (search.points α (initialState input gradient) (k + 2)).map φ = φ 0 ::
        (middle ++ [φ (search.point α (initialState input gradient) (k + 1))]) := by
      rw [points_succ, List.map_append, hmiddle]
      rfl
    rw [← (search.terminate_real (search.course α input gradient φ (k + 2)).1 _).2, course, split]
    refine (search.done_recordAll_iff measuring α gradient _ middle _).trans ?_
    simp [Accepts]
  · have steps : (search.course α input gradient φ n).2.1.step = n := by
      rw [course, (search.recorded_recordAll _ _ _).steps, initialState_eq]
      simp [points]
    refine iff_of_false ?_ ?_
    · rw [steps]
      exact fun h => later h.1
    · rintro ⟨k, rfl, -⟩
      omega

/-- A search for a function whose measurements may fault follows the course of the function as long
as none does. -/
theorem after_eq_course {measure : ℝ → Except Fault (Trial ℝ A)}
    (agrees : ∀ β trial, measure β = .ok trial → trial = φ β) (n : ℕ) :
    (search.solver measure input).after α (initialState input gradient) n = do
      let _ ← (search.points α (initialState input gradient) n).mapM measure
      return search.course α input gradient φ n := by
  rw [after_eq_recordAll]
  cases htrials : (search.points α (initialState input gradient) n).mapM measure with
  | error e => rfl
  | ok trials =>
    obtain rfl := eq_map_of_mapM agrees htrials
    rfl

/-- A search returns what its course comes to when it ends. -/
theorem solve_eq_course (measuring : input.measuresZero = true)
    (healthy : ∀ β, (φ β).status = .successful) {measure : ℝ → Except Fault (Trial ℝ A)}
    (agrees : ∀ β trial, measure β = .ok trial → trial = φ β)
    (hinit : (search.init input).outcome = .ok (.ok (initialState input gradient)))
    (outputs : ℕ) {options : SolveOptions ℝ} (stationarity : Option (ℝ → Traced ℝ (Vec ℝ)))
    {T : ℕ} {status : Status} (within : T ≤ options.limit)
    (ends : EndsAfter
      (fun k => search.Accepts gradient φ (search.point α (initialState input gradient) (k + 1)))
      options.maxSteps T status) :
    ((search.solver measure input).solve α outputs options stationarity).outcome = do
      let _ ← (search.points α (initialState input gradient) T).mapM measure
      let p := search.course α input gradient φ T
      Solver.examine stationarity status p.1
      return options.deliver ⟨p.1, status, p.2.2, ⟨T, options.maxSteps⟩⟩ := by
  have stops (n : ℕ) : (search.solver measure input).Stops
      (search.course α input gradient φ n).1 (search.course α input gradient φ n).2.1 ↔ _ :=
    search.stops_course_iff measuring healthy
  have follows (n : ℕ) (p : ℝ × BacktrackingState ℝ × Option (SearchReport ℝ A))
      (hp : (search.solver measure input).after α (initialState input gradient) n = .ok p) :
      p = search.course α input gradient φ n := by
    rw [search.after_eq_course agrees] at hp
    obtain ⟨-, -, hcourse⟩ := bind_eq_ok_iff.mp hp
    exact (Except.ok.inj hcourse).symm
  have final : ((search.solver measure input).runAt T
      (search.course α input gradient φ T)).finalStatus = status := by
    cases ends with
    | accepted k accepts =>
      rw [Solver.finalStatus_of_stops _ ((stops _).mpr ⟨k, rfl, accepts⟩)]
      exact (search.terminate_real _ _).1.trans (search.status_course healthy _)
    | exhausted budget rejects =>
      refine Solver.finalStatus_of_not_stops _ (mt (stops T).mp ?_)
      rintro ⟨k, rfl, accepts⟩
      exact rejects k le_rfl accepts
  rw [Solver.solve_eq_bind_after _ stationarity hinit within]
  · rw [search.after_eq_course agrees, bind_assoc]
    refine bind_congr_of_ok fun trials _ => ?_
    rw [pure_bind, final]
  · intro n hn p hp
    rw [follows n p hp, stops]
    rintro ⟨k, rfl, accepts⟩
    exact ends.not_before hn accepts
  · intro p hp
    rw [follows T p hp, stops]
    cases ends with
    | accepted k accepts => exact .inl ⟨k, rfl, accepts⟩
    | exhausted budget => exact .inr budget

end Course

section Least
variable {start : Option ℝ} {zero diff : Vec ℝ} {trials : List (Trial ℝ A)} {least : Option ℝ}

/-- No trial is lower than what is kept. -/
theorem FirstLeast.exists_le (h : FirstLeast start zero trials least diff) {t : Trial ℝ A}
    (ht : t ∈ trials) : ∃ v, least = some v ∧ v ≤ t.objective := by
  cases h with
  | kept none_below =>
    cases start with
    | none => exact (Bool.false_ne_true (none_below t ht).symm).elim
    | some f => exact ⟨f, rfl, not_lt.mp (of_decide_eq_false (none_below t ht))⟩
  | found earlier u later split below first lowest =>
    refine ⟨u.objective, rfl, ?_⟩
    rw [split, List.mem_append, List.mem_cons] at ht
    rcases ht with ht | rfl | ht
    · exact (not_le.mp (first t ht)).le
    · exact le_rfl
    · exact not_lt.mp (lowest t ht)

/-- A search that starts from infinity keeps the least of its values. -/
theorem FirstLeast.exists_isLeast (h : FirstLeast none zero trials least diff)
    (tried : trials ≠ []) :
    ∃ v, least = some v ∧ IsLeast {v | ∃ t ∈ trials, v = t.objective} v := by
  have lower := fun t ht => h.exists_le (t := t) ht
  cases h with
  | kept none_below =>
    obtain ⟨t, ht⟩ := List.exists_mem_of_ne_nil trials tried
    obtain ⟨v, hv, -⟩ := lower t ht
    cases hv
  | found earlier u later split below first lowest =>
    refine ⟨u.objective, rfl, ⟨u, by simp [split], rfl⟩, ?_⟩
    rintro v ⟨t, ht, rfl⟩
    obtain ⟨w, hw, le⟩ := lower t ht
    rwa [← Option.some.inj hw] at le

end Least

/-- A search that starts from infinity reports the least value that it has measured. -/
theorem exists_least_course (α : ℝ) {input : SearchInput ℝ} (gradient : Vec ℝ) (φ : ℝ → Trial ℝ A)
    (fresh : input.initialObjective = none) (n : ℕ) :
    ∃ report least, (search.course α input gradient φ (n + 1)).2.2 = some report ∧
      report.runningMin = some least ∧
      IsLeast {v | ∃ β ∈ search.points α (initialState input gradient) (n + 1),
        v = (φ β).objective} least := by
  obtain ⟨report, hreport, running, -⟩ := search.exists_report_course α input gradient φ n
  have kept := search.firstLeast_recordAll α (initialState input gradient)
    ((search.points α (initialState input gradient) (n + 1)).map φ)
  have start : (initialState input gradient).runningMin = none := by rw [initialState_eq, fresh]
  rw [← course, start] at kept
  obtain ⟨least, hleast, lowest⟩ := kept.exists_isLeast (by simp [points_succ])
  refine ⟨report, least, hreport, running.trans hleast, ?_⟩
  simpa using lowest

/-- The multipliers that a search tries one after the other: zero, then `1, t, t², …`. -/
noncomputable def backtrackPoints (t : ℝ) : ℕ → List ℝ
  | 0 => []
  | n + 1 => 0 :: (List.range n).map (t ^ ·)

section Fresh
variable {input : SearchInput ℝ} {gradient : Vec ℝ}

theorem point_succ (shrinks : search.decreaseFactor ≠ 0) (s : BacktrackingState ℝ) (k : ℕ) :
    search.point (1 / search.decreaseFactor) s (k + 1) = search.decreaseFactor ^ k := by
  rw [point, if_neg k.succ_ne_zero, mul_left_iterate]
  dsimp only
  rw [pow_succ, mul_assoc, mul_one_div_cancel shrinks, mul_one]

theorem points_eq_backtrackPoints (shrinks : search.decreaseFactor ≠ 0)
    (measuring : input.measuresZero = true) (n : ℕ) :
    search.points (1 / search.decreaseFactor) (initialState input gradient) n =
      backtrackPoints search.decreaseFactor n := by
  cases n with
  | zero => rfl
  | succ n =>
    rw [points, List.range_succ_eq_map, List.map_cons, search.point_zero measuring, List.map_map,
      backtrackPoints]
    exact congrArg _ (List.map_congr_left fun k _ => search.point_succ shrinks _ k)

/-- A fresh search returns what its course comes to when it ends. -/
theorem solve_eq_course_of_fresh (shrinks : search.decreaseFactor ≠ 0)
    (fresh : input.initialObjective = none) (unset : input.initialMultiplier = none)
    (hinit : (search.init input).outcome = .ok (.ok (initialState input gradient)))
    {φ : ℝ → Trial ℝ A} (healthy : ∀ β, (φ β).status = .successful)
    {measure : ℝ → Except Fault (Trial ℝ A)}
    (agrees : ∀ β trial, measure β = .ok trial → trial = φ β)
    (outputs : ℕ) {options : SolveOptions ℝ} (stationarity : Option (ℝ → Traced ℝ (Vec ℝ)))
    {T : ℕ} {status : Status} (within : T ≤ options.limit)
    (ends : EndsAfter (fun k => search.Accepts gradient φ (search.decreaseFactor ^ k))
      options.maxSteps T status) :
    ((search.solver measure input).solve (search.firstInitial input) outputs options
      stationarity).outcome = do
      let _ ← (backtrackPoints search.decreaseFactor T).mapM measure
      let p := search.course (1 / search.decreaseFactor) input gradient φ T
      Solver.examine stationarity status p.1
      return options.deliver ⟨p.1, status, p.2.2, ⟨T, options.maxSteps⟩⟩ := by
  have measuring : input.measuresZero = true := by simp [SearchInput.measuresZero, fresh]
  have start : search.firstInitial input = 1 / search.decreaseFactor := by
    rw [firstInitial, unset, Option.getD_none]
  have judged : (fun k => search.Accepts gradient φ
      (search.point (1 / search.decreaseFactor) (initialState input gradient) (k + 1))) =
        fun k => search.Accepts gradient φ (search.decreaseFactor ^ k) :=
    funext fun k => by rw [search.point_succ shrinks]
  rw [← judged] at ends
  rw [start, search.solve_eq_course measuring healthy agrees hinit outputs stationarity within ends,
    search.points_eq_backtrackPoints shrinks measuring]

/-- What a fresh search does with a function that returns a value at every multiplier and never
reports a failure. It measures at `0, 1, t, t², …` in this order and nowhere else: if measurements
may fault, the search faults with the first fault on its way. It succeeds with the first multiplier
after zero that it accepts, if the budget reaches it, and else uses up its budget. It reports the
least value it has measured, which lies below the first one if the search succeeds with a slope that
is not negative. -/
theorem fresh_search_outcome (search : Backtracking ℝ) (shrinks : search.decreaseFactor ≠ 0)
    {input : SearchInput ℝ} (fresh : input.initialObjective = none)
    (unset : input.initialMultiplier = none) {s : BacktrackingState ℝ}
    (hinit : (search.init input).outcome = .ok (.ok s)) {φ : ℝ → Trial ℝ A}
    (healthy : ∀ β, (φ β).status = .successful) (outputs : ℕ) {options : SolveOptions ℝ} {N : ℕ}
    (budget : options.maxSteps = some N) (stationarity : Option (ℝ → Traced ℝ (Vec ℝ))) :
    ∃ solution : Solution ℝ (SearchReport ℝ A),
      (∀ measure : ℝ → Except Fault (Trial ℝ A),
        (∀ β trial, measure β = .ok trial → trial = φ β) →
        ((search.solver measure input).solve (search.firstInitial input) outputs options
          stationarity).outcome = do
            let _ ← (backtrackPoints search.decreaseFactor solution.stats.numSteps).mapM measure
            Solver.examine stationarity solution.status solution.value
            return options.deliver solution) ∧
      (∀ k, IsLeast {k | search.Accepts s.gradient φ (search.decreaseFactor ^ k)} k → k + 2 ≤ N →
        solution.status = .successful ∧ solution.stats.numSteps = k + 2) ∧
      ((¬ ∃ k, IsLeast {k | search.Accepts s.gradient φ (search.decreaseFactor ^ k)} k ∧
          k + 2 ≤ N) →
        solution.status = .maxStepsReached ∧ solution.stats.numSteps = N) ∧
      (0 < N → ∃ report least, solution.payload = some report ∧ report.runningMin = some least ∧
        IsLeast {v | ∃ β ∈ backtrackPoints search.decreaseFactor solution.stats.numSteps,
          v = (φ β).objective} least ∧
        (0 ≤ search.slope → solution.status = .successful → least < (φ 0).objective)) := by
  obtain ⟨-, -, gradient, -, -, -, -, rfl⟩ := search.exists_of_init hinit
  have measuring : input.measuresZero = true := by simp [SearchInput.measuresZero, fresh]
  have gradient_eq : (initialState input gradient).gradient = gradient := by rw [initialState_eq]
  obtain ⟨T, status, within, ends⟩ := EndsAfter.exists_of_budget
    (fun k => search.Accepts gradient φ (search.decreaseFactor ^ k)) N
  refine ⟨⟨(search.course (1 / search.decreaseFactor) input gradient φ T).1, status,
    (search.course (1 / search.decreaseFactor) input gradient φ T).2.2, ⟨T, options.maxSteps⟩⟩,
    fun measure agrees => ?_, fun k hk hkN => ?_, fun none_found => ?_, fun positive => ?_⟩
  · have within_limit : T ≤ options.limit := by rwa [SolveOptions.limit, budget]
    rw [← budget] at ends
    exact search.solve_eq_course_of_fresh shrinks fresh unset hinit healthy agrees outputs
      stationarity within_limit ends
  · rw [gradient_eq] at hk
    exact ends.eq_of_isLeast hk hkN
  · rw [gradient_eq] at none_found
    exact ends.eq_of_not_exists within none_found
  · obtain ⟨n, rfl⟩ := Nat.exists_eq_succ_of_ne_zero (ends.pos positive).ne'
    obtain ⟨report, least, hreport, running, lowest⟩ :=
      search.exists_least_course (1 / search.decreaseFactor) gradient φ fresh n
    rw [search.points_eq_backtrackPoints shrinks measuring] at lowest
    refine ⟨report, least, hreport, running, lowest, fun nonneg success => ?_⟩
    cases ends with
    | exhausted => cases success
    | accepted k accepted =>
      calc least ≤ (φ (search.decreaseFactor ^ k)).objective :=
            lowest.2 ⟨_, List.mem_cons_of_mem _ (List.mem_map_of_mem (by simp)), rfl⟩
        _ < (φ 0).objective := accepted.lt nonneg

end Fresh

section Bowl

/-- A bowl along a line: the value falls from the zero step to the step one, and rises after it. -/
noncomputable def bowl (β : ℝ) : Trial ℝ Unit := ⟨0.5 * (β * β) - β, [β], (), .successful⟩

theorem status_bowl (β : ℝ) : (bowl β).status = .successful := rfl

/-- Starts a search for the bowl. -/
def bowlInput : SearchInput ℝ := { vector := some [-1], operator := some (.identity 1) }

theorem bowlInput_fresh : bowlInput.initialObjective = none := rfl

/-- A steep search: of the predicted decrease it asks for five eighths. -/
noncomputable def steep : Backtracking ℝ := ⟨.gradient, 0.625, 0.5⟩

theorem steep_decreaseFactor_ne_zero : steep.decreaseFactor ≠ 0 := by norm_num [steep]

theorem init_bowlInput :
    (steep.init bowlInput).outcome = .ok (.ok (initialState bowlInput [-1])) := rfl

/-- A budget of three trials. -/
noncomputable def threeTrials : SolveOptions ℝ :=
  { SolveOptions.standard with maxSteps := some 3, raise := false }

theorem maxSteps_threeTrials : threeTrials.maxSteps = some 3 := rfl

theorem accepts_bowl_iff (β : ℝ) : steep.Accepts [-1] bowl β ↔ 0 < β ∧ β < 0.75 := by
  have inner : Vec.inner [-1] (bowl β).diff = -β := by simp [bowl, Vec.inner]
  rw [Accepts, SufficientDecrease, inner]
  simp only [steep, bowl]
  constructor
  · rintro ⟨positive, below⟩
    exact ⟨by linarith, by nlinarith⟩
  · rintro ⟨positive, short⟩
    exact ⟨by linarith, by nlinarith⟩

/-- The bottom of the bowl is rejected, and the point before it is accepted. -/
theorem isLeast_accepts_bowl :
    IsLeast {k | steep.Accepts [-1] bowl (steep.decreaseFactor ^ k)} 1 := by
  refine ⟨(accepts_bowl_iff _).mpr (by norm_num [steep]), fun k hk => Nat.pos_of_ne_zero ?_⟩
  rintro rfl
  have short := ((accepts_bowl_iff _).mp hk).2
  norm_num at short

theorem fresh_search_outcome_bowl : ∃ solution report,
    ((steep.solver (fun β => .ok (bowl β)) bowlInput).solve (steep.firstInitial bowlInput) 1
      threeTrials none).outcome = .ok (.ok solution) ∧
    solution.status = .successful ∧ solution.stats.numSteps = 3 ∧
    solution.payload = some report ∧ report.runningMin = some (-0.5) := by
  obtain ⟨solution, outcome, accepted, -, reports⟩ := fresh_search_outcome steep
    steep_decreaseFactor_ne_zero bowlInput_fresh rfl init_bowlInput status_bowl 1
    maxSteps_threeTrials none
  obtain ⟨success, steps⟩ := accepted 1 isLeast_accepts_bowl le_rfl
  obtain ⟨report, least, hreport, running, lowest, -⟩ := reports (by norm_num)
  refine ⟨solution, report, ?_, success, steps, hreport, ?_⟩
  · rw [outcome _ fun _ _ h => (Except.ok.inj h).symm, mapM_eq_ok fun _ _ => rfl, ok_bind, success]
    rfl
  · have bottom : IsLeast {v | ∃ β ∈ backtrackPoints steep.decreaseFactor 3,
        v = (bowl β).objective} (-0.5) := by
      have tried : (1 : ℝ) ∈ backtrackPoints steep.decreaseFactor 3 :=
        List.mem_cons_of_mem _ (List.mem_map.mpr ⟨0, by simp, pow_zero _⟩)
      refine ⟨⟨1, tried, by norm_num [bowl]⟩, ?_⟩
      rintro v ⟨β, -, rfl⟩
      have square : 0 ≤ (β - 1) * (β - 1) := mul_self_nonneg _
      change -0.5 ≤ 0.5 * (β * β) - β
      linarith
    rw [steps] at lowest
    rw [running, lowest.unique bottom]

end Bowl

end DualOpt.Backtracking
