import DualOpt.Proofs.LineSearch.SufficientDecrease

/-!
The step that a successful backtracking search reports, in exact arithmetic.

The test of sufficient decrease is made on the latest trial, and the step that is reported is the
best one seen. The two differ when an earlier trial that failed the test was as low: then the
reported step fails it too, although its value is below the start.
-/
namespace DualOpt.Backtracking
variable {A : Type} {slope f₀ value : ℝ} {gradient diff : Vec ℝ}

/-- The zero step predicts no decrease. -/
theorem not_sufficientDecrease_zerosLike :
    ¬ SufficientDecrease slope f₀ gradient value (Vec.zerosLike gradient) := by
  intro h
  have inner : Vec.inner gradient (Vec.zerosLike gradient) = 0 := by
    rw [Vec.inner_eq_dotProduct _ le_rfl, Vec.coords_zerosLike, dotProduct_zero]
  exact h.1.ne inner

/-- What is kept after an accepted trial passes the test exactly if it is this trial. -/
theorem FirstLeast.sufficientDecrease_iff (nonneg : 0 ≤ slope) {start least : Option ℝ}
    {zero last : Trial ℝ A} {middle : List (Trial ℝ A)}
    (h : FirstLeast start (Vec.zerosLike gradient) (zero :: (middle ++ [last])) least diff)
    (accepted : SufficientDecrease slope zero.objective gradient last.objective last.diff)
    (rejected : ∀ u ∈ middle,
      ¬ SufficientDecrease slope zero.objective gradient u.objective u.diff)
    (kept : least = some value) :
    SufficientDecrease slope zero.objective gradient value diff ↔
      (∀ u ∈ middle, last.objective < u.objective) ∧ ∀ f ∈ start, last.objective < f := by
  have lower : last.objective < zero.objective := accepted.lt nonneg
  have le : value ≤ last.objective := by
    obtain ⟨v, hv, le⟩ := h.exists_le (t := last) (by simp)
    rwa [Option.some.inj (kept.symm.trans hv)]
  cases h with
  | kept none_below =>
    refine iff_of_false not_sufficientDecrease_zerosLike ?_
    rintro ⟨-, below⟩
    exact (below value kept).not_ge le
  | found earlier u later split below first lowest =>
    obtain rfl := Option.some.inj kept
    -- Either the trial that is kept is the last one, or it came before and was rejected.
    rcases later.eq_nil_or_concat with rfl | ⟨rest, final, rfl⟩
    · have ending : (zero :: middle) ++ [last] = earlier ++ [u] := split
      obtain ⟨rfl, hlast⟩ := List.append_inj' ending rfl
      obtain rfl : last = u := List.head_eq_of_cons_eq hlast
      refine iff_of_true accepted ⟨fun w hw => ?_, ?_⟩
      · exact not_le.mp (first w (List.mem_cons_of_mem _ hw))
      · rintro f ⟨⟩
        exact of_decide_eq_true below
    · have ending : (zero :: middle) ++ [last] = (earlier ++ u :: rest) ++ [final] := by
        simpa using split
      have before : zero :: middle = earlier ++ u :: rest := (List.append_inj' ending rfl).1
      have mem : u ∈ zero :: middle := by simp [before]
      rcases List.mem_cons.mp mem with rfl | mem
      · exact absurd lower le.not_gt
      · exact iff_of_false (rejected u mem) fun h => (h.1 u mem).not_ge le

variable (search : Backtracking ℝ) {input : SearchInput ℝ} {α : ℝ}

/-- What a search tried between the zero step and its last trial did not pass the test. -/
theorem rejected_of_solve (measuring : input.measuresZero = true)
    (hinit : (search.init input).outcome = .ok (.ok (initialState input gradient)))
    {measure : ℝ → Except Fault (Trial ℝ A)} {outputs : ℕ} {options : SolveOptions ℝ}
    {stationarity : Option (ℝ → Traced ℝ (Vec ℝ))} {solution : Solution ℝ (SearchReport ℝ A)}
    (h : ((search.solver measure input).solve α outputs options stationarity).outcome =
      .ok (options.deliver solution)) {zero last : Trial ℝ A} {middle : List (Trial ℝ A)}
    (htrials : (search.points α (initialState input gradient) solution.stats.numSteps).mapM
      measure = .ok (zero :: (middle ++ [last]))) {u : Trial ℝ A} (hu : u ∈ middle) :
    ¬ SufficientDecrease search.slope zero.objective gradient u.objective u.diff := by
  intro accepted
  obtain ⟨earlier, later, rfl⟩ := List.append_of_mem hu
  have sooner : earlier.length + 2 < solution.stats.numSteps := by
    have length := length_of_mapM htrials
    simp only [points, List.length_cons, List.length_append, List.length_map,
      List.length_range] at length
    omega
  have part : (zero :: (earlier ++ u :: later ++ [last])).take (earlier.length + 2) =
      zero :: (earlier ++ [u]) := by
    simp [List.take_append]
  have before := search.after_take α (initialState input gradient) input htrials sooner.le
  rw [part] at before
  exact Solver.not_stops_of_solve _ hinit h sooner before
    (.inl ((search.done_recordAll_iff measuring α gradient zero earlier u).mpr accepted))

/-- A success has measured the zero step and then some trials, the last of which is the first that
passed the test. -/
theorem exists_trials_of_successful (measuring : input.measuresZero = true)
    {measure : ℝ → Except Fault (Trial ℝ A)} {outputs : ℕ} {options : SolveOptions ℝ}
    {stationarity : Option (ℝ → Traced ℝ (Vec ℝ))} {solution : Solution ℝ (SearchReport ℝ A)}
    (h : ((search.solver measure input).solve α outputs options stationarity).outcome =
      .ok (.ok solution)) (success : solution.status = .successful) :
    ∃ gradient zero middle last,
      (search.init input).outcome = .ok (.ok (initialState input gradient)) ∧
      (search.points α (initialState input gradient) solution.stats.numSteps).mapM measure =
        .ok (zero :: (middle ++ [last])) ∧
      solution.payload =
        (search.recordAll α (initialState input gradient) (zero :: (middle ++ [last]))).2.2 ∧
      SufficientDecrease search.slope zero.objective gradient last.objective last.diff ∧
      ∀ u ∈ middle,
        ¬ SufficientDecrease search.slope zero.objective gradient u.objective u.diff := by
  obtain ⟨s, state, hinit, hlast, done⟩ := Solver.exists_of_successful _ h success
  obtain ⟨-, -, gradient, -, -, -, -, rfl⟩ := search.exists_of_init hinit
  rw [after_eq_recordAll] at hlast
  obtain ⟨trials, htrials, hrun⟩ := map_eq_ok_iff.mp hlast
  have finished : (search.terminate solution.value state).1 = true := congrArg Prod.fst done
  have long : 1 < trials.length := by
    have steps := (search.recorded_recordAll α (initialState input gradient) trials).steps
    rw [hrun, initialState_eq, Nat.zero_add] at steps
    exact steps ▸ ((search.terminate_real _ _).2.mp finished).1
  obtain ⟨zero, middle, last, rfl⟩ : ∃ zero middle last, trials = zero :: (middle ++ [last]) := by
    cases trials with
    | nil => exact absurd long (Nat.not_lt_zero 1)
    | cons zero rest =>
      rcases rest.eq_nil_or_concat with rfl | ⟨middle, last, rfl⟩
      · exact absurd long (Nat.lt_irrefl 1)
      · exact ⟨zero, middle, last, by rw [List.concat_eq_append]⟩
  refine ⟨gradient, zero, middle, last, hinit, htrials, by rw [hrun], ?_, fun u hu => ?_⟩
  · refine (search.done_recordAll_iff measuring α gradient zero middle last).mp ?_
    rwa [hrun]
  · rw [← options.deliver_of_successful success] at h
    exact search.rejected_of_solve measuring hinit h htrials hu

/-- The test holds of the trial that a successful search ends with, and the least value, which is
what it reports, is no higher, so it is below the first value. The reported step itself passes the
test exactly if the last trial is lower than every trial between it and the zero step, and lower
than the objective that was known before: of the best steps the first wins, and what is as good as
the last trial and came before it has failed the test. -/
theorem reported_sufficientDecrease_iff (search : Backtracking ℝ) (nonneg : 0 ≤ search.slope)
    {input : SearchInput ℝ} (measuring : input.measuresZero = true)
    {measure : ℝ → Except Fault (Trial ℝ A)} {α : ℝ} {outputs : ℕ} {options : SolveOptions ℝ}
    {stationarity : Option (ℝ → Traced ℝ (Vec ℝ))} {solution : Solution ℝ (SearchReport ℝ A)}
    (h : ((search.solver measure input).solve α outputs options stationarity).outcome =
      .ok (.ok solution)) (success : solution.status = .successful) :
    ∃ gradient zero middle last report least,
      (search.init input).outcome = .ok (.ok (initialState input gradient)) ∧
      (search.points α (initialState input gradient) solution.stats.numSteps).mapM measure =
        .ok (zero :: (middle ++ [last])) ∧
      solution.payload = some report ∧ report.runningMin = some least ∧
      SufficientDecrease search.slope zero.objective gradient last.objective last.diff ∧
      least ≤ last.objective ∧ least < zero.objective ∧
      (SufficientDecrease search.slope zero.objective gradient least report.runningMinDiff ↔
        (∀ u ∈ middle, last.objective < u.objective) ∧
          ∀ f ∈ input.initialObjective, last.objective < f) := by
  obtain ⟨gradient, zero, middle, last, hinit, htrials, hpayload, accepted, rejected⟩ :=
    search.exists_trials_of_successful measuring h success
  obtain ⟨report, hreport, running, runningDiff⟩ :=
    search.exists_report_recordAll α (initialState input gradient) (zero :: middle) last
  have kept := search.firstLeast_recordAll α (initialState input gradient)
    (zero :: (middle ++ [last]))
  rw [List.cons_append] at hreport running runningDiff
  rw [← running, ← runningDiff, initialState_eq] at kept
  obtain ⟨least, hleast, le⟩ := kept.exists_le (t := last) (by simp)
  exact ⟨gradient, zero, middle, last, report, least, hinit, htrials, hpayload.trans hreport,
    hleast, accepted, le, le.trans_lt (accepted.lt nonneg),
    kept.sufficientDecrease_iff nonneg accepted rejected hleast⟩

section Bowl

/-- The bottom of the bowl is kept when the point before it passes the test. -/
theorem course_bowl :
    (steep.course (1 / steep.decreaseFactor) bowlInput [-1] bowl 3).2.1.runningMin =
        some (-0.5) ∧
      (steep.course (1 / steep.decreaseFactor) bowlInput [-1] bowl 3).2.1.runningMinDiff = [1] := by
  have points : steep.points (1 / steep.decreaseFactor) (initialState bowlInput [-1]) 3 =
      [0, 1, 0.5] := by
    rw [steep.points_eq_backtrackPoints steep_decreaseFactor_ne_zero rfl]
    simp [backtrackPoints, List.range_succ, steep]
  have below (v : ℝ) : Scalar.belowInfinity v = true := rfl
  rw [course, points]
  norm_num [recordAll, record, improves, below, bowl, initialState_eq, bowlInput, Vec.choose]

theorem solve_bowl : ∃ solution report,
    ((steep.solver (fun β => .ok (bowl β)) bowlInput).solve (steep.firstInitial bowlInput) 1
      threeTrials none).outcome = .ok (.ok solution) ∧
    solution.status = .successful ∧ solution.payload = some report ∧
    report.runningMin = some (-0.5) ∧ report.runningMinDiff = [1] := by
  have ends : EndsAfter (fun k => steep.Accepts [-1] bowl (steep.decreaseFactor ^ k))
      threeTrials.maxSteps 3 .successful :=
    .accepted 1 isLeast_accepts_bowl.1 fun j hj accepted =>
      (isLeast_accepts_bowl.2 accepted).not_gt hj
  have agrees (β : ℝ) (trial : Trial ℝ Unit)
      (h : (fun β => Except.ok (bowl β) : ℝ → Except Fault (Trial ℝ Unit)) β = .ok trial) :
      trial = bowl β := (Except.ok.inj h).symm
  have outcome := steep.solve_eq_course_of_fresh steep_decreaseFactor_ne_zero bowlInput_fresh rfl
    init_bowlInput status_bowl agrees 1 none le_rfl ends
  rw [mapM_eq_ok fun _ _ => rfl] at outcome
  obtain ⟨report, hreport, running, runningDiff⟩ :=
    steep.exists_report_course (1 / steep.decreaseFactor) bowlInput [-1] bowl 2
  obtain ⟨least, leastDiff⟩ := course_bowl
  exact ⟨_, report, outcome, rfl, hreport, running.trans least, runningDiff.trans leastDiff⟩

theorem reported_sufficientDecrease_iff_bowl :
    ∃ (solution : Solution ℝ (SearchReport ℝ Unit)) (zero last : Trial ℝ Unit)
      (middle : List (Trial ℝ Unit)) (gradient : Vec ℝ) (report : SearchReport ℝ Unit) (least : ℝ),
    ((steep.solver (fun β => .ok (bowl β)) bowlInput).solve (steep.firstInitial bowlInput) 1
      threeTrials none).outcome = .ok (.ok solution) ∧
    (steep.points (steep.firstInitial bowlInput) (initialState bowlInput gradient)
      solution.stats.numSteps).map bowl = zero :: (middle ++ [last]) ∧
    solution.payload = some report ∧ report.runningMin = some least ∧ least < zero.objective ∧
    (SufficientDecrease 0.625 zero.objective gradient least report.runningMinDiff ↔
      ∀ u ∈ middle, last.objective < u.objective) := by
  obtain ⟨solution, -, outcome, success, -⟩ := solve_bowl
  have nonneg : 0 ≤ steep.slope := by norm_num [steep]
  obtain ⟨gradient, zero, middle, last, report, least, -, trials, hreport, hleast, -, -, lower,
    reported⟩ := reported_sufficientDecrease_iff steep nonneg rfl outcome success
  rw [mapM_eq_ok fun _ _ => rfl] at trials
  refine ⟨solution, zero, last, middle, gradient, report, least, outcome, Except.ok.inj trials,
    hreport, hleast, lower, reported.trans ?_⟩
  simp [bowlInput]

/-- The search for the bowl succeeds with a step that does not pass its test. -/
theorem bowl_reported_insufficient : ∃ solution report,
    0 ≤ steep.slope ∧ bowlInput.measuresZero = true ∧
    ((steep.solver (fun β => .ok (bowl β)) bowlInput).solve (steep.firstInitial bowlInput) 1
      threeTrials none).outcome = .ok (.ok solution) ∧
    solution.status = .successful ∧ solution.payload = some report ∧
    report.runningMin = some (-0.5) ∧
    ¬ SufficientDecrease steep.slope (bowl 0).objective [-1] (-0.5) report.runningMinDiff := by
  obtain ⟨solution, report, outcome, success, hreport, least, leastDiff⟩ := solve_bowl
  refine ⟨solution, report, by norm_num [steep], rfl, outcome, success, hreport, least, ?_⟩
  rintro ⟨-, below⟩
  rw [leastDiff, Vec.inner_cons] at below
  norm_num [steep, bowl, Vec.inner] at below

end Bowl

end DualOpt.Backtracking
