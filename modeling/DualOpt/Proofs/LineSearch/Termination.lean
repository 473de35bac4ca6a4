import Mathlib.Algebra.Order.Archimedean.Basic
import DualOpt.Proofs.LineSearch.SufficientDecrease

/-!
A backtracking search without a budget comes to an end.

Its multipliers are the powers of a number below one. If it accepts every multiplier below some
bound, it has accepted one at the latest when the powers have fallen below the bound, and for a
parabola that opens upwards it accepts none before.
-/
namespace DualOpt.Backtracking

section Powers
variable {t a : ℝ}

/-- The powers of a number below one fall below every positive bound. -/
theorem exists_isLeast_pow_lt (below : t < 1) (ha : 0 < a) :
    ∃ k, IsLeast {k : ℕ | t ^ k < a} k := by
  classical
  have falls : ∃ k : ℕ, t ^ k < a := exists_pow_lt_of_lt_one ha below
  exact ⟨Nat.find falls, Nat.find_spec falls, fun k hk => Nat.find_min' falls hk⟩

end Powers

variable {A : Type} (search : Backtracking ℝ) {input : SearchInput ℝ}

/-- A search for a function that has no budget succeeds after `T` trials. The trials themselves come
to their first stop there, and a solve returns where they stand if its counter can count them. -/
def SucceedsAfter (input : SearchInput ℝ) (φ : ℝ → Trial ℝ A) (T : ℕ) : Prop :=
  let solver := search.solver (fun β => .ok (φ β)) input
  ∃ s p, (search.init input).outcome = .ok (.ok s) ∧
    IsLeast (solver.stopTimes (search.firstInitial input) s) T ∧
    solver.after (search.firstInitial input) s T = .ok p ∧
    solver.terminate p.1 p.2.1 = (true, .successful) ∧
    ∀ outputs (options : SolveOptions ℝ) (stationarity : Option (ℝ → Traced ℝ (Vec ℝ))),
      options.maxSteps = none → T ≤ options.counterRange →
        (solver.solve (search.firstInitial input) outputs options stationarity).outcome = do
          Solver.examine stationarity .successful p.1
          return .ok ⟨p.1, .successful, p.2.2, ⟨T, none⟩⟩

variable {s : BacktrackingState ℝ} {φ : ℝ → Trial ℝ A}

/-- A fresh search ends with the first power that it accepts. -/
theorem succeedsAfter_of_accepts (shrinks : search.decreaseFactor ≠ 0)
    (fresh : input.initialObjective = none) (unset : input.initialMultiplier = none)
    (hinit : (search.init input).outcome = .ok (.ok s)) (healthy : ∀ β, (φ β).status = .successful)
    {k : ℕ} (accepted : search.Accepts s.gradient φ (search.decreaseFactor ^ k))
    (first : ∀ j < k, ¬ search.Accepts s.gradient φ (search.decreaseFactor ^ j)) :
    search.SucceedsAfter input φ (k + 2) := by
  obtain ⟨-, -, gradient, -, -, -, -, rfl⟩ := search.exists_of_init hinit
  have gradient_eq : (initialState input gradient).gradient = gradient := by rw [initialState_eq]
  rw [gradient_eq] at accepted first
  have measuring : input.measuresZero = true := by simp [SearchInput.measuresZero, fresh]
  have start : search.firstInitial input = 1 / search.decreaseFactor := by
    rw [firstInitial, unset, Option.getD_none]
  let solver := search.solver (fun β => .ok (φ β)) input
  let course := search.course (1 / search.decreaseFactor) input gradient φ
  have follows (n : ℕ) : solver.after (search.firstInitial input) (initialState input gradient) n =
      .ok (course n) := by
    rw [start, search.after_eq_course (φ := φ) fun β trial h => (Except.ok.inj h).symm,
      mapM_eq_ok fun _ _ => rfl]
    rfl
  have stops_iff (n : ℕ) : solver.Stops (course n).1 (course n).2.1 ↔
      ∃ j, n = j + 2 ∧ search.Accepts gradient φ (search.decreaseFactor ^ j) := by
    refine (search.stops_course_iff measuring healthy).trans ?_
    simp only [search.point_succ shrinks]
  have stops : solver.Stops (course (k + 2)).1 (course (k + 2)).2.1 :=
    (stops_iff _).mpr ⟨k, rfl, accepted⟩
  have status : (solver.terminate (course (k + 2)).1 (course (k + 2)).2.1).2 = .successful :=
    (search.terminate_real _ _).1.trans (search.status_course healthy _)
  have least : IsLeast (solver.stopTimes (search.firstInitial input)
      (initialState input gradient)) (k + 2) := by
    refine solver.isLeast_stopTimes (follows _) stops fun n hn p hp earlier => ?_
    obtain rfl := Except.ok.inj ((follows n).symm.trans hp)
    obtain ⟨j, rfl, sooner⟩ := (stops_iff n).mp earlier
    exact first j (by omega) sooner
  refine ⟨_, course (k + 2), hinit, least, follows _, ?_, ?_⟩
  · exact Prod.ext (stops.resolve_right (not_not.mpr status)) status
  · intro outputs options stationarity unbounded countable
    have within : k + 2 ≤ options.limit := by rwa [SolveOptions.limit, unbounded]
    rw [solver.solve_of_isLeast stationarity hinit least (follows _) within, status, unbounded,
      SolveOptions.deliver_of_successful _ rfl]

/-- A function whose values along the line form a parabola with slope `g` and curvature `h`, and
whose differences are the multiples of a direction. -/
structure Parabola (gradient d : Vec ℝ) (f₀ g h : ℝ) (φ : ℝ → Trial ℝ A) : Prop where
  objective : ∀ α, (φ α).objective = f₀ + g * α + 0.5 * h * α ^ 2
  diff : ∀ α, (φ α).diff = Vec.scale α d
  predicted : Vec.inner gradient d = g
  healthy : ∀ α, (φ α).status = .successful

/-- On a parabola that falls at first and opens upwards, the multipliers that are accepted are those
below a bound, for a slope below one. -/
theorem Parabola.accepts_iff {gradient d : Vec ℝ} {f₀ g h : ℝ}
    (parabola : Parabola gradient d f₀ g h φ) (falls : g < 0) (opens : 0 < h) {α : ℝ}
    (positive : 0 < α) :
    search.Accepts gradient φ α ↔ α < 2 * (1 - search.slope) * |g| / h := by
  have change : Vec.inner gradient (φ α).diff = α * g := by
    rw [parabola.diff, Vec.inner_scale, parabola.predicted]
  rw [Accepts, SufficientDecrease, change, parabola.objective, parabola.objective,
    abs_of_neg falls, lt_div_iff₀ opens, and_iff_right (mul_neg_of_pos_of_neg positive falls)]
  have gap : f₀ + g * α + 0.5 * h * α ^ 2 - (f₀ + g * 0 + 0.5 * h * 0 ^ 2 +
      search.slope * (α * g)) = 0.5 * α * (α * h - 2 * (1 - search.slope) * -g) := by ring
  rw [← sub_neg, gap, ← sub_neg (b := 2 * (1 - search.slope) * -g)]
  have factor : 0 < 0.5 * α := by positivity
  exact ⟨fun product => neg_of_mul_neg_right product factor.le, mul_neg_of_pos_of_neg factor⟩

/-- A search without a budget that accepts every multiplier below some bound succeeds, at the latest
two trials after the powers of its decrease factor fall below the bound. For a parabola there is
such a bound, and the search succeeds exactly then. -/
theorem unbounded_search_succeeds {mode : SearchMode} {slope t : ℝ} {search : Backtracking ℝ}
    (created : create mode slope t = .ok search) {input : SearchInput ℝ}
    (fresh : input.initialObjective = none) (unset : input.initialMultiplier = none)
    {s : BacktrackingState ℝ} (hinit : (search.init input).outcome = .ok (.ok s)) :
    (∀ (φ : ℝ → Trial ℝ A) (a : ℝ), (∀ α, (φ α).status = .successful) → 0 < a →
      (∀ α, 0 < α → α < a → search.Accepts s.gradient φ α) →
      ∃ k T, IsLeast {k : ℕ | t ^ k < a} k ∧ T ≤ k + 2 ∧ search.SucceedsAfter input φ T) ∧
    ∀ (φ : ℝ → Trial ℝ A) (d : Vec ℝ) (f₀ g h : ℝ), Parabola s.gradient d f₀ g h φ → g < 0 →
      0 < h → slope < 1 →
      let a := 2 * (1 - slope) * |g| / h
      0 < a ∧ (∀ α, 0 < α → α < a → search.Accepts s.gradient φ α) ∧
        ∃ k, IsLeast {k : ℕ | t ^ k < a} k ∧ search.SucceedsAfter input φ (k + 2) := by
  classical
  obtain ⟨rfl, positive, below⟩ := create_bounds created
  refine ⟨fun φ a healthy ha accepts => ?_, fun φ d f₀ g h parabola falls opens moderate => ?_⟩
  · obtain ⟨k, hk⟩ := exists_isLeast_pow_lt below ha
    have accepted : ∃ j, Accepts ⟨mode, slope, t⟩ s.gradient φ (t ^ j) :=
      ⟨k, accepts _ (pow_pos positive k) hk.1⟩
    refine ⟨k, Nat.find accepted + 2, hk, ?_, ?_⟩
    · exact Nat.add_le_add_right (Nat.find_min' accepted (accepts _ (pow_pos positive k) hk.1)) 2
    · exact succeedsAfter_of_accepts _ positive.ne' fresh unset hinit healthy
        (Nat.find_spec accepted) fun j hj => Nat.find_min accepted hj
  · intro a
    have ha : 0 < a := div_pos (mul_pos (mul_pos two_pos (sub_pos.mpr moderate))
      (abs_pos.mpr falls.ne)) opens
    have accepts_iff {α : ℝ} (hα : 0 < α) : Accepts ⟨mode, slope, t⟩ s.gradient φ α ↔ α < a :=
      parabola.accepts_iff _ falls opens hα
    obtain ⟨k, hk⟩ := exists_isLeast_pow_lt below ha
    refine ⟨ha, fun α hα short => (accepts_iff hα).mpr short, k, hk, ?_⟩
    refine succeedsAfter_of_accepts _ positive.ne' fresh unset hinit parabola.healthy
      ((accepts_iff (pow_pos positive k)).mpr hk.1) fun j hj accepted => ?_
    exact (hk.2 ((accepts_iff (pow_pos positive j)).mp accepted)).not_gt hj

theorem parabola_bowl : Parabola [-1] [1] 0 (-1) 1 bowl where
  objective α := by
    simp only [bowl]
    ring
  diff α := by simp [bowl, Vec.scale]
  predicted := by simp [Vec.inner]
  healthy := status_bowl

/-- The bound for the bowl is three quarters, so the second power is the first to be accepted. -/
theorem unbounded_search_succeeds_bowl :
    create .gradient 0.625 0.5 = .ok steep ∧ bowlInput.initialObjective = none ∧
      bowlInput.initialMultiplier = none ∧
      (steep.init bowlInput).outcome = .ok (.ok (initialState bowlInput [-1])) ∧
      Parabola [-1] [1] 0 (-1) 1 bowl ∧ steep.SucceedsAfter bowlInput bowl 3 := by
  have created : create .gradient 0.625 0.5 = .ok steep := by
    have above : (Scalar.epsilon : ℝ) < 0.5 := by
      change ((2 ^ 52)⁻¹ : ℝ) < 0.5
      norm_num
    have below : (0.5 : ℝ) < 1 := by norm_num
    simp [create, above, below, steep]
  obtain ⟨-, -, k, hk, succeeds⟩ := (unbounded_search_succeeds created bowlInput_fresh rfl
    init_bowlInput).2 bowl [1] 0 (-1) 1 parabola_bowl (by norm_num) one_pos (by norm_num)
  have first : IsLeast {k : ℕ | (0.5 : ℝ) ^ k < 2 * (1 - 0.625) * |(-1)| / 1} 1 := by
    refine ⟨by norm_num, fun k hk => Nat.pos_of_ne_zero ?_⟩
    rintro rfl
    norm_num at hk
  obtain rfl := hk.unique first
  exact ⟨created, bowlInput_fresh, rfl, init_bowlInput, parabola_bowl, succeeds⟩

end DualOpt.Backtracking
