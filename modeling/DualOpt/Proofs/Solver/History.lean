import Mathlib.Data.List.DropRight
import DualOpt.Proofs.Exact.Elementary
import DualOpt.Proofs.Solver.Lbfgs

/-!
What the limited-memory BFGS method remembers of a run, and that its direction leads downhill.

Every step of a run makes a curvature pair, and a pair of positive curvature is accepted. The
history of a state that is reached is made of the accepted pairs of the steps before it, or of as
many of the most recent ones as the memory holds. This is so in any arithmetic.
-/
namespace DualOpt

variable {F A : Type} [Scalar F]

/-- Where a sum gives back what was added, a move gives back its step. -/
theorem Vec.sub_add_cancel_left (cancel : ∀ a b : F, a + b - a = b) {y step : Vec F}
    (same : step.length = y.length) : Vec.sub (Vec.add y step) y = step := by
  induction y generalizing step with
  | nil => rw [List.length_eq_zero_iff.mp same]; rfl
  | cons a y ih =>
    cases step with
    | nil => cases same
    | cons b step => exact congrArg₂ List.cons (cancel a b) (ih (Nat.succ.inj same))

namespace CurvaturePair

def Accepted (p : CurvaturePair F) : Prop := 0 < Vec.inner p.step p.gradientChange

instance : DecidablePred (Accepted (F := F)) := fun p =>
  inferInstanceAs (Decidable (0 < Vec.inner p.step p.gradientChange))

/-- The pair of a move: its step leads from `y` to `next`, and it has the change of the gradient
between them. -/
structure Of (f : Objective F A) (y next : Vec F) (p : CurvaturePair F) : Prop where
  next_eq : next = Vec.add y p.step
  difference : (∀ a b : F, a + b - a = b) → p.step = Vec.sub next y
  change : ∃ g g', gradientWith f y = .ok g ∧ gradientWith f next = .ok g' ∧
    p.gradientChange = Vec.sub g'.gradient g.gradient
  reciprocal : p.reciprocal = 1 / Vec.inner p.step p.gradientChange

end CurvaturePair

namespace Lbfgs

section Memory
variable {memory : ℕ} {history pairs : List (CurvaturePair F)}

theorem length_rtake {α : Type} (xs : List α) (n : ℕ) : (xs.rtake n).length = min n xs.length := by
  rw [List.rtake, List.length_drop]
  omega

/-- An entry that is added makes room for itself if there are enough already. -/
theorem rtake_append_singleton {α : Type} (xs : List α) (x : α) {n : ℕ} (positive : 0 < n) :
    (xs ++ [x]).rtake n =
      (if (xs.rtake n).length = n then (xs.rtake n).tail else xs.rtake n) ++ [x] := by
  obtain ⟨m, rfl⟩ := Nat.exists_eq_succ_of_ne_zero positive.ne'
  rw [List.rtake_concat_succ, length_rtake]
  split
  · rw [List.rtake, List.rtake, List.tail_drop]
    congr 2
    omega
  · rw [List.rtake, List.rtake]
    congr 2
    omega

/-- The history after some pairs have come one after the other. -/
def rememberAll (memory : ℕ) (pairs : List (CurvaturePair F)) : List (CurvaturePair F) :=
  pairs.foldl (fun history p => remember memory history p.step p.gradientChange) []

theorem rememberAll_append (memory : ℕ) (pairs : List (CurvaturePair F)) (p : CurvaturePair F) :
    rememberAll memory (pairs ++ [p]) =
      remember memory (rememberAll memory pairs) p.step p.gradientChange := by
  rw [rememberAll, List.foldl_append]
  rfl

/-- What is remembered are the most recent of the pairs that were accepted. -/
theorem rememberAll_eq_rtake
    (reciprocals : ∀ p ∈ pairs, p.reciprocal = 1 / Vec.inner p.step p.gradientChange) :
    rememberAll memory pairs = (pairs.filter (decide ·.Accepted)).rtake memory := by
  induction pairs using List.reverseRecOn with
  | nil => simp [rememberAll]
  | append_singleton older p ih =>
    obtain ⟨reciprocals_older, reciprocal⟩ := List.forall_mem_append.mp reciprocals
    have whole : ⟨p.step, p.gradientChange, 1 / Vec.inner p.step p.gradientChange⟩ = p := by
      rw [← reciprocal p (List.mem_singleton_self p)]
    rw [rememberAll_append, ih reciprocals_older, remember, whole, List.filter_append]
    by_cases accepted : p.Accepted
    · have kept : [p].filter (decide ·.Accepted) = [p] := by simp [accepted]
      rw [kept]
      rcases memory.eq_zero_or_pos with rfl | positive
      · simp
      · have curvature : 0 < Vec.inner p.step p.gradientChange := accepted
        simp [rtake_append_singleton _ p positive, curvature, positive]
    · have dropped : [p].filter (decide ·.Accepted) = [] := by simp [accepted]
      have curvature : ¬ 0 < Vec.inner p.step p.gradientChange := accepted
      simp [dropped, curvature]

end Memory

/-- A history as a list of steps, a list of gradient changes and a list of reciprocals. -/
structure SplitHistory (F : Type) where
  steps : List (Vec F)
  gradientChanges : List (Vec F)
  reciprocals : List F

namespace SplitHistory

def ofHistory {F : Type} (history : List (CurvaturePair F)) : SplitHistory F :=
  ⟨history.map (·.step), history.map (·.gradientChange), history.map (·.reciprocal)⟩

/-- Takes the oldest entry off each list, which all must have one. -/
def forget {F : Type} (h : SplitHistory F) : Option (SplitHistory F) := do
  return ⟨← h.steps.tail?, ← h.gradientChanges.tail?, ← h.reciprocals.tail?⟩

/-- Appends to each list if the curvature is positive. Whether they are full is read off the list
of steps. -/
def remember (memory : ℕ) (h : SplitHistory F) (step gradientChange : Vec F) :
    Option (SplitHistory F) := do
  let curvature := Vec.inner step gradientChange
  if curvature > 0 && memory > 0 then
    let kept ← if h.steps.length = memory then h.forget else some h
    return ⟨kept.steps ++ [step], kept.gradientChanges ++ [gradientChange],
      kept.reciprocals ++ [1 / curvature]⟩
  else return h

theorem forget_ofHistory {F : Type} {history : List (CurvaturePair F)} (nonempty : history ≠ []) :
    (ofHistory history).forget = some (ofHistory history.tail) := by
  cases history with
  | nil => exact absurd rfl nonempty
  | cons p history => rfl

/-- Three lists that are kept side by side stay aligned. -/
theorem remember_ofHistory (memory : ℕ) (history : List (CurvaturePair F))
    (step gradientChange : Vec F) :
    (ofHistory history).remember memory step gradientChange =
      some (ofHistory (Lbfgs.remember memory history step gradientChange)) := by
  have count : (ofHistory history).steps.length = history.length := List.length_map _
  rw [remember, Lbfgs.remember, count]
  dsimp only
  split
  · next accepted =>
    split
    · next full =>
      have nonempty : history ≠ [] := by
        rintro rfl
        simp [← full] at accepted
      rw [forget_ofHistory nonempty]
      simp [ofHistory]
    · simp [ofHistory]
  · rfl

theorem foldlM_remember (memory : ℕ) (pairs : List (CurvaturePair F)) :
    pairs.foldlM (fun h p => h.remember memory p.step p.gradientChange) (ofHistory []) =
      some (ofHistory (rememberAll memory pairs)) := by
  induction pairs using List.reverseRecOn with
  | nil => rfl
  | append_singleton older p ih =>
    rw [List.foldlM_append, ih, rememberAll_append, ← remember_ofHistory]
    simp

end SplitHistory

section Run
variable {l : Lbfgs F} {f : Objective F A} {y₀ : Vec F} {s₀ : LbfgsState F}

/-- A step makes the pair of its move and remembers it. -/
theorem Coherent.exists_pair {y : Vec F} {s : LbfgsState F} (coherent : Coherent f y s)
    {q : Vec F × LbfgsState F × A} (h : (l.step f y s).outcome = .ok q) :
    ∃ p : CurvaturePair F, p.Of f y q.1 ∧ q.2.1.diff = p.step ∧
      q.2.1.history = remember l.memory s.history p.step p.gradientChange := by
  obtain ⟨v, gradient, found, settled, g, hcurrent, hfound, hsettled, hg, rfl⟩ :=
    l.step_outcome_iff.mp h
  obtain ⟨payload, hgradient⟩ := coherent.current hcurrent
  have length_settled := coherent.length_settled l hcurrent hfound hsettled
  let change := Vec.sub g.gradient gradient
  refine ⟨⟨settled.1, change, 1 / Vec.inner settled.1 change⟩, ?_, rfl, rfl⟩
  exact {
    next_eq := rfl
    difference := fun cancel => (Vec.sub_add_cancel_left cancel length_settled).symm
    change := ⟨_, g, hgradient, hg, rfl⟩
    reciprocal := rfl }

/-- The pairs of the first `k` moves of a run, from the oldest to the newest. -/
structure Moves (l : Lbfgs F) (f : Objective F A) (y₀ : Vec F) (s₀ : LbfgsState F) (k : ℕ)
    (pairs : List (CurvaturePair F)) : Prop where
  count : pairs.length = k
  made : ∀ j (hj : j < pairs.length), ∃ a b, (l.solver f).after y₀ s₀ j = .ok a ∧
    (l.solver f).after y₀ s₀ (j + 1) = .ok b ∧ pairs[j].Of f a.1 b.1 ∧ b.2.1.diff = pairs[j].step

theorem Moves.reciprocals {k : ℕ} {pairs : List (CurvaturePair F)}
    (moves : l.Moves f y₀ s₀ k pairs) :
    ∀ p ∈ pairs, p.reciprocal = 1 / Vec.inner p.step p.gradientChange := by
  intro p hp
  obtain ⟨j, hj, rfl⟩ := List.getElem_of_mem hp
  obtain ⟨a, b, -, -, pair, -⟩ := moves.made j hj
  exact pair.reciprocal

theorem Moves.append {k : ℕ} {pairs : List (CurvaturePair F)} (moves : l.Moves f y₀ s₀ k pairs)
    {a b : Vec F × LbfgsState F × Option A} (ha : (l.solver f).after y₀ s₀ k = .ok a)
    (hb : (l.solver f).after y₀ s₀ (k + 1) = .ok b) {p : CurvaturePair F} (pair : p.Of f a.1 b.1)
    (diff : b.2.1.diff = p.step) : l.Moves f y₀ s₀ (k + 1) (pairs ++ [p]) := by
  constructor
  · rw [List.length_append, moves.count, List.length_singleton]
  · intro j hj
    rcases Nat.lt_or_ge j pairs.length with older | newest
    · rw [List.getElem_append_left older]
      exact moves.made j older
    · obtain rfl : j = k := by
        rw [List.length_append, List.length_singleton] at hj
        have count := moves.count
        omega
      rw [List.getElem_concat_length moves.count.symm]
      exact ⟨a, b, ha, hb, pair, diff⟩

/-- The state of a run remembers its moves. -/
theorem exists_moves (start : Coherent f y₀ s₀) (empty : s₀.history = []) {k : ℕ}
    {p : Vec F × LbfgsState F × Option A} (hp : (l.solver f).after y₀ s₀ k = .ok p) :
    p.1.length = y₀.length ∧ Coherent f p.1 p.2.1 ∧
      ∃ pairs, l.Moves f y₀ s₀ k pairs ∧ p.2.1.history = rememberAll l.memory pairs := by
  induction k generalizing p with
  | zero =>
    obtain rfl := Except.ok.inj hp
    exact ⟨rfl, start, [], ⟨rfl, fun j hj => absurd hj (Nat.not_lt_zero j)⟩, empty⟩
  | succ k ih =>
    obtain ⟨r, q, hr, hq, rfl⟩ := (l.solver f).exists_of_after_succ hp
    obtain ⟨length, coherent, pairs, moves, history⟩ := ih hr
    obtain ⟨length_next, coherent_next⟩ := coherent.step l hq
    obtain ⟨pair, made, diff, remembered⟩ := coherent.exists_pair hq
    refine ⟨length_next.trans length, coherent_next, pairs ++ [pair],
      moves.append hr hp made diff, ?_⟩
    rw [rememberAll_append, ← history]
    exact remembered

end Run

section Growth

/-- The exponential function of the first variable. -/
noncomputable def growth : Objective ℝ Unit := fun d => .ok ((d.headD (.constant 0)).exp, ())

theorem gradientWith_growth (x : ℝ) :
    gradientWith growth [x] = .ok ⟨Real.exp x, [Real.exp x], ()⟩ := by
  have start : Dual.constants [x] = [⟨x, 0⟩] := rfl
  have seeded : Dual.seedAt [x] 0 = [⟨x, 1⟩] := by simp [Dual.seedAt, Vec.unit, List.range_succ]
  refine (gradientWith_ok (fun d => ((d.headD (.constant 0)).exp, ())) [x]).trans ?_
  simp [start, seeded, Dual.exp, Dual.chain, Elementary.exp]

/-- A run on it has a gradient everywhere, whatever else the settings are. -/
theorem exists_after_growth {l : Lbfgs ℝ} (mode : l.lineSearch.mode = .gradient)
    (room : l.memory * Storage.listBytes ≤ Storage.longestBlock) (k : ℕ) :
    ((l.solver growth).init [0] 1 .empty).outcome = .ok (.ok (initialState [0])) ∧
      ∃ x s payload, (l.solver growth).after [0] (initialState [0]) k = .ok ([x], s, payload) ∧
        current growth [x] s = .ok (Real.exp x, [Real.exp x]) := by
  have hinit : ((l.solver growth).init [0] 1 .empty).outcome = .ok (.ok (initialState [0])) := by
    simp [solver, init, Storage.reserve_ok room]
  have total (y : Vec ℝ) (s : LbfgsState ℝ) : ∃ q, (l.step growth y s).outcome = .ok q := by
    obtain ⟨q, hq, -⟩ := l.exists_step mode (fun d => ((d.headD (.constant 0)).exp, ())) y s
    exact ⟨q, hq⟩
  obtain ⟨⟨y, s, payload⟩, hp⟩ :=
    (l.solver growth).exists_after_of_forall_step total [0] (initialState [0]) k
  obtain ⟨length, coherent, -⟩ := exists_moves (l.coherent_of_init hinit).1 rfl hp
  obtain ⟨x, rfl⟩ := List.length_eq_one_iff.mp length
  obtain ⟨v, gradient, hcurrent⟩ :=
    exists_current (fun d => ((d.headD (.constant 0)).exp, ())) [x] s
  obtain ⟨_, hgradient⟩ := coherent.current hcurrent
  obtain ⟨rfl, rfl, -⟩ := Gradient.mk.inj
    (Except.ok.inj (hgradient.symm.trans (gradientWith_growth x)))
  exact ⟨hinit, x, s, payload, hp, hcurrent⟩

/-- The usual settings with room for one pair. -/
noncomputable def shortMemory : Lbfgs ℝ := { Lbfgs.standard with memory := 1 }

end Growth

/-- The history of a state that is reached is made of the most recent pairs with positive
curvature, as many as there are and the memory holds, and three lists kept side by side hold the
same. -/
theorem history_eq_recent (l : Lbfgs F) (f : Objective F A) {y₀ : Vec F} {outputs : ℕ} {tags : Tags}
    {s₀ : LbfgsState F} (hinit : ((l.solver f).init y₀ outputs tags).outcome = .ok (.ok s₀)) {k : ℕ}
    {p : Vec F × LbfgsState F × Option A} (hp : (l.solver f).after y₀ s₀ k = .ok p) :
    ∃ pairs, l.Moves f y₀ s₀ k pairs ∧
      p.2.1.history = (pairs.filter (decide ·.Accepted)).rtake l.memory ∧
      p.2.1.history.length = min l.memory (pairs.countP (decide ·.Accepted)) ∧
      (∀ pair ∈ p.2.1.history, pair.Accepted ∧
        pair.reciprocal = 1 / Vec.inner pair.step pair.gradientChange ∧
        pair.step.length = y₀.length ∧ pair.gradientChange.length = y₀.length) ∧
      pairs.foldlM (fun h pair => h.remember l.memory pair.step pair.gradientChange)
        (SplitHistory.ofHistory []) = some (SplitHistory.ofHistory p.2.1.history) := by
  obtain ⟨start, rfl⟩ := l.coherent_of_init hinit
  obtain ⟨length, coherent, pairs, moves, history⟩ := exists_moves start rfl hp
  have recent : rememberAll l.memory pairs = (pairs.filter (decide ·.Accepted)).rtake l.memory :=
    rememberAll_eq_rtake moves.reciprocals
  refine ⟨pairs, moves, history.trans recent, ?_, fun pair hpair => ?_, ?_⟩
  · rw [history, recent, length_rtake, List.countP_eq_length_filter]
  · obtain ⟨curvature, reciprocal⟩ := coherent.curved pair hpair
    obtain ⟨length_step, length_change⟩ := coherent.sized pair hpair
    exact ⟨curvature, reciprocal, length_step.trans length, length_change.trans length⟩
  · rw [SplitHistory.foldlM_remember, history]

theorem history_eq_recent_growth : ∃ p,
    (shortMemory.solver growth).after [0] (initialState [0]) 3 = .ok p ∧
    ∃ pairs, shortMemory.Moves growth [0] (initialState [0]) 3 pairs ∧
      p.2.1.history = (pairs.filter (decide ·.Accepted)).rtake 1 ∧
      p.2.1.history.length = min 1 (pairs.countP (decide ·.Accepted)) := by
  obtain ⟨hinit, x, s, payload, hp, -⟩ := exists_after_growth (l := shortMemory) rfl (by decide) 3
  obtain ⟨pairs, moves, recent, length, -⟩ := history_eq_recent shortMemory growth hinit hp
  exact ⟨_, hp, pairs, moves, recent, length⟩

section Downhill
variable {A : Type}

/-- A step goes along the direction that it computes. -/
theorem Coherent.exists_diff_eq_scale {l : Lbfgs ℝ} {f : Objective ℝ A} {y : Vec ℝ}
    {s : LbfgsState ℝ} (coherent : Coherent f y s) {v : ℝ} {gradient : Vec ℝ}
    (hcurrent : Lbfgs.current f y s = .ok (v, gradient)) {q : Vec ℝ × LbfgsState ℝ × A}
    (h : (l.step f y s).outcome = .ok q) :
    ∃ α, q.2.1.diff = Vec.scale α (direction gradient s.history) := by
  obtain ⟨v', gradient', found, settled, g, hcurrent', hfound, hsettled, -, rfl⟩ :=
    l.step_outcome_iff.mp h
  obtain ⟨rfl, rfl⟩ := Prod.mk.inj (Except.ok.inj (hcurrent.symm.trans hcurrent'))
  obtain ⟨payload, hgradient⟩ := coherent.current hcurrent
  have length := length_direction (length_of_gradientWith hgradient) coherent.sized
  have still : Vec.zerosLike y = Vec.scale 0 (direction gradient s.history) := by
    rw [Vec.scale_zero, Vec.zerosLike, Vec.zerosLike, length]
  rcases l.settle_cases rfl rfl hfound hsettled with
    ⟨-, rfl⟩ | ⟨-, rfl⟩ | ⟨-, f₀, least, n, surveyed, -⟩
  · exact ⟨0, still⟩
  · exact ⟨0, still⟩
  · obtain ⟨α, -, along⟩ := surveyed.exists_multiplier
    exact ⟨α, along⟩

/-- In every state that is reached, the next step goes along a direction of strict descent, unless
the gradient is zero. -/
theorem direction_downhill (l : Lbfgs ℝ) (f : Objective ℝ A) {y₀ : Vec ℝ} {outputs : ℕ}
    {tags : Tags} {s₀ : LbfgsState ℝ}
    (hinit : ((l.solver f).init y₀ outputs tags).outcome = .ok (.ok s₀)) {k : ℕ}
    {p : Vec ℝ × LbfgsState ℝ × Option A} (hp : (l.solver f).after y₀ s₀ k = .ok p) {v : ℝ}
    {gradient : Vec ℝ} (hcurrent : current f p.1 p.2.1 = .ok (v, gradient))
    (nonzero : gradient ≠ Vec.zerosLike p.1) :
    (∃ payload, gradientWith f p.1 = .ok ⟨v, gradient, payload⟩) ∧
      Vec.inner gradient (direction gradient p.2.1.history) < 0 ∧
      ∀ q, (l.step f p.1 p.2.1).outcome = .ok q →
        ∃ α, q.2.1.diff = Vec.scale α (direction gradient p.2.1.history) := by
  have coherent : Coherent f p.1 p.2.1 :=
    (l.solver f).after_induction (l.coherent_of_init hinit).1
      (fun y s q coherent hq => (coherent.step l hq).2) hp
  obtain ⟨payload, hgradient⟩ := coherent.current hcurrent
  refine ⟨⟨payload, hgradient⟩, ?_, fun q hq => coherent.exists_diff_eq_scale hcurrent hq⟩
  obtain ⟨g, hg, zero | downhill⟩ := coherent.directed hgradient
  · obtain rfl := Except.ok.inj (hgradient.symm.trans hg)
    exact absurd zero nonzero
  · obtain rfl := Except.ok.inj (hgradient.symm.trans hg)
    exact downhill

theorem direction_downhill_growth : ∃ x s payload,
    (shortMemory.solver growth).after [0] (initialState [0]) 3 = .ok ([x], s, payload) ∧
    current growth [x] s = .ok (Real.exp x, [Real.exp x]) ∧ [Real.exp x] ≠ Vec.zerosLike [x] ∧
    Vec.inner [Real.exp x] (direction [Real.exp x] s.history) < 0 := by
  obtain ⟨hinit, x, s, payload, hp, hcurrent⟩ :=
    exists_after_growth (l := shortMemory) rfl (by decide) 3
  have nonzero : [Real.exp x] ≠ Vec.zerosLike [x] := by
    simp [Vec.zerosLike, Vec.fill, Real.exp_ne_zero]
  obtain ⟨-, downhill, -⟩ := direction_downhill shortMemory growth hinit hp hcurrent nonzero
  exact ⟨x, s, payload, hp, hcurrent, nonzero, downhill⟩

end Downhill

end Lbfgs
end DualOpt
