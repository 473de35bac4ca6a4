import DualOpt.Proofs.Checked.Search
import DualOpt.Proofs.Forward.InPlace
import DualOpt.Proofs.Returned
import DualOpt.Proofs.Solver.History

/-!
One step of the limited-memory BFGS method that asserts the sizes of everything it combines.

The gradient is the first row of a Jacobian, and the history is three lists that are read by index.
A state fits candidates of one length if its gradient and its pairs have this length. Steps from
such states assert nothing that fails and lead to such states.
-/
namespace DualOpt

variable {F A : Type} [Scalar F]

/-- An objective with a value wherever it is evaluated at `n` variables. -/
def Objective.HasValues (f : Objective F A) (n : Nat) : Prop :=
  ∀ d : List (Dual F), d.length = n → ∃ p, f d = .ok p

namespace Objective.HasValues
variable {f : Objective F A} {y x : Vec F} (h : f.HasValues y.length) (hx : x.length = y.length)
include h hx

theorem exists_gradientWith : ∃ g, gradientWith f x = .ok g := by
  obtain ⟨p, hp⟩ := h (Dual.constants x) (by simpa [Dual.constants] using hx)
  choose pass hpass using fun j => h (Dual.seedAt x j) ((length_seedAt x j).trans hx)
  have traversed : (List.range x.length).mapM (tangentAlong f x) =
      .ok ((List.range x.length).map fun j => (pass j).1.tangent) :=
    mapM_eq_ok fun j _ => by simp [tangentAlong, hpass]
  exact ⟨⟨p.1.primal, _, p.2⟩, by rw [gradientWith, hp, ok_bind, traversed]; rfl⟩

end Objective.HasValues

theorem Objective.HasValues.exists_current {f : Objective F A} {y : Vec F}
    (h : f.HasValues y.length) (s : LbfgsState F) :
    ∃ v gradient, Lbfgs.current f y s = .ok (v, gradient) := by
  rw [Lbfgs.current]
  cases s.gradient with
  | some gradient => exact ⟨s.objective, gradient, rfl⟩
  | none =>
    obtain ⟨g, hg⟩ := h.exists_gradientWith rfl
    exact ⟨g.value, g.gradient, by simp [hg]⟩

/-- A state of a run over candidates of length `n`: the gradient that it keeps, if any, and the
pairs that it remembers have this length. -/
structure LbfgsState.Fits (s : LbfgsState F) (n : Nat) : Prop where
  gradient : ∀ gradient ∈ s.gradient, gradient.length = n
  history : Lbfgs.Sized n s.history

/-- A scalar function as one with a single output. -/
def ScalarFn.single (f : ScalarFn F A) : VectorFn F A := fun d =>
  (f d).map fun p => ([p.1], p.2)

/-- The gradient is the only row of the Jacobian. -/
theorem linearise_single (f : ScalarFn F A) (x : Vec F) :
    linearise f.single x = (gradientWith f x).map fun g => ⟨[g.value], [g.gradient], g.payload⟩ := by
  have along (j : Nat) :
      tangentsAlong f.single x 1 j = (tangentAlong f x j).map fun t => [t] := by
    simp only [tangentsAlong, tangentAlong, ScalarFn.single]
    cases f (Dual.seedAt x j) <;> rfl
  have columns (t : Vec F) : Rows.columns 1 (t.map fun a => [a]) = [t] := by
    simp [Rows.columns, Function.comp_def]
  have start : f.single (Dual.constants x) = (f (Dual.constants x)).map fun p => ([p.1], p.2) := rfl
  rw [linearise, gradientWith, start]
  cases f (Dual.constants x) with
  | error fault => rfl
  | ok p =>
    simp only [ok_map, ok_bind, List.length_singleton]
    rw [funext along, ← map_mapM]
    cases (List.range x.length).mapM (tangentAlong f x) with
    | error fault => rfl
    | ok t => simp [columns]

/-- The gradient by passes in place. There must be a value; a missing row would count as zeros. -/
def checkedGradientWith (f : ScalarFn F A) (x : Vec F) : Except Fault (Gradient F A) := do
  let l ← lineariseInPlace f.single x
  let value ← Vec.first l.values
  return ⟨value, l.jacobian.headD (Vec.fill x.length 0), l.payload⟩

theorem checkedGradientWith_eq (f : ScalarFn F A) (x : Vec F) :
    checkedGradientWith f x = gradientWith f x := by
  rw [checkedGradientWith, lineariseInPlace_eq, linearise_single]
  cases gradientWith f x <;> rfl

/-- The entry at an index that must be inside. -/
def entryAt {α : Type} (xs : List α) (i : Nat) : Except Fault α :=
  xs[i]?.elim (.error .indexOutOfRange) .ok

theorem entryAt_append_cons {α : Type} (before after : List α) (x : α) {i : Nat}
    (here : i = before.length) : entryAt (before ++ x :: after) i = .ok x := by
  simp [entryAt, here]

theorem entryAt_map {α β : Type} (g : α → β) (before after : List α) (x : α) :
    entryAt ((before ++ x :: after).map g) before.length = .ok (g x) := by
  rw [List.map_append, List.map_cons]
  exact entryAt_append_cons _ _ _ (List.length_map g).symm

namespace Lbfgs
namespace SplitHistory

/-- One turn of the loop from the newest pair to the oldest. The coefficient goes into a list that
has room for it. -/
def descend (h : SplitHistory F) (s : Vec F × List F) (i : Nat) : Except Fault (Vec F × List F) := do
  let product ← Vec.together Vec.inner (← entryAt h.steps i) s.1
  let α := (← entryAt h.reciprocals i) * product
  let _ ← entryAt s.2 i
  let q ← Vec.together (Vec.axpy (-α)) (← entryAt h.gradientChanges i) s.1
  return (q, s.2.set i α)

/-- One turn of the loop from the oldest pair to the newest. -/
def ascend (h : SplitHistory F) (αs : List F) (r : Vec F) (i : Nat) : Except Fault (Vec F) := do
  let product ← Vec.together Vec.inner (← entryAt h.gradientChanges i) r
  let β := (← entryAt h.reciprocals i) * product
  Vec.together (Vec.axpy ((← entryAt αs i) - β)) (← entryAt h.steps i) r

/-- Scales by the curvature of the newest pair. -/
def checkedScale (h : SplitHistory F) (q : Vec F) : Except Fault (Vec F) :=
  match h.steps.getLast?, h.gradientChanges.getLast? with
  | some step, some change => do
    let yy ← Vec.together Vec.inner change change
    if yy > 0 then return Vec.scale ((← Vec.together Vec.inner step change) / yy) q else return q
  | _, _ => return q

/-- The direction from three lists that are read by index. -/
def checkedDirection (h : SplitHistory F) (gradient : Vec F) : Except Fault (Vec F) := do
  let pairs := List.range h.steps.length
  let (q, αs) ← pairs.reverse.foldlM h.descend (gradient, Vec.fill h.steps.length 0)
  let r ← pairs.foldlM (h.ascend αs) (← h.checkedScale q)
  return Vec.scale (-1) r

section Direction
variable {n : ℕ} {older newer : List (CurvaturePair F)} {p : CurvaturePair F}

theorem descend_ofHistory {q : Vec F} (hq : q.length = n)
    (hp : p.step.length = n ∧ p.gradientChange.length = n) (before after : List F) (a : F)
    (here : before.length = older.length) :
    (ofHistory (older ++ p :: newer)).descend (q, before ++ a :: after) older.length =
      .ok (deflate p q, before ++ (p.reciprocal * Vec.inner p.step q) :: after) := by
  have written (α : F) : (before ++ a :: after).set older.length α = before ++ α :: after := by
    simp [← here]
  simp only [descend, ofHistory, entryAt_map, ok_bind,
    Vec.together_eq _ (hp.1.trans hq.symm), Vec.together_eq _ (hp.2.trans hq.symm),
    entryAt_append_cons _ _ _ here.symm, written]
  rfl

/-- The loop from the newest pair on has the coefficients of the pairs that it has passed, behind
zeros for the ones that are left. -/
theorem foldlM_descend {q : Vec F} (hq : q.length = n) (older : List (CurvaturePair F))
    (sized : Sized n newer) :
    (List.range' older.length newer.length).reverse.foldlM (ofHistory (older ++ newer)).descend
        (q, Vec.fill (older.length + newer.length) 0) =
      .ok ((firstPass q newer).1, Vec.fill older.length 0 ++ (firstPass q newer).2) := by
  induction newer generalizing older with
  | nil => simp [firstPass]
  | cons p newer ih =>
    obtain ⟨hp, rest⟩ := List.forall_mem_cons.mp sized
    -- The turns over the newer pairs come first; the turn at `p` is the last one.
    have passed := ih (older ++ [p]) rest
    rw [List.length_append, List.length_singleton, List.append_assoc, List.singleton_append,
      Nat.add_assoc, Nat.add_comm 1] at passed
    have room : Vec.fill (older.length + 1) (0 : F) = Vec.fill older.length 0 ++ [0] :=
      List.replicate_succ'
    rw [List.length_cons, List.range'_succ, List.reverse_cons, List.foldlM_append, passed, ok_bind,
      List.foldlM_cons, room, List.append_assoc, List.singleton_append,
      descend_ofHistory (length_firstPass hq rest) hp _ _ _ (Vec.length_fill _ _)]
    rfl

theorem ascend_ofHistory {r : Vec F} (hr : r.length = n)
    (hp : p.step.length = n ∧ p.gradientChange.length = n) (before after : List F) (α : F)
    (here : before.length = older.length) :
    (ofHistory (older ++ p :: newer)).ascend (before ++ α :: after) r older.length =
      .ok (Vec.axpy (α - p.reciprocal * Vec.inner p.gradientChange r) p.step r) := by
  simp only [ascend, ofHistory, entryAt_map, ok_bind,
    Vec.together_eq _ (hp.1.trans hr.symm), Vec.together_eq _ (hp.2.trans hr.symm),
    entryAt_append_cons _ _ _ here.symm]

/-- The loop over the pairs that are left is the second pass over them. -/
theorem foldlM_ascend {r : Vec F} (hr : r.length = n) (older : List (CurvaturePair F))
    (sized : Sized n newer) (before αs : List F) (here : before.length = older.length)
    (count : αs.length = newer.length) :
    (List.range' older.length newer.length).foldlM
        ((ofHistory (older ++ newer)).ascend (before ++ αs)) r =
      .ok (secondPass r newer αs) := by
  induction newer generalizing older before αs r with
  | nil => rfl
  | cons p newer ih =>
    obtain ⟨hp, rest⟩ := List.forall_mem_cons.mp sized
    obtain ⟨α, αs, rfl⟩ := List.exists_cons_of_length_eq_add_one count
    have length : (Vec.axpy (α - p.reciprocal * Vec.inner p.gradientChange r) p.step r).length =
        n := by
      rw [Vec.length_axpy, hr, hp.1, Nat.min_self]
    have passed := ih length (older ++ [p]) rest (before ++ [α]) αs (by simp [here])
      (Nat.succ.inj count)
    simp only [List.length_append, List.length_singleton, List.append_assoc,
      List.singleton_append] at passed
    rw [List.length_cons, List.range'_succ, List.foldlM_cons, ascend_ofHistory hr hp _ _ _ here,
      ok_bind, passed]
    rfl

theorem checkedScale_ofHistory {history : List (CurvaturePair F)} (sized : Sized n history)
    (q : Vec F) : (ofHistory history).checkedScale q = .ok (scaleByNewest history q) := by
  rw [checkedScale, scaleByNewest, ofHistory, List.getLast?_map, List.getLast?_map]
  cases newest : history.getLast? with
  | none => rfl
  | some p =>
    obtain ⟨step, change⟩ := sized p (List.mem_of_getLast? newest)
    simp only [Option.map_some, Vec.together_eq _ rfl, Vec.together_eq _ (step.trans change.symm),
      ok_bind]
    split <;> rfl

/-- Three lists of one length are read inside their bounds, and the vectors in them fit. -/
theorem checkedDirection_ofHistory {history : List (CurvaturePair F)} (sized : Sized n history)
    {gradient : Vec F} (hgradient : gradient.length = n) :
    (ofHistory history).checkedDirection gradient = .ok (direction gradient history) := by
  have count : (ofHistory history).steps.length = history.length := List.length_map _
  have first := foldlM_descend hgradient [] sized
  have scaled : (scaleByNewest history (firstPass gradient history).1).length = n :=
    length_scaleByNewest (length_firstPass hgradient sized)
  have second := foldlM_ascend scaled [] sized [] _ rfl (length_coefficients gradient history)
  simp only [List.length_nil, Nat.zero_add, List.nil_append, ← List.range_eq_range'] at first second
  rw [checkedDirection, count]
  dsimp only
  rw [first, ok_bind]
  dsimp only
  rw [checkedScale_ofHistory sized, ok_bind, Vec.fill, List.replicate_zero, List.nil_append, second]
  rfl

end Direction
end SplitHistory

/-- The objective and its gradient at the candidate of a state. -/
def checkedCurrent (f : Objective F A) (y : Vec F) (s : LbfgsState F) : Except Fault (F × Vec F) :=
  match s.gradient with
  | some gradient => return (s.objective, gradient)
  | none => do
    let g ← checkedGradientWith f y
    return (g.value, g.gradient)

/-- A memory whose lists have an oldest entry each when they are full. -/
def checkedRemember (memory : Nat) (history : List (CurvaturePair F)) (step change : Vec F) :
    Except Fault (List (CurvaturePair F)) := do
  let _ ← Vec.together Vec.inner step change
  match (SplitHistory.ofHistory history).remember memory step change with
  | some _ => return remember memory history step change
  | none => throw .indexOutOfRange

/-- One step in which the passes of the gradient, the two loops, the search, the sums and the memory
assert their sizes. -/
def checkedStep (l : Lbfgs F) (f : Objective F A) (y : Vec F) (s : LbfgsState F) :
    Traced F (Vec F × LbfgsState F × A) := do
  let (value, gradient) ← checkedCurrent f y s
  let d ← (SplitHistory.ofHistory s.history).checkedDirection gradient
  let input := searchInput gradient y
  let trial := Backtracking.checkedAlongLine (valueAt f) y d
  let found ← (l.lineSearch.checkedSolver trial input).solve (l.lineSearch.firstInitial input) 1
    { SolveOptions.standard with maxSteps := some l.searchSteps, raise := false } none
  let (diff, searchStatus) ← settle y found
  let next ← Vec.together Vec.add y diff
  let g ← checkedGradientWith f next
  let change ← Vec.together Vec.sub g.gradient gradient
  let history ← checkedRemember l.memory s.history diff change
  return (next,
    { step := s.step + 1, objective := g.value, gradient := some g.gradient,
      objectiveDiff := value - g.value, diff, status := s.status.merge searchStatus, history },
    g.payload)

theorem checkedCurrent_eq (f : Objective F A) (y : Vec F) (s : LbfgsState F) :
    checkedCurrent f y s = current f y s := by
  rw [checkedCurrent, checkedGradientWith_eq]
  rfl

theorem checkedRemember_eq (memory : Nat) (history : List (CurvaturePair F)) {step change : Vec F}
    (same : step.length = change.length) :
    checkedRemember memory history step change = .ok (remember memory history step change) := by
  rw [checkedRemember, Vec.together_eq _ same, SplitHistory.remember_ofHistory]
  rfl

section Step
variable {l : Lbfgs F} {f : Objective F A} {y gradient : Vec F} {s : LbfgsState F} {v : F}

/-- Along an identity of the size of the candidate every search starts. -/
theorem exists_init (hgradient : gradient.length = y.length) :
    ∃ start, (l.lineSearch.init (searchInput gradient y)).outcome = .ok (.ok start) := by
  refine ⟨Backtracking.initialState (searchInput gradient y) gradient, ?_⟩
  cases mode : l.lineSearch.mode with
  | gradient => simp [Backtracking.init, searchInput, Backtracking.gradientOf, mode]
  | gaussNewton =>
    simp [Backtracking.init, searchInput, Backtracking.gradientOf, mode, Operator.outSize,
      Operator.transpose, Operator.mulVec, hgradient]

variable (fits : s.Fits y.length)
include fits

theorem length_of_current (hcurrent : current f y s = .ok (v, gradient)) :
    gradient.length = y.length := by
  rw [current] at hcurrent
  cases kept : s.gradient with
  | some g =>
    rw [kept] at hcurrent
    obtain ⟨-, rfl⟩ := Prod.mk.inj (Except.ok.inj hcurrent)
    exact fits.gradient g kept
  | none =>
    rw [kept] at hcurrent
    obtain ⟨g, hg, hpair⟩ := bind_eq_ok_iff.mp hcurrent
    obtain ⟨-, rfl⟩ := Prod.mk.inj (Except.ok.inj hpair)
    exact length_of_gradientWith hg

/-- Every size that a step asserts holds. -/
theorem checkedStep_eq : l.checkedStep f y s = l.step f y s := by
  rw [checkedStep, step, checkedCurrent_eq]
  refine Traced.bind_congr fun current hcurrent => ?_
  obtain ⟨v, gradient⟩ := current
  have hgradient : gradient.length = y.length := length_of_current fits hcurrent
  have hd := length_direction hgradient fits.history
  -- A search along an identity takes the gradient as it is, in either mode.
  have started (start : BacktrackingState F)
      (h : (l.lineSearch.init (searchInput gradient y)).outcome = .ok (.ok start)) :
      start.gradient.length = y.length := by
    rw [l.initialState_of_init h]
    exact hgradient
  dsimp only
  rw [SplitHistory.checkedDirection_ofHistory fits.history hgradient, Traced.liftM_ok_bind,
    l.lineSearch.solve_checkedAlongLine hd started, ← measure_eq]
  refine Traced.bind_congr fun found hfound => Traced.bind_congr fun settled hsettled => ?_
  have length : settled.1.length = y.length :=
    l.length_settled hgradient fits.history hfound hsettled
  obtain ⟨diff, searchStatus⟩ := settled
  dsimp only at length ⊢
  rw [Vec.together_eq _ length.symm, Traced.liftM_ok_bind, checkedGradientWith_eq]
  refine Traced.bind_congr fun g hg => ?_
  have hnext : g.gradient.length = y.length := by
    rw [length_of_gradientWith hg, Vec.length_add, length, Nat.min_self]
  have change : (Vec.sub g.gradient gradient).length = y.length := by
    rw [Vec.length_sub, hnext, hgradient, Nat.min_self]
  rw [Vec.together_eq _ (hnext.trans hgradient.symm), Traced.liftM_ok_bind,
    checkedRemember_eq _ _ (length.trans change.symm), Traced.liftM_ok_bind]

variable (values : f.HasValues y.length)
include values

end Step

end Lbfgs
end DualOpt
