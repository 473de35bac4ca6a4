import DualOpt.Proofs.Comparison
import DualOpt.Proofs.LineSearch

/-!
A backtracking search as a sequence of trials.

Where a search measures next does not depend on what it has measured: first at the zero step, unless
the objective there is known, then at multipliers that shrink by a constant factor. What it holds
after some trials is a function of what these returned. In particular it holds the value and the
difference of the first of the lowest trials, whatever values the trials returned.
-/
namespace DualOpt

namespace Status

/-- The first failure among statuses that come one after the other. -/
def firstFailure (statuses : List Status) : Status :=
  (statuses.find? (!·.isSuccessful)).getD .successful

theorem firstFailure_of_forall {statuses : List Status} (h : ∀ s ∈ statuses, s = .successful) :
    firstFailure statuses = .successful := by
  have none_failed : statuses.find? (!·.isSuccessful) = none :=
    List.find?_eq_none.mpr fun s hs => by rw [h s hs]; decide
  rw [firstFailure, none_failed]
  rfl

theorem firstFailure_append (statuses : List Status) (last : Status) :
    firstFailure (statuses ++ [last]) = (firstFailure statuses).merge last := by
  induction statuses with
  | nil => cases last <;> rfl
  | cons first statuses ih =>
    cases first with
    | successful => exact ih
    | _ => rfl

end Status

section Start
variable {F : Type} [Scalar F]

/-- The least value that is kept, infinity if there is none. -/
def BacktrackingState.least (s : BacktrackingState F) : F := s.runningMin.getD Scalar.infinity

/-- The objective that a search starts from: the known one, or infinity. -/
def SearchInput.startObjective (input : SearchInput F) : F :=
  input.initialObjective.getD Scalar.infinity

/-- Whether a search measures the zero step. -/
def SearchInput.measuresZero (input : SearchInput F) : Bool :=
  input.initialObjective.isNone || input.remeasure.getD false

theorem Backtracking.initialState_eq (input : SearchInput F) (gradient : Vec F) :
    initialState input gradient =
      { step := 0, runningMin := input.initialObjective, runningMinDiff := Vec.zerosLike gradient,
        objective := input.startObjective, initialObjective := input.startObjective,
        diff := Vec.zerosLike gradient, measureInitial := input.measuresZero,
        status := .successful, gradient } := by
  cases known : input.initialObjective <;>
    simp [initialState, known, SearchInput.startObjective, SearchInput.measuresZero]

end Start

namespace Backtracking

/-- What a state owes to the trials since the start, the least value apart. -/
structure Recorded {F A : Type} (start : BacktrackingState F) (trials : List (Trial F A))
    (s : BacktrackingState F) : Prop where
  steps : s.step = start.step + trials.length
  gradient : s.gradient = start.gradient
  measures : s.measureInitial = (start.measureInitial && trials.isEmpty)
  initial : s.initialObjective = if start.measureInitial then
    (trials.head?.map (·.objective)).getD start.initialObjective else start.initialObjective
  objective : s.objective = (trials.getLast?.map (·.objective)).getD start.objective
  diff : s.diff = (trials.getLast?.map (·.diff)).getD start.diff
  status : s.status = start.status.merge (.firstFailure (trials.map (·.status)))

theorem recorded_nil {F A : Type} (s : BacktrackingState F) : Recorded (A := A) s [] s where
  steps := rfl
  gradient := rfl
  measures := (Bool.and_true _).symm
  initial := by simp
  objective := rfl
  diff := rfl
  status := (Status.merge_successful s.status).symm

variable {F A : Type} [Scalar F] (search : Backtracking F)

theorem Recorded.next {start s : BacktrackingState F} {trials : List (Trial F A)}
    (h : Recorded start trials s) (trial : Trial F A) (α : F) :
    Recorded start (trials ++ [trial]) (search.record trial α s).2.1 where
  steps := by simp [record, h.steps, Nat.add_assoc]
  gradient := h.gradient
  measures := by simp [record]
  initial := by
    cases trials <;> cases measuring : start.measureInitial <;>
      simp [record, h.measures, h.initial, measuring]
  objective := by simp [record]
  diff := by simp [record]
  status := by
    rw [List.map_append, List.map_singleton, Status.firstFailure_append, ← Status.merge_assoc,
      ← h.status]
    rfl

/-- The multiplier, the state and the last report after the given trials. -/
def recordAll (α : F) (s : BacktrackingState F) (trials : List (Trial F A)) :
    F × BacktrackingState F × Option (SearchReport F A) :=
  trials.foldl (fun p trial =>
    let q := search.record trial p.1 p.2.1
    (q.1, q.2.1, some q.2.2)) (α, s, none)

section RecordAll
variable (α : F) (s : BacktrackingState F) (trials : List (Trial F A))

theorem recordAll_append (trial : Trial F A) :
    search.recordAll α s (trials ++ [trial]) =
      let p := search.recordAll α s trials
      let q := search.record trial p.1 p.2.1
      (q.1, q.2.1, some q.2.2) := by
  rw [recordAll, List.foldl_append]
  rfl

/-- The last report is about all trials. -/
theorem exists_report_recordAll (trial : Trial F A) :
    let p := search.recordAll α s (trials ++ [trial])
    ∃ report, p.2.2 = some report ∧ report.runningMin = p.2.1.runningMin ∧
      report.runningMinDiff = p.2.1.runningMinDiff := by
  rw [recordAll_append]
  exact ⟨_, rfl, rfl, rfl⟩

theorem recorded_recordAll : Recorded s trials (search.recordAll α s trials).2.1 := by
  induction trials using List.reverseRecOn with
  | nil => exact recorded_nil s
  | append_singleton trials trial ih =>
    rw [recordAll_append]
    exact ih.next search trial (search.recordAll α s trials).1

theorem multiplier_recordAll :
    (search.recordAll α s trials).1 = (search.decreaseFactor * ·)^[trials.length] α := by
  induction trials using List.reverseRecOn with
  | nil => rfl
  | append_singleton trials trial ih =>
    rw [recordAll_append, List.length_append, List.length_singleton, Function.iterate_succ_apply',
      ← ih]
    rfl

/-- The multiplier of the trial number `k`, for a search that stands at `α`. -/
def point (k : ℕ) : F :=
  if k = 0 then trialAt α s else (search.decreaseFactor * ·)^[k] α

/-- The multipliers of the first `n` trials. -/
def points (n : ℕ) : List F := (List.range n).map (search.point α s)

theorem points_succ (n : ℕ) :
    search.points α s (n + 1) = search.points α s n ++ [search.point α s n] := by
  rw [points, List.range_succ, List.map_append]
  rfl

theorem trialAt_recordAll :
    trialAt (search.recordAll α s trials).1 (search.recordAll α s trials).2.1 =
      search.point α s trials.length := by
  rw [trialAt, (search.recorded_recordAll α s trials).measures, multiplier_recordAll, point]
  cases trials with
  | nil => simp [trialAt]
  | cons trial trials => simp

/-- The sequence of a search measures at its points, one after the other, and records what is
returned. -/
theorem after_eq_recordAll (measure : F → Except Fault (Trial F A)) (input : SearchInput F)
    (n : ℕ) :
    (search.solver measure input).after α s n =
      ((search.points α s n).mapM measure).map (search.recordAll α s) := by
  induction n with
  | zero => rfl
  | succ n ih =>
    rw [points_succ, List.mapM_append, Solver.after, ih]
    cases htrials : (search.points α s n).mapM measure with
    | error e => rfl
    | ok trials =>
      have length : trials.length = n := by
        rw [length_of_mapM htrials, points, List.length_map, List.length_range]
      have place := search.trialAt_recordAll α s trials
      rw [length] at place
      simp only [ok_map, ok_bind, List.mapM_cons, List.mapM_nil, solver, Traced.outcome_ofExcept,
        step, place]
      cases measure (search.point α s n) <;> simp [recordAll_append]

/-- The part of the sequence that the first of its trials make. -/
theorem after_take {measure : F → Except Fault (Trial F A)} (input : SearchInput F) {n : ℕ}
    {trials : List (Trial F A)} (htrials : (search.points α s n).mapM measure = .ok trials) {k : ℕ}
    (within : k ≤ n) :
    (search.solver measure input).after α s k = .ok (search.recordAll α s (trials.take k)) := by
  have part : (search.points α s n).take k = search.points α s k := by
    rw [points, points, ← List.map_take, List.take_range, Nat.min_eq_left within]
  rw [after_eq_recordAll, ← part, mapM_take htrials]
  rfl

end RecordAll

/-- The least value that is kept and its difference: those of the first of the lowest trials if a
trial is below the start, else those of the start. -/
inductive FirstLeast (start : Option F) (zero : Vec F) (trials : List (Trial F A)) :
    Option F → Vec F → Prop
  | kept (none_below : ∀ t ∈ trials, improves t.objective start = false) :
      FirstLeast start zero trials start zero
  | found (earlier : List (Trial F A)) (t : Trial F A) (later : List (Trial F A))
      (split : trials = earlier ++ t :: later) (below : improves t.objective start = true)
      (first : ∀ u ∈ earlier, ¬ u.objective ≤ t.objective)
      (lowest : ∀ u ∈ later, ¬ u.objective < t.objective) :
      FirstLeast start zero trials (some t.objective) t.diff

section Least
variable {start : Option F} {zero : Vec F} {trials : List (Trial F A)}

theorem FirstLeast.next_of_not_improves {least : Option F} {diff : Vec F}
    (h : FirstLeast start zero trials least diff) {trial : Trial F A}
    (kept : improves trial.objective least = false) :
    FirstLeast start zero (trials ++ [trial]) least diff := by
  cases h with
  | kept none_below =>
    exact .kept (List.forall_mem_append.mpr ⟨none_below, List.forall_mem_singleton.mpr kept⟩)
  | found earlier t later split below first lowest =>
    refine .found earlier t (later ++ [trial]) ?_ below first ?_
    · rw [split, List.append_assoc, List.cons_append]
    · exact List.forall_mem_append.mpr
        ⟨lowest, List.forall_mem_singleton.mpr (of_decide_eq_false kept)⟩

variable [ComparisonRules F]

open ComparisonRules

/-- What lies no higher than an improvement is one. -/
theorem improves_of_le {x y : F} (le : x ≤ y) (h : improves y start = true) :
    improves x start = true := by
  cases start with
  | none => exact below_of_le le h
  | some f => exact decide_eq_true (lt_of_le_of_lt le (of_decide_eq_true h))

theorem FirstLeast.next_of_improves {least : Option F} {diff : Vec F}
    (h : FirstLeast start zero trials least diff) {trial : Trial F A}
    (improved : improves trial.objective least = true) :
    FirstLeast start zero (trials ++ [trial]) (some trial.objective) trial.diff := by
  cases h with
  | kept none_below =>
    refine .found trials trial [] rfl improved (fun u hu le => ?_) (by simp)
    exact Bool.false_ne_true ((none_below u hu).symm.trans (improves_of_le le improved))
  | found earlier t later split below first lowest =>
    have lower : trial.objective < t.objective := of_decide_eq_true improved
    refine .found trials trial [] rfl (improves_of_le (le_of_lt lower) below) (fun u hu le => ?_)
      (by simp)
    rw [split, List.mem_append, List.mem_cons] at hu
    rcases hu with hu | rfl | hu
    · exact first u hu (le_trans le (le_of_lt lower))
    · exact (lt_iff.mp lower).2 le
    · exact lowest u hu (lt_of_le_of_lt le lower)

/-- A run keeps the first of its lowest trials. -/
theorem firstLeast_recordAll (α : F) (s : BacktrackingState F) (trials : List (Trial F A)) :
    FirstLeast s.runningMin s.runningMinDiff trials
      (search.recordAll α s trials).2.1.runningMin
      (search.recordAll α s trials).2.1.runningMinDiff := by
  induction trials using List.reverseRecOn with
  | nil => exact .kept (by simp)
  | append_singleton trials trial ih =>
    rw [recordAll_append]
    dsimp only
    cases improved : improves trial.objective (search.recordAll α s trials).2.1.runningMin with
    | true => simpa [record, improved, Vec.choose] using ih.next_of_improves improved
    | false => simpa [record, improved, Vec.choose] using ih.next_of_not_improves improved

end Least

end Backtracking
end DualOpt
