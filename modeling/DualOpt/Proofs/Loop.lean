import DualOpt.Iteration
import DualOpt.Proofs.Outcome
import Mathlib.Order.Bounds.Basic

/-!
The law of the driving loop, for any solver whatever.

`after` is the sequence of candidates and states that the steps alone make. A solve is decided by
the first member of this sequence that asks to stop and by the budget: it returns that member, or
the last one the budget reaches.
-/
namespace DualOpt

/-- Raises a solution that is not successful, if raising is asked for. -/
def SolveOptions.deliver {F Y A : Type} (options : SolveOptions F) (solution : Solution Y A) :
    Except (SolveError F Y A) (Solution Y A) :=
  if options.raise && !solution.status.isSuccessful then .error (.failed solution)
  else .ok solution

theorem SolveOptions.eq_of_deliver {F Y A : Type} {options : SolveOptions F}
    {solution found : Solution Y A} (h : options.deliver solution = .ok found) :
    found = solution := by
  rw [deliver] at h
  split at h
  · cases h
  · exact (Except.ok.inj h).symm

theorem SolveOptions.deliver_of_successful {F Y A : Type} (options : SolveOptions F)
    {solution : Solution Y A} (success : solution.status = .successful) :
    options.deliver solution = .ok solution := by
  simp [deliver, success, Status.isSuccessful]

/-- A delivered solution is not a refusal to start. -/
theorem SolveOptions.deliver_ne_config {F Y A : Type} (options : SolveOptions F)
    (solution : Solution Y A) (e : ConfigError F) :
    options.deliver solution ≠ .error (.config e) := by
  intro h
  rw [deliver] at h
  split at h
  · cases Except.error.inj h
  · cases h

theorem SolveOptions.deliver_injective {F Y A : Type} (options : SolveOptions F) :
    Function.Injective (options.deliver : Solution Y A → _) := by
  intro first second h
  by_cases raised : options.raise && !second.status.isSuccessful
  · rw [deliver, deliver, if_pos raised] at h
    split at h
    · exact SolveError.failed.inj (Except.error.inj h)
    · cases h
  · rw [deliver, deliver, if_neg raised] at h
    split at h
    · cases h
    · exact Except.ok.inj h

/-- The most steps a run may take: its budget, or all that the step counter can count. -/
def SolveOptions.limit {F : Type} (options : SolveOptions F) : Nat :=
  options.maxSteps.getD options.counterRange

namespace Solver
variable {F Y S A : Type} (solver : Solver F Y S A)

/-- The candidate, the state and the last payload after `k` steps, whether or not a run would have
stopped on the way. -/
def after (y : Y) (s : S) : Nat → Except Fault (Y × S × Option A)
  | 0 => .ok (y, s, none)
  | k + 1 => do
    let (y, s, _) ← after y s k
    let (y, s, a) ← (solver.step y s).outcome
    return (y, s, some a)

/-- A run stops by itself where the solver is done or reports a failure. -/
def Stops (y : Y) (s : S) : Prop :=
  (solver.terminate y s).1 = true ∨ (solver.terminate y s).2 ≠ .successful

/-- The numbers of steps after which a run from `(y, s)` would stop by itself. -/
def stopTimes (y : Y) (s : S) : Set Nat :=
  {k | ∃ p, solver.after y s k = .ok p ∧ solver.Stops p.1 p.2.1}

/-- What the stationarity condition adds to a solve. It is evaluated after a success only, and
nothing of it is kept but a fault. -/
def examine (stationarity : Option (Y → Traced F (Vec F))) (status : Status) (y : Y) :
    Except Fault Unit :=
  match status.isSuccessful, stationarity with
  | true, some condition => (condition y).outcome.map fun _ => ()
  | _, _ => .ok ()

/-- The run that stands at the `k`-th member of the sequence. -/
def runAt (k : Nat) (p : Y × S × Option A) : Run Y S A :=
  { solver.start p.1 p.2.1 with payload := p.2.2, steps := k }

private theorem isSuccessful_iff (s : Status) : s.isSuccessful = true ↔ s = .successful := by
  cases s <;> decide

theorem stopped_runAt_iff (k : Nat) (p : Y × S × Option A) :
    (solver.runAt k p).stopped = true ↔ solver.Stops p.1 p.2.1 := by
  simp [runAt, start, Run.stopped, Stops, ← isSuccessful_iff]

theorem after_succ {y : Y} {s : S} {k : Nat} {p : Y × S × Option A}
    (h : solver.after y s k = .ok p) :
    solver.after y s (k + 1) =
      (solver.step p.1 p.2.1).outcome.map fun q => (q.1, q.2.1, some q.2.2) := by
  simp only [after, h, bind, Except.bind]
  cases (solver.step p.1 p.2.1).outcome <;> rfl

theorem exists_of_after_succ {y : Y} {s : S} {k : Nat} {p : Y × S × Option A}
    (h : solver.after y s (k + 1) = .ok p) :
    ∃ r q, solver.after y s k = .ok r ∧ (solver.step r.1 r.2.1).outcome = .ok q ∧
      p = (q.1, q.2.1, some q.2.2) := by
  obtain ⟨r, hr, hstep⟩ := bind_eq_ok_iff.mp h
  obtain ⟨q, hq, hp⟩ := bind_eq_ok_iff.mp hstep
  exact ⟨r, q, hr, hq, (Except.ok.inj hp).symm⟩

/-- What holds at the start and is kept by every step holds all along the sequence. -/
theorem after_induction {P : Y → S → Prop} {y : Y} {s : S} (start : P y s)
    (step : ∀ y s q, P y s → (solver.step y s).outcome = .ok q → P q.1 q.2.1) {k : Nat}
    {p : Y × S × Option A} (h : solver.after y s k = .ok p) : P p.1 p.2.1 := by
  induction k generalizing p with
  | zero =>
    obtain rfl := Except.ok.inj h
    exact start
  | succ k ih =>
    obtain ⟨r, q, hr, hq, rfl⟩ := solver.exists_of_after_succ h
    exact step r.1 r.2.1 q (ih hr) hq

/-- Steps that never fault make an endless sequence. -/
theorem exists_after_of_forall_step (total : ∀ y s, ∃ q, (solver.step y s).outcome = .ok q) (y : Y)
    (s : S) (k : Nat) : ∃ p, solver.after y s k = .ok p := by
  induction k with
  | zero => exact ⟨_, rfl⟩
  | succ k ih =>
    obtain ⟨p, hp⟩ := ih
    obtain ⟨q, hq⟩ := total p.1 p.2.1
    exact ⟨_, by rw [solver.after_succ hp, hq, ok_map]⟩

/-- A run that has not stopped advances along the sequence. -/
theorem advance_runAt {y : Y} {s : S} {k : Nat} {p q : Y × S × Option A}
    (hp : solver.after y s k = .ok p) (hq : solver.after y s (k + 1) = .ok q)
    (run : ¬ solver.Stops p.1 p.2.1) :
    (solver.advance (solver.runAt k p)).outcome = .ok (solver.runAt (k + 1) q) := by
  have status : (solver.terminate p.1 p.2.1).2 = .successful := by
    by_contra hfail
    exact run (.inr hfail)
  rw [solver.after_succ hp] at hq
  cases hstep : (solver.step p.1 p.2.1).outcome with
  | error e => simp [hstep] at hq
  | ok next =>
    simp only [hstep, ok_map, Except.ok.injEq] at hq
    subst hq
    simp [advance, runAt, start, hstep, status, Status.merge, Status.isSuccessful]

/-- As long as the solver does not stop, a run follows the sequence, and it faults where the
sequence does. -/
theorem drive_eq_bind_after {y : Y} {s : S} {T : Nat} (fuel : Nat)
    (going : ∀ k < T, ∀ p, solver.after y s k = .ok p → ¬ solver.Stops p.1 p.2.1) :
    (solver.drive (T + fuel) (solver.start y s)).outcome =
      solver.after y s T >>= fun p => (solver.drive fuel (solver.runAt T p)).outcome := by
  induction T generalizing fuel with
  | zero => rw [Nat.zero_add]; rfl
  | succ T ih =>
    rw [Nat.add_assoc, Nat.add_comm 1 fuel, ih _ fun k hk => going k (Nat.lt_succ_of_lt hk)]
    cases hp : solver.after y s T with
    | error e => simp [after, hp]
    | ok p =>
      have running : ¬ solver.Stops p.1 p.2.1 := going T (Nat.lt_succ_self T) p hp
      rw [ok_bind, drive, if_neg (mt (solver.stopped_runAt_iff T p).mp running),
        Traced.outcome_bind]
      cases hstep : (solver.step p.1 p.2.1).outcome with
      | error e => simp [solver.after_succ hp, advance, runAt, start, hstep]
      | ok q =>
        have hq : solver.after y s (T + 1) = .ok (q.1, q.2.1, some q.2.2) := by
          rw [solver.after_succ hp, hstep, ok_map]
        rw [solver.advance_runAt hp hq running, hq, ok_bind, ok_bind]

/-- A run that may take at least as many steps as the sequence needs to stop ends there. -/
theorem drive_of_isLeast {y : Y} {s : S} {T fuel : Nat} {p : Y × S × Option A}
    (first : IsLeast (solver.stopTimes y s) T) (hp : solver.after y s T = .ok p)
    (enough : T ≤ fuel) :
    (solver.drive fuel (solver.start y s)).outcome = .ok (solver.runAt T p) := by
  obtain ⟨rest, rfl⟩ := Nat.exists_eq_add_of_le enough
  have going : ∀ k < T, ∀ q, solver.after y s k = .ok q → ¬ solver.Stops q.1 q.2.1 := by
    intro k hk q hq stops
    exact (first.2 ⟨q, hq, stops⟩).not_gt hk
  have stopped : (solver.runAt T p).stopped = true := by
    obtain ⟨q, hq, hstop⟩ := first.1
    obtain rfl : p = q := by simpa [hp] using hq
    rwa [stopped_runAt_iff]
  rw [solver.drive_eq_bind_after rest going, hp, ok_bind]
  cases rest with
  | zero => rfl
  | succ rest => simp [drive, stopped]

/-- A first stop, from where the run goes on before it. -/
theorem isLeast_stopTimes {y : Y} {s : S} {T : Nat} {p : Y × S × Option A}
    (hp : solver.after y s T = .ok p) (stops : solver.Stops p.1 p.2.1)
    (before : ∀ k < T, ∀ q, solver.after y s k = .ok q → ¬ solver.Stops q.1 q.2.1) :
    IsLeast (solver.stopTimes y s) T := by
  refine ⟨⟨p, hp, stops⟩, ?_⟩
  rintro k ⟨q, hq, hstop⟩
  by_contra hlt
  exact before k (not_le.mp hlt) q hq hstop

/-- A run that meets no stop uses up all its steps. -/
theorem drive_of_forall_notMem {y : Y} {s : S} {fuel : Nat} {p : Y × S × Option A}
    (none : ∀ k ≤ fuel, k ∉ solver.stopTimes y s) (hp : solver.after y s fuel = .ok p) :
    (solver.drive fuel (solver.start y s)).outcome = .ok (solver.runAt fuel p) := by
  have going : ∀ k < fuel, ∀ q, solver.after y s k = .ok q → ¬ solver.Stops q.1 q.2.1 := by
    intro k hk q hq stops
    exact none k hk.le ⟨q, hq, stops⟩
  have hdrive := solver.drive_eq_bind_after 0 going
  rw [hp, ok_bind] at hdrive
  exact hdrive

/-- A run that stands where the solver stops has the status that the solver reports there. -/
theorem finalStatus_of_stops {k : Nat} {p : Y × S × Option A} (stops : solver.Stops p.1 p.2.1) :
    (solver.runAt k p).finalStatus = (solver.terminate p.1 p.2.1).2 := by
  have unfinished : ¬ ((solver.terminate p.1 p.2.1).2.isSuccessful &&
      !(solver.terminate p.1 p.2.1).1) = true := by
    simp only [Bool.and_eq_true, Bool.not_eq_true', isSuccessful_iff]
    rintro ⟨hstatus, hdone⟩
    rcases stops with h | h
    · exact Bool.false_ne_true (hdone.symm.trans h)
    · exact h hstatus
  exact if_neg unfinished

/-- A run that stands where the solver does not stop ran out of steps. -/
theorem finalStatus_of_not_stops {k : Nat} {p : Y × S × Option A}
    (goes_on : ¬ solver.Stops p.1 p.2.1) : (solver.runAt k p).finalStatus = .maxStepsReached := by
  obtain ⟨hdone, hstatus⟩ := not_or.mp goes_on
  have unfinished : ((solver.terminate p.1 p.2.1).2.isSuccessful &&
      !(solver.terminate p.1 p.2.1).1) = true := by
    simp [not_not.mp hstatus, Bool.not_eq_true _ ▸ hdone, Status.isSuccessful]
  exact if_pos unfinished

theorem finalStatus_ne_nonlinearDivergence {k : Nat} {p : Y × S × Option A}
    (status : (solver.terminate p.1 p.2.1).2 = .successful) :
    (solver.runAt k p).finalStatus ≠ .nonlinearDivergence := by
  by_cases stops : solver.Stops p.1 p.2.1
  · rw [solver.finalStatus_of_stops stops, status]
    exact fun h => Status.noConfusion h
  · rw [solver.finalStatus_of_not_stops stops]
    exact fun h => Status.noConfusion h

/-- A run that ends without a fault has followed the sequence up to its first stop, or until its
steps were used up. -/
theorem exists_runAt_of_drive {y : Y} {s : S} {k n : Nat} {p : Y × S × Option A} {run : Run Y S A}
    (hp : solver.after y s k = .ok p) (h : (solver.drive n (solver.runAt k p)).outcome = .ok run) :
    ∃ j q, j ≤ n ∧ solver.after y s (k + j) = .ok q ∧ run = solver.runAt (k + j) q ∧
      (j < n → solver.Stops q.1 q.2.1) := by
  induction n generalizing k p with
  | zero =>
    obtain rfl : solver.runAt k p = run := Except.ok.inj h
    exact ⟨0, p, le_rfl, hp, rfl, fun hlt => absurd hlt (Nat.lt_irrefl 0)⟩
  | succ n ih =>
    by_cases stops : solver.Stops p.1 p.2.1
    · rw [drive, if_pos ((solver.stopped_runAt_iff k p).mpr stops)] at h
      obtain rfl : solver.runAt k p = run := Except.ok.inj h
      exact ⟨0, p, Nat.zero_le _, hp, rfl, fun _ => stops⟩
    · rw [drive, if_neg (mt (solver.stopped_runAt_iff k p).mp stops), Traced.outcome_bind] at h
      obtain ⟨next, hadvance, hrest⟩ := bind_eq_ok_iff.mp h
      obtain ⟨q, hstep⟩ : ∃ q, (solver.step p.1 p.2.1).outcome = .ok q := by
        rw [advance, Traced.outcome_bind] at hadvance
        obtain ⟨q, hq, -⟩ := bind_eq_ok_iff.mp hadvance
        exact ⟨q, hq⟩
      have hnext : solver.after y s (k + 1) = .ok (q.1, q.2.1, some q.2.2) := by
        rw [solver.after_succ hp, hstep, ok_map]
      obtain rfl : solver.runAt (k + 1) (q.1, q.2.1, some q.2.2) = next :=
        Except.ok.inj ((solver.advance_runAt hp hnext stops).symm.trans hadvance)
      obtain ⟨j, q', hj, hq', hrun, hstop⟩ := ih hnext hrest
      refine ⟨j + 1, q', Nat.succ_le_succ hj, ?_, ?_, fun hlt => hstop (Nat.lt_of_succ_lt_succ hlt)⟩
      · rwa [Nat.add_right_comm] at hq'
      · rwa [Nat.add_right_comm] at hrun

/-- The loop has no fault of its own. -/
theorem exists_drive_of_forall_after {y : Y} {s : S}
    (total : ∀ k, ∃ p, solver.after y s k = .ok p) {k n : Nat} {p : Y × S × Option A}
    (hp : solver.after y s k = .ok p) :
    ∃ run, (solver.drive n (solver.runAt k p)).outcome = .ok run := by
  induction n generalizing k p with
  | zero => exact ⟨_, rfl⟩
  | succ n ih =>
    by_cases stops : solver.Stops p.1 p.2.1
    · rw [drive, if_pos ((solver.stopped_runAt_iff k p).mpr stops)]
      exact ⟨_, rfl⟩
    · obtain ⟨q, hq⟩ := total (k + 1)
      rw [drive, if_neg (mt (solver.stopped_runAt_iff k p).mp stops),
        Traced.bind_ok (solver.advance_runAt hp hq stops)]
      exact ih hq

variable [Scalar F]

/-- Once the run is known, a solve only fixes the status, looks at the stationarity condition and
raises a failure if asked. -/
theorem solve_of_drive {y : Y} {outputs : Nat} {options : SolveOptions F} {s : S} {run : Run Y S A}
    (stationarity : Option (Y → Traced F (Vec F)))
    (hinit : (solver.init y outputs options.tags).outcome = .ok (.ok s))
    (hdrive : (solver.drive options.limit (solver.start y s)).outcome = .ok run)
    (ends : options.maxSteps = none → run.stopped = true) :
    (solver.solve y outputs options stationarity).outcome = (do
      examine stationarity run.finalStatus run.value
      return options.deliver
        ⟨run.value, run.finalStatus, run.payload, ⟨run.steps, options.maxSteps⟩⟩) := by
  have counted : (options.maxSteps.isNone && !run.stopped) = false := by
    cases hbudget : options.maxSteps with
    | none => simp [ends hbudget]
    | some m => rfl
  rw [SolveOptions.limit] at hdrive
  simp only [solve, Traced.outcome_bind, Traced.outcome_emit, hinit, ok_bind, hdrive, counted]
  cases hstatus : run.finalStatus.isSuccessful with
  | false => cases hraise : options.raise <;> simp [examine, SolveOptions.deliver, hstatus, hraise]
  | true =>
    cases stationarity with
    | none => simp [examine, SolveOptions.deliver, hstatus]
    | some condition =>
      cases hcondition : (condition run.value).outcome <;>
        simp [examine, SolveOptions.deliver, ImplicitAdjoint.apply, hstatus, hcondition]

/-- A solve goes through the sequence up to its first stop or to the end of its budget. -/
theorem solve_eq_bind_after {y : Y} {outputs : Nat} {options : SolveOptions F} {s : S} {T : Nat}
    (stationarity : Option (Y → Traced F (Vec F)))
    (hinit : (solver.init y outputs options.tags).outcome = .ok (.ok s))
    (within : T ≤ options.limit)
    (going : ∀ k < T, ∀ p, solver.after y s k = .ok p → ¬ solver.Stops p.1 p.2.1)
    (ends : ∀ p, solver.after y s T = .ok p →
      solver.Stops p.1 p.2.1 ∨ options.maxSteps = some T) :
    (solver.solve y outputs options stationarity).outcome = do
      let p ← solver.after y s T
      examine stationarity (solver.runAt T p).finalStatus p.1
      return options.deliver
        ⟨p.1, (solver.runAt T p).finalStatus, p.2.2, ⟨T, options.maxSteps⟩⟩ := by
  obtain ⟨rest, hrest⟩ := Nat.exists_eq_add_of_le within
  have hdrive := solver.drive_eq_bind_after rest going
  rw [← hrest] at hdrive
  cases hp : solver.after y s T with
  | error e =>
    rw [hp, error_bind, SolveOptions.limit] at hdrive
    simp [solve, hinit, hdrive]
  | ok p =>
    have reached : (solver.drive options.limit (solver.start y s)).outcome =
        .ok (solver.runAt T p) := by
      rw [hdrive, hp, ok_bind]
      rcases ends p hp with stops | budget
      · have stopped := (solver.stopped_runAt_iff T p).mpr stops
        cases rest with
        | zero => rfl
        | succ rest => simp [drive, stopped]
      · obtain rfl : rest = 0 := by
          rw [SolveOptions.limit, budget, Option.getD_some] at hrest
          omega
        rfl
    rw [solver.solve_of_drive stationarity hinit reached]
    · rfl
    · intro unbounded
      refine (solver.stopped_runAt_iff T p).mpr ((ends p hp).resolve_right fun budget => ?_)
      rw [unbounded] at budget
      cases budget

/-- A solve whose budget reaches the first stop ends there. -/
theorem solve_of_isLeast {y : Y} {outputs : Nat} {options : SolveOptions F} {s : S} {T : Nat}
    {p : Y × S × Option A} (stationarity : Option (Y → Traced F (Vec F)))
    (hinit : (solver.init y outputs options.tags).outcome = .ok (.ok s))
    (first : IsLeast (solver.stopTimes y s) T) (hp : solver.after y s T = .ok p)
    (within : T ≤ options.limit) :
    (solver.solve y outputs options stationarity).outcome = (do
      examine stationarity (solver.terminate p.1 p.2.1).2 p.1
      return options.deliver
        ⟨p.1, (solver.terminate p.1 p.2.1).2, p.2.2, ⟨T, options.maxSteps⟩⟩) := by
  obtain ⟨q, hq, stops⟩ := first.1
  obtain rfl : p = q := by simpa [hp] using hq
  rw [solver.solve_of_drive stationarity hinit (solver.drive_of_isLeast first hp within)
    fun _ => (solver.stopped_runAt_iff T p).mpr stops, solver.finalStatus_of_stops stops]
  rfl

/-- A solve that starts and returns has driven a run to its end. Without a budget, the run has
stopped by itself. -/
theorem exists_drive_of_solve {y : Y} {outputs : Nat} {options : SolveOptions F}
    {stationarity : Option (Y → Traced F (Vec F))}
    {found : Except (SolveError F Y A) (Solution Y A)} {s : S}
    (hinit : (solver.init y outputs options.tags).outcome = .ok (.ok s))
    (h : (solver.solve y outputs options stationarity).outcome = .ok found) :
    ∃ run, (solver.drive options.limit (solver.start y s)).outcome = .ok run ∧
      (options.maxSteps = none → run.stopped = true) := by
  simp only [solve, Traced.outcome_bind, Traced.outcome_emit, hinit, ok_bind] at h
  obtain ⟨run, hrun, h⟩ := bind_eq_ok_iff.mp h
  refine ⟨run, hrun, ?_⟩
  intro unbounded
  by_contra going
  have counted : (options.maxSteps.isNone && !run.stopped) = true := by
    simp [unbounded, Bool.not_eq_true _ ▸ going]
  rw [if_pos counted] at h
  cases h

/-- The ways for a solve to return: the solver could not start, or a run along the sequence ended at
its first stop or at the end of its budget. -/
theorem solve_cases {y : Y} {outputs : Nat} {options : SolveOptions F}
    {stationarity : Option (Y → Traced F (Vec F))}
    {found : Except (SolveError F Y A) (Solution Y A)}
    (h : (solver.solve y outputs options stationarity).outcome = .ok found) :
    (∃ e, (solver.init y outputs options.tags).outcome = .ok (.error e) ∧
      found = .error (.config e)) ∨
    ∃ s k p, (solver.init y outputs options.tags).outcome = .ok (.ok s) ∧ k ≤ options.limit ∧
      solver.after y s k = .ok p ∧ (k < options.limit → solver.Stops p.1 p.2.1) ∧
      found = options.deliver
        ⟨p.1, (solver.runAt k p).finalStatus, p.2.2, ⟨k, options.maxSteps⟩⟩ := by
  obtain ⟨started, hinit⟩ :
      ∃ started, (solver.init y outputs options.tags).outcome = .ok started := by
    rw [solve, Traced.outcome_bind, Traced.outcome_emit, ok_bind, Traced.outcome_bind] at h
    obtain ⟨started, hstarted, -⟩ := bind_eq_ok_iff.mp h
    exact ⟨started, hstarted⟩
  cases started with
  | error e =>
    refine .inl ⟨e, hinit, ?_⟩
    simpa [solve, hinit] using h.symm
  | ok s =>
    obtain ⟨run, hdrive, ends⟩ := solver.exists_drive_of_solve hinit h
    rw [solver.solve_of_drive stationarity hinit hdrive ends] at h
    obtain ⟨-, -, hfound⟩ := bind_eq_ok_iff.mp h
    obtain ⟨k, p, hk, hp, rfl, stops⟩ := solver.exists_runAt_of_drive (k := 0) rfl hdrive
    rw [Nat.zero_add] at hp hfound
    exact .inr ⟨s, k, p, hinit, hk, hp, stops, (Except.ok.inj hfound).symm⟩

/-- Before the step that a solve ends with, there is no stop. -/
theorem not_stops_of_solve {y : Y} {outputs : Nat} {options : SolveOptions F} {s : S}
    {stationarity : Option (Y → Traced F (Vec F))} {solution : Solution Y A}
    (hinit : (solver.init y outputs options.tags).outcome = .ok (.ok s))
    (h : (solver.solve y outputs options stationarity).outcome = .ok (options.deliver solution))
    {k : Nat} (before : k < solution.stats.numSteps) {p : Y × S × Option A}
    (hp : solver.after y s k = .ok p) : ¬ solver.Stops p.1 p.2.1 := by
  have within : solution.stats.numSteps ≤ options.limit := by
    rcases solver.solve_cases h with ⟨e, -, refused⟩ | ⟨_, n, _, -, hn, -, -, hfound⟩
    · exact absurd refused (options.deliver_ne_config solution e)
    · obtain rfl := options.deliver_injective hfound
      exact hn
  induction k using Nat.strongRecOn generalizing p with
  | ind k ih =>
    intro stops
    have first : IsLeast (solver.stopTimes y s) k :=
      solver.isLeast_stopTimes hp stops fun j hj q hq => ih j hj (hj.trans before) hq
    rw [solver.solve_of_isLeast stationarity hinit first hp (before.le.trans within)] at h
    obtain ⟨-, -, hfound⟩ := bind_eq_ok_iff.mp h
    obtain rfl := options.deliver_injective (Except.ok.inj hfound)
    exact lt_irrefl k before

/-- A solve that does not end as diverged has met no divergence on its way. -/
theorem status_ne_of_solve {y : Y} {outputs : Nat} {options : SolveOptions F} {s : S}
    {stationarity : Option (Y → Traced F (Vec F))} {solution : Solution Y A}
    (hinit : (solver.init y outputs options.tags).outcome = .ok (.ok s))
    (h : (solver.solve y outputs options stationarity).outcome = .ok (options.deliver solution))
    (status : solution.status ≠ .nonlinearDivergence) {k : Nat}
    (within : k ≤ solution.stats.numSteps) {p : Y × S × Option A}
    (hp : solver.after y s k = .ok p) :
    (solver.terminate p.1 p.2.1).2 ≠ .nonlinearDivergence := by
  intro diverged
  have stops : solver.Stops p.1 p.2.1 :=
    .inr (by rw [diverged]; exact fun h => Status.noConfusion h)
  rcases Nat.lt_or_eq_of_le within with before | rfl
  · exact solver.not_stops_of_solve hinit h before hp stops
  · rcases solver.solve_cases h with ⟨e, -, refused⟩ | ⟨s', n, q, hinit', -, hq, -, hfound⟩
    · exact absurd refused (options.deliver_ne_config solution e)
    obtain rfl := options.deliver_injective hfound
    obtain rfl : s = s' := Except.ok.inj (Except.ok.inj (hinit.symm.trans hinit'))
    obtain rfl : p = q := Except.ok.inj (hp.symm.trans hq)
    exact status ((solver.finalStatus_of_stops stops).trans diverged)

/-- A success ends where the solver is done and reports no failure. -/
theorem exists_of_successful {y : Y} {outputs : Nat} {options : SolveOptions F}
    {stationarity : Option (Y → Traced F (Vec F))} {solution : Solution Y A}
    (h : (solver.solve y outputs options stationarity).outcome = .ok (.ok solution))
    (success : solution.status = .successful) :
    ∃ s last, (solver.init y outputs options.tags).outcome = .ok (.ok s) ∧
      solver.after y s solution.stats.numSteps = .ok (solution.value, last, solution.payload) ∧
      solver.terminate solution.value last = (true, .successful) := by
  rcases solver.solve_cases h with ⟨e, -, hfound⟩ | ⟨s, k, p, hinit, -, hp, -, hfound⟩
  · cases hfound
  obtain rfl := SolveOptions.eq_of_deliver hfound.symm
  have stops : solver.Stops p.1 p.2.1 := by
    by_contra goes_on
    rw [solver.finalStatus_of_not_stops goes_on] at success
    cases success
  rw [solver.finalStatus_of_stops stops] at success
  have done : (solver.terminate p.1 p.2.1).1 = true :=
    stops.resolve_right fun failed => failed success
  exact ⟨s, p.2.1, hinit, hp, Prod.ext done success⟩

/-- A solver that is not done at its start succeeds after a step only. -/
theorem numSteps_pos_of_successful {y : Y} {outputs : Nat} {options : SolveOptions F}
    {stationarity : Option (Y → Traced F (Vec F))} {solution : Solution Y A}
    (waits : ∀ s, (solver.init y outputs options.tags).outcome = .ok (.ok s) →
      (solver.terminate y s).1 = false)
    (h : (solver.solve y outputs options stationarity).outcome = .ok (.ok solution))
    (success : solution.status = .successful) : 0 < solution.stats.numSteps := by
  obtain ⟨s, last, hinit, hlast, done⟩ := solver.exists_of_successful h success
  refine Nat.pos_of_ne_zero fun none => ?_
  rw [none] at hlast
  obtain ⟨rfl, rfl, -⟩ : y = solution.value ∧ s = last ∧ Option.none = solution.payload := by
    simpa [after] using hlast
  exact Bool.false_ne_true ((waits s hinit).symm.trans (congrArg Prod.fst done))

/-- A solver whose steps never fault returns within any budget. -/
theorem exists_solve_of_forall_step (total : ∀ y s, ∃ q, (solver.step y s).outcome = .ok q) {y : Y}
    {outputs m : Nat} {options : SolveOptions F} (budget : options.maxSteps = some m)
    {started : Except (ConfigError F) S}
    (hinit : (solver.init y outputs options.tags).outcome = .ok started) :
    ∃ found, (solver.solve y outputs options none).outcome = .ok found := by
  cases started with
  | error e => exact ⟨.error (.config e), by simp [solve, hinit]⟩
  | ok s =>
    have start : solver.after y s 0 = .ok (y, s, none) := rfl
    obtain ⟨run, hrun⟩ := solver.exists_drive_of_forall_after (n := options.limit)
      (solver.exists_after_of_forall_step total y s) start
    have bounded : options.maxSteps = none → run.stopped = true := by
      intro unbounded
      rw [budget] at unbounded
      cases unbounded
    have unexamined : examine (none : Option (Y → Traced F (Vec F))) run.finalStatus run.value =
        .ok () := by
      cases hstatus : run.finalStatus.isSuccessful <;> simp [examine, hstatus]
    rw [solver.solve_of_drive none hinit hrun bounded, unexamined]
    exact ⟨_, rfl⟩

/-- What a solve returns. A solver that cannot start makes it a configuration error. Otherwise the
first stop within the limit gives the steps, the value, the payload and the status; and a budget
that ends before any stop gives the last candidate it reaches, as out of steps. The stationarity
condition never reaches the solution, and a failure is raised exactly if this is asked for. -/
theorem solve_outcome (solver : Solver F Y S A) (y : Y) (outputs : Nat) (options : SolveOptions F)
    (stationarity : Option (Y → Traced F (Vec F))) :
    (∀ e, (solver.init y outputs options.tags).outcome = .ok (.error e) →
      (solver.solve y outputs options stationarity).outcome = .ok (.error (.config e))) ∧
    ∀ s, (solver.init y outputs options.tags).outcome = .ok (.ok s) →
      (∀ T p, IsLeast (solver.stopTimes y s) T → T ≤ options.limit → solver.after y s T = .ok p →
        (solver.solve y outputs options stationarity).outcome = do
          examine stationarity (solver.terminate p.1 p.2.1).2 p.1
          return options.deliver
            ⟨p.1, (solver.terminate p.1 p.2.1).2, p.2.2, ⟨T, options.maxSteps⟩⟩) ∧
      (∀ m p, options.maxSteps = some m → (∀ k ≤ m, k ∉ solver.stopTimes y s) →
        solver.after y s m = .ok p →
        (solver.solve y outputs options stationarity).outcome =
          .ok (options.deliver ⟨p.1, .maxStepsReached, p.2.2, ⟨m, some m⟩⟩)) := by
  constructor
  · intro e hinit
    simp [solve, hinit]
  intro s hinit
  constructor
  · intro T p first within hp
    obtain ⟨q, hq, stops⟩ := first.1
    obtain rfl : p = q := by simpa [hp] using hq
    have stopped : (solver.runAt T p).stopped = true := (solver.stopped_runAt_iff T p).mpr stops
    rw [solver.solve_of_drive stationarity hinit (solver.drive_of_isLeast first hp within)
      fun _ => stopped, solver.finalStatus_of_stops stops]
    rfl
  · intro m p budget none hp
    have hdrive : (solver.drive options.limit (solver.start y s)).outcome =
        .ok (solver.runAt m p) := by
      rw [SolveOptions.limit, budget]
      exact solver.drive_of_forall_notMem none hp
    have goes_on : ¬ solver.Stops p.1 p.2.1 := by
      intro stops
      exact none m le_rfl ⟨p, hp, stops⟩
    rw [solver.solve_of_drive stationarity hinit hdrive (by simp [budget]),
      solver.finalStatus_of_not_stops goes_on, budget]
    rfl

/-- Counts to two, where it is done and has failed at once. -/
def failsWhenDone : Solver Float Nat Nat Nat where
  init _ _ _ := pure (.ok 0)
  step y s := pure (y + 1, s + 1, y)
  terminate _ s := (s == 2, if s == 2 then .nonlinearDivergence else .successful)

/-- Done and failed after the last step of the budget: the failure is what is raised. -/
theorem solve_outcome_failsWhenDone :
    (failsWhenDone.solve 0 1 { SolveOptions.standard with maxSteps := some 2 } none).outcome =
      .ok (.error (.failed ⟨2, .nonlinearDivergence, some 1, ⟨2, some 2⟩⟩)) := by
  have first : IsLeast (failsWhenDone.stopTimes 0 0) 2 := by
    refine ⟨⟨(2, 2, some 1), rfl, .inl rfl⟩, fun k ⟨p, hp, hstop⟩ => ?_⟩
    by_contra hk
    obtain rfl | rfl : k = 0 ∨ k = 1 := by omega
    · cases hp
      simp [Stops, failsWhenDone] at hstop
    · cases hp
      simp [Stops, failsWhenDone] at hstop
  exact ((solve_outcome failsWhenDone 0 1 { SolveOptions.standard with maxSteps := some 2 }
    none).2 0 rfl).1 2 (2, 2, some 1) first le_rfl rfl

end Solver
end DualOpt
