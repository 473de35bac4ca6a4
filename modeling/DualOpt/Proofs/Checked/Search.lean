import DualOpt.Proofs.Checked.Linear
import DualOpt.Proofs.LineSearch

/-!
A search inside a step of another solver: that it asserts its sizes, that it starts, and what it
reports.

Two solvers that agree on the states of their runs solve alike, down to the events. A search that
asserts the size of every product therefore solves as the search of the library does, if its
measurements have differences as long as its gradient.
-/
namespace DualOpt

namespace Traced
variable {F α β : Type}

theorem liftM_ok_bind (a : α) (f : α → Traced F β) :
    (liftM (Except.ok a : Except Fault α) : Traced F α) >>= f = f a := rfl

theorem bind_congr {x : Traced F α} {f g : α → Traced F β}
    (h : ∀ a, x.outcome = .ok a → f a = g a) : x >>= f = x >>= g := by
  cases hx : x.outcome with
  | error e => rw [bind_error hx, bind_error hx]
  | ok a => rw [bind_ok hx, bind_ok hx, h a hx]

/-- Every event that is reported has a property. -/
def Reports (P : Event F → Prop) (x : Traced F α) : Prop := ∀ e ∈ x.events, P e

variable {P : Event F → Prop}

theorem Reports.mono {Q : Event F → Prop} {x : Traced F α} (h : x.Reports P) (le : ∀ e, P e → Q e) :
    x.Reports Q := fun e he => le e (h e he)

theorem Reports.bind {x : Traced F α} {f : α → Traced F β} (hx : x.Reports P)
    (hf : ∀ a, x.outcome = .ok a → (f a).Reports P) : (x >>= f).Reports P := by
  cases h : x.outcome with
  | error e =>
    rw [bind_error h]
    exact hx
  | ok a =>
    rw [bind_ok h]
    exact List.forall_mem_append.mpr ⟨hx, hf a h⟩

end Traced

namespace Solver
variable {F Y S A : Type}

/-- Two solvers that do the same in all states with a property, which every step keeps. -/
structure Agrees (first second : Solver F Y S A) (P : S → Prop) : Prop where
  step : ∀ y s, P s → first.step y s = second.step y s
  keeps : ∀ y s q, P s → (second.step y s).outcome = .ok q → P q.2.1
  terminate : first.terminate = second.terminate

namespace Agrees
variable {first second : Solver F Y S A} {P : S → Prop} (agrees : Agrees first second P)
include agrees

theorem start_eq (y : Y) (s : S) : first.start y s = second.start y s := by
  rw [start, start, agrees.terminate]

theorem advance_eq {r : Run Y S A} (h : P r.state) : first.advance r = second.advance r := by
  rw [advance, advance, agrees.step _ _ h, agrees.terminate]

theorem keeps_advance {r next : Run Y S A} (h : P r.state)
    (advanced : (second.advance r).outcome = .ok next) : P next.state := by
  rw [advance, Traced.outcome_bind] at advanced
  obtain ⟨q, hq, advanced⟩ := bind_eq_ok_iff.mp advanced
  simp only [Traced.outcome_bind, Traced.outcome_emit, ok_bind] at advanced
  obtain rfl := Except.ok.inj advanced
  exact agrees.keeps _ _ q h hq

theorem drive_eq (n : Nat) {r : Run Y S A} (h : P r.state) : first.drive n r = second.drive n r := by
  induction n generalizing r with
  | zero => rfl
  | succ n ih =>
    rw [drive, drive, agrees.advance_eq h]
    split
    · rfl
    · exact Traced.bind_congr fun next advanced => ih (agrees.keeps_advance h advanced)

/-- Solvers that agree from their first state on solve alike. -/
theorem solve_eq [Scalar F] {y : Y} {outputs : Nat} {options : SolveOptions F}
    (init : first.init y outputs options.tags = second.init y outputs options.tags)
    (started : ∀ s, (second.init y outputs options.tags).outcome = .ok (.ok s) → P s)
    (stationarity : Option (Y → Traced F (Vec F))) :
    first.solve y outputs options stationarity = second.solve y outputs options stationarity := by
  rw [solve, solve, init]
  refine Traced.bind_congr fun _ _ => Traced.bind_congr fun found hfound => ?_
  cases found with
  | error e => rfl
  | ok s =>
    dsimp only
    rw [agrees.start_eq, agrees.drive_eq _ (started s hfound)]

end Agrees

variable {solver : Solver F Y S A}

end Solver

namespace Operator
variable {F : Type} [Scalar F]

/-- The transpose of an operator whose rows have every entry that it asks for. -/
def checkedTranspose : Operator F → Except Fault (Operator F)
  | dense a => do
    let _ ← a.rows.transpose
    return dense a.transpose
  | identity n => return identity n

theorem checkedTranspose_eq (operator : Operator F) :
    operator.checkedTranspose = .ok operator.transpose := by
  cases operator with
  | dense a => rw [checkedTranspose, a.transpose_rows]; rfl
  | identity n => rfl

end Operator

namespace Backtracking
variable {F A : Type} [Scalar F] (search : Backtracking F)

def checkedGradientOf (operator : Operator F) (vector : Vec F) :
    Traced F (Except (ConfigError F) (Vec F)) :=
  match search.mode with
  | .gradient => return .ok vector
  | .gaussNewton => do
    if operator.outSize ≠ vector.length then
      return .error (.dimensionMismatch "line search vector" operator.outSize vector.length)
    else
      let transposed ← operator.checkedTranspose
      return .ok (← transposed.checkedMulVec vector)

theorem checkedGradientOf_eq (operator : Operator F) (vector : Vec F) :
    search.checkedGradientOf operator vector = search.gradientOf operator vector := by
  rw [checkedGradientOf, gradientOf]
  cases search.mode with
  | gradient => rfl
  | gaussNewton =>
    dsimp only
    rw [operator.checkedTranspose_eq, ← operator.transpose.checkedMulVec_eq]
    rfl

/-- A state of which the loop, that has it next, can ask for the predicted change. -/
def checkedState (s : BacktrackingState F) : Except Fault (BacktrackingState F) := do
  let _ ← Vec.together Vec.inner s.gradient s.diff
  return s

theorem checkedState_eq {s : BacktrackingState F} (same : s.gradient.length = s.diff.length) :
    checkedState s = .ok s := by
  rw [checkedState, Vec.together_eq _ same]
  rfl

def checkedInit (input : SearchInput F) :
    Traced F (Except (ConfigError F) (BacktrackingState F)) := do
  match input.vector, input.operator with
  | none, _ => return .error (.missingOption "vector")
  | some _, none => return .error (.missingOption "operator")
  | some vector, some operator =>
    match ← search.checkedGradientOf operator vector with
    | .error e => return .error e
    | .ok gradient =>
      match input.diff with
      | some diff =>
        if diff.length ≠ gradient.length then
          return .error (.dimensionMismatch "line search diff" gradient.length diff.length)
        else return .ok (← checkedState (initialState input gradient))
      | none => return .ok (← checkedState (initialState input gradient))

theorem checkedState_initialState (input : SearchInput F) (gradient : Vec F) :
    checkedState (initialState input gradient) = .ok (initialState input gradient) := by
  refine checkedState_eq ?_
  rw [initialState]
  cases input.initialObjective <;> exact (Vec.length_zerosLike gradient).symm

/-- A search starts with a difference that is shaped like its gradient. -/
theorem checkedInit_eq (input : SearchInput F) : search.checkedInit input = search.init input := by
  simp only [checkedInit, init, checkedGradientOf_eq, checkedState_initialState]
  rfl

def checkedStep (measure : F → Except Fault (Trial F A)) (α : F) (s : BacktrackingState F) :
    Except Fault (F × BacktrackingState F × SearchReport F A) := do
  let (β, next, report) ← search.step measure α s
  return (β, ← checkedState next, report)

def checkedSolver (measure : F → Except Fault (Trial F A)) (input : SearchInput F) :
    Solver F F (BacktrackingState F) (SearchReport F A) where
  init _ _ _ := search.checkedInit input
  step α s := Traced.ofExcept (search.checkedStep measure α s)
  terminate := search.terminate

section Sizes
variable {measure : F → Except Fault (Trial F A)} {input : SearchInput F} {n : Nat}

/-- The gradient stays, and the difference is that of the trial. -/
theorem sizes_of_step (trials : ∀ α trial, measure α = .ok trial → trial.diff.length = n)
    {α : F} {s : BacktrackingState F} (hs : s.gradient.length = n)
    {q : F × BacktrackingState F × SearchReport F A} (h : search.step measure α s = .ok q) :
    q.2.1.gradient.length = n ∧ q.2.1.diff.length = n := by
  obtain ⟨trial, htrial, hrecord⟩ := bind_eq_ok_iff.mp h
  obtain rfl := Except.ok.inj hrecord
  exact ⟨hs, trials _ _ htrial⟩

theorem checkedStep_eq (trials : ∀ α trial, measure α = .ok trial → trial.diff.length = n)
    {s : BacktrackingState F} (hs : s.gradient.length = n) (α : F) :
    search.checkedStep measure α s = search.step measure α s := by
  cases h : search.step measure α s with
  | error e => rw [checkedStep, h]; rfl
  | ok q =>
    obtain ⟨gradient, diff⟩ := search.sizes_of_step trials hs h
    obtain ⟨β, next, report⟩ := q
    rw [checkedStep, h, ok_bind]
    dsimp only
    rw [checkedState_eq (gradient.trans diff.symm)]
    rfl

theorem agrees_checkedSolver
    (trials : ∀ α trial, measure α = .ok trial → trial.diff.length = n) :
    (search.checkedSolver measure input).Agrees (search.solver measure input)
      (·.gradient.length = n) where
  step α _ hs := congrArg Traced.ofExcept (search.checkedStep_eq trials hs α)
  keeps _ _ _ hs hstep := (search.sizes_of_step trials hs hstep).1
  terminate := rfl

/-- The assertions of a search hold if its differences are as long as its gradient. -/
theorem solve_checkedSolver (trials : ∀ α trial, measure α = .ok trial → trial.diff.length = n)
    (started : ∀ s, (search.init input).outcome = .ok (.ok s) → s.gradient.length = n) (α : F)
    (outputs : Nat) (options : SolveOptions F) (stationarity : Option (F → Traced F (Vec F))) :
    (search.checkedSolver measure input).solve α outputs options stationarity =
      (search.solver measure input).solve α outputs options stationarity :=
  (search.agrees_checkedSolver trials).solve_eq (search.checkedInit_eq input) started stationarity

end Sizes

section Line
variable {value : Vec F → Except Fault F} {y d : Vec F} {input : SearchInput F}

/-- Measures a function along a line, where the direction must fit the point. -/
def checkedAlongLine (value : Vec F → Except Fault F) (y d : Vec F) (α : F) :
    Except Fault (Trial F Unit) := do
  let point ← Vec.together (Vec.axpy α) d y
  return { objective := ← value point, diff := Vec.scale α d, payload := (),
           status := .successful }

theorem checkedAlongLine_eq (hd : d.length = y.length) :
    checkedAlongLine value y d = alongLine value y d := by
  funext α
  rw [checkedAlongLine, Vec.together_eq _ hd]
  rfl

/-- The assertions of a search hold if the direction and the gradient fit the point. -/
theorem solve_checkedAlongLine (hd : d.length = y.length)
    (started : ∀ s, (search.init input).outcome = .ok (.ok s) → s.gradient.length = y.length) (α : F)
    (outputs : Nat) (options : SolveOptions F) (stationarity : Option (F → Traced F (Vec F))) :
    (search.checkedSolver (checkedAlongLine value y d) input).solve α outputs options stationarity =
      (search.solver (alongLine value y d) input).solve α outputs options stationarity := by
  rw [checkedAlongLine_eq hd]
  exact search.solve_checkedSolver (length_of_alongLine hd) started α outputs options stationarity

end Line

end Backtracking
end DualOpt
