import DualOpt.LineSearch.Basic

/-!
Backtracking line search with a test of sufficient decrease.

The first trial is at the zero step unless the objective there is known; every later trial is at
the current multiplier, and every step multiplies it by the decrease factor. The search is done
when a trial after the first lies below the line through the zero step whose slope is a fraction
of the predicted change, and the change predicted is a decrease.
-/
namespace DualOpt

/-- Whether the predicted change is read off a gradient or off a residual and its Jacobian. -/
inductive SearchMode where
  | gradient
  | gaussNewton
  deriving DecidableEq, Repr

structure Backtracking (F : Type) where
  mode : SearchMode
  slope : F
  decreaseFactor : F

/-- The state of a search. Before the first measurement of the objective, `runningMin` is none. -/
structure BacktrackingState (F : Type) where
  step : Nat
  runningMin : Option F
  runningMinDiff : Vec F
  /-- The latest measurement. -/
  objective : F
  /-- The objective at the zero step. -/
  initialObjective : F
  /-- The difference of the latest trial. -/
  diff : Vec F
  /-- Whether the zero step is still to be measured. -/
  measureInitial : Bool
  status : Status
  /-- The gradient that predicts the change along a difference. -/
  gradient : Vec F

namespace Backtracking
variable {F A : Type} [Scalar F]

/-- Accepts a decrease factor strictly between `epsilon` and one. -/
def create (mode : SearchMode) (slope decreaseFactor : F) :
    Except (ConfigError F) (Backtracking F) :=
  if decreaseFactor > Scalar.epsilon && decreaseFactor < 1 then
    .ok ⟨mode, slope, decreaseFactor⟩
  else .error (.decreaseFactor decreaseFactor)

/-- Slope one tenth, and halving. -/
def standard (mode : SearchMode) : Backtracking F := ⟨mode, 0.1, 0.5⟩

/-- The multiplier a search starts from: the one it is told, else the reciprocal of the decrease
factor, so that the trial after the zero step is at one. -/
def firstInitial (search : Backtracking F) (input : SearchInput F) : F :=
  input.initialMultiplier.getD (1 / search.decreaseFactor)

/-- The gradient of the objective: the given vector, or the transposed operator applied to it. -/
def gradientOf (search : Backtracking F) (operator : Operator F) (vector : Vec F) :
    Traced F (Except (ConfigError F) (Vec F)) :=
  match search.mode with
  | .gradient => return .ok vector
  | .gaussNewton => do
    if operator.outSize ≠ vector.length then
      return .error (.dimensionMismatch "line search vector" operator.outSize vector.length)
    else return .ok (← operator.transpose.mulVec vector)

/-- The state before the first trial, for a search along differences shaped like `gradient`. -/
def initialState (input : SearchInput F) (gradient : Vec F) : BacktrackingState F :=
  let zeros := Vec.zerosLike gradient
  let start : BacktrackingState F :=
    { step := 0, runningMin := none, runningMinDiff := zeros, objective := Scalar.infinity,
      initialObjective := Scalar.infinity, diff := zeros, measureInitial := true,
      status := .successful, gradient }
  match input.initialObjective with
  | none => start
  | some f0 =>
    { start with
      runningMin := some f0, objective := f0, initialObjective := f0,
      measureInitial := input.remeasure.getD false }

def init (search : Backtracking F) (input : SearchInput F) :
    Traced F (Except (ConfigError F) (BacktrackingState F)) := do
  match input.vector, input.operator with
  | none, _ => return .error (.missingOption "vector")
  | some _, none => return .error (.missingOption "operator")
  | some vector, some operator =>
    match ← search.gradientOf operator vector with
    | .error e => return .error e
    | .ok gradient =>
      match input.diff with
      | some diff =>
        if diff.length ≠ gradient.length then
          return .error (.dimensionMismatch "line search diff" gradient.length diff.length)
        else return .ok (initialState input gradient)
      | none => return .ok (initialState input gradient)

/-- Whether a measurement is below the running minimum. -/
def improves (objective : F) : Option F → Bool
  | none => Scalar.belowInfinity objective
  | some least => objective < least

/-- The multiplier of the next trial. -/
def trialAt (α : F) (s : BacktrackingState F) : F := if s.measureInitial then 0 else α

/-- The multiplier, the state and the report after a trial. -/
def record (search : Backtracking F) (trial : Trial F A) (α : F)
    (s : BacktrackingState F) : F × BacktrackingState F × SearchReport F A :=
  let improved := improves trial.objective s.runningMin
  let runningMin := if improved then some trial.objective else s.runningMin
  let runningMinDiff := Vec.choose improved trial.diff s.runningMinDiff
  let next : BacktrackingState F :=
    { step := s.step + 1, runningMin, runningMinDiff, objective := trial.objective,
      initialObjective := if s.measureInitial then trial.objective else s.initialObjective,
      diff := trial.diff, measureInitial := false, status := s.status.merge trial.status,
      gradient := s.gradient }
  let report : SearchReport F A :=
    { runningMin, runningMinDiff, payload := trial.payload, status := trial.status,
      nextInitial := 1 / search.decreaseFactor }
  (search.decreaseFactor * α, next, report)

/-- One trial. It faults where the objective cannot be measured. -/
def step (search : Backtracking F) (measure : F → Except Fault (Trial F A)) (α : F)
    (s : BacktrackingState F) :
    Except Fault (F × BacktrackingState F × SearchReport F A) := do
  return search.record (← measure (trialAt α s)) α s

/-- The change of the objective that the gradient predicts for the latest difference. -/
def predicted (s : BacktrackingState F) : F := Vec.inner s.gradient s.diff

def terminate (search : Backtracking F) (α : F) (s : BacktrackingState F) : Bool × Status :=
  let diverged := !Scalar.isFinite α || (s.step > 0 && !Scalar.isFinite s.objective)
  let change := predicted s
  let finished := s.objective < s.initialObjective + search.slope * change
    && s.step > 1 && change < 0
  (finished, Status.select diverged .nonlinearDivergence s.status)

/-- The search as a solver on its multiplier. -/
def solver (search : Backtracking F) (measure : F → Except Fault (Trial F A))
    (input : SearchInput F) : Solver F F (BacktrackingState F) (SearchReport F A) where
  init _ _ _ := search.init input
  step α s := Traced.ofExcept (search.step measure α s)
  terminate := search.terminate

end Backtracking
end DualOpt
