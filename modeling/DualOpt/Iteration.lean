import DualOpt.Adjoint
import DualOpt.Solution

/-!
Iterative solvers and the loop that drives them.

A solver is given by three functions on its candidate and its state. The loop asks for termination
before the first step and after every step, and it stops when the solver is done, when a failure
has been seen, or when the budget of steps is used up.
-/
namespace DualOpt

/-- A solver for one problem, with candidates in `Y`, states in `S` and payloads in `A`. -/
structure Solver (F Y S A : Type) where
  /-- The first state, from the starting candidate, the number of outputs of the problem function
  and the tags of the problem; or the reason why the solver cannot start. -/
  init : Y → Nat → Tags → Traced F (Except (ConfigError F) S)
  step : Y → S → Traced F (Y × S × A)
  /-- Whether to stop, and the status so far. The problem function is not evaluated. -/
  terminate : Y → S → Bool × Status
  /-- The parts of a state that are scratch space. -/
  buffers : S → List (Vec F) := fun _ => []

/-- Options of a solve. -/
structure SolveOptions (F : Type) where
  /-- The budget of steps; without one the loop runs until the solver stops it. -/
  maxSteps : Option Nat := some 256
  /-- Whether a status other than successful is raised as an error. -/
  raise : Bool := true
  tags : Tags := .empty
  adjoint : ImplicitAdjoint F
  /-- How many steps the step counter can count. A run without a budget faults beyond it. -/
  counterRange : Nat := 18446744073709551615

def SolveOptions.standard {F : Type} [Scalar F] : SolveOptions F :=
  { adjoint := ImplicitAdjoint.standard }

/-- A run of a solver: where it is, what the last step returned, and what `terminate` said. -/
structure Run (Y S A : Type) where
  value : Y
  state : S
  payload : Option A
  steps : Nat
  done : Bool
  status : Status

/-- A run stops on its own when it is done or has failed. -/
def Run.stopped {Y S A : Type} (r : Run Y S A) : Bool := r.done || !r.status.isSuccessful

namespace Solver
variable {F Y S A : Type}

/-- A run before its first step. -/
def start (solver : Solver F Y S A) (y : Y) (s : S) : Run Y S A :=
  let (done, status) := solver.terminate y s
  ⟨y, s, none, 0, done, status⟩

/-- One step of a run. An earlier failure is kept. -/
def advance (solver : Solver F Y S A) (r : Run Y S A) : Traced F (Run Y S A) := do
  let (y, s, a) ← solver.step r.value r.state
  let (done, status) := solver.terminate y s
  let next : Run Y S A := ⟨y, s, some a, r.steps + 1, done, r.status.merge status⟩
  Traced.emit (.stepTaken next.steps next.done next.status)
  return next

/-- Advances a run until it stops, by at most the given number of steps. -/
def drive (solver : Solver F Y S A) : Nat → Run Y S A → Traced F (Run Y S A)
  | 0, r => pure r
  | n + 1, r => if r.stopped then pure r else do solver.drive n (← solver.advance r)

/-- The first `n` steps from a run, whether or not it stops, with the run itself in front. -/
def trajectory (solver : Solver F Y S A) : Nat → Run Y S A → Traced F (List (Run Y S A))
  | 0, r => pure [r]
  | n + 1, r => do
    let (y, s, a) ← solver.step r.value r.state
    let next := { solver.start y s with payload := some a, steps := r.steps + 1 }
    return r :: (← solver.trajectory n next)

end Solver

/-- The status of a run after the loop: a run that neither stopped nor failed ran out of steps. -/
def Run.finalStatus {Y S A : Type} (r : Run Y S A) : Status :=
  if r.status.isSuccessful && !r.done then .maxStepsReached else r.status

/-- Runs a solver from `y`. After a success, the stationarity condition (if one is given) is
evaluated at the solution and handed to the adjoint, which does not change the solution. -/
def Solver.solve {F Y S A : Type} [Scalar F] (solver : Solver F Y S A) (y : Y) (outputs : Nat)
    (options : SolveOptions F) (stationarity : Option (Y → Traced F (Vec F))) :
    Traced F (Except (SolveError F Y A) (Solution Y A)) := do
  Traced.emit (.solveStarted options.maxSteps)
  match ← solver.init y outputs options.tags with
  | .error e => return .error (.config e)
  | .ok s =>
    let run ← solver.drive (options.maxSteps.getD options.counterRange) (solver.start y s)
    if options.maxSteps.isNone && !run.stopped then Traced.fault .stepCounter
    else
      let status := run.finalStatus
      Traced.emit (.solveFinished run.steps status)
      let value ← match status.isSuccessful, stationarity with
        | true, some condition => do options.adjoint.apply run.value (← condition run.value)
        | _, _ => pure run.value
      let solution : Solution Y A := ⟨value, status, run.payload, ⟨run.steps, options.maxSteps⟩⟩
      if options.raise && !status.isSuccessful then return .error (.failed solution)
      else return .ok solution

end DualOpt
