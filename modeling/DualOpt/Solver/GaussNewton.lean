import DualOpt.Convergence
import DualOpt.LineSearch.Backtracking
import DualOpt.Problem

/-!
The Gauss-Newton method for least squares.

A step solves the linearised problem `J·d ≈ r`, searches along `-d` for a decrease of half the sum
of squares, and takes the best point the search has seen.
-/
namespace DualOpt

structure GaussNewton (F : Type) where
  convergence : Convergence F
  linearSolver : QrSolver F
  lineSearch : Backtracking F
  /-- The budget of each line search. -/
  searchSteps : Nat

/-- The state at a candidate. -/
structure GaussNewtonState (F : Type) where
  step : Nat
  /-- Half the sum of squares. -/
  objective : F
  /-- The decrease of the objective by the last step. -/
  objectiveDiff : F
  /-- The last step. -/
  diff : Vec F
  status : Status

namespace GaussNewton
variable {F A : Type} [Scalar F]

/-- The usual settings for the precision. -/
def standard [Precision F] : GaussNewton F :=
  ⟨.standard, {}, .standard .gaussNewton, Precision.searchSteps F⟩

/-- The usual settings with given tolerances. -/
def withTolerances (rtol atol : F) : GaussNewton F :=
  ⟨{ rtol, atol }, {}, .standard .gaussNewton, 32⟩

/-- Replaces the line search by one that works on a residual and its Jacobian. -/
def withLineSearch (g : GaussNewton F) (search : Backtracking F) :
    Except (ConfigError F) (GaussNewton F) :=
  match search.mode with
  | .gaussNewton => .ok { g with lineSearch := search }
  | .gradient => .error .searchMode

def initialState (y : Vec F) : GaussNewtonState F :=
  ⟨0, Scalar.infinity, Scalar.infinity, Vec.zerosLike y, .successful⟩

/-- Half the sum of squares. -/
def halfSquares (r : Vec F) : F := 0.5 * Vec.sumSquares r

/-- Measures the objective at `y + α·d`. -/
def measure (r : Residual F A) (y d : Vec F) (α : F) : Except Fault (Trial F Unit) := do
  let (values, _) ← r.evaluate (Vec.axpy α d y)
  return { objective := halfSquares values, diff := Vec.scale α d, payload := (),
           status := .successful }

/-- The step a line search settles on, the objective there, and the status it adds. A search that
took no step leaves the candidate where it is, and so does one that cannot start. Only divergence
of the search is a failure of the step. -/
def settle (y : Vec F) (f : F)
    (found : Except (SolveError F F (SearchReport F Unit)) (Solution F (SearchReport F Unit))) :
    Traced F (Vec F × F × Status) :=
  match found with
  | .ok solution => do
    Traced.emit (.searchFinished "gauss-newton" solution.status solution.stats.numSteps)
    let status := Status.select (solution.status == .nonlinearDivergence)
      .nonlinearDivergence .successful
    match solution.payload with
    | some report => return (report.runningMinDiff, report.runningMin.getD Scalar.infinity, status)
    | none => return (Vec.zerosLike y, f, status)
  | .error (.config e) => do
    Traced.emit (.searchRefused "gauss-newton" e)
    return (Vec.zerosLike y, f, .nonlinearDivergence)
  | .error (.failed _) => return (Vec.zerosLike y, f, .nonlinearDivergence)

/-- One step. At a point where the residual or its Jacobian is not finite nothing is tried and the
status becomes divergence. -/
def step (g : GaussNewton F) (r : Residual F A) (y : Vec F) (s : GaussNewtonState F) :
    Traced F (Vec F × GaussNewtonState F × A) := do
  let l ← linearise r y
  let f := halfSquares l.values
  if !Vec.allFinite l.values || !l.jacobian.all Vec.allFinite then
    return (y, ⟨s.step + 1, f, 0, Vec.zerosLike y, s.status.merge .nonlinearDivergence⟩,
      l.payload)
  else
    let operator : Operator F := .dense (← Dense.ofRows l.jacobian)
    let factored ← g.linearSolver.factor operator
    let (newton, linearStatus) ← g.linearSolver.solve factored l.values
    let d := Vec.scale (-1) newton
    let input : SearchInput F := { vector := some l.values, operator := some operator, diff := some y }
    let found ← (g.lineSearch.solver (measure r y d) input).solve
      (g.lineSearch.firstInitial input) 1
      { SolveOptions.standard with maxSteps := some g.searchSteps, raise := false } none
    let (diff, least, searchStatus) ← settle y f found
    let next := Vec.add y diff
    let (_, payload) ← r.evaluate next
    return (next,
      ⟨s.step + 1, least, f - least, diff, (s.status.merge linearStatus).merge searchStatus⟩,
      payload)

def terminate (g : GaussNewton F) (y : Vec F) (s : GaussNewtonState F) : Bool × Status :=
  let status := Status.select (Vec.allFinite y) s.status .nonlinearDivergence
  if s.step = 0 then (false, status)
  else
    (s.objective == 0
      || g.convergence.converged y s.diff [s.objective] [s.objectiveDiff], status)

/-- The method as a solver of one residual function. -/
def solver (g : GaussNewton F) (r : Residual F A) :
    Solver F (Vec F) (GaussNewtonState F) A where
  init y _ _ := pure (.ok (initialState y))
  step := g.step r
  terminate := g.terminate

end GaussNewton
end DualOpt
