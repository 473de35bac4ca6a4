import DualOpt.Solver.GaussNewton
import DualOpt.Solver.Lbfgs
import DualOpt.Solver.Newton

/-!
The problem families: minimisation, root finding, and least squares, which is solved directly or
handed to one of the other two.

Each family hands its own stationarity condition to the adjoint: the gradient of the objective,
the residual, or the gradient of the sum of squares.
-/
namespace DualOpt

variable {F A S : Type} [Scalar F]

/-- The outcome of a solve whose candidates are vectors. -/
abbrev Outcome (F A : Type) := Except (SolveError F (Vec F) A) (Solution (Vec F) A)

def minimise (solver : Objective F A → Solver F (Vec F) S A) (f : Objective F A) (y : Vec F)
    (options : SolveOptions F) : Traced F (Outcome F A) :=
  (solver f).solve y 1 options (some fun y => do return (← gradientWith f y).gradient)

def findRoot (solver : Residual F A → Solver F (Vec F) S A) (r : Residual F A) (y : Vec F)
    (options : SolveOptions F) : Traced F (Outcome F A) := do
  (solver r).solve y (← r.outputs y) options (some fun y => do return (← r.evaluate y).1)

/-- How a least-squares problem is solved. -/
inductive LeastSquaresMethod (F A : Type) : Type 1 where
  /-- Iterate on the residual. -/
  | direct {S : Type} (solver : Residual F A → Solver F (Vec F) S A)
  /-- Minimise the sum of squares. -/
  | minimiser {S : Type} (solver : Objective F A → Solver F (Vec F) S A)
  /-- Find a zero of the residual. -/
  | rootFinder {S : Type} (solver : Residual F A → Solver F (Vec F) S A)

def GaussNewton.method (g : GaussNewton F) : LeastSquaresMethod F A := .direct g.solver

def Lbfgs.method (l : Lbfgs F) : LeastSquaresMethod F A := .minimiser l.solver

def Newton.method (n : Newton F) : LeastSquaresMethod F A := .rootFinder n.solver

def leastSquaresDirect (solver : Residual F A → Solver F (Vec F) S A) (r : Residual F A)
    (y : Vec F) (options : SolveOptions F) : Traced F (Outcome F A) := do
  (solver r).solve y (← r.outputs y) options (some fun y => Traced.ofExcept (r.stationarity y))

/-- The tags describe a least-squares problem and say nothing about the problem it is handed on
as, so they are dropped, which is reported if there were any. -/
def SolveOptions.withoutTags (options : SolveOptions F) (delegate : String) :
    Traced F (SolveOptions F) := do
  Traced.emitIf (!options.tags.isEmpty) (.tagsDiscarded options.tags delegate)
  return { options with tags := .empty }

/-- Minimises the sum of the squared residuals from a guess in any number format. -/
def leastSquares [WithinDouble F] (method : LeastSquaresMethod F A) (r : Residual F A)
    (guess : List Element) (options : SolveOptions F) : Traced F (Outcome F A) :=
  let y := Vec.ofElements guess
  match method with
  | .direct solver => leastSquaresDirect solver r y options
  | .minimiser solver => do
    minimise solver r.sumOfSquares y (← options.withoutTags "minimiser")
  | .rootFinder solver => do findRoot solver r y (← options.withoutTags "root finder")

end DualOpt
