import DualOpt.Decimal.Format
import DualOpt.Dual.Basic
import DualOpt.Traced

/-!
The wording of errors and events. Numbers in a text have the fewest digits that read back.
-/
namespace DualOpt

variable {F Y A : Type} [BinaryFormat F]

open BinaryFormat (shortest)

/-- A dual number as a sum with its tangent in front of the infinitesimal. -/
def Dual.text (d : Dual F) : String := shortest d.primal ++ " + " ++ shortest d.tangent ++ "ε"

def ConfigError.message : ConfigError F → String
  | .decreaseFactor value =>
    "invalid configuration: decrease_factor must lie in (eps, 1), got " ++ shortest value
  | .searchMode =>
    "invalid configuration: GaussNewton needs a line search in Gauss-Newton mode"
  | .invalid reason => "invalid configuration: " ++ reason
  | .missingOption name => "`" ++ name ++ "` must be passed via the line search options"
  | .dimensionMismatch what expected found =>
    s!"dimension mismatch for {what}: expected {expected}, got {found}"

def SolveError.message : SolveError F Y A → String
  | .config e => e.message
  | .failed s => s!"solve failed after {s.stats.numSteps} steps: {s.status.message}"

/-- A step budget as it appears in messages. -/
def describeBudget : Option Nat → String
  | none => "None"
  | some n => s!"Some({n})"

def Event.message : Event F → String
  | .solveStarted budget =>
    "iterative solve: starting (max_steps = " ++ describeBudget budget ++ ")"
  | .stepTaken step done status =>
    s!"iterative solve: step {step} done = {done} result = {status.message}"
  | .solveFinished steps status =>
    s!"iterative solve: finished after {steps} steps with {status.message}"
  | .searchFinished solver status steps =>
    s!"{solver}: line search {status.message} after {steps} steps"
  | .searchRefused solver e => solver ++ ": line search could not start: " ++ e.message
  | .tagsDiscarded tags delegate =>
    "least squares: discarding tags " ++ tags.describe ++ " when delegating to a " ++ delegate
  | .notStationary norm tolerance =>
    "implicit adjoint: stationarity residual " ++ shortest norm ++ " exceeds "
      ++ shortest tolerance ++ "; derivatives through this solution may be meaningless"
  | .conditionViolated norm =>
    "implicit differentiation called with |c(y, theta)| = " ++ shortest norm
      ++ "; y may not be a solution"

end DualOpt
