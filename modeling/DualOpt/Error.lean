import DualOpt.Solution

/-!
Errors that a caller can act on: a configuration that can never succeed, found before the first
step, and a failed solve that was asked to raise its failure.
-/
namespace DualOpt

inductive ConfigError (F : Type) where
  /-- A line search was given a decrease factor outside the open interval from `epsilon` to one. -/
  | decreaseFactor (value : F)
  /-- A Gauss-Newton solver was given a line search that works on a gradient. -/
  | searchMode
  /-- A solver refuses its configuration for a reason of its own. -/
  | invalid (reason : String)
  | missingOption (name : String)
  | dimensionMismatch (what : String) (expected found : Nat)

inductive SolveError (F Y A : Type) where
  | config (error : ConfigError F)
  /-- The solve ended with a status other than successful. -/
  | failed (solution : Solution Y A)

namespace SolveError
variable {F Y A : Type}

/-- The status of a raised failure. -/
def status? : SolveError F Y A → Option Status
  | config _ => none
  | failed s => some s.status

/-- The best candidate that a raised failure still carries. -/
def solution? : SolveError F Y A → Option (Solution Y A)
  | config _ => none
  | failed s => some s

end SolveError
end DualOpt
