/-!
The status of a solve. A numerical failure is a status, never a fault or an error.
-/
namespace DualOpt

inductive Status where
  | successful
  | maxStepsReached
  | nonlinearDivergence
  | singularMatrix
  deriving DecidableEq, Repr, Inhabited

namespace Status

def all : List Status := [successful, maxStepsReached, nonlinearDivergence, singularMatrix]

def isSuccessful (s : Status) : Bool := s == successful

def select (condition : Bool) (ifTrue ifFalse : Status) : Status :=
  if condition then ifTrue else ifFalse

/-- The first failure of two consecutive statuses. A later success never clears a failure. -/
def merge (s later : Status) : Status := if s.isSuccessful then later else s

/-- The name under which a status is stored. -/
def name : Status → String
  | successful => "Successful"
  | maxStepsReached => "MaxStepsReached"
  | nonlinearDivergence => "NonlinearDivergence"
  | singularMatrix => "SingularMatrix"

def ofName? (s : String) : Option Status := all.find? (·.name == s)

def message : Status → String
  | successful => "successful"
  | maxStepsReached => "maximum number of steps reached"
  | nonlinearDivergence => "nonlinear solve diverged"
  | singularMatrix => "singular matrix encountered"

theorem merge_successful (s : Status) : s.merge .successful = s := by
  cases s <;> rfl

theorem merge_assoc (a b c : Status) : (a.merge b).merge c = a.merge (b.merge c) := by
  cases a <;> rfl

end Status
end DualOpt
