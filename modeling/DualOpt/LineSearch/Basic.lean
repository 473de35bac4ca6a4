import DualOpt.Iteration
import DualOpt.Linear.Operator

/-!
What a line search is given and what it reports. A line search is a solver whose candidate is the
multiplier of a step.
-/
namespace DualOpt

/-- What a search measures at a multiplier: the objective, the difference of the trial point from
the current one, and the status of the measurement. -/
structure Trial (F A : Type) where
  objective : F
  diff : Vec F
  payload : A
  status : Status

/-- What an outer solver tells a search. -/
structure SearchInput (F : Type) where
  /-- The gradient; or the residual, if the search multiplies it by a Jacobian. -/
  vector : Option (Vec F) := none
  /-- The local linear model. -/
  operator : Option (Operator F) := none
  /-- A vector of the length of the differences. -/
  diff : Option (Vec F) := none
  /-- The objective at the zero step, if it is known. -/
  initialObjective : Option F := none
  /-- Whether a known objective is to be measured all the same. -/
  remeasure : Option Bool := none
  initialMultiplier : Option F := none

/-- What a search step reports: the least objective so far (none if no measurement was below
infinity) with its difference, this step's payload and status, and a multiplier to start the next
search from. -/
structure SearchReport (F A : Type) where
  runningMin : Option F
  runningMinDiff : Vec F
  payload : A
  status : Status
  nextInitial : F

end DualOpt
