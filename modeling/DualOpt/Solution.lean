import DualOpt.Status

/-!
What a solve returns.
-/
namespace DualOpt

/-- The steps taken, and the budget they were taken under; no budget is `none`. -/
structure Stats where
  numSteps : Nat
  maxSteps : Option Nat
  deriving DecidableEq, Repr

/-- The final candidate with its status. The payload is that of the last step, so there is none if
no step was taken. -/
structure Solution (Y A : Type) where
  value : Y
  status : Status
  payload : Option A
  stats : Stats

end DualOpt
