/-!
Faults: calls that break a precondition on sizes. A fault ends the computation it occurs in and is
never turned into a status.
-/
namespace DualOpt

/-- The broken precondition. Where two lengths disagree the first is the one found. -/
inductive Fault where
  | directionLength
  | tangentLength
  | outputDimension (found expected : Nat)
  | wideFactorisation (rows columns : Nat)
  | raggedRows (columns : Nat)
  | operatorInput (found expected : Nat)
  | identityInput
  | rightHandSide (found expected : Nat)
  | parameterTangent (found expected : Nat)
  | solutionCotangent (found expected : Nat)
  /-- A factorisation was asked for of rows that differ in length. -/
  | unevenRows
  /-- An entry outside a matrix or a vector was asked for. -/
  | indexOutOfRange
  /-- A list was asked for that no storage can hold. -/
  | storage
  /-- An unbounded run used up the range of the step counter. -/
  | stepCounter
  deriving DecidableEq, Repr

/-- The text of a fault, for the faults that have one. -/
def Fault.message : Fault → Option String
  | .directionLength => some "values and direction must have the same length"
  | .tangentLength => some "x and v must have the same length"
  | .outputDimension found expected =>
    some s!"output dimension changed between passes ({found} vs {expected})"
  | .wideFactorisation rows columns =>
    some s!"reduced QR needs at least as many rows as columns ({rows} x {columns})"
  | .raggedRows columns => some s!"all rows of a MatrixOperator must have {columns} columns"
  | .operatorInput found expected =>
    some s!"vector length ({found}) must equal operator in_size ({expected})"
  | .identityInput => some "vector length must equal identity size"
  | .rightHandSide found expected =>
    some s!"vector length ({found}) must equal the operator's output size ({expected})"
  | .parameterTangent found expected =>
    some s!"theta_dot length ({found}) must equal theta length ({expected})"
  | .solutionCotangent found expected =>
    some s!"y_bar length ({found}) must equal y length ({expected})"
  | .unevenRows => none
  | .indexOutOfRange => none
  | .storage => some "capacity overflow"
  | .stepCounter => some "attempt to add with overflow"

end DualOpt
