import DualOpt.Adjoint
import DualOpt.Expr.Basic
import DualOpt.Problem

/-!
Problems written as expressions: one expression per output, and optionally expressions whose
values are the payload.
-/
namespace DualOpt

structure System (F : Type) where
  outputs : List (Expr F)
  payload : Option (List (Expr F)) := none

namespace System
variable {F : Type} [Elementary F]

def outputsAt (s : System F) (y t : List (Dual F)) : Except Fault (List (Dual F)) :=
  s.outputs.mapM (Expr.evaluate y t)

/-- The primal parts of the payload expressions; none if the system has no payload. -/
def payloadAt (s : System F) (y t : List (Dual F)) : Except Fault (Option (Vec F)) :=
  match s.payload with
  | none => return none
  | some es => do return some ((← es.mapM (Expr.evaluate y t)).map Dual.primal)

/-- The residual with the outputs of the system, for given parameters. -/
def residual (s : System F) (t : List (Dual F)) : Residual F (Option (Vec F)) := fun y => do
  return (← s.outputsAt y t, ← s.payloadAt y t)

/-- The objective given by the first output of the system. A system without outputs has none. -/
def objective (s : System F) (t : List (Dual F)) : Objective F (Option (Vec F)) := fun y =>
  match s.outputs with
  | [] => throw .indexOutOfRange
  | e :: _ => do return (← e.evaluate y t, ← s.payloadAt y t)

/-- The outputs as a condition on the variables and the parameters. -/
def condition (s : System F) : Condition F := s.outputsAt

end System
end DualOpt
