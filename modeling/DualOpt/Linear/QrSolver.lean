import DualOpt.Linear.Householder
import DualOpt.Linear.Operator
import DualOpt.Linear.Triangular
import DualOpt.Status

/-!
Linear solves through QR factors that are computed once and used for many right-hand sides.

A tall or square system is solved by `R⁻¹ Qᵀ`, a wide one through the factors of its transpose by
`Q R⁻ᵀ`. Pivots that are small against the largest one are cut in both directions.
-/
namespace DualOpt

/-- Factors of a matrix with at least as many rows as columns, and whether the system to solve is
the transpose of that matrix. -/
structure Factored (F : Type) where
  factors : QrFactors F
  transposed : Bool

namespace Factored
variable {F : Type} [Scalar F]

/-- The length of a right-hand side. -/
def inSize (s : Factored F) : Nat :=
  if s.transposed then s.factors.columns else s.factors.rows

/-- The transposed system, on the same factors. -/
def transpose (s : Factored F) : Factored F := ⟨s.factors, !s.transposed⟩

/-- Whether two states rest on the same factors, bit for bit. -/
def sharesFactorsWith [BinaryFormat F] (s t : Factored F) : Bool :=
  let bits (f : QrFactors F) := (f.q.map (·.map BinaryFormat.bits), f.r.map (·.map BinaryFormat.bits))
  bits s.factors == bits t.factors

end Factored

/-- A QR-based solver. A pivot counts as small if it is at most `rcond` times the largest one;
without a value, `rcond` is `epsilon` times the larger dimension. -/
structure QrSolver (F : Type) where
  rcond : Option F := none

namespace QrSolver
variable {F : Type} [Scalar F]

def cutoff (solver : QrSolver F) (f : QrFactors F) : F :=
  let dimension : Int := Nat.max f.rows f.columns
  solver.rcond.getD (Scalar.epsilon * (dimension : F)) * f.maxDiagonal

def factor (_ : QrSolver F) (operator : Operator F) : Except Fault (Factored F) := do
  let a ← operator.toRows
  if operator.inSize > operator.outSize then
    return ⟨← QrFactors.ofRows (← a.transpose), true⟩
  else
    return ⟨← QrFactors.ofRows a, false⟩

/-- Solves for one right-hand side. A cut pivot is not a failure, so the status is always
successful. -/
def solve (solver : QrSolver F) (s : Factored F) (b : Vec F) : Except Fault (Vec F × Status) := do
  if b.length ≠ s.inSize then throw (.rightHandSide b.length s.inSize)
  let f := s.factors
  let cutoff := solver.cutoff f
  if s.transposed then
    return (f.q.mulVec (← Triangular.solveUpperTranspose f.r b cutoff), .successful)
  else
    let rotated := f.q.transposeMulVec b f.columns
    return (← Triangular.solveUpper f.r rotated cutoff, .successful)

/-- Every pivot is handled, so a singular operator is accepted. -/
def acceptsSingular (_ : QrSolver F) : Bool := true

end QrSolver
end DualOpt
