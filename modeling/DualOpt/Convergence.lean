import DualOpt.Vec

/-!
The convergence test on a step and on the change of the objective, each relative to
`atol + rtol·|·|` entry by entry.
-/
namespace DualOpt

inductive NormKind where
  | max
  | two
  deriving DecidableEq, Repr, Inhabited

namespace NormKind

def apply {F : Type} [Scalar F] : NormKind → Vec F → F
  | max => Vec.maxNorm
  | two => Vec.twoNorm

def all : List NormKind := [max, two]

/-- The name under which a norm is stored. -/
def name : NormKind → String
  | max => "Max"
  | two => "Two"

def ofName? (s : String) : Option NormKind := all.find? (·.name == s)

end NormKind

structure Convergence (F : Type) where
  rtol : F
  atol : F
  norm : NormKind := .max

namespace Convergence
variable {F : Type}

/-- Both tolerances at the usual value for the precision, in the largest-entry norm. -/
def standard [Precision F] : Convergence F := ⟨Precision.tolerance, Precision.tolerance, .max⟩

variable [Scalar F]

/-- Whether the scaled change is below one. A comparison with NaN does not hold. -/
def small (c : Convergence F) (x change : Vec F) : Bool :=
  let scaled := x.zipWith (fun xi di => di / (c.atol + c.rtol * Scalar.abs xi)) change
  c.norm.apply scaled < 1

/-- Whether both the step and the change of the objective are small. -/
def converged (c : Convergence F) (y yChange f fChange : Vec F) : Bool :=
  c.small y yChange && c.small f fChange

end Convergence
end DualOpt
