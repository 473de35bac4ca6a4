import DualOpt.Scalar.Basic

/-!
Dual numbers `primal + tangent·ε` with `ε² = 0`, and their arithmetic.

An operation's primal part is the scalar operation on the primal parts, so tangents never reach a
value; its tangent part is the differentiation rule. Comparisons look at primal parts alone.
-/
namespace DualOpt

/-- A value together with its derivative along one direction. -/
structure Dual (F : Type) where
  primal : F
  tangent : F
  deriving Inhabited

namespace Dual
variable {F : Type} [Scalar F]

/-- A number that does not change: its derivative is zero. -/
def constant (x : F) : Dual F := ⟨x, 0⟩

/-- The variable of differentiation: its derivative is one. -/
def seed (x : F) : Dual F := ⟨x, 1⟩

def constants (xs : List F) : List (Dual F) := xs.map constant

/-- The chain rule: `value` and `slope` are those of a function at the primal part. -/
def chain (d : Dual F) (value slope : F) : Dual F := ⟨value, d.tangent * slope⟩

def isFinite (d : Dual F) : Bool := Scalar.isFinite d.primal && Scalar.isFinite d.tangent

instance : Add (Dual F) := ⟨fun a b => ⟨a.primal + b.primal, a.tangent + b.tangent⟩⟩

instance : Sub (Dual F) := ⟨fun a b => ⟨a.primal - b.primal, a.tangent - b.tangent⟩⟩

instance : Mul (Dual F) :=
  ⟨fun a b => ⟨a.primal * b.primal, a.primal * b.tangent + a.tangent * b.primal⟩⟩

/-- Division multiplies by the reciprocal of the divisor. -/
instance : Div (Dual F) := ⟨fun a b =>
  let inv := 1 / b.primal
  ⟨a.primal * inv, (a.tangent * b.primal - a.primal * b.tangent) * inv * inv⟩⟩

instance : Neg (Dual F) := ⟨fun a => ⟨-a.primal, -a.tangent⟩⟩

/-- The sum from the left, starting at the constant zero. -/
def sum (ds : List (Dual F)) : Dual F := ds.foldl (· + ·) (constant 0)

instance : HAdd (Dual F) F (Dual F) := ⟨fun d c => ⟨d.primal + c, d.tangent⟩⟩

instance : HAdd F (Dual F) (Dual F) := ⟨fun c d => ⟨c + d.primal, d.tangent⟩⟩

instance : HSub (Dual F) F (Dual F) := ⟨fun d c => ⟨d.primal - c, d.tangent⟩⟩

instance : HSub F (Dual F) (Dual F) := ⟨fun c d => ⟨c - d.primal, -d.tangent⟩⟩

instance : HMul (Dual F) F (Dual F) := ⟨fun d c => ⟨d.primal * c, d.tangent * c⟩⟩

instance : HMul F (Dual F) (Dual F) := ⟨fun c d => ⟨c * d.primal, c * d.tangent⟩⟩

instance : HDiv (Dual F) F (Dual F) := ⟨fun d c =>
  let inv := 1 / c
  ⟨d.primal * inv, d.tangent * inv⟩⟩

instance : HDiv F (Dual F) (Dual F) := ⟨fun c d =>
  let inv := 1 / d.primal
  ⟨c * inv, -c * d.tangent * inv * inv⟩⟩

instance : LT (Dual F) := ⟨fun a b => a.primal < b.primal⟩

instance : LE (Dual F) := ⟨fun a b => a.primal ≤ b.primal⟩

instance : BEq (Dual F) := ⟨fun a b => a.primal == b.primal⟩

instance : DecidableLT (Dual F) := fun a b => inferInstanceAs (Decidable (a.primal < b.primal))

instance : DecidableLE (Dual F) := fun a b => inferInstanceAs (Decidable (a.primal ≤ b.primal))

/-- The order of the primal parts, if they are comparable. -/
def compare? (a b : Dual F) : Option Ordering :=
  if a == b then some .eq
  else if a < b then some .lt
  else if b < a then some .gt
  else none

end Dual
end DualOpt
