import DualOpt.Scalar.Binary

/-!
Vectors as lists of scalars, with the elementwise operations that solvers combine them by.

Sums run from the left and start at zero. Two vectors of different lengths are combined up to the
shorter one.
-/
namespace DualOpt

abbrev Vec (F : Type) := List F

namespace Vec
variable {F : Type} [Scalar F]

/-- The inner product `0 + x₁y₁ + x₂y₂ + …`. -/
def inner (x y : Vec F) : F := (x.zip y).foldl (fun acc p => acc + p.1 * p.2) 0

def sumSquares (x : Vec F) : F := inner x x

def twoNorm (x : Vec F) : F := Scalar.sqrt (sumSquares x)

/-- The largest absolute entry, zero for the empty vector. NaN entries are passed over. -/
def maxNorm (x : Vec F) : F := x.foldl (fun acc a => Scalar.max acc (Scalar.abs a)) 0

/-- `a + α·x`. -/
def axpy (α : F) (x a : Vec F) : Vec F := a.zipWith (fun ai xi => ai + α * xi) x

def scale (α : F) (x : Vec F) : Vec F := x.map (α * ·)

def add (x y : Vec F) : Vec F := x.zipWith (· + ·) y

def sub (x y : Vec F) : Vec F := x.zipWith (· - ·) y

def neg (x : Vec F) : Vec F := x.map (- ·)

/-- The whole first vector if the condition holds, else the whole second one. -/
def choose (condition : Bool) (ifTrue ifFalse : Vec F) : Vec F :=
  if condition then ifTrue else ifFalse

def fill (n : Nat) (x : F) : Vec F := List.replicate n x

def zerosLike (x : Vec F) : Vec F := fill x.length 0

def allFinite (x : Vec F) : Bool := x.all Scalar.isFinite

/-- The unit vector of length `n` along coordinate `j`. -/
def unit (n j : Nat) : Vec F := (List.range n).map fun i => if i = j then 1 else 0

/-- Adds `s` times the entries of `x` to those of `a`; entries of `a` beyond `x` stay. -/
def accumulate (s : F) : Vec F → Vec F → Vec F
  | a :: as, x :: xs => (a + x * s) :: accumulate s as xs
  | as, [] => as
  | [], _ => []

/-- Subtracts `s` times the entries of `x` from those of `a`; entries of `a` beyond `x` stay. -/
def eliminate (s : F) : Vec F → Vec F → Vec F
  | a :: as, x :: xs => (a - x * s) :: eliminate s as xs
  | as, [] => as
  | [], _ => []

theorem length_eliminate (s : F) (a x : Vec F) : (eliminate s a x).length = a.length := by
  induction a generalizing x with
  | nil => cases x <;> rfl
  | cons a as ih => cases x <;> simp [eliminate, ih]

end Vec

/-- An entry of an initial guess, which need not be a scalar of the solve's own format. -/
inductive Element where
  | integer (n : Int)
  | double (x : Float)
  | single (x : Float32)

/-- The nearest double, ties to even. -/
def Element.toDouble : Element → Float
  | .integer n => Float.ofInt n
  | .double x => x
  | .single x => x.toFloat

/-- Reads a guess entry by entry through the nearest double. -/
def Vec.ofElements {F : Type} [WithinDouble F] (xs : List Element) : Vec F :=
  xs.map fun x => WithinDouble.ofDouble x.toDouble

end DualOpt
