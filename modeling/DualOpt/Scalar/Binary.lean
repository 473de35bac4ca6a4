import DualOpt.Scalar.Basic

/-!
Double and single precision as scalars, and the settings that depend on the precision.

Arithmetic, comparison and square root are the correctly rounded operations of the format. The
elementary functions are only as accurate as the platform's and carry no promise about the last
digit.
-/
namespace DualOpt

namespace Double

/-- Plus or minus one by the sign bit; NaN stays NaN. -/
def signum (x : Float) : Float :=
  if x.isNaN then x else if x.toBits < 0x8000000000000000 then 1 else -1

def max (x y : Float) : Float :=
  if y.isNaN then x else if x.isNaN then y else if x < y then y else x

/-- The logarithm of `1 + x`. The quotient repairs the rounding of `1 + x`. -/
def log1p (x : Float) : Float :=
  let u := 1 + x
  if u == 1 then x
  else if u.isInf then u.log
  else u.log * (x / (u - 1))

/-- The power of two with exponent 600. -/
def large : Float := Float.ofBits 0x6570000000000000

/-- The power of two with exponent -600. -/
def small : Float := Float.ofBits 0x1a70000000000000

/-- Lengths from this on, the power of two with exponent 500, are scaled down. -/
def longest : Float := Float.ofBits 0x5f30000000000000

/-- Lengths below this, the power of two with exponent -500, are scaled up. -/
def shortest : Float := Float.ofBits 0x20b0000000000000

/-- The length of `(x, y)`. Where a square could leave the range, both coordinates are first scaled
by a power of two. Even the largest and the least positive double have, so scaled, a square that
is in range. -/
def hypot (x y : Float) : Float :=
  let longer := max x.abs y.abs
  if x.isInf || y.isInf then 1 / 0
  else if longer < shortest then (x * large * (x * large) + y * large * (y * large)).sqrt * small
  else if longest ≤ longer then (x * small * (x * small) + y * small * (y * small)).sqrt * large
  else (x * x + y * y).sqrt

end Double

namespace Single

/-- Plus or minus one by the sign bit; NaN stays NaN. -/
def signum (x : Float32) : Float32 :=
  if x.isNaN then x else if x.toBits < 0x80000000 then 1 else -1

def max (x y : Float32) : Float32 :=
  if y.isNaN then x else if x.isNaN then y else if x < y then y else x

end Single

instance : Scalar Float where
  zero := 0
  one := 1
  toAdd := inferInstance
  toSub := inferInstance
  toMul := inferInstance
  toDiv := inferInstance
  toNeg := inferInstance
  toLT := inferInstance
  toLE := inferInstance
  toBEq := inferInstance
  intCast := Float.ofInt
  toOfScientific := inferInstance
  decLT := inferInstance
  decLE := inferInstance
  sqrt := Float.sqrt
  abs := Float.abs
  signum := Double.signum
  max := Double.max
  isFinite := Float.isFinite
  isNaN := Float.isNaN
  infinity := 1 / 0
  belowInfinity x := x < 1 / 0
  epsilon := Float.ofBits 0x3cb0000000000000

instance : Elementary Float where
  exp := Float.exp
  log := Float.log
  log1p := Double.log1p
  sin := Float.sin
  cos := Float.cos
  tan := Float.tan
  atan := Float.atan
  tanh := Float.tanh
  pow := Float.pow
  hypot := Double.hypot

instance : Scalar Float32 where
  zero := 0
  one := 1
  toAdd := inferInstance
  toSub := inferInstance
  toMul := inferInstance
  toDiv := inferInstance
  toNeg := inferInstance
  toLT := inferInstance
  toLE := inferInstance
  toBEq := inferInstance
  intCast n := (Float.ofInt n).toFloat32
  toOfScientific := inferInstance
  decLT := inferInstance
  decLE := inferInstance
  sqrt := Float32.sqrt
  abs := Float32.abs
  signum := Single.signum
  max := Single.max
  isFinite := Float32.isFinite
  isNaN := Float32.isNaN
  infinity := 1 / 0
  belowInfinity x := x < 1 / 0
  epsilon := Float32.ofBits 0x34000000

instance : Elementary Float32 where
  exp := Float32.exp
  log := Float32.log
  log1p x := (Double.log1p x.toFloat).toFloat32
  sin := Float32.sin
  cos := Float32.cos
  tan := Float32.tan
  atan := Float32.atan
  tanh := Float32.tanh
  pow := Float32.pow
  hypot x y := (Double.hypot x.toFloat y.toFloat).toFloat32

/-- Settings whose usual value depends on the precision of the scalars. -/
class Precision (F : Type) where
  /-- The relative and the absolute convergence tolerance. -/
  tolerance : F
  /-- How many trial points a line search may spend. -/
  searchSteps : Nat

instance : Precision Float := ⟨1e-8, 32⟩

instance : Precision Float32 := ⟨1e-5, 24⟩

/-- A scalar format that is part of double precision. -/
class WithinDouble (F : Type) where
  /-- The nearest scalar, ties to even. -/
  ofDouble : Float → F
  /-- The double of the same value. -/
  toDouble : F → Float

instance : WithinDouble Float := ⟨id, id⟩

instance : WithinDouble Float32 := ⟨Float.toFloat32, Float32.toFloat⟩

end DualOpt
