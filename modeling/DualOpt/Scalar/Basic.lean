/-!
Scalars: the arithmetic this library is written over.

`Scalar` asks for operations and for no laws, so one definition of an algorithm has a meaning in
binary floating point and in exact real arithmetic. Every sum in the library is a left fold in a
stated order, because without laws the order is part of the result.
-/
namespace DualOpt

/-- Arithmetic, order and the few tests the algorithms need. No law is assumed. -/
class Scalar (F : Type) extends Zero F, One F, Add F, Sub F, Mul F, Div F, Neg F,
    LT F, LE F, BEq F, IntCast F, OfScientific F where
  decLT : DecidableLT F
  decLE : DecidableLE F
  sqrt : F → F
  abs : F → F
  /-- One with the sign of the argument; a signed zero keeps its sign. -/
  signum : F → F
  /-- The larger argument. A NaN is ignored when the other argument is a number. -/
  max : F → F → F
  isFinite : F → Bool
  isNaN : F → Bool
  /-- The value of a quantity that has not been measured yet. -/
  infinity : F
  /-- Whether a measured value lies strictly below `infinity`. -/
  belowInfinity : F → Bool
  /-- The gap between one and the next larger scalar. -/
  epsilon : F

attribute [reducible, instance] Scalar.decLT Scalar.decLE

/-- The elementary functions, again without laws. -/
class Elementary (F : Type) extends Scalar F where
  exp : F → F
  log : F → F
  /-- The logarithm of one plus the argument. -/
  log1p : F → F
  sin : F → F
  cos : F → F
  tan : F → F
  atan : F → F
  tanh : F → F
  pow : F → F → F
  /-- The length of the vector with these two coordinates. -/
  hypot : F → F → F

namespace Scalar
variable {F : Type} [Scalar F]

/-- Multiplies `r` by the `n`-th power of `a`, reading the binary digits of `n` from the lowest
and squaring `a` once for each further digit. -/
def powNat (r a : F) (n : Nat) : F :=
  let r := if n % 2 = 1 then r * a else r
  if n / 2 = 0 then r else powNat r (a * a) (n / 2)
termination_by n
decreasing_by omega

/-- An integer power by repeated squaring. A negative exponent takes the reciprocal last. -/
def powInt (a : F) (n : Int) : F :=
  let p := powNat 1 a n.natAbs
  if n < 0 then 1 / p else p

end Scalar
end DualOpt
