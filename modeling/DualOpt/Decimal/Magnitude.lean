/-!
Positive magnitudes as quotients of natural numbers, and their position on a decimal scale.
-/
namespace DualOpt.Decimal

/-- The quotient `num / den`, with a positive denominator. -/
structure Magnitude where
  num : Nat
  den : Nat

namespace Magnitude

/-- `m · 2^e`. -/
def ofBinary (m : Nat) (e : Int) : Magnitude :=
  if 0 ≤ e then ⟨m * Nat.pow 2 e.toNat, 1⟩ else ⟨m, Nat.pow 2 (-e).toNat⟩

/-- The magnitude in units of `10^k`. -/
def inUnits (x : Magnitude) (k : Int) : Magnitude :=
  if 0 ≤ k then ⟨x.num, x.den * Nat.pow 10 k.toNat⟩
  else ⟨x.num * Nat.pow 10 (-k).toNat, x.den⟩

/-- The number of decimal digits of a natural number; zero has one. -/
def digitCount (n : Nat) : Nat := (Nat.toDigits 10 n).length

/-- The exponent `k` with `10^k ≤ x < 10^(k+1)`. -/
def exponent (x : Magnitude) : Int :=
  if x.den ≤ x.num then (digitCount (x.num / x.den) : Int) - 1
  else
    let k : Int := -(digitCount (x.den / x.num) : Int)
    let next := x.inUnits (k + 1)
    if next.den ≤ next.num then k + 1 else k

/-- The nearest natural number, ties to the even one. -/
def round (x : Magnitude) : Nat :=
  let q := x.num / x.den
  let rest := 2 * (x.num % x.den)
  if rest < x.den then q
  else if x.den < rest then q + 1
  else if q % 2 = 0 then q else q + 1

end Magnitude
end DualOpt.Decimal
