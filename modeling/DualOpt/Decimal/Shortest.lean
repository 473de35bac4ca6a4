import DualOpt.Decimal.Magnitude

/-!
The shortest decimal that reads back to a binary floating-point number.

A decimal reads back to `m · 2^e` if it lies between the midpoints to the two neighbours; a
midpoint itself counts if `m` is even. The gap below a power of two is half the gap above it. The
coarsest decimal grid that meets this interval is found by trying one digit more at a time.
-/
namespace DualOpt.Decimal

/-- The interval of decimals that read back to a number, in quarters of its last place. -/
structure Readback where
  below : Magnitude
  value : Magnitude
  above : Magnitude
  closed : Bool

/-- The interval of `m · 2^e`. If `m` is `powerOfTwo`, the neighbour below is nearer. -/
def Readback.ofBinary (powerOfTwo m : Nat) (e : Int) : Readback :=
  let gap := if m = powerOfTwo then 1 else 2
  ⟨.ofBinary (4 * m - gap) (e - 2), .ofBinary (4 * m) (e - 2), .ofBinary (4 * m + 2) (e - 2),
    m % 2 == 0⟩

/-- The multiple of `10^k` in the interval that is nearest to the number, in units of `10^k`. Of
two equally near ones it is the larger. -/
def Readback.onGrid (r : Readback) (k : Int) : Option Nat :=
  let low := r.below.inUnits k
  let x := r.value.inUnits k
  let high := r.above.inUnits k
  let q := x.num / x.den
  let floorFits := if r.closed then low.num ≤ q * low.den else low.num < q * low.den
  let ceilFits :=
    if r.closed then (q + 1) * high.den ≤ high.num else (q + 1) * high.den < high.num
  if floorFits && !(ceilFits && (2 * q + 1) * x.den ≤ 2 * x.num) then some q
  else if ceilFits then some (q + 1)
  else none

/-- Digits and exponent `(n, k)` of the shortest decimal `n · 10^k`, with at most `places` digits. -/
def shortest (r : Readback) (places : Nat) : Nat × Int :=
  let top := r.value.exponent + 1
  let grids := (List.range (places + 1)).map fun (i : Nat) => top - i
  (grids.findSome? fun k => (r.onGrid k).map (·, k)).getD (0, 0)

/-- A decimal `n · 10^k` written without an exponent. -/
def positional (n : Nat) (k : Int) : String :=
  let digits := Nat.toDigits 10 n
  if 0 ≤ k then String.ofList (digits ++ List.replicate k.toNat '0')
  else
    let places := (-k).toNat
    let padded := List.replicate (places + 1 - digits.length) '0' ++ digits
    String.ofList (padded.take (padded.length - places) ++ '.' :: padded.drop (padded.length - places))

end DualOpt.Decimal
