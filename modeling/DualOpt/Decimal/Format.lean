import DualOpt.Decimal.Shortest

/-!
The written forms of binary floating-point numbers: the shortest decimal that reads back, a fixed
number of significant digits, and the bits.
-/
namespace DualOpt

/-- A floating-point number taken apart. A finite one is `m · 2^e` with a sign. -/
inductive Unpacked where
  | nan
  | infinite (negative : Bool)
  | finite (negative : Bool) (m : Nat) (e : Int)

/-- Takes apart a number with `fractionBits` explicit bits of fraction and the given number of
exponent bits. -/
def Unpacked.ofBits (fractionBits exponentBits bits : Nat) : Unpacked :=
  let hidden := Nat.pow 2 fractionBits
  let exponents := Nat.pow 2 exponentBits
  let fraction := bits % hidden
  let biased := bits / hidden % exponents
  let negative := bits / hidden / exponents == 1
  let bias : Int := exponents / 2 - 1 + fractionBits
  if biased = exponents - 1 then if fraction = 0 then .infinite negative else .nan
  else if biased = 0 then .finite negative fraction (1 - bias)
  else .finite negative (hidden + fraction) (biased - bias)

/-- A binary interchange format. -/
class BinaryFormat (F : Type) where
  fractionBits : Nat
  exponentBits : Nat
  /-- With this many significant digits every number reads back. -/
  places : Nat
  bits : F → Nat

instance : BinaryFormat Float := ⟨52, 11, 17, fun x => x.toBits.toNat⟩

instance : BinaryFormat Float32 := ⟨23, 8, 9, fun x => x.toBits.toNat⟩

namespace BinaryFormat
variable {F : Type} [BinaryFormat F]

def unpack (x : F) : Unpacked :=
  .ofBits (fractionBits F) (exponentBits F) (bits x)

/-- The number of bytes in the format. -/
def bytes (F : Type) [BinaryFormat F] : Nat := (1 + exponentBits F + fractionBits F) / 8

private def signed (negative : Bool) (s : String) : String := if negative then "-" ++ s else s

/-- The shortest decimal that reads back, never with an exponent; an integer has no point. -/
def shortest (x : F) : String :=
  match unpack x with
  | .nan => "NaN"
  | .infinite negative => signed negative "inf"
  | .finite negative m e =>
    if m = 0 then signed negative "0"
    else
      let (n, k) := Decimal.shortest (.ofBinary (Nat.pow 2 (fractionBits F)) m e) (places F)
      signed negative (Decimal.positional n k)

/-- The digits of the shortest decimal that reads back to a finite number, as `(n, k)` for
`n · 10^k` with the sign of the number on `n`. -/
def shortestParts (x : F) : Option (Int × Int) :=
  match unpack x with
  | .finite negative m e =>
    let (n, k) := if m = 0 then (0, 0)
      else Decimal.shortest (.ofBinary (Nat.pow 2 (fractionBits F)) m e) (places F)
    some (if negative then -(n : Int) else n, k)
  | _ => none

/-- Rounds a positive magnitude to `d` digits, ties to even: the digits and the exponent of the
first one. Rounding up to a power of ten raises the exponent. -/
def significantParts (x : Decimal.Magnitude) (d : Nat) : Nat × Int :=
  let k := x.exponent
  let n := (x.inUnits (k + 1 - d)).round
  if n = Nat.pow 10 d then (Nat.pow 10 (d - 1), k + 1) else (n, k)

/-- `d` significant digits, the first before the point, and an exponent. -/
def significant (d : Nat) (x : F) : String :=
  match unpack x with
  | .nan => "nan"
  | .infinite negative => signed negative "inf"
  | .finite negative m e =>
    let (n, k) := if m = 0 then (0, 0) else significantParts (.ofBinary m e) d
    let digits := Nat.toDigits 10 n
    let padded := digits ++ List.replicate (d - digits.length) '0'
    let fraction := if d ≤ 1 then [] else '.' :: padded.tail
    signed negative (String.ofList (padded.take 1 ++ fraction) ++ "e" ++ toString k)

/-- The bits in hexadecimal, with a digit for every four. All NaNs are written alike. -/
def hexadecimal (x : F) : String :=
  match unpack x with
  | .nan => "nan"
  | _ =>
    let digits := Nat.toDigits 16 (bits x)
    let width := (1 + exponentBits F + fractionBits F) / 4
    String.ofList (List.replicate (width - digits.length) '0' ++ digits)

end BinaryFormat
end DualOpt
