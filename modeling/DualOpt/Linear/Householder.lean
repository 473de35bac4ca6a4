import DualOpt.Fault
import DualOpt.Linear.Rows

/-!
Reduced QR factors by Householder reflections, without pivoting.

The reduction works on columns. The first column chooses a reflection, every column is reflected,
the heads of the columns are the first row of `R`, and the tails are reduced in turn. `Q` is the
product of the reflections, applied to the leading unit vectors.
-/
namespace DualOpt

namespace Householder
variable {F : Type} [Scalar F]

/-- The unit normal of the reflection that sends a vector onto its first coordinate axis, on the
side away from its first entry. There is none if the sum of squares of the vector, or of the
normal before scaling, rounds to zero. -/
def normal? (c : Vec F) : Option (Vec F) :=
  let norm := Vec.twoNorm c
  if norm == 0 then none
  else
    let head := c.headD 0
    let target := if head ≥ 0 then -norm else norm
    let v := (head - target) :: c.tail
    let vNorm := Vec.twoNorm v
    if vNorm == 0 then none else some (v.map (· / vNorm))

/-- `x - (2·(v·x))·v`; without a normal the vector stays. -/
def reflect : Option (Vec F) → Vec F → Vec F
  | none, x => x
  | some v, x =>
    let s := Vec.inner v x
    x.zipWith (fun xi vi => xi - (1 + 1) * s * vi) v

/-- The normals chosen by a matrix given by its columns, and the rows of its upper triangle. The
entries that a reflection ought to clear are dropped, whatever rounding left there. -/
def reduce : Rows F → List (Option (Vec F)) × Rows F
  | [] => ([], [])
  | c :: cs =>
    let h := normal? c
    let reflected := (c :: cs).map (reflect h)
    let (hs, r) := reduce (reflected.tail.map List.tail)
    (h :: hs, reflected.map (·.headD 0) :: r.map (0 :: ·))
termination_by cs => cs.length
decreasing_by simp

/-- The product of the reflections applied to a vector, the last reflection first. Each acts on
the coordinates from its own position on. -/
def applyProduct : List (Option (Vec F)) → Vec F → Vec F
  | [], x => x
  | h :: hs, x => reflect h (x.headD 0 :: applyProduct hs x.tail)

end Householder

/-- Factors `Q` (as many rows as the matrix, orthonormal columns) and `R` (square, upper
triangular), both by rows. -/
structure QrFactors (F : Type) where
  q : Rows F
  r : Rows F

namespace QrFactors
variable {F : Type} [Scalar F]

def rows (f : QrFactors F) : Nat := f.q.length

def columns (f : QrFactors F) : Nat := f.r.length

/-- The largest absolute pivot. -/
def maxDiagonal (f : QrFactors F) : F := Vec.maxNorm f.r.diagonal

/-- Factors a matrix with at least as many rows as columns, and rows of one length. -/
def ofRows (a : Rows F) : Except Fault (QrFactors F) :=
  let m := a.length
  let n := a.width
  if m < n then .error (.wideFactorisation m n)
  else if a.any (·.length != n) then .error .unevenRows
  else
    let (hs, r) := Householder.reduce (a.columns n)
    let q := (List.range n).map fun j => Householder.applyProduct hs (Vec.unit m j)
    .ok ⟨Rows.columns m q, r⟩

end QrFactors
end DualOpt
