import DualOpt.Fault
import DualOpt.Linear.Rows

/-!
Triangular systems with small pivots cut.

A component whose pivot is at most the cutoff in magnitude is set to zero, and its equation is not
used. Every other component is found by substitution, subtracting the known terms in ascending
order of their index. A row need not be complete: only an entry that is read and missing is a fault.
-/
namespace DualOpt.Triangular

variable {F : Type} [Scalar F]

/-- Whether a pivot is too small to divide by. -/
def isCut (cutoff pivot : F) : Bool := Scalar.abs pivot ≤ cutoff

/-- Solves an upper triangular system from its last equation up. Below the first row, the first
column is not read. -/
def backSubstitute (cutoff : F) : Vec F → Rows F → Vec F
  | [], _ => []
  | b :: bs, r =>
    let row := r.headD []
    let pivot := row.headD 0
    let xs := backSubstitute cutoff bs (r.tail.map List.tail)
    let x := if isCut cutoff pivot then 0
      else (row.tail.zip xs).foldl (fun acc p => acc - p.1 * p.2) b / pivot
    x :: xs

/-- Solves the transposed system of an upper triangular matrix from its first equation down. Each
component found is at once subtracted from the equations that remain. -/
def forwardSubstitute (cutoff : F) : Vec F → Rows F → Vec F
  | [], _ => []
  | b :: bs, r =>
    let row := r.headD []
    let pivot := row.headD 0
    let x := if isCut cutoff pivot then 0 else b / pivot
    x :: forwardSubstitute cutoff (Vec.eliminate x bs row.tail) (r.tail.map List.tail)
termination_by b => b.length
decreasing_by simp only [Vec.length_eliminate, List.length_cons]; omega

/-- Whether the rows have the entries that back substitution reads: every row its pivot, and a row
whose pivot is not cut also an entry for every later row. -/
def servesBack (cutoff : F) : Rows F → Bool
  | [] => true
  | [] :: _ => false
  | (pivot :: above) :: rows =>
    (isCut cutoff pivot || rows.length ≤ above.length) && servesBack cutoff (rows.map List.tail)
termination_by r => r.length
decreasing_by simp only [List.length_map, List.length_attach, List.length_cons]; omega

/-- Whether the rows have the entries that forward substitution reads: every row its pivot, and
also an entry for every later row whose pivot is not cut. -/
def servesForward (cutoff : F) : Rows F → Bool
  | [] => true
  | [] :: _ => false
  | (_ :: above) :: rows =>
    let later := rows.map List.tail
    ((Rows.diagonal later).drop above.length).all (isCut cutoff) && servesForward cutoff later
termination_by r => r.length
decreasing_by simp only [List.length_map, List.length_attach, List.length_cons]; omega

/-- The solution of `R·x = b`. -/
def solveUpper (r : Rows F) (b : Vec F) (cutoff : F) : Except Fault (Vec F) :=
  if b.length = r.length && servesBack cutoff r then .ok (backSubstitute cutoff b r)
  else .error .indexOutOfRange

/-- The solution of `Rᵀ·x = b`. -/
def solveUpperTranspose (r : Rows F) (b : Vec F) (cutoff : F) : Except Fault (Vec F) :=
  if b.length = r.length && servesForward cutoff r then .ok (forwardSubstitute cutoff b r)
  else .error .indexOutOfRange

end DualOpt.Triangular
