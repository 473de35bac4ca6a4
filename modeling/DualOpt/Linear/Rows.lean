import DualOpt.Fault
import DualOpt.Vec

/-!
Matrices given by their rows. A matrix without rows has no columns either, because only its rows
are kept.

Each entry of a product is a left fold in ascending index order. Multiplying by the transpose
builds the result row by row, which meets the operands of every entry in that same order.
-/
namespace DualOpt

abbrev Rows (F : Type) := List (Vec F)

namespace Rows
variable {F : Type} [Scalar F]

/-- The number of columns, read off the first row. -/
def width (a : Rows F) : Nat := (a.headD []).length

/-- The first `n` columns. A row that is too short counts as continued by zeros. -/
def columns : Nat → Rows F → Rows F
  | 0, _ => []
  | n + 1, a => a.map (·.headD 0) :: columns n (a.map List.tail)

/-- The transpose, with a row for each entry of the first row. Entries of a longer row are dropped;
a shorter row lacks an entry that is asked for. -/
def transpose (a : Rows F) : Except Fault (Rows F) :=
  if a.all (a.width ≤ ·.length) then .ok (columns a.width a) else .error .indexOutOfRange

def mulVec (a : Rows F) (v : Vec F) : Vec F := a.map fun row => Vec.inner row v

/-- The product of the transpose of a matrix with `n` columns and `v`, from zero by adding the
rows one after the other. -/
def transposeMulVec (a : Rows F) (v : Vec F) (n : Nat) : Vec F :=
  (a.zip v).foldl (fun out p => Vec.accumulate p.2 out p.1) (Vec.fill n 0)

/-- The entries with equal row and column index. -/
def diagonal : Rows F → Vec F
  | [] => []
  | row :: a => row.headD 0 :: diagonal (a.map List.tail)
termination_by a => a.length
decreasing_by simp

def identity (n : Nat) : Rows F := (List.range n).map (Vec.unit n)

theorem transpose_of_forall {a : Rows F} (h : ∀ row ∈ a, row.length = a.width) :
    a.transpose = .ok (columns a.width a) := by
  rw [transpose, if_pos]
  exact List.all_eq_true.mpr fun row mem => decide_eq_true (Nat.le_of_eq (h row mem).symm)

theorem length_columns (n : Nat) (a : Rows F) : (columns n a).length = n := by
  induction n generalizing a with
  | zero => rfl
  | succ n ih => simp [columns, ih]

theorem length_of_mem_columns {n : Nat} {a : Rows F} {c : Vec F} (h : c ∈ columns n a) :
    c.length = a.length := by
  induction n generalizing a with
  | zero => simp [columns] at h
  | succ n ih =>
    rcases List.mem_cons.mp h with rfl | h
    · simp
    · simpa using ih h

theorem map_headD_columns (row : Vec F) (a : Rows F) :
    (columns row.length (row :: a)).map (·.headD 0) = row := by
  induction row generalizing a with
  | nil => rfl
  | cons x row ih => simpa [columns] using ih (a.map List.tail)

theorem map_tail_columns (n : Nat) (row : Vec F) (a : Rows F) :
    (columns n (row :: a)).map List.tail = columns n a := by
  induction n generalizing row a with
  | zero => rfl
  | succ n ih => simpa [columns] using ih row.tail (a.map List.tail)

/-- The columns of the columns are the rows, if these have a common length. -/
theorem columns_columns {n : Nat} {a : Rows F} (h : ∀ row ∈ a, row.length = n) :
    columns a.length (columns n a) = a := by
  induction a with
  | nil => rfl
  | cons row a ih =>
    obtain ⟨rfl, h⟩ := List.forall_mem_cons.mp h
    simp only [List.length_cons, columns, map_headD_columns, map_tail_columns, ih h]

/-- An entry of the columns is the entry of the rows with the indices exchanged. -/
theorem getD_columns {n j : Nat} (hj : j < n) (a : Rows F) (i : Nat) :
    ((columns n a).getD j []).getD i 0 = (a.getD i []).getD j 0 := by
  induction n generalizing j a with
  | zero => omega
  | succ n ih =>
    cases j with
    | zero =>
      by_cases hi : i < a.length
      · cases hrow : a[i] <;> simp [columns, hi, hrow]
      · simp [columns, hi]
    | succ j =>
      rw [columns, List.getD_cons_succ, ih (by omega)]
      by_cases hi : i < a.length
      · cases hrow : a[i] <;> simp [hi, hrow]
      · simp [hi]

end Rows
end DualOpt
