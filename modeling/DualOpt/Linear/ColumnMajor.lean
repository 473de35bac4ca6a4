import DualOpt.Forward
import DualOpt.Linear.Operator

/-!
Matrices as one run of entries, column after column, the form in which dense storage is exchanged.
-/
namespace DualOpt

/-- The entry in row `i` and column `j` stands at position `j * height + i`. -/
structure ColumnMajor (F : Type) where
  height : Nat
  width : Nat
  entries : List F
  length_entries : entries.length = height * width

namespace ColumnMajor
variable {F : Type}

/-- The first `n` pieces of length `m`. -/
def pieces (m : Nat) : Nat → List F → List (List F)
  | 0, _ => []
  | n + 1, xs => xs.take m :: pieces m n (xs.drop m)

private theorem length_pieces (m n : Nat) (xs : List F) : (pieces m n xs).length = n := by
  induction n generalizing xs with
  | zero => rfl
  | succ n ih => simp [pieces, ih]

variable [Scalar F]

private theorem length_flatten_columns (n : Nat) (a : Rows F) :
    (Rows.columns n a).flatten.length = a.length * n := by
  induction n generalizing a with
  | zero => rfl
  | succ n ih => simp [Rows.columns, ih, Nat.mul_succ, Nat.add_comm]

/-- Takes the first `n` columns of a matrix given by its rows. -/
def ofRows (n : Nat) (a : Rows F) : ColumnMajor F :=
  ⟨a.length, n, (Rows.columns n a).flatten, length_flatten_columns n a⟩

def toRows (a : ColumnMajor F) : Rows F :=
  Rows.columns a.height (pieces a.height a.width a.entries)

def ofDense (a : Dense F) : ColumnMajor F := ofRows a.inSize a.rows

/-- A matrix that comes without rows has no columns afterwards. -/
def toDense (a : ColumnMajor F) : Dense F :=
  ⟨a.toRows, a.toRows.width, fun row h => by
    have rows_length : ∀ row ∈ a.toRows, row.length = a.width := fun row h => by
      rw [Rows.length_of_mem_columns h, length_pieces]
    rw [rows_length row h, Rows.width]
    cases rows : a.toRows with
    | nil => rw [rows] at h; cases h
    | cons first rest => exact (rows_length first (rows ▸ List.mem_cons_self)).symm⟩

end ColumnMajor

/-- Values and Jacobian of `f` at `x`, the Jacobian with a row for each output. -/
def jacobianColumnMajor {F : Type} [Scalar F] (f : List (Dual F) → Except Fault (List (Dual F)))
    (x : Vec F) : Except Fault (Vec F × ColumnMajor F) := do
  let (values, jac) ← jacobian f x
  return (values, .ofRows x.length jac)

end DualOpt
