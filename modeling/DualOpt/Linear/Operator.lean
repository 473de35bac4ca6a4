import DualOpt.Storage

/-!
Linear operators: dense matrices, whose rows have a common length, and identities.
-/
namespace DualOpt

/-- A matrix with its number of columns, which its rows alone would not show if there are none. -/
structure Dense (F : Type) where
  rows : Rows F
  inSize : Nat
  rectangular : ∀ row ∈ rows, row.length = inSize

namespace Dense
variable {F : Type}

theorem width_eq (a : Dense F) {row : Vec F} (h : row ∈ a.rows) : row.length = a.rows.width := by
  cases rows : a.rows with
  | nil => rw [rows] at h; cases h
  | cons first rest =>
    rw [a.rectangular row h, Rows.width]
    exact (a.rectangular first (rows ▸ List.mem_cons_self)).symm

variable [Scalar F]

/-- Accepts rows of one common length. -/
def ofRows (a : Rows F) : Except Fault (Dense F) :=
  if h : ∀ row ∈ a, row.length = a.width then .ok ⟨a, a.width, h⟩
  else .error (.raggedRows a.width)

def transpose (a : Dense F) : Dense F :=
  ⟨a.rows.columns a.rows.width, a.rows.length, fun _ h => Rows.length_of_mem_columns h⟩

/-- Rows of a common length have all the entries that a transpose asks for. -/
theorem transpose_rows (a : Dense F) : a.rows.transpose = .ok a.transpose.rows :=
  Rows.transpose_of_forall fun _ h => a.width_eq h

end Dense

inductive Operator (F : Type) where
  | dense (matrix : Dense F)
  | identity (size : Nat)

namespace Operator
variable {F : Type} [Scalar F]

def inSize : Operator F → Nat
  | dense a => a.inSize
  | identity n => n

def outSize : Operator F → Nat
  | dense a => a.rows.length
  | identity n => n

/-- Applies the operator to a vector of its input size. -/
def mulVec : Operator F → Vec F → Except Fault (Vec F)
  | dense a, v =>
    if v.length = a.inSize then .ok (a.rows.mulVec v)
    else .error (.operatorInput v.length a.inSize)
  | identity n, v => if v.length = n then .ok v else .error .identityInput

/-- The operator as a matrix, if that can be stored. -/
def toRows : Operator F → Except Fault (Rows F)
  | dense a => .ok a.rows
  | identity n => do
    Storage.reserve n Storage.listBytes
    return Rows.identity n

def transpose : Operator F → Operator F
  | dense a => dense a.transpose
  | identity n => identity n

end Operator
end DualOpt
