import Mathlib.Logic.Function.Iterate
import DualOpt.Proofs.Linear.DirectTranspose

/-!
The sizes of an operator through any number of transposes.

A dense operator keeps the number of its columns beside its rows, so its transpose has the right
sizes even if no row is left. It does not go on from there: the columns of a matrix without rows are
no longer to be seen in it, and neither a transpose nor a factorisation looks at the number beside
them.
-/
namespace DualOpt

variable {F : Type} [Scalar F]

namespace Operator

/-- There are columns, but no row that would show them. -/
def Rowless (op : Operator F) : Prop := op.outSize = 0 ∧ op.inSize ≠ 0

/-- Every call on vectors of the right size returns. What is applied has the output size, and what
is solved for has the input size unless the operator is rowless. -/
structure Answers (op : Operator F) : Prop where
  applies : ∀ v, v.length = op.inSize → ∃ w, op.mulVec v = .ok w ∧ w.length = op.outSize
  solves : ∀ (solver : QrSolver F) (rows : Rows F), op.toRows = .ok rows →
    ∃ s, solver.factor op = .ok s ∧ ∀ b, b.length = op.outSize →
      ∃ x, solver.solve s b = .ok (x, .successful) ∧ (x.length = op.inSize ↔ ¬ op.Rowless)

/-- Transposed twice, the operator has its sizes and its matrix again. -/
structure Restored (op : Operator F) : Prop where
  inSize : op.transpose.transpose.inSize = op.inSize
  outSize : op.transpose.transpose.outSize = op.outSize
  rows : op.transpose.transpose.toRows = op.toRows

end Operator

namespace Dense

def identity (n : Nat) : Dense F :=
  ⟨Rows.identity n, n, fun row hrow => by
    obtain ⟨j, -, rfl⟩ := List.mem_map.mp hrow
    exact Vec.length_unit n j⟩

theorem length_identity (n : Nat) : (identity n : Dense F).rows.length = n := by
  simp [identity, Rows.identity]

omit [Scalar F] in
/-- The first row shows the number of columns, unless there is none. -/
theorem width_eq_inSize_iff (a : Dense F) :
    a.rows.width = a.inSize ↔ (a.rows = [] → a.inSize = 0) := by
  constructor
  · intro width empty
    rw [← width, empty]
    rfl
  · intro shown
    by_cases empty : a.rows = []
    · rw [shown empty, empty]
      rfl
    · exact a.width_rows empty

theorem rows_transpose_of_empty {a : Dense F} (empty : a.rows = []) : a.transpose.rows = [] := by
  change a.rows.columns a.rows.width = []
  rw [empty]
  rfl

end Dense

namespace Operator

theorem inSize_transpose (op : Operator F) : op.transpose.inSize = op.outSize := by
  cases op <;> rfl

omit [Scalar F] in
theorem not_rowless_identity (n : Nat) : ¬ (identity n : Operator F).Rowless :=
  fun h => h.2 h.1

omit [Scalar F] in
theorem not_rowless_dense_iff (a : Dense F) :
    ¬ (dense a).Rowless ↔ a.rows.width = a.inSize := by
  rw [a.width_eq_inSize_iff, Rowless, not_and, not_ne_iff]
  exact imp_congr_left List.length_eq_zero_iff

theorem outSize_transpose_iff (op : Operator F) :
    op.transpose.outSize = op.inSize ↔ ¬ op.Rowless := by
  cases op with
  | identity n => exact iff_of_true rfl (not_rowless_identity n)
  | dense a =>
    have height : (dense a).transpose.outSize = a.rows.width := Rows.length_columns _ a.rows
    rw [height, not_rowless_dense_iff]
    rfl

end Operator

namespace QrSolver
variable (solver : QrSolver F)

/-- An identity that can be stored is factored as its matrix is. -/
theorem factor_identity {n : Nat} {rows : Rows F}
    (stored : (Operator.identity n).toRows = .ok rows) :
    solver.factor (.identity n) = solver.factor (.dense (Dense.identity n)) := by
  have hrows : (Operator.identity n).toRows = .ok (Rows.identity n : Rows F) := by
    obtain ⟨_, reserved, -⟩ := bind_eq_ok_iff.mp stored
    rw [Operator.toRows, reserved]
    rfl
  have same : (Operator.dense (Dense.identity n : Dense F)).outSize = n := Dense.length_identity n
  rw [factor, factor, hrows, same]
  rfl

/-- A matrix without rows has factors without columns, whatever its number of columns, and they
solve for a vector without entries. -/
theorem exists_factor_solve_of_empty {a : Dense F} (empty : a.rows = [])
    (inhabited : a.inSize ≠ 0) :
    ∃ s, solver.factor (.dense a) = .ok s ∧ solver.solve s [] = .ok ([], .successful) := by
  have wide : a.rows.length < a.inSize := by
    rw [empty]
    exact Nat.pos_of_ne_zero inhabited
  have shaped : (⟨[], []⟩ : QrFactors F).Shaped 0 0 :=
    ⟨rfl, List.forall_mem_nil _, rfl, List.forall_mem_nil _⟩
  refine ⟨⟨⟨[], []⟩, true⟩, ?_, solver.solve_transposed shaped rfl⟩
  rw [solver.factor_wide wide, Dense.rows_transpose_of_empty empty,
    QrFactors.ofRows_eq (n := 0) rfl (List.forall_mem_nil _) (Nat.le_refl 0)]
  simp [Rows.columns, Householder.reduce]

end QrSolver

namespace Operator

theorem answers (op : Operator F) : op.Answers where
  applies v hv := by
    cases op with
    | identity n => exact ⟨v, if_pos hv, hv⟩
    | dense a => exact ⟨a.rows.mulVec v, if_pos hv, Rows.length_mulVec a.rows v⟩
  solves solver rows rendered := by
    cases op with
    | identity n =>
      have width : (Dense.identity n : Dense F).rows.width = n :=
        (Dense.identity n).width_eq_inSize_iff.mpr fun empty =>
          (Dense.length_identity n).symm.trans (List.length_eq_zero_iff.mpr empty)
      obtain ⟨s, hs, solves⟩ := solver.exists_factor_solve width
      refine ⟨s, (solver.factor_identity rendered).trans hs, fun b hb => ?_⟩
      obtain ⟨x, hx, length⟩ := solves b (hb.trans (Dense.length_identity n).symm)
      exact ⟨x, hx, iff_of_true length (not_rowless_identity n)⟩
    | dense a =>
      by_cases rowless : (dense a).Rowless
      · obtain ⟨s, hs, solves⟩ := solver.exists_factor_solve_of_empty
          (List.length_eq_zero_iff.mp rowless.1) rowless.2
        refine ⟨s, hs, fun b hb => ⟨[], ?_, ?_⟩⟩
        · obtain rfl := List.length_eq_zero_iff.mp (hb.trans rowless.1)
          exact solves
        · exact iff_of_false (Ne.symm rowless.2) (not_not_intro rowless)
      · obtain ⟨s, hs, solves⟩ := solver.exists_factor_solve
          ((not_rowless_dense_iff a).mp rowless)
        refine ⟨s, hs, fun b hb => ?_⟩
        obtain ⟨x, hx, length⟩ := solves b hb
        exact ⟨x, hx, iff_of_true length rowless⟩

/-- What is rowless has lost the number of its columns after one transpose, and has no size left. -/
theorem outSize_transpose_of_rowless {op : Operator F} (rowless : op.Rowless) :
    op.transpose.outSize = 0 := by
  cases op with
  | identity n => exact absurd rowless (not_rowless_identity n)
  | dense a =>
    have empty := Dense.rows_transpose_of_empty (List.length_eq_zero_iff.mp rowless.1)
    exact congrArg List.length empty

theorem rowless_transpose_iff (op : Operator F) :
    op.transpose.Rowless ↔ op.inSize = 0 ∧ op.outSize ≠ 0 := by
  by_cases rowless : op.Rowless
  · refine iff_of_false (fun h => h.2 ?_) (fun h => rowless.2 h.1)
    exact (inSize_transpose op).trans rowless.1
  · rw [Rowless, inSize_transpose, op.outSize_transpose_iff.mpr rowless]

theorem not_rowless_transpose_transpose (op : Operator F) : ¬ op.transpose.transpose.Rowless := by
  rw [rowless_transpose_iff, inSize_transpose]
  rintro ⟨empty, rows⟩
  by_cases rowless : op.Rowless
  · exact rows (outSize_transpose_of_rowless rowless)
  · rw [op.outSize_transpose_iff.mpr rowless] at rows
    exact rowless ⟨empty, rows⟩

/-- An operator without columns loses its rows with the first transpose, and finds them never
again. Apart from this no transpose leaves a rowless operator. -/
theorem rowless_iterate_iff (op : Operator F) (k : ℕ) :
    (transpose^[k] op).Rowless ↔
      k = 0 ∧ op.Rowless ∨ k = 1 ∧ op.inSize = 0 ∧ op.outSize ≠ 0 := by
  rcases k with _ | _ | k
  · simp
  · simpa using rowless_transpose_iff op
  · rw [Function.iterate_succ_apply', Function.iterate_succ_apply']
    exact iff_of_false (not_rowless_transpose_transpose _) (by omega)

theorem toRows_transpose_transpose {op : Operator F} (rowless : ¬ op.Rowless)
    (rowless' : ¬ op.transpose.Rowless) : op.transpose.transpose.toRows = op.toRows := by
  cases op with
  | identity n => rfl
  | dense a =>
    rw [rowless_transpose_iff] at rowless'
    by_cases empty : a.rows = []
    · have empty' := Dense.rows_transpose_of_empty (Dense.rows_transpose_of_empty empty)
      exact congrArg Except.ok (empty'.trans empty.symm)
    · have inhabited : a.inSize ≠ 0 := fun zero =>
        rowless' ⟨zero, mt List.length_eq_zero_iff.mp empty⟩
      exact congrArg (fun a => Except.ok a.rows) (a.transpose_transpose empty inhabited)

theorem restored_iff (op : Operator F) :
    op.Restored ↔ ¬ op.Rowless ∧ ¬ op.transpose.Rowless := by
  constructor
  · intro restored
    refine ⟨(op.outSize_transpose_iff).mp ?_, (op.transpose.outSize_transpose_iff).mp ?_⟩
    · rw [← inSize_transpose, restored.inSize]
    · rw [inSize_transpose, restored.outSize]
  · rintro ⟨rowless, rowless'⟩
    constructor
    · rw [inSize_transpose, op.outSize_transpose_iff.mpr rowless]
    · rw [op.transpose.outSize_transpose_iff.mpr rowless', inSize_transpose]
    · exact toRows_transpose_transpose rowless rowless'

/-- After any number of transposes every call returns. A transpose exchanges the sizes unless the
operator is rowless, two of them restore it unless it or its transpose is, and only two operators
of a run can be: the one that it starts from, and the transpose of one without columns. -/
theorem shape_after_transposes (op : Operator F) (k : ℕ) :
    let now := transpose^[k] op
    now.Answers ∧ now.transpose.inSize = now.outSize ∧
      (now.transpose.outSize = now.inSize ↔ ¬ now.Rowless) ∧
      (now.Restored ↔ ¬ now.Rowless ∧ ¬ now.transpose.Rowless) ∧
      (now.Rowless ↔ k = 0 ∧ op.Rowless ∨ k = 1 ∧ op.inSize = 0 ∧ op.outSize ≠ 0) :=
  ⟨answers _, inSize_transpose _, outSize_transpose_iff _, restored_iff _, rowless_iterate_iff op k⟩

/-- Three rows without entries, as they are accepted. -/
def threeEmpty : Dense F := ⟨[[], [], []], 0, by simp⟩

/-- The transpose of three empty rows has three columns and no row, and its factors solve for a
vector without entries instead of three. -/
theorem shape_after_transposes_threeEmpty :
    (dense threeEmpty : Operator Float).transpose.inSize = 3 ∧
      (∃ w, (dense threeEmpty : Operator Float).transpose.mulVec [1, 2, 3] = .ok w ∧
        w.length = 0) ∧
      ∃ s x, (⟨none⟩ : QrSolver Float).factor (dense threeEmpty).transpose = .ok s ∧
        (⟨none⟩ : QrSolver Float).solve s [] = .ok (x, .successful) ∧ x.length ≠ 3 := by
  obtain ⟨answers, -, -, -, rowless⟩ := shape_after_transposes (dense threeEmpty : Operator Float) 1
  have lost := rowless.mpr (.inr ⟨rfl, rfl, by decide⟩)
  obtain ⟨s, hs, solves⟩ := answers.solves ⟨none⟩ [] rfl
  obtain ⟨x, hx, length⟩ := solves [] rfl
  exact ⟨rfl, answers.applies [1, 2, 3] rfl, s, x, hs, hx, fun three => length.mp three lost⟩

/-- Two transposes of three empty rows leave none of them: the second does not exchange the
sizes. -/
theorem threeEmpty_not_restored :
    Dense.ofRows [[], [], []] = .ok (threeEmpty : Dense Float) ∧
      (dense threeEmpty : Operator Float).toRows = .ok [[], [], []] ∧
      (dense threeEmpty : Operator Float).transpose.inSize = 3 ∧
      (dense threeEmpty : Operator Float).transpose.transpose.outSize = 0 ∧
      (dense threeEmpty : Operator Float).transpose.transpose.toRows = .ok [] ∧
      ¬ (dense threeEmpty : Operator Float).Restored := by
  refine ⟨rfl, rfl, rfl, rfl, rfl, fun restored => ?_⟩
  have rows : (0 : Nat) = 3 := restored.outSize
  exact absurd rows (by decide)

end Operator
end DualOpt
