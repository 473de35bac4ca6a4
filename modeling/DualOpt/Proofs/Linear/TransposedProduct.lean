import Mathlib.Data.List.GetD
import DualOpt.Proofs.Linear.Shape

/-!
Two ways to multiply by a transpose, in any arithmetic.

One builds the transpose and takes inner products with its rows. The other goes through the rows of
the matrix itself and adds each of them to the vector of results. The loops are exchanged, but an
entry of the result meets the same operands in the same order, so the two agree without any law of
addition or multiplication.
-/
namespace DualOpt

variable {F : Type} [Scalar F]

namespace Vec

/-- Adding a multiple of a row changes every entry by one product. -/
theorem getD_accumulate (s : F) {a x : Vec F} (same : x.length = a.length) {j : Nat}
    (hj : j < a.length) : (accumulate s a x).getD j 0 = a.getD j 0 + x.getD j 0 * s := by
  induction a generalizing x j with
  | nil => exact absurd hj (Nat.not_lt_zero j)
  | cons b a ih =>
    obtain ⟨y, x, rfl⟩ := List.exists_cons_of_length_eq_add_one same
    cases j with
    | zero => rfl
    | succ j => exact ih (Nat.succ.inj same) (Nat.lt_of_succ_lt_succ hj)

/-- An inner product goes through the indices in ascending order. -/
theorem inner_eq_foldl_range {x y : Vec F} (same : x.length = y.length) :
    inner x y = (List.range x.length).foldl (fun acc i => acc + x.getD i 0 * y.getD i 0) 0 := by
  have pairs : x.zip y = (List.range x.length).map fun i => (x.getD i 0, y.getD i 0) := by
    refine List.ext_getElem (by simp [same]) fun i hi hi' => ?_
    have hx : i < x.length := by simpa using hi'
    simp [hx, same ▸ hx]
  rw [inner, pairs, List.foldl_map]

end Vec

namespace Rows
variable {a : Rows F} {n : Nat}

/-- Entry `j` of the product of the transpose and `v`: the entries of column `j` times those of `v`,
added up from the first row to the last. -/
def columnSum (a : Rows F) (v : Vec F) (j : Nat) : F :=
  (List.range a.length).foldl (fun acc i => acc + (a.getD i []).getD j 0 * v.getD i 0) 0

theorem columns_eq_map (n : Nat) (a : Rows F) :
    columns n a = (List.range n).map fun j => a.map (·.getD j 0) := by
  induction n generalizing a with
  | zero => rfl
  | succ n ih =>
    have heads : a.map (·.headD 0) = a.map (·.getD 0 0) :=
      List.map_congr_left fun row _ => by cases row <;> rfl
    have tails (j : Nat) : (a.map List.tail).map (·.getD j 0) = a.map (·.getD (j + 1) 0) := by
      rw [List.map_map]
      exact List.map_congr_left fun row _ => by cases row <;> rfl
    rw [columns, ih, heads, funext tails, List.range_succ_eq_map, List.map_cons, List.map_map]
    rfl

/-- Going through the rows, every entry of the result is a loop of its own. -/
theorem getD_foldl_accumulate {j : Nat} (hj : j < n) {l : List (Vec F × F)}
    (width : ∀ p ∈ l, p.1.length = n) {out : Vec F} (length : out.length = n) :
    (l.foldl (fun out p => Vec.accumulate p.2 out p.1) out).getD j 0 =
      l.foldl (fun acc p => acc + p.1.getD j 0 * p.2) (out.getD j 0) := by
  -- Every row leaves another vector, so the loop of entry `j` goes on from another start.
  induction l generalizing out with
  | nil => rfl
  | cons p l ih =>
    obtain ⟨row, rest⟩ := List.forall_mem_cons.mp width
    have next : (Vec.accumulate p.2 out p.1).length = n := by rw [Vec.length_accumulate, length]
    rw [List.foldl_cons, List.foldl_cons, ih rest next,
      Vec.getD_accumulate p.2 (row.trans length.symm) (length ▸ hj)]

theorem getD_transposeMulVec (width : ∀ row ∈ a, row.length = n) (v : Vec F) {j : Nat}
    (hj : j < n) : (a.transposeMulVec v n).getD j 0 = Vec.inner (a.map (·.getD j 0)) v := by
  have start : (Vec.fill n (0 : F)).getD j 0 = 0 := by simp [Vec.fill, hj]
  rw [transposeMulVec, getD_foldl_accumulate hj (fun p mem => width p.1 (List.of_mem_zip mem).1)
    (Vec.length_fill n 0), start, Vec.inner, List.zip_map_left, List.foldl_map]
  rfl

/-- The inner products with the columns are what the rows add up to. -/
theorem mulVec_columns (width : ∀ row ∈ a, row.length = n) (v : Vec F) :
    (columns n a).mulVec v = a.transposeMulVec v n := by
  refine List.ext_getElem (by simp [length_columns]) fun j hj hj' => ?_
  have inside : j < n := by rwa [length_transposeMulVec] at hj'
  have entry := getD_transposeMulVec width v inside
  rw [List.getD_eq_getElem _ _ hj'] at entry
  simp [entry, mulVec, columns_eq_map]

theorem transposeMulVec_eq_columnSum (width : ∀ row ∈ a, row.length = n) {v : Vec F}
    (height : v.length = a.length) :
    a.transposeMulVec v n = (List.range n).map (a.columnSum v) := by
  have sums (j : Nat) : Vec.inner (a.map (·.getD j 0)) v = a.columnSum v j := by
    have entry (i : Nat) : (a.map (·.getD j 0)).getD i 0 = (a.getD i []).getD j 0 :=
      List.getD_map a [] fun row : Vec F => row.getD j 0
    rw [Vec.inner_eq_foldl_range (by rw [List.length_map, height]), List.length_map]
    simp only [entry, columnSum]
  rw [← mulVec_columns width, mulVec, columns_eq_map, List.map_map]
  exact List.map_congr_left fun j _ => sums j

end Rows

theorem Dense.transpose_mulVec {a : Dense F} (width : a.rows.width = a.inSize) (w : Vec F) :
    a.transpose.rows.mulVec w = a.rows.transposeMulVec w a.inSize := by
  have turned := Rows.mulVec_columns a.rectangular w
  rwa [← width] at turned ⊢

end DualOpt
