import Mathlib.LinearAlgebra.Matrix.Block
import Mathlib.LinearAlgebra.Matrix.ToLinearEquiv
import DualOpt.Proofs.Exact.Coordinates

/-!
What the two triangular solves return in exact arithmetic: zero where a pivot is cut, and a solution
of every other equation. A cutoff that is not negative leaves only one such vector.
-/
namespace DualOpt

open Matrix

namespace Triangular
variable {n : ℕ} {cutoff : ℝ}

/-- Solves a square system up to cut pivots: the components that belong to them are zero and their
equations are not asked for. -/
structure SolvesCut (cutoff : ℝ) (M : Matrix (Fin n) (Fin n) ℝ) (x b : Fin n → ℝ) : Prop where
  cut : ∀ i, |M i i| ≤ cutoff → x i = 0
  kept : ∀ i, cutoff < |M i i| → M i i ≠ 0 → (M *ᵥ x) i = b i

theorem isCut_real (cutoff pivot : ℝ) : isCut cutoff pivot = true ↔ |pivot| ≤ cutoff := by
  simp [isCut]

/-- A matrix below and to the right of a pivot, with zeros below the pivot. -/
def border (pivot : ℝ) (above : Fin n → ℝ) (M : Matrix (Fin n) (Fin n) ℝ) :
    Matrix (Fin (n + 1)) (Fin (n + 1)) ℝ :=
  of (vecCons (vecCons pivot above) fun i => vecCons 0 (M i))

section Border
variable {pivot : ℝ} {above : Fin n → ℝ} {M : Matrix (Fin n) (Fin n) ℝ}

@[simp] theorem border_succ_succ (i j : Fin n) : border pivot above M i.succ j.succ = M i j := rfl

theorem border_mulVec (x : ℝ) (xs : Fin n → ℝ) :
    border pivot above M *ᵥ vecCons x xs = vecCons (pivot * x + above ⬝ᵥ xs) (M *ᵥ xs) := by
  funext i
  refine Fin.cases ?_ (fun i => ?_) i
  · simp [border, mulVec]
  · simp [border, mulVec]

theorem border_transpose_mulVec (x : ℝ) (xs : Fin n → ℝ) :
    (border pivot above M)ᵀ *ᵥ vecCons x xs = vecCons (pivot * x) (x • above + Mᵀ *ᵥ xs) := by
  funext j
  refine Fin.cases ?_ (fun j => ?_) j
  · simp [border, mulVec, dotProduct, Fin.sum_univ_succ]
  · simp [border, mulVec, dotProduct, Fin.sum_univ_succ, mul_comm]

theorem SolvesCut.border {x b : ℝ} {xs bs : Fin n → ℝ} (rest : SolvesCut cutoff M xs bs)
    (cut : |pivot| ≤ cutoff → x = 0)
    (kept : cutoff < |pivot| → pivot ≠ 0 → pivot * x + above ⬝ᵥ xs = b) :
    SolvesCut cutoff (border pivot above M) (vecCons x xs) (vecCons b bs) where
  cut i := Fin.cases cut rest.cut i
  kept i := by
    rw [border_mulVec]
    exact Fin.cases kept rest.kept i

theorem SolvesCut.border_transpose {x b : ℝ} {xs bs : Fin n → ℝ}
    (rest : SolvesCut cutoff Mᵀ xs (bs - x • above)) (cut : |pivot| ≤ cutoff → x = 0)
    (kept : cutoff < |pivot| → pivot ≠ 0 → pivot * x = b) :
    SolvesCut cutoff (Triangular.border pivot above M)ᵀ (vecCons x xs) (vecCons b bs) where
  cut i := Fin.cases cut rest.cut i
  kept i := by
    rw [border_transpose_mulVec]
    refine Fin.cases kept (fun i large nonzero => ?_) i
    have equation := rest.kept i large nonzero
    rw [cons_val_succ, cons_val_succ, Pi.add_apply, equation, Pi.sub_apply, add_sub_cancel]

theorem isUpperTriangular_of_border (triangular : (border pivot above M).IsUpperTriangular) :
    M.IsUpperTriangular :=
  fun _ _ hij => triangular (Fin.succ_lt_succ_iff.mpr hij)

end Border

/-- A square upper triangular matrix without its first row and column, with that row put back. -/
theorem matrix_eq_border {pivot : ℝ} {above : Vec ℝ} {rows : Rows ℝ}
    (width : ∀ row ∈ rows, row.length = n + 1)
    (triangular : (Rows.matrix (n + 1) (n + 1) ((pivot :: above) :: rows)).IsUpperTriangular) :
    Rows.matrix (n + 1) (n + 1) ((pivot :: above) :: rows) =
      border pivot (Vec.coords n above) (Rows.matrix n n (rows.map List.tail)) := by
  ext i j
  refine Fin.cases ?_ (fun i => ?_) i
  · rw [Rows.matrix_cons_zero, Vec.coords_cons]
    rfl
  · refine Fin.cases (triangular (Fin.succ_pos i)) (fun j => ?_) j
    by_cases hi : (i : ℕ) < rows.length
    · obtain ⟨x, xs, hrow⟩ := List.exists_cons_of_length_eq_add_one (width _ (List.getElem_mem hi))
      simp [Rows.matrix_apply, hi, hrow]
    · simp [Rows.matrix_apply, hi]

theorem mem_diagonal_iff {r : Rows ℝ} (hr : r.length = n) {p : ℝ} :
    p ∈ r.diagonal ↔ ∃ i, Rows.matrix n n r i i = p := by
  induction n generalizing r with
  | zero =>
    rw [List.length_eq_zero_iff.mp hr, Rows.diagonal]
    simp
  | succ n ih =>
    obtain ⟨row, rows, rfl⟩ := List.exists_cons_of_length_eq_add_one hr
    have hrows : rows.length = n := by simpa using hr
    have entry (i : Fin n) : Rows.matrix (n + 1) (n + 1) (row :: rows) i.succ i.succ =
        Rows.matrix n n (rows.map List.tail) i i := by
      cases hrow : rows[i] <;> simp [Rows.matrix_apply, Vec.coords, hrows]
    have head : Rows.matrix (n + 1) (n + 1) (row :: rows) 0 0 = row.headD 0 := by
      cases row <;> rfl
    rw [Rows.diagonal, List.mem_cons, ih (by simpa using hrows), Fin.exists_fin_succ, head]
    simp only [entry, eq_comm]

theorem foldl_sub_mul (b : ℝ) (row xs : Vec ℝ) :
    (row.zip xs).foldl (fun acc p => acc - p.1 * p.2) b = b - Vec.inner row xs := by
  induction row generalizing b xs with
  | nil => simp [Vec.inner]
  | cons a row ih =>
    cases xs with
    | nil => simp [Vec.inner]
    | cons x xs =>
      rw [List.zip_cons_cons, List.foldl_cons, ih, Vec.inner_cons]
      ring

/-- Back substitution meets each equation with the components below it already known. -/
theorem backSubstitute_solvesCut {r : Rows ℝ} {b : Vec ℝ} (hr : r.length = n)
    (width : ∀ row ∈ r, row.length = n) (triangular : (r.matrix n n).IsUpperTriangular)
    (hb : b.length = n) :
    SolvesCut cutoff (r.matrix n n) (Vec.coords n (backSubstitute cutoff b r))
      (Vec.coords n b) := by
  induction n generalizing r b with
  | zero => exact ⟨fun i => i.elim0, fun i => i.elim0⟩
  | succ n ih =>
    obtain ⟨row, rows, rfl⟩ := List.exists_cons_of_length_eq_add_one hr
    obtain ⟨hrow, hrows⟩ := List.forall_mem_cons.mp width
    obtain ⟨pivot, above, rfl⟩ := List.exists_cons_of_length_eq_add_one hrow
    obtain ⟨b, bs, rfl⟩ := List.exists_cons_of_length_eq_add_one hb
    have split := matrix_eq_border hrows triangular
    rw [split] at triangular ⊢
    have rest := ih (by simpa using hr) (Rows.length_tail_of_mem hrows)
      (isUpperTriangular_of_border triangular) (by simpa using hb)
    have sum := Vec.inner_eq_dotProduct (n := n) (x := above)
      (backSubstitute cutoff bs (rows.map List.tail)) (by simpa using hrow.le)
    rw [backSubstitute, Vec.coords_cons, Vec.coords_cons]
    refine rest.border (fun cut => ?_) fun large nonzero => ?_
    · simp [isCut, cut]
    · simp only [List.headD_cons, List.tail_cons, isCut, Scalar.abs_real, large.not_ge,
        decide_false, Bool.false_eq_true, if_false, foldl_sub_mul, ← sum]
      field_simp
      ring

theorem forwardSubstitute_solvesCut {r : Rows ℝ} {b : Vec ℝ} (hr : r.length = n)
    (width : ∀ row ∈ r, row.length = n) (triangular : (r.matrix n n).IsUpperTriangular)
    (hb : b.length = n) :
    SolvesCut cutoff (r.matrix n n)ᵀ (Vec.coords n (forwardSubstitute cutoff b r))
      (Vec.coords n b) := by
  induction n generalizing r b with
  | zero => exact ⟨fun i => i.elim0, fun i => i.elim0⟩
  | succ n ih =>
    obtain ⟨row, rows, rfl⟩ := List.exists_cons_of_length_eq_add_one hr
    obtain ⟨hrow, hrows⟩ := List.forall_mem_cons.mp width
    obtain ⟨pivot, above, rfl⟩ := List.exists_cons_of_length_eq_add_one hrow
    obtain ⟨b, bs, rfl⟩ := List.exists_cons_of_length_eq_add_one hb
    have split := matrix_eq_border hrows triangular
    rw [split] at triangular ⊢
    have hbs : bs.length = n := by simpa using hb
    rw [forwardSubstitute, Vec.coords_cons, Vec.coords_cons]
    have rest := ih (b := Vec.eliminate (if isCut cutoff pivot then 0 else b / pivot) bs above)
      (by simpa using hr) (Rows.length_tail_of_mem hrows) (isUpperTriangular_of_border triangular)
      (by rw [Vec.length_eliminate, hbs])
    rw [Vec.coords_eliminate _ above hbs] at rest
    refine rest.border_transpose (fun cut => ?_) fun large nonzero => ?_
    · exact if_pos ((isCut_real _ _).mpr cut)
    · rw [if_neg (mt (isCut_real _ _).mp large.not_ge), mul_div_cancel₀ _ nonzero]

section Unique
variable {M : Matrix (Fin n) (Fin n) ℝ} {x y b : Fin n → ℝ}

/-- The matrix with the rows of its cut pivots replaced by those of the identity. -/
noncomputable def keep (cutoff : ℝ) (M : Matrix (Fin n) (Fin n) ℝ) : Matrix (Fin n) (Fin n) ℝ :=
  of fun i => if |M i i| ≤ cutoff then Pi.single i 1 else M i

theorem det_keep_ne_zero (nonneg : 0 ≤ cutoff) (triangular : M.IsUpperTriangular) :
    (keep cutoff M).det ≠ 0 := by
  have upper : (keep cutoff M).IsUpperTriangular := by
    intro i j hij
    by_cases cut : |M i i| ≤ cutoff
    · simp [keep, cut, (show j < i from hij).ne]
    · simp [keep, cut, triangular hij]
  rw [det_of_isUpperTriangular upper, Finset.prod_ne_zero_iff]
  intro i _
  by_cases cut : |M i i| ≤ cutoff
  · simp [keep, cut]
  · simpa [keep, cut] using abs_pos.mp (nonneg.trans_lt (not_le.mp cut))

theorem SolvesCut.keep_mulVec (h : SolvesCut cutoff M x b) (nonneg : 0 ≤ cutoff) :
    keep cutoff M *ᵥ x = fun i => if |M i i| ≤ cutoff then 0 else b i := by
  funext i
  by_cases cut : |M i i| ≤ cutoff
  · simp [keep, mulVec, cut, h.cut i cut]
  · have large := not_le.mp cut
    have equation := h.kept i large (abs_pos.mp (nonneg.trans_lt large))
    simpa [keep, mulVec, cut] using equation

/-- A cut system has at most one solution. -/
theorem SolvesCut.unique (hx : SolvesCut cutoff M x b) (hy : SolvesCut cutoff M y b)
    (nonneg : 0 ≤ cutoff) (triangular : M.IsUpperTriangular) : x = y := by
  refine sub_eq_zero.mp (eq_zero_of_mulVec_eq_zero (det_keep_ne_zero nonneg triangular) ?_)
  rw [mulVec_sub, hx.keep_mulVec nonneg, hy.keep_mulVec nonneg, sub_self]

end Unique

end Triangular
end DualOpt
