import DualOpt.Proofs.Linear.LeastSquares

/-!
Turning the flag of a state against factoring the transpose.

The factors always belong to a matrix with at least as many rows as columns. So a matrix that is not
square has them in common with its transpose, and the states differ in the flag alone. A square
matrix and its transpose have factors of their own, and the solutions agree because there is only
one.
-/
namespace DualOpt

open Matrix

namespace Dense
variable {F : Type} [Scalar F]

omit [Scalar F] in
theorem eq_of_rows {a b : Dense F} (rows : a.rows = b.rows) (inSize : a.inSize = b.inSize) :
    a = b := by
  cases a
  cases b
  simp_all

/-- A matrix is its transpose's transpose. One without columns is not: its transpose has no rows,
and so no columns to give back. -/
theorem transpose_transpose {a : Dense F} (nonempty : a.rows ≠ []) (wide : a.inSize ≠ 0) :
    a.transpose.transpose = a := by
  have height := a.length_transpose_rows (a.width_rows nonempty)
  have nonempty' : a.transpose.rows ≠ [] := List.ne_nil_of_length_pos (by omega)
  refine eq_of_rows ?_ height
  calc a.transpose.transpose.rows
      = Rows.columns a.rows.length a.transpose.rows :=
        congrArg (Rows.columns · a.transpose.rows) (a.transpose.width_rows nonempty')
    _ = a.rows := Rows.columns_columns fun _ h => a.width_eq h

end Dense

namespace QrFactors.Factors
variable {m n : ℕ} {f : QrFactors ℝ}

/-- A square matrix is regular exactly if no pivot is zero. -/
theorem det_ne_zero_iff_pivots {A : Matrix (Fin n) (Fin n) ℝ} (h : f.Factors A) :
    A.det ≠ 0 ↔ ∀ i, f.r.matrix n n i i ≠ 0 := by
  have orthogonal : (f.q.matrix n n).det ≠ 0 := by
    intro zero
    have unit := congrArg det h.orthonormal
    rw [det_mul, zero, mul_zero, det_one] at unit
    exact zero_ne_one unit
  rw [← h.product, det_mul, mul_ne_zero_iff, det_of_isUpperTriangular h.triangular,
    Finset.prod_ne_zero_iff]
  simp [orthogonal]

theorem eq_zero_of_transpose_mulVec {A : Matrix (Fin m) (Fin n) ℝ} (h : f.Factors A)
    (square : m = n) (regular : ∀ i, f.r.matrix n n i i ≠ 0) {y : Fin m → ℝ}
    (zero : Aᵀ *ᵥ y = 0) : y = 0 := by
  subst square
  refine eq_zero_of_mulVec_eq_zero ?_ zero
  rw [det_transpose]
  exact h.det_ne_zero_iff_pivots.mpr regular

/-- No pivot of a square matrix is zero if none of its transpose is, because they have the same
determinant. -/
theorem zero_notMem_diagonal_transpose {A : Matrix (Fin m) (Fin n) ℝ} {g : QrFactors ℝ}
    (h : f.Factors A) (h' : g.Factors Aᵀ) (square : m = n) (regular : 0 ∉ f.r.diagonal) :
    0 ∉ g.r.diagonal := by
  subst square
  rw [Triangular.mem_diagonal_iff h.length_r, not_exists] at regular
  rw [Triangular.mem_diagonal_iff h'.length_r, not_exists]
  exact h'.det_ne_zero_iff_pivots.mp (det_transpose A ▸ h.det_ne_zero_iff_pivots.mpr regular)

end QrFactors.Factors

namespace QrSolver

section Rectangular
variable {F : Type} [Scalar F]

/-- Unless it is square, a matrix and its transpose have the same factors. -/
theorem factor_transpose_of_ne (solver : QrSolver F) {a : Dense F} (nonempty : a.rows ≠ [])
    (inhabited : a.inSize ≠ 0) (different : a.rows.length ≠ a.inSize) :
    ∃ s, solver.factor (.dense a) = .ok s ∧
      solver.factor (Operator.dense a).transpose = .ok s.transpose ∧
      ∀ b, b.length = a.inSize → ∃ found, solver.solve s.transpose b = .ok found := by
  have width := a.width_rows nonempty
  rcases Nat.lt_or_gt_of_ne different with wide | tall
  · obtain ⟨f, hf, hf', shaped⟩ := solver.exists_factor_of_wide wide width
    exact ⟨_, hf, hf', fun b hb => ⟨_, solver.solve_direct shaped hb⟩⟩
  · -- The transpose is wide, and its own transpose is the matrix again.
    have height := a.length_transpose_rows width
    have back := a.transpose_transpose nonempty inhabited
    have nonempty' : a.transpose.rows ≠ [] := List.ne_nil_of_length_pos (by omega)
    obtain ⟨f, hf, hf', shaped⟩ := solver.exists_factor_of_wide (a := a.transpose)
      (height ▸ tall) (a.transpose.width_rows nonempty')
    rw [back] at hf'
    rw [height] at shaped
    exact ⟨_, hf', hf, fun b hb => ⟨_, solver.solve_transposed shaped hb⟩⟩

end Rectangular

section Square
variable {m n : ℕ} {f g : QrFactors ℝ} {A : Matrix (Fin m) (Fin n) ℝ}

/-- Both ways to solve the transpose of a square matrix reach its only solution. -/
theorem exists_solution_transpose {solver : QrSolver ℝ} (h : f.Factors A) (h' : g.Factors Aᵀ)
    (square : m = n) (keeps : solver.KeepsAll f) (keeps' : solver.KeepsAll g) {b : Vec ℝ}
    (hb : b.length = n) :
    ∃ x, solver.solve ⟨f, true⟩ b = .ok (x, .successful) ∧
      solver.solve ⟨g, false⟩ b = .ok (x, .successful) ∧ x.length = m ∧
      Aᵀ *ᵥ Vec.coords m x = Vec.coords n b ∧
      ∀ y, Aᵀ *ᵥ y = Vec.coords n b → y = Vec.coords m x := by
  obtain ⟨x, hx, length_x, least⟩ := exists_minimumNorm keeps h hb
  obtain ⟨z, hz, length_z, normal, -⟩ := exists_leastSquares keeps' h' hb
  have unique (y : Fin m → ℝ) (hy : Aᵀ *ᵥ y = Vec.coords n b) : y = Vec.coords m x := by
    refine sub_eq_zero.mp (h.eq_zero_of_transpose_mulVec square
      (fun i => (keeps.diagonal h i).1) ?_)
    rw [mulVec_sub, hy, least.solves, sub_self]
  have solves : Aᵀ *ᵥ Vec.coords m z = Vec.coords n b :=
    sub_eq_zero.mp (h'.eq_zero_of_transpose_mulVec square.symm
      (fun i => (keeps'.diagonal h' i).1) normal)
  obtain rfl : z = x := Vec.eq_of_coords_eq length_z length_x (unique _ solves)
  exact ⟨z, hx, hz, length_z, solves, unique⟩

theorem exists_factors_transpose (solver : QrSolver ℝ) {a : Dense ℝ} (nonempty : a.rows ≠ [])
    (square : a.rows.length = a.inSize) :
    ∃ f g, solver.factor (.dense a) = .ok ⟨f, false⟩ ∧
      solver.factor (Operator.dense a).transpose = .ok ⟨g, false⟩ ∧
      f.Factors a.matrix ∧ g.Factors a.matrixᵀ := by
  have width := a.width_rows nonempty
  have height := a.length_transpose_rows width
  have positive := List.length_pos_of_ne_nil nonempty
  obtain ⟨f, hf, factors⟩ := solver.exists_factor_tall nonempty square.ge
  obtain ⟨g, hg, factors'⟩ := solver.exists_factor_tall (a := a.transpose)
    (List.ne_nil_of_length_pos (by omega)) (height ▸ square.le)
  rw [Dense.matrix, height] at factors'
  exact ⟨f, g, hf, hg, factors, a.matrix_transpose width ▸ factors'⟩

theorem cutoff_lt_of_det_ne_zero {A : Matrix (Fin n) (Fin n) ℝ} (h : f.Factors A)
    (regular : A.det ≠ 0) : ∀ p ∈ f.r.diagonal, (⟨some 0⟩ : QrSolver ℝ).cutoff f < |p| := by
  intro p hp
  obtain ⟨i, rfl⟩ := (Triangular.mem_diagonal_iff h.length_r).mp hp
  rw [cutoff_zero]
  exact abs_pos.mpr (h.det_ne_zero_iff_pivots.mp regular i)

end Square

/-- Solving with the flag turned agrees with factoring the transpose. For a matrix that is not
square the two states are the same, in any arithmetic. For a square one whose pivots exceed the
cutoffs, and are not zero if `rcond` is negative, both solves return the only solution. -/
theorem transpose_eq_direct :
    (∀ (F : Type) [Scalar F] (solver : QrSolver F) (a : Dense F),
      a.rows ≠ [] → a.inSize ≠ 0 → a.rows.length ≠ a.inSize →
        ∃ s t, solver.factor (.dense a) = .ok s ∧
          solver.factor (Operator.dense a).transpose = .ok t ∧ s.transpose = t ∧
          ∀ b, b.length = a.inSize → ∃ found, solver.solve s.transpose b = .ok found ∧
            solver.solve t b = .ok found) ∧
    ∀ (solver : QrSolver ℝ) (a : Dense ℝ), a.rows ≠ [] → a.rows.length = a.inSize →
      ∃ s t, solver.factor (.dense a) = .ok s ∧
        solver.factor (Operator.dense a).transpose = .ok t ∧
        ((∀ r ∈ solver.rcond, 0 ≤ r) ∨ 0 ∉ s.factors.r.diagonal →
          (∀ p ∈ s.factors.r.diagonal, solver.cutoff s.factors < |p|) →
          (∀ p ∈ t.factors.r.diagonal, solver.cutoff t.factors < |p|) →
          ∀ b, b.length = a.inSize → ∃ x,
            solver.solve s.transpose b = .ok (x, .successful) ∧
            solver.solve t b = .ok (x, .successful) ∧ x.length = a.rows.length ∧
            a.matrixᵀ *ᵥ Vec.coords _ x = Vec.coords _ b ∧
            ∀ y, a.matrixᵀ *ᵥ y = Vec.coords _ b → y = Vec.coords _ x) := by
  refine ⟨fun F _ solver a nonempty inhabited different => ?_, fun solver a nonempty square => ?_⟩
  · obtain ⟨s, hs, ht, solves⟩ := solver.factor_transpose_of_ne nonempty inhabited different
    refine ⟨s, _, hs, ht, rfl, fun b hb => ?_⟩
    obtain ⟨found, hfound⟩ := solves b hb
    exact ⟨found, hfound, hfound⟩
  · obtain ⟨f, g, hf, hg, factors, factors'⟩ := solver.exists_factors_transpose nonempty square
    refine ⟨_, _, hf, hg, ?_⟩
    intro regular exceeds exceeds' _
    have regular' := regular.imp_right (factors.zero_notMem_diagonal_transpose factors' square)
    exact exists_solution_transpose factors factors' square (keepsAll_of_exceeds regular exceeds)
      (keepsAll_of_exceeds regular' exceeds')

def twoEqual : Dense Float := ⟨[[1], [1]], 1, by simp⟩

def sheared : Dense ℝ := ⟨[[1, 1], [0, 1]], 2, by simp⟩

theorem transpose_eq_direct_sheared :
    (∃ s found, (⟨none⟩ : QrSolver Float).factor (.dense twoEqual) = .ok s ∧
      (⟨none⟩ : QrSolver Float).factor (Operator.dense twoEqual).transpose = .ok s.transpose ∧
      (⟨none⟩ : QrSolver Float).solve s.transpose [1] = .ok found) ∧
    ∃ s t x, (⟨some 0⟩ : QrSolver ℝ).factor (.dense sheared) = .ok s ∧
      (⟨some 0⟩ : QrSolver ℝ).factor (Operator.dense sheared).transpose = .ok t ∧
      (∀ p ∈ s.factors.r.diagonal, (⟨some 0⟩ : QrSolver ℝ).cutoff s.factors < |p|) ∧
      (∀ p ∈ t.factors.r.diagonal, (⟨some 0⟩ : QrSolver ℝ).cutoff t.factors < |p|) ∧
      (⟨some 0⟩ : QrSolver ℝ).solve s.transpose [1, 0] = .ok (x, .successful) ∧
      (⟨some 0⟩ : QrSolver ℝ).solve t [1, 0] = .ok (x, .successful) := by
  constructor
  · obtain ⟨s, _, hs, ht, rfl, solves⟩ := transpose_eq_direct.1 Float ⟨none⟩ twoEqual
      (by simp [twoEqual]) (by simp [twoEqual]) (by simp [twoEqual])
    obtain ⟨found, hfound, -⟩ := solves [1] rfl
    exact ⟨s, found, hs, ht, hfound⟩
  · have regular : sheared.matrix.det ≠ 0 := by
      have det : (Rows.matrix 2 2 [[1, 1], [0, 1]]).det = 1 := by
        rw [det_fin_two]
        simp [Rows.matrix_apply]
      exact det ▸ one_ne_zero
    obtain ⟨f, g, hf, hg, factors, factors'⟩ := exists_factors_transpose ⟨some 0⟩ (a := sheared)
      (by simp [sheared]) rfl
    have exceeds := cutoff_lt_of_det_ne_zero factors regular
    have exceeds' := cutoff_lt_of_det_ne_zero factors' (det_transpose sheared.matrix ▸ regular)
    obtain ⟨s, t, hs, ht, solves⟩ := transpose_eq_direct.2 ⟨some 0⟩ sheared (by simp [sheared]) rfl
    obtain rfl := Except.ok.inj (hf.symm.trans hs)
    obtain rfl := Except.ok.inj (hg.symm.trans ht)
    obtain ⟨x, hx, hx', -⟩ := solves (.inl fun r hr => (Option.some.inj hr).le) exceeds exceeds'
      [1, 0] rfl
    exact ⟨_, _, x, hf, hg, exceeds, exceeds', hx, hx'⟩

/-- A symmetric matrix whose first row is zero. -/
def zeroCorner : Dense ℝ := ⟨[[0, 0], [0, 1]], 2, by simp⟩

theorem factor_zeroCorner (solver : QrSolver ℝ) : solver.factor (.dense zeroCorner) =
    .ok ⟨⟨[[1, 0], [0, -1]], [[0, 0], [0, -1]]⟩, false⟩ := by
  have zero : Householder.normal? [(0 : ℝ), 0] = none := by
    simp [Householder.normal?, Vec.twoNorm, Vec.sumSquares, Vec.inner]
  have reduced : Householder.reduce [[(0 : ℝ), 0], [0, 1]] =
      ([none, some [1]], [[0, 0], [0, -1]]) := by
    simp [Householder.reduce, zero, normal?_singleton, Householder.reflect, Vec.inner]
  have width : zeroCorner.rows.width = 2 := rfl
  rw [factor_tall _ (by simp [zeroCorner]), QrFactors.ofRows_eq width zeroCorner.rectangular
    (by simp [zeroCorner])]
  simp [zeroCorner, Rows.columns, reduced, QrFactors.orthonormalColumns, List.range_succ,
    Householder.applyProduct, Householder.reflect, Vec.unit, Vec.inner]

/-- With `rcond = -1` the pivots of a singular matrix exceed the cutoff, and so do those of its
transpose, but a system in the transpose has no solution, or more than one. -/
theorem no_unique_solution_negative_rcond : ∃ s t,
    (⟨some (-1)⟩ : QrSolver ℝ).factor (.dense zeroCorner) = .ok s ∧
      (⟨some (-1)⟩ : QrSolver ℝ).factor (Operator.dense zeroCorner).transpose = .ok t ∧
      (∀ p ∈ s.factors.r.diagonal, (⟨some (-1)⟩ : QrSolver ℝ).cutoff s.factors < |p|) ∧
      (∀ p ∈ t.factors.r.diagonal, (⟨some (-1)⟩ : QrSolver ℝ).cutoff t.factors < |p|) ∧
      (∀ x, zeroCorner.matrixᵀ *ᵥ x ≠ Vec.coords 2 [1, 0]) ∧
      ∀ x, zeroCorner.matrixᵀ *ᵥ Vec.coords 2 [x, 1] = Vec.coords 2 [0, 1] := by
  have symmetric : (Operator.dense zeroCorner).transpose = .dense zeroCorner := by
    have width : Rows.width [[(0 : ℝ), 0], [0, 1]] = 2 := rfl
    simp [Operator.transpose, Dense.transpose, zeroCorner, width, Rows.columns]
  have exceeds : ∀ p ∈ Rows.diagonal [[(0 : ℝ), 0], [0, -1]],
      (⟨some (-1)⟩ : QrSolver ℝ).cutoff ⟨[[1, 0], [0, -1]], [[0, 0], [0, -1]]⟩ < |p| := by
    intro p _
    refine lt_of_lt_of_le ?_ (abs_nonneg p)
    simp [QrSolver.cutoff, QrFactors.maxDiagonal, Rows.diagonal, Vec.maxNorm]
  rw [symmetric]
  refine ⟨_, _, factor_zeroCorner _, factor_zeroCorner _, exceeds, exceeds, ?_, ?_⟩
  · intro x solves
    have entry : ((Rows.matrix 2 2 [[0, 0], [0, 1]])ᵀ *ᵥ x) 0 = Vec.coords 2 [1, 0] 0 :=
      congrFun solves (0 : Fin 2)
    simp [Rows.matrix_apply, mulVec, dotProduct, Fin.sum_univ_two, Vec.coords] at entry
  · intro x
    change (Rows.matrix 2 2 [[0, 0], [0, 1]])ᵀ *ᵥ Vec.coords 2 [x, 1] = Vec.coords 2 [0, 1]
    refine funext (Fin.forall_fin_two.mpr ⟨?_, ?_⟩) <;>
      simp [Rows.matrix_apply, mulVec, dotProduct, Fin.sum_univ_two, Vec.coords]

end QrSolver
end DualOpt
