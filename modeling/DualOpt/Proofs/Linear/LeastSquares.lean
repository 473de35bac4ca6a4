import DualOpt.Proofs.Linear.Factorisation
import DualOpt.Proofs.Linear.Substitution

/-!
What a solve through the factors returns in exact arithmetic.

When no pivot is cut or zero, this is the solution that the pseudo-inverse gives: least squares for
a tall matrix, least norm for a wide one. When zero pivots are cut, the residual of the normal
equations is made of the rows that belong to them.
-/
namespace DualOpt

open Matrix

section Solutions
variable {m n : ℕ}

/-- The normal equations: the residual is orthogonal to the columns. -/
def NormalEquations (A : Matrix (Fin m) (Fin n) ℝ) (b : Fin m → ℝ) (x : Fin n → ℝ) : Prop :=
  Aᵀ *ᵥ (A *ᵥ x - b) = 0

namespace NormalEquations
variable {A : Matrix (Fin m) (Fin n) ℝ} {b : Fin m → ℝ} {x : Fin n → ℝ}

theorem transpose_mulVec (h : NormalEquations A b x) : Aᵀ *ᵥ b = Aᵀ *ᵥ (A *ᵥ x) := by
  rw [NormalEquations, mulVec_sub, sub_eq_zero] at h
  exact h.symm

/-- The solution leads uphill for the inner products with the columns, unless they are all zero. -/
theorem eq_zero_or_dotProduct_pos (h : NormalEquations A b x) :
    Aᵀ *ᵥ b = 0 ∨ 0 < (Aᵀ *ᵥ b) ⬝ᵥ x := by
  by_cases zero : A *ᵥ x = 0
  · left
    rw [h.transpose_mulVec, zero, mulVec_zero]
  · right
    calc (0 : ℝ) < (A *ᵥ x) ⬝ᵥ (A *ᵥ x) := dotProduct_self_pos zero
      _ = (Aᵀ *ᵥ b) ⬝ᵥ x := by rw [h.transpose_mulVec, mulVec_transpose, ← dotProduct_mulVec]

end NormalEquations

/-- A solution of least Euclidean norm. -/
structure MinimumNorm (A : Matrix (Fin m) (Fin n) ℝ) (b : Fin m → ℝ) (x : Fin n → ℝ) :
    Prop where
  solves : A *ᵥ x = b
  least : ∀ z, A *ᵥ z = b → √(x ⬝ᵥ x) ≤ √(z ⬝ᵥ z)

end Solutions

namespace Vec

theorem foldl_max_nonneg (x : Vec ℝ) {c : ℝ} (hc : 0 ≤ c) :
    0 ≤ x.foldl (fun acc a => Scalar.max acc (Scalar.abs a)) c := by
  induction x generalizing c with
  | nil => exact hc
  | cons a x ih => exact ih (hc.trans (le_max_left c |a|))

theorem maxNorm_nonneg (x : Vec ℝ) : 0 ≤ maxNorm x := foldl_max_nonneg x le_rfl

end Vec

namespace QrFactors.Factors
variable {m n : ℕ} {f : QrFactors ℝ} {A : Matrix (Fin m) (Fin n) ℝ}

theorem transpose_mulVec_mulVec (h : f.Factors A) (y : Fin n → ℝ) :
    (f.q.matrix m n)ᵀ *ᵥ (f.q.matrix m n *ᵥ y) = y := by
  rw [mulVec_mulVec, h.orthonormal, one_mulVec]

/-- Up to the rotation `Qᵀ`, the normal equations are those of the triangle. -/
theorem transpose_mulVec_residual (h : f.Factors A) (b : Fin m → ℝ) (x : Fin n → ℝ) :
    Aᵀ *ᵥ (A *ᵥ x - b) =
      (f.r.matrix n n)ᵀ *ᵥ (f.r.matrix n n *ᵥ x - (f.q.matrix m n)ᵀ *ᵥ b) := by
  rw [← h.product, transpose_mul, ← mulVec_mulVec, mulVec_sub, ← mulVec_mulVec,
    h.transpose_mulVec_mulVec]

theorem det_ne_zero (h : f.Factors A) (regular : ∀ i, f.r.matrix n n i i ≠ 0) :
    (f.r.matrix n n).det ≠ 0 := by
  rw [det_of_isUpperTriangular h.triangular]
  exact Finset.prod_ne_zero_iff.mpr fun i _ => regular i

theorem normalEquations_iff (h : f.Factors A) (regular : ∀ i, f.r.matrix n n i i ≠ 0)
    {b : Fin m → ℝ} {x : Fin n → ℝ} :
    NormalEquations A b x ↔ f.r.matrix n n *ᵥ x = (f.q.matrix m n)ᵀ *ᵥ b := by
  rw [NormalEquations, h.transpose_mulVec_residual]
  constructor
  · intro zero
    refine sub_eq_zero.mp (eq_zero_of_mulVec_eq_zero ?_ zero)
    rw [det_transpose]
    exact h.det_ne_zero regular
  · intro solves
    rw [solves, sub_self, mulVec_zero]

theorem eq_of_normalEquations (h : f.Factors A) (regular : ∀ i, f.r.matrix n n i i ≠ 0)
    {b : Fin m → ℝ} {x z : Fin n → ℝ} (hx : NormalEquations A b x) (hz : NormalEquations A b z) :
    z = x := by
  rw [h.normalEquations_iff regular] at hx hz
  refine sub_eq_zero.mp (eq_zero_of_mulVec_eq_zero (h.det_ne_zero regular) ?_)
  rw [mulVec_sub, hz, hx, sub_self]

/-- Orthonormal columns keep inner products. -/
theorem mulVec_dotProduct_mulVec (h : f.Factors A) (x y : Fin n → ℝ) :
    (f.q.matrix m n *ᵥ x) ⬝ᵥ (f.q.matrix m n *ᵥ y) = x ⬝ᵥ y := by
  rw [dotProduct_mulVec, ← mulVec_transpose, h.transpose_mulVec_mulVec]

/-- A vector is at least as long as its projection onto the columns. -/
theorem transpose_mulVec_dotProduct_self_le (h : f.Factors A) (z : Fin m → ℝ) :
    ((f.q.matrix m n)ᵀ *ᵥ z) ⬝ᵥ ((f.q.matrix m n)ᵀ *ᵥ z) ≤ z ⬝ᵥ z := by
  set y := (f.q.matrix m n)ᵀ *ᵥ z
  set q := f.q.matrix m n *ᵥ y
  have cross : q ⬝ᵥ z = y ⬝ᵥ y := by
    rw [dotProduct_comm, dotProduct_mulVec, ← mulVec_transpose]
  have length_q : q ⬝ᵥ q = y ⬝ᵥ y := h.mulVec_dotProduct_mulVec y y
  have nonneg := dotProduct_self_nonneg (z - q)
  rw [sub_dotProduct, dotProduct_sub, dotProduct_sub, dotProduct_comm z q, cross, length_q]
    at nonneg
  linarith

/-- The factors of a transpose give the solution of least norm: it is the only one in the span of
the columns of `Q`. -/
theorem minimumNorm (h : f.Factors A) (regular : ∀ i, f.r.matrix n n i i ≠ 0)
    {b y : Fin n → ℝ} (solves : (f.r.matrix n n)ᵀ *ᵥ y = b) :
    MinimumNorm Aᵀ b (f.q.matrix m n *ᵥ y) := by
  have transposed (z : Fin m → ℝ) :
      Aᵀ *ᵥ z = (f.r.matrix n n)ᵀ *ᵥ ((f.q.matrix m n)ᵀ *ᵥ z) := by
    rw [← h.product, transpose_mul, mulVec_mulVec]
  refine ⟨?_, fun z hz => Real.sqrt_le_sqrt ?_⟩
  · rw [transposed, h.transpose_mulVec_mulVec, solves]
  · have component : (f.q.matrix m n)ᵀ *ᵥ z = y := by
      refine sub_eq_zero.mp (eq_zero_of_mulVec_eq_zero (M := (f.r.matrix n n)ᵀ) ?_ ?_)
      · rw [det_transpose]
        exact h.det_ne_zero regular
      · rw [mulVec_sub, ← transposed, hz, solves, sub_self]
    rw [h.mulVec_dotProduct_mulVec, ← component]
    exact h.transpose_mulVec_dotProduct_self_le z

end QrFactors.Factors

namespace QrSolver
variable {m n : ℕ} {f : QrFactors ℝ} {A : Matrix (Fin m) (Fin n) ℝ}

theorem exists_solve_direct (solver : QrSolver ℝ) (h : f.Factors A) {b : Vec ℝ}
    (hb : b.length = m) :
    ∃ x, solver.solve ⟨f, false⟩ b = .ok (x, .successful) ∧ x.length = n ∧
      Triangular.SolvesCut (solver.cutoff f) (f.r.matrix n n) (Vec.coords n x)
        ((f.q.matrix m n)ᵀ *ᵥ Vec.coords m b) := by
  have rotated : (f.q.transposeMulVec b n).length = n := Rows.length_transposeMulVec f.q b n
  refine ⟨_, solver.solve_direct h.toShaped hb, ?_, ?_⟩
  · rw [Triangular.length_backSubstitute, rotated]
  · have solves : Triangular.SolvesCut (solver.cutoff f) _ _ _ :=
      Triangular.backSubstitute_solvesCut h.length_r h.width_r h.triangular rotated
    rw [Rows.coords_transposeMulVec b h.width_q, h.length_q] at solves
    exact solves

theorem exists_solve_transposed (solver : QrSolver ℝ) (h : f.Factors A) {b : Vec ℝ}
    (hb : b.length = n) :
    ∃ x y, solver.solve ⟨f, true⟩ b = .ok (x, .successful) ∧ x.length = m ∧
      Vec.coords m x = f.q.matrix m n *ᵥ y ∧
      Triangular.SolvesCut (solver.cutoff f) (f.r.matrix n n)ᵀ y (Vec.coords n b) := by
  refine ⟨_, _, solver.solve_transposed h.toShaped hb, ?_, Rows.coords_mulVec f.q _ h.width_q, ?_⟩
  · rw [Rows.length_mulVec, h.length_q]
  · exact Triangular.forwardSubstitute_solvesCut h.length_r h.width_r h.triangular hb

/-- No pivot is zero or cut. -/
def KeepsAll (solver : QrSolver ℝ) (f : QrFactors ℝ) : Prop :=
  ∀ p ∈ f.r.diagonal, p ≠ 0 ∧ solver.cutoff f < |p|

theorem KeepsAll.diagonal {solver : QrSolver ℝ} (keeps : solver.KeepsAll f) (h : f.Factors A)
    (i : Fin n) : f.r.matrix n n i i ≠ 0 ∧ solver.cutoff f < |f.r.matrix n n i i| :=
  keeps _ ((Triangular.mem_diagonal_iff h.length_r).mpr ⟨i, rfl⟩)

theorem cutoff_nonneg {solver : QrSolver ℝ} (nonneg : ∀ r ∈ solver.rcond, 0 ≤ r)
    (f : QrFactors ℝ) : 0 ≤ solver.cutoff f := by
  refine mul_nonneg ?_ (Vec.maxNorm_nonneg _)
  cases hr : solver.rcond with
  | none =>
    have epsilon : 0 ≤ (Scalar.epsilon : ℝ) := by
      change (0 : ℝ) ≤ (2 ^ 52)⁻¹
      positivity
    exact mul_nonneg epsilon (Int.cast_nonneg (Int.natCast_nonneg _))
  | some r => exact nonneg r hr

/-- A pivot that exceeds a cutoff is not zero, unless the cutoff is negative. -/
theorem keepsAll_of_exceeds {solver : QrSolver ℝ}
    (regular : (∀ r ∈ solver.rcond, 0 ≤ r) ∨ 0 ∉ f.r.diagonal)
    (exceeds : ∀ p ∈ f.r.diagonal, solver.cutoff f < |p|) : solver.KeepsAll f := by
  intro p hp
  refine ⟨?_, exceeds p hp⟩
  rcases regular with nonneg | nonzero
  · exact abs_pos.mp ((cutoff_nonneg nonneg f).trans_lt (exceeds p hp))
  · exact ne_of_mem_of_not_mem hp nonzero

theorem exists_factor_tall (solver : QrSolver ℝ) {a : Dense ℝ} (nonempty : a.rows ≠ [])
    (tall : a.inSize ≤ a.rows.length) :
    ∃ f, solver.factor (.dense a) = .ok ⟨f, false⟩ ∧ f.Factors a.matrix := by
  obtain ⟨f, hf, factors⟩ := QrFactors.exists_factors (a.width_rows nonempty) a.rectangular tall
  refine ⟨f, ?_, factors⟩
  rw [solver.factor_tall tall, hf]
  rfl

theorem exists_factor_wide (solver : QrSolver ℝ) {a : Dense ℝ} (nonempty : a.rows ≠ [])
    (wide : a.rows.length < a.inSize) :
    ∃ f, solver.factor (.dense a) = .ok ⟨f, true⟩ ∧ f.Factors a.matrixᵀ := by
  have width := a.width_rows nonempty
  have height := a.length_transpose_rows width
  obtain ⟨f, hf, factors⟩ := QrFactors.exists_factors (a.width_transpose_rows width wide)
    a.transpose.rectangular (height ▸ Nat.le_of_lt wide)
  refine ⟨f, ?_, ?_⟩
  · rw [solver.factor_wide wide, hf]
    rfl
  · rw [height] at factors
    exact a.matrix_transpose width ▸ factors

theorem exists_leastSquares {solver : QrSolver ℝ} (keeps : solver.KeepsAll f) (h : f.Factors A)
    {b : Vec ℝ} (hb : b.length = m) :
    ∃ x, solver.solve ⟨f, false⟩ b = .ok (x, .successful) ∧ x.length = n ∧
      NormalEquations A (Vec.coords m b) (Vec.coords n x) ∧
      ∀ z, NormalEquations A (Vec.coords m b) z → z = Vec.coords n x := by
  obtain ⟨x, hx, length_x, solves⟩ := solver.exists_solve_direct h hb
  have regular (i : Fin n) := (keeps.diagonal h i).1
  have triangle : f.r.matrix n n *ᵥ Vec.coords n x = (f.q.matrix m n)ᵀ *ᵥ Vec.coords m b :=
    funext fun i => solves.kept i (keeps.diagonal h i).2 (regular i)
  have normal := (h.normalEquations_iff regular).mpr triangle
  exact ⟨x, hx, length_x, normal, fun z => h.eq_of_normalEquations regular normal⟩

theorem exists_minimumNorm {solver : QrSolver ℝ} (keeps : solver.KeepsAll f) (h : f.Factors A)
    {b : Vec ℝ} (hb : b.length = n) :
    ∃ x, solver.solve ⟨f, true⟩ b = .ok (x, .successful) ∧ x.length = m ∧
      MinimumNorm Aᵀ (Vec.coords n b) (Vec.coords m x) := by
  obtain ⟨x, y, hx, length_x, coords_x, solves⟩ := solver.exists_solve_transposed h hb
  have regular (i : Fin n) := (keeps.diagonal h i).1
  have triangle : (f.r.matrix n n)ᵀ *ᵥ y = Vec.coords n b :=
    funext fun i => solves.kept i (keeps.diagonal h i).2 (regular i)
  exact ⟨x, hx, length_x, coords_x ▸ h.minimumNorm regular triangle⟩

/-- The solve gives what the pseudo-inverse gives when every pivot exceeds the cutoff. With a
negative `rcond` a zero pivot exceeds it too, so there has to be none. -/
theorem factor_solve_pseudoinverse (solver : QrSolver ℝ) (a : Dense ℝ) (b : Vec ℝ)
    (nonempty : a.rows ≠ []) (hb : b.length = a.rows.length) :
    ∃ s, solver.factor (.dense a) = .ok s ∧
      ((∀ r ∈ solver.rcond, 0 ≤ r) ∨ 0 ∉ s.factors.r.diagonal →
        (∀ p ∈ s.factors.r.diagonal, solver.cutoff s.factors < |p|) →
        ∃ x, solver.solve s b = .ok (x, .successful) ∧ x.length = a.inSize ∧
          (a.inSize ≤ a.rows.length →
            NormalEquations a.matrix (Vec.coords _ b) (Vec.coords _ x) ∧
            ∀ z, NormalEquations a.matrix (Vec.coords _ b) z → z = Vec.coords _ x) ∧
          (a.rows.length < a.inSize →
            MinimumNorm a.matrix (Vec.coords _ b) (Vec.coords _ x))) := by
  rcases Nat.lt_or_ge a.rows.length a.inSize with wide | tall
  · obtain ⟨f, hf, factors⟩ := solver.exists_factor_wide nonempty wide
    refine ⟨_, hf, fun regular exceeds => ?_⟩
    obtain ⟨x, hx, length_x, least⟩ :=
      exists_minimumNorm (keepsAll_of_exceeds regular exceeds) factors hb
    exact ⟨x, hx, length_x, fun tall => absurd wide tall.not_gt, fun _ => least⟩
  · obtain ⟨f, hf, factors⟩ := solver.exists_factor_tall nonempty tall
    refine ⟨_, hf, fun regular exceeds => ?_⟩
    obtain ⟨x, hx, length_x, normal⟩ :=
      exists_leastSquares (keepsAll_of_exceeds regular exceeds) factors hb
    exact ⟨x, hx, length_x, fun _ => normal, fun wide => absurd wide tall.not_gt⟩

/-- One column of two ones. -/
def onesColumn : Dense ℝ := ⟨[[1], [1]], 1, by simp⟩

/-- A single pivot is its own largest one, and the usual cutoff is a small part of it. -/
private theorem exceeds_of_column {A : Matrix (Fin 2) (Fin 1) ℝ} (h : f.Factors A)
    (nonzero : A 0 0 ≠ 0) : ∀ p ∈ f.r.diagonal, (⟨none⟩ : QrSolver ℝ).cutoff f < |p| := by
  obtain ⟨row, rest, hr⟩ := List.exists_cons_of_length_eq_add_one h.length_r
  obtain rfl : rest = [] := by simpa [hr] using h.length_r
  obtain ⟨pivot, above, rfl⟩ := List.exists_cons_of_length_eq_add_one (h.width_r row (by simp [hr]))
  have entry := congrFun (congrFun h.product 0) 0
  have pivot_ne_zero : pivot ≠ 0 := fun zero => nonzero (by
    rw [← entry, mul_apply]
    simp [hr, Rows.matrix_apply, zero])
  have diagonal : f.r.diagonal = [pivot] := by simp [hr, Rows.diagonal]
  have cutoff : (⟨none⟩ : QrSolver ℝ).cutoff f = (2 ^ 52)⁻¹ * 2 * |pivot| := by
    simp [QrSolver.cutoff, QrFactors.maxDiagonal, diagonal, Vec.maxNorm, QrFactors.rows,
      QrFactors.columns, h.length_q, h.length_r]
    exact .inl rfl
  have positive := abs_pos.mpr pivot_ne_zero
  intro p hp
  obtain rfl : p = pivot := by simpa [diagonal] using hp
  rw [cutoff]
  linarith

theorem factor_solve_pseudoinverse_column :
    ∃ s x, (⟨none⟩ : QrSolver ℝ).factor (.dense onesColumn) = .ok s ∧
      (∀ p ∈ s.factors.r.diagonal, (⟨none⟩ : QrSolver ℝ).cutoff s.factors < |p|) ∧
      (⟨none⟩ : QrSolver ℝ).solve s [1, 0] = .ok (x, .successful) ∧
      NormalEquations onesColumn.matrix (Vec.coords _ [1, 0]) (Vec.coords _ x) := by
  obtain ⟨f, hf, factors⟩ := exists_factor_tall ⟨none⟩ (a := onesColumn) (by simp [onesColumn])
    (by simp [onesColumn])
  have exceeds := exceeds_of_column factors (by simp [onesColumn, Dense.matrix])
  obtain ⟨s, hs, result⟩ := factor_solve_pseudoinverse ⟨none⟩ onesColumn [1, 0]
    (by simp [onesColumn]) (by simp [onesColumn])
  obtain rfl := Except.ok.inj (hf.symm.trans hs)
  obtain ⟨x, hx, -, tall, -⟩ := result (.inl (by simp)) exceeds
  exact ⟨_, x, hf, exceeds, hx, (tall (by simp [onesColumn])).1⟩

/-- Two equal rows that start with a zero. -/
def zeroFirst : Dense ℝ := ⟨[[0, 1], [0, 1]], 2, by simp⟩

theorem normal?_singleton : Householder.normal? [(1 : ℝ)] = some [1] := by
  simp [Householder.normal?, Vec.twoNorm, Vec.sumSquares, Vec.inner]

theorem factor_zeroFirst (solver : QrSolver ℝ) : solver.factor (.dense zeroFirst) =
    .ok ⟨⟨[[1, 0], [0, -1]], [[0, 1], [0, -1]]⟩, false⟩ := by
  have zero : Householder.normal? [(0 : ℝ), 0] = none := by
    simp [Householder.normal?, Vec.twoNorm, Vec.sumSquares, Vec.inner]
  have reduced : Householder.reduce [[(0 : ℝ), 0], [1, 1]] =
      ([none, some [1]], [[0, 1], [0, -1]]) := by
    simp [Householder.reduce, zero, normal?_singleton, Householder.reflect, Vec.inner]
  have width : zeroFirst.rows.width = 2 := rfl
  rw [factor_tall _ (by simp [zeroFirst]), QrFactors.ofRows_eq width zeroFirst.rectangular
    (by simp [zeroFirst])]
  simp [zeroFirst, Rows.columns, reduced, QrFactors.orthonormalColumns, List.range_succ,
    Householder.applyProduct, Householder.reflect, Vec.unit, Vec.inner]

/-- The normal equations of these rows for the right-hand side `(1, 0)` ask for `1/2` in the second
component. -/
private theorem not_normalEquations_of_zero (x : ℝ) :
    ¬ NormalEquations zeroFirst.matrix (Vec.coords _ [1, 0]) (Vec.coords _ [x, 0]) := by
  intro normal
  have entry : ((Rows.matrix 2 2 [[0, 1], [0, 1]])ᵀ *ᵥ
      (Rows.matrix 2 2 [[0, 1], [0, 1]] *ᵥ Vec.coords 2 [x, 0] - Vec.coords 2 [1, 0])) 1 = 0 :=
    congrFun normal (1 : Fin 2)
  simp [Rows.matrix_apply, mulVec, dotProduct, Fin.sum_univ_two] at entry

/-- With `rcond = -1` a zero pivot exceeds the cutoff and is divided by, and what is returned does
not satisfy the normal equations. -/
theorem not_normalEquations_negative_rcond : ∃ s x,
    (⟨some (-1)⟩ : QrSolver ℝ).factor (.dense zeroFirst) = .ok s ∧
      (∀ p ∈ s.factors.r.diagonal, (⟨some (-1)⟩ : QrSolver ℝ).cutoff s.factors < |p|) ∧
      (⟨some (-1)⟩ : QrSolver ℝ).solve s [1, 0] = .ok (x, .successful) ∧
      ¬ NormalEquations zeroFirst.matrix (Vec.coords _ [1, 0]) (Vec.coords _ x) := by
  have cutoff : (⟨some (-1)⟩ : QrSolver ℝ).cutoff ⟨[[1, 0], [0, -1]], [[0, 1], [0, -1]]⟩ = -1 := by
    simp [QrSolver.cutoff, QrFactors.maxDiagonal, Rows.diagonal, Vec.maxNorm]
  refine ⟨_, [1 / 0, 0], factor_zeroFirst _, ?_, ?_, not_normalEquations_of_zero _⟩
  · rw [cutoff]
    intro p _
    exact neg_one_lt_zero.trans_le (abs_nonneg p)
  · simp [solve, Factored.inSize, QrFactors.rows, QrFactors.columns, cutoff,
      Triangular.solveUpper, Triangular.servesBack, Triangular.backSubstitute, Triangular.isCut,
      Rows.transposeMulVec, Vec.accumulate, Vec.fill]

/-- A solve that keeps every pivot satisfies the normal equations, for a matrix of any shape. -/
theorem normalEquations_of_solve {solver : QrSolver ℝ} {a : Dense ℝ} (nonempty : a.rows ≠ [])
    {s : Factored ℝ} (hs : solver.factor (.dense a) = .ok s) (keeps : solver.KeepsAll s.factors)
    {b : Vec ℝ} {found : Vec ℝ × Status} (h : solver.solve s b = .ok found) :
    NormalEquations a.matrix (Vec.coords _ b) (Vec.coords _ found.1) := by
  have hb := solver.length_eq_of_solve h
  rcases Nat.lt_or_ge a.rows.length a.inSize with wide | tall
  · obtain ⟨f, hf, factors⟩ := solver.exists_factor_wide nonempty wide
    obtain rfl := Except.ok.inj (hf.symm.trans hs)
    obtain ⟨x, hx, -, least⟩ := exists_minimumNorm keeps factors (hb.trans factors.length_r)
    obtain rfl := Except.ok.inj (hx.symm.trans h)
    have solves := least.solves
    rw [transpose_transpose] at solves
    rw [NormalEquations, solves, sub_self, mulVec_zero]
  · obtain ⟨f, hf, factors⟩ := solver.exists_factor_tall nonempty tall
    obtain rfl := Except.ok.inj (hf.symm.trans hs)
    obtain ⟨x, hx, -, normal, -⟩ := exists_leastSquares keeps factors (hb.trans factors.length_q)
    obtain rfl := Except.ok.inj (hx.symm.trans h)
    exact normal

/-- The products of the columns with the right-hand side are all zero, or such a solve leads uphill
for them. -/
theorem transposeMulVec_eq_fill_or_inner_pos {solver : QrSolver ℝ} {a : Dense ℝ} {s : Factored ℝ}
    (hs : solver.factor (.dense a) = .ok s) (keeps : solver.KeepsAll s.factors) {b : Vec ℝ}
    {found : Vec ℝ × Status} (h : solver.solve s b = .ok found) :
    a.rows.transposeMulVec b a.inSize = Vec.fill a.inSize 0 ∨
      0 < Vec.inner (a.rows.transposeMulVec b a.inSize) found.1 := by
  by_cases nonempty : a.rows = []
  · left
    rw [nonempty]
    rfl
  · have coords : Vec.coords a.inSize (a.rows.transposeMulVec b a.inSize) =
        a.matrixᵀ *ᵥ Vec.coords a.rows.length b := Rows.coords_transposeMulVec b a.rectangular
    have length := Rows.length_transposeMulVec a.rows b a.inSize
    rcases (normalEquations_of_solve nonempty hs keeps h).eq_zero_or_dotProduct_pos with
      zero | positive
    · left
      apply Vec.eq_of_coords_eq length (Vec.length_fill ..)
      rw [coords, zero, Vec.coords_fill_zero]
    · right
      rw [Vec.inner_eq_dotProduct _ length.le, coords]
      exact positive

/-- With `rcond = 0` exactly the zero pivots are cut. -/
theorem cutoff_zero (f : QrFactors ℝ) : (⟨some 0⟩ : QrSolver ℝ).cutoff f = 0 := zero_mul _

/-- The rows with a zero pivot, each times what its equation misses. -/
noncomputable def dropped (f : QrFactors ℝ) (b : Fin m → ℝ) (x : Fin n → ℝ) : Fin n → ℝ :=
  ∑ i with f.r.matrix n n i i = 0,
    (f.r.matrix n n *ᵥ x - (f.q.matrix m n)ᵀ *ᵥ b) i • f.r.matrix n n i

/-- The rows of the triangle whose pivot is cut make up what is left of the normal equations. -/
theorem exists_solve_zero_rcond (h : f.Factors A) {b : Vec ℝ} (hb : b.length = m) :
    ∃ x, (⟨some 0⟩ : QrSolver ℝ).solve ⟨f, false⟩ b = .ok (x, .successful) ∧ x.length = n ∧
      Aᵀ *ᵥ (A *ᵥ Vec.coords n x - Vec.coords m b) =
        dropped f (Vec.coords m b) (Vec.coords n x) := by
  obtain ⟨x, hx, length_x, solves⟩ := exists_solve_direct ⟨some 0⟩ h hb
  rw [cutoff_zero] at solves
  refine ⟨x, hx, length_x, ?_⟩
  rw [h.transpose_mulVec_residual, mulVec_transpose, vecMul_eq_sum, dropped, Finset.sum_filter]
  refine Finset.sum_congr rfl fun i _ => ?_
  split
  · rfl
  · next nonzero =>
    rw [Pi.sub_apply, solves.kept i (abs_pos.mpr nonzero) nonzero, sub_self, zero_smul]

/-- With zero pivots cut, the solve is a least-squares solve for every right-hand side only if each
row with a zero pivot is zero. -/
theorem rows_eq_zero_of_forall_normalEquations (h : f.Factors A)
    (normal : ∀ b x, b.length = m →
      (⟨some 0⟩ : QrSolver ℝ).solve ⟨f, false⟩ b = .ok (x, .successful) →
        NormalEquations A (Vec.coords m b) (Vec.coords n x))
    (i : Fin n) (zero : f.r.matrix n n i i = 0) : f.r.matrix n n i = 0 := by
  -- The right-hand side is column `i` of `Q`; only the cut equation asks for it.
  have rotated : (f.q.matrix m n)ᵀ *ᵥ (f.q.matrix m n).col i = Pi.single i 1 := by
    rw [← mulVec_single_one, h.transpose_mulVec_mulVec]
  obtain ⟨x, hx, -, solves⟩ := exists_solve_direct ⟨some 0⟩ h
    (b := List.ofFn ((f.q.matrix m n).col i)) List.length_ofFn
  have equations := normal _ x List.length_ofFn hx
  rw [cutoff_zero, Vec.coords_ofFn, rotated] at solves
  have vanishes : Triangular.SolvesCut 0 (f.r.matrix n n) 0 (Pi.single i 1) := by
    constructor
    · intro _ _
      rfl
    · intro k _ nonzero
      have ne : k ≠ i := by
        rintro rfl
        exact nonzero zero
      rw [mulVec_zero, Pi.single_eq_of_ne ne, Pi.zero_apply]
  have x_zero := solves.unique vanishes le_rfl h.triangular
  rw [NormalEquations, h.transpose_mulVec_residual, Vec.coords_ofFn, rotated, x_zero, mulVec_zero,
    zero_sub, mulVec_neg, neg_eq_zero, mulVec_single_one] at equations
  exact equations

/-- A solve with `rcond = 0` satisfies the normal equations up to the rows of `R` whose pivot is
zero. They hold for every right-hand side exactly if these rows are zero: a zero pivot with an entry
to its right drops an equation that a least-squares solution needs. -/
theorem solve_zero_rcond_normalEquations (a : Dense ℝ) (nonempty : a.rows ≠ [])
    (tall : a.inSize ≤ a.rows.length) :
    ∃ f, (⟨some 0⟩ : QrSolver ℝ).factor (.dense a) = .ok ⟨f, false⟩ ∧ f.Factors a.matrix ∧
      (∀ b, b.length = a.rows.length →
        ∃ x, (⟨some 0⟩ : QrSolver ℝ).solve ⟨f, false⟩ b = .ok (x, .successful) ∧
          x.length = a.inSize ∧
          a.matrixᵀ *ᵥ (a.matrix *ᵥ Vec.coords _ x - Vec.coords _ b) =
            dropped f (Vec.coords a.rows.length b) (Vec.coords a.inSize x)) ∧
      ((∀ b x, b.length = a.rows.length →
          (⟨some 0⟩ : QrSolver ℝ).solve ⟨f, false⟩ b = .ok (x, .successful) →
            NormalEquations a.matrix (Vec.coords _ b) (Vec.coords _ x)) ↔
        ∀ i, f.r.matrix a.inSize a.inSize i i = 0 → f.r.matrix a.inSize a.inSize i = 0) := by
  obtain ⟨f, hf, factors⟩ := exists_factor_tall ⟨some 0⟩ nonempty tall
  refine ⟨f, hf, factors, fun b => exists_solve_zero_rcond factors,
    rows_eq_zero_of_forall_normalEquations factors, fun rows b x hb hx => ?_⟩
  obtain ⟨x', hx', -, residual⟩ := exists_solve_zero_rcond factors hb
  obtain rfl : x' = x := congrArg Prod.fst (Except.ok.inj (hx'.symm.trans hx))
  rw [NormalEquations, residual, dropped]
  refine Finset.sum_eq_zero fun i hi => ?_
  rw [rows i (Finset.mem_filter.mp hi).2, smul_zero]

theorem solve_zero_rcond_normalEquations_zeroFirst :
    ∃ f, (⟨some 0⟩ : QrSolver ℝ).factor (.dense zeroFirst) = .ok ⟨f, false⟩ ∧
      ((∀ b x, b.length = 2 →
          (⟨some 0⟩ : QrSolver ℝ).solve ⟨f, false⟩ b = .ok (x, .successful) →
            NormalEquations zeroFirst.matrix (Vec.coords _ b) (Vec.coords _ x)) ↔
        ∀ i, f.r.matrix 2 2 i i = 0 → f.r.matrix 2 2 i = 0) := by
  obtain ⟨f, hf, -, -, condition⟩ := solve_zero_rcond_normalEquations zeroFirst
    (by simp [zeroFirst]) (by simp [zeroFirst])
  exact ⟨f, hf, condition⟩

theorem not_normalEquations_zeroFirst : ∃ s x,
    (⟨some 0⟩ : QrSolver ℝ).factor (.dense zeroFirst) = .ok s ∧
      (⟨some 0⟩ : QrSolver ℝ).solve s [1, 0] = .ok (x, .successful) ∧
      ¬ NormalEquations zeroFirst.matrix (Vec.coords _ [1, 0]) (Vec.coords _ x) := by
  refine ⟨_, [0, 0], factor_zeroFirst _, ?_, not_normalEquations_of_zero 0⟩
  simp [solve, Factored.inSize, QrFactors.rows, QrFactors.columns, cutoff_zero,
    Triangular.solveUpper, Triangular.servesBack, Triangular.backSubstitute, Triangular.isCut,
    Rows.transposeMulVec, Vec.accumulate, Vec.fill]

end QrSolver
end DualOpt
