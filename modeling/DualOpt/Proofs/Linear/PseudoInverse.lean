import Mathlib.LinearAlgebra.Matrix.Rank
import DualOpt.Proofs.Linear.Transposition

/-!
The pseudo-inverse of a matrix, by the four equations that determine it.

A solve that keeps every pivot applies it. That it gives least squares or least norm follows from
the equations alone, so a tall and a wide matrix need no arguments of their own.
-/
namespace DualOpt

open Matrix

section Projection
variable {n : ℕ} {E : Matrix (Fin n) (Fin n) ℝ}

theorem dotProduct_projection (symmetric : Eᵀ = E) (idempotent : E * E = E) (x : Fin n → ℝ) :
    x ⬝ᵥ (E *ᵥ x) = (E *ᵥ x) ⬝ᵥ (E *ᵥ x) :=
  calc x ⬝ᵥ (E *ᵥ x) = x ⬝ᵥ (Eᵀ *ᵥ (E *ᵥ x)) := by rw [symmetric, mulVec_mulVec, idempotent]
    _ = (E *ᵥ x) ⬝ᵥ (E *ᵥ x) := by
      rw [mulVec_transpose, dotProduct_comm, ← dotProduct_mulVec]

/-- What is left of the square of a vector after a step back along its projection. -/
theorem dotProduct_sub_smul_projection (symmetric : Eᵀ = E) (idempotent : E * E = E)
    (x : Fin n → ℝ) (α : ℝ) :
    (x - α • (E *ᵥ x)) ⬝ᵥ (x - α • (E *ᵥ x)) =
      (x - E *ᵥ x) ⬝ᵥ (x - E *ᵥ x) + (1 - α) ^ 2 * ((E *ᵥ x) ⬝ᵥ (E *ᵥ x)) := by
  have cross := dotProduct_projection symmetric idempotent x
  simp only [sub_dotProduct, dotProduct_sub, smul_dotProduct, dotProduct_smul, smul_eq_mul,
    dotProduct_comm (E *ᵥ x) x, cross]
  ring

end Projection

section Equations
variable {m n : ℕ} {A : Matrix (Fin m) (Fin n) ℝ} {P : Matrix (Fin n) (Fin m) ℝ}
variable {b : Fin m → ℝ} {x y : Fin n → ℝ}

/-- The two products are symmetric, and each matrix undoes the other as far as it can. -/
structure PseudoInverse (A : Matrix (Fin m) (Fin n) ℝ) (P : Matrix (Fin n) (Fin m) ℝ) : Prop where
  inner : A * P * A = A
  outer : P * A * P = P
  symmetric_left : (A * P)ᵀ = A * P
  symmetric_right : (P * A)ᵀ = P * A

/-- The only point where the residual is least. -/
def LeastSquares (A : Matrix (Fin m) (Fin n) ℝ) (b : Fin m → ℝ) (x : Fin n → ℝ) : Prop :=
  ∀ z, z ≠ x → (A *ᵥ x - b) ⬝ᵥ (A *ᵥ x - b) < (A *ᵥ z - b) ⬝ᵥ (A *ᵥ z - b)

/-- The only solution that is nearest to a point. -/
def NearestSolution (A : Matrix (Fin m) (Fin n) ℝ) (b : Fin m → ℝ) (y x : Fin n → ℝ) : Prop :=
  A *ᵥ x = b ∧ ∀ z, A *ᵥ z = b → z ≠ x → (x - y) ⬝ᵥ (x - y) < (z - y) ⬝ᵥ (z - y)

/-- The residual of a solution of the normal equations is orthogonal to what any move adds to it. -/
theorem NormalEquations.leastSquares (h : NormalEquations A b x)
    (injective : ∀ z, A *ᵥ z = 0 → z = 0) : LeastSquares A b x := by
  intro z hz
  have moves : A *ᵥ (z - x) ≠ 0 := fun zero => hz (sub_eq_zero.mp (injective _ zero))
  have orthogonal : (A *ᵥ x - b) ⬝ᵥ (A *ᵥ (z - x)) = 0 := by
    rw [dotProduct_mulVec, ← mulVec_transpose, h, zero_dotProduct]
  have split : A *ᵥ z - b = A *ᵥ x - b + A *ᵥ (z - x) := by
    rw [mulVec_sub]
    abel
  rw [split, add_dotProduct, dotProduct_add, dotProduct_add,
    dotProduct_comm (A *ᵥ (z - x)) (A *ᵥ x - b), orthogonal]
  have := dotProduct_self_pos moves
  linarith

namespace PseudoInverse

theorem transpose (h : PseudoInverse A P) : PseudoInverse Aᵀ Pᵀ where
  inner := by rw [← transpose_mul, ← transpose_mul, ← Matrix.mul_assoc, h.inner]
  outer := by rw [← transpose_mul, ← transpose_mul, ← Matrix.mul_assoc, h.outer]
  symmetric_left := by rw [← transpose_mul, h.symmetric_right, h.symmetric_right]
  symmetric_right := by rw [← transpose_mul, h.symmetric_left, h.symmetric_left]

theorem idempotent_left (h : PseudoInverse A P) : A * P * (A * P) = A * P := by
  rw [← Matrix.mul_assoc, h.inner]

theorem idempotent_right (h : PseudoInverse A P) : P * A * (P * A) = P * A := by
  rw [← Matrix.mul_assoc, h.outer]

theorem normalEquations (h : PseudoInverse A P) (b : Fin m → ℝ) :
    NormalEquations A b (P *ᵥ b) := by
  have absorbed : Aᵀ * (A * P) = Aᵀ := by
    rw [← h.symmetric_left, ← transpose_mul, h.inner]
  rw [NormalEquations, mulVec_sub, mulVec_mulVec, mulVec_mulVec, Matrix.mul_assoc, absorbed,
    sub_self]

/-- A step that the pseudo-inverse proposes leaves nothing for the next one. -/
theorem mulVec_residual (h : PseudoInverse A P) (c : Fin m → ℝ) :
    P *ᵥ (c - A *ᵥ (P *ᵥ c)) = 0 := by
  rw [mulVec_sub, mulVec_mulVec, mulVec_mulVec, h.outer, sub_self]

/-- A step that does not change the product with the matrix is zero. -/
theorem mulVec_eq_zero (h : PseudoInverse A P) {c : Fin m → ℝ} (zero : A *ᵥ (P *ᵥ c) = 0) :
    P *ᵥ c = 0 := by
  rw [← h.outer, ← mulVec_mulVec, ← mulVec_mulVec, zero, mulVec_zero]

/-- Along the proposed step the residual is least at its end. -/
theorem residual_along (h : PseudoInverse A P) (c : Fin m → ℝ) (α : ℝ) :
    (c - α • (A *ᵥ (P *ᵥ c))) ⬝ᵥ (c - α • (A *ᵥ (P *ᵥ c))) =
      (c - A *ᵥ (P *ᵥ c)) ⬝ᵥ (c - A *ᵥ (P *ᵥ c)) +
        (1 - α) ^ 2 * ((A *ᵥ (P *ᵥ c)) ⬝ᵥ (A *ᵥ (P *ᵥ c))) := by
  have along := dotProduct_sub_smul_projection h.symmetric_left h.idempotent_left c α
  rwa [← mulVec_mulVec] at along

/-- A multiple of the proposed step that leaves no more than the whole step is the whole step. -/
theorem smul_eq_of_residual_le (h : PseudoInverse A P) {c : Fin m → ℝ} {α : ℝ}
    (le : (c - α • (A *ᵥ (P *ᵥ c))) ⬝ᵥ (c - α • (A *ᵥ (P *ᵥ c))) ≤
      (c - A *ᵥ (P *ᵥ c)) ⬝ᵥ (c - A *ᵥ (P *ᵥ c))) : α • (P *ᵥ c) = P *ᵥ c := by
  rw [h.residual_along] at le
  by_cases still : A *ᵥ (P *ᵥ c) = 0
  · rw [h.mulVec_eq_zero still, smul_zero]
  · have positive := dotProduct_self_pos still
    have square : (1 - α) ^ 2 = 0 := by
      refine le_antisymm (nonpos_of_mul_nonpos_left ?_ positive) (sq_nonneg _)
      linarith
    rw [← sub_eq_zero.mp (pow_eq_zero_iff two_ne_zero |>.mp square), one_smul]

theorem leastSquares (h : PseudoInverse A P) (left : P * A = 1) (b : Fin m → ℝ) (y : Fin n → ℝ) :
    LeastSquares A b (y - P *ᵥ (A *ᵥ y - b)) := by
  have point : y - P *ᵥ (A *ᵥ y - b) = P *ᵥ b := by
    rw [mulVec_sub, mulVec_mulVec, left, one_mulVec, sub_sub_cancel]
  rw [point]
  refine (h.normalEquations b).leastSquares fun z hz => ?_
  rw [← one_mulVec z, ← left, ← mulVec_mulVec, hz, mulVec_zero]

theorem nearestSolution (h : PseudoInverse A P) (right : A * P = 1) (b : Fin m → ℝ)
    (y : Fin n → ℝ) : NearestSolution A b y (y - P *ᵥ (A *ᵥ y - b)) := by
  constructor
  · rw [mulVec_sub, mulVec_mulVec, right, one_mulVec, sub_sub_cancel]
  · intro z hz ne
    -- The difference to any solution projects onto the difference to this one.
    have projected : (P * A) *ᵥ (z - y) = y - P *ᵥ (A *ᵥ y - b) - y := by
      rw [← mulVec_mulVec, mulVec_sub, hz, ← neg_sub (A *ᵥ y) b, mulVec_neg]
      abel
    have rest : z - y - (P * A) *ᵥ (z - y) ≠ 0 := by
      rw [projected, sub_sub_sub_cancel_right]
      exact sub_ne_zero.mpr ne
    have square := dotProduct_sub_smul_projection h.symmetric_right h.idempotent_right (z - y) 0
    rw [zero_smul, sub_zero, sub_zero, one_pow, one_mul] at square
    rw [square, projected]
    have := dotProduct_self_pos (projected ▸ rest)
    linarith

end PseudoInverse

theorem det_ne_zero_of_rank {M : Matrix (Fin n) (Fin n) ℝ} (full : M.rank = n) : M.det ≠ 0 := by
  rw [rank_eq_finrank_span_cols] at full
  have independent : LinearIndependent ℝ M.col := by
    rw [linearIndependent_iff_card_eq_finrank_span, Fintype.card_fin, Set.finrank, full]
  have unit := linearIndependent_cols_iff_isUnit.mp independent
  exact ((isUnit_iff_isUnit_det M).mp unit).ne_zero

end Equations

namespace QrFactors.Factors
variable {m n : ℕ} {f : QrFactors ℝ} {A : Matrix (Fin m) (Fin n) ℝ}

theorem diagonal_ne_zero_of_rank (h : f.Factors A) (full : A.rank = n) :
    ∀ p ∈ f.r.diagonal, p ≠ 0 := by
  have rank : (f.r.matrix n n).rank = n := by
    refine le_antisymm (rank_le_width _) ?_
    calc n = (f.q.matrix m n * f.r.matrix n n).rank := by rw [h.product, full]
      _ ≤ (f.r.matrix n n).rank := rank_mul_le_right _ _
  have det := det_ne_zero_of_rank rank
  rw [det_of_isUpperTriangular h.triangular, Finset.prod_ne_zero_iff] at det
  intro p hp
  obtain ⟨i, rfl⟩ := (Triangular.mem_diagonal_iff h.length_r).mp hp
  exact det i (Finset.mem_univ i)

end QrFactors.Factors

namespace QrSolver
variable {m n : ℕ} {f : QrFactors ℝ} {A : Matrix (Fin m) (Fin n) ℝ}

/-- If no pivot is cut, both directions apply pseudo-inverses, and the direct one undoes the
matrix. -/
theorem KeepsAll.exists_pseudoInverse {solver : QrSolver ℝ} (keeps : solver.KeepsAll f)
    (h : f.Factors A) :
    ∃ P : Matrix (Fin n) (Fin m) ℝ, solver.Applies ⟨f, false⟩ P ∧ solver.Applies ⟨f, true⟩ Pᵀ ∧
      PseudoInverse A P ∧ P * A = 1 := by
  obtain ⟨P, direct, transposed⟩ := exists_applies keeps.divides h
  set Q := f.q.matrix m n
  set R := f.r.matrix n n
  have regular (i : Fin n) := keeps.diagonal h i
  have triangle : R * P = Qᵀ := by
    refine ext_of_mulVec_single fun j => ?_
    obtain ⟨x, hx, -, solves⟩ := solver.exists_solve_direct h (b := Vec.unit m j)
      (Vec.length_unit m j)
    obtain ⟨x', hx', -, coords_x⟩ := direct (Vec.unit m j) (Vec.length_unit m j)
    obtain rfl : x = x' := congrArg Prod.fst (Except.ok.inj (hx.symm.trans hx'))
    rw [Vec.coords_unit] at coords_x solves
    rw [← mulVec_mulVec, ← coords_x]
    exact funext fun i => solves.kept i (regular i).2 (regular i).1
  have product : A * P = Q * Qᵀ := by rw [← h.product, Matrix.mul_assoc, triangle]
  have left : P * A = 1 := by
    have unit : IsUnit R.det := (h.det_ne_zero fun i => (regular i).1).isUnit
    have cancelled : R * (P * A) = R * 1 := by
      rw [← Matrix.mul_assoc, triangle, ← h.product, ← Matrix.mul_assoc, h.orthonormal,
        Matrix.one_mul, Matrix.mul_one]
    exact (isUnit_iff_isUnit_det R).mpr unit |>.mul_left_cancel cancelled
  refine ⟨P, direct, transposed, ⟨?_, ?_, ?_, ?_⟩, left⟩
  · rw [Matrix.mul_assoc, left, Matrix.mul_one]
  · rw [left, Matrix.one_mul]
  · rw [product, transpose_mul, transpose_transpose]
  · rw [left, transpose_one]

/-- A matrix of full rank whose pivots all exceed the cutoff is solved by its pseudo-inverse, which
undoes it from the left or, if it is wide, from the right. -/
theorem exists_factor_pseudoInverse (solver : QrSolver ℝ) {a : Dense ℝ} (nonempty : a.rows ≠ [])
    (full : a.matrix.rank = min a.rows.length a.inSize)
    (exceeds : ∀ s, solver.factor (.dense a) = .ok s →
      ∀ p ∈ s.factors.r.diagonal, solver.cutoff s.factors < |p|) :
    ∃ s P, solver.factor (.dense a) = .ok s ∧ solver.Applies s P ∧ PseudoInverse a.matrix P ∧
      (a.inSize ≤ a.rows.length → P * a.matrix = 1) ∧
      (a.rows.length < a.inSize → a.matrix * P = 1) := by
  rcases Nat.lt_or_ge a.rows.length a.inSize with wide | tall
  · obtain ⟨f, hf, factors⟩ := solver.exists_factor_wide nonempty wide
    have rank : a.matrixᵀ.rank = a.rows.length := by
      rw [rank_transpose, full, min_eq_left wide.le]
    have keeps : solver.KeepsAll f := fun p hp =>
      ⟨factors.diagonal_ne_zero_of_rank rank p hp, exceeds _ hf p hp⟩
    obtain ⟨P, -, transposed, inverse, left⟩ := keeps.exists_pseudoInverse factors
    refine ⟨_, Pᵀ, hf, transposed, ?_, fun tall => absurd wide tall.not_gt, fun _ => ?_⟩
    · have turned := inverse.transpose
      rwa [transpose_transpose] at turned
    · rw [← transpose_transpose (a.matrix * Pᵀ), transpose_mul, transpose_transpose, left,
        transpose_one]
  · obtain ⟨f, hf, factors⟩ := solver.exists_factor_tall nonempty tall
    have rank : a.matrix.rank = a.inSize := by rw [full, min_eq_right tall]
    have keeps : solver.KeepsAll f := fun p hp =>
      ⟨factors.diagonal_ne_zero_of_rank rank p hp, exceeds _ hf p hp⟩
    obtain ⟨P, direct, -, inverse, left⟩ := keeps.exists_pseudoInverse factors
    exact ⟨_, P, hf, direct, inverse, fun _ => left, fun wide => absurd wide tall.not_gt⟩

/-- With `rcond = 0` the pivots of a matrix of full rank exceed the cutoff. -/
theorem cutoff_lt_of_rank {a : Dense ℝ} (nonempty : a.rows ≠ [])
    (full : a.matrix.rank = min a.rows.length a.inSize) (s : Factored ℝ)
    (hs : (⟨some 0⟩ : QrSolver ℝ).factor (.dense a) = .ok s) :
    ∀ p ∈ s.factors.r.diagonal, (⟨some 0⟩ : QrSolver ℝ).cutoff s.factors < |p| := by
  intro p hp
  rw [cutoff_zero, abs_pos]
  rcases Nat.lt_or_ge a.rows.length a.inSize with wide | tall
  · obtain ⟨f, hf, factors⟩ := exists_factor_wide ⟨some 0⟩ nonempty wide
    obtain rfl := Except.ok.inj (hf.symm.trans hs)
    rw [min_eq_left wide.le, ← rank_transpose] at full
    exact factors.diagonal_ne_zero_of_rank full p hp
  · obtain ⟨f, hf, factors⟩ := exists_factor_tall ⟨some 0⟩ nonempty tall
    obtain rfl := Except.ok.inj (hf.symm.trans hs)
    rw [min_eq_right tall] at full
    exact factors.diagonal_ne_zero_of_rank full p hp

end QrSolver
end DualOpt
