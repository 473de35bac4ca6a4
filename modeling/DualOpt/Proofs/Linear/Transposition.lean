import DualOpt.Proofs.Linear.LeastSquares

/-!
A solve is linear, and the transposed state solves with the transpose.

Neither needs the factored matrix to be regular. Where pivots are cut, the two substitutions work on
the same rows and columns of the triangle, and each leaves the same components at zero.
-/
namespace DualOpt

open Matrix

/-- Maps that are adjoint to each other apply a matrix and its transpose. -/
theorem exists_matrix_of_adjoint {m n : ℕ} {f : (Fin m → ℝ) → Fin n → ℝ}
    {g : (Fin n → ℝ) → Fin m → ℝ} (adjoint : ∀ u w, f u ⬝ᵥ w = u ⬝ᵥ g w) :
    ∃ P : Matrix (Fin n) (Fin m) ℝ, (∀ u, f u = P *ᵥ u) ∧ ∀ w, g w = Pᵀ *ᵥ w := by
  let P : Matrix (Fin n) (Fin m) ℝ := of fun i => g (Pi.single i 1)
  have forward (u : Fin m → ℝ) : f u = P *ᵥ u := by
    funext i
    calc f u i = f u ⬝ᵥ Pi.single i 1 := (dotProduct_single_one (f u) i).symm
      _ = g (Pi.single i 1) ⬝ᵥ u := by rw [adjoint, dotProduct_comm]
      _ = (P *ᵥ u) i := rfl
  refine ⟨P, forward, fun w => funext fun j => ?_⟩
  calc g w j = f (Pi.single j 1) ⬝ᵥ w := by rw [adjoint, single_one_dotProduct]
    _ = Pi.single j 1 ⬝ᵥ (Pᵀ *ᵥ w) := by
      rw [forward, dotProduct_comm, dotProduct_mulVec, ← mulVec_transpose, dotProduct_comm]
    _ = (Pᵀ *ᵥ w) j := single_one_dotProduct j _

namespace Vec

theorem ofFn_coords {n : ℕ} {x : Vec ℝ} (hx : x.length = n) : List.ofFn (coords n x) = x :=
  eq_of_coords_eq List.length_ofFn hx (coords_ofFn _)

end Vec

namespace Triangular
variable {n : ℕ} {cutoff : ℝ} {M : Matrix (Fin n) (Fin n) ℝ} {x b y w : Fin n → ℝ}

/-- A solution of a cut system meets all its equations as far as a vector sees that is zero where
the pivots are cut. -/
theorem SolvesCut.dotProduct_eq (h : SolvesCut cutoff M x b)
    (regular : ∀ i, cutoff < |M i i| → M i i ≠ 0) (zeros : ∀ i, |M i i| ≤ cutoff → y i = 0) :
    y ⬝ᵥ (M *ᵥ x) = y ⬝ᵥ b := by
  refine Finset.sum_congr rfl fun i _ => ?_
  by_cases cut : |M i i| ≤ cutoff
  · rw [zeros i cut, zero_mul, zero_mul]
  · have large := not_le.mp cut
    rw [h.kept i large (regular i large)]

/-- Solving a cut system is adjoint to solving its transpose. -/
theorem SolvesCut.adjoint (hx : SolvesCut cutoff M x b) (hy : SolvesCut cutoff Mᵀ y w)
    (regular : ∀ i, cutoff < |M i i| → M i i ≠ 0) : x ⬝ᵥ w = b ⬝ᵥ y :=
  calc x ⬝ᵥ w = x ⬝ᵥ (Mᵀ *ᵥ y) := (hy.dotProduct_eq regular hx.cut).symm
    _ = y ⬝ᵥ (M *ᵥ x) := by rw [mulVec_transpose, dotProduct_comm, ← dotProduct_mulVec]
    _ = y ⬝ᵥ b := hx.dotProduct_eq regular hy.cut
    _ = b ⬝ᵥ y := dotProduct_comm y b

end Triangular

namespace QrSolver
variable {m n : ℕ} {f : QrFactors ℝ} {A : Matrix (Fin m) (Fin n) ℝ}

/-- The solve of a state applies a matrix to every right-hand side. -/
def Applies (solver : QrSolver ℝ) (s : Factored ℝ) (P : Matrix (Fin n) (Fin m) ℝ) : Prop :=
  ∀ b, b.length = m → ∃ x, solver.solve s b = .ok (x, .successful) ∧ x.length = n ∧
    Vec.coords n x = P *ᵥ Vec.coords m b

/-- No pivot that is kept is zero. -/
def Divides (solver : QrSolver ℝ) (f : QrFactors ℝ) : Prop :=
  ∀ p ∈ f.r.diagonal, solver.cutoff f < |p| → p ≠ 0

theorem divides_of_nonneg {solver : QrSolver ℝ} (nonneg : ∀ r ∈ solver.rcond, 0 ≤ r)
    (f : QrFactors ℝ) : solver.Divides f :=
  fun _ _ large => abs_pos.mp ((cutoff_nonneg nonneg f).trans_lt large)

theorem KeepsAll.divides {solver : QrSolver ℝ} (keeps : solver.KeepsAll f) : solver.Divides f :=
  fun p hp _ => (keeps p hp).1

/-- The two directions through the same factors apply a matrix and its transpose. -/
theorem exists_applies {solver : QrSolver ℝ} (divides : solver.Divides f) (h : f.Factors A) :
    ∃ P : Matrix (Fin n) (Fin m) ℝ, solver.Applies ⟨f, false⟩ P ∧ solver.Applies ⟨f, true⟩ Pᵀ := by
  have regular (i : Fin n) : solver.cutoff f < |f.r.matrix n n i i| → f.r.matrix n n i i ≠ 0 :=
    divides _ ((Triangular.mem_diagonal_iff h.length_r).mpr ⟨i, rfl⟩)
  choose x hx length_x solves using fun u : Fin m → ℝ =>
    solver.exists_solve_direct h (b := List.ofFn u) List.length_ofFn
  choose z y hz length_z coords_z solves' using fun w : Fin n → ℝ =>
    solver.exists_solve_transposed h (b := List.ofFn w) List.length_ofFn
  have adjoint (u : Fin m → ℝ) (w : Fin n → ℝ) :
      Vec.coords n (x u) ⬝ᵥ w = u ⬝ᵥ Vec.coords m (z w) := by
    have cut := (solves u).adjoint (solves' w) regular
    rw [Vec.coords_ofFn, Vec.coords_ofFn] at cut
    rw [cut, coords_z, mulVec_transpose, ← dotProduct_mulVec]
  obtain ⟨P, forward, backward⟩ := exists_matrix_of_adjoint adjoint
  refine ⟨P, fun b hb => ⟨x (Vec.coords m b), ?_, length_x _, forward _⟩,
    fun b hb => ⟨z (Vec.coords n b), ?_, length_z _, backward _⟩⟩
  · have solved := hx (Vec.coords m b)
    rwa [Vec.ofFn_coords hb] at solved
  · have solved := hz (Vec.coords n b)
    rwa [Vec.ofFn_coords hb] at solved

/-- A state applies a matrix, and the state with its flag turned applies the transpose. -/
theorem exists_factor_applies {solver : QrSolver ℝ} (nonneg : ∀ r ∈ solver.rcond, 0 ≤ r)
    {a : Dense ℝ} (nonempty : a.rows ≠ []) :
    ∃ s, solver.factor (.dense a) = .ok s ∧
      ∃ P : Matrix (Fin a.inSize) (Fin a.rows.length) ℝ,
        solver.Applies s P ∧ solver.Applies s.transpose Pᵀ := by
  rcases Nat.lt_or_ge a.rows.length a.inSize with wide | tall
  · obtain ⟨f, hf, factors⟩ := solver.exists_factor_wide nonempty wide
    obtain ⟨P, direct, transposed⟩ := exists_applies (divides_of_nonneg nonneg f) factors
    exact ⟨_, hf, Pᵀ, transposed, direct⟩
  · obtain ⟨f, hf, factors⟩ := solver.exists_factor_tall nonempty tall
    obtain ⟨P, direct, transposed⟩ := exists_applies (divides_of_nonneg nonneg f) factors
    exact ⟨_, hf, P, direct, transposed⟩

/-- Turning the flag of a state turns the matrix that a solve applies into its transpose, whatever
pivots are cut: the solutions of both have the same inner products with the right-hand sides. -/
theorem solve_transpose_adjoint (solver : QrSolver ℝ) (nonneg : ∀ r ∈ solver.rcond, 0 ≤ r)
    (a : Dense ℝ) (nonempty : a.rows ≠ []) :
    ∃ s, solver.factor (.dense a) = .ok s ∧
      (∃ P : Matrix (Fin a.inSize) (Fin a.rows.length) ℝ,
        solver.Applies s P ∧ solver.Applies s.transpose Pᵀ) ∧
      ∀ u w, u.length = a.rows.length → w.length = a.inSize →
        ∃ x z, solver.solve s u = .ok (x, .successful) ∧
          solver.solve s.transpose w = .ok (z, .successful) ∧
          Vec.inner x w = Vec.inner u z := by
  obtain ⟨s, hs, P, applies, transposed⟩ := exists_factor_applies nonneg nonempty
  refine ⟨s, hs, ⟨P, applies, transposed⟩, fun u w hu hw => ?_⟩
  obtain ⟨x, hx, length_x, coords_x⟩ := applies u hu
  obtain ⟨z, hz, -, coords_z⟩ := transposed w hw
  refine ⟨x, z, hx, hz, ?_⟩
  rw [Vec.inner_eq_dotProduct w length_x.le, Vec.inner_eq_dotProduct z hu.le, coords_x, coords_z,
    mulVec_transpose, dotProduct_comm, dotProduct_mulVec, dotProduct_comm]

/-- A cut pivot that stands before a kept one. -/
theorem solve_transpose_adjoint_zeroFirst :
    ∃ x z, (⟨some 0⟩ : QrSolver ℝ).solve ⟨⟨[[1, 0], [0, -1]], [[0, 1], [0, -1]]⟩, false⟩ [1, 0] =
        .ok (x, .successful) ∧
      (⟨some 0⟩ : QrSolver ℝ).solve ⟨⟨[[1, 0], [0, -1]], [[0, 1], [0, -1]]⟩, true⟩ [2, 3] =
        .ok (z, .successful) ∧
      Vec.inner x [2, 3] = Vec.inner [1, 0] z := by
  obtain ⟨s, hs, -, adjoint⟩ := solve_transpose_adjoint ⟨some 0⟩
    (fun r hr => (Option.some.inj hr).le) zeroFirst (by simp [zeroFirst])
  obtain rfl := Except.ok.inj ((factor_zeroFirst _).symm.trans hs)
  exact adjoint [1, 0] [2, 3] rfl rfl

end QrSolver
end DualOpt
