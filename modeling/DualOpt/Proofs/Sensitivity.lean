import DualOpt.Proofs.Expr.Meaning
import DualOpt.Proofs.Forward.Shape
import DualOpt.Proofs.Linear.Transposition

/-!
The derivatives of a solution with respect to parameters, in exact arithmetic.

The full derivative, its product with a parameter tangent and the product of its transpose with a
solution cotangent are found by different solves with the factors of `C_y`. All three apply the one
matrix `-P C_θ`, where `P` is what a solve applies to its right-hand side, whatever the shape and
the rank of `C_y` are.
-/
namespace DualOpt

open Matrix

/-- Yields `m` outputs for every solution of length `n` and every `k` parameters. -/
def Condition.Yields {F : Type} (c : Condition F) (n k m : ℕ) : Prop :=
  ∀ y θ : List (Dual F), y.length = n → θ.length = k →
    ∃ outputs, c y θ = .ok outputs ∧ outputs.length = m

/-- A system of composed expressions yields an output for each of them. -/
theorem System.condition_yields {s : System ℝ} {n k : ℕ}
    (composed : ∀ e ∈ s.outputs, e.Composed n k) : s.condition.Yields n k s.outputs.length := by
  intro y θ hy hθ
  have fits : ∀ e ∈ s.outputs, e.Composed y.length θ.length := by rwa [hy, hθ]
  exact ⟨_, (outputsAt_eq fits).1, List.length_map _⟩

namespace ImplicitAdjoint

/-- One Jacobian in the solution and the parameters, cut into two with as many rows. -/
theorem exists_partialJacobians {F : Type} [Scalar F] {c : Condition F} {y θ : Vec F} {m : ℕ}
    (yields : c.Yields y.length θ.length m) :
    ∃ cy cθ : Rows F, (partialJacobians c y θ).outcome = .ok (cy, cθ) ∧
      cy.length = m ∧ (∀ row ∈ cy, row.length = y.length) ∧
      cθ.length = m ∧ (∀ row ∈ cθ, row.length = θ.length) := by
  have total (d : List (Dual F)) (hd : d.length = (y ++ θ).length) :
      ∃ outputs, c (d.take y.length) (d.drop y.length) = .ok outputs ∧ outputs.length = m := by
    rw [List.length_append] at hd
    exact yields _ _ (by simp [hd]) (by simp [hd])
  obtain ⟨values, jac, hjac, height, width⟩ := exists_jacobian total
  rw [List.length_append] at width
  refine ⟨jac.map (·.take y.length), jac.map (·.drop y.length), ?_, ?_,
    Rows.length_of_mem_take width, ?_, Rows.length_of_mem_drop width⟩
  · simp [partialJacobians, hjac]
  · rw [List.length_map, height]
  · rw [List.length_map, height]

/-- Solving for several right-hand sides applies the matrix to each of them. -/
theorem exists_solveColumns {solver : QrSolver ℝ} {s : Factored ℝ} {m n : ℕ}
    {P : Matrix (Fin n) (Fin m) ℝ} (applies : solver.Applies s P) {bs : List (Vec ℝ)}
    (size : ∀ b ∈ bs, b.length = m) :
    ∃ xs, solveColumns solver s bs = .ok (xs, .successful) ∧ xs.length = bs.length ∧
      ∀ k, Rows.matrix k n xs = Rows.matrix k m bs * Pᵀ := by
  induction bs with
  | nil =>
    refine ⟨[], rfl, rfl, fun k => ?_⟩
    rw [Rows.matrix_nil, Rows.matrix_nil, Matrix.zero_mul]
  | cons b bs ih =>
    obtain ⟨size_b, size_bs⟩ := List.forall_mem_cons.mp size
    obtain ⟨x, hx, -, coords_x⟩ := applies b size_b
    obtain ⟨xs, hxs, length, product⟩ := ih size_bs
    refine ⟨x :: xs, ?_, congrArg (· + 1) length, fun k => ?_⟩
    · simp [solveColumns, hx, hxs, Status.merge, Status.isSuccessful]
    · cases k with
      | zero => exact Subsingleton.elim _ _
      | succ k =>
        funext i
        rw [mul_apply_eq_vecMul, vecMul_transpose]
        refine Fin.cases coords_x (fun i => ?_) i
        rw [Rows.matrix_cons_succ, Rows.matrix_cons_succ, product, mul_apply_eq_vecMul,
          vecMul_transpose]

/-- What the derivatives of a solution start from: the partial Jacobians, the factors of `C_y`, and
the matrix `P` that a solve with them applies. -/
structure Prepared (adjoint : ImplicitAdjoint ℝ) (c : Condition ℝ) (y θ : Vec ℝ) {m : ℕ}
    (a : Dense ℝ) (cθ : Rows ℝ) (s : Factored ℝ) (P : Matrix (Fin y.length) (Fin m) ℝ) : Prop where
  partials : (partialJacobians c y θ).outcome = .ok (a.rows, cθ)
  nonempty : a.rows ≠ []
  height : cθ.length = m
  width : ∀ row ∈ cθ, row.length = θ.length
  factored : adjoint.linearSolver.factor (.dense a) = .ok s
  applies : adjoint.linearSolver.Applies s P
  transposed : adjoint.linearSolver.Applies s.transpose Pᵀ

/-- The derivative of the solution, as a matrix. -/
noncomputable def sensitivity {m n k : ℕ} (P : Matrix (Fin n) (Fin m) ℝ) (cθ : Rows ℝ) :
    Matrix (Fin n) (Fin k) ℝ :=
  -(P * cθ.matrix m k)

section Prepared
variable {adjoint : ImplicitAdjoint ℝ} {c : Condition ℝ} {y θ : Vec ℝ} {m : ℕ} {a : Dense ℝ}
variable {cθ : Rows ℝ} {s : Factored ℝ} {P : Matrix (Fin y.length) (Fin m) ℝ}

/-- Every condition with an output can be prepared for. -/
theorem exists_prepared (nonneg : ∀ r ∈ adjoint.linearSolver.rcond, 0 ≤ r) (some_output : m ≠ 0)
    (yields : c.Yields y.length θ.length m) :
    ∃ a cθ s, ∃ P : Matrix (Fin y.length) (Fin m) ℝ, adjoint.Prepared c y θ a cθ s P := by
  obtain ⟨cy, cθ, partials, rfl, width_y, height, width⟩ := exists_partialJacobians yields
  have nonempty : cy ≠ [] := fun none => some_output (congrArg List.length none)
  obtain ⟨s, factored, P, applies, transposed⟩ :=
    QrSolver.exists_factor_applies nonneg (a := ⟨cy, y.length, width_y⟩) nonempty
  exact ⟨_, cθ, s, P, partials, nonempty, height, width, factored, applies, transposed⟩

/-- The columns of the full derivative are solved for one by one. -/
theorem jacobian_of_applies (partials : (partialJacobians c y θ).outcome = .ok (a.rows, cθ))
    (rows : Dense.ofRows a.rows = .ok a) (height : cθ.length = m)
    (factored : adjoint.linearSolver.factor (.dense a) = .ok s)
    (applies : adjoint.linearSolver.Applies s P) :
    ∃ jac, (adjoint.jacobian c y θ).outcome = .ok (jac, .successful) ∧
      jac.length = y.length ∧ (∀ row ∈ jac, row.length = θ.length) ∧
      jac.matrix y.length θ.length = sensitivity P cθ := by
  have size : ∀ b ∈ (cθ.columns θ.length).map Vec.neg, b.length = m := by
    intro b hb
    obtain ⟨column, hcolumn, rfl⟩ := List.mem_map.mp hb
    rw [Vec.length_neg, Rows.length_of_mem_columns hcolumn, height]
  have count : ((cθ.columns θ.length).map Vec.neg).length = θ.length := by
    rw [List.length_map, Rows.length_columns]
  obtain ⟨xs, hxs, length, product⟩ := exists_solveColumns applies size
  refine ⟨Rows.columns y.length xs, ?_, Rows.length_columns _ _, ?_, ?_⟩
  · simp [ImplicitAdjoint.jacobian, partials, rows, factored, hxs]
  · intro row hrow
    rw [Rows.length_of_mem_columns hrow, length, count]
  · rw [Rows.matrix_columns, product, Rows.matrix_map_neg, Rows.matrix_columns, sensitivity,
      transpose_mul, transpose_neg, transpose_transpose, transpose_transpose, Matrix.mul_neg]

theorem Prepared.jacobian (h : adjoint.Prepared c y θ a cθ s P) :
    ∃ jac, (adjoint.jacobian c y θ).outcome = .ok (jac, .successful) ∧
      jac.length = y.length ∧ (∀ row ∈ jac, row.length = θ.length) ∧
      jac.matrix y.length θ.length = sensitivity P cθ :=
  jacobian_of_applies h.partials (a.ofRows_rows h.nonempty) h.height h.factored h.applies

/-- One solve for the combined right-hand side gives the product with a parameter tangent. -/
theorem Prepared.tangent (h : adjoint.Prepared c y θ a cθ s P) {θDot : Vec ℝ}
    (same : θDot.length = θ.length) :
    ∃ yDot, (adjoint.tangent c y θ θDot).outcome = .ok (yDot, .successful) ∧
      yDot.length = y.length ∧
      Vec.coords y.length yDot = sensitivity P cθ *ᵥ Vec.coords θ.length θDot := by
  obtain ⟨yDot, solved, length, coords_yDot⟩ := h.applies (Vec.neg (cθ.mulVec θDot))
    (by rw [Vec.length_neg, Rows.length_mulVec, h.height])
  refine ⟨yDot, ?_, length, ?_⟩
  · simp [ImplicitAdjoint.tangent, same, h.partials, a.ofRows_rows h.nonempty, h.factored, solved]
  · rw [coords_yDot, Vec.coords_neg, Rows.coords_mulVec _ _ h.width, sensitivity, neg_mulVec,
      mulVec_neg, mulVec_mulVec]

/-- One solve of the transposed system gives the product of the transpose with a cotangent. -/
theorem Prepared.vjp (h : adjoint.Prepared c y θ a cθ s P) {yBar : Vec ℝ}
    (same : yBar.length = y.length) :
    ∃ θBar, (adjoint.vjp c y θ yBar).outcome = .ok (θBar, .successful) ∧
      θBar.length = θ.length ∧
      Vec.coords θ.length θBar = (sensitivity P cθ)ᵀ *ᵥ Vec.coords y.length yBar := by
  obtain ⟨multipliers, solved, -, coords_multipliers⟩ := h.transposed yBar same
  have product := Rows.coords_transposeMulVec multipliers h.width
  rw [h.height] at product
  refine ⟨Vec.neg (cθ.transposeMulVec multipliers θ.length), ?_, ?_, ?_⟩
  · simp [ImplicitAdjoint.vjp, same, h.partials, a.ofRows_rows h.nonempty, h.factored, solved]
  · rw [Vec.length_neg, Rows.length_transposeMulVec]
  · rw [Vec.coords_neg, product, coords_multipliers, sensitivity, transpose_neg, transpose_mul,
      neg_mulVec, mulVec_mulVec]

end Prepared

/-- The full derivative of a solution, its product with a tangent of the parameters and the product
of its transpose with a cotangent of the solution agree, for every condition with a fixed number of
outputs: the three solves succeed, the first returns `-P C_θ`, and the other two return the products
with the matrix that the first one returns. -/
theorem derivatives_agree (adjoint : ImplicitAdjoint ℝ)
    (nonneg : ∀ r ∈ adjoint.linearSolver.rcond, 0 ≤ r) {c : Condition ℝ} {y θ : Vec ℝ} {m : ℕ}
    (some_output : m ≠ 0) (yields : c.Yields y.length θ.length m) :
    ∃ a cθ s, ∃ P : Matrix (Fin y.length) (Fin m) ℝ, adjoint.Prepared c y θ a cθ s P ∧
      ∃ jac, (adjoint.jacobian c y θ).outcome = .ok (jac, .successful) ∧
        jac.length = y.length ∧ (∀ row ∈ jac, row.length = θ.length) ∧
        jac.matrix y.length θ.length = sensitivity P cθ ∧
        (∀ θDot : Vec ℝ, θDot.length = θ.length →
          (adjoint.tangent c y θ θDot).outcome = .ok (jac.mulVec θDot, .successful)) ∧
        (∀ yBar : Vec ℝ, yBar.length = y.length →
          (adjoint.vjp c y θ yBar).outcome =
            .ok (jac.transposeMulVec yBar θ.length, .successful)) := by
  obtain ⟨a, cθ, s, P, prepared⟩ := exists_prepared nonneg some_output yields
  obtain ⟨jac, hjac, height, width, matrix⟩ := prepared.jacobian
  refine ⟨a, cθ, s, P, prepared, jac, hjac, height, width, matrix, fun θDot same => ?_,
    fun yBar same => ?_⟩
  · obtain ⟨yDot, hyDot, length, coords⟩ := prepared.tangent same
    have product : yDot = jac.mulVec θDot := by
      refine Vec.eq_of_coords_eq length ((Rows.length_mulVec jac θDot).trans height) ?_
      rw [coords, Rows.coords_mulVec jac θDot width, matrix]
    rw [hyDot, product]
  · obtain ⟨θBar, hθBar, length, coords⟩ := prepared.vjp same
    have product : θBar = jac.transposeMulVec yBar θ.length := by
      refine Vec.eq_of_coords_eq length (Rows.length_transposeMulVec jac yBar θ.length) ?_
      rw [coords, Rows.coords_transposeMulVec yBar width, height, matrix]
    rw [hθBar, product]

/-- Three conditions on two unknowns which leave the first one free. -/
noncomputable def overdetermined : System ℝ where
  outputs := [
    .binary .sub (.binary .mul (.var 1) (.var 1)) (.param 0),
    .binary .sub (.var 1) (.param 1),
    .binary .sub (.var 1) (.binary .mul (.param 0) (.param 1))]

/-- The zero column of `C_y` comes first, so a pivot is cut in front of one that is kept. -/
theorem derivatives_agree_overdetermined :
    (∀ e ∈ overdetermined.outputs, e.Composed 2 2) ∧
    ∃ jac, ((⟨⟨some 0⟩, 1⟩ : ImplicitAdjoint ℝ).jacobian overdetermined.condition
        [0, 1] [1, 1]).outcome = .ok (jac, .successful) ∧
      ((⟨⟨some 0⟩, 1⟩ : ImplicitAdjoint ℝ).tangent overdetermined.condition
        [0, 1] [1, 1] [3, -1]).outcome = .ok (jac.mulVec [3, -1], .successful) ∧
      ((⟨⟨some 0⟩, 1⟩ : ImplicitAdjoint ℝ).vjp overdetermined.condition
        [0, 1] [1, 1] [2, 5]).outcome = .ok (jac.transposeMulVec [2, 5] 2, .successful) := by
  have composed : ∀ e ∈ overdetermined.outputs, e.Composed 2 2 := by
    simp [overdetermined, Expr.Composed]
  obtain ⟨-, -, -, -, -, jac, hjac, -, -, -, tangent, vjp⟩ := derivatives_agree ⟨⟨some 0⟩, 1⟩
    (fun r hr => (Option.some.inj hr).le) (y := [0, 1]) (θ := [1, 1]) three_ne_zero
    (System.condition_yields composed)
  exact ⟨composed, jac, hjac, tangent [3, -1] rfl, vjp [2, 5] rfl⟩

end ImplicitAdjoint
end DualOpt
