import DualOpt.Proofs.Forward.Derivative
import DualOpt.Proofs.Forward.Residual

/-!
Residuals that are affine functions.

Forward mode finds the matrix of an affine function, however the function is computed, because its
Jacobian holds the true derivatives.
-/
namespace DualOpt

open Matrix

/-- What the product with a vector is above the right-hand side. -/
noncomputable def Dense.residual (a : Dense ℝ) (b y : Vec ℝ) : Fin a.rows.length → ℝ :=
  a.matrix *ᵥ Vec.coords a.inSize y - Vec.coords a.rows.length b

theorem Dense.residual_of_coords {a : Dense ℝ} {b y z : Vec ℝ} {w : Fin a.inSize → ℝ}
    (h : Vec.coords a.inSize z = Vec.coords a.inSize y + w) :
    a.residual b z = a.residual b y + a.matrix *ᵥ w := by
  rw [Dense.residual, Dense.residual, h, mulVec_add]
  abel

theorem Dense.coords_sub_mulVec {a : Dense ℝ} {b : Vec ℝ} (size : b.length = a.rows.length)
    (y : Vec ℝ) :
    Vec.coords a.rows.length (Vec.sub (a.rows.mulVec y) b) = a.residual b y := by
  rw [Vec.coords_sub (Rows.length_mulVec a.rows y) size, Rows.coords_mulVec _ _ a.rectangular]
  rfl

/-- Has the values `A·y - b` and the Jacobian `A` everywhere. -/
structure Residual.Affine {A : Type} (r : Residual ℝ A) (a : Dense ℝ) (b : Vec ℝ) : Prop where
  size : b.length = a.rows.length
  linearise : ∀ y : Vec ℝ, y.length = a.inSize →
    ∃ payload, linearise r y = .ok ⟨Vec.sub (a.rows.mulVec y) b, a.rows, payload⟩

namespace System
variable {s : System ℝ} {θ : Vec ℝ}

/-- The tangents of affine values are the product of the matrix with the direction. -/
theorem coords_tangents {a : Dense ℝ} {b y v : Vec ℝ}
    (composed : ∀ e ∈ s.outputs, e.Composed a.inSize θ.length)
    (interior : ∀ e ∈ s.outputs, e.Interior y θ)
    (size : b.length = a.rows.length)
    (values : ∀ y : Vec ℝ, y.length = a.inSize → s.values y θ = Vec.sub (a.rows.mulVec y) b)
    (hy : y.length = a.inSize) (hv : v.length = a.inSize) :
    Vec.coords a.rows.length (s.tangents θ y v) = a.matrix *ᵥ Vec.coords a.inSize v := by
  have outputs : s.outputs.length = a.rows.length := by
    rw [← s.length_values y θ, values y hy, Vec.length_sub, Rows.length_mulVec, size, Nat.min_self]
  have slope := s.hasDerivAt_values (hy.trans hv.symm) (hy ▸ composed) interior
  have line (t : ℝ) : Vec.coords a.rows.length (s.values (Vec.axpy t v y) θ) =
      a.residual b y + t • (a.matrix *ᵥ Vec.coords a.inSize v) := by
    have length : (Vec.axpy t v y).length = a.inSize := by
      rw [Vec.length_axpy, hy, hv, Nat.min_self]
    rw [values _ length, Dense.coords_sub_mulVec size,
      Dense.residual_of_coords (Vec.coords_axpy t hv hy), mulVec_smul]
  rw [outputs] at slope
  simp only [line] at slope
  have straight := ((hasDerivAt_id (0 : ℝ)).smul_const
    (a.matrix *ᵥ Vec.coords a.inSize v)).const_add (a.residual b y)
  rw [one_smul] at straight
  exact slope.unique straight

/-- A system whose values are affine is an affine residual, if evaluation stays inside the domains
of its operations. -/
theorem affine_residual {a : Dense ℝ} {b : Vec ℝ} (single : s.payload = none)
    (composed : ∀ e ∈ s.outputs, e.Composed a.inSize θ.length)
    (interior : ∀ y : Vec ℝ, y.length = a.inSize → ∀ e ∈ s.outputs, e.Interior y θ)
    (size : b.length = a.rows.length)
    (values : ∀ y : Vec ℝ, y.length = a.inSize → s.values y θ = Vec.sub (a.rows.mulVec y) b) :
    (s.residual (Dual.constants θ)).Affine a b where
  size := size
  linearise y hy := by
    have outputs : s.outputs.length = a.rows.length := by
      rw [← s.length_values y θ, values y hy, Vec.length_sub, Rows.length_mulVec, size,
        Nat.min_self]
    have slopes (v : Vec ℝ) (hv : v.length = y.length) : s.tangents θ y v = a.rows.mulVec v := by
      have length := (s.length_tangents θ y v).trans outputs
      refine Vec.eq_of_coords_eq length (Rows.length_mulVec a.rows v) ?_
      rw [coords_tangents composed (interior y hy) size values hy (hv.trans hy),
        Rows.coords_mulVec _ _ a.rectangular]
      rfl
    have width : ∀ row ∈ a.rows, row.length = y.length := hy ▸ a.rectangular
    rw [← values y hy]
    exact (Residual.passes_of_tangents (hy ▸ composed)
      (fun d _ => s.map_fst_residual single (Dual.constants θ) d) outputs width slopes).linearise

end System
end DualOpt
