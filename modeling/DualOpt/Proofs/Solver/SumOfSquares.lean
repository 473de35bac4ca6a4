import DualOpt.Proofs.Forward.Residual
import DualOpt.Proofs.Solver.GaussNewton

/-!
The gradient of the sum of squares, in exact arithmetic.

It is found in three ways: from dual numbers that are squared and added, from the rows of the
Jacobian, and from its transpose. All give twice the gradient `Jᵀr` of half the sum of squares.
-/
namespace DualOpt

open Matrix

namespace Dual

theorem foldl_add (ds : List (Dual ℝ)) (c : Dual ℝ) :
    ds.foldl (· + ·) c = ⟨c.primal + (sum ds).primal, c.tangent + (sum ds).tangent⟩ := by
  induction ds generalizing c with
  | nil => simp [sum, constant]
  | cons d ds ih =>
    rw [sum, List.foldl_cons, List.foldl_cons, ih (c + d), ih (constant 0 + d)]
    refine congrArg₂ Dual.mk ?_ ?_
    · show c.primal + d.primal + _ = c.primal + (0 + d.primal + _)
      ring
    · show c.tangent + d.tangent + _ = c.tangent + (0 + d.tangent + _)
      ring

theorem sum_cons (d : Dual ℝ) (ds : List (Dual ℝ)) :
    sum (d :: ds) = ⟨d.primal + (sum ds).primal, d.tangent + (sum ds).tangent⟩ := by
  rw [sum, List.foldl_cons, foldl_add]
  exact congrArg₂ Dual.mk (congrArg (· + _) (zero_add _)) (congrArg (· + _) (zero_add _))

/-- The squares of dual numbers add up to the sum of squares and twice an inner product. -/
theorem sum_squares (ds : List (Dual ℝ)) :
    sum (ds.map fun d => d * d) = ⟨Vec.sumSquares (ds.map primal),
      2 * Vec.inner (ds.map primal) (ds.map tangent)⟩ := by
  induction ds with
  | nil => simp [sum, constant, Vec.sumSquares, Vec.inner]
  | cons d ds ih =>
    simp only [List.map_cons, sum_cons, ih, Vec.sumSquares, Vec.inner_cons]
    refine congrArg₂ Dual.mk rfl ?_
    show d.primal * d.tangent + d.tangent * d.primal + _ = _
    ring

end Dual

section Products
variable {n : ℕ} {a : Rows ℝ}

/-- A matrix moves across an inner product as its transpose. -/
theorem Rows.inner_mulVec (width : ∀ row ∈ a, row.length = n) {w : Vec ℝ}
    (hw : w.length = a.length) (v : Vec ℝ) :
    Vec.inner w (a.mulVec v) = Vec.inner (a.transposeMulVec w n) v := by
  rw [Vec.inner_eq_dotProduct _ hw.le,
    Vec.inner_eq_dotProduct _ (length_transposeMulVec a w n).le, coords_mulVec _ _ width,
    coords_transposeMulVec w width, dotProduct_mulVec, mulVec_transpose]

theorem Vec.inner_unit {x : Vec ℝ} {j : ℕ} (hj : j < x.length) :
    inner x (unit x.length j) = x[j] := by
  rw [inner_eq_dotProduct _ le_rfl, coords_unit ⟨j, hj⟩, dotProduct_single_one]
  simp [coords, hj]

end Products

/-- Half the sum of the squared outputs. -/
def Residual.halfSquares {F A : Type} [Scalar F] (r : Residual F A) (d : List (Dual F)) :
    Except Fault (List (Dual F)) := do
  let (sum, _) ← r.sumOfSquares d
  return [(0.5 : F) * sum]

namespace Residual.Passes
variable {A : Type} {r : Residual ℝ A} {y values : Vec ℝ} {jac : Rows ℝ}

/-- A pass through the sum of squares. -/
theorem sumOfSquares (h : r.Passes y values jac) {v : Vec ℝ} (hv : v.length = y.length) :
    ∃ payload, r.sumOfSquares (y.zipWith Dual.mk v) = .ok (⟨Vec.sumSquares values,
      2 * Vec.inner (jac.transposeMulVec values y.length) v⟩, payload) := by
  obtain ⟨outputs, payload, hr, rfl, slopes⟩ := h.seeded v hv
  refine ⟨payload, ?_⟩
  simp only [Residual.sumOfSquares, hr, ok_bind, Dual.sum_squares, slopes,
    Rows.inner_mulVec h.width h.height, except_pure]

theorem gradientWith (h : r.Passes y values jac) :
    ∃ payload, gradientWith r.sumOfSquares y = .ok ⟨Vec.sumSquares values,
      Vec.scale 2 (jac.transposeMulVec values y.length), payload⟩ := by
  obtain ⟨payload, start⟩ := h.sumOfSquares (Vec.length_zerosLike y)
  rw [Dual.zipWith_zerosLike] at start
  have along (j : ℕ) (hj : j ∈ List.range y.length) :
      tangentAlong r.sumOfSquares y j = .ok (2 * Vec.inner (jac.transposeMulVec values y.length)
        (Vec.unit y.length j)) := by
    obtain ⟨last, hpass⟩ := h.sumOfSquares (Vec.length_unit y.length j)
    simp [tangentAlong, Dual.seedAt, hpass]
  have entries : (List.range y.length).map (fun j =>
      2 * Vec.inner (jac.transposeMulVec values y.length) (Vec.unit y.length j)) =
      Vec.scale 2 (jac.transposeMulVec values y.length) := by
    have length := Rows.length_transposeMulVec jac values y.length
    refine List.ext_getElem (by simp) fun j hj hj' => ?_
    have inside : j < (jac.transposeMulVec values y.length).length := by simpa using hj'
    have entry := Vec.inner_unit inside
    rw [length] at entry
    simp [Vec.scale, entry]
  refine ⟨payload, ?_⟩
  simp [DualOpt.gradientWith, start, mapM_eq_ok along, entries]

theorem outputs (h : r.Passes y values jac) : r.outputs y = .ok jac.length := by
  obtain ⟨outputs, payload, start, hvalues, -⟩ :=
    h.seeded (Vec.zerosLike y) (Vec.length_zerosLike y)
  rw [Dual.zipWith_zerosLike] at start
  rw [← h.height, ← hvalues, List.length_map, Residual.outputs, start]
  rfl

theorem stationarity (h : r.Passes y values jac) :
    r.stationarity y = .ok (Vec.scale 2 (jac.transposeMulVec values y.length)) := by
  obtain ⟨payload, hl⟩ := h.linearise
  rw [Residual.stationarity, hl]
  norm_num

/-- The tangent of half the sum of squares is the inner product with its gradient. -/
theorem jvp_halfSquares (h : r.Passes y values jac) {v : Vec ℝ} (hv : v.length = y.length) :
    jvp r.halfSquares y v = .ok ([GaussNewton.halfSquares values],
      [Vec.inner (jac.transposeMulVec values y.length) v]) := by
  obtain ⟨payload, hpass⟩ := h.sumOfSquares hv
  have half : (0.5 : ℝ) * (2 * Vec.inner (jac.transposeMulVec values y.length) v) =
      Vec.inner (jac.transposeMulVec values y.length) v := by ring
  simp only [jvp, if_pos hv.symm, Residual.halfSquares, hpass, ok_bind, except_pure]
  exact congrArg (fun t => Except.ok ([GaussNewton.halfSquares values], [t])) half

end Residual.Passes

/-- Half the sum of squares is what the search measures. -/
theorem Residual.evaluate_halfSquares {A : Type} (r : Residual ℝ A) (x : Vec ℝ) :
    DualOpt.evaluate r.halfSquares x = (GaussNewton.valueAt r x).map ([·]) := by
  rw [DualOpt.evaluate, halfSquares, sumOfSquares, GaussNewton.valueAt, evaluate]
  cases r (Dual.constants x) with
  | error fault => rfl
  | ok p =>
    simp only [ok_bind, except_pure, ok_map, Dual.sum_squares]
    rfl

/-- The gradients of the sum of squares agree. The stationarity of a least-squares problem and the
gradient of the sum of squares are both twice the vector that predicts the change in a search, and
along every direction that vector predicts the tangent of half the sum of squares. -/
theorem GaussNewton.gradients_agree {A : Type} (g : GaussNewton ℝ) {p : Program ℝ}
    {r : Residual ℝ A} {θ y : Vec ℝ} (computed : r.ComputedBy p (Dual.constants θ))
    (composed : p.Composed y.length θ.length) (some_output : r.outputs y ≠ .ok 0)
    (mode : g.lineSearch.mode = .gaussNewton) :
    ∃ l a start v, linearise r y = .ok l ∧ Dense.ofRows l.jacobian = .ok a ∧
      (g.lineSearch.init (searchInput l a y)).outcome = .ok (.ok start) ∧
      valueAt r y = .ok v ∧
      r.stationarity y = .ok (Vec.scale 2 start.gradient) ∧
      (gradientWith r.sumOfSquares y).map (·.gradient) = .ok (Vec.scale 2 start.gradient) ∧
      (∀ x, evaluate r.halfSquares x = (valueAt r x).map ([·])) ∧
      ∀ d : Vec ℝ, d.length = y.length →
        jvp r.halfSquares y d = .ok ([v], [Vec.inner start.gradient d]) := by
  obtain ⟨es, leads⟩ := Program.Computes.exists_leads computed composed
  obtain ⟨jac, passes, -⟩ := computed.exists_passes composed (s := ⟨es, none⟩) leads
  obtain ⟨payload, hl⟩ := passes.linearise
  have nonempty : jac ≠ [] := by
    rintro rfl
    exact some_output passes.outputs
  let a : Dense ℝ := ⟨jac, y.length, passes.width⟩
  have width : a.rows.width = y.length := a.width_rows nonempty
  obtain ⟨start, hinit, gradient⟩ := g.exists_init mode (a := a)
    (l := ⟨System.values ⟨es, none⟩ y θ, jac, payload⟩) passes.height width rfl
  rw [Dense.transpose_mulVec width] at gradient
  obtain ⟨last, hgradient⟩ := passes.gradientWith
  refine ⟨_, a, start, _, hl, a.ofRows_rows nonempty, hinit, valueAt_of_linearise hl, ?_, ?_,
    r.evaluate_halfSquares, fun d hd => ?_⟩
  · rw [gradient]
    exact passes.stationarity
  · rw [hgradient, gradient]
    rfl
  · rw [gradient]
    exact passes.jvp_halfSquares hd

/-- How far the square of a number is from two, and the number. -/
noncomputable def squareOffTwo : System ℝ where
  outputs := [.scalarRight .sub (.binary .mul (.var 0) (.var 0)) (2 : ℕ), .var 0]

theorem composed_squareOffTwo : (Program.ofSystem squareOffTwo).Composed 1 0 := by
  intro path
  simp [Program.ofSystem, squareOffTwo, Action.Composed, Expr.Composed]

theorem linearise_squareOffTwo :
    linearise (squareOffTwo.residual []) [1] = .ok ⟨[-1, 1], [[2], [1]], none⟩ := by
  have outputs (x t : ℝ) : squareOffTwo.residual [] [⟨x, t⟩] =
      .ok ([⟨x * x - 2, x * t + t * x⟩, ⟨x, t⟩], none) := rfl
  have start : Dual.constants [(1 : ℝ)] = [⟨1, 0⟩] := rfl
  have seed : Dual.seedAt [(1 : ℝ)] 0 = [⟨1, 1⟩] := by simp [Dual.seedAt, Vec.unit]
  simp [linearise, tangentsAlong, start, seed, outputs, List.range_succ, Rows.columns]
  norm_num

theorem valueAt_squareOffTwo :
    GaussNewton.valueAt (squareOffTwo.residual []) [1] = .ok 1 := by
  rw [GaussNewton.valueAt_of_linearise linearise_squareOffTwo]
  norm_num [GaussNewton.halfSquares, Vec.sumSquares, Vec.inner]

theorem GaussNewton.gradients_agree_squareOffTwo : ∃ gradient : Vec ℝ,
    (squareOffTwo.residual []).stationarity [1] = .ok (Vec.scale 2 gradient) ∧
    (gradientWith (squareOffTwo.residual []).sumOfSquares [1]).map (·.gradient) =
      .ok (Vec.scale 2 gradient) ∧
    jvp (squareOffTwo.residual []).halfSquares [1] [3] = .ok ([1], [Vec.inner gradient [3]]) := by
  have outputs : (squareOffTwo.residual []).outputs [1] = .ok 2 := by rfl
  obtain ⟨l, a, start, v, -, -, -, value, stationarity, gradient, -, along⟩ :=
    gradients_agree standard (θ := []) (y := [1]) (squareOffTwo.computedBy_ofSystem rfl [])
      composed_squareOffTwo (by simp [outputs]) rfl
  obtain rfl := Except.ok.inj (value.symm.trans valueAt_squareOffTwo)
  exact ⟨start.gradient, stationarity, gradient, along [3] rfl⟩

end DualOpt
