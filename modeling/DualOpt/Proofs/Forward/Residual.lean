import DualOpt.Proofs.Forward.Independence
import DualOpt.Proofs.Forward.Linearity

/-!
Residuals that programs compute, over the real numbers.

All passes over a point come to the same outputs of the program, so their values are the same and
their tangents are the product of one matrix with the direction. This matrix is the Jacobian.
-/
namespace DualOpt

open Matrix

def Action.Composed (n k : ℕ) : Action ℝ → Prop
  | outputs es => ∀ e ∈ es, e.Composed n k
  | compare _ a b => a.Composed n k ∧ b.Composed n k

/-- Built from operations of dual numbers in `n` variables and `k` parameters. -/
def Program.Composed (n k : ℕ) (p : Program ℝ) : Prop := ∀ path, (p.next path).Composed n k

namespace Program
variable {p : Program ℝ} {y t : List (Dual ℝ)} {n k : ℕ} {path : List Bool}

theorem Composed.of_next (h : p.Composed n k) {es : List (Expr ℝ)}
    (next : p.next path = .outputs es) : ∀ e ∈ es, e.Composed n k := by
  have composed := h path
  rwa [next] at composed

theorem Composed.of_compare (h : p.Composed n k) {test : Comparison} {a b : Expr ℝ}
    (next : p.next path = .compare test a b) : a.Composed n k ∧ b.Composed n k := by
  have composed := h path
  rwa [next] at composed

theorem Composed.of_leads (h : p.Composed n k) {es : List (Expr ℝ)} (leads : p.Leads y t path es) :
    ∀ e ∈ es, e.Composed n k := by
  obtain ⟨last, next⟩ := leads.exists_next
  exact h.of_next next

/-- A program that ends returns, because all it asks for is defined. -/
theorem Composed.exists_outputs (h : p.Composed n k) (hy : y.length = n) (ht : t.length = k)
    {m : ℕ} {outcome : Outcome ℝ} (ends : p.run y t m path = some outcome) :
    ∃ outputs, outcome.outputs = .ok outputs := by
  induction m generalizing path outcome with
  | zero => cases ends
  | succ m ih =>
    cases next : p.next path with
    | outputs es =>
      rw [run_outputs next] at ends
      obtain rfl := Option.some.inj ends
      exact ⟨_, Expr.mapM_evaluate fun e he => (h.of_next next e he).defined hy ht⟩
    | compare test a b =>
      obtain ⟨ha, hb⟩ := h.of_compare next
      rw [run_side next (compare_ok (ha.defined hy ht) (hb.defined hy ht))] at ends
      obtain ⟨rest, hrest, rfl⟩ := Option.map_eq_some_iff.mp ends
      obtain ⟨outputs, returns⟩ := ih hrest
      exact ⟨outputs, returns⟩

/-- At every point a composed program comes to outputs. -/
theorem Computes.exists_leads {f : List (Dual ℝ) → Except Fault (List (Dual ℝ))} {x θ : Vec ℝ}
    (computes : p.Computes (Dual.constants θ) f) (composed : p.Composed x.length θ.length) :
    ∃ es, p.Leads (Dual.constants x) (Dual.constants θ) [] es := by
  obtain ⟨n, sides, ends⟩ := computes (Dual.constants x)
  obtain ⟨outputs, returns⟩ :=
    composed.exists_outputs (List.length_map _) (List.length_map _) ends
  exact p.exists_leads ends returns

end Program

namespace Rows

/-- The rows of a matrix. -/
def ofMatrix {m n : ℕ} (M : Matrix (Fin m) (Fin n) ℝ) : Rows ℝ :=
  List.ofFn fun i => List.ofFn (M i)

section OfMatrix
variable {m n : ℕ} {M : Matrix (Fin m) (Fin n) ℝ}

theorem length_ofMatrix (M : Matrix (Fin m) (Fin n) ℝ) : (ofMatrix M).length = m :=
  List.length_ofFn

theorem length_of_mem_ofMatrix : ∀ row ∈ ofMatrix M, row.length = n := by
  intro row hrow
  obtain ⟨i, rfl⟩ := List.mem_ofFn.mp hrow
  exact List.length_ofFn

theorem matrix_ofMatrix : (ofMatrix M).matrix m n = M := by
  funext i
  rw [matrix_apply]
  simp [ofMatrix]

end OfMatrix

/-- The products with the unit vectors are the columns. -/
theorem map_mulVec_unit {n : ℕ} {a : Rows ℝ} (width : ∀ row ∈ a, row.length = n) :
    (List.range n).map (fun j => a.mulVec (Vec.unit n j)) = columns n a := by
  refine List.ext_getElem (by simp [length_columns]) fun j hj hj' => ?_
  have inside : j < n := by rwa [length_columns] at hj'
  have length : (columns n a)[j].length = a.length := length_of_mem_columns (List.getElem_mem hj')
  have column : Vec.coords a.length (columns n a)[j] = (matrix a.length n a).col ⟨j, inside⟩ := by
    have turned := congrFun (matrix_columns (m := a.length) (n := n) a) ⟨j, inside⟩
    rw [matrix_apply, List.getD_eq_getElem _ _ hj'] at turned
    exact turned
  rw [List.getElem_map, List.getElem_range]
  refine Vec.eq_of_coords_eq (length_mulVec a _) length ?_
  rw [column, coords_mulVec _ _ width, Vec.coords_unit ⟨j, inside⟩, mulVec_single_one]

end Rows

theorem Dual.zipWith_zerosLike (x : Vec ℝ) :
    x.zipWith Dual.mk (Vec.zerosLike x) = Dual.constants x := by
  refine List.ext_getElem (by simp [constants]) fun i hi hj => ?_
  simp [constants, constant, Vec.zerosLike, Vec.fill]

/-- At `y` every pass has these values, and its tangents are the product of `jac` with the
direction. -/
structure Residual.Passes {A : Type} (r : Residual ℝ A) (y values : Vec ℝ) (jac : Rows ℝ) :
    Prop where
  height : values.length = jac.length
  width : ∀ row ∈ jac, row.length = y.length
  seeded : ∀ v : Vec ℝ, v.length = y.length → ∃ outputs payload,
    r (y.zipWith Dual.mk v) = .ok (outputs, payload) ∧ outputs.map Dual.primal = values ∧
      outputs.map Dual.tangent = jac.mulVec v

namespace Residual
variable {A : Type} {r : Residual ℝ A} {y values : Vec ℝ} {jac : Rows ℝ}

namespace Passes

/-- The linearisation at a point is made of the values and the matrix of its passes. -/
theorem linearise (h : r.Passes y values jac) :
    ∃ payload, linearise r y = .ok ⟨values, jac, payload⟩ := by
  obtain ⟨outputs, payload, start, hvalues, -⟩ :=
    h.seeded (Vec.zerosLike y) (Vec.length_zerosLike y)
  rw [Dual.zipWith_zerosLike] at start
  choose pass last hpass _ slopes using
    fun j => h.seeded (Vec.unit y.length j) (Vec.length_unit y.length j)
  have length : outputs.length = jac.length := by
    rw [← List.length_map (f := Dual.primal), hvalues, h.height]
  have size (j : ℕ) : (pass j).length = outputs.length := by
    rw [← List.length_map (f := Dual.tangent), slopes, Rows.length_mulVec, length]
  refine ⟨payload, ?_⟩
  rw [linearise_eq start (fun j _ => ⟨last j, hpass j⟩) fun j _ => size j, hvalues, length,
    funext slopes, Rows.map_mulVec_unit h.width, Rows.columns_columns h.width]

end Passes

section Systems
variable {s : System ℝ} {θ : Vec ℝ}

theorem passes_of_tangents (composed : ∀ e ∈ s.outputs, e.Composed y.length θ.length)
    (returns : ∀ d, Dual.SameValues d (Dual.constants y) →
      (r d).map Prod.fst = s.outputsAt d (Dual.constants θ))
    (height : s.outputs.length = jac.length) (width : ∀ row ∈ jac, row.length = y.length)
    (slopes : ∀ v : Vec ℝ, v.length = y.length → s.tangents θ y v = jac.mulVec v) :
    r.Passes y (s.values y θ) jac where
  height := (s.length_values y θ).trans height
  width := width
  seeded v hv := by
    obtain ⟨outputs, houtputs, values, tangents⟩ := s.outputsAt_seeded hv.symm composed
    have returned := returns _ (Dual.sameValues_seeded hv.symm)
    rw [houtputs] at returned
    obtain ⟨⟨_, payload⟩, hr, rfl⟩ := map_eq_ok_iff.mp returned
    exact ⟨_, payload, hr, values, tangents.trans (slopes v hv)⟩

/-- What a system returns at a point has a Jacobian there. -/
theorem exists_passes_of_system (composed : ∀ e ∈ s.outputs, e.Composed y.length θ.length)
    (returns : ∀ d, Dual.SameValues d (Dual.constants y) →
      (r d).map Prod.fst = s.outputsAt d (Dual.constants θ)) :
    ∃ jac, r.Passes y (s.values y θ) jac ∧
      ∀ v : Vec ℝ, v.length = y.length → s.tangents θ y v = jac.mulVec v := by
  obtain ⟨L, hL⟩ := System.exists_tangents_linear composed
  have height := Rows.length_ofMatrix (LinearMap.toMatrix' L)
  have width := Rows.length_of_mem_ofMatrix (M := LinearMap.toMatrix' L)
  have slopes (v : Vec ℝ) (hv : v.length = y.length) :
      s.tangents θ y v = (Rows.ofMatrix (LinearMap.toMatrix' L)).mulVec v := by
    refine Vec.eq_of_coords_eq (s.length_tangents θ y v) ((Rows.length_mulVec _ v).trans height) ?_
    rw [Rows.coords_mulVec _ _ width, Rows.matrix_ofMatrix, LinearMap.toMatrix'_mulVec, hL v hv]
  exact ⟨_, passes_of_tangents composed returns height.symm width slopes, slopes⟩

end Systems

namespace ComputedBy
variable {p : Program ℝ} {θ : Vec ℝ}

theorem exists_passes (computed : r.ComputedBy p (Dual.constants θ))
    (composed : p.Composed y.length θ.length) {s : System ℝ}
    (leads : p.Leads (Dual.constants y) (Dual.constants θ) [] s.outputs) :
    ∃ jac, r.Passes y (s.values y θ) jac ∧
      ∀ v : Vec ℝ, v.length = y.length → s.tangents θ y v = jac.mulVec v :=
  exists_passes_of_system (composed.of_leads leads) fun _ same =>
    computed.eq_of_leads (leads.congr same.symm rfl)

end ComputedBy

end Residual

namespace Program
variable {p : Program ℝ} {θ : Vec ℝ} {f : List (Dual ℝ) → Except Fault (List (Dual ℝ))}

/-- At a point a composed program comes to certain outputs, and one matrix gives the tangents of all
passes over it. -/
theorem Computes.exists_tangents (computes : p.Computes (Dual.constants θ) f) {x : Vec ℝ}
    (composed : p.Composed x.length θ.length) {s : System ℝ}
    (leads : p.Leads (Dual.constants x) (Dual.constants θ) [] s.outputs) :
    ∃ jac, jacobian f x = .ok (s.values x θ, jac) ∧ jac.length = s.outputs.length ∧
      (∀ row ∈ jac, row.length = x.length) ∧
      ∀ v : Vec ℝ, v.length = x.length →
        s.tangents θ x v = jac.mulVec v ∧ jvp f x v = .ok (s.values x θ, jac.mulVec v) := by
  let r : Residual ℝ Unit := fun d => do return (← f d, ())
  have computed : r.ComputedBy p (Dual.constants θ) := by
    rw [Residual.ComputedBy, map_fst_emptyPayload]
    exact computes
  obtain ⟨jac, passes, slopes⟩ := computed.exists_passes composed leads
  obtain ⟨payload, linearised⟩ := passes.linearise
  refine ⟨jac, ?_, passes.height.symm.trans (s.length_values x θ), passes.width, fun v hv =>
    ⟨slopes v hv, ?_⟩⟩
  · rw [jacobian, show linearise _ _ = _ from linearised]
    rfl
  · obtain ⟨outputs, payload, hpass, values, tangents⟩ := passes.seeded v hv
    obtain ⟨outputs', houtputs, same⟩ := bind_eq_ok_iff.mp hpass
    obtain rfl : outputs' = outputs := congrArg Prod.fst (Except.ok.inj same)
    rw [jvp, if_pos hv.symm, houtputs, ok_bind, values, tangents]
    rfl

/-- The tangents that forward mode returns are the product of the Jacobian with the direction, for
every direction and at every point, with a kink or without. -/
theorem jvp_eq_mulVec (computes : p.Computes (Dual.constants θ) f) {x : Vec ℝ}
    (composed : p.Composed x.length θ.length) :
    ∃ s : System ℝ, p.Leads (Dual.constants x) (Dual.constants θ) [] s.outputs ∧
      ∃ jac, jacobian f x = .ok (s.values x θ, jac) ∧ jac.length = s.outputs.length ∧
        (∀ row ∈ jac, row.length = x.length) ∧
        ∀ v : Vec ℝ, v.length = x.length →
          jvp f x v = .ok (s.values x θ, jac.mulVec v) := by
  obtain ⟨es, leads⟩ := computes.exists_leads composed
  obtain ⟨jac, hjac, height, width, passes⟩ := computes.exists_tangents composed (s := ⟨es, none⟩)
    leads
  exact ⟨⟨es, none⟩, leads, jac, hjac, height, width, fun v hv => (passes v hv).2⟩

/-- An absolute value, the larger of two numbers and a power whose exponent varies, with the product
of the numbers if they are equal. -/
noncomputable def kinks : Program ℝ where
  next path :=
    let smooth : List (Expr ℝ) := [.unary .abs (.var 0), .binary .max (.var 0) (.var 1),
      .binary .pow (.scalarRight .add (.var 1) 1) (.var 0)]
    match path with
    | [] => .compare .eq (.var 0) (.var 1)
    | true :: _ => .outputs (smooth ++ [.binary .mul (.var 0) (.var 1)])
    | false :: _ => .outputs smooth

/-- At zero the absolute value has its kink, the numbers are tied and the comparison is at its
edge. -/
theorem jvp_eq_mulVec_kinks : ∃ jac,
    kinks.Computes [] (kinks.upTo [] 1) ∧ kinks.Composed 2 0 ∧
      jacobian (kinks.upTo [] 1) [0, 0] = .ok ([0, 0, 1, 0], jac) ∧
      jvp (kinks.upTo [] 1) [0, 0] [3, -1] = .ok ([0, 0, 1, 0], jac.mulVec [3, -1]) := by
  have computes : kinks.Computes [] (kinks.upTo [] 1) := by
    apply kinks.computes_upTo
    intro path long
    match path with
    | true :: _ => exact ⟨_, rfl⟩
    | false :: _ => exact ⟨_, rfl⟩
  have composed : kinks.Composed 2 0 := by
    intro path
    match path with
    | [] => simp [kinks, Action.Composed, Expr.Composed]
    | true :: _ => simp [kinks, Action.Composed, Expr.Composed]
    | false :: _ => simp [kinks, Action.Composed, Expr.Composed]
  obtain ⟨s, leads, jac, hjac, -, -, product⟩ :=
    jvp_eq_mulVec (θ := []) computes (x := [0, 0]) composed
  have tied : compare (Dual.constants [(0 : ℝ), 0]) [] .eq (.var 0) (.var 1) = .ok true := by
    rw [compare_ok rfl rfl, Except.ok.injEq, Comparison.holds_iff]
    rfl
  have outputs := leads.unique (.compare rfl tied (.outputs rfl))
  have values : s.values [0, 0] [] = [0, 0, 1, 0] := by
    simp [outputs, System.values, Expr.value, UnaryOp.function, BinaryOp.function,
      ScalarOp.function]
  rw [values] at hjac product
  exact ⟨jac, computes, composed, hjac, product [3, -1] rfl⟩

end Program
end DualOpt
