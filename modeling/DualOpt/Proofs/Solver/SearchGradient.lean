import DualOpt.LineSearch.Backtracking
import DualOpt.Problem
import DualOpt.Proofs.Forward.Shape
import DualOpt.Proofs.Linear.TransposedProduct

/-!
The gradient of half the sum of squares, in any arithmetic.

A search that is told a residual and its Jacobian finds it with the transposed operator, the
stationarity of least squares from the rows of the Jacobian. Both come to the same vector.
-/
namespace DualOpt

variable {F : Type} [Scalar F]

/-- A search starts if the sizes of what it is told fit, and its gradient is the product of the
transposed operator and the vector. -/
theorem Backtracking.exists_init (search : Backtracking F) (mode : search.mode = .gaussNewton)
    {a : Dense F} (width : a.rows.width = a.inSize) {input : SearchInput F} {vector : Vec F}
    (hvector : input.vector = some vector) (hoperator : input.operator = some (.dense a))
    (height : vector.length = a.rows.length) (hdiff : ∀ d ∈ input.diff, d.length = a.inSize) :
    ∃ start, (search.init input).outcome = .ok (.ok start) ∧
      start.gradient = a.transpose.rows.mulVec vector := by
  have length : (a.transpose.rows.mulVec vector).length = a.inSize := by
    rw [Rows.length_mulVec, a.length_transpose_rows width]
  have product : (Operator.dense a).transpose.mulVec vector =
      .ok (a.transpose.rows.mulVec vector) := if_pos height
  have gradient : (search.gradientOf (.dense a) vector).outcome =
      .ok (.ok (a.transpose.rows.mulVec vector)) := by
    simp [gradientOf, mode, Operator.outSize, height, product]
  refine ⟨initialState input (a.transpose.rows.mulVec vector), ?_, ?_⟩
  · simp only [init, hvector, hoperator, Traced.outcome_bind, gradient, ok_bind]
    cases diff : input.diff with
    | none => rfl
    | some d =>
      have fits : d.length = (a.transpose.rows.mulVec vector).length := by rw [hdiff d diff, length]
      simp [fits]
  · rw [initialState]
    cases input.initialObjective <;> rfl

/-- Both ways to multiply by a transpose come to the same vector, whose entries are sums over the
rows in ascending order. So a search on a residual and its Jacobian predicts with the very vector
that the stationarity of least squares doubles. -/
theorem transposed_products_agree (F : Type) [Scalar F] :
    (∀ (a : Rows F) (n : Nat), a ≠ [] → (∀ row ∈ a, row.length = n) →
      ∀ v : Vec F, v.length = a.length → ∃ t, a.transpose = .ok t ∧
        t.mulVec v = a.transposeMulVec v n ∧
        a.transposeMulVec v n = (List.range n).map (a.columnSum v)) ∧
    ∀ (A : Type) (r : Residual F A) (y : Vec F) (l : Linearisation F A), linearise r y = .ok l →
      l.values ≠ [] → ∃ a, Dense.ofRows l.jacobian = .ok a ∧
        ∀ (search : Backtracking F) (input : SearchInput F), search.mode = .gaussNewton →
          input.vector = some l.values → input.operator = some (.dense a) →
          (∀ d ∈ input.diff, d.length = y.length) →
          ∃ start, (search.init input).outcome = .ok (.ok start) ∧
            start.gradient = l.jacobian.transposeMulVec l.values y.length ∧
            r.stationarity y = .ok (Vec.scale (1 + 1) start.gradient) := by
  constructor
  · intro a n nonempty rectangular v height
    let whole : Dense F := ⟨a, n, rectangular⟩
    have width : a.width = n := whole.width_rows nonempty
    exact ⟨_, whole.transpose_rows, whole.transpose_mulVec width v,
      Rows.transposeMulVec_eq_columnSum rectangular height⟩
  · intro A r y l hl some_output
    obtain ⟨height, rectangular⟩ := shape_of_linearise hl
    have nonempty : l.jacobian ≠ [] :=
      List.ne_nil_of_length_pos (height ▸ List.length_pos_of_ne_nil some_output)
    let a : Dense F := ⟨l.jacobian, y.length, rectangular⟩
    have width : a.rows.width = a.inSize := a.width_rows nonempty
    refine ⟨a, a.ofRows_rows nonempty, ?_⟩
    intro search input mode hvector hoperator hdiff
    obtain ⟨start, hinit, gradient⟩ :=
      search.exists_init mode width hvector hoperator height.symm hdiff
    rw [a.transpose_mulVec width] at gradient
    refine ⟨start, hinit, gradient, ?_⟩
    rw [Residual.stationarity, hl, gradient]
    rfl

/-- The large entries of the first column absorb a one that is added to either of them, so the column
adds up to one from the first row to the last and to zero from the last to the first. -/
def absorbingRows : Rows Float := [[Double.large, 1], [-Double.large, 2], [1, 3]]

/-- One, plus the products of these rows with the variables. -/
def absorbing : Residual Float Unit := fun d =>
  .ok (absorbingRows.map fun row => (1 : Float) + Dual.sum (row.zipWith (· * ·) d), ())

theorem transposed_products_agree_absorbing :
    (∃ t, absorbingRows.transpose = .ok t ∧
      t.mulVec [1, 1, 1] = absorbingRows.transposeMulVec [1, 1, 1] 2) ∧
    ∃ a start, Dense.ofRows absorbingRows = .ok a ∧
      ((Backtracking.standard .gaussNewton).init
        { vector := some [1, 1, 1], operator := some (.dense a), diff := some [0, 0] }).outcome =
          .ok (.ok start) ∧
      start.gradient = [1, 6] ∧ absorbing.stationarity [0, 0] = .ok [2, 12] := by
  obtain ⟨products, gradients⟩ := transposed_products_agree Float
  have linearised : linearise absorbing [0, 0] = .ok ⟨[1, 1, 1], absorbingRows, ()⟩ := rfl
  have product : absorbingRows.transposeMulVec [1, 1, 1] 2 = [1, 6] := by decide +kernel
  have doubled : Vec.scale (1 + 1) [1, 6] = ([2, 12] : Vec Float) := by decide +kernel
  constructor
  · obtain ⟨t, ht, same, -⟩ := products absorbingRows 2 (by decide) (by simp [absorbingRows])
      [1, 1, 1] rfl
    exact ⟨t, ht, same⟩
  · obtain ⟨a, ha, searches⟩ := gradients Unit absorbing [0, 0] _ linearised (by simp)
    obtain ⟨start, hinit, gradient, stationarity⟩ := searches (.standard .gaussNewton)
      { vector := some [1, 1, 1], operator := some (.dense a), diff := some [0, 0] } rfl rfl rfl
      (by simp)
    have same : start.gradient = [1, 6] := gradient.trans product
    rw [same, doubled] at stationarity
    exact ⟨a, start, ha, hinit, same, stationarity⟩

end DualOpt
