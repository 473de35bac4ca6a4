import DualOpt.Proofs.Solver.Direction

/-!
The approximate inverse Hessian that the two passes of the limited-memory BFGS method apply.

It starts as a multiple of the identity, and every pair of the history updates it by a matrix of
rank two. The passes never form it, but the direction is minus its product with the gradient. It
takes the newest change of the gradient to the step that made it.
-/
namespace DualOpt.Lbfgs

open Matrix

variable {n : ℕ} {history : List (CurvaturePair ℝ)}

/-- The update of an approximate inverse Hessian by a pair. -/
def update (H : Matrix (Fin n) (Fin n) ℝ) (p : CurvaturePair ℝ) : Matrix (Fin n) (Fin n) ℝ :=
  let s := Vec.coords n p.step
  let y := Vec.coords n p.gradientChange
  (1 - p.reciprocal • vecMulVec s y) * H * (1 - p.reciprocal • vecMulVec y s) +
    p.reciprocal • vecMulVec s s

/-- The multiple of the identity that the updates start from: the step of the newest pair measured
along its gradient change, or one without a pair. -/
noncomputable def newestScale (n : ℕ) (history : List (CurvaturePair ℝ)) : ℝ :=
  match history.getLast? with
  | none => 1
  | some p => Vec.coords n p.step ⬝ᵥ Vec.coords n p.gradientChange /
      Vec.coords n p.gradientChange ⬝ᵥ Vec.coords n p.gradientChange

/-- The updates by the pairs of a history, from the oldest to the newest. -/
noncomputable def inverseHessian (n : ℕ) (history : List (CurvaturePair ℝ)) :
    Matrix (Fin n) (Fin n) ℝ :=
  history.foldl update (newestScale n history • 1)

/-- An updated matrix applies what the older one does to a deflated vector, and corrects the result
along the step. -/
theorem update_mulVec (H : Matrix (Fin n) (Fin n) ℝ) (p : CurvaturePair ℝ) (q : Fin n → ℝ) :
    update H p *ᵥ q =
      let r := H *ᵥ (q - (p.reciprocal * Vec.coords n p.step ⬝ᵥ q) • Vec.coords n p.gradientChange)
      r + (p.reciprocal * Vec.coords n p.step ⬝ᵥ q -
        p.reciprocal * Vec.coords n p.gradientChange ⬝ᵥ r) • Vec.coords n p.step := by
  have rank_one (ρ : ℝ) (u v w : Fin n → ℝ) : (ρ • vecMulVec u v) *ᵥ w = (ρ * v ⬝ᵥ w) • u := by
    rw [smul_mulVec, vecMulVec_mulVec, op_smul_eq_smul, smul_smul]
  simp only [update, add_mulVec, ← mulVec_mulVec, sub_mulVec, one_mulVec, rank_one, sub_smul]
  abel

/-- The secant equation. -/
theorem update_mulVec_gradientChange (H : Matrix (Fin n) (Fin n) ℝ) {p : CurvaturePair ℝ}
    (reciprocal : p.reciprocal * Vec.coords n p.step ⬝ᵥ Vec.coords n p.gradientChange = 1) :
    update H p *ᵥ Vec.coords n p.gradientChange = Vec.coords n p.step := by
  rw [update_mulVec, reciprocal, one_smul, sub_self, mulVec_zero]
  simp

/-- The scaling between the two passes, where the newest pair has positive curvature. -/
theorem coords_scaleByNewest (sized : Sized n history) (curved : Curved history) {q : Vec ℝ}
    (hq : q.length = n) :
    Vec.coords n (scaleByNewest history q) = newestScale n history • Vec.coords n q := by
  cases hlast : history.getLast? with
  | none => rw [scaleByNewest, newestScale, hlast, one_smul]
  | some p =>
    obtain ⟨hstep, hchange⟩ := sized p (List.mem_of_getLast? hlast)
    have curvature := (curved p (List.mem_of_getLast? hlast)).1
    rw [Vec.inner_eq_dotProduct _ hstep.le] at curvature
    have changes : Vec.coords n p.gradientChange ≠ 0 := by
      intro zero
      rw [zero, dotProduct_zero] at curvature
      exact lt_irrefl 0 curvature
    have square : 0 < Vec.inner p.gradientChange p.gradientChange := by
      rw [Vec.inner_eq_dotProduct _ hchange.le]
      exact dotProduct_self_pos changes
    rw [scaleByNewest, newestScale, hlast]
    dsimp only
    rw [if_pos square, Vec.coords_scale _ hq, Vec.inner_eq_dotProduct _ hstep.le,
      Vec.inner_eq_dotProduct _ hchange.le]

/-- The two passes around a multiple of the identity apply the updated matrix. -/
theorem coords_twoLoop {initial : Vec ℝ → Vec ℝ} {γ : ℝ}
    (size : ∀ q, q.length = n → (initial q).length = n)
    (scales : ∀ q, q.length = n → Vec.coords n (initial q) = γ • Vec.coords n q)
    (sized : Sized n history) {q : Vec ℝ} (hq : q.length = n) :
    Vec.coords n (twoLoop initial q history) =
      history.foldl update (γ • 1) *ᵥ Vec.coords n q := by
  induction history using List.reverseRecOn generalizing q with
  | nil =>
    have whole : twoLoop initial q [] = initial q := rfl
    rw [whole, scales q hq, List.foldl_nil, smul_mulVec, one_mulVec]
  | append_singleton older p ih =>
    obtain ⟨sized_older, sized_p⟩ := List.forall_mem_append.mp sized
    obtain ⟨hstep, hchange⟩ := sized_p p (List.mem_singleton_self p)
    have length_deflated := length_deflate hq hchange
    have length_r := length_twoLoop size length_deflated sized_older
    rw [twoLoop_append, List.foldl_append, List.foldl_cons, List.foldl_nil, update_mulVec,
      Vec.coords_axpy _ hstep length_r, Vec.inner_eq_dotProduct _ hstep.le,
      Vec.inner_eq_dotProduct _ hchange.le, ih sized_older length_deflated,
      coords_deflate hq hchange, Vec.inner_eq_dotProduct _ hstep.le]

theorem coords_direction (sized : Sized n history) (curved : Curved history) {gradient : Vec ℝ}
    (hg : gradient.length = n) :
    Vec.coords n (direction gradient history) =
      -(inverseHessian n history *ᵥ Vec.coords n gradient) := by
  have size (q : Vec ℝ) (hq : q.length = n) : (scaleByNewest history q).length = n :=
    length_scaleByNewest hq
  have negated : direction gradient history =
      Vec.scale (-1) (twoLoop (scaleByNewest history) gradient history) := rfl
  rw [negated, Vec.coords_scale _ (length_twoLoop size hg sized),
    coords_twoLoop size (fun q hq => coords_scaleByNewest sized curved hq) sized hg, neg_one_smul]
  rfl

/-- The matrix of a history takes the newest change of the gradient to the newest step. -/
theorem inverseHessian_mulVec_gradientChange (sized : Sized n history) (curved : Curved history)
    {p : CurvaturePair ℝ} (newest : p ∈ history.getLast?) :
    inverseHessian n history *ᵥ Vec.coords n p.gradientChange = Vec.coords n p.step := by
  obtain ⟨older, hhistory⟩ := List.getLast?_eq_some_iff.mp newest
  have mem : p ∈ history := List.mem_of_getLast? newest
  obtain ⟨curvature, hreciprocal⟩ := curved p mem
  have reciprocal : p.reciprocal * Vec.coords n p.step ⬝ᵥ Vec.coords n p.gradientChange = 1 := by
    rw [← Vec.inner_eq_dotProduct _ (sized p mem).1.le, hreciprocal]
    exact one_div_mul_cancel curvature.ne'
  rw [inverseHessian, hhistory, List.foldl_append]
  exact update_mulVec_gradientChange _ reciprocal

/-- The direction is minus the approximate inverse Hessian times the gradient, and for the newest
change of the gradient it is minus the newest step. -/
theorem direction_eq_inverseHessian (sized : Sized n history) (curved : Curved history)
    {gradient : Vec ℝ} (hg : gradient.length = n) :
    direction gradient history = List.ofFn (-(inverseHessian n history *ᵥ Vec.coords n gradient)) ∧
      ∀ p ∈ history.getLast?, direction p.gradientChange history = Vec.neg p.step := by
  constructor
  · refine Vec.eq_of_coords_eq (length_direction hg sized) List.length_ofFn ?_
    rw [coords_direction sized curved hg, Vec.coords_ofFn]
  · intro p newest
    obtain ⟨hstep, hchange⟩ := sized p (List.mem_of_getLast? newest)
    refine Vec.eq_of_coords_eq (length_direction hchange sized) ?_ ?_
    · rw [Vec.neg, List.length_map, hstep]
    · rw [coords_direction sized curved hchange,
        inverseHessian_mulVec_gradientChange sized curved newest, Vec.coords_neg]

/-- Two pairs whose steps and gradient changes point in four directions. -/
noncomputable def crossedPairs : List (CurvaturePair ℝ) :=
  [⟨[1, 1], [0, 1], 1⟩, ⟨[1, 0], [1, 1], 1⟩]

theorem direction_eq_inverseHessian_crossedPairs : Sized 2 crossedPairs ∧ Curved crossedPairs ∧
    direction [1, 0] crossedPairs =
      List.ofFn (-(inverseHessian 2 crossedPairs *ᵥ Vec.coords 2 [1, 0])) ∧
    direction [1, 1] crossedPairs = Vec.neg [1, 0] := by
  have sized : Sized 2 crossedPairs := by simp [Sized, crossedPairs]
  have curved : Curved crossedPairs := by simp [Curved, crossedPairs, Vec.inner]
  have length : ([1, 0] : Vec ℝ).length = 2 := rfl
  obtain ⟨matrix, secant⟩ := direction_eq_inverseHessian sized curved length
  exact ⟨sized, curved, matrix, secant ⟨[1, 0], [1, 1], 1⟩ rfl⟩

end DualOpt.Lbfgs
