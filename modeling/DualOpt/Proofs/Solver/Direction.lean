import Mathlib.Tactic.Positivity
import DualOpt.Proofs.Exact.Coordinates
import DualOpt.Solver.Lbfgs

/-!
The direction of the limited-memory BFGS method: its size, and that it leads downhill.

The two passes apply a matrix that is never formed. Its quadratic form is followed from the newest
pair to the oldest: each pair adds a square, and what is left is the form of the older pairs.
-/
namespace DualOpt.Lbfgs

open Matrix

section Sizes
variable {F : Type} [Scalar F] {n : ℕ} {history : List (CurvaturePair F)}

/-- Every pair is made of vectors of length `n`. -/
def Sized (n : ℕ) (history : List (CurvaturePair F)) : Prop :=
  ∀ p ∈ history, p.step.length = n ∧ p.gradientChange.length = n

theorem length_firstPass {q : Vec F} (hq : q.length = n) (sized : Sized n history) :
    (firstPass q history).1.length = n := by
  induction history with
  | nil => exact hq
  | cons p newer ih =>
    obtain ⟨hp, newer_sized⟩ := List.forall_mem_cons.mp sized
    rw [firstPass, Vec.length_axpy, ih newer_sized, hp.2, Nat.min_self]

theorem length_coefficients (q : Vec F) (history : List (CurvaturePair F)) :
    (firstPass q history).2.length = history.length := by
  induction history with
  | nil => rfl
  | cons p newer ih => rw [firstPass, List.length_cons, List.length_cons, ih]

theorem length_scaleByNewest {q : Vec F} (hq : q.length = n) :
    (scaleByNewest history q).length = n := by
  rw [scaleByNewest]
  split
  · exact hq
  · dsimp only
    split
    · rw [Vec.length_scale, hq]
    · exact hq

theorem length_secondPass {r : Vec F} (hr : r.length = n) (sized : Sized n history) (αs : List F) :
    (secondPass r history αs).length = n := by
  induction history generalizing r αs with
  | nil => exact hr
  | cons p newer ih =>
    obtain ⟨hp, newer_sized⟩ := List.forall_mem_cons.mp sized
    cases αs with
    | nil => exact hr
    | cons α αs =>
      have first : (Vec.axpy (α - p.reciprocal * Vec.inner p.gradientChange r) p.step r).length =
          n := by
        rw [Vec.length_axpy, hr, hp.1, Nat.min_self]
      exact ih first newer_sized αs

theorem length_direction {gradient : Vec F} (hg : gradient.length = n) (sized : Sized n history) :
    (direction gradient history).length = n := by
  rw [direction, Vec.length_scale]
  exact length_secondPass (length_scaleByNewest (length_firstPass hg sized)) sized _

/-- What the first pass leaves of a vector after one pair. -/
def deflate (p : CurvaturePair F) (q : Vec F) : Vec F :=
  Vec.axpy (-(p.reciprocal * Vec.inner p.step q)) p.gradientChange q

theorem length_deflate {p : CurvaturePair F} {q : Vec F} (hq : q.length = n)
    (hp : p.gradientChange.length = n) : (deflate p q).length = n := by
  rw [deflate, Vec.length_axpy, hq, hp, Nat.min_self]

/-- The two passes around a first approximation of the inverse Hessian. -/
def twoLoop (initial : Vec F → Vec F) (q : Vec F) (history : List (CurvaturePair F)) : Vec F :=
  secondPass (initial (firstPass q history).1) history (firstPass q history).2

theorem length_twoLoop {initial : Vec F → Vec F} (size : ∀ q, q.length = n → (initial q).length = n)
    {q : Vec F} (hq : q.length = n) (sized : Sized n history) :
    (twoLoop initial q history).length = n :=
  length_secondPass (size _ (length_firstPass hq sized)) sized _

theorem firstPass_append (q : Vec F) (older : List (CurvaturePair F)) (p : CurvaturePair F) :
    firstPass q (older ++ [p]) =
      let passed := firstPass (deflate p q) older
      (passed.1, passed.2 ++ [p.reciprocal * Vec.inner p.step q]) := by
  induction older with
  | nil => rfl
  | cons p' older ih => simp only [List.cons_append, firstPass, ih]

theorem secondPass_append (r : Vec F) {older : List (CurvaturePair F)} (p : CurvaturePair F)
    {αs : List F} (α : F) (h : older.length = αs.length) :
    secondPass r (older ++ [p]) (αs ++ [α]) =
      let r := secondPass r older αs
      Vec.axpy (α - p.reciprocal * Vec.inner p.gradientChange r) p.step r := by
  rw [secondPass, List.zip_append h, List.foldl_append]
  rfl

/-- The newest pair works around the passes over the older ones. -/
theorem twoLoop_append (initial : Vec F → Vec F) (q : Vec F) (older : List (CurvaturePair F))
    (p : CurvaturePair F) :
    twoLoop initial q (older ++ [p]) =
      let r := twoLoop initial (deflate p q) older
      Vec.axpy (p.reciprocal * Vec.inner p.step q - p.reciprocal * Vec.inner p.gradientChange r)
        p.step r := by
  rw [twoLoop, firstPass_append]
  exact secondPass_append _ p _ (length_coefficients _ older).symm

/-- Every pair has positive curvature and its reciprocal. -/
def Curved (history : List (CurvaturePair F)) : Prop :=
  ∀ p ∈ history, 0 < Vec.inner p.step p.gradientChange ∧
    p.reciprocal = 1 / Vec.inner p.step p.gradientChange

end Sizes

section Descent
variable {n : ℕ} {history : List (CurvaturePair ℝ)} {q : Vec ℝ}

theorem Curved.scaleByNewest (curved : Curved history) :
    ∃ γ : ℝ, 0 < γ ∧ ∀ q : Vec ℝ, q.length = n →
      Vec.coords n (Lbfgs.scaleByNewest history q) = γ • Vec.coords n q := by
  cases hlast : history.getLast? with
  | none => exact ⟨1, one_pos, fun q _ => by rw [Lbfgs.scaleByNewest, hlast, one_smul]⟩
  | some p =>
    have curvature := (curved p (List.mem_of_getLast? hlast)).1
    by_cases square : 0 < Vec.inner p.gradientChange p.gradientChange
    · refine ⟨_, div_pos curvature square, fun q hq => ?_⟩
      rw [Lbfgs.scaleByNewest, hlast]
      dsimp only
      rw [if_pos square, Vec.coords_scale _ hq]
    · refine ⟨1, one_pos, fun q _ => ?_⟩
      rw [Lbfgs.scaleByNewest, hlast]
      dsimp only
      rw [if_neg square, one_smul]

theorem coords_deflate {p : CurvaturePair ℝ} (hq : q.length = n)
    (hp : p.gradientChange.length = n) :
    Vec.coords n (deflate p q) =
      Vec.coords n q - (p.reciprocal * Vec.inner p.step q) • Vec.coords n p.gradientChange := by
  rw [deflate, Vec.coords_axpy _ hp hq, neg_smul, sub_eq_add_neg]

/-- The newest pair adds a square to the form of the older ones. -/
theorem inner_twoLoop_append {initial : Vec ℝ → Vec ℝ}
    (size : ∀ q, q.length = n → (initial q).length = n) {older : List (CurvaturePair ℝ)}
    (sized : Sized n older) {p : CurvaturePair ℝ} (hq : q.length = n) (hstep : p.step.length = n)
    (hchange : p.gradientChange.length = n) :
    Vec.inner q (twoLoop initial q (older ++ [p])) =
      Vec.inner (deflate p q) (twoLoop initial (deflate p q) older) +
        p.reciprocal * Vec.inner p.step q ^ 2 := by
  have length_deflated := length_deflate hq hchange
  have length_r := length_twoLoop size length_deflated sized
  have across : Vec.coords n q ⬝ᵥ Vec.coords n p.step = Vec.inner p.step q := by
    rw [dotProduct_comm, Vec.inner_eq_dotProduct _ hstep.le]
  rw [twoLoop_append, Vec.inner_eq_dotProduct _ hq.le, Vec.inner_eq_dotProduct _ length_deflated.le,
    Vec.coords_axpy _ hstep length_r, dotProduct_add, dotProduct_smul, across,
    coords_deflate hq hchange, sub_dotProduct, smul_dotProduct,
    Vec.inner_eq_dotProduct (twoLoop initial (deflate p q) older) hchange.le, smul_eq_mul,
    smul_eq_mul]
  ring

/-- The form of the two passes is positive on every vector but zero. -/
theorem inner_twoLoop_pos {initial : Vec ℝ → Vec ℝ} {γ : ℝ} (positive : 0 < γ)
    (size : ∀ q, q.length = n → (initial q).length = n)
    (scales : ∀ q, q.length = n → Vec.coords n (initial q) = γ • Vec.coords n q)
    (sized : Sized n history) (curved : Curved history) (hq : q.length = n)
    (nonzero : Vec.coords n q ≠ 0) : 0 < Vec.inner q (twoLoop initial q history) := by
  induction history using List.reverseRecOn generalizing q with
  | nil =>
    have square := dotProduct_self_pos nonzero
    have whole : twoLoop initial q [] = initial q := rfl
    rw [whole, Vec.inner_eq_dotProduct _ hq.le, scales q hq, dotProduct_smul, smul_eq_mul]
    exact mul_pos positive square
  | append_singleton older p ih =>
    obtain ⟨sized_older, sized_p⟩ := List.forall_mem_append.mp sized
    obtain ⟨curved_older, curved_p⟩ := List.forall_mem_append.mp curved
    obtain ⟨hstep, hchange⟩ := sized_p p (List.mem_singleton_self p)
    obtain ⟨curvature, hreciprocal⟩ := curved_p p (List.mem_singleton_self p)
    have reciprocal : 0 < p.reciprocal := hreciprocal ▸ one_div_pos.mpr curvature
    have length_deflated := length_deflate hq hchange
    rw [inner_twoLoop_append size sized_older hq hstep hchange]
    by_cases zero : Vec.coords n (deflate p q) = 0
    · -- The vector is a multiple of the gradient change, so it is not orthogonal to the step.
      have component : Vec.inner p.step q ≠ 0 := by
        intro orthogonal
        rw [coords_deflate hq hchange, orthogonal, mul_zero, zero_smul, sub_zero] at zero
        exact nonzero zero
      rw [Vec.inner_eq_dotProduct _ length_deflated.le, zero, zero_dotProduct, zero_add]
      positivity
    · have older_pos := ih sized_older curved_older length_deflated zero
      positivity

/-- Where the gradient is not zero, the direction is one of strict descent. -/
theorem inner_direction_neg {gradient : Vec ℝ} (sized : Sized n history) (curved : Curved history)
    (hg : gradient.length = n) (nonzero : Vec.coords n gradient ≠ 0) :
    Vec.inner gradient (direction gradient history) < 0 := by
  obtain ⟨γ, positive, scales⟩ := curved.scaleByNewest (n := n)
  have form : 0 < Vec.inner gradient (twoLoop (scaleByNewest history) gradient history) :=
    inner_twoLoop_pos positive (fun q hq => length_scaleByNewest hq) scales sized curved hg nonzero
  have length_form : (twoLoop (scaleByNewest history) gradient history).length = n :=
    length_twoLoop (fun q hq => length_scaleByNewest hq) hg sized
  have negated : direction gradient history =
      Vec.scale (-1) (twoLoop (scaleByNewest history) gradient history) := rfl
  rw [Vec.inner_eq_dotProduct _ hg.le] at form ⊢
  rw [negated, Vec.coords_scale _ length_form, dotProduct_smul, smul_eq_mul]
  linarith

end Descent

end DualOpt.Lbfgs
