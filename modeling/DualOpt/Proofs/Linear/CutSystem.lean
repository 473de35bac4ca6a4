import DualOpt.Proofs.Exact.Partial
import DualOpt.Proofs.Linear.Transposition

/-!
The triangular solves as solutions of a system with small pivots cut, in exact arithmetic.

With a cutoff that is not negative, a pivot that is kept cannot be zero. So no solve divides by
zero, which the same definitions show when they are run over the reals with an undefined value; and
each system has one solution, which is what the solve returns.
-/
namespace DualOpt

open Matrix

namespace Vec

/-- The vector over the scalars that can be undefined. -/
def lift (x : Vec ℝ) : Vec PartialReal := x.map .exact

theorem lift_cons (a : ℝ) (x : Vec ℝ) : lift (a :: x) = .exact a :: lift x := rfl

@[simp] theorem length_lift (x : Vec ℝ) : (lift x).length = x.length := List.length_map ..

theorem headD_lift (x : Vec ℝ) : (lift x).headD 0 = .exact (x.headD 0) := by
  cases x <;> rfl

theorem tail_lift (x : Vec ℝ) : (lift x).tail = lift x.tail := List.map_tail.symm

theorem foldl_lift (b : ℝ) (row xs : Vec ℝ) :
    ((lift row).zip (lift xs)).foldl (fun acc p => acc - p.1 * p.2) (.exact b) =
      .exact ((row.zip xs).foldl (fun acc p => acc - p.1 * p.2) b) := by
  induction row generalizing b xs with
  | nil => rfl
  | cons a row ih =>
    cases xs with
    | nil => rfl
    | cons x xs => exact ih (b - a * x) xs

theorem eliminate_lift (s : ℝ) (a x : Vec ℝ) :
    eliminate (.exact s) (lift a) (lift x) = lift (eliminate s a x) := by
  induction a generalizing x with
  | nil => cases x <;> rfl
  | cons b a ih =>
    cases x with
    | nil => rfl
    | cons y x => exact congrArg (_ :: ·) (ih x)

end Vec

namespace Rows

def lift (r : Rows ℝ) : Rows PartialReal := r.map Vec.lift

theorem headD_lift (r : Rows ℝ) : (lift r).headD [] = Vec.lift (r.headD []) := by
  cases r <;> rfl

theorem map_tail_tail_lift (r : Rows ℝ) :
    (lift r).tail.map List.tail = lift (r.tail.map List.tail) := by
  rw [lift, ← List.map_tail, lift, List.map_map, List.map_map]
  exact List.map_congr_left fun row _ => Vec.tail_lift row

end Rows

namespace Triangular
variable {n : ℕ} {cutoff : ℝ}

theorem isCut_exact (cutoff pivot : ℝ) :
    isCut (PartialReal.exact cutoff) (.exact pivot) = isCut cutoff pivot := by
  rw [Bool.eq_iff_iff, isCut_real, isCut, decide_eq_true_iff, PartialReal.abs_exact,
    PartialReal.exact_le_iff]

theorem ne_zero_of_kept (nonneg : 0 ≤ cutoff) {pivot : ℝ} (kept : ¬ isCut cutoff pivot = true) :
    pivot ≠ 0 := by
  rw [isCut_real, not_le] at kept
  exact abs_pos.mp (nonneg.trans_lt kept)

/-- A component is zero or a quotient by a pivot that is not. -/
theorem component_exact (nonneg : 0 ≤ cutoff) (b pivot : ℝ) :
    (if isCut (PartialReal.exact cutoff) (.exact pivot) then 0
      else PartialReal.exact b / .exact pivot) =
        .exact (if isCut cutoff pivot then 0 else b / pivot) := by
  rw [isCut_exact]
  by_cases cut : isCut cutoff pivot = true
  · rw [if_pos cut, if_pos cut]
    rfl
  · rw [if_neg cut, if_neg cut, PartialReal.exact_div (ne_zero_of_kept nonneg cut)]

/-- Back substitution never divides by zero. -/
theorem backSubstitute_lift (nonneg : 0 ≤ cutoff) (b : Vec ℝ) (r : Rows ℝ) :
    backSubstitute (.exact cutoff) (Vec.lift b) (Rows.lift r) =
      Vec.lift (backSubstitute cutoff b r) := by
  induction b generalizing r with
  | nil => rfl
  | cons b bs ih =>
    rw [Vec.lift_cons, backSubstitute, backSubstitute, Rows.map_tail_tail_lift, ih, Vec.lift_cons]
    simp only [Rows.headD_lift, Vec.headD_lift, Vec.tail_lift, Vec.foldl_lift,
      component_exact nonneg]

theorem forwardSubstitute_lift (nonneg : 0 ≤ cutoff) (b : Vec ℝ) (r : Rows ℝ) :
    forwardSubstitute (.exact cutoff) (Vec.lift b) (Rows.lift r) =
      Vec.lift (forwardSubstitute cutoff b r) := by
  induction b, r using forwardSubstitute.induct cutoff with
  | case1 r =>
    rw [Vec.lift, List.map_nil, forwardSubstitute, forwardSubstitute]
    rfl
  | case2 b bs r row pivot x ih =>
    rw [Vec.lift_cons, forwardSubstitute, forwardSubstitute, Rows.map_tail_tail_lift, Vec.lift_cons]
    simp only [Rows.headD_lift, Vec.headD_lift, Vec.tail_lift, component_exact nonneg,
      Vec.eliminate_lift]
    exact congrArg _ ih

/-- Zero where the pivot is cut, and a solution of every other equation. -/
def CutSolution (cutoff : ℝ) (M : Matrix (Fin n) (Fin n) ℝ) (b x : Fin n → ℝ) : Prop :=
  ∀ i, if |M i i| ≤ cutoff then x i = 0 else (M *ᵥ x) i = b i

section Solutions
variable {M : Matrix (Fin n) (Fin n) ℝ} {b x y : Fin n → ℝ}

theorem cutSolution_iff (nonneg : 0 ≤ cutoff) :
    CutSolution cutoff M b x ↔ SolvesCut cutoff M x b := by
  constructor
  · intro h
    constructor
    · intro i cut
      simpa [cut] using h i
    · intro i large _
      simpa [large.not_ge] using h i
  · intro h i
    by_cases cut : |M i i| ≤ cutoff
    · rw [if_pos cut]
      exact h.cut i cut
    · have large := not_le.mp cut
      rw [if_neg cut]
      exact h.kept i large (abs_pos.mp (nonneg.trans_lt large))

/-- A cut system has at most one solution if its transpose has one for every right-hand side: both
solutions have the same inner product with every vector. -/
theorem SolvesCut.unique_of_transpose (hx : SolvesCut cutoff Mᵀ x b) (hy : SolvesCut cutoff Mᵀ y b)
    (nonneg : 0 ≤ cutoff) (solvable : ∀ w, ∃ z, SolvesCut cutoff M z w) : x = y := by
  have regular (i : Fin n) (large : cutoff < |M i i|) : M i i ≠ 0 :=
    abs_pos.mp (nonneg.trans_lt large)
  refine dotProduct_eq_iff.mp fun w => ?_
  obtain ⟨z, hz⟩ := solvable w
  rw [dotProduct_comm x, dotProduct_comm y, ← hz.adjoint hx regular, ← hz.adjoint hy regular]

end Solutions

section Solves
variable {r : Rows ℝ}

theorem exists_solvesCut (height : r.length = n) (width : ∀ row ∈ r, row.length = n)
    (triangular : (r.matrix n n).IsUpperTriangular) (w : Fin n → ℝ) :
    ∃ z, SolvesCut cutoff (r.matrix n n) z w := by
  have solves : SolvesCut cutoff (r.matrix n n) _ (Vec.coords n (List.ofFn w)) :=
    backSubstitute_solvesCut height width triangular List.length_ofFn
  rw [Vec.coords_ofFn] at solves
  exact ⟨_, solves⟩

theorem cutSolution_iff_eq_backSubstitute (nonneg : 0 ≤ cutoff) (height : r.length = n)
    (width : ∀ row ∈ r, row.length = n) (triangular : (r.matrix n n).IsUpperTriangular) {b : Vec ℝ}
    (hb : b.length = n) (y : Fin n → ℝ) :
    CutSolution cutoff (r.matrix n n) (Vec.coords n b) y ↔
      y = Vec.coords n (backSubstitute cutoff b r) := by
  have found : SolvesCut cutoff _ _ _ := backSubstitute_solvesCut height width triangular hb
  rw [cutSolution_iff nonneg]
  constructor
  · exact fun solves => solves.unique found nonneg triangular
  · rintro rfl
    exact found

theorem cutSolution_iff_eq_forwardSubstitute (nonneg : 0 ≤ cutoff) (height : r.length = n)
    (width : ∀ row ∈ r, row.length = n) (triangular : (r.matrix n n).IsUpperTriangular) {b : Vec ℝ}
    (hb : b.length = n) (y : Fin n → ℝ) :
    CutSolution cutoff (r.matrix n n)ᵀ (Vec.coords n b) y ↔
      y = Vec.coords n (forwardSubstitute cutoff b r) := by
  have found : SolvesCut cutoff _ _ _ := forwardSubstitute_solvesCut height width triangular hb
  rw [cutSolution_iff nonneg]
  constructor
  · exact fun solves =>
      solves.unique_of_transpose found nonneg (exists_solvesCut height width triangular)
  · rintro rfl
    exact found

/-- Both solves return the only solution of their system, of `R` and of its transpose, and return
the same over the reals with an undefined value: they never divide by zero. -/
theorem solves_return_unique (nonneg : 0 ≤ cutoff) (height : r.length = n)
    (width : ∀ row ∈ r, row.length = n) (triangular : (r.matrix n n).IsUpperTriangular) {b : Vec ℝ}
    (hb : b.length = n) :
    (∃ x, solveUpper r b cutoff = .ok x ∧ x.length = n ∧
      (∀ y, CutSolution cutoff (r.matrix n n) (Vec.coords n b) y ↔ y = Vec.coords n x) ∧
      solveUpper (Rows.lift r) (Vec.lift b) (.exact cutoff) = .ok (Vec.lift x)) ∧
    ∃ x, solveUpperTranspose r b cutoff = .ok x ∧ x.length = n ∧
      (∀ y, CutSolution cutoff (r.matrix n n)ᵀ (Vec.coords n b) y ↔ y = Vec.coords n x) ∧
      solveUpperTranspose (Rows.lift r) (Vec.lift b) (.exact cutoff) = .ok (Vec.lift x) := by
  have lifted : (Rows.lift r).length = n := (List.length_map ..).trans height
  have hb' : (Vec.lift b).length = n := (Vec.length_lift b).trans hb
  have lifted_width := Rows.length_of_mem_map Vec.length_lift width
  constructor
  · refine ⟨backSubstitute cutoff b r, solveUpper_of_square cutoff height width hb, ?_,
      cutSolution_iff_eq_backSubstitute nonneg height width triangular hb, ?_⟩
    · rw [length_backSubstitute, hb]
    · rw [solveUpper_of_square _ lifted lifted_width hb', backSubstitute_lift nonneg]
  · refine ⟨forwardSubstitute cutoff b r, solveUpperTranspose_of_square cutoff height width hb, ?_,
      cutSolution_iff_eq_forwardSubstitute nonneg height width triangular hb, ?_⟩
    · rw [length_forwardSubstitute, hb]
    · rw [solveUpperTranspose_of_square _ lifted lifted_width hb', forwardSubstitute_lift nonneg]

/-- The pivot in the middle is cut. -/
theorem solves_return_unique_cutMiddle :
    let r : Rows ℝ := [[1, 2, 3], [0, 0, 4], [0, 0, 5]]
    (0 : ℝ) ≤ 0.001 ∧ r.length = 3 ∧ (∀ row ∈ r, row.length = 3) ∧
      (r.matrix 3 3).IsUpperTriangular ∧
      ∃ x, solveUpper r [1, 1, 1] 0.001 = .ok x ∧ x.length = 3 ∧
        (∀ y, CutSolution 0.001 (r.matrix 3 3) (Vec.coords 3 [1, 1, 1]) y ↔ y = Vec.coords 3 x) ∧
        solveUpper (Rows.lift r) (Vec.lift [1, 1, 1]) (.exact 0.001) = .ok (Vec.lift x) := by
  intro r
  have nonneg : (0 : ℝ) ≤ 0.001 := by norm_num
  have width : ∀ row ∈ r, row.length = 3 := by simp [r]
  have triangular : (r.matrix 3 3).IsUpperTriangular := by
    intro i j below
    fin_cases i <;> fin_cases j <;> simp [r, Rows.matrix_apply, Vec.coords] at below ⊢
  exact ⟨nonneg, rfl, width, triangular,
    (solves_return_unique nonneg rfl width triangular rfl).1⟩

end Solves

end Triangular
end DualOpt
