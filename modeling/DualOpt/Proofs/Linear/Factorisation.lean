import Mathlib.LinearAlgebra.Matrix.Block
import Mathlib.Tactic.LinearCombination
import DualOpt.Proofs.Exact.Coordinates

/-!
The reduced factorisation in exact arithmetic: `A = Q·R`, where `Q` has orthonormal columns and `R`
is upper triangular. Nothing is lost where the reduction drops the entries below a pivot, because
the reflection has made them zero.
-/
namespace DualOpt

open Matrix

namespace Householder
variable {m n : ℕ}

/-- The matrix of a reflection. -/
def mirror (m : ℕ) : Option (Vec ℝ) → Matrix (Fin m) (Fin m) ℝ
  | none => 1
  | some v => 1 - (1 + 1 : ℝ) • vecMulVec (Vec.coords m v) (Vec.coords m v)

theorem coords_reflect {h : Option (Vec ℝ)} {x : Vec ℝ} (hh : ∀ v ∈ h, v.length = m)
    (hx : x.length = m) : Vec.coords m (reflect h x) = mirror m h *ᵥ Vec.coords m x := by
  cases h with
  | none => simp [reflect, mirror]
  | some v =>
    funext i
    rw [reflect, Vec.coords_zipWith _ hx (hh v rfl), Vec.inner_eq_dotProduct x (hh v rfl).le,
      mirror, sub_mulVec, one_mulVec, smul_mulVec, vecMulVec_mulVec]
    simp
    ring

theorem transpose_mirror (h : Option (Vec ℝ)) : (mirror m h)ᵀ = mirror m h := by
  cases h with
  | none => exact transpose_one
  | some v => simp [mirror, transpose_sub, transpose_smul, transpose_vecMulVec]

theorem mirror_mul_self {h : Option (Vec ℝ)}
    (unit : ∀ v ∈ h, Vec.coords m v ⬝ᵥ Vec.coords m v = 1) : mirror m h * mirror m h = 1 := by
  cases h with
  | none => exact mul_one 1
  | some v =>
    rw [mirror, mul_sub, mul_one, sub_mul, one_mul, smul_mul_smul_comm,
      vecMulVec_mul_vecMulVec, unit v rfl, one_smul]
    module

/-- A matrix that acts from the second coordinate on. -/
def extend (P : Matrix (Fin m) (Fin m) ℝ) : Matrix (Fin (m + 1)) (Fin (m + 1)) ℝ :=
  of (vecCons (vecCons 1 0) fun i => vecCons 0 (P i))

theorem extend_mulVec_cons (P : Matrix (Fin m) (Fin m) ℝ) (a : ℝ) (x : Fin m → ℝ) :
    extend P *ᵥ vecCons a x = vecCons a (P *ᵥ x) := by
  funext i
  refine Fin.cases ?_ (fun i => ?_) i
  · simp [extend, mulVec]
  · simp [extend, mulVec]

theorem extend_transpose_mul_self {P : Matrix (Fin m) (Fin m) ℝ} (h : Pᵀ * P = 1) :
    (extend P)ᵀ * extend P = 1 := by
  ext i j
  have entry (i j : Fin m) := congrFun (congrFun h i) j
  simp only [mul_apply, transpose_apply] at entry ⊢
  refine Fin.cases ?_ (fun i => ?_) i <;> refine Fin.cases ?_ (fun j => ?_) j
  · simp [extend, Fin.sum_univ_succ]
  · simp [extend, Fin.sum_univ_succ, one_apply, (Fin.succ_ne_zero j).symm]
  · simp [extend, Fin.sum_univ_succ]
  · simp [extend, Fin.sum_univ_succ, entry, one_apply]

/-- The matrix of a product of reflections. -/
def product : (m : ℕ) → List (Option (Vec ℝ)) → Matrix (Fin m) (Fin m) ℝ
  | _, [] => 1
  | 0, _ :: _ => 1
  | m + 1, h :: hs => mirror (m + 1) h * extend (product m hs)

theorem coords_applyProduct {hs : List (Option (Vec ℝ))} {x : Vec ℝ} (fits : Fits m hs)
    (hx : x.length = m) :
    Vec.coords m (applyProduct hs x) = product m hs *ᵥ Vec.coords m x := by
  induction hs generalizing m x with
  | nil => simp [applyProduct, product]
  | cons h hs ih =>
    cases m with
    | zero => exact fits.elim
    | succ m =>
      obtain ⟨a, x, rfl⟩ := List.exists_cons_of_length_eq_add_one hx
      have short : x.length = m := by simpa using hx
      have inner : (applyProduct hs x).length = m := length_applyProduct fits.2 short
      rw [applyProduct, List.headD_cons, List.tail_cons, coords_reflect fits.1 (by simp [inner]),
        Vec.coords_cons, ih fits.2 short, product, Vec.coords_cons, ← mulVec_mulVec,
        extend_mulVec_cons]

theorem product_orthogonal {hs : List (Option (Vec ℝ))} (fits : Fits m hs)
    (unit : ∀ h ∈ hs, ∀ v ∈ h, Vec.sumSquares v = 1) :
    (product m hs)ᵀ * product m hs = 1 := by
  induction hs generalizing m with
  | nil => simp [product]
  | cons h hs ih =>
    cases m with
    | zero => exact fits.elim
    | succ m =>
      obtain ⟨unit_h, unit_hs⟩ := List.forall_mem_cons.mp unit
      have involution : mirror (m + 1) h * mirror (m + 1) h = 1 := by
        apply mirror_mul_self
        intro v hv
        rw [← Vec.inner_eq_dotProduct v (fits.1 v hv).le]
        exact unit_h v hv
      calc (product (m + 1) (h :: hs))ᵀ * product (m + 1) (h :: hs)
          = (extend (product m hs))ᵀ * (mirror (m + 1) h * mirror (m + 1) h) *
              extend (product m hs) := by
            rw [product, transpose_mul, transpose_mirror]
            simp only [Matrix.mul_assoc]
        _ = 1 := by
            rw [involution, Matrix.mul_one, extend_transpose_mul_self (ih fits.2 unit_hs)]

theorem twoNorm_eq_sqrt {x : Vec ℝ} (hx : x.length = m) :
    Vec.twoNorm x = √(Vec.coords m x ⬝ᵥ Vec.coords m x) := by
  rw [Vec.twoNorm, Vec.sumSquares, Vec.inner_eq_dotProduct x hx.le, Scalar.sqrt_real]

theorem twoNorm_mul_self {x : Vec ℝ} (hx : x.length = m) :
    Vec.twoNorm x * Vec.twoNorm x = Vec.coords m x ⬝ᵥ Vec.coords m x := by
  rw [twoNorm_eq_sqrt hx, Real.mul_self_sqrt (dotProduct_self_nonneg _)]

theorem twoNorm_eq_zero_iff {x : Vec ℝ} (hx : x.length = m) :
    Vec.twoNorm x = 0 ↔ Vec.coords m x = 0 := by
  rw [twoNorm_eq_sqrt hx, Real.sqrt_eq_zero (dotProduct_self_nonneg _), dotProduct_self_eq_zero]

/-- Where a reflection sends the vector that chose it: to this multiple of the first unit vector. -/
noncomputable def target (c : Vec ℝ) : ℝ := if c.headD 0 ≥ 0 then -Vec.twoNorm c else Vec.twoNorm c

/-- The normal before it is scaled to unit length. -/
noncomputable def offAxis (c : Vec ℝ) : Vec ℝ := (c.headD 0 - target c) :: c.tail

theorem normal?_of_coords_eq_zero {c : Vec ℝ} (hc : c.length = m) (zero : Vec.coords m c = 0) :
    normal? c = none := by
  simp [normal?, (twoNorm_eq_zero_iff hc).mpr zero]

/-- The sign of the target keeps the normal away from zero. -/
theorem head_offAxis_ne_zero {c : Vec ℝ} (hc : c.length = m) (nonzero : Vec.coords m c ≠ 0) :
    c.headD 0 - target c ≠ 0 := by
  have positive : 0 < Vec.twoNorm c := by
    refine lt_of_le_of_ne ?_ (Ne.symm (mt (twoNorm_eq_zero_iff hc).mp nonzero))
    rw [twoNorm_eq_sqrt hc]
    exact Real.sqrt_nonneg _
  rw [target]
  split <;> linarith

theorem length_offAxis {c : Vec ℝ} (hc : c.length = m + 1) : (offAxis c).length = m + 1 := by
  simp [offAxis, hc]

theorem coords_offAxis_ne_zero {c : Vec ℝ} (hc : c.length = m + 1)
    (nonzero : Vec.coords (m + 1) c ≠ 0) : Vec.coords (m + 1) (offAxis c) ≠ 0 := by
  intro zero
  exact head_offAxis_ne_zero hc nonzero (congrFun zero 0)

theorem twoNorm_offAxis_ne_zero {c : Vec ℝ} (hc : c.length = m + 1)
    (nonzero : Vec.coords (m + 1) c ≠ 0) : Vec.twoNorm (offAxis c) ≠ 0 :=
  mt (twoNorm_eq_zero_iff (length_offAxis hc)).mp (coords_offAxis_ne_zero hc nonzero)

theorem normal?_of_coords_ne_zero {c : Vec ℝ} (hc : c.length = m + 1)
    (nonzero : Vec.coords (m + 1) c ≠ 0) :
    normal? c = some ((offAxis c).map (· / Vec.twoNorm (offAxis c))) := by
  have long : ¬ (Vec.twoNorm c == 0) = true := by
    rwa [beq_iff_eq, twoNorm_eq_zero_iff hc]
  have off : ¬ (Vec.twoNorm (offAxis c) == 0) = true := by
    rw [beq_iff_eq]
    exact twoNorm_offAxis_ne_zero hc nonzero
  exact (if_neg long).trans (if_neg off)

/-- In exact arithmetic the second way to refuse a normal is never taken. -/
theorem normal?_eq_none_iff {c : Vec ℝ} (hc : c.length = m + 1) :
    normal? c = none ↔ Vec.coords (m + 1) c = 0 := by
  constructor
  · intro none
    by_contra nonzero
    rw [normal?_of_coords_ne_zero hc nonzero] at none
    cases none
  · exact normal?_of_coords_eq_zero hc

theorem coords_offAxis {c : Vec ℝ} (hc : c.length = m + 1) :
    Vec.coords (m + 1) (offAxis c) = Vec.coords (m + 1) c - vecCons (target c) 0 := by
  obtain ⟨a, c, rfl⟩ := List.exists_cons_of_length_eq_add_one hc
  rw [offAxis, List.headD_cons, List.tail_cons, Vec.coords_cons, Vec.coords_cons, cons_sub_cons,
    sub_zero]

/-- The vector has the length of its target, so twice its product with the difference is the square
of the difference. -/
theorem offAxis_dotProduct_self {c : Vec ℝ} (hc : c.length = m + 1) :
    Vec.coords (m + 1) (offAxis c) ⬝ᵥ Vec.coords (m + 1) (offAxis c) =
      2 * (Vec.coords (m + 1) (offAxis c) ⬝ᵥ Vec.coords (m + 1) c) := by
  have length_target : target c * target c = Vec.coords (m + 1) c ⬝ᵥ Vec.coords (m + 1) c := by
    have square := twoNorm_mul_self hc
    rw [target]
    split <;> linarith
  rw [coords_offAxis hc]
  obtain ⟨a, c, rfl⟩ := List.exists_cons_of_length_eq_add_one hc
  simp only [Vec.coords_cons, cons_sub_cons, sub_zero, cons_dotProduct_cons] at length_target ⊢
  linarith

theorem coords_of_mem_normal? {c v : Vec ℝ} (hc : c.length = m + 1) (hv : v ∈ normal? c) :
    Vec.coords (m + 1) c ≠ 0 ∧ Vec.coords (m + 1) v =
      (Vec.twoNorm (offAxis c))⁻¹ • Vec.coords (m + 1) (offAxis c) := by
  have nonzero : Vec.coords (m + 1) c ≠ 0 := by
    intro zero
    rw [normal?_of_coords_eq_zero hc zero] at hv
    cases hv
  rw [normal?_of_coords_ne_zero hc nonzero] at hv
  obtain rfl := Option.some.inj hv
  refine ⟨nonzero, funext fun i => ?_⟩
  rw [Vec.coords_map _ (length_offAxis hc), Pi.smul_apply, smul_eq_mul, div_eq_inv_mul]

theorem sumSquares_of_mem_normal? {c v : Vec ℝ} (hc : c.length = m + 1) (hv : v ∈ normal? c) :
    Vec.sumSquares v = 1 := by
  have hlen : v.length = m + 1 := fits_normal? hc v hv
  obtain ⟨nonzero, hcoords⟩ := coords_of_mem_normal? hc hv
  have square := twoNorm_mul_self (length_offAxis hc)
  have norm_ne_zero := twoNorm_offAxis_ne_zero hc nonzero
  rw [Vec.sumSquares, Vec.inner_eq_dotProduct v hlen.le, hcoords, smul_dotProduct,
    dotProduct_smul, ← square, smul_eq_mul, smul_eq_mul]
  field_simp

/-- The reflection chosen by a vector clears everything below its first entry. -/
theorem exists_coords_reflect_normal? {c : Vec ℝ} (hc : c.length = m + 1) :
    ∃ t, Vec.coords (m + 1) (reflect (normal? c) c) = vecCons t 0 := by
  have fits := fits_normal? hc
  cases hnormal : normal? c with
  | none =>
    refine ⟨0, ?_⟩
    rw [reflect, (normal?_eq_none_iff hc).mp hnormal]
    funext i
    exact Fin.cases rfl (fun i => rfl) i
  | some v =>
    obtain ⟨nonzero, hcoords⟩ := coords_of_mem_normal? hc hnormal
    have square := twoNorm_mul_self (length_offAxis hc)
    have norm_ne_zero := twoNorm_offAxis_ne_zero hc nonzero
    have half := offAxis_dotProduct_self hc
    refine ⟨target c, ?_⟩
    rw [coords_reflect (hnormal ▸ fits) hc, mirror, sub_mulVec, one_mulVec, smul_mulVec,
      vecMulVec_mulVec, hcoords]
    have shift : Vec.coords (m + 1) c - Vec.coords (m + 1) (offAxis c) = vecCons (target c) 0 := by
      rw [coords_offAxis hc, sub_sub_cancel]
    rw [← shift]
    generalize Vec.coords (m + 1) (offAxis c) = w at *
    -- The coefficient of `w` is one: `2 (w·c) / |w|² = 1`.
    have coefficient : (Vec.twoNorm (offAxis c))⁻¹ * (2 * ((Vec.twoNorm (offAxis c))⁻¹ *
        (w ⬝ᵥ Vec.coords (m + 1) c))) = 1 := by
      field_simp
      linear_combination -square - half
    funext i
    simp only [Pi.sub_apply, Pi.smul_apply, smul_dotProduct, smul_eq_mul,
      MulOpposite.smul_eq_mul_unop, MulOpposite.unop_op]
    linear_combination (-w i) * coefficient

theorem sumSquares_of_mem_reduce {n : ℕ} {cs : Rows ℝ} (hn : cs.length = n)
    (hcs : ∀ c ∈ cs, c.length = m) (tall : n ≤ m) :
    ∀ h ∈ (reduce cs).1, ∀ v ∈ h, Vec.sumSquares v = 1 := by
  refine columns_induction (fun m => ?_) (fun n m c cs hc _ hcs ih => ?_) hn hcs tall
  · rw [reduce]
    exact List.forall_mem_nil _
  · rw [reduce_cons]
    exact List.forall_mem_cons.mpr ⟨fun v hv => sumSquares_of_mem_normal? hc hv, ih⟩

theorem matrix_map_cons_zero {n k : ℕ} (r : Rows ℝ) (i : Fin k) :
    Rows.matrix k (n + 1) (r.map (0 :: ·)) i = vecCons 0 (Rows.matrix k n r i) := by
  by_cases hi : (i : ℕ) < r.length
  · simp [Rows.matrix_apply, hi]
  · funext j
    refine Fin.cases ?_ (fun j => ?_) j <;> simp [Rows.matrix_apply, hi]

theorem isUpperTriangular_reduce {n : ℕ} {cs : Rows ℝ} (hn : cs.length = n) :
    (Rows.matrix n n (reduce cs).2).IsUpperTriangular := by
  induction n generalizing cs with
  | zero => exact fun i => i.elim0
  | succ n ih =>
    obtain ⟨c, cs, rfl⟩ := List.exists_cons_of_length_eq_add_one hn
    rw [reduce_cons]
    intro i j hij
    obtain ⟨i, rfl⟩ := Fin.exists_succ_eq.mpr (Fin.ne_zero_of_lt hij)
    rw [Rows.matrix_cons_succ, matrix_map_cons_zero]
    refine Fin.cases ?_ (fun j hij => ?_) j hij
    · exact fun _ => rfl
    · exact ih (by simpa using hn) (Fin.succ_lt_succ_iff.mp hij)

private theorem transpose_matrix_zero {n : ℕ} (row : Vec ℝ) (r : Rows ℝ) :
    (Rows.matrix (m + 1) (n + 1) (row :: r.map (0 :: ·)))ᵀ 0 = vecCons (row.getD 0 0) 0 := by
  funext i
  refine Fin.cases rfl (fun i => ?_) i
  rw [transpose_apply, Rows.matrix_cons_succ, matrix_map_cons_zero]
  rfl

private theorem transpose_matrix_succ {n : ℕ} (row : Vec ℝ) (r : Rows ℝ) (j : Fin n) :
    (Rows.matrix (m + 1) (n + 1) (row :: r.map (0 :: ·)))ᵀ j.succ =
      vecCons (row.getD j.succ 0) ((Rows.matrix m n r)ᵀ j) := by
  funext i
  refine Fin.cases rfl (fun i => ?_) i
  rw [transpose_apply, Rows.matrix_cons_succ, matrix_map_cons_zero]
  rfl

theorem mirror_mulVec_reflect {h : Option (Vec ℝ)} {x : Vec ℝ} (hh : ∀ v ∈ h, v.length = m)
    (unit : ∀ v ∈ h, Vec.sumSquares v = 1) (hx : x.length = m) :
    mirror m h *ᵥ Vec.coords m (reflect h x) = Vec.coords m x := by
  have involution : mirror m h * mirror m h = 1 := by
    apply mirror_mul_self
    intro v hv
    rw [← Vec.inner_eq_dotProduct v (hh v hv).le]
    exact unit v hv
  rw [coords_reflect hh hx, mulVec_mulVec, involution, one_mulVec]

private theorem coords_eq_vecCons {x : Vec ℝ} (hx : x.length = m + 1) :
    Vec.coords (m + 1) x = vecCons (x.headD 0) (Vec.coords m x.tail) := by
  obtain ⟨a, x, rfl⟩ := List.exists_cons_of_length_eq_add_one hx
  exact Vec.coords_cons a x

/-- Every column is the product of the reflections applied to its column of the triangle, which
has zeros below. -/
theorem product_mulVec_reduce {n : ℕ} {cs : Rows ℝ} (hn : cs.length = n)
    (hcs : ∀ c ∈ cs, c.length = m) (tall : n ≤ m) (j : Fin n) :
    product m (reduce cs).1 *ᵥ (Rows.matrix m n (reduce cs).2)ᵀ j =
      Vec.coords m (cs.getD j []) := by
  revert j
  refine columns_induction (fun m => ?_) (fun n m c cs hc hn hcs ih => ?_) hn hcs tall
  · exact fun j => j.elim0
  have fits := fits_normal? hc
  have unit : ∀ v ∈ normal? c, Vec.sumSquares v = 1 := fun v => sumSquares_of_mem_normal? hc
  intro j
  rw [reduce_cons, product, ← mulVec_mulVec]
  refine Fin.cases ?_ (fun j => ?_) j
  · -- The first column has been sent onto its axis, so no entry is lost below its head.
    obtain ⟨t, ht⟩ := exists_coords_reflect_normal? hc
    have head : (reflect (normal? c) c).headD 0 = t := by
      rw [coords_eq_vecCons (length_reflect fits hc)] at ht
      exact congrFun ht 0
    rw [transpose_matrix_zero, extend_mulVec_cons, mulVec_zero, List.map_cons, List.map_cons,
      List.getD_cons_zero, head, ← ht]
    exact mirror_mulVec_reflect fits unit hc
  · have hj : (j : ℕ) < cs.length := hn ▸ j.isLt
    have hlen : cs[j].length = m + 1 := hcs _ (List.getElem_mem hj)
    have column : Vec.coords (m + 1) (reflect (normal? c) cs[j]) =
        vecCons ((((c :: cs).map (reflect (normal? c))).map (·.headD 0)).getD j.succ 0)
          (Vec.coords m (((cs.map (reflect (normal? c))).map List.tail).getD j [])) := by
      rw [coords_eq_vecCons (length_reflect fits hlen)]
      simp [hj]
    rw [transpose_matrix_succ, extend_mulVec_cons, ih, ← column,
      mirror_mulVec_reflect fits unit hlen]
    simp [hj]

end Householder

namespace QrFactors
open Householder

variable {m n : ℕ}

/-- A reduced factorisation: `A = Q·R` with orthonormal columns of `Q` and `R` upper triangular. -/
structure Factors (f : QrFactors ℝ) (A : Matrix (Fin m) (Fin n) ℝ) : Prop
    extends f.Shaped m n where
  product : f.q.matrix m n * f.r.matrix n n = A
  orthonormal : (f.q.matrix m n)ᵀ * f.q.matrix m n = 1
  triangular : (f.r.matrix n n).IsUpperTriangular

theorem matrix_orthonormalColumns {hs : List (Option (Vec ℝ))} (fits : Fits m hs) (tall : n ≤ m) :
    (Rows.columns m (orthonormalColumns hs m n)).matrix m n =
      (product m hs).submatrix id (Fin.castLE tall) := by
  rw [Rows.matrix_columns]
  ext i j
  have column : (orthonormalColumns hs m n).getD j [] = applyProduct hs (Vec.unit m j) := by
    simp [orthonormalColumns]
  have unit : Vec.coords m (Vec.unit m j) = Pi.single (Fin.castLE tall j) 1 :=
    Vec.coords_unit (Fin.castLE tall j)
  rw [transpose_apply, Rows.matrix_apply, column, coords_applyProduct fits (Vec.length_unit m j),
    unit, mulVec_single_one, submatrix_apply, col_apply, id_eq]

/-- The rows of the triangle that the unreduced product has no partner for are zero. -/
theorem submatrix_mul_matrix (P : Matrix (Fin m) (Fin m) ℝ) {r : Rows ℝ} (hr : r.length = n)
    (tall : n ≤ m) :
    P.submatrix id (Fin.castLE tall) * r.matrix n n = P * r.matrix m n := by
  ext i j
  refine Fintype.sum_of_injective (Fin.castLE tall) (Fin.castLE_injective tall) _ _ ?_ fun k => rfl
  intro k hk
  have beyond : ¬ (k : ℕ) < r.length := fun hlt => hk ⟨⟨k, hr ▸ hlt⟩, rfl⟩
  simp [Rows.matrix_apply, beyond]

theorem exists_factors {a : Rows ℝ} (width : a.width = n) (rectangular : ∀ row ∈ a, row.length = n)
    (tall : n ≤ a.length) :
    ∃ f, ofRows a = .ok f ∧ f.Factors (a.matrix a.length n) := by
  obtain ⟨f, hf, shaped⟩ := exists_ofRows width rectangular tall
  have hn : (a.columns n).length = n := Rows.length_columns n a
  have hcs : ∀ c ∈ a.columns n, c.length = a.length := fun c hc => Rows.length_of_mem_columns hc
  have fits := fits_reduce hn hcs tall
  obtain rfl := Except.ok.inj ((ofRows_eq width rectangular tall).symm.trans hf)
  have q := matrix_orthonormalColumns fits tall
  refine ⟨_, hf, shaped, ?_, ?_, isUpperTriangular_reduce hn⟩
  · rw [q, submatrix_mul_matrix _ (length_reduce hn).1]
    ext i j
    have column := congrFun (product_mulVec_reduce hn hcs tall j) i
    exact column.trans (Rows.getD_columns j.isLt a i)
  · rw [q, transpose_submatrix, ← submatrix_mul _ _ _ id _ Function.bijective_id,
      product_orthogonal fits (sumSquares_of_mem_reduce hn hcs tall)]
    exact submatrix_one _ (Fin.castLE_injective tall)

end QrFactors
end DualOpt
