import Mathlib.LinearAlgebra.Matrix.DotProduct
import Mathlib.LinearAlgebra.Matrix.Notation
import DualOpt.Proofs.Exact.Scalar
import DualOpt.Proofs.Linear.TransposedProduct

/-!
Lists of reals as coordinate vectors and matrices.

`coords n` and `matrix m n` read a list up to the given size and continue it by zeros. Through
them the operations on lists become those of linear algebra, whatever order a sum is taken in.
-/
namespace DualOpt

open Matrix

theorem dotProduct_self_nonneg {n : ℕ} (x : Fin n → ℝ) : 0 ≤ x ⬝ᵥ x :=
  Finset.sum_nonneg fun i _ => mul_self_nonneg (x i)

theorem dotProduct_self_pos {n : ℕ} {x : Fin n → ℝ} (nonzero : x ≠ 0) : 0 < x ⬝ᵥ x :=
  lt_of_le_of_ne (dotProduct_self_nonneg x) (Ne.symm (mt dotProduct_self_eq_zero.mp nonzero))

namespace Vec
variable {n : ℕ}

def coords (n : ℕ) (x : Vec ℝ) : Fin n → ℝ := fun i => x.getD i 0

@[simp] theorem coords_nil : coords n [] = 0 := rfl

@[simp] theorem coords_cons (a : ℝ) (x : Vec ℝ) :
    coords (n + 1) (a :: x) = vecCons a (coords n x) := by
  funext i
  refine Fin.cases rfl (fun i => ?_) i
  simp [coords]

@[simp] theorem coords_ofFn (f : Fin n → ℝ) : coords n (List.ofFn f) = f := by
  funext i
  simp [coords]

theorem eq_of_coords_eq {x y : Vec ℝ} (hx : x.length = n) (hy : y.length = n)
    (h : coords n x = coords n y) : x = y := by
  refine List.ext_getElem (hx.trans hy.symm) fun i hi hj => ?_
  have entry := congrFun h ⟨i, hx ▸ hi⟩
  simpa [coords, hi, hj] using entry

theorem coords_zipWith (f : ℝ → ℝ → ℝ) {x y : Vec ℝ} (hx : x.length = n) (hy : y.length = n)
    (i : Fin n) : coords n (x.zipWith f y) i = f (coords n x i) (coords n y i) := by
  have hi : (i : ℕ) < x.length := hx ▸ i.isLt
  have hj : (i : ℕ) < y.length := hy ▸ i.isLt
  simp [coords, hi, hj]

theorem coords_map (f : ℝ → ℝ) {x : Vec ℝ} (hx : x.length = n) (i : Fin n) :
    coords n (x.map f) i = f (coords n x i) := by
  have hi : (i : ℕ) < x.length := hx ▸ i.isLt
  simp [coords, hi]

theorem coords_scale (α : ℝ) {x : Vec ℝ} (hx : x.length = n) :
    coords n (scale α x) = α • coords n x :=
  funext fun i => coords_map _ hx i

@[simp] theorem coords_neg (x : Vec ℝ) : coords n (neg x) = -coords n x := by
  funext i
  by_cases hi : (i : ℕ) < x.length <;> simp [coords, neg, hi]

theorem coords_add {x y : Vec ℝ} (hx : x.length = n) (hy : y.length = n) :
    coords n (add x y) = coords n x + coords n y :=
  funext fun i => coords_zipWith _ hx hy i

theorem coords_sub {x y : Vec ℝ} (hx : x.length = n) (hy : y.length = n) :
    coords n (sub x y) = coords n x - coords n y :=
  funext fun i => coords_zipWith _ hx hy i

theorem coords_axpy (α : ℝ) {x a : Vec ℝ} (hx : x.length = n) (ha : a.length = n) :
    coords n (axpy α x a) = coords n a + α • coords n x :=
  funext fun i => coords_zipWith _ ha hx i

theorem axpy_zero {x a : Vec ℝ} (same : x.length = a.length) : axpy 0 x a = a := by
  have length : (axpy 0 x a).length = a.length := by rw [length_axpy, same, Nat.min_self]
  refine eq_of_coords_eq length rfl ?_
  rw [coords_axpy 0 same rfl, zero_smul, add_zero]

@[simp] theorem coords_fill_zero (m : ℕ) : coords n (fill m 0) = 0 := by
  funext i
  by_cases hi : (i : ℕ) < m <;> simp [coords, fill, hi]

@[simp] theorem coords_zerosLike (x : Vec ℝ) : coords n (zerosLike x) = 0 :=
  coords_fill_zero x.length

theorem coords_unit (j : Fin n) : coords n (unit n j) = Pi.single j 1 := by
  funext i
  simp [coords, unit, Pi.single_apply, Fin.ext_iff]

private theorem foldl_add_mul (l : List (ℝ × ℝ)) (c : ℝ) :
    l.foldl (fun acc p => acc + p.1 * p.2) c =
      c + l.foldl (fun acc p => acc + p.1 * p.2) 0 := by
  induction l generalizing c with
  | nil => simp
  | cons p l ih => rw [List.foldl_cons, List.foldl_cons, ih, ih (0 + p.1 * p.2)]; ring

@[simp] theorem inner_cons (a b : ℝ) (x y : Vec ℝ) :
    inner (a :: x) (b :: y) = a * b + inner x y := by
  simp only [inner, List.zip_cons_cons, List.foldl_cons]
  rw [foldl_add_mul, zero_add]

theorem inner_scale (α : ℝ) (x y : Vec ℝ) : inner x (scale α y) = α * inner x y := by
  induction x generalizing y with
  | nil => simp [inner]
  | cons a x ih =>
    cases y with
    | nil => simp [inner, scale]
    | cons b y =>
      have tail := ih y
      rw [scale] at tail ⊢
      rw [List.map_cons, inner_cons, inner_cons, tail]
      ring

theorem inner_eq_dotProduct {x : Vec ℝ} (y : Vec ℝ) (hx : x.length ≤ n) :
    inner x y = coords n x ⬝ᵥ coords n y := by
  induction n generalizing x y with
  | zero =>
    obtain rfl := List.length_eq_zero_iff.mp (Nat.le_zero.mp hx)
    simp [inner]
  | succ n ih =>
    cases x with
    | nil => simp [inner]
    | cons a x =>
      cases y with
      | nil => simp [inner]
      | cons b y =>
        rw [inner_cons, ih y (by simpa using hx), coords_cons, coords_cons, cons_dotProduct_cons]

theorem inner_comm (x y : Vec ℝ) : inner x y = inner y x := by
  rw [inner_eq_dotProduct y (Nat.le_max_left x.length y.length),
    inner_eq_dotProduct x (Nat.le_max_right x.length y.length), dotProduct_comm]

theorem coords_eliminate (s : ℝ) {a : Vec ℝ} (x : Vec ℝ) (ha : a.length = n) :
    coords n (eliminate s a x) = coords n a - s • coords n x := by
  induction n generalizing a x with
  | zero => exact Subsingleton.elim _ _
  | succ n ih =>
    obtain ⟨b, a, rfl⟩ := List.exists_cons_of_length_eq_add_one ha
    cases x with
    | nil => simp [eliminate]
    | cons y x =>
      rw [eliminate, coords_cons, ih x (by simpa using ha), coords_cons, coords_cons, smul_cons,
        cons_sub_cons, smul_eq_mul, mul_comm]

end Vec

namespace Rows
variable {m n : ℕ}

def matrix (m n : ℕ) (a : Rows ℝ) : Matrix (Fin m) (Fin n) ℝ :=
  of fun i => Vec.coords n (a.getD i [])

theorem matrix_apply (a : Rows ℝ) (i : Fin m) : matrix m n a i = Vec.coords n (a.getD i []) := rfl

@[simp] theorem matrix_nil : matrix m n [] = 0 := rfl

@[simp] theorem matrix_cons_zero (row : Vec ℝ) (a : Rows ℝ) :
    matrix (m + 1) n (row :: a) 0 = Vec.coords n row := rfl

@[simp] theorem matrix_cons_succ (row : Vec ℝ) (a : Rows ℝ) (i : Fin m) :
    matrix (m + 1) n (row :: a) i.succ = matrix m n a i := by
  simp [matrix_apply]

theorem matrix_map_neg (a : Rows ℝ) : matrix m n (a.map Vec.neg) = -matrix m n a := by
  ext i j
  rw [neg_apply, matrix_apply, matrix_apply, ← Pi.neg_apply, ← Vec.coords_neg]
  by_cases hi : (i : ℕ) < a.length <;> simp [hi]

theorem matrix_columns (a : Rows ℝ) : matrix n m (columns n a) = (matrix m n a)ᵀ := by
  ext j i
  exact getD_columns j.isLt a i

theorem coords_mulVec (a : Rows ℝ) (v : Vec ℝ) (ha : ∀ row ∈ a, row.length = n) :
    Vec.coords m (a.mulVec v) = matrix m n a *ᵥ Vec.coords n v := by
  funext i
  by_cases hi : (i : ℕ) < a.length
  · have product := Vec.inner_eq_dotProduct v (ha _ (List.getElem_mem hi)).le
    calc Vec.coords m (a.mulVec v) i
        = Vec.inner a[i] v := by simp [Vec.coords, mulVec, hi]
      _ = Vec.coords n a[i] ⬝ᵥ Vec.coords n v := product
      _ = (matrix m n a *ᵥ Vec.coords n v) i := by simp [Matrix.mulVec, matrix, hi]
  · simp [Vec.coords, mulVec, Matrix.mulVec, matrix, hi]

theorem coords_transposeMulVec {a : Rows ℝ} (v : Vec ℝ) (ha : ∀ row ∈ a, row.length = n) :
    Vec.coords n (a.transposeMulVec v n) =
      (matrix a.length n a)ᵀ *ᵥ Vec.coords a.length v := by
  rw [← mulVec_columns ha, coords_mulVec _ _ fun _ h => length_of_mem_columns h, matrix_columns]

end Rows

namespace Dense

def matrix (a : Dense ℝ) : Matrix (Fin a.rows.length) (Fin a.inSize) ℝ :=
  a.rows.matrix a.rows.length a.inSize

theorem matrix_transpose (a : Dense ℝ) (width : a.rows.width = a.inSize) :
    a.transpose.rows.matrix a.inSize a.rows.length = a.matrixᵀ := by
  rw [matrix, ← Rows.matrix_columns, ← width]
  rfl

end Dense
end DualOpt
