import DualOpt.Proofs.Linear.Factorisation

/-!
The reduction as a sweep over the whole matrix in place.

`reduce` keeps the heads of the reflected columns and goes on with their tails. A sweep leaves the
columns at full height: in pass `k` column `k`, from its diagonal down, chooses a reflection, which
then acts on all columns from `k` on. Both do the same arithmetic in the same order, and what the
sweep leaves below the diagonal is what `reduce` drops. In exact arithmetic that is zero.
-/
namespace DualOpt

namespace Householder

section Passes
variable {F : Type} [Scalar F] {m n : Nat} {c row : Vec F} {cs tails : Rows F}

/-- A reflection of the entries from `k` on. -/
def reflectFrom (k : Nat) (h : Option (Vec F)) (x : Vec F) : Vec F :=
  x.take k ++ reflect h (x.drop k)

/-- Column `k` from its diagonal down. -/
def pivotColumn (cs : Rows F) (k : Nat) : Vec F := (cs.getD k []).drop k

/-- Pass `k`: its pivot column chooses a reflection for all columns from `k` on. -/
def pass (cs : Rows F) (k : Nat) : Rows F :=
  cs.take k ++ (cs.drop k).map (reflectFrom k (normal? (pivotColumn cs k)))

/-- The columns after the first `n` passes. -/
def swept (cs : Rows F) (n : Nat) : Rows F := (List.range n).foldl pass cs

/-- Rows with their entries left of the diagonal overwritten by zeros. -/
def cleared (a : Rows F) : Rows F := a.mapIdx fun i row => Vec.fill i 0 ++ row.drop i

/-- The matrix whose first row is given and whose columns go on with the given tails. -/
def topped (row : Vec F) (tails : Rows F) : Rows F := row.zipWith (· :: ·) tails

theorem topped_head_tail (h : ∀ c ∈ cs, c.length = m + 1) :
    topped (cs.map (·.headD 0)) (cs.map List.tail) = cs := by
  induction cs with
  | nil => rfl
  | cons c cs ih =>
    obtain ⟨hc, hcs⟩ := List.forall_mem_cons.mp h
    obtain ⟨a, c, rfl⟩ := List.exists_cons_of_length_eq_add_one hc
    exact congrArg _ (ih hcs)

theorem getD_topped (row : Vec F) (tails : Rows F) {j : Nat} (hrow : j < row.length)
    (htails : j < tails.length) :
    (topped row tails).getD j [] = row.getD j 0 :: tails.getD j [] := by
  simp [topped, hrow, htails]

omit [Scalar F] in
theorem pivotColumn_topped (c : Vec F) (same : row.length = tails.length) (k : Nat) :
    pivotColumn (c :: topped row tails) (k + 1) = pivotColumn tails k := by
  by_cases hk : k < tails.length
  · simp [pivotColumn, topped, same, hk]
  · simp [pivotColumn, topped, same, hk]

theorem length_pass (cs : Rows F) (k : Nat) : (pass cs k).length = cs.length := by
  rw [pass, List.length_append, List.length_map, ← List.length_append, List.take_append_drop]

/-- Pass `k + 1` leaves the first row and the first column alone, and does to the tails what pass
`k` does to a matrix of its own. -/
theorem pass_topped (c : Vec F) (same : row.length = tails.length) (k : Nat) :
    pass (c :: topped row tails) (k + 1) = c :: topped row (pass tails k) := by
  have split : (row.take k).length = (tails.take k).length := by simp [same]
  rw [pass, pivotColumn_topped c same, List.take_succ_cons, List.drop_succ_cons, topped,
    List.take_zipWith, List.drop_zipWith, List.map_zipWith, pass, topped]
  conv_rhs => rw [← List.take_append_drop k row]
  rw [List.zipWith_append split, List.zipWith_map_right]
  rfl

theorem length_swept (cs : Rows F) (n : Nat) : (swept cs n).length = cs.length := by
  induction n with
  | zero => rfl
  | succ n ih => rw [swept, List.range_succ, List.foldl_concat, length_pass, ← swept, ih]

theorem foldl_pass_topped (c : Vec F) (same : row.length = tails.length) (ks : List Nat) :
    (ks.map Nat.succ).foldl pass (c :: topped row tails) =
      c :: topped row (ks.foldl pass tails) := by
  induction ks generalizing tails with
  | nil => rfl
  | cons k ks ih =>
    rw [List.map_cons, List.foldl_cons, List.foldl_cons, Nat.succ_eq_add_one, pass_topped c same,
      ih (same.trans (length_pass tails k).symm)]

/-- The first pass reflects every column, the others sweep the tails. -/
theorem swept_cons (hcs : ∀ d ∈ cs, (reflect (normal? c) d).length = m + 1) (n : Nat) :
    swept (c :: cs) (n + 1) =
      reflect (normal? c) c :: topped ((cs.map (reflect (normal? c))).map (·.headD 0))
        (swept ((cs.map (reflect (normal? c))).map List.tail) n) := by
  have first : pass (c :: cs) 0 = (c :: cs).map (reflect (normal? c)) := rfl
  have reflected : ∀ d ∈ cs.map (reflect (normal? c)), d.length = m + 1 := by simpa using hcs
  rw [swept, List.range_succ_eq_map, List.foldl_cons, first, List.map_cons]
  conv_lhs => rw [← topped_head_tail reflected]
  exact foldl_pass_topped _ (by simp) _

theorem pivotColumn_swept_cons (hcs : ∀ d ∈ cs, (reflect (normal? c) d).length = m + 1)
    (k : Nat) :
    pivotColumn (swept (c :: cs) (k + 1)) (k + 1) =
      pivotColumn (swept ((cs.map (reflect (normal? c))).map List.tail) k) k := by
  rw [swept_cons hcs, pivotColumn_topped]
  simp only [length_swept, List.length_map]

theorem length_pivotColumn (hn : cs.length = n) (hcs : ∀ c ∈ cs, c.length = m) (tall : n ≤ m)
    (k : Nat) (hk : k < n) : (pivotColumn (swept cs k) k).length = m - k := by
  revert k
  refine columns_induction (fun m => ?_) (fun n m c cs hc _ hcs ih => ?_) hn hcs tall
  · intro k hk
    exact absurd hk (Nat.not_lt_zero k)
  · intro k hk
    cases k with
    | zero => exact hc
    | succ k =>
      rw [pivotColumn_swept_cons fun d hd => length_reflect (fits_normal? hc) (hcs d hd),
        ih k (Nat.lt_of_succ_lt_succ hk), Nat.add_sub_add_right]

theorem swept_succ (cs : Rows F) (n : Nat) : swept cs (n + 1) = pass (swept cs n) n := by
  rw [swept, List.range_succ, List.foldl_concat, ← swept]

/-- A pass leaves the columns before its own. -/
theorem getD_pass_of_lt {j k : Nat} (before : j < k) (cs : Rows F) :
    (pass cs k).getD j [] = cs.getD j [] := by
  by_cases hj : j < cs.length
  · have inside : j < (cs.take k).length := by
      rw [List.length_take]
      exact lt_min before hj
    rw [pass, List.getD_eq_getElem?_getD, List.getElem?_append_left inside,
      List.getElem?_take_of_lt before, ← List.getD_eq_getElem?_getD]
  · have beyond : (pass cs k).length ≤ j := (length_pass cs k).trans_le (Nat.not_lt.mp hj)
    rw [List.getD_eq_getElem?_getD, List.getD_eq_getElem?_getD, List.getElem?_eq_none beyond,
      List.getElem?_eq_none (Nat.not_lt.mp hj)]

theorem getD_pass_self {k : Nat} (hk : k < cs.length) :
    (pass cs k).getD k [] = reflectFrom k (normal? (pivotColumn cs k)) (cs.getD k []) := by
  have first : (cs.take k).length = k := List.length_take_of_le hk.le
  simp [pass, hk, first]

/-- From its diagonal down, a column ends as its own pass leaves it. -/
theorem pivotColumn_swept {k n : Nat} (hk : k < cs.length) (within : k < n)
    (deep : 0 < (pivotColumn (swept cs k) k).length) :
    pivotColumn (swept cs n) k =
      reflect (normal? (pivotColumn (swept cs k) k)) (pivotColumn (swept cs k) k) := by
  induction n, within using Nat.le_induction with
  | base =>
    have height : k ≤ ((swept cs k).getD k []).length := by
      rw [pivotColumn, List.length_drop] at deep
      omega
    rw [swept_succ, pivotColumn, getD_pass_self (by rwa [length_swept]), reflectFrom,
      List.drop_append_of_le_length (by rw [List.length_take_of_le height]), List.drop_take,
      Nat.sub_self, List.take_zero, List.nil_append, ← pivotColumn]
  | succ n within ih =>
    rw [swept_succ, pivotColumn, getD_pass_of_lt within, ← pivotColumn, ih]

theorem getD_cleared_eq_zero {i j : Nat} (below : j < i) (a : Rows F) :
    ((cleared a).getD i []).getD j 0 = 0 := by
  by_cases hi : i < a.length
  · have row : (cleared a).getD i [] = Vec.fill i 0 ++ a[i].drop i := by simp [cleared, hi]
    have inside : j < (Vec.fill i (0 : F)).length := by rwa [Vec.length_fill]
    rw [row, List.getD_eq_getElem?_getD, List.getElem?_append_left inside]
    simp [Vec.fill, below]
  · simp [cleared, hi]

/-- The normals that the passes choose. -/
def passNormals (cs : Rows F) (n : Nat) : List (Option (Vec F)) :=
  (List.range n).map fun k => normal? (pivotColumn (swept cs k) k)

theorem passNormals_cons (hcs : ∀ d ∈ cs, (reflect (normal? c) d).length = m + 1) (n : Nat) :
    passNormals (c :: cs) (n + 1) =
      normal? c :: passNormals ((cs.map (reflect (normal? c))).map List.tail) n := by
  rw [passNormals, List.range_succ_eq_map, List.map_cons, List.map_map]
  refine congrArg (normal? c :: ·) (List.map_congr_left fun k _ => ?_)
  exact congrArg normal? (pivotColumn_swept_cons hcs k)

theorem cleared_cons (row : Vec F) (a : Rows F) :
    cleared (row :: a) = row :: (cleared (a.map List.tail)).map (0 :: ·) := by
  rw [cleared, List.mapIdx_cons]
  congr 1
  refine List.ext_getElem (by simp [cleared]) fun i hi hj => ?_
  simp [cleared, Vec.fill, List.replicate_succ]

theorem columns_topped (x : Vec F) (same : row.length = tails.length) (n : Nat) :
    Rows.columns (n + 1) (x :: topped row tails) =
      (x.headD 0 :: row) :: Rows.columns n (x.tail :: tails) := by
  have heads : (topped row tails).map (·.headD 0) = row :=
    List.ext_getElem (by simp [topped, same]) (by simp [topped])
  have rest : (topped row tails).map List.tail = tails :=
    List.ext_getElem (by simp [topped, same]) (by simp [topped])
  rw [Rows.columns, List.map_cons, List.map_cons, heads, rest]

/-- The reduction keeps the normals that the passes choose, and of the swept matrix the upper
triangle. -/
theorem reduce_eq_swept (hn : cs.length = n) (hcs : ∀ c ∈ cs, c.length = m) (tall : n ≤ m) :
    reduce cs = (passNormals cs n, cleared (Rows.columns n (swept cs n))) := by
  refine columns_induction (fun m => ?_) (fun n m c cs hc _ hcs ih => ?_) hn hcs tall
  · rw [reduce]
    rfl
  · have reflected : ∀ d ∈ cs, (reflect (normal? c) d).length = m + 1 :=
      fun d hd => length_reflect (fits_normal? hc) (hcs d hd)
    rw [reduce_cons]
    dsimp only
    rw [ih, passNormals_cons reflected, swept_cons reflected,
      columns_topped _ (by simp only [length_swept, List.length_map]), cleared_cons,
      Rows.map_tail_columns, List.map_cons, List.map_cons]

end Passes

section Exact
variable {m n : ℕ} {cs : Rows ℝ}

/-- The ways to choose a reflection without a division by zero: the zero vector has no normal, and
any other vector one that is scaled by a norm other than zero. -/
inductive Chooses (c : Vec ℝ) : Option (Vec ℝ) → Prop
  | skipped (zero : Vec.twoNorm c = 0) : Chooses c none
  | scaled (nonzero : Vec.twoNorm c ≠ 0) (divisor : Vec.twoNorm (offAxis c) ≠ 0) :
      Chooses c (some ((offAxis c).map (· / Vec.twoNorm (offAxis c))))

theorem chooses_normal? {c : Vec ℝ} (hc : c.length = m + 1) : Chooses c (normal? c) := by
  by_cases zero : Vec.coords (m + 1) c = 0
  · rw [normal?_of_coords_eq_zero hc zero]
    exact .skipped ((twoNorm_eq_zero_iff hc).mpr zero)
  · rw [normal?_of_coords_ne_zero hc zero]
    exact .scaled (mt (twoNorm_eq_zero_iff hc).mp zero) (twoNorm_offAxis_ne_zero hc zero)

/-- The sweep itself clears what lies below the diagonal. -/
theorem getD_swept_eq_zero (hn : cs.length = n) (hcs : ∀ c ∈ cs, c.length = m) (tall : n ≤ m)
    (i j : ℕ) (hj : j < n) (hij : j < i) : ((swept cs n).getD j []).getD i 0 = 0 := by
  revert i j
  refine columns_induction (fun m => ?_) (fun n m c cs hc hn hcs ih => ?_) hn hcs tall
  · intro i j hj
    exact absurd hj (Nat.not_lt_zero j)
  · intro i j hj hij
    obtain ⟨i, rfl⟩ := Nat.exists_eq_add_one_of_ne_zero (Nat.ne_zero_of_lt hij)
    rw [swept_cons fun d hd => length_reflect (fits_normal? hc) (hcs d hd)]
    cases j with
    | zero =>
      obtain ⟨t, ht⟩ := exists_coords_reflect_normal? hc
      have length : (reflect (normal? c) c).length = m + 1 := length_reflect (fits_normal? hc) hc
      rw [List.getD_cons_zero]
      by_cases hi : i < m
      · exact congrFun ht (Fin.succ ⟨i, hi⟩)
      · have beyond : (reflect (normal? c) c).length ≤ i + 1 := by omega
        rw [List.getD_eq_getElem?_getD, List.getElem?_eq_none beyond, Option.getD_none]
    | succ j =>
      have inside : j < cs.length := hn ▸ Nat.lt_of_succ_lt_succ hj
      rw [List.getD_cons_succ, getD_topped _ _ (by simpa using inside)
        (by simpa [length_swept] using inside), List.getD_cons_succ]
      exact ih i j (Nat.lt_of_succ_lt_succ hj) (Nat.lt_of_succ_lt_succ hij)

end Exact
end Householder

namespace QrFactors
open Householder

/-- The factors that the passes over the whole matrix leave. -/
def inPlace {F : Type} [Scalar F] (a : Rows F) : QrFactors F :=
  let cs := a.columns a.width
  ⟨Rows.columns a.length (orthonormalColumns (passNormals cs a.width) a.length a.width),
    cleared (Rows.columns a.width (swept cs a.width))⟩

theorem ofRows_eq_inPlace {F : Type} [Scalar F] {a : Rows F}
    (rectangular : ∀ row ∈ a, row.length = a.width) (tall : a.width ≤ a.length) :
    ofRows a = .ok (inPlace a) := by
  rw [ofRows_eq rfl rectangular tall, reduce_eq_swept (Rows.length_columns a.width a)
    (fun c hc => Rows.length_of_mem_columns hc) tall]
  rfl

/-- In exact arithmetic the sweep loses nothing and divides by nothing that is zero. Its factors are
those of the matrix, the entries it overwrites below the diagonal were zero before, and each pass
either finds a zero column and skips it, or scales its normal by a norm that is not zero. -/
theorem inPlace_exact {a : Rows ℝ} (rectangular : ∀ row ∈ a, row.length = a.width)
    (tall : a.width ≤ a.length) :
    ofRows a = .ok (inPlace a) ∧ (inPlace a).Factors (a.matrix a.length a.width) ∧
      (∀ i j, j < a.width → j < i →
        ((swept (a.columns a.width) a.width).getD j []).getD i 0 = 0) ∧
      ∀ k < a.width, ∃ c, pivotColumn (swept (a.columns a.width) k) k = c ∧
        c.length = a.length - k ∧ Chooses c (normal? c) := by
  have hn : (a.columns a.width).length = a.width := Rows.length_columns _ _
  have hcs : ∀ c ∈ a.columns a.width, c.length = a.length :=
    fun c hc => Rows.length_of_mem_columns hc
  have hf := ofRows_eq_inPlace rectangular tall
  refine ⟨hf, ?_, getD_swept_eq_zero hn hcs tall, fun k hk => ?_⟩
  · obtain ⟨f, hf', factors⟩ := exists_factors rfl rectangular tall
    exact Except.ok.inj (hf.symm.trans hf') ▸ factors
  · have length := length_pivotColumn hn hcs tall k hk
    refine ⟨_, rfl, length, ?_⟩
    exact chooses_normal? (m := a.length - k - 1) (by omega)

/-- The first column is zero, so the first pass is skipped. -/
def zeroColumn : Rows ℝ := [[0, 1], [0, 0], [0, 1]]

theorem inPlace_exact_zeroColumn :
    (∀ row ∈ zeroColumn, row.length = zeroColumn.width) ∧ zeroColumn.width ≤ zeroColumn.length ∧
      ofRows zeroColumn = .ok (inPlace zeroColumn) ∧
      (inPlace zeroColumn).Factors (zeroColumn.matrix 3 2) ∧
      ∀ i, 1 < i → ((swept (zeroColumn.columns 2) 2).getD 1 []).getD i 0 = 0 := by
  have rectangular : ∀ row ∈ zeroColumn, row.length = zeroColumn.width := by
    simp [zeroColumn, Rows.width]
  have tall : zeroColumn.width ≤ zeroColumn.length := by simp [zeroColumn, Rows.width]
  obtain ⟨hf, factors, below, -⟩ := inPlace_exact rectangular tall
  exact ⟨rectangular, tall, hf, factors, fun i hi => below i 1 Nat.one_lt_two hi⟩

end QrFactors
end DualOpt
