import DualOpt.Proofs.Linear.LeastSquares

/-!
A change of the unit of measurement, in exact arithmetic.

A positive factor on the matrix passes through the reduction into the triangle alone: the lengths
are multiplied by it, and with them the target of each reflection, whose normal it leaves as it is.
The cutoff is relative to the largest pivot, so the same pivots are cut, and a right-hand side in
the same unit has the same solution.
-/
namespace DualOpt

variable {c : ℝ}

namespace Vec

theorem scale_cons (c a : ℝ) (x : Vec ℝ) : scale c (a :: x) = c * a :: scale c x := rfl

theorem headD_scale (c : ℝ) (x : Vec ℝ) : (scale c x).headD 0 = c * x.headD 0 := by
  cases x with
  | nil => exact (mul_zero c).symm
  | cons a x => rfl

theorem tail_scale (c : ℝ) (x : Vec ℝ) : (scale c x).tail = scale c x.tail := List.map_tail.symm

theorem fill_zero_scale (c : ℝ) (n : ℕ) : scale c (fill n 0) = fill n 0 := by
  rw [scale, fill, List.map_replicate, mul_zero]

theorem coords_scale_eq_zero_iff {n : ℕ} {x : Vec ℝ} (positive : 0 < c) (hx : x.length = n) :
    coords n (scale c x) = 0 ↔ coords n x = 0 := by
  rw [coords_scale c hx, smul_eq_zero_iff_right positive.ne']

theorem twoNorm_scale (nonneg : 0 ≤ c) (x : Vec ℝ) : twoNorm (scale c x) = c * twoNorm x := by
  rw [Householder.twoNorm_eq_sqrt (length_scale c x), Householder.twoNorm_eq_sqrt rfl,
    coords_scale c rfl, smul_dotProduct, dotProduct_smul, smul_eq_mul, smul_eq_mul, ← mul_assoc,
    Real.sqrt_mul (mul_self_nonneg c), Real.sqrt_mul_self nonneg]

private theorem foldl_max_scale (nonneg : 0 ≤ c) (x : Vec ℝ) (acc : ℝ) :
    (scale c x).foldl (fun acc a => Scalar.max acc (Scalar.abs a)) (c * acc) =
      c * x.foldl (fun acc a => Scalar.max acc (Scalar.abs a)) acc := by
  induction x generalizing acc with
  | nil => rfl
  | cons a x ih =>
    have entry : max (c * acc) |c * a| = c * max acc |a| := by
      rw [abs_mul, abs_of_nonneg nonneg, mul_max_of_nonneg _ _ nonneg]
    rw [scale_cons, List.foldl_cons, List.foldl_cons, ← ih]
    simp only [Scalar.max_real, Scalar.abs_real, entry]

theorem maxNorm_scale (nonneg : 0 ≤ c) (x : Vec ℝ) : maxNorm (scale c x) = c * maxNorm x := by
  rw [maxNorm, maxNorm, ← foldl_max_scale nonneg, mul_zero]

theorem accumulate_scale (c s : ℝ) (a x : Vec ℝ) :
    accumulate (c * s) (scale c a) x = scale c (accumulate s a x) := by
  induction a generalizing x with
  | nil => cases x <;> rfl
  | cons b a ih =>
    cases x with
    | nil => rfl
    | cons y x =>
      rw [scale_cons, accumulate, accumulate, scale_cons, ih]
      congr 1
      ring

theorem eliminate_scale (c s : ℝ) (a x : Vec ℝ) :
    eliminate s (scale c a) (scale c x) = scale c (eliminate s a x) := by
  induction a generalizing x with
  | nil => cases x <;> rfl
  | cons b a ih =>
    cases x with
    | nil => rfl
    | cons y x =>
      rw [scale_cons, scale_cons, eliminate, eliminate, scale_cons, ih]
      congr 1
      ring

end Vec

namespace Rows

/-- The matrix in another unit. -/
noncomputable def scale (c : ℝ) (a : Rows ℝ) : Rows ℝ := a.map (Vec.scale c)

theorem length_scale (c : ℝ) (a : Rows ℝ) : (scale c a).length = a.length := List.length_map ..

theorem length_of_mem_scale {n : ℕ} {a : Rows ℝ} (width : ∀ row ∈ a, row.length = n) :
    ∀ row ∈ scale c a, row.length = n :=
  length_of_mem_map (Vec.length_scale c) width

theorem map_headD_scale (c : ℝ) (a : Rows ℝ) :
    (scale c a).map (·.headD 0) = Vec.scale c (a.map (·.headD 0)) := by
  rw [scale, Vec.scale, List.map_map, List.map_map]
  exact List.map_congr_left fun row _ => Vec.headD_scale c row

theorem map_tail_scale (c : ℝ) (a : Rows ℝ) :
    (scale c a).map List.tail = scale c (a.map List.tail) := by
  rw [scale, scale, List.map_map, List.map_map]
  exact List.map_congr_left fun row _ => Vec.tail_scale c row

theorem tail_scale (c : ℝ) (a : Rows ℝ) : (scale c a).tail = scale c a.tail := List.map_tail.symm

theorem headD_scale (c : ℝ) (a : Rows ℝ) : (scale c a).headD [] = Vec.scale c (a.headD []) := by
  cases a <;> rfl

theorem width_scale (c : ℝ) (a : Rows ℝ) : (scale c a).width = a.width := by
  rw [width, headD_scale, Vec.length_scale, width]

theorem columns_scale (c : ℝ) (n : ℕ) (a : Rows ℝ) :
    columns n (scale c a) = scale c (columns n a) := by
  induction n generalizing a with
  | zero => rfl
  | succ n ih =>
    rw [columns, columns, map_headD_scale, map_tail_scale, ih]
    rfl

theorem diagonal_scale (c : ℝ) (a : Rows ℝ) : (scale c a).diagonal = Vec.scale c a.diagonal := by
  induction hn : a.length generalizing a with
  | zero =>
    obtain rfl := List.length_eq_zero_iff.mp hn
    rw [scale, List.map_nil, diagonal]
    rfl
  | succ n ih =>
    obtain ⟨row, a, rfl⟩ := List.exists_cons_of_length_eq_add_one hn
    have rest := ih (a.map List.tail) (by simpa using hn)
    have first : scale c (row :: a) = Vec.scale c row :: scale c a := rfl
    rw [first, diagonal, diagonal, Vec.headD_scale, map_tail_scale, rest]
    rfl

theorem transposeMulVec_scale (c : ℝ) (a : Rows ℝ) (v : Vec ℝ) (n : ℕ) :
    a.transposeMulVec (Vec.scale c v) n = Vec.scale c (a.transposeMulVec v n) := by
  have fold (out : Vec ℝ) :
      (a.zip (Vec.scale c v)).foldl (fun out p => Vec.accumulate p.2 out p.1) (Vec.scale c out) =
        Vec.scale c ((a.zip v).foldl (fun out p => Vec.accumulate p.2 out p.1) out) := by
    induction a generalizing v out with
    | nil => rfl
    | cons row a ih =>
      cases v with
      | nil => rfl
      | cons s v =>
        rw [Vec.scale_cons, List.zip_cons_cons, List.zip_cons_cons, List.foldl_cons,
          List.foldl_cons, Vec.accumulate_scale, ih]
  have start := fold (Vec.fill n 0)
  rwa [Vec.fill_zero_scale] at start

end Rows

namespace Householder

theorem target_scale (positive : 0 < c) (x : Vec ℝ) : target (Vec.scale c x) = c * target x := by
  rw [target, target, Vec.headD_scale, Vec.twoNorm_scale positive.le]
  by_cases ahead : x.headD 0 ≥ 0
  · rw [if_pos ahead, if_pos (mul_nonneg positive.le ahead), mul_neg]
  · rw [if_neg ahead, if_neg (not_le.mpr (mul_neg_of_pos_of_neg positive (not_le.mp ahead)))]

theorem offAxis_scale (positive : 0 < c) (x : Vec ℝ) :
    offAxis (Vec.scale c x) = Vec.scale c (offAxis x) := by
  rw [offAxis, offAxis, Vec.headD_scale, Vec.tail_scale, target_scale positive, Vec.scale_cons,
    mul_sub]

/-- The reflection does not depend on the unit. -/
theorem normal?_scale (positive : 0 < c) (x : Vec ℝ) : normal? (Vec.scale c x) = normal? x := by
  cases x with
  | nil => rfl
  | cons a x =>
    have hx : (a :: x).length = x.length + 1 := rfl
    have hscaled : (Vec.scale c (a :: x)).length = x.length + 1 := Vec.length_scale c (a :: x)
    by_cases zero : Vec.coords (x.length + 1) (a :: x) = 0
    · rw [normal?_of_coords_eq_zero hx zero, normal?_of_coords_eq_zero hscaled
        ((Vec.coords_scale_eq_zero_iff positive hx).mpr zero)]
    · rw [normal?_of_coords_ne_zero hx zero, normal?_of_coords_ne_zero hscaled
        (mt (Vec.coords_scale_eq_zero_iff positive hx).mp zero), offAxis_scale positive,
        Vec.twoNorm_scale positive.le, Vec.scale, List.map_map]
      refine congrArg some (List.map_congr_left fun y _ => ?_)
      exact mul_div_mul_left y _ positive.ne'

theorem reflect_scale (c : ℝ) (h : Option (Vec ℝ)) (x : Vec ℝ) :
    reflect h (Vec.scale c x) = Vec.scale c (reflect h x) := by
  cases h with
  | none => rfl
  | some v =>
    simp only [reflect, Vec.inner_scale]
    rw [Vec.scale, Vec.scale, List.zipWith_map_left, List.map_zipWith]
    congr 1
    funext xi vi
    ring

theorem map_reflect_scale (c : ℝ) (h : Option (Vec ℝ)) (cs : Rows ℝ) :
    (Rows.scale c cs).map (reflect h) = Rows.scale c (cs.map (reflect h)) := by
  rw [Rows.scale, Rows.scale, List.map_map, List.map_map]
  exact List.map_congr_left fun x _ => reflect_scale c h x

theorem map_cons_zero_scale (c : ℝ) (r : Rows ℝ) :
    (Rows.scale c r).map (0 :: ·) = Rows.scale c (r.map (0 :: ·)) := by
  rw [Rows.scale, Rows.scale, List.map_map, List.map_map]
  refine List.map_congr_left fun row _ => ?_
  exact congrArg (· :: Vec.scale c row) (mul_zero c).symm

/-- The whole reduction: the same reflections, and the triangle in the new unit. -/
theorem reduce_scale (positive : 0 < c) (cs : Rows ℝ) :
    reduce (Rows.scale c cs) = ((reduce cs).1, Rows.scale c (reduce cs).2) := by
  induction hn : cs.length generalizing cs with
  | zero =>
    obtain rfl := List.length_eq_zero_iff.mp hn
    rw [Rows.scale, List.map_nil, reduce]
    rfl
  | succ n ih =>
    obtain ⟨x, cs, rfl⟩ := List.exists_cons_of_length_eq_add_one hn
    have tails := ih ((cs.map (reflect (normal? x))).map List.tail) (by simpa using hn)
    have first : Rows.scale c (x :: cs) = Vec.scale c x :: Rows.scale c cs := rfl
    rw [first, reduce_cons, reduce_cons, normal?_scale positive, ← first, map_reflect_scale,
      map_reflect_scale, Rows.map_headD_scale, Rows.map_tail_scale]
    simp only [tails, map_cons_zero_scale]
    rfl

end Householder

namespace QrFactors

/-- The same orthonormal columns, and the triangle in another unit. -/
noncomputable def scale (c : ℝ) (f : QrFactors ℝ) : QrFactors ℝ := ⟨f.q, f.r.scale c⟩

theorem Shaped.scale {m n : ℕ} {f : QrFactors ℝ} (shaped : f.Shaped m n) :
    (f.scale c).Shaped m n where
  length_q := shaped.length_q
  width_q := shaped.width_q
  length_r := (Rows.length_scale c f.r).trans shaped.length_r
  width_r := Rows.length_of_mem_scale shaped.width_r

theorem ofRows_scale (positive : 0 < c) {a : Rows ℝ} {n : ℕ} (width : a.width = n)
    (rectangular : ∀ row ∈ a, row.length = n) (tall : n ≤ a.length) :
    ∃ f, ofRows a = .ok f ∧ ofRows (a.scale c) = .ok (f.scale c) ∧ f.Shaped a.length n := by
  obtain ⟨f, hf, shaped⟩ := exists_ofRows width rectangular tall
  refine ⟨f, hf, ?_, shaped⟩
  rw [ofRows_eq width rectangular tall] at hf
  obtain rfl := Except.ok.inj hf
  rw [ofRows_eq ((Rows.width_scale c a).trans width) (Rows.length_of_mem_scale rectangular)
    (tall.trans (Rows.length_scale c a).ge), Rows.columns_scale, Householder.reduce_scale positive,
    Rows.length_scale]
  rfl

end QrFactors

namespace Triangular
variable {cutoff : ℝ}

theorem isCut_scale (positive : 0 < c) (cutoff pivot : ℝ) :
    isCut (c * cutoff) (c * pivot) = isCut cutoff pivot := by
  rw [Bool.eq_iff_iff, isCut_real, isCut_real, abs_mul, abs_of_pos positive]
  exact mul_le_mul_iff_of_pos_left positive

theorem backSubstitute_scale (positive : 0 < c) (cutoff : ℝ) (b : Vec ℝ) (r : Rows ℝ) :
    backSubstitute (c * cutoff) (Vec.scale c b) (Rows.scale c r) = backSubstitute cutoff b r := by
  induction b generalizing r with
  | nil => rfl
  | cons b bs ih =>
    have known (xs : Vec ℝ) : Vec.inner (Vec.scale c (r.headD []).tail) xs =
        c * Vec.inner (r.headD []).tail xs := by
      rw [Vec.inner_comm, Vec.inner_scale, Vec.inner_comm]
    rw [Vec.scale_cons, backSubstitute, backSubstitute, Rows.tail_scale, Rows.map_tail_scale, ih]
    simp only [Rows.headD_scale, Vec.headD_scale, Vec.tail_scale, isCut_scale positive,
      foldl_sub_mul, known, ← mul_sub, mul_div_mul_left _ _ positive.ne']

theorem forwardSubstitute_scale (positive : 0 < c) (cutoff : ℝ) (b : Vec ℝ) (r : Rows ℝ) :
    forwardSubstitute (c * cutoff) (Vec.scale c b) (Rows.scale c r) =
      forwardSubstitute cutoff b r := by
  induction b, r using forwardSubstitute.induct cutoff with
  | case1 r => rw [Vec.scale, List.map_nil, forwardSubstitute, forwardSubstitute]
  | case2 b bs r row pivot x ih =>
    rw [Vec.scale_cons, forwardSubstitute, forwardSubstitute, Rows.tail_scale, Rows.map_tail_scale]
    simp only [Rows.headD_scale, Vec.headD_scale, Vec.tail_scale, isCut_scale positive,
      mul_div_mul_left _ _ positive.ne', Vec.eliminate_scale]
    exact congrArg _ ih

end Triangular

namespace QrSolver
variable (solver : QrSolver ℝ)

theorem cutoff_scale (positive : 0 < c) (f : QrFactors ℝ) :
    solver.cutoff (f.scale c) = c * solver.cutoff f := by
  have pivots : (f.scale c).maxDiagonal = c * f.maxDiagonal := by
    rw [QrFactors.maxDiagonal, QrFactors.scale, Rows.diagonal_scale, Vec.maxNorm_scale positive.le,
      QrFactors.maxDiagonal]
  have columns : (f.scale c).columns = f.columns := Rows.length_scale c f.r
  rw [cutoff, cutoff, pivots, columns, mul_left_comm]
  rfl

/-- Which pivots are cut. -/
noncomputable def cuts (f : QrFactors ℝ) : List Bool :=
  f.r.diagonal.map (Triangular.isCut (solver.cutoff f))

theorem cuts_scale (positive : 0 < c) (f : QrFactors ℝ) :
    solver.cuts (f.scale c) = solver.cuts f := by
  rw [cuts, cuts, cutoff_scale solver positive, QrFactors.scale, Rows.diagonal_scale, Vec.scale,
    List.map_map]
  exact List.map_congr_left fun pivot _ => Triangular.isCut_scale positive (solver.cutoff f) pivot

theorem solve_scale (positive : 0 < c) {m n : ℕ} {f : QrFactors ℝ} (shaped : f.Shaped m n)
    {wide : Bool} {b : Vec ℝ} (hb : b.length = if wide then n else m) :
    ∃ x, solver.solve ⟨f, wide⟩ b = .ok (x, .successful) ∧
      solver.solve ⟨f.scale c, wide⟩ (Vec.scale c b) = .ok (x, .successful) := by
  have hb' := (Vec.length_scale c b).trans hb
  cases wide with
  | false =>
    refine ⟨_, solver.solve_direct shaped hb, ?_⟩
    rw [solver.solve_direct shaped.scale hb', cutoff_scale solver positive, QrFactors.scale,
      Rows.transposeMulVec_scale, Triangular.backSubstitute_scale positive]
  | true =>
    refine ⟨_, solver.solve_transposed shaped hb, ?_⟩
    rw [solver.solve_transposed shaped.scale hb', cutoff_scale solver positive, QrFactors.scale,
      Triangular.forwardSubstitute_scale positive]

end QrSolver

namespace Dense

/-- The matrix in another unit. -/
noncomputable def scale (c : ℝ) (a : Dense ℝ) : Dense ℝ :=
  ⟨a.rows.scale c, a.inSize, Rows.length_of_mem_scale a.rectangular⟩

/-- The matrix that is factored: the transpose of a wide one. -/
noncomputable def upright (a : Dense ℝ) : Rows ℝ :=
  if a.rows.length < a.inSize then a.transpose.rows else a.rows

theorem rows_transpose_scale (c : ℝ) (a : Dense ℝ) :
    (a.scale c).transpose.rows = a.transpose.rows.scale c := by
  change (Rows.scale c a.rows).columns (Rows.scale c a.rows).width = _
  rw [Rows.width_scale, Rows.columns_scale]
  rfl

theorem upright_scale (c : ℝ) (a : Dense ℝ) : (a.scale c).upright = a.upright.scale c := by
  have height : (a.scale c).rows.length = a.rows.length := Rows.length_scale c a.rows
  rw [upright, upright, height, rows_transpose_scale, scale]
  exact (apply_ite (Rows.scale c) _ _ _).symm

end Dense

namespace QrSolver
variable (solver : QrSolver ℝ)

theorem factor_upright (a : Dense ℝ) :
    solver.factor (.dense a) =
      (QrFactors.ofRows a.upright).map (⟨·, decide (a.rows.length < a.inSize)⟩) := by
  rcases Nat.lt_or_ge a.rows.length a.inSize with wide | tall
  · rw [solver.factor_wide wide, Dense.upright, if_pos wide, decide_eq_true wide]
  · rw [solver.factor_tall tall, Dense.upright, if_neg tall.not_gt, decide_eq_false tall.not_gt]

theorem exists_upright (positive : 0 < c) {a : Dense ℝ} (nonempty : a.rows ≠ []) :
    ∃ f, QrFactors.ofRows a.upright = .ok f ∧
      QrFactors.ofRows (a.upright.scale c) = .ok (f.scale c) ∧
      f.Shaped (max a.rows.length a.inSize) (min a.rows.length a.inSize) := by
  have width := a.width_rows nonempty
  rcases Nat.lt_or_ge a.rows.length a.inSize with wide | tall
  · have height := a.length_transpose_rows width
    have upright : a.upright = a.transpose.rows := if_pos wide
    obtain ⟨f, hf, hf', shaped⟩ := QrFactors.ofRows_scale positive
      (a.width_transpose_rows width wide) a.transpose.rectangular (height ▸ wide.le)
    rw [height] at shaped
    rw [upright, max_eq_right wide.le, min_eq_left wide.le]
    exact ⟨f, hf, hf', shaped⟩
  · have upright : a.upright = a.rows := if_neg tall.not_gt
    rw [upright, max_eq_left tall, min_eq_right tall]
    exact QrFactors.ofRows_scale positive width a.rectangular tall

/-- A positive factor on the matrix leaves `Q` as it is and multiplies `R`, so the same pivots are
cut; and if the right-hand side has the factor too, the solution is the same. The relative cutoff
may be any number, or the usual one. -/
theorem factor_solve_scale (a : Dense ℝ) (nonempty : a.rows ≠ []) {c : ℝ} (positive : 0 < c) :
    ∃ f wide, QrFactors.ofRows a.upright = .ok f ∧
      QrFactors.ofRows (a.upright.scale c) = .ok (f.scale c) ∧
      solver.factor (.dense a) = .ok ⟨f, wide⟩ ∧
      solver.factor (.dense (a.scale c)) = .ok ⟨f.scale c, wide⟩ ∧
      solver.cuts (f.scale c) = solver.cuts f ∧
      ∀ b, b.length = a.rows.length → ∃ x, x.length = a.inSize ∧
        solver.solve ⟨f, wide⟩ b = .ok (x, .successful) ∧
        solver.solve ⟨f.scale c, wide⟩ (Vec.scale c b) = .ok (x, .successful) := by
  obtain ⟨f, hf, hf', shaped⟩ := exists_upright positive nonempty
  have factored : solver.factor (.dense a) = .ok ⟨f, decide (a.rows.length < a.inSize)⟩ := by
    rw [factor_upright, hf]
    rfl
  have height : (a.scale c).rows.length = a.rows.length := Rows.length_scale c a.rows
  refine ⟨f, _, hf, hf', factored, ?_, cuts_scale solver positive f, fun b hb => ?_⟩
  · rw [factor_upright, Dense.upright_scale, hf', height]
    rfl
  · have fits : b.length = if decide (a.rows.length < a.inSize) then min a.rows.length a.inSize
        else max a.rows.length a.inSize := by
      rw [hb]
      by_cases wide : a.rows.length < a.inSize
      · simp [wide, wide.le]
      · simp [wide, not_lt.mp wide]
    obtain ⟨x, hx, hx'⟩ := solver.solve_scale positive shaped fits
    exact ⟨x, solver.length_of_solve (a.width_rows nonempty) factored hx, hx, hx'⟩

/-- The cut pivot stays cut, and the other one stays. -/
theorem factor_solve_scale_zeroFirst :
    zeroFirst.rows ≠ [] ∧ (0 : ℝ) < 0.001 ∧
      (⟨some 0⟩ : QrSolver ℝ).cuts ⟨[[1, 0], [0, -1]], Rows.scale 0.001 [[0, 1], [0, -1]]⟩ =
        (⟨some 0⟩ : QrSolver ℝ).cuts ⟨[[1, 0], [0, -1]], [[0, 1], [0, -1]]⟩ ∧
      ∃ x, (⟨some 0⟩ : QrSolver ℝ).solve ⟨⟨[[1, 0], [0, -1]], [[0, 1], [0, -1]]⟩, false⟩ [1, 0] =
          .ok (x, .successful) ∧
        (⟨some 0⟩ : QrSolver ℝ).solve ⟨⟨[[1, 0], [0, -1]], Rows.scale 0.001 [[0, 1], [0, -1]]⟩,
          false⟩ (Vec.scale 0.001 [1, 0]) = .ok (x, .successful) := by
  have nonempty : zeroFirst.rows ≠ [] := by simp [zeroFirst]
  have positive : (0 : ℝ) < 0.001 := by norm_num
  obtain ⟨f, wide, -, -, hf, -, cuts, solves⟩ :=
    (⟨some 0⟩ : QrSolver ℝ).factor_solve_scale zeroFirst nonempty positive
  obtain ⟨rfl, rfl⟩ := Factored.mk.inj (Except.ok.inj ((factor_zeroFirst _).symm.trans hf))
  obtain ⟨x, -, hx, hx'⟩ := solves [1, 0] rfl
  exact ⟨nonempty, positive, cuts, x, hx, hx'⟩

end QrSolver
end DualOpt
