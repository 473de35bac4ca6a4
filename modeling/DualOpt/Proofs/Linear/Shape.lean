import DualOpt.Linear.QrSolver
import DualOpt.Proofs.Outcome
import Mathlib.Data.List.Basic

/-!
Sizes through the factorisation and the solves, in any arithmetic.

Rows of one length, at least one of them, can always be factored, and the factors solve for every
right-hand side of the right length without a fault.
-/
namespace DualOpt

variable {F : Type} [Scalar F]

namespace Vec

omit [Scalar F] in
@[simp] theorem length_fill (n : Nat) (x : F) : (fill n x).length = n := List.length_replicate

@[simp] theorem length_zerosLike (x : Vec F) : (zerosLike x).length = x.length := length_fill ..

@[simp] theorem length_scale (α : F) (x : Vec F) : (scale α x).length = x.length :=
  List.length_map ..

@[simp] theorem length_neg (x : Vec F) : (neg x).length = x.length := List.length_map ..

@[simp] theorem length_unit (n j : Nat) : (unit n j : Vec F).length = n := by simp [unit]

@[simp] theorem length_add (x y : Vec F) : (add x y).length = min x.length y.length :=
  List.length_zipWith ..

@[simp] theorem length_sub (x y : Vec F) : (sub x y).length = min x.length y.length :=
  List.length_zipWith ..

@[simp] theorem length_axpy (α : F) (x a : Vec F) :
    (axpy α x a).length = min a.length x.length :=
  List.length_zipWith ..

@[simp] theorem length_accumulate (s : F) (a x : Vec F) :
    (accumulate s a x).length = a.length := by
  induction a generalizing x with
  | nil => cases x <;> rfl
  | cons b a ih => cases x <;> simp [accumulate, ih]

end Vec

namespace Rows

omit [Scalar F] in
/-- What keeps the length of every row keeps the number of columns. -/
theorem length_of_mem_map {α : Type} {f : Vec F → List α} (keeps : ∀ row, (f row).length = row.length)
    {n : Nat} {a : Rows F} (width : ∀ row ∈ a, row.length = n) :
    ∀ row ∈ a.map f, row.length = n := by
  intro row hrow
  obtain ⟨whole, mem, rfl⟩ := List.mem_map.mp hrow
  rw [keeps, width whole mem]

@[simp] theorem length_mulVec (a : Rows F) (v : Vec F) : (a.mulVec v).length = a.length :=
  List.length_map ..

private theorem length_foldl_accumulate (l : List (Vec F × F)) (out : Vec F) :
    (l.foldl (fun out p => Vec.accumulate p.2 out p.1) out).length = out.length := by
  induction l generalizing out with
  | nil => rfl
  | cons p l ih => rw [List.foldl_cons, ih, Vec.length_accumulate]

@[simp] theorem length_transposeMulVec (a : Rows F) (v : Vec F) (n : Nat) :
    (a.transposeMulVec v n).length = n := by
  rw [transposeMulVec, length_foldl_accumulate, Vec.length_fill]

omit [Scalar F] in
/-- A square matrix without its first row and column is square. -/
theorem length_tail_of_mem {n : Nat} {rows : Rows F} (h : ∀ row ∈ rows, row.length = n + 1) :
    ∀ row ∈ rows.map List.tail, row.length = n := by
  intro row hrow
  obtain ⟨long, hlong, rfl⟩ := List.mem_map.mp hrow
  rw [List.length_tail, h long hlong, Nat.add_sub_cancel]

omit [Scalar F] in
theorem length_of_mem_take {a : Rows F} {n k : Nat}
    (width : ∀ row ∈ a, row.length = n + k) : ∀ row ∈ a.map (·.take n), row.length = n := by
  intro row hrow
  obtain ⟨whole, hwhole, rfl⟩ := List.mem_map.mp hrow
  simp [width whole hwhole]

omit [Scalar F] in
theorem length_of_mem_drop {a : Rows F} {n k : Nat}
    (width : ∀ row ∈ a, row.length = n + k) : ∀ row ∈ a.map (·.drop n), row.length = k := by
  intro row hrow
  obtain ⟨whole, hwhole, rfl⟩ := List.mem_map.mp hrow
  simp [width whole hwhole]

end Rows

namespace Dense
variable (a : Dense F)

omit [Scalar F] in
theorem width_rows (nonempty : a.rows ≠ []) : a.rows.width = a.inSize := by
  obtain ⟨row, mem⟩ := List.exists_mem_of_ne_nil _ nonempty
  rw [← a.width_eq mem, a.rectangular row mem]

omit [Scalar F] in
theorem ofRows_rows (nonempty : a.rows ≠ []) : ofRows a.rows = .ok a := by
  have width := a.width_rows nonempty
  obtain ⟨rows, inSize, rectangular⟩ := a
  obtain rfl : rows.width = inSize := width
  exact dif_pos rectangular

omit [Scalar F] in
theorem eq_of_ofRows {rows : Rows F} {a : Dense F} (h : ofRows rows = .ok a) :
    a.rows = rows ∧ a.rows.width = a.inSize := by
  rw [ofRows] at h
  split at h
  · obtain rfl := Except.ok.inj h
    exact ⟨rfl, rfl⟩
  · cases h

theorem length_transpose_rows (width : a.rows.width = a.inSize) :
    a.transpose.rows.length = a.inSize := by
  rw [transpose, Rows.length_columns, width]

theorem width_transpose_rows (width : a.rows.width = a.inSize) (wide : a.rows.length < a.inSize) :
    a.transpose.rows.width = a.rows.length := by
  have nonempty : a.transpose.rows ≠ [] :=
    List.ne_nil_of_length_pos (by rw [a.length_transpose_rows width]; omega)
  exact a.transpose.width_rows nonempty

end Dense

namespace Householder

/-- Each normal has the length of the vectors it acts on: `m` for the first one, then one less each
time. -/
def Fits : Nat → List (Option (Vec F)) → Prop
  | _, [] => True
  | 0, _ :: _ => False
  | m + 1, h :: hs => (∀ v ∈ h, v.length = m + 1) ∧ Fits m hs

theorem length_normal? {c v : Vec F} (hc : c ≠ []) (h : normal? c = some v) :
    v.length = c.length := by
  obtain ⟨x, c, rfl⟩ := List.exists_cons_of_ne_nil hc
  by_cases hnorm : Vec.twoNorm (x :: c) == 0
  · simp [normal?, hnorm] at h
  · simp only [normal?, if_neg hnorm] at h
    -- Where the vector is sent does not matter for its length.
    generalize (if (x :: c).headD 0 ≥ 0 then _ else _ : F) = target at h
    by_cases hv : Vec.twoNorm (((x :: c).headD 0 - target) :: (x :: c).tail) == 0
    · rw [if_pos hv] at h
      cases h
    · rw [if_neg hv, Option.some.injEq] at h
      simp [← h]

theorem fits_normal? {m : Nat} {c : Vec F} (hc : c.length = m + 1) :
    ∀ v ∈ normal? c, v.length = m + 1 := by
  intro v hv
  exact (length_normal? (List.ne_nil_of_length_eq_add_one hc) hv).trans hc

theorem length_reflect {m : Nat} {h : Option (Vec F)} {x : Vec F} (hh : ∀ v ∈ h, v.length = m)
    (hx : x.length = m) : (reflect h x).length = m := by
  cases h with
  | none => exact hx
  | some v => simp [reflect, hx, hh v rfl]

theorem length_applyProduct {m : Nat} {hs : List (Option (Vec F))} {x : Vec F} (fits : Fits m hs)
    (hx : x.length = m) : (applyProduct hs x).length = m := by
  induction hs generalizing m x with
  | nil => exact hx
  | cons h hs ih =>
    cases m with
    | zero => exact fits.elim
    | succ m =>
      refine length_reflect fits.1 ?_
      rw [List.length_cons, ih fits.2 (by rw [List.length_tail, hx, Nat.add_sub_cancel])]

/-- The reduction of columns by one reflection: the heads become a row of the triangle and the tails
of all but the first column are reduced in turn. -/
theorem reduce_cons (c : Vec F) (cs : Rows F) :
    reduce (c :: cs) =
      let tails := (cs.map (reflect (normal? c))).map List.tail
      (normal? c :: (reduce tails).1,
        ((c :: cs).map (reflect (normal? c))).map (·.headD 0) ::
          (reduce tails).2.map (0 :: ·)) := by
  rw [reduce]
  rfl

/-- Columns of length `m + 1` that have been reflected have tails of length `m`. -/
theorem length_reflected_tail {m : Nat} {c : Vec F} {cs : Rows F} (hc : c.length = m + 1)
    (hcs : ∀ d ∈ cs, d.length = m + 1) :
    ∀ t ∈ (cs.map (reflect (normal? c))).map List.tail, t.length = m := by
  apply Rows.length_tail_of_mem
  intro d hd
  obtain ⟨e, he, rfl⟩ := List.mem_map.mp hd
  exact length_reflect (fits_normal? hc) (hcs e he)

/-- Induction along the reduction of `n` columns of length `m`, of which there are no more than
entries in each: after the first column come the tails of the reflected others. -/
@[elab_as_elim]
theorem columns_induction {motive : Nat → Nat → Rows F → Prop} (nil : ∀ m, motive 0 m [])
    (cons : ∀ n m c cs, c.length = m + 1 → cs.length = n → (∀ d ∈ cs, d.length = m + 1) →
      motive n m ((cs.map (reflect (normal? c))).map List.tail) → motive (n + 1) (m + 1) (c :: cs))
    {n m : Nat} {cs : Rows F} (hn : cs.length = n) (hcs : ∀ c ∈ cs, c.length = m)
    (tall : n ≤ m) : motive n m cs := by
  induction n generalizing m cs with
  | zero =>
    obtain rfl := List.length_eq_zero_iff.mp hn
    exact nil m
  | succ n ih =>
    obtain ⟨c, cs, rfl⟩ := List.exists_cons_of_length_eq_add_one hn
    obtain ⟨m, rfl⟩ := Nat.exists_eq_add_one_of_ne_zero (Nat.ne_zero_of_lt tall)
    obtain ⟨hc, hcs⟩ := List.forall_mem_cons.mp hcs
    have short : cs.length = n := Nat.succ.inj hn
    exact cons n m c cs hc short hcs
      (ih (by simpa using short) (length_reflected_tail hc hcs) (Nat.le_of_succ_le_succ tall))

theorem fits_reduce {m n : Nat} {cs : Rows F} (hn : cs.length = n) (hcs : ∀ c ∈ cs, c.length = m)
    (tall : n ≤ m) : Fits m (reduce cs).1 := by
  refine columns_induction (fun m => ?_) (fun n m c cs hc _ hcs ih => ?_) hn hcs tall
  · simp [reduce, Fits]
  · rw [reduce_cons]
    exact ⟨fits_normal? hc, ih⟩

/-- The triangle is square. -/
theorem length_reduce {n : Nat} {cs : Rows F} (hn : cs.length = n) :
    (reduce cs).2.length = n ∧ ∀ row ∈ (reduce cs).2, row.length = n := by
  induction n generalizing cs with
  | zero =>
    rw [List.length_eq_zero_iff.mp hn, reduce]
    simp
  | succ n ih =>
    obtain ⟨c, cs, rfl⟩ := List.exists_cons_of_length_eq_add_one hn
    rw [reduce_cons]
    have rest : ((cs.map (reflect (normal? c))).map List.tail).length = n := by simpa using hn
    obtain ⟨height, width⟩ := ih rest
    refine ⟨by rw [List.length_cons, List.length_map, height], fun row hrow => ?_⟩
    rcases List.mem_cons.mp hrow with rfl | hrow
    · simpa using hn
    · obtain ⟨short, hshort, rfl⟩ := List.mem_map.mp hrow
      rw [List.length_cons, width short hshort]

end Householder

namespace QrFactors

/-- The sizes of the factors of an `m` by `n` matrix. -/
structure Shaped (f : QrFactors F) (m n : Nat) : Prop where
  length_q : f.q.length = m
  width_q : ∀ row ∈ f.q, row.length = n
  length_r : f.r.length = n
  width_r : ∀ row ∈ f.r, row.length = n

/-- The columns of `Q`, as vectors as long as the matrix is high. -/
def orthonormalColumns (hs : List (Option (Vec F))) (m n : Nat) : Rows F :=
  (List.range n).map fun j => Householder.applyProduct hs (Vec.unit m j)

theorem ofRows_eq {a : Rows F} {n : Nat} (width : a.width = n)
    (rectangular : ∀ row ∈ a, row.length = n) (tall : n ≤ a.length) :
    ofRows a = .ok ⟨Rows.columns a.length
      (orthonormalColumns (Householder.reduce (a.columns n)).1 a.length n),
      (Householder.reduce (a.columns n)).2⟩ := by
  have even : a.any (·.length != n) = false := by
    simpa using rectangular
  simp only [ofRows, width, even, if_neg (Nat.not_lt.mpr tall), if_neg Bool.false_ne_true]
  rfl

theorem exists_ofRows {a : Rows F} {n : Nat} (width : a.width = n)
    (rectangular : ∀ row ∈ a, row.length = n) (tall : n ≤ a.length) :
    ∃ f, ofRows a = .ok f ∧ f.Shaped a.length n := by
  obtain ⟨height, square⟩ := Householder.length_reduce (Rows.length_columns n a)
  refine ⟨_, ofRows_eq width rectangular tall, Rows.length_columns .., fun row hrow => ?_, height,
    square⟩
  simpa [orthonormalColumns] using Rows.length_of_mem_columns hrow

end QrFactors

namespace Triangular

theorem servesBack_of_square {n : Nat} {r : Rows F} (cutoff : F) (hr : r.length = n)
    (width : ∀ row ∈ r, row.length = n) : servesBack cutoff r = true := by
  induction n generalizing r with
  | zero => rw [List.length_eq_zero_iff.mp hr, servesBack]
  | succ n ih =>
    obtain ⟨row, rows, rfl⟩ := List.exists_cons_of_length_eq_add_one hr
    obtain ⟨hrow, hrows⟩ := List.forall_mem_cons.mp width
    obtain ⟨pivot, above, rfl⟩ := List.exists_cons_of_length_eq_add_one hrow
    have complete : rows.length ≤ above.length := by simp at hr hrow; omega
    rw [servesBack, ih (by simpa using hr) (Rows.length_tail_of_mem hrows)]
    simp [complete]

theorem length_diagonal {n : Nat} {r : Rows F} (hr : r.length = n) :
    r.diagonal.length = n := by
  induction n generalizing r with
  | zero => rw [List.length_eq_zero_iff.mp hr, Rows.diagonal]; rfl
  | succ n ih =>
    obtain ⟨row, rows, rfl⟩ := List.exists_cons_of_length_eq_add_one hr
    rw [Rows.diagonal, List.length_cons, ih (by simpa using hr)]

theorem servesForward_of_square {n : Nat} {r : Rows F} (cutoff : F) (hr : r.length = n)
    (width : ∀ row ∈ r, row.length = n) : servesForward cutoff r = true := by
  induction n generalizing r with
  | zero => rw [List.length_eq_zero_iff.mp hr, servesForward]
  | succ n ih =>
    obtain ⟨row, rows, rfl⟩ := List.exists_cons_of_length_eq_add_one hr
    obtain ⟨hrow, hrows⟩ := List.forall_mem_cons.mp width
    obtain ⟨pivot, above, rfl⟩ := List.exists_cons_of_length_eq_add_one hrow
    have read : (Rows.diagonal (rows.map List.tail)).drop above.length = [] := by
      rw [List.drop_eq_nil_iff, length_diagonal rfl, List.length_map]
      simp at hr hrow
      omega
    rw [servesForward, ih (by simpa using hr) (Rows.length_tail_of_mem hrows), read]
    rfl

@[simp] theorem length_backSubstitute (cutoff : F) (b : Vec F) (r : Rows F) :
    (backSubstitute cutoff b r).length = b.length := by
  induction b generalizing r with
  | nil => rfl
  | cons b bs ih => simp [backSubstitute, ih]

@[simp] theorem length_forwardSubstitute (cutoff : F) (b : Vec F) (r : Rows F) :
    (forwardSubstitute cutoff b r).length = b.length := by
  induction b, r using forwardSubstitute.induct cutoff with
  | case1 r => rw [forwardSubstitute]
  | case2 b bs r row pivot x ih =>
    rw [forwardSubstitute, List.length_cons]
    exact congrArg (· + 1) (ih.trans (Vec.length_eliminate x bs row.tail))

section Square
variable {n : Nat} {r : Rows F} {b : Vec F}

theorem solveUpper_of_square (cutoff : F) (hr : r.length = n) (width : ∀ row ∈ r, row.length = n)
    (hb : b.length = n) : solveUpper r b cutoff = .ok (backSubstitute cutoff b r) := by
  simp [solveUpper, hr, hb, servesBack_of_square cutoff hr width]

theorem solveUpperTranspose_of_square (cutoff : F) (hr : r.length = n)
    (width : ∀ row ∈ r, row.length = n) (hb : b.length = n) :
    solveUpperTranspose r b cutoff = .ok (forwardSubstitute cutoff b r) := by
  simp [solveUpperTranspose, hr, hb, servesForward_of_square cutoff hr width]

end Square

end Triangular

namespace QrSolver
variable {m n : Nat} {f : QrFactors F}

theorem factor_tall (solver : QrSolver F) {a : Dense F} (tall : a.inSize ≤ a.rows.length) :
    solver.factor (.dense a) = (QrFactors.ofRows a.rows).map (⟨·, false⟩) := by
  have not_wide : ¬ (Operator.dense a).inSize > (Operator.dense a).outSize := Nat.not_lt.mpr tall
  simp only [factor, Operator.toRows, ok_bind, if_neg not_wide]
  cases QrFactors.ofRows a.rows <;> rfl

theorem factor_wide (solver : QrSolver F) {a : Dense F} (wide : a.rows.length < a.inSize) :
    solver.factor (.dense a) = (QrFactors.ofRows a.transpose.rows).map (⟨·, true⟩) := by
  have is_wide : (Operator.dense a).inSize > (Operator.dense a).outSize := wide
  simp only [factor, Operator.toRows, ok_bind, if_pos is_wide, a.transpose_rows]
  cases QrFactors.ofRows a.transpose.rows <;> rfl

theorem solve_direct (solver : QrSolver F) (shaped : f.Shaped m n) {b : Vec F}
    (hb : b.length = m) :
    solver.solve ⟨f, false⟩ b = .ok (Triangular.backSubstitute (solver.cutoff f)
      (f.q.transposeMulVec b n) f.r, .successful) := by
  have rotated := Rows.length_transposeMulVec f.q b n
  simp [solve, Factored.inSize, QrFactors.rows, QrFactors.columns, shaped.length_q,
    shaped.length_r, hb, Triangular.solveUpper_of_square _ shaped.length_r shaped.width_r rotated]

theorem solve_transposed (solver : QrSolver F) (shaped : f.Shaped m n) {b : Vec F}
    (hb : b.length = n) :
    solver.solve ⟨f, true⟩ b = .ok (f.q.mulVec (Triangular.forwardSubstitute (solver.cutoff f)
      b f.r), .successful) := by
  simp [solve, Factored.inSize, QrFactors.columns, shaped.length_r, hb,
    Triangular.solveUpperTranspose_of_square _ shaped.length_r shaped.width_r hb]

theorem length_eq_of_solve (solver : QrSolver F) {s : Factored F} {b : Vec F}
    {found : Vec F × Status} (h : solver.solve s b = .ok found) : b.length = s.inSize := by
  by_contra hne
  simp [solve, hne] at h

/-- A wide matrix is factored through its transpose, and the transpose by itself. -/
theorem exists_factor_of_wide (solver : QrSolver F) {a : Dense F}
    (wide : a.rows.length < a.inSize) (width : a.rows.width = a.inSize) :
    ∃ f, solver.factor (.dense a) = .ok ⟨f, true⟩ ∧
      solver.factor (.dense a.transpose) = .ok ⟨f, false⟩ ∧ f.Shaped a.inSize a.rows.length := by
  have height := a.length_transpose_rows width
  have tall : a.transpose.inSize ≤ a.transpose.rows.length := height ▸ Nat.le_of_lt wide
  obtain ⟨f, hf, shaped⟩ := QrFactors.exists_ofRows (a.width_transpose_rows width wide)
    a.transpose.rectangular tall
  rw [height] at shaped
  refine ⟨f, ?_, ?_, shaped⟩
  · rw [solver.factor_wide wide, hf]
    rfl
  · rw [solver.factor_tall tall, hf]
    rfl

/-- The factors of a tall or of the transpose of a wide matrix, with their sizes. -/
theorem shaped_of_factor (solver : QrSolver F) {a : Dense F} (width : a.rows.width = a.inSize)
    {s : Factored F} (h : solver.factor (.dense a) = .ok s) :
    (s.transposed = false ∧ s.factors.Shaped a.rows.length a.inSize) ∨
      (s.transposed = true ∧ s.factors.Shaped a.inSize a.rows.length) := by
  rcases Nat.lt_or_ge a.rows.length a.inSize with wide | tall
  · obtain ⟨f, hf, -, shaped⟩ := solver.exists_factor_of_wide wide width
    obtain rfl := Except.ok.inj (hf.symm.trans h)
    exact .inr ⟨rfl, shaped⟩
  · obtain ⟨f, hf, shaped⟩ := QrFactors.exists_ofRows width a.rectangular tall
    rw [solver.factor_tall tall, hf] at h
    obtain rfl := Except.ok.inj h
    exact .inl ⟨rfl, shaped⟩

/-- Rows of one length can be factored, and the factors solve for every right-hand side that has an
entry for each row. -/
theorem exists_factor_solve (solver : QrSolver F) {a : Dense F} (width : a.rows.width = a.inSize) :
    ∃ s, solver.factor (.dense a) = .ok s ∧ ∀ b, b.length = a.rows.length →
      ∃ x, solver.solve s b = .ok (x, .successful) ∧ x.length = a.inSize := by
  rcases Nat.lt_or_ge a.rows.length a.inSize with wide | tall
  · obtain ⟨f, hf, -, shaped⟩ := solver.exists_factor_of_wide wide width
    refine ⟨_, hf, fun b hb => ⟨_, solver.solve_transposed shaped hb, ?_⟩⟩
    rw [Rows.length_mulVec, shaped.length_q]
  · obtain ⟨f, hf, shaped⟩ := QrFactors.exists_ofRows width a.rectangular tall
    have hs : solver.factor (.dense a) = .ok ⟨f, false⟩ := by
      rw [solver.factor_tall tall, hf]
      rfl
    refine ⟨_, hs, fun b hb => ⟨_, solver.solve_direct shaped hb, ?_⟩⟩
    rw [Triangular.length_backSubstitute, Rows.length_transposeMulVec]

/-- A solution has the input size of the operator. -/
theorem length_of_solve (solver : QrSolver F) {a : Dense F} (width : a.rows.width = a.inSize)
    {s : Factored F} (hs : solver.factor (.dense a) = .ok s) {b : Vec F} {found : Vec F × Status}
    (h : solver.solve s b = .ok found) : found.1.length = a.inSize := by
  have hb := solver.length_eq_of_solve h
  obtain ⟨f, transposed⟩ := s
  rcases solver.shaped_of_factor width hs with ⟨rfl, shaped⟩ | ⟨rfl, shaped⟩
  · rw [solver.solve_direct shaped (hb.trans shaped.length_q)] at h
    obtain rfl := Except.ok.inj h
    rw [Triangular.length_backSubstitute, Rows.length_transposeMulVec]
  · rw [solver.solve_transposed shaped (hb.trans shaped.length_r)] at h
    obtain rfl := Except.ok.inj h
    rw [Rows.length_mulVec, shaped.length_q]

end QrSolver
end DualOpt
