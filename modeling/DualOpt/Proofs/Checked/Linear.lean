import DualOpt.Proofs.Linear.Shape

/-!
Linear algebra that asserts the sizes of its operands.

The operations of the library go on up to the shorter operand and read a missing entry as zero. Here
every product and every sum of two vectors asserts that they have the same length, and every entry
that is read must be there. On operands that fit both do the same, so that a solve whose sizes fit
has never dropped or made up an entry.
-/
namespace DualOpt

variable {F : Type} [Scalar F]

namespace Vec

/-- Combines two vectors that must have the same length. -/
def together {α : Type} (op : Vec F → Vec F → α) (x y : Vec F) : Except Fault α :=
  if x.length = y.length then .ok (op x y) else .error .indexOutOfRange

omit [Scalar F] in
theorem together_eq {α : Type} (op : Vec F → Vec F → α) {x y : Vec F} (same : x.length = y.length) :
    together op x y = .ok (op x y) := if_pos same

/-- The first entry, which must be there. -/
def first : Vec F → Except Fault F
  | [] => .error .indexOutOfRange
  | x :: _ => .ok x

theorem first_eq {x : Vec F} (nonempty : x ≠ []) : first x = .ok (x.headD 0) := by
  cases x with
  | nil => exact absurd rfl nonempty
  | cons a x => rfl

end Vec

namespace Rows
variable {n : Nat} {a : Rows F} {v : Vec F}

def checkedMulVec (a : Rows F) (v : Vec F) : Except Fault (Vec F) :=
  a.mapM fun row => Vec.together Vec.inner row v

theorem checkedMulVec_eq (width : ∀ row ∈ a, row.length = v.length) :
    checkedMulVec a v = .ok (a.mulVec v) :=
  mapM_eq_ok fun row mem => Vec.together_eq Vec.inner (width row mem)

/-- Adds the rows one after the other to a vector with as many entries. -/
def checkedTransposeMulVec (a : Rows F) (v : Vec F) (n : Nat) : Except Fault (Vec F) :=
  if a.length = v.length then
    (a.zip v).foldlM (fun out p => Vec.together (Vec.accumulate p.2) out p.1) (Vec.fill n 0)
  else .error .indexOutOfRange

private theorem foldlM_accumulate {l : List (Vec F × F)} (width : ∀ p ∈ l, p.1.length = n)
    {out : Vec F} (length : out.length = n) :
    l.foldlM (fun out p => Vec.together (Vec.accumulate p.2) out p.1) out =
      .ok (l.foldl (fun out p => Vec.accumulate p.2 out p.1) out) := by
  induction l generalizing out with
  | nil => rfl
  | cons p l ih =>
    obtain ⟨row, rest⟩ := List.forall_mem_cons.mp width
    rw [List.foldlM_cons, Vec.together_eq _ (length.trans row.symm), ok_bind, List.foldl_cons,
      ih rest (by rw [Vec.length_accumulate, length])]

theorem checkedTransposeMulVec_eq (height : a.length = v.length)
    (width : ∀ row ∈ a, row.length = n) :
    checkedTransposeMulVec a v n = .ok (a.transposeMulVec v n) := by
  rw [checkedTransposeMulVec, if_pos height]
  exact foldlM_accumulate (fun p mem => width p.1 (List.of_mem_zip mem).1) (Vec.length_fill n 0)

/-- The entries with equal row and column index, all of which must be there. -/
def checkedDiagonal : Rows F → Except Fault (Vec F)
  | [] => .ok []
  | row :: a => do
    let pivot ← Vec.first row
    return pivot :: (← checkedDiagonal (a.map List.tail))
termination_by a => a.length
decreasing_by simp

theorem checkedDiagonal_eq (height : a.length = n) (width : ∀ row ∈ a, row.length = n) :
    checkedDiagonal a = .ok a.diagonal := by
  induction n generalizing a with
  | zero => rw [List.length_eq_zero_iff.mp height, checkedDiagonal, diagonal]
  | succ n ih =>
    obtain ⟨row, rest, rfl⟩ := List.exists_cons_of_length_eq_add_one height
    obtain ⟨hrow, hrest⟩ := List.forall_mem_cons.mp width
    rw [checkedDiagonal, diagonal, Vec.first_eq (List.ne_nil_of_length_eq_add_one hrow), ok_bind,
      ih (by simpa using height) (length_tail_of_mem hrest)]
    rfl

end Rows

namespace Householder

/-- The normal of a column that has an entry on the diagonal. -/
def checkedNormal? (c : Vec F) : Except Fault (Option (Vec F)) := do
  let _ ← Vec.first c
  return normal? c

def checkedReflect : Option (Vec F) → Vec F → Except Fault (Vec F)
  | none, x => .ok x
  | some v, x => Vec.together (fun v x => reflect (some v) x) v x

theorem checkedReflect_eq {m : Nat} {h : Option (Vec F)} {x : Vec F} (hh : ∀ v ∈ h, v.length = m)
    (hx : x.length = m) : checkedReflect h x = .ok (reflect h x) := by
  cases h with
  | none => rfl
  | some v => exact Vec.together_eq (fun v x => reflect (some v) x) ((hh v rfl).trans hx.symm)

/-- The reduction of the first `n` columns. -/
def checkedReduce : Nat → Rows F → Except Fault (List (Option (Vec F)) × Rows F)
  | n + 1, c :: cs => do
    let h ← checkedNormal? c
    let reflected ← (c :: cs).mapM (checkedReflect h)
    let heads ← reflected.mapM Vec.first
    let (hs, r) ← checkedReduce n (reflected.tail.map List.tail)
    return (h :: hs, heads :: r.map (0 :: ·))
  | _, _ => .ok ([], [])

theorem checkedReduce_eq {m n : Nat} {cs : Rows F} (hn : cs.length = n)
    (hcs : ∀ c ∈ cs, c.length = m) (tall : n ≤ m) : checkedReduce n cs = .ok (reduce cs) := by
  refine columns_induction (fun m => ?_) (fun n m c cs hc _ hcs ih => ?_) hn hcs tall
  · rw [reduce]
    rfl
  · have normal : checkedNormal? c = .ok (normal? c) := by
      rw [checkedNormal?, Vec.first_eq (List.ne_nil_of_length_eq_add_one hc)]
      rfl
    have columns : ∀ d ∈ c :: cs, d.length = m + 1 := List.forall_mem_cons.mpr ⟨hc, hcs⟩
    have reflected : (c :: cs).mapM (checkedReflect (normal? c)) =
        .ok ((c :: cs).map (reflect (normal? c))) :=
      mapM_eq_ok fun d mem => checkedReflect_eq (fits_normal? hc) (columns d mem)
    have heads : ((c :: cs).map (reflect (normal? c))).mapM Vec.first =
        .ok (((c :: cs).map (reflect (normal? c))).map (·.headD 0)) := by
      refine mapM_eq_ok fun d mem => Vec.first_eq ?_
      obtain ⟨e, he, rfl⟩ := List.mem_map.mp mem
      exact List.ne_nil_of_length_eq_add_one (length_reflect (fits_normal? hc) (columns e he))
    rw [checkedReduce, normal, ok_bind, reflected, ok_bind, heads, ok_bind, List.map_cons,
      List.tail_cons, ih, reduce_cons]
    rfl

/-- The product of the reflections, each of which acts on the entries from its own on. -/
def checkedApplyProduct : List (Option (Vec F)) → Vec F → Except Fault (Vec F)
  | [], x => .ok x
  | h :: hs, x => do
    let head ← Vec.first x
    checkedReflect h (head :: (← checkedApplyProduct hs x.tail))

theorem checkedApplyProduct_eq {m : Nat} {hs : List (Option (Vec F))} {x : Vec F}
    (fits : Fits m hs) (hx : x.length = m) :
    checkedApplyProduct hs x = .ok (applyProduct hs x) := by
  induction hs generalizing m x with
  | nil => rfl
  | cons h hs ih =>
    cases m with
    | zero => exact fits.elim
    | succ m =>
      have tail : x.tail.length = m := by rw [List.length_tail, hx, Nat.add_sub_cancel]
      rw [checkedApplyProduct, Vec.first_eq (List.ne_nil_of_length_eq_add_one hx), ok_bind,
        ih fits.2 tail, ok_bind, applyProduct]
      refine checkedReflect_eq fits.1 ?_
      rw [List.length_cons, length_applyProduct fits.2 tail]

end Householder

namespace QrFactors

def checkedOfRows (a : Rows F) : Except Fault (QrFactors F) :=
  let m := a.length
  let n := a.width
  if m < n then .error (.wideFactorisation m n)
  else if a.any (·.length != n) then .error .unevenRows
  else do
    let (hs, r) ← Householder.checkedReduce n (a.columns n)
    let q ← (List.range n).mapM fun j => Householder.checkedApplyProduct hs (Vec.unit m j)
    return ⟨Rows.columns m q, r⟩

/-- A factorisation that is not refused reads only what is there. -/
theorem checkedOfRows_eq (a : Rows F) : checkedOfRows a = ofRows a := by
  unfold checkedOfRows ofRows
  dsimp only
  split
  · rfl
  · next tall =>
    split
    · rfl
    · have columns := fun c => Rows.length_of_mem_columns (c := c) (n := a.width) (a := a)
      have count := Rows.length_columns a.width a
      have fits := Householder.fits_reduce count (fun c => columns c) (Nat.le_of_not_lt tall)
      have product : (List.range a.width).mapM (fun j => Householder.checkedApplyProduct
          (Householder.reduce (a.columns a.width)).1 (Vec.unit a.length j)) =
          .ok ((List.range a.width).map fun j => Householder.applyProduct
            (Householder.reduce (a.columns a.width)).1 (Vec.unit a.length j)) :=
        mapM_eq_ok fun j _ => Householder.checkedApplyProduct_eq fits (Vec.length_unit _ j)
      rw [Householder.checkedReduce_eq count (fun c => columns c) (Nat.le_of_not_lt tall), ok_bind,
        product]
      rfl

end QrFactors

namespace QrSolver
variable (solver : QrSolver F)

def checkedFactor (_ : QrSolver F) (operator : Operator F) : Except Fault (Factored F) := do
  let a ← operator.toRows
  if operator.inSize > operator.outSize then
    return ⟨← QrFactors.checkedOfRows (← a.transpose), true⟩
  else
    return ⟨← QrFactors.checkedOfRows a, false⟩

theorem checkedFactor_eq (operator : Operator F) :
    solver.checkedFactor operator = solver.factor operator := by
  simp only [checkedFactor, factor, QrFactors.checkedOfRows_eq]

/-- A solve whose pivots are all there and whose products have operands that fit. -/
def checkedSolve (s : Factored F) (b : Vec F) : Except Fault (Vec F × Status) := do
  if b.length ≠ s.inSize then throw (.rightHandSide b.length s.inSize)
  let f := s.factors
  let _ ← f.r.checkedDiagonal
  let cutoff := solver.cutoff f
  if s.transposed then
    let x ← Triangular.solveUpperTranspose f.r b cutoff
    return (← f.q.checkedMulVec x, .successful)
  else
    let rotated ← f.q.checkedTransposeMulVec b f.columns
    return (← Triangular.solveUpper f.r rotated cutoff, .successful)

/-- Factors of a matrix solve for every right-hand side without a size that does not fit. -/
theorem checkedSolve_eq {a : Dense F} (width : a.rows.width = a.inSize) {s : Factored F}
    (hs : solver.factor (.dense a) = .ok s) (b : Vec F) :
    solver.checkedSolve s b = solver.solve s b := by
  by_cases hb : b.length = s.inSize
  · obtain ⟨f, transposed⟩ := s
    rcases solver.shaped_of_factor width hs with ⟨rfl, shaped⟩ | ⟨rfl, shaped⟩
    · have height : b.length = a.rows.length := hb.trans shaped.length_q
      have rotated := Rows.checkedTransposeMulVec_eq (shaped.length_q.trans height.symm)
        shaped.width_q
      rw [solver.solve_direct shaped height]
      have solved := Triangular.solveUpper_of_square (solver.cutoff f) shaped.length_r
        shaped.width_r (Rows.length_transposeMulVec f.q b a.inSize)
      simp [checkedSolve, hb, Rows.checkedDiagonal_eq shaped.length_r shaped.width_r,
        QrFactors.columns, shaped.length_r, rotated, solved]
    · have height : b.length = a.rows.length := hb.trans shaped.length_r
      have size : (⟨f, true⟩ : Factored F).inSize = a.rows.length := shaped.length_r
      have length := Triangular.length_forwardSubstitute (solver.cutoff f) b f.r
      have product := Rows.checkedMulVec_eq (a := f.q)
        (v := Triangular.forwardSubstitute (solver.cutoff f) b f.r)
        fun row mem => (shaped.width_q row mem).trans (length.trans height).symm
      rw [solver.solve_transposed shaped height]
      have solved := Triangular.solveUpperTranspose_of_square (solver.cutoff f) shaped.length_r
        shaped.width_r height
      simp [checkedSolve, height, size, Rows.checkedDiagonal_eq shaped.length_r shaped.width_r,
        product, solved]
  · simp [checkedSolve, solve, hb]

end QrSolver

namespace Operator

def checkedMulVec : Operator F → Vec F → Except Fault (Vec F)
  | dense a, v =>
    if v.length = a.inSize then a.rows.checkedMulVec v
    else .error (.operatorInput v.length a.inSize)
  | identity n, v => if v.length = n then .ok v else .error .identityInput

/-- An operator that accepts a vector has rows of its length. -/
theorem checkedMulVec_eq (operator : Operator F) (v : Vec F) :
    operator.checkedMulVec v = operator.mulVec v := by
  cases operator with
  | identity n => rfl
  | dense a =>
    rw [checkedMulVec, mulVec]
    split
    · next length =>
      exact Rows.checkedMulVec_eq fun row mem => (a.rectangular row mem).trans length.symm
    · rfl

end Operator
end DualOpt
