import DualOpt.Proofs.Forward.Shape

/-!
The passes of a Jacobian in place.

`linearise` seeds every pass anew and collects its tangents as a column. In place there is one
buffer of inputs, in which a seed is set before a pass and cleared after it, and one matrix, which
starts as zeros and takes the tangents of pass `j` into entry `j` of its rows. Between passes the
buffer is the unseeded point again, and the matrix consists of the columns collected so far and the
ones it started from.
-/
namespace DualOpt

variable {F A : Type} [Scalar F]

/-- The inputs with the tangent of entry `j` replaced. -/
def Dual.setTangent (inputs : List (Dual F)) (j : Nat) (t : F) : Except Fault (List (Dual F)) :=
  if j < inputs.length then .ok (inputs.modify j fun d => ⟨d.primal, t⟩)
  else .error .indexOutOfRange

/-- Writes the entries of a vector into entry `j` of the rows, one after the other, until either
ends. -/
def Rows.setColumn (j : Nat) : Rows F → Vec F → Except Fault (Rows F)
  | row :: a, x :: xs =>
    if j < row.length then do return row.set j x :: (← setColumn j a xs)
    else .error .indexOutOfRange
  | a, [] => .ok a
  | [], _ => .ok []

/-- The buffer of inputs and the matrix, which all passes share. -/
structure Workspace (F : Type) where
  inputs : List (Dual F)
  jacobian : Rows F

/-- One pass in place, of a function with `m` outputs. -/
def Workspace.pass (f : VectorFn F A) (m : Nat) (w : Workspace F) (j : Nat) :
    Except Fault (Workspace F) := do
  let seeded ← Dual.setTangent w.inputs j 1
  let (outputs, _) ← f seeded
  if outputs.length = m then
    let jacobian ← Rows.setColumn j w.jacobian (outputs.map Dual.tangent)
    let inputs ← Dual.setTangent seeded j 0
    return ⟨inputs, jacobian⟩
  else throw (.outputDimension outputs.length m)

/-- Values, Jacobian and payload of `f` at `x` by passes in place. -/
def lineariseInPlace (f : VectorFn F A) (x : Vec F) : Except Fault (Linearisation F A) := do
  let (outputs, payload) ← f (Dual.constants x)
  let zeros := List.replicate outputs.length (Vec.fill x.length 0)
  let w ← (List.range x.length).foldlM (Workspace.pass f outputs.length)
    ⟨Dual.constants x, zeros⟩
  return ⟨outputs.map Dual.primal, w.jacobian, payload⟩

theorem Vec.set_fill (n j : Nat) : (fill n (0 : F)).set j 1 = unit n j := by
  refine List.ext_getElem (by simp [fill, unit]) fun i hi _ => ?_
  by_cases same : i = j
  · simp [fill, unit, same]
  · simp [fill, unit, same, Ne.symm same]

theorem Vec.set_unit (n j : Nat) : (unit n j : Vec F).set j 0 = fill n 0 := by
  refine List.ext_getElem (by simp [fill, unit]) fun i hi _ => ?_
  by_cases same : i = j
  · simp [fill, unit, same]
  · simp [fill, unit, same, Ne.symm same]

theorem Dual.constants_eq_zipWith (x : Vec F) :
    constants x = x.zipWith mk (Vec.fill x.length 0) := by
  refine List.ext_getElem (by simp [constants, Vec.fill]) fun i hi _ => ?_
  simp [constants, Vec.fill, constant]

omit [Scalar F] in
theorem Dual.setTangent_zipWith {x v : Vec F} {j : Nat} (inside : j < x.length)
    (same : v.length = x.length) (t : F) :
    setTangent (x.zipWith mk v) j t = .ok (x.zipWith mk (v.set j t)) := by
  rw [setTangent, if_pos (by simpa [same] using inside)]
  refine congrArg Except.ok (List.ext_getElem (by simp) fun i hi _ => ?_)
  by_cases here : i = j
  · simp [here]
  · simp [Ne.symm here]

theorem Dual.setTangent_constants {x : Vec F} {j : Nat} (inside : j < x.length) :
    setTangent (constants x) j 1 = .ok (seedAt x j) := by
  rw [constants_eq_zipWith, setTangent_zipWith inside (by simp [Vec.fill]), Vec.set_fill, seedAt]

/-- Clearing the seed leaves the point as it was before. -/
theorem Dual.setTangent_seedAt {x : Vec F} {j : Nat} (inside : j < x.length) :
    setTangent (seedAt x j) j 0 = .ok (constants x) := by
  rw [seedAt, setTangent_zipWith inside (by simp [Vec.unit]), Vec.set_unit, constants_eq_zipWith]

theorem Rows.columns_fill (m n : Nat) :
    Rows.columns m (List.replicate n (Vec.fill m (0 : F))) =
      List.replicate m (Vec.fill n 0) := by
  induction m with
  | zero => rfl
  | succ m ih =>
    have tails : (List.replicate n (Vec.fill (m + 1) (0 : F))).map List.tail =
        List.replicate n (Vec.fill m 0) := by simp [Vec.fill]
    rw [columns, tails, ih, List.replicate_succ]
    simp [Vec.fill, List.replicate_succ]

/-- A column written into the rows replaces the one that stood there and no other. -/
theorem Rows.setColumn_columns (before after : Rows F) (old c : Vec F) :
    setColumn before.length (columns c.length (before ++ old :: after)) c =
      .ok (columns c.length (before ++ c :: after)) := by
  induction c generalizing before after old with
  | nil => rfl
  | cons x c ih =>
    have rest := ih (before.map List.tail) (after.map List.tail) old.tail
    rw [List.length_map] at rest
    simp [columns, setColumn, rest]

/-- One pass in place collects the column that a pass seeded anew has. -/
theorem Workspace.pass_eq (f : VectorFn F A) {x : Vec F} (m : Nat) {before after : Rows F}
    (old : Vec F) (inside : before.length < x.length) :
    pass f m ⟨Dual.constants x, Rows.columns m (before ++ old :: after)⟩ before.length =
      (tangentsAlong f x m before.length).map fun c =>
        ⟨Dual.constants x, Rows.columns m (before ++ c :: after)⟩ := by
  simp only [pass, tangentsAlong, Dual.setTangent_constants inside, ok_bind]
  cases f (Dual.seedAt x before.length) with
  | error fault => rfl
  | ok p =>
    obtain ⟨outputs, payload⟩ := p
    by_cases size : outputs.length = m
    · have written := Rows.setColumn_columns before after old (outputs.map Dual.tangent)
      rw [List.length_map, size] at written
      simp [size, written, Dual.setTangent_seedAt inside]
    · simp [size]

/-- The passes over the coordinates that are left collect their columns behind the ones collected
before. -/
theorem Workspace.foldlM_pass (f : VectorFn F A) {x : Vec F} (m : Nat) (before after : Rows F)
    (coordinates : before.length + after.length = x.length) :
    (List.range' before.length after.length).foldlM (pass f m)
        ⟨Dual.constants x, Rows.columns m (before ++ after)⟩ =
      ((List.range' before.length after.length).mapM (tangentsAlong f x m)).map fun columns =>
        ⟨Dual.constants x, Rows.columns m (before ++ columns)⟩ := by
  induction after generalizing before with
  | nil => rfl
  | cons old after ih =>
    rw [List.length_cons] at coordinates
    rw [List.length_cons, List.range'_succ, List.foldlM_cons, List.mapM_cons,
      pass_eq f m old (by omega)]
    cases tangentsAlong f x m before.length with
    | error fault => rfl
    | ok c =>
      have next := ih (before ++ [c]) (by simp; omega)
      simp only [List.length_append, List.length_singleton, List.append_assoc,
        List.singleton_append] at next
      rw [ok_map, ok_bind, ok_bind, next]
      cases (List.range' (before.length + 1) after.length).mapM (tangentsAlong f x m) <;> rfl

/-- Passes in place yield what passes seeded anew yield, and fault where these do. -/
theorem lineariseInPlace_eq (f : VectorFn F A) (x : Vec F) :
    lineariseInPlace f x = linearise f x := by
  unfold lineariseInPlace linearise
  refine bind_congr_of_ok fun p _ => ?_
  have passes := Workspace.foldlM_pass f (x := x) p.1.length []
    (List.replicate x.length (Vec.fill p.1.length 0)) (by simp)
  simp only [List.length_nil, List.length_replicate, ← List.range_eq_range', List.nil_append,
    Rows.columns_fill] at passes
  dsimp only
  rw [passes]
  cases (List.range x.length).mapM (tangentsAlong f x p.1.length) <;> rfl

/-- A linearisation comes from an unseeded pass and one seeded pass for each coordinate, all with
the same number of outputs. -/
theorem exists_passes_of_linearise {f : VectorFn F A} {x : Vec F} {l : Linearisation F A}
    (h : linearise f x = .ok l) :
    ∃ outputs, f (Dual.constants x) = .ok (outputs, l.payload) ∧
      ∀ j < x.length, ∃ pass p, f (Dual.seedAt x j) = .ok (pass, p) ∧
        pass.length = outputs.length := by
  obtain ⟨⟨outputs, payload⟩, start, h⟩ := bind_eq_ok_iff.mp h
  obtain ⟨columns, traversed, h⟩ := bind_eq_ok_iff.mp h
  obtain rfl := Except.ok.inj h
  refine ⟨outputs, start, fun j hj => ?_⟩
  obtain ⟨column, along⟩ := exists_of_mapM traversed j (List.mem_range.mpr hj)
  obtain ⟨⟨pass, p⟩, seeded, along⟩ := bind_eq_ok_iff.mp along
  by_cases size : pass.length = outputs.length
  · exact ⟨pass, p, seeded, size⟩
  · simp [size] at along

/-- Entry `j` of every row is column `j`. -/
theorem Rows.map_getD_columns {m j : Nat} {a : Rows F} (length : (a.getD j []).length = m) :
    (columns m a).map (·.getD j 0) = a.getD j [] := by
  refine List.ext_getElem (by rw [List.length_map, length_columns, length]) fun i hi hi' => ?_
  have entry := getD_columns (length ▸ hi') a j
  have row : i < (columns m a).length := by simpa using hi
  generalize a.getD j [] = c at entry hi' ⊢
  simpa [row, hi'] using entry

/-- A function is linearised exactly when all its seeded passes have as many outputs as the unseeded
one. Values and payload are those of the unseeded pass, and column `j` of the Jacobian holds the
tangents along unit vector `j`. One buffer and one matrix that all passes share yield the same. -/
theorem linearise_columns (f : VectorFn F A) (x : Vec F) :
    lineariseInPlace f x = linearise f x ∧
      ((∃ l, linearise f x = .ok l) ↔
        ∃ outputs payload, f (Dual.constants x) = .ok (outputs, payload) ∧
          ∀ j < x.length, ∃ pass p, f (Dual.seedAt x j) = .ok (pass, p) ∧
            pass.length = outputs.length) ∧
      ∀ l, linearise f x = .ok l →
        (∃ outputs, f (Dual.constants x) = .ok (outputs, l.payload) ∧
          l.values = outputs.map Dual.primal) ∧
        l.jacobian.length = l.values.length ∧ (∀ row ∈ l.jacobian, row.length = x.length) ∧
        ∀ j < x.length, ∃ values, jvp (fun d => (f d).map Prod.fst) x (Vec.unit x.length j) =
          .ok (values, l.jacobian.map (·.getD j 0)) := by
  refine ⟨lineariseInPlace_eq f x, ⟨?_, ?_⟩, ?_⟩
  · rintro ⟨l, h⟩
    obtain ⟨outputs, passes⟩ := exists_passes_of_linearise h
    exact ⟨outputs, l.payload, passes⟩
  · rintro ⟨outputs, payload, start, passes⟩
    choose! pass p seeded size using passes
    exact ⟨_, linearise_eq start (fun j hj => ⟨p j hj, seeded j hj⟩) size⟩
  · intro l h
    obtain ⟨outputs, start, passes⟩ := exists_passes_of_linearise h
    choose! pass p seeded size using passes
    have linearised := linearise_eq start (fun j hj => ⟨p j hj, seeded j hj⟩) size
    have same := Except.ok.inj (h.symm.trans linearised)
    refine ⟨⟨outputs, start, congrArg Linearisation.values same⟩, (shape_of_linearise h).1,
      (shape_of_linearise h).2, fun j hj => ⟨(pass j).map Dual.primal, ?_⟩⟩
    have length : x.length = (Vec.unit x.length j : Vec F).length := by simp [Vec.unit]
    have column : l.jacobian.map (·.getD j 0) = (pass j).map Dual.tangent := by
      rw [same, Rows.map_getD_columns] <;> simp [hj, size j hj]
    rw [jvp, if_pos length, column]
    show (f (Dual.seedAt x j)).map Prod.fst >>= _ = _
    rw [seeded j hj]
    rfl

/-- The reversal of a vector, which no arithmetic makes, has a Jacobian with one column for each of
its two variables. -/
theorem linearise_columns_reverse :
    let reversal : VectorFn Float Unit := fun d => .ok (d.reverse, ())
    ∃ l, linearise reversal [3, 5] = .ok l ∧ lineariseInPlace reversal [3, 5] = .ok l ∧
      l.jacobian.length = l.values.length ∧
      ∃ values, jvp (fun d => (reversal d).map Prod.fst) [3, 5] (Vec.unit 2 1) =
        .ok (values, l.jacobian.map (·.getD 1 0)) := by
  intro reversal
  obtain ⟨inPlace, defined, columns⟩ := linearise_columns reversal [3, 5]
  obtain ⟨l, linearised⟩ := defined.mpr ⟨_, _, rfl, fun j _ => ⟨_, _, rfl, by simp [Dual.constants]⟩⟩
  obtain ⟨-, rows, -, column⟩ := columns l linearised
  exact ⟨l, linearised, inPlace.trans linearised, rows, column 1 (by decide)⟩

end DualOpt
