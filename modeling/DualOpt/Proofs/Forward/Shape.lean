import Mathlib.Tactic.Choose
import DualOpt.Forward
import DualOpt.Proofs.Outcome

/-!
Sizes through differentiation, in any arithmetic.
-/
namespace DualOpt

variable {F A : Type} [Scalar F]

theorem length_of_gradientWith {f : ScalarFn F A} {x : Vec F} {g : Gradient F A}
    (h : gradientWith f x = .ok g) : g.gradient.length = x.length := by
  obtain ⟨p, -, h⟩ := bind_eq_ok_iff.mp h
  obtain ⟨gradient, hgradient, h⟩ := bind_eq_ok_iff.mp h
  obtain rfl := Except.ok.inj h
  rw [length_of_mapM hgradient, List.length_range]

/-- A linearisation is made of the pass without a seed and one pass for each coordinate. -/
theorem linearise_eq {f : VectorFn F A} {x : Vec F} {outputs : List (Dual F)} {payload : A}
    {pass : Nat → List (Dual F)} (start : f (Dual.constants x) = .ok (outputs, payload))
    (seeded : ∀ j < x.length, ∃ p, f (Dual.seedAt x j) = .ok (pass j, p))
    (size : ∀ j < x.length, (pass j).length = outputs.length) :
    linearise f x = .ok ⟨outputs.map Dual.primal, Rows.columns outputs.length
      ((List.range x.length).map fun j => (pass j).map Dual.tangent), payload⟩ := by
  have along (j : Nat) (hj : j ∈ List.range x.length) :
      tangentsAlong f x outputs.length j = .ok ((pass j).map Dual.tangent) := by
    obtain ⟨p, hp⟩ := seeded j (List.mem_range.mp hj)
    simp [tangentsAlong, hp, size j (List.mem_range.mp hj)]
  simp [linearise, start, mapM_eq_ok along]

@[simp] theorem length_seedAt (x : Vec F) (j : Nat) : (Dual.seedAt x j).length = x.length := by
  simp [Dual.seedAt, Vec.unit]

/-- A Jacobian has a row for each value and in each row an entry for each variable. -/
theorem shape_of_linearise {f : VectorFn F A} {x : Vec F} {l : Linearisation F A}
    (h : linearise f x = .ok l) :
    l.jacobian.length = l.values.length ∧ ∀ row ∈ l.jacobian, row.length = x.length := by
  obtain ⟨p, -, h⟩ := bind_eq_ok_iff.mp h
  obtain ⟨columns, hcolumns, h⟩ := bind_eq_ok_iff.mp h
  obtain rfl := Except.ok.inj h
  constructor
  · rw [Rows.length_columns, List.length_map]
  · intro row mem
    rw [Rows.length_of_mem_columns mem, length_of_mapM hcolumns, List.length_range]

theorem jacobian_eq {f : List (Dual F) → Except Fault (List (Dual F))} {x : Vec F}
    {outputs : List (Dual F)} {pass : Nat → List (Dual F)}
    (start : f (Dual.constants x) = .ok outputs)
    (seeded : ∀ j < x.length, f (Dual.seedAt x j) = .ok (pass j))
    (size : ∀ j < x.length, (pass j).length = outputs.length) :
    jacobian f x = .ok (outputs.map Dual.primal, Rows.columns outputs.length
      ((List.range x.length).map fun j => (pass j).map Dual.tangent)) := by
  let g (d : List (Dual F)) : Except Fault (List (Dual F) × Unit) := do return (← f d, ())
  have start_g : g (Dual.constants x) = .ok (outputs, ()) := by simp [g, start]
  have seeded_g (j : Nat) (hj : j < x.length) : ∃ p, g (Dual.seedAt x j) = .ok (pass j, p) :=
    ⟨(), by simp [g, seeded j hj]⟩
  have linearised := linearise_eq start_g seeded_g size
  rw [jacobian, linearised]
  rfl

/-- A Jacobian comes with the values of the pass without a seed. -/
theorem evaluate_of_jacobian {f : List (Dual F) → Except Fault (List (Dual F))} {x values : Vec F}
    {jac : Rows F} (h : jacobian f x = .ok (values, jac)) : evaluate f x = .ok values := by
  obtain ⟨l, hl, h⟩ := bind_eq_ok_iff.mp h
  obtain ⟨p, hp, hl⟩ := bind_eq_ok_iff.mp hl
  obtain ⟨columns, -, hl⟩ := bind_eq_ok_iff.mp hl
  obtain ⟨outputs, houtputs, hp⟩ := bind_eq_ok_iff.mp hp
  obtain rfl := Except.ok.inj hp
  obtain rfl := Except.ok.inj hl
  obtain rfl := congrArg Prod.fst (Except.ok.inj h)
  rw [evaluate, houtputs]
  rfl

/-- A function that always has `m` outputs has a Jacobian of `m` rows. -/
theorem exists_jacobian {f : List (Dual F) → Except Fault (List (Dual F))} {x : Vec F} {m : Nat}
    (total : ∀ d : List (Dual F), d.length = x.length →
      ∃ outputs, f d = .ok outputs ∧ outputs.length = m) :
    ∃ values jac, jacobian f x = .ok (values, jac) ∧ jac.length = m ∧
      ∀ row ∈ jac, row.length = x.length := by
  obtain ⟨outputs, start, length⟩ := total (Dual.constants x) (List.length_map _)
  choose pass seeded size using fun j => total (Dual.seedAt x j) (length_seedAt x j)
  refine ⟨_, _, jacobian_eq start (fun j _ => seeded j) fun j _ => (size j).trans length.symm,
    ?_, fun row hrow => ?_⟩
  · rw [Rows.length_columns, length]
  · rw [Rows.length_of_mem_columns hrow, List.length_map, List.length_range]

end DualOpt
