import DualOpt.Convergence
import DualOpt.Proofs.NotANumber

/-!
What the convergence test makes of a change that is not a number.

The Euclidean norm hands it on, so the test fails. The largest-entry norm passes it over, so the
test is that of the other entries.
-/
namespace DualOpt

variable {F : Type} [Scalar F] [NaNRules F]

namespace Vec

theorem isNaN_foldl_inner {x : Vec F} {acc : F}
    (nan : Scalar.isNaN acc = true ∨ ∃ a ∈ x, Scalar.isNaN a = true) :
    Scalar.isNaN ((x.zip x).foldl (fun acc p => acc + p.1 * p.2) acc) = true := by
  induction x generalizing acc with
  | nil =>
    rcases nan with nan | ⟨a, mem, -⟩
    · exact nan
    · cases mem
  | cons a x ih =>
    rw [List.zip_cons_cons, List.foldl_cons]
    apply ih
    rcases nan with nan | ⟨b, mem, nan⟩
    · exact .inl (NaNRules.add_left _ nan)
    · rcases List.mem_cons.mp mem with rfl | mem
      · exact .inl (NaNRules.add_right _ (NaNRules.mul_left _ nan))
      · exact .inr ⟨b, mem, nan⟩

/-- The Euclidean norm is not a number if some entry is not. -/
theorem isNaN_twoNorm {x : Vec F} (nan : ∃ a ∈ x, Scalar.isNaN a = true) :
    Scalar.isNaN (twoNorm x) = true :=
  NaNRules.sqrt (isNaN_foldl_inner (.inr nan))

/-- The largest entry is found without those that are not numbers. -/
theorem maxNorm_map_filter {α : Type} (g : α → F) (keep : α → Bool) {l : List α}
    (dropped : ∀ e ∈ l, keep e = false → Scalar.isNaN (g e) = true) :
    maxNorm ((l.filter keep).map g) = maxNorm (l.map g) := by
  rw [maxNorm, maxNorm]
  generalize (0 : F) = acc
  induction l generalizing acc with
  | nil => rfl
  | cons e l ih =>
    obtain ⟨head, tail⟩ := List.forall_mem_cons.mp dropped
    rw [List.filter_cons]
    cases kept : keep e with
    | true =>
      rw [if_pos rfl, List.map_cons, List.map_cons, List.foldl_cons, List.foldl_cons, ih tail]
    | false =>
      have passed : Scalar.max acc (Scalar.abs (g e)) = acc :=
        NaNRules.max_right acc (NaNRules.abs (head kept))
      rw [if_neg Bool.false_ne_true, List.map_cons, List.foldl_cons, passed, ih tail]

end Vec

namespace Convergence

/-- A change over the tolerance at its entry. -/
def scaled (c : Convergence F) (p : F × F) : F := p.2 / (c.atol + c.rtol * Scalar.abs p.1)

/-- The entries whose change is a number, and these changes. -/
def numbers (x change : Vec F) : Vec F × Vec F :=
  ((x.zip change).filter fun p => !Scalar.isNaN p.2).unzip

omit [NaNRules F] in
theorem small_eq (c : Convergence F) (x change : Vec F) :
    c.small x change = decide (c.norm.apply ((x.zip change).map c.scaled) < 1) := by
  rw [List.map_zip_eq_zipWith]
  rfl

/-- In the Euclidean norm a change that is not a number is not small. -/
theorem small_of_isNaN {c : Convergence F} (norm : c.norm = .two) {x change : Vec F}
    (length : change.length = x.length) (nan : ∃ d ∈ change, Scalar.isNaN d = true) :
    c.small x change = false := by
  have scaledNaN : ∃ a ∈ (x.zip change).map c.scaled, Scalar.isNaN a = true := by
    obtain ⟨d, mem, nan⟩ := nan
    rw [← List.map_snd_zip (Nat.le_of_eq length)] at mem
    obtain ⟨p, hp, rfl⟩ := List.mem_map.mp mem
    exact ⟨c.scaled p, List.mem_map_of_mem hp, NaNRules.div_left _ nan⟩
  rw [small_eq, norm]
  exact decide_eq_false (NaNRules.not_lt 1 (Vec.isNaN_twoNorm scaledNaN))

/-- In the largest-entry norm a change is as small as its entries that are numbers. -/
theorem small_numbers {c : Convergence F} (norm : c.norm = .max) (x change : Vec F) :
    c.small (numbers x change).1 (numbers x change).2 = c.small x change := by
  have passed : ∀ p ∈ x.zip change, (!Scalar.isNaN p.2) = false →
      Scalar.isNaN (c.scaled p) = true := by
    intro p _ nan
    exact NaNRules.div_left _ (by simpa using nan)
  rw [small_eq, small_eq, norm, numbers, List.zip_unzip]
  exact congrArg (fun a => decide (a < 1)) (Vec.maxNorm_map_filter c.scaled _ passed)

/-- A change that is not a number fails the test in the Euclidean norm, wherever it stands. In the
largest-entry norm it does not count: the test is that of the entries whose change is a number. -/
theorem converged_of_isNaN (c : Convergence F) (y yChange f fChange : Vec F)
    (hy : yChange.length = y.length) (hf : fChange.length = f.length) :
    (c.norm = .two → (∃ d ∈ yChange ++ fChange, Scalar.isNaN d = true) →
      c.converged y yChange f fChange = false) ∧
    (c.norm = .max → c.converged y yChange f fChange =
      c.converged (numbers y yChange).1 (numbers y yChange).2
        (numbers f fChange).1 (numbers f fChange).2) := by
  refine ⟨fun norm nan => ?_, fun norm => ?_⟩
  · obtain ⟨d, mem, nan⟩ := nan
    rcases List.mem_append.mp mem with mem | mem
    · rw [converged, small_of_isNaN norm hy ⟨d, mem, nan⟩, Bool.false_and]
    · rw [converged, small_of_isNaN norm hf ⟨d, mem, nan⟩, Bool.and_false]
  · rw [converged, converged, small_numbers norm, small_numbers norm]

/-- In double precision, the second of two changes is not a number: in the largest-entry norm the
first one decides. -/
theorem converged_of_isNaN_second :
    (⟨1e-8, 1e-8, .two⟩ : Convergence Float).converged [1, 1] [0, 0 / 0] [1] [0] = false ∧
      (⟨1e-8, 1e-8, .max⟩ : Convergence Float).converged [1, 1] [1, 0 / 0] [1] [0] = false := by
  have isNaN : Scalar.isNaN (0 / 0 : Float) = true := by decide +kernel
  constructor
  · exact (converged_of_isNaN ⟨1e-8, 1e-8, .two⟩ [1, 1] [0, 0 / 0] [1] [0] rfl rfl).1 rfl
      ⟨0 / 0, by simp, isNaN⟩
  · rw [(converged_of_isNaN ⟨1e-8, 1e-8, .max⟩ [1, 1] [1, 0 / 0] [1] [0] rfl rfl).2 rfl]
    decide +kernel

/-- The usual test calls a step that is not a number small. -/
theorem nan_step_converges :
    Scalar.isNaN (0 / 0 : Float) = true ∧
      (standard : Convergence Float).converged [1] [0 / 0] [1] [0] = true := by
  decide +kernel

end Convergence
end DualOpt
