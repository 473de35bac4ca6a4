import Mathlib.Analysis.SpecialFunctions.Pow.Real
import DualOpt.Proofs.Forward.Residual

/-!
Programs inside the domains of their operations, over the real numbers.

Where all that a program compares differs, it comes to the same outputs from every point nearby, so
what it computes is there differentiable as these are, along every curve of the variables and the
parameters. Forward mode returns the derivative along a line.
-/
namespace DualOpt

open Filter Topology

/-- The dual numbers follow a curve through `x` in vectors of its length. -/
structure Dual.Through (ds : List (Dual ℝ)) (x : Vec ℝ) (u : ℝ → Vec ℝ) : Prop where
  follows : EachFollows ds u
  start : u 0 = x
  length : ∀ t, (u t).length = x.length

namespace Dual.Through

theorem constants (x : Vec ℝ) : Through (Dual.constants x) x fun _ => x :=
  ⟨.constants x, rfl, fun _ => rfl⟩

theorem line {x v : Vec ℝ} (same : x.length = v.length) :
    Through (x.zipWith Dual.mk v) x fun t => Vec.axpy t v x :=
  ⟨.line same, Vec.axpy_zero same.symm, fun t => by rw [Vec.length_axpy, same, Nat.min_self]⟩

/-- A curve of vectors with a derivative is followed by its value and its derivative. -/
theorem ofFn {x v : Vec ℝ} {f : ℝ → Fin x.length → ℝ} (same : v.length = x.length)
    (start : f 0 = Vec.coords x.length x) (derivative : HasDerivAt f (Vec.coords x.length v) 0) :
    Through (x.zipWith Dual.mk v) x fun t => List.ofFn (f t) := by
  refine ⟨fun i => ?_, by rw [start, Vec.ofFn_coords rfl], fun t => List.length_ofFn⟩
  by_cases hi : i < x.length
  · have entry (t : ℝ) : (List.ofFn (f t)).getD i 0 = f t ⟨i, hi⟩ := by simp [hi]
    have seeded : (x.zipWith Dual.mk v).getD i (constant 0) =
        ⟨Vec.coords x.length x ⟨i, hi⟩, Vec.coords x.length v ⟨i, hi⟩⟩ := by
      simp [Vec.coords, hi, same]
    simp only [entry, seeded]
    exact ⟨(congrFun start ⟨i, hi⟩).symm, hasDerivAt_pi.mp derivative ⟨i, hi⟩⟩
  · have entry (t : ℝ) : (List.ofFn (f t)).getD i 0 = 0 := by simp [hi]
    have seeded : (x.zipWith Dual.mk v).getD i (constant 0) = constant 0 := by simp [hi]
    simp only [entry, seeded]
    exact .constant 0

end Dual.Through

namespace Program
variable {p : Program ℝ} {y θ : Vec ℝ} {path : List Bool}

/-- From `y` and the outcomes `path` on every operation is applied inside its domain. -/
inductive Interior (p : Program ℝ) (y θ : Vec ℝ) : List Bool → Prop where
  | outputs {path : List Bool} {es : List (Expr ℝ)} (next : p.next path = .outputs es)
    (inside : ∀ e ∈ es, e.Interior y θ) : p.Interior y θ path
  | compare {path : List Bool} {test : Comparison} {a b : Expr ℝ} {side : Bool}
    (next : p.next path = .compare test a b) (first : a.Interior y θ) (second : b.Interior y θ)
    (apart : a.value y θ ≠ b.value y θ)
    (decided : compare (Dual.constants y) (Dual.constants θ) test a b = .ok side)
    (rest : p.Interior y θ (path ++ [side])) : p.Interior y θ path

/-- A comparison at a point decides how the values there relate. -/
theorem compare_constants_iff {test : Comparison} {a b : Expr ℝ}
    (ha : a.Composed y.length θ.length) (hb : b.Composed y.length θ.length) {side : Bool} :
    compare (Dual.constants y) (Dual.constants θ) test a b = .ok side ↔
      (side = true ↔ test.Relates (a.value y θ) (b.value y θ)) := by
  have arity : (Dual.constants y).length = y.length := List.length_map _
  have parameters : (Dual.constants θ).length = θ.length := List.length_map _
  have decided := test.holds_iff (a.eval (Dual.constants y) (Dual.constants θ))
    (b.eval (Dual.constants y) (Dual.constants θ))
  simp only [Expr.primal_eval, Dual.map_primal_constants] at decided
  rw [compare_ok (ha.defined arity parameters) (hb.defined arity parameters), ← decided,
    Except.ok.injEq, Bool.eq_iff_iff]
  exact iff_comm

section Curves
variable {ds ts : List (Dual ℝ)} {u w : ℝ → Vec ℝ}

/-- Nearby, operands that differ compare as they do here. -/
theorem eventually_compare {test : Comparison} {a b : Expr ℝ}
    (ha : a.Composed y.length θ.length) (hb : b.Composed y.length θ.length)
    (first : a.Interior y θ) (second : b.Interior y θ) (apart : a.value y θ ≠ b.value y θ)
    {side : Bool} (decided : compare (Dual.constants y) (Dual.constants θ) test a b = .ok side)
    (hu : Dual.Through ds y u) (hw : Dual.Through ts θ w) :
    ∀ᶠ t in 𝓝 0, compare (Dual.constants (u t)) (Dual.constants (w t)) test a b = .ok side := by
  have follows_a := Expr.follows hu.follows hw.follows ha (by rwa [hu.start, hw.start])
  have follows_b := Expr.follows hu.follows hw.follows hb (by rwa [hu.start, hw.start])
  have differ : (a.eval ds ts).primal ≠ (b.eval ds ts).primal := by
    rwa [follows_a.primal, follows_b.primal, hu.start, hw.start]
  have near := test.eventually_relates_iff follows_a follows_b differ
  have here := near.self_of_nhds
  rw [hu.start, hw.start] at here
  rw [compare_constants_iff ha hb] at decided
  filter_upwards [near] with t ht
  have arity := (hu.length t).symm
  have parameter_count := (hw.length t).symm
  rw [compare_constants_iff (arity ▸ parameter_count ▸ ha) (arity ▸ parameter_count ▸ hb), decided,
    here, ht]

end Curves

/-- A program inside the domains of its operations comes to outputs that it comes to nearby too. -/
theorem Interior.exists_leads (h : p.Interior y θ path) (composed : p.Composed y.length θ.length) :
    ∃ s : System ℝ, (∀ e ∈ s.outputs, e.Interior y θ) ∧
      p.Leads (Dual.constants y) (Dual.constants θ) path s.outputs ∧
      ∀ {ds ts : List (Dual ℝ)} {u w : ℝ → Vec ℝ}, Dual.Through ds y u → Dual.Through ts θ w →
        ∀ᶠ t in 𝓝 0, p.Leads (Dual.constants (u t)) (Dual.constants (w t)) path s.outputs := by
  induction h with
  | @outputs path es next inside =>
    exact ⟨⟨es, none⟩, inside, .outputs next, fun _ _ => .of_forall fun _ => .outputs next⟩
  | compare next first second apart decided _ ih =>
    obtain ⟨s, inside, here, near⟩ := ih
    obtain ⟨ha, hb⟩ := composed.of_compare next
    refine ⟨s, inside, .compare next decided here, fun hu hw => ?_⟩
    filter_upwards [near hu hw, eventually_compare ha hb first second apart decided hu hw]
      with t rest decided_t
    exact .compare next decided_t rest

section Directions
variable {x v : Vec ℝ} {f : List (Dual ℝ) → Except Fault (List (Dual ℝ))}

end Directions

end Program
end DualOpt
