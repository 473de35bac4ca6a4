import Mathlib.LinearAlgebra.Matrix.ToLin
import DualOpt.Proofs.Forward.Derivative
import DualOpt.Proofs.Forward.Shape
import DualOpt.Proofs.Linear.Transposition

/-!
Forward mode is linear in the seed, over the real numbers.

The slopes of an operation depend on the primal parts of its operands alone, so its tangent is a
fixed combination of theirs. No operation has to be differentiable for this: the slope of one side
serves at a kink.
-/
namespace DualOpt

section Operations
variable (x y t u : ℝ)

theorem Dual.tangent_chain (value slope : ℝ) :
    (Dual.chain ⟨x, t⟩ value slope).tangent = t * (Dual.chain ⟨x, 1⟩ value slope).tangent := by
  rw [chain, chain, one_mul]

/-- The tangent of an operation is that for the unit seed, times the tangent of the operand. -/
theorem UnaryOp.tangent_apply (op : UnaryOp) :
    (op.apply ⟨x, t⟩).tangent = t * (op.apply ⟨x, 1⟩).tangent := by
  cases op with
  | neg => exact (mul_neg_one t).symm
  | _ => exact Dual.tangent_chain x t _ _

theorem Dual.tangent_div : ((⟨x, t⟩ : Dual ℝ) / ⟨y, u⟩).tangent =
    (t * y - x * u) * (1 / y) * (1 / y) := rfl

theorem Dual.tangent_hypot :
    (Dual.hypot ⟨x, t⟩ ⟨y, u⟩).tangent = (x * t + y * u) / √(x ^ 2 + y ^ 2) := rfl

/-- Whether the exponent varies makes no difference to the combination. -/
theorem Dual.tangent_pow :
    (Dual.pow ⟨x, t⟩ ⟨y, u⟩).tangent = x ^ y * (y * t / x + u * Real.log x) := by
  have exponent : (if u == 0 then 0 else u * Real.log x) = u * Real.log x := by
    split
    · next still => rw [eq_of_beq still, zero_mul]
    · rfl
  exact congrArg (fun e => x ^ y * (y * t / x + e)) exponent

theorem Dual.max_eq_ite (d e : Dual ℝ) : d.max e = if e.primal ≤ d.primal then d else e := rfl

theorem Dual.min_eq_ite (d e : Dual ℝ) : d.min e = if d.primal ≤ e.primal then d else e := rfl

/-- The tangent of an operation combines those for the unit seeds of its operands. -/
theorem BinaryOp.tangent_apply (op : BinaryOp) :
    (op.apply ⟨x, t⟩ ⟨y, u⟩).tangent =
      t * (op.apply ⟨x, 1⟩ ⟨y, 0⟩).tangent + u * (op.apply ⟨x, 0⟩ ⟨y, 1⟩).tangent := by
  cases op with
  | add =>
    change t + u = t * (1 + 0) + u * (0 + 1)
    ring
  | sub =>
    change t - u = t * (1 - 0) + u * (0 - 1)
    ring
  | mul =>
    change x * u + t * y = t * (x * 0 + 1 * y) + u * (x * 1 + 0 * y)
    ring
  | div =>
    simp only [apply, Dual.tangent_div]
    ring
  | max =>
    simp only [apply, Dual.max_eq_ite]
    split <;> ring
  | min =>
    simp only [apply, Dual.min_eq_ite]
    split <;> ring
  | hypot =>
    simp only [apply, Dual.tangent_hypot]
    ring
  | pow =>
    simp only [apply, Dual.tangent_pow]
    ring

theorem ScalarOp.tangent_applyRight (op : ScalarOp) (c : ℝ) :
    (op.applyRight ⟨x, t⟩ c).tangent = t * (op.applyRight ⟨x, 1⟩ c).tangent := by
  cases op with
  | add => exact (mul_one t).symm
  | sub => exact (mul_one t).symm
  | mul =>
    change t * c = t * (1 * c)
    rw [one_mul]
  | div =>
    change t * (1 / c) = t * (1 * (1 / c))
    rw [one_mul]

theorem ScalarOp.tangent_applyLeft (op : ScalarOp) (c : ℝ) :
    (op.applyLeft c ⟨x, t⟩).tangent = t * (op.applyLeft c ⟨x, 1⟩).tangent := by
  cases op with
  | add => exact (mul_one t).symm
  | sub => exact (mul_neg_one t).symm
  | mul =>
    change c * t = t * (c * 1)
    ring
  | div =>
    change -c * t * (1 / x) * (1 / x) = t * (-c * 1 * (1 / x) * (1 / x))
    ring

theorem Dual.tangent_powInt (n : ℤ) :
    (Dual.powInt ⟨x, t⟩ n).tangent = t * (Dual.powInt ⟨x, 1⟩ n).tangent := by
  by_cases zero : n = 0
  · rw [powInt, powInt, if_pos zero, if_pos zero]
    exact (mul_zero t).symm
  · rw [powInt, powInt, if_neg zero, if_neg zero]
    exact tangent_chain x t _ _

end Operations

/-- A dual number for each seed, with a value that no seed changes and a tangent that is linear in
the seed. -/
def Dual.Linear {V : Type*} [AddCommGroup V] [Module ℝ V] (d : V → Dual ℝ) : Prop :=
  ∃ (x : ℝ) (L : V →ₗ[ℝ] ℝ), ∀ v, d v = ⟨x, L v⟩

section Seeds
variable {V : Type*} [AddCommGroup V] [Module ℝ V] {d e : V → Dual ℝ}

namespace Dual.Linear

theorem constant (c : ℝ) : Dual.Linear fun _ : V => Dual.constant c :=
  ⟨c, 0, fun _ => rfl⟩

/-- What applies a scalar map to the value and a slope to the tangent is linear. -/
theorem map {g : Dual ℝ → Dual ℝ} {f : ℝ → ℝ} (primal : ∀ d, (g d).primal = f d.primal)
    (tangent : ∀ x t, (g ⟨x, t⟩).tangent = t * (g ⟨x, 1⟩).tangent) (h : Dual.Linear d) :
    Dual.Linear fun v => g (d v) := by
  obtain ⟨x, L, hd⟩ := h
  refine ⟨f x, (g ⟨x, 1⟩).tangent • L, fun v => ?_⟩
  calc g (d v) = ⟨(g ⟨x, L v⟩).primal, (g ⟨x, L v⟩).tangent⟩ := by rw [hd]
    _ = ⟨f x, L v * (g ⟨x, 1⟩).tangent⟩ := by rw [primal, tangent]
    _ = ⟨f x, ((g ⟨x, 1⟩).tangent • L) v⟩ := by rw [mul_comm]; rfl

end Dual.Linear

theorem BinaryOp.linear (op : BinaryOp) (hd : Dual.Linear d) (he : Dual.Linear e) :
    Dual.Linear fun v => op.apply (d v) (e v) := by
  obtain ⟨x, L, hd⟩ := hd
  obtain ⟨y, M, he⟩ := he
  let a := (op.apply ⟨x, 1⟩ ⟨y, 0⟩).tangent
  let b := (op.apply ⟨x, 0⟩ ⟨y, 1⟩).tangent
  refine ⟨op.function x y, a • L + b • M, fun v => ?_⟩
  calc op.apply (d v) (e v)
      = ⟨(op.apply ⟨x, L v⟩ ⟨y, M v⟩).primal, (op.apply ⟨x, L v⟩ ⟨y, M v⟩).tangent⟩ := by
        rw [hd, he]
    _ = ⟨op.function x y, L v * a + M v * b⟩ := by rw [op.primal_apply, op.tangent_apply]
    _ = ⟨op.function x y, (a • L + b • M) v⟩ := by rw [mul_comm, mul_comm (M v)]; rfl

/-- Every entry is linear in the seed; beyond the end all is zero. -/
def Dual.EachLinear (ds : V → List (Dual ℝ)) : Prop :=
  ∀ i, Dual.Linear fun v => (ds v).getD i (constant 0)

namespace Dual.EachLinear

theorem constants (x : Vec ℝ) : EachLinear fun _ : V => Dual.constants x := by
  intro i
  have entry : (Dual.constants x).getD i (constant 0) = constant (x.getD i 0) :=
    List.getD_map x 0 constant
  simp only [entry]
  exact .constant (x.getD i 0)

/-- A seeded point, whose seed is a vector of its length. -/
theorem seeded (x : Vec ℝ) :
    EachLinear fun v : Fin x.length → ℝ => x.zipWith Dual.mk (List.ofFn v) := by
  intro i
  by_cases hi : i < x.length
  · refine ⟨x[i], LinearMap.proj ⟨i, hi⟩, fun v => ?_⟩
    simp [hi]
  · refine ⟨0, 0, fun v => ?_⟩
    simp [hi, constant]

theorem take {ds : V → List (Dual ℝ)} (h : EachLinear ds) (n : ℕ) :
    EachLinear fun v => (ds v).take n := by
  intro i
  by_cases hi : i < n
  · have entry (v : V) : ((ds v).take n).getD i (constant 0) = (ds v).getD i (constant 0) := by
      simp [hi]
    simpa only [entry] using h i
  · have entry (v : V) : ((ds v).take n).getD i (constant 0) = constant 0 := by
      simp [hi]
    simpa only [entry] using Dual.Linear.constant 0

theorem drop {ds : V → List (Dual ℝ)} (h : EachLinear ds) (n : ℕ) :
    EachLinear fun v => (ds v).drop n := by
  intro i
  have entry (v : V) : ((ds v).drop n).getD i (constant 0) = (ds v).getD (n + i) (constant 0) := by
    simp
  simpa only [entry] using h (n + i)

end Dual.EachLinear

/-- Evaluation is linear in the seed, whichever branches it takes. -/
theorem Expr.linear {n k : ℕ} {y t : V → List (Dual ℝ)} (hy : Dual.EachLinear y)
    (ht : Dual.EachLinear t) {e : Expr ℝ} (composed : e.Composed n k) :
    Dual.Linear fun v => e.eval (y v) (t v) := by
  induction e with
  | const c => exact .constant c
  | var i => exact hy i
  | param i => exact ht i
  | unary op e ih => exact (ih composed).map op.primal_apply op.tangent_apply
  | binary op a b iha ihb => exact op.linear (iha composed.1) (ihb composed.2)
  | powInt e n ih =>
    exact (ih composed).map (g := (·.powInt n)) (f := (· ^ n)) (fun d => d.primal_powInt n)
      fun x t => Dual.tangent_powInt x t n
  | scalarRight op e c ih =>
    exact (ih composed).map (g := (op.applyRight · c)) (f := (op.function · c))
      (fun d => op.primal_applyRight d c)
      fun x t => op.tangent_applyRight x t c
  | scalarLeft op c e ih =>
    exact (ih composed).map (g := op.applyLeft c) (fun d => op.primal_applyLeft d c)
      fun x t => op.tangent_applyLeft x t c
  | primal e => cases composed
  | seed e => cases composed
  | branch test a b ifTrue ifFalse iha ihb ihTrue ihFalse =>
    obtain ⟨composed_a, composed_b, composed_true, composed_false⟩ := composed
    obtain ⟨x, L, ha⟩ := iha composed_a
    obtain ⟨z, M, hb⟩ := ihb composed_b
    -- The compared values are the same for every seed, and so is the side that is taken.
    have decided (v : V) :
        test.holds (a.eval (y v) (t v)) (b.eval (y v) (t v)) = true ↔ test.Relates x z := by
      have operands := test.holds_iff (a.eval (y v) (t v)) (b.eval (y v) (t v))
      rwa [show (a.eval (y v) (t v)).primal = x from congrArg Dual.primal (ha v),
        show (b.eval (y v) (t v)).primal = z from congrArg Dual.primal (hb v)] at operands
    by_cases relates : test.Relates x z
    · simp only [eval, if_pos ((decided _).mpr relates)]
      exact ihTrue composed_true
    · simp only [eval, if_neg (mt (decided _).mp relates)]
      exact ihFalse composed_false

end Seeds

namespace System
variable {s : System ℝ} {θ x : Vec ℝ}

/-- The tangents of a system are linear in the direction. -/
theorem exists_tangents_linear (composed : ∀ e ∈ s.outputs, e.Composed x.length θ.length) :
    ∃ L : (Fin x.length → ℝ) →ₗ[ℝ] Fin s.outputs.length → ℝ, ∀ v : Vec ℝ, v.length = x.length →
      Vec.coords s.outputs.length (s.tangents θ x v) = L (Vec.coords x.length v) := by
  have each (i : Fin s.outputs.length) :
      Dual.Linear fun v : Fin x.length → ℝ =>
        s.outputs[i].eval (x.zipWith Dual.mk (List.ofFn v)) (Dual.constants θ) :=
    Expr.linear (.seeded x) (.constants θ) (composed _ (List.getElem_mem i.isLt))
  choose value L hL using each
  refine ⟨LinearMap.pi L, fun v hv => funext fun i => ?_⟩
  have entry : (s.outputs[i].eval (x.zipWith Dual.mk v) (Dual.constants θ)).tangent =
      L i (Vec.coords x.length v) := by
    have seeded := congrArg Dual.tangent (hL i (Vec.coords x.length v))
    simpa only [Vec.ofFn_coords hv] using seeded
  simpa [Vec.coords, tangents] using entry

end System
end DualOpt
