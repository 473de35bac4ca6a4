import Mathlib.Analysis.Calculus.Deriv.Abs
import Mathlib.Analysis.Calculus.Deriv.ZPow
import Mathlib.Analysis.SpecialFunctions.Pow.Deriv
import Mathlib.Analysis.SpecialFunctions.Trigonometric.ArctanDeriv
import Mathlib.Analysis.SpecialFunctions.Trigonometric.DerivHyp
import DualOpt.Proofs.Expr.Meaning
import DualOpt.Proofs.Forward.Powers

/-!
Forward mode computes derivatives, over the real numbers.

A dual number follows a curve if it holds the value and the derivative of the curve at zero. Every
operation keeps this inside its domain of differentiability, and so does every composition of
operations that stays inside these domains as it is evaluated.
-/
namespace DualOpt

open Filter Topology

/-- Where an operation is differentiable, with room on all sides. -/
def UnaryOp.Interior : UnaryOp → ℝ → Prop
  | recip, x => x ≠ 0
  | sqrt, x => 0 < x
  | log, x => 0 < x
  | log1p, x => 0 < 1 + x
  | tan, x => Real.cos x ≠ 0
  | abs, x => x ≠ 0
  | _, _ => True

def BinaryOp.Interior : BinaryOp → ℝ → ℝ → Prop
  | div, _, y => y ≠ 0
  | max, x, y => x ≠ y
  | min, x, y => x ≠ y
  | hypot, x, y => x ≠ 0 ∨ y ≠ 0
  | pow, x, _ => 0 < x
  | _, _, _ => True

/-- Only the second operand can be outside of a domain. -/
def ScalarOp.Interior : ScalarOp → ℝ → Prop
  | div, y => y ≠ 0
  | _, _ => True

open Classical in
/-- Whether every operation that evaluation meets is applied inside its domain. Compared operands
differ, so `≤` decides as `<` does, and the other comparisons are these two with the operands or the
sides exchanged. A power to the least exponent has no domain, because there is no exponent below it
to take the slope from. -/
def Expr.Interior (y θ : Vec ℝ) : Expr ℝ → Prop
  | const _ => True
  | var _ => True
  | param _ => True
  | unary op e => e.Interior y θ ∧ op.Interior (e.value y θ)
  | binary op a b => a.Interior y θ ∧ b.Interior y θ ∧ op.Interior (a.value y θ) (b.value y θ)
  | powInt e n =>
    e.Interior y θ ∧ n ≠ Int32.minValue.toInt ∧ (e.value y θ ≠ 0 ∨ 0 ≤ n)
  | scalarRight op e c => e.Interior y θ ∧ op.Interior c
  | scalarLeft op _ e => e.Interior y θ ∧ op.Interior (e.value y θ)
  | primal e => e.Interior y θ
  | seed e => e.Interior y θ
  | branch test a b ifTrue ifFalse =>
    a.Interior y θ ∧ b.Interior y θ ∧ a.value y θ ≠ b.value y θ ∧
      if test.Relates (a.value y θ) (b.value y θ) then ifTrue.Interior y θ else ifFalse.Interior y θ

/-- Holds the value and the derivative of a curve at zero. -/
structure Dual.Follows (d : Dual ℝ) (u : ℝ → ℝ) : Prop where
  primal : d.primal = u 0
  tangent : HasDerivAt u d.tangent 0

namespace Dual.Follows
variable {d e : Dual ℝ} {u w : ℝ → ℝ}

theorem constant (c : ℝ) : (Dual.constant c).Follows fun _ => c :=
  ⟨rfl, hasDerivAt_const 0 c⟩

/-- Only the curve near zero matters. -/
theorem congr (h : d.Follows u) (near : w =ᶠ[𝓝 0] u) : d.Follows w :=
  ⟨h.primal.trans near.eq_of_nhds.symm, h.tangent.congr_of_eventuallyEq near⟩

theorem eventually_lt (hd : d.Follows u) (he : e.Follows w) (lt : d.primal < e.primal) :
    ∀ᶠ t in 𝓝 0, u t < w t := by
  rw [hd.primal, he.primal] at lt
  exact hd.tangent.continuousAt.eventually_lt he.tangent.continuousAt lt

theorem chain (h : d.Follows u) {f : ℝ → ℝ} {slope : ℝ} (hf : HasDerivAt f slope d.primal) :
    (d.chain (f d.primal) slope).Follows fun t => f (u t) := by
  constructor
  · exact congrArg f h.primal
  · rw [h.primal] at hf
    exact (hf.comp 0 h.tangent).congr_deriv (mul_comm slope d.tangent)

end Dual.Follows

section Operations
variable {d e : Dual ℝ} {u w : ℝ → ℝ}

private theorem hasDerivAt_tanh (x : ℝ) :
    HasDerivAt Real.tanh (1 - Real.tanh x * Real.tanh x) x := by
  have positive : Real.cosh x ≠ 0 := (Real.cosh_pos x).ne'
  have quotient := (Real.hasDerivAt_sinh x).div (Real.hasDerivAt_cosh x) positive
  have function : Real.tanh = Real.sinh / Real.cosh :=
    funext fun x => Real.tanh_eq_sinh_div_cosh x
  rw [function]
  refine quotient.congr_deriv ?_
  simp only [Pi.div_apply]
  field_simp

/-- The slope of an operation is its derivative. -/
theorem UnaryOp.follows (op : UnaryOp) (h : d.Follows u) (interior : op.Interior d.primal) :
    (op.apply d).Follows fun t => op.function (u t) := by
  cases op with
  | neg => exact ⟨congrArg Neg.neg h.primal, h.tangent.neg⟩
  | recip =>
    refine h.chain (f := fun x => 1 / x) ?_
    simp only [one_div]
    refine (hasDerivAt_inv interior).congr_deriv ?_
    rw [sq, mul_inv, neg_mul]
  | sqrt =>
    refine h.chain ((Real.hasDerivAt_sqrt interior.ne').congr_deriv ?_)
    norm_num
  | exp => exact h.chain (Real.hasDerivAt_exp d.primal)
  | log => exact h.chain ((Real.hasDerivAt_log interior.ne').congr_deriv (one_div _).symm)
  | log1p =>
    have shifted : HasDerivAt (fun x : ℝ => 1 + x) 1 d.primal := (hasDerivAt_id _).const_add 1
    exact h.chain (shifted.log interior.ne')
  | sin => exact h.chain (Real.hasDerivAt_sin d.primal)
  | cos => exact h.chain (Real.hasDerivAt_cos d.primal)
  | tan => exact h.chain ((Real.hasDerivAt_tan interior).congr_deriv (by rw [sq]; rfl))
  | atan => exact h.chain ((Real.hasDerivAt_arctan d.primal).congr_deriv (by rw [sq]))
  | tanh => exact h.chain (hasDerivAt_tanh d.primal)
  | abs =>
    refine h.chain ?_
    rcases lt_or_gt_of_ne interior with negative | positive
    · exact (hasDerivAt_abs_neg negative).congr_deriv (if_pos negative).symm
    · exact (hasDerivAt_abs_pos positive).congr_deriv (if_neg positive.not_gt).symm

theorem Dual.max_of_lt (lt : d.primal < e.primal) : d.max e = e := if_neg lt.not_ge

theorem Dual.max_of_gt (gt : e.primal < d.primal) : d.max e = d := if_pos gt.le

theorem Dual.min_of_lt (lt : d.primal < e.primal) : d.min e = d := if_pos lt.le

theorem Dual.min_of_gt (gt : e.primal < d.primal) : d.min e = e := if_neg gt.not_ge

/-- Two operands that differ keep their order near zero. -/
theorem Dual.Follows.max (hd : d.Follows u) (he : e.Follows w) (apart : d.primal ≠ e.primal) :
    (d.max e).Follows fun t => Max.max (u t) (w t) := by
  rcases lt_or_gt_of_ne apart with lt | gt
  · rw [Dual.max_of_lt lt]
    exact he.congr ((hd.eventually_lt he lt).mono fun t ht => max_eq_right ht.le)
  · rw [Dual.max_of_gt gt]
    exact hd.congr ((he.eventually_lt hd gt).mono fun t ht => max_eq_left ht.le)

theorem Dual.Follows.min (hd : d.Follows u) (he : e.Follows w) (apart : d.primal ≠ e.primal) :
    (d.min e).Follows fun t => Min.min (u t) (w t) := by
  rcases lt_or_gt_of_ne apart with lt | gt
  · rw [Dual.min_of_lt lt]
    exact hd.congr ((hd.eventually_lt he lt).mono fun t ht => min_eq_left ht.le)
  · rw [Dual.min_of_gt gt]
    exact he.congr ((he.eventually_lt hd gt).mono fun t ht => min_eq_right ht.le)

theorem Dual.Follows.mul (hd : d.Follows u) (he : e.Follows w) :
    (d * e).Follows fun t => u t * w t := by
  refine ⟨congrArg₂ (· * ·) hd.primal he.primal, (hd.tangent.mul he.tangent).congr_deriv ?_⟩
  rw [← hd.primal, ← he.primal]
  exact add_comm _ _

theorem Dual.Follows.div (hd : d.Follows u) (he : e.Follows w) (nonzero : e.primal ≠ 0) :
    (d / e).Follows fun t => u t / w t := by
  constructor
  · rw [← hd.primal, ← he.primal]
    exact mul_one_div d.primal e.primal
  · rw [he.primal] at nonzero
    refine (hd.tangent.div he.tangent nonzero).congr_deriv ?_
    calc (d.tangent * w 0 - u 0 * e.tangent) / w 0 ^ 2
        = (d.tangent * w 0 - u 0 * e.tangent) * (1 / w 0) * (1 / w 0) := by field_simp
      _ = (d / e).tangent := by rw [← hd.primal, ← he.primal]; rfl

theorem Dual.Follows.hypot (hd : d.Follows u) (he : e.Follows w)
    (away : d.primal ≠ 0 ∨ e.primal ≠ 0) : (d.hypot e).Follows fun t => √(u t ^ 2 + w t ^ 2) := by
  rw [hd.primal, he.primal] at away
  have positive : u 0 ^ 2 + w 0 ^ 2 ≠ 0 := by
    rcases away with h | h <;> positivity
  have slope : HasDerivAt (fun t => u t ^ 2 + w t ^ 2)
      (2 * (u 0 * d.tangent + w 0 * e.tangent)) 0 := by
    refine ((hd.tangent.pow 2).add (he.tangent.pow 2)).congr_deriv ?_
    norm_num
    ring
  constructor
  · simp only [Dual.hypot, Elementary.hypot, hd.primal, he.primal]
  · refine (slope.sqrt positive).congr_deriv ?_
    simp only [Dual.hypot, Elementary.hypot, hd.primal, he.primal]
    exact mul_div_mul_left _ _ two_ne_zero

/-- With a constant exponent the logarithm has no part in the slope. -/
theorem Dual.Follows.pow (hd : d.Follows u) (he : e.Follows w) (positive : 0 < d.primal) :
    (d.pow e).Follows fun t => u t ^ w t := by
  rw [hd.primal] at positive
  have exponent : (if e.tangent == 0 then 0 else e.tangent * Real.log (u 0)) =
      e.tangent * Real.log (u 0) := by
    split
    · next still => rw [eq_of_beq still, zero_mul]
    · rfl
  constructor
  · simp only [Dual.pow, Elementary.pow, hd.primal, he.primal]
  · refine (hd.tangent.rpow he.tangent positive).congr_deriv ?_
    simp only [Dual.pow, Elementary.pow, Elementary.log, hd.primal, he.primal]
    rw [Real.rpow_sub_one positive.ne', exponent]
    ring

theorem BinaryOp.follows (op : BinaryOp) (hd : d.Follows u) (he : e.Follows w)
    (interior : op.Interior d.primal e.primal) :
    (op.apply d e).Follows fun t => op.function (u t) (w t) := by
  cases op with
  | add => exact ⟨congrArg₂ (· + ·) hd.primal he.primal, hd.tangent.add he.tangent⟩
  | sub => exact ⟨congrArg₂ (· - ·) hd.primal he.primal, hd.tangent.sub he.tangent⟩
  | mul => exact hd.mul he
  | div => exact hd.div he interior
  | max => exact hd.max he interior
  | min => exact hd.min he interior
  | hypot => exact hd.hypot he interior
  | pow => exact hd.pow he interior

theorem ScalarOp.followsRight (op : ScalarOp) (h : d.Follows u) {c : ℝ} (interior : op.Interior c) :
    (op.applyRight d c).Follows fun t => op.function (u t) c := by
  cases op with
  | add => exact ⟨congrArg (· + c) h.primal, h.tangent.add_const c⟩
  | sub => exact ⟨congrArg (· - c) h.primal, h.tangent.sub_const c⟩
  | mul => exact ⟨congrArg (· * c) h.primal, h.tangent.mul_const c⟩
  | div =>
    exact ⟨(mul_one_div d.primal c).trans (congrArg (· / c) h.primal),
      (h.tangent.div_const c).congr_deriv (mul_one_div d.tangent c).symm⟩

theorem ScalarOp.followsLeft (op : ScalarOp) (h : d.Follows u) {c : ℝ}
    (interior : op.Interior d.primal) :
    (op.applyLeft c d).Follows fun t => op.function c (u t) := by
  cases op with
  | add => exact ⟨congrArg (c + ·) h.primal, h.tangent.const_add c⟩
  | sub => exact ⟨congrArg (c - ·) h.primal, h.tangent.const_sub c⟩
  | mul => exact ⟨congrArg (c * ·) h.primal, h.tangent.const_mul c⟩
  | div =>
    rw [h.primal] at interior
    refine ⟨(mul_one_div c d.primal).trans (congrArg (c / ·) h.primal), ?_⟩
    refine ((hasDerivAt_const 0 c).div h.tangent interior).congr_deriv ?_
    calc (0 * u 0 - c * d.tangent) / u 0 ^ 2
        = -c * d.tangent * (1 / u 0) * (1 / u 0) := by field_simp; ring
      _ = (c / d).tangent := by rw [← h.primal]; rfl

theorem Dual.Follows.powInt (h : d.Follows u) {n : ℤ} (above : n ≠ Int32.minValue.toInt)
    (interior : d.primal ≠ 0 ∨ 0 ≤ n) : (d.powInt n).Follows fun t => u t ^ n := by
  by_cases zero : n = 0
  · rw [Dual.powInt, if_pos zero, zero]
    exact (constant 1).congr (.of_forall fun t => zpow_zero (u t))
  · rw [Dual.powInt, if_neg zero, powIntSlope, exponentBelow_of_ne above, Scalar.powInt_real,
      Scalar.powInt_real]
    exact h.chain (hasDerivAt_zpow n d.primal interior)

/-- Operands that differ compare in the same way near zero. -/
theorem Comparison.eventually_relates_iff (test : Comparison) (hd : d.Follows u)
    (he : e.Follows w) (apart : d.primal ≠ e.primal) :
    ∀ᶠ t in 𝓝 0, test.Relates (u t) (w t) ↔ test.holds d e = true := by
  simp only [test.holds_iff]
  rcases lt_or_gt_of_ne apart with lt | gt
  · filter_upwards [hd.eventually_lt he lt] with t ht
    cases test with
    | lt => exact iff_of_true ht lt
    | eq => exact iff_of_false ht.ne lt.ne
  · filter_upwards [he.eventually_lt hd gt] with t ht
    cases test with
    | lt => exact iff_of_false ht.not_gt gt.not_gt
    | eq => exact iff_of_false ht.ne' gt.ne'

end Operations

/-- The entries follow those of a curve of vectors; beyond the end of either all is zero. -/
def Dual.EachFollows (ds : List (Dual ℝ)) (u : ℝ → Vec ℝ) : Prop :=
  ∀ i, (ds.getD i (constant 0)).Follows fun t => (u t).getD i 0

namespace Dual.EachFollows
variable {ds : List (Dual ℝ)} {u : ℝ → Vec ℝ}

theorem constants (x : Vec ℝ) : EachFollows (Dual.constants x) fun _ => x := by
  intro i
  rw [Dual.constants, List.getD_map]
  exact .constant (x.getD i 0)

/-- A seeded point follows the line through it in the seeded direction. -/
theorem line {x v : Vec ℝ} (same : x.length = v.length) :
    EachFollows (x.zipWith Dual.mk v) fun t => Vec.axpy t v x := by
  intro i
  by_cases hi : i < x.length
  · have entry (t : ℝ) : (Vec.axpy t v x).getD i 0 = x[i] + t * v[i] := by
      simp [Vec.axpy, hi, same ▸ hi]
    have seeded : (x.zipWith Dual.mk v).getD i (constant 0) = ⟨x[i], v[i]⟩ := by
      simp [hi, same ▸ hi]
    simp only [entry, seeded]
    refine ⟨by simp, ?_⟩
    simpa using ((hasDerivAt_id (0 : ℝ)).mul_const v[i]).const_add x[i]
  · have entry (t : ℝ) : (Vec.axpy t v x).getD i 0 = 0 := by simp [Vec.axpy, hi]
    have seeded : (x.zipWith Dual.mk v).getD i (constant 0) = constant 0 := by simp [hi]
    simp only [entry, seeded]
    exact .constant 0

end Dual.EachFollows

namespace Expr

/-- Evaluation carries along the value of an expression and its derivative. -/
theorem follows {n k : ℕ} {y t : List (Dual ℝ)} {u θ : ℝ → Vec ℝ} (hy : Dual.EachFollows y u)
    (ht : Dual.EachFollows t θ) {e : Expr ℝ} (composed : e.Composed n k)
    (interior : e.Interior (u 0) (θ 0)) :
    (e.eval y t).Follows fun s => e.value (u s) (θ s) := by
  induction e with
  | const c => exact .constant c
  | var i => exact hy i
  | param i => exact ht i
  | unary op e ih =>
    have operand := ih composed interior.1
    exact op.follows operand (operand.primal ▸ interior.2)
  | binary op a b iha ihb =>
    have first := iha composed.1 interior.1
    have second := ihb composed.2 interior.2.1
    refine op.follows first second ?_
    rw [first.primal, second.primal]
    exact interior.2.2
  | powInt e n ih =>
    have base := ih composed interior.1
    exact base.powInt interior.2.1 (base.primal ▸ interior.2.2)
  | scalarRight op e c ih => exact op.followsRight (ih composed interior.1) interior.2
  | scalarLeft op c e ih =>
    have operand := ih composed interior.1
    exact op.followsLeft operand (operand.primal ▸ interior.2)
  | primal e => cases composed
  | seed e => cases composed
  | branch test a b ifTrue ifFalse iha ihb ihTrue ihFalse =>
    obtain ⟨composed_a, composed_b, composed_true, composed_false⟩ := composed
    obtain ⟨interior_a, interior_b, apart, chosen⟩ := interior
    have first := iha composed_a interior_a
    have second := ihb composed_b interior_b
    rw [← first.primal, ← second.primal] at apart
    -- The side that is evaluated is the one that the curve takes near zero.
    have decided := test.eventually_relates_iff first second apart
    have decided_here := decided.self_of_nhds
    rw [eval]
    by_cases holds : test.holds (a.eval y t) (b.eval y t)
    · rw [if_pos (decided_here.mpr holds)] at chosen
      rw [if_pos holds]
      exact (ihTrue composed_true chosen).congr (decided.mono fun s hs => if_pos (hs.mpr holds))
    · rw [if_neg (mt decided_here.mp holds)] at chosen
      rw [if_neg holds]
      exact (ihFalse composed_false chosen).congr
        (decided.mono fun s hs => if_neg (mt hs.mp holds))

end Expr

namespace Dual

theorem map_primal_constants (x : Vec ℝ) : (constants x).map primal = x := by
  rw [constants, List.map_map]
  exact List.map_id x

theorem map_primal_seeded {x v : Vec ℝ} (same : x.length = v.length) :
    (x.zipWith Dual.mk v).map primal = x :=
  List.ext_getElem (by simp [same]) fun i hi hj => by simp

end Dual

namespace System

/-- The tangents of the outputs in a pass from `x` along `v`. -/
noncomputable def tangents (s : System ℝ) (θ x v : Vec ℝ) : Vec ℝ :=
  s.outputs.map fun e => (e.eval (x.zipWith Dual.mk v) (Dual.constants θ)).tangent

theorem length_tangents (s : System ℝ) (θ x v : Vec ℝ) :
    (s.tangents θ x v).length = s.outputs.length := List.length_map _

/-- A seeded pass returns the values and the tangents. -/
theorem outputsAt_seeded (s : System ℝ) {θ x v : Vec ℝ} (same : x.length = v.length)
    (composed : ∀ e ∈ s.outputs, e.Composed x.length θ.length) :
    ∃ outputs, s.outputsAt (x.zipWith Dual.mk v) (Dual.constants θ) = .ok outputs ∧
      outputs.map Dual.primal = s.values x θ ∧ outputs.map Dual.tangent = s.tangents θ x v := by
  have arity : (x.zipWith Dual.mk v).length = x.length := by simp [same]
  have parameters : (Dual.constants θ).length = θ.length := List.length_map _
  obtain ⟨hvalue, hprimal⟩ := s.outputsAt_eq (y := x.zipWith Dual.mk v) (t := Dual.constants θ)
    (by rwa [arity, parameters])
  rw [Dual.map_primal_seeded same, Dual.map_primal_constants] at hprimal
  exact ⟨_, hvalue, hprimal, List.map_map⟩

/-- The tangents are the derivative of the values along the direction. -/
theorem hasDerivAt_values (s : System ℝ) {θ x v : Vec ℝ} (same : x.length = v.length)
    (composed : ∀ e ∈ s.outputs, e.Composed x.length θ.length)
    (interior : ∀ e ∈ s.outputs, e.Interior x θ) :
    HasDerivAt (fun t => Vec.coords s.outputs.length (s.values (Vec.axpy t v x) θ))
      (Vec.coords s.outputs.length (s.tangents θ x v)) 0 := by
  rw [hasDerivAt_pi]
  intro i
  have mem : s.outputs[i] ∈ s.outputs := List.getElem_mem i.isLt
  have start : Vec.axpy 0 v x = x := Vec.axpy_zero same.symm
  have follows := Expr.follows (.line same) (.constants θ) (composed _ mem)
    (by rw [start]; exact interior _ mem)
  simpa [Vec.coords, values, tangents] using follows.tangent

end System
end DualOpt
