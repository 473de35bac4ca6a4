import Mathlib.Data.List.GetD
import DualOpt.Proofs.Exact.Coordinates
import DualOpt.Proofs.Exact.Elementary
import DualOpt.Proofs.Outcome
import DualOpt.Expr.System

/-!
What an expression means over the real numbers.

The meaning is in terms of the functions of analysis and does not mention dual numbers. It is what
evaluation computes, whatever the tangents are.
-/
namespace DualOpt

noncomputable def UnaryOp.function : UnaryOp → ℝ → ℝ
  | neg, x => -x
  | recip, x => 1 / x
  | sqrt, x => √x
  | exp, x => Real.exp x
  | log, x => Real.log x
  | log1p, x => Real.log (1 + x)
  | sin, x => Real.sin x
  | cos, x => Real.cos x
  | tan, x => Real.tan x
  | atan, x => Real.arctan x
  | tanh, x => Real.tanh x
  | abs, x => |x|

noncomputable def BinaryOp.function : BinaryOp → ℝ → ℝ → ℝ
  | add, x, y => x + y
  | sub, x, y => x - y
  | mul, x, y => x * y
  | div, x, y => x / y
  | max, x, y => Max.max x y
  | min, x, y => Min.min x y
  | hypot, x, y => √(x ^ 2 + y ^ 2)
  | pow, x, y => x ^ y

noncomputable def ScalarOp.function : ScalarOp → ℝ → ℝ → ℝ
  | add, x, y => x + y
  | sub, x, y => x - y
  | mul, x, y => x * y
  | div, x, y => x / y

def Comparison.Relates : Comparison → ℝ → ℝ → Prop
  | lt, x, y => x < y
  | eq, x, y => x = y

section Primal
variable (d e : Dual ℝ)

theorem UnaryOp.primal_apply (op : UnaryOp) : (op.apply d).primal = op.function d.primal := by
  cases op <;> rfl

theorem BinaryOp.primal_apply (op : BinaryOp) :
    (op.apply d e).primal = op.function d.primal e.primal := by
  cases op with
  | div => exact mul_one_div d.primal e.primal
  | max => exact (apply_ite Dual.primal ..).trans (max_def' ..).symm
  | min => exact (apply_ite Dual.primal ..).trans (min_def ..).symm
  | _ => rfl

theorem ScalarOp.primal_applyRight (op : ScalarOp) (c : ℝ) :
    (op.applyRight d c).primal = op.function d.primal c := by
  cases op with
  | div => exact mul_one_div d.primal c
  | _ => rfl

theorem ScalarOp.primal_applyLeft (op : ScalarOp) (c : ℝ) :
    (op.applyLeft c d).primal = op.function c d.primal := by
  cases op with
  | div => exact mul_one_div c d.primal
  | _ => rfl

theorem Dual.primal_powInt (n : ℤ) : (d.powInt n).primal = d.primal ^ n := by
  by_cases zero : n = 0
  · simp [powInt, zero, constant]
  · rw [powInt, if_neg zero]
    exact Scalar.powInt_real d.primal n

theorem Comparison.holds_iff (test : Comparison) :
    test.holds d e = true ↔ test.Relates d.primal e.primal := by
  cases test with
  | lt => exact decide_eq_true_iff
  | eq => exact beq_iff_eq (a := d.primal)

end Primal

namespace Expr

open Classical in
/-- The value at the variables `y` and the parameters `θ`. -/
noncomputable def value (y θ : Vec ℝ) : Expr ℝ → ℝ
  | const c => c
  | var i => y.getD i 0
  | param i => θ.getD i 0
  | unary op e => op.function (e.value y θ)
  | binary op a b => op.function (a.value y θ) (b.value y θ)
  | powInt e n => e.value y θ ^ n
  | scalarRight op e c => op.function (e.value y θ) c
  | scalarLeft op c e => op.function c (e.value y θ)
  | primal e => e.value y θ
  | seed e => e.value y θ
  | branch test a b ifTrue ifFalse =>
    if test.Relates (a.value y θ) (b.value y θ) then ifTrue.value y θ else ifFalse.value y θ

private theorem primal_getD (ds : List (Dual ℝ)) (i : ℕ) :
    (ds.getD i (Dual.constant 0)).primal = (ds.map Dual.primal).getD i 0 :=
  (List.getD_map ds (Dual.constant 0) Dual.primal).symm

/-- Evaluation computes the value from the primal parts alone. -/
theorem primal_eval (y t : List (Dual ℝ)) (e : Expr ℝ) :
    (e.eval y t).primal = e.value (y.map Dual.primal) (t.map Dual.primal) := by
  induction e with
  | const c => rfl
  | var i => exact primal_getD y i
  | param i => exact primal_getD t i
  | unary op e ih => rw [eval, op.primal_apply, ih, value]
  | binary op a b iha ihb => rw [eval, op.primal_apply, iha, ihb, value]
  | powInt e n ih => rw [eval, Dual.primal_powInt, ih, value]
  | scalarRight op e c ih => rw [eval, op.primal_applyRight, ih, value]
  | scalarLeft op c e ih => rw [eval, op.primal_applyLeft, ih, value]
  | primal e ih => exact ih
  | seed e ih => exact ih
  | branch test a b ifTrue ifFalse iha ihb ihTrue ihFalse =>
    have decided := test.holds_iff (a.eval y t) (b.eval y t)
    rw [iha, ihb] at decided
    rw [eval, value]
    by_cases holds : test.holds (a.eval y t) (b.eval y t)
    · rw [if_pos holds, if_pos (decided.mp holds), ihTrue]
    · rw [if_neg holds, if_neg (mt decided.mpr holds), ihFalse]

/-- Built from operations of dual numbers in `n` variables and `k` parameters, so without taking a
number apart. -/
def Composed (n k : ℕ) : Expr ℝ → Prop
  | const _ => True
  | var i => i < n
  | param i => i < k
  | unary _ e => e.Composed n k
  | binary _ a b => a.Composed n k ∧ b.Composed n k
  | powInt e _ => e.Composed n k
  | scalarRight _ e _ => e.Composed n k
  | scalarLeft _ _ e => e.Composed n k
  | primal _ => False
  | seed _ => False
  | branch _ a b ifTrue ifFalse =>
    a.Composed n k ∧ b.Composed n k ∧ ifTrue.Composed n k ∧ ifFalse.Composed n k

theorem Composed.defined {n k : ℕ} {e : Expr ℝ} (h : e.Composed n k) {y t : List (Dual ℝ)}
    (hy : y.length = n) (ht : t.length = k) : e.defined y t := by
  induction e with
  | const c => rfl
  | var i => exact decide_eq_true (hy ▸ h)
  | param i => exact decide_eq_true (ht ▸ h)
  | unary op e ih => exact ih h
  | binary op a b iha ihb => simp [Expr.defined, iha h.1, ihb h.2]
  | powInt e n ih => exact ih h
  | scalarRight op e c ih => exact ih h
  | scalarLeft op c e ih => exact ih h
  | primal e => cases h
  | seed e => cases h
  | branch test a b ifTrue ifFalse iha ihb ihTrue ihFalse =>
    obtain ⟨ha, hb, hTrue, hFalse⟩ := h
    simp [Expr.defined, iha ha, ihb hb, ihTrue hTrue, ihFalse hFalse]

end Expr

namespace System

/-- The values of the outputs. -/
noncomputable def values (s : System ℝ) (y θ : Vec ℝ) : Vec ℝ := s.outputs.map (Expr.value y θ)

theorem length_values (s : System ℝ) (y θ : Vec ℝ) : (s.values y θ).length = s.outputs.length :=
  List.length_map _

/-- A system of composed expressions is evaluated to its values. -/
theorem outputsAt_eq {s : System ℝ} {y t : List (Dual ℝ)}
    (composed : ∀ e ∈ s.outputs, e.Composed y.length t.length) :
    s.outputsAt y t = .ok (s.outputs.map (Expr.eval y t)) ∧
      (s.outputs.map (Expr.eval y t)).map Dual.primal =
        s.values (y.map Dual.primal) (t.map Dual.primal) := by
  constructor
  · exact Expr.mapM_evaluate fun e he => (composed e he).defined rfl rfl
  · rw [List.map_map, values]
    exact List.map_congr_left fun e _ => e.primal_eval y t

end System
end DualOpt
