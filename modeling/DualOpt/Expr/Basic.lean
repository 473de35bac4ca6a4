import DualOpt.Dual.Elementary
import DualOpt.Fault

/-!
Expressions in variables and parameters, and their value on dual numbers.

Every function written with the operations of dual numbers is the value of an expression. Only
the chosen side of a branch is evaluated.
-/
namespace DualOpt

inductive UnaryOp where
  | neg | recip | sqrt | exp | log | log1p | sin | cos | tan | atan | tanh | abs
  deriving DecidableEq, Repr

inductive BinaryOp where
  | add | sub | mul | div | max | min | hypot | pow
  deriving DecidableEq, Repr

/-- The operations between a dual number and a scalar. -/
inductive ScalarOp where
  | add | sub | mul | div
  deriving DecidableEq, Repr

inductive Comparison where
  | lt | eq
  deriving DecidableEq, Repr

inductive Expr (F : Type) where
  | const (c : F)
  | var (i : Nat)
  | param (i : Nat)
  | unary (op : UnaryOp) (e : Expr F)
  | binary (op : BinaryOp) (a b : Expr F)
  | powInt (e : Expr F) (n : Int)
  | scalarRight (op : ScalarOp) (e : Expr F) (c : F)
  | scalarLeft (op : ScalarOp) (c : F) (e : Expr F)
  /-- Forgets the tangent. -/
  | primal (e : Expr F)
  /-- Replaces the tangent by one. -/
  | seed (e : Expr F)
  | branch (test : Comparison) (a b ifTrue ifFalse : Expr F)

section Scalar
variable {F : Type} [Scalar F]

def ScalarOp.applyRight : ScalarOp → Dual F → F → Dual F
  | add, d, c => d + c
  | sub, d, c => d - c
  | mul, d, c => d * c
  | div, d, c => d / c

def ScalarOp.applyLeft : ScalarOp → F → Dual F → Dual F
  | add, c, d => c + d
  | sub, c, d => c - d
  | mul, c, d => c * d
  | div, c, d => c / d

def Comparison.holds : Comparison → Dual F → Dual F → Bool
  | lt, a, b => a < b
  | eq, a, b => a == b

/-- The sum of expressions from the left, starting at zero. -/
def Expr.sum (es : List (Expr F)) : Expr F := es.foldl (.binary .add) (.const 0)

end Scalar

variable {F : Type} [Elementary F]

def UnaryOp.apply : UnaryOp → Dual F → Dual F
  | neg => (- ·)
  | recip => Dual.recip
  | sqrt => Dual.sqrt
  | exp => Dual.exp
  | log => Dual.log
  | log1p => Dual.log1p
  | sin => Dual.sin
  | cos => Dual.cos
  | tan => Dual.tan
  | atan => Dual.atan
  | tanh => Dual.tanh
  | abs => Dual.abs

def BinaryOp.apply : BinaryOp → Dual F → Dual F → Dual F
  | add => (· + ·)
  | sub => (· - ·)
  | mul => (· * ·)
  | div => (· / ·)
  | max => Dual.max
  | min => Dual.min
  | hypot => Dual.hypot
  | pow => Dual.pow

namespace Expr

/-- The value at the variables `y` and the parameters `t`, if it is defined there. A name without
a value counts as the constant zero. -/
def eval (y t : List (Dual F)) : Expr F → Dual F
  | const c => Dual.constant c
  | var i => y.getD i (Dual.constant 0)
  | param i => t.getD i (Dual.constant 0)
  | unary op e => op.apply (e.eval y t)
  | binary op a b => op.apply (a.eval y t) (b.eval y t)
  | powInt e n => (e.eval y t).powInt n
  | scalarRight op e c => op.applyRight (e.eval y t) c
  | scalarLeft op c e => op.applyLeft c (e.eval y t)
  | primal e => Dual.constant (e.eval y t).primal
  | seed e => Dual.seed (e.eval y t).primal
  | branch test a b ifTrue ifFalse =>
    if test.holds (a.eval y t) (b.eval y t) then ifTrue.eval y t else ifFalse.eval y t

/-- Whether evaluation meets no name without a value. -/
def defined (y t : List (Dual F)) : Expr F → Bool
  | const _ => true
  | var i => i < y.length
  | param i => i < t.length
  | unary _ e => e.defined y t
  | binary _ a b => a.defined y t && b.defined y t
  | powInt e _ => e.defined y t
  | scalarRight _ e _ => e.defined y t
  | scalarLeft _ _ e => e.defined y t
  | primal e => e.defined y t
  | seed e => e.defined y t
  | branch test a b ifTrue ifFalse =>
    a.defined y t && b.defined y t &&
      if test.holds (a.eval y t) (b.eval y t) then ifTrue.defined y t else ifFalse.defined y t

/-- The value, unless its evaluation meets a name without a value. -/
def evaluate (y t : List (Dual F)) (e : Expr F) : Except Fault (Dual F) :=
  if e.defined y t then .ok (e.eval y t) else .error .indexOutOfRange

theorem evaluate_ok {y t : List (Dual F)} {e : Expr F} (h : e.defined y t) :
    e.evaluate y t = .ok (e.eval y t) := if_pos h

/-- Expressions that are all defined evaluate to the list of their values. -/
theorem mapM_evaluate {y t : List (Dual F)} {es : List (Expr F)} (h : ∀ e ∈ es, e.defined y t) :
    es.mapM (evaluate y t) = .ok (es.map (eval y t)) := by
  induction es with
  | nil => rfl
  | cons e es ih =>
    obtain ⟨he, hes⟩ := List.forall_mem_cons.mp h
    simp [List.mapM_cons, evaluate_ok he, ih hes, bind, Except.bind, pure, Except.pure]

end Expr
end DualOpt
