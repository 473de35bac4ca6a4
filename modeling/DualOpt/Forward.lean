import DualOpt.Dual.Elementary
import DualOpt.Fault
import DualOpt.Linear.Rows

/-!
Forward-mode differentiation of functions on vectors of dual numbers.

One evaluation with tangents `v` yields the value and the derivative along `v`. A Jacobian takes
one evaluation with zero tangents, which fixes the values, the payload and the number of outputs,
and one further evaluation for each unit direction. A function faults where it has no value, and
so does every evaluation that meets such a point.
-/
namespace DualOpt

/-- A function of a dual vector that also returns a payload which is not differentiated. -/
abbrev VectorFn (F A : Type) := List (Dual F) → Except Fault (List (Dual F) × A)

variable {F : Type} [Scalar F] {A : Type}

/-- Pairs a point with a direction of the same length. -/
def Dual.seeded (x v : Vec F) : Except Fault (List (Dual F)) :=
  if x.length = v.length then .ok (x.zipWith Dual.mk v) else .error .directionLength

/-- The point `x` with unit tangent in coordinate `j` and zero tangent elsewhere. -/
def Dual.seedAt (x : Vec F) (j : Nat) : List (Dual F) := x.zipWith Dual.mk (Vec.unit x.length j)

/-- The outputs of `f` at `x`. -/
def evaluate (f : List (Dual F) → Except Fault (List (Dual F))) (x : Vec F) :
    Except Fault (Vec F) := do
  return (← f (Dual.constants x)).map Dual.primal

/-- The outputs of `f` at `x` with their derivatives along `v`. -/
def jvp (f : List (Dual F) → Except Fault (List (Dual F))) (x v : Vec F) :
    Except Fault (Vec F × Vec F) :=
  if x.length = v.length then do
    let outputs ← f (x.zipWith Dual.mk v)
    return (outputs.map Dual.primal, outputs.map Dual.tangent)
  else .error .tangentLength

/-- What one linearisation of a function yields. The Jacobian has a row per output. -/
structure Linearisation (F A : Type) where
  values : Vec F
  jacobian : Rows F
  payload : A

/-- The derivatives of all outputs along coordinate `j`, if there are `m` of them. -/
def tangentsAlong (f : VectorFn F A) (x : Vec F) (m j : Nat) : Except Fault (Vec F) := do
  let (outputs, _) ← f (Dual.seedAt x j)
  if outputs.length = m then return outputs.map Dual.tangent
  else throw (.outputDimension outputs.length m)

/-- Values, Jacobian and payload of `f` at `x`. It fails if a seeded evaluation has another number
of outputs than the unseeded one. -/
def linearise (f : VectorFn F A) (x : Vec F) : Except Fault (Linearisation F A) := do
  let (outputs, payload) ← f (Dual.constants x)
  let columns ← (List.range x.length).mapM (tangentsAlong f x outputs.length)
  return ⟨outputs.map Dual.primal, Rows.columns outputs.length columns, payload⟩

def jacobian (f : List (Dual F) → Except Fault (List (Dual F))) (x : Vec F) :
    Except Fault (Vec F × Rows F) := do
  let l ← linearise (fun d => do return (← f d, ())) x
  return (l.values, l.jacobian)

/-- A scalar function of a dual vector, with a payload. -/
abbrev ScalarFn (F A : Type) := List (Dual F) → Except Fault (Dual F × A)

/-- Value, gradient and payload of a scalar function. -/
structure Gradient (F A : Type) where
  value : F
  gradient : Vec F
  payload : A

/-- The derivative of a scalar function along coordinate `j`. -/
def tangentAlong (f : ScalarFn F A) (x : Vec F) (j : Nat) : Except Fault F := do
  return (← f (Dual.seedAt x j)).1.tangent

/-- Value, gradient and payload of `f` at `x`. A scalar function has one output in every
evaluation, so the number of outputs cannot change. -/
def gradientWith (f : ScalarFn F A) (x : Vec F) : Except Fault (Gradient F A) := do
  let (d, payload) ← f (Dual.constants x)
  let gradient ← (List.range x.length).mapM (tangentAlong f x)
  return ⟨d.primal, gradient, payload⟩

def gradient (f : List (Dual F) → Except Fault (Dual F)) (x : Vec F) :
    Except Fault (F × Vec F) := do
  let g ← gradientWith (fun d => do return (← f d, ())) x
  return (g.value, g.gradient)

/-- A scalar function with a value everywhere has a gradient everywhere. -/
theorem gradientWith_ok (f : List (Dual F) → Dual F × A) (x : Vec F) :
    gradientWith (fun d => .ok (f d)) x =
      .ok ⟨(f (Dual.constants x)).1.primal,
        (List.range x.length).map fun j => (f (Dual.seedAt x j)).1.tangent,
        (f (Dual.constants x)).2⟩ := by
  have passes : (List.range x.length).mapM (tangentAlong (fun d => .ok (f d)) x) =
      .ok ((List.range x.length).map fun j => (f (Dual.seedAt x j)).1.tangent) :=
    List.mapM_pure
  simp [gradientWith, passes, bind, Except.bind, pure, Except.pure]

end DualOpt
