import Mathlib.Data.List.GetD
import DualOpt.Proofs.Expr.Program
import DualOpt.Proofs.Forward.Shape

/-!
Tangents never reach a value, in any arithmetic.

Two runs of a program on numbers with the same primal parts make the same comparisons with the same
outcomes, end after the same number of them, and return the same values or the same fault. So every
pass over a point returns the values that the pass without a seed returns.
-/
namespace DualOpt

/-- Has the same primal parts; the tangents may be anything. -/
def Dual.SameValues {F : Type} (ds es : List (Dual F)) : Prop :=
  ds.map Dual.primal = es.map Dual.primal

section Operations
variable {F : Type} [Elementary F] {d d' e e' : Dual F}

theorem UnaryOp.primal_congr (op : UnaryOp) (h : d.primal = d'.primal) :
    (op.apply d).primal = (op.apply d').primal := by
  obtain ⟨x, t⟩ := d
  obtain ⟨x', t'⟩ := d'
  obtain rfl : x = x' := h
  cases op <;> rfl

theorem Dual.primal_max (d e : Dual F) :
    (d.max e).primal = if e.primal ≤ d.primal then d.primal else e.primal :=
  apply_ite Dual.primal ..

theorem Dual.primal_min (d e : Dual F) :
    (d.min e).primal = if d.primal ≤ e.primal then d.primal else e.primal :=
  apply_ite Dual.primal ..

theorem BinaryOp.primal_congr (op : BinaryOp) (hd : d.primal = d'.primal)
    (he : e.primal = e'.primal) : (op.apply d e).primal = (op.apply d' e').primal := by
  obtain ⟨x, t⟩ := d
  obtain ⟨x', t'⟩ := d'
  obtain ⟨y, u⟩ := e
  obtain ⟨y', u'⟩ := e'
  obtain rfl : x = x' := hd
  obtain rfl : y = y' := he
  cases op with
  | max => simp only [apply, Dual.primal_max]
  | min => simp only [apply, Dual.primal_min]
  | _ => rfl

theorem ScalarOp.primal_congrRight (op : ScalarOp) (h : d.primal = d'.primal) (c : F) :
    (op.applyRight d c).primal = (op.applyRight d' c).primal := by
  obtain ⟨x, t⟩ := d
  obtain ⟨x', t'⟩ := d'
  obtain rfl : x = x' := h
  cases op <;> rfl

theorem ScalarOp.primal_congrLeft (op : ScalarOp) (c : F) (h : d.primal = d'.primal) :
    (op.applyLeft c d).primal = (op.applyLeft c d').primal := by
  obtain ⟨x, t⟩ := d
  obtain ⟨x', t'⟩ := d'
  obtain rfl : x = x' := h
  cases op <;> rfl

theorem Dual.primal_powInt_congr (h : d.primal = d'.primal) (n : Int) :
    (d.powInt n).primal = (d'.powInt n).primal := by
  by_cases zero : n = 0
  · rw [powInt, powInt, if_pos zero, if_pos zero]
  · rw [powInt, powInt, if_neg zero, if_neg zero, h]
    rfl

theorem Comparison.holds_congr (test : Comparison) (hd : d.primal = d'.primal)
    (he : e.primal = e'.primal) : test.holds d e = test.holds d' e' := by
  obtain ⟨x, t⟩ := d
  obtain ⟨x', t'⟩ := d'
  obtain ⟨y, u⟩ := e
  obtain ⟨y', u'⟩ := e'
  obtain rfl : x = x' := hd
  obtain rfl : y = y' := he
  cases test <;> rfl

end Operations

namespace Dual.SameValues
variable {F : Type} {ds es : List (Dual F)}

theorem length_eq (h : SameValues ds es) : ds.length = es.length := by
  rw [← List.length_map (f := Dual.primal), h, List.length_map]

theorem getD (h : SameValues ds es) (i : ℕ) (c : Dual F) :
    (ds.getD i c).primal = (es.getD i c).primal := by
  have entry := congrArg (fun xs : List F => xs.getD i c.primal) h
  simpa only [List.getD_map] using entry

end Dual.SameValues

namespace Expr
variable {F : Type} [Elementary F] {y y' t t' : List (Dual F)}

/-- The value of an expression does not depend on tangents. -/
theorem primal_eval_congr (hy : Dual.SameValues y y') (ht : Dual.SameValues t t') (e : Expr F) :
    (e.eval y t).primal = (e.eval y' t').primal := by
  induction e with
  | const c => rfl
  | var i => exact hy.getD i _
  | param i => exact ht.getD i _
  | unary op e ih => exact op.primal_congr ih
  | binary op a b iha ihb => exact op.primal_congr iha ihb
  | powInt e n ih => exact Dual.primal_powInt_congr ih n
  | scalarRight op e c ih => exact op.primal_congrRight ih c
  | scalarLeft op c e ih => exact op.primal_congrLeft c ih
  | primal e ih => exact ih
  | seed e ih => exact ih
  | branch test a b ifTrue ifFalse iha ihb ihTrue ihFalse =>
    rw [eval, eval, test.holds_congr iha ihb]
    split
    · exact ihTrue
    · exact ihFalse

/-- Whether an expression is defined does not depend on tangents either. -/
theorem defined_congr (hy : Dual.SameValues y y') (ht : Dual.SameValues t t') (e : Expr F) :
    e.defined y t = e.defined y' t' := by
  induction e with
  | const c => rfl
  | var i => rw [defined, defined, hy.length_eq]
  | param i => rw [defined, defined, ht.length_eq]
  | unary op e ih => exact ih
  | binary op a b iha ihb => rw [defined, defined, iha, ihb]
  | powInt e n ih => exact ih
  | scalarRight op e c ih => exact ih
  | scalarLeft op c e ih => exact ih
  | primal e ih => exact ih
  | seed e ih => exact ih
  | branch test a b ifTrue ifFalse iha ihb ihTrue ihFalse =>
    rw [defined, defined, iha, ihb, ihTrue, ihFalse,
      test.holds_congr (primal_eval_congr hy ht a) (primal_eval_congr hy ht b)]

theorem evaluate_congr (hy : Dual.SameValues y y') (ht : Dual.SameValues t t') (e : Expr F) :
    (e.evaluate y t).map Dual.primal = (e.evaluate y' t').map Dual.primal := by
  rw [evaluate, evaluate, defined_congr hy ht]
  split
  · exact congrArg Except.ok (primal_eval_congr hy ht e)
  · rfl

theorem branches_congr (hy : Dual.SameValues y y') (ht : Dual.SameValues t t') (e : Expr F) :
    e.branches y t = e.branches y' t' := by
  induction e with
  | const c => rfl
  | var i => rfl
  | param i => rfl
  | unary op e ih => exact ih
  | binary op a b iha ihb => rw [branches, branches, iha, ihb]
  | powInt e n ih => exact ih
  | scalarRight op e c ih => exact ih
  | scalarLeft op c e ih => exact ih
  | primal e ih => exact ih
  | seed e ih => exact ih
  | branch test a b ifTrue ifFalse iha ihb ihTrue ihFalse =>
    rw [branches, branches, iha, ihb, ihTrue, ihFalse,
      test.holds_congr (primal_eval_congr hy ht a) (primal_eval_congr hy ht b)]

end Expr

namespace Program
variable {F : Type} [Elementary F]

/-- What of a run does not concern tangents: the sides taken and the values of the outputs. -/
def visible (result : Option (Outcome F)) : Option (List Bool × Except Fault (Vec F)) :=
  result.map fun outcome => (outcome.sides, outcome.outputs.map (·.map Dual.primal))

section Runs
variable {y y' t t' : List (Dual F)}

theorem compare_congr (hy : Dual.SameValues y y') (ht : Dual.SameValues t t') (test : Comparison)
    (a b : Expr F) : compare y t test a b = compare y' t' test a b := by
  simp only [compare, Expr.evaluate, a.defined_congr hy ht, b.defined_congr hy ht]
  by_cases ha : a.defined y' t'
  · by_cases hb : b.defined y' t'
    · have same := test.holds_congr (a.primal_eval_congr hy ht) (b.primal_eval_congr hy ht)
      simp [ha, hb, same]
    · simp [ha, hb]
  · simp [ha]

/-- Two runs on the same values take the same sides, end together and return the same values. -/
theorem visible_run_congr (p : Program F) (hy : Dual.SameValues y y')
    (ht : Dual.SameValues t t') (n : ℕ) (path : List Bool) :
    visible (p.run y t n path) = visible (p.run y' t' n path) := by
  induction n generalizing path with
  | zero => rfl
  | succ n ih =>
    cases next : p.next path with
    | outputs es =>
      have sides : Expr.branches y t = Expr.branches y' t' :=
        funext fun e => e.branches_congr hy ht
      have values : (fun e : Expr F => (e.evaluate y t).map Dual.primal) =
          fun e => (e.evaluate y' t').map Dual.primal :=
        funext fun e => e.evaluate_congr hy ht
      simp only [run_outputs next, visible, Option.map_some, map_mapM, sides, values]
    | compare test a b =>
      have same := compare_congr hy ht test a b
      cases decided : compare y' t' test a b with
      | error fault => rw [run_fault next (same.trans decided), run_fault next decided]
      | ok side =>
        rw [run_side next (same.trans decided), run_side next decided, a.branches_congr hy ht,
          b.branches_congr hy ht]
        have rest := congrArg (Option.map fun r =>
          (a.branches y' t' ++ b.branches y' t' ++ side :: r.1, r.2)) (ih (path ++ [side]))
        simp only [visible, Option.map_map] at rest ⊢
        exact rest

theorem Leads.congr {p : Program F} {path : List Bool} {es : List (Expr F)}
    (h : p.Leads y t path es) (hy : Dual.SameValues y y') (ht : Dual.SameValues t t') :
    p.Leads y' t' path es := by
  induction h with
  | outputs next => exact .outputs next
  | compare next decided _ ih =>
    rw [compare_congr hy ht] at decided
    exact .compare next decided ih

end Runs

end Program

section Passes
variable {F A : Type}

/-- The values that a function returns do not depend on tangents, nor does a fault. -/
def HidesTangents (f : List (Dual F) → Except Fault (List (Dual F))) : Prop :=
  ∀ d e, Dual.SameValues d e → (f d).map (·.map Dual.primal) = (f e).map (·.map Dual.primal)

theorem Program.Computes.hidesTangents [Elementary F] {p : Program F} {t : List (Dual F)}
    {f : List (Dual F) → Except Fault (List (Dual F))} (h : p.Computes t f) : HidesTangents f := by
  intro d e same
  obtain ⟨m, path, hd⟩ := h d
  obtain ⟨n, path', he⟩ := h e
  have both := p.visible_run_congr same (rfl : Dual.SameValues t t) (m + n) []
  rw [p.run_add hd, Nat.add_comm, p.run_add he] at both
  exact congrArg Prod.snd (Option.some.inj both)

variable [Scalar F]

theorem Dual.sameValues_seeded {x v : Vec F} (same : x.length = v.length) :
    Dual.SameValues (x.zipWith Dual.mk v) (Dual.constants x) := by
  refine List.ext_getElem (by simp [constants, same]) fun i hi hj => ?_
  simp [constants, constant]

theorem Dual.sameValues_seedAt (x : Vec F) (j : ℕ) :
    Dual.SameValues (Dual.seedAt x j) (Dual.constants x) :=
  sameValues_seeded (by simp [Vec.unit])

variable {f : List (Dual F) → Except Fault (List (Dual F))}

/-- A seeded pass returns the values of the pass without a seed, or the same fault. -/
theorem HidesTangents.jvp_values (hides : HidesTangents f) {x v : Vec F}
    (same : x.length = v.length) : (jvp f x v).map Prod.fst = evaluate f x := by
  have values := hides _ _ (Dual.sameValues_seeded same)
  rw [jvp, if_pos same, evaluate]
  cases hv : f (x.zipWith Dual.mk v) with
  | error fault =>
    cases hx : f (Dual.constants x) <;> simp_all
  | ok outputs =>
    cases hx : f (Dual.constants x) <;> simp_all

/-- All the passes of a linearisation succeed if the first one does. -/
theorem HidesTangents.linearise_values {r : VectorFn F A}
    (hides : HidesTangents fun d => (r d).map Prod.fst) (x : Vec F) :
    (linearise r x).map (·.values) = (Residual.evaluate r x).map Prod.fst := by
  cases hx : r (Dual.constants x) with
  | error fault => simp [linearise, Residual.evaluate, hx]
  | ok p =>
    have passes (j : ℕ) : ∃ outputs last, r (Dual.seedAt x j) = .ok (outputs, last) ∧
        outputs.map Dual.primal = p.1.map Dual.primal := by
      have values := hides _ _ (Dual.sameValues_seedAt x j)
      cases hj : r (Dual.seedAt x j) with
      | error fault => simp [hx, hj] at values
      | ok q => exact ⟨q.1, q.2, rfl, by simpa [hx, hj] using values⟩
    choose pass last hpass values using passes
    have size (j : ℕ) : (pass j).length = p.1.length := by
      rw [← List.length_map (f := Dual.primal), values, List.length_map]
    rw [linearise_eq hx (fun j _ => ⟨last j, hpass j⟩) fun j _ => size j]
    simp [Residual.evaluate, hx]

theorem Residual.evaluate_values (r : Residual F A) (x : Vec F) :
    (r.evaluate x).map Prod.fst = DualOpt.evaluate (fun d => (r d).map Prod.fst) x := by
  simp only [evaluate, DualOpt.evaluate]
  cases r (Dual.constants x) <;> rfl

/-- The outputs of a function with the empty payload are those of the function. -/
theorem map_fst_emptyPayload {F : Type} (f : List (Dual F) → Except Fault (List (Dual F))) :
    (fun d => (do return (← f d, ()) : Except Fault _).map Prod.fst) = f := by
  funext d
  cases f d <;> rfl

theorem HidesTangents.jacobian_values (hides : HidesTangents f) (x : Vec F) :
    (jacobian f x).map Prod.fst = evaluate f x := by
  have bare := map_fst_emptyPayload f
  have values := linearise_values (r := fun d => do return (← f d, ())) (by rwa [bare]) x
  rw [Residual.evaluate_values, bare] at values
  rw [← values, jacobian]
  cases linearise (fun d => do return (← f d, ())) x <;> rfl

end Passes

/-- Returns what a program returns, beside any payload. -/
def Residual.ComputedBy {F A : Type} [Elementary F] (r : Residual F A) (p : Program F)
    (t : List (Dual F)) : Prop :=
  p.Computes t fun d => (r d).map Prod.fst

section Systems
variable {F : Type} [Elementary F]

theorem System.map_fst_residual (s : System F) (single : s.payload = none) (t d : List (Dual F)) :
    (s.residual t d).map Prod.fst = s.outputsAt d t := by
  rw [residual, payloadAt, single]
  cases s.outputsAt d t <;> rfl

theorem System.computedBy_ofSystem (s : System F) (single : s.payload = none)
    (t : List (Dual F)) : (s.residual t).ComputedBy (.ofSystem s) t := by
  rw [Residual.ComputedBy, funext (s.map_fst_residual single t)]
  exact Program.computes_ofSystem s t

end Systems

/-- Tangents never reach a value. Whatever the seeds are, a program takes the same branches on them
and returns as many outputs with the same values, and each pass over a point returns the values of
the pass without a seed, or its fault. -/
theorem Program.values_independent {F A : Type} [Elementary F] (p : Program F) (θ : List (Dual F))
    {r : Residual F A} (computed : r.ComputedBy p θ) (x : Vec F) :
    (∀ v w : Vec F, x.length = v.length → x.length = w.length → ∀ n,
      visible (p.run (x.zipWith Dual.mk v) θ n []) =
        visible (p.run (x.zipWith Dual.mk w) θ n [])) ∧
    (∀ v : Vec F, x.length = v.length →
      (jvp (fun d => (r d).map Prod.fst) x v).map Prod.fst =
        evaluate (fun d => (r d).map Prod.fst) x) ∧
    (jacobian (fun d => (r d).map Prod.fst) x).map Prod.fst =
      evaluate (fun d => (r d).map Prod.fst) x ∧
    (r.evaluate x).map Prod.fst = evaluate (fun d => (r d).map Prod.fst) x ∧
    (linearise r x).map (·.values) = evaluate (fun d => (r d).map Prod.fst) x := by
  have hides := computed.hidesTangents
  refine ⟨fun v w hv hw n => ?_, fun v => hides.jvp_values, hides.jacobian_values x,
    r.evaluate_values x, (hides.linearise_values x).trans (r.evaluate_values x)⟩
  have same : Dual.SameValues (x.zipWith Dual.mk v) (x.zipWith Dual.mk w) :=
    (Dual.sameValues_seeded hv).trans (Dual.sameValues_seeded hw).symm
  exact p.visible_run_congr same rfl n []

/-- A number after so many doublings. -/
def timesTwo : ℕ → Expr Float
  | 0 => .var 0
  | n + 1 => .binary .add (timesTwo n) (timesTwo n)

/-- Doubles a number while it is below ten, at most three times. A number that was doubled comes with
its root. -/
def doubling : Program Float where
  next path :=
    let e := timesTwo (path.count true)
    if path.length < 3 ∧ path.all id then .compare .lt e (.const 10)
    else if path.head? = some true then .outputs [e, .unary .sqrt e]
    else .outputs [e]

/-- The results of the loop, and how many they are. -/
def doubled : Residual Float ℕ := fun d => do
  let outputs ← doubling.upTo [] 3 d
  return (outputs, outputs.length)

/-- A seed that is not a number and an infinite one leave the loop and its outputs as they are. -/
theorem Program.values_independent_doubling :
    doubled.ComputedBy doubling [] ∧
    (∀ n, visible (doubling.run [⟨3, 0 / 0⟩] [] n []) =
      visible (doubling.run [⟨3, 1 / 0⟩] [] n [])) ∧
    (jvp (fun d => (doubled d).map Prod.fst) [3] [0 / 0]).map Prod.fst =
      evaluate (fun d => (doubled d).map Prod.fst) [3] ∧
    (linearise doubled [3]).map (·.values) = evaluate (fun d => (doubled d).map Prod.fst) [3] := by
  have computed : doubled.ComputedBy doubling [] := by
    have outputs : (fun d => (doubled d).map Prod.fst) = doubling.upTo [] 3 := by
      funext d
      rw [doubled]
      cases doubling.upTo [] 3 d <;> rfl
    rw [Residual.ComputedBy, outputs]
    refine doubling.computes_upTo [] fun path long => ?_
    have stops : ¬ (path.length < 3 ∧ path.all id) := fun h => by omega
    simp only [doubling, if_neg stops]
    split <;> exact ⟨_, rfl⟩
  obtain ⟨branches, passes, -, -, linearised⟩ := doubling.values_independent [] computed [3]
  exact ⟨computed, branches [0 / 0] [1 / 0] rfl rfl, passes [0 / 0] rfl, linearised⟩

end DualOpt
