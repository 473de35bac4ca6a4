import DualOpt.Proofs.Forward.Independence
import DualOpt.Proofs.SignedZero

/-!
The derivative with respect to a variable that an output does not mention, in floating point.

All tangents that such an output is computed from are zeros. An operation multiplies them by its
slopes, which may be infinite where its value is finite: it leaves a zero of either sign if they are
finite, and what is not a number if one of them is not.
-/
namespace DualOpt

/-- What becomes of a vanishing tangent: a zero as long as all is regular, and from then on what is
not a number. -/
structure Settled {F : Type} [Scalar F] (regular : Bool) (t : F) : Prop where
  zero : regular = true → (t == 0) = true
  nan : regular = false → Scalar.isNaN t = true

namespace Settled
variable {F : Type} [Scalar F] {r s : Bool} {t u : F}

theorem of_zero (zero : (t == 0) = true) : Settled true t :=
  ⟨fun _ => zero, nofun⟩

theorem of_isNaN (nan : Scalar.isNaN t = true) : Settled false t :=
  ⟨nofun, fun _ => nan⟩

/-- What an operation makes of a vanishing tangent, if one more condition decides whether it keeps
it. -/
theorem guarded (h : Settled r t) (passes : Scalar.isNaN t = true → Scalar.isNaN u = true)
    (keeps : (t == 0) = true → s = true → (u == 0) = true)
    (breaks : (t == 0) = true → s = false → Scalar.isNaN u = true) : Settled (r && s) u := by
  cases r with
  | false => exact of_isNaN (passes (h.nan rfl))
  | true =>
    cases s with
    | false => exact of_isNaN (breaks (h.zero rfl) rfl)
    | true => exact of_zero (keeps (h.zero rfl) rfl)

variable [ZeroRules F]

theorem neg (h : Settled r t) : Settled r (-t) :=
  ⟨fun regular => ZeroRules.neg (h.zero regular), fun irregular =>
    ZeroRules.isNaN_neg (h.nan irregular)⟩

theorem add (ht : Settled r t) (hu : Settled s u) : Settled (r && s) (t + u) :=
  ht.guarded (NaNRules.add_left u) (fun zero regular => ZeroRules.add zero (hu.zero regular))
    fun _ irregular => NaNRules.add_right t (hu.nan irregular)

theorem sub (ht : Settled r t) (hu : Settled s u) : Settled (r && s) (t - u) :=
  ht.guarded (ZeroRules.isNaN_sub_left u)
    (fun zero regular => ZeroRules.sub zero (hu.zero regular))
    fun _ irregular => ZeroRules.isNaN_sub_right t (hu.nan irregular)

/-- Only a finite slope leaves a zero. -/
theorem mul (h : Settled r t) (slope : F) : Settled (r && Scalar.isFinite slope) (t * slope) :=
  h.guarded (NaNRules.mul_left slope) ZeroRules.mul ZeroRules.isNaN_mul

theorem mul_finite (h : Settled r t) {x : F} (finite : Scalar.isFinite x = true) :
    Settled r (t * x) := by
  have product := h.mul x
  rwa [finite, Bool.and_true] at product

theorem finite_mul {x : F} (finite : Scalar.isFinite x = true) (h : Settled r t) :
    Settled r (x * t) :=
  ⟨fun regular => ZeroRules.finite_mul finite (h.zero regular), fun irregular =>
    ZeroRules.isNaN_mul_right x (h.nan irregular)⟩

theorem div (h : Settled r t) {x : F} (finite : Scalar.isFinite x = true) :
    Settled (r && !(x == 0)) (t / x) :=
  h.guarded (NaNRules.div_left x)
    (fun zero nonzero => ZeroRules.div zero finite (by simpa using nonzero))
    fun zero divisor => ZeroRules.isNaN_div zero (by simpa using divisor)

end Settled

section Operations
variable {F : Type} [Elementary F]

/-- The factor by which an operation multiplies the tangent of its operand. -/
def UnaryOp.slope : UnaryOp → F → F
  | neg, _ => -1
  | recip, x => -(1 / x) * (1 / x)
  | sqrt, x => 1 / (2.0 * Scalar.sqrt x)
  | exp, x => Elementary.exp x
  | log, x => 1 / x
  | log1p, x => 1 / (1 + x)
  | sin, x => Elementary.cos x
  | cos, x => -Elementary.sin x
  | tan, x => 1 / (Elementary.cos x * Elementary.cos x)
  | atan, x => 1 / (1 + x * x)
  | tanh, x => 1 - Elementary.tanh x * Elementary.tanh x
  | abs, x => Scalar.signum x

/-- Whether an operation on these values keeps vanishing tangents, given whether its operands have
kept theirs. A length has no slopes at zero, and neither has a power of zero. -/
def BinaryOp.regular (op : BinaryOp) (x y : F) (r s : Bool) : Bool :=
  match op with
  | add => r && s
  | sub => r && s
  | mul => r && s
  | div => r && s
  | max => if y ≤ x then r else s
  | min => if x ≤ y then r else s
  | hypot => r && s && !(Elementary.hypot x y == 0)
  | pow => r && !(x == 0) && s

variable [ZeroRules F] {d e : Dual F} {r s : Bool}

theorem UnaryOp.settled (op : UnaryOp) (h : Settled r d.tangent) :
    Settled (r && Scalar.isFinite (op.slope d.primal)) (op.apply d).tangent := by
  cases op with
  | neg =>
    rw [slope, ZeroRules.isFinite_neg ZeroRules.isFinite_one, Bool.and_true]
    exact h.neg
  | _ => exact h.mul _

theorem Dual.settled_div (hd : Settled r d.tangent) (he : Settled s e.tangent)
    (finite_d : Scalar.isFinite d.primal = true) (finite_e : Scalar.isFinite e.primal = true)
    (finite : Scalar.isFinite (d / e).primal = true) : Settled (r && s) (d / e).tangent := by
  have inverse : Scalar.isFinite (1 / e.primal) = true := (ZeroRules.isFinite_of_mul finite).2
  exact (((hd.mul_finite finite_e).sub (he.finite_mul finite_d)).mul_finite inverse).mul_finite
    inverse

theorem Dual.settled_pow (hd : Settled r d.tangent) (he : Settled s e.tangent)
    (finite_d : Scalar.isFinite d.primal = true) (finite_e : Scalar.isFinite e.primal = true)
    (finite : Scalar.isFinite (d.pow e).primal = true) :
    Settled (r && !(d.primal == 0) && s) (d.pow e).tangent := by
  have exponent : Settled s
      (if e.tangent == 0 then 0 else e.tangent * Elementary.log d.primal) := by
    cases s with
    | false =>
      rw [if_neg (Bool.eq_false_iff.mp (ZeroRules.nonzero_of_isNaN (he.nan rfl)))]
      exact .of_isNaN (NaNRules.mul_left _ (he.nan rfl))
    | true =>
      rw [if_pos (he.zero rfl)]
      exact .of_zero ZeroRules.zero
  exact (((hd.finite_mul finite_e).div finite_d).add exponent).finite_mul finite

theorem BinaryOp.settled (op : BinaryOp) (hd : Settled r d.tangent) (he : Settled s e.tangent)
    (finite_d : Scalar.isFinite d.primal = true) (finite_e : Scalar.isFinite e.primal = true)
    (finite : Scalar.isFinite (op.apply d e).primal = true) :
    Settled (op.regular d.primal e.primal r s) (op.apply d e).tangent := by
  cases op with
  | add => exact hd.add he
  | sub => exact hd.sub he
  | mul =>
    rw [regular, Bool.and_comm]
    exact (he.finite_mul finite_d).add (hd.mul_finite finite_e)
  | div => exact Dual.settled_div hd he finite_d finite_e finite
  | max =>
    by_cases le : e ≤ d
    · simpa only [regular, apply, Dual.max, if_pos le, if_pos (show e.primal ≤ d.primal from le)]
    · simpa only [regular, apply, Dual.max, if_neg le, if_neg (show ¬ e.primal ≤ d.primal from le)]
  | min =>
    by_cases le : d ≤ e
    · simpa only [regular, apply, Dual.min, if_pos le, if_pos (show d.primal ≤ e.primal from le)]
    · simpa only [regular, apply, Dual.min, if_neg le, if_neg (show ¬ d.primal ≤ e.primal from le)]
  | hypot => exact ((hd.finite_mul finite_d).add (he.finite_mul finite_e)).div finite
  | pow => exact Dual.settled_pow hd he finite_d finite_e finite

theorem Dual.settled_powInt (h : Settled r d.tangent) (n : Int) :
    Settled (n == 0 || (r && Scalar.isFinite (Dual.powIntSlope d.primal n)))
      (d.powInt n).tangent := by
  by_cases zero : n = 0
  · rw [powInt, if_pos zero, zero]
    exact .of_zero ZeroRules.zero
  · rw [powInt, if_neg zero, beq_false_of_ne zero, Bool.false_or]
    exact h.mul _

theorem ScalarOp.settled_applyRight (op : ScalarOp) {c : F} (h : Settled r d.tangent)
    (finite : Scalar.isFinite (op.applyRight d c).primal = true) :
    Settled r (op.applyRight d c).tangent := by
  cases op with
  | add => exact h
  | sub => exact h
  | mul => exact h.mul_finite (ZeroRules.isFinite_of_mul finite).2
  | div => exact h.mul_finite (ZeroRules.isFinite_of_mul finite).2

theorem ScalarOp.settled_applyLeft (op : ScalarOp) {c : F} (h : Settled r d.tangent)
    (finite : Scalar.isFinite (op.applyLeft c d).primal = true) :
    Settled r (op.applyLeft c d).tangent := by
  cases op with
  | add => exact h
  | sub => exact h.neg
  | mul => exact h.finite_mul (ZeroRules.isFinite_of_mul finite).1
  | div =>
    obtain ⟨dividend, inverse⟩ := ZeroRules.isFinite_of_mul finite
    exact ((h.finite_mul (ZeroRules.isFinite_neg dividend)).mul_finite inverse).mul_finite inverse

end Operations

namespace Expr
variable {F : Type}

/-- Whether no tangent of the variable `j` gets into the value: it stands only in comparisons or
where the tangent is forgotten. A tangent that is replaced by one counts as that of any variable. -/
def ignores (j : ℕ) : Expr F → Bool
  | const _ => true
  | var i => i != j
  | param _ => true
  | unary _ e => e.ignores j
  | binary _ a b => a.ignores j && b.ignores j
  | powInt e _ => e.ignores j
  | scalarRight _ e _ => e.ignores j
  | scalarLeft _ _ e => e.ignores j
  | primal _ => true
  | seed _ => false
  | branch _ _ _ ifTrue ifFalse => ifTrue.ignores j && ifFalse.ignores j

variable [Elementary F]

/-- Whether all values on the way to that of an expression are finite, its own included. -/
def finite (y t : List (Dual F)) : Expr F → Bool
  | const c => Scalar.isFinite c
  | var i => Scalar.isFinite (y.getD i (Dual.constant 0)).primal
  | param i => Scalar.isFinite (t.getD i (Dual.constant 0)).primal
  | unary op e => e.finite y t && Scalar.isFinite (op.apply (e.eval y t)).primal
  | binary op a b =>
    a.finite y t && b.finite y t && Scalar.isFinite (op.apply (a.eval y t) (b.eval y t)).primal
  | powInt e n => e.finite y t && Scalar.isFinite ((e.eval y t).powInt n).primal
  | scalarRight op e c => e.finite y t && Scalar.isFinite (op.applyRight (e.eval y t) c).primal
  | scalarLeft op c e => e.finite y t && Scalar.isFinite (op.applyLeft c (e.eval y t)).primal
  | primal e => e.finite y t
  | seed e => e.finite y t
  | branch test a b ifTrue ifFalse =>
    a.finite y t && b.finite y t &&
      if test.holds (a.eval y t) (b.eval y t) then ifTrue.finite y t else ifFalse.finite y t

/-- Whether all operations on the way keep vanishing tangents. -/
def regular (y t : List (Dual F)) : Expr F → Bool
  | const _ => true
  | var _ => true
  | param _ => true
  | unary op e => e.regular y t && Scalar.isFinite (op.slope (e.eval y t).primal)
  | binary op a b =>
    op.regular (a.eval y t).primal (b.eval y t).primal (a.regular y t) (b.regular y t)
  | powInt e n =>
    n == 0 || (e.regular y t && Scalar.isFinite (Dual.powIntSlope (e.eval y t).primal n))
  | scalarRight _ e _ => e.regular y t
  | scalarLeft _ _ e => e.regular y t
  | primal _ => true
  | seed _ => true
  | branch test a b ifTrue ifFalse =>
    if test.holds (a.eval y t) (b.eval y t) then ifTrue.regular y t else ifFalse.regular y t

theorem isFinite_eval {y t : List (Dual F)} {e : Expr F} (finite : e.finite y t = true) :
    Scalar.isFinite (e.eval y t).primal = true := by
  induction e with
  | const c => exact finite
  | var i => exact finite
  | param i => exact finite
  | unary op e _ => exact (Bool.and_eq_true_iff.mp finite).2
  | binary op a b _ _ => exact (Bool.and_eq_true_iff.mp finite).2
  | powInt e n _ => exact (Bool.and_eq_true_iff.mp finite).2
  | scalarRight op e c _ => exact (Bool.and_eq_true_iff.mp finite).2
  | scalarLeft op c e _ => exact (Bool.and_eq_true_iff.mp finite).2
  | primal e ih => exact ih finite
  | seed e ih => exact ih finite
  | branch test a b ifTrue ifFalse _ _ ihTrue ihFalse =>
    have side := (Bool.and_eq_true_iff.mp finite).2
    rw [eval]
    split at side
    · next holds => rw [if_pos holds]; exact ihTrue side
    · next fails => rw [if_neg fails]; exact ihFalse side

variable [ZeroRules F] {y y' t : List (Dual F)} {j : ℕ}

/-- An expression that ignores the only variable with a tangent has a settled tangent. What values
there are is read off at other seeds, which do not reach them. -/
theorem settled (same : Dual.SameValues y' y)
    (still : ∀ i ≠ j, ((y'.getD i (Dual.constant 0)).tangent == 0) = true)
    (fixed : ∀ i, ((t.getD i (Dual.constant 0)).tangent == 0) = true) {e : Expr F}
    (ignores : e.ignores j = true) (finite : e.finite y t = true) :
    Settled (e.regular y t) (e.eval y' t).tangent := by
  have values (e : Expr F) : (e.eval y' t).primal = (e.eval y t).primal :=
    e.primal_eval_congr same rfl
  induction e with
  | const c => exact .of_zero ZeroRules.zero
  | var i => exact .of_zero (still i (bne_iff_ne.mp ignores))
  | param i => exact .of_zero (fixed i)
  | unary op e ih =>
    have operand := ih ignores (Bool.and_eq_true_iff.mp finite).1
    rw [regular, ← values e]
    exact op.settled operand
  | binary op a b iha ihb =>
    obtain ⟨ignores_a, ignores_b⟩ := Bool.and_eq_true_iff.mp ignores
    obtain ⟨operands, result⟩ := Bool.and_eq_true_iff.mp finite
    obtain ⟨finite_a, finite_b⟩ := Bool.and_eq_true_iff.mp operands
    have primal_a := isFinite_eval finite_a
    have primal_b := isFinite_eval finite_b
    rw [op.primal_congr (values a).symm (values b).symm] at result
    rw [← values] at primal_a primal_b
    rw [regular, ← values a, ← values b]
    exact op.settled (iha ignores_a finite_a) (ihb ignores_b finite_b) primal_a primal_b result
  | powInt e n ih =>
    have operand := ih ignores (Bool.and_eq_true_iff.mp finite).1
    rw [regular, ← values e]
    exact Dual.settled_powInt operand n
  | scalarRight op e c ih =>
    obtain ⟨finite_e, result⟩ := Bool.and_eq_true_iff.mp finite
    rw [op.primal_congrRight (values e).symm] at result
    exact op.settled_applyRight (ih ignores finite_e) result
  | scalarLeft op c e ih =>
    obtain ⟨finite_e, result⟩ := Bool.and_eq_true_iff.mp finite
    rw [op.primal_congrLeft c (values e).symm] at result
    exact op.settled_applyLeft (ih ignores finite_e) result
  | primal e _ => exact .of_zero ZeroRules.zero
  | seed e _ => cases ignores
  | branch test a b ifTrue ifFalse _ _ ihTrue ihFalse =>
    obtain ⟨ignores_true, ignores_false⟩ := Bool.and_eq_true_iff.mp ignores
    have side := (Bool.and_eq_true_iff.mp finite).2
    rw [regular, eval, test.holds_congr (values a) (values b)]
    split at side
    · next holds => rw [if_pos holds, if_pos holds]; exact ihTrue ignores_true side
    · next fails => rw [if_neg fails, if_neg fails]; exact ihFalse ignores_false side

end Expr

namespace Dual
variable {F : Type} [Elementary F] [ZeroRules F]

/-- A seed in one coordinate leaves the tangents of the others zero. -/
theorem isZero_tangent_seedAt (x : Vec F) {i j : ℕ} (other : i ≠ j) :
    (((seedAt x j).getD i (constant 0)).tangent == 0) = true := by
  by_cases inside : i < x.length
  · have entry : (seedAt x j).getD i (constant 0) = ⟨x[i], 0⟩ := by
      simp [seedAt, Vec.unit, inside, other]
    rw [entry]
    exact ZeroRules.zero
  · rw [List.getD_eq_default _ _ (by simpa using inside)]
    exact ZeroRules.zero

theorem isZero_tangent_constants (x : Vec F) (i : ℕ) :
    (((constants x).getD i (constant 0)).tangent == 0) = true := by
  have entry : (constants x).getD i (constant 0) = constant (x.getD i 0) := List.getD_map ..
  rw [entry]
  exact ZeroRules.zero

end Dual

/-- What jacobian returns for a variable that an output ignores, if all values on the way to the
output are finite: zero as long as all operations keep vanishing tangents, and otherwise not a
number. -/
theorem Program.jacobian_settled {F : Type} [Elementary F] [ZeroRules F] (p : Program F) (θ : Vec F)
    {f : List (Dual F) → Except Fault (List (Dual F))} (computed : p.Computes (Dual.constants θ) f)
    {x : Vec F} {es : List (Expr F)}
    (leads : p.Leads (Dual.constants x) (Dual.constants θ) [] es)
    (defined : ∀ e ∈ es, e.defined (Dual.constants x) (Dual.constants θ) = true) :
    ∃ jac, jacobian f x =
        .ok (es.map fun e => (e.eval (Dual.constants x) (Dual.constants θ)).primal, jac) ∧
      jac.length = es.length ∧ (∀ row ∈ jac, row.length = x.length) ∧
      ∀ (i : ℕ) (hi : i < es.length), ∀ j < x.length, es[i].ignores j = true →
        es[i].finite (Dual.constants x) (Dual.constants θ) = true →
        Settled (es[i].regular (Dual.constants x) (Dual.constants θ))
          ((jac.getD i []).getD j 0) := by
  let t := Dual.constants θ
  let pass (j : ℕ) := es.map (Expr.eval (Dual.seedAt x j) t)
  have start : f (Dual.constants x) = .ok (es.map (Expr.eval (Dual.constants x) t)) := by
    rw [computed.eq_of_leads leads, Expr.mapM_evaluate defined]
  have seeded (j : ℕ) (_ : j < x.length) : f (Dual.seedAt x j) = .ok (pass j) := by
    have same := Dual.sameValues_seedAt x j
    have defined_seeded (e : Expr F) (he : e ∈ es) : e.defined (Dual.seedAt x j) t = true := by
      rw [e.defined_congr same rfl]
      exact defined e he
    rw [computed.eq_of_leads (leads.congr same.symm rfl), Expr.mapM_evaluate defined_seeded]
  have returned := jacobian_eq start seeded fun j _ => by
    rw [List.length_map, List.length_map]
  rw [List.map_map, List.length_map] at returned
  refine ⟨_, returned, ?_, ?_, ?_⟩
  · rw [Rows.length_columns]
  · intro row hrow
    rw [Rows.length_of_mem_columns hrow, List.length_map, List.length_range]
  · intro i hi j hj ignores finite
    have entry : ((Rows.columns es.length
        ((List.range x.length).map fun j => (pass j).map Dual.tangent)).getD i []).getD j 0 =
        (es[i].eval (Dual.seedAt x j) t).tangent := by
      rw [Rows.getD_columns hi]
      simp [pass, hi, hj]
    rw [entry]
    exact Expr.settled (Dual.sameValues_seedAt x j)
      (fun _ other => Dual.isZero_tangent_seedAt x other) (Dual.isZero_tangent_constants θ) ignores
      finite

/-- The root of each of two variables. -/
def roots : System Float := ⟨[.unary .sqrt (.var 0), .unary .sqrt (.var 1)], none⟩

/-- The root at four has a zero derivative with respect to the other variable, the root at zero has
none. -/
theorem Program.jacobian_settled_roots :
    ∃ jac, jacobian (roots.outputsAt · []) [0, 4] = .ok ([Scalar.sqrt 0, Scalar.sqrt 4], jac) ∧
      ((jac.getD 1 []).getD 0 0 == 0) = true ∧
      Scalar.isNaN ((jac.getD 0 []).getD 1 0) = true := by
  obtain ⟨jac, returned, -, -, entries⟩ := (ofSystem roots).jacobian_settled []
    (computes_ofSystem roots []) (x := [0, 4]) (.outputs rfl) (by decide)
  refine ⟨jac, returned, ?_, ?_⟩
  · exact (entries 1 (by decide) 0 (by decide) rfl (by decide +kernel)).zero (by decide +kernel)
  · exact (entries 0 (by decide) 1 (by decide) rfl (by decide +kernel)).nan (by decide +kernel)

/-- The derivative of the root of one variable with respect to another one is not a number at zero,
where the root has the finite value zero and an infinite slope. -/
theorem nan_beside_root :
    let e : Expr Float := .unary .sqrt (.var 0)
    e.ignores 1 = true ∧ e.finite (Dual.constants [0, 1]) [] = true ∧
      (jacobian (System.outputsAt ⟨[e], none⟩ · []) [0, 1]).toOption.map
          (fun p => p.2.map fun row => row.map fun x => (x == 0, Scalar.isNaN x)) =
        some [[(false, false), (false, true)]] := by
  decide +kernel

end DualOpt
