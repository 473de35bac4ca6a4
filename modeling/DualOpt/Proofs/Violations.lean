import DualOpt.Expr.System
import DualOpt.Proofs.Comparison
import DualOpt.Proofs.Forward.Shape

/-!
When implicit differentiation warns of a condition that does not hold.

The largest entry is found from zero on and without those that are not numbers, so it is a number
itself: a warning follows from an entry above the bound and from a negative bound, and from nothing
else.
-/
namespace DualOpt

/-- How an arithmetic takes the larger of two arguments, and that the bound for a condition is not
negative. -/
class MaxRules (F : Type) [Scalar F] : Prop where
  isNaN_zero : Scalar.isNaN (0 : F) = false
  max_eq (x y : F) : Scalar.max x y =
    if Scalar.isNaN y then x else if Scalar.isNaN x then y else if x < y then y else x
  bound_nonneg : ¬ (1e-6 : F) < 0

instance : MaxRules Float where
  isNaN_zero := by rfl
  max_eq _ _ := rfl
  bound_nonneg := by decide +kernel

instance : MaxRules Float32 where
  isNaN_zero := by rfl
  max_eq _ _ := rfl
  bound_nonneg := by decide +kernel

namespace Traced
variable {F α β : Type}

/-- What reports nothing leaves the events as they are. -/
theorem events_bind_of_silent {x : Traced F α} {f : α → Traced F β}
    (silent : ∀ a, (f a).events = []) : (x >>= f).events = x.events := by
  cases hx : x.outcome with
  | error fault => rw [bind_error hx]
  | ok a => rw [bind_ok hx, silent, List.append_nil]

theorem events_liftM_bind {r : Except Fault α} {f : α → Traced F β}
    (silent : ∀ a, (f a).events = []) : (liftM r >>= f).events = [] :=
  events_bind_of_silent silent

theorem events_emitIf (condition : Bool) (e : Event F) :
    (emitIf condition e).events = if condition then [e] else [] := by
  cases condition <;> rfl

end Traced

variable {F : Type} [Scalar F]

namespace Vec

section Largest
variable [ComparisonRules F] [MaxRules F]

theorem lt_max_iff {x y t : F} (hx : Scalar.isNaN x = false) :
    t < Scalar.max x y ↔ t < x ∨ t < y := by
  rw [MaxRules.max_eq]
  cases hy : Scalar.isNaN y with
  | true =>
    have unrelated : ¬ t < y := fun less =>
      Bool.false_ne_true
        ((ComparisonRules.isNaN_right (ComparisonRules.le_of_lt less)).symm.trans hy)
    rw [if_pos rfl, or_iff_left unrelated]
  | false =>
    rw [if_neg Bool.false_ne_true, hx, if_neg Bool.false_ne_true]
    by_cases less : x < y
    · have passes (below : t < x) : t < y :=
        ComparisonRules.lt_of_le_of_lt (ComparisonRules.le_of_lt below) less
      rw [if_pos less, or_iff_right_of_imp passes]
    · have covered (below : t < y) : t < x :=
        ComparisonRules.lt_of_lt_of_le below (ComparisonRules.le_of_not_lt hy hx less)
      rw [if_neg less, or_iff_left_of_imp covered]

omit [ComparisonRules F] in
theorem isNaN_max {x y : F} (hx : Scalar.isNaN x = false) :
    Scalar.isNaN (Scalar.max x y) = false := by
  rw [MaxRules.max_eq]
  cases hy : Scalar.isNaN y with
  | true => rwa [if_pos rfl]
  | false =>
    rw [if_neg Bool.false_ne_true, hx, if_neg Bool.false_ne_true]
    split <;> assumption

/-- From a number on, the largest entry is a number above exactly the bounds that the number or
some entry is above. -/
theorem lt_foldl_max_iff (v : Vec F) {acc : F} (number : Scalar.isNaN acc = false) (t : F) :
    let norm := v.foldl (fun acc a => Scalar.max acc (Scalar.abs a)) acc
    Scalar.isNaN norm = false ∧ (t < norm ↔ t < acc ∨ ∃ a ∈ v, t < Scalar.abs a) := by
  induction v generalizing acc with
  | nil => simp [number]
  | cons a v ih =>
    obtain ⟨isNumber, above⟩ := ih (isNaN_max (y := Scalar.abs a) number)
    refine ⟨isNumber, above.trans ?_⟩
    rw [lt_max_iff number, or_assoc]
    simp only [List.mem_cons, exists_eq_or_imp]

/-- A violation is an entry above the bound, or a negative bound. -/
theorem exceeds_maxNorm_iff (v : Vec F) (t : F) :
    exceeds (maxNorm v) t = true ↔ t < 0 ∨ ∃ a ∈ v, t < Scalar.abs a := by
  obtain ⟨number, above⟩ := lt_foldl_max_iff v (MaxRules.isNaN_zero (F := F)) t
  rw [exceeds, Bool.or_eq_true, decide_eq_true_iff]
  change t < maxNorm v ∨ Scalar.isNaN (maxNorm v) = true ↔ _
  rw [maxNorm, number, or_iff_left Bool.false_ne_true, above]

end Largest

end Vec

namespace ImplicitAdjoint
variable (adjoint : ImplicitAdjoint F) {c : Condition F} {y θ : Vec F}

theorem events_jacobian :
    (adjoint.jacobian c y θ).events = (partialJacobians c y θ).events := by
  refine Traced.events_bind_of_silent fun parts => ?_
  refine Traced.events_liftM_bind fun a => ?_
  refine Traced.events_liftM_bind fun state => ?_
  exact Traced.events_liftM_bind fun solved => rfl

theorem events_tangent {θDot : Vec F} (same : θDot.length = θ.length) :
    (adjoint.tangent c y θ θDot).events = (partialJacobians c y θ).events := by
  rw [tangent, if_neg (not_not.mpr same)]
  refine Traced.events_bind_of_silent fun parts => ?_
  refine Traced.events_liftM_bind fun a => ?_
  exact Traced.events_liftM_bind fun state => rfl

theorem events_vjp {yBar : Vec F} (same : yBar.length = y.length) :
    (adjoint.vjp c y θ yBar).events = (partialJacobians c y θ).events := by
  rw [vjp, if_neg (not_not.mpr same)]
  refine Traced.events_bind_of_silent fun parts => ?_
  refine Traced.events_liftM_bind fun a => ?_
  refine Traced.events_liftM_bind fun state => ?_
  exact Traced.events_liftM_bind fun solved => rfl

/-- The joint Jacobian has the values of the condition. -/
theorem evaluate_of_jacobian_joint {values : Vec F} {jac : Rows F}
    (h : DualOpt.jacobian (fun d => c (d.take y.length) (d.drop y.length)) (y ++ θ) =
      .ok (values, jac)) : evaluate (c · (Dual.constants θ)) y = .ok values := by
  have start : Dual.constants (y ++ θ) = Dual.constants y ++ Dual.constants θ := List.map_append
  have arity : (Dual.constants y).length = y.length := List.length_map _
  have joint := evaluate_of_jacobian h
  rwa [evaluate, start, List.take_left' arity, List.drop_left' arity] at joint

section Warnings
variable [ComparisonRules F] [MaxRules F]

theorem events_partialJacobians {values : Vec F} {jac : Rows F}
    (h : DualOpt.jacobian (fun d => c (d.take y.length) (d.drop y.length)) (y ++ θ) =
      .ok (values, jac)) :
    (partialJacobians c y θ).events =
      if ∃ a ∈ values, 1e-6 < Scalar.abs a then [.conditionViolated (Vec.maxNorm values)]
      else [] := by
  have violated : exceeds (Vec.maxNorm values) 1e-6 = true ↔ ∃ a ∈ values, 1e-6 < Scalar.abs a := by
    rw [Vec.exceeds_maxNorm_iff, or_iff_right MaxRules.bound_nonneg]
  rw [partialJacobians, h]
  change (Traced.emitIf (exceeds (Vec.maxNorm values) 1e-6) _ >>= fun _ => _).events = _
  rw [Traced.events_bind_of_silent fun _ => rfl, Traced.events_emitIf]
  exact if_congr violated rfl rfl

/-- What is reported of a condition that does not hold. A solution is reported with its norm if
some entry of the stationarity condition is above the tolerance or the tolerance is negative; a
derivative is, whichever is asked for, if some value of its condition is above its bound. An entry
that is not a number is above no bound. -/
theorem warns_iff :
    (∀ (Y : Type) (value : Y) (stationarity : Vec F),
      (adjoint.apply value stationarity).outcome = .ok value ∧
      (adjoint.apply value stationarity).events =
        if adjoint.tolerance < 0 ∨ ∃ a ∈ stationarity, adjoint.tolerance < Scalar.abs a
        then [.notStationary (Vec.maxNorm stationarity) adjoint.tolerance] else []) ∧
    ∀ (c : Condition F) (y θ values : Vec F) (jac : Rows F),
      DualOpt.jacobian (fun d => c (d.take y.length) (d.drop y.length)) (y ++ θ) =
        .ok (values, jac) →
      let events : List (Event F) :=
        if ∃ a ∈ values, 1e-6 < Scalar.abs a then [.conditionViolated (Vec.maxNorm values)] else []
      evaluate (c · (Dual.constants θ)) y = .ok values ∧
      (adjoint.jacobian c y θ).events = events ∧
      (∀ θDot : Vec F, θDot.length = θ.length → (adjoint.tangent c y θ θDot).events = events) ∧
      ∀ yBar : Vec F, yBar.length = y.length → (adjoint.vjp c y θ yBar).events = events := by
  refine ⟨fun Y value stationarity => ?_, fun c y θ values jac h => ?_⟩
  · rw [apply, Traced.events_bind_of_silent fun _ => rfl, Traced.events_emitIf]
    exact ⟨by simp, if_congr (Vec.exceeds_maxNorm_iff _ _) rfl rfl⟩
  · have events := events_partialJacobians h
    exact ⟨evaluate_of_jacobian_joint h, (adjoint.events_jacobian).trans events,
      fun θDot same => (adjoint.events_tangent same).trans events,
      fun yBar same => (adjoint.events_vjp same).trans events⟩

end Warnings

/-- The difference of a variable and a parameter. -/
def difference : System Float where
  outputs := [.binary .sub (.var 0) (.param 0)]

/-- In double precision, the first entry is not a number and the second one is reported; and the
difference of one and zero is reported as a condition that does not hold. -/
theorem warns_iff_difference :
    ((standard : ImplicitAdjoint Float).apply () [0 / 0, 1]).events =
      [.notStationary (Vec.maxNorm [0 / 0, 1]) 1e-6] ∧
    ((standard : ImplicitAdjoint Float).jacobian difference.condition [1] [0]).events =
      [.conditionViolated (Vec.maxNorm [1 - 0])] ∧
    ((standard : ImplicitAdjoint Float).tangent difference.condition [1] [0] [1]).events =
      [.conditionViolated (Vec.maxNorm [1 - 0])] ∧
    ((standard : ImplicitAdjoint Float).vjp difference.condition [1] [0] [1]).events =
      [.conditionViolated (Vec.maxNorm [1 - 0])] := by
  obtain ⟨solutions, conditions⟩ := (standard : ImplicitAdjoint Float).warns_iff
  have total (d : List (Dual Float)) (hd : d.length = ([1, 0] : Vec Float).length) :
      ∃ outputs, difference.condition (d.take 1) (d.drop 1) = .ok outputs ∧ outputs.length = 1 := by
    obtain ⟨a, d, rfl⟩ := List.exists_cons_of_length_eq_add_one hd
    obtain ⟨b, d, rfl⟩ := List.exists_cons_of_length_eq_add_one (Nat.succ.inj hd)
    exact ⟨_, rfl, rfl⟩
  obtain ⟨values, jac, hjac, -, -⟩ := exists_jacobian total
  obtain ⟨value, inJacobian, inTangent, inVjp⟩ := conditions _ [1] [0] values jac hjac
  obtain rfl : [1 - 0] = values := Except.ok.inj value
  have violated : ∃ a ∈ ([1 - 0] : Vec Float), 1e-6 < Scalar.abs a := by decide +kernel
  have above : (standard : ImplicitAdjoint Float).tolerance < 0 ∨ ∃ a ∈ ([0 / 0, 1] : Vec Float),
      (standard : ImplicitAdjoint Float).tolerance < Scalar.abs a := by
    decide +kernel
  rw [if_pos violated] at inJacobian inTangent inVjp
  exact ⟨((solutions Unit () _).2).trans (if_pos above), inJacobian, inTangent [1] rfl,
    inVjp [1] rfl⟩

/-- A stationarity condition that is not a number goes unreported. -/
theorem nan_stationarity_unreported :
    Scalar.isNaN (0 / 0 : Float) = true ∧
      ((standard : ImplicitAdjoint Float).apply () [0 / 0]).events = [] := by
  have isNaN : Scalar.isNaN (0 / 0 : Float) = true := by decide +kernel
  have passed :
      exceeds (Vec.maxNorm [0 / 0]) (standard : ImplicitAdjoint Float).tolerance = false := by
    decide +kernel
  refine ⟨isNaN, ?_⟩
  rw [apply, Traced.events_bind_of_silent fun _ => rfl, Traced.events_emitIf, passed]
  rfl

end ImplicitAdjoint
end DualOpt
