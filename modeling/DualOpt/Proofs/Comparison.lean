import Mathlib.Data.Prod.Lex
import DualOpt.Proofs.Exact.Scalar
import DualOpt.Proofs.NotANumber

/-!
Comparison of scalars.

Any two numbers are comparable, and numbers that lie on one another, like the two zeros, are equal.
A value that is not a number is related to nothing, itself included. These laws hold in binary
formats and of the reals, and a search for a least value relies on nothing else.
-/
namespace DualOpt

class ComparisonRules (F : Type) [Scalar F] : Prop where
  isNaN_left {x y : F} (le : x ≤ y) : Scalar.isNaN x = false
  isNaN_right {x y : F} (le : x ≤ y) : Scalar.isNaN y = false
  le_total {x y : F} (hx : Scalar.isNaN x = false) (hy : Scalar.isNaN y = false) : x ≤ y ∨ y ≤ x
  le_trans {x y z : F} (hxy : x ≤ y) (hyz : y ≤ z) : x ≤ z
  lt_iff {x y : F} : x < y ↔ x ≤ y ∧ ¬ y ≤ x
  beq_iff {x y : F} : (x == y) = true ↔ x ≤ y ∧ y ≤ x
  below_of_le {x y : F} (le : x ≤ y) (below : Scalar.belowInfinity y = true) :
    Scalar.belowInfinity x = true

/-- Infinity is a scalar of the format, and what lies below it is less than it. -/
class InfinityRules (F : Type) [Scalar F] : Prop where
  isNaN_infinity : Scalar.isNaN (Scalar.infinity : F) = false
  below_iff {x : F} : Scalar.belowInfinity x = true ↔ x < Scalar.infinity

instance : ComparisonRules ℝ where
  isNaN_left _ := rfl
  isNaN_right _ := rfl
  le_total {x y} _ _ := le_total x y
  le_trans := le_trans
  lt_iff := lt_iff_le_not_ge
  beq_iff := beq_iff_eq.trans le_antisymm_iff
  below_of_le _ _ := rfl

variable {F : Type} [Scalar F]

/-- Scalars that compare as the ranks of numbers in a linear order. -/
theorem comparisonRules_of_rank [InfinityRules F] {α : Type} [LinearOrder α] (rank : F → α)
    (le_iff : ∀ x y : F,
      x ≤ y ↔ Scalar.isNaN x = false ∧ Scalar.isNaN y = false ∧ rank x ≤ rank y)
    (lt_iff : ∀ x y : F,
      x < y ↔ Scalar.isNaN x = false ∧ Scalar.isNaN y = false ∧ rank x < rank y)
    (beq_iff : ∀ x y : F,
      (x == y) = true ↔ Scalar.isNaN x = false ∧ Scalar.isNaN y = false ∧ rank x = rank y) :
    ComparisonRules F where
  isNaN_left le := ((le_iff _ _).mp le).1
  isNaN_right le := ((le_iff _ _).mp le).2.1
  le_total {x y} hx hy := by
    rw [le_iff, le_iff]
    exact (le_total (rank x) (rank y)).imp (⟨hx, hy, ·⟩) (⟨hy, hx, ·⟩)
  le_trans {x y z} hxy hyz := by
    obtain ⟨hx, -, lower⟩ := (le_iff x y).mp hxy
    obtain ⟨-, hz, upper⟩ := (le_iff y z).mp hyz
    exact (le_iff x z).mpr ⟨hx, hz, lower.trans upper⟩
  lt_iff {x y} := by
    rw [lt_iff, le_iff, le_iff, lt_iff_le_not_ge]
    tauto
  beq_iff {x y} := by
    rw [beq_iff, le_iff, le_iff, le_antisymm_iff (a := rank x)]
    tauto
  below_of_le {x y} le below := by
    obtain ⟨hx, -, lower⟩ := (le_iff x y).mp le
    obtain ⟨-, hinfinity, upper⟩ := (lt_iff y _).mp (InfinityRules.below_iff.mp below)
    exact InfinityRules.below_iff.mpr ((lt_iff x _).mpr ⟨hx, hinfinity, lower.trans_lt upper⟩)

namespace ComparisonRules
variable [ComparisonRules F] {x y z : F}

theorem le_refl (hx : Scalar.isNaN x = false) : x ≤ x := (le_total hx hx).elim id id

theorem le_of_lt (h : x < y) : x ≤ y := (lt_iff.mp h).1

theorem lt_of_le_of_lt (hxy : x ≤ y) (hyz : y < z) : x < z := by
  obtain ⟨le, not_ge⟩ := lt_iff.mp hyz
  exact lt_iff.mpr ⟨le_trans hxy le, fun hzx => not_ge (le_trans hzx hxy)⟩

theorem lt_of_lt_of_le (hxy : x < y) (hyz : y ≤ z) : x < z := by
  obtain ⟨le, not_ge⟩ := lt_iff.mp hxy
  exact lt_iff.mpr ⟨le_trans le hyz, fun hzx => not_ge (le_trans hyz hzx)⟩

/-- Among numbers, what is not less is at least as large. -/
theorem le_of_not_lt (hx : Scalar.isNaN x = false) (hy : Scalar.isNaN y = false) (h : ¬ y < x) :
    x ≤ y := by
  rcases le_total hx hy with le | ge
  · exact le
  · by_contra not_le
    exact h (lt_iff.mpr ⟨ge, not_le⟩)

end ComparisonRules

open Float.Model

/-- The place of a number among all numbers: infinities outermost, then by sign, then away from
zero by exponent and mantissa. -/
def unpackedRank : UnpackedFloat → ℤ ×ₗ ℤ ×ₗ ℤ
  | .infinity .negative => toLex (-2, toLex (0, 0))
  | .finite .negative m e _ => toLex (-1, toLex (-e, -m))
  | .notANumber | .zero _ => toLex (0, toLex (0, 0))
  | .finite .positive m e _ => toLex (1, toLex (e, m))
  | .infinity .positive => toLex (2, toLex (0, 0))

theorem compare_neg_neg (x y : ℤ) : compare (-x) (-y) = (compare x y).swap := by
  have reversed : StrictAnti fun x : ℤ => -x := fun _ _ => neg_lt_neg
  rw [← cmp_eq_compare, ← cmp_eq_compare, cmp_swap]
  exact reversed.cmp_map_eq x y

theorem compare_natCast (x y : ℕ) : compare (x : ℤ) (y : ℤ) = compare x y := by
  rw [← cmp_eq_compare, ← cmp_eq_compare, Nat.strictMono_cast.cmp_map_eq]

/-- Numbers compare as their ranks. -/
theorem unpacked_compare {a b : UnpackedFloat} (ha : a.isNaN = false) (hb : b.isNaN = false) :
    a.compare b = some (compare (unpackedRank a) (unpackedRank b)) := by
  cases a with
  | notANumber => cases ha
  | infinity s =>
    cases b with
    | notANumber => cases hb
    | infinity s' => cases s <;> cases s' <;> rfl
    | zero s' => cases s <;> rfl
    | finite s' m' e' _ => cases s <;> cases s' <;> rfl
  | zero s =>
    cases b with
    | notANumber => cases hb
    | infinity s' => cases s' <;> rfl
    | zero s' => rfl
    | finite s' m' e' _ => cases s' <;> rfl
  | finite s m e _ =>
    cases b with
    | notANumber => cases hb
    | infinity s' => cases s <;> cases s' <;> rfl
    | zero s' => cases s <;> rfl
    | finite s' m' e' _ =>
      cases s <;> cases s'
      case negative.negative =>
        show some ((compare e e').then (compare m m')).swap =
          some ((compare (-e) (-e')).then (compare (-(m : ℤ)) (-(m' : ℤ))))
        rw [compare_neg_neg, compare_neg_neg, compare_natCast, Ordering.swap_then]
      case positive.positive =>
        show some ((compare e e').then (compare m m')) =
          some ((compare e e').then (compare (m : ℤ) (m' : ℤ)))
        rw [compare_natCast]
      all_goals rfl

/-- A comparison that finds an order has found that of the ranks of two numbers. -/
theorem unpacked_compare_eq_some_iff {a b : UnpackedFloat} {o : Ordering} :
    a.compare b = some o ↔
      a.isNaN = false ∧ b.isNaN = false ∧ compare (unpackedRank a) (unpackedRank b) = o := by
  cases ha : a.isNaN with
  | true =>
    have unrelated : a.compare b = none := by rw [unpacked_eq_notANumber ha]; rfl
    simp [unrelated]
  | false =>
    cases hb : b.isNaN with
    | true =>
      have unrelated : a.compare b = none := by rw [unpacked_eq_notANumber hb]; cases a <;> rfl
      simp [unrelated]
    | false => simp [unpacked_compare ha hb]

theorem unpacked_lt_iff {a b : UnpackedFloat} :
    a.lt b = true ↔ a.isNaN = false ∧ b.isNaN = false ∧ unpackedRank a < unpackedRank b := by
  rw [UnpackedFloat.lt, beq_iff_eq, unpacked_compare_eq_some_iff, compare_lt_iff_lt]

theorem unpacked_le_iff {a b : UnpackedFloat} :
    a.le b = true ↔ a.isNaN = false ∧ b.isNaN = false ∧ unpackedRank a ≤ unpackedRank b := by
  simp only [UnpackedFloat.le, Option.any_eq_true, unpacked_compare_eq_some_iff,
    Ordering.isLE_iff_ne_gt, ← compare_le_iff_le]
  constructor
  · rintro ⟨o, ⟨ha, hb, rfl⟩, le⟩
    exact ⟨ha, hb, le⟩
  · rintro ⟨ha, hb, le⟩
    exact ⟨_, ⟨ha, hb, rfl⟩, le⟩

theorem unpacked_beq_iff {a b : UnpackedFloat} :
    a.beq b = true ↔ a.isNaN = false ∧ b.isNaN = false ∧ unpackedRank a = unpackedRank b := by
  have compared : a.beq b = (a.compare b == some .eq) := rfl
  rw [compared, beq_iff_eq, unpacked_compare_eq_some_iff, compare_eq_iff_eq]

instance : InfinityRules Float where
  isNaN_infinity := by rfl
  below_iff := decide_eq_true_iff

instance : InfinityRules Float32 where
  isNaN_infinity := by rfl
  below_iff := decide_eq_true_iff

instance : ComparisonRules Float :=
  comparisonRules_of_rank (fun x => unpackedRank x.toModel.unpack)
    (fun _ _ => decide_eq_true_iff.trans unpacked_le_iff)
    (fun _ _ => decide_eq_true_iff.trans unpacked_lt_iff) (fun _ _ => unpacked_beq_iff)

instance : ComparisonRules Float32 :=
  comparisonRules_of_rank (fun x => unpackedRank x.toModel.unpack)
    (fun _ _ => decide_eq_true_iff.trans unpacked_le_iff)
    (fun _ _ => decide_eq_true_iff.trans unpacked_lt_iff) (fun _ _ => unpacked_beq_iff)

end DualOpt
