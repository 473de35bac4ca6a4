import Mathlib
import DualOpt.Proofs.UnitProduct

/-!
Rounding to a binary format.

A mantissa is shifted to the exponent that the format has for it, rounded there by the digits that
are dropped, and shifted once more if the rounding has carried into a new digit. What comes out has
a mantissa that fits, and only a number below the least exponent can become zero on the way. A
number of the format that lies below the exact value lies below the rounded one.
-/
namespace DualOpt
open Float.Model UnpackedFloat

section Shift

theorem mantissa_shift (a : ExtendedMantissa) (k : ℕ) :
    (a >>> k).mantissa = a.mantissa / 2 ^ k := by
  change (k.repeat ExtendedMantissa.shiftRightOne a).mantissa = _
  induction k with
  | zero => rw [pow_zero, Nat.div_one]; rfl
  | succ k ih => rw [pow_succ, ← Nat.div_div_eq_div_mul, ← ih]; rfl

/-- The digit behind the mantissa is kept, and whether any digit behind that one was set. -/
theorem shift_succ (m k : ℕ) :
    ExtendedMantissa.ofMantissaAndAccuracy m .exact >>> (k + 1) =
      ⟨m / 2 ^ (k + 1), m / 2 ^ k % 2 != 0, m % 2 ^ k != 0⟩ := by
  change (k + 1).repeat ExtendedMantissa.shiftRightOne _ = _
  induction k with
  | zero => simp [Nat.repeat, ExtendedMantissa.shiftRightOne,
      ExtendedMantissa.ofMantissaAndAccuracy, Nat.mod_one]
  | succ k ih =>
    have sticky : (m / 2 ^ k % 2 != 0 || m % 2 ^ k != 0) = (m % 2 ^ (k + 1) != 0) := by
      have power := Nat.two_pow_pos k
      rw [Bool.eq_iff_iff, Nat.mod_pow_succ]
      simp only [Bool.or_eq_true, bne_iff_ne, ne_eq, Nat.add_eq_zero_iff, mul_eq_zero, power.ne',
        false_or]
      tauto
    rw [Nat.repeat, ih]
    simp only [ExtendedMantissa.shiftRightOne, Nat.div_div_eq_div_mul, ← pow_succ, sticky]

theorem mantissa_ofMantissaAndAccuracy (m : ℕ) (accuracy : Accuracy) :
    (ExtendedMantissa.ofMantissaAndAccuracy m accuracy).mantissa = m := by
  rcases accuracy with _ | (_ | _ | _) <;> rfl

theorem le_roundedMantissa (a : ExtendedMantissa) : a.mantissa ≤ a.roundedMantissa := by
  obtain ⟨m, _ | _, _ | _⟩ := a
  · exact le_refl m
  · exact le_refl m
  · exact Nat.le_add_right m _
  · exact Nat.le_succ m

theorem roundedMantissa_le (a : ExtendedMantissa) : a.roundedMantissa ≤ a.mantissa + 1 := by
  obtain ⟨m, _ | _, _ | _⟩ := a
  · exact Nat.le_succ m
  · exact Nat.le_succ m
  · exact Nat.add_le_add_left (Nat.lt_succ_iff.mp (Nat.mod_lt m Nat.two_pos)) m
  · exact le_refl (m + 1)

/-- Half a unit is rounded to zero, and so is what lies below it. -/
theorem roundedMantissa_shift_eq_zero_iff (m k : ℕ) :
    (ExtendedMantissa.ofMantissaAndAccuracy m .exact >>> k).roundedMantissa = 0 ↔
      2 * m ≤ 2 ^ k := by
  cases k with
  | zero =>
    have unshifted : (ExtendedMantissa.ofMantissaAndAccuracy m .exact >>> 0).roundedMantissa = m :=
      rfl
    rw [unshifted, pow_zero]
    omega
  | succ k =>
    have power := Nat.two_pow_pos k
    have digits := Nat.div_add_mod m (2 ^ k)
    have rest := Nat.mod_lt m power
    rw [shift_succ, pow_succ']
    constructor
    · intro zero
      by_contra large
      have quotient : m / (2 * 2 ^ k) = 0 := by
        have low := le_roundedMantissa ⟨m / (2 * 2 ^ k), m / 2 ^ k % 2 != 0, m % 2 ^ k != 0⟩
        rw [zero] at low
        exact Nat.le_zero.mp low
      have below : m < 2 * 2 ^ k := (Nat.div_eq_zero_iff_lt (by omega)).mp quotient
      have digit : m / 2 ^ k = 1 := by
        refine Nat.div_eq_of_lt_le ?_ ?_ <;> omega
      have sticky : (m % 2 ^ k != 0) = true := by
        rw [digit, mul_one] at digits
        exact bne_iff_ne.mpr (by omega)
      rw [quotient, digit, sticky] at zero
      exact absurd zero Nat.one_ne_zero
    · intro small
      have quotient : m / (2 * 2 ^ k) = 0 := Nat.div_eq_of_lt (by omega)
      rcases (show m ≤ 2 ^ k by omega).lt_or_eq with below | rfl
      · have digit : m / 2 ^ k = 0 := Nat.div_eq_of_lt below
        rw [quotient, digit]
        cases m % 2 ^ k != 0 <;> rfl
      · rw [quotient, Nat.mod_self]
        cases 2 ^ k / 2 ^ k % 2 != 0 <;> rfl

end Shift

section Round
variable {format : Format} {s : Sign} {m : ℕ} {e : ℤ} {accuracy : Accuracy}

theorem targetExponent_eq (format : Format) (m : ℕ) (e : ℤ) :
    format.targetExponent (totalExponent m e) =
      max (m.log2 + 1 + e - format.mantissaBits) format.minExponent := rfl

/-- By how many digits a mantissa is shifted. -/
def shiftOf (format : Format) (m : ℕ) (e : ℤ) : ℕ :=
  (format.targetExponent (totalExponent m e) - e).toNat

/-- The mantissa after the first shift, rounded. -/
def roundedAt (format : Format) (m : ℕ) (e : ℤ) (accuracy : Accuracy) : ℕ :=
  (ExtendedMantissa.ofMantissaAndAccuracy m accuracy >>> shiftOf format m e).roundedMantissa

theorem le_roundedAt : m / 2 ^ shiftOf format m e ≤ roundedAt format m e accuracy := by
  have low := le_roundedMantissa
    (ExtendedMantissa.ofMantissaAndAccuracy m accuracy >>> shiftOf format m e)
  rwa [mantissa_shift, mantissa_ofMantissaAndAccuracy] at low

theorem roundedAt_le : roundedAt format m e accuracy ≤ m / 2 ^ shiftOf format m e + 1 := by
  have high := roundedMantissa_le
    (ExtendedMantissa.ofMantissaAndAccuracy m accuracy >>> shiftOf format m e)
  rwa [mantissa_shift, mantissa_ofMantissaAndAccuracy] at high

/-- The shifted mantissa fits, and so its rounding carries at most to the next power of two. -/
theorem roundedAt_le_two_pow : roundedAt format m e accuracy ≤ 2 ^ format.mantissaBits := by
  have width : m.log2 + 1 ≤ format.mantissaBits + shiftOf format m e := by
    rw [shiftOf, targetExponent_eq]
    omega
  have small : m / 2 ^ shiftOf format m e < 2 ^ format.mantissaBits := by
    rw [Nat.div_lt_iff_lt_mul (Nat.two_pow_pos _), ← pow_add]
    exact Nat.lt_log2_self.trans_le (Nat.pow_le_pow_right Nat.two_pos width)
  exact roundedAt_le.trans small

/-- What becomes of a number that is rounded: nothing, a number with a mantissa that fits, or the
power of two to which the mantissa carries. -/
inductive Rounds (format : Format) (s : Sign) (m : ℕ) (e : ℤ) (accuracy : Accuracy) :
    UnpackedFloat → Prop
  | vanishes (zero : roundedAt format m e accuracy = 0) : Rounds format s m e accuracy (.zero s)
  | stays (positive : 0 < roundedAt format m e accuracy)
      (short : roundedAt format m e accuracy < 2 ^ format.mantissaBits) :
      Rounds format s m e accuracy
        (.finite s (roundedAt format m e accuracy) (e + shiftOf format m e) positive)
  | carries (full : roundedAt format m e accuracy = 2 ^ format.mantissaBits) :
      Rounds format s m e accuracy (.finite s (2 ^ format.mantissaBitsWithoutImplicit)
        (e + shiftOf format m e + 1) (Nat.two_pow_pos _))

theorem minExponent_le_shifted (format : Format) (m : ℕ) (e : ℤ) :
    format.minExponent ≤ e + shiftOf format m e := by
  rw [shiftOf, targetExponent_eq]
  omega

theorem log2_lt_of_short (short : m < 2 ^ format.mantissaBits) :
    m.log2 + 1 ≤ format.mantissaBits := by
  by_cases zero : m = 0
  · rw [zero, Nat.log2_zero, Format.mantissaBits]
    omega
  · exact (Nat.log2_lt zero).mpr short

theorem shiftOf_of_short (short : m < 2 ^ format.mantissaBits) (above : format.minExponent ≤ e) :
    shiftOf format m e = 0 := by
  have width := log2_lt_of_short short
  rw [shiftOf, targetExponent_eq]
  omega

theorem shiftToTargetExponent_eq (format : Format) (m : ℕ) (e : ℤ) (accuracy : Accuracy) :
    shiftToTargetExponent format m e accuracy =
      (ExtendedMantissa.ofMantissaAndAccuracy m accuracy >>> shiftOf format m e,
        e + shiftOf format m e) := rfl

theorem roundWithAccuracy_eq (format : Format) (s : Sign) (m : ℕ) (e : ℤ) (accuracy : Accuracy) :
    roundWithAccuracy format s m e accuracy =
      let r := roundedAt format m e accuracy
      let e' := e + shiftOf format m e
      if h : r / 2 ^ shiftOf format r e' = 0 then .zero s
      else .finite s (r / 2 ^ shiftOf format r e') (e' + shiftOf format r e')
        (Nat.pos_of_ne_zero h) := by
  simp only [roundWithAccuracy, shiftToTargetExponent_eq, mantissa_shift,
    mantissa_ofMantissaAndAccuracy]
  rfl

theorem shiftOf_carried (above : format.minExponent ≤ e) :
    shiftOf format (2 ^ format.mantissaBits) e = 1 := by
  rw [shiftOf, targetExponent_eq, Nat.log2_two_pow]
  omega

theorem rounds (format : Format) (s : Sign) (m : ℕ) (e : ℤ) (accuracy : Accuracy) :
    Rounds format s m e accuracy (roundWithAccuracy format s m e accuracy) := by
  have above := minExponent_le_shifted format m e
  rw [roundWithAccuracy_eq]
  dsimp only
  have bounded : roundedAt format m e accuracy ≤ 2 ^ format.mantissaBits := roundedAt_le_two_pow
  rcases bounded.lt_or_eq with short | full
  · have settled := shiftOf_of_short short above
    simp only [settled, pow_zero, Nat.div_one, Nat.cast_zero, add_zero]
    by_cases zero : roundedAt format m e accuracy = 0
    · rw [dif_pos zero]
      exact .vanishes zero
    · rw [dif_neg zero]
      exact .stays (Nat.pos_of_ne_zero zero) short
  · have half : 2 ^ format.mantissaBits / 2 = 2 ^ format.mantissaBitsWithoutImplicit := by
      rw [Format.mantissaBits, pow_add, pow_one, Nat.mul_div_cancel_left _ Nat.two_pos]
    simp only [full, shiftOf_carried above, pow_one, half, Nat.cast_one]
    rw [dif_neg (Nat.two_pow_pos _).ne']
    exact .carries full

/-- The number has a mantissa that can be packed, with an exponent that is not below the least. -/
structure Packable (format : Format) (m : ℕ) (e : ℤ) : Prop where
  short : m.log2 + 1 ≤ format.mantissaBits
  above : format.minExponent ≤ e

/-- The number has the exponent that the format has for it. -/
def Canonical (format : Format) (m : ℕ) (e : ℤ) : Prop :=
  format.targetExponent (totalExponent m e) = e

theorem canonical_iff :
    Canonical format m e ↔
      Packable format m e ∧ (e = format.minExponent ∨ m.log2 + 1 = format.mantissaBits) := by
  rw [Canonical, targetExponent_eq]
  constructor
  · intro canonical
    exact ⟨⟨by omega, by omega⟩, by omega⟩
  · rintro ⟨⟨short, above⟩, least | full⟩ <;> omega

theorem Rounds.packable {s' : Sign} {m' : ℕ} {e' : ℤ} {positive : 0 < m'}
    (h : Rounds format s m e accuracy (.finite s' m' e' positive)) :
    s' = s ∧ Packable format m' e' := by
  have above := minExponent_le_shifted format m e
  cases h with
  | stays _ short => exact ⟨rfl, log2_lt_of_short short, above⟩
  | carries full =>
    refine ⟨rfl, ?_, by omega⟩
    rw [Nat.log2_two_pow, Format.mantissaBits, Nat.add_comm]

/-- From the least exponent on, no number is lost, however little is known of its last digits. -/
theorem roundedAt_pos (positive : 0 < m) (above : format.minExponent ≤ e) :
    0 < roundedAt format m e accuracy := by
  refine Nat.lt_of_lt_of_le ?_ le_roundedAt
  refine Nat.div_pos (Nat.le_trans ?_ (Nat.log2_self_le positive.ne')) (Nat.two_pow_pos _)
  refine Nat.pow_le_pow_right Nat.two_pos ?_
  rw [shiftOf, targetExponent_eq, Format.mantissaBits]
  omega

theorem exists_finite_roundWithAccuracy (s : Sign) (accuracy : Accuracy) (positive : 0 < m)
    (above : format.minExponent ≤ e) :
    ∃ m' e' positive', roundWithAccuracy format s m e accuracy = .finite s m' e' positive' ∧
      Packable format m' e' := by
  have kept : 0 < roundedAt format m e accuracy := roundedAt_pos positive above
  have outcome := rounds format s m e accuracy
  cases h : roundWithAccuracy format s m e accuracy with
  | zero s' =>
    rw [h] at outcome
    cases outcome with
    | vanishes zero => exact absurd zero kept.ne'
  | finite s' m' e' positive' =>
    rw [h] at outcome
    obtain ⟨rfl, packable⟩ := outcome.packable
    exact ⟨m', e', positive', rfl, packable⟩
  | infinity s' => rw [h] at outcome; cases outcome
  | notANumber => rw [h] at outcome; cases outcome

/-- A number below the least exponent becomes zero if it is at most half of the least number. -/
theorem roundedAt_exact_eq_zero_iff (positive : 0 < m) :
    roundedAt format m e .exact = 0 ↔ 2 * m ≤ 2 ^ (format.minExponent - e).toNat := by
  have width {k : ℕ} (small : 2 * m ≤ 2 ^ k) : m.log2 + 1 ≤ k := by
    rw [← Nat.pow_le_pow_iff_right Nat.one_lt_two, pow_succ']
    exact (Nat.mul_le_mul_left 2 (Nat.log2_self_le positive.ne')).trans small
  have bits : 1 ≤ format.mantissaBits := Nat.le_add_right 1 _
  rw [roundedAt, roundedMantissa_shift_eq_zero_iff]
  constructor
  · intro small
    have long := width small
    have same : shiftOf format m e = (format.minExponent - e).toNat := by
      rw [shiftOf, targetExponent_eq] at long ⊢
      omega
    rwa [← same]
  · intro small
    have long := width small
    have same : shiftOf format m e = (format.minExponent - e).toNat := by
      rw [shiftOf, targetExponent_eq]
      omega
    rwa [same]

theorem roundWithAccuracy_exact_eq_zero_iff (positive : 0 < m) :
    (∃ s', roundWithAccuracy format s m e .exact = .zero s') ↔
      2 * m ≤ 2 ^ (format.minExponent - e).toNat := by
  rw [← roundedAt_exact_eq_zero_iff positive]
  have outcome := rounds format s m e .exact
  constructor
  · rintro ⟨s', gone⟩
    rw [gone] at outcome
    cases outcome with
    | vanishes zero => exact zero
  · intro zero
    cases h : roundWithAccuracy format s m e .exact with
    | zero s' => exact ⟨s', rfl⟩
    | finite s' m' e' positive' =>
      rw [h] at outcome
      cases outcome with
      | stays positive _ => exact absurd zero positive.ne'
      | carries full => exact absurd (full.symm.trans zero) (Nat.two_pow_pos _).ne'
    | infinity s' => rw [h] at outcome; cases outcome
    | notANumber => rw [h] at outcome; cases outcome

/-- Rounding a number that is not too short gives one with the exponent of the format. -/
theorem Rounds.canonical {s' : Sign} {m' : ℕ} {e' : ℤ} {positive : 0 < m'}
    (h : Rounds format s m e accuracy (.finite s' m' e' positive))
    (bounded : e ≤ format.targetExponent (totalExponent m e)) : Canonical format m' e' := by
  have packable := h.packable.2
  refine canonical_iff.mpr ⟨packable, ?_⟩
  have low : m / 2 ^ shiftOf format m e ≤ roundedAt format m e accuracy := le_roundedAt
  cases h with
  | stays positive' short =>
    refine or_iff_not_imp_left.mpr fun above => le_antisymm packable.short ?_
    rw [targetExponent_eq] at bounded
    have shift : m.log2 + 1 = format.mantissaBits + shiftOf format m e := by
      rw [shiftOf, targetExponent_eq] at above ⊢
      omega
    have nonzero : m ≠ 0 := by
      rintro rfl
      rw [Nat.log2_zero, Format.mantissaBits] at shift
      have bits := format.hm
      omega
    have long : 2 ^ format.mantissaBitsWithoutImplicit ≤ m / 2 ^ shiftOf format m e := by
      rw [Nat.le_div_iff_mul_le (Nat.two_pow_pos _), ← pow_add]
      refine (Nat.pow_le_pow_right Nat.two_pos ?_).trans (Nat.log2_self_le nonzero)
      rw [Format.mantissaBits] at shift
      omega
    have log := (Nat.le_log2 positive'.ne').mpr (long.trans low)
    rw [Format.mantissaBits]
    omega
  | carries full =>
    right
    rw [Nat.log2_two_pow, Format.mantissaBits, Nat.add_comm]

/-- A number of the format that lies below an exact value lies below what that is rounded to. -/
theorem Rounds.lower {m₀ : ℕ} {e₀ : ℤ} {j : ℕ} (canonical : Canonical format m₀ e₀)
    (positive₀ : 0 < m₀) (exponent : e + j = e₀) (below : m₀ * 2 ^ j ≤ m) {s' : Sign} {m' : ℕ}
    {e' : ℤ} {positive : 0 < m'} (h : Rounds format s m e accuracy (.finite s' m' e' positive)) :
    e₀ < e' ∨ e₀ = e' ∧ m₀ ≤ m' := by
  have log : m₀.log2 + j ≤ m.log2 := by
    have scaled : 0 < m₀ * 2 ^ j := Nat.mul_pos positive₀ (Nat.two_pow_pos j)
    rw [← log2_mul_two_pow positive₀, Nat.le_log2 (scaled.trans_le below).ne']
    exact (Nat.log2_self_le scaled.ne').trans below
  have shift : j ≤ shiftOf format m e := by
    rw [Canonical, targetExponent_eq] at canonical
    rw [shiftOf, targetExponent_eq]
    omega
  have low : m / 2 ^ shiftOf format m e ≤ roundedAt format m e accuracy := le_roundedAt
  cases h with
  | carries full => left; omega
  | stays positive' short =>
    rcases shift.lt_or_eq with longer | same
    · left
      omega
    · right
      refine ⟨by omega, Nat.le_trans ?_ low⟩
      rwa [← same, Nat.le_div_iff_mul_le (Nat.two_pow_pos _)]

end Round

section Sum
variable {format : Format} {s : Sign} {m m₁ m₂ : ℕ} {e e₁ e₂ : ℤ}

theorem round_eq (format : Format) (s : Sign) (m : ℕ) (e : ℤ) :
    UnpackedFloat.round format s m e =
      let d := (e - format.targetExponent (totalExponent m e)).toNat
      roundWithAccuracy format s (m * 2 ^ d) (e - d) .exact := by
  simp only [UnpackedFloat.round, decreaseExponent, Nat.shiftLeft_eq]

theorem targetExponent_mul_two_pow (format : Format) (positive : 0 < m) (e : ℤ) (k : ℕ) :
    format.targetExponent (totalExponent (m * 2 ^ k) (e - k)) =
      format.targetExponent (totalExponent m e) := by
  rw [targetExponent_eq, targetExponent_eq, log2_mul_two_pow positive]
  omega

/-- A positive exact value is rounded to a number of the format, and not below one that it is not
below. -/
theorem exists_round {m₀ : ℕ} {e₀ : ℤ} {j : ℕ} (canonical : Canonical format m₀ e₀)
    (positive₀ : 0 < m₀) (above : format.minExponent ≤ e) (exponent : e + j = e₀)
    (below : m₀ * 2 ^ j ≤ m) :
    ∃ m' e' positive, UnpackedFloat.round format s m e = .finite s m' e' positive ∧
      Canonical format m' e' ∧ (e₀ < e' ∨ e₀ = e' ∧ m₀ ≤ m') := by
  have positive : 0 < m := (Nat.mul_pos positive₀ (Nat.two_pow_pos j)).trans_le below
  set t := format.targetExponent (totalExponent m e) with target
  set d := (e - t).toNat with shift
  have same : format.targetExponent (totalExponent (m * 2 ^ d) (e - d)) = t :=
    targetExponent_mul_two_pow format positive e d
  have least : format.minExponent ≤ t := le_max_right _ _
  have exact_value : m₀ * 2 ^ (j + d) ≤ m * 2 ^ d := by
    rw [pow_add, ← mul_assoc]
    exact Nat.mul_le_mul_right _ below
  obtain ⟨m', e', positive', rounded, -⟩ := exists_finite_roundWithAccuracy s .exact
    (Nat.mul_pos positive (Nat.two_pow_pos d)) (show format.minExponent ≤ e - d by omega)
  have outcome := rounds format s (m * 2 ^ d) (e - d) .exact
  rw [rounded] at outcome
  refine ⟨m', e', positive', (round_eq format s m e).trans rounded, ?_, ?_⟩
  · exact outcome.canonical (by omega)
  · exact outcome.lower canonical positive₀ (j := j + d) (by omega) exact_value

theorem normalize_apply (format : Format) (s z : Sign) (positive : 0 < m) (e : ℤ) :
    UnpackedFloat.normalize format (s.apply m) e z = UnpackedFloat.round format s m e := by
  cases s with
  | negative =>
    have less : compare (-(m : ℤ)) 0 = .lt := compare_lt_iff_lt.mpr (by omega)
    simp only [UnpackedFloat.normalize, Sign.apply, less, neg_neg, Int.toNat_natCast]
  | positive =>
    have greater : compare (m : ℤ) 0 = .gt := compare_gt_iff_gt.mpr (by omega)
    simp only [UnpackedFloat.normalize, Sign.apply, greater, Int.toNat_natCast]

theorem apply_add (s : Sign) (x y : ℤ) : s.apply (x + y) = s.apply x + s.apply y := by
  cases s with
  | negative => exact neg_add x y
  | positive => rfl

theorem apply_neg (s : Sign) (x : ℤ) : (-s).apply x = -s.apply x := by
  cases s with
  | negative => exact (neg_neg x).symm
  | positive => rfl

/-- The exact sum of two mantissas, at the smaller of their exponents. -/
def sumMantissa (m₁ : ℕ) (e₁ : ℤ) (m₂ : ℕ) (e₂ : ℤ) : ℕ :=
  m₁ * 2 ^ (e₁ - min e₁ e₂).toNat + m₂ * 2 ^ (e₂ - min e₁ e₂).toNat

theorem sumMantissa_pos (positive₁ : 0 < m₁) : 0 < sumMantissa m₁ e₁ m₂ e₂ :=
  Nat.add_pos_left (Nat.mul_pos positive₁ (Nat.two_pow_pos _)) _

/-- Numbers of one sign add up. -/
theorem add_finite (format : Format) (s : Sign) (positive₁ : 0 < m₁) (positive₂ : 0 < m₂) :
    UnpackedFloat.add format (.finite s m₁ e₁ positive₁) (.finite s m₂ e₂ positive₂) =
      UnpackedFloat.round format s (sumMantissa m₁ e₁ m₂ e₂) (min e₁ e₂) := by
  rw [← normalize_apply format s .positive (sumMantissa_pos positive₁)]
  simp only [UnpackedFloat.add, decreaseExponent, Nat.shiftLeft_eq, sumMantissa]
  rw [Nat.cast_add, apply_add]

/-- A sum of numbers of one sign is a number of the format, at least as far from zero as the first
of them. -/
theorem exists_round_sum (positive₁ : 0 < m₁) (canonical₁ : Canonical format m₁ e₁)
    (canonical₂ : Canonical format m₂ e₂) :
    ∃ m' e' positive, UnpackedFloat.round format s (sumMantissa m₁ e₁ m₂ e₂) (min e₁ e₂) =
        .finite s m' e' positive ∧ Canonical format m' e' ∧ (e₁ < e' ∨ e₁ = e' ∧ m₁ ≤ m') := by
  have above₁ := (canonical_iff.mp canonical₁).1.above
  have above₂ := (canonical_iff.mp canonical₂).1.above
  exact exists_round canonical₁ positive₁ (le_min above₁ above₂) (by omega)
    (Nat.le_add_right _ _)

end Sum

section Root
variable {format : Format} {m : ℕ} {e : ℤ}

theorem minExponent_nonpos (format : Format) : format.minExponent ≤ 0 := by
  have power : (1 : ℤ) ≤ 2 ^ (format.exponentBits - 1) := one_le_pow₀ (by decide)
  have bits := format.hm
  rw [Format.minExponent, Format.mantissaBits]
  omega

/-- The root of a positive number is a positive number of the format. -/
theorem exists_sqrt (positive : 0 < m) (above : format.minExponent ≤ e) :
    ∃ m' e' positive', UnpackedFloat.sqrt format (.finite .positive m e positive) =
      .finite .positive m' e' positive' ∧ Packable format m' e' := by
  have least := minExponent_nonpos format
  have half : e.ediv 2 = e / 2 := rfl
  refine exists_finite_roundWithAccuracy _ _ ?_ ?_
  · refine Nat.sqrt_pos.mpr ?_
    rw [Nat.shiftLeft_eq]
    exact Nat.mul_pos positive (Nat.two_pow_pos _)
  · refine le_min ?_ (le_max_right _ _)
    omega

end Root

section Pack
variable {format : Format} {m : ℕ} {e : ℤ}

theorem minExponent_eq (format : Format) :
    format.minExponent = 1 - format.exponentBias - format.mantissaBitsWithoutImplicit := by
  have power : ((2 ^ (format.exponentBits - 1) : ℕ) : ℤ) = 2 ^ (format.exponentBits - 1) := by
    rw [Nat.cast_pow, Nat.cast_ofNat]
  have positive := Nat.two_pow_pos (format.exponentBits - 1)
  rw [Format.minExponent, Format.mantissaBits, Format.exponentBias, ← power]
  omega

theorem ofBitVec_unpackSign (s : Sign) (exponent : BitVec format.exponentBits)
    (mantissa : BitVec format.mantissaBitsWithoutImplicit) :
    Sign.ofBitVec (unpackSign (packComponents format s exponent mantissa)) = s := by
  have sign : unpackSign (packComponents format s exponent mantissa) = s.toBitVec := by
    ext i hi
    obtain rfl : i = 0 := by omega
    simp [unpackSign, packComponents, BitVec.getLsbD_append, BitVec.getElem_append]
  rw [sign]
  cases s <;> rfl

/-- What can be packed comes back as it was, or is too large and comes back as infinity. -/
theorem unpack_pack_finite (packable : Packable format m e) (s : Sign) (positive : 0 < m) :
    UnpackedFloat.unpack format (UnpackedFloat.pack format (.finite s m e positive)) =
        .infinity s ∨
      ∃ e', UnpackedFloat.unpack format (UnpackedFloat.pack format (.finite s m e positive)) =
        .finite s m e' positive ∧ (Canonical format m e → e' = e) := by
  have least := minExponent_eq format
  obtain ⟨short, above⟩ := packable
  rw [UnpackedFloat.pack]
  split
  · left
    simp [UnpackedFloat.unpack, packedInfinity]
  · next small =>
    right
    have self := Nat.log2_self_le positive.ne'
    have next := Nat.lt_log2_self (n := m)
    split
    · next full =>
      have width : m.log2 = format.mantissaBitsWithoutImplicit := by
        rw [Format.mantissaBits] at full
        omega
      have implicit : (1#1 ++ BitVec.ofNat format.mantissaBitsWithoutImplicit m).toNat = m := by
        rw [width, pow_succ] at next
        rw [width] at self
        have one : (1#1).toNat = 1 := rfl
        have rest : (BitVec.ofNat format.mantissaBitsWithoutImplicit m).toNat =
            m - 2 ^ format.mantissaBitsWithoutImplicit := by
          rw [BitVec.toNat_ofNat, Nat.mod_eq_sub_mod self, Nat.mod_eq_of_lt (by omega)]
        rw [BitVec.toNat_append, ← Nat.shiftLeft_add_eq_or_of_lt (BitVec.isLt _), Nat.shiftLeft_eq,
          one, rest]
        omega
      have code : (BitVec.ofNat format.exponentBits
          (e + format.exponentBias + format.mantissaBitsWithoutImplicit).toNat).toNat =
            e + format.exponentBias + format.mantissaBitsWithoutImplicit := by
        rw [BitVec.toNat_ofNat, Nat.mod_eq_of_lt (by omega)]
        omega
      have largest : BitVec.ofNat format.exponentBits
          (e + format.exponentBias + format.mantissaBitsWithoutImplicit).toNat ≠ -1#_ :=
        ne_largest_iff.mpr (by omega)
      have smallest : BitVec.ofNat format.exponentBits
          (e + format.exponentBias + format.mantissaBitsWithoutImplicit).toNat ≠ 0#_ := by
        intro zero
        rw [zero, BitVec.toNat_ofNat, Nat.zero_mod] at code
        omega
      refine ⟨e, ?_, fun _ => rfl⟩
      simp only [UnpackedFloat.unpack, unpackExponent_packComponents,
        unpackMantissa_packComponents, ofBitVec_unpackSign, if_neg largest, if_neg smallest,
        UnpackedFloat.finite.injEq, true_and]
      exact ⟨implicit, by omega⟩
    · next subnormal =>
      have below : m < 2 ^ format.mantissaBitsWithoutImplicit := by
        refine next.trans_le (Nat.pow_le_pow_right Nat.two_pos ?_)
        rw [Format.mantissaBits] at short subnormal
        omega
      have digits : (BitVec.ofNat format.mantissaBitsWithoutImplicit m).toNat = m := by
        rw [BitVec.toNat_ofNat, Nat.mod_eq_of_lt below]
      have nonempty : BitVec.ofNat format.mantissaBitsWithoutImplicit m ≠ 0#_ := by
        rw [ne_eq, ← BitVec.toNat_inj, digits, BitVec.toNat_ofNat, Nat.zero_mod]
        exact positive.ne'
      have largest : (0#_ : BitVec format.exponentBits) ≠ -1#_ :=
        ne_largest_iff.mpr zero_add_one_lt
      refine ⟨format.minExponent, ?_, fun canonical => ?_⟩
      · simp only [UnpackedFloat.unpack, unpackExponent_packComponents,
          unpackMantissa_packComponents, ofBitVec_unpackSign, if_neg largest, if_true,
          dif_neg nonempty, UnpackedFloat.finite.injEq, true_and, digits, BitVec.toNat_ofNat,
          Nat.zero_mod]
        omega
      · rcases (canonical_iff.mp canonical).2 with least | full
        · exact least.symm
        · exact absurd full subnormal

end Pack
end DualOpt
