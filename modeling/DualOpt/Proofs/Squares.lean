import Mathlib
import DualOpt.Proofs.Comparison
import DualOpt.Proofs.Rounding

/-!
Squares, their sums and the roots of these.

A square can round to zero, and does so up to some largest scalar. Nothing else is lost: a sum of
what is not negative is zero only if both summands are, a root only if its argument is, and a
difference of two scalars on opposite sides of zero lies at least as far from it as the first.
-/
namespace DualOpt

/-- What the norm of a vector asks of an arithmetic. -/
class SquareRules (F : Type) [Scalar F] extends NaNRules F, ComparisonRules F where
  /-- The largest scalar whose square rounds to zero. -/
  vanishing : F
  vanishing_nonneg : 0 ≤ vanishing
  mul_self_eq_zero_iff {x : F} : (x * x == 0) = true ↔ -vanishing ≤ x ∧ x ≤ vanishing
  mul_self_nonneg {x : F} (number : Scalar.isNaN x = false) : 0 ≤ x * x
  zero : ((0 : F) == 0) = true
  add_zero {x y : F} (hx : (x == 0) = true) (hy : (y == 0) = true) : (x + y == 0) = true
  add_comm (x y : F) : x + y = y + x
  le_add {x y : F} (hx : 0 ≤ x) (hy : 0 ≤ y) : x ≤ x + y
  le_sub {x y : F} (hx : 0 ≤ x) (hy : y ≤ 0) : x ≤ x - y
  sub_le {x y : F} (hx : x ≤ 0) (hy : 0 ≤ y) : x - y ≤ x
  neg_nonpos {x : F} (hx : 0 ≤ x) : -x ≤ 0
  sqrt_nonneg {x : F} (hx : 0 ≤ x) : 0 ≤ Scalar.sqrt x
  sqrt_eq_zero_iff {x : F} (hx : 0 ≤ x) : (Scalar.sqrt x == 0) = true ↔ (x == 0) = true
  isNaN_neg {x : F} (nan : Scalar.isNaN x = true) : Scalar.isNaN (-x) = true
  isNaN_sub_left {x : F} (y : F) (nan : Scalar.isNaN x = true) : Scalar.isNaN (x - y) = true
  isNaN_sub_right (x : F) {y : F} (nan : Scalar.isNaN y = true) : Scalar.isNaN (x - y) = true

open Float.Model UnpackedFloat

section Unpacked
variable {format : Format} {s : Sign} {a b c : UnpackedFloat}

/-- Zero, or on one side of it. -/
inductive Sided (s : Sign) : UnpackedFloat → Prop
  | zero (s' : Sign) : Sided s (.zero s')
  | finite (m : ℕ) (e : ℤ) (positive : 0 < m) : Sided s (.finite s m e positive)
  | infinity : Sided s (.infinity s)

/-- At least as far from zero, on the same side. -/
inductive Beyond (s : Sign) : UnpackedFloat → UnpackedFloat → Prop
  | zero {c : UnpackedFloat} (s' : Sign) (sided : Sided s c) : Beyond s (.zero s') c
  | finite {m m' : ℕ} {e e' : ℤ} (positive : 0 < m) (positive' : 0 < m')
      (farther : e < e' ∨ e = e' ∧ m ≤ m') :
      Beyond s (.finite s m e positive) (.finite s m' e' positive')
  | infinity {a : UnpackedFloat} (sided : Sided s a) : Beyond s a (.infinity s)

/-- A finite number has the exponent that the format has for it. -/
def Stored (format : Format) (a : UnpackedFloat) : Prop :=
  ∀ s m e positive, a = .finite s m e positive → Canonical format m e

theorem stored_unpack (format : Format) (x : BitVec format.numBits) :
    Stored format (UnpackedFloat.unpack format x) :=
  fun _ _ _ _ h => targetExponent_of_unpack h

theorem stored_finite {m : ℕ} {e : ℤ} (positive : 0 < m) (canonical : Canonical format m e) :
    Stored format (.finite s m e positive) := by
  intro s' m' e' positive' same
  cases same
  exact canonical

theorem unpacked_nonneg_iff : (UnpackedFloat.zero .positive).le a = true ↔ Sided .positive a := by
  constructor
  · intro le
    cases a with
    | notANumber => cases le
    | zero s => exact .zero s
    | infinity s =>
      cases s with
      | negative => cases le
      | positive => exact .infinity
    | finite s m e positive =>
      cases s with
      | negative => cases le
      | positive => exact .finite m e positive
  · rintro (s | ⟨m, e, positive⟩ | _) <;> rfl

theorem unpacked_nonpos_iff : a.le (.zero .positive) = true ↔ Sided .negative a := by
  constructor
  · intro le
    cases a with
    | notANumber => cases le
    | zero s => exact .zero s
    | infinity s =>
      cases s with
      | negative => exact .infinity
      | positive => cases le
    | finite s m e positive =>
      cases s with
      | negative => exact .finite m e positive
      | positive => cases le
  · rintro (s | ⟨m, e, positive⟩ | _) <;> rfl

theorem unpacked_finite_le_iff {m m' : ℕ} {e e' : ℤ} {positive : 0 < m} {positive' : 0 < m'} :
    (UnpackedFloat.finite .positive m e positive).le (.finite .positive m' e' positive') = true ↔
      e < e' ∨ e = e' ∧ m ≤ m' := by
  simp [unpacked_le_iff, unpackedRank, UnpackedFloat.isNaN, Prod.Lex.toLex_le_toLex]

theorem unpacked_negative_le_iff {m m' : ℕ} {e e' : ℤ} {positive : 0 < m} {positive' : 0 < m'} :
    (UnpackedFloat.finite .negative m' e' positive').le (.finite .negative m e positive) = true ↔
      e < e' ∨ e' = e ∧ m ≤ m' := by
  simp [unpacked_le_iff, unpackedRank, UnpackedFloat.isNaN, Prod.Lex.toLex_le_toLex]

theorem Beyond.le (h : Beyond .positive a c) : a.le c = true := by
  cases h with
  | zero s' sided =>
    cases sided with
    | zero s'' => rfl
    | finite m e positive => rfl
    | infinity => rfl
  | finite positive positive' farther => exact unpacked_finite_le_iff.mpr farther
  | infinity sided =>
    cases sided with
    | zero s'' => rfl
    | finite m e positive => rfl
    | infinity => rfl

theorem Beyond.ge (h : Beyond .negative a c) : c.le a = true := by
  cases h with
  | zero s' sided =>
    cases sided with
    | zero s'' => rfl
    | finite m e positive => rfl
    | infinity => rfl
  | finite positive positive' farther =>
    exact unpacked_negative_le_iff.mpr (farther.imp_right fun ⟨same, le⟩ => ⟨same.symm, le⟩)
  | infinity sided =>
    cases sided with
    | zero s'' => rfl
    | finite m e positive => rfl
    | infinity => rfl

theorem Sided.neg (h : Sided s a) : Sided (-s) a.neg := by
  cases h with
  | zero s' => exact .zero (-s')
  | finite m e positive => exact .finite m e positive
  | infinity => exact .infinity

theorem Sided.beyond_self (h : Sided s a) : Beyond s a a := by
  cases h with
  | zero s' => exact .zero s' (.zero s')
  | finite m e positive => exact .finite positive positive (.inr ⟨rfl, le_refl m⟩)
  | infinity => exact .infinity .infinity

/-- A sum on one side of zero lies beyond its first summand. -/
theorem beyond_add (ha : Sided s a) (hb : Sided s b) (stored_a : Stored format a)
    (stored_b : Stored format b) :
    Beyond s a (UnpackedFloat.add format a b) ∧ Stored format (UnpackedFloat.add format a b) := by
  cases ha with
  | zero s' =>
    cases hb with
    | zero s'' =>
      obtain ⟨z, hz⟩ := unpacked_add_zero format s' s''
      rw [hz]
      exact ⟨.zero s' (.zero z), nofun⟩
    | finite m e positive => exact ⟨.zero s' (.finite m e positive), stored_b⟩
    | infinity => exact ⟨.zero s' .infinity, stored_b⟩
  | finite m e positive =>
    cases hb with
    | zero s'' => exact ⟨(Sided.finite m e positive).beyond_self, stored_a⟩
    | finite m' e' positive' =>
      obtain ⟨m'', e'', positive'', sum, canonical, farther⟩ := exists_round_sum positive
        (stored_a _ _ _ _ rfl) (stored_b _ _ _ _ rfl)
      rw [add_finite, sum]
      exact ⟨.finite positive positive'' farther, stored_finite positive'' canonical⟩
    | infinity => exact ⟨.infinity (.finite m e positive), stored_b⟩
  | infinity =>
    cases hb with
    | zero s'' => exact ⟨.infinity .infinity, stored_a⟩
    | finite m e positive => exact ⟨.infinity .infinity, stored_a⟩
    | infinity =>
      have same : UnpackedFloat.add format (.infinity s) (.infinity s) = .infinity s := by
        cases s <;> rfl
      rw [same]
      exact ⟨.infinity .infinity, stored_a⟩

theorem unpacked_sub_eq_add_neg (format : Format) (a b : UnpackedFloat) :
    UnpackedFloat.sub format a b = UnpackedFloat.add format a b.neg := by
  cases a with
  | notANumber => rfl
  | infinity s => cases b <;> rfl
  | zero s => cases b <;> rfl
  | finite s m e positive =>
    cases b with
    | finite s' m' e' positive' =>
      simp only [UnpackedFloat.sub, UnpackedFloat.add, UnpackedFloat.neg, apply_neg, sub_eq_add_neg]
    | notANumber => rfl
    | infinity s' => rfl
    | zero s' => rfl

theorem Stored.neg (stored : Stored format a) : Stored format a.neg := by
  cases a with
  | finite s m e positive => exact stored_finite positive (stored _ _ _ _ rfl)
  | notANumber => nofun
  | infinity s => nofun
  | zero s => nofun

/-- A difference of numbers on opposite sides of zero lies beyond the first of them. -/
theorem beyond_sub (ha : Sided s a) (hb : Sided (-s) b) (stored_a : Stored format a)
    (stored_b : Stored format b) :
    Beyond s a (UnpackedFloat.sub format a b) ∧ Stored format (UnpackedFloat.sub format a b) := by
  have turned : Sided s b.neg := by
    have opposite := hb.neg
    rwa [show -(-s) = s by cases s <;> rfl] at opposite
  rw [unpacked_sub_eq_add_neg]
  exact beyond_add ha turned stored_a stored_b.neg

theorem unpacked_add_comm (format : Format) (a b : UnpackedFloat) :
    UnpackedFloat.add format a b = UnpackedFloat.add format b a := by
  cases a with
  | notANumber => cases b <;> rfl
  | infinity s =>
    cases b with
    | infinity s' => cases s <;> cases s' <;> rfl
    | notANumber => rfl
    | zero s' => rfl
    | finite s' m' e' positive' => rfl
  | zero s =>
    cases b with
    | zero s' => cases s <;> cases s' <;> rfl
    | notANumber => rfl
    | infinity s' => rfl
    | finite s' m' e' positive' => rfl
  | finite s m e positive =>
    cases b with
    | finite s' m' e' positive' =>
      simp only [UnpackedFloat.add, min_comm e e', add_comm]
    | notANumber => rfl
    | infinity s' => rfl
    | zero s' => rfl

/-- The root of what is not negative is not negative, and zero only if its argument is. -/
theorem unpacked_sqrt (ha : Sided .positive a) (stored : Stored format a) :
    (∃ s', a = .zero s' ∧ UnpackedFloat.sqrt format a = .zero s') ∨
      UnpackedFloat.sqrt format a = .infinity .positive ∨
      ∃ m e positive, UnpackedFloat.sqrt format a = .finite .positive m e positive ∧
        Packable format m e := by
  cases ha with
  | zero s' => exact .inl ⟨s', rfl, rfl⟩
  | infinity => exact .inr (.inl rfl)
  | finite m e positive =>
    have above := (canonical_iff.mp (stored _ _ _ _ rfl)).1.above
    exact .inr (.inr (exists_sqrt positive above))

/-- The last number whose square is rounded to zero, by mantissa and exponent: doubled, the square
is at most one in the `k` digits that lie below the least exponent. -/
structure LastVanishing (format : Format) (m₀ : ℕ) (e₀ : ℤ) (k : ℕ) : Prop where
  above : format.minExponent ≤ e₀
  digits : format.minExponent - (e₀ + e₀) = k
  narrow : 2 * format.mantissaBits ≤ k + 1
  wide : k ≤ 2 * format.mantissaBits
  last : 2 * (m₀ * m₀) ≤ 2 ^ k
  next : 2 ^ k < 2 * ((m₀ + 1) * (m₀ + 1))

theorem LastVanishing.iff {m m₀ k : ℕ} {e e₀ : ℤ} (vanishing : LastVanishing format m₀ e₀ k)
    (positive : 0 < m) (canonical : Canonical format m e) :
    2 * (m * m) ≤ 2 ^ (format.minExponent - (e + e)).toNat ↔ e < e₀ ∨ e = e₀ ∧ m ≤ m₀ := by
  obtain ⟨above, digits, narrow, wide, last, next⟩ := vanishing
  obtain ⟨⟨short, -⟩, normal⟩ := canonical_iff.mp canonical
  rcases lt_trichotomy e e₀ with lower | rfl | higher
  · refine iff_of_true ?_ (.inl lower)
    have bound : m < 2 ^ format.mantissaBits :=
      Nat.lt_log2_self.trans_le (Nat.pow_le_pow_right Nat.two_pos short)
    calc 2 * (m * m) ≤ 2 * (2 ^ format.mantissaBits * 2 ^ format.mantissaBits) :=
          Nat.mul_le_mul_left 2 (Nat.mul_le_mul bound.le bound.le)
      _ = 2 ^ (2 * format.mantissaBits + 1) := by rw [← pow_add, ← two_mul, pow_succ']
      _ ≤ 2 ^ (format.minExponent - (e + e)).toNat :=
          Nat.pow_le_pow_right Nat.two_pos (by omega)
  · have exponent : (format.minExponent - (e + e)).toNat = k := by omega
    rw [exponent]
    constructor
    · intro small
      refine .inr ⟨rfl, ?_⟩
      by_contra large
      have square := Nat.mul_le_mul (Nat.not_le.mp large) (Nat.not_le.mp large)
      rw [Nat.succ_eq_add_one] at square
      omega
    · rintro (less | ⟨-, le⟩)
      · exact absurd less (lt_irrefl e)
      · exact (Nat.mul_le_mul_left 2 (Nat.mul_le_mul le le)).trans last
  · refine iff_of_false (Nat.not_le.mpr ?_) (by omega)
    have full : m.log2 + 1 = format.mantissaBits := by omega
    have self := Nat.log2_self_le positive.ne'
    calc 2 ^ (format.minExponent - (e + e)).toNat < 2 ^ (2 * m.log2 + 1) :=
          Nat.pow_lt_pow_right Nat.one_lt_two (by omega)
      _ = 2 * (2 ^ m.log2 * 2 ^ m.log2) := by rw [← pow_add, ← two_mul, pow_succ']
      _ ≤ 2 * (m * m) := Nat.mul_le_mul_left 2 (Nat.mul_le_mul self self)

theorem unpacked_mul_self_finite (format : Format) (s : Sign) {m : ℕ} (e : ℤ) (positive : 0 < m) :
    UnpackedFloat.mul format (.finite s m e positive) (.finite s m e positive) =
      roundWithAccuracy format .positive (m * m) (e + e) .exact := by
  cases s <;> rfl

end Unpacked

/-- Packed numbers with their order and roots. What is unpacked has the exponents of the format. -/
structure StoredIn {F : Type} [Scalar F] (format : Format) (unpacked : F → UnpackedFloat)
    (packed : UnpackedFloat → F) : Prop extends PackedIn format unpacked packed where
  zero : unpacked 0 = .zero .positive
  le_iff (x y : F) : x ≤ y ↔ (unpacked x).le (unpacked y) = true
  sqrt (x : F) : Scalar.sqrt x = packed (UnpackedFloat.sqrt format (unpacked x))
  stored (x : F) : Stored format (unpacked x)
  unpacked_packed (a : UnpackedFloat) :
    unpacked (packed a) = UnpackedFloat.unpack format (UnpackedFloat.pack format a)

namespace StoredIn
variable {F : Type} [Scalar F] {format : Format} {unpacked : F → UnpackedFloat}
variable {packed : UnpackedFloat → F} (h : StoredIn format unpacked packed)
variable {s : Sign} {a c : UnpackedFloat} {x y : F}
include h

theorem nonneg_iff : 0 ≤ x ↔ Sided .positive (unpacked x) := by
  rw [h.le_iff, h.zero, unpacked_nonneg_iff]

theorem nonpos_iff : x ≤ 0 ↔ Sided .negative (unpacked x) := by
  rw [h.le_iff, h.zero, unpacked_nonpos_iff]

theorem unpacked_packed_finite {m : ℕ} {e : ℤ} (packable : Packable format m e) (positive : 0 < m) :
    unpacked (packed (.finite s m e positive)) = .infinity s ∨
      ∃ e', unpacked (packed (.finite s m e positive)) = .finite s m e' positive ∧
        (Canonical format m e → e' = e) := by
  rw [h.unpacked_packed]
  exact unpack_pack_finite packable s positive

/-- What fits is packed into something on its side that is not zero. -/
theorem sided_packed_finite {m : ℕ} {e : ℤ} (packable : Packable format m e) (positive : 0 < m) :
    Sided s (unpacked (packed (.finite s m e positive))) ∧
      (packed (.finite s m e positive) == 0) = false := by
  rw [Bool.eq_false_iff, ne_eq, h.isZero_iff]
  rcases h.unpacked_packed_finite (s := s) packable positive with same | ⟨e', same, -⟩
  · rw [same]
    exact ⟨.infinity, nofun⟩
  · rw [same]
    exact ⟨.finite m e' positive, nofun⟩

theorem beyond_packed (beyond : Beyond s a c) (stored : Stored format c) :
    Beyond s a (unpacked (packed c)) := by
  cases beyond with
  | zero s' sided =>
    refine .zero s' ?_
    cases sided with
    | zero s'' =>
      rw [h.unpacked_zero]
      exact .zero s''
    | finite m e positive =>
      exact (h.sided_packed_finite (canonical_iff.mp (stored _ _ _ _ rfl)).1 positive).1
    | infinity =>
      rw [h.unpacked_infinity]
      exact .infinity
  | finite positive positive' farther =>
    have canonical := stored _ _ _ _ rfl
    rcases h.unpacked_packed_finite (s := s) (canonical_iff.mp canonical).1 positive' with
      same | ⟨e', same, exponent⟩
    · rw [same]
      exact .infinity (.finite _ _ positive)
    · rw [same, exponent canonical]
      exact .finite positive positive' farther
  | infinity sided =>
    rw [h.unpacked_infinity]
    exact .infinity sided

theorem unpacked_neg (x : F) : unpacked (-x) = (unpacked x).neg := by
  rw [h.neg]
  cases hx : unpacked x with
  | notANumber => exact h.unpacked_notANumber
  | infinity s => exact h.unpacked_infinity (-s)
  | zero s => exact h.unpacked_zero (-s)
  | finite s m e positive =>
    have canonical := h.stored x _ _ _ _ hx
    have finite := h.isFinite_neg (x := x) (by rw [hx]; rfl)
    rw [hx] at finite
    rcases h.unpacked_packed_finite (s := -s) (canonical_iff.mp canonical).1 positive with
      same | ⟨e', same, exponent⟩
    · rw [UnpackedFloat.neg, same] at finite
      cases finite
    · rw [UnpackedFloat.neg, same, exponent canonical]

theorem sided_add (hx : Sided s (unpacked x)) (hy : Sided s (unpacked y)) :
    Beyond s (unpacked x) (unpacked (x + y)) := by
  obtain ⟨beyond, stored⟩ := beyond_add hx hy (h.stored x) (h.stored y)
  rw [h.add]
  exact h.beyond_packed beyond stored

theorem sided_sub (hx : Sided s (unpacked x)) (hy : Sided (-s) (unpacked y)) :
    Beyond s (unpacked x) (unpacked (x - y)) := by
  obtain ⟨beyond, stored⟩ := beyond_sub hx hy (h.stored x) (h.stored y)
  rw [h.sub]
  exact h.beyond_packed beyond stored

/-- A square is not negative, and whether it is zero is decided by its mantissa and exponent. -/
theorem sided_mul_self {m₀ k : ℕ} {e₀ : ℤ} (vanishing : LastVanishing format m₀ e₀ k)
    {m : ℕ} {e : ℤ} {positive : 0 < m} (hx : unpacked x = .finite s m e positive) :
    Sided .positive (unpacked (x * x)) ∧
      ((x * x == 0) = true ↔ e < e₀ ∨ e = e₀ ∧ m ≤ m₀) := by
  have square := Nat.mul_pos positive positive
  rw [← vanishing.iff positive (h.stored x _ _ _ _ hx),
    ← roundWithAccuracy_exact_eq_zero_iff (s := .positive) square, h.mul, hx,
    unpacked_mul_self_finite]
  have outcome := rounds format .positive (m * m) (e + e) .exact
  cases rounded : roundWithAccuracy format .positive (m * m) (e + e) .exact with
  | zero s' =>
    rw [h.unpacked_zero]
    exact ⟨.zero s', iff_of_true (h.isZero_packed ⟨s', rfl⟩) ⟨s', rfl⟩⟩
  | finite s' m' e' positive' =>
    rw [rounded] at outcome
    obtain ⟨rfl, packable⟩ := outcome.packable
    obtain ⟨sided, nonzero⟩ := h.sided_packed_finite (s := .positive) packable positive'
    exact ⟨sided, iff_of_false (Bool.eq_false_iff.mp nonzero) nofun⟩
  | infinity s' => rw [rounded] at outcome; cases outcome
  | notANumber => rw [rounded] at outcome; cases outcome

theorem sided_sqrt (hx : Sided .positive (unpacked x)) :
    Sided .positive (unpacked (Scalar.sqrt x)) ∧
      ((Scalar.sqrt x == 0) = true ↔ (x == 0) = true) := by
  rw [h.sqrt]
  rcases unpacked_sqrt hx (h.stored x) with
    ⟨s', zero, root⟩ | root | ⟨m, e, positive, root, packable⟩
  · rw [root, h.unpacked_zero]
    exact ⟨.zero s', iff_of_true (h.isZero_packed ⟨s', rfl⟩) (h.isZero_iff.mpr ⟨s', zero⟩)⟩
  · have nonzero : ¬ ∃ s', unpacked x = .zero s' := by
      rintro ⟨s', zero⟩
      rw [zero] at root
      cases root
    rw [root, h.isZero_iff, h.isZero_iff, h.unpacked_infinity]
    exact ⟨.infinity, iff_of_false nofun nonzero⟩
  · have nonzero : ¬ ∃ s', unpacked x = .zero s' := by
      rintro ⟨s', zero⟩
      rw [zero] at root
      cases root
    obtain ⟨sided, kept⟩ := h.sided_packed_finite (s := .positive) packable positive
    rw [root, h.isZero_iff (x := x)]
    exact ⟨sided, iff_of_false (Bool.eq_false_iff.mp kept) nonzero⟩

/-- The interval in which squares vanish, by mantissa and exponent. -/
theorem between_iff {t : F} {m₀ : ℕ} {e₀ : ℤ} {positive₀ : 0 < m₀}
    (ht : unpacked t = .finite .positive m₀ e₀ positive₀) {m : ℕ} {e : ℤ} {positive : 0 < m}
    (hx : unpacked x = .finite s m e positive) :
    -t ≤ x ∧ x ≤ t ↔ e < e₀ ∨ e = e₀ ∧ m ≤ m₀ := by
  rw [h.le_iff, h.le_iff, h.unpacked_neg, ht, hx, UnpackedFloat.neg]
  cases s with
  | positive =>
    rw [unpacked_finite_le_iff]
    exact and_iff_right rfl
  | negative =>
    rw [show -Sign.positive = Sign.negative from rfl, unpacked_negative_le_iff, eq_comm (a := e₀)]
    exact and_iff_left rfl

theorem mul_self_eq_zero_iff [ZeroRules F] {t : F} {m₀ k : ℕ} {e₀ : ℤ} {positive₀ : 0 < m₀}
    (ht : unpacked t = .finite .positive m₀ e₀ positive₀)
    (vanishing : LastVanishing format m₀ e₀ k) (x : F) :
    (x * x == 0) = true ↔ -t ≤ x ∧ x ≤ t := by
  cases hx : unpacked x with
  | finite s m e positive =>
    rw [(h.sided_mul_self vanishing hx).2, h.between_iff ht hx]
  | zero s =>
    have zero : (x == 0) = true := h.isZero_iff.mpr ⟨s, hx⟩
    have finite : Scalar.isFinite x = true := by rw [h.isFinite, hx]; rfl
    rw [h.le_iff, h.le_iff, h.unpacked_neg, ht, hx]
    exact iff_of_true (ZeroRules.mul zero finite) ⟨rfl, rfl⟩
  | infinity s =>
    rw [h.le_iff, h.le_iff, h.unpacked_neg, ht, hx, h.isZero_iff, h.mul, hx]
    have square : UnpackedFloat.mul format (.infinity s) (.infinity s) = .infinity .positive := by
      cases s <;> rfl
    rw [square, h.unpacked_infinity]
    refine iff_of_false nofun ?_
    rintro ⟨low, high⟩
    cases s with
    | positive => cases high
    | negative => cases low
  | notANumber =>
    have nan : Scalar.isNaN x = true := by rw [h.isNaN, hx]; rfl
    rw [ZeroRules.nonzero_of_isNaN (NaNRules.mul_left x nan), h.le_iff, h.le_iff, ht, hx]
    exact iff_of_false Bool.false_ne_true (by rintro ⟨-, high⟩; cases high)

theorem mul_self_nonneg {m₀ k : ℕ} {e₀ : ℤ} (vanishing : LastVanishing format m₀ e₀ k)
    (number : Scalar.isNaN x = false) : 0 ≤ x * x := by
  rw [h.nonneg_iff]
  cases hx : unpacked x with
  | finite s m e positive => exact (h.sided_mul_self vanishing hx).1
  | zero s =>
    have square : UnpackedFloat.mul format (.zero s) (.zero s) = .zero .positive := by
      cases s <;> rfl
    rw [h.mul, hx, square, h.unpacked_zero]
    exact .zero .positive
  | infinity s =>
    have square : UnpackedFloat.mul format (.infinity s) (.infinity s) = .infinity .positive := by
      cases s <;> rfl
    rw [h.mul, hx, square, h.unpacked_infinity]
    exact .infinity
  | notANumber =>
    rw [h.isNaN, hx] at number
    cases number

/-- The laws of squares hold of packed numbers, once their last vanishing square is known. -/
@[reducible] def squareRules [ZeroRules F] [ComparisonRules F] (t : F) {m₀ k : ℕ} {e₀ : ℤ}
    {positive₀ : 0 < m₀} (ht : unpacked t = .finite .positive m₀ e₀ positive₀)
    (vanishing : LastVanishing format m₀ e₀ k) : SquareRules F where
  vanishing := t
  vanishing_nonneg := by
    rw [h.nonneg_iff, ht]
    exact .finite m₀ e₀ positive₀
  mul_self_eq_zero_iff := h.mul_self_eq_zero_iff ht vanishing _
  mul_self_nonneg := h.mul_self_nonneg vanishing
  zero := ZeroRules.zero
  add_zero := ZeroRules.add
  add_comm x y := by rw [h.add, h.add, unpacked_add_comm]
  le_add hx hy :=
    (h.le_iff _ _).mpr (h.sided_add (h.nonneg_iff.mp hx) (h.nonneg_iff.mp hy)).le
  le_sub hx hy :=
    (h.le_iff _ _).mpr (h.sided_sub (h.nonneg_iff.mp hx) (h.nonpos_iff.mp hy)).le
  sub_le hx hy :=
    (h.le_iff _ _).mpr (h.sided_sub (h.nonpos_iff.mp hx) (h.nonneg_iff.mp hy)).ge
  neg_nonpos {x} hx := by
    rw [h.nonpos_iff, h.unpacked_neg]
    exact (h.nonneg_iff.mp hx).neg
  sqrt_nonneg hx := h.nonneg_iff.mpr (h.sided_sqrt (h.nonneg_iff.mp hx)).1
  sqrt_eq_zero_iff hx := (h.sided_sqrt (h.nonneg_iff.mp hx)).2
  isNaN_neg := ZeroRules.isNaN_neg
  isNaN_sub_left := ZeroRules.isNaN_sub_left
  isNaN_sub_right := ZeroRules.isNaN_sub_right

end StoredIn

theorem Double.storedIn : StoredIn .binary64 (fun x : Float => x.toModel.unpack)
    fun a => Float.ofModel (Float.Model.pack a) where
  toPackedIn := Double.packedIn
  zero := rfl
  le_iff _ _ := decide_eq_true_iff
  sqrt _ := rfl
  stored _ := stored_unpack _ _
  unpacked_packed _ := rfl

theorem Single.storedIn : StoredIn .binary32 (fun x : Float32 => x.toModel.unpack)
    fun a => Float32.ofModel (Float32.Model.pack a) where
  toPackedIn := Single.packedIn
  zero := rfl
  le_iff _ _ := decide_eq_true_iff
  sqrt _ := rfl
  stored _ := stored_unpack _ _
  unpacked_packed _ := rfl

/-- The square of the largest double below the power of two with exponent -537.5 is the last one
that rounds to zero. -/
theorem Double.lastVanishing : LastVanishing .binary64 0x16a09e667f3bcc (-590) 106 := by
  constructor <;> decide

/-- The square of the power of two with exponent -75 is half of the least single, and rounds to
zero. -/
theorem Single.lastVanishing : LastVanishing .binary32 0x800000 (-98) 47 := by
  constructor <;> decide

instance : SquareRules Float :=
  Double.storedIn.squareRules (Float.ofBits 0x1e56a09e667f3bcc) rfl Double.lastVanishing

instance : SquareRules Float32 :=
  Single.storedIn.squareRules (Float32.ofBits 0x1a000000) rfl Single.lastVanishing

end DualOpt
