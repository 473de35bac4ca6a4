import Mathlib
import DualOpt.Proofs.Linear.InPlace
import DualOpt.Proofs.Squares

/-!
Which columns the factorisation skips.

A column has no reflection if its norm rounds to zero, and that is so if the square of each of its
entries does. So a column of small entries is skipped like a zero column: it stays as it is, and
what it holds below the diagonal is dropped.
-/
namespace DualOpt

variable {F : Type} [Scalar F] [SquareRules F]

namespace SquareRules

/-- Not a number, or not negative. -/
def Magnitude (x : F) : Prop := Scalar.isNaN x = true ∨ 0 ≤ x

theorem not_isNaN_of_beq_zero {x : F} (zero : (x == 0) = true) : Scalar.isNaN x = false :=
  ComparisonRules.isNaN_left (ComparisonRules.beq_iff.mp zero).1

theorem beq_zero_of_le {x : F} (nonneg : 0 ≤ x) (nonpos : x ≤ 0) : (x == 0) = true :=
  ComparisonRules.beq_iff.mpr ⟨nonpos, nonneg⟩

theorem magnitude_zero : Magnitude (0 : F) := .inr (ComparisonRules.beq_iff.mp zero).1

theorem magnitude_mul_self (x : F) : Magnitude (x * x) := by
  cases nan : Scalar.isNaN x with
  | true => exact .inl (NaNRules.mul_left x nan)
  | false => exact .inr (mul_self_nonneg nan)

namespace Magnitude
variable {x y : F}

theorem add (hx : Magnitude x) (hy : Magnitude y) : Magnitude (x + y) := by
  rcases hx with nan | hx
  · exact .inl (NaNRules.add_left y nan)
  rcases hy with nan | hy
  · exact .inl (NaNRules.add_right x nan)
  · exact .inr (ComparisonRules.le_trans hx (le_add hx hy))

theorem left_eq_zero (hx : Magnitude x) (hy : Magnitude y) (sum : (x + y == 0) = true) :
    (x == 0) = true := by
  have number := not_isNaN_of_beq_zero sum
  rcases hx with nan | hx
  · rw [NaNRules.add_left y nan] at number
    cases number
  rcases hy with nan | hy
  · rw [NaNRules.add_right x nan] at number
    cases number
  · refine beq_zero_of_le hx ?_
    exact ComparisonRules.le_trans (le_add hx hy) (ComparisonRules.beq_iff.mp sum).1

theorem add_eq_zero_iff (hx : Magnitude x) (hy : Magnitude y) :
    (x + y == 0) = true ↔ (x == 0) = true ∧ (y == 0) = true := by
  constructor
  · intro sum
    refine ⟨hx.left_eq_zero hy sum, hy.left_eq_zero hx ?_⟩
    rwa [add_comm]
  · rintro ⟨zero_x, zero_y⟩
    exact add_zero zero_x zero_y

theorem sqrt (hx : Magnitude x) : Magnitude (Scalar.sqrt x) :=
  hx.imp NaNRules.sqrt sqrt_nonneg

theorem sqrt_eq_zero_iff (hx : Magnitude x) :
    (Scalar.sqrt x == 0) = true ↔ (x == 0) = true := by
  rcases hx with nan | hx
  · have nonzero {y : F} (nan : Scalar.isNaN y = true) : ¬ (y == 0) = true := fun zero =>
      Bool.false_ne_true ((not_isNaN_of_beq_zero zero).symm.trans nan)
    exact iff_of_false (nonzero (NaNRules.sqrt nan)) (nonzero nan)
  · exact SquareRules.sqrt_eq_zero_iff hx

end Magnitude

/-- The square of the scalar rounds to zero. -/
def Vanishes (x : F) : Prop := -vanishing ≤ x ∧ x ≤ vanishing

theorem vanishes_of_nonneg {x : F} (nonneg : 0 ≤ x) (le : x ≤ vanishing) : Vanishes x :=
  ⟨ComparisonRules.le_trans (neg_nonpos vanishing_nonneg) nonneg, le⟩

theorem vanishes_of_nonpos {x : F} (nonpos : x ≤ 0) (ge : -vanishing ≤ x) : Vanishes x :=
  ⟨ge, ComparisonRules.le_trans nonpos vanishing_nonneg⟩

theorem Vanishes.not_isNaN {x : F} (vanishes : Vanishes x) : Scalar.isNaN x = false :=
  ComparisonRules.isNaN_right vanishes.1

/-- If the difference of two scalars on opposite sides of zero vanishes, so does the first. -/
theorem Vanishes.of_sub {x y : F} (difference : Vanishes (x - y))
    (opposite : 0 ≤ x ∧ y ≤ 0 ∨ x ≤ 0 ∧ 0 ≤ y) : Vanishes x := by
  rcases opposite with ⟨hx, hy⟩ | ⟨hx, hy⟩
  · exact vanishes_of_nonneg hx (ComparisonRules.le_trans (le_sub hx hy) difference.2)
  · exact vanishes_of_nonpos hx (ComparisonRules.le_trans difference.1 (sub_le hx hy))

end SquareRules

open SquareRules

namespace Vec

private theorem foldl_squares (x : Vec F) {acc : F} (hacc : Magnitude acc) :
    Magnitude ((x.zip x).foldl (fun acc p => acc + p.1 * p.2) acc) ∧
      (((x.zip x).foldl (fun acc p => acc + p.1 * p.2) acc == 0) = true ↔
        (acc == 0) = true ∧ ∀ a ∈ x, Vanishes a) := by
  induction x generalizing acc with
  | nil => exact ⟨hacc, by simp⟩
  | cons a x ih =>
    obtain ⟨magnitude, zero⟩ := ih (hacc.add (magnitude_mul_self a))
    refine ⟨magnitude, ?_⟩
    rw [List.zip_cons_cons, List.foldl_cons, zero, hacc.add_eq_zero_iff (magnitude_mul_self a),
      mul_self_eq_zero_iff, List.forall_mem_cons, and_assoc]
    rfl

/-- A norm is zero if all squares vanish, and only then. -/
theorem twoNorm_vanishes (x : Vec F) :
    Magnitude (twoNorm x) ∧ ((twoNorm x == 0) = true ↔ ∀ a ∈ x, Vanishes a) := by
  obtain ⟨magnitude, iff⟩ := foldl_squares x magnitude_zero
  refine ⟨magnitude.sqrt, magnitude.sqrt_eq_zero_iff.trans (iff.trans ?_)⟩
  exact and_iff_right zero

end Vec

namespace Householder

/-- The target lies on the other side of zero, so the first entry vanishes if its difference from
the target does. -/
theorem vanishes_headD {c : Vec F}
    (difference : Vanishes (c.headD 0 - if c.headD 0 ≥ 0 then -Vec.twoNorm c else Vec.twoNorm c)) :
    Vanishes (c.headD 0) := by
  have magnitude := (Vec.twoNorm_vanishes c).1
  have number := difference.not_isNaN
  by_cases ahead : c.headD 0 ≥ 0
  · rw [if_pos ahead] at difference number
    rcases magnitude with nan | nonneg
    · rw [isNaN_sub_right _ (isNaN_neg nan)] at number
      cases number
    · exact difference.of_sub (.inl ⟨ahead, neg_nonpos nonneg⟩)
  · rw [if_neg ahead] at difference number
    rcases magnitude with nan | nonneg
    · rw [isNaN_sub_right _ nan] at number
      cases number
    · have number_head : Scalar.isNaN (c.headD 0) = false := by
        refine eq_false_of_ne_true fun nan => ?_
        rw [isNaN_sub_left _ nan] at number
        cases number
      have total := ComparisonRules.le_total (not_isNaN_of_beq_zero zero) number_head
      have behind := total.resolve_left ahead
      exact difference.of_sub (.inr ⟨behind, nonneg⟩)

/-- A vector has no normal if all squares of its entries vanish, and only then. -/
theorem normal?_eq_none_iff_vanishes (c : Vec F) :
    normal? c = none ↔ ∀ x ∈ c, Vanishes x := by
  have norm := (Vec.twoNorm_vanishes c).2
  constructor
  · intro none
    by_contra large
    rw [normal?, if_neg (mt norm.mp large)] at none
    simp only [ite_eq_left_iff, reduceCtorEq, imp_false, not_not] at none
    obtain ⟨head, tail⟩ := List.forall_mem_cons.mp ((Vec.twoNorm_vanishes _).2.mp none)
    cases c with
    | nil => exact large (List.forall_mem_nil _)
    | cons x c => exact large (List.forall_mem_cons.mpr ⟨vanishes_headD head, tail⟩)
  · intro vanishes
    exact if_pos (norm.mpr vanishes)

end Householder

namespace QrFactors
open Householder

/-- In pass `k` column `k` is skipped, from its diagonal down, if the squares of all its entries
round to zero, and only then. A skipped column keeps what it holds, but `R` has zeros there below
the diagonal. -/
theorem skipped_iff_vanishes {a : Rows F} (rectangular : ∀ row ∈ a, row.length = a.width)
    (tall : a.width ≤ a.length) :
    ofRows a = .ok (inPlace a) ∧ ∀ k < a.width, ∃ c,
      pivotColumn (swept (a.columns a.width) k) k = c ∧ c.length = a.length - k ∧
      (normal? c = none ↔ ∀ x ∈ c, Vanishes x) ∧
      (normal? c = none → pivotColumn (swept (a.columns a.width) a.width) k = c) ∧
      ∀ i, k < i → ((inPlace a).r.getD i []).getD k 0 = 0 := by
  refine ⟨ofRows_eq_inPlace rectangular tall, fun k hk => ?_⟩
  have count : (a.columns a.width).length = a.width := Rows.length_columns _ a
  have length := length_pivotColumn count (fun c hc => Rows.length_of_mem_columns hc) tall k hk
  refine ⟨_, rfl, length, normal?_eq_none_iff_vanishes _, fun skipped => ?_,
    fun i below => getD_cleared_eq_zero below _⟩
  rw [pivotColumn_swept (hk.trans_eq count.symm) hk (by omega), skipped]
  rfl

/-- One column of two equal entries, the power of two with exponent -600. -/
def tinyColumn : Rows Float := [[Double.small], [Double.small]]

theorem skipped_iff_vanishes_tinyColumn :
    (∀ row ∈ tinyColumn, row.length = tinyColumn.width) ∧ tinyColumn.width ≤ tinyColumn.length ∧
      normal? [Double.small, Double.small] = none ∧
      pivotColumn (swept (tinyColumn.columns 1) 1) 0 = [Double.small, Double.small] := by
  have rectangular : ∀ row ∈ tinyColumn, row.length = tinyColumn.width := by
    simp [tinyColumn, Rows.width]
  have tall : tinyColumn.width ≤ tinyColumn.length := by decide
  obtain ⟨-, passes⟩ := skipped_iff_vanishes rectangular tall
  obtain ⟨c, rfl, -, iff, keeps, -⟩ := passes 0 Nat.one_pos
  have vanishes : Vanishes Double.small := ⟨by decide +kernel, by decide +kernel⟩
  have rest : ∀ x ∈ [Double.small], Vanishes x := List.forall_mem_singleton.mpr vanishes
  have skipped := iff.mpr (List.forall_mem_cons.mpr ⟨vanishes, rest⟩)
  exact ⟨rectangular, tall, skipped, keeps skipped⟩

/-- A column is left without a reflection although its entries are not zero, and the product of the
factors has lost one of them. -/
theorem tinyColumn_skipped :
    (∀ row ∈ tinyColumn, Vec.allFinite row = true) ∧ tinyColumn.width ≤ tinyColumn.length ∧
      pivotColumn (swept (tinyColumn.columns 1) 0) 0 = [Double.small, Double.small] ∧
      (Double.small == 0) = false ∧ normal? [Double.small, Double.small] = none ∧
      ofRows tinyColumn = .ok ⟨[[1], [0]], [[Double.small]]⟩ ∧
      Rows.mulVec [[1], [0]] [Double.small] = [Double.small, 0] := by
  have finite : Double.small.isFinite = true := by decide +kernel
  have skipped : normal? [Double.small, Double.small] = none :=
    (normal?_eq_none_iff_vanishes _).mpr fun x hx => by
      obtain rfl : x = Double.small := by simpa using hx
      exact ⟨by decide +kernel, by decide +kernel⟩
  have reduced : reduce [[Double.small, Double.small]] = ([none], [[Double.small]]) := by
    simp only [reduce_cons, skipped, List.map_nil, reduce]
    rfl
  refine ⟨?_, by decide, rfl, by decide +kernel, skipped, ?_, rfl⟩
  · intro row hrow
    obtain rfl : row = [Double.small] := by simpa [tinyColumn] using hrow
    rw [Vec.allFinite, List.all_cons, List.all_nil, Bool.and_true]
    exact finite
  · have columns : tinyColumn.columns 1 = [[Double.small, Double.small]] := rfl
    rw [ofRows_eq (n := 1) rfl (by simp [tinyColumn]) (by decide), columns, reduced]
    rfl

end QrFactors
end DualOpt
