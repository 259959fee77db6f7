import GraphQL.Decimal.Shortest
import GraphQL.Proofs.Decimal.Packing

/-!
Rounding to the nearest double. What is known of a real is the whole part of it at some exponent,
how the rest compares with one half, and whether there is any; that is enough to find the double in
whose interval the real lies.
-/

namespace GraphQL

open Float.Model (totalExponent)
open Float.Model.UnpackedFloat

/-- The reals that an interval holds are those that are rounded to its double. -/
def Decimal.Interval.Holds (interval : Decimal.Interval) (real : ℚ) : Prop :=
  if interval.closed then
    interval.low * 2 ^ interval.unit ≤ real ∧ real ≤ interval.high * 2 ^ interval.unit
  else interval.low * 2 ^ interval.unit < real ∧ real < interval.high * 2 ^ interval.unit

/-! ## What is known of a real -/

/-- The mantissa is the whole part of the real, the round bit says whether the rest is one half or
more, and the sticky bit whether it is anything else than nothing and one half. -/
structure Extends (mantissa : Nat) (roundBit stickyBit : Bool) (real : ℚ) : Prop where
  least : (mantissa : ℚ) ≤ real
  most : real < mantissa + 1
  half : roundBit = true ↔ mantissa + 1 / 2 ≤ real
  exact : stickyBit = false ↔ real = mantissa ∨ real = mantissa + 1 / 2

/-- The parts of an extended mantissa are those of the real. -/
def Approximates (extended : ExtendedMantissa) (real : ℚ) : Prop :=
  Extends extended.mantissa extended.roundBit extended.stickyBit real

namespace Approximates

variable {extended : ExtendedMantissa} {real : ℚ} {mantissa : Nat}

@[simp]
theorem mantissa_ofMantissaAndAccuracy (mantissa : Nat) (accuracy : Accuracy) :
    (ExtendedMantissa.ofMantissaAndAccuracy mantissa accuracy).mantissa = mantissa := by
  rcases accuracy with _ | order
  · rfl
  · cases order <;> rfl

theorem ofExact (mantissa : Nat) :
    Approximates (.ofMantissaAndAccuracy mantissa .exact) mantissa := by
  have parts : Extends mantissa false false mantissa :=
    ⟨le_rfl, lt_add_one _, by simp, by simp⟩
  exact parts

private theorem ofInexact (mantissa : Nat) {part : ℚ} (some : 0 < part) (small : part < 1) :
    Approximates (.ofMantissaAndAccuracy mantissa (.inexact (compare part (1 / 2))))
      (mantissa + part) := by
  have least : (mantissa : ℚ) ≤ mantissa + part := by linarith
  have most : mantissa + part < (mantissa : ℚ) + 1 := by linarith
  cases order : compare part (1 / 2) with
  | lt =>
      have below := compare_lt_iff_lt.mp order
      have parts : Extends mantissa false true (mantissa + part) := by
        refine ⟨least, most, iff_of_false Bool.false_ne_true ?_, iff_of_false (by decide) ?_⟩
        · linarith
        · rintro (none | middle) <;> linarith
      exact parts
  | eq =>
      have middle := compare_eq_iff_eq.mp order
      have parts : Extends mantissa true false (mantissa + part) :=
        ⟨least, most, iff_of_true rfl (by rw [middle]), iff_of_true rfl (.inr (by rw [middle]))⟩
      exact parts
  | gt =>
      have above := compare_gt_iff_gt.mp order
      have parts : Extends mantissa true true (mantissa + part) := by
        refine ⟨least, most, iff_of_true rfl ?_, iff_of_false (by decide) ?_⟩
        · linarith
        · rintro (none | middle) <;> linarith
      exact parts

private theorem compare_fraction {part whole : Nat} (positive : 0 < whole) :
    compare (part / whole : ℚ) (1 / 2) = compare (2 * part) whole := by
  have positive : (0 : ℚ) < whole := by exact_mod_cast positive
  cases order : compare (2 * part) whole with
  | lt =>
      have : ((2 * part : Nat) : ℚ) < whole := by exact_mod_cast compare_lt_iff_lt.mp order
      rw [compare_lt_iff_lt, div_lt_div_iff₀ positive two_pos]
      push_cast at this
      linarith
  | eq =>
      have : ((2 * part : Nat) : ℚ) = whole := by exact_mod_cast compare_eq_iff_eq.mp order
      rw [compare_eq_iff_eq, div_eq_div_iff positive.ne' two_ne_zero]
      push_cast at this
      linarith
  | gt =>
      have : (whole : ℚ) < (2 * part : Nat) := by exact_mod_cast compare_gt_iff_gt.mp order
      rw [compare_gt_iff_gt, div_lt_div_iff₀ two_pos positive]
      push_cast at this
      linarith

theorem ofFraction (mantissa : Nat) {part whole : Nat} (small : part < whole) :
    Approximates (.ofMantissaAndAccuracy mantissa (accuracyOfFraction part whole))
      (mantissa + part / whole) := by
  have positive := (Nat.zero_le part).trans_lt small
  have isPositive : (0 : ℚ) < whole := by exact_mod_cast positive
  rw [accuracyOfFraction]
  split
  · rename_i none
    have same : (mantissa + part / whole : ℚ) = mantissa := by rw [none]; simp
    rw [same]
    exact ofExact mantissa
  · rename_i some
    rw [← compare_fraction positive]
    exact ofInexact mantissa (div_pos (by exact_mod_cast Nat.pos_of_ne_zero some) isPositive)
      ((div_lt_one₀ isPositive).mpr (by exact_mod_cast small))

/-! ## Shifting -/

private theorem shiftRightOne (approximates : Approximates extended real) :
    Approximates extended.shiftRightOne (real / 2) := by
  rcases extended with ⟨mantissa, roundBit, stickyBit⟩
  rcases approximates with ⟨least, most, half, exact⟩
  dsimp only at least most half exact
  have sticky : (roundBit || stickyBit) = false ↔ real = mantissa := by
    rw [Bool.or_eq_false_iff, exact, ← Bool.not_eq_true, half]
    constructor
    · rintro ⟨small, none | middle⟩
      · exact none
      · exact absurd middle.ge small
    · intro none
      exact ⟨by linarith, .inl none⟩
  have parts : Extends (mantissa / 2) (mantissa % 2 != 0) (roundBit || stickyBit) (real / 2) := by
    have whole : (mantissa : ℚ) = 2 * (mantissa / 2 : Nat) + (mantissa % 2 : Nat) := by
      exact_mod_cast (Nat.div_add_mod mantissa 2).symm
    rcases Nat.mod_two_eq_zero_or_one mantissa with even | odd
    · rw [even, Nat.cast_zero] at whole
      refine ⟨by linarith, by linarith, ?_, sticky.trans ?_⟩
      · rw [even]
        exact iff_of_false (by decide) (by linarith)
      · constructor
        · exact fun none => .inl (by linarith)
        · rintro (none | middle) <;> linarith
    · rw [odd, Nat.cast_one] at whole
      refine ⟨by linarith, by linarith, ?_, sticky.trans ?_⟩
      · rw [odd]
        exact iff_of_true rfl (by linarith)
      · constructor
        · exact fun none => .inr (by linarith)
        · rintro (none | middle) <;> linarith
  exact parts

private theorem shiftRight (approximates : Approximates extended real) (places : Nat) :
    Approximates (extended >>> places) (real / 2 ^ places) := by
  induction places with
  | zero =>
      rw [pow_zero, div_one]
      exact approximates
  | succ places induction =>
      rw [pow_succ, ← div_div]
      exact induction.shiftRightOne

/-! ## Rounding -/

private theorem roundedMantissa (approximates : Approximates extended real) {nearest : Nat}
    (least : 2 * (nearest : ℚ) - 1 ≤ 2 * real) (most : 2 * real ≤ 2 * nearest + 1)
    (odd : nearest % 2 = 1 → 2 * (nearest : ℚ) - 1 < 2 * real ∧ 2 * real < 2 * nearest + 1) :
    extended.roundedMantissa = nearest := by
  rcases extended with ⟨mantissa, roundBit, stickyBit⟩
  rcases approximates with ⟨below, above, half, exact⟩
  dsimp only at below above half exact
  cases roundBit with
  | false =>
      have small : real < mantissa + 1 / 2 := not_le.mp fun large => by simpa using half.mpr large
      have upper : 2 * mantissa ≤ 2 * nearest + 1 := by qify; linarith
      have lower : 2 * nearest < 2 * mantissa + 2 := by qify; linarith
      have equal : mantissa = nearest := by omega
      cases stickyBit <;> exact equal
  | true =>
      have large : mantissa + 1 / 2 ≤ real := half.mp rfl
      cases stickyBit with
      | false =>
          have middle : real = mantissa + 1 / 2 :=
            (exact.mp rfl).resolve_left fun none => by linarith
          have upper : 2 * mantissa + 1 ≤ 2 * nearest + 1 := by qify; linarith
          have lower : 2 * nearest ≤ 2 * mantissa + 2 := by qify; linarith
          have even : nearest % 2 ≠ 1 := by
            intro isOdd
            have strict := odd isOdd
            have upper : 2 * mantissa + 1 < 2 * nearest + 1 := by qify; linarith
            have lower : 2 * nearest < 2 * mantissa + 2 := by qify; linarith
            omega
          change mantissa + mantissa % 2 = nearest
          omega
      | true =>
          have apart : real ≠ mantissa + 1 / 2 := fun middle => by
            simpa using exact.mpr (.inr middle)
          have strict : mantissa + 1 / 2 < real := lt_of_le_of_ne large apart.symm
          have upper : 2 * mantissa + 1 < 2 * nearest + 1 := by qify; linarith
          have lower : 2 * nearest < 2 * mantissa + 3 := by qify; linarith
          change mantissa + 1 = nearest
          omega

end Approximates

/-! ## The exponent to round at -/

/-- The mantissa has all bits that the rounded one can have, or the exponent is least. -/
def Suffices (mantissa : Nat) (exponent : Int) : Prop := 2 ^ 52 ≤ mantissa ∨ exponent ≤ -1074

theorem targetExponent_def (mantissa : Nat) (exponent : Int) :
    Float.Model.Format.binary64.targetExponent (totalExponent mantissa exponent) =
      max ((mantissa.log2 : Int) + exponent - 52) (-1074) := by
  have bits : (Float.Model.Format.binary64.mantissaBits : Int) = 53 := rfl
  have least : Float.Model.Format.binary64.minExponent = -1074 := rfl
  rw [Float.Model.Format.targetExponent, totalExponent, bits, least]
  omega

theorem two_zpow_lt {left right : Int} (less : (2 : ℚ) ^ left < 2 ^ right) : left < right :=
  (zpow_lt_zpow_iff_right₀ one_lt_two).mp less

section Target

variable {mantissa : Nat} {exponent target : Int} {real : ℚ}

/-- A real has fifty-three bits at the target exponent, or fewer if that is the least one. -/
private theorem targetExponent_eq (enough : Suffices mantissa exponent)
    (least : mantissa * 2 ^ exponent ≤ real) (most : real < (mantissa + 1) * 2 ^ exponent)
    (fits : real < 2 ^ (target + 53)) (fills : 2 ^ (target + 52) ≤ real ∨ target = -1074)
    (bounded : -1074 ≤ target) :
    Float.Model.Format.binary64.targetExponent (totalExponent mantissa exponent) = target := by
  have scale : (0 : ℚ) < 2 ^ exponent := zpow_pos two_pos _
  rw [targetExponent_def]
  rcases Nat.eq_zero_or_pos mantissa with rfl | positive
  · have isLeast : exponent ≤ -1074 := enough.resolve_left (by decide)
    have isTarget : target = -1074 := by
      refine fills.resolve_left fun large => ?_
      rw [Nat.cast_zero, zero_add, one_mul] at most
      have := two_zpow_lt (large.trans_lt most)
      omega
    rw [Nat.log2_zero, isTarget]
    omega
  · have lower : (2 : ℚ) ^ ((mantissa.log2 : Int) + exponent) ≤ real := by
      refine le_trans ?_ least
      rw [zpow_add₀ two_ne_zero, zpow_natCast]
      exact mul_le_mul_of_nonneg_right (by exact_mod_cast Nat.log2_self_le positive.ne') scale.le
    have upper : real < (2 : ℚ) ^ (((mantissa.log2 + 1 : Nat) : Int) + exponent) := by
      refine most.trans_le ?_
      rw [zpow_add₀ two_ne_zero, zpow_natCast]
      exact mul_le_mul_of_nonneg_right (by exact_mod_cast Nat.lt_log2_self) scale.le
    have notMore := two_zpow_lt (lower.trans_lt fits)
    have notLess : target = -1074 ∨ target + 52 < ((mantissa.log2 + 1 : Nat) : Int) + exponent :=
      fills.symm.imp_right fun large => two_zpow_lt (large.trans_lt upper)
    omega

private theorem exponent_le_target (enough : Suffices mantissa exponent)
    (least : mantissa * 2 ^ exponent ≤ real) (fits : real < 2 ^ (target + 53))
    (bounded : -1074 ≤ target) : exponent ≤ target := by
  rcases enough with large | isLeast
  · have large : (2 : ℚ) ^ (52 + exponent) ≤ real := by
      refine le_trans ?_ least
      rw [zpow_add₀ two_ne_zero]
      exact mul_le_mul_of_nonneg_right (by exact_mod_cast large) (zpow_pos two_pos _).le
    have := two_zpow_lt (large.trans_lt fits)
    omega
  · omega

/-- Rounding leaves at most the least mantissa of fifty-four bits, which is shifted once more. -/
private theorem shiftToTargetExponent_rounded (nearest : Nat) (small : nearest ≤ 2 ^ 53)
    (bounded : -1074 ≤ target) :
    shiftToTargetExponent .binary64 nearest target .exact =
      if nearest = 2 ^ 53 then (.ofMantissaAndAccuracy (2 ^ 52) .exact, target + 1)
      else (.ofMantissaAndAccuracy nearest .exact, target) := by
  rw [shiftToTargetExponent, targetExponent_def]
  by_cases isMost : nearest = 2 ^ 53
  · have next : max (((2 ^ 53 : Nat).log2 : Int) + target - 52) (-1074) = target + 1 := by
      rw [Nat.log2_two_pow]
      omega
    have once : (target + 1 - target).toNat = 1 := by omega
    rw [if_pos isMost, isMost, next, shiftToExponent, once]
    rfl
  · have isShort : nearest.log2 ≤ 52 := by
      rcases Nat.eq_zero_or_pos nearest with rfl | positive
      · decide
      · have := (Nat.log2_lt positive.ne').mpr (lt_of_le_of_ne small isMost)
        omega
    have none : (max ((nearest.log2 : Int) + target - 52) (-1074) - target).toNat = 0 := by omega
    rw [if_neg isMost, shiftToExponent, none, Nat.cast_zero, add_zero]
    rfl

/-- A real is rounded to the nearest mantissa at the target exponent. -/
private theorem roundWithAccuracy_eq {accuracy : Accuracy} (enough : Suffices mantissa exponent)
    (approximates : Approximates (.ofMantissaAndAccuracy mantissa accuracy) (real / 2 ^ exponent))
    (fits : real / 2 ^ target < 2 ^ 53) (fills : 2 ^ 52 ≤ real / 2 ^ target ∨ target = -1074)
    (bounded : -1074 ≤ target) {nearest : Nat} (positive : 0 < nearest)
    (below : 2 * (nearest : ℚ) - 1 ≤ 2 * (real / 2 ^ target))
    (above : 2 * (real / 2 ^ target) ≤ 2 * nearest + 1)
    (odd : nearest % 2 = 1 → 2 * (nearest : ℚ) - 1 < 2 * (real / 2 ^ target) ∧
      2 * (real / 2 ^ target) < 2 * nearest + 1) (sign : Sign) :
    roundWithAccuracy .binary64 sign mantissa exponent accuracy =
      if nearest = 2 ^ 53 then .finite sign (2 ^ 52) (target + 1) (by decide)
      else .finite sign nearest target positive := by
  have scale : (0 : ℚ) < 2 ^ exponent := zpow_pos two_pos _
  have targetScale : (0 : ℚ) < 2 ^ target := zpow_pos two_pos _
  have least : mantissa * 2 ^ exponent ≤ real :=
    (le_div_iff₀ scale).mp (by simpa using approximates.least)
  have most : real < (mantissa + 1) * 2 ^ exponent :=
    (div_lt_iff₀ scale).mp (by simpa using approximates.most)
  have isSmall : real < 2 ^ (target + 53) := by
    rw [add_comm, zpow_add₀ two_ne_zero]
    exact (div_lt_iff₀ targetScale).mp fits
  have isTarget := targetExponent_eq enough least most isSmall
    (fills.imp_left fun large => by
      rw [add_comm, zpow_add₀ two_ne_zero]
      exact (le_div_iff₀ targetScale).mp large) bounded
  have upward := exponent_le_target enough least isSmall bounded
  obtain ⟨places, isPlaces⟩ := Int.eq_ofNat_of_zero_le (Int.sub_nonneg_of_le upward)
  have first : shiftToTargetExponent .binary64 mantissa exponent accuracy =
      (ExtendedMantissa.ofMantissaAndAccuracy mantissa accuracy >>> places, target) := by
    rw [shiftToTargetExponent, isTarget, shiftToExponent, isPlaces]
    exact congrArg (Prod.mk _) (by rw [Int.toNat_natCast]; omega)
  have shifted : real / 2 ^ exponent / 2 ^ places = real / 2 ^ target := by
    rw [div_div, ← zpow_natCast, ← zpow_add₀ two_ne_zero, ← isPlaces]
    congr 2
    omega
  have rounded := (shifted ▸ approximates.shiftRight places).roundedMantissa below above odd
  have small : nearest ≤ 2 ^ 53 := by
    have : 2 * nearest < 2 * 2 ^ 53 + 1 := by qify; linarith
    omega
  have second := shiftToTargetExponent_rounded nearest small bounded
  rw [roundWithAccuracy, first]
  by_cases isMost : nearest = 2 ^ 53
  · rw [if_pos isMost] at second ⊢
    simp only [rounded, second, Approximates.mantissa_ofMantissaAndAccuracy]
    rfl
  · rw [if_neg isMost] at second ⊢
    simp only [rounded, second, Approximates.mantissa_ofMantissaAndAccuracy]
    exact dif_neg positive.ne'

end Target

/-! ## Intervals -/

variable {magnitude : Magnitude} {real : ℚ}

/-- The interval in quarters of the last place. -/
theorem Decimal.holds_iff :
    (Decimal.interval magnitude).Holds real ↔
      ((Decimal.interval magnitude).low : ℚ) ≤ 4 * (real / 2 ^ magnitude.exponent) ∧
      4 * (real / 2 ^ magnitude.exponent) ≤ 4 * magnitude.significand + 2 ∧
      (magnitude.significand % 2 = 1 →
        ((Decimal.interval magnitude).low : ℚ) < 4 * (real / 2 ^ magnitude.exponent) ∧
        4 * (real / 2 ^ magnitude.exponent) < 4 * magnitude.significand + 2) := by
  have quarter : (0 : ℚ) < 2 ^ magnitude.exponent / 4 :=
    div_pos (zpow_pos two_pos _) four_pos
  have unit : (2 : ℚ) ^ (Decimal.interval magnitude).unit = 2 ^ magnitude.exponent / 4 := by
    have : (Decimal.interval magnitude).unit = magnitude.exponent - 2 := rfl
    rw [this, zpow_sub₀ two_ne_zero]
    norm_num
  have high : ((Decimal.interval magnitude).high : ℚ) = 4 * magnitude.significand + 2 := by
    have : (Decimal.interval magnitude).high = 4 * magnitude.significand + 2 := rfl
    rw [this]
    push_cast
    rfl
  have scaled : 4 * (real / 2 ^ magnitude.exponent) = real / (2 ^ magnitude.exponent / 4) := by
    rw [div_div_eq_mul_div, mul_comm, div_mul_eq_mul_div]
  rw [Interval.Holds, unit, high, scaled, le_div_iff₀ quarter, div_le_iff₀ quarter,
    lt_div_iff₀ quarter, div_lt_iff₀ quarter]
  rcases Nat.mod_two_eq_zero_or_one magnitude.significand with even | odd
  · have closed : (Decimal.interval magnitude).closed = true := decide_eq_true even
    rw [if_pos closed, even]
    exact ⟨fun holds => ⟨holds.1, holds.2, nofun⟩, fun holds => ⟨holds.1, holds.2.1⟩⟩
  · have closed : ¬(Decimal.interval magnitude).closed = true := by
      rw [Decimal.interval]
      simp [odd]
    rw [if_neg closed]
    exact ⟨fun holds => ⟨holds.1.le, holds.2.le, fun _ => holds⟩, fun holds => holds.2.2 odd⟩

theorem Decimal.low_ge (magnitude : Magnitude) :
    4 * (magnitude.significand : ℚ) - 2 ≤ (Decimal.interval magnitude).low := by
  have low : 4 * magnitude.significand ≤ (Decimal.interval magnitude).low + 2 := by
    rw [Decimal.interval]
    dsimp only
    split <;> omega
  have : ((4 * magnitude.significand : Nat) : ℚ) ≤
      ((Decimal.interval magnitude).low + 2 : Nat) := by
    exact_mod_cast low
  push_cast at this
  linarith

/-- A real in the interval of a double is rounded to it. Below a power of two the reals have an
exponent less, and round up to the first mantissa of fifty-four bits. -/
theorem roundWithAccuracy_of_holds {mantissa : Nat} {exponent : Int} {accuracy : Accuracy}
    (canonical : magnitude.IsCanonical) (positive : 0 < magnitude.significand)
    (holds : (Decimal.interval magnitude).Holds real) (enough : Suffices mantissa exponent)
    (approximates : Approximates (.ofMantissaAndAccuracy mantissa accuracy) (real / 2 ^ exponent))
    (sign : Sign) :
    roundWithAccuracy .binary64 sign mantissa exponent accuracy =
      .finite sign magnitude.significand magnitude.exponent positive := by
  rcases Decimal.holds_iff.mp holds with ⟨below, above, odd⟩
  have low := Decimal.low_ge magnitude
  have scale : (0 : ℚ) < 2 ^ magnitude.exponent := zpow_pos two_pos _
  have small : (magnitude.significand : ℚ) + 1 ≤ 2 ^ 53 := by exact_mod_cast canonical.small
  have fits : real / 2 ^ magnitude.exponent < 2 ^ 53 := by linarith
  by_cases fills : 2 ^ 52 ≤ real / 2 ^ magnitude.exponent ∨ magnitude.exponent = -1074
  · have rounded := roundWithAccuracy_eq enough approximates fits fills canonical.least positive
      (by linarith) (by linarith)
      (fun isOdd => have strict := odd isOdd; ⟨by linarith, by linarith⟩) sign
    rw [rounded, if_neg canonical.small.ne]
  · obtain ⟨isBelow, notLeast⟩ := not_or.mp fills
    have isBelow := not_le.mp isBelow
    have isPower : magnitude.significand = 2 ^ 52 := by
      have : 4 * magnitude.significand < 4 * 2 ^ 52 + 2 := by qify; linarith
      have := canonical.normal.resolve_right notLeast
      omega
    have isLow : (Decimal.interval magnitude).low = 4 * 2 ^ 52 - 1 := by
      have atBoundary : magnitude.significand = Double.leastSignificand ∧
          -1074 < magnitude.exponent :=
        ⟨isPower, lt_of_le_of_ne canonical.least (Ne.symm notLeast)⟩
      rw [Decimal.interval, if_pos atBoundary, isPower]
    rw [isLow] at below
    push_cast at below
    have doubled : real / 2 ^ (magnitude.exponent - 1) = 2 * (real / 2 ^ magnitude.exponent) := by
      rw [zpow_sub_one₀ two_ne_zero, div_mul_eq_div_div, div_inv_eq_mul, mul_comm]
    have bounded : -1074 ≤ magnitude.exponent - 1 := by have := canonical.least; omega
    have most : 0 < 2 ^ 53 := by decide
    have rounded := roundWithAccuracy_eq enough approximates (by rw [doubled]; linarith)
      (.inl (by rw [doubled]; linarith)) bounded most (by rw [doubled]; push_cast; linarith)
      (by rw [doubled]; push_cast; linarith) nofun sign
    rw [rounded, if_pos rfl]
    simp only [isPower, sub_add_cancel]

end GraphQL
