import GraphQL.Decimal.Reading
import GraphQL.Proofs.Decimal.Rounding

/-!
Decimal numbers and the doubles nearest to them. A decimal is a product or a quotient of whole
numbers, which is rounded once, so it is read as the double in whose interval it lies.
-/

namespace GraphQL

open Float.Model (UnpackedFloat totalExponent)
open Float.Model.UnpackedFloat

variable {magnitude : Magnitude} {real : ℚ}

/-! ## Intervals -/

/-- What a magnitude stands for. -/
def Magnitude.value (magnitude : Magnitude) : ℚ := magnitude.significand * 2 ^ magnitude.exponent

private theorem Decimal.low_lt (magnitude : Magnitude) (positive : 0 < magnitude.significand) :
    (Decimal.interval magnitude).low < 4 * magnitude.significand := by
  rw [Decimal.interval]
  dsimp only
  split <;> omega

/-- Nothing in an interval is too large or too small for doubles. -/
theorem Decimal.Interval.Holds.bounds (canonical : magnitude.IsCanonical)
    (positive : 0 < magnitude.significand) (holds : (Decimal.interval magnitude).Holds real) :
    2 ^ (-1075 : Int) ≤ real ∧ real < 2 ^ (1024 : Int) := by
  have scale : (0 : ℚ) < 2 ^ magnitude.exponent := zpow_pos two_pos _
  rcases Decimal.holds_iff.mp holds with ⟨below, above, _⟩
  have low := Decimal.low_ge magnitude
  have isSome : (1 : ℚ) ≤ magnitude.significand := by exact_mod_cast positive
  have small : (magnitude.significand : ℚ) + 1 ≤ 2 ^ 53 := by exact_mod_cast canonical.small
  constructor
  · have half : 2⁻¹ ≤ real / 2 ^ magnitude.exponent := by linarith
    have least : (2 : ℚ) ^ (-1074 : Int) ≤ 2 ^ magnitude.exponent :=
      zpow_le_zpow_right₀ one_le_two canonical.least
    have split : (2 : ℚ) ^ (-1075 : Int) = 2 ^ (-1074 : Int) * 2⁻¹ :=
      zpow_sub_one₀ two_ne_zero (-1074)
    calc (2 : ℚ) ^ (-1075 : Int) = 2 ^ (-1074 : Int) * 2⁻¹ := split
      _ ≤ 2 ^ magnitude.exponent * (real / 2 ^ magnitude.exponent) :=
        mul_le_mul least half (by norm_num) scale.le
      _ = real := mul_div_cancel₀ real scale.ne'
  · have less : real / 2 ^ magnitude.exponent < 2 ^ (53 : Int) := by
      have : (2 : ℚ) ^ (53 : Int) = 2 ^ 53 := zpow_natCast 2 53
      linarith
    have most : (2 : ℚ) ^ magnitude.exponent ≤ 2 ^ (971 : Int) :=
      zpow_le_zpow_right₀ one_le_two canonical.most
    calc real = real / 2 ^ magnitude.exponent * 2 ^ magnitude.exponent :=
          (div_mul_cancel₀ real scale.ne').symm
      _ < 2 ^ (53 : Int) * 2 ^ magnitude.exponent := mul_lt_mul_of_pos_right less scale
      _ ≤ 2 ^ (53 : Int) * 2 ^ (971 : Int) :=
        mul_le_mul_of_nonneg_left most (zpow_pos two_pos _).le
      _ = 2 ^ (1024 : Int) := (zpow_add₀ two_ne_zero 53 971).symm

/-- A double lies in its own interval. -/
theorem Magnitude.holds_value (magnitude : Magnitude) (positive : 0 < magnitude.significand) :
    (Decimal.interval magnitude).Holds magnitude.value := by
  have scaled : magnitude.value / 2 ^ magnitude.exponent = magnitude.significand :=
    mul_div_cancel_right₀ _ (zpow_ne_zero _ two_ne_zero)
  have below : ((Decimal.interval magnitude).low : ℚ) < 4 * magnitude.significand := by
    exact_mod_cast Decimal.low_lt magnitude positive
  rw [Decimal.holds_iff, scaled]
  exact ⟨below.le, by linarith, fun _ => ⟨below, by linarith⟩⟩

/-! ## Products -/

/-- A whole number of units is rounded to the double in whose interval it lies. -/
private theorem roundWithAccuracy_exact {mantissa : Nat} {exponent : Int}
    (canonical : magnitude.IsCanonical) (positive : 0 < magnitude.significand)
    (holds : (Decimal.interval magnitude).Holds (mantissa * 2 ^ exponent))
    (enough : Suffices mantissa exponent) (sign : Sign) :
    roundWithAccuracy .binary64 sign mantissa exponent .exact =
      .finite sign magnitude.significand magnitude.exponent positive := by
  refine roundWithAccuracy_of_holds canonical positive holds enough ?_ sign
  rw [mul_div_cancel_right₀ _ (zpow_ne_zero exponent two_ne_zero)]
  exact .ofExact mantissa

section Operations

variable {left right : Nat} {leftExponent rightExponent : Int} {leftSign rightSign : Sign}
  (leftPositive : 0 < left) (rightPositive : 0 < right)

include leftPositive rightPositive in
private theorem mul_finite (canonical : magnitude.IsCanonical)
    (positive : 0 < magnitude.significand) (holds : (Decimal.interval magnitude).Holds
      (left * 2 ^ leftExponent * (right * 2 ^ rightExponent)))
    (enough : 2 ^ 52 ≤ left) :
    mul .binary64 (.finite leftSign left leftExponent leftPositive)
        (.finite rightSign right rightExponent rightPositive) =
      .finite (leftSign * rightSign) magnitude.significand magnitude.exponent positive := by
  have same : (left * 2 ^ leftExponent * (right * 2 ^ rightExponent) : ℚ) =
      (left * right : Nat) * 2 ^ (leftExponent + rightExponent) := by
    rw [zpow_add₀ two_ne_zero, Nat.cast_mul]
    ring
  rw [same] at holds
  exact roundWithAccuracy_exact canonical positive holds
    (.inl (enough.trans (Nat.le_mul_of_pos_right left rightPositive))) _

/-! ## Quotients -/

include leftPositive rightPositive in
private theorem le_shiftLeft_div {places : Nat} (many : right.log2 + 53 ≤ left.log2 + places) :
    2 ^ 52 ≤ left <<< places / right := by
  rw [Nat.le_div_iff_mul_le rightPositive, Nat.shiftLeft_eq]
  have leftLeast := Nat.log2_self_le leftPositive.ne'
  have rightMost : right < 2 ^ (right.log2 + 1) := Nat.lt_log2_self
  calc 2 ^ 52 * right ≤ 2 ^ 52 * 2 ^ (right.log2 + 1) := Nat.mul_le_mul_left _ rightMost.le
    _ = 2 ^ (right.log2 + 53) := by rw [← Nat.pow_add]; congr 1; omega
    _ ≤ 2 ^ (left.log2 + places) := Nat.pow_le_pow_right (by decide) many
    _ = 2 ^ left.log2 * 2 ^ places := Nat.pow_add ..
    _ ≤ left * 2 ^ places := Nat.mul_le_mul_right _ leftLeast

theorem cast_eq_div_add_mod (number : Nat) {whole : Nat} (positive : 0 < whole) :
    (number / whole : ℚ) = (number / whole : Nat) + (number % whole : Nat) / whole := by
  have nonzero : (whole : ℚ) ≠ 0 := by exact_mod_cast positive.ne'
  have parts : (number : ℚ) = whole * (number / whole : Nat) + (number % whole : Nat) := by
    exact_mod_cast (Nat.div_add_mod number whole).symm
  rw [div_eq_iff nonzero, add_mul, div_mul_cancel₀ _ nonzero, parts]
  ring

include leftPositive rightPositive in
/-- The quotient is taken at an exponent that leaves it enough bits. -/
private theorem div_finite (canonical : magnitude.IsCanonical)
    (positive : 0 < magnitude.significand) (holds : (Decimal.interval magnitude).Holds
      (left * 2 ^ leftExponent / (right * 2 ^ rightExponent))) :
    div .binary64 (.finite leftSign left leftExponent leftPositive)
        (.finite rightSign right rightExponent rightPositive) =
      .finite (leftSign / rightSign) magnitude.significand magnitude.exponent positive := by
  obtain ⟨target, isTarget⟩ : ∃ target, target = min (leftExponent - rightExponent)
      (Float.Model.Format.binary64.targetExponent
        (totalExponent left leftExponent - totalExponent right rightExponent)) := ⟨_, rfl⟩
  obtain ⟨places, isPlaces⟩ := Int.eq_ofNat_of_zero_le
    (show 0 ≤ leftExponent - rightExponent - target by omega)
  have bounded : target ≤ -1074 ∨ right.log2 + 53 ≤ left.log2 + places := by
    have bits : (Float.Model.Format.binary64.mantissaBits : Int) = 53 := rfl
    have least : Float.Model.Format.binary64.minExponent = -1074 := rfl
    rw [Float.Model.Format.targetExponent, totalExponent, totalExponent, bits, least] at isTarget
    omega
  have enough : Suffices (left <<< places / right) target :=
    (bounded.imp_right (le_shiftLeft_div leftPositive rightPositive)).symm
  have scaled : (left * 2 ^ leftExponent / (right * 2 ^ rightExponent) : ℚ) / 2 ^ target =
      (left <<< places : Nat) / right := by
    have exponents : leftExponent = rightExponent + target + places := by omega
    have rightScale : (2 : ℚ) ^ rightExponent ≠ 0 := zpow_ne_zero _ two_ne_zero
    have targetScale : (2 : ℚ) ^ target ≠ 0 := zpow_ne_zero _ two_ne_zero
    have nonzero : (right : ℚ) ≠ 0 := by exact_mod_cast rightPositive.ne'
    rw [exponents, zpow_add₀ two_ne_zero, zpow_add₀ two_ne_zero, zpow_natCast, Nat.shiftLeft_eq]
    push_cast
    field_simp
  have approximates := Approximates.ofFraction (left <<< places / right)
    (Nat.mod_lt (left <<< places) rightPositive)
  rw [← cast_eq_div_add_mod _ rightPositive, ← scaled] at approximates
  rw [div, divCore]
  dsimp only
  rw [← isTarget, isPlaces, Int.toNat_natCast]
  exact roundWithAccuracy_of_holds canonical positive holds enough approximates _

end Operations

/-! ## Powers -/

/-- A power with any exponent is the quotient of two with positive ones. -/
theorem zpow_eq_power_div {base : Nat} (positive : 0 < base) (exponent : Int) :
    (base : ℚ) ^ exponent = power base exponent / power base (-exponent) := by
  have nonzero : (base : ℚ) ≠ 0 := by exact_mod_cast positive.ne'
  rw [power, power, Nat.pow_eq, Nat.pow_eq, Nat.cast_pow, Nat.cast_pow, ← zpow_natCast,
    ← zpow_natCast, ← zpow_sub₀ nonzero]
  congr 1
  omega

private theorem two_zpow_le_ten_zpow {exponent : Int} (whole : 0 ≤ exponent) :
    (2 : ℚ) ^ (3 * exponent) ≤ 10 ^ exponent := by
  rw [zpow_mul]
  exact zpow_le_zpow_left₀ whole (by norm_num) (by norm_num)

private theorem ten_zpow_le_two_zpow {exponent : Int} (part : exponent ≤ 0) :
    (10 : ℚ) ^ exponent ≤ 2 ^ (3 * exponent) := by
  obtain ⟨places, rfl⟩ := Int.exists_eq_neg_ofNat part
  rw [mul_neg, zpow_neg, zpow_neg]
  exact inv_anti₀ (zpow_pos two_pos _) (two_zpow_le_ten_zpow (Int.natCast_nonneg places))

/-- Scaling by a power of ten and rounding once. The scales that are not computed are too large or
too small for any interval. -/
private theorem ofScientific_of_holds {digits : Nat} {exponent : Int} (nonzero : digits ≠ 0)
    (canonical : magnitude.IsCanonical) (positive : 0 < magnitude.significand)
    (holds : (Decimal.interval magnitude).Holds (digits * 10 ^ exponent)) :
    UnpackedFloat.ofScientific .binary64 digits exponent =
      .finite .positive magnitude.significand magnitude.exponent positive := by
  have isSome : (1 : ℚ) ≤ digits := by exact_mod_cast Nat.one_le_iff_ne_zero.mpr nonzero
  rcases holds.bounds canonical positive with ⟨least, most⟩
  have notHuge : ¬exponent > 2 ^ Float.Model.Format.binary64.exponentBits := by
    intro huge
    have huge : 2048 < exponent := huge
    have large : (2 : ℚ) ^ (3 * exponent) ≤ digits * 10 ^ exponent :=
      (two_zpow_le_ten_zpow (by omega)).trans
        (le_mul_of_one_le_left (zpow_pos (by norm_num) _).le isSome)
    have := two_zpow_lt (large.trans_lt most)
    omega
  have notTiny : ¬exponent < -((2 ^ Float.Model.Format.binary64.exponentBits : Int) +
      digits.log2) := by
    intro tiny
    have tiny : exponent < -(2048 + (digits.log2 : Int)) := tiny
    have isShort : (digits : ℚ) < 2 ^ (digits.log2 + 1) := by exact_mod_cast Nat.lt_log2_self
    have small : (digits : ℚ) * 10 ^ exponent <
        2 ^ (((digits.log2 + 1 : Nat) : Int) + 3 * exponent) := by
      rw [zpow_add₀ two_ne_zero, zpow_natCast]
      exact mul_lt_mul isShort (ten_zpow_le_two_zpow (by omega)) (zpow_pos (by norm_num) _)
        (by positivity)
    have := two_zpow_lt (least.trans_lt small)
    omega
  rw [UnpackedFloat.ofScientific, dif_neg nonzero, if_neg notHuge, if_neg notTiny]
  by_cases whole : 0 ≤ exponent
  · obtain ⟨places, rfl⟩ := Int.eq_ofNat_of_zero_le whole
    have same : (digits * 10 ^ (places : Int) : ℚ) =
        (digits <<< 53 : Nat) * 2 ^ (-53 : Int) * ((10 ^ places : Nat) * 2 ^ (0 : Int)) := by
      have unit : ((2 ^ 53 : Nat) : ℚ) * 2 ^ (-53 : Int) = 1 := by
        rw [zpow_neg]
        norm_num
      rw [Nat.shiftLeft_eq, Nat.cast_mul, mul_assoc (digits : ℚ), unit, zpow_natCast, zpow_zero,
        mul_one, mul_one, Nat.cast_pow, Nat.cast_ofNat]
    have enough : 2 ^ 52 ≤ digits <<< 53 := by rw [Nat.shiftLeft_eq]; omega
    rw [same] at holds
    rw [if_pos whole]
    exact mul_finite _ _ canonical positive holds enough
  · obtain ⟨places, rfl⟩ := Int.exists_eq_neg_ofNat (Int.le_of_not_le whole)
    have same : (digits * 10 ^ (-(places : Int)) : ℚ) =
        digits * 2 ^ (0 : Int) / ((10 ^ places : Nat) * 2 ^ (0 : Int)) := by
      rw [zpow_neg, zpow_natCast, zpow_zero, mul_one, mul_one, div_eq_mul_inv]
      push_cast
      rfl
    rw [same] at holds
    rw [if_neg whole]
    simp only [neg_neg, Int.toNat_natCast]
    exact div_finite _ _ canonical positive holds

/-! ## Short decimals -/

/-- A positive double that is not small. -/
structure IsLarge (value : Float) (magnitude : Magnitude) : Prop where
  canonical : magnitude.IsCanonical
  large : 2 ^ 52 ≤ magnitude.significand
  unpacked : value.toModel.unpack = .finite .positive magnitude.significand magnitude.exponent
    ((Nat.two_pow_pos 52).trans_le large)

private theorem toFloat_isLarge {number : Nat} (positive : 0 < number) (small : number < 2 ^ 53) :
    ∃ magnitude, IsLarge number.toUInt64.toFloat magnitude ∧ magnitude.value = number := by
  have short := (Nat.log2_lt positive.ne').mpr small
  obtain ⟨places, isPlaces⟩ : ∃ places, places + number.log2 = 52 :=
    ⟨52 - number.log2, by omega⟩
  have large : 2 ^ 52 ≤ number <<< places := by
    rw [Nat.shiftLeft_eq, ← isPlaces, Nat.pow_add, Nat.mul_comm]
    exact Nat.mul_le_mul_right _ (Nat.log2_self_le positive.ne')
  have fits : number <<< places < 2 ^ 53 := by
    rw [Nat.shiftLeft_eq, ← show number.log2 + 1 + places = 53 by omega, Nat.pow_add]
    exact Nat.mul_lt_mul_of_pos_right Nat.lt_log2_self (Nat.two_pow_pos places)
  have canonical : Magnitude.IsCanonical ⟨number <<< places, -(places : Int)⟩ :=
    ⟨fits, by dsimp only; omega, by dsimp only; omega, .inl large⟩
  have nonzero := (Nat.two_pow_pos 52).trans_le large
  have rounded : UnpackedFloat.ofNat .binary64 number =
      .finite .positive (number <<< places) (-(places : Int)) nonzero := by
    have target : (0 - Float.Model.Format.binary64.targetExponent
        (totalExponent number 0)).toNat = places := by
      rw [targetExponent_def]
      omega
    have above : compare (number : Int) 0 = .gt := Int.compare_eq_gt.mpr (by omega)
    rw [UnpackedFloat.ofNat, UnpackedFloat.ofInt, UnpackedFloat.normalize, above]
    dsimp only
    rw [UnpackedFloat.round, decreaseExponent, Int.toNat_natCast]
    dsimp only
    rw [target, zero_sub]
    exact roundWithAccuracy_exact canonical nonzero
      (Magnitude.holds_value ⟨number <<< places, -(places : Int)⟩ nonzero) (.inl large) .positive
  refine ⟨⟨number <<< places, -(places : Int)⟩, ⟨canonical, large, ?_⟩, ?_⟩
  · have same : number.toUInt64.toNat = number := UInt64.toNat_ofNat_of_lt (small.trans (by decide))
    have packed : number.toUInt64.toFloat.toModel =
        .pack (UnpackedFloat.ofNat .binary64 number.toUInt64.toNat) := rfl
    rw [packed, same, rounded]
    exact unpack_pack _ canonical nonzero
  · rw [Magnitude.value, Nat.shiftLeft_eq, Nat.cast_mul, mul_assoc, zpow_neg, zpow_natCast,
      Nat.cast_pow, Nat.cast_ofNat, mul_inv_cancel₀ (pow_ne_zero places two_ne_zero), mul_one]

/-- A large double that is a power of ten. -/
private def isPowerOfTen (places : Nat) : Double → Bool
  | .finite false ⟨significand, exponent⟩ =>
      decide (2 ^ 52 ≤ significand ∧ significand * power 2 exponent =
        10 ^ places * power 2 (-exponent))
  | _ => false

private theorem powerOfTen_isLarge {places : Nat}
    (few : places < Float.exactlyRepresentablePowersOfTen.size) :
    ∃ magnitude, IsLarge Float.exactlyRepresentablePowersOfTen[places] magnitude ∧
      magnitude.value = 10 ^ places := by
  have entries : ∀ places : Fin 23,
      isPowerOfTen places (Double.ofFloat Float.exactlyRepresentablePowersOfTen[places]) = true :=
    by decide
  have entry := entries ⟨places, few⟩
  rw [Fin.getElem_fin] at entry
  rcases isFinite : Double.ofFloat Float.exactlyRepresentablePowersOfTen[places] with
    _ | _ | ⟨_ | _, ⟨significand, exponent⟩⟩
  case finite.false =>
    rw [isFinite] at entry
    rcases of_decide_eq_true entry with ⟨large, equal⟩
    have canonical := (Double.ofFloat_eq_finite isFinite).1
    have packed := Double.ofModel_pack isFinite ((Nat.two_pow_pos 52).trans_le large)
    refine ⟨⟨significand, exponent⟩, ⟨canonical, large, ?_⟩, ?_⟩
    · have unpacked :
          (Float.ofModel (.pack (.finite .positive significand exponent _))).toModel.unpack =
            .finite .positive significand exponent _ :=
        unpack_pack _ canonical ((Nat.two_pow_pos 52).trans_le large)
      exact packed ▸ unpacked
    · have scale : ((power 2 (-exponent) : Nat) : ℚ) ≠ 0 := by
        exact_mod_cast (Nat.two_pow_pos _).ne'
      have equal : (significand * power 2 exponent : ℚ) = 10 ^ places * power 2 (-exponent) := by
        exact_mod_cast equal
      rw [Magnitude.value, ← Nat.cast_two, zpow_eq_power_div two_pos, ← mul_div_assoc, equal,
        mul_div_cancel_right₀ _ scale]
  all_goals
    rw [isFinite] at entry
    cases entry

section Scientific

variable {digits places : Nat} (nonzero : digits ≠ 0) (canonical : magnitude.IsCanonical)
  (positive : 0 < magnitude.significand)

include nonzero canonical in
private theorem ofScientific_mul
    (holds : (Decimal.interval magnitude).Holds (digits * 10 ^ places)) :
    Float.ofScientific digits false places = .ofModel (.pack
      (.finite .positive magnitude.significand magnitude.exponent positive)) := by
  rw [Float.ofScientific]
  by_cases short : digits < 2 ^ 53 ∧ places ≤ 22
  · obtain ⟨number, isNumber, numberValue⟩ :=
      toFloat_isLarge (Nat.pos_of_ne_zero nonzero) short.1
    have few : places < Float.exactlyRepresentablePowersOfTen.size := Nat.lt_succ_of_le short.2
    obtain ⟨scale, isScale, scaleValue⟩ := powerOfTen_isLarge few
    rw [← numberValue, ← scaleValue] at holds
    rw [dif_pos short]
    refine congrArg (fun unpacked => Float.ofModel (.pack unpacked)) ?_
    rw [isNumber.unpacked, isScale.unpacked]
    exact mul_finite _ _ canonical positive holds isNumber.large
  · rw [← zpow_natCast] at holds
    rw [dif_neg short]
    exact congrArg (fun unpacked => Float.ofModel (.pack unpacked))
      (ofScientific_of_holds nonzero canonical positive holds)

include nonzero canonical in
private theorem ofScientific_div
    (holds : (Decimal.interval magnitude).Holds (digits / 10 ^ places)) :
    Float.ofScientific digits true places = .ofModel (.pack
      (.finite .positive magnitude.significand magnitude.exponent positive)) := by
  rw [Float.ofScientific]
  by_cases short : digits < 2 ^ 53 ∧ places ≤ 22
  · obtain ⟨number, isNumber, numberValue⟩ :=
      toFloat_isLarge (Nat.pos_of_ne_zero nonzero) short.1
    have few : places < Float.exactlyRepresentablePowersOfTen.size := Nat.lt_succ_of_le short.2
    obtain ⟨scale, isScale, scaleValue⟩ := powerOfTen_isLarge few
    rw [← numberValue, ← scaleValue] at holds
    rw [dif_pos short]
    refine congrArg (fun unpacked => Float.ofModel (.pack unpacked)) ?_
    rw [isNumber.unpacked, isScale.unpacked]
    exact div_finite _ _ canonical positive holds
  · rw [div_eq_mul_inv, ← zpow_natCast, ← zpow_neg] at holds
    rw [dif_neg short]
    refine congrArg (fun unpacked => Float.ofModel (.pack unpacked)) ?_
    exact ofScientific_of_holds nonzero canonical positive holds

include nonzero canonical in
private theorem ofScientific_of_interval {exponent : Int}
    (holds : (Decimal.interval magnitude).Holds (digits * 10 ^ exponent)) :
    Float.ofScientific digits (exponent < 0) exponent.natAbs = .ofModel (.pack
      (.finite .positive magnitude.significand magnitude.exponent positive)) := by
  rcases lt_or_ge exponent 0 with part | whole
  · obtain ⟨places, rfl⟩ := Int.exists_eq_neg_ofNat part.le
    rw [zpow_neg, zpow_natCast, ← div_eq_mul_inv] at holds
    rw [decide_eq_true part, Int.natAbs_neg, Int.natAbs_natCast]
    exact ofScientific_div nonzero canonical positive holds
  · obtain ⟨places, rfl⟩ := Int.eq_ofNat_of_zero_le whole
    rw [zpow_natCast] at holds
    rw [decide_eq_false (not_lt.mpr whole), Int.natAbs_natCast]
    exact ofScientific_mul nonzero canonical positive holds

end Scientific

/-! ## The nearest double -/

theorem pow_le_digits {digits : Nat} (nonzero : digits ≠ 0) :
    10 ^ ((Nat.toDigits 10 digits).length - 1) ≤ digits := by
  rcases Nat.eq_zero_or_pos ((Nat.toDigits 10 digits).length - 1) with none | some
  · rw [none, pow_zero]
    exact Nat.pos_of_ne_zero nonzero
  · refine Nat.le_of_not_lt fun less => ?_
    have := (Nat.length_toDigits_le_iff (by decide) some).mpr less
    have : 0 < (Nat.toDigits 10 digits).length := Nat.length_toDigits_pos
    omega

theorem digits_lt_pow (digits : Nat) : digits < 10 ^ (Nat.toDigits 10 digits).length :=
  (Nat.length_toDigits_le_iff (by decide) Nat.length_toDigits_pos).mp le_rfl

section

variable {value : Float} {negative : Bool} {digits : Nat} {exponent : Int}

private theorem pow_le_decimal (nonzero : digits ≠ 0) (exponent : Int) :
    (10 : ℚ) ^ ((((Nat.toDigits 10 digits).length - 1 : Nat) : Int) + exponent) ≤
      digits * 10 ^ exponent := by
  rw [zpow_add₀ (by norm_num), zpow_natCast]
  exact mul_le_mul_of_nonneg_right (by exact_mod_cast pow_le_digits nonzero)
    (zpow_pos (by norm_num) _).le

private theorem decimal_lt_pow (digits : Nat) (exponent : Int) :
    (digits * 10 ^ exponent : ℚ) <
      10 ^ (((Nat.toDigits 10 digits).length : Int) + exponent) := by
  rw [zpow_add₀ (by norm_num), zpow_natCast]
  exact mul_lt_mul_of_pos_right (by exact_mod_cast digits_lt_pow digits)
    (zpow_pos (by norm_num) _)

/-- The decimals of doubles are not so large or small that they are not read at all. -/
private theorem decimal_bounded (nonzero : digits ≠ 0)
    (least : (2 : ℚ) ^ (-1075 : Int) ≤ digits * 10 ^ exponent)
    (most : (digits * 10 ^ exponent : ℚ) < 2 ^ (1024 : Int)) :
    ¬400 < exponent + (Nat.toDigits 10 digits).length ∧
      ¬exponent + (Nat.toDigits 10 digits).length < -400 := by
  constructor
  · intro huge
    have some : 0 < (Nat.toDigits 10 digits).length := Nat.length_toDigits_pos
    have large := pow_le_decimal nonzero exponent
    have := two_zpow_lt (((two_zpow_le_ten_zpow (by omega)).trans large).trans_lt most)
    omega
  · intro tiny
    have small := decimal_lt_pow digits exponent
    have := two_zpow_lt (least.trans_lt (small.trans_le (ten_zpow_le_two_zpow (by omega))))
    omega

/-- A decimal in the interval of a double is read as the double. -/
theorem nearestDouble_of_holds (isFinite : Double.ofFloat value = .finite negative magnitude)
    (positive : 0 < magnitude.significand)
    (holds : (Decimal.interval magnitude).Holds (digits * 10 ^ exponent)) :
    nearestDouble negative digits exponent = value := by
  have canonical := (Double.ofFloat_eq_finite isFinite).1
  rcases holds.bounds canonical positive with ⟨least, most⟩
  have nonzero : digits ≠ 0 := by
    rintro rfl
    rw [Nat.cast_zero, zero_mul] at least
    exact absurd least (not_le.mpr (zpow_pos two_pos _))
  obtain ⟨notHuge, notTiny⟩ := decimal_bounded nonzero least most
  have read := ofScientific_of_interval nonzero canonical positive holds
  have packed := Double.ofModel_pack isFinite positive
  rw [nearestDouble, if_neg nonzero, if_neg notHuge, if_neg notTiny, read]
  cases negative with
  | false => exact packed
  | true =>
      have negated : -(Float.ofModel (.pack
          (.finite .positive magnitude.significand magnitude.exponent positive))) = .ofModel (.pack
            (Float.Model.unpack (.pack (.finite .positive magnitude.significand magnitude.exponent
              positive))).neg) := rfl
      rw [if_pos rfl, negated, unpack_pack _ canonical positive]
      exact packed

/-- No digits but zeros are read as zero. -/
theorem nearestDouble_zero (isFinite : Double.ofFloat value = .finite negative magnitude)
    (zero : magnitude.significand = 0) (exponent : Int) :
    nearestDouble negative 0 exponent = value := by
  rw [Double.eq_zero isFinite zero]
  cases negative <;> rfl

end

end GraphQL
