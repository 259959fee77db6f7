import GraphQL.Proofs.Decimal.Nearest

/-!
The shortest decimals lie in the intervals of their doubles, so they are read back as them.
Seventeen digits always suffice: the grid is then finer than the distance between doubles.
-/

namespace GraphQL

namespace Decimal

variable {magnitude : Magnitude} {real : ℚ}

/-- What a decimal stands for. -/
def value (decimal : Decimal) : ℚ := decimal.digits * 10 ^ decimal.exponent

/-! ## Candidates -/

private theorem power_pos {base : Nat} (positive : 0 < base) (exponent : Int) :
    0 < power base exponent :=
  Nat.pow_pos positive

private theorem zpow_mul_power (base : Nat) (positive : 0 < base) (exponent : Int) :
    (base : ℚ) ^ exponent * power base (-exponent) = power base exponent := by
  have scale : ((power base (-exponent) : Nat) : ℚ) ≠ 0 := by
    exact_mod_cast (power_pos positive _).ne'
  rw [zpow_eq_power_div positive, div_mul_cancel₀ _ scale]

/-- Multiples of a power of two and of a power of ten become whole numbers on a common scale. -/
private theorem exists_scale (unit grid : Int) :
    ∃ scale : ℚ, 0 < scale ∧
      (∀ bound : Nat,
        bound * 2 ^ unit * scale = (bound * (power 2 unit * power 10 (-grid)) : Nat)) ∧
      ∀ candidate : Nat,
        candidate * 10 ^ grid * scale = (candidate * power 10 grid * power 2 (-unit) : Nat) := by
  have two := zpow_mul_power 2 two_pos unit
  have ten := zpow_mul_power 10 (by decide) grid
  rw [Nat.cast_ofNat] at two ten
  refine ⟨power 2 (-unit) * power 10 (-grid), ?_, fun bound => ?_, fun candidate => ?_⟩
  · exact_mod_cast Nat.mul_pos (power_pos two_pos _) (power_pos (by decide) _)
  · push_cast
    rw [← two]
    ring
  · push_cast
    rw [← ten]
    ring

private theorem scaled_le_iff {unit grid : Int} {bound candidate : Nat} :
    (bound * 2 ^ unit : ℚ) ≤ candidate * 10 ^ grid ↔
      bound * (power 2 unit * power 10 (-grid)) ≤
        candidate * power 10 grid * power 2 (-unit) := by
  obtain ⟨scale, positive, bounds, candidates⟩ := exists_scale unit grid
  rw [← mul_le_mul_iff_left₀ positive, bounds, candidates, Nat.cast_le]

private theorem le_scaled_iff {unit grid : Int} {bound candidate : Nat} :
    (candidate * 10 ^ grid : ℚ) ≤ bound * 2 ^ unit ↔
      candidate * power 10 grid * power 2 (-unit) ≤
        bound * (power 2 unit * power 10 (-grid)) := by
  obtain ⟨scale, positive, bounds, candidates⟩ := exists_scale unit grid
  rw [← mul_le_mul_iff_left₀ positive, bounds, candidates, Nat.cast_le]

private theorem Interval.readsBack_iff (interval : Interval) (grid : Int) (candidate : Nat) :
    interval.readsBack grid candidate = true ↔ interval.Holds (candidate * 10 ^ grid) := by
  rw [Holds, readsBack, scaled_le_iff, le_scaled_iff, lt_iff_lt_of_le_iff_le le_scaled_iff,
    lt_iff_lt_of_le_iff_le scaled_le_iff]
  cases interval.closed <;> simp

private theorem value_eq_centre (magnitude : Magnitude) :
    magnitude.value = (interval magnitude).centre * 2 ^ (interval magnitude).unit := by
  have centre : ((interval magnitude).centre : ℚ) = 4 * magnitude.significand := by
    exact_mod_cast (rfl : (interval magnitude).centre = 4 * magnitude.significand)
  have unit : (interval magnitude).unit = magnitude.exponent - 2 := rfl
  rw [Magnitude.value, centre, unit, zpow_sub₀ two_ne_zero]
  ring

private theorem value_div_eq (magnitude : Magnitude) (grid : Int) :
    magnitude.value / 10 ^ grid =
      ((interval magnitude).centre * power 2 (interval magnitude).unit * power 10 (-grid) : Nat) /
        (power 2 (-(interval magnitude).unit) * power 10 grid : Nat) := by
  obtain ⟨scale, positive, bounds, candidates⟩ := exists_scale (interval magnitude).unit grid
  have step := candidates 1
  rw [Nat.cast_one, one_mul, one_mul, Nat.mul_comm] at step
  rw [Nat.mul_assoc, ← bounds, ← step, value_eq_centre, mul_div_mul_right _ _ positive.ne']

private theorem Interval.onGrid_holds {tie : Tie} {grid : Int} {digits : Nat}
    (positive : 0 < magnitude.significand)
    (found : (interval magnitude).onGrid tie grid = some digits) :
    (interval magnitude).Holds (digits * 10 ^ grid) := by
  have scale : (0 : ℚ) < 10 ^ grid := zpow_pos (by norm_num) _
  have isFraction := value_div_eq magnitude grid
  simp only [onGrid] at found
  split at found
  · rename_i exact
    split at found
    · cases found
    · cases found
      rw [cast_eq_div_add_mod _ (Nat.mul_pos (power_pos two_pos _) (power_pos (by decide) _)),
        exact, Nat.cast_zero, zero_div, add_zero, div_eq_iff scale.ne'] at isFraction
      rw [← isFraction]
      exact magnitude.holds_value positive
  · split at found
    · rename_i below above
      have below := (readsBack_iff _ _ _).mp (Bool.and_eq_true_iff.mp below).2
      have above := (readsBack_iff _ _ _).mp above
      repeat' split at found
      all_goals cases found
      exacts [below, above, below, above, above]
    · rename_i below _
      cases found
      exact (readsBack_iff _ _ _).mp (Bool.and_eq_true_iff.mp below).2
    · rename_i above
      cases found
      exact (readsBack_iff _ _ _).mp above
    · cases found

/-! ## Seventeen digits -/

private theorem holds_of_near (canonical : magnitude.IsCanonical)
    (positive : 0 < magnitude.significand)
    (near : |real - magnitude.value| ≤ magnitude.value / (2 * 10 ^ 16)) :
    (interval magnitude).Holds real := by
  have scale : (0 : ℚ) < 2 ^ magnitude.exponent := zpow_pos two_pos _
  have isSome : (1 : ℚ) ≤ magnitude.significand := by exact_mod_cast positive
  have small : (magnitude.significand : ℚ) + 1 ≤ 2 ^ 53 := by exact_mod_cast canonical.small
  obtain ⟨below, above⟩ := abs_le.mp near
  have scaled : magnitude.value = magnitude.significand * 2 ^ magnitude.exponent := rfl
  have lower : (magnitude.significand : ℚ) - magnitude.significand / (2 * 10 ^ 16) ≤
      real / 2 ^ magnitude.exponent := by
    rw [le_div_iff₀ scale, sub_mul, div_mul_eq_mul_div, ← scaled]
    linarith
  have upper : real / 2 ^ magnitude.exponent ≤
      magnitude.significand + magnitude.significand / (2 * 10 ^ 16) := by
    rw [div_le_iff₀ scale, add_mul, div_mul_eq_mul_div, ← scaled]
    linarith
  have below : ((interval magnitude).low : ℚ) < 4 * (real / 2 ^ magnitude.exponent) := by
    by_cases atBoundary :
        magnitude.significand = Double.leastSignificand ∧ -1074 < magnitude.exponent
    · have low : ((interval magnitude).low : ℚ) + 1 = 4 * magnitude.significand := by
        have : (interval magnitude).low + 1 = 4 * magnitude.significand := by
          rw [interval, if_pos atBoundary]
          exact Nat.sub_add_cancel (by omega)
        exact_mod_cast this
      have least : (magnitude.significand : ℚ) = 0x10000000000000 := by
        exact_mod_cast atBoundary.1
      rw [least] at low lower
      linarith
    · have low : ((interval magnitude).low : ℚ) + 2 = 4 * magnitude.significand := by
        have : (interval magnitude).low + 2 = 4 * magnitude.significand := by
          rw [interval, if_neg atBoundary]
          exact Nat.sub_add_cancel (by omega)
        exact_mod_cast this
      linarith
  have above : 4 * (real / 2 ^ magnitude.exponent) < 4 * magnitude.significand + 2 := by linarith
  exact holds_iff.mpr ⟨below.le, above.le, fun _ => ⟨below, above⟩⟩

/-- Next to a value on a fine grid there is a candidate that is read back. -/
private theorem exists_neighbour {grid : Int} {below : Nat} {part : ℚ}
    (canonical : magnitude.IsCanonical)
    (positive : 0 < magnitude.significand) (fine : 10 ^ 16 ≤ magnitude.value / 10 ^ grid)
    (isFraction : magnitude.value / 10 ^ grid = below + part) (least : 0 ≤ part)
    (most : part < 1) :
    below ≠ 0 ∧ ((interval magnitude).readsBack grid below = true ∨
      (interval magnitude).readsBack grid (below + 1) = true) := by
  have scale : (0 : ℚ) < 10 ^ grid := zpow_pos (by norm_num) _
  have isValue : magnitude.value = (below + part) * 10 ^ grid :=
    (div_eq_iff scale.ne').mp isFraction
  have step : (10 : ℚ) ^ grid / 2 ≤ magnitude.value / (2 * 10 ^ 16) := by
    rw [le_div_iff₀ scale] at fine
    linarith
  constructor
  · rintro rfl
    rw [isFraction, Nat.cast_zero] at fine
    linarith
  · rw [Interval.readsBack_iff, Interval.readsBack_iff]
    rcases le_total part (1 / 2) with near | far
    · refine .inl (holds_of_near canonical positive (le_trans ?_ step))
      rw [isValue, ← sub_mul, abs_mul, abs_of_pos scale, sub_add_cancel_left, abs_neg,
        abs_of_nonneg least]
      exact (mul_le_mul_of_nonneg_right near scale.le).trans_eq (by ring)
    · refine .inr (holds_of_near canonical positive (le_trans ?_ step))
      have rest : ((below + 1 : Nat) : ℚ) - (below + part) = 1 - part := by push_cast; ring
      rw [isValue, ← sub_mul, abs_mul, abs_of_pos scale, rest, abs_of_pos (by linarith)]
      exact (mul_le_mul_of_nonneg_right (by linarith : 1 - part ≤ 1 / 2) scale.le).trans_eq
        (by ring)

private theorem Interval.onGrid_isSome {grid : Int} (canonical : magnitude.IsCanonical)
    (positive : 0 < magnitude.significand) (fine : 10 ^ 16 ≤ magnitude.value / 10 ^ grid)
    (tie : Tie) : ((interval magnitude).onGrid tie grid).isSome = true := by
  have whole := Nat.mul_pos (power_pos two_pos (-(interval magnitude).unit))
    (power_pos (show 0 < 10 by decide) grid)
  have isFraction := (value_div_eq magnitude grid).trans (cast_eq_div_add_mod _ whole)
  have isWhole : (0 : ℚ) < (power 2 (-(interval magnitude).unit) * power 10 grid : Nat) := by
    exact_mod_cast whole
  obtain ⟨some, reads⟩ := exists_neighbour canonical positive fine isFraction
    (div_nonneg (Nat.cast_nonneg _) isWhole.le)
    ((div_lt_one₀ isWhole).mpr (by exact_mod_cast Nat.mod_lt _ whole))
  simp only [onGrid]
  split
  · rfl
  · split
    · repeat' split
      all_goals rfl
    · rfl
    · rfl
    · rename_i noneBelow noneAbove
      rcases reads with below | above
      · rw [below, Bool.and_true] at noneBelow
        exact absurd (by simpa using noneBelow) some
      · rw [above] at noneAbove
        cases noneAbove

/-! ## The search -/

private theorem leadingExponent_le {numerator denominator : Nat} (positive : 0 < numerator)
    (isWhole : 0 < denominator) :
    (10 : ℚ) ^ leadingExponent numerator denominator ≤ numerator / denominator := by
  rw [leadingExponent]
  by_cases large : denominator ≤ numerator
  · have some : numerator / denominator ≠ 0 := (Nat.div_pos large isWhole).ne'
    have count : 0 < digitCount (numerator / denominator) := Nat.length_toDigits_pos
    have leading : ((digitCount (numerator / denominator) : Int) - 1) =
        (digitCount (numerator / denominator) - 1 : Nat) := by omega
    rw [if_pos large, leading, zpow_natCast]
    calc (10 : ℚ) ^ (digitCount (numerator / denominator) - 1)
        ≤ (numerator / denominator : Nat) := by exact_mod_cast pow_le_digits some
      _ ≤ numerator / denominator := Nat.cast_div_le
  · obtain ⟨scale, isScale⟩ : ∃ scale, scale = (denominator + numerator - 1) / numerator := ⟨_, rfl⟩
    have notOne : ¬scale ≤ 1 := by
      have : 2 ≤ scale := by
        rw [isScale, Nat.le_div_iff_mul_le positive]
        omega
      omega
    have covers : denominator ≤ numerator * scale := by
      have := Nat.lt_mul_div_succ (denominator + numerator - 1) positive
      rw [← isScale, Nat.mul_succ] at this
      omega
    have short : scale ≤ 10 ^ digitCount (scale - 1) := by
      have := digits_lt_pow (scale - 1)
      rw [digitCount]
      omega
    have inside : denominator ≤ numerator * 10 ^ digitCount (scale - 1) :=
      covers.trans (Nat.mul_le_mul_left _ short)
    rw [if_neg large, ← isScale, if_neg notOne, zpow_neg, zpow_natCast, inv_eq_one_div,
      div_le_div_iff₀ (by positivity) (by exact_mod_cast isWhole), one_mul]
    exact_mod_cast inside

/-- The first hit of a search lies in the interval. -/
private theorem search_holds {tie : Tie} {leading : Int} {places : List Nat}
    (positive : 0 < magnitude.significand)
    (hit : ∃ count ∈ places,
      ((interval magnitude).onGrid tie (leading + 1 - count)).isSome = true) :
    (interval magnitude).Holds (search (interval magnitude) tie leading places).value := by
  induction places with
  | nil =>
      rcases hit with ⟨_, member, _⟩
      cases member
  | cons count more induction =>
      rw [search]
      split
      · rename_i digits found
        exact Interval.onGrid_holds positive found
      · rename_i missed
        rcases hit with ⟨other, member, isHit⟩
        rcases List.mem_cons.mp member with rfl | later
        · rw [missed] at isHit
          cases isHit
        · exact induction ⟨other, later, isHit⟩

private theorem value_normalize (fuel : Nat) (decimal : Decimal) :
    (normalize fuel decimal).value = decimal.value := by
  induction fuel generalizing decimal with
  | zero => rfl
  | succ fuel induction =>
      rw [normalize]
      split
      · rename_i trailing
        have digits : (decimal.digits : ℚ) = 10 * (decimal.digits / 10 : Nat) := by
          exact_mod_cast (by omega : decimal.digits = 10 * (decimal.digits / 10))
        rw [induction, value, value, digits]
        dsimp only
        rw [zpow_add₀ (by norm_num), zpow_one]
        ring
      · rfl

/-- The shortest decimal of a double is rounded to the double. -/
theorem shortest_holds (canonical : magnitude.IsCanonical) (positive : 0 < magnitude.significand)
    (tie : Tie) : (interval magnitude).Holds (shortest tie magnitude).value := by
  rw [shortest, if_neg positive.ne']
  dsimp only
  rw [value_normalize]
  obtain ⟨leading, isLeading⟩ : ∃ leading, leading = leadingExponent
      ((interval magnitude).centre * power 2 (interval magnitude).unit)
      (power 2 (-(interval magnitude).unit)) := ⟨_, rfl⟩
  have centre : 0 < (interval magnitude).centre := Nat.mul_pos (by decide) positive
  have below : (10 : ℚ) ^ leading ≤ magnitude.value := by
    have two := zpow_eq_power_div two_pos (interval magnitude).unit
    rw [Nat.cast_ofNat] at two
    rw [isLeading, value_eq_centre, two, ← mul_div_assoc, ← Nat.cast_mul]
    exact leadingExponent_le (Nat.mul_pos centre (power_pos two_pos _)) (power_pos two_pos _)
  rw [← isLeading]
  refine search_holds positive ⟨17, by decide, Interval.onGrid_isSome canonical positive ?_ tie⟩
  rw [le_div_iff₀ (zpow_pos (by norm_num) _), ← zpow_natCast, ← zpow_add₀ (by norm_num)]
  have exponents : ((16 : Nat) : Int) + (leading + 1 - (17 : Nat)) = leading := by omega
  rwa [exponents]

theorem shortest_positive (canonical : magnitude.IsCanonical)
    (positive : 0 < magnitude.significand) (tie : Tie) : 0 < (shortest tie magnitude).digits := by
  have least := ((shortest_holds canonical positive tie).bounds canonical positive).1
  refine Nat.pos_of_ne_zero fun zero => ?_
  rw [value, zero, Nat.cast_zero, zero_mul] at least
  exact absurd least (not_le.mpr (zpow_pos two_pos _))

theorem shortest_zero (zero : magnitude.significand = 0) (tie : Tie) :
    shortest tie magnitude = ⟨0, 0⟩ := by
  rw [shortest, if_pos zero]

end Decimal

end GraphQL
