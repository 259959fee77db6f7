import GraphQL.Decimal.Binary
import Mathlib

/-!
The parts of a double and its bits. A sign and a magnitude of the right size determine the bits and
are found in them again.
-/

namespace GraphQL

open Float.Model (UnpackedFloat)
open Float.Model.UnpackedFloat (Sign packComponents)

namespace Magnitude

/-- The magnitudes of doubles: fifty-three bits, and fewer only at the least exponent. -/
structure IsCanonical (magnitude : Magnitude) : Prop where
  small : magnitude.significand < 2 ^ 53
  least : -1074 ≤ magnitude.exponent
  most : magnitude.exponent ≤ 971
  normal : 2 ^ 52 ≤ magnitude.significand ∨ magnitude.exponent = -1074

/-- The bits of a magnitude, without the sign. -/
def bits (magnitude : Magnitude) : Nat :=
  (magnitude.exponent + 1074).toNat * 2 ^ 52 + magnitude.significand

end Magnitude

/-- The sign of an unpacked double. -/
def signOf (negative : Bool) : Sign := if negative then .negative else .positive

namespace Double

variable {bits : Nat} {negative : Bool} {magnitude : Magnitude}

private theorem ofBits_eq_finite (small : bits < 2 ^ 64)
    (isFinite : ofBits bits = .finite negative magnitude) :
    magnitude.IsCanonical ∧ bits = negative.toNat * 2 ^ 63 + magnitude.bits := by
  have sign : (bits / 0x8000000000000000 % 2 == 1).toNat = bits / 2 ^ 63 := by
    have : bits / 2 ^ 63 < 2 := by omega
    rcases Nat.lt_succ_iff_lt_or_eq.mp this with zero | one
    · have zero : bits / 0x8000000000000000 = 0 := by omega
      simp [zero]
    · have one : bits / 0x8000000000000000 = 1 := one
      simp [one]
  rw [ofBits] at isFinite
  by_cases ordinary : bits / leastSignificand % 0x800 = 2047
  · rw [if_pos ordinary] at isFinite
    split at isFinite <;> cases isFinite
  · rw [if_neg ordinary] at isFinite
    rw [leastSignificand] at ordinary isFinite
    by_cases isLeast : bits / 0x10000000000000 % 0x800 = 0
    · rw [if_pos isLeast] at isFinite
      cases isFinite
      rw [sign]
      refine ⟨⟨?_, ?_, ?_, .inr rfl⟩, ?_⟩ <;> simp only [Magnitude.bits] <;> omega
    · rw [if_neg isLeast] at isFinite
      cases isFinite
      rw [sign]
      refine ⟨⟨?_, ?_, ?_, .inl ?_⟩, ?_⟩ <;> simp only [Magnitude.bits] <;> omega

end Double

/-! ## Packing -/

section Packing

variable (sign : Sign) {exponent : BitVec 11} {mantissa : BitVec 52} {magnitude : Magnitude}

private theorem toNat_packComponents :
    (packComponents .binary64 sign exponent mantissa).toNat =
      sign.toBitVec.toNat * 2 ^ 63 + exponent.toNat * 2 ^ 52 + mantissa.toNat := by
  have exponentSmall := exponent.isLt
  have mantissaSmall := mantissa.isLt
  rw [packComponents, BitVec.toNat_append, BitVec.toNat_append,
    ← Nat.shiftLeft_add_eq_or_of_lt exponentSmall, ← Nat.shiftLeft_add_eq_or_of_lt mantissaSmall,
    Nat.shiftLeft_eq, Nat.shiftLeft_eq]
  omega

/-- Packing a canonical magnitude puts its exponent and its significand, without the leading bit of
an ordinary one, beside the sign. -/
private theorem pack_finite (canonical : magnitude.IsCanonical)
    (positive : 0 < magnitude.significand) :
    ∃ (exponent : BitVec 11) (mantissa : BitVec 52),
      UnpackedFloat.pack .binary64
          (.finite sign magnitude.significand magnitude.exponent positive) =
        packComponents .binary64 sign exponent mantissa ∧
      exponent.toNat < 2047 ∧
      if magnitude.significand < 2 ^ 52 then
        exponent.toNat = 0 ∧ mantissa.toNat = magnitude.significand
      else
        exponent.toNat = (magnitude.exponent + 1075).toNat ∧
          mantissa.toNat = magnitude.significand - 2 ^ 52 := by
  rcases magnitude with ⟨significand, exponent⟩
  rcases canonical with ⟨small, least, most, normal⟩
  dsimp only at small least most normal positive
  have biased : (exponent + (Float.Model.Format.binary64.exponentBias : Int) +
      (Float.Model.Format.binary64.mantissaBitsWithoutImplicit : Int)).toNat =
      (exponent + 1075).toNat := congrArg Int.toNat (by
    have : (Float.Model.Format.binary64.exponentBias : Int) = 1023 := rfl
    have : (Float.Model.Format.binary64.mantissaBitsWithoutImplicit : Int) = 52 := rfl
    omega)
  have bits : Float.Model.Format.binary64.mantissaBits = 53 := rfl
  have fits : ¬2 ^ Float.Model.Format.binary64.exponentBits ≤ (exponent + 1075).toNat + 1 := by
    have : 2 ^ Float.Model.Format.binary64.exponentBits = 2048 := rfl
    omega
  simp only [UnpackedFloat.pack, biased, bits]
  rw [if_neg fits]
  by_cases isSmall : significand < 2 ^ 52
  · have short : significand.log2 + 1 ≠ 53 := by
      have := (Nat.log2_lt positive.ne').mpr isSmall
      omega
    rw [if_neg short]
    refine ⟨_, _, rfl, by simp, ?_⟩
    rw [if_pos isSmall]
    exact ⟨rfl, by rw [BitVec.toNat_ofNat]; exact Nat.mod_eq_of_lt isSmall⟩
  · have long : significand.log2 + 1 = 53 := by
      have := (Nat.log2_lt positive.ne').mpr small
      have := (Nat.le_log2 positive.ne').mpr (Nat.le_of_not_lt isSmall)
      omega
    rw [if_pos long]
    refine ⟨_, _, rfl, ?_, ?_⟩
    · rw [BitVec.toNat_ofNat]
      omega
    · rw [if_neg isSmall, BitVec.toNat_ofNat, BitVec.toNat_ofNat]
      omega

private theorem toNat_pack (canonical : magnitude.IsCanonical)
    (positive : 0 < magnitude.significand) :
    (UnpackedFloat.pack .binary64
      (.finite sign magnitude.significand magnitude.exponent positive)).toNat =
      sign.toBitVec.toNat * 2 ^ 63 + magnitude.bits := by
  obtain ⟨exponent, mantissa, packed, _, parts⟩ := pack_finite sign canonical positive
  rw [packed, toNat_packComponents, Magnitude.bits]
  rcases canonical with ⟨small, least, most, normal⟩
  split at parts <;> omega

theorem unpack_pack (canonical : magnitude.IsCanonical) (positive : 0 < magnitude.significand) :
    (Float.Model.pack (.finite sign magnitude.significand magnitude.exponent positive)).unpack =
      .finite sign magnitude.significand magnitude.exponent positive := by
  obtain ⟨exponent, mantissa, packed, ordinary, parts⟩ :=
    pack_finite sign canonical positive
  have unpacked : (Float.Model.pack
      (.finite sign magnitude.significand magnitude.exponent positive)).unpack =
      UnpackedFloat.unpack .binary64 (packComponents .binary64 sign exponent mantissa) :=
    congrArg (UnpackedFloat.unpack .binary64) packed
  have bias : (Float.Model.Format.binary64.exponentBias : Int) = 1023 := rfl
  have width : (Float.Model.Format.binary64.mantissaBitsWithoutImplicit : Int) = 52 := rfl
  have notAll : exponent ≠ -1#11 := by
    rintro rfl
    exact absurd ordinary (by decide)
  rcases canonical with ⟨small, least, most, normal⟩
  rw [unpacked, UnpackedFloat.unpack]
  simp only [UnpackedFloat.unpackMantissa_packComponents,
    UnpackedFloat.unpackExponent_packComponents, UnpackedFloat.unpackSign_packComponents,
    Sign.ofBitVec_toBitVec]
  rw [if_neg notAll]
  split at parts
  · have zero : exponent = 0#11 := BitVec.eq_of_toNat_eq parts.1
    have nonzero : mantissa ≠ 0#52 := by
      rintro rfl
      rw [← parts.2] at positive
      exact absurd positive (by decide)
    rw [if_pos zero, dif_neg nonzero]
    simp only [UnpackedFloat.finite.injEq, true_and]
    exact ⟨parts.2, by omega⟩
  · have nonzero : exponent ≠ 0#11 := by
      rintro rfl
      have := parts.1
      simp only [BitVec.toNat_ofNat] at this
      omega
    rw [if_neg nonzero]
    have joined : (1#1 ++ mantissa).toNat = 2 ^ 52 + mantissa.toNat := by
      rw [BitVec.toNat_append, ← Nat.shiftLeft_add_eq_or_of_lt mantissa.isLt]
      rfl
    simp only [UnpackedFloat.finite.injEq, true_and]
    exact ⟨by omega, by omega⟩

end Packing

/-! ## Doubles and their parts -/

namespace Double

variable {value : Float} {negative : Bool} {magnitude : Magnitude}

theorem ofFloat_eq_finite (isFinite : ofFloat value = .finite negative magnitude) :
    magnitude.IsCanonical ∧
      value.toBits.toNat = negative.toNat * 2 ^ 63 + magnitude.bits :=
  ofBits_eq_finite value.toBits.toNat_lt isFinite

private theorem eq_of_toBits {left right : Float} (same : left.toBits.toNat = right.toBits.toNat) :
    left = right :=
  Float.toBits_inj.mp (UInt64.toNat_inj.mp same)

/-- A double is packed from its parts. -/
theorem ofModel_pack (isFinite : ofFloat value = .finite negative magnitude)
    (positive : 0 < magnitude.significand) :
    Float.ofModel (.pack (.finite (signOf negative) magnitude.significand magnitude.exponent
      positive)) = value := by
  obtain ⟨canonical, bits⟩ := ofFloat_eq_finite isFinite
  refine eq_of_toBits ?_
  rw [bits]
  have packed : (Float.ofModel (.pack (.finite (signOf negative) magnitude.significand
      magnitude.exponent positive))).toBits.toNat = _ :=
    toNat_pack (signOf negative) canonical positive
  rw [packed]
  cases negative <;> rfl

/-- Two doubles are zero. -/
theorem eq_zero (isFinite : ofFloat value = .finite negative magnitude)
    (zero : magnitude.significand = 0) : value = if negative then -0.0 else 0.0 := by
  obtain ⟨⟨_, _, _, normal⟩, bits⟩ := ofFloat_eq_finite isFinite
  refine eq_of_toBits ?_
  rw [bits, Magnitude.bits]
  have least : magnitude.exponent = -1074 := by omega
  rw [least, zero]
  cases negative <;> decide +kernel

/-- A double that is neither infinite nor undefined is the same as itself. -/
theorem beq_self {value : Float} (isFinite : (Double.ofFloat value).isFinite = true) :
    (value == value) = true := by
  refine Float.beq_self_iff.mpr ?_
  rintro rfl
  have notFinite : (Double.ofFloat Float.nan).isFinite = false := by decide
  rw [notFinite] at isFinite
  cases isFinite

end Double

end GraphQL
