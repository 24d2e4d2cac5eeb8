import Mathlib
import LoxInterpreter.Proofs.Number.Rounding

/-!
Contract: doubles by their bits.

A double is made from the bits up to those of infinity and gives them back, so what is known of rounded bits
holds of doubles: a decimal is read as the one double that is nearest to it. Which doubles are finite, and
which are no numbers, is read off the fields of the bits.

Owns: `IsNearest`, `Decimal.toFloat_isNearest`, `isFinite_iff`, `isNaN_iff`, and `Decimal.isFinite_toFloat`.
Does not own: that the bits are rounded correctly (`Proofs.Number.Rounding`).

The laws of packing and unpacking a double come with the whole of Mathlib only.
-/

namespace LoxInterpreter.Number

open Float.Model Float.Model.UnpackedFloat

/-- Bits up to those of infinity are those of a number. -/
theorem isNaNBits_eq_false {bits : Nat} (inRange : bits ≤ infinityBits) :
    @isNaNBits Format.binary64 (UInt64.ofNat bits).toBitVec = false := by
  rw [infinityBits_eq] at inRange
  have isBits : (UInt64.ofNat bits).toBitVec.toNat = bits := by
    show bits % 2 ^ 64 = bits
    omega
  unfold isNaNBits
  rw [decide_eq_false_iff_not, unpackExponent_def, unpackMantissa_def]
  rintro ⟨top, notZero⟩
  apply notZero
  have isTop := congrArg BitVec.toNat top
  rw [BitVec.extractLsb'_toNat, isBits, Nat.shiftRight_eq_div_pow] at isTop
  change bits / 2 ^ 52 % 2 ^ 11 = 2047 at isTop
  apply BitVec.eq_of_toNat_eq
  rw [BitVec.extractLsb'_toNat, isBits, Nat.shiftRight_zero]
  show bits % 2 ^ 52 = 0
  omega

/-- A double has the bits that it is made from. -/
theorem toBits_ofBits {bits : Nat} (inRange : bits ≤ infinityBits) :
    (Float.ofBits (UInt64.ofNat bits)).toBits.toNat = bits := by
  have packed := @pack_unpack Format.binary64 (UInt64.ofNat bits).toBitVec (by decide)
  rw [isNaNBits_eq_false inRange, if_neg Bool.false_ne_true] at packed
  have same : (Float.ofBits (UInt64.ofNat bits)).toBits = UInt64.ofNat bits :=
    congrArg UInt64.ofBitVec packed
  rw [infinityBits_eq] at inRange
  rw [same]
  show bits % 2 ^ 64 = bits
  omega

/-- Whether a double is the one that is nearest to an exact number. -/
def IsNearest (exact : ℚ) (value : Float) : Prop := RoundsTo exact value.toBits.toNat

/-- Only one double is nearest. -/
theorem IsNearest.unique {exact : ℚ} {value other : Float} (first : IsNearest exact value)
    (second : IsNearest exact other) : value = other := by
  have same : value.toBits = other.toBits := UInt64.toNat_inj.mp (RoundsTo.unique first second)
  rw [← Float.ofBits_toBits value, same, Float.ofBits_toBits]

/-- A decimal is read as the nearest double. -/
theorem Decimal.toFloat_isNearest (decimal : Decimal) : IsNearest decimal.value decimal.toFloat := by
  have rounds := decimal.nearestBits_roundsTo
  unfold IsNearest Decimal.toFloat
  rwa [toBits_ofBits rounds.inRange]

/-! ## Finite doubles -/

theorem unpackExponent_eq_top_iff {value : Float} :
    @unpackExponent Format.binary64 value.toBits.toBitVec = -BitVec.ofNat Format.binary64.exponentBits 1 ↔
      (Fields.ofFloat value).exponent = topExponent := by
  have exponent : (@unpackExponent Format.binary64 value.toBits.toBitVec).toNat =
      (Fields.ofFloat value).exponent := by
    rw [unpackExponent_def, BitVec.extractLsb'_toNat, Nat.shiftRight_eq_div_pow]
    rfl
  have top : (-BitVec.ofNat Format.binary64.exponentBits 1).toNat = topExponent := rfl
  rw [← BitVec.toNat_inj, exponent, top]

theorem unpackMantissa_eq_zero_iff {value : Float} :
    @unpackMantissa Format.binary64 value.toBits.toBitVec = 0 ↔ (Fields.ofFloat value).fraction = 0 := by
  have mantissa : (@unpackMantissa Format.binary64 value.toBits.toBitVec).toNat =
      (Fields.ofFloat value).fraction := by
    rw [unpackMantissa_def, BitVec.extractLsb'_toNat, Nat.shiftRight_zero]
    rfl
  rw [← BitVec.toNat_inj, mantissa]
  rfl

/-- A double is finite if its exponent field is not that of infinity and NaN. -/
theorem isFinite_iff {value : Float} :
    value.isFinite = true ↔ (Fields.ofFloat value).exponent ≠ topExponent := by
  have isTop := @unpackExponent_eq_top_iff value
  change (UnpackedFloat.unpack Format.binary64 value.toBits.toBitVec).isFinite = true ↔ _
  unfold UnpackedFloat.unpack
  dsimp only
  split
  · split <;> simp_all [UnpackedFloat.isFinite]
  · split
    · split <;> simp_all [UnpackedFloat.isFinite]
    · simp_all [UnpackedFloat.isFinite]

/-- A double is NaN if its exponent field is that of infinity and its fraction is not. -/
theorem isNaN_iff {value : Float} : value.isNaN = true ↔
    (Fields.ofFloat value).exponent = topExponent ∧ (Fields.ofFloat value).fraction ≠ 0 := by
  have isTop := @unpackExponent_eq_top_iff value
  have isZero := @unpackMantissa_eq_zero_iff value
  change (UnpackedFloat.unpack Format.binary64 value.toBits.toBitVec).isNaN = true ↔ _
  unfold UnpackedFloat.unpack
  dsimp only
  split
  · split <;> simp_all [UnpackedFloat.isNaN]
  · split
    · split <;> simp_all [UnpackedFloat.isNaN]
    · simp_all [UnpackedFloat.isNaN]

/-- The bits of a finite double behind its sign are those of a finite double. -/
theorem unsigned_lt {value : Float} (finite : value.isFinite = true) :
    value.toBits.toNat % 2 ^ 63 < infinityBits := by
  have notTop := isFinite_iff.mp finite
  unfold Fields.ofFloat Fields.ofBits fractionBits topExponent at notTop
  simp only [Nat.pow_eq] at notTop
  rw [infinityBits_eq]
  omega

/-- The double of a decimal is finite if its bits are below those of infinity. -/
theorem Decimal.isFinite_toFloat (decimal : Decimal) :
    decimal.toFloat.isFinite = true ↔ decimal.nearestBits < infinityBits := by
  have inRange := decimal.nearestBits_roundsTo.inRange
  have bits : decimal.toFloat.toBits.toNat = decimal.nearestBits := toBits_ofBits inRange
  have exponent : (Fields.ofFloat decimal.toFloat).exponent = decimal.nearestBits / 2 ^ 52 % 2048 := by
    rw [← bits]
    rfl
  rw [isFinite_iff, exponent, topExponent]
  rw [infinityBits_eq] at inRange ⊢
  omega

end LoxInterpreter.Number
