import LoxInterpreter.Proofs.Number.Doubles

/-!
Contract: when two doubles are equal as numbers.

Equality of doubles is not equality of bits: NaN differs from itself, and the two zeros are equal. The
doubles that numerals denote have no sign and are never NaN, and among them both are the same.

Owns: `Unsigned`, and `eq_of_beq`.
Does not own: which doubles numerals denote (`Proofs.Number.Rounding`).
-/

namespace LoxInterpreter.Number

open Float.Model Float.Model.UnpackedFloat

/-- The numbers that have no sign. -/
inductive Unsigned : UnpackedFloat → Prop
  | infinity : Unsigned (.infinity .positive)
  | zero : Unsigned (.zero .positive)
  | finite (mantissa : Nat) (exponent : Int) (positive : 0 < mantissa) :
      Unsigned (.finite .positive mantissa exponent positive)

theorem Unsigned.eq_of_compare {first second : UnpackedFloat} (unsigned : Unsigned first)
    (unsigned' : Unsigned second) (same : first.compare second = some .eq) : first = second := by
  cases unsigned <;> cases unsigned' <;> simp [UnpackedFloat.compare] at same ⊢
  exact same.symm

variable {bits : UInt64}

theorem unpackSign_eq_zero (inRange : bits.toNat ≤ infinityBits) :
    @unpackSign Format.binary64 bits.toBitVec = 0#1 := by
  rw [infinityBits_eq] at inRange
  apply BitVec.eq_of_toNat_eq
  rw [unpackSign_def, BitVec.extractLsb'_toNat, Nat.shiftRight_eq_div_pow]
  change bits.toNat / 2 ^ 63 % 2 ^ 1 = 0
  omega

/-- Bits up to those of infinity are those of a number without a sign. -/
theorem unsigned_unpack (inRange : bits.toNat ≤ infinityBits) :
    Unsigned (UnpackedFloat.unpack Format.binary64 bits.toBitVec) := by
  have isNumber := isNaNBits_eq_false inRange
  rw [UInt64.ofNat_toNat] at isNumber
  have unsigned : Sign.ofBitVec (@unpackSign Format.binary64 bits.toBitVec) = .positive := by
    rw [unpackSign_eq_zero inRange]
    rfl
  unfold isNaNBits at isNumber
  rw [decide_eq_false_iff_not] at isNumber
  unfold UnpackedFloat.unpack
  dsimp only
  rw [unsigned]
  split
  · split
    · exact .infinity
    · exact absurd ⟨‹_›, ‹_›⟩ isNumber
  · split
    · split
      · exact .zero
      · exact .finite ..
    · exact .finite ..

/-- Doubles without a sign that are equal as numbers have the same bits. -/
theorem eq_of_beq {first second : Float} (inRange : first.toBits.toNat ≤ infinityBits)
    (inRange' : second.toBits.toNat ≤ infinityBits) (same : (first == second) = true) : first = second := by
  have packed (value : Float) :
      UnpackedFloat.pack Format.binary64 value.toModel.unpack = value.toBits.toBitVec :=
    pack_unpack_of_valid value.toModel.valid
  have isEqual : first.toModel.unpack.compare second.toModel.unpack = some .eq := beq_iff_eq.mp same
  have unpacked : first.toModel.unpack = second.toModel.unpack :=
    (unsigned_unpack inRange).eq_of_compare (unsigned_unpack inRange') isEqual
  have bits : first.toBits.toBitVec = second.toBits.toBitVec := by
    rw [← packed first, unpacked, packed second]
  rw [← Float.ofBits_toBits first, UInt64.toBitVec_inj.mp bits, Float.ofBits_toBits]

end LoxInterpreter.Number
