import Mathlib.Algebra.Order.Field.Power
import Mathlib.Tactic.Linarith
import Mathlib.Tactic.Positivity
import Mathlib.Tactic.Ring
import LoxInterpreter.Number.Nearest

/-!
Contract: `nearestBits` rounds correctly.

The bits of the positive doubles, zero and infinity included, stand in the order of their values. An
exact number stands between the values of two neighbours, so one of these two is nearest to it, and no
other double is nearer. Infinity counts as the power of two above the greatest double, which is how
rounding decides that a number is too great.

Owns: `valueOfBits`, `RoundsTo`, and `nearestBits_roundsTo`.
Does not own: which digits stand for a double (`Number.Shortest`), and the doubles that bits make up
(`Proofs.Number.Doubles`).
-/

namespace LoxInterpreter.Number

open Float.Model Float.Model.UnpackedFloat

/-- The value of a magnitude. -/
def Magnitude.value (magnitude : Magnitude) : ℚ :=
  magnitude.significand * (2 : ℚ) ^ magnitude.exponent

/-- The value of bits whose sign bit is clear. Those of infinity stand for the power of two above all
finite values. -/
def valueOfBits (bits : Nat) : ℚ := (Magnitude.ofBits bits).value

/-- Whether bits are those of the double that is nearest to an exact number, and the even ones where two
are nearest. -/
structure RoundsTo (exact : ℚ) (bits : Nat) : Prop where
  inRange : bits ≤ infinityBits
  nearest : ∀ other ≤ infinityBits, |exact - valueOfBits bits| ≤ |exact - valueOfBits other|
  even : ∀ other ≤ infinityBits, other ≠ bits →
    |exact - valueOfBits other| = |exact - valueOfBits bits| → bits % 2 = 0

/-! ## Bits in the order of their values -/

theorem infinityBits_eq : infinityBits = 2047 * 2 ^ 52 := rfl

theorem ofBits_subnormal {bits : Nat} (small : bits < 2 ^ 52) :
    Magnitude.ofBits bits = ⟨bits, leastExponent⟩ := by
  have noExponent : bits / 2 ^ 52 % 2048 = 0 := by omega
  have isFraction : bits % 2 ^ 52 = bits := Nat.mod_eq_of_lt small
  unfold Magnitude.ofBits Fields.ofBits fractionBits
  simp only [Nat.pow_eq]
  rw [if_pos noExponent, isFraction]

theorem ofBits_normal {exponent fraction : Nat} (isFraction : fraction < 2 ^ 52)
    (inRange : exponent + 1 < 2048) :
    Magnitude.ofBits ((exponent + 1) * 2 ^ 52 + fraction) =
      ⟨2 ^ 52 + fraction, leastExponent + exponent⟩ := by
  have hasExponent : ((exponent + 1) * 2 ^ 52 + fraction) / 2 ^ 52 % 2048 = exponent + 1 := by omega
  have hasFraction : ((exponent + 1) * 2 ^ 52 + fraction) % 2 ^ 52 = fraction := by omega
  unfold Magnitude.ofBits Fields.ofBits fractionBits
  simp only [Nat.pow_eq]
  rw [hasExponent, hasFraction, if_neg (Nat.succ_ne_zero exponent), Nat.add_sub_cancel]

/-- A significand on top of an exponent part, as `nearestBits` adds them. A carry out of the significand
steps the exponent. -/
theorem valueOfBits_add {exponent significand : Nat} (normal : exponent = 0 ∨ 2 ^ 52 ≤ significand)
    (small : significand ≤ 2 ^ 53) (inRange : exponent * 2 ^ 52 + significand ≤ infinityBits) :
    valueOfBits (exponent * 2 ^ 52 + significand) =
      significand * (2 : ℚ) ^ (leastExponent + exponent) := by
  rw [infinityBits_eq] at inRange
  unfold valueOfBits
  by_cases subnormal : significand < 2 ^ 52
  · have isZero : exponent = 0 := by omega
    subst isZero
    rw [Nat.zero_mul, Nat.zero_add, ofBits_subnormal subnormal, Nat.cast_zero, add_zero]
    rfl
  by_cases carries : significand = 2 ^ 53
  · have split : exponent * 2 ^ 52 + significand = (exponent + 1 + 1) * 2 ^ 52 + 0 := by omega
    have stepped : leastExponent + ((exponent + 1 : Nat) : Int) = leastExponent + exponent + 1 := by
      push_cast
      ring
    rw [split, ofBits_normal (by omega) (by omega), carries]
    unfold Magnitude.value
    rw [stepped, zpow_add_one₀ two_ne_zero]
    push_cast
    ring
  · have split : exponent * 2 ^ 52 + significand =
        (exponent + 1) * 2 ^ 52 + (significand - 2 ^ 52) := by omega
    have whole : 2 ^ 52 + (significand - 2 ^ 52) = significand := by omega
    rw [split, ofBits_normal (by omega) (by omega), whole]
    rfl

/-- The exponent part of finite bits and the significand on top of it. -/
theorem exists_bits_eq (bits : Nat) :
    ∃ exponent significand, bits = exponent * 2 ^ 52 + significand ∧
      (exponent = 0 ∨ 2 ^ 52 ≤ significand) ∧ significand < 2 ^ 53 := by
  refine ⟨bits / 2 ^ 52 - 1, bits - (bits / 2 ^ 52 - 1) * 2 ^ 52, ?_, ?_, ?_⟩ <;> omega

/-- The next bits stand for a greater number. -/
theorem valueOfBits_lt_succ {bits : Nat} (finite : bits < infinityBits) :
    valueOfBits bits < valueOfBits (bits + 1) := by
  obtain ⟨exponent, significand, rfl, normal, small⟩ := exists_bits_eq bits
  have normalNext : exponent = 0 ∨ 2 ^ 52 ≤ significand + 1 := by omega
  rw [Nat.add_assoc, valueOfBits_add normal (by omega) (by omega),
    valueOfBits_add normalNext (by omega) (by omega)]
  have place : (0 : ℚ) < (2 : ℚ) ^ (leastExponent + exponent) := by positivity
  push_cast
  linarith

theorem valueOfBits_lt {bits other : Nat} (less : bits < other) (inRange : other ≤ infinityBits) :
    valueOfBits bits < valueOfBits other := by
  induction other, less using Nat.le_induction with
  | base => exact valueOfBits_lt_succ (by omega)
  | succ other less inductionHypothesis =>
      exact (inductionHypothesis (by omega)).trans (valueOfBits_lt_succ (by omega))

theorem valueOfBits_le {bits other : Nat} (le : bits ≤ other) (inRange : other ≤ infinityBits) :
    valueOfBits bits ≤ valueOfBits other := by
  rcases Nat.eq_or_lt_of_le le with same | less
  · rw [same]
  · exact (valueOfBits_lt less inRange).le

/-! ## Nearest among all -/

section Neighbours

variable {exact : ℚ} {lower : Nat}

/-- No double is nearer to a number than both of the neighbours around it, and none but these is as
near. -/
theorem exists_neighbour (finite : lower < infinityBits) (above : valueOfBits lower ≤ exact)
    (below : exact ≤ valueOfBits (lower + 1)) {other : Nat} (inRange : other ≤ infinityBits) :
    ∃ neighbour, (neighbour = lower ∨ neighbour = lower + 1) ∧
      |exact - valueOfBits neighbour| ≤ |exact - valueOfBits other| ∧
      (|exact - valueOfBits other| = |exact - valueOfBits neighbour| → neighbour = other) := by
  rcases Nat.lt_or_ge lower other with isAbove | isBelow
  · have further := valueOfBits_le (Nat.succ_le_of_lt isAbove) inRange
    rw [abs_of_nonpos (sub_nonpos.mpr (below.trans further))]
    refine ⟨lower + 1, .inr rfl, ?_, fun same => ?_⟩
    · rw [abs_of_nonpos (sub_nonpos.mpr below)]
      linarith
    · by_contra different
      have strictly := valueOfBits_lt (Nat.lt_of_le_of_ne (Nat.succ_le_of_lt isAbove) different) inRange
      rw [abs_of_nonpos (sub_nonpos.mpr below)] at same
      linarith
  · have further := valueOfBits_le isBelow finite.le
    rw [abs_of_nonneg (sub_nonneg.mpr (further.trans above))]
    refine ⟨lower, .inl rfl, ?_, fun same => ?_⟩
    · rw [abs_of_nonneg (sub_nonneg.mpr above)]
      linarith
    · by_contra different
      have strictly := valueOfBits_lt (Nat.lt_of_le_of_ne isBelow (Ne.symm different)) finite.le
      rw [abs_of_nonneg (sub_nonneg.mpr above)] at same
      linarith

/-- A number rounds to the nearer one of the neighbours around it, and to the even one if neither is
nearer. -/
theorem roundsTo_neighbour (finite : lower < infinityBits) (above : valueOfBits lower ≤ exact)
    (below : exact ≤ valueOfBits (lower + 1)) {bits : Nat} (inRange : bits ≤ infinityBits)
    (nearer : ∀ neighbour, neighbour = lower ∨ neighbour = lower + 1 →
      |exact - valueOfBits bits| ≤ |exact - valueOfBits neighbour|)
    (tie : ∀ neighbour, neighbour = lower ∨ neighbour = lower + 1 → neighbour ≠ bits →
      |exact - valueOfBits neighbour| = |exact - valueOfBits bits| → bits % 2 = 0) :
    RoundsTo exact bits := by
  refine ⟨inRange, fun other otherInRange => ?_, fun other otherInRange different same => ?_⟩
  · have ⟨neighbour, isNeighbour, asNear, _⟩ := exists_neighbour finite above below otherInRange
    exact (nearer neighbour isNeighbour).trans asNear
  · have ⟨neighbour, isNeighbour, asNear, isOther⟩ := exists_neighbour finite above below otherInRange
    have isSame : neighbour = other :=
      isOther (le_antisymm (same.le.trans (nearer neighbour isNeighbour)) asNear)
    subst isSame
    exact tie neighbour isNeighbour different same

/-- A number that is as great as infinity counts rounds to it. -/
theorem roundsTo_infinity (great : valueOfBits infinityBits ≤ exact) : RoundsTo exact infinityBits := by
  have distance : |exact - valueOfBits infinityBits| = exact - valueOfBits infinityBits :=
    abs_of_nonneg (sub_nonneg.mpr great)
  refine ⟨le_rfl, fun other inRange => ?_, fun other inRange different same => ?_⟩
  · have further := valueOfBits_le inRange le_rfl
    rw [distance]
    exact le_trans (by linarith) (le_abs_self _)
  · have further := valueOfBits_lt (Nat.lt_of_le_of_ne inRange different) le_rfl
    rw [distance, abs_of_nonneg (by linarith)] at same
    linarith

/-- The value of a double rounds to that double. -/
theorem roundsTo_self {bits : Nat} (inRange : bits ≤ infinityBits) : RoundsTo (valueOfBits bits) bits := by
  refine ⟨inRange, fun other _ => ?_, fun other otherInRange different same => ?_⟩
  · rw [sub_self, abs_zero]
    exact abs_nonneg _
  · rw [sub_self, abs_zero, abs_eq_zero, sub_eq_zero] at same
    rcases Nat.lt_or_gt_of_ne different with less | greater
    · exact absurd same (valueOfBits_lt less inRange).ne'
    · exact absurd same (valueOfBits_lt greater otherInRange).ne

end Neighbours

/-- No number rounds to two doubles. -/
theorem RoundsTo.unique {exact : ℚ} {bits other : Nat} (first : RoundsTo exact bits)
    (second : RoundsTo exact other) : bits = other := by
  wlog ordered : bits ≤ other generalizing bits other
  · exact (this second first (Nat.le_of_not_le ordered)).symm
  by_contra different
  have same : |exact - valueOfBits bits| = |exact - valueOfBits other| :=
    le_antisymm (first.nearest other second.inRange) (second.nearest bits first.inRange)
  have evenFirst := first.even other second.inRange (Ne.symm different) same.symm
  have evenSecond := second.even bits first.inRange different same
  -- Two even doubles have one between them, which is nearer than either.
  have between := first.nearest (bits + 1) (by have := second.inRange; omega)
  have above := valueOfBits_lt (Nat.lt_succ_self bits) (by have := second.inRange; omega)
  have below := valueOfBits_lt (show bits + 1 < other by omega) second.inRange
  rcases abs_eq_abs.mp same with isSame | isOpposite
  · linarith
  · have isMiddle : exact = (valueOfBits bits + valueOfBits other) / 2 := by linarith
    rw [abs_of_nonneg (by linarith)] at between
    rcases abs_cases (exact - valueOfBits (bits + 1)) with ⟨isAbs, _⟩ | ⟨isAbs, _⟩
    · linarith
    · linarith

/-! ## The place of the last digit -/

/-- A power with an integer exponent as a quotient of natural powers. -/
theorem zpow_eq_div (base : ℚ) (exponent : Int) :
    base ^ exponent = base ^ exponent.toNat / base ^ (-exponent).toNat := by
  rcases Int.le_total 0 exponent with nonneg | nonpos
  · have isZero : (-exponent).toNat = 0 := by omega
    rw [isZero, pow_zero, div_one, ← zpow_natCast, Int.toNat_of_nonneg nonneg]
  · have isZero : exponent.toNat = 0 := by omega
    have whole : exponent = -((-exponent).toNat : Int) := by omega
    rw [isZero, pow_zero, one_div, ← zpow_natCast, ← zpow_neg, ← whole]

/-- A quotient of natural numbers in units of a power. -/
theorem quotient_div_zpow (numerator denominator base : Nat) (place : Int) :
    (numerator : ℚ) / denominator / (base : ℚ) ^ place =
      ((numerator * Nat.pow base (-place).toNat : Nat) : ℚ) / (denominator * Nat.pow base place.toNat : Nat) := by
  rw [zpow_eq_div, div_div_div_eq]
  simp only [Nat.pow_eq]
  push_cast
  rfl

/-- Whether a natural number is the nearer one of the two around a number, and the even one if neither is
nearer. -/
structure RoundsAmong (exact : ℚ) (lower rounded : Nat) : Prop where
  isNeighbour : rounded = lower ∨ rounded = lower + 1
  nearest : ∀ neighbour : Nat, neighbour = lower ∨ neighbour = lower + 1 →
    |exact - rounded| ≤ |exact - neighbour|
  even : ∀ neighbour : Nat, neighbour = lower ∨ neighbour = lower + 1 → neighbour ≠ rounded →
    |exact - neighbour| = |exact - rounded| → rounded % 2 = 0

section Quotient

variable {numerator denominator : Nat}

/-- Which power of two a logarithm stands for. -/
theorem log2_bounds {value : Nat} (positive : 0 < value) :
    (2 : ℚ) ^ (value.log2 : Int) ≤ value ∧ (value : ℚ) < 2 ^ ((value.log2 : Int) + 1) := by
  constructor
  · rw [zpow_natCast]
    exact_mod_cast Nat.log2_self_le positive.ne'
  · have above := Nat.lt_log2_self (n := value)
    have sum : ((value.log2 : Int) + 1) = ((value.log2 + 1 : Nat) : Int) := by push_cast; rfl
    rw [sum, zpow_natCast]
    exact_mod_cast above

theorem floorLog2_bounds (numeratorPositive : 0 < numerator) (denominatorPositive : 0 < denominator) :
    (2 : ℚ) ^ floorLog2 numerator denominator ≤ (numerator : ℚ) / denominator ∧
      (numerator : ℚ) / denominator < 2 ^ (floorLog2 numerator denominator + 1) := by
  have ⟨numeratorAbove, numeratorBelow⟩ := log2_bounds numeratorPositive
  have ⟨denominatorAbove, denominatorBelow⟩ := log2_bounds denominatorPositive
  have positive : (0 : ℚ) < denominator := by exact_mod_cast denominatorPositive
  have reaches (estimate : Int) :
      denominator * Nat.pow 2 estimate.toNat ≤ numerator * Nat.pow 2 (-estimate).toNat ↔
        (2 : ℚ) ^ estimate ≤ (numerator : ℚ) / denominator := by
    have scale : (0 : ℚ) < 2 ^ (-estimate).toNat := by positivity
    rw [zpow_eq_div, div_le_div_iff₀ scale positive, mul_comm]
    simp only [Nat.pow_eq]
    exact_mod_cast Iff.rfl
  unfold floorLog2
  dsimp only
  split
  · rename_i holds
    refine ⟨(reaches _).mp holds, ?_⟩
    rw [div_lt_iff₀ positive]
    calc (numerator : ℚ) < 2 ^ ((numerator.log2 : Int) + 1) := numeratorBelow
      _ = 2 ^ ((numerator.log2 : Int) - denominator.log2 + 1) * 2 ^ (denominator.log2 : Int) := by
          rw [← zpow_add₀ two_ne_zero]
          congr 1
          ring
      _ ≤ 2 ^ ((numerator.log2 : Int) - denominator.log2 + 1) * denominator := by gcongr
  · rename_i fails
    rw [Int.sub_add_cancel]
    refine ⟨?_, lt_of_not_ge fun holds => fails ((reaches _).mpr holds)⟩
    rw [le_div_iff₀ positive]
    calc (2 : ℚ) ^ ((numerator.log2 : Int) - denominator.log2 - 1) * denominator
        ≤ 2 ^ ((numerator.log2 : Int) - denominator.log2 - 1) * 2 ^ ((denominator.log2 : Int) + 1) := by
          gcongr
      _ = 2 ^ (numerator.log2 : Int) := by
          rw [← zpow_add₀ two_ne_zero]
          congr 1
          ring
      _ ≤ numerator := numeratorAbove

theorem roundsAmong_lower {exact : ℚ} {lower : Nat} (above : lower ≤ exact)
    (half : exact - lower ≤ 1 / 2) (tie : exact - lower = 1 / 2 → lower % 2 = 0) :
    RoundsAmong exact lower lower := by
  have toLower : |exact - lower| = exact - lower := abs_of_nonneg (sub_nonneg.mpr above)
  have toUpper : |exact - (lower + 1 : Nat)| = 1 - (exact - lower) := by
    rw [Nat.cast_add_one, abs_of_nonpos (by linarith)]
    ring
  refine ⟨.inl rfl, fun neighbour isNeighbour => ?_, fun neighbour isNeighbour different same => ?_⟩
  · rcases isNeighbour with rfl | rfl
    · exact le_rfl
    · rw [toLower, toUpper]
      linarith
  · rw [isNeighbour.resolve_left different, toLower, toUpper] at same
    exact tie (by linarith)

theorem roundsAmong_upper {exact : ℚ} {lower : Nat} (below : exact ≤ lower + 1)
    (half : 1 / 2 ≤ exact - lower) (tie : exact - lower = 1 / 2 → (lower + 1) % 2 = 0) :
    RoundsAmong exact lower (lower + 1) := by
  have toLower : |exact - lower| = exact - lower := abs_of_nonneg (by linarith)
  have toUpper : |exact - (lower + 1 : Nat)| = 1 - (exact - lower) := by
    rw [Nat.cast_add_one, abs_of_nonpos (by linarith)]
    ring
  refine ⟨.inr rfl, fun neighbour isNeighbour => ?_, fun neighbour isNeighbour different same => ?_⟩
  · rcases isNeighbour with rfl | rfl
    · rw [toLower, toUpper]
      linarith
    · exact le_rfl
  · rw [isNeighbour.resolve_right different, toLower, toUpper] at same
    exact tie (by linarith)

/-- A quotient is its natural part and less than one. -/
theorem quotient_eq (positive : 0 < denominator) :
    (numerator : ℚ) / denominator =
      (numerator / denominator : Nat) + ((numerator % denominator : Nat) : ℚ) / denominator := by
  have positive' : (denominator : ℚ) ≠ 0 := by exact_mod_cast positive.ne'
  have whole : (denominator : ℚ) * (numerator / denominator : Nat) +
      ((numerator % denominator : Nat) : ℚ) = numerator := by
    exact_mod_cast Nat.div_add_mod numerator denominator
  rw [div_eq_iff positive', add_mul, div_mul_cancel₀ _ positive', mul_comm, whole]

theorem quotient_bounds (positive : 0 < denominator) :
    ((numerator / denominator : Nat) : ℚ) ≤ (numerator : ℚ) / denominator ∧
      (numerator : ℚ) / denominator < (numerator / denominator : Nat) + 1 := by
  have positive' : (0 : ℚ) < denominator := by exact_mod_cast positive
  have less : ((numerator % denominator : Nat) : ℚ) < denominator := by
    exact_mod_cast Nat.mod_lt numerator positive
  have part : ((numerator % denominator : Nat) : ℚ) / denominator < 1 := (div_lt_one positive').mpr less
  have nonneg : (0 : ℚ) ≤ ((numerator % denominator : Nat) : ℚ) / denominator := by positivity
  rw [quotient_eq positive]
  constructor <;> linarith

/-- A quotient is rounded to the nearer one of the natural numbers around it, a tie to the even one. -/
theorem roundQuotient_roundsAmong (positive : 0 < denominator) :
    RoundsAmong ((numerator : ℚ) / denominator) (numerator / denominator)
      (roundQuotient numerator denominator) := by
  have positive' : (0 : ℚ) < denominator := by exact_mod_cast positive
  have ⟨above, below⟩ := @quotient_bounds numerator denominator positive
  have part : (numerator : ℚ) / denominator - (numerator / denominator : Nat) =
      ((numerator % denominator : Nat) : ℚ) / denominator := by
    rw [quotient_eq positive, add_sub_cancel_left]
  unfold roundQuotient
  dsimp only
  generalize (numerator : ℚ) / denominator = exact at *
  generalize numerator / denominator = lower at *
  generalize numerator % denominator = remainder at *
  split
  · rename_i less
    have isLess : exact - lower < 1 / 2 := by
      rw [part, div_lt_div_iff₀ positive' two_pos]
      exact_mod_cast (by omega : remainder * 2 < 1 * denominator)
    exact roundsAmong_lower above isLess.le fun tie => absurd tie isLess.ne
  split
  · rename_i greater
    have isGreater : 1 / 2 < exact - lower := by
      rw [part, div_lt_div_iff₀ two_pos positive']
      exact_mod_cast (by omega : 1 * denominator < remainder * 2)
    exact roundsAmong_upper below.le isGreater.le fun tie => absurd tie isGreater.ne'
  · have isHalf : exact - lower = 1 / 2 := by
      rw [part, div_eq_div_iff positive'.ne' two_ne_zero]
      exact_mod_cast (by omega : remainder * 2 = 1 * denominator)
    rcases Nat.mod_two_eq_zero_or_one lower with isEven | isOdd
    · rw [isEven]
      exact roundsAmong_lower above isHalf.le fun _ => isEven
    · rw [isOdd]
      exact roundsAmong_upper below.le isHalf.ge fun _ => by omega

end Quotient

/-! ## Rounding -/

/-- The value that infinity counts as is one of 53 bits, as if doubles went on. -/
theorem valueOfBits_infinity : valueOfBits infinityBits = 2 ^ 52 * (2 : ℚ) ^ (leastExponent + 2046) := by
  have isSum : infinityBits = 2046 * 2 ^ 52 + 2 ^ 52 := rfl
  rw [isSum, valueOfBits_add (.inr le_rfl) (by decide) (by decide)]
  push_cast
  rfl

/-- Rounding at a place: a number that has 53 bits in front of its point where that place is its unit, or
fewer at the least place, rounds to the natural number that is nearest in that unit. -/
theorem roundsTo_at_place {numerator denominator exponent : Nat} {exact : ℚ} (positive : 0 < denominator)
    (scaled : exact = (numerator : ℚ) / denominator * 2 ^ (leastExponent + exponent))
    (normal : exponent = 0 ∨ (2 : ℚ) ^ 52 ≤ (numerator : ℚ) / denominator)
    (small : (numerator : ℚ) / denominator < 2 ^ 53) :
    RoundsTo exact (min infinityBits (exponent * 2 ^ 52 + roundQuotient numerator denominator)) := by
  have ⟨above, below⟩ := @quotient_bounds numerator denominator positive
  have rounds := @roundQuotient_roundsAmong numerator denominator positive
  have isRounded := rounds.isNeighbour
  generalize (numerator : ℚ) / denominator = quotient at *
  generalize numerator / denominator = lower at *
  generalize roundQuotient numerator denominator = rounded at *
  have unit : (0 : ℚ) < 2 ^ (leastExponent + exponent) := by positivity
  have smallLower : lower < 2 ^ 53 := by exact_mod_cast lt_of_le_of_lt above small
  have normalLower : exponent = 0 ∨ 2 ^ 52 ≤ lower := by
    refine normal.imp_right fun great => ?_
    have less : (2 : ℚ) ^ 52 < lower + 1 := lt_of_le_of_lt great below
    exact Nat.lt_succ_iff.mp (by exact_mod_cast less)
  by_cases finite : exponent * 2 ^ 52 + lower < infinityBits
  · have isValue {neighbour : Nat} (isNeighbour : neighbour = lower ∨ neighbour = lower + 1) :
        valueOfBits (exponent * 2 ^ 52 + neighbour) = neighbour * 2 ^ (leastExponent + exponent) :=
      valueOfBits_add (by omega) (by omega) (by omega)
    have distance {neighbour : Nat} (isNeighbour : neighbour = lower ∨ neighbour = lower + 1) :
        |exact - valueOfBits (exponent * 2 ^ 52 + neighbour)| =
          |quotient - neighbour| * 2 ^ (leastExponent + exponent) := by
      rw [isValue isNeighbour, scaled, ← sub_mul, abs_mul, abs_of_pos unit]
    rw [min_eq_right (by omega)]
    apply roundsTo_neighbour finite
    · rw [isValue (.inl rfl), scaled]
      gcongr
    · rw [Nat.add_assoc, isValue (.inr rfl), scaled]
      push_cast
      gcongr
    · omega
    · intro bits isBits
      obtain ⟨neighbour, rfl, among⟩ : ∃ neighbour, bits = exponent * 2 ^ 52 + neighbour ∧
          (neighbour = lower ∨ neighbour = lower + 1) := ⟨bits - exponent * 2 ^ 52, by omega, by omega⟩
      rw [distance isRounded, distance among]
      exact mul_le_mul_of_nonneg_right (rounds.nearest neighbour among) unit.le
    · intro bits isBits different same
      obtain ⟨neighbour, rfl, among⟩ : ∃ neighbour, bits = exponent * 2 ^ 52 + neighbour ∧
          (neighbour = lower ∨ neighbour = lower + 1) := ⟨bits - exponent * 2 ^ 52, by omega, by omega⟩
      rw [distance isRounded, distance among] at same
      have isEven := rounds.even neighbour among (by omega) (mul_right_cancel₀ unit.ne' same)
      omega
  · have great : 2046 ≤ exponent ∧ 2 ^ 52 ≤ lower := by
      rw [infinityBits_eq] at finite
      omega
    rw [min_eq_left (by omega)]
    apply roundsTo_infinity
    have greatQuotient : (2 : ℚ) ^ 52 ≤ quotient := le_trans (by exact_mod_cast great.2) above
    have greatPlace : leastExponent + 2046 ≤ leastExponent + exponent := by omega
    rw [valueOfBits_infinity, scaled]
    gcongr
    exact one_le_two

/-- The bits that are computed are those of the nearest double. -/
theorem nearestBits_roundsTo {numerator denominator : Nat} (positive : 0 < denominator) :
    RoundsTo ((numerator : ℚ) / denominator) (nearestBits numerator denominator) := by
  unfold nearestBits
  split
  · rename_i isZero
    have valueZero : valueOfBits 0 = 0 := by
      rw [valueOfBits, ofBits_subnormal (by decide), Magnitude.value, Nat.cast_zero, zero_mul]
    rw [isZero, Nat.cast_zero, zero_div, ← valueZero]
    exact roundsTo_self (by decide)
  · rename_i notZero
    have ⟨atLeast, lessThan⟩ := floorLog2_bounds (Nat.pos_of_ne_zero notZero) positive
    dsimp only
    generalize floorLog2 numerator denominator = logarithm at *
    generalize isPlace : max leastExponent (logarithm - fractionBits) = place
    have isExponent : leastExponent + ((place - leastExponent).toNat : Int) = place := by omega
    have positive' : (0 : ℚ) < denominator := by exact_mod_cast positive
    have inUnits : ((numerator * Nat.pow 2 (-place).toNat : Nat) : ℚ) /
        (denominator * Nat.pow 2 place.toNat : Nat) = (numerator : ℚ) / denominator / 2 ^ place :=
      (quotient_div_zpow numerator denominator 2 place).symm
    have scaledPositive : 0 < denominator * Nat.pow 2 place.toNat :=
      Nat.mul_pos positive (Nat.pow_pos two_pos)
    have unit : (0 : ℚ) < 2 ^ place := by positivity
    apply roundsTo_at_place scaledPositive
    · rw [inUnits, isExponent, div_mul_cancel₀ _ unit.ne']
    · rw [inUnits]
      by_cases isLeast : place = leastExponent
      · exact .inl (by omega)
      · have isNormal : (52 : Int) + place = logarithm := by
          unfold fractionBits at isPlace
          omega
        rw [le_div_iff₀ unit, ← zpow_natCast, ← zpow_add₀ two_ne_zero]
        exact .inr (isNormal ▸ atLeast)
    · rw [inUnits, div_lt_iff₀ unit, ← zpow_natCast, ← zpow_add₀ two_ne_zero]
      refine lt_of_lt_of_le lessThan (zpow_le_zpow_right₀ one_le_two ?_)
      unfold fractionBits at isPlace
      omega

/-- The exact value of a decimal. -/
def Decimal.value (decimal : Decimal) : ℚ := decimal.digits * (10 : ℚ) ^ decimal.exponent

theorem Decimal.nearestBits_roundsTo (decimal : Decimal) :
    RoundsTo decimal.value decimal.nearestBits := by
  have isQuotient : decimal.value =
      ((decimal.digits * Nat.pow 10 decimal.exponent.toNat : Nat) : ℚ) /
        (Nat.pow 10 (-decimal.exponent).toNat : Nat) := by
    unfold value
    rw [zpow_eq_div]
    simp only [Nat.pow_eq]
    push_cast
    ring
  rw [isQuotient]
  exact Number.nearestBits_roundsTo (Nat.pow_pos (by decide))

end LoxInterpreter.Number
