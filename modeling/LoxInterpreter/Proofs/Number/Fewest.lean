import LoxInterpreter.Number.Style
import LoxInterpreter.Proofs.Number.Shortest

/-!
Contract: the decimal that stands for a double has the fewest digits that read back, and is the nearest of
those.

What reads back lies around the value of the double, so what lies between it and the value reads back too. Of
the decimals of a grid only the two around the value need to be tried. A decimal with a number of digits is one
of the grid that is tried at that number, or is below the power of ten under the value, which is one. The
distance of doubles is more than the distance on the seventeenth grid, so the search does not end without one.

Owns: `Decimal.IsShortest`, and `shortestDecimal_isShortest`.
Does not own: the layout of digits as text (`Proofs.Document.Numerals`).
-/

namespace LoxInterpreter.Number

/-- How many digits a decimal is written with. -/
def Decimal.digitCount (decimal : Decimal) : Nat := (decimalDigits decimal.digits).length

/-- Whether a decimal reads back to bits, with the fewest digits of all that do, and is the nearest to their
value of those with no more digits. -/
structure Decimal.IsShortest (decimal : Decimal) (bits : Nat) : Prop where
  readsBack : RoundsTo decimal.value bits
  fewest : ∀ other : Decimal, RoundsTo other.value bits → decimal.digitCount ≤ other.digitCount
  nearest : ∀ other : Decimal, RoundsTo other.value bits → other.digitCount ≤ decimal.digitCount →
    |decimal.value - valueOfBits bits| ≤ |other.value - valueOfBits bits|

variable {bits : Nat}

/-! ## What reads back -/

theorem Decimal.nearestBits_eq_iff {decimal : Decimal} :
    decimal.nearestBits = bits ↔ RoundsTo decimal.value bits :=
  ⟨fun same => same ▸ decimal.nearestBits_roundsTo, fun rounds => decimal.nearestBits_roundsTo.unique rounds⟩

theorem abs_sub_add_abs_sub {first between last : ℚ} (isBetween : between ∈ Set.uIcc first last) :
    |first - between| + |between - last| = |first - last| := by
  rcases Set.mem_uIcc.mp isBetween with ⟨above, below⟩ | ⟨above, below⟩
  · rw [abs_of_nonpos (by linarith), abs_of_nonpos (by linarith), abs_of_nonpos (by linarith)]
    ring
  · rw [abs_of_nonneg (by linarith), abs_of_nonneg (by linarith), abs_of_nonneg (by linarith)]
    ring

/-- From a number that reads back on, all reads back up to the value. -/
theorem RoundsTo.towards {exact between : ℚ} (rounds : RoundsTo exact bits)
    (isBetween : between ∈ Set.uIcc exact (valueOfBits bits)) :
    RoundsTo between bits ∧ |between - valueOfBits bits| ≤ |exact - valueOfBits bits| := by
  have sum := abs_sub_add_abs_sub isBetween
  have triangle (other : Nat) := abs_sub_le exact between (valueOfBits other)
  refine ⟨⟨rounds.inRange, fun other inRange => ?_, fun other inRange different same => ?_⟩, ?_⟩
  · linarith [rounds.nearest other inRange, triangle other]
  · exact rounds.even other inRange different
      (le_antisymm (by linarith [triangle other]) (rounds.nearest other inRange))
  · linarith [abs_nonneg (exact - between)]

/-- Two neighbours have 53 bits, so they are not close. -/
theorem valueOfBits_succ_le {lower : Nat} (finite : lower < infinityBits) :
    valueOfBits (lower + 1) ≤ 2 ^ 53 * (valueOfBits (lower + 1) - valueOfBits lower) := by
  obtain ⟨exponent, significand, rfl, normal, small⟩ := exists_bits_eq lower
  rw [Nat.add_assoc, valueOfBits_add normal (by omega) (by omega),
    valueOfBits_add (normal.imp_right fun isNormal => by omega) (by omega) (by omega)]
  have small' : ((significand + 1 : Nat) : ℚ) ≤ 2 ^ 53 := by exact_mod_cast small
  calc ((significand + 1 : Nat) : ℚ) * 2 ^ (leastExponent + exponent)
      ≤ 2 ^ 53 * 2 ^ (leastExponent + exponent) := by gcongr
    _ = 2 ^ 53 * ((significand + 1 : Nat) * 2 ^ (leastExponent + exponent) -
          significand * 2 ^ (leastExponent + exponent)) := by
        push_cast
        ring

/-- No other double is close to a finite one. -/
theorem valueOfBits_le_apart (finite : bits < infinityBits) {other : Nat} (inRange : other ≤ infinityBits)
    (different : other ≠ bits) :
    valueOfBits bits ≤ 2 ^ 53 * |valueOfBits bits - valueOfBits other| := by
  rcases Nat.lt_or_gt_of_ne different with less | greater
  · obtain ⟨lower, rfl⟩ : ∃ lower, bits = lower + 1 := ⟨bits - 1, by omega⟩
    have further := valueOfBits_le (Nat.le_of_lt_succ less) (by omega)
    have gap := valueOfBits_succ_le (show lower < infinityBits by omega)
    have distance := le_abs_self (valueOfBits (lower + 1) - valueOfBits other)
    linarith
  · have further := valueOfBits_le (Nat.succ_le_of_lt greater) inRange
    have gap := valueOfBits_succ_le finite
    have next := valueOfBits_lt_succ finite
    have distance := neg_le_abs (valueOfBits bits - valueOfBits other)
    linarith

/-- What is closer to a double than half the distance to any other reads back. -/
theorem roundsTo_of_close (finite : bits < infinityBits) {exact : ℚ}
    (close : 2 ^ 54 * |exact - valueOfBits bits| < valueOfBits bits) : RoundsTo exact bits := by
  have nearer {other : Nat} (inRange : other ≤ infinityBits) (different : other ≠ bits) :
      |exact - valueOfBits bits| < |exact - valueOfBits other| := by
    have apart := valueOfBits_le_apart finite inRange different
    have triangle := abs_sub_le (valueOfBits bits) exact (valueOfBits other)
    rw [abs_sub_comm (valueOfBits bits) exact] at triangle
    linarith
  refine ⟨finite.le, fun other inRange => ?_, fun other inRange different same => ?_⟩
  · by_cases isSame : other = bits
    · rw [isSame]
    · exact (nearer inRange isSame).le
  · exact absurd same (nearer inRange different).ne'

/-- Rounding moves a number by no more than a half. -/
theorem RoundsAmong.distance_le {exact : ℚ} {lower rounded : Nat} (among : RoundsAmong exact lower rounded)
    (above : lower ≤ exact) (below : exact ≤ lower + 1) : |exact - rounded| ≤ 1 / 2 := by
  have toLower := among.nearest lower (.inl rfl)
  have toUpper := among.nearest (lower + 1) (.inr rfl)
  rw [abs_of_nonneg (sub_nonneg.mpr above)] at toLower
  rw [Nat.cast_add_one, abs_of_nonpos (sub_nonpos.mpr below)] at toUpper
  linarith

/-! ## The power of ten above a double -/

section Estimate

/-- Powers of numbers that differ by no more than a factor of ten. -/
theorem zpow_apart {lesser greater : ℚ} (positive : 0 < lesser) (ordered : lesser ≤ greater)
    (close : greater ≤ lesser * 10) (exponent : Int) :
    lesser ^ exponent ≤ greater ^ exponent * 10 ^ exponent.natAbs ∧
      greater ^ exponent ≤ lesser ^ exponent * 10 ^ exponent.natAbs := by
  have positive' : 0 < greater := positive.trans_le ordered
  have grows (power : Nat) : (1 : ℚ) ≤ 10 ^ power := one_le_pow₀ (by norm_num)
  have up (power : Nat) : lesser ^ power ≤ greater ^ power * 10 ^ power :=
    (pow_le_pow_left₀ positive.le ordered power).trans (le_mul_of_one_le_right (by positivity) (grows power))
  have down (power : Nat) : greater ^ power ≤ lesser ^ power * 10 ^ power :=
    mul_pow lesser 10 power ▸ pow_le_pow_left₀ positive'.le close power
  obtain ⟨power, rfl | rfl⟩ := exponent.eq_nat_or_neg
  · simpa using ⟨up power, down power⟩
  · simp only [zpow_neg, zpow_natCast, Int.natAbs_neg, Int.natAbs_natCast, inv_mul_eq_div]
    constructor
    · rw [inv_le_iff_one_le_mul₀ (by positivity), div_mul_eq_mul_div, one_le_div (by positivity), mul_comm]
      exact down power
    · rw [inv_le_iff_one_le_mul₀ (by positivity), div_mul_eq_mul_div, one_le_div (by positivity), mul_comm]
      exact up power

variable {parts share : Nat}

/-- A share that is close to the decimal logarithm of two gives decimal logarithms from binary ones. -/
theorem zpow_bounds_of_share (positive : parts ≠ 0) (below : (2 : ℚ) ^ parts ≤ 10 ^ share)
    (above : (10 : ℚ) ^ share ≤ 2 ^ parts * 10) {logarithm estimate : Int}
    (small : share + logarithm.natAbs ≤ parts) (isFloor : parts * estimate ≤ share * logarithm)
    (isFloor' : share * logarithm < parts * estimate + parts) :
    (10 : ℚ) ^ (estimate - 1) ≤ 2 ^ logarithm ∧ (2 : ℚ) ^ (logarithm + 1) ≤ 10 ^ (estimate + 2) := by
  have ⟨least, most⟩ := zpow_apart (by positivity) below above logarithm
  have small' : (share : Int) + logarithm.natAbs ≤ parts := by exact_mod_cast small
  have powers (base : ℚ) (exponent : Int) : (base ^ exponent) ^ parts = base ^ (parts * exponent) := by
    rw [mul_comm, zpow_mul, zpow_natCast]
  simp only [← zpow_natCast, ← zpow_mul] at least most below
  rw [← zpow_add₀ (by norm_num)] at least
  constructor
  · rw [← pow_le_pow_iff_left₀ (by positivity) (by positivity) positive, powers, powers]
    have scale : (0 : ℚ) < 10 ^ (logarithm.natAbs : Int) := by positivity
    refine le_of_mul_le_mul_right (le_trans ?_ most) scale
    rw [← zpow_add₀ (by norm_num)]
    exact zpow_le_zpow_right₀ (by norm_num) (by linarith)
  · rw [← pow_le_pow_iff_left₀ (by positivity) (by positivity) positive, powers, powers, mul_add, mul_one,
      zpow_add₀ two_ne_zero]
    refine (mul_le_mul least below (by positivity) (by positivity)).trans ?_
    rw [← zpow_add₀ (by norm_num)]
    exact zpow_le_zpow_right₀ (by norm_num) (by linarith)

/-- The decimal logarithm as it is estimated from the binary one. -/
def decimalEstimate (logarithm : Int) : Int := (logarithm * 30103).fdiv 100000

/-- The estimate is close for all logarithms of doubles. -/
theorem decimalEstimate_bounds {logarithm : Int} (least : leastExponent ≤ logarithm) (most : logarithm < 1024) :
    (10 : ℚ) ^ (decimalEstimate logarithm - 1) ≤ 2 ^ logarithm ∧
      (2 : ℚ) ^ (logarithm + 1) ≤ 10 ^ (decimalEstimate logarithm + 2) := by
  have below : 2 ^ 100000 ≤ 10 ^ 30103 := by decide +kernel
  have above : 10 ^ 30103 ≤ 2 ^ 100000 * 10 := by decide +kernel
  have isQuotient : decimalEstimate logarithm = logarithm * 30103 / 100000 :=
    Int.fdiv_eq_ediv_of_nonneg _ (by decide)
  unfold leastExponent at least
  exact @zpow_bounds_of_share 100000 30103 (by decide) (by exact_mod_cast below) (by exact_mod_cast above) _ _
    (by omega) (by omega) (by omega)

end Estimate

namespace Magnitude

theorem denominator_pos (magnitude : Magnitude) : 0 < magnitude.denominator := Nat.pow_pos (by decide)

theorem value_eq_div (magnitude : Magnitude) :
    magnitude.value = (magnitude.numerator : ℚ) / magnitude.denominator := by
  unfold value numerator denominator
  rw [zpow_eq_div]
  simp only [Nat.pow_eq]
  push_cast
  ring

/-- A magnitude in units of a power of ten. -/
theorem value_div_zpow (magnitude : Magnitude) (place : Int) :
    magnitude.value / (10 : ℚ) ^ place =
      ((magnitude.numerator * Nat.pow 10 (-place).toNat : Nat) : ℚ) /
        (magnitude.denominator * Nat.pow 10 place.toNat : Nat) := by
  rw [value_eq_div]
  exact quotient_div_zpow magnitude.numerator magnitude.denominator 10 place

theorem belowPowerOfTen_iff (magnitude : Magnitude) (power : Int) :
    magnitude.belowPowerOfTen power = true ↔ magnitude.value < (10 : ℚ) ^ power := by
  have unit : (0 : ℚ) < 10 ^ power := by positivity
  have positive : (0 : ℚ) < (magnitude.denominator * Nat.pow 10 power.toNat : Nat) := by
    exact_mod_cast Nat.mul_pos magnitude.denominator_pos (Nat.pow_pos (by decide))
  rw [← div_lt_one unit, value_div_zpow, div_lt_one positive, Nat.cast_lt]
  exact decide_eq_true_iff

end Magnitude

/-- The binary logarithm of a double. -/
def binaryLogarithm (bits : Nat) : Int :=
  floorLog2 (Magnitude.ofBits bits).numerator (Magnitude.ofBits bits).denominator

section Scale

variable (positive : 0 < bits) (finite : bits < infinityBits)
include positive finite

/-- The least double above zero is a power of two. -/
theorem zpow_least_le_valueOfBits : (2 : ℚ) ^ leastExponent ≤ valueOfBits bits := by
  have least : valueOfBits 1 = 2 ^ leastExponent := by
    have isValue := @valueOfBits_add 0 1 (.inl rfl) (by decide) (by decide)
    simpa using isValue
  exact least ▸ valueOfBits_le (Nat.succ_le_of_lt positive) finite.le

theorem binaryLogarithm_bounds :
    (2 : ℚ) ^ binaryLogarithm bits ≤ valueOfBits bits ∧ valueOfBits bits < 2 ^ (binaryLogarithm bits + 1) := by
  have isPositive : (0 : ℚ) < valueOfBits bits :=
    lt_of_lt_of_le (by positivity) (zpow_least_le_valueOfBits positive finite)
  rw [valueOfBits, Magnitude.value_eq_div] at isPositive ⊢
  refine floorLog2_bounds (Nat.pos_of_ne_zero fun isZero => ?_) (Magnitude.ofBits bits).denominator_pos
  rw [isZero, Nat.cast_zero, zero_div] at isPositive
  exact lt_irrefl _ isPositive

theorem binaryLogarithm_range : leastExponent ≤ binaryLogarithm bits ∧ binaryLogarithm bits < 1024 := by
  have ⟨below, above⟩ := binaryLogarithm_bounds positive finite
  have isTop : valueOfBits infinityBits = 2 ^ (1024 : Int) := by
    rw [valueOfBits_infinity, ← zpow_natCast, ← zpow_add₀ two_ne_zero]
    rfl
  have fromLeast := lt_of_le_of_lt (zpow_least_le_valueOfBits positive finite) above
  have toTop := lt_of_le_of_lt below (isTop ▸ valueOfBits_lt finite le_rfl)
  rw [zpow_lt_zpow_iff_right₀ one_lt_two] at fromLeast toTop
  exact ⟨Int.lt_add_one_iff.mp fromLeast, toTop⟩

/-- The scale is that of the power of ten next above the value. -/
theorem decimalScale_bounds :
    (10 : ℚ) ^ ((Magnitude.ofBits bits).decimalScale - 1) ≤ valueOfBits bits ∧
      valueOfBits bits < (10 : ℚ) ^ (Magnitude.ofBits bits).decimalScale := by
  have ⟨below, above⟩ := binaryLogarithm_bounds positive finite
  have ⟨least, most⟩ := binaryLogarithm_range positive finite
  have ⟨estimateBelow, estimateAbove⟩ := decimalEstimate_bounds least most
  have isScale : (Magnitude.ofBits bits).decimalScale =
      if (Magnitude.ofBits bits).belowPowerOfTen (decimalEstimate (binaryLogarithm bits)) then
        decimalEstimate (binaryLogarithm bits)
      else if (Magnitude.ofBits bits).belowPowerOfTen (decimalEstimate (binaryLogarithm bits) + 1) then
        decimalEstimate (binaryLogarithm bits) + 1
      else decimalEstimate (binaryLogarithm bits) + 2 := rfl
  generalize decimalEstimate (binaryLogarithm bits) = estimate at *
  simp only [Magnitude.belowPowerOfTen_iff] at isScale
  change _ = if valueOfBits bits < _ then _ else if valueOfBits bits < _ then _ else _ at isScale
  rw [isScale]
  split
  · rename_i holds
    exact ⟨estimateBelow.trans below, holds⟩
  split
  · rename_i fails holds
    rw [Int.add_sub_cancel]
    exact ⟨not_lt.mp fails, holds⟩
  · rename_i _ fails
    have stepped : estimate + 2 - 1 = estimate + 1 := by ring
    rw [stepped]
    exact ⟨not_lt.mp fails, above.trans_le estimateAbove⟩

end Scale

/-! ## The decimals of a grid -/

section Grid

variable {place : Int} {decimal : Decimal}

/-- The decimal of a grid at a magnitude or next below it. -/
def Magnitude.floorOn (magnitude : Magnitude) (place : Int) : Nat :=
  magnitude.numerator * Nat.pow 10 (-place).toNat / (magnitude.denominator * Nat.pow 10 place.toNat)

theorem Magnitude.scaledDenominator_pos (magnitude : Magnitude) (place : Int) :
    0 < magnitude.denominator * Nat.pow 10 place.toNat :=
  Nat.mul_pos magnitude.denominator_pos (Nat.pow_pos (by decide))

/-- The value in units of a grid is between two neighbours. -/
theorem floorOn_le_quotient (bits : Nat) (place : Int) :
    ((Magnitude.ofBits bits).floorOn place : ℚ) ≤ valueOfBits bits / 10 ^ place ∧
      valueOfBits bits / 10 ^ place < (Magnitude.ofBits bits).floorOn place + 1 := by
  have bounds := @quotient_bounds ((Magnitude.ofBits bits).numerator * Nat.pow 10 (-place).toNat) _
    ((Magnitude.ofBits bits).scaledDenominator_pos place)
  rwa [← Magnitude.value_div_zpow] at bounds

theorem floorOn_bounds (bits : Nat) (place : Int) :
    Decimal.value ⟨(Magnitude.ofBits bits).floorOn place, place⟩ ≤ valueOfBits bits ∧
      valueOfBits bits < Decimal.value ⟨(Magnitude.ofBits bits).floorOn place + 1, place⟩ := by
  have unit : (0 : ℚ) < 10 ^ place := by positivity
  have ⟨below, above⟩ := floorOn_le_quotient bits place
  unfold Decimal.value
  push_cast
  exact ⟨(le_div_iff₀ unit).mp below, (div_lt_iff₀ unit).mp above⟩

/-- On a grid where any decimal reads back, one of the two around the value does, and is no further from it. -/
theorem exists_neighbour_onGrid {digits : Nat} (rounds : RoundsTo (Decimal.value ⟨digits, place⟩) bits) :
    ∃ neighbour, (neighbour = (Magnitude.ofBits bits).floorOn place ∨
        neighbour = (Magnitude.ofBits bits).floorOn place + 1) ∧
      RoundsTo (Decimal.value ⟨neighbour, place⟩) bits ∧
      |Decimal.value ⟨neighbour, place⟩ - valueOfBits bits| ≤
        |Decimal.value ⟨digits, place⟩ - valueOfBits bits| := by
  have ⟨below, above⟩ := floorOn_bounds bits place
  have ordered {first second : Nat} (le : first ≤ second) :
      Decimal.value ⟨first, place⟩ ≤ Decimal.value ⟨second, place⟩ := by
    unfold Decimal.value
    dsimp only
    gcongr
  rcases Nat.lt_or_ge ((Magnitude.ofBits bits).floorOn place) digits with isAbove | isBelow
  · exact ⟨_, .inr rfl, rounds.towards (Set.mem_uIcc.mpr (.inr ⟨above.le, ordered isAbove⟩))⟩
  · exact ⟨_, .inl rfl, rounds.towards (Set.mem_uIcc.mpr (.inl ⟨ordered isBelow, below⟩))⟩

/-- Where no decimal of a grid is found, none of it reads back. -/
theorem not_roundsTo_of_onGrid (notFound : (Magnitude.ofBits bits).onGrid? bits place = none) (digits : Nat) :
    ¬ RoundsTo (Decimal.value ⟨digits, place⟩) bits := by
  intro rounds
  obtain ⟨neighbour, isNeighbour, roundsHere, _⟩ := exists_neighbour_onGrid rounds
  have reads := Decimal.nearestBits_eq_iff.mpr roundsHere
  unfold Magnitude.onGrid? at notFound
  dsimp only at notFound
  split at notFound
  · cases notFound
  · cases notFound
  · cases notFound
  · rename_i notBelow notAbove
    rcases isNeighbour with rfl | rfl
    · exact beq_eq_false_iff_ne.mp notBelow reads
    · exact beq_eq_false_iff_ne.mp notAbove reads

/-- How far a decimal of a grid is from the value, in units of the grid. -/
theorem distance_onGrid (bits : Nat) (place : Int) (digits : Nat) :
    |Decimal.value ⟨digits, place⟩ - valueOfBits bits| =
      |valueOfBits bits / 10 ^ place - digits| * 10 ^ place := by
  have unit : (0 : ℚ) < 10 ^ place := by positivity
  unfold Decimal.value
  rw [abs_sub_comm]
  conv_rhs => rw [← abs_of_pos unit, ← abs_mul, abs_of_pos unit, sub_mul, div_mul_cancel₀ _ unit.ne']

/-- The quotient that is rounded on a grid is the nearer one of the two around the value. -/
theorem roundQuotient_onGrid (bits : Nat) (place : Int) :
    RoundsAmong (valueOfBits bits / 10 ^ place) ((Magnitude.ofBits bits).floorOn place)
      (roundQuotient ((Magnitude.ofBits bits).numerator * Nat.pow 10 (-place).toNat)
        ((Magnitude.ofBits bits).denominator * Nat.pow 10 place.toNat)) := by
  have rounds := @roundQuotient_roundsAmong ((Magnitude.ofBits bits).numerator * Nat.pow 10 (-place).toNat) _
    ((Magnitude.ofBits bits).scaledDenominator_pos place)
  rwa [← Magnitude.value_div_zpow] at rounds

/-- A grid has a decimal that is no further from the value than half its unit. -/
theorem exists_close_onGrid (bits : Nat) (place : Int) :
    ∃ digits : Nat, |Decimal.value ⟨digits, place⟩ - valueOfBits bits| ≤ 1 / 2 * 10 ^ place := by
  have ⟨below, above⟩ := floorOn_le_quotient bits place
  obtain ⟨rounded, among⟩ : ∃ rounded,
      RoundsAmong (valueOfBits bits / 10 ^ place) ((Magnitude.ofBits bits).floorOn place) rounded :=
    ⟨_, roundQuotient_onGrid bits place⟩
  refine ⟨rounded, ?_⟩
  rw [distance_onGrid]
  exact mul_le_mul_of_nonneg_right (among.distance_le below above.le) (by positivity)

/-- What is found on a grid is one of the two decimals around the value, and the other one is no nearer where
it reads back. -/
theorem among_of_onGrid (found : (Magnitude.ofBits bits).onGrid? bits place = some decimal) :
    decimal.digits ≤ (Magnitude.ofBits bits).floorOn place + 1 ∧
      ∀ neighbour, neighbour = (Magnitude.ofBits bits).floorOn place ∨
          neighbour = (Magnitude.ofBits bits).floorOn place + 1 →
        RoundsTo (Decimal.value ⟨neighbour, place⟩) bits →
        |decimal.value - valueOfBits bits| ≤ |Decimal.value ⟨neighbour, place⟩ - valueOfBits bits| := by
  have among := roundQuotient_onGrid bits place
  unfold Magnitude.onGrid? at found
  dsimp only at found
  split at found
  · obtain rfl := Option.some.inj found
    refine ⟨?_, fun neighbour isNeighbour _ => ?_⟩
    · rcases among.isNeighbour with isLower | isUpper
      · exact isLower.le.trans (Nat.le_succ _)
      · exact isUpper.le
    · rw [distance_onGrid, distance_onGrid]
      exact mul_le_mul_of_nonneg_right (among.nearest neighbour isNeighbour) (by positivity)
  · rename_i _ notAbove
    obtain rfl := Option.some.inj found
    refine ⟨Nat.le_succ _, fun neighbour isNeighbour rounds => ?_⟩
    rcases isNeighbour with rfl | rfl
    · exact le_rfl
    · exact absurd (Decimal.nearestBits_eq_iff.mpr rounds) (beq_eq_false_iff_ne.mp notAbove)
  · rename_i notBelow _
    obtain rfl := Option.some.inj found
    refine ⟨le_rfl, fun neighbour isNeighbour rounds => ?_⟩
    rcases isNeighbour with rfl | rfl
    · exact absurd (Decimal.nearestBits_eq_iff.mpr rounds) (beq_eq_false_iff_ne.mp notBelow)
    · exact le_rfl
  · cases found

/-- No decimal of a grid that reads back is nearer than what is found on it. -/
theorem nearest_of_onGrid (found : (Magnitude.ofBits bits).onGrid? bits place = some decimal) {digits : Nat}
    (rounds : RoundsTo (Decimal.value ⟨digits, place⟩) bits) :
    |decimal.value - valueOfBits bits| ≤ |Decimal.value ⟨digits, place⟩ - valueOfBits bits| := by
  obtain ⟨neighbour, isNeighbour, roundsHere, asNear⟩ := exists_neighbour_onGrid rounds
  exact ((among_of_onGrid found).2 neighbour isNeighbour roundsHere).trans asNear

end Grid

/-! ## Decimals with a number of digits -/

section Digits

variable {decimal : Decimal} {count : Nat}

theorem Decimal.digitCount_pos (decimal : Decimal) : 0 < decimal.digitCount := Nat.length_toDigits_pos

theorem Decimal.digitCount_le_iff (positive : 0 < count) :
    decimal.digitCount ≤ count ↔ decimal.digits < 10 ^ count :=
  Nat.length_toDigits_le_iff (by decide) positive

/-- A power of ten is one digit and zeros. -/
theorem Decimal.digitCount_normalize (positive : 0 < count) (few : decimal.digits ≤ 10 ^ count) :
    decimal.normalize.digitCount ≤ count := by
  fun_induction normalize decimal with
  | case1 decimal zeros inductionHypothesis => exact inductionHypothesis ((Nat.div_le_self _ _).trans few)
  | case2 decimal noZeros =>
      rw [digitCount_le_iff positive]
      refine Nat.lt_of_le_of_ne few fun isPower => noZeros ?_
      have isMultiple : 10 ∣ 10 ^ count := dvd_pow_self 10 positive.ne'
      rw [isPower]
      exact ⟨Nat.pow_pos (by decide), Nat.mod_eq_zero_of_dvd isMultiple⟩

/-- For a decimal that reads back, one of the grid of its number of digits does, and is no further from the
value. -/
theorem exists_onGrid_of_digitCount (positive : 0 < bits) (finite : bits < infinityBits)
    (rounds : RoundsTo decimal.value bits) (atLeastOne : 0 < count) (few : decimal.digitCount ≤ count) :
    ∃ digits : Nat,
      RoundsTo (Decimal.value ⟨digits, (Magnitude.ofBits bits).decimalScale - count⟩) bits ∧
      |Decimal.value ⟨digits, (Magnitude.ofBits bits).decimalScale - count⟩ - valueOfBits bits| ≤
        |decimal.value - valueOfBits bits| := by
  have ⟨least, _⟩ := decimalScale_bounds positive finite
  have small : (decimal.digits : ℚ) < 10 ^ (count : Int) := by
    rw [zpow_natCast]
    exact_mod_cast (Decimal.digitCount_le_iff atLeastOne).mp few
  generalize (Magnitude.ofBits bits).decimalScale = scale at *
  by_cases onGrid : scale - count ≤ decimal.exponent
  · obtain ⟨zeros, isSum⟩ : ∃ zeros : Nat, decimal.exponent = zeros + (scale - count) :=
      ⟨(decimal.exponent - (scale - count)).toNat, by omega⟩
    have same : Decimal.value ⟨decimal.digits * 10 ^ zeros, scale - count⟩ = decimal.value := by
      unfold Decimal.value
      rw [isSum, zpow_add₀ (by norm_num), zpow_natCast]
      push_cast
      ring
    exact ⟨_, same ▸ rounds, same ▸ le_rfl⟩
  · -- So fine a place leaves the decimal below the power of ten under the value, which is on the grid.
    have isPower : Decimal.value ⟨10 ^ (count - 1), scale - count⟩ = 10 ^ (scale - 1) := by
      unfold Decimal.value
      push_cast
      rw [← zpow_natCast, ← zpow_add₀ (by norm_num)]
      congr 1
      omega
    have below : decimal.value ≤ 10 ^ (scale - 1) := by
      have unit : (0 : ℚ) < 10 ^ decimal.exponent := by positivity
      calc decimal.value ≤ 10 ^ (count : Int) * 10 ^ decimal.exponent :=
            mul_le_mul_of_nonneg_right small.le unit.le
        _ = 10 ^ (count + decimal.exponent) := (zpow_add₀ (by norm_num) _ _).symm
        _ ≤ 10 ^ (scale - 1) := zpow_le_zpow_right₀ (by norm_num) (by omega)
    exact ⟨10 ^ (count - 1), isPower ▸ rounds.towards (Set.mem_uIcc.mpr (.inl ⟨below, least⟩))⟩

/-- What is found on the grid of a number of digits has no more digits, up to zeros at the end. -/
theorem digits_le_of_onGrid (positive : 0 < bits) (finite : bits < infinityBits)
    (found : (Magnitude.ofBits bits).onGrid? bits ((Magnitude.ofBits bits).decimalScale - count) = some decimal) :
    decimal.digits ≤ 10 ^ count := by
  have ⟨_, most⟩ := decimalScale_bounds positive finite
  have ⟨below, _⟩ := floorOn_bounds bits ((Magnitude.ofBits bits).decimalScale - count)
  refine (among_of_onGrid found).1.trans (Nat.succ_le_of_lt ?_)
  generalize (Magnitude.ofBits bits).decimalScale = scale at *
  have unit : (0 : ℚ) < 10 ^ (scale - count) := by positivity
  have split : (10 : ℚ) ^ scale = 10 ^ count * 10 ^ (scale - count) := by
    rw [← zpow_natCast, ← zpow_add₀ (by norm_num), add_sub_cancel]
  have less := split ▸ lt_of_le_of_lt below most
  exact_mod_cast lt_of_mul_lt_mul_right less unit.le

/-- On the grid of seventeen digits a decimal reads back. -/
theorem exists_onGrid_sufficient (positive : 0 < bits) (finite : bits < infinityBits) :
    ∃ digits : Nat,
      RoundsTo (Decimal.value ⟨digits, (Magnitude.ofBits bits).decimalScale - sufficientDigits⟩) bits := by
  have ⟨least, _⟩ := decimalScale_bounds positive finite
  generalize (Magnitude.ofBits bits).decimalScale = scale at *
  obtain ⟨digits, close⟩ := exists_close_onGrid bits (scale - sufficientDigits)
  have unit : (0 : ℚ) < 10 ^ (scale - sufficientDigits) := by positivity
  refine ⟨digits, roundsTo_of_close finite ?_⟩
  calc 2 ^ 54 * |Decimal.value ⟨digits, scale - sufficientDigits⟩ - valueOfBits bits|
      ≤ 2 ^ 54 * (1 / 2 * 10 ^ (scale - sufficientDigits)) := by gcongr
    _ < 10 ^ (16 : Int) * 10 ^ (scale - sufficientDigits) := by
        rw [← mul_assoc]
        exact mul_lt_mul_of_pos_right (by norm_num) unit
    _ = 10 ^ (scale - 1) := by
        rw [← zpow_add₀ (by norm_num)]
        congr 1
        unfold sufficientDigits
        omega
    _ ≤ valueOfBits bits := least

end Digits

/-! ## The search -/

section Search

variable {magnitude : Magnitude} {scale : Int} {tried remaining : Nat} {decimal : Decimal}

/-- What is found is found on the first grid on which there is anything. -/
theorem exists_count_of_search (found : magnitude.search bits scale tried remaining = some decimal) :
    ∃ count : Nat, tried < count ∧ count ≤ tried + remaining ∧
      magnitude.onGrid? bits (scale - count) = some decimal ∧
      ∀ fewer : Nat, tried < fewer → fewer < count → magnitude.onGrid? bits (scale - fewer) = none := by
  induction remaining generalizing tried with
  | zero => cases found
  | succ remaining inductionHypothesis =>
      rw [Magnitude.search] at found
      split at found
      · rename_i here
        obtain rfl := Option.some.inj found
        exact ⟨tried + 1, by omega, by omega, here, fun fewer _ _ => by omega⟩
      · rename_i notHere
        obtain ⟨count, after, within, isFound, noneBefore⟩ := inductionHypothesis found
        refine ⟨count, by omega, by omega, isFound, fun fewer later before => ?_⟩
        rcases Nat.eq_or_lt_of_le (Nat.succ_le_of_lt later) with rfl | further
        · exact notHere
        · exact noneBefore fewer further before

/-- A search that finds nothing has tried all its grids. -/
theorem onGrid_of_search_none (notFound : magnitude.search bits scale tried remaining = none) {count : Nat}
    (after : tried < count) (within : count ≤ tried + remaining) :
    magnitude.onGrid? bits (scale - count) = none := by
  induction remaining generalizing tried with
  | zero => omega
  | succ remaining inductionHypothesis =>
      rw [Magnitude.search] at notFound
      split at notFound
      · cases notFound
      · rename_i notHere
        rcases Nat.eq_or_lt_of_le (Nat.succ_le_of_lt after) with rfl | further
        · exact notHere
        · exact inductionHypothesis notFound further (by omega)

end Search

/-- The decimal that stands for a double is found on a grid, the first one on which any decimal reads back. -/
theorem shortestDecimal_onGrid (positive : 0 < bits) (finite : bits < infinityBits) :
    ∃ count : Nat, ∃ decimal, 0 < count ∧ shortestDecimal bits = Decimal.normalize decimal ∧
      (Magnitude.ofBits bits).onGrid? bits ((Magnitude.ofBits bits).decimalScale - count) = some decimal ∧
      ∀ fewer : Nat, 0 < fewer → fewer < count →
        (Magnitude.ofBits bits).onGrid? bits ((Magnitude.ofBits bits).decimalScale - fewer) = none := by
  unfold shortestDecimal
  rw [if_neg positive.ne']
  dsimp only
  cases found : (Magnitude.ofBits bits).search bits (Magnitude.ofBits bits).decimalScale 0 sufficientDigits with
  | some decimal =>
      obtain ⟨count, atLeastOne, _, isFound, noneBefore⟩ := exists_count_of_search found
      exact ⟨count, decimal, atLeastOne, rfl, isFound, noneBefore⟩
  | none =>
      obtain ⟨digits, rounds⟩ := exists_onGrid_sufficient positive finite
      have notFound := @onGrid_of_search_none _ _ _ _ _ found sufficientDigits (by decide) (by decide)
      exact absurd rounds (not_roundsTo_of_onGrid notFound digits)

/-- The decimal that stands for a finite double is the shortest one that reads back. -/
theorem shortestDecimal_isShortest (finite : bits < infinityBits) : (shortestDecimal bits).IsShortest bits := by
  rcases Nat.eq_zero_or_pos bits with rfl | positive
  · have value : (shortestDecimal 0).value = valueOfBits 0 := by
      rw [valueOfBits, ofBits_subnormal (by decide)]
      simp [shortestDecimal, Decimal.value, Magnitude.value]
    refine ⟨shortestDecimal_roundsTo finite, fun other _ => other.digitCount_pos, fun other _ _ => ?_⟩
    rw [value, sub_self, abs_zero]
    exact abs_nonneg _
  obtain ⟨count, decimal, atLeastOne, isDecimal, found, noneBefore⟩ := shortestDecimal_onGrid positive finite
  have few : (shortestDecimal bits).digitCount ≤ count :=
    isDecimal ▸ Decimal.digitCount_normalize atLeastOne (digits_le_of_onGrid positive finite found)
  refine ⟨shortestDecimal_roundsTo finite, fun other rounds => ?_, fun other rounds fewer => ?_⟩
  · by_contra more
    have fewer : other.digitCount < count := by omega
    obtain ⟨digits, roundsHere, _⟩ :=
      exists_onGrid_of_digitCount positive finite rounds other.digitCount_pos le_rfl
    exact not_roundsTo_of_onGrid (noneBefore _ other.digitCount_pos fewer) digits roundsHere
  · obtain ⟨digits, roundsHere, asNear⟩ :=
      exists_onGrid_of_digitCount positive finite rounds atLeastOne (fewer.trans few)
    rw [isDecimal, Decimal.value_normalize]
    exact (nearest_of_onGrid found roundsHere).trans asNear

end LoxInterpreter.Number
