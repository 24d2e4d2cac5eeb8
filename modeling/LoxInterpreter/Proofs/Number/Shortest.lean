import Mathlib.Tactic.FieldSimp
import LoxInterpreter.Number.Shortest
import LoxInterpreter.Proofs.Number.Rounding

/-!
Contract: the decimal that stands for a double reads back.

Whatever way the search ends, the double that is nearest to the decimal it gives is the one it was started
with: a decimal of a grid is accepted only then, and the exact value, which closes the search, has no other
double as near. Moving zeros out of the digits leaves the value as it is.

Owns: `shortestDecimal_roundsTo`.
Does not own: that fewer digits do not suffice (`Proofs.Number.Fewest`), nor the layout of digits as text
(`Proofs.Document.Numerals`).
-/

namespace LoxInterpreter.Number

theorem Decimal.value_normalize (decimal : Decimal) : decimal.normalize.value = decimal.value := by
  fun_induction normalize decimal with
  | case1 decimal zeros inductionHypothesis =>
      rw [inductionHypothesis]
      have digits : decimal.digits = decimal.digits / 10 * 10 := by omega
      unfold value
      dsimp only
      rw [zpow_add_one₀ (by norm_num)]
      conv_rhs => rw [digits]
      push_cast
      ring
  | case2 decimal => rfl

namespace Magnitude

variable {magnitude : Magnitude} {bits : Nat} {decimal : Decimal}

/-- A quotient is rounded down or up. -/
theorem roundQuotient_eq (numerator denominator : Nat) :
    roundQuotient numerator denominator = numerator / denominator ∨
      roundQuotient numerator denominator = numerator / denominator + 1 := by
  unfold roundQuotient
  dsimp only
  split
  · exact .inl rfl
  split
  · exact .inr rfl
  · omega

/-- What is found on a grid reads back. -/
theorem nearestBits_of_onGrid {place : Int} (found : magnitude.onGrid? bits place = some decimal) :
    decimal.nearestBits = bits := by
  unfold onGrid? at found
  dsimp only at found
  split at found
  · rename_i below above
    obtain rfl := Option.some.inj found
    rcases roundQuotient_eq (magnitude.numerator * Nat.pow 10 (-place).toNat)
      (magnitude.denominator * Nat.pow 10 place.toNat) with down | up
    · rw [down]
      exact beq_iff_eq.mp below
    · rw [up]
      exact beq_iff_eq.mp above
  · rename_i below _
    obtain rfl := Option.some.inj found
    exact beq_iff_eq.mp below
  · rename_i _ above
    obtain rfl := Option.some.inj found
    exact beq_iff_eq.mp above
  · cases found

/-- What the search finds reads back, however fine the grid on which it is found. -/
theorem nearestBits_of_search {scale : Int} {tried remaining : Nat}
    (found : magnitude.search bits scale tried remaining = some decimal) : decimal.nearestBits = bits := by
  induction remaining generalizing tried with
  | zero => cases found
  | succ remaining inductionHypothesis =>
      rw [search] at found
      split at found
      · rename_i here
        obtain rfl := Option.some.inj found
        exact nearestBits_of_onGrid here
      · exact inductionHypothesis found

/-- The exact value of a magnitude has finitely many digits. -/
theorem value_exactDecimal (magnitude : Magnitude) : magnitude.exactDecimal.value = magnitude.value := by
  unfold exactDecimal
  split
  · rename_i whole
    obtain ⟨exponent, isExponent⟩ := Int.eq_ofNat_of_zero_le whole
    unfold Decimal.value value numerator
    rw [isExponent]
    simp
  · rename_i fractional
    obtain ⟨places, isPlaces⟩ : ∃ places : Nat, magnitude.exponent = -places :=
      ⟨(-magnitude.exponent).toNat, by omega⟩
    have five : ((5 : ℚ) ^ places) * (10 : ℚ) ^ (-(places : Int)) = (2 : ℚ) ^ (-(places : Int)) := by
      rw [zpow_neg, zpow_neg, zpow_natCast, zpow_natCast, show (10 : ℚ) = 5 * 2 by norm_num, mul_pow]
      field_simp
    unfold Decimal.value value
    dsimp only
    rw [isPlaces, neg_neg, Int.toNat_natCast, ← five]
    push_cast [Nat.pow_eq]
    ring

end Magnitude

/-- The decimal that stands for a finite double without a sign rounds to that double. -/
theorem shortestDecimal_roundsTo {bits : Nat} (finite : bits < infinityBits) :
    RoundsTo (shortestDecimal bits).value bits := by
  unfold shortestDecimal
  split
  · rename_i isZero
    have zero : valueOfBits 0 = 0 := by
      rw [valueOfBits, ofBits_subnormal (by decide), Magnitude.value, Nat.cast_zero, zero_mul]
    rw [isZero, Decimal.value, Nat.cast_zero, zero_mul, ← zero]
    exact roundsTo_self (by decide)
  · dsimp only
    rw [Decimal.value_normalize]
    cases found : (Magnitude.ofBits bits).search bits (Magnitude.ofBits bits).decimalScale 0
        sufficientDigits with
    | some decimal =>
        have rounds := decimal.nearestBits_roundsTo
        rwa [Magnitude.nearestBits_of_search found] at rounds
    | none =>
        rw [Option.getD_none, Magnitude.value_exactDecimal]
        exact roundsTo_self finite.le

/-- What stands for a finite double has no digits but zero only where the double is zero. -/
theorem shortestDecimal_zero {bits : Nat} (finite : bits < infinityBits) :
    (shortestDecimal bits).digits = 0 → (shortestDecimal bits).exponent = 0 := by
  intro noDigits
  have rounds := shortestDecimal_roundsTo finite
  have zero : (shortestDecimal bits).value = (shortestDecimal 0).value := by
    rw [Decimal.value, noDigits]
    simp [shortestDecimal, Decimal.value]
  rw [zero] at rounds
  rw [rounds.unique (shortestDecimal_roundsTo (by decide))]
  rfl

end LoxInterpreter.Number
