import Mathlib
import MachineScript.Number.Shortest

/-!
Contract: rounding to double precision, in exact arithmetic.

Owns:
- what a mantissa with its two residual bits says about a quotient, and that
  shifts keep it;
- when the nearest natural number to a quotient is a given one;
- the canonical floats, and that a quotient in the reading interval of one of
  them is rounded to it.

Does not own: the operations that end in a rounding.
-/

namespace MachineScript.Number

open Float.Model Float.Model.UnpackedFloat

/-! ## Residual bits -/

/-- A mantissa is the whole part of a quotient, its round bit tells whether half or more is left,
and its sticky bit whether that is not exactly nothing or half. -/
structure StandsFor (extended : ExtendedMantissa) (numerator denominator : Nat) : Prop where
  mantissa : extended.mantissa = numerator / denominator
  roundBit : extended.roundBit = true ↔ denominator ≤ 2 * (numerator % denominator)
  stickyBit : extended.stickyBit = true
    ↔ numerator % denominator ≠ 0 ∧ 2 * (numerator % denominator) ≠ denominator

variable {extended : ExtendedMantissa} {numerator denominator nearest : Nat}

theorem StandsFor.ofQuotient (positive : 0 < denominator) :
    StandsFor (.ofMantissaAndAccuracy (numerator / denominator)
      (accuracyOfFraction (numerator % denominator) denominator)) numerator denominator := by
  have below := Nat.mod_lt numerator positive
  unfold accuracyOfFraction
  by_cases whole : numerator % denominator = 0
  · rw [if_pos whole]
    exact ⟨rfl, by simp [ExtendedMantissa.ofMantissaAndAccuracy]; omega,
      by simp [ExtendedMantissa.ofMantissaAndAccuracy, whole]⟩
  · rw [if_neg whole]
    rcases compared : compare (2 * (numerator % denominator)) denominator
    · have := Nat.compare_eq_lt.mp compared
      exact ⟨rfl, by simp [ExtendedMantissa.ofMantissaAndAccuracy]; omega,
        by simp [ExtendedMantissa.ofMantissaAndAccuracy]; omega⟩
    · have := Nat.compare_eq_eq.mp compared
      exact ⟨rfl, by simp [ExtendedMantissa.ofMantissaAndAccuracy]; omega,
        by simp [ExtendedMantissa.ofMantissaAndAccuracy]; omega⟩
    · have := Nat.compare_eq_gt.mp compared
      exact ⟨rfl, by simp [ExtendedMantissa.ofMantissaAndAccuracy]; omega,
        by simp [ExtendedMantissa.ofMantissaAndAccuracy]; omega⟩

/-- Shifting by one place halves the quotient. -/
theorem StandsFor.shiftRightOne (stands : StandsFor extended numerator denominator)
    (positive : 0 < denominator) :
    StandsFor extended.shiftRightOne numerator (denominator * 2) := by
  have below := Nat.mod_lt numerator positive
  have rest : numerator % (denominator * 2)
      = numerator % denominator + denominator * (numerator / denominator % 2) := Nat.mod_mul
  have bit := Nat.mod_two_eq_zero_or_one (numerator / denominator)
  refine ⟨?_, ?_, ?_⟩
  · change extended.mantissa / 2 = _
    rw [stands.mantissa, Nat.div_div_eq_div_mul]
  · change (extended.mantissa % 2 != 0) = true ↔ _
    rw [stands.mantissa, rest]
    rcases bit with even | odd
    · simp only [even, mul_zero]
      simp
      omega
    · simp only [odd, mul_one]
      simp
      omega
  · change (extended.roundBit || extended.stickyBit) = true ↔ _
    rw [Bool.or_eq_true, stands.roundBit, stands.stickyBit, rest]
    rcases bit with even | odd
    · simp only [even, mul_zero]
      omega
    · simp only [odd, mul_one]
      omega

theorem StandsFor.shiftRight (stands : StandsFor extended numerator denominator)
    (positive : 0 < denominator) (places : Nat) :
    StandsFor (extended >>> places) numerator (denominator * 2 ^ places) := by
  induction places with
  | zero => rwa [pow_zero, mul_one]
  | succ places inductionHypothesis =>
      rw [pow_succ, ← mul_assoc]
      exact inductionHypothesis.shiftRightOne (Nat.mul_pos positive (Nat.two_pow_pos places))

/-- The residual bits are all that rounding to the nearest number needs. -/
theorem StandsFor.roundedMantissa (stands : StandsFor extended numerator denominator) :
    extended.roundedMantissa = nearestQuotient .toEven numerator denominator := by
  obtain ⟨mantissa, roundBit, stickyBit⟩ := extended
  obtain ⟨rfl, half, between⟩ := stands
  have evenOrOdd := Nat.mod_two_eq_zero_or_one (numerator / denominator)
  unfold nearestQuotient
  cases roundBit <;> cases stickyBit <;>
    simp only [ExtendedMantissa.roundedMantissa, ExtendedMantissa.accuracy,
      Accuracy.roundToNearestEven, Bool.false_eq_true, false_iff, true_iff] at half between ⊢
  · rw [if_pos (by omega)]
  · rw [if_pos (by omega)]
  · rw [if_neg (by omega), if_neg (by omega)]
    split <;> omega
  · rw [if_neg (by omega), if_pos (by omega)]

/-! ## The nearest natural number -/

/-- A quotient no more than one half away is rounded to a number; at one half only if that is
even. -/
theorem nearestQuotient_of_near
    (above : 2 * nearest * denominator ≤ 2 * numerator + denominator)
    (below : 2 * numerator ≤ 2 * nearest * denominator + denominator)
    (strict : nearest % 2 = 1 → 2 * nearest * denominator < 2 * numerator + denominator
      ∧ 2 * numerator < 2 * nearest * denominator + denominator)
    (positive : 0 < denominator) :
    nearestQuotient .toEven numerator denominator = nearest := by
  have parts := Nat.div_add_mod numerator denominator
  have rest := Nat.mod_lt numerator positive
  unfold nearestQuotient
  generalize numerator / denominator = whole at *
  generalize numerator % denominator = left at *
  have atMost : whole ≤ nearest := by
    by_contra beyond
    have := Nat.mul_le_mul_left denominator (show nearest + 1 ≤ whole by omega)
    linarith
  have atLeast : nearest ≤ whole + 1 := by
    by_contra beyond
    have := Nat.mul_le_mul_left denominator (show whole + 2 ≤ nearest by omega)
    linarith
  obtain rfl | rfl : nearest = whole ∨ nearest = whole + 1 := by omega
  · have half : 2 * left ≤ denominator := by linarith
    rcases half.lt_or_eq with less | tie
    · exact if_pos less
    · have even : nearest % 2 = 0 := by
        by_contra odd
        have := (strict (by omega)).2
        linarith
      rw [if_neg (by omega), if_neg (by omega)]
      exact if_pos even
  · have half : denominator ≤ 2 * left := by linarith
    rcases half.lt_or_eq with more | tie
    · rw [if_neg (by omega), if_pos more]
    · have odd : whole % 2 ≠ 0 := by
        intro even
        have := (strict (by omega)).1
        linarith
      rw [if_neg (by omega), if_neg (by omega)]
      exact if_neg odd

/-- The nearest number is no more than one half away, and at one half it is even. -/
theorem near_nearestQuotient (positive : 0 < denominator)
    (isNearest : nearestQuotient .toEven numerator denominator = nearest) :
    2 * nearest * denominator ≤ 2 * numerator + denominator
      ∧ 2 * numerator ≤ 2 * nearest * denominator + denominator
      ∧ (nearest % 2 = 1 → 2 * nearest * denominator < 2 * numerator + denominator
        ∧ 2 * numerator < 2 * nearest * denominator + denominator) := by
  have parts := Nat.div_add_mod numerator denominator
  have rest := Nat.mod_lt numerator positive
  unfold nearestQuotient at isNearest
  generalize numerator / denominator = whole at *
  generalize numerator % denominator = left at *
  dsimp only at isNearest
  split at isNearest
  · subst isNearest
    exact ⟨by linarith, by linarith, fun _ => ⟨by linarith, by linarith⟩⟩
  · split at isNearest
    · subst isNearest
      exact ⟨by linarith, by linarith, fun _ => ⟨by linarith, by linarith⟩⟩
    · have tie : 2 * left = denominator := by omega
      split at isNearest
      · subst isNearest
        exact ⟨by linarith, by linarith, by omega⟩
      · subst isNearest
        exact ⟨by linarith, by linarith, by omega⟩

/-! ## Shifts -/

variable {mantissa places : Nat} {exponent : Int}

theorem targetExponent_eq (total : Int) :
    Format.binary64.targetExponent total = max (total - 53) leastExponent := by
  simp only [Format.targetExponent, Format.mantissaBits, Format.minExponent, leastExponent]
  norm_num

theorem targetExponent_totalExponent (mantissa : Nat) (exponent : Int) :
    Format.binary64.targetExponent (totalExponent mantissa exponent)
      = max (mantissa.log2 + exponent - 52) leastExponent := by
  rw [targetExponent_eq, totalExponent]
  omega

/-- The first shift leaves the quotient by as many places as the exponent goes up. -/
theorem shiftToTargetExponent_of_target (positive : 0 < denominator)
    (target : max ((numerator / denominator).log2 + exponent - 52) leastExponent
      = exponent + places) :
    ∃ shifted, shiftToTargetExponent Format.binary64 (numerator / denominator) exponent
        (accuracyOfFraction (numerator % denominator) denominator)
          = (shifted, exponent + places)
      ∧ shifted.roundedMantissa
        = nearestQuotient .toEven numerator (denominator * 2 ^ places) := by
  have amount : (exponent + places - exponent).toNat = places := by omega
  refine ⟨_, ?_, ((StandsFor.ofQuotient positive).shiftRight positive places).roundedMantissa⟩
  simp only [shiftToTargetExponent, targetExponent_totalExponent, target, shiftToExponent, amount]

/-- A mantissa that has room stays as it is. -/
theorem shiftToTargetExponent_of_room (room : mantissa < 2 ^ 53)
    (least : leastExponent ≤ exponent) :
    shiftToTargetExponent Format.binary64 mantissa exponent .exact
      = (⟨mantissa, false, false⟩, exponent) := by
  have bits : mantissa.log2 ≤ 52 := by
    by_cases zero : mantissa = 0
    · simp [zero]
    · exact Nat.le_of_lt_succ ((Nat.log2_lt zero).mpr room)
  have amount : (max (mantissa.log2 + exponent - 52) leastExponent - exponent).toNat = 0 := by
    omega
  simp only [shiftToTargetExponent, targetExponent_totalExponent, shiftToExponent, amount]
  exact Prod.ext rfl (add_zero exponent)

/-- A mantissa that rounding has carried over loses its last place. -/
theorem shiftToTargetExponent_of_carry (least : leastExponent ≤ exponent) :
    shiftToTargetExponent Format.binary64 (2 ^ 53) exponent .exact
      = (⟨2 ^ 52, false, false⟩, exponent + 1) := by
  have amount : (max (((2 ^ 53 : Nat).log2 : Int) + exponent - 52) leastExponent - exponent).toNat
      = 1 := by
    rw [Nat.log2_two_pow]
    omega
  simp only [shiftToTargetExponent, targetExponent_totalExponent, shiftToExponent, amount]
  rfl

/-! ## Rounding -/

variable {sign : Sign}

theorem roundWithAccuracy_of_room {nonzero : 0 < nearest} (positive : 0 < denominator)
    (target : max ((numerator / denominator).log2 + exponent - 52) leastExponent
      = exponent + places)
    (rounded : nearestQuotient .toEven numerator (denominator * 2 ^ places) = nearest)
    (room : nearest < 2 ^ 53) :
    roundWithAccuracy Format.binary64 sign (numerator / denominator) exponent
        (accuracyOfFraction (numerator % denominator) denominator)
      = .finite sign nearest (exponent + places) nonzero := by
  obtain ⟨shifted, first, mantissa⟩ := shiftToTargetExponent_of_target positive target
  have least : leastExponent ≤ exponent + places := target ▸ le_max_right _ _
  rw [roundWithAccuracy, first]
  simp only [mantissa, rounded, shiftToTargetExponent_of_room room least, nonzero.ne',
    ↓reduceDIte]

theorem roundWithAccuracy_of_carry (positive : 0 < denominator)
    (target : max ((numerator / denominator).log2 + exponent - 52) leastExponent
      = exponent + places)
    (rounded : nearestQuotient .toEven numerator (denominator * 2 ^ places) = 2 ^ 53) :
    roundWithAccuracy Format.binary64 sign (numerator / denominator) exponent
        (accuracyOfFraction (numerator % denominator) denominator)
      = .finite sign (2 ^ 52) (exponent + places + 1) (by decide) := by
  obtain ⟨shifted, first, mantissa⟩ := shiftToTargetExponent_of_target positive target
  have least : leastExponent ≤ exponent + places := target ▸ le_max_right _ _
  rw [roundWithAccuracy, first]
  simp only [mantissa, rounded, shiftToTargetExponent_of_carry least]
  rfl

/-- The magnitudes of finite floats other than zero, each written in one way. -/
structure Dyadic.IsCanonical (magnitude : Dyadic) : Prop where
  positive : 0 < magnitude.mantissa
  room : magnitude.mantissa < 2 ^ 53
  least : leastExponent ≤ magnitude.exponent
  greatest : magnitude.exponent ≤ 971
  normal : 2 ^ 52 ≤ magnitude.mantissa ∨ magnitude.exponent = leastExponent

/-- Between the ends of the interval, in units of a quarter of the float's last place; at an end
only if the interval is closed. -/
structure ReadingInterval.Holds (interval : ReadingInterval) (numerator denominator : Nat) :
    Prop where
  above : interval.low * denominator ≤ numerator
  below : numerator ≤ interval.high * denominator
  strict : interval.closed = false →
    interval.low * denominator < numerator ∧ numerator < interval.high * denominator

variable {magnitude : Dyadic}

theorem ReadingInterval.Holds.ofDyadic_below
    (holds : (ofDyadic magnitude).Holds (4 * numerator) denominator) :
    2 * numerator ≤ 2 * magnitude.mantissa * denominator + denominator := by
  have below : 4 * numerator ≤ (4 * magnitude.mantissa + 2) * denominator := holds.below
  linarith

theorem ReadingInterval.Holds.ofDyadic_above (nonzero : 0 < magnitude.mantissa)
    (holds : (ofDyadic magnitude).Holds (4 * numerator) denominator) :
    2 * magnitude.mantissa * denominator ≤ 2 * numerator + denominator := by
  have above : (4 * magnitude.mantissa - 2) * denominator ≤ 4 * numerator := by
    refine le_trans (Nat.mul_le_mul_right _ ?_) holds.above
    dsimp only [ofDyadic]
    split <;> omega
  obtain ⟨before, isSucc⟩ := Nat.exists_eq_add_one_of_ne_zero nonzero.ne'
  rw [isSucc, show 4 * (before + 1) - 2 = 4 * before + 2 by omega] at above
  rw [isSucc]
  linarith

/-- Below a power of two the interval reaches down only half as far. -/
theorem ReadingInterval.Holds.ofDyadic_narrow (power : magnitude.mantissa = 2 ^ 52)
    (notLeast : leastExponent < magnitude.exponent)
    (holds : (ofDyadic magnitude).Holds (4 * numerator) denominator) :
    2 ^ 54 * denominator ≤ 4 * numerator + denominator := by
  have narrow : (ofDyadic magnitude).low = 2 ^ 54 - 1 := by
    change (if _ then _ else _) = _
    rw [if_pos ⟨power, notLeast⟩, power]
    rfl
  have above := holds.above
  rw [narrow] at above
  omega

theorem ReadingInterval.Holds.ofDyadic_strict (odd : magnitude.mantissa % 2 = 1)
    (holds : (ofDyadic magnitude).Holds (4 * numerator) denominator) :
    2 * magnitude.mantissa * denominator < 2 * numerator + denominator
      ∧ 2 * numerator < 2 * magnitude.mantissa * denominator + denominator := by
  have isOpen : (ofDyadic magnitude).closed = false := by
    change decide _ = false
    simp [odd]
  obtain ⟨above, below⟩ := holds.strict isOpen
  change 4 * numerator < (4 * magnitude.mantissa + 2) * denominator at below
  have wide : (ofDyadic magnitude).low = 4 * magnitude.mantissa - 2 := by
    refine if_neg fun narrow => ?_
    rw [narrow.1] at odd
    exact absurd odd (by decide)
  obtain ⟨before, isSucc⟩ :=
    Nat.exists_eq_add_one_of_ne_zero (show magnitude.mantissa ≠ 0 by omega)
  rw [wide, isSucc, show 4 * (before + 1) - 2 = 4 * before + 2 by omega] at above
  rw [isSucc] at below ⊢
  constructor <;> linarith

theorem log2_div_lt (nonzero : 0 < places) (below : numerator < denominator * 2 ^ places) :
    (numerator / denominator).log2 < places := by
  by_cases zero : numerator / denominator = 0
  · simpa [zero] using nonzero
  · exact (Nat.log2_lt zero).mpr (Nat.div_lt_of_lt_mul below)

theorem le_log2_div (positive : 0 < denominator) (above : denominator * 2 ^ places ≤ numerator) :
    places ≤ (numerator / denominator).log2 := by
  have whole : 2 ^ places ≤ numerator / denominator :=
    (Nat.le_div_iff_mul_le positive).mpr (by rwa [mul_comm])
  exact (Nat.le_log2 (by have := Nat.two_pow_pos places; omega)).mpr whole

/-- A quotient just below a power of two, where the floats are closer together, is rounded up to
that power with a carry. -/
theorem roundWithAccuracy_of_narrow {nonzero : 0 < magnitude.mantissa} (positive : 0 < denominator)
    (exact : magnitude.exponent = exponent + places)
    (enough : 2 ^ 52 ≤ numerator / denominator ∨ exponent ≤ leastExponent)
    (power : magnitude.mantissa = 2 ^ 52) (notLeast : leastExponent < magnitude.exponent)
    (justBelow : numerator < 2 ^ 52 * (denominator * 2 ^ places))
    (low : 2 ^ 54 * (denominator * 2 ^ places) ≤ 4 * numerator + denominator * 2 ^ places) :
    roundWithAccuracy Format.binary64 sign (numerator / denominator) exponent
        (accuracyOfFraction (numerator % denominator) denominator)
      = .finite sign magnitude.mantissa magnitude.exponent nonzero := by
  cases places with
  | zero =>
      have tooFew : numerator / denominator < 2 ^ 52 := Nat.div_lt_of_lt_mul (by linarith)
      omega
  | succ places =>
      have units : 0 < denominator * 2 ^ places := Nat.mul_pos positive (Nat.two_pow_pos places)
      rw [pow_succ 2 places, ← mul_assoc denominator] at justBelow low
      have fits : (numerator / denominator).log2 < 53 + places := by
        refine log2_div_lt (by omega) ?_
        rw [pow_add, mul_left_comm]
        linarith
      have reaches : 52 + places ≤ (numerator / denominator).log2 := by
        refine le_log2_div positive ?_
        rw [pow_add, mul_left_comm]
        linarith
      have rounded : nearestQuotient .toEven numerator (denominator * 2 ^ places) = 2 ^ 53 :=
        nearestQuotient_of_near (by linarith) (by linarith)
          (fun odd => absurd odd (by decide)) units
      have target : max ((numerator / denominator).log2 + exponent - 52) leastExponent
          = exponent + places := by omega
      rw [roundWithAccuracy_of_carry positive target rounded]
      congr 1 <;> omega

/-- A quotient in the interval of a canonical float is rounded to that float. The case that needs a
carry is that of a quotient just below a power of two, where the floats are closer together. -/
theorem roundWithAccuracy_of_holds (canonical : magnitude.IsCanonical) (positive : 0 < denominator)
    (exact : magnitude.exponent = exponent + places)
    (enough : 2 ^ 52 ≤ numerator / denominator ∨ exponent ≤ leastExponent)
    (holds : (ReadingInterval.ofDyadic magnitude).Holds (4 * numerator)
      (denominator * 2 ^ places)) :
    roundWithAccuracy Format.binary64 sign (numerator / denominator) exponent
        (accuracyOfFraction (numerator % denominator) denominator)
      = .finite sign magnitude.mantissa magnitude.exponent canonical.positive := by
  obtain ⟨nonzero, room, least, greatest, normal⟩ := canonical
  have units : 0 < denominator * 2 ^ places := Nat.mul_pos positive (Nat.two_pow_pos places)
  have below := holds.ofDyadic_below
  have above := holds.ofDyadic_above nonzero
  have fits : (numerator / denominator).log2 < 53 + places := by
    refine log2_div_lt (by omega) ?_
    rw [pow_add, mul_left_comm]
    have := Nat.mul_le_mul_right (denominator * 2 ^ places) (Nat.le_of_lt_succ room)
    linarith
  by_cases narrow : magnitude.mantissa = 2 ^ 52 ∧ leastExponent < magnitude.exponent
      ∧ numerator < 2 ^ 52 * (denominator * 2 ^ places)
  · obtain ⟨power, notLeast, justBelow⟩ := narrow
    exact roundWithAccuracy_of_narrow positive exact enough power notLeast justBelow
      (holds.ofDyadic_narrow power notLeast)
  · have target : max ((numerator / denominator).log2 + exponent - 52) leastExponent
        = exponent + places := by
      by_cases isLeast : magnitude.exponent = leastExponent
      · omega
      · have enough : 52 + places ≤ (numerator / denominator).log2 := by
          refine le_log2_div positive ?_
          rw [pow_add, mul_left_comm]
          rcases (normal.resolve_right isLeast).eq_or_lt with power | more
          · by_contra less
            exact narrow ⟨power.symm, by omega, by omega⟩
          · have := Nat.mul_le_mul_right (denominator * 2 ^ places)
              (show 2 ^ 52 + 1 ≤ magnitude.mantissa from more)
            linarith
        omega
    have rounded := nearestQuotient_of_near above below (fun odd => holds.ofDyadic_strict odd) units
    simp only [exact]
    exact roundWithAccuracy_of_room positive target rounded room

end MachineScript.Number
