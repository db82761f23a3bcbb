import MachineScript.Number.Reading
import MachineScript.Proofs.Number.Scientific

/-!
Contract: the shortest decimal of a float reads back as that float.

Owns:
- comparisons of powers of ten with powers of two;
- that every multiple the search takes lies in the reading interval;
- that the search ends before its steps do;
- the decimal point of the shortest decimal, within what is read exactly.

Does not own: how the digits are laid out.
-/

namespace MachineScript.Number

variable {magnitude : Dyadic} {interval : ReadingInterval} {power exponent : Int}
  {coefficient : Nat}

/-! ## Powers of ten and of two -/

/-- The logarithm of ten to the base two is below 103/31. -/
theorem tenPow_le_twoPow {tens twos : Nat} (enough : 103 * tens ≤ 31 * twos) :
    (10 : ℚ) ^ tens ≤ 2 ^ twos := by
  refine (pow_le_pow_iff_left₀ (by positivity) (by positivity) (show 31 ≠ 0 by decide)).mp ?_
  calc ((10 : ℚ) ^ tens) ^ 31
      = (10 ^ 31) ^ tens := pow_right_comm _ _ _
    _ ≤ (2 ^ 103) ^ tens := pow_le_pow_left₀ (by positivity) (by norm_num) _
    _ = 2 ^ (103 * tens) := (pow_mul _ _ _).symm
    _ ≤ 2 ^ (31 * twos) := pow_le_pow_right₀ one_le_two enough
    _ = (2 ^ twos) ^ 31 := by rw [mul_comm, pow_mul]

/-- The logarithm of two to the base ten is below 28/93. -/
theorem twoPow_le_tenPow {tens twos : Nat} (enough : 28 * twos ≤ 93 * tens) :
    (2 : ℚ) ^ twos ≤ 10 ^ tens := by
  refine (pow_le_pow_iff_left₀ (by positivity) (by positivity) (show 93 ≠ 0 by decide)).mp ?_
  calc ((2 : ℚ) ^ twos) ^ 93
      = (2 ^ 93) ^ twos := pow_right_comm _ _ _
    _ ≤ (10 ^ 28) ^ twos := pow_le_pow_left₀ (by positivity) (by norm_num) _
    _ = 10 ^ (28 * twos) := (pow_mul _ _ _).symm
    _ ≤ 10 ^ (93 * tens) := pow_le_pow_right₀ (by norm_num) enough
    _ = (10 ^ tens) ^ 93 := by rw [mul_comm, pow_mul]

theorem tenTo_le_twoTo (above : 103 * power ≤ 31 * exponent) (below : 93 * power ≤ 28 * exponent) :
    (10 : ℚ) ^ power ≤ 2 ^ exponent := by
  rcases Int.le_total 0 power with whole | fraction
  · lift power to Nat using whole
    lift exponent to Nat using by omega
    exact_mod_cast tenPow_le_twoPow (by omega)
  · rcases Int.le_total 0 exponent with more | less
    · exact (zpow_le_one_of_nonpos₀ (by norm_num) fraction).trans
        (one_le_zpow₀ one_le_two more)
    · obtain ⟨tens, rfl⟩ := Int.exists_eq_neg_ofNat fraction
      obtain ⟨twos, rfl⟩ := Int.exists_eq_neg_ofNat less
      rw [zpow_neg, zpow_neg, zpow_natCast, zpow_natCast]
      exact inv_anti₀ (by positivity) (twoPow_le_tenPow (by omega))

theorem twoTo_le_tenTo (above : 31 * exponent ≤ 103 * power) (below : 28 * exponent ≤ 93 * power) :
    (2 : ℚ) ^ exponent ≤ 10 ^ power := by
  have reversed : (10 : ℚ) ^ (-power) ≤ 2 ^ (-exponent) := tenTo_le_twoTo (by omega) (by omega)
  rw [zpow_neg, zpow_neg] at reversed
  exact (inv_le_inv₀ (by positivity) (by positivity)).mp reversed

/-! ## The multiples of one power of ten -/

namespace ReadingInterval

/-- A power of ten, and a unit of the interval, both multiplied with what makes them whole. -/
def grid (interval : ReadingInterval) (power : Int) : Nat :=
  tenTo power.toNat * twoTo (-interval.exponent).toNat

def scale (interval : ReadingInterval) (power : Int) : Nat :=
  tenTo (-power).toNat * twoTo interval.exponent.toNat

theorem grid_pos (interval : ReadingInterval) (power : Int) : 0 < interval.grid power :=
  Nat.mul_pos (tenTo_pos _) (twoTo_pos _)

theorem scale_pos (interval : ReadingInterval) (power : Int) : 0 < interval.scale power :=
  Nat.mul_pos (tenTo_pos _) (twoTo_pos _)

theorem grid_eq (interval : ReadingInterval) (power : Int) :
    (interval.grid power : ℚ) * 2 ^ interval.exponent = interval.scale power * 10 ^ power := by
  rw [zpow_eq_div, zpow_eq_div 10]
  simp only [grid, scale, tenTo, twoTo, Nat.pow_eq]
  push_cast
  field_simp

/-- The test that the search makes on a multiple. -/
def reads (interval : ReadingInterval) (power : Int) (multiple : Nat) : Bool :=
  if interval.closed then
    interval.low * interval.scale power ≤ multiple * interval.grid power
      && multiple * interval.grid power ≤ interval.high * interval.scale power
  else
    interval.low * interval.scale power < multiple * interval.grid power
      && multiple * interval.grid power < interval.high * interval.scale power

theorem multiple?_eq (interval : ReadingInterval) (power : Int) :
    interval.multiple? power =
      let centre := interval.centre * interval.scale power
      let below := centre / interval.grid power
      if interval.reads power below then
        if interval.reads power (below + 1)
            && interval.grid power ≤ 2 * (centre - below * interval.grid power) then
          some (below + 1)
        else some below
      else if interval.reads power (below + 1) then some (below + 1)
      else none := rfl

theorem reads_of_multiple? (found : interval.multiple? power = some coefficient) :
    interval.reads power coefficient = true := by
  rw [multiple?_eq] at found
  dsimp only at found
  split at found
  · rename_i below
    split at found
    · rename_i both
      cases found
      exact (Bool.and_eq_true_iff.mp both).1
    · cases found
      exact below
  · split at found
    · rename_i above
      cases found
      exact above
    · cases found

/-- What passes the test lies in the interval. -/
theorem contains_of_reads (read : interval.reads power coefficient = true) :
    interval.Contains (coefficient * 10 ^ power) := by
  have exact : (coefficient * 10 ^ power : ℚ) = (coefficient * interval.grid power : Nat)
      / (interval.scale power : Nat) * 2 ^ interval.exponent := by
    have positive : (interval.scale power : ℚ) ≠ 0 := by
      exact_mod_cast (interval.scale_pos power).ne'
    rw [div_mul_eq_mul_div, eq_div_iff positive]
    push_cast
    rw [mul_assoc (coefficient : ℚ) (interval.grid power : ℚ), grid_eq]
    ring
  rw [contains_iff_holds (interval.scale_pos power) exact]
  unfold reads at read
  split at read
  · rename_i closed
    obtain ⟨above, below⟩ := by simpa using read
    exact ⟨above, below, fun isOpen => absurd (closed.symm.trans isOpen) (by decide)⟩
  · obtain ⟨above, below⟩ := by simpa using read
    exact ⟨above.le, below.le, fun _ => ⟨above, below⟩⟩

/-- A multiple lies in the interval if the power of ten is no more than one unit: the greatest one
that is not above the float is less than a unit below it. -/
theorem multiple?_of_fine (fine : (10 : ℚ) ^ power ≤ 2 ^ interval.exponent)
    (low : interval.low < interval.centre) (high : interval.centre < interval.high) :
    ∃ coefficient, interval.multiple? power = some coefficient := by
  have whole : interval.grid power ≤ interval.scale power := by
    have unit : (0 : ℚ) < 2 ^ interval.exponent := by positivity
    have scaled : (interval.grid power : ℚ) * 2 ^ interval.exponent
        ≤ interval.scale power * 2 ^ interval.exponent := by
      rw [grid_eq]
      exact mul_le_mul_of_nonneg_left fine (Nat.cast_nonneg _)
    exact_mod_cast le_of_mul_le_mul_right scaled unit
  have read : interval.reads power
      (interval.centre * interval.scale power / interval.grid power) = true := by
    have positive := interval.scale_pos power
    have atMost := Nat.div_mul_le_self (interval.centre * interval.scale power)
      (interval.grid power)
    have near := Nat.lt_div_mul_add (interval.grid_pos power)
      (a := interval.centre * interval.scale power)
    have above : (interval.low + 1) * interval.scale power
        ≤ interval.centre * interval.scale power := Nat.mul_le_mul_right _ low
    have below : interval.centre * interval.scale power < interval.high * interval.scale power :=
      Nat.mul_lt_mul_of_pos_right high positive
    unfold reads
    split <;> rw [Bool.and_eq_true_iff, decide_eq_true_eq, decide_eq_true_eq] <;>
      constructor <;> linarith
  rw [multiple?_eq]
  dsimp only
  rw [if_pos read]
  split
  · exact ⟨_, rfl⟩
  · exact ⟨_, rfl⟩

/-- The search stops at the first power of ten with a multiple, if there is one in time. -/
theorem search_of_multiple? {steps : Nat} {last : Nat} (inTime : last < steps)
    (found : ∃ coefficient, interval.multiple? (power - last) = some coefficient) :
    ∃ reached ≤ last, (interval.search steps power).exponent = power - reached
      ∧ interval.multiple? (power - reached) = some (interval.search steps power).coefficient := by
  induction steps generalizing power last with
  | zero => omega
  | succ steps inductionHypothesis =>
      rw [search]
      split
      · rename_i coefficient now
        exact ⟨0, Nat.zero_le _, by simp, by simpa using now⟩
      · rename_i notNow
        cases last with
        | zero =>
            obtain ⟨coefficient, now⟩ := found
            rw [Nat.cast_zero, Int.sub_zero, notNow] at now
            cases now
        | succ last =>
            have later : power - (last + 1 : Nat) = power - 1 - last := by omega
            rw [later] at found
            obtain ⟨reached, before, exponent, multiple⟩ :=
              inductionHypothesis (Nat.lt_of_succ_lt_succ inTime) found
            have back : power - 1 - reached = power - (reached + 1 : Nat) := by omega
            exact ⟨reached + 1, Nat.succ_le_succ before, exponent.trans back, back ▸ multiple⟩

end ReadingInterval

/-! ## The shortest decimal -/

theorem fine_of_canonical (canonical : magnitude.IsCanonical) :
    (10 : ℚ) ^ (powerAbove magnitude - 23) ≤ 2 ^ (ReadingInterval.ofDyadic magnitude).exponent := by
  have bits := log2_le_of_room canonical.room
  have least := canonical.least
  have greatest := canonical.greatest
  simp only [leastExponent] at least
  apply tenTo_le_twoTo <;> (simp only [powerAbove, ReadingInterval.ofDyadic]; omega)

theorem ReadingInterval.low_lt_centre (nonzero : 0 < magnitude.mantissa) :
    (ofDyadic magnitude).low < (ofDyadic magnitude).centre := by
  dsimp only [ofDyadic]
  split <;> omega

theorem ReadingInterval.centre_lt_high (magnitude : Dyadic) :
    (ofDyadic magnitude).centre < (ofDyadic magnitude).high := by
  dsimp only [ofDyadic]
  omega

/-- The search takes a multiple within its steps. -/
theorem shortestDecimal_found (canonical : magnitude.IsCanonical) :
    (ReadingInterval.ofDyadic magnitude).Contains
        ((shortestDecimal magnitude).coefficient * 10 ^ (shortestDecimal magnitude).exponent)
      ∧ powerAbove magnitude - 23 ≤ (shortestDecimal magnitude).exponent
      ∧ (shortestDecimal magnitude).exponent ≤ powerAbove magnitude := by
  have found := ReadingInterval.multiple?_of_fine (fine_of_canonical canonical)
    (ReadingInterval.low_lt_centre canonical.positive) (ReadingInterval.centre_lt_high magnitude)
  obtain ⟨reached, inTime, exponent, multiple⟩ :=
    ReadingInterval.search_of_multiple? (show 23 < 24 by decide) found
  have stopped : (shortestDecimal magnitude).exponent = powerAbove magnitude - reached := exponent
  refine ⟨?_, by omega, by omega⟩
  rw [stopped]
  exact ReadingInterval.contains_of_reads (ReadingInterval.reads_of_multiple? multiple)

theorem shortestDecimal_exponent (canonical : magnitude.IsCanonical) :
    -2048 ≤ (shortestDecimal magnitude).exponent ∧ (shortestDecimal magnitude).exponent ≤ 2048 := by
  obtain ⟨-, above, below⟩ := shortestDecimal_found canonical
  have bits := log2_le_of_room canonical.room
  have least := canonical.least
  have greatest := canonical.greatest
  simp only [leastExponent] at least
  simp only [powerAbove] at above below
  omega

/-- The shortest decimal is not zero, as no interval reaches down to zero. -/
theorem shortestDecimal_nonzero (canonical : magnitude.IsCanonical) :
    0 < (shortestDecimal magnitude).coefficient := by
  obtain ⟨contains, -⟩ := shortestDecimal_found canonical
  have low : 0 < (ReadingInterval.ofDyadic magnitude).low := by
    have := canonical.positive
    dsimp only [ReadingInterval.ofDyadic]
    split <;> omega
  by_contra none
  rw [Nat.eq_zero_of_not_pos none, Nat.cast_zero, zero_mul] at contains
  refine absurd contains.above (not_le.mpr ?_)
  have : (0 : ℚ) < (ReadingInterval.ofDyadic magnitude).low := by exact_mod_cast low
  positivity

/-! ## Numbers in an interval -/

/-- No number in an interval is near the bounds beyond which decimals are not computed. -/
theorem ReadingInterval.Contains.bounds {number : ℚ} (canonical : magnitude.IsCanonical)
    (contains : (ofDyadic magnitude).Contains number) :
    (10 : ℚ) ^ (-324 : Int) ≤ number ∧ number < 10 ^ (310 : Int) := by
  have ⟨nonzero, room, least, greatest, _⟩ := canonical
  constructor
  · have low : 2 ≤ (ofDyadic magnitude).low := by
      dsimp only [ofDyadic]
      split <;> omega
    calc (10 : ℚ) ^ (-324 : Int)
        ≤ 2 ^ (-1075 : Int) := tenTo_le_twoTo (by decide) (by decide)
      _ = 2 * 2 ^ (-1076 : Int) := by rw [← zpow_one_add₀ two_ne_zero]; rfl
      _ ≤ (ofDyadic magnitude).low * 2 ^ (ofDyadic magnitude).exponent := by
          refine mul_le_mul (by exact_mod_cast low) ?_ (by positivity) (by positivity)
          refine zpow_le_zpow_right₀ one_le_two ?_
          simp only [leastExponent] at least
          simp only [ofDyadic]
          omega
      _ ≤ number := contains.above
  · have high : (ofDyadic magnitude).high ≤ 2 ^ 55 := by
      dsimp only [ofDyadic]
      omega
    calc number
        ≤ (ofDyadic magnitude).high * 2 ^ (ofDyadic magnitude).exponent := contains.below
      _ ≤ 2 ^ 55 * 2 ^ (969 : Int) := by
          refine mul_le_mul (by exact_mod_cast high) ?_ (by positivity) (by positivity)
          refine zpow_le_zpow_right₀ one_le_two ?_
          simp only [ofDyadic]
          omega
      _ = 2 ^ (1024 : Int) := by
          rw [← zpow_natCast, ← zpow_add₀ two_ne_zero]
          rfl
      _ ≤ 10 ^ (309 : Int) := twoTo_le_tenTo (by decide) (by decide)
      _ < 10 ^ (310 : Int) := zpow_lt_zpow_right₀ (by norm_num) (by decide)

/-- A number has as many digits as the least power of ten above it tells. -/
theorem digits_bounds (nonzero : 0 < coefficient) :
    ∃ further, (Nat.toDigits 10 coefficient).length = further + 1
      ∧ 10 ^ further ≤ coefficient ∧ coefficient < 10 ^ (further + 1) := by
  obtain ⟨further, length⟩ := Nat.exists_eq_add_one_of_ne_zero
    (Nat.length_toDigits_pos (b := 10) (n := coefficient)).ne'
  have atMost (count : Nat) (positive : 0 < count) :
      further + 1 ≤ count ↔ coefficient < 10 ^ count :=
    length ▸ Nat.length_toDigits_le_iff (by decide) positive
  refine ⟨further, length, ?_, (atMost _ (Nat.succ_pos _)).mp le_rfl⟩
  cases further with
  | zero => exact nonzero
  | succ further =>
      by_contra less
      exact Nat.not_succ_le_self _ ((atMost _ (Nat.succ_pos _)).mpr (not_le.mp less))

/-- The decimal point of such a number. -/
theorem point_of_contains (canonical : magnitude.IsCanonical) (nonzero : 0 < coefficient)
    (contains : (ReadingInterval.ofDyadic magnitude).Contains (coefficient * 10 ^ power)) :
    -330 ≤ (Nat.toDigits 10 coefficient).length + power
      ∧ (Nat.toDigits 10 coefficient).length + power ≤ 330 := by
  obtain ⟨above, below⟩ := contains.bounds canonical
  obtain ⟨further, length, atLeast, atMost⟩ := digits_bounds nonzero
  have ten : (1 : ℚ) < 10 := by norm_num
  have more : (10 : ℚ) ^ (-324 : Int) < 10 ^ (further + 1 + power) := by
    refine above.trans_lt ?_
    rw [zpow_add₀ (by norm_num), ← Nat.cast_add_one, zpow_natCast]
    exact mul_lt_mul_of_pos_right (by exact_mod_cast atMost) (by positivity)
  have less : (10 : ℚ) ^ (further + power) < 10 ^ (310 : Int) := by
    refine lt_of_le_of_lt ?_ below
    rw [zpow_add₀ (by norm_num), zpow_natCast]
    exact mul_le_mul_of_nonneg_right (by exact_mod_cast atLeast) (by positivity)
  have above := (zpow_lt_zpow_iff_right₀ ten).mp more
  have below := (zpow_lt_zpow_iff_right₀ ten).mp less
  omega

/-- A decimal in the interval of a float is read as that float. -/
theorem nearestFloat_of_contains (canonical : magnitude.IsCanonical) (nonzero : 0 < coefficient)
    (atLeast : -2048 ≤ power) (atMost : power ≤ 2048)
    (contains : (ReadingInterval.ofDyadic magnitude).Contains (coefficient * 10 ^ power)) :
    nearestFloat coefficient power = signedFloat false magnitude canonical.positive := by
  obtain ⟨above, below⟩ := point_of_contains canonical nonzero contains
  rw [nearestFloat, if_neg (by omega), if_neg (by omega)]
  exact ofScientific_of_contains nonzero atMost atLeast canonical rfl contains

end MachineScript.Number
