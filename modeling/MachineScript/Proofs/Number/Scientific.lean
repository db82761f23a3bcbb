import MachineScript.Proofs.Number.Packing

/-!
Contract: the float that a decimal is read as.

Owns:
- the exact values of magnitudes, and the reading interval among them;
- that a product and a quotient of floats is the float in whose interval the
  exact result lies;
- the same for a coefficient times a power of ten, both by way of exact floats
  and by way of large integers.

Does not own: decimal text.
-/

namespace MachineScript.Number

open Float.Model Float.Model.UnpackedFloat

variable {magnitude : Dyadic} {number : ℚ} {numerator denominator mantissa : Nat}
  {exponent : Int} {sign : Sign}

/-! ## Exact values -/

def Dyadic.value (magnitude : Dyadic) : ℚ :=
  magnitude.mantissa * 2 ^ magnitude.exponent

/-- Between the ends of the interval, at an end only if the interval is closed. -/
structure ReadingInterval.Contains (interval : ReadingInterval) (number : ℚ) : Prop where
  above : interval.low * 2 ^ interval.exponent ≤ number
  below : number ≤ interval.high * 2 ^ interval.exponent
  strict : interval.closed = false →
    interval.low * 2 ^ interval.exponent < number ∧ number < interval.high * 2 ^ interval.exponent

/-- A number in the interval, as a quotient in units of the interval. -/
theorem ReadingInterval.contains_iff_holds {interval : ReadingInterval} (positive : 0 < denominator)
    (exact : number = numerator / denominator * 2 ^ interval.exponent) :
    interval.Contains number ↔ interval.Holds numerator denominator := by
  have unit : (0 : ℚ) < 2 ^ interval.exponent := by positivity
  have parts : (0 : ℚ) < denominator := by exact_mod_cast positive
  have lower (bound : Nat) : (bound : ℚ) * 2 ^ interval.exponent ≤ number
      ↔ bound * denominator ≤ numerator := by
    rw [exact, mul_le_mul_iff_left₀ unit, le_div_iff₀ parts]
    exact_mod_cast Iff.rfl
  have upper (bound : Nat) : number ≤ (bound : ℚ) * 2 ^ interval.exponent
      ↔ numerator ≤ bound * denominator := by
    rw [exact, mul_le_mul_iff_left₀ unit, div_le_iff₀ parts]
    exact_mod_cast Iff.rfl
  constructor
  · rintro ⟨above, below, strict⟩
    refine ⟨(lower _).mp above, (upper _).mp below, fun isOpen => ?_⟩
    obtain ⟨more, less⟩ := strict isOpen
    exact ⟨not_le.mp (mt (upper _).mpr (not_le.mpr more)),
      not_le.mp (mt (lower _).mpr (not_le.mpr less))⟩
  · rintro ⟨above, below, strict⟩
    refine ⟨(lower _).mpr above, (upper _).mpr below, fun isOpen => ?_⟩
    obtain ⟨more, less⟩ := strict isOpen
    exact ⟨not_le.mp (mt (upper _).mp (not_le.mpr more)),
      not_le.mp (mt (lower _).mp (not_le.mpr less))⟩

/-- A float lies in its own interval. -/
theorem ReadingInterval.contains_value (nonzero : 0 < magnitude.mantissa) :
    (ofDyadic magnitude).Contains magnitude.value := by
  have exact : magnitude.value
      = (4 * magnitude.mantissa : Nat) / (1 : Nat) * 2 ^ (ofDyadic magnitude).exponent := by
    change _ = _ * (2 : ℚ) ^ (magnitude.exponent - 2)
    rw [Dyadic.value, zpow_sub₀ two_ne_zero]
    push_cast
    ring
  rw [contains_iff_holds Nat.one_pos exact]
  have low : (ofDyadic magnitude).low < 4 * magnitude.mantissa := by
    dsimp only [ofDyadic]
    split <;> omega
  have high : (ofDyadic magnitude).high = 4 * magnitude.mantissa + 2 := rfl
  exact ⟨by omega, by omega, fun _ => ⟨by omega, by omega⟩⟩

/-! ## Rounding -/

/-- No number in the interval has more places before the last one of the float than its mantissa
has. -/
theorem exponent_le_of_contains (canonical : magnitude.IsCanonical) (positive : 0 < denominator)
    (exact : number = numerator / denominator * 2 ^ exponent)
    (enough : 2 ^ 52 ≤ numerator / denominator ∨ exponent ≤ leastExponent)
    (contains : (ReadingInterval.ofDyadic magnitude).Contains number) :
    exponent ≤ magnitude.exponent := by
  by_contra beyond
  have whole : 2 ^ 52 ≤ numerator / denominator :=
    enough.resolve_right fun least => beyond (least.trans canonical.least)
  have mantissa : (2 : ℚ) ^ 52 ≤ numerator / denominator := by
    rw [le_div_iff₀ (by exact_mod_cast positive)]
    exact_mod_cast (Nat.le_div_iff_mul_le positive).mp whole
  have unit : (0 : ℚ) < 2 ^ magnitude.exponent := by positivity
  have least : (2 : ℚ) ^ magnitude.exponent * 2 ≤ 2 ^ exponent := by
    rw [← zpow_add_one₀ two_ne_zero]
    exact zpow_le_zpow_right₀ one_le_two (by omega)
  have room : ((ReadingInterval.ofDyadic magnitude).high : ℚ) < 2 ^ 55 := by
    have := canonical.room
    exact_mod_cast (show 4 * magnitude.mantissa + 2 < 2 ^ 55 by omega)
  have quarter : (2 : ℚ) ^ (ReadingInterval.ofDyadic magnitude).exponent
      = 2 ^ magnitude.exponent / 4 := by
    change (2 : ℚ) ^ (magnitude.exponent - 2) = _
    rw [zpow_sub₀ two_ne_zero]
    rfl
  refine absurd contains.below (not_le.mpr ?_)
  calc (ReadingInterval.ofDyadic magnitude).high
        * (2 : ℚ) ^ (ReadingInterval.ofDyadic magnitude).exponent
      < 2 ^ 55 * (2 ^ magnitude.exponent / 4) := by
        rw [quarter]
        exact mul_lt_mul_of_pos_right room (by positivity)
    _ = 2 ^ 52 * (2 ^ magnitude.exponent * 2) := by ring
    _ ≤ numerator / denominator * 2 ^ exponent :=
        mul_le_mul mantissa least (by positivity) (by positivity)
    _ = number := exact.symm

/-- A number in the interval of a canonical float is rounded to that float. -/
theorem roundWithAccuracy_of_contains (canonical : magnitude.IsCanonical)
    (positive : 0 < denominator) (exact : number = numerator / denominator * 2 ^ exponent)
    (enough : 2 ^ 52 ≤ numerator / denominator ∨ exponent ≤ leastExponent)
    (contains : (ReadingInterval.ofDyadic magnitude).Contains number) :
    roundWithAccuracy Format.binary64 sign (numerator / denominator) exponent
        (accuracyOfFraction (numerator % denominator) denominator)
      = .finite sign magnitude.mantissa magnitude.exponent canonical.positive := by
  obtain ⟨places, rest⟩ :=
    Int.le.dest (exponent_le_of_contains canonical positive exact enough contains)
  refine roundWithAccuracy_of_holds canonical positive rest.symm enough ?_
  refine (ReadingInterval.contains_iff_holds
    (Nat.mul_pos positive (Nat.two_pow_pos places)) ?_).mp contains
  change _ = _ * (2 : ℚ) ^ (magnitude.exponent - 2)
  have nonzero : (denominator : ℚ) ≠ 0 := by exact_mod_cast positive.ne'
  rw [exact, ← rest, zpow_sub₀ two_ne_zero, zpow_add₀ two_ne_zero, zpow_natCast]
  push_cast
  field_simp

theorem roundWithAccuracy_exact (canonical : magnitude.IsCanonical)
    (exact : number = mantissa * 2 ^ exponent)
    (enough : 2 ^ 52 ≤ mantissa ∨ exponent ≤ leastExponent)
    (contains : (ReadingInterval.ofDyadic magnitude).Contains number) :
    roundWithAccuracy Format.binary64 sign mantissa exponent .exact
      = .finite sign magnitude.mantissa magnitude.exponent canonical.positive := by
  have rounded : roundWithAccuracy Format.binary64 sign (mantissa / 1) exponent
      (accuracyOfFraction (mantissa % 1) 1)
        = .finite sign magnitude.mantissa magnitude.exponent canonical.positive :=
    roundWithAccuracy_of_contains canonical Nat.one_pos (by simpa using exact)
      (by simpa using enough) contains
  simpa [Nat.mod_one, accuracyOfFraction] using rounded

/-! ## Products and quotients -/

variable {left right : Nat} {leftExponent rightExponent : Int} {leftNonzero : 0 < left}
  {rightNonzero : 0 < right}

theorem mul_of_contains (canonical : magnitude.IsCanonical)
    (exact : number = left * 2 ^ leftExponent * (right * 2 ^ rightExponent))
    (enough : 2 ^ 52 ≤ left * right ∨ leftExponent + rightExponent ≤ leastExponent)
    (contains : (ReadingInterval.ofDyadic magnitude).Contains number) :
    UnpackedFloat.mul Format.binary64 (.finite .positive left leftExponent leftNonzero)
        (.finite .positive right rightExponent rightNonzero)
      = .finite .positive magnitude.mantissa magnitude.exponent canonical.positive := by
  refine roundWithAccuracy_exact canonical ?_ enough contains
  rw [exact, zpow_add₀ two_ne_zero]
  push_cast
  ring

/-- The numerator of a quotient is shifted until the quotient has as many places as a mantissa, or
so far that no float has more places. -/
theorem exists_shift (left right : Nat) (leftExponent rightExponent : Int)
    (rightNonzero : 0 < right)
    (leftNonzero : 0 < left) :
    ∃ shift : Nat, divCore Format.binary64 left leftExponent right rightExponent
        = (left * 2 ^ shift / right, leftExponent - rightExponent - shift,
          accuracyOfFraction (left * 2 ^ shift % right) right)
      ∧ (2 ^ 52 ≤ left * 2 ^ shift / right
        ∨ leftExponent - rightExponent - shift ≤ leastExponent) := by
  let target := min (leftExponent - rightExponent) (max (left.log2 + 1 + leftExponent
    - (right.log2 + 1 + rightExponent) - 53) leastExponent)
  have reached : leftExponent - rightExponent - (leftExponent - rightExponent - target).toNat
      = target := by
    omega
  refine ⟨(leftExponent - rightExponent - target).toNat, ?_, ?_⟩
  · rw [reached]
    simp only [divCore, targetExponent_eq, totalExponent, Nat.shiftLeft_eq]
    rfl
  · rw [reached]
    refine or_iff_not_imp_right.mpr fun notLeast => (Nat.le_div_iff_mul_le rightNonzero).mpr ?_
    have far : 53 + right.log2 ≤ left.log2 + (leftExponent - rightExponent - target).toNat := by
      omega
    calc 2 ^ 52 * right
        ≤ 2 ^ 52 * 2 ^ (right.log2 + 1) := Nat.mul_le_mul_left _ Nat.lt_log2_self.le
      _ = 2 ^ (53 + right.log2) := by ring
      _ ≤ 2 ^ (left.log2 + (leftExponent - rightExponent - target).toNat) :=
          Nat.pow_le_pow_right Nat.two_pos far
      _ = 2 ^ left.log2 * 2 ^ (leftExponent - rightExponent - target).toNat := pow_add _ _ _
      _ ≤ left * 2 ^ (leftExponent - rightExponent - target).toNat :=
          Nat.mul_le_mul_right _ (Nat.log2_self_le leftNonzero.ne')

theorem div_of_contains (canonical : magnitude.IsCanonical)
    (exact : number = left * 2 ^ leftExponent / (right * 2 ^ rightExponent))
    (contains : (ReadingInterval.ofDyadic magnitude).Contains number) :
    UnpackedFloat.div Format.binary64 (.finite .positive left leftExponent leftNonzero)
        (.finite .positive right rightExponent rightNonzero)
      = .finite .positive magnitude.mantissa magnitude.exponent canonical.positive := by
  obtain ⟨shift, shifted, enough⟩ :=
    exists_shift left right leftExponent rightExponent rightNonzero leftNonzero
  rw [UnpackedFloat.div, shifted]
  refine roundWithAccuracy_of_contains canonical rightNonzero ?_ enough contains
  have nonzero : (right : ℚ) ≠ 0 := by exact_mod_cast rightNonzero.ne'
  rw [exact, zpow_sub₀ two_ne_zero, zpow_sub₀ two_ne_zero, zpow_natCast]
  push_cast
  field_simp

/-! ## Exact integers and powers of ten -/

/-- An integral power as a quotient of natural ones, one of which is one. -/
theorem zpow_eq_div (base : ℚ) (exponent : Int) :
    base ^ exponent = base ^ exponent.toNat / base ^ (-exponent).toNat := by
  rcases Int.le_total 0 exponent with whole | fraction
  · have none : (-exponent).toNat = 0 := by omega
    conv_lhs => rw [← Int.toNat_of_nonneg whole]
    rw [none, pow_zero, div_one, zpow_natCast]
  · have none : exponent.toNat = 0 := by omega
    conv_lhs => rw [← neg_neg exponent, ← Int.toNat_of_nonneg (show 0 ≤ -exponent by omega)]
    rw [none, pow_zero, zpow_neg, zpow_natCast, one_div]

/-- The canonical magnitude of a natural number of at most 53 places. -/
def Dyadic.ofNat (n : Nat) : Dyadic :=
  ⟨n * 2 ^ (52 - n.log2), n.log2 - 52⟩

theorem log2_le_of_room {n : Nat} (room : n < 2 ^ 53) : n.log2 ≤ 52 := by
  by_cases zero : n = 0
  · simp [zero]
  · exact Nat.le_of_lt_succ ((Nat.log2_lt zero).mpr room)

theorem Dyadic.ofNat_normal {n : Nat} (nonzero : 0 < n) (room : n < 2 ^ 53) :
    2 ^ 52 ≤ (ofNat n).mantissa := by
  calc 2 ^ 52 = 2 ^ n.log2 * 2 ^ (52 - n.log2) := by
        rw [← pow_add, Nat.add_sub_of_le (log2_le_of_room room)]
    _ ≤ n * 2 ^ (52 - n.log2) := Nat.mul_le_mul_right _ (Nat.log2_self_le nonzero.ne')

theorem Dyadic.ofNat_isCanonical {n : Nat} (nonzero : 0 < n) (room : n < 2 ^ 53) :
    (ofNat n).IsCanonical := by
  have bits := log2_le_of_room room
  have fits : n * 2 ^ (52 - n.log2) < 2 ^ 53 := by
    calc n * 2 ^ (52 - n.log2)
        < 2 ^ (n.log2 + 1) * 2 ^ (52 - n.log2) :=
          Nat.mul_lt_mul_of_pos_right Nat.lt_log2_self (Nat.two_pow_pos _)
      _ = 2 ^ 53 := by rw [← pow_add]; congr 1; omega
  refine ⟨Nat.mul_pos nonzero (Nat.two_pow_pos _), fits, ?_, ?_, .inl (ofNat_normal nonzero room)⟩
  · simp only [ofNat, leastExponent]
    omega
  · simp only [ofNat]
    omega

theorem Dyadic.value_ofNat {n : Nat} (room : n < 2 ^ 53) : (ofNat n).value = n := by
  have bits := log2_le_of_room room
  have shift : ((n.log2 : Int) - 52) = -((52 - n.log2 : Nat) : Int) := by omega
  simp only [value, ofNat, shift, zpow_neg, zpow_natCast]
  push_cast
  field_simp

/-- A natural number of at most 53 places becomes a float of the same value. -/
theorem toFloat_of_room {n : Nat} (nonzero : 0 < n) (room : n < 2 ^ 53) :
    n.toUInt64.toFloat
      = signedFloat false (.ofNat n) (Dyadic.ofNat_isCanonical nonzero room).positive := by
  have canonical := Dyadic.ofNat_isCanonical nonzero room
  have same : n.toUInt64.toNat = n := Nat.mod_eq_of_lt (by omega)
  have bits := log2_le_of_room room
  have normalized : UnpackedFloat.ofNat Format.binary64 n = .finite .positive
      (Dyadic.ofNat n).mantissa (Dyadic.ofNat n).exponent canonical.positive := by
    have greater : compare (n : Int) 0 = .gt := Int.compare_eq_gt.mpr (by omega)
    have shifted : decreaseExponent n 0 (max (n.log2 + 0 - 52) leastExponent)
        = ((Dyadic.ofNat n).mantissa, (Dyadic.ofNat n).exponent) := by
      have amount : (0 - max ((n.log2 : Int) + 0 - 52) leastExponent).toNat = 52 - n.log2 := by
        simp only [leastExponent]
        omega
      rw [decreaseExponent, amount, Nat.shiftLeft_eq]
      refine Prod.ext rfl ?_
      change (0 : Int) - (52 - n.log2 : Nat) = n.log2 - 52
      omega
    rw [UnpackedFloat.ofNat, UnpackedFloat.ofInt, UnpackedFloat.normalize, greater]
    simp only [Int.toNat_natCast, UnpackedFloat.round, targetExponent_totalExponent, shifted]
    exact roundWithAccuracy_exact canonical rfl (.inl (Dyadic.ofNat_normal nonzero room))
      (ReadingInterval.contains_value canonical.positive)
  change Float.ofModel (.pack (UnpackedFloat.ofNat Format.binary64 n.toUInt64.toNat)) = _
  rw [same, normalized]
  rfl

/-- A float has the value of a power of ten, in full precision. -/
def isPowerOfTen (x : Float) (power : Nat) : Bool :=
  match floatShape x with
  | .finite false magnitude =>
      decide (2 ^ 52 ≤ magnitude.mantissa) &&
        decide (magnitude.mantissa * 2 ^ magnitude.exponent.toNat
          = 10 ^ power * 2 ^ (-magnitude.exponent).toNat)
  | _ => false

theorem isPowerOfTen_table :
    ∀ power : Fin 23, isPowerOfTen Float.exactlyRepresentablePowersOfTen[power] power = true := by
  decide +kernel

theorem exists_of_isPowerOfTen {x : Float} {power : Nat} (isPower : isPowerOfTen x power = true) :
    ∃ (magnitude : Dyadic) (canonical : magnitude.IsCanonical),
      x = signedFloat false magnitude canonical.positive
        ∧ 2 ^ 52 ≤ magnitude.mantissa ∧ magnitude.value = 10 ^ power := by
  unfold isPowerOfTen at isPower
  split at isPower
  · rename_i magnitude finite
    obtain ⟨normal, exact⟩ := by simpa using isPower
    obtain ⟨canonical, same⟩ := eq_signedFloat_of_finite finite
      (lt_of_lt_of_le (Nat.two_pow_pos 52) normal)
    refine ⟨magnitude, canonical, same, normal, ?_⟩
    have cast : (magnitude.mantissa : ℚ) * 2 ^ magnitude.exponent.toNat
        = 10 ^ power * 2 ^ (-magnitude.exponent).toNat := by exact_mod_cast exact
    rw [Dyadic.value, zpow_eq_div, ← mul_div_assoc, cast, mul_div_assoc, div_self,
      mul_one]
    positivity
  · cases isPower

/-! ## Decimals -/

variable {coefficient power : Nat} {ten : Float}

/-- Both the coefficient and the power of ten are exact floats, and what they give is rounded
once. -/
theorem mul_toFloat_of_contains (nonzero : 0 < coefficient) (room : coefficient < 2 ^ 53)
    (isPower : isPowerOfTen ten power = true) (canonical : magnitude.IsCanonical)
    (exact : number = coefficient * 10 ^ power)
    (contains : (ReadingInterval.ofDyadic magnitude).Contains number) :
    coefficient.toUInt64.toFloat * ten = signedFloat false magnitude canonical.positive := by
  obtain ⟨tens, isCanonical, rfl, normal, value⟩ := exists_of_isPowerOfTen isPower
  have integer := Dyadic.ofNat_isCanonical nonzero room
  have enough : 2 ^ 52 ≤ (Dyadic.ofNat coefficient).mantissa * tens.mantissa :=
    (Dyadic.ofNat_normal nonzero room).trans (Nat.le_mul_of_pos_right _ isCanonical.positive)
  rw [← value, ← Dyadic.value_ofNat room] at exact
  rw [toFloat_of_room nonzero room]
  change Float.ofModel (.pack (UnpackedFloat.mul Format.binary64
    (Float.Model.pack _).unpack (Float.Model.pack _).unpack)) = _
  rw [unpack_pack integer, unpack_pack isCanonical]
  exact congrArg (fun result => Float.ofModel (.pack result))
    (mul_of_contains canonical exact (.inl enough) contains)

theorem div_toFloat_of_contains (nonzero : 0 < coefficient) (room : coefficient < 2 ^ 53)
    (isPower : isPowerOfTen ten power = true) (canonical : magnitude.IsCanonical)
    (exact : number = coefficient / 10 ^ power)
    (contains : (ReadingInterval.ofDyadic magnitude).Contains number) :
    coefficient.toUInt64.toFloat / ten = signedFloat false magnitude canonical.positive := by
  obtain ⟨tens, isCanonical, rfl, -, value⟩ := exists_of_isPowerOfTen isPower
  have integer := Dyadic.ofNat_isCanonical nonzero room
  rw [← value, ← Dyadic.value_ofNat room] at exact
  rw [toFloat_of_room nonzero room]
  change Float.ofModel (.pack (UnpackedFloat.div Format.binary64
    (Float.Model.pack _).unpack (Float.Model.pack _).unpack)) = _
  rw [unpack_pack integer, unpack_pack isCanonical]
  exact congrArg (fun result => Float.ofModel (.pack result))
    (div_of_contains canonical exact contains)

/-- Otherwise the decimal is a product or a quotient of integers. -/
theorem unpackedOfScientific_of_contains (nonzero : 0 < coefficient)
    (atMost : exponent ≤ 2048) (atLeast : -2048 ≤ exponent)
    (canonical : magnitude.IsCanonical) (exact : number = coefficient * 10 ^ exponent)
    (contains : (ReadingInterval.ofDyadic magnitude).Contains number) :
    UnpackedFloat.ofScientific Format.binary64 coefficient exponent
      = .finite .positive magnitude.mantissa magnitude.exponent canonical.positive := by
  have size : (2 : Int) ^ Format.binary64.exponentBits = 2048 := rfl
  rw [UnpackedFloat.ofScientific, dif_neg nonzero.ne', size, if_neg (by omega), if_neg (by omega)]
  split
  · rename_i whole
    have bits : coefficient <<< Format.binary64.mantissaBits = coefficient * 2 ^ 53 :=
      Nat.shiftLeft_eq _ _
    have enough :
        2 ^ 52 ≤ (coefficient <<< Format.binary64.mantissaBits) * 10 ^ exponent.toNat := by
      have tens : 0 < 10 ^ exponent.toNat := Nat.pow_pos (by decide)
      rw [bits]
      nlinarith
    refine mul_of_contains canonical (exact.trans ?_) (.inl enough) contains
    have split : (10 : ℚ) ^ exponent = 10 ^ exponent.toNat := by
      rw [← zpow_natCast, Int.toNat_of_nonneg whole]
    have back : (2 : ℚ) ^ (-(Format.binary64.mantissaBits : Int)) = (2 ^ 53)⁻¹ := by
      rw [zpow_neg, zpow_natCast]
      rfl
    rw [bits, split, back]
    push_cast
    field_simp
    norm_num
  · rename_i fraction
    refine div_of_contains canonical (exact.trans ?_) contains
    have split : (10 : ℚ) ^ exponent = (10 ^ (-exponent).toNat)⁻¹ := by
      rw [← zpow_natCast, Int.toNat_of_nonneg (by omega), zpow_neg, inv_inv]
    rw [split]
    push_cast
    simp [div_eq_mul_inv]

/-- A magnitude with its sign. -/
theorem signed_natAbs (exponent : Int) :
    (if decide (exponent < 0) then -(exponent.natAbs : Int) else exponent.natAbs) = exponent := by
  rcases lt_or_ge exponent 0 with negative | positive
  · rw [if_pos (decide_eq_true negative)]
    exact (Int.eq_neg_natAbs_of_nonpos negative.le).symm
  · rw [if_neg (by simpa using positive)]
    exact Int.natAbs_of_nonneg positive

/-- A decimal in the interval of a canonical float is read as that float. -/
theorem ofScientific_of_contains (nonzero : 0 < coefficient)
    (atMost : exponent ≤ 2048) (atLeast : -2048 ≤ exponent)
    (canonical : magnitude.IsCanonical) (exact : number = coefficient * 10 ^ exponent)
    (contains : (ReadingInterval.ofDyadic magnitude).Contains number) :
    Float.ofScientific coefficient (decide (exponent < 0)) exponent.natAbs
      = signedFloat false magnitude canonical.positive := by
  have signed := signed_natAbs exponent
  unfold Float.ofScientific
  split
  next exactly =>
    obtain ⟨room, small⟩ := exactly
    have isPower := isPowerOfTen_table ⟨exponent.natAbs, Nat.lt_succ_of_le small⟩
    split
    next fraction =>
      rw [if_pos fraction] at signed
      have power : (10 : ℚ) ^ exponent = (10 ^ exponent.natAbs)⁻¹ := by
        rw [← zpow_natCast, ← zpow_neg]
        exact congrArg _ signed.symm
      exact div_toFloat_of_contains nonzero room isPower canonical
        (exact.trans (by rw [power, div_eq_mul_inv])) contains
    next whole =>
      rw [if_neg whole] at signed
      have power : (10 : ℚ) ^ exponent = 10 ^ exponent.natAbs := by
        rw [← zpow_natCast]
        exact congrArg _ signed.symm
      exact mul_toFloat_of_contains nonzero room isPower canonical
        (exact.trans (by rw [power])) contains
  next =>
    simp only [Int.negOfNat_eq, Int.ofNat_eq_natCast, signed]
    exact congrArg (fun result => Float.ofModel (.pack result))
      (unpackedOfScientific_of_contains nonzero atMost atLeast canonical exact contains)

end MachineScript.Number
