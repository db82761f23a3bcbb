import MachineScript.Proofs.Number.Scientific

/-!
Contract: integers as floats, and how these compare.

Owns:
- the integer that an integer is rounded to when it becomes a float: the
  nearest one of at most 53 places, in a tie the one whose last place is even;
- that floats compare as the numbers that they hold.

Does not own: integers beyond 64 bits, which may be out of the range of floats.
-/

namespace MachineScript.Number

open Float.Model Float.Model.UnpackedFloat

variable {magnitude left right : Dyadic} {n : Nat}

/-! ## Rounded integers -/

/-- The places that a natural number has beyond the 53 of a mantissa. -/
def excess (n : Nat) : Nat :=
  n.log2 - 52

/-- The nearest natural number of at most 53 places, then zeros. -/
def roundedNat (n : Nat) : Nat :=
  nearestQuotient .toEven n (2 ^ excess n) * 2 ^ excess n

def rounded (n : Int) : Int :=
  n.sign * roundedNat n.natAbs

theorem roundedNat_of_le (small : n ≤ 2 ^ 53) : roundedNat n = n := by
  rcases small.lt_or_eq with room | rfl
  · have none : excess n = 0 := Nat.sub_eq_zero_of_le (log2_le_of_room room)
    have exact := nearestQuotient_mul .toEven n 1 Nat.one_pos
    rw [mul_one] at exact
    rw [roundedNat, none, pow_zero, exact, mul_one]
  · have one : excess (2 ^ 53) = 1 := by rw [excess, Nat.log2_two_pow]
    rw [roundedNat, one]
    exact congrArg (· * 2) (nearestQuotient_mul .toEven (2 ^ 52) 2 Nat.two_pos)

theorem rounded_of_le {n : Int} (small : n.natAbs ≤ 2 ^ 53) : rounded n = n := by
  rw [rounded, roundedNat_of_le small, Int.sign_mul_natAbs]

theorem contains_natCast {places : Nat} (numerator : Nat)
    (exact : (ReadingInterval.ofDyadic magnitude).exponent = places - 2)
    (holds : (ReadingInterval.ofDyadic magnitude).Holds (4 * numerator) (2 ^ places)) :
    (ReadingInterval.ofDyadic magnitude).Contains numerator := by
  refine (ReadingInterval.contains_iff_holds (Nat.two_pow_pos places) ?_).mpr holds
  rw [exact, zpow_sub₀ two_ne_zero, zpow_natCast]
  push_cast
  field_simp

/-- A number no more than one half away is in the interval, if it is not below a power of two. -/
theorem ReadingInterval.holds_of_near {numerator denominator : Nat}
    (nonzero : 0 < magnitude.mantissa)
    (above : 2 * magnitude.mantissa * denominator ≤ 2 * numerator + denominator)
    (below : 2 * numerator ≤ 2 * magnitude.mantissa * denominator + denominator)
    (strict : magnitude.mantissa % 2 = 1 →
      2 * magnitude.mantissa * denominator < 2 * numerator + denominator
        ∧ 2 * numerator < 2 * magnitude.mantissa * denominator + denominator)
    (inside : magnitude.mantissa = 2 ^ 52 → magnitude.mantissa * denominator ≤ numerator) :
    (ofDyadic magnitude).Holds (4 * numerator) denominator := by
  obtain ⟨before, isSucc⟩ := Nat.exists_eq_add_one_of_ne_zero nonzero.ne'
  rw [isSucc] at above below strict inside
  have high : (ofDyadic magnitude).high = 4 * before + 6 := by
    rw [ofDyadic, isSucc]
    rfl
  refine ⟨?_, by rw [high]; linarith, fun isOpen => ?_⟩
  · dsimp only [ofDyadic]
    rw [isSucc]
    split
    · rename_i narrow
      have := inside narrow.1
      rw [show 4 * (before + 1) - 1 = 4 * before + 3 by omega]
      linarith
    · rw [show 4 * (before + 1) - 2 = 4 * before + 2 by omega]
      linarith
  · have odd : magnitude.mantissa % 2 = 1 := by
      have notEven := of_decide_eq_false isOpen
      omega
    have wide : (ofDyadic magnitude).low = 4 * before + 2 := by
      have notPower : ¬(magnitude.mantissa = twoTo 52 ∧ leastExponent < magnitude.exponent) := by
        rintro ⟨power, -⟩
        rw [power] at odd
        exact absurd odd (by decide)
      dsimp only [ofDyadic]
      rw [if_neg notPower]
      omega
    obtain ⟨more, less⟩ := strict (isSucc ▸ odd)
    rw [wide, high]
    constructor <;> linarith

variable {mantissa places : Nat}

theorem contains_of_room (normal : 2 ^ 52 ≤ mantissa) (atLeast : 2 ^ 52 * 2 ^ places ≤ n)
    (isNearest : nearestQuotient .toEven n (2 ^ places) = mantissa) :
    (ReadingInterval.ofDyadic ⟨mantissa, places⟩).Contains n := by
  obtain ⟨above, below, strict⟩ := near_nearestQuotient (Nat.two_pow_pos places) isNearest
  exact contains_natCast n rfl (ReadingInterval.holds_of_near
    (lt_of_lt_of_le (Nat.two_pow_pos 52) normal) above below strict fun power => power ▸ atLeast)

/-- A number that is rounded up to a power of two lies in the narrow half of its interval. -/
theorem contains_of_carry (atMost : n < 2 ^ 53 * 2 ^ places)
    (isNearest : nearestQuotient .toEven n (2 ^ places) = 2 ^ 53) :
    (ReadingInterval.ofDyadic ⟨2 ^ 52, (places + 1 : Nat)⟩).Contains n := by
  obtain ⟨above, -, -⟩ := near_nearestQuotient (Nat.two_pow_pos places) isNearest
  have narrow : 2 ^ 52 = twoTo 52 ∧ leastExponent < ((places + 1 : Nat) : Int) :=
    ⟨rfl, by simp only [leastExponent]; omega⟩
  have low : (ReadingInterval.ofDyadic ⟨2 ^ 52, (places + 1 : Nat)⟩).low = 4 * 2 ^ 52 - 1 := by
    dsimp only [ReadingInterval.ofDyadic]
    rw [if_pos narrow]
  have high : (ReadingInterval.ofDyadic ⟨2 ^ 52, (places + 1 : Nat)⟩).high = 4 * 2 ^ 52 + 2 := rfl
  have closed : (ReadingInterval.ofDyadic ⟨2 ^ 52, (places + 1 : Nat)⟩).closed = true :=
    decide_eq_true (show 2 ^ 52 % 2 = 0 by norm_num)
  have holds : (ReadingInterval.ofDyadic ⟨2 ^ 52, (places + 1 : Nat)⟩).Holds (4 * n)
      (2 ^ (places + 1)) := by
    refine ⟨?_, ?_, fun isOpen => absurd (closed.symm.trans isOpen) (by decide)⟩
    · rw [low, pow_succ]
      omega
    · rw [high, pow_succ]
      omega
  exact contains_natCast n rfl holds

theorem value_natCast (mantissa places : Nat) :
    (⟨mantissa, places⟩ : Dyadic).value = ((mantissa * 2 ^ places : Nat) : ℚ) := by
  rw [Dyadic.value, zpow_natCast]
  push_cast
  rfl

theorem isCanonical_natCast (normal : 2 ^ 52 ≤ mantissa) (room : mantissa < 2 ^ 53)
    (few : places ≤ 971) : (⟨mantissa, places⟩ : Dyadic).IsCanonical :=
  { positive := lt_of_lt_of_le (Nat.two_pow_pos 52) normal
    room := room
    least := by simp only [leastExponent]; omega
    greatest := Int.ofNat_le.mpr few
    normal := .inl normal }

/-- The mantissa of a number between two powers of two, before it is carried. -/
theorem nearestQuotient_mem_Icc (atLeast : 2 ^ 52 * 2 ^ places ≤ n)
    (atMost : n < 2 ^ 53 * 2 ^ places)
    (isNearest : nearestQuotient .toEven n (2 ^ places) = mantissa) :
    mantissa ∈ Set.Icc (2 ^ 52) (2 ^ 53) := by
  have units := Nat.two_pow_pos places
  obtain ⟨above, below, -⟩ := near_nearestQuotient units isNearest
  constructor
  · by_contra less
    have := Nat.mul_le_mul_right (2 ^ places) (show mantissa + 1 ≤ 2 ^ 52 by omega)
    linarith
  · by_contra more
    have := Nat.mul_le_mul_right (2 ^ places) (show 2 ^ 53 + 1 ≤ mantissa by omega)
    linarith

/-- A canonical magnitude of the rounded value, in whose interval the number lies. -/
theorem exists_rounded (nonzero : 0 < n) (range : n < 2 ^ 64) :
    ∃ magnitude : Dyadic, magnitude.IsCanonical ∧ magnitude.value = roundedNat n
      ∧ (ReadingInterval.ofDyadic magnitude).Contains n := by
  by_cases small : n < 2 ^ 53
  · have canonical := Dyadic.ofNat_isCanonical nonzero small
    refine ⟨.ofNat n, canonical, ?_, ?_⟩
    · rw [Dyadic.value_ofNat small, roundedNat_of_le small.le]
    · have contains := ReadingInterval.contains_value canonical.positive
      rwa [Dyadic.value_ofNat small] at contains
  · have bits : n.log2 < 64 := (Nat.log2_lt nonzero.ne').mpr range
    have many : 53 ≤ n.log2 := (Nat.le_log2 nonzero.ne').mpr (by omega)
    obtain ⟨places, length⟩ := Nat.exists_eq_add_of_le (show 52 ≤ n.log2 by omega)
    have isExcess : excess n = places := Nat.sub_eq_of_eq_add' length
    have atLeast : 2 ^ 52 * 2 ^ places ≤ n := by
      rw [← pow_add, ← length]
      exact Nat.log2_self_le nonzero.ne'
    have atMost : n < 2 ^ 53 * 2 ^ places := by
      rw [← pow_add, show 53 + places = n.log2 + 1 by omega]
      exact Nat.lt_log2_self
    obtain ⟨mantissa, isNearest⟩ :
        ∃ mantissa, nearestQuotient .toEven n (2 ^ places) = mantissa := ⟨_, rfl⟩
    have value : roundedNat n = mantissa * 2 ^ places := by
      rw [roundedNat, isExcess, isNearest]
    obtain ⟨normal, room⟩ := nearestQuotient_mem_Icc atLeast atMost isNearest
    rcases room.lt_or_eq with room | carry
    · refine ⟨⟨mantissa, places⟩, isCanonical_natCast normal room (by omega), ?_,
        contains_of_room normal atLeast isNearest⟩
      rw [value, value_natCast]
    · have room := Nat.pow_lt_pow_right Nat.one_lt_two (Nat.lt_succ_self 52)
      refine ⟨⟨2 ^ 52, (places + 1 : Nat)⟩, isCanonical_natCast le_rfl room (by omega), ?_,
        contains_of_carry atMost (isNearest.trans carry)⟩
      have carried : 2 ^ 52 * 2 ^ (places + 1) = 2 ^ 53 * 2 ^ places := by ring
      rw [value, carry, value_natCast, carried]

theorem ofNat_eq (nonzero : 0 < n) (canonical : magnitude.IsCanonical)
    (contains : (ReadingInterval.ofDyadic magnitude).Contains n) :
    Float.ofNat n = signedFloat false magnitude canonical.positive := by
  have exact : (n : ℚ) = n * 10 ^ (0 : Int) := by rw [zpow_zero, mul_one]
  exact ofScientific_of_contains nonzero (by decide) (by decide) canonical exact contains

/-! ## Comparison -/

/-- Only the least exponent has mantissas that are not full. -/
theorem value_lt_of_exponent_lt (isLeft : left.IsCanonical) (isRight : right.IsCanonical)
    (less : left.exponent < right.exponent) : left.value < right.value := by
  have normal : 2 ^ 52 ≤ right.mantissa :=
    isRight.normal.resolve_right fun isLeast => absurd isLeft.least (by omega)
  have room : (left.mantissa : ℚ) < 2 ^ 53 := by exact_mod_cast isLeft.room
  calc left.mantissa * (2 : ℚ) ^ left.exponent
      < 2 ^ 53 * 2 ^ left.exponent := mul_lt_mul_of_pos_right room (by positivity)
    _ = 2 ^ 52 * 2 ^ (left.exponent + 1) := by
        rw [zpow_add_one₀ two_ne_zero]
        ring
    _ ≤ right.mantissa * 2 ^ right.exponent :=
        mul_le_mul (by exact_mod_cast normal) (zpow_le_zpow_right₀ one_le_two (by omega))
          (by positivity) (by positivity)

/-- The larger exponent decides, and among equal ones the larger mantissa. -/
theorem value_lt_iff (isLeft : left.IsCanonical) (isRight : right.IsCanonical) :
    left.value < right.value ↔ left.exponent < right.exponent
      ∨ left.exponent = right.exponent ∧ left.mantissa < right.mantissa := by
  rcases lt_trichotomy left.exponent right.exponent with less | same | more
  · exact iff_of_true (value_lt_of_exponent_lt isLeft isRight less) (.inl less)
  · have unit : (0 : ℚ) < 2 ^ right.exponent := by positivity
    rw [Dyadic.value, Dyadic.value, same, mul_lt_mul_iff_left₀ unit, Nat.cast_lt]
    simp
  · exact iff_of_false (not_lt.mpr (value_lt_of_exponent_lt isRight isLeft more).le) (by omega)

theorem compare_eq_lt_iff (isLeft : left.IsCanonical) (isRight : right.IsCanonical) :
    (compare left.exponent right.exponent).then (compare left.mantissa right.mantissa) = .lt
      ↔ left.value < right.value := by
  rw [value_lt_iff isLeft isRight, Ordering.then_eq_lt, Int.compare_eq_lt,
    Int.compare_eq_eq, Nat.compare_eq_lt]

theorem swap_compare_eq_lt_iff (isLeft : left.IsCanonical) (isRight : right.IsCanonical) :
    ((compare left.exponent right.exponent).then (compare left.mantissa right.mantissa)).swap = .lt
      ↔ right.value < left.value := by
  rw [← compare_eq_lt_iff isRight isLeft, Ordering.swap_then, Int.compare_swap,
    Nat.compare_swap]

/-- The number that a float holds; of the two zeros only the positive one is an integer's. -/
inductive HasValue : Float → ℚ → Prop where
  | zero : HasValue 0.0 0
  | positive {magnitude : Dyadic} (canonical : magnitude.IsCanonical) :
      HasValue (signedFloat false magnitude canonical.positive) magnitude.value
  | negative {magnitude : Dyadic} (canonical : magnitude.IsCanonical) :
      HasValue (signedFloat true magnitude canonical.positive) (-magnitude.value)

theorem Dyadic.value_pos (canonical : magnitude.IsCanonical) : 0 < magnitude.value := by
  have : (0 : ℚ) < magnitude.mantissa := by exact_mod_cast canonical.positive
  rw [Dyadic.value]
  positivity

theorem unpack_signedFloat (canonical : magnitude.IsCanonical) (negative : Bool) :
    (signedFloat negative magnitude canonical.positive).toModel.unpack
      = .finite (signOf negative) magnitude.mantissa magnitude.exponent canonical.positive :=
  unpack_pack canonical (signOf negative)

theorem lt_iff_compare (x y : Float) :
    x < y ↔ x.toModel.unpack.compare y.toModel.unpack = some .lt := by
  change decide ((x.toModel.unpack.compare y.toModel.unpack == some .lt) = true) = true ↔ _
  rw [decide_eq_true_iff, beq_iff_eq]

/-- Floats compare as the numbers that they hold. -/
theorem HasValue.lt_iff {x y : Float} {v w : ℚ} (first : HasValue x v) (second : HasValue y w) :
    x < y ↔ v < w := by
  have zero : (0.0 : Float).toModel.unpack = .zero .positive := rfl
  rw [lt_iff_compare]
  cases first with
  | zero =>
      cases second with
      | zero => exact iff_of_false nofun (lt_irrefl 0)
      | positive right =>
          rw [zero, unpack_signedFloat right]
          exact iff_of_true rfl (Dyadic.value_pos right)
      | negative right =>
          have := Dyadic.value_pos right
          rw [zero, unpack_signedFloat right]
          exact iff_of_false nofun (by linarith)
  | positive left =>
      rw [unpack_signedFloat left]
      cases second with
      | zero => exact iff_of_false nofun (Dyadic.value_pos left).le.not_gt
      | positive right =>
          rw [unpack_signedFloat right, ← compare_eq_lt_iff left right]
          exact Option.some_inj
      | negative right =>
          have := Dyadic.value_pos left
          have := Dyadic.value_pos right
          rw [unpack_signedFloat right]
          exact iff_of_false nofun (by linarith)
  | negative left =>
      rw [unpack_signedFloat left]
      cases second with
      | zero => exact iff_of_true rfl (neg_lt_zero.mpr (Dyadic.value_pos left))
      | positive right =>
          have := Dyadic.value_pos left
          have := Dyadic.value_pos right
          rw [unpack_signedFloat right]
          exact iff_of_true rfl (by linarith)
      | negative right =>
          rw [unpack_signedFloat right, neg_lt_neg_iff, ← swap_compare_eq_lt_iff left right]
          exact Option.some_inj

/-- An integer of 64 bits becomes the float that holds the rounded integer. -/
theorem ofInt_hasValue (n : Int) (range : n.natAbs < 2 ^ 64) :
    HasValue (Float.ofInt n) (rounded n) := by
  rcases n with (_ | n) | n
  · exact .zero
  · obtain ⟨magnitude, canonical, value, contains⟩ := exists_rounded (Nat.succ_pos n) range
    have same : (rounded (Int.ofNat (n + 1)) : ℚ) = magnitude.value := by
      rw [value, rounded]
      change ((1 * (roundedNat (n + 1) : Int) : Int) : ℚ) = _
      push_cast
      ring
    rw [same]
    change HasValue (Float.ofNat (n + 1)) magnitude.value
    rw [ofNat_eq (Nat.succ_pos n) canonical contains]
    exact .positive canonical
  · obtain ⟨magnitude, canonical, value, contains⟩ := exists_rounded (Nat.succ_pos n) range
    have same : (rounded (Int.negSucc n) : ℚ) = -magnitude.value := by
      rw [value, rounded]
      change ((-1 * (roundedNat (n + 1) : Int) : Int) : ℚ) = _
      push_cast
      ring
    rw [same]
    change HasValue (-Float.ofNat (n + 1)) (-magnitude.value)
    rw [ofNat_eq (Nat.succ_pos n) canonical contains, neg_signedFloat canonical]
    exact .negative canonical

theorem ofInt_lt_iff {m n : Int} (first : m.natAbs < 2 ^ 64) (second : n.natAbs < 2 ^ 64) :
    Float.ofInt m < Float.ofInt n ↔ rounded m < rounded n := by
  rw [(ofInt_hasValue m first).lt_iff (ofInt_hasValue n second), Int.cast_lt]

end MachineScript.Number
