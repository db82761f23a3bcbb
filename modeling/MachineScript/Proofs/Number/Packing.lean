import MachineScript.Proofs.Number.Rounding

/-!
Contract: the floats as they are packed into 64 bits.

Owns:
- the float of a sign and a canonical magnitude, and its bits as a number;
- that unpacking gives back what was packed;
- that every finite float other than zero is the float of its sign and
  magnitude.

Does not own: which numbers are rounded to a float.
-/

namespace MachineScript.Number

open Float.Model Float.Model.UnpackedFloat

def signOf (negative : Bool) : Sign :=
  if negative then .negative else .positive

/-- The float of a sign and a magnitude that is not zero. -/
def signedFloat (negative : Bool) (magnitude : Dyadic) (nonzero : 0 < magnitude.mantissa) : Float :=
  .ofModel (.pack (.finite (signOf negative) magnitude.mantissa magnitude.exponent nonzero))

variable {magnitude : Dyadic} {negative : Bool}

/-! ## The fields of a packed float -/

theorem toNat_packComponents (sign : Sign) (exponent : BitVec 11) (fraction : BitVec 52) :
    (packComponents Format.binary64 sign exponent fraction).toNat
      = sign.toBitVec.toNat * 2 ^ 63 + exponent.toNat * 2 ^ 52 + fraction.toNat := by
  have first := Nat.shiftLeft_add_eq_or_of_lt exponent.isLt sign.toBitVec.toNat
  have second := Nat.shiftLeft_add_eq_or_of_lt fraction.isLt (sign.toBitVec ++ exponent).toNat
  rw [packComponents, BitVec.toNat_append, ← second, BitVec.toNat_append, ← first]
  simp only [Nat.shiftLeft_eq]
  omega

/-- The exponent field of a canonical float, were it not for the bit that is left out. -/
def places (magnitude : Dyadic) : Nat :=
  (magnitude.exponent - leastExponent).toNat

/-- A mantissa with its leading bit is packed without it, in the next exponent. -/
theorem pack_of_normal (canonical : magnitude.IsCanonical) (normal : 2 ^ 52 ≤ magnitude.mantissa)
    (sign : Sign) :
    UnpackedFloat.pack Format.binary64
        (.finite sign magnitude.mantissa magnitude.exponent canonical.positive)
      = packComponents Format.binary64 sign (.ofNat 11 (places magnitude + 1))
        (.ofNat 52 magnitude.mantissa) := by
  obtain ⟨nonzero, room, least, greatest, -⟩ := canonical
  have bits : magnitude.mantissa.log2 = 52 := (Nat.log2_eq_iff nonzero.ne').mpr ⟨normal, room⟩
  have field : (magnitude.exponent + (Format.binary64.exponentBias : Int) + (52 : Nat)).toNat
      = places magnitude + 1 := by
    have bias : Format.binary64.exponentBias = 1023 := rfl
    simp only [places, leastExponent, bias] at *
    omega
  have inRange : ¬2 ^ 11 ≤ places magnitude + 1 + 1 := by
    simp only [places, leastExponent] at *
    omega
  simp only [UnpackedFloat.pack, field, if_neg inRange, bits]
  rfl

theorem pack_of_subnormal (canonical : magnitude.IsCanonical)
    (subnormal : magnitude.mantissa < 2 ^ 52) (sign : Sign) :
    UnpackedFloat.pack Format.binary64
        (.finite sign magnitude.mantissa magnitude.exponent canonical.positive)
      = packComponents Format.binary64 sign 0#11 (.ofNat 52 magnitude.mantissa) := by
  obtain ⟨nonzero, -, -, -, normal⟩ := canonical
  have bits : magnitude.mantissa.log2 < 52 := (Nat.log2_lt nonzero.ne').mpr subnormal
  have isLeast : magnitude.exponent = leastExponent := by omega
  have field : (leastExponent + (Format.binary64.exponentBias : Int) + (52 : Nat)).toNat = 1 := rfl
  have less : magnitude.mantissa.log2 + 1 ≠ Format.binary64.mantissaBits :=
    Nat.ne_of_lt (Nat.succ_lt_succ bits)
  simp only [UnpackedFloat.pack, isLeast, field, if_neg less]
  rfl

/-- The bits of a canonical float are its exponent and its mantissa, side by side, where the leading
bit of the mantissa is carried into the exponent. -/
theorem toBits_signedFloat (canonical : magnitude.IsCanonical) (negative : Bool) :
    (signedFloat negative magnitude canonical.positive).toBits.toNat
      = (if negative then 2 ^ 63 else 0) + places magnitude * 2 ^ 52 + magnitude.mantissa := by
  change (UnpackedFloat.pack Format.binary64 _).toNat = _
  have sign : (signOf negative).toBitVec.toNat * 2 ^ 63 = if negative then 2 ^ 63 else 0 := by
    cases negative <;> rfl
  by_cases normal : 2 ^ 52 ≤ magnitude.mantissa
  · have inRange : places magnitude + 1 < 2 ^ 11 := by
      have := canonical.greatest
      simp only [places, leastExponent] at *
      omega
    rw [pack_of_normal canonical normal, toNat_packComponents, sign, BitVec.toNat_ofNat,
      BitVec.toNat_ofNat, Nat.mod_eq_of_lt inRange, Nat.mod_eq_sub_mod normal, Nat.mod_eq_of_lt]
    · omega
    · have := canonical.room
      omega
  · have isLeast : places magnitude = 0 := by
      have := canonical.normal
      simp only [places]
      omega
    have fraction : (BitVec.ofNat 52 magnitude.mantissa).toNat = magnitude.mantissa :=
      Nat.mod_eq_of_lt (by omega)
    rw [pack_of_subnormal canonical (by omega), toNat_packComponents, sign, isLeast, fraction]
    rfl

/-! ## Unpacking -/

theorem unpackSign_packComponents (sign : Sign) (exponent : BitVec 11) (fraction : BitVec 52) :
    Sign.ofBitVec (unpackSign (packComponents Format.binary64 sign exponent fraction)) = sign := by
  have field : unpackSign (packComponents Format.binary64 sign exponent fraction)
      = sign.toBitVec := by
    apply BitVec.eq_of_toNat_eq
    have whole := toNat_packComponents sign exponent fraction
    have first := sign.toBitVec.isLt
    have second := exponent.isLt
    have third := fraction.isLt
    simp only [unpackSign, BitVec.toNat_cast, BitVec.extractLsb_toNat, whole,
      Nat.shiftRight_eq_div_pow]
    omega
  rw [field]
  cases sign <;> rfl

theorem ofNat_ne_of_toNat_ne {width n : Nat} {word : BitVec width} (room : n < 2 ^ width)
    (other : n ≠ word.toNat) : BitVec.ofNat width n ≠ word := by
  rintro rfl
  exact other (Nat.mod_eq_of_lt room).symm

theorem unpack_pack_of_normal (canonical : magnitude.IsCanonical)
    (normal : 2 ^ 52 ≤ magnitude.mantissa) (sign : Sign) :
    UnpackedFloat.unpack Format.binary64 (UnpackedFloat.pack Format.binary64
        (.finite sign magnitude.mantissa magnitude.exponent canonical.positive))
      = .finite sign magnitude.mantissa magnitude.exponent canonical.positive := by
  have ⟨_, room, least, greatest, _⟩ := canonical
  have inRange : places magnitude + 1 < 2 ^ 11 - 1 := by
    simp only [places, leastExponent]
    omega
  have field : (BitVec.ofNat 11 (places magnitude + 1)).toNat = places magnitude + 1 :=
    Nat.mod_eq_of_lt (by omega)
  have finite : BitVec.ofNat 11 (places magnitude + 1) ≠ -1#11 :=
    ofNat_ne_of_toNat_ne (by omega) (Nat.ne_of_lt inRange)
  have leading : BitVec.ofNat 11 (places magnitude + 1) ≠ 0#11 :=
    ofNat_ne_of_toNat_ne (by omega) (Nat.succ_ne_zero _)
  rw [pack_of_normal canonical normal, UnpackedFloat.unpack]
  simp only [unpackExponent_packComponents, unpackMantissa_packComponents,
    unpackSign_packComponents, if_neg finite, if_neg leading, field]
  congr 1
  · have leadingBit := Nat.shiftLeft_add_eq_or_of_lt
      (BitVec.ofNat 52 magnitude.mantissa).isLt (1#1).toNat
    have fraction : (BitVec.ofNat 52 magnitude.mantissa).toNat
        = magnitude.mantissa - 2 ^ 52 := by
      rw [BitVec.toNat_ofNat, Nat.mod_eq_sub_mod normal, Nat.mod_eq_of_lt (by omega)]
    rw [BitVec.toNat_append, ← leadingBit, fraction]
    exact Nat.add_sub_of_le normal
  · have bias : Format.binary64.exponentBias = 1023 := rfl
    simp only [places, leastExponent, bias] at *
    omega

theorem unpack_pack_of_subnormal (canonical : magnitude.IsCanonical)
    (subnormal : magnitude.mantissa < 2 ^ 52) (sign : Sign) :
    UnpackedFloat.unpack Format.binary64 (UnpackedFloat.pack Format.binary64
        (.finite sign magnitude.mantissa magnitude.exponent canonical.positive))
      = .finite sign magnitude.mantissa magnitude.exponent canonical.positive := by
  have isLeast : magnitude.exponent = leastExponent := by
    have := canonical.normal
    omega
  have fraction : (BitVec.ofNat 52 magnitude.mantissa).toNat = magnitude.mantissa :=
    Nat.mod_eq_of_lt subnormal
  have nonzero : BitVec.ofNat 52 magnitude.mantissa ≠ 0#52 :=
    ofNat_ne_of_toNat_ne subnormal canonical.positive.ne'
  have finite : 0#11 ≠ -1#11 := by decide
  rw [pack_of_subnormal canonical subnormal, UnpackedFloat.unpack]
  simp only [unpackExponent_packComponents, unpackMantissa_packComponents,
    unpackSign_packComponents, if_neg finite, dif_neg nonzero, fraction, isLeast]
  rfl

/-- Unpacking gives back the float that was packed. -/
theorem unpack_pack (canonical : magnitude.IsCanonical) (sign : Sign) :
    (Float.Model.pack
      (.finite sign magnitude.mantissa magnitude.exponent canonical.positive)).unpack
      = .finite sign magnitude.mantissa magnitude.exponent canonical.positive := by
  change UnpackedFloat.unpack Format.binary64 (UnpackedFloat.pack Format.binary64 _) = _
  rcases le_or_gt (2 ^ 52) magnitude.mantissa with normal | subnormal
  · exact unpack_pack_of_normal canonical normal sign
  · exact unpack_pack_of_subnormal canonical subnormal sign

theorem neg_signedFloat (canonical : magnitude.IsCanonical) :
    -signedFloat false magnitude canonical.positive
      = signedFloat true magnitude canonical.positive := by
  change Float.ofModel (.pack (Float.Model.pack _).unpack.neg) = _
  rw [unpack_pack canonical]
  rfl

/-! ## Shapes -/

variable {x : Float}

theorem toBits_inj {x y : Float} (same : x.toBits.toNat = y.toBits.toNat) : x = y := by
  rcases x with ⟨⟨left, _⟩⟩
  rcases y with ⟨⟨right, _⟩⟩
  obtain rfl : left = right := UInt64.toNat_inj.mp same
  rfl

/-- The fields of a finite float, put together again. -/
theorem fields_of_finite (finite : floatShape x = .finite negative magnitude) :
    x.toBits.toNat
        = (if negative then 2 ^ 63 else 0) + places magnitude * 2 ^ 52 + magnitude.mantissa
      ∧ magnitude.mantissa < 2 ^ 53 ∧ leastExponent ≤ magnitude.exponent
      ∧ magnitude.exponent ≤ 971
      ∧ (2 ^ 52 ≤ magnitude.mantissa ∨ magnitude.exponent = leastExponent) := by
  have range := x.toBits.toNat_lt
  unfold floatShape FloatShape.ofBits at finite
  simp only [show twoTo 63 = 2 ^ 63 from rfl, show twoTo 52 = 2 ^ 52 from rfl,
    show twoTo 11 = 2 ^ 11 from rfl] at finite
  split at finite
  · split at finite <;> cases finite
  · split at finite
    · cases finite
      simp only [places, leastExponent, decide_eq_true_eq]
      exact ⟨by split <;> omega, by omega, le_rfl, by decide, .inr trivial⟩
    · cases finite
      simp only [places, leastExponent, decide_eq_true_eq]
      exact ⟨by split <;> omega, by omega, by omega, by omega, .inl (by omega)⟩

/-- Every finite float other than zero is that of its sign and its magnitude. -/
theorem eq_signedFloat_of_finite (finite : floatShape x = .finite negative magnitude)
    (nonzero : 0 < magnitude.mantissa) :
    magnitude.IsCanonical ∧ x = signedFloat negative magnitude nonzero := by
  obtain ⟨bits, room, least, greatest, normal⟩ := fields_of_finite finite
  have canonical : magnitude.IsCanonical := ⟨nonzero, room, least, greatest, normal⟩
  exact ⟨canonical, toBits_inj (bits.trans (toBits_signedFloat canonical negative).symm)⟩

/-- There are two zeros. -/
theorem eq_zero_of_finite (finite : floatShape x = .finite negative magnitude)
    (zero : magnitude.mantissa = 0) : x = if negative then -0.0 else 0.0 := by
  obtain ⟨bits, -, -, -, normal⟩ := fields_of_finite finite
  have isLeast : places magnitude = 0 := by
    simp only [places]
    omega
  apply toBits_inj
  rw [bits, isLeast, zero]
  cases negative <;> rfl

end MachineScript.Number
