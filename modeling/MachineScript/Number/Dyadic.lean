/-!
Contract: the exact number that a double-precision float holds.

Owns:
- the powers of two and ten in which numbers are scaled;
- dyadic rationals `mantissa * 2 ^ exponent` and the exact value of a finite float as one;
- rounding of a quotient of natural numbers to the nearest one, with both rules for a tie;
- rounding of a scaled dyadic rational by either rule.

Does not own: decimal text.
-/

namespace MachineScript.Number

def twoTo (exponent : Nat) : Nat := Nat.pow 2 exponent

def tenTo (exponent : Nat) : Nat := Nat.pow 10 exponent

theorem twoTo_pos (exponent : Nat) : 0 < twoTo exponent :=
  Nat.pow_pos (by decide)

theorem tenTo_pos (exponent : Nat) : 0 < tenTo exponent :=
  Nat.pow_pos (by decide)

/-- How the quotient of two natural numbers goes to a natural number when it lies halfway. -/
inductive Tie where
  | toEven
  | up
deriving DecidableEq, Repr

/-- The natural number nearest to a quotient; a quotient halfway goes as the tie rule says. -/
def nearestQuotient (tie : Tie) (numerator denominator : Nat) : Nat :=
  let below := numerator / denominator
  let twiceRest := 2 * (numerator % denominator)
  if twiceRest < denominator then below
  else if denominator < twiceRest then below + 1
  else match tie with
    | .up => below + 1
    | .toEven => if below % 2 = 0 then below else below + 1

/-- A nonnegative rational number whose denominator is a power of two. -/
structure Dyadic where
  mantissa : Nat
  exponent : Int
deriving DecidableEq, Repr

/-- What a float stands for. -/
inductive FloatShape where
  | notANumber
  | infinite (negative : Bool)
  | finite (negative : Bool) (magnitude : Dyadic)
deriving DecidableEq, Repr

/-- The exponent of the last place of the smallest floats. -/
def leastExponent : Int := -1074

/-- The shape read off the sign, exponent and fraction fields. -/
def FloatShape.ofBits (bits : UInt64) : FloatShape :=
  let word := bits.toNat
  let negative := word / twoTo 63 = 1
  let biased := word / twoTo 52 % twoTo 11
  let fraction := word % twoTo 52
  if biased = 2047 then
    if fraction = 0 then .infinite negative else .notANumber
  else if biased = 0 then
    .finite negative ⟨fraction, leastExponent⟩
  else
    .finite negative ⟨twoTo 52 + fraction, leastExponent + (biased - 1 : Nat)⟩

def floatShape (x : Float) : FloatShape :=
  .ofBits x.toBits

/-- The natural number nearest to a dyadic rational times a factor. -/
def Dyadic.nearestMultiple (tie : Tie) (magnitude : Dyadic) (factor : Nat) : Nat :=
  if 0 ≤ magnitude.exponent then
    magnitude.mantissa * twoTo magnitude.exponent.toNat * factor
  else
    nearestQuotient tie (magnitude.mantissa * factor) (twoTo (-magnitude.exponent).toNat)

theorem nearestQuotient_mul (tie : Tie) (n denominator : Nat) (positive : 0 < denominator) :
    nearestQuotient tie (n * denominator) denominator = n := by
  simp [nearestQuotient, Nat.mul_div_cancel n positive, positive]

end MachineScript.Number
