import MachineScript.Number.Dyadic

/-!
Contract: the shortest decimal that reads back as a given float.

Every real number closer to a float than to its neighbours is read as that
float; the ends of this interval are read as it too when its mantissa is even.
The shortest decimal is a multiple of the greatest power of ten that has a
multiple in the interval. Of those multiples it is the nearest to the float,
the greater one in a tie.

Owns: the interval, the search for the power of ten, and the choice of the
multiple, all in exact arithmetic.

Does not own: the layout of the digits.
-/

namespace MachineScript.Number

/-- The number `coefficient * 10 ^ exponent`. -/
structure Decimal where
  coefficient : Nat
  exponent : Int
deriving DecidableEq, Repr

/-- The numbers that read as one float, in units of a quarter of its last place:
the float itself is `centre * 2 ^ exponent`. -/
structure ReadingInterval where
  low : Nat
  centre : Nat
  high : Nat
  closed : Bool
  exponent : Int
deriving DecidableEq, Repr

/-- The interval of a float: half a place on either side, but a quarter below a power of two,
where the floats are closer together. -/
def ReadingInterval.ofDyadic (magnitude : Dyadic) : ReadingInterval :=
  let narrow := magnitude.mantissa = twoTo 52 ∧ leastExponent < magnitude.exponent
  let centre := 4 * magnitude.mantissa
  { low := if narrow then centre - 1 else centre - 2
    centre := centre
    high := centre + 2
    closed := magnitude.mantissa % 2 = 0
    exponent := magnitude.exponent - 2 }

/-- The multiple of `10 ^ power` that stands for the float, if one lies in the interval. -/
def ReadingInterval.multiple? (interval : ReadingInterval) (power : Int) : Option Nat :=
  let grid := tenTo power.toNat * twoTo (-interval.exponent).toNat
  let scale := tenTo (-power).toNat * twoTo interval.exponent.toNat
  let centre := interval.centre * scale
  let below := centre / grid
  let reads (multiple : Nat) : Bool :=
    let point := multiple * grid
    if interval.closed then
      interval.low * scale ≤ point && point ≤ interval.high * scale
    else
      interval.low * scale < point && point < interval.high * scale
  if reads below then
    if reads (below + 1) && grid ≤ 2 * (centre - below * grid) then some (below + 1)
    else some below
  else if reads (below + 1) then some (below + 1)
  else none

/-- Descending search for a power of ten with a multiple in the interval. -/
def ReadingInterval.search (interval : ReadingInterval) : (steps : Nat) → (power : Int) → Decimal
  | 0, power => ⟨interval.centre, power⟩
  | steps + 1, power =>
      match interval.multiple? power with
      | some coefficient => ⟨coefficient, power⟩
      | none => interval.search steps (power - 1)

/-- A power of ten above the float: `0.30103` is just above the logarithm of two. -/
def powerAbove (magnitude : Dyadic) : Int :=
  (magnitude.mantissa.log2 + 1 + magnitude.exponent) * 30103 / 100000 + 2

/-- The shortest decimal of a positive float; seventeen digits are always enough. -/
def shortestDecimal (magnitude : Dyadic) : Decimal :=
  (ReadingInterval.ofDyadic magnitude).search 24 (powerAbove magnitude)

end MachineScript.Number
