import MachineScript.Number.Dyadic

/-!
Contract: numbers read from text.

Owns:
- 64-bit signed integers: an optional sign and decimal digits, refused out of range;
- natural numbers below a bound: an optional plus sign and decimal digits;
- floats: an optional sign, then digits with an optional point among, before
  or behind them and an optional exponent, or the name of an infinity or of
  what is no number in any case; the value is the float nearest to the decimal.

Does not own: where a number ends inside a source.
-/

namespace MachineScript.Number

/-- An optional sign at the front of a text; `true` stands for the minus sign. -/
def splitSign : List Char → Bool × List Char
  | '-' :: rest => (true, rest)
  | '+' :: rest => (false, rest)
  | text => (false, text)

/-- The value of decimal digits, most significant first. -/
def digitsValue (shown : List Char) : Nat :=
  shown.foldl (fun value c => 10 * value + (c.toNat - '0'.toNat)) 0

/-- Decimal digits, at least one, and nothing else. -/
def digits? (text : List Char) : Option Nat :=
  if !text.isEmpty && text.all Char.isDigit then some (digitsValue text) else none

/-- The 64-bit signed integer equal to an integer, if there is one. -/
def int64? (n : Int) : Option Int64 :=
  if Int64.minValue.toInt ≤ n ∧ n ≤ Int64.maxValue.toInt then some (Int64.ofInt n) else none

def readInt64 (text : List Char) : Option Int64 := do
  let (negative, shown) := splitSign text
  let magnitude ← digits? shown
  int64? (if negative then -(magnitude : Int) else magnitude)

/-- Read a natural number below `2 ^ 64`, with an optional plus sign. -/
def readNat64 (text : List Char) : Option Nat := do
  let shown := match text with
    | '+' :: rest => rest
    | _ => text
  let value ← digits? shown
  if value < twoTo 64 then some value else none

/-- The float nearest to `coefficient * 10 ^ exponent`. Decimals far above the greatest or far
below the least float are infinite or zero without their power of ten being computed. -/
def nearestFloat (coefficient : Nat) (exponent : Int) : Float :=
  let places := (Nat.toDigits 10 coefficient).length + exponent
  if coefficient = 0 ∨ places < -330 then 0.0
  else if 330 < places then 1.0 / 0.0
  else Float.ofScientific coefficient (decide (exponent < 0)) exponent.natAbs

/-- An exponent mark with its integer, or nothing. -/
def readExponent : List Char → Option Int
  | [] => some 0
  | mark :: text =>
      if mark = 'e' ∨ mark = 'E' then do
        let (negative, shown) := splitSign text
        let magnitude ← digits? shown
        some (if negative then -(magnitude : Int) else magnitude)
      else none

def readDecimal (text : List Char) : Option Float := do
  let whole := text.takeWhile Char.isDigit
  let afterWhole := text.dropWhile Char.isDigit
  let (fraction, rest) := match afterWhole with
    | '.' :: behind => (behind.takeWhile Char.isDigit, behind.dropWhile Char.isDigit)
    | _ => ([], afterWhole)
  let coefficient ← digits? (whole ++ fraction)
  let exponent ← readExponent rest
  some (nearestFloat coefficient (exponent - fraction.length))

def namedFloat (text : List Char) : Option Float :=
  let name := String.ofList (text.map Char.toLower)
  if name = "inf" ∨ name = "infinity" then some (1.0 / 0.0)
  else if name = "nan" then some (0.0 / 0.0)
  else none

def readFloat (text : List Char) : Option Float := do
  let (negative, unsigned) := splitSign text
  let magnitude ← (readDecimal unsigned).or (namedFloat unsigned)
  some (if negative then -magnitude else magnitude)

end MachineScript.Number
