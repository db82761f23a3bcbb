import MachineScript.Number.Shortest

/-!
Contract: the text in which every float is shown.

Owns:
- the layout: positional with at least one fractional digit while the decimal
  point stands at most sixteen places to the right and at most three to the left
  of the first digit, and otherwise one digit, the rest as a fraction if there
  is one, and the exponent;
- the texts of zero, the infinities and what is no number.

Does not own: the choice of the digits.
-/

namespace MachineScript.Number

/-- Where the positional notation ends: the places of the decimal point, counted from before the
first digit, for which it is used. -/
structure Layout where
  leastPoint : Int
  greatestPoint : Int
deriving DecidableEq, Repr

/-- Numbers from a ten-thousandth on and below `10 ^ 16` are written positionally. -/
def floatLayout : Layout := ⟨-3, 16⟩

/-- The digits of a natural number, most significant first. -/
def digits (n : Nat) : List Char :=
  Nat.toDigits 10 n

def intText (n : Int) : List Char :=
  if n < 0 then '-' :: digits n.natAbs else digits n.natAbs

/-- Digits with the decimal point before, among or behind them. -/
def positional (shown : List Char) (point : Int) : List Char :=
  if point ≤ 0 then
    ['0', '.'] ++ List.replicate (-point).toNat '0' ++ shown
  else if point < shown.length then
    shown.take point.toNat ++ ['.'] ++ shown.drop point.toNat
  else
    shown ++ List.replicate (point.toNat - shown.length) '0' ++ ['.', '0']

/-- One digit, the rest as a fraction, and the power of ten. -/
def scientific (shown : List Char) (point : Int) : List Char :=
  let fraction := shown.drop 1
  shown.take 1 ++ (if fraction.isEmpty then [] else '.' :: fraction)
    ++ 'e' :: intText (point - 1)

def Decimal.text (layout : Layout) (decimal : Decimal) : List Char :=
  let shown := digits decimal.coefficient
  let point := shown.length + decimal.exponent
  if layout.leastPoint ≤ point ∧ point ≤ layout.greatestPoint then positional shown point
  else scientific shown point

def FloatShape.text : FloatShape → List Char
  | .notANumber => ['N', 'a', 'N']
  | .infinite negative => (if negative then ['-'] else []) ++ ['i', 'n', 'f']
  | .finite negative magnitude =>
      (if negative then ['-'] else []) ++
        if magnitude.mantissa = 0 then ['0', '.', '0']
        else (shortestDecimal magnitude).text floatLayout

def floatText (x : Float) : String :=
  String.ofList (floatShape x).text

end MachineScript.Number
