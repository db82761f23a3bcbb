import MachineScript.Token

/-!
Contract: the values that variables hold and functions take and give.

Owns: the kinds of value, their names, texts, numeric view and equality.

Equality compares floats as numbers: zero has one value, and what is no number
differs from itself. It never equates an integer with a float.
-/

namespace MachineScript

/-- A value. A handle names an object of the host by its kind and number. -/
inductive Value where
  | nil
  | bool (value : Bool)
  | int (value : Int64)
  | float (value : Float)
  | str (text : String)
  | handle (kind : String) (id : Nat)
deriving DecidableEq

namespace Value

/-- The value that a constant stands for by itself; an atom is a variable and has none. -/
def ofLiteral? : Constant → Option Value
  | .atom _ => none
  | .str text => some (.str text)
  | .int value => some (.int value)
  | .float value => some (.float value)

def typeName : Value → String
  | .nil => "nil"
  | .bool _ => "bool"
  | .int _ => "int"
  | .float _ => "float"
  | .str _ => "string"
  | .handle kind _ => kind

def display : Value → String
  | .nil => "nil"
  | .bool value => if value then "true" else "false"
  | .int value => String.ofList (Number.intText value.toInt)
  | .float value => Number.floatText value
  | .str text => text
  | .handle kind id => "<" ++ kind ++ "#" ++ String.ofList (Number.digits id) ++ ">"

/-- A number as a float, rounded to the nearest one. -/
def toFloat? : Value → Option Float
  | .int value => some (Float.ofInt value.toInt)
  | .float value => some value
  | _ => none

def isNil : Value → Bool
  | .nil => true
  | _ => false

def equals : Value → Value → Bool
  | .nil, .nil => true
  | .bool left, .bool right => left == right
  | .int left, .int right => left == right
  | .float left, .float right => Float.beq left right
  | .str left, .str right => left == right
  | .handle leftKind leftId, .handle rightKind rightId => leftKind == rightKind && leftId == rightId
  | _, _ => false

end Value

end MachineScript
