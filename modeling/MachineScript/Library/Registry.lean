import MachineScript.Bindings
import MachineScript.Clock
import MachineScript.Fault

/-!
Contract: what hosts offer to programs under dotted names.

Owns:
- functions, values and event conditions by name, the module of a name, and the
  modules of a registry;
- the checks that library functions make on their arguments.

Does not own: which modules a program may see; the engine checks that.
-/

namespace MachineScript

/-- What a library function gives: a value, and the lines that it prints. -/
structure Answer where
  value : Value
  printed : List String := []
deriving DecidableEq

abbrev NativeFunction := List Value → Except LibraryError Answer

/-- An event condition on a handler's argument and the time since it was registered. -/
abbrev NativeCondition := Value → Duration → Except LibraryError Bool

/-- The part of a name before its first dot, if it has one. -/
def moduleOf (name : String) : Option String :=
  let text := name.toList
  if text.any (· = '.') then some (String.ofList (text.takeWhile (· ≠ '.'))) else none

/-- Functions, values and conditions by their full names. -/
structure Registry where
  functions : Bindings String NativeFunction := []
  values : Bindings String Value := []
  conditions : Bindings String NativeCondition := []

namespace Registry

def empty : Registry := {}

/-- Register a function; it takes the place of one of the same name. -/
def withFunction (registry : Registry) (name : String) (run : NativeFunction) : Registry :=
  { registry with functions := registry.functions.insert name run }

/-- Register a value; it takes the place of one of the same name. -/
def withValue (registry : Registry) (name : String) (value : Value) : Registry :=
  { registry with values := registry.values.insert name value }

/-- Register a condition; it takes the place of one of the same name. -/
def withCondition (registry : Registry) (name : String) (holds : NativeCondition) : Registry :=
  { registry with conditions := registry.conditions.insert name holds }

def function? (registry : Registry) (name : String) : Option NativeFunction :=
  registry.functions.find? name

def value? (registry : Registry) (name : String) : Option Value :=
  registry.values.find? name

def condition? (registry : Registry) (name : String) : Option NativeCondition :=
  registry.conditions.find? name

/-- Poll a condition, if there is one of that name. -/
def isSatisfied (registry : Registry) (kind : String) (argument : Value) (elapsed : Duration) :
    Option (Except LibraryError Bool) :=
  (registry.condition? kind).map fun holds => holds argument elapsed

def sorted (texts : List String) : List String :=
  texts.mergeSort fun left right => !decide (right < left)

/-- The modules with at least one entry, in ascending order. -/
def modules (registry : Registry) : List String :=
  let names := registry.functions.map Prod.fst ++ registry.values.map Prod.fst
    ++ registry.conditions.map Prod.fst
  sorted (names.filterMap moduleOf).eraseDups

def quotedList (texts : List String) : String :=
  "[" ++ ", ".intercalate (texts.map Text.quoted) ++ "]"

/-- A summary: the names of functions and conditions and the number of values. -/
def describe (registry : Registry) : String :=
  "LibraryRegistry \x7b functions: " ++ quotedList (sorted (registry.functions.map Prod.fst))
    ++ ", values: " ++ String.ofList (Number.digits registry.values.length)
    ++ ", conditions: " ++ quotedList (sorted (registry.conditions.map Prod.fst)) ++ " \x7d"

end Registry

/-! ## Checks on arguments -/

namespace Library

/-- Exactly `count` arguments. -/
def expectCount (function : String) (arguments : List Value) (count : Nat) :
    Except LibraryError Unit :=
  if arguments.length = count then .ok ()
  else .error (.arity function (String.ofList (Number.digits count)) arguments.length)

/-- A number, as a float. -/
def expectNumber (function : String) (value : Value) : Except LibraryError Float :=
  match value.toFloat? with
  | some number => .ok number
  | none => .error (.type function "a number" value.typeName)

end Library

end MachineScript
