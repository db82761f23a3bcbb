import MachineScript.Library.Registry
import MachineScript.Number.Reading

/-!
Contract: the library `math`.

Owns:
- sums, products, differences and quotients, exact on integers or refused, and
  in floats from the first float on;
- the first least and the first greatest argument, compared as floats;
- the constants `math.pi` and `math.e`.
-/

namespace MachineScript.Library

/-- An operation on two integers that may leave their range, and the same on floats. -/
structure Operation where
  onInts : Int → Int → Int
  onFloats : Float → Float → Float

/-- Two numbers combined: integers exactly or not at all, all else as floats. -/
def combine (function : String) (operation : Operation) (left right : Value) :
    Except LibraryError Value :=
  match left, right with
  | .int a, .int b =>
      match Number.int64? (operation.onInts a.toInt b.toInt) with
      | some result => .ok (.int result)
      | none => .error (.type function "a result within integer range" "an overflow")
  | _, _ => do
      let a ← expectNumber function left
      let b ← expectNumber function right
      .ok (.float (operation.onFloats a b))

/-- The arguments combined from the left; the first has to be a number too. -/
def foldNumbers (function : String) (operation : Operation) :
    List Value → Except LibraryError Value
  | [] => .error (.arity function "at least 1" 0)
  | first :: rest => do
      let _ ← expectNumber function first
      rest.foldlM (combine function operation) first

/-- The first argument that no later one is preferred to. -/
def pickNumber (function : String) (prefers : Float → Float → Bool) :
    List Value → Except LibraryError Value
  | [] => .error (.arity function "at least 1" 0)
  | first :: rest => do
      let number ← expectNumber function first
      let best ← rest.foldlM (fun (best : Float × Value) argument => do
        let candidate ← expectNumber function argument
        .ok (if prefers best.1 candidate then (candidate, argument) else best)) (number, first)
      .ok best.2

def quietly (result : Except LibraryError Value) : Except LibraryError Answer :=
  result.map fun value => ⟨value, []⟩

def addition : Operation := ⟨(· + ·), (· + ·)⟩

def multiplication : Operation := ⟨(· * ·), (· * ·)⟩

def subtraction : Operation := ⟨(· - ·), (· - ·)⟩

/-- Quotients of integers are cut toward zero. -/
def division : Operation := ⟨Int.tdiv, (· / ·)⟩

def sum : NativeFunction := fun arguments =>
  quietly (foldNumbers "math.add" addition arguments)

def product : NativeFunction := fun arguments =>
  quietly (foldNumbers "math.mul" multiplication arguments)

def difference : NativeFunction := fun arguments => do
  expectCount "math.sub" arguments 2
  quietly (foldNumbers "math.sub" subtraction arguments)

/-- A quotient; the divisor must not be the integer zero. -/
def quotient : NativeFunction := fun arguments => do
  expectCount "math.div" arguments 2
  if arguments[1]? = some (.int 0) then
    .error (.type "math.div" "a non-zero divisor" "0")
  else
    quietly (foldNumbers "math.div" division arguments)

/-- The first of the least arguments. -/
def least : NativeFunction := fun arguments =>
  quietly (pickNumber "math.min" (fun best candidate => candidate < best) arguments)

/-- The first of the greatest arguments. -/
def greatest : NativeFunction := fun arguments =>
  quietly (pickNumber "math.max" (fun best candidate => best < candidate) arguments)

/-- Add the library `math` to a registry. -/
def withArithmetic (registry : Registry) : Registry :=
  { registry with
    functions := ((((((registry.functions.insert "math.add" sum).insert "math.mul" product).insert
      "math.sub" difference).insert "math.div" quotient).insert "math.min" least).insert
      "math.max" greatest)
    values := (registry.values.insert "math.pi" (.float 3.141592653589793)).insert
      "math.e" (.float 2.718281828459045) }

end MachineScript.Library
