import MachineScript.Tape

/-!
Contract: which brackets of a tape belong together.

Owns: the closing bracket of an opening one and the balance of a whole tape,
both by counting the brackets that are open.

Does not own: any meaning of what stands between brackets.
-/

namespace MachineScript.Tape

/-- How many tokens stand before the bracket that closes a list, with `inner` more lists open. -/
def closeDistance : (inner : Nat) → List Token → Option Nat
  | _, [] => none
  | inner, token :: rest =>
      match token.lexeme, inner with
      | .listOpen, _ => (closeDistance (inner + 1) rest).map (· + 1)
      | .listClose, 0 => some 0
      | .listClose, inner + 1 => (closeDistance inner rest).map (· + 1)
      | .constant _, _ => (closeDistance inner rest).map (· + 1)

/-- How many tokens a list takes up, both brackets included, if the tokens start with one. -/
def listLength? : List Token → Option Nat
  | ⟨.listOpen, _⟩ :: rest => (closeDistance 0 rest).map (· + 2)
  | _ => none

/-- The position of the bracket that closes the one at `position`. -/
def matchBracket (tape : Tape) (position : Nat) : Option Nat :=
  (listLength? (tape.tokens.drop position)).map (position + · - 1)

/-- No bracket closes a list that is not open, and none stays open. -/
def balancedFrom : (depth : Nat) → List Token → Bool
  | depth, [] => depth == 0
  | depth, token :: rest =>
      match token.lexeme, depth with
      | .listOpen, _ => balancedFrom (depth + 1) rest
      | .listClose, 0 => false
      | .listClose, depth + 1 => balancedFrom depth rest
      | .constant _, _ => balancedFrom depth rest

def isBalanced (tape : Tape) : Bool :=
  balancedFrom 0 tape.tokens

end MachineScript.Tape
