import MachineScript.Number.FloatText
import MachineScript.Text.Quoted

/-!
Contract: the tokens of which a tape consists.

Owns: constants, brackets, the offset that a token carries, and the text in
which each is shown.

Does not own: how tokens are read from a source, and the width of an offset. The
program keeps offsets in 32 bits, which those of a source that it reads fit into.
-/

namespace MachineScript

/-- A literal value. An atom is a name that is resolved when it is evaluated. -/
inductive Constant where
  | atom (text : String)
  | str (text : String)
  | int (value : Int64)
  | float (value : Float)
deriving DecidableEq

def Constant.display : Constant → String
  | .atom text => text
  | .str text => Text.quoted text
  | .int value => String.ofList (Number.intText value.toInt)
  | .float value => Number.floatText value

/-- What a token is: a constant or a bracket. -/
inductive Lexeme where
  | constant (value : Constant)
  | listOpen
  | listClose
deriving DecidableEq

def Lexeme.describe : Lexeme → String
  | .constant (.atom _) => "atom"
  | .constant (.str _) => "string"
  | .constant (.int _) => "integer"
  | .constant (.float _) => "float"
  | .listOpen => "list-open"
  | .listClose => "list-close"

def Lexeme.display : Lexeme → String
  | .constant value => value.display
  | .listOpen => "("
  | .listClose => ")"

/-- A token with the byte offset at which it starts. -/
structure Token where
  lexeme : Lexeme
  offset : Nat
deriving DecidableEq

/-- The text that a token brings into the table of names: that of an atom or a string. -/
def Token.nameText? (token : Token) : Option String :=
  match token.lexeme with
  | .constant (.atom text) => some text
  | .constant (.str text) => some text
  | _ => none

end MachineScript
