import MachineScript.Tape

/-!
Contract: what a message says about a place on a tape.

Owns: the position, the byte offset and kind of the token there, and the texts
of that token and the next ones.
-/

namespace MachineScript

/-- A place on a tape, as messages show it. -/
structure TokenContext where
  position : Nat
  offset : Option Nat
  found : String
  tokens : List String
deriving DecidableEq, Repr

namespace TokenContext

def tokensAhead : Nat := 7

/-- The context of a place, given the tokens from there on. -/
def ofRest (position : Nat) : List Token → TokenContext
  | [] => ⟨position, none, "end of input", []⟩
  | token :: rest =>
      { position := position
        offset := some token.offset
        found := token.lexeme.describe
        tokens := ((token :: rest).take (tokensAhead + 1)).map (·.lexeme.display) }

def capture (tape : Tape) (position : Nat) : TokenContext :=
  ofRest position (tape.tokens.drop position)

def message (context : TokenContext) : String :=
  let place := match context.offset with
    | some offset => s!"at byte {offset}: found " ++ context.found
    | none => "at " ++ context.found
  if context.tokens.isEmpty then place
  else place ++ " near `" ++ " ".intercalate context.tokens ++ "`"

end TokenContext

end MachineScript
