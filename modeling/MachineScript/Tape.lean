import MachineScript.Interner
import MachineScript.Token

/-!
Contract: the flat sequence of tokens from which programs are compiled.

Owns: the tape with the table of the names on it, and the pair of brackets
that makes the forms of a program the body of one list.
-/

namespace MachineScript

/-- Tokens in source order and the table of the texts of its atoms and strings. -/
structure Tape where
  tokens : List Token
  interner : Interner
deriving DecidableEq

namespace Tape

/-- The tape of given tokens; their texts are interned in order after those already in a table. -/
def ofTokens (interner : Interner) (tokens : List Token) : Tape :=
  ⟨tokens, interner.internAll (tokens.filterMap Token.nameText?)⟩

def size (tape : Tape) : Nat :=
  tape.tokens.length

/-- Tokens between an opening bracket at offset zero and a closing one at the last token. -/
def encloseTokens (tokens : List Token) : List Token :=
  let last := (tokens.getLast?.map Token.offset).getD 0
  ⟨.listOpen, 0⟩ :: tokens ++ [⟨.listClose, last⟩]

def enclosed (tape : Tape) : Tape :=
  { tape with tokens := encloseTokens tape.tokens }

end Tape

end MachineScript
