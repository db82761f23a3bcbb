import MachineScript.Keyword
import MachineScript.Tape.Context
import MachineScript.Text.Quoted

/-!
Contract: why a tape is no program.

Owns: the causes with their wording, and the error, which adds the place on
the tape.
-/

namespace MachineScript

open Text (marked)

/-- What is wrong with a tape. -/
inductive CompileCause where
  | expectedListOpen
  | unexpectedEnd (construct : Construct)
  | expectedKeyword (expected : Keyword)
  | expectedName (keyword : Keyword)
  | keywordAsName (keyword : Keyword)
  | expectedConditionArgument
  | expectedHandlerBody
  | expectedParameterList
  | expectedParameter
  | expectedFormHead
  | unexpectedToken (found : String) (construct : Construct)
  | notAllowedHere (keyword : Keyword) (container : Construct)
  | notAllowedInPureFunction (keyword : Keyword)
  | unknownLibrary (name : String)
  | malformedForm (keyword : Keyword)
  | notProperlyClosed (construct : Construct)
  | duplicateDefinition (name : String) (container : Construct)
  | trailingTokens
deriving DecidableEq, Repr

def CompileCause.message : CompileCause → String
  | .expectedListOpen => "expected " ++ marked "("
  | .unexpectedEnd construct => "unexpected end of input inside " ++ construct.word
  | .expectedKeyword expected => "expected keyword " ++ marked expected.text
  | .expectedName keyword => "expected a name after " ++ marked keyword.text
  | .keywordAsName keyword => "keyword " ++ marked keyword.text ++ " cannot be used as a name"
  | .expectedConditionArgument => "expected an event condition argument"
  | .expectedHandlerBody => "expected a handler body after the event condition"
  | .expectedParameterList => "expected a parameter list"
  | .expectedParameter => "expected a parameter name"
  | .expectedFormHead => "expected a form name"
  | .unexpectedToken found construct =>
      "unexpected " ++ found ++ " in " ++ construct.word ++ " body"
  | .notAllowedHere keyword container =>
      marked keyword.text ++ " is not allowed in " ++ container.word
  | .notAllowedInPureFunction keyword =>
      marked keyword.text ++ " is not allowed in a pure function"
  | .unknownLibrary name => "unknown library " ++ marked name
  | .malformedForm keyword => "malformed " ++ marked keyword.text ++ " form"
  | .notProperlyClosed construct => construct.word ++ " not properly closed"
  | .duplicateDefinition name container =>
      "duplicate definition of " ++ marked name ++ " in " ++ container.word
  | .trailingTokens => "unexpected tokens after the end of the program"

/-- A cause with its place on the enclosed tape. -/
structure CompileError where
  cause : CompileCause
  context : TokenContext
deriving DecidableEq, Repr

def CompileError.message (error : CompileError) : String :=
  error.cause.message ++ " (" ++ error.context.message ++ ")"

end MachineScript
