import MachineScript.Duration
import MachineScript.Number.Reading
import MachineScript.Text.Quoted

/-!
Contract: the arguments of the command line.

Owns: the options of a run with their defaults, how they are read, and what is
wrong with arguments that are refused.
-/

namespace MachineScript.CommandLine

open Text (marked)

/-- The options of a run. Time is real, or moves on by one period a tick. -/
structure RunOptions where
  maxTicks : Nat := 10000
  period : Duration := Duration.ofMillis 16
  virtualTime : Bool := false
  maxCallDepth : Option Nat := none
deriving DecidableEq, Repr

/-- What is wrong with the arguments of a run. -/
inductive UsageError where
  | expectedNumber (flag : String)
  | unknownOption (flag : String)
  | unexpectedArgument (text : String)
  | missingPath
deriving DecidableEq, Repr

def UsageError.message : UsageError → String
  | .expectedNumber flag => marked flag ++ " expects a non-negative number"
  | .unknownOption flag => "unknown option " ++ marked flag
  | .unexpectedArgument text => "unexpected argument " ++ marked text
  | .missingPath => "missing file path"

/-- The options that take a number. -/
inductive NumberOption where
  | ticks
  | tickMillis
  | maxCallDepth
deriving DecidableEq, Repr

/-- The option of a flag, if it takes a number. -/
def NumberOption.ofFlag? : String → Option NumberOption
  | "--ticks" => some .ticks
  | "--tick-ms" => some .tickMillis
  | "--max-call-depth" => some .maxCallDepth
  | _ => none

def RunOptions.withNumber (options : RunOptions) (option : NumberOption) (n : Nat) : RunOptions :=
  match option with
  | .ticks => { options with maxTicks := n }
  | .tickMillis => { options with period := Duration.ofMillis n }
  | .maxCallDepth => { options with maxCallDepth := some n }

/-- Read arguments from the left, given the path and the options found so far. -/
def readRunArguments (path : Option String) (options : RunOptions) :
    List String → Except UsageError (String × RunOptions)
  | [] =>
      match path with
      | some file => .ok (file, options)
      | none => .error .missingPath
  | argument :: rest =>
      match NumberOption.ofFlag? argument with
      | some option =>
          match rest with
          | [] => .error (.expectedNumber argument)
          | text :: later =>
              match Number.readNat64 text.toList with
              | some n => readRunArguments path (options.withNumber option n) later
              | none => .error (.expectedNumber argument)
      | none =>
          if argument = "--virtual" then
            readRunArguments path { options with virtualTime := true } rest
          else if argument.toList.head? = some '-' then .error (.unknownOption argument)
          else match path with
            | none => readRunArguments (some argument) options rest
            | some _ => .error (.unexpectedArgument argument)

def runArguments (arguments : List String) : Except UsageError (String × RunOptions) :=
  readRunArguments none {} arguments

end MachineScript.CommandLine
