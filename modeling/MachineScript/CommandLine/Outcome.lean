import MachineScript.CommandLine.Session
import MachineScript.Program.Outline
import MachineScript.Tape.Reader

/-!
Contract: what each command of the command line answers.

Owns: the choice of the command, the texts on both outputs, the exit code, and
the wording of files that cannot be read and of sources that are no programs.

Does not own: files and real time; they are given as functions.
-/

namespace MachineScript.CommandLine

open Text (marked)

/-- What a command leaves: its exit code and what it wrote. -/
structure Outcome where
  code : Nat
  stdout : String := ""
  stderr : String := ""
deriving DecidableEq, Repr

/-- Lines, each with its end. -/
def linesText (lines : List String) : String :=
  String.join (lines.map (· ++ "\n"))

/-- Why the text of a file is not there. -/
inductive FileError where
  | notFound
  | denied
  | isDirectory
  | notText
  | other (reason : String)
deriving DecidableEq, Repr

def FileError.message : FileError → String
  | .notFound => "No such file or directory (os error 2)"
  | .denied => "Permission denied (os error 13)"
  | .isDirectory => "Is a directory (os error 21)"
  | .notText => "stream did not contain valid UTF-8"
  | .other reason => reason

def decodeFile (bytes : ByteArray) : Except FileError String :=
  match String.fromUTF8? bytes with
  | some text => .ok text
  | none => .error .notText

/-- Why a source is no program. -/
inductive SourceError where
  | read (error : ReadError)
  | compile (error : CompileError)
deriving DecidableEq, Repr

def SourceError.message : SourceError → String
  | .read error => "read error: " ++ error.message
  | .compile error => "compile error: " ++ error.message

def compileSource (source : String) : Except SourceError Compilation :=
  match Tape.read Interner.empty source with
  | .error error => .error (.read error)
  | .ok tape => (tape.compile {}).mapError .compile

/-- The program of a file with its warnings, or the failed command. -/
def compileFile (path : String) (contents : Except FileError String) :
    Except Outcome Compilation :=
  let failed (reason : String) : Outcome := { code := 1, stderr := linesText ["error: " ++ reason] }
  match contents with
  | .error error => .error (failed ("cannot read " ++ marked path ++ ": " ++ error.message))
  | .ok source => (compileSource source).mapError fun error => failed error.message

/-- The warnings about a program, a line for each. -/
def warningLines (compilation : Compilation) : List String :=
  compilation.warnings.map fun warning => "warning: " ++ warning.message

def usageLines : List String :=
  ["Landru actor language",
    "",
    "Usage: landru <command> [options]",
    "",
    "Commands:",
    "  run <file>      Compile and run a program",
    "  check <file>    Compile only and report warnings",
    "  dump <file>     Print the compiled exemplar tree",
    "  help            Show this help message",
    "  version         Show version information",
    "",
    "Run options:",
    "  --ticks <n>           Stop after n ticks (default 10000)",
    "  --tick-ms <ms>        Tick period in milliseconds (default 16)",
    "  --virtual             Advance a virtual clock instead of sleeping",
    "  --max-call-depth <n>  Limit nested function calls (default 256)",
    "",
    "Set RUST_LOG (e.g. RUST_LOG=landru_eval=debug) to trace the scheduler."]

/-- A command with its arguments read. Commands that need no file are finished already. -/
inductive Command where
  | finished (outcome : Outcome)
  | check (path : String)
  | dump (path : String)
  | run (path : String) (options : RunOptions)
deriving DecidableEq, Repr

namespace Command

def withoutPath (command : String) : Command :=
  .finished { code := 1, stderr := linesText ["Usage: landru " ++ command ++ " <file.landru>"] }

def ofArguments : List String → Command
  | [] => .finished { code := 0, stdout := linesText usageLines }
  | command :: rest =>
      if command = "check" then
        match rest with
        | path :: _ => .check path
        | [] => withoutPath "check"
      else if command = "dump" then
        match rest with
        | path :: _ => .dump path
        | [] => withoutPath "dump"
      else if command = "run" then
        match runArguments rest with
        | .ok (path, options) => .run path options
        | .error error =>
            .finished
              { code := 1
                stderr := linesText ["error: " ++ error.message,
                  "Usage: landru run <file.landru> [options]"] }
      else if command = "help" ∨ command = "--help" ∨ command = "-h" then
        .finished { code := 0, stdout := linesText usageLines }
      else if command = "version" ∨ command = "--version" ∨ command = "-V" then
        .finished { code := 0, stdout := linesText ["Landru 0.1.0"] }
      else
        .finished
          { code := 1
            stdout := linesText usageLines
            stderr := linesText ["Unknown command: " ++ command, ""] }

end Command

/-- What `check` answers for a file. -/
def checkOutcome (path : String) (contents : Except FileError String) : Outcome :=
  match compileFile path contents with
  | .error outcome => outcome
  | .ok compilation =>
      let warnings := warningLines compilation
      { code := 0
        stdout := linesText [path ++ s!": ok ({warnings.length} warning(s))"]
        stderr := linesText warnings }

/-- What `dump` answers for a file. -/
def dumpOutcome (path : String) (contents : Except FileError String) : Outcome :=
  match compileFile path contents with
  | .error outcome => outcome
  | .ok compilation => { code := 0, stdout := compilation.program.outline }

def closingLines (summary : RunSummary) : List String :=
  describeFaults summary.faults
    ++ if summary.halted then [] else [s!"stopped after {summary.ticks} tick(s) without halting"]

/-- The exit code of a run: a fault makes it fail, used up ticks do not. -/
def runCode (summary : RunSummary) : Nat :=
  if summary.faults.isEmpty then 0 else 1

/-- What `run` answers for a file, given the times of the ticks. -/
def runOutcome (path : String) (options : RunOptions) (times : Nat → Duration)
    (contents : Except FileError String) : Outcome :=
  match compileFile path contents with
  | .error outcome => outcome
  | .ok compilation =>
      let session := runProgram options times compilation.program
      { code := runCode session.summary
        stdout := session.engine.output
        stderr := linesText (warningLines compilation ++ closingLines session.summary) }

/-- What a command answers, given the files and the times of the ticks of a run. -/
def Command.outcome (files : String → Except FileError String)
    (times : RunOptions → Nat → Duration) : Command → Outcome
  | .finished outcome => outcome
  | .check path => checkOutcome path (files path)
  | .dump path => dumpOutcome path (files path)
  | .run path options => runOutcome path options (times options) (files path)

end MachineScript.CommandLine
