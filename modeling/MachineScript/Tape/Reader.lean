import MachineScript.Number.Reading
import MachineScript.Tape

/-!
Contract: the tape of a source text.

Owns:
- the split of a text into brackets, string literals, words, comments and
  blanks, one character at a time;
- the escapes of string literals, and which words are numbers;
- byte offsets, and the errors that stop reading.

Does not own: brackets that match, the meaning of words, and the size of a
source. A source of more than 2^32 - 1 bytes is refused before its first
character is read, so that every offset fits into 32 bits. That refusal stands
before the reader and is no case of `ReadError`: what is made of a source here,
and what is proved about it, is what becomes of a source within the bound.

The reader is a machine over characters, so what it makes of a text depends on
the part before only through its mode and the offset.
-/

namespace MachineScript

/-- Why a source text has no tape. Offsets count bytes. -/
inductive ReadError where
  | unterminatedString (offset : Nat)
  | unknownEscape (escape : Char) (offset : Nat)
  | malformedNumber (text : String) (offset : Nat)
deriving DecidableEq, Repr

def ReadError.message : ReadError → String
  | .unterminatedString offset => s!"unterminated string starting at byte {offset}"
  | .unknownEscape escape offset =>
      "unknown escape `\\" ++ String.singleton escape ++ s!"` at byte {offset}"
  | .malformedNumber text offset => "malformed number `" ++ text ++ s!"` at byte {offset}"

namespace Reader

/-- What the reader is inside of. Texts are collected backwards; `start` is the offset of the
first character of the word or of the opening quote. -/
inductive Mode where
  | between
  | comment
  | word (start : Nat) (collected : List Char)
  | string (start : Nat) (collected : List Char)
  | escape (start : Nat) (collected : List Char)
deriving DecidableEq, Repr

def isBlank (c : Char) : Bool :=
  c = ' ' || c = '\t' || c = '\r' || c = '\n'

def isDelimiter (c : Char) : Bool :=
  isBlank c || c = '(' || c = ')' || c = '"' || c = ';'

/-- A word is a number when a digit stands first or right after a sign. -/
def looksNumeric (text : List Char) : Bool :=
  match (Number.splitSign text).2 with
  | [] => false
  | c :: _ => c.isDigit

/-- The number that a word stands for: a float when it has a point or an exponent mark. -/
def readNumber (text : List Char) : Option Constant :=
  if text.any fun c => c = '.' || c = 'e' || c = 'E' then
    (Number.readFloat text).map .float
  else
    (Number.readInt64 text).map .int

def wordToken (start : Nat) (text : List Char) : Except ReadError Token :=
  if looksNumeric text then
    match readNumber text with
    | some value => .ok ⟨.constant value, start⟩
    | none => .error (.malformedNumber (String.ofList text) start)
  else
    .ok ⟨.constant (.atom (String.ofList text)), start⟩

def unescape? : Char → Option Char
  | '"' => some '"'
  | '\\' => some '\\'
  | 'n' => some '\n'
  | 't' => some '\t'
  | _ => none

def start (offset : Nat) (c : Char) : List Token × Mode :=
  if isBlank c then ([], .between)
  else if c = ';' then ([], .comment)
  else if c = '(' then ([⟨.listOpen, offset⟩], .between)
  else if c = ')' then ([⟨.listClose, offset⟩], .between)
  else if c = '"' then ([], .string offset [])
  else ([], .word offset [c])

/-- One character: the tokens that it completes and the mode behind it. -/
def step (mode : Mode) (offset : Nat) (c : Char) : Except ReadError (List Token × Mode) :=
  match mode with
  | .between => .ok (start offset c)
  | .comment => .ok ([], if c = '\n' then .between else .comment)
  | .word begin collected =>
      if isDelimiter c then do
        let token ← wordToken begin collected.reverse
        let (tokens, next) := start offset c
        .ok (token :: tokens, next)
      else .ok ([], .word begin (c :: collected))
  | .string begin collected =>
      if c = '"' then
        .ok ([⟨.constant (.str (String.ofList collected.reverse)), begin⟩], .between)
      else if c = '\\' then .ok ([], .escape begin collected)
      else .ok ([], .string begin (c :: collected))
  | .escape begin collected =>
      match unescape? c with
      | some meant => .ok ([], .string begin (meant :: collected))
      | none => .error (.unknownEscape c (offset - 1))

def finish : Mode → Except ReadError (List Token)
  | .between => .ok []
  | .comment => .ok []
  | .word begin collected => do
      let token ← wordToken begin collected.reverse
      .ok [token]
  | .string begin _ => .error (.unterminatedString begin)
  | .escape begin _ => .error (.unterminatedString begin)

/-- The tokens of a text that starts at `offset` in `mode`. -/
def scan (mode : Mode) (offset : Nat) : List Char → Except ReadError (List Token)
  | [] => finish mode
  | c :: rest => do
      let (tokens, next) ← step mode offset c
      let later ← scan next (offset + c.utf8Size) rest
      .ok (tokens ++ later)

end Reader

def Tape.lex (source : String) : Except ReadError (List Token) :=
  Reader.scan .between 0 source.toList

/-- The tape of a source text, with its names in a given table. -/
def Tape.read (interner : Interner) (source : String) : Except ReadError Tape := do
  let tokens ← Tape.lex source
  .ok (Tape.ofTokens interner tokens)

end MachineScript
