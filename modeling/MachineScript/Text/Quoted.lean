import MachineScript.Text.CharacterClass

/-!
Contract: the quoted form in which string literals are shown, and the marks that
set names off inside messages.

Owns:
- the escape of one character: a backslash and a letter for the quote, the
  backslash, newline, tab, carriage return and NUL; the code point in braces
  for a character that extends the one before it or shows nothing;
- the quoted text, which is the escapes of all characters between two quotes;
- the marked text, which is as it is.

Does not own: the reading of string literals, which knows fewer escapes.
-/

namespace MachineScript.Text

/-- The digits of a number in base sixteen, lower case, without padding. -/
def hexDigits (n : Nat) : List Char :=
  Nat.toDigits 16 n

def escapeChar (c : Char) : List Char :=
  if c = '"' then ['\\', '"']
  else if c = '\\' then ['\\', '\\']
  else if c = '\n' then ['\\', 'n']
  else if c = '\t' then ['\\', 't']
  else if c = '\r' then ['\\', 'r']
  else if c.toNat = 0 then ['\\', '0']
  else if isUnprintable c || isExtender c then
    ['\\', 'u', '\x7b'] ++ hexDigits c.toNat ++ ['\x7d']
  else [c]

/-- A text between quotes, every character in its written form. -/
def quoted (text : String) : String :=
  String.ofList ('"' :: text.toList.flatMap escapeChar ++ ['"'])

def marked (text : String) : String :=
  "`" ++ text ++ "`"

end MachineScript.Text
