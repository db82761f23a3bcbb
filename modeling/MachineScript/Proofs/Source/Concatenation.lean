import MachineScript.Proofs.Interning
import MachineScript.Proofs.Source.Reading

/-!
Contract: how a source is read that goes on in another line.

Owns:
- that no word, literal or comment of a text that is read goes on behind the
  end of its line, so that the next line is read as if it were the first;
- what is read further on: the same tokens and errors at later offsets;
- the numbers of the texts on a tape, which lead back to them whatever table
  the reading started with.

Does not own: the tokens of a single text.
-/

namespace MachineScript

/-! ## Tokens and errors further on -/

/-- A token that stands so many bytes further on. -/
def Token.shift (distance : Nat) (token : Token) : Token :=
  { token with offset := token.offset + distance }

/-- An error of which every offset lies so many bytes further on. -/
def ReadError.shift (distance : Nat) : ReadError → ReadError
  | .unterminatedString offset => .unterminatedString (offset + distance)
  | .unknownEscape escape offset => .unknownEscape escape (offset + distance)
  | .malformedNumber text offset => .malformedNumber text (offset + distance)

namespace Reader

/-- A mode whose word or literal has begun so many bytes further on. -/
def Mode.shift (distance : Nat) : Mode → Mode
  | .between => .between
  | .comment => .comment
  | .word begin collected => .word (begin + distance) collected
  | .string begin collected => .string (begin + distance) collected
  | .escape begin collected => .escape (begin + distance) collected

/-- What is read of a text that stands so many bytes further on. -/
def shiftAll (distance : Nat) (scanned : Except ReadError (List Token)) :
    Except ReadError (List Token) :=
  (scanned.map (List.map (Token.shift distance))).mapError (ReadError.shift distance)

/-- One step of the reader, so many bytes further on. -/
def shiftStep (distance : Nat) (stepped : Except ReadError (List Token × Mode)) :
    Except ReadError (List Token × Mode) :=
  (stepped.map fun taken => (taken.1.map (Token.shift distance), taken.2.shift distance)).mapError
    (ReadError.shift distance)

/-- An escape stands behind its backslash. -/
def Mode.Stands (offset : Nat) : Mode → Prop
  | .escape _ _ => 0 < offset
  | _ => True

variable {mode next : Mode} {offset distance begin : Nat} {front back : List Char}
  {collected : List Char} {tokens : List Token} {c : Char}

theorem Mode.stands_of_pos (mode : Mode) (behind : 0 < offset) : mode.Stands offset := by
  cases mode with
  | escape => exact behind
  | between | comment | word | string => trivial

theorem start_shift (distance offset : Nat) (c : Char) :
    start (offset + distance) c
      = ((start offset c).1.map (Token.shift distance), (start offset c).2.shift distance) := by
  unfold start
  split_ifs <;> rfl

theorem wordToken_shift (distance begin : Nat) (text : List Char) :
    wordToken (begin + distance) text
      = ((wordToken begin text).map (Token.shift distance)).mapError
        (ReadError.shift distance) := by
  unfold wordToken
  split
  · cases readNumber text <;> rfl
  · rfl

theorem step_shift (distance : Nat) (stands : mode.Stands offset) :
    step (mode.shift distance) (offset + distance) c = shiftStep distance (step mode offset c) := by
  cases mode with
  | between => exact congrArg Except.ok (start_shift distance offset c)
  | comment =>
      simp only [Mode.shift, step]
      split_ifs <;> rfl
  | word begin collected =>
      simp only [Mode.shift, step]
      split_ifs
      · rw [wordToken_shift, start_shift]
        cases wordToken begin collected.reverse <;> rfl
      · rfl
  | string begin collected =>
      simp only [Mode.shift, step]
      split_ifs <;> rfl
  | escape begin collected =>
      simp only [Mode.shift, step]
      cases unescape? c with
      | some meant => rfl
      | none =>
          have backslash : offset + distance - 1 = offset - 1 + distance :=
            Nat.sub_add_comm stands
          rw [backslash]
          rfl

theorem finish_shift (distance : Nat) (mode : Mode) :
    finish (mode.shift distance) = shiftAll distance (finish mode) := by
  cases mode with
  | word begin collected =>
      simp only [Mode.shift, finish]
      rw [wordToken_shift]
      cases wordToken begin collected.reverse <;> rfl
  | between | comment | string | escape => rfl

/-- A text is read further on as it is read here, with all offsets so much later. -/
theorem scan_shift (distance : Nat) (stands : mode.Stands offset) :
    scan (mode.shift distance) (offset + distance) back
      = shiftAll distance (scan mode offset back) := by
  induction back generalizing mode offset with
  | nil => exact finish_shift distance mode
  | cons c rest inductionHypothesis =>
      rw [scan, scan, step_shift distance stands]
      cases step mode offset c with
      | error problem => rfl
      | ok taken =>
          obtain ⟨own, next⟩ := taken
          have behind : 0 < offset + c.utf8Size := Nat.add_pos_right offset c.utf8Size_pos
          have later := inductionHypothesis (next.stands_of_pos behind)
          rw [Nat.add_right_comm] at later
          simp only [shiftStep, Except.map, Except.mapError, bind, Except.bind, later]
          cases scan next (offset + c.utf8Size) rest with
          | error problem => rfl
          | ok others => exact congrArg Except.ok List.map_append.symm

/-! ## The end of a line -/

/-- Where a text may end, the end of a line completes the same tokens and leaves nothing open. -/
theorem step_newline (finished : finish mode = .ok tokens) :
    step mode offset '\n' = .ok (tokens, .between) := by
  cases mode with
  | between | comment =>
      cases finished
      rfl
  | word begin collected =>
      simp only [finish] at finished
      simp only [step]
      cases worded : wordToken begin collected.reverse with
      | error problem =>
          rw [worded] at finished
          cases finished
      | ok token =>
          rw [worded] at finished
          cases finished
          rfl
  | string | escape => cases finished

/-- What follows the line of a text that is read is read as if it stood alone. -/
theorem scan_append_newline (scanned : scan mode offset front = .ok tokens) :
    scan mode offset (front ++ '\n' :: back)
      = (scan .between (offset + ((encode front).length + 1)) back).map (tokens ++ ·) := by
  induction front generalizing mode offset tokens with
  | nil => exact scan_of_step (step_newline scanned)
  | cons c rest inductionHypothesis =>
      obtain ⟨own, next, later, taken, others⟩ := exists_of_scan_cons scanned
      rw [scan_of_step taken, others] at scanned
      cases scanned
      rw [List.cons_append, scan_of_step taken, inductionHypothesis others, length_encode_cons,
        Nat.add_assoc, Nat.add_assoc]
      cases scan .between (offset + (c.utf8Size + ((encode rest).length + 1))) back with
      | error problem => rfl
      | ok others => exact congrArg Except.ok (List.append_assoc _ _ _).symm

end Reader

open Reader

/-- A source in two parts is read part by part, if the first part is read. -/
theorem Tape.lex_append_newline {front : String} {tokens : List Token} (back : String)
    (accepted : Tape.lex front = .ok tokens) :
    Tape.lex (front ++ "\n" ++ back)
      = (shiftAll (front.utf8ByteSize + 1) (Tape.lex back)).map (tokens ++ ·) := by
  have characters : (front ++ "\n" ++ back).toList = front.toList ++ '\n' :: back.toList := by
    simp
  have size : (encode front.toList).length = front.utf8ByteSize := by
    rw [← textBytes_eq, length_textBytes]
  have further := @scan_shift .between 0 back.toList (front.utf8ByteSize + 1) trivial
  unfold Tape.lex at accepted ⊢
  rw [characters, scan_append_newline accepted, size, Nat.zero_add, ← further, Nat.zero_add]
  rfl

/-! ## Texts and their numbers -/

/-- The texts on a tape have numbers in its table, which lead back to them, and numbers of the table
that the tape was read with are still those of the same texts. -/
structure Tape.NamesFrom (tape : Tape) (interner : Interner) : Prop where
  texts : ∀ token ∈ tape.tokens, ∀ text, token.nameText? = some text →
    ∃ name, tape.interner.get? text = some name ∧ tape.interner.lookup name = text
  known : ∀ text name, interner.get? text = some name → tape.interner.get? text = some name
  kept : ∀ name, name < interner.size → tape.interner.lookup name = interner.lookup name

theorem Tape.namesFrom_ofTokens (interner : Interner) (tokens : List Token) :
    (Tape.ofTokens interner tokens).NamesFrom interner where
  texts token member text named := by
    obtain ⟨name, given⟩ := interner.exists_get?_internAll
      (List.mem_filterMap.mpr ⟨token, member, named⟩)
    exact ⟨name, given, Interner.lookup_of_get? given⟩
  known _ _ := (interner.growsTo_internAll _).get?
  kept _ := (interner.growsTo_internAll _).lookup

/-- A tape with the tokens of another one behind its own, so many bytes further on. -/
def Tape.followedBy (tape : Tape) (distance : Nat) (later : Tape) : Tape :=
  ⟨tape.tokens ++ later.tokens.map (Token.shift distance), later.interner⟩

theorem Tape.ofTokens_append_shift (interner : Interner) (early late : List Token)
    (distance : Nat) :
    Tape.ofTokens interner (early ++ late.map (Token.shift distance))
      = (Tape.ofTokens interner early).followedBy distance
          (Tape.ofTokens (Tape.ofTokens interner early).interner late) := by
  have texts : (late.map (Token.shift distance)).filterMap Token.nameText?
      = late.filterMap Token.nameText? := by
    rw [List.filterMap_map]
    rfl
  unfold ofTokens followedBy
  rw [List.filterMap_append, texts, Interner.internAll_append]

/-- Reading is compositional. Where a text is read, another text in the line behind it is read with
the table of the first, to the same tokens or the same error so many bytes further on. The tokens of
a tape do not depend on the table that it is read with, and their texts are found in its own. -/
theorem Tape.read_append_newline (interner : Interner) (front back : String) {tape : Tape}
    (accepted : Tape.read interner front = .ok tape) :
    Tape.read interner (front ++ "\n" ++ back)
        = ((Tape.read tape.interner back).map
            (tape.followedBy (front.utf8ByteSize + 1))).mapError
              (ReadError.shift (front.utf8ByteSize + 1))
      ∧ (∀ other source,
          (Tape.read other source).map Tape.tokens = (Tape.read interner source).map Tape.tokens)
      ∧ ∀ source read, Tape.read interner source = .ok read → read.NamesFrom interner := by
  refine ⟨?_, ?_, ?_⟩
  · obtain ⟨tokens, lexed, rfl⟩ := exists_of_read accepted
    rw [read_eq, read_eq, lex_append_newline back lexed]
    cases Tape.lex back with
    | error problem => rfl
    | ok later => exact congrArg Except.ok (ofTokens_append_shift interner tokens later _)
  · intro other source
    rw [read_eq, read_eq]
    cases Tape.lex source <;> rfl
  · intro source read accepted
    obtain ⟨tokens, _, rfl⟩ := exists_of_read accepted
    exact namesFrom_ofTokens interner tokens

/-- A source of six bytes; its comment ends with it. -/
def Tape.endingInComment : String :=
  "é ;ü"

/-- A line behind the comment is read, or refused at the backslash of its escape. -/
theorem Tape.read_append_newline_endingInComment :
    ∃ tape, Tape.read .empty endingInComment = .ok tape
      ∧ Tape.read .empty (endingInComment ++ "\n" ++ "ü(é")
        = .ok (Tape.ofTokens .empty
            [⟨.constant (.atom "é"), 0⟩, ⟨.constant (.atom "ü"), 7⟩, ⟨.listOpen, 9⟩,
              ⟨.constant (.atom "é"), 10⟩])
      ∧ Tape.read .empty (endingInComment ++ "\n" ++ "(\"ü\\q")
        = .error (.unknownEscape 'q' 11) := by
  have accepted : Tape.read .empty endingInComment
      = .ok (Tape.ofTokens .empty [⟨.constant (.atom "é"), 0⟩]) := rfl
  obtain ⟨read, _⟩ := Tape.read_append_newline .empty endingInComment "ü(é" accepted
  obtain ⟨refused, _⟩ := Tape.read_append_newline .empty endingInComment "(\"ü\\q" accepted
  exact ⟨_, accepted, read, refused⟩

end MachineScript
