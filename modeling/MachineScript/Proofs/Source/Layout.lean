import Mathlib.Data.List.Chain
import Mathlib.Data.List.Flatten
import MachineScript.Proofs.Source.Bytes
import MachineScript.Tape.Reader

/-!
Contract: how a source is laid out around its tokens.

Owns:
- the parts of a source: blanks and comments, brackets, string literals and
  words, each with its bytes and with the token that it is;
- layouts, which put parts one after another; a word ends where the next
  delimiter stands;
- that in every layout offsets increase, each byte belongs to one part, and
  all cuts fall between characters.

Does not own: how a layout is found.
-/

namespace MachineScript.Reader

/-! ## Words -/

/-- A word starts like a number: with a digit, or with a sign and a digit. -/
def StartsAsNumber (text : List Char) : Prop :=
  ∃ sign digit rest, sign ∈ [[], ['+'], ['-']] ∧ digit.isDigit = true
    ∧ text = sign ++ digit :: rest

/-- A point or an exponent mark. -/
def floatMarks : List Char :=
  ['.', 'e', 'E']

/-- The constant that a word stands for. -/
inductive Reads (text : String) : Constant → Prop where
  | int {value : Int64} (starts : StartsAsNumber text.toList)
      (whole : ∀ c ∈ text.toList, c ∉ floatMarks)
      (parsed : Number.readInt64 text.toList = some value) : Reads text (.int value)
  | float {value : Float} (starts : StartsAsNumber text.toList)
      (broken : ∃ c ∈ text.toList, c ∈ floatMarks)
      (parsed : Number.readFloat text.toList = some value) : Reads text (.float value)
  | atom (named : ¬StartsAsNumber text.toList) : Reads text (.atom text)

/-! ## String literals -/

/-- One character of a string literal, as it is written there. -/
inductive Mark where
  | plain (c : Char) (ordinary : c ∉ ['"', '\\'])
  | quote
  | backslash
  | newline
  | tab

namespace Mark

def spelling : Mark → List Char
  | .plain c _ => [c]
  | .quote => ['\\', '"']
  | .backslash => ['\\', '\\']
  | .newline => ['\\', 'n']
  | .tab => ['\\', 't']

/-- The character that a mark stands for. -/
def meant : Mark → Char
  | .plain c _ => c
  | .quote => '"'
  | .backslash => '\\'
  | .newline => '\n'
  | .tab => '\t'

end Mark

/-! ## Parts -/

def blanks : List Char :=
  [' ', '\t', '\r', '\n']

/-- The characters at which a word ends. -/
def delimiters : List Char :=
  blanks ++ ['(', ')', '"', ';']

def delimiterBytes : List UInt8 :=
  delimiters.map Char.toUInt8

/-- A part of a source. A comment ends with its line; the last one may lack the end of the line. -/
inductive Part where
  | blank (c : Char) (isBlank : c ∈ blanks)
  | comment (text : List UInt8) (oneLine : '\n'.toUInt8 ∉ text)
  | lastComment (text : List UInt8) (oneLine : '\n'.toUInt8 ∉ text)
  | listOpen
  | listClose
  | literal (marks : List Mark)
  | word (text : String) (constant : Constant) (nonempty : text ≠ "")
      (whole : ∀ byte ∈ textBytes text, byte ∉ delimiterBytes) (reads : Reads text constant)

namespace Part

def bytes : Part → List UInt8
  | .blank c _ => encode [c]
  | .comment text _ => ';'.toUInt8 :: text ++ ['\n'.toUInt8]
  | .lastComment text _ => ';'.toUInt8 :: text
  | .listOpen => encode ['(']
  | .listClose => encode [')']
  | .literal marks => encode ('"' :: marks.flatMap Mark.spelling ++ ['"'])
  | .word text _ _ _ _ => textBytes text

/-- What a part is on the tape; blanks and comments only separate. -/
def lexeme? : Part → Option Lexeme
  | .blank _ _ | .comment _ _ | .lastComment _ _ => none
  | .listOpen => some .listOpen
  | .listClose => some .listClose
  | .literal marks => some (.constant (.str (String.ofList (marks.map Mark.meant))))
  | .word _ constant _ _ _ => some (.constant constant)

def IsWord : Part → Prop
  | .word _ _ _ _ _ => True
  | _ => False

/-- A word ends at a delimiter, and nothing follows a comment that does not end. -/
def MayPrecede : Part → Part → Prop
  | .word _ _ _ _ _, .word _ _ _ _ _ => False
  | .lastComment _ _, _ => False
  | _, _ => True

end Part

/-- The bytes of parts, one after another. -/
def bytesOf (parts : List Part) : List UInt8 :=
  parts.flatMap Part.bytes

/-- The token of a part at an offset, if it is one. -/
def Part.tokens (offset : Nat) (part : Part) : List Token :=
  (part.lexeme?.map fun lexeme => ⟨lexeme, offset⟩).toList

/-- The tokens of parts, the first of which stands at an offset. -/
def tokensFrom (offset : Nat) : List Part → List Token
  | [] => []
  | part :: rest => part.tokens offset ++ tokensFrom (offset + part.bytes.length) rest

/-- A source is made up of parts, and these are the tokens among them. -/
structure Layout (source : String) (parts : List Part) (tokens : List Token) : Prop where
  bytes : textBytes source = bytesOf parts
  adjacent : parts.IsChain Part.MayPrecede
  tokens : tokens = tokensFrom 0 parts

variable {part : Part} {parts front back : List Part} {offset : Nat} {chars : List Char}
  {rest : List UInt8} {c : Char}

/-! ## Offsets -/

theorem bytesOf_cons (part : Part) (parts : List Part) :
    bytesOf (part :: parts) = part.bytes ++ bytesOf parts :=
  List.flatMap_cons

theorem bytesOf_append (front back : List Part) :
    bytesOf (front ++ back) = bytesOf front ++ bytesOf back :=
  List.flatMap_append

theorem Part.bytes_pos (part : Part) : 0 < part.bytes.length := by
  apply List.length_pos_iff.mpr
  cases part with
  | blank | listOpen | listClose | literal => exact encode_ne_nil (List.cons_ne_nil _ _)
  | comment | lastComment => exact List.cons_ne_nil _ _
  | word text _ nonempty =>
      change textBytes text ≠ []
      rw [textBytes_eq]
      exact encode_ne_nil (mt String.toList_eq_nil_iff.mp nonempty)

theorem Part.mem_tokens_iff {token : Token} :
    token ∈ part.tokens offset ↔
      ∃ lexeme, part.lexeme? = some lexeme ∧ token = ⟨lexeme, offset⟩ := by
  unfold Part.tokens
  cases part.lexeme? <;> simp

/-- Tokens are the parts that are lexemes, each at the byte where it starts. -/
theorem mem_tokensFrom_iff {token : Token} :
    token ∈ tokensFrom offset parts ↔ ∃ front part back lexeme, parts = front ++ part :: back
      ∧ part.lexeme? = some lexeme ∧ token = ⟨lexeme, offset + (bytesOf front).length⟩ := by
  induction parts generalizing offset with
  | nil => simp [tokensFrom]
  | cons first rest inductionHypothesis =>
      unfold tokensFrom
      rw [List.mem_append, Part.mem_tokens_iff, inductionHypothesis]
      constructor
      · rintro (⟨lexeme, named, rfl⟩ | ⟨front, part, back, lexeme, rfl, named, rfl⟩)
        · exact ⟨[], first, rest, lexeme, rfl, named, rfl⟩
        · refine ⟨first :: front, part, back, lexeme, rfl, named, ?_⟩
          rw [bytesOf_cons, List.length_append, Nat.add_assoc]
      · rintro ⟨_ | ⟨other, front⟩, part, back, lexeme, split, named, rfl⟩
        · obtain ⟨rfl, rfl⟩ := List.cons.inj split
          exact .inl ⟨lexeme, named, rfl⟩
        · obtain ⟨rfl, rfl⟩ := List.cons.inj split
          refine .inr ⟨front, part, back, lexeme, rfl, named, ?_⟩
          rw [bytesOf_cons, List.length_append, Nat.add_assoc]

theorem pairwise_tokensFrom (offset : Nat) (parts : List Part) :
    (tokensFrom offset parts).Pairwise fun first later => first.offset < later.offset := by
  induction parts generalizing offset with
  | nil => exact .nil
  | cons part rest inductionHypothesis =>
      refine List.pairwise_append.mpr ⟨?_, inductionHypothesis _, ?_⟩
      · unfold Part.tokens
        cases part.lexeme? <;> simp
      · intro first isFirst later isLater
        obtain ⟨_, _, rfl⟩ := Part.mem_tokens_iff.mp isFirst
        obtain ⟨_, _, _, _, _, _, rfl⟩ := mem_tokensFrom_iff.mp isLater
        have nonempty := part.bytes_pos
        change offset < offset + part.bytes.length + _
        omega

/-! ## Delimiters -/

theorem isAscii_of_mem_delimiters (member : c ∈ delimiters) : IsAscii c := by
  have all : delimiters.all (fun c => decide (IsAscii c)) = true := rfl
  exact of_decide_eq_true (List.all_eq_true.mp all c member)

theorem bytes_blank (isBlank : c ∈ blanks) : (Part.blank c isBlank).bytes = [c.toUInt8] := by
  have ascii := isAscii_of_mem_delimiters (List.mem_append_left _ isBlank)
  rw [Part.bytes, encode_cons, encodeChar_of_ascii ascii]
  rfl

/-- Every part but a word starts with a delimiter. -/
theorem Part.exists_head_of_not_isWord (other : ¬part.IsWord) :
    ∃ byte ∈ delimiterBytes, ∃ rest, part.bytes = byte :: rest := by
  cases part with
  | blank c isBlank =>
      exact ⟨c.toUInt8, List.mem_map_of_mem (List.mem_append_left _ isBlank), [], bytes_blank _⟩
  | comment | lastComment => exact ⟨';'.toUInt8, by decide, _, rfl⟩
  | listOpen => exact ⟨'('.toUInt8, by decide, _, rfl⟩
  | listClose => exact ⟨')'.toUInt8, by decide, _, rfl⟩
  | literal => exact ⟨'"'.toUInt8, by decide, _, rfl⟩
  | word => exact absurd trivial other

/-- Every part that another may follow ends with a delimiter, unless it is a word. -/
theorem Part.exists_last_of_mayPrecede {next : Part} (other : ¬part.IsWord)
    (precedes : part.MayPrecede next) :
    ∃ byte ∈ delimiterBytes, ∃ rest, part.bytes = rest ++ [byte] := by
  cases part with
  | blank c isBlank =>
      exact ⟨c.toUInt8, List.mem_map_of_mem (List.mem_append_left _ isBlank), [], bytes_blank _⟩
  | comment => exact ⟨'\n'.toUInt8, by decide, _, rfl⟩
  | lastComment => exact absurd precedes id
  | listOpen => exact ⟨'('.toUInt8, by decide, [], rfl⟩
  | listClose => exact ⟨')'.toUInt8, by decide, [], rfl⟩
  | literal marks => exact ⟨'"'.toUInt8, by decide, _, encode_append _ ['"']⟩
  | word => exact absurd trivial other

theorem Part.MayPrecede.not_isWord {next : Part} (precedes : part.MayPrecede next)
    (isWord : part.IsWord) : ¬next.IsWord := by
  intro alsoWord
  cases part with
  | word =>
      cases next with
      | word => exact precedes
      | _ => exact alsoWord
  | _ => exact isWord

/-- A delimiter stands behind a word, if anything does. -/
theorem head_delimits (adjacent : (part :: back).IsChain Part.MayPrecede) (isWord : part.IsWord) :
    ∀ byte ∈ (bytesOf back).head?, byte ∈ delimiterBytes := by
  cases back with
  | nil => exact fun byte absent => absurd absent (Option.not_mem_none byte)
  | cons next others =>
      have precedes := (List.isChain_cons_cons.mp adjacent).1
      obtain ⟨first, delimits, rest, bytes⟩ :=
        Part.exists_head_of_not_isWord (precedes.not_isWord isWord)
      rw [bytesOf_cons, bytes]
      rintro _ ⟨⟩
      exact delimits

/-- A delimiter stands before a word, if anything does. -/
theorem last_delimits (adjacent : (front ++ part :: back).IsChain Part.MayPrecede)
    (isWord : part.IsWord) : ∀ byte ∈ (bytesOf front).getLast?, byte ∈ delimiterBytes := by
  rcases List.eq_nil_or_concat front with rfl | ⟨others, last, rfl⟩
  · exact fun byte absent => absurd absent (Option.not_mem_none byte)
  · rw [List.concat_eq_append, List.append_assoc] at adjacent
    have precedes : last.MayPrecede part := (List.isChain_append_cons_cons.mp adjacent).2.1
    obtain ⟨byte, delimits, rest, bytes⟩ :=
      Part.exists_last_of_mayPrecede (fun alsoWord => precedes.not_isWord alsoWord isWord) precedes
    rw [List.concat_eq_append, bytesOf_append, bytesOf, bytesOf, List.flatMap_singleton, bytes,
      ← List.append_assoc, List.getLast?_concat]
    rintro _ ⟨⟩
    exact delimits

/-! ## Bytes -/

/-- The byte at an index is one of the part between two others. -/
structure HoldsByte (parts : List Part) (index : Nat) (cut : List Part × Part × List Part) :
    Prop where
  parts : parts = cut.1 ++ cut.2.1 :: cut.2.2
  first : (bytesOf cut.1).length ≤ index
  last : index < (bytesOf cut.1).length + cut.2.1.bytes.length

/-- Each byte is one of just one part. -/
theorem existsUnique_holdsByte {index : Nat} (inside : index < (bytesOf parts).length) :
    ∃! cut, HoldsByte parts index cut := by
  induction parts generalizing index with
  | nil => exact absurd inside (Nat.not_lt_zero _)
  | cons part rest inductionHypothesis =>
      rw [bytesOf_cons, List.length_append] at inside
      by_cases here : index < part.bytes.length
      · refine ⟨([], part, rest), ⟨rfl, Nat.zero_le _, by simpa [bytesOf] using here⟩, ?_⟩
        rintro ⟨_ | ⟨other, front⟩, last, back⟩ ⟨split, first, _⟩
        · obtain ⟨rfl, rfl⟩ := List.cons.inj split
          rfl
        · obtain ⟨rfl, _⟩ := List.cons.inj split
          simp only [bytesOf_cons, List.length_append] at first
          omega
      · obtain ⟨⟨front, last, back⟩, ⟨rfl, first, last⟩, unique⟩ :=
          @inductionHypothesis (index - part.bytes.length) (by omega)
        refine ⟨(part :: front, _, back), ⟨rfl, ?_, ?_⟩, ?_⟩
        · simp only [bytesOf_cons, List.length_append] at first ⊢
          omega
        · simp only [bytesOf_cons, List.length_append] at last ⊢
          omega
        · rintro ⟨_ | ⟨other, early⟩, later, late⟩ ⟨split, lower, upper⟩
          · obtain ⟨rfl, _⟩ := List.cons.inj split
            simp only [bytesOf, List.flatMap_nil, List.length_nil] at upper
            omega
          · obtain ⟨rfl, same⟩ := List.cons.inj split
            simp only [bytesOf_cons, List.length_append] at lower upper
            have cut := unique (early, later, late) ⟨same, by simp only; omega, by simp only; omega⟩
            simp only [Prod.mk.injEq] at cut ⊢
            exact ⟨congrArg _ cut.1, cut.2⟩

/-! ## Characters -/

/-- Where the bytes of characters start with a part, the part ends between characters. -/
theorem Part.exists_of_encode_eq (bytes : encode chars = part.bytes ++ rest)
    (ends : ∀ text oneLine, part = .lastComment text oneLine → rest = []) :
    ∃ early late, chars = early ++ late ∧ encode early = part.bytes ∧ encode late = rest := by
  have spelled : ∀ {early : List Char}, part.bytes = encode early →
      ∃ early late, chars = early ++ late ∧ encode early = part.bytes ∧ encode late = rest := by
    intro early same
    obtain ⟨late, rfl, after⟩ := exists_of_encode_eq_append (same ▸ bytes)
    exact ⟨early, late, rfl, same.symm, after⟩
  cases part with
  | blank | listOpen | listClose | literal => exact spelled rfl
  | word text => exact spelled (textBytes_eq text)
  | comment text =>
      have cut : encode chars = (';'.toUInt8 :: text) ++ '\n'.toUInt8 :: rest := by
        rw [bytes, Part.bytes, List.append_assoc]
        rfl
      obtain ⟨early, late, rfl, same, after⟩ :=
        exists_of_encode_eq_append_cons (by decide) cut
      refine ⟨early ++ ['\n'], late, List.append_cons _ _ _, ?_, after⟩
      rw [encode_append, same]
      rfl
  | lastComment text oneLine =>
      rw [ends text oneLine rfl, List.append_nil] at bytes
      exact ⟨chars, [], (List.append_nil chars).symm, bytes, (ends text oneLine rfl).symm⟩

/-- Nothing follows a comment that does not end. -/
theorem Part.ends_of_adjacent (adjacent : (part :: parts).IsChain Part.MayPrecede) :
    ∀ text oneLine, part = .lastComment text oneLine → bytesOf parts = [] := by
  rintro text oneLine rfl
  cases parts with
  | nil => rfl
  | cons next others => exact absurd (List.isChain_cons_cons.mp adjacent).1 id

/-- Parts end between characters. -/
theorem exists_of_encode_eq_bytesOf (adjacent : (front ++ back).IsChain Part.MayPrecede)
    (bytes : encode chars = bytesOf (front ++ back)) :
    ∃ early late, chars = early ++ late ∧ encode early = bytesOf front
      ∧ encode late = bytesOf back := by
  induction front generalizing chars with
  | nil => exact ⟨[], chars, rfl, rfl, bytes⟩
  | cons part others inductionHypothesis =>
      rw [List.cons_append, bytesOf_cons] at bytes
      obtain ⟨first, rest, rfl, own, after⟩ :=
        Part.exists_of_encode_eq bytes (Part.ends_of_adjacent adjacent)
      obtain ⟨early, late, rfl, same, last⟩ := inductionHypothesis adjacent.of_cons after
      refine ⟨first ++ early, late, (List.append_assoc _ _ _).symm, ?_, last⟩
      rw [encode_append, own, same, bytesOf_cons]

/-! ## Layouts -/

/-- What every layout has: tokens in the order of their offsets, which are those of the lexemes,
each byte in one part, words that no longer word contains, and characters that are whole in all
parts and at every place between the quotes of a literal. -/
structure Orderly (source : String) (parts : List Part) (tokens : List Token) : Prop where
  increasing : tokens.Pairwise fun first later => first.offset < later.offset
  inside : ∀ token ∈ tokens, token.offset < source.utf8ByteSize
  lexemes : ∀ token, token ∈ tokens ↔ ∃ front part back, parts = front ++ part :: back
    ∧ part.lexeme? = some token.lexeme ∧ token.offset = (bytesOf front).length
  once : ∀ index < source.utf8ByteSize, ∃! cut, HoldsByte parts index cut
  maximal : ∀ front part back, parts = front ++ part :: back → part.IsWord →
    (∀ byte ∈ (bytesOf front).getLast?, byte ∈ delimiterBytes)
      ∧ ∀ byte ∈ (bytesOf back).head?, byte ∈ delimiterBytes
  whole : ∀ front back, parts = front ++ back →
    String.Pos.Raw.IsValid source ⟨(bytesOf front).length⟩
  unbroken : ∀ front marks back, parts = front ++ .literal marks :: back →
    ∀ early late, marks.flatMap Mark.spelling = early ++ late →
      String.Pos.Raw.IsValid source ⟨(bytesOf front).length + 1 + (encode early).length⟩

namespace Layout

variable {source : String} {tokens : List Token}

theorem length_bytesOf (layout : Layout source parts tokens) :
    (bytesOf parts).length = source.utf8ByteSize := by
  rw [← layout.bytes, length_textBytes]

theorem mem_tokens_iff (layout : Layout source parts tokens) (token : Token) :
    token ∈ tokens ↔ ∃ front part back, parts = front ++ part :: back
      ∧ part.lexeme? = some token.lexeme ∧ token.offset = (bytesOf front).length := by
  rw [layout.tokens, mem_tokensFrom_iff]
  constructor
  · rintro ⟨front, part, back, lexeme, split, named, rfl⟩
    exact ⟨front, part, back, split, named, Nat.zero_add _⟩
  · rintro ⟨front, part, back, split, named, offset⟩
    exact ⟨front, part, back, token.lexeme, split, named, by rw [Nat.zero_add, ← offset]⟩

theorem offset_lt (layout : Layout source parts tokens) {token : Token} (member : token ∈ tokens) :
    token.offset < source.utf8ByteSize := by
  obtain ⟨front, part, back, rfl, _, offset⟩ := (layout.mem_tokens_iff token).mp member
  have nonempty := part.bytes_pos
  have size := layout.length_bytesOf
  rw [bytesOf_append, bytesOf_cons, List.length_append, List.length_append] at size
  omega

/-- The characters in front of a cut between parts. -/
theorem exists_front (layout : Layout source (front ++ back) tokens) :
    ∃ early, encode early = bytesOf front := by
  obtain ⟨early, _, _, same, _⟩ := exists_of_encode_eq_bytesOf layout.adjacent
    ((textBytes_eq source).symm.trans layout.bytes)
  exact ⟨early, same⟩

theorem isValid_between (layout : Layout source (front ++ back) tokens) :
    String.Pos.Raw.IsValid source ⟨(bytesOf front).length⟩ := by
  obtain ⟨early, same⟩ := layout.exists_front
  rw [← same]
  apply isValid_of_textBytes_eq
  rw [layout.bytes, bytesOf_append, same]

theorem isValid_inside {marks : List Mark} {early late : List Char}
    (layout : Layout source (front ++ .literal marks :: back) tokens)
    (split : marks.flatMap Mark.spelling = early ++ late) :
    String.Pos.Raw.IsValid source ⟨(bytesOf front).length + 1 + (encode early).length⟩ := by
  obtain ⟨outside, same⟩ := layout.exists_front
  have length : (encode (outside ++ '"' :: early)).length
      = (bytesOf front).length + 1 + (encode early).length := by
    rw [encode_append, encode_cons, encodeChar_of_ascii (by decide), same]
    simp only [List.length_append, List.length_singleton, Nat.add_assoc]
  rw [← length]
  apply @isValid_of_textBytes_eq _ (encode (late ++ ['"']) ++ bytesOf back)
  rw [layout.bytes, bytesOf_append, bytesOf_cons, ← same, Part.bytes, split]
  simp only [encode_append, encode_cons, List.cons_append, List.append_assoc]

theorem orderly (layout : Layout source parts tokens) : Orderly source parts tokens where
  increasing := by
    rw [layout.tokens]
    exact pairwise_tokensFrom 0 parts
  inside _ := layout.offset_lt
  lexemes := layout.mem_tokens_iff
  once _ inside := existsUnique_holdsByte (layout.length_bytesOf ▸ inside)
  maximal := by
    rintro front part back rfl isWord
    exact ⟨last_delimits layout.adjacent isWord,
      head_delimits layout.adjacent.right_of_append isWord⟩
  whole := by
    rintro front back rfl
    exact layout.isValid_between
  unbroken := by
    rintro front marks back rfl early late split
    exact layout.isValid_inside split

end Layout

end MachineScript.Reader
