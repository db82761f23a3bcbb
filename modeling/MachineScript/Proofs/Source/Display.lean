import MachineScript.Proofs.Number.Text
import MachineScript.Proofs.Source.Reading

/-!
Contract: which constants are read back from the text in which they are shown.

Owns:
- sources of one word or of one literal;
- the texts of integers and finite floats, as words that read as numbers;
- the quoted form of a text as a string literal, and its escapes that no literal
  has;
- the constants on a tape that their display writes: all atoms and integers, the
  finite floats, and the strings of characters that a literal can hold.

Does not own: the value of a number that is read.
-/

namespace MachineScript.Reader

open Number

variable {chars text : List Char} {tokens : List Token} {constant : Constant}
  {offset begin : Nat} {collected : List Char} {c : Char}

/-! ## Sources of one part -/

theorem lex_of_part {part : Part} {lexeme : Lexeme} {source : String}
    (bytes : textBytes source = part.bytes) (isLexeme : part.lexeme? = some lexeme) :
    Tape.lex source = .ok [⟨lexeme, 0⟩] := by
  refine (Tape.lex_eq_ok_iff source _).mpr ⟨[part], ?_, List.isChain_singleton part, ?_⟩
  · rw [bytes, bytesOf, List.flatMap_singleton]
  · rw [tokensFrom, tokensFrom, Part.tokens, isLexeme]
    rfl

theorem lex_of_word {word : String} (nonempty : word ≠ "")
    (whole : ∀ c ∈ word.toList, isDelimiter c = false) (reads : Reads word constant) :
    Tape.lex word = .ok [⟨.constant constant, 0⟩] := by
  rw [← no_delimiter_iff, ← textBytes_eq] at whole
  exact @lex_of_part (.word word constant nonempty whole reads) _ _ rfl rfl

/-- The atoms on a tape are words of the source. -/
theorem exists_word_of_atom {source name : String} (lexed : Tape.lex source = .ok tokens)
    (member : ⟨.constant (.atom name), offset⟩ ∈ tokens) :
    name ≠ "" ∧ (∀ c ∈ name.toList, isDelimiter c = false) ∧ Reads name (.atom name) := by
  obtain ⟨parts, layout⟩ := (Tape.lex_eq_ok_iff source tokens).mp lexed
  obtain ⟨_, part, _, _, isLexeme, _⟩ := (layout.mem_tokens_iff _).mp member
  cases part with
  | word word constant nonempty whole reads =>
      obtain rfl : constant = .atom name := Lexeme.constant.inj (Option.some.inj isLexeme)
      cases reads with
      | atom named =>
          rw [textBytes_eq, no_delimiter_iff] at whole
          exact ⟨nonempty, whole, .atom named⟩
  | _ => cases isLexeme

/-! ## Numbers -/

theorem not_isDigit_of_mem (marks : List Char) (noDigit : marks.all (!Char.isDigit ·) = true)
    (member : c ∈ marks) : ¬c.isDigit = true := by
  simpa using List.all_eq_true.mp noDigit c member

/-- Numbers are shown without delimiters. -/
theorem whole_of_writtenAsNumber (written : WrittenAsNumber text) :
    ∀ c ∈ text, isDelimiter c = false := by
  intro c member
  rcases written c member with isDigit | isMark
  · rw [← Bool.not_eq_true, isDelimiter_iff]
    exact fun delimits => not_isDigit_of_mem delimiters rfl delimits isDigit
  · simp only [List.mem_cons, List.not_mem_nil, or_false] at isMark
    rcases isMark with rfl | rfl | rfl <;> rfl

theorem startsAsNumber_intText (n : Int) : StartsAsNumber (intText n) := by
  obtain ⟨first, rest, shown⟩ := List.exists_cons_of_ne_nil (digits_ne_nil n.natAbs)
  have isDigit := allDigits_digits n.natAbs first (shown ▸ List.mem_cons_self)
  unfold intText
  rw [shown]
  split
  · exact ⟨['-'], first, rest, by decide, isDigit, rfl⟩
  · exact ⟨[], first, rest, by decide, isDigit, rfl⟩

/-- Integers are shown without the marks of a float. -/
theorem not_mem_floatMarks_of_intText {n : Int} (member : c ∈ intText n) : c ∉ floatMarks := by
  have isDigit : c ∈ digits n.natAbs → c ∉ floatMarks := fun shown isMark =>
    not_isDigit_of_mem floatMarks rfl isMark (allDigits_digits n.natAbs c shown)
  unfold intText at member
  split at member
  · rcases List.mem_cons.mp member with rfl | shown
    · decide
    · exact isDigit shown
  · exact isDigit member

/-- The word of a number is not empty. -/
theorem StartsAsNumber.ne_empty {word : String} (starts : StartsAsNumber word.toList) :
    word ≠ "" := by
  obtain ⟨sign, digit, rest, _, _, same⟩ := starts
  rw [ne_eq, ← String.toList_eq_nil_iff, same]
  exact List.append_ne_nil_of_right_ne_nil sign (List.cons_ne_nil digit rest)

theorem lex_display_int (value : Int64) :
    Tape.lex (Constant.int value).display = .ok [⟨.constant (.int value), 0⟩] := by
  have spelled : (Constant.int value).display.toList = intText value.toInt :=
    String.toList_ofList
  have starts : StartsAsNumber (Constant.int value).display.toList :=
    spelled ▸ startsAsNumber_intText value.toInt
  refine lex_of_word starts.ne_empty ?_ (.int starts ?_ ?_)
  · rw [spelled]
    exact whole_of_writtenAsNumber (writtenAsNumber_intText value.toInt)
  · rw [spelled]
    exact fun c => not_mem_floatMarks_of_intText
  · rw [spelled]
    exact readInt64_intText value

/-! ## Floats -/

variable {x : Float} {negative : Bool} {magnitude : Number.Dyadic}

/-- The text of a finite float: a sign, and digits with a point or an exponent. -/
theorem exists_unsigned (finite : floatShape x = .finite negative magnitude) :
    ∃ sign first rest, (floatShape x).text = sign ++ first :: rest ∧ sign ∈ [[], ['-']]
      ∧ first.isDigit = true ∧ WrittenAsNumber (first :: rest)
      ∧ ∃ c ∈ first :: rest, c ∈ floatMarks := by
  rw [finite, FloatShape.text]
  have isSign : (if negative then ['-'] else []) ∈ [[], ['-']] := by
    cases negative <;> decide
  by_cases zero : magnitude.mantissa = 0
  · rw [if_pos zero]
    exact ⟨_, '0', ['.', '0'], rfl, isSign, rfl, by decide, '.', by decide, by decide⟩
  · rw [if_neg zero]
    obtain ⟨first, rest, shown, isDigit⟩ :=
      text_startsWithDigit floatLayout (shortestDecimal magnitude)
    have written := writtenAsNumber_text floatLayout (shortestDecimal magnitude)
    have marked := point_or_exponent_mem_text floatLayout (shortestDecimal magnitude)
    rw [shown] at written marked ⊢
    refine ⟨_, first, rest, rfl, isSign, isDigit, written, ?_⟩
    rcases marked with point | exponent
    · exact ⟨'.', point, by decide⟩
    · exact ⟨'e', exponent, by decide⟩

theorem lex_display_float (finite : floatShape x = .finite negative magnitude) :
    Tape.lex (Constant.float x).display = .ok [⟨.constant (.float x), 0⟩] := by
  have spelled : (Constant.float x).display.toList = (floatShape x).text :=
    String.toList_ofList
  obtain ⟨sign, first, rest, split, isSign, isDigit, written, mark, there, isMark⟩ :=
    exists_unsigned finite
  rw [split] at spelled
  have signs : ∀ sign ∈ [[], ['-']], sign ∈ [[], ['+'], ['-']] ∧ WrittenAsNumber sign := by decide
  obtain ⟨mayStart, minus⟩ := signs sign isSign
  have starts : StartsAsNumber (Constant.float x).display.toList :=
    ⟨sign, first, rest, mayStart, isDigit, spelled⟩
  refine lex_of_word starts.ne_empty ?_ (.float starts ⟨mark, ?_, isMark⟩ ?_)
  · rw [spelled]
    exact whole_of_writtenAsNumber (minus.append written)
  · rw [spelled]
    exact List.mem_append_right sign there
  · rw [spelled, ← split]
    exact readFloat_text finite

/-- The infinities, and what is no number, are shown as names. -/
theorem lex_display_float_of_not_finite
    (other : ∀ negative magnitude, floatShape x ≠ .finite negative magnitude) :
    ∃ name, Tape.lex (Constant.float x).display = .ok [⟨.constant (.atom name), 0⟩] := by
  have shown : (Constant.float x).display = String.ofList (floatShape x).text := rfl
  rw [shown]
  cases shape : floatShape x with
  | finite negative magnitude => exact absurd shape (other negative magnitude)
  | notANumber => exact ⟨"NaN", rfl⟩
  | infinite negative =>
      cases negative with
      | true => exact ⟨"-inf", rfl⟩
      | false => exact ⟨"inf", rfl⟩

/-! ## Strings -/

/-- A character that a literal holds in the form in which it is shown: by an escape that literals
have, or as itself. -/
def IsWritable (c : Char) : Prop :=
  c ∈ ['"', '\\', '\n', '\t'] ∨ (Text.isUnprintable c = false ∧ Text.isExtender c = false)

instance (c : Char) : Decidable (IsWritable c) :=
  inferInstanceAs (Decidable (_ ∨ _))

/-- A writable character is shown as a mark of a literal. -/
theorem IsWritable.exists_mark (writable : IsWritable c) :
    ∃ mark : Mark, mark.meant = c ∧ mark.spelling = Text.escapeChar c := by
  by_cases escaped : c ∈ ['"', '\\', '\n', '\t']
  · simp only [List.mem_cons, List.not_mem_nil, or_false] at escaped
    rcases escaped with rfl | rfl | rfl | rfl
    · exact ⟨.quote, rfl, rfl⟩
    · exact ⟨.backslash, rfl, rfl⟩
    · exact ⟨.newline, rfl, rfl⟩
    · exact ⟨.tab, rfl, rfl⟩
  · obtain ⟨printable, alone⟩ := writable.resolve_left escaped
    simp only [List.mem_cons, List.not_mem_nil, or_false, not_or] at escaped
    obtain ⟨quote, backslash, newline, tab⟩ := escaped
    have carriageReturn : c ≠ '\r' := by
      rintro rfl
      cases printable
    have nul : c.toNat ≠ 0 := by
      intro zero
      obtain rfl : c = '\x00' := Char.toNat_inj.mp zero
      cases printable
    have ordinary : c ∉ ['"', '\\'] := by
      simp only [List.mem_cons, List.not_mem_nil, or_false, not_or]
      exact ⟨quote, backslash⟩
    refine ⟨.plain c ordinary, rfl, ?_⟩
    simp only [Text.escapeChar, if_neg quote, if_neg backslash, if_neg newline, if_neg tab,
      if_neg carriageReturn, if_neg nul, printable, alone, Bool.or_false, Bool.false_eq_true,
      if_false]
    rfl

/-- Any other character is shown by an escape that no literal has. -/
theorem exists_unknownEscape (strange : ¬IsWritable c) :
    ∃ escape rest, Text.escapeChar c = '\\' :: escape :: rest ∧ unescape? escape = none := by
  obtain ⟨unescaped, hidden⟩ := not_or.mp strange
  simp only [List.mem_cons, List.not_mem_nil, or_false, not_or] at unescaped
  obtain ⟨quote, backslash, newline, tab⟩ := unescaped
  have isHidden : (Text.isUnprintable c || Text.isExtender c) = true := by
    rw [← Bool.not_eq_false, Bool.or_eq_false_iff]
    exact hidden
  rw [Text.escapeChar, if_neg quote, if_neg backslash, if_neg newline, if_neg tab]
  by_cases carriageReturn : c = '\r'
  · rw [if_pos carriageReturn]
    exact ⟨'r', [], rfl, rfl⟩
  · by_cases nul : c.toNat = 0
    · rw [if_neg carriageReturn, if_pos nul]
      exact ⟨'0', [], rfl, rfl⟩
    · rw [if_neg carriageReturn, if_neg nul, if_pos isHidden]
      exact ⟨'u', _, rfl, rfl⟩

theorem exists_marks_of_writable (writable : ∀ c ∈ chars, IsWritable c) :
    ∃ marks : List Mark, marks.map Mark.meant = chars
      ∧ marks.flatMap Mark.spelling = chars.flatMap Text.escapeChar := by
  induction chars with
  | nil => exact ⟨[], rfl, rfl⟩
  | cons c rest inductionHypothesis =>
      obtain ⟨first, others⟩ := List.forall_mem_cons.mp writable
      obtain ⟨mark, meant, spelled⟩ := first.exists_mark
      obtain ⟨marks, rfl, same⟩ := inductionHypothesis others
      refine ⟨mark :: marks, by rw [List.map_cons, meant], ?_⟩
      rw [List.flatMap_cons, List.flatMap_cons, spelled, same]

theorem lex_display_str {text : String} (writable : ∀ c ∈ text.toList, IsWritable c) :
    Tape.lex (Constant.str text).display = .ok [⟨.constant (.str text), 0⟩] := by
  obtain ⟨marks, meant, spelled⟩ := exists_marks_of_writable writable
  refine @lex_of_part (.literal marks) _ _ ?_ ?_
  · rw [Part.bytes, spelled, Constant.display, Text.quoted, textBytes_ofList]
  · rw [Part.lexeme?, meant, String.ofList_toList]

/-- Reading stops at the first escape that no literal has. -/
theorem scan_of_unknownEscape {late : List Char} (strange : ∃ c ∈ chars, ¬IsWritable c) :
    ∃ escape position,
      scan (.string begin collected) offset (chars.flatMap Text.escapeChar ++ late)
        = .error (.unknownEscape escape position) := by
  induction chars generalizing offset collected with
  | nil =>
      obtain ⟨c, absent, _⟩ := strange
      exact absurd absent List.not_mem_nil
  | cons c rest inductionHypothesis =>
      rw [List.flatMap_cons, List.append_assoc]
      by_cases writable : IsWritable c
      · obtain ⟨mark, _, spelled⟩ := writable.exists_mark
        rw [← spelled, scan_mark]
        refine inductionHypothesis ?_
        obtain ⟨other, member, isStrange⟩ := strange
        rcases List.mem_cons.mp member with rfl | behind
        · exact absurd writable isStrange
        · exact ⟨other, behind, isStrange⟩
      · obtain ⟨escape, more, escaped, unknown⟩ := exists_unknownEscape writable
        refine ⟨escape, offset + '\\'.utf8Size - 1, ?_⟩
        have opened : step (.string begin collected) offset '\\'
            = .ok ([], .escape begin collected) := rfl
        rw [escaped, List.cons_append, List.cons_append, scan_of_silent opened, scan, step, unknown]
        rfl

theorem lex_display_str_of_strange {text : String} (strange : ∃ c ∈ text.toList, ¬IsWritable c) :
    ∃ escape position,
      Tape.lex (Constant.str text).display = .error (.unknownEscape escape position) := by
  have shown : (Constant.str text).display.toList
      = '"' :: (text.toList.flatMap Text.escapeChar ++ ['"']) := String.toList_ofList
  rw [Tape.lex, shown, scan_of_silent rfl]
  exact scan_of_unknownEscape strange

end MachineScript.Reader

namespace MachineScript

open Reader

/-- The constants whose display writes them. -/
def Constant.IsShownAsWritten : Constant → Prop
  | .atom _ => True
  | .str text => ∀ c ∈ text.toList, IsWritable c
  | .int _ => True
  | .float value => ∃ negative magnitude, Number.floatShape value = .finite negative magnitude

/-- Reading a text yields one token, and that token carries the constant. -/
def Tape.ReadsAlone (names : Interner) (text : String) (constant : Constant) : Prop :=
  ∃ tape offset, Tape.read names text = .ok tape ∧ tape.tokens = [⟨.constant constant, offset⟩]

variable {names : Interner} {source text : String} {constant : Constant} {tokens : List Token}
  {tape : Tape} {token : Token}

theorem Tape.readsAlone_iff :
    Tape.ReadsAlone names text constant
      ↔ ∃ offset, Tape.lex text = .ok [⟨.constant constant, offset⟩] := by
  constructor
  · rintro ⟨tape, offset, read, alone⟩
    obtain ⟨tokens, lexed, rfl⟩ := exists_of_read read
    exact ⟨offset, lexed.trans (congrArg Except.ok alone)⟩
  · rintro ⟨offset, lexed⟩
    refine ⟨Tape.ofTokens names [⟨.constant constant, offset⟩], offset, ?_, rfl⟩
    rw [Tape.read, lexed]
    rfl

/-- A text is not read as two different constants. -/
theorem Tape.lex_ne_of_lex {lexed : Except ReadError (List Token)} (isLexed : Tape.lex text = lexed)
    (different : ∀ offset, lexed ≠ .ok [⟨.constant constant, offset⟩]) :
    ¬Tape.ReadsAlone names text constant := by
  rw [Tape.readsAlone_iff, isLexed]
  exact fun ⟨offset, same⟩ => different offset same

/-- Constants are read back from their display if they are shown as written; the atoms, if they are
words. -/
theorem Constant.readsAlone_display_iff (names : Interner)
    (isWord : ∀ name, constant = .atom name →
      name ≠ "" ∧ (∀ c ∈ name.toList, isDelimiter c = false) ∧ Reads name (.atom name)) :
    Tape.ReadsAlone names constant.display constant ↔ constant.IsShownAsWritten := by
  cases constant with
  | atom name =>
      obtain ⟨nonempty, whole, reads⟩ := isWord name rfl
      exact iff_of_true (Tape.readsAlone_iff.mpr ⟨0, lex_of_word nonempty whole reads⟩) trivial
  | int value => exact iff_of_true (Tape.readsAlone_iff.mpr ⟨0, lex_display_int value⟩) trivial
  | str text =>
      by_cases writable : ∀ c ∈ text.toList, IsWritable c
      · exact iff_of_true (Tape.readsAlone_iff.mpr ⟨0, lex_display_str writable⟩) writable
      · refine iff_of_false ?_ writable
        push Not at writable
        obtain ⟨escape, position, failed⟩ := lex_display_str_of_strange writable
        exact Tape.lex_ne_of_lex failed nofun
  | float value =>
      by_cases finite : ∃ negative magnitude, Number.floatShape value = .finite negative magnitude
      · obtain ⟨negative, magnitude, shape⟩ := finite
        exact iff_of_true (Tape.readsAlone_iff.mpr ⟨0, lex_display_float shape⟩)
          ⟨negative, magnitude, shape⟩
      · refine iff_of_false ?_ finite
        push Not at finite
        obtain ⟨name, lexed⟩ := lex_display_float_of_not_finite finite
        exact Tape.lex_ne_of_lex lexed nofun

/-- A constant on a tape is read back from the text in which it is shown exactly if it is an atom,
an integer, a finite float, or a string of characters that a literal can hold as they are shown. -/
theorem Tape.read_display_iff (interner : Interner) (source : String) (tape : Tape)
    (read : Tape.read interner source = .ok tape)
    (names : Interner) (constant : Constant) (offset : Nat)
    (member : ⟨.constant constant, offset⟩ ∈ tape.tokens) :
    (Lexeme.constant constant).display = constant.display
      ∧ (Tape.ReadsAlone names constant.display constant ↔ constant.IsShownAsWritten) := by
  refine ⟨rfl, Constant.readsAlone_display_iff names ?_⟩
  rintro name rfl
  obtain ⟨tokens, lexed, rfl⟩ := exists_of_read read
  exact exists_word_of_atom lexed member

/-- A source with a constant of each kind, all of which are shown as they are written in it. -/
def Tape.everyConstant : String :=
  "(é \"λ\\n\" -9223372036854775808 -2.5e-7)"

def Tape.everyConstantTokens : List Token :=
  [⟨.listOpen, 0⟩, ⟨.constant (.atom "é"), 1⟩, ⟨.constant (.str "λ\n"), 4⟩,
    ⟨.constant (.int (-9223372036854775808)), 11⟩, ⟨.constant (.float (-2.5e-7)), 32⟩,
    ⟨.listClose, 39⟩]

theorem Tape.read_display_iff_everyConstant :
    Tape.read .empty everyConstant = .ok (Tape.ofTokens .empty everyConstantTokens)
      ∧ ∀ constant offset, ⟨.constant constant, offset⟩ ∈ everyConstantTokens →
        Tape.ReadsAlone .empty constant.display constant := by
  have read : Tape.read .empty everyConstant
      = .ok (Tape.ofTokens .empty everyConstantTokens) := rfl
  refine ⟨read, fun constant offset member => ?_⟩
  refine (Tape.read_display_iff .empty everyConstant _ read .empty constant offset member).2.mpr ?_
  simp only [everyConstantTokens, List.mem_cons, List.not_mem_nil, Token.mk.injEq, reduceCtorEq,
    Lexeme.constant.injEq, false_and, or_false, false_or] at member
  rcases member with ⟨rfl, _⟩ | ⟨rfl, _⟩ | ⟨rfl, _⟩ | ⟨rfl, _⟩
  · trivial
  · have characters : ∀ c ∈ ['λ', '\n'], IsWritable c :=
      List.forall_mem_cons.mpr
        ⟨by decide +kernel, List.forall_mem_singleton.mpr (by decide)⟩
    exact characters
  · trivial
  · exact ⟨true, _, rfl⟩

/-- A carriage return in a literal is shown by an escape at which reading fails. -/
theorem Tape.read_display_carriageReturn :
    Tape.read .empty "\"a\rb\"" = .ok (Tape.ofTokens .empty [⟨.constant (.str "a\rb"), 0⟩])
      ∧ (Constant.str "a\rb").display = "\"a\\rb\""
      ∧ Tape.read .empty "\"a\\rb\"" = .error (.unknownEscape 'r' 2) :=
  ⟨rfl, by decide +kernel, rfl⟩

end MachineScript
