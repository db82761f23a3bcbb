import Mathlib.Data.List.TakeWhile
import MachineScript.Proofs.Source.Layout

/-!
Contract: the reader finds the layout of a source, if there is one.

Owns:
- the constants that words stand for, as the reader decides them;
- the run of the reader over each kind of part;
- that the reader gives the tokens of every layout, and that whatever it gives
  are the tokens of one.

Does not own: what follows from a layout.
-/

namespace MachineScript.Reader

variable {part : Part} {parts : List Part} {offset begin : Nat}
  {chars early late collected : List Char} {tokens : List Token} {constant : Constant}
  {text : String} {c : Char}

/-! ## Words -/

/-- A text is its sign, if it has one, and the rest. -/
theorem exists_sign (text : List Char) :
    ∃ sign ∈ [[], ['+'], ['-']], text = sign ++ (Number.splitSign text).2 := by
  unfold Number.splitSign
  split
  · exact ⟨['-'], by decide, rfl⟩
  · exact ⟨['+'], by decide, rfl⟩
  · exact ⟨[], by decide, rfl⟩

theorem splitSign_digit {sign rest : List Char} {digit : Char} (isSign : sign ∈ [[], ['+'], ['-']])
    (isDigit : digit.isDigit = true) :
    (Number.splitSign (sign ++ digit :: rest)).2 = digit :: rest := by
  simp only [List.mem_cons, List.not_mem_nil, or_false] at isSign
  rcases isSign with rfl | rfl | rfl
  · unfold Number.splitSign
    split
    -- a sign is no digit
    · rename_i same
      cases (List.cons.inj same).1
      cases isDigit
    · rename_i same
      cases (List.cons.inj same).1
      cases isDigit
    · rfl
  · rfl
  · rfl

theorem looksNumeric_iff (text : List Char) : looksNumeric text = true ↔ StartsAsNumber text := by
  unfold looksNumeric
  constructor
  · intro numeric
    obtain ⟨sign, isSign, split⟩ := exists_sign text
    cases unsigned : (Number.splitSign text).2 with
    | nil => simp only [unsigned, Bool.false_eq_true] at numeric
    | cons digit rest =>
        rw [unsigned] at numeric split
        exact ⟨sign, digit, rest, isSign, numeric, split⟩
  · rintro ⟨sign, digit, rest, isSign, isDigit, rfl⟩
    rw [splitSign_digit isSign isDigit]
    exact isDigit

theorem any_floatMarks_iff (text : List Char) :
    (text.any fun c => c = '.' || c = 'e' || c = 'E') = true ↔ ∃ c ∈ text, c ∈ floatMarks := by
  simp [floatMarks, or_assoc]

theorem readNumber_eq_some_iff (starts : StartsAsNumber text.toList) :
    readNumber text.toList = some constant ↔ Reads text constant := by
  unfold readNumber
  split_ifs with marked
  · have broken := (any_floatMarks_iff _).mp marked
    rw [Option.map_eq_some_iff]
    constructor
    · rintro ⟨value, parsed, rfl⟩
      exact .float starts broken parsed
    · rintro (⟨_, whole, _⟩ | ⟨_, _, parsed⟩ | named)
      · obtain ⟨c, there, isMark⟩ := broken
        exact absurd isMark (whole c there)
      · exact ⟨_, parsed, rfl⟩
      · exact absurd starts named
  · rw [any_floatMarks_iff] at marked
    rw [Option.map_eq_some_iff]
    constructor
    · rintro ⟨value, parsed, rfl⟩
      exact .int starts (fun c there isMark => marked ⟨c, there, isMark⟩) parsed
    · rintro (⟨_, _, parsed⟩ | ⟨_, broken, _⟩ | named)
      · exact ⟨_, parsed, rfl⟩
      · exact absurd broken marked
      · exact absurd starts named

/-- The token of a word is the constant that it stands for. -/
theorem wordToken_eq_ok_iff {token : Token} (text : String) :
    wordToken begin text.toList = .ok token
      ↔ ∃ constant, Reads text constant ∧ token = ⟨.constant constant, begin⟩ := by
  unfold wordToken
  by_cases starts : StartsAsNumber text.toList
  · rw [if_pos ((looksNumeric_iff _).mpr starts)]
    simp only [← readNumber_eq_some_iff starts]
    cases readNumber text.toList with
    | none => simp
    | some value => simp [eq_comm]
  · rw [if_neg (mt (looksNumeric_iff _).mp starts), String.ofList_toList]
    constructor
    · rintro ⟨⟩
      exact ⟨.atom text, .atom starts, rfl⟩
    · rintro ⟨_, ⟨named, _⟩ | ⟨named, _⟩ | _, rfl⟩
      · exact absurd named starts
      · exact absurd named starts
      · rfl

/-! ## Delimiters -/

theorem isBlank_iff : isBlank c = true ↔ c ∈ blanks := by
  simp [isBlank, blanks, or_assoc]

theorem isDelimiter_iff : isDelimiter c = true ↔ c ∈ delimiters := by
  simp [isDelimiter, isBlank, delimiters, blanks, or_assoc]

/-- A delimiter is one in each of its bytes, and no other character is one in any. -/
theorem isDelimiter_iff_of_mem {byte : UInt8} (member : byte ∈ String.utf8EncodeChar c) :
    isDelimiter c = true ↔ byte ∈ delimiterBytes := by
  rw [isDelimiter_iff]
  constructor
  · intro delimits
    rw [encodeChar_of_ascii (isAscii_of_mem_delimiters delimits), List.mem_singleton] at member
    rw [member]
    exact List.mem_map_of_mem delimits
  · intro delimits
    obtain ⟨mark, isMark, rfl⟩ := List.mem_map.mp delimits
    exact (mem_encodeChar_iff (isAscii_of_mem_delimiters isMark)).mp member ▸ isMark

theorem no_delimiter_iff :
    (∀ byte ∈ encode chars, byte ∉ delimiterBytes) ↔ ∀ c ∈ chars, isDelimiter c = false := by
  unfold encode
  constructor
  · intro whole c member
    obtain ⟨byte, there⟩ := List.exists_mem_of_ne_nil _ (@String.utf8EncodeChar_ne_nil c)
    rw [← Bool.not_eq_true, isDelimiter_iff_of_mem there]
    exact whole byte (List.mem_flatMap.mpr ⟨c, member, there⟩)
  · intro whole byte member
    obtain ⟨c, inside, there⟩ := List.mem_flatMap.mp member
    rw [← isDelimiter_iff_of_mem there, Bool.not_eq_true]
    exact whole c inside

/-- A part starts with a delimiter exactly if it is not a word. -/
theorem isDelimiter_first {rest : List Char} {others : List UInt8}
    (bytes : encode (c :: rest) = part.bytes ++ others) :
    isDelimiter c = true ↔ ¬part.IsWord := by
  obtain ⟨byte, more, own⟩ := List.exists_cons_of_length_pos part.bytes_pos
  have first : byte ∈ String.utf8EncodeChar c := by
    obtain ⟨head, tail, spelled⟩ := List.exists_cons_of_ne_nil (@String.utf8EncodeChar_ne_nil c)
    rw [encode_cons, own, spelled] at bytes
    rw [spelled, ← (List.cons.inj bytes).1]
    exact List.mem_cons_self
  have there : byte ∈ part.bytes := own ▸ List.mem_cons_self
  rw [isDelimiter_iff_of_mem first]
  constructor
  · intro delimits isWord
    cases part with
    | word _ _ _ whole => exact whole byte there delimits
    | _ => exact isWord
  · intro other
    obtain ⟨head, delimits, _, same⟩ := Part.exists_head_of_not_isWord other
    rw [own] at same
    exact (List.cons.inj same).1 ▸ delimits

/-! ## What may follow a part -/

/-- A delimiter ends a word, and the source ends a comment without an end of its own. -/
def Part.EndsBefore (late : List Char) : Part → Prop
  | .word _ _ _ _ _ => ∀ c ∈ late.head?, isDelimiter c = true
  | .lastComment _ _ => late = []
  | _ => True

theorem Part.mayPrecede_iff_endsBefore {next : Part} {rest : List Char} {others : List UInt8}
    (bytes : encode (c :: rest) = next.bytes ++ others) :
    part.MayPrecede next ↔ part.EndsBefore (c :: rest) := by
  cases part with
  | word =>
      have first : (∀ first ∈ (c :: rest).head?, isDelimiter first = true) ↔ ¬next.IsWord := by
        rw [← isDelimiter_first bytes, List.head?_cons]
        simp only [Option.mem_some_iff, forall_eq']
      refine Iff.trans ?_ first.symm
      cases next <;> simp [MayPrecede, IsWord]
  | lastComment => exact ⟨False.elim, List.cons_ne_nil c rest⟩
  | _ => exact Iff.rfl

/-- A part ends in front of the parts that may follow it. -/
theorem isChain_cons_iff (bytes : encode late = bytesOf parts) :
    (part :: parts).IsChain Part.MayPrecede
      ↔ part.EndsBefore late ∧ parts.IsChain Part.MayPrecede := by
  cases parts with
  | nil =>
      have last : late = [] := eq_nil_of_encode_eq_nil bytes
      subst last
      refine iff_of_true (List.isChain_singleton part) ⟨?_, .nil⟩
      cases part with
      | word => exact fun _ absent => absurd absent (Option.not_mem_none _)
      | lastComment => rfl
      | _ => trivial
  | cons next others =>
      rw [bytesOf_cons] at bytes
      cases late with
      | nil =>
          have nonempty := next.bytes_pos
          rw [(List.append_eq_nil_iff.mp bytes.symm).1] at nonempty
          exact absurd nonempty (Nat.lt_irrefl 0)
      | cons c rest => rw [List.isChain_cons_cons, Part.mayPrecede_iff_endsBefore bytes]

/-! ## The run over a part -/

theorem length_encode_cons (c : Char) (rest : List Char) :
    (encode (c :: rest)).length = c.utf8Size + (encode rest).length := by
  rw [encode_cons, List.length_append, String.length_utf8EncodeChar]

theorem map_nil_append (scanned : Except ReadError (List Token)) :
    scanned.map ([] ++ ·) = scanned := by
  cases scanned <;> rfl

theorem scan_of_step {mode next : Mode} (taken : step mode offset c = .ok (tokens, next)) :
    scan mode offset (c :: late)
      = (scan next (offset + c.utf8Size) late).map (tokens ++ ·) := by
  rw [scan, taken]
  change (scan next (offset + c.utf8Size) late >>= fun later => .ok (tokens ++ later)) = _
  cases scan next (offset + c.utf8Size) late <;> rfl

/-- A character that completes no token. -/
theorem scan_of_silent {mode next : Mode} (silent : step mode offset c = .ok ([], next)) :
    scan mode offset (c :: late) = scan next (offset + c.utf8Size) late := by
  rw [scan_of_step silent, map_nil_append]

/-- A comment goes on up to the end of its line. -/
theorem scan_comment (oneLine : '\n' ∉ early) :
    scan .comment offset (early ++ late)
      = scan .comment (offset + (encode early).length) late := by
  induction early generalizing offset with
  | nil => rfl
  | cons c rest inductionHypothesis =>
      obtain ⟨different, oneLine⟩ := not_or.mp (mt List.mem_cons.mpr oneLine)
      have silent : step .comment offset c = .ok ([], .comment) := by
        simp only [step, if_neg (Ne.symm different)]
      rw [List.cons_append, scan_of_silent silent, inductionHypothesis oneLine, length_encode_cons,
        Nat.add_assoc]

theorem scan_mark (mark : Mark) :
    scan (.string begin collected) offset (mark.spelling ++ late)
      = scan (.string begin (mark.meant :: collected))
          (offset + (encode mark.spelling).length) late := by
  cases mark with
  | plain c ordinary =>
      simp only [List.mem_cons, List.not_mem_nil, or_false, not_or] at ordinary
      have silent : step (.string begin collected) offset c
          = .ok ([], .string begin (c :: collected)) := by
        simp only [step, if_neg ordinary.1, if_neg ordinary.2]
      rw [Mark.spelling, List.singleton_append, scan_of_silent silent, length_encode_cons]
      rfl
  | quote | backslash | newline | tab =>
      have silent :
          step (.string begin collected) offset '\\' = .ok ([], .escape begin collected) :=
        rfl
      rw [Mark.spelling, List.cons_append, List.singleton_append, scan_of_silent silent]
      exact scan_of_silent rfl

/-- The characters of a literal are collected, and mean what their marks mean. -/
theorem scan_marks (marks : List Mark) :
    scan (.string begin collected) offset (marks.flatMap Mark.spelling ++ late)
      = scan (.string begin ((marks.map Mark.meant).reverse ++ collected))
          (offset + (encode (marks.flatMap Mark.spelling)).length) late := by
  induction marks generalizing offset collected with
  | nil => rfl
  | cons mark rest inductionHypothesis =>
      rw [List.flatMap_cons, List.append_assoc, scan_mark, inductionHypothesis, encode_append,
        List.length_append, Nat.add_assoc, List.map_cons, List.reverse_cons, List.append_assoc]
      rfl

/-- A delimiter completes the word before it. -/
theorem scan_delimiter (delimits : isDelimiter c = true) :
    scan (.word begin collected) offset (c :: late) = (do
      let token ← wordToken begin collected.reverse
      (scan .between offset (c :: late)).map (token :: ·)) := by
  cases worded : wordToken begin collected.reverse with
  | error problem =>
      rw [scan, step, if_pos delimits, worded]
      rfl
  | ok token =>
      cases started : start offset c with
      | mk tokens next =>
          have between : step .between offset c = .ok (tokens, next) := congrArg Except.ok started
          have inWord : step (.word begin collected) offset c = .ok (token :: tokens, next) := by
            rw [step, if_pos delimits, worded, started]
            rfl
          change _ = (scan .between offset (c :: late)).map (token :: ·)
          rw [scan_of_step inWord, scan_of_step between]
          cases scan next (offset + c.utf8Size) late <;> rfl

/-- A word ends at a delimiter or with the source. -/
theorem scan_word (whole : ∀ c ∈ early, isDelimiter c = false)
    (ends : ∀ c ∈ late.head?, isDelimiter c = true) :
    scan (.word begin collected) offset (early ++ late) = (do
      let token ← wordToken begin (collected.reverse ++ early)
      (scan .between (offset + (encode early).length) late).map (token :: ·)) := by
  induction early generalizing offset collected with
  | nil =>
      rw [List.nil_append, List.append_nil]
      cases late with
      | nil => rfl
      | cons c rest => exact scan_delimiter (ends c rfl)
  | cons c rest inductionHypothesis =>
      obtain ⟨inside, others⟩ := List.forall_mem_cons.mp whole
      have silent : step (.word begin collected) offset c
          = .ok ([], .word begin (c :: collected)) := by
        simp only [step, inside, Bool.false_eq_true, if_false]
      rw [List.cons_append, scan_of_silent silent, inductionHypothesis others, length_encode_cons,
        Nat.add_assoc, List.reverse_cons, List.append_assoc]
      rfl

theorem start_of_not_delimiter (inside : isDelimiter c = false) :
    start offset c = ([], .word offset [c]) := by
  simp only [isDelimiter, Bool.or_eq_false_iff, decide_eq_false_iff_not] at inside
  obtain ⟨⟨⟨⟨blank, listOpen⟩, listClose⟩, quote⟩, comment⟩ := inside
  simp only [start, blank, if_neg comment, if_neg listOpen, if_neg listClose, if_neg quote,
    Bool.false_eq_true, if_false]

/-- The reader runs over a part and gives its token. -/
theorem scan_part (bytes : encode early = part.bytes) (ends : part.EndsBefore late) :
    scan .between offset (early ++ late)
      = (scan .between (offset + part.bytes.length) late).map (part.tokens offset ++ ·) := by
  rw [← bytes]
  cases part with
  | blank c blank =>
      obtain rfl := encode_injective bytes
      have started : step .between offset c = .ok ([], .between) := by
        simp only [step, start, isBlank_iff.mpr blank, if_true]
      rw [length_encode_cons]
      exact scan_of_step started
  | listOpen =>
      obtain rfl := encode_injective bytes
      exact scan_of_step rfl
  | listClose =>
      obtain rfl := encode_injective bytes
      exact scan_of_step rfl
  | comment text oneLine =>
      have cut : encode early = (';'.toUInt8 :: text) ++ '\n'.toUInt8 :: [] := bytes
      obtain ⟨body, last, rfl, opened, ended⟩ := exists_of_encode_eq_append_cons (by decide) cut
      obtain rfl := eq_nil_of_encode_eq_nil ended
      obtain ⟨body, rfl, rfl⟩ := @exists_of_encode_eq_append body [';'] text opened
      rw [mem_encode_iff (by decide)] at oneLine
      rw [List.append_assoc, List.append_assoc, List.singleton_append, List.singleton_append,
        scan_of_silent rfl, scan_comment oneLine, scan_of_silent rfl, List.singleton_append,
        List.cons_append, length_encode_cons, encode_append, List.length_append, ← Nat.add_assoc,
        ← Nat.add_assoc]
      exact (map_nil_append _).symm
  | lastComment text oneLine =>
      obtain rfl := ends
      obtain ⟨body, rfl, rfl⟩ := @exists_of_encode_eq_append early [';'] text bytes
      rw [mem_encode_iff (by decide)] at oneLine
      rw [List.singleton_append, List.cons_append, scan_of_silent rfl, scan_comment oneLine]
      rfl
  | literal marks =>
      obtain rfl := encode_injective bytes
      rw [List.append_assoc, List.cons_append, scan_of_silent rfl, scan_marks, List.append_nil,
        List.singleton_append, List.cons_append, length_encode_cons, encode_append,
        List.length_append, ← Nat.add_assoc, ← Nat.add_assoc]
      refine scan_of_step ?_
      rw [step, if_pos rfl, List.reverse_reverse]
      rfl
  | word text constant nonempty whole reads =>
      rw [Part.bytes, textBytes_eq] at bytes
      obtain rfl := encode_injective bytes
      rw [textBytes_eq, no_delimiter_iff] at whole
      cases spelled : text.toList with
      | nil => exact absurd (String.toList_eq_nil_iff.mp spelled) nonempty
      | cons c rest =>
          rw [spelled] at whole
          obtain ⟨inside, others⟩ := List.forall_mem_cons.mp whole
          have worded : wordToken offset (c :: rest) = .ok ⟨.constant constant, offset⟩ := by
            rw [← spelled]
            exact (wordToken_eq_ok_iff text).mpr ⟨constant, reads, rfl⟩
          have silent : step .between offset c = .ok ([], .word offset [c]) :=
            congrArg Except.ok (start_of_not_delimiter inside)
          rw [List.cons_append, scan_of_silent silent, scan_word others ends,
            List.reverse_singleton, List.singleton_append, worded, length_encode_cons, Nat.add_assoc]
          rfl

/-- The tokens of a layout are what the reader gives. -/
theorem scan_of_parts (adjacent : parts.IsChain Part.MayPrecede)
    (bytes : encode chars = bytesOf parts) :
    scan .between offset chars = .ok (tokensFrom offset parts) := by
  induction parts generalizing offset chars with
  | nil =>
      obtain rfl := eq_nil_of_encode_eq_nil bytes
      rfl
  | cons part rest inductionHypothesis =>
      rw [bytesOf_cons] at bytes
      obtain ⟨early, late, rfl, own, after⟩ :=
        Part.exists_of_encode_eq bytes (Part.ends_of_adjacent adjacent)
      obtain ⟨ends, adjacent⟩ := (isChain_cons_iff after).mp adjacent
      rw [scan_part own ends, inductionHypothesis adjacent after]
      rfl

/-! ## The parts that the reader runs over -/

theorem map_eq_ok_iff {scanned : Except ReadError (List Token)} {own : List Token} :
    scanned.map (own ++ ·) = .ok tokens ↔ ∃ later, scanned = .ok later ∧ tokens = own ++ later := by
  cases scanned <;> simp [Except.map, eq_comm]

theorem exists_of_scan_cons {mode : Mode} (scanned : scan mode offset (c :: late) = .ok tokens) :
    ∃ own next later, step mode offset c = .ok (own, next)
      ∧ scan next (offset + c.utf8Size) late = .ok later := by
  cases taken : step mode offset c with
  | error problem =>
      rw [scan, taken] at scanned
      cases scanned
  | ok stepped =>
      obtain ⟨own, next⟩ := stepped
      rw [scan_of_step taken, map_eq_ok_iff] at scanned
      obtain ⟨later, others, _⟩ := scanned
      exact ⟨own, next, later, rfl, others⟩

theorem exists_mark_of_unescape? {meant : Char} (escaped : unescape? c = some meant) :
    ∃ mark : Mark, mark.spelling = ['\\', c] := by
  unfold unescape? at escaped
  split at escaped
  · exact ⟨.quote, rfl⟩
  · exact ⟨.backslash, rfl⟩
  · exact ⟨.newline, rfl⟩
  · exact ⟨.tab, rfl⟩
  · cases escaped

/-- What the reader takes for the inside of a literal consists of marks, up to a quote. -/
theorem exists_marks (chars : List Char) :
    (∀ {offset collected tokens}, scan (.string begin collected) offset chars = .ok tokens →
      ∃ (marks : List Mark) (late : List Char),
        chars = marks.flatMap Mark.spelling ++ '"' :: late)
    ∧ ∀ {offset collected tokens}, scan (.escape begin collected) offset chars = .ok tokens →
      ∃ (marks : List Mark) (late : List Char),
        '\\' :: chars = marks.flatMap Mark.spelling ++ '"' :: late := by
  induction chars with
  | nil =>
      constructor
      · intro _ _ _ failed
        cases failed
      · intro _ _ _ failed
        cases failed
  | cons c rest inductionHypothesis =>
      obtain ⟨inside, escaped⟩ := inductionHypothesis
      constructor
      · intro offset collected tokens scanned
        obtain ⟨own, next, later, taken, others⟩ := exists_of_scan_cons scanned
        rw [step] at taken
        split_ifs at taken with quote backslash
        · exact ⟨[], rest, by rw [quote]; rfl⟩
        · cases taken
          obtain ⟨marks, late, spelled⟩ := escaped others
          exact ⟨marks, late, by rw [backslash, spelled]⟩
        · cases taken
          obtain ⟨marks, late, rfl⟩ := inside others
          have ordinary : c ∉ ['"', '\\'] := by
            simp only [List.mem_cons, List.not_mem_nil, or_false, not_or]
            exact ⟨quote, backslash⟩
          exact ⟨.plain c ordinary :: marks, late, rfl⟩
      · intro offset collected tokens scanned
        obtain ⟨own, next, later, taken, others⟩ := exists_of_scan_cons scanned
        rw [step] at taken
        cases escape : unescape? c with
        | none =>
            rw [escape] at taken
            cases taken
        | some meant =>
            rw [escape] at taken
            cases taken
            obtain ⟨marks, late, rfl⟩ := inside others
            obtain ⟨mark, spelled⟩ := exists_mark_of_unescape? escape
            refine ⟨mark :: marks, late, ?_⟩
            rw [List.flatMap_cons, spelled]
            rfl

/-- Characters up to the first delimiter. -/
theorem exists_word (chars : List Char) :
    ∃ early late, chars = early ++ late ∧ (∀ c ∈ early, isDelimiter c = false)
      ∧ ∀ c ∈ late.head?, isDelimiter c = true := by
  refine ⟨chars.takeWhile (!isDelimiter ·), chars.dropWhile (!isDelimiter ·),
    List.takeWhile_append_dropWhile.symm, ?_, ?_⟩
  · intro c member
    simpa using List.mem_takeWhile_imp member
  · intro c first
    rw [← List.find?_eq_head?_dropWhile_not] at first
    exact List.find?_some first

/-- The reader starts with a part, wherever it comes to an end. -/
theorem exists_first_part {rest : List Char}
    (scanned : scan .between offset (c :: rest) = .ok tokens) :
    ∃ (part : Part) (early late : List Char), c :: rest = early ++ late
      ∧ encode early = part.bytes ∧ part.EndsBefore late := by
  by_cases delimits : isDelimiter c = true
  · rw [isDelimiter_iff, delimiters, List.mem_append] at delimits
    simp only [List.mem_cons, List.not_mem_nil, or_false] at delimits
    rcases delimits with blank | rfl | rfl | rfl | rfl
    · exact ⟨.blank c blank, [c], rest, rfl, rfl, trivial⟩
    · exact ⟨.listOpen, ['('], rest, rfl, rfl, trivial⟩
    · exact ⟨.listClose, [')'], rest, rfl, rfl, trivial⟩
    · rw [scan_of_silent rfl] at scanned
      obtain ⟨marks, late, rfl⟩ := (exists_marks rest).1 scanned
      refine ⟨.literal marks, _, late, ?_, rfl, trivial⟩
      rw [List.append_assoc, List.singleton_append, List.cons_append]
    · by_cases ended : '\n' ∈ rest
      · obtain ⟨text, late, rfl, oneLine⟩ := List.eq_append_cons_of_mem ended
        rw [← mem_encode_iff (by decide)] at oneLine
        refine ⟨.comment (encode text) oneLine, ';' :: text ++ ['\n'], late, ?_, ?_, trivial⟩
        · rw [List.append_assoc, List.singleton_append, List.cons_append]
        · rw [encode_append, encode_cons]
          rfl
      · rw [← mem_encode_iff (by decide)] at ended
        exact ⟨.lastComment (encode rest) ended, ';' :: rest, [], (List.append_nil _).symm,
          encode_cons ';' rest, rfl⟩
  · rw [Bool.not_eq_true] at delimits
    obtain ⟨early, late, rfl, whole, ends⟩ := exists_word rest
    have silent : step .between offset c = .ok ([], .word offset [c]) :=
      congrArg Except.ok (start_of_not_delimiter delimits)
    rw [scan_of_silent silent, scan_word whole ends] at scanned
    cases worded : wordToken offset (c :: early) with
    | error problem =>
        rw [List.reverse_singleton, List.singleton_append, worded] at scanned
        cases scanned
    | ok token =>
        rw [← @String.toList_ofList (c :: early)] at worded
        obtain ⟨constant, reads, _⟩ := (wordToken_eq_ok_iff _).mp worded
        have nonempty : String.ofList (c :: early) ≠ "" := by
          rw [ne_eq, ← String.toList_eq_nil_iff, String.toList_ofList]
          exact List.cons_ne_nil c early
        have inside : ∀ byte ∈ textBytes (String.ofList (c :: early)), byte ∉ delimiterBytes := by
          rw [textBytes_ofList, no_delimiter_iff]
          exact List.forall_mem_cons.mpr ⟨delimits, whole⟩
        exact ⟨.word _ constant nonempty inside reads, c :: early, late, rfl,
          (textBytes_ofList (c :: early)).symm, ends⟩

/-- Whatever the reader gives are the tokens of parts, one after another. -/
theorem exists_parts (scanned : scan .between offset chars = .ok tokens) :
    ∃ parts : List Part, encode chars = bytesOf parts ∧ parts.IsChain Part.MayPrecede
      ∧ tokens = tokensFrom offset parts := by
  induction length : chars.length using Nat.strong_induction_on
      generalizing offset chars tokens with
  | h bound inductionHypothesis =>
      cases chars with
      | nil => exact ⟨[], rfl, .nil, (Except.ok.inj scanned).symm⟩
      | cons c rest =>
          obtain ⟨part, early, late, split, own, ends⟩ := exists_first_part scanned
          rw [split] at scanned length ⊢
          rw [scan_part own ends, map_eq_ok_iff] at scanned
          obtain ⟨later, others, rfl⟩ := scanned
          have shorter : late.length < bound := by
            have nonempty : early ≠ [] := by
              rintro rfl
              exact part.bytes_pos.ne' (congrArg List.length own.symm)
            rw [← length, List.length_append]
            exact Nat.lt_add_of_pos_left (List.length_pos_iff.mpr nonempty)
          obtain ⟨parts, bytes, adjacent, rfl⟩ := inductionHypothesis late.length shorter others rfl
          refine ⟨part :: parts, ?_, (isChain_cons_iff bytes).mpr ⟨ends, adjacent⟩, rfl⟩
          rw [encode_append, own, bytes, bytesOf_cons]

end MachineScript.Reader

namespace MachineScript

open Reader

variable {source : String} {tokens : List Token}

theorem Tape.lex_eq_ok_iff (source : String) (tokens : List Token) :
    Tape.lex source = .ok tokens ↔ ∃ parts, Layout source parts tokens := by
  constructor
  · intro scanned
    obtain ⟨parts, bytes, adjacent, rfl⟩ := exists_parts scanned
    exact ⟨parts, (textBytes_eq source).trans bytes, adjacent, rfl⟩
  · rintro ⟨parts, bytes, adjacent, rfl⟩
    exact scan_of_parts adjacent ((textBytes_eq source).symm.trans bytes)

theorem Tape.read_eq (interner : Interner) (source : String) :
    Tape.read interner source = (Tape.lex source).map (Tape.ofTokens interner) := by
  unfold Tape.read
  cases Tape.lex source <;> rfl

theorem Tape.exists_of_read {interner : Interner} {source : String} {tape : Tape}
    (accepted : Tape.read interner source = .ok tape) :
    ∃ tokens, Tape.lex source = .ok tokens ∧ tape = Tape.ofTokens interner tokens := by
  rw [read_eq] at accepted
  cases lexed : Tape.lex source with
  | error problem =>
      rw [lexed] at accepted
      cases accepted
  | ok tokens =>
      rw [lexed] at accepted
      cases accepted
      exact ⟨tokens, rfl, rfl⟩

/-- A source is read exactly if it has a layout. In each, offsets increase, every byte belongs to
one part, and the cuts fall between characters. -/
theorem Tape.read_eq_ok_iff (interner : Interner) (source : String) (tokens : List Token) :
    (Tape.read interner source = .ok (Tape.ofTokens interner tokens)
        ↔ ∃ parts, Layout source parts tokens)
      ∧ ∀ parts, Layout source parts tokens → Orderly source parts tokens := by
  refine ⟨?_, fun parts layout => layout.orderly⟩
  rw [← Tape.lex_eq_ok_iff, Tape.read]
  constructor
  · intro same
    cases lexed : Tape.lex source with
    | error problem =>
        rw [lexed] at same
        cases same
    | ok _ =>
        rw [lexed] at same
        exact congrArg (Except.ok ∘ Tape.tokens) (Except.ok.inj same)
  · intro lexed
    rw [lexed]
    rfl

/-- A source of fifteen bytes and twelve characters: nothing stands between its first five tokens,
and its comment ends with it. -/
def Tape.unseparated : String :=
  "é\"λ\\n\"(1) ;ü"

def Tape.unseparatedTokens : List Token :=
  [⟨.constant (.atom "é"), 0⟩, ⟨.constant (.str "λ\n"), 2⟩, ⟨.listOpen, 8⟩,
    ⟨.constant (.int 1), 9⟩, ⟨.listClose, 10⟩]

theorem Tape.read_eq_ok_iff_unseparated :
    Tape.read .empty unseparated = .ok (Tape.ofTokens .empty unseparatedTokens)
      ∧ ∃ parts, Layout unseparated parts unseparatedTokens
        ∧ Orderly unseparated parts unseparatedTokens := by
  have read : Tape.read .empty unseparated = .ok (Tape.ofTokens .empty unseparatedTokens) := rfl
  obtain ⟨layouts, orderly⟩ := Tape.read_eq_ok_iff .empty unseparated unseparatedTokens
  obtain ⟨parts, layout⟩ := layouts.mp read
  exact ⟨read, parts, layout, orderly parts layout⟩

end MachineScript
