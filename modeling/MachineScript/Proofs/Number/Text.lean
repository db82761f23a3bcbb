import MachineScript.Number.FloatText
import MachineScript.Proofs.Number.Shortest

/-!
Contract: numbers read back from the text in which they are shown.

Owns:
- decimal digits, integers and exponents;
- decimals in either layout: what is read has the same value;
- the characters of those texts;
- every finite float, the zeros included.

Does not own: what tells a number from a name.
-/

namespace MachineScript.Number

variable {text whole fraction rest : List Char} {n : Nat}

/-! ## Digits -/

def AllDigits (text : List Char) : Prop :=
  ∀ c ∈ text, c.isDigit = true

theorem allDigits_digits (n : Nat) : AllDigits (digits n) :=
  fun _ => Nat.isDigit_of_mem_toDigits (by decide) (by decide)

theorem allDigits_replicate (count : Nat) : AllDigits (List.replicate count '0') := by
  intro c member
  rw [(List.mem_replicate.mp member).2]
  rfl

theorem AllDigits.append (left : AllDigits whole) (right : AllDigits fraction) :
    AllDigits (whole ++ fraction) :=
  fun c member => (List.mem_append.mp member).elim (left c) (right c)

theorem digits?_of_allDigits (all : AllDigits text) (nonempty : text ≠ []) :
    digits? text = some (digitsValue text) := by
  refine if_pos ?_
  rw [Bool.and_eq_true_iff, List.all_eq_true]
  exact ⟨by simpa using nonempty, all⟩

theorem digitsValue_digits (n : Nat) : digitsValue (digits n) = n :=
  Nat.ofDigitChars_ten_toDigits

/-- Zeros in front do not count. -/
theorem digitsValue_replicate_append (count : Nat) (text : List Char) :
    digitsValue (List.replicate count '0' ++ text) = digitsValue text := by
  change Nat.ofDigitChars 10 _ 0 = Nat.ofDigitChars 10 _ 0
  rw [Nat.ofDigitChars_append, Nat.ofDigitChars_replicate_zero, Nat.mul_zero]

/-- Zeros behind multiply. -/
theorem digitsValue_append_replicate (text : List Char) (count : Nat) :
    digitsValue (text ++ List.replicate count '0') = 10 ^ count * digitsValue text := by
  change Nat.ofDigitChars 10 _ 0 = _ * Nat.ofDigitChars 10 _ 0
  rw [Nat.ofDigitChars_append, Nat.ofDigitChars_replicate_zero]

theorem digits_ne_nil (n : Nat) : digits n ≠ [] :=
  Nat.toDigits_ne_nil

theorem digits?_digits (n : Nat) : digits? (digits n) = some n := by
  rw [digits?_of_allDigits (allDigits_digits n) (digits_ne_nil n), digitsValue_digits]

/-- A digit is no sign. -/
theorem splitSign_of_isDigit {first : Char} (isDigit : first.isDigit = true) (rest : List Char) :
    splitSign (first :: rest) = (false, first :: rest) := by
  unfold splitSign
  split
  · rename_i same
    cases (List.cons.inj same).1
    cases isDigit
  · rename_i same
    cases (List.cons.inj same).1
    cases isDigit
  · rfl

/-! ## Integers -/

theorem splitSign_intText (exponent : Int) :
    splitSign (intText exponent) = (decide (exponent < 0), digits exponent.natAbs) := by
  unfold intText
  split
  · rename_i negative
    rw [decide_eq_true negative]
    rfl
  · rename_i positive
    obtain ⟨first, others, shown⟩ :=
      List.exists_cons_of_ne_nil (digits_ne_nil exponent.natAbs)
    have isDigit := allDigits_digits exponent.natAbs first (shown ▸ List.mem_cons_self)
    rw [shown, splitSign_of_isDigit isDigit, decide_eq_false positive]

theorem readExponent_intText (exponent : Int) :
    readExponent ('e' :: intText exponent) = some exponent := by
  rw [readExponent, if_pos (.inl rfl), splitSign_intText]
  change (digits? (digits exponent.natAbs) >>= fun magnitude =>
    some (if decide (exponent < 0) = true then -(magnitude : Int) else magnitude)) = some exponent
  rw [digits?_digits]
  exact congrArg some (signed_natAbs exponent)

theorem readInt64_intText (value : Int64) : readInt64 (intText value.toInt) = some value := by
  have range := And.intro value.minValue_le_toInt value.toInt_le
  unfold readInt64
  rw [splitSign_intText]
  change (digits? (digits value.toInt.natAbs) >>= fun magnitude =>
    int64? (if decide (value.toInt < 0) = true then -(magnitude : Int) else magnitude)) = some value
  rw [digits?_digits]
  change int64? (if decide (value.toInt < 0) = true then -(value.toInt.natAbs : Int)
    else value.toInt.natAbs) = some value
  rw [signed_natAbs, int64?, if_pos range, Int64.ofInt_toInt]

/-! ## Decimals -/

/-- No digit stands first. -/
def Stops (text : List Char) : Prop :=
  ∀ c ∈ text.head?, c.isDigit = false

theorem takeWhile_of_stops (all : AllDigits whole) (stops : Stops rest) :
    (whole ++ rest).takeWhile Char.isDigit = whole := by
  rw [List.takeWhile_append_of_pos all]
  cases rest with
  | nil => rw [List.takeWhile_nil, List.append_nil]
  | cons c others =>
      have other : ¬c.isDigit = true := by simpa using stops c rfl
      rw [List.takeWhile_cons_of_neg other, List.append_nil]

theorem dropWhile_of_stops (all : AllDigits whole) (stops : Stops rest) :
    (whole ++ rest).dropWhile Char.isDigit = rest := by
  rw [List.dropWhile_append_of_pos all]
  cases rest with
  | nil => rfl
  | cons c others =>
      have other : ¬c.isDigit = true := by simpa using stops c rfl
      rw [List.dropWhile_cons_of_neg other]

variable {exponent : Int}

theorem readDecimal_of_point (allWhole : AllDigits whole) (allFraction : AllDigits fraction)
    (nonempty : whole ++ fraction ≠ []) (stops : Stops rest)
    (read : readExponent rest = some exponent) :
    readDecimal (whole ++ '.' :: (fraction ++ rest))
      = some (nearestFloat (digitsValue (whole ++ fraction)) (exponent - fraction.length)) := by
  have point : Stops ('.' :: (fraction ++ rest)) := by
    rintro c ⟨⟩
    rfl
  unfold readDecimal
  simp only [takeWhile_of_stops allWhole point, dropWhile_of_stops allWhole point,
    takeWhile_of_stops allFraction stops, dropWhile_of_stops allFraction stops,
    digits?_of_allDigits (allWhole.append allFraction) nonempty, read]
  rfl

theorem readDecimal_of_noExponent (allWhole : AllDigits whole) (allFraction : AllDigits fraction)
    (nonempty : whole ++ fraction ≠ []) :
    readDecimal (whole ++ '.' :: fraction)
      = some (nearestFloat (digitsValue (whole ++ fraction)) (-fraction.length)) := by
  have stops : Stops [] := nofun
  have read := readDecimal_of_point allWhole allFraction nonempty stops rfl
  rwa [List.append_nil, Int.zero_sub] at read

theorem stops_intText (exponent : Int) : Stops ('e' :: intText exponent) := by
  rintro c ⟨⟩
  rfl

theorem readDecimal_of_whole (all : AllDigits whole) (nonempty : whole ≠ []) (exponent : Int) :
    readDecimal (whole ++ 'e' :: intText exponent)
      = some (nearestFloat (digitsValue whole) exponent) := by
  have stops := stops_intText exponent
  unfold readDecimal
  simp only [takeWhile_of_stops all stops, dropWhile_of_stops all stops]
  change (digits? (whole ++ []) >>= fun coefficient => readExponent ('e' :: intText exponent)
    >>= fun power => some (nearestFloat coefficient (power - 0))) = _
  rw [List.append_nil, digits?_of_allDigits all nonempty, readExponent_intText]
  exact congrArg (fun power => some (nearestFloat (digitsValue whole) power)) (Int.sub_zero _)

/-! ## The two layouts -/

/-- A text is read as a decimal of the same value, with a power of ten that is that of the decimal
or is minus one. -/
def ReadsAs (text : List Char) (decimal : Decimal) : Prop :=
  ∃ (coefficient : Nat) (exponent : Int),
    readDecimal text = some (nearestFloat coefficient exponent)
      ∧ (coefficient * 10 ^ exponent : ℚ) = decimal.coefficient * 10 ^ decimal.exponent
      ∧ (exponent = decimal.exponent ∨ exponent = -1)

variable {decimal : Decimal} {point : Int}

theorem scientific_readsAs
    (isPoint : point = (digits decimal.coefficient).length + decimal.exponent) :
    ReadsAs (scientific (digits decimal.coefficient) point) decimal := by
  refine ⟨decimal.coefficient, decimal.exponent, ?_, rfl, .inl rfl⟩
  have all := allDigits_digits decimal.coefficient
  obtain ⟨first, others, shown⟩ :=
    List.exists_cons_of_ne_nil (digits_ne_nil decimal.coefficient)
  have value := digitsValue_digits decimal.coefficient
  rw [shown] at isPoint value all ⊢
  rw [← value]
  cases others with
  | nil =>
      have same : point - 1 = decimal.exponent := by
        rw [isPoint, List.length_singleton]
        omega
      change readDecimal ([first] ++ 'e' :: intText (point - 1)) = _
      rw [same]
      exact readDecimal_of_whole all (List.cons_ne_nil first []) decimal.exponent
  | cons second others =>
      have same : decimal.exponent = point - 1 - (second :: others).length := by
        rw [isPoint, List.length_cons]
        omega
      obtain ⟨isDigit, fraction⟩ := List.forall_mem_cons.mp all
      have whole : AllDigits [first] := List.forall_mem_singleton.mpr isDigit
      change readDecimal ([first] ++ '.' :: ((second :: others) ++ 'e' :: intText (point - 1))) = _
      rw [same]
      exact readDecimal_of_point whole fraction (List.cons_ne_nil _ _) (stops_intText _)
        (readExponent_intText _)

theorem readsAs_of_point_nonpos {shown : List Char} (all : AllDigits shown)
    (value : digitsValue shown = decimal.coefficient)
    (isPoint : point = shown.length + decimal.exponent) (small : point ≤ 0) :
    ReadsAs (['0', '.'] ++ List.replicate (-point).toNat '0' ++ shown) decimal := by
  refine ⟨decimal.coefficient, decimal.exponent, ?_, rfl, .inl rfl⟩
  have zero : AllDigits ['0'] := allDigits_replicate 1
  have read := readDecimal_of_noExponent zero
    ((allDigits_replicate (-point).toNat).append all) (List.cons_ne_nil _ _)
  have places : -((List.replicate (-point).toNat '0' ++ shown).length : Int)
      = decimal.exponent := by
    rw [List.length_append, List.length_replicate]
    omega
  have digits : digitsValue (['0'] ++ (List.replicate (-point).toNat '0' ++ shown))
      = decimal.coefficient := by
    rw [← value, ← digitsValue_replicate_append (-point).toNat shown]
    exact digitsValue_replicate_append 1 _
  rw [places, digits] at read
  rw [List.append_assoc]
  exact read

theorem readsAs_of_point_among {shown : List Char} (all : AllDigits shown) (nonempty : shown ≠ [])
    (value : digitsValue shown = decimal.coefficient)
    (isPoint : point = shown.length + decimal.exponent) (large : ¬point ≤ 0)
    (among : point < shown.length) :
    ReadsAs (shown.take point.toNat ++ ['.'] ++ shown.drop point.toNat) decimal := by
  refine ⟨decimal.coefficient, decimal.exponent, ?_, rfl, .inl rfl⟩
  have whole : AllDigits (shown.take point.toNat) := fun c member =>
    all c (List.mem_of_mem_take member)
  have fraction : AllDigits (shown.drop point.toNat) := fun c member =>
    all c (List.mem_of_mem_drop member)
  have parts : shown.take point.toNat ++ shown.drop point.toNat ≠ [] := by
    rwa [List.take_append_drop]
  have read := readDecimal_of_noExponent whole fraction parts
  have places : -((shown.drop point.toNat).length : Int) = decimal.exponent := by
    rw [List.length_drop]
    omega
  rw [places, List.take_append_drop, value] at read
  rw [List.append_assoc]
  exact read

/-- The zeros up to the point, and the one behind it, count as digits of a larger coefficient. -/
theorem readsAs_of_point_behind {shown : List Char} (all : AllDigits shown)
    (value : digitsValue shown = decimal.coefficient)
    (isPoint : point = shown.length + decimal.exponent) (large : ¬point ≤ 0)
    (behind : ¬point < shown.length) :
    ReadsAs (shown ++ List.replicate (point.toNat - shown.length) '0' ++ ['.', '0']) decimal := by
  refine ⟨10 ^ (point.toNat - shown.length + 1) * decimal.coefficient, -1, ?_, ?_, .inr rfl⟩
  · have whole := all.append (allDigits_replicate (point.toNat - shown.length))
    have zero : AllDigits ['0'] := allDigits_replicate 1
    have read := readDecimal_of_noExponent whole zero (by simp)
    have digits : digitsValue (shown ++ List.replicate (point.toNat - shown.length) '0' ++ ['0'])
        = 10 ^ (point.toNat - shown.length + 1) * decimal.coefficient := by
      rw [← value, ← digitsValue_append_replicate, List.replicate_succ', ← List.append_assoc]
    rw [digits] at read
    exact read
  · have places : ((point.toNat - shown.length : Nat) : Int) = decimal.exponent := by omega
    push_cast
    rw [← places, zpow_natCast, pow_succ]
    field_simp

theorem positional_readsAs
    (isPoint : point = (digits decimal.coefficient).length + decimal.exponent) :
    ReadsAs (positional (digits decimal.coefficient) point) decimal := by
  have all := allDigits_digits decimal.coefficient
  have nonempty := digits_ne_nil decimal.coefficient
  have value := digitsValue_digits decimal.coefficient
  unfold positional
  split
  next small => exact readsAs_of_point_nonpos all value isPoint small
  next large =>
    split
    next among => exact readsAs_of_point_among all nonempty value isPoint large among
    next behind => exact readsAs_of_point_behind all value isPoint large behind

theorem text_readsAs (layout : Layout) (decimal : Decimal) :
    ReadsAs (decimal.text layout) decimal := by
  unfold Decimal.text
  dsimp only
  split
  · exact positional_readsAs rfl
  · exact scientific_readsAs rfl

/-- A digit stands first in either layout. -/
theorem text_startsWithDigit (layout : Layout) (decimal : Decimal) :
    ∃ first others, decimal.text layout = first :: others ∧ first.isDigit = true := by
  have all := allDigits_digits decimal.coefficient
  obtain ⟨first, others, shown⟩ :=
    List.exists_cons_of_ne_nil (digits_ne_nil decimal.coefficient)
  rw [shown] at all
  have isDigit := all first List.mem_cons_self
  unfold Decimal.text
  simp only [shown]
  split
  · unfold positional
    split
    · exact ⟨'0', _, rfl, rfl⟩
    · split
      · rename_i large _
        obtain ⟨before, isSucc⟩ := Nat.exists_eq_add_one_of_ne_zero
          (show Int.toNat _ ≠ 0 from Nat.ne_of_gt (Int.pos_iff_toNat_pos.mp (not_le.mp large)))
        rw [isSucc]
        exact ⟨first, _, rfl, isDigit⟩
      · exact ⟨first, _, rfl, isDigit⟩
  · exact ⟨first, _, rfl, isDigit⟩

/-! ## Characters -/

/-- The characters of which the texts of finite numbers consist. -/
def WrittenAsNumber (text : List Char) : Prop :=
  ∀ c ∈ text, c.isDigit = true ∨ c ∈ ['-', '.', 'e']

instance (text : List Char) : Decidable (WrittenAsNumber text) :=
  List.decidableBAll _ text

theorem WrittenAsNumber.append (left : WrittenAsNumber whole) (right : WrittenAsNumber rest) :
    WrittenAsNumber (whole ++ rest) :=
  fun c member => (List.mem_append.mp member).elim (left c) (right c)

theorem AllDigits.writtenAsNumber (all : AllDigits text) : WrittenAsNumber text :=
  fun c member => .inl (all c member)

theorem AllDigits.take (all : AllDigits text) (count : Nat) : AllDigits (text.take count) :=
  fun c member => all c (List.mem_of_mem_take member)

theorem AllDigits.drop (all : AllDigits text) (count : Nat) : AllDigits (text.drop count) :=
  fun c member => all c (List.mem_of_mem_drop member)

theorem writtenAsNumber_intText (n : Int) : WrittenAsNumber (intText n) := by
  have digits := (allDigits_digits n.natAbs).writtenAsNumber
  have minus : WrittenAsNumber ['-'] := by decide
  unfold intText
  split
  · exact minus.append digits
  · exact digits

theorem writtenAsNumber_positional (all : AllDigits text) (point : Int) :
    WrittenAsNumber (positional text point) := by
  have zeros (count : Nat) := (allDigits_replicate count).writtenAsNumber
  unfold positional
  split
  · have before : WrittenAsNumber ['0', '.'] := by decide
    exact (before.append (zeros _)).append all.writtenAsNumber
  · split
    · have among : WrittenAsNumber ['.'] := by decide
      exact ((all.take _).writtenAsNumber.append among).append (all.drop _).writtenAsNumber
    · have behind : WrittenAsNumber ['.', '0'] := by decide
      exact (all.writtenAsNumber.append (zeros _)).append behind

theorem writtenAsNumber_scientific (all : AllDigits text) (point : Int) :
    WrittenAsNumber (scientific text point) := by
  have mark : WrittenAsNumber ['e'] := by decide
  have fraction : WrittenAsNumber
      (if (text.drop 1).isEmpty then [] else '.' :: text.drop 1) := by
    split
    · decide
    · have among : WrittenAsNumber ['.'] := by decide
      exact among.append (all.drop 1).writtenAsNumber
  exact ((all.take 1).writtenAsNumber.append fraction).append
    (mark.append (writtenAsNumber_intText _))

theorem writtenAsNumber_text (layout : Layout) (decimal : Decimal) :
    WrittenAsNumber (decimal.text layout) := by
  have all := allDigits_digits decimal.coefficient
  unfold Decimal.text
  dsimp only
  split
  · exact writtenAsNumber_positional all _
  · exact writtenAsNumber_scientific all _

/-- A decimal has a point or an exponent in either layout. -/
theorem point_or_exponent_mem_text (layout : Layout) (decimal : Decimal) :
    '.' ∈ decimal.text layout ∨ 'e' ∈ decimal.text layout := by
  unfold Decimal.text
  dsimp only
  split
  · left
    unfold positional
    split
    · exact List.mem_append_left _ (List.mem_append_left _ (by decide))
    · split
      · exact List.mem_append_left _ (List.mem_append_right _ (by decide))
      · exact List.mem_append_right _ (by decide)
  · exact .inr (List.mem_append_right _ List.mem_cons_self)

/-! ## Floats -/

variable {magnitude : Dyadic} {negative : Bool} {x : Float}

/-- The shortest decimal of a float, in either layout, is read as that float. -/
theorem readDecimal_shortestDecimal (canonical : magnitude.IsCanonical) (layout : Layout) :
    readDecimal ((shortestDecimal magnitude).text layout)
      = some (signedFloat false magnitude canonical.positive) := by
  obtain ⟨coefficient, exponent, read, same, power⟩ :=
    text_readsAs layout (shortestDecimal magnitude)
  obtain ⟨contains, -⟩ := shortestDecimal_found canonical
  have range := shortestDecimal_exponent canonical
  have nonzero : 0 < coefficient := by
    by_contra none
    rw [Nat.eq_zero_of_not_pos none, Nat.cast_zero, zero_mul] at same
    have : (0 : ℚ) < (shortestDecimal magnitude).coefficient := by
      exact_mod_cast shortestDecimal_nonzero canonical
    have : (0 : ℚ) < (shortestDecimal magnitude).coefficient
        * 10 ^ (shortestDecimal magnitude).exponent := by positivity
    exact absurd same this.ne
  rw [← same] at contains
  rw [read, nearestFloat_of_contains canonical nonzero (by omega) (by omega) contains]

/-- A sign in front of a decimal is that of the float. -/
theorem readFloat_of_readDecimal {first : Char} (starts : text = first :: rest)
    (isDigit : first.isDigit = true) (read : readDecimal text = some x) (negative : Bool) :
    readFloat ((if negative then ['-'] else []) ++ text) = some (if negative then -x else x) := by
  have split : splitSign ((if negative then ['-'] else []) ++ text) = (negative, text) := by
    cases negative with
    | true => rfl
    | false => exact starts ▸ splitSign_of_isDigit isDigit rest
  rw [readFloat, split]
  change ((readDecimal text).or (namedFloat text) >>= fun magnitude =>
    some (if negative = true then -magnitude else magnitude)) = _
  rw [read]
  rfl

/-- Every finite float is read back from its text. -/
theorem readFloat_text (finite : floatShape x = .finite negative magnitude) :
    readFloat (floatShape x).text = some x := by
  rw [finite, FloatShape.text]
  by_cases zero : magnitude.mantissa = 0
  · rw [if_pos zero, eq_zero_of_finite finite zero]
    exact readFloat_of_readDecimal rfl rfl rfl negative
  · obtain ⟨canonical, rfl⟩ := eq_signedFloat_of_finite finite (Nat.pos_of_ne_zero zero)
    obtain ⟨first, others, starts, isDigit⟩ :=
      text_startsWithDigit floatLayout (shortestDecimal magnitude)
    rw [if_neg zero, readFloat_of_readDecimal starts isDigit
      (readDecimal_shortestDecimal canonical floatLayout)]
    cases negative with
    | true => exact congrArg some (neg_signedFloat canonical)
    | false => rfl

end MachineScript.Number
