import Mathlib.Data.List.Basic

/-!
Contract: texts as the bytes of their UTF-8 encoding.

Owns:
- the bytes of a text, one character after another;
- that the byte of an ASCII character stands for this character only, so that
  bytes can be cut at it and the cut falls between characters;
- that a text is determined by its bytes, from the front on.

Does not own: what the characters of a source mean.
-/

namespace MachineScript

/-- The bytes of characters in UTF-8. -/
def encode (chars : List Char) : List UInt8 :=
  chars.flatMap String.utf8EncodeChar

/-- The bytes of a text in UTF-8. -/
def textBytes (text : String) : List UInt8 :=
  text.toByteArray.data.toList

/-- A character with a byte of its own. -/
def IsAscii (c : Char) : Prop :=
  c.toNat ≤ 127

instance (c : Char) : Decidable (IsAscii c) :=
  inferInstanceAs (Decidable (c.toNat ≤ 127))

variable {chars early late : List Char} {front back : List UInt8} {c mark : Char} {byte : UInt8}

theorem encode_append (early late : List Char) :
    encode (early ++ late) = encode early ++ encode late :=
  List.flatMap_append

theorem encode_cons (c : Char) (chars : List Char) :
    encode (c :: chars) = String.utf8EncodeChar c ++ encode chars :=
  List.flatMap_cons

theorem eq_nil_of_encode_eq_nil (empty : encode chars = []) : chars = [] := by
  cases chars with
  | nil => rfl
  | cons c rest =>
      rw [encode_cons] at empty
      exact absurd (List.append_eq_nil_iff.mp empty).1 String.utf8EncodeChar_ne_nil

theorem encode_ne_nil (nonempty : chars ≠ []) : encode chars ≠ [] :=
  mt eq_nil_of_encode_eq_nil nonempty

theorem textBytes_eq (text : String) : textBytes text = encode text.toList := by
  unfold textBytes encode
  rw [← String.utf8Encode_toList, List.utf8Encode, List.data_toByteArray]

theorem textBytes_ofList (chars : List Char) : textBytes (String.ofList chars) = encode chars := by
  rw [textBytes_eq, String.toList_ofList]

theorem length_textBytes (text : String) : (textBytes text).length = text.utf8ByteSize := rfl

/-! ## Bytes of ASCII characters -/

/-- An ASCII character has one byte. -/
theorem encodeChar_of_ascii (ascii : IsAscii c) : String.utf8EncodeChar c = [c.toUInt8] := by
  unfold String.utf8EncodeChar
  exact if_pos ascii

/-- No other character has a byte in the range of ASCII. -/
theorem lt_of_mem_encodeChar (notAscii : ¬IsAscii c) (member : byte ∈ String.utf8EncodeChar c) :
    127 < byte.toNat := by
  have high : ¬c.val.toNat ≤ 127 := notAscii
  unfold String.utf8EncodeChar at member
  simp only [if_neg high] at member
  split_ifs at member <;> simp only [List.mem_cons, List.not_mem_nil, or_false] at member <;>
    rcases member with rfl | rfl | rfl | rfl <;> simp only [UInt8.toNat_ofNat'] <;> omega

theorem toNat_toUInt8 (ascii : IsAscii c) : c.toUInt8.toNat = c.toNat :=
  Nat.mod_eq_of_lt (Nat.lt_of_le_of_lt ascii (by decide))

/-- The byte of an ASCII character occurs in this character only. -/
theorem mem_encodeChar_iff (ascii : IsAscii mark) :
    mark.toUInt8 ∈ String.utf8EncodeChar c ↔ c = mark := by
  constructor
  · intro member
    by_cases low : IsAscii c
    · rw [encodeChar_of_ascii low, List.mem_singleton] at member
      have same := congrArg UInt8.toNat member
      rw [toNat_toUInt8 ascii, toNat_toUInt8 low] at same
      exact (Char.toNat_inj.mp same).symm
    · have high := lt_of_mem_encodeChar low member
      rw [toNat_toUInt8 ascii] at high
      exact absurd ascii (Nat.not_le_of_lt high)
  · rintro rfl
    rw [encodeChar_of_ascii ascii]
    exact List.mem_singleton_self _

theorem mem_encode_iff (ascii : IsAscii mark) : mark.toUInt8 ∈ encode chars ↔ mark ∈ chars := by
  unfold encode
  rw [List.mem_flatMap]
  constructor
  · rintro ⟨c, member, there⟩
    exact (mem_encodeChar_iff ascii).mp there ▸ member
  · exact fun member => ⟨mark, member, (mem_encodeChar_iff ascii).mpr rfl⟩

/-! ## Cuts -/

/-- A cut in front of the byte of an ASCII character falls between characters, and so does the one
behind it. -/
theorem exists_of_encode_eq_append_cons (ascii : IsAscii mark)
    (bytes : encode chars = front ++ mark.toUInt8 :: back) :
    ∃ early late, chars = early ++ mark :: late ∧ encode early = front ∧ encode late = back := by
  induction chars generalizing front with
  | nil => cases (List.append_eq_nil_iff.mp bytes.symm).2
  | cons c rest inductionHypothesis =>
      rw [encode_cons, List.append_eq_append_iff] at bytes
      rcases bytes with ⟨middle, rfl, bytes⟩ | ⟨middle, same, bytes⟩
      · obtain ⟨early, late, rfl, rfl, rfl⟩ := inductionHypothesis bytes
        exact ⟨c :: early, late, rfl, encode_cons c early, rfl⟩
      · cases middle with
        | nil =>
            obtain ⟨early, late, rfl, isEmpty, rfl⟩ := @inductionHypothesis [] bytes.symm
            rw [List.append_nil] at same
            exact ⟨c :: early, late, rfl, by rw [encode_cons, isEmpty, List.append_nil, same], rfl⟩
        | cons first others =>
            obtain ⟨rfl, rfl⟩ := List.cons.inj bytes
            have isMark : c = mark := by
              rw [← mem_encodeChar_iff ascii, same]
              exact List.mem_append_right _ List.mem_cons_self
            subst isMark
            rw [encodeChar_of_ascii ascii] at same
            rcases List.singleton_eq_append_iff.mp same with ⟨rfl, alone⟩ | ⟨_, absent⟩
            · obtain ⟨_, rfl⟩ := List.cons.inj alone
              exact ⟨[], rest, rfl, rfl, rfl⟩
            · cases absent

/-- What follows a text in the bytes of another is the bytes of characters again. -/
theorem exists_of_encode_eq_append (bytes : encode chars = encode early ++ back) :
    ∃ late, chars = early ++ late ∧ encode late = back := by
  induction early generalizing chars with
  | nil => exact ⟨chars, rfl, bytes⟩
  | cons c rest inductionHypothesis =>
      rw [encode_cons, List.append_assoc] at bytes
      cases chars with
      | nil => exact absurd (List.append_eq_nil_iff.mp bytes.symm).1 String.utf8EncodeChar_ne_nil
      | cons first others =>
          rw [encode_cons] at bytes
          have decoded := congrArg (fun bytes => bytes.toByteArray.utf8DecodeChar? 0) bytes
          simp only [List.toByteArray_append,
            ByteArray.utf8DecodeChar?_utf8EncodeChar_append] at decoded
          have same : first = c := Option.some.inj decoded
          subst same
          obtain ⟨late, rfl, after⟩ := inductionHypothesis (List.append_cancel_left bytes)
          exact ⟨late, rfl, after⟩

theorem encode_injective : Function.Injective encode := by
  intro chars early same
  obtain ⟨late, rfl, after⟩ :=
    @exists_of_encode_eq_append chars early [] (same.trans (List.append_nil _).symm)
  rw [eq_nil_of_encode_eq_nil after, List.append_nil]

/-- A text can be cut behind the bytes of characters. -/
theorem isValid_of_textBytes_eq {text : String} (bytes : textBytes text = encode early ++ back) :
    String.Pos.Raw.IsValid text ⟨(encode early).length⟩ := by
  rw [textBytes_eq] at bytes
  obtain ⟨late, same, _⟩ := exists_of_encode_eq_append bytes
  rw [String.Pos.Raw.isValid_iff_exists_append]
  refine ⟨String.ofList early, String.ofList late, ?_, ?_⟩
  · rw [← String.ofList_append, ← same, String.ofList_toList]
  · rw [← textBytes_ofList]
    rfl

end MachineScript
