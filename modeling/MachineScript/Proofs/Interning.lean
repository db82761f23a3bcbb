import Mathlib.Data.Finset.Card
import Mathlib.Order.Fin.Basic
import MachineScript.Interner

/-!
Contract: names stand for texts, whatever is interned and in which order.

Owns:
- the first occurrences in a list of texts, in their order;
- that a table only grows, so that a name once given keeps its text and a text
  its name;
- the names that a sequence of calls gives: one for each text, numbered by first
  occurrence behind the empty text.

Does not own: which texts of a program are interned.
-/

namespace MachineScript

/-! ## First occurrences -/

/-- The distinct members of a list in the order of their first occurrences. -/
structure FirstOccurrences (kept all : List String) : Prop where
  distinct : kept.Nodup
  members : ∀ text, text ∈ kept ↔ text ∈ all
  ordered : kept.Pairwise fun earlier later => all.idxOf earlier < all.idxOf later

namespace FirstOccurrences

variable {kept all : List String} {text : String}

/-- What is said later does not change which of two texts was the first. -/
theorem ordered_append (occurrences : FirstOccurrences kept all) (more : List String) :
    kept.Pairwise fun earlier later => (all ++ more).idxOf earlier < (all ++ more).idxOf later :=
  occurrences.ordered.imp_of_mem fun isEarlier isLater before => by
    rwa [List.idxOf_append_of_mem ((occurrences.members _).mp isEarlier),
      List.idxOf_append_of_mem ((occurrences.members _).mp isLater)]

theorem again (occurrences : FirstOccurrences kept all) (known : text ∈ kept) :
    FirstOccurrences kept (all ++ [text]) where
  distinct := occurrences.distinct
  members other := by
    rw [List.mem_append, List.mem_singleton, ← occurrences.members]
    exact ⟨.inl, fun either => either.elim id fun same => same ▸ known⟩
  ordered := occurrences.ordered_append [text]

theorem new (occurrences : FirstOccurrences kept all) (absent : text ∉ kept) :
    FirstOccurrences (kept ++ [text]) (all ++ [text]) where
  distinct := occurrences.distinct.append (List.nodup_singleton text)
    (List.disjoint_singleton.mpr absent)
  members other := by rw [List.mem_append, List.mem_append, occurrences.members]
  ordered := by
    refine List.pairwise_append.mpr
      ⟨occurrences.ordered_append [text], List.pairwise_singleton _ _, ?_⟩
    intro earlier isEarlier later isLast
    obtain rfl := List.mem_singleton.mp isLast
    have among := (occurrences.members earlier).mp isEarlier
    have nowhere : later ∉ all := fun there => absent ((occurrences.members later).mpr there)
    rw [List.idxOf_append_of_mem among, List.idxOf_append_of_notMem nowhere]
    exact Nat.lt_add_right _ (List.idxOf_lt_length_iff.mpr among)

/-- The order of two first occurrences is that of their places. -/
theorem lt_iff (occurrences : FirstOccurrences kept all) {left right : Nat} {first second : String}
    (isFirst : kept[left]? = some first) (isSecond : kept[right]? = some second) :
    left < right ↔ all.idxOf first < all.idxOf second := by
  have increasing : StrictMono fun place : Fin kept.length => all.idxOf (kept.get place) :=
    fun _ _ => List.pairwise_iff_get.mp occurrences.ordered _ _
  obtain ⟨leftInside, rfl⟩ := List.getElem?_eq_some_iff.mp isFirst
  obtain ⟨rightInside, rfl⟩ := List.getElem?_eq_some_iff.mp isSecond
  exact (increasing.lt_iff_lt (a := ⟨left, leftInside⟩) (b := ⟨right, rightInside⟩)).symm

end FirstOccurrences

theorem firstOccurrences_eraseDups (all : List String) : FirstOccurrences all.eraseDups all := by
  induction all using List.reverseRecOn with
  | nil => exact ⟨List.nodup_nil, fun _ => Iff.rfl, List.Pairwise.nil⟩
  | append_singleton front text inductionHypothesis =>
      rw [List.eraseDups_append]
      by_cases known : text ∈ front
      · rw [show [text].removeAll front = [] by simp [List.removeAll, known]]
        simpa using inductionHypothesis.again ((inductionHypothesis.members text).mpr known)
      · rw [show [text].removeAll front = [text] by simp [List.removeAll, known]]
        exact inductionHypothesis.new fun again =>
          known ((inductionHypothesis.members text).mp again)

namespace Interner

variable {interner later : Interner} {text : String} {name : NameId} {calls : List String}

/-! ## The two directions of a table -/

/-- A number that is given for a text leads back to it. -/
theorem lookup_of_get? (known : interner.get? text = some name) : interner.lookup name = text := by
  unfold lookup
  rw [List.getD_eq_getElem?_getD, (interner.agrees text name).mp known, Option.getD_some]

theorem get?_eq_some_iff :
    interner.get? text = some name ↔ name < interner.size ∧ interner.lookup name = text := by
  constructor
  · intro known
    have placed := (interner.agrees text name).mp known
    exact ⟨(List.getElem?_eq_some_iff.mp placed).1, lookup_of_get? known⟩
  · rintro ⟨inside, resolved⟩
    apply (interner.agrees text name).mpr
    rw [← resolved, lookup, List.getD_eq_getElem?_getD, List.getElem?_eq_getElem inside]
    rfl

theorem mem_texts_iff : text ∈ interner.texts ↔ ∃ name, interner.get? text = some name := by
  rw [List.mem_iff_getElem?]
  exact exists_congr fun name => (interner.agrees text name).symm

/-! ## Growing tables -/

/-- A table that has grown out of another one, which is where it starts. -/
def GrowsTo (interner later : Interner) : Prop :=
  interner.texts <+: later.texts

theorem GrowsTo.lookup (grows : interner.GrowsTo later) (known : name < interner.size) :
    later.lookup name = interner.lookup name := by
  obtain ⟨more, same⟩ := grows
  unfold Interner.lookup
  rw [List.getD_eq_getElem?_getD, List.getD_eq_getElem?_getD, ← same,
    List.getElem?_append_left known]

theorem GrowsTo.get? (grows : interner.GrowsTo later) (known : interner.get? text = some name) :
    later.get? text = some name := by
  obtain ⟨more, same⟩ := grows
  have placed := (interner.agrees text name).mp known
  apply (later.agrees text name).mpr
  rw [← same, List.getElem?_append_left (List.getElem?_eq_some_iff.mp placed).1, placed]

theorem growsTo_intern (interner : Interner) (text : String) :
    interner.GrowsTo (interner.intern text).2 := by
  unfold intern
  split
  · exact List.prefix_rfl
  · exact List.prefix_append _ _

theorem get?_intern (interner : Interner) (text : String) :
    (interner.intern text).2.get? text = some (interner.intern text).1 := by
  unfold intern
  split
  · next name known => exact known
  · exact Bindings.find?_insert_same _ _ _

/-- A text that has a name is given it again. -/
theorem intern_of_get? (known : interner.get? text = some name) :
    interner.intern text = (name, interner) := by
  unfold intern
  split
  · next other given => rw [Option.some.inj (given.symm.trans known)]
  · next absent =>
      rw [absent] at known
      cases known

theorem growsTo_internAll (interner : Interner) (texts : List String) :
    interner.GrowsTo (interner.internAll texts) := by
  induction texts generalizing interner with
  | nil => exact List.prefix_rfl
  | cons text rest inductionHypothesis =>
      exact (interner.growsTo_intern text).trans (inductionHypothesis _)

theorem exists_get?_internAll (interner : Interner) {texts : List String} (member : text ∈ texts) :
    ∃ name, (interner.internAll texts).get? text = some name := by
  induction texts generalizing interner with
  | nil => cases member
  | cons first rest inductionHypothesis =>
      rcases List.mem_cons.mp member with rfl | isRest
      · exact ⟨_, (growsTo_internAll _ rest).get? (interner.get?_intern text)⟩
      · exact inductionHypothesis _ isRest

theorem internAll_append (interner : Interner) (early late : List String) :
    interner.internAll (early ++ late) = (interner.internAll early).internAll late :=
  List.foldl_append

/-! ## What a sequence of calls gives -/

/-- A call adds its text to the first occurrences, unless it has occurred before. -/
theorem firstOccurrences_intern (occurrences : FirstOccurrences interner.texts calls)
    (text : String) : FirstOccurrences (interner.intern text).2.texts (calls ++ [text]) := by
  unfold intern
  split
  · next name known => exact occurrences.again (mem_texts_iff.mpr ⟨name, known⟩)
  · next absent =>
      refine occurrences.new fun there => ?_
      obtain ⟨name, known⟩ := mem_texts_iff.mp there
      rw [absent] at known
      cases known

theorem firstOccurrences_internAll (occurrences : FirstOccurrences interner.texts calls)
    (more : List String) : FirstOccurrences (interner.internAll more).texts (calls ++ more) := by
  induction more generalizing interner calls with
  | nil => rwa [List.append_nil]
  | cons text rest inductionHypothesis =>
      rw [List.append_cons]
      exact inductionHypothesis (firstOccurrences_intern occurrences text)

/-- The table after a sequence of calls that started with the empty one. -/
def after (calls : List String) : Interner :=
  empty.internAll calls

/-- The name that the next call gives its text. -/
def nameAfter (calls : List String) (text : String) : NameId :=
  ((after calls).intern text).1

theorem firstOccurrences_after (calls : List String) :
    FirstOccurrences (after calls).texts ("" :: calls) :=
  firstOccurrences_internAll
    ⟨List.nodup_singleton "", fun _ => Iff.rfl, List.pairwise_singleton _ ""⟩ calls

/-- Texts have a name after they were interned, and it is the one that they are given again. -/
theorem get?_after_iff :
    (after calls).get? text = some name ↔ text ∈ "" :: calls ∧ nameAfter calls text = name := by
  rw [← (firstOccurrences_after calls).members, mem_texts_iff]
  constructor
  · intro known
    exact ⟨⟨name, known⟩, congrArg Prod.fst (intern_of_get? known)⟩
  · rintro ⟨⟨name, known⟩, rfl⟩
    rw [known, nameAfter, intern_of_get? known]

/-- The name that a call gave is in the table after all later calls. -/
theorem get?_after_call {before : List String} (called : before ++ [text] <+: calls) :
    (after calls).get? text = some (nameAfter before text) := by
  obtain ⟨more, rfl⟩ := called
  rw [after, internAll_append, internAll_append]
  exact (growsTo_internAll _ more).get? (get?_intern _ text)

/-- What names stand for after a sequence of calls. One of these was a call with `text`, made after
the calls `before`, if the sequence starts with `before` and then `text`. Each text has a name of
its own, which leads back to it and which it is given whenever it is interned again; no text has a
name but those that were interned and the empty one; and names are numbered without gaps in the
order in which their texts came first, the empty text before all. -/
structure NamesTexts (calls : List String) : Prop where
  distinct : ∀ before first since second,
    before ++ [first] <+: calls → since ++ [second] <+: calls →
      (nameAfter before first = nameAfter since second ↔ first = second)
  resolved : ∀ before text, before ++ [text] <+: calls →
    (after calls).lookup (nameAfter before text) = text
  repeated : ∀ before text, before ++ [text] <+: calls →
    nameAfter calls text = nameAfter before text
  known : ∀ text name,
    (after calls).get? text = some name ↔ text ∈ "" :: calls ∧ nameAfter calls text = name
  inverse : ∀ text name,
    (after calls).get? text = some name
      ↔ name < (after calls).size ∧ (after calls).lookup name = text
  first : (after calls).get? "" = some 0
  dense : ∀ name, name < (after calls).size ↔ ∃ text ∈ "" :: calls, nameAfter calls text = name
  ordered : ∀ earlier ∈ "" :: calls, ∀ later ∈ "" :: calls,
    (nameAfter calls earlier < nameAfter calls later
      ↔ ("" :: calls).idxOf earlier < ("" :: calls).idxOf later)
  counted : (after calls).size = (insert "" calls.toFinset).card

/-- Whatever is interned, names stand for texts one for one. -/
theorem names_texts (calls : List String) : NamesTexts calls where
  distinct before first since second calledFirst calledSecond := by
    have isFirst := get?_after_call calledFirst
    have isSecond := get?_after_call calledSecond
    constructor
    · intro same
      rw [same] at isFirst
      exact (lookup_of_get? isFirst).symm.trans (lookup_of_get? isSecond)
    · rintro rfl
      exact Option.some.inj (isFirst.symm.trans isSecond)
  resolved before text called := lookup_of_get? (get?_after_call called)
  repeated before text called := (get?_after_iff.mp (get?_after_call called)).2
  known _ _ := get?_after_iff
  inverse _ _ := get?_eq_some_iff
  first := (growsTo_internAll empty calls).get? rfl
  dense name := by
    constructor
    · intro inside
      exact ⟨_, get?_after_iff.mp (get?_eq_some_iff.mpr ⟨inside, rfl⟩)⟩
    · rintro ⟨text, given⟩
      exact (get?_eq_some_iff.mp (get?_after_iff.mpr given)).1
  ordered earlier isEarlier later isLater := by
    have placed {text : String} (member : text ∈ "" :: calls) :
        (after calls).texts[nameAfter calls text]? = some text :=
      ((after calls).agrees _ _).mp (get?_after_iff.mpr ⟨member, rfl⟩)
    exact (firstOccurrences_after calls).lt_iff (placed isEarlier) (placed isLater)
  counted := by
    have occurrences := firstOccurrences_after calls
    rw [size, ← List.toFinset_card_of_nodup occurrences.distinct]
    congr 1
    ext text
    simp [occurrences.members]

example : ["b", "a", "b", "", "c"].map (nameAfter ["b", "a"]) = [1, 2, 1, 0, 3] := by decide

end Interner

end MachineScript
