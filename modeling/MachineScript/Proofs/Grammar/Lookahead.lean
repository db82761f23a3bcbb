import Mathlib.Tactic.IntervalCases
import MachineScript.Proofs.Grammar.Closing

/-!
Contract: the compiler blames a token for what stands up to it.

Owns:
- the causes that the token at fault decides, and those that a later one does;
- two tapes that agree up to a place: each reader does on the second what it
  does on the first, as long as it does not come to that place;
- that a failure stays the same, however a tape goes on behind the token that
  is blamed.

Does not own: which token is blamed, and for what.
-/

namespace MachineScript

/-- A cause that is known as soon as the token is read that it is about. The end of a tape stands
behind all of its tokens; a definition is read whole before its name is found to be taken, and a
requirement before its library is found to be unknown. -/
def CompileCause.isImmediate : CompileCause → Bool
  | .unexpectedEnd _ | .duplicateDefinition _ _ | .unknownLibrary _ => false
  | _ => true

/-! ## Places of two tapes -/

namespace Tape

/-- Two tapes have the same tokens at all positions before one. -/
def AgreeBefore (first second : Tape) (stop : Nat) : Prop :=
  ∀ position, position < stop → second.tokens[position]? = first.tokens[position]?

variable {first second : Tape} {stop position : Nat}

@[simp] theorem next_cursor (tape : Tape) (position : Nat) :
    (tape.cursor position).next = tape.cursor (position + 1) := by
  unfold cursor Cursor.next
  rw [List.tail_drop]

theorem lexeme_cursor (tape : Tape) (position : Nat) (construct : Construct) :
    (tape.cursor position).lexeme construct
      = match tape.tokens[position]? with
        | some token => .ok token.lexeme
        | none => (tape.cursor position).fail (.unexpectedEnd construct) := by
  rw [← List.head?_drop]
  unfold Cursor.lexeme cursor
  cases tape.tokens.drop position <;> rfl

theorem offset_cursor (tape : Tape) (position : Nat) :
    (tape.cursor position).offset = (tape.tokens[position]?.map Token.offset).getD 0 := by
  rw [← List.head?_drop]
  unfold Cursor.offset cursor
  cases tape.tokens.drop position <;> rfl

theorem AgreeBefore.offset (agree : first.AgreeBefore second stop) (before : position < stop) :
    (second.cursor position).offset = (first.cursor position).offset := by
  rw [offset_cursor, offset_cursor, agree position before]

end Tape

/-- An opening bracket stands at a place. -/
def Cursor.Opens (cursor : Cursor) : Prop :=
  ∀ construct, cursor.lexeme construct = .ok .listOpen

theorem Cursor.Opens.expectOpen {cursor : Cursor} (opens : cursor.Opens) (construct : Construct) :
    cursor.expectOpen construct = .ok () := by
  unfold Cursor.expectOpen
  rw [opens construct]
  rfl

theorem Cursor.opens_of_lexeme {cursor : Cursor} {construct : Construct}
    (seen : cursor.lexeme construct = .ok .listOpen) : cursor.Opens :=
  fun other => (passes_of_lexeme seen).lexeme other

namespace Form

variable {α β : Type} {first second : Tape} {stop low position : Nat}

/-! ## Readings of two tapes -/

/-- A check that looks at one place of a tape comes to the same result on another one, if the place
lies before the end of what they have in common. -/
def Sees (first second : Tape) (stop position : Nat) (reading other : Except Failure α) : Prop :=
  match reading with
  | .ok value => position < stop → other = .ok value
  | .error failure => failure.cause.isImmediate = true →
      failure.cursor = first.cursor position
        ∧ (position < stop → other = .error ⟨failure.cause, second.cursor position⟩)

/-- A reading of a tape ends at `low` or later, and so does a reading of another one, in the same
way, if the end lies before the end of what the tapes have in common. -/
def Follows (first second : Tape) (stop low : Nat) (reading other : Except Failure (α × Cursor)) :
    Prop :=
  match reading with
  | .ok (content, after) => ∃ position, low ≤ position ∧ after = first.cursor position
      ∧ (position < stop → other = .ok (content, second.cursor position))
  | .error failure => failure.cause.isImmediate = true → ∃ position, low ≤ position
      ∧ failure.cursor = first.cursor position
      ∧ (position < stop → other = .error ⟨failure.cause, second.cursor position⟩)

/-! ### Results that follow -/

namespace Follows

variable {reading other another : Except Failure (α × Cursor)} {content otherContent : α}

theorem ok (reached : low ≤ position) (same : position < stop → otherContent = content) :
    Follows first second stop low (.ok (content, first.cursor position))
      (.ok (otherContent, second.cursor position)) :=
  ⟨position, reached, rfl, fun before => by rw [same before]⟩

theorem fail (reached : low ≤ position) (cause : CompileCause) :
    Follows (α := α) first second stop low ((first.cursor position).fail cause)
      ((second.cursor position).fail cause) :=
  fun _ => ⟨position, reached, rfl, fun _ => rfl⟩

/-- Nothing is said about a failure that a later token decides. -/
theorem of_late {failure : Failure} (late : failure.cause.isImmediate = false) :
    Follows first second stop low (.error failure) other := by
  intro immediate
  rw [late] at immediate
  cases immediate

/-- What the other reading does matters only before the end of what the tapes have in common. -/
theorem congr (follows : Follows first second stop low reading other)
    (same : low < stop → another = other) : Follows first second stop low reading another := by
  unfold Follows at follows ⊢
  split at follows
  · obtain ⟨position, reached, ended, alike⟩ := follows
    refine ⟨position, reached, ended, fun before => ?_⟩
    rw [same (Nat.lt_of_le_of_lt reached before)]
    exact alike before
  · intro immediate
    obtain ⟨position, reached, ended, alike⟩ := follows immediate
    refine ⟨position, reached, ended, fun before => ?_⟩
    rw [same (Nat.lt_of_le_of_lt reached before)]
    exact alike before

theorem weaken {lower : Nat} (follows : Follows first second stop low reading other)
    (below : lower ≤ low) : Follows first second stop lower reading other := by
  unfold Follows at follows ⊢
  split at follows
  · obtain ⟨position, reached, alike⟩ := follows
    exact ⟨position, Nat.le_trans below reached, alike⟩
  · intro immediate
    obtain ⟨position, reached, alike⟩ := follows immediate
    exact ⟨position, Nat.le_trans below reached, alike⟩

/-- A reading goes on where its first part has ended. -/
theorem bind {next nextOther : α × Cursor → Except Failure (β × Cursor)}
    (follows : Follows first second stop low reading other)
    (goesOn : ∀ content position, low ≤ position →
      reading = .ok (content, first.cursor position) →
      Follows first second stop position (next (content, first.cursor position))
        (nextOther (content, second.cursor position))) :
    Follows first second stop low (reading >>= next) (other >>= nextOther) := by
  cases reading with
  | error failure =>
      intro immediate
      obtain ⟨position, reached, ended, alike⟩ := follows immediate
      refine ⟨position, reached, ended, fun before => ?_⟩
      rw [alike before]
      rfl
  | ok result =>
      obtain ⟨content, after⟩ := result
      obtain ⟨position, reached, rfl, alike⟩ := follows
      refine ((goesOn content position reached rfl).congr fun before => ?_).weaken reached
      rw [alike before]
      rfl

/-- A reader of which the fuel lasts up to the end of what the tapes have in common may be taken to
have some. -/
theorem of_succ (family : Nat → Except Failure (α × Cursor)) {bound fuel : Nat}
    (enough : bound ≤ low + fuel) (beyond : stop ≤ bound)
    (follows : ∀ less, bound ≤ low + (less + 1) →
      Follows first second stop low reading (family (less + 1))) :
    Follows first second stop low reading (family fuel) := by
  by_cases before : low < stop
  · obtain ⟨less, rfl⟩ : ∃ less, fuel = less + 1 := ⟨fuel - 1, by omega⟩
    exact follows less enough
  · exact (follows bound (by omega)).congr fun early => absurd early before

end Follows

/-- Where constructs end behind the matching bracket, the check of that may be left out. -/
theorem verified_eq {opening : Cursor} {construct : Construct}
    {reading : Except Failure (α × Cursor)}
    (encloses : ∀ content after, reading = .ok (content, after) → opening.Encloses after) :
    verified opening construct reading = reading := by
  cases reading with
  | error failure => rfl
  | ok result =>
      obtain ⟨content, after⟩ := result
      have closed := (encloses content after rfl).verifyClosed construct
      simp only [verified, bind, Except.bind, closed]

/-! ### Checks that follow -/

namespace Sees

theorem ok (value : α) : Sees first second stop position (.ok value) (.ok value) :=
  fun _ => rfl

theorem fail (cause : CompileCause) :
    Sees (α := α) first second stop position ((first.cursor position).fail cause)
      ((second.cursor position).fail cause) :=
  fun _ => ⟨rfl, fun _ => rfl⟩

variable {reading other : Except Failure α}

/-- A check of a place may be followed by another one. -/
theorem andThen {next nextOther : α → Except Failure β}
    (sees : Sees first second stop position reading other)
    (goesOn : ∀ value, Sees first second stop position (next value) (nextOther value)) :
    Sees first second stop position (reading >>= next) (other >>= nextOther) := by
  cases reading with
  | error failure =>
      intro immediate
      obtain ⟨ended, alike⟩ := sees immediate
      refine ⟨ended, fun before => ?_⟩
      rw [alike before]
      rfl
  | ok value =>
      have goesOn := goesOn value
      change Sees first second stop position (next value) _
      unfold Sees at goesOn ⊢
      split at goesOn
      · intro before
        rw [sees before]
        exact goesOn before
      · intro immediate
        obtain ⟨ended, alike⟩ := goesOn immediate
        refine ⟨ended, fun before => ?_⟩
        rw [sees before]
        exact alike before

/-- A reading goes on behind a check of the place where it stands. -/
theorem bind {next nextOther : α → Except Failure (β × Cursor)}
    (sees : Sees first second stop position reading other)
    (goesOn : ∀ value, reading = .ok value →
      Follows first second stop position (next value) (nextOther value)) :
    Follows first second stop position (reading >>= next) (other >>= nextOther) := by
  cases reading with
  | error failure =>
      intro immediate
      obtain ⟨ended, alike⟩ := sees immediate
      refine ⟨position, Nat.le_refl _, ended, fun before => ?_⟩
      rw [alike before]
      rfl
  | ok value =>
      refine (goesOn value rfl).congr fun before => ?_
      rw [sees before]
      rfl

/-- Behind a check that is known to hold, a reading goes on from a later place. -/
theorem pass {next nextOther : α → Except Failure (β × Cursor)} {value : α}
    (sees : Sees first second stop position reading other) (passed : reading = .ok value)
    (below : position ≤ low)
    (goesOn : Follows first second stop low (next value) (nextOther value)) :
    Follows first second stop low (reading >>= next) (other >>= nextOther) := by
  subst passed
  refine goesOn.congr fun before => ?_
  rw [sees (Nat.lt_of_le_of_lt below before)]
  rfl

end Sees

/-! ## Readers of tokens -/

section

variable (agree : first.AgreeBefore second stop)

include agree

theorem lexeme_sees (position : Nat) (construct : Construct) :
    Sees first second stop position ((first.cursor position).lexeme construct)
      ((second.cursor position).lexeme construct) := by
  rw [Tape.lexeme_cursor, Tape.lexeme_cursor]
  cases found : first.tokens[position]? with
  | none => exact nofun
  | some token =>
      intro before
      rw [agree position before, found]

theorem expectOpen_sees (position : Nat) (construct : Construct) :
    Sees first second stop position ((first.cursor position).expectOpen construct)
      ((second.cursor position).expectOpen construct) := by
  apply (lexeme_sees agree position construct).andThen
  intro lexeme
  cases lexeme with
  | listOpen => exact .ok _
  | listClose | constant => exact .fail _

theorem name_sees (position : Nat) (keyword : Keyword) (construct : Construct) :
    Sees first second stop position ((first.cursor position).name keyword construct)
      ((second.cursor position).name keyword construct) := by
  apply (lexeme_sees agree position construct).andThen
  intro lexeme
  split
  · split
    · exact .fail _
    · exact .ok _
  · exact .fail _

theorem readOpener_sees (construct : Construct) (position : Nat) :
    Sees first second stop position (readOpener construct (first.cursor position))
      (readOpener construct (second.cursor position)) := by
  apply (lexeme_sees agree position construct).andThen
  intro lexeme
  split
  · split
    · split
      · exact .ok _
      · exact .fail _
    · split
      · exact .ok _
      · exact .fail _
    · exact .fail _
  · exact .fail _

theorem readParameters_follows (fuel : Nat) {position fuelToo : Nat}
    (enough : stop + 1 ≤ position + fuelToo) :
    Follows first second stop position (readParameters fuel (first.cursor position))
      (readParameters fuelToo (second.cursor position)) := by
  induction fuel generalizing position fuelToo with
  | zero => exact .of_late rfl
  | succ fuel inductionHypothesis =>
      refine .of_succ (readParameters · (second.cursor position)) enough (Nat.le_succ stop)
        fun less enough => ?_
      rw [readParameters, readParameters]
      apply (lexeme_sees agree position .function).bind
      intro lexeme _
      simp only [Tape.next_cursor]
      split
      · exact .ok (Nat.le_succ _) fun _ => rfl
      · split
        · exact .fail (Nat.le_refl _) _
        · have others := (inductionHypothesis (by omega :
            stop + 1 ≤ position + 1 + less)).weaken (Nat.le_succ position)
          exact others.bind fun _ _ _ _ => .ok (Nat.le_refl _) fun _ => rfl
      · exact .fail (Nat.le_refl _) _

theorem readRequirement_follows (libraries : List String) (position : Nat) :
    Follows first second stop position (readRequirement libraries (first.cursor position))
      (readRequirement libraries (second.cursor position)) := by
  unfold readRequirement
  simp only [Tape.next_cursor]
  refine Follows.weaken ?_ (Nat.le_succ position)
  apply (lexeme_sees agree (position + 1) .root).bind
  intro lexeme _
  split
  · refine Follows.weaken ?_ (Nat.le_succ (position + 1))
    apply (lexeme_sees agree (position + 1 + 1) .root).bind
    intro closing _
    split
    · split
      · exact .ok (Nat.le_succ _) fun _ => rfl
      · exact .of_late rfl
    · exact .fail (Nat.le_refl _) _
  · exact .fail (Nat.le_refl _) _

theorem readTransfer_follows (owner : Owner) (transfer : Transfer) (position : Nat) :
    Follows first second stop (position + 1)
      (readTransfer owner transfer (first.cursor position))
      (readTransfer owner transfer (second.cursor position)) := by
  unfold readTransfer
  simp only [Tape.next_cursor]
  split
  · exact .fail (Nat.le_refl _) _
  · refine Follows.weaken ?_ (Nat.le_succ (position + 1))
    apply (lexeme_sees agree (position + 2) .state).bind
    intro lexeme _
    split
    · split
      · exact .fail (Nat.le_refl _) _
      · refine Follows.weaken ?_ (Nat.le_succ (position + 2))
        apply (lexeme_sees agree (position + 3) .state).bind
        intro closing _
        split
        · refine .ok (Nat.le_succ _) fun before => ?_
          rw [agree.offset (by omega)]
        · exact .fail (Nat.le_refl _) _
    · exact .fail (Nat.le_refl _) _

/-! ## Readers of values -/

mutual

theorem readArguments_follows (construct : Construct) :
    ∀ (fuel : Nat) {position fuelToo : Nat}, stop + 3 ≤ position + fuelToo →
      Follows first second stop position (readArguments construct fuel (first.cursor position))
        (readArguments construct fuelToo (second.cursor position))
  | 0, _, _, _ => .of_late rfl
  | fuel + 1, position, _, enough => by
      refine .of_succ (readArguments construct · (second.cursor position)) enough
        (Nat.le_add_right stop 3) fun less enough => ?_
      rw [readArguments, readArguments]
      apply (lexeme_sees agree position construct).bind
      intro lexeme _
      simp only [Tape.next_cursor]
      cases lexeme with
      | listClose => exact .ok (Nat.le_succ _) fun _ => rfl
      | listOpen =>
          simp only [verified_eq fun _ _ read => encloses_of_readCall read]
          apply (readCall_follows .argument fuel (by omega)).bind
          intro value after _ read
          have further : position < after := by
            obtain ⟨_, inside, _, _, passed⟩ := encloses_of_readCall read
            have ended : after = position + _ := passed.position
            simp only [Token.bracketed, List.length_append, List.length_cons] at ended
            omega
          exact (readArguments_follows construct fuel (by omega)).bind
            fun _ _ _ _ => .ok (Nat.le_refl _) fun _ => rfl
      | constant value =>
          have others := (readArguments_follows construct fuel (by omega :
            stop + 3 ≤ position + 1 + less)).weaken (Nat.le_succ position)
          exact others.bind fun _ _ _ _ => .ok (Nat.le_refl _) fun _ => rfl

theorem readCall_follows (construct : Construct) :
    ∀ (fuel : Nat) {position fuelToo : Nat}, stop + 2 ≤ position + fuelToo →
      Follows first second stop position (readCall construct fuel (first.cursor position))
        (readCall construct fuelToo (second.cursor position))
  | 0, _, _, _ => .of_late rfl
  | fuel + 1, position, _, enough => by
      refine .of_succ (readCall construct · (second.cursor position)) enough
        (Nat.le_add_right stop 2) fun less enough => ?_
      rw [readCall, readCall]
      apply (expectOpen_sees agree position construct).bind
      intro _ _
      simp only [Tape.next_cursor]
      refine Follows.weaken ?_ (Nat.le_succ position)
      apply (lexeme_sees agree (position + 1) construct).bind
      intro lexeme _
      split
      · split
        · exact .fail (Nat.le_refl _) _
        · have arguments := (readArguments_follows construct fuel (by omega :
            stop + 3 ≤ position + 2 + less)).weaken (Nat.le_succ (position + 1))
          refine arguments.bind fun _ after reached _ => .ok (Nat.le_refl _) fun before => ?_
          rw [agree.offset (by omega)]
      · exact .fail (Nat.le_refl _) _

end

theorem readAssigned_follows (owner : Owner) (assignment : Assignment) (fuel : Nat)
    {position fuelToo : Nat} (enough : stop + 2 ≤ position + fuelToo) :
    Follows first second stop position
      (readAssigned owner assignment fuel (first.cursor position))
      (readAssigned owner assignment fuelToo (second.cursor position)) := by
  apply (lexeme_sees agree position owner.construct).bind
  intro lexeme _
  simp only [Tape.next_cursor]
  cases lexeme with
  | listOpen =>
      simp only [verified_eq fun _ _ read => encloses_of_readCall read]
      exact readCall_follows agree .assigned fuel enough
  | constant value => exact .ok (Nat.le_succ _) fun _ => rfl
  | listClose => exact .fail (Nat.le_refl _) _

theorem readAssignment_follows (owner : Owner) (assignment : Assignment) (fuel : Nat)
    {position fuelToo : Nat} (enough : stop ≤ position + fuelToo) :
    Follows first second stop (position + 1)
      (readAssignment owner assignment fuel (first.cursor position))
      (readAssignment owner assignment fuelToo (second.cursor position)) := by
  unfold readAssignment
  simp only [Tape.next_cursor]
  refine Follows.weaken ?_ (Nat.le_succ (position + 1))
  apply (name_sees agree (position + 2) assignment.keyword owner.construct).bind
  intro name _
  refine Follows.weaken ?_ (Nat.le_succ (position + 2))
  apply (readAssigned_follows agree owner assignment fuel (by omega :
    stop + 2 ≤ position + 3 + fuelToo)).bind
  intro value after reached _
  apply (lexeme_sees agree after owner.construct).bind
  intro closing _
  simp only [Tape.next_cursor]
  split
  · refine .ok (Nat.le_succ _) fun before => ?_
    rw [agree.offset (by omega)]
  · exact .fail (Nat.le_refl _) _

/-! ## Readers of definitions -/

theorem readHead_follows (construct : Construct) (fuel : Nat) {position fuelToo : Nat}
    (enough : stop ≤ position + fuelToo) (opens : (first.cursor position).Opens) :
    Follows first second stop (position + 1) (readHead construct fuel (first.cursor position))
      (readHead construct fuelToo (second.cursor position)) := by
  unfold readHead
  simp only [Tape.next_cursor]
  refine (expectOpen_sees agree position construct).pass (opens.expectOpen construct)
    (Nat.le_succ position) ?_
  apply (readOpener_sees agree construct (position + 1)).bind
  intro isPure _
  refine Follows.weaken ?_ (Nat.le_succ (position + 1))
  apply (name_sees agree (position + 2) (definitionKeyword construct) construct).bind
  intro name _
  refine Follows.weaken ?_ (Nat.le_succ (position + 2))
  split
  · exact .ok (Nat.le_refl _) fun _ => rfl
  · exact .ok (Nat.le_refl _) fun _ => rfl
  · apply (lexeme_sees agree (position + 3) .handler).bind
    intro lexeme _
    split
    · refine Follows.weaken ?_ (Nat.le_succ (position + 3))
      apply (lexeme_sees agree (position + 4) .handler).bind
      intro body _
      split
      · exact .ok (Nat.le_refl _) fun _ => rfl
      · exact .fail (Nat.le_refl _) _
    · exact .fail (Nat.le_refl _) _
  · apply (lexeme_sees agree (position + 3) .function).bind
    intro lexeme _
    split
    · have parameters := (readParameters_follows agree fuel (by omega :
        stop + 1 ≤ position + 4 + fuelToo)).weaken (Nat.le_succ (position + 3))
      exact parameters.bind fun _ _ _ _ => .ok (Nat.le_refl _) fun _ => rfl
    · exact .fail (Nat.le_refl _) _

omit agree in
/-- A form takes up its bracket at least. -/
theorem lt_of_readForm {libraries : List String} {owner : Owner} {fuel : Nat} {form : Form}
    {after : Nat} (opens : (first.cursor position).Opens)
    (read : readForm libraries owner fuel (first.cursor position)
      = .ok (form, first.cursor after)) : position < after := by
  obtain ⟨tokens, derived, passed⟩ :=
    readForm_derives libraries owner fuel (Cursor.passes_of_lexeme (opens .root)) read
  obtain ⟨opening, rest, rfl⟩ := opens_of_derivesForm derived
  have ended : after = position + (rest.length + 1) := passed.position
  omega

omit agree in
/-- The body of a definition starts behind its bracket, its keyword and its name. -/
theorem le_of_readHead {construct : Construct} {fuel : Nat} {head : Head} {after : Nat}
    (definition : construct ∈ [.machine, .state, .handler, .function])
    (read : readHead construct fuel (first.cursor position) = .ok (head, first.cursor after)) :
    position + 3 ≤ after := by
  obtain ⟨_, _, front, spelt, passed⟩ := readHead_derives definition read
  obtain ⟨keyword, rest, rfl, named⟩ := headKeyword_of_derives spelt
  have ended : after = position + (rest.length + 1 + 1) := passed.position
  have positive := List.length_pos_iff.mpr named
  omega

omit agree in
theorem late_of_add {declared : Declared} {owner : Owner} {opening : Cursor} {form : Form}
    {failure : Failure} (taken : declared.add owner opening form = .error failure) :
    failure.cause.isImmediate = false := by
  unfold Declared.add at taken
  split at taken
  · split at taken <;> cases taken
    rfl
  · split at taken <;> cases taken
    rfl
  · split at taken <;> cases taken
    rfl
  · cases taken

omit agree in
/-- Whether a name is free does not depend on where its definition stands. -/
theorem follows_of_add {declared : Declared} {owner : Owner} {opening openingToo : Cursor}
    {form : Form} {next nextOther : Declared → Except Failure (α × Cursor)}
    (goesOn : ∀ later, Follows first second stop position (next later) (nextOther later)) :
    Follows first second stop position (declared.add owner opening form >>= next)
      (declared.add owner openingToo form >>= nextOther) := by
  cases added : declared.add owner opening form with
  | ok later =>
      have addedToo : declared.add owner openingToo form = .ok later :=
        Declared.add_eq_ok_iff.mpr (Declared.add_eq_ok_iff.mp added)
      rw [addedToo]
      exact goesOn later
  | error failure => exact .of_late (late_of_add added)

mutual

theorem readBody_follows (libraries : List String) (owner : Owner) :
    ∀ (fuel : Nat) (declared : Declared) {position fuelToo : Nat},
      stop + 3 ≤ position + fuelToo →
      Follows first second stop position
        (readBody libraries owner declared fuel (first.cursor position))
        (readBody libraries owner declared fuelToo (second.cursor position))
  | 0, _, _, _, _ => .of_late rfl
  | fuel + 1, declared, position, _, enough => by
      refine .of_succ (readBody libraries owner declared · (second.cursor position)) enough
        (Nat.le_add_right stop 3) fun less enough => ?_
      rw [readBody, readBody]
      apply (lexeme_sees agree position owner.construct).bind
      intro lexeme seen
      simp only [Tape.next_cursor]
      cases lexeme with
      | listClose => exact .ok (Nat.le_succ _) fun _ => rfl
      | listOpen =>
          have opens := Cursor.opens_of_lexeme seen
          refine Follows.weaken ?_ (Nat.le_succ position)
          apply (readForm_follows libraries owner fuel (by omega) opens).bind
          intro form after _ read
          have further := lt_of_readForm opens read
          apply follows_of_add
          intro later
          exact (readBody_follows libraries owner fuel later (by omega)).bind
            fun _ _ _ _ => .ok (Nat.le_refl _) fun _ => rfl
      | constant value => exact .fail (Nat.le_refl _) _

theorem readForm_follows (libraries : List String) (owner : Owner) :
    ∀ (fuel : Nat) {position fuelToo : Nat}, stop + 2 ≤ position + fuelToo →
      (first.cursor position).Opens →
      Follows first second stop (position + 1)
        (readForm libraries owner fuel (first.cursor position))
        (readForm libraries owner fuelToo (second.cursor position))
  | 0, _, _, _, _ => .of_late rfl
  | fuel + 1, position, _, enough, opens => by
      refine .of_succ (readForm libraries owner · (second.cursor position))
        (by omega : stop + 3 ≤ _) (Nat.le_add_right stop 3) fun less enough => ?_
      have define (construct : Construct)
          (definition : construct ∈ [.machine, .state, .handler, .function]) :
          Follows first second stop (position + 1)
            (verified (first.cursor position) construct
              (readDefinition libraries construct fuel (first.cursor position)))
            (verified (second.cursor position) construct
              (readDefinition libraries construct less (second.cursor position))) := by
        simp only [verified_eq fun _ _ read => encloses_of_readDefinition definition read]
        exact readDefinition_follows libraries definition fuel (by omega) opens
      rw [readForm, readForm]
      simp only [Tape.next_cursor]
      apply (lexeme_sees agree (position + 1) owner.construct).bind
      intro lexeme _
      split
      · exact .ok (Nat.le_succ _) fun _ => rfl
      · split
        · have arguments := (readArguments_follows agree owner.construct fuel (by omega :
            stop + 3 ≤ position + 2 + less)).weaken (Nat.le_succ (position + 1))
          refine arguments.bind fun _ after reached _ => .ok (Nat.le_refl _) fun before => ?_
          rw [agree.offset (by omega)]
        · split
          · exact .fail (Nat.le_refl _) _
          · split
            · exact define .machine (by decide)
            · exact define .state (by decide)
            · exact define .handler (by decide)
            · exact define .function (by decide)
            · exact define .function (by decide)
            · exact readRequirement_follows agree libraries (position + 1)
            · exact readTransfer_follows agree owner .launch position
            · exact readTransfer_follows agree owner .goto position
            · exact readAssignment_follows agree owner .set fuel (by omega)
            · exact readAssignment_follows agree owner .shared fuel (by omega)
      · exact .fail (Nat.le_refl _) _

theorem readDefinition_follows (libraries : List String) {construct : Construct}
    (definition : construct ∈ [.machine, .state, .handler, .function]) :
    ∀ (fuel : Nat) {position fuelToo : Nat}, stop + 1 ≤ position + fuelToo →
      (first.cursor position).Opens →
      Follows first second stop (position + 1)
        (readDefinition libraries construct fuel (first.cursor position))
        (readDefinition libraries construct fuelToo (second.cursor position))
  | 0, _, _, _, _ => .of_late rfl
  | fuel + 1, position, _, enough, opens => by
      refine .of_succ (readDefinition libraries construct · (second.cursor position))
        (by omega : stop + 2 ≤ _) (Nat.le_add_right stop 2) fun less enough => ?_
      rw [readDefinition, readDefinition]
      apply (readHead_follows agree construct fuel (by omega) opens).bind
      intro head inner _ read
      have further := le_of_readHead definition read
      refine (readBody_follows libraries _ fuel {} (by omega)).bind fun _ after reached _ =>
        .ok (Nat.le_refl _) fun before => ?_
      rw [agree.offset (by omega)]

end

/-! ## Programs -/

theorem readProgram_follows (libraries : List String) (fuel : Nat) {fuelToo : Nat}
    (enough : stop + 2 ≤ fuelToo) :
    Follows first second stop 0 (readProgram libraries fuel (first.cursor 0))
      (readProgram libraries fuelToo (second.cursor 0)) := by
  unfold readProgram
  simp only [Tape.next_cursor]
  apply (expectOpen_sees agree 0 .root).bind
  intro _ _
  exact (readBody_follows agree libraries .root fuel {} (by omega)).weaken (Nat.zero_le _)

omit agree in
/-- A program is its forms, with nothing behind them. -/
theorem ofTokens_eq (libraries : List String) (tape : Tape) :
    ofTokens libraries tape.tokens
      = readProgram libraries (tape.size + 2) (tape.cursor 0) >>= fun read =>
          if read.2.position = tape.size then .ok read.1 else read.2.fail .trailingTokens := by
  have checked : verified (tape.cursor 0) .root
      (readProgram libraries (tape.size + 2) (tape.cursor 0))
        = readProgram libraries (tape.size + 2) (tape.cursor 0) :=
    verified_eq fun _ _ read => encloses_of_readProgram read
  rw [← checked]
  rfl

/-- Another tape that agrees with a first one beyond the token that its failure blames fails there,
too, and for the same cause. -/
theorem ofTokens_eq_error (libraries : List String) (within : stop ≤ second.size)
    {failure : Failure} (failed : ofTokens libraries first.tokens = .error failure)
    (immediate : failure.cause.isImmediate = true) (before : failure.cursor.position < stop) :
    failure.cursor = first.cursor failure.cursor.position
      ∧ ofTokens libraries second.tokens
        = .error ⟨failure.cause, second.cursor failure.cursor.position⟩ := by
  have follows := readProgram_follows agree libraries (first.size + 2)
    (Nat.add_le_add_right within 2)
  rw [ofTokens_eq] at failed ⊢
  cases read : readProgram libraries (first.size + 2) (first.cursor 0) with
  | error problem =>
      rw [read] at failed follows
      cases failed
      obtain ⟨position, _, ended, alike⟩ := follows immediate
      rw [ended] at before ⊢
      refine ⟨rfl, ?_⟩
      rw [alike before]
      rfl
  | ok program =>
      obtain ⟨forms, after⟩ := program
      rw [read] at failed follows
      obtain ⟨position, _, rfl, alike⟩ := follows
      have trailing : (if (first.cursor position).position = first.size then .ok forms
          else (first.cursor position).fail .trailingTokens) = .error failure := failed
      split at trailing
      · cases trailing
      · cases trailing
        refine ⟨rfl, ?_⟩
        rw [alike before]
        exact if_neg (Nat.ne_of_lt (Nat.lt_of_lt_of_le before within))

end

end Form

/-! ## Tapes -/

namespace Tape

variable {tape first second : Tape} {options : CompileOptions}

theorem position_error (failure : Failure) :
    failure.error.context.position = failure.cursor.position := by
  unfold Failure.error TokenContext.ofRest
  split <;> rfl

theorem offset_error (tape : Tape) (cause : CompileCause) (position : Nat) :
    (Failure.mk cause (tape.cursor position)).error.context.offset
      = tape.tokens[position]?.map Token.offset := by
  rw [← List.head?_drop]
  unfold Failure.error cursor
  cases tape.tokens.drop position <;> rfl

theorem compile_eq_error_of {failure : Failure}
    (failed : Form.ofTokens options.libraries tape.enclosed.tokens = .error failure) :
    tape.compile options = .error failure.error := by
  unfold compile Tape.forms
  rw [failed]
  rfl

/-- Tapes that agree up to a place where the other one has ended are the same. -/
theorem AgreeBefore.tokens_eq {stop : Nat} (agree : first.AgreeBefore second (stop + 1))
    (ended : second.size ≤ stop) : second.tokens = first.tokens := by
  have absent : first.tokens[stop]? = none := by
    rw [← agree stop (Nat.lt_succ_self stop)]
    exact List.getElem?_eq_none ended
  have endedToo := List.getElem?_eq_none_iff.mp absent
  apply List.ext_getElem?
  intro position
  by_cases before : position < stop + 1
  · exact agree position before
  · have beyond : stop ≤ position := by omega
    rw [List.getElem?_eq_none (Nat.le_trans ended beyond),
      List.getElem?_eq_none (Nat.le_trans endedToo beyond)]

/-- What follows a compile error cannot change it. If a tape fails to compile with a cause that the
token at fault decides, every tape that agrees with it up to that token, inside of the brackets
around the whole, fails for the same cause at the same place, however it goes on. -/
theorem compile_error_stays (options : CompileOptions) (first second : Tape) {error : CompileError}
    (failed : first.compile options = .error error) (immediate : error.cause.isImmediate = true)
    (agree : ∀ position, position ≤ error.context.position →
      second.enclosed.tokens[position]? = first.enclosed.tokens[position]?) :
    ∃ other, second.compile options = .error other ∧ other.cause = error.cause
      ∧ other.context.position = error.context.position
      ∧ other.context.offset = error.context.offset := by
  obtain ⟨failure, read, rfl⟩ := compile_eq_error failed
  rw [position_error] at agree ⊢
  have agreeBefore : first.enclosed.AgreeBefore second.enclosed (failure.cursor.position + 1) :=
    fun position before => agree position (Nat.le_of_lt_succ before)
  by_cases within : failure.cursor.position < second.enclosed.size
  · obtain ⟨place, readToo⟩ := Form.ofTokens_eq_error agreeBefore options.libraries within read
      immediate (Nat.lt_succ_self _)
    refine ⟨_, compile_eq_error_of readToo, rfl, position_error _, ?_⟩
    have offset := offset_error first.enclosed failure.cause failure.cursor.position
    rw [← place] at offset
    rw [offset_error, offset, agree _ (Nat.le_refl _)]
  · rw [← agreeBefore.tokens_eq (Nat.le_of_not_lt within)] at read
    exact ⟨_, compile_eq_error_of read, rfl, position_error failure, rfl⟩

open Token (word bracketed) in
/-- The tape of `(machine m (state main (goto 1)))`. -/
def targetlessGoto : Tape :=
  Tape.ofTokens .empty
    (bracketed 0
      ([word "machine" 1, word "m" 9]
        ++ bracketed 11
          ([word "state" 12, word "main" 18]
            ++ bracketed 23 [word "goto" 24, ⟨.constant (.int 1), 29⟩] 30)
          31)
      32)

open Token (word) in
/-- The tape of `(machine m (state main (goto 1 (launch`. -/
def targetlessGotoOpen : Tape :=
  Tape.ofTokens .empty
    [⟨.listOpen, 0⟩, word "machine" 1, word "m" 9, ⟨.listOpen, 11⟩, word "state" 12, word "main" 18,
      ⟨.listOpen, 23⟩, word "goto" 24, ⟨.constant (.int 1), 29⟩, ⟨.listOpen, 31⟩, word "launch" 32]

theorem compile_error_stays_targetlessGoto :
    ∃ error other, targetlessGoto.compile {} = .error error
      ∧ error.cause = .malformedForm .goto ∧ error.context.position = 9
      ∧ targetlessGotoOpen.isBalanced = false
      ∧ targetlessGotoOpen.compile {} = .error other ∧ other.cause = error.cause
      ∧ other.context.position = error.context.position
      ∧ other.context.offset = error.context.offset := by
  have failed : targetlessGoto.compile {} = .error _ := rfl
  obtain ⟨other, failedToo, alike⟩ :=
    compile_error_stays {} targetlessGoto targetlessGotoOpen failed rfl (by
      intro position bound
      change position ≤ 9 at bound
      interval_cases position <;> rfl)
  exact ⟨_, other, failed, rfl, rfl, rfl, failedToo, alike⟩

end Tape

end MachineScript
