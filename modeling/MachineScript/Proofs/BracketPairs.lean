import Mathlib.Order.Nat
import MachineScript.Proofs.Grammar.Closing

/-!
Contract: which brackets of any tokens belong together, balanced or not.

Owns:
- the depth of a place, which is what the count of open brackets has come to;
- the pairs of brackets as the stretches of tokens that come back to the depth
  at which they start, and no earlier than at their end;
- that the search for a closing bracket finds the pairs and nothing else, that
  pairs stand inside or beside one another, and that a tape is balanced just if
  each of its brackets belongs to a pair.

Does not own: what the brackets of a program enclose.
-/

namespace MachineScript

/-- What a lexeme adds to the count of open brackets. -/
def Lexeme.rise : Lexeme → Int
  | .listOpen => 1
  | .listClose => -1
  | .constant _ => 0

namespace Tape

variable {tokens : List Token}

/-! ## Depth -/

def lexemeAt? (tokens : List Token) (position : Nat) : Option Lexeme :=
  tokens[position]?.map Token.lexeme

def opened (tokens : List Token) : Nat :=
  tokens.countP fun token => token.lexeme = .listOpen

def closed (tokens : List Token) : Nat :=
  tokens.countP fun token => token.lexeme = .listClose

/-- How many more brackets are opened than closed among so many first tokens. -/
def depth (tokens : List Token) (count : Nat) : Int :=
  opened (tokens.take count) - closed (tokens.take count)

@[simp] theorem depth_zero (tokens : List Token) : depth tokens 0 = 0 := rfl

theorem depth_cons (token : Token) (rest : List Token) (count : Nat) :
    depth (token :: rest) (count + 1) = token.lexeme.rise + depth rest count := by
  unfold depth opened closed
  rw [List.take_succ_cons, List.countP_cons, List.countP_cons]
  cases token.lexeme <;> simp [Lexeme.rise] <;> omega

theorem depth_succ (tokens : List Token) (position : Nat) :
    depth tokens (position + 1)
      = depth tokens position + ((lexemeAt? tokens position).map Lexeme.rise).getD 0 := by
  induction tokens generalizing position with
  | nil => simp [depth, lexemeAt?]
  | cons token rest inductionHypothesis =>
      cases position with
      | zero => simp [depth_cons, lexemeAt?]
      | succ position =>
          rw [depth_cons, depth_cons, inductionHypothesis]
          simp only [lexemeAt?, List.getElem?_cons_succ]
          omega

theorem depth_open {position : Nat} (opens : lexemeAt? tokens position = some .listOpen) :
    depth tokens (position + 1) = depth tokens position + 1 := by
  rw [depth_succ, opens]
  rfl

theorem depth_close {position : Nat} (closes : lexemeAt? tokens position = some .listClose) :
    depth tokens (position + 1) = depth tokens position - 1 := by
  rw [depth_succ, closes]
  rfl

/-- Only an opening bracket leads deeper. -/
theorem opens_of_depth_lt {position : Nat}
    (deeper : depth tokens position < depth tokens (position + 1)) :
    lexemeAt? tokens position = some .listOpen := by
  cases found : lexemeAt? tokens position with
  | none => simp [depth_succ, found] at deeper
  | some lexeme =>
      cases lexeme with
      | listOpen => rfl
      | listClose =>
          have falls := depth_close found
          omega
      | constant value => simp [depth_succ, found, Lexeme.rise] at deeper

/-- Only a closing bracket leads back. -/
theorem closes_of_depth_lt {position : Nat}
    (less : depth tokens (position + 1) < depth tokens position) :
    lexemeAt? tokens position = some .listClose := by
  cases found : lexemeAt? tokens position with
  | none => simp [depth_succ, found] at less
  | some lexeme =>
      cases lexeme with
      | listOpen =>
          have rises := depth_open found
          omega
      | listClose => rfl
      | constant value => simp [depth_succ, found, Lexeme.rise] at less

theorem depth_drop (tokens : List Token) (position count : Nat) :
    depth (tokens.drop position) count
      = depth tokens (position + count) - depth tokens position := by
  unfold depth opened closed
  rw [List.take_add, List.countP_append, List.countP_append]
  omega

theorem depth_append {count : Nat} (others : List Token) (inside : count ≤ tokens.length) :
    depth (tokens ++ others) count = depth tokens count := by
  unfold depth
  rw [List.take_append_of_le_length inside]

theorem depth_of_length_le {count : Nat} (beyond : tokens.length ≤ count) :
    depth tokens count = depth tokens tokens.length := by
  unfold depth
  rw [List.take_of_length_le beyond, List.take_length]

theorem lt_length_of_lexemeAt? {position : Nat} {lexeme : Lexeme}
    (found : lexemeAt? tokens position = some lexeme) : position < tokens.length := by
  obtain ⟨token, there, _⟩ := Option.map_eq_some_iff.mp found
  exact (List.getElem?_eq_some_iff.mp there).1

/-! ## Where depth passes a level -/

section

variable {level : Int} {first last : Nat}

/-- What comes down to a level does so for a first time, at a closing bracket. The induction is on
how far the end is away. -/
theorem exists_first_return (inOrder : first ≤ last) (above : level < depth tokens first)
    (below : depth tokens last ≤ level) :
    ∃ closing, first ≤ closing ∧ closing < last
      ∧ lexemeAt? tokens closing = some .listClose ∧ depth tokens (closing + 1) = level
      ∧ ∀ place, first ≤ place → place ≤ closing → level < depth tokens place := by
  obtain ⟨distance, rfl⟩ := Nat.exists_eq_add_of_le inOrder
  clear inOrder
  induction distance generalizing first with
  | zero =>
      rw [Nat.add_zero] at below
      omega
  | succ distance inductionHypothesis =>
      by_cases higher : level < depth tokens (first + 1)
      · have same : first + (distance + 1) = first + 1 + distance := by omega
        rw [same] at below ⊢
        obtain ⟨closing, behind, before, closes, atLevel, stays⟩ :=
          inductionHypothesis higher below
        refine ⟨closing, by omega, before, closes, atLevel, fun place after inside => ?_⟩
        rcases Nat.eq_or_lt_of_le after with isFirst | later
        · rw [← isFirst]
          exact above
        · exact stays place later inside
      · have closes : lexemeAt? tokens first = some .listClose := closes_of_depth_lt (by omega)
        have falls := depth_close closes
        refine ⟨first, Nat.le_refl first, by omega, closes, by omega, fun place after inside => ?_⟩
        have isFirst : place = first := by omega
        rw [isFirst]
        exact above

/-- What has gone above a level left it for the last time, at an opening bracket. -/
theorem exists_last_departure (inOrder : first ≤ last) (below : depth tokens first ≤ level)
    (above : level < depth tokens last) :
    ∃ opening, first ≤ opening ∧ opening < last
      ∧ lexemeAt? tokens opening = some .listOpen ∧ depth tokens opening = level
      ∧ ∀ place, opening < place → place ≤ last → level < depth tokens place := by
  induction last, inOrder using Nat.le_induction with
  | base => omega
  | succ last inOrder inductionHypothesis =>
      by_cases higher : level < depth tokens last
      · obtain ⟨opening, behind, before, opens, atLevel, stays⟩ := inductionHypothesis higher
        refine ⟨opening, behind, by omega, opens, atLevel, fun place after inside => ?_⟩
        rcases Nat.lt_or_eq_of_le inside with earlier | same
        · exact stays place after (by omega)
        · rw [same]
          exact above
      · have opens : lexemeAt? tokens last = some .listOpen := opens_of_depth_lt (by omega)
        have rises := depth_open opens
        refine ⟨last, inOrder, Nat.lt_succ_self last, opens, by omega, fun place after inside => ?_⟩
        have isLast : place = last + 1 := by omega
        rw [isLast]
        exact above

end

/-! ## Pairs of brackets -/

/-- The tokens from one place through another. -/
def stretch (tokens : List Token) (first last : Nat) : List Token :=
  (tokens.take (last + 1)).drop first

/-- A bracket opens a list and another one closes it: up to the second one more brackets are opened
than closed, and with it as many. -/
structure Pairs (tokens : List Token) (opening closing : Nat) : Prop where
  opens : lexemeAt? tokens opening = some .listOpen
  closes : lexemeAt? tokens closing = some .listClose
  inOrder : opening < closing
  even : opened (stretch tokens opening closing) = closed (stretch tokens opening closing)
  within : ∀ last, opening ≤ last → last < closing →
    closed (stretch tokens opening last) < opened (stretch tokens opening last)

theorem depth_stretch {first last : Nat} (inOrder : first ≤ last + 1) :
    (opened (stretch tokens first last) : Int) - closed (stretch tokens first last)
      = depth tokens (last + 1) - depth tokens first := by
  have same : stretch tokens first last = (tokens.drop first).take (last + 1 - first) :=
    List.drop_take
  rw [same]
  have dropped := depth_drop tokens first (last + 1 - first)
  rwa [Nat.add_sub_cancel' inOrder] at dropped

namespace Pairs

variable {opening closing : Nat}

theorem of_depth (opens : lexemeAt? tokens opening = some .listOpen)
    (closes : lexemeAt? tokens closing = some .listClose) (inOrder : opening < closing)
    (even : depth tokens (closing + 1) = depth tokens opening)
    (within : ∀ place, opening < place → place ≤ closing →
      depth tokens opening < depth tokens place) : Pairs tokens opening closing where
  opens := opens
  closes := closes
  inOrder := inOrder
  even := by
    have counts := @depth_stretch tokens opening closing (by omega)
    omega
  within last after before := by
    have counts := @depth_stretch tokens opening last (by omega)
    have deeper := within (last + 1) (by omega) before
    omega

theorem depth_eq (pairs : Pairs tokens opening closing) :
    depth tokens (closing + 1) = depth tokens opening := by
  have inOrder := pairs.inOrder
  have even := pairs.even
  have counts := @depth_stretch tokens opening closing (by omega)
  omega

theorem depth_lt (pairs : Pairs tokens opening closing) {place : Nat} (after : opening < place)
    (before : place ≤ closing) : depth tokens opening < depth tokens place := by
  obtain ⟨last, rfl⟩ := Nat.exists_eq_add_one_of_ne_zero (Nat.ne_zero_of_lt after)
  have counts := @depth_stretch tokens opening last (by omega)
  have deeper := pairs.within last (by omega) before
  omega

/-- A bracket closes one list only. -/
theorem opening_unique {other : Nat} (pairs : Pairs tokens opening closing)
    (others : Pairs tokens other closing) : opening = other := by
  have level := pairs.depth_eq
  have otherLevel := others.depth_eq
  rcases Nat.lt_trichotomy opening other with before | same | after
  · have deeper := pairs.depth_lt before (Nat.le_of_lt others.inOrder)
    omega
  · exact same
  · have deeper := others.depth_lt after (Nat.le_of_lt pairs.inOrder)
    omega

/-- A list that is opened later stands behind the first one, or inside it. -/
theorem nested {other last : Nat} (pairs : Pairs tokens opening closing)
    (others : Pairs tokens other last) (later : opening < other) :
    closing < other ∨ last < closing := by
  rcases Nat.lt_or_ge closing other with behind | inside
  · exact .inl behind
  · right
    have level := pairs.depth_eq
    have otherLevel := others.depth_eq
    have deeper := pairs.depth_lt later inside
    by_contra notBefore
    rcases Nat.lt_or_eq_of_le (Nat.le_of_not_lt notBefore) with beyond | same
    · have stays := others.depth_lt (show other < closing + 1 by omega) beyond
      omega
    · rw [← same] at otherLevel
      omega

end Pairs

/-! ## The search for a closing bracket -/

/-- With so many more lists open, the first bracket that closes another one. -/
structure ClosesAt (inner : Int) (tokens : List Token) (distance : Nat) : Prop where
  closes : lexemeAt? tokens distance = some .listClose
  level : inner + depth tokens distance = 0
  stays : ∀ place ≤ distance, 0 ≤ inner + depth tokens place

theorem closesAt_zero_iff {inner : Int} {token : Token} {rest : List Token} :
    ClosesAt inner (token :: rest) 0 ↔ token.lexeme = .listClose ∧ inner = 0 := by
  constructor
  · intro closes
    exact ⟨Option.some.inj closes.closes, by simpa using closes.level⟩
  · rintro ⟨closes, rfl⟩
    exact ⟨congrArg some closes, rfl, fun place inside => by simp [Nat.le_zero.mp inside]⟩

/-- A token that does not close the bracket is passed, and changes how many lists are open. -/
theorem closesAt_cons_iff {inner after : Int} {token : Token} {rest : List Token} {distance : Nat}
    (notLess : 0 ≤ inner) (passed : token.lexeme = .listClose → inner ≠ 0)
    (same : inner + token.lexeme.rise = after) :
    ClosesAt inner (token :: rest) distance
      ↔ ∃ nearer, ClosesAt after rest nearer ∧ nearer + 1 = distance := by
  have deeper := depth_cons token rest
  constructor
  · intro closes
    cases distance with
    | zero =>
        obtain ⟨isClose, isZero⟩ := closesAt_zero_iff.mp closes
        exact absurd isZero (passed isClose)
    | succ distance =>
        refine ⟨distance, ⟨closes.closes, ?_, fun place inside => ?_⟩, rfl⟩
        · have level := closes.level
          rw [deeper] at level
          omega
        · have stays := closes.stays (place + 1) (by omega)
          rw [deeper] at stays
          omega
  · rintro ⟨distance, closes, rfl⟩
    refine ⟨closes.closes, ?_, fun place inside => ?_⟩
    · have level := closes.level
      rw [deeper]
      omega
    · cases place with
      | zero => simpa using notLess
      | succ place =>
          have stays := closes.stays place (by omega)
          rw [deeper]
          omega

/-- The search stops at the bracket at which the depth has come back far enough. -/
theorem closeDistance_eq_some_iff {inner distance : Nat} :
    closeDistance inner tokens = some distance ↔ ClosesAt inner tokens distance := by
  induction tokens generalizing inner distance with
  | nil =>
      refine ⟨nofun, fun closes => ?_⟩
      cases closes.closes
  | cons token rest inductionHypothesis =>
      have notLess := Int.natCast_nonneg inner
      obtain ⟨lexeme, offset⟩ := token
      cases lexeme with
      | constant value =>
          rw [closesAt_cons_iff notLess (by rintro ⟨⟩) (Int.add_zero _)]
          simp only [closeDistance, Option.map_eq_some_iff, inductionHypothesis]
      | listOpen =>
          rw [closesAt_cons_iff notLess (by rintro ⟨⟩) rfl]
          simp only [closeDistance, Option.map_eq_some_iff, inductionHypothesis]
          rfl
      | listClose =>
          cases inner with
          | zero =>
              simp only [closeDistance, Option.some.injEq]
              constructor
              · rintro rfl
                exact closesAt_zero_iff.mpr ⟨rfl, rfl⟩
              · intro closes
                by_contra later
                have stays := closes.stays 1 (Nat.one_le_iff_ne_zero.mpr (Ne.symm later))
                simp [depth_cons, Lexeme.rise] at stays
          | succ inner =>
              have lower : ((inner + 1 : Nat) : Int) + Lexeme.listClose.rise = inner := by
                simp only [Lexeme.rise]
                omega
              rw [closesAt_cons_iff notLess (fun _ => by omega) lower]
              simp only [closeDistance, Option.map_eq_some_iff, inductionHypothesis]

theorem lexemeAt?_drop (tokens : List Token) (position place : Nat) :
    lexemeAt? (tokens.drop position) place = lexemeAt? tokens (position + place) := by
  unfold lexemeAt?
  rw [List.getElem?_drop]

/-- Brackets are a pair if the second closes what the first has opened, with no more lists open. -/
theorem pairs_iff {opening closing : Nat} :
    Pairs tokens opening closing ↔ lexemeAt? tokens opening = some .listOpen
      ∧ ∃ distance, ClosesAt 0 (tokens.drop (opening + 1)) distance
        ∧ opening + 1 + distance = closing := by
  constructor
  · intro pairs
    obtain ⟨distance, rfl⟩ : ∃ distance, closing = opening + 1 + distance :=
      Nat.exists_eq_add_of_le pairs.inOrder
    have rises := depth_open pairs.opens
    have falls := depth_close pairs.closes
    have even := pairs.depth_eq
    refine ⟨pairs.opens, distance, ⟨?_, ?_, fun place inside => ?_⟩, rfl⟩
    · rw [lexemeAt?_drop]
      exact pairs.closes
    · rw [depth_drop]
      omega
    · rw [depth_drop]
      have deeper := pairs.depth_lt (show opening < opening + 1 + place by omega) (by omega)
      omega
  · rintro ⟨opens, distance, closes, rfl⟩
    have closer := closes.closes
    have level := closes.level
    rw [lexemeAt?_drop] at closer
    rw [depth_drop] at level
    have rises := depth_open opens
    have falls := depth_close closer
    refine .of_depth opens closer (by omega) (by omega) fun place after before => ?_
    obtain ⟨further, rfl⟩ : ∃ further, place = opening + 1 + further :=
      Nat.exists_eq_add_of_le after
    have stays := closes.stays further (by omega)
    rw [depth_drop] at stays
    omega

/-- The bracket found for one at a place is the other one of its pair. -/
theorem matchBracket_eq_some_iff {tape : Tape} {opening closing : Nat} :
    tape.matchBracket opening = some closing ↔ Pairs tape.tokens opening closing := by
  have first : lexemeAt? tape.tokens opening = lexemeAt? (tape.tokens.drop opening) 0 :=
    (lexemeAt?_drop tape.tokens opening 0).symm
  have behind : tape.tokens.drop (opening + 1) = (tape.tokens.drop opening).drop 1 :=
    (List.drop_drop ..).symm
  unfold matchBracket
  rw [pairs_iff, first, behind]
  cases tape.tokens.drop opening with
  | nil => simp [listLength?, lexemeAt?]
  | cons token rest =>
      obtain ⟨lexeme, offset⟩ := token
      cases lexeme with
      | constant value => simp [listLength?, lexemeAt?]
      | listClose => simp [listLength?, lexemeAt?]
      | listOpen =>
          simp only [listLength?, Option.map_map, Option.map_eq_some_iff, closeDistance_eq_some_iff]
          simp [lexemeAt?, Nat.add_assoc, Nat.add_comm 1]

/-! ## Balance -/

/-- An opening bracket has a pair before any place that is no deeper. -/
theorem exists_pairs_of_open {opening place : Nat}
    (opens : lexemeAt? tokens opening = some .listOpen) (after : opening < place)
    (back : depth tokens place ≤ depth tokens opening) :
    ∃ closing, closing < place ∧ Pairs tokens opening closing := by
  have rises := depth_open opens
  obtain ⟨closing, behind, before, closes, level, stays⟩ :=
    exists_first_return (show opening + 1 ≤ place from after) (by omega) back
  exact ⟨closing, before, .of_depth opens closes behind level
    fun place later inside => stays place later inside⟩

/-- A closing bracket has a pair behind any place that is no deeper than what follows it. -/
theorem exists_pairs_of_close {closing place : Nat}
    (closes : lexemeAt? tokens closing = some .listClose) (before : place ≤ closing)
    (below : depth tokens place ≤ depth tokens (closing + 1)) :
    ∃ opening, Pairs tokens opening closing := by
  have falls := depth_close closes
  obtain ⟨opening, _, inOrder, opens, level, stays⟩ :=
    exists_last_departure before below (by omega)
  refine ⟨opening, .of_depth opens closes inOrder level.symm fun place after inside => ?_⟩
  rw [level]
  exact stays place after inside

/-- Tokens are balanced if no depth is negative and the last one is zero. -/
theorem balancedFrom_iff_depth : balancedFrom 0 tokens = true
    ↔ depth tokens tokens.length = 0 ∧ ∀ place, 0 ≤ depth tokens place := by
  have inside {place : Nat} (before : place ≤ tokens.length) :
      depth (tokens ++ [⟨.listClose, 0⟩]) place = depth tokens place :=
    depth_append _ before
  rw [balancedFrom_iff tokens 0 0, closeDistance_eq_some_iff]
  constructor
  · intro closes
    have level := closes.level
    rw [inside (Nat.le_refl _)] at level
    refine ⟨by omega, fun place => ?_⟩
    rcases Nat.le_total place tokens.length with before | beyond
    · have stays := closes.stays place before
      rw [inside before] at stays
      omega
    · rw [depth_of_length_le beyond]
      omega
  · rintro ⟨level, stays⟩
    refine ⟨?_, ?_, fun place before => ?_⟩
    · simp [lexemeAt?]
    · rw [inside (Nat.le_refl _), level]
      rfl
    · rw [inside before]
      have notLess := stays place
      omega

/-- Every bracket has a pair if no depth is negative and the last one is zero. -/
theorem exists_pairs_of_depth (level : depth tokens tokens.length = 0)
    (stays : ∀ place, 0 ≤ depth tokens place) :
    (∀ opening, lexemeAt? tokens opening = some .listOpen → ∃ closing, Pairs tokens opening closing)
      ∧ ∀ closing, lexemeAt? tokens closing = some .listClose →
        ∃ opening, Pairs tokens opening closing := by
  constructor
  · intro opening opens
    have back : depth tokens tokens.length ≤ depth tokens opening := by
      rw [level]
      exact stays opening
    obtain ⟨closing, _, pairs⟩ :=
      exists_pairs_of_open opens (lt_length_of_lexemeAt? opens) back
    exact ⟨closing, pairs⟩
  · intro closing closes
    exact exists_pairs_of_close closes (Nat.zero_le closing) (stays (closing + 1))

/-- If every bracket has a pair, no depth is negative and the last one is zero: the first place
below zero is behind a closing bracket without a pair, and the last place at zero is in front of an
opening one. -/
theorem depth_of_exists_pairs
    (opens : ∀ opening, lexemeAt? tokens opening = some .listOpen →
      ∃ closing, Pairs tokens opening closing)
    (closes : ∀ closing, lexemeAt? tokens closing = some .listClose →
      ∃ opening, Pairs tokens opening closing) :
    depth tokens tokens.length = 0 ∧ ∀ place, 0 ≤ depth tokens place := by
  have stays : ∀ place, 0 ≤ depth tokens place := by
    intro place
    by_contra negative
    obtain ⟨closing, _, _, isClose, level, earlier⟩ :=
      @exists_first_return tokens (-1) 0 place (Nat.zero_le place) (by simp) (by omega)
    obtain ⟨opening, pairs⟩ := closes closing isClose
    have higher := earlier opening (Nat.zero_le opening) (Nat.le_of_lt pairs.inOrder)
    have even := pairs.depth_eq
    omega
  refine ⟨?_, stays⟩
  by_contra deeper
  have above := stays tokens.length
  obtain ⟨opening, _, _, isOpen, level, later⟩ :=
    @exists_last_departure tokens 0 0 tokens.length (Nat.zero_le _) (by simp) (by omega)
  obtain ⟨closing, pairs⟩ := opens opening isOpen
  have inOrder := pairs.inOrder
  have even := pairs.depth_eq
  have higher := later (closing + 1) (by omega) (lt_length_of_lexemeAt? pairs.closes)
  omega

theorem matchBracket_enclosed_iff {tape : Tape} :
    tape.enclosed.matchBracket 0 = some (tape.enclosed.size - 1) ↔ tape.isBalanced = true := by
  unfold isBalanced
  rw [balancedFrom_iff tape.tokens 0 ((tape.tokens.getLast?.map Token.offset).getD 0)]
  simp [matchBracket, enclosed, encloseTokens, listLength?, size]

/-! ## Any tape -/

/-- What the search for closing brackets finds: pairs, each bracket in one of them at most, that
stand inside or beside one another. The count of the brackets that are open comes to nothing only
where a pair is closed, so it is never taken below. That the brackets of a tape are balanced is to
say that the bracket around all of it closes at its end, or that none is without its pair. -/
structure MatchesBrackets (tape : Tape) : Prop where
  pairs : ∀ opening closing, tape.matchBracket opening = some closing
    ↔ Pairs tape.tokens opening closing
  counted : ∀ opening last, lexemeAt? tape.tokens opening = some .listOpen → opening ≤ last →
    (∀ closing, tape.matchBracket opening = some closing → last < closing) →
    closed (stretch tape.tokens opening last) < opened (stretch tape.tokens opening last)
  distinct : ∀ first second closing, tape.matchBracket first = some closing →
    tape.matchBracket second = some closing → first = second
  nested : ∀ first second firstClosing secondClosing,
    tape.matchBracket first = some firstClosing → tape.matchBracket second = some secondClosing →
    first < second → firstClosing < second ∨ secondClosing < firstClosing
  enclosed : tape.isBalanced = true
    ↔ tape.enclosed.matchBracket 0 = some (tape.enclosed.size - 1)
  matched : tape.isBalanced = true
    ↔ (∀ opening, lexemeAt? tape.tokens opening = some .listOpen →
        ∃ closing, tape.matchBracket opening = some closing)
      ∧ ∀ closing, lexemeAt? tape.tokens closing = some .listClose →
        ∃ opening, tape.matchBracket opening = some closing

/-- The search for closing brackets pairs the brackets of every tape. -/
theorem matches_brackets (tape : Tape) : tape.MatchesBrackets where
  pairs _ _ := matchBracket_eq_some_iff
  counted opening last opens after stillOpen := by
    have counts := @depth_stretch tape.tokens opening last (by omega)
    by_contra notFewer
    obtain ⟨closing, before, pairs⟩ :=
      exists_pairs_of_open opens (show opening < last + 1 by omega) (by omega)
    have later := stillOpen closing (matchBracket_eq_some_iff.mpr pairs)
    omega
  distinct first second closing found others :=
    (matchBracket_eq_some_iff.mp found).opening_unique (matchBracket_eq_some_iff.mp others)
  nested first second firstClosing secondClosing found others :=
    (matchBracket_eq_some_iff.mp found).nested (matchBracket_eq_some_iff.mp others)
  enclosed := matchBracket_enclosed_iff.symm
  matched := by
    unfold isBalanced
    simp only [matchBracket_eq_some_iff, balancedFrom_iff_depth]
    constructor
    · rintro ⟨level, stays⟩
      exact exists_pairs_of_depth level stays
    · rintro ⟨opens, closes⟩
      exact depth_of_exists_pairs opens closes

/-- In `)((a)` one list is closed; the first bracket closes none, and the second is not closed. -/
example :
    let soup : Tape := Tape.ofTokens .empty
      [⟨.listClose, 0⟩, ⟨.listOpen, 1⟩, ⟨.listOpen, 2⟩, Token.word "a" 3, ⟨.listClose, 4⟩]
    soup.isBalanced = false ∧ (List.range 6).map soup.matchBracket
      = [none, none, some 4, none, none, none] := by
  decide

end Tape

end MachineScript
