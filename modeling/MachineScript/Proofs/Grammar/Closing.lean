import MachineScript.Proofs.Grammar.Completeness

/-!
Contract: the reader ends every construct behind the bracket that matches its own.

Owns:
- where the reading of a construct of any kind ends, against the counter of
  brackets;
- that no reading fails at the check of that;
- that a program takes up the whole of its tape, which is balanced.

Does not own: which tokens are read, and what they spell.
-/

namespace MachineScript

open Grammar
open Token (bracketed)

/-! ## Balance -/

/-- Tokens are balanced just if a bracket behind them closes the one in front of them, with as many
lists open between as there are at the start. -/
theorem Tape.balancedFrom_iff (tokens : List Token) (depth closing : Nat) :
    Tape.balancedFrom depth tokens = true
      ↔ Tape.closeDistance depth (tokens ++ [⟨.listClose, closing⟩]) = some tokens.length := by
  induction tokens generalizing depth with
  | nil => cases depth <;> simp [Tape.balancedFrom, Tape.closeDistance]
  | cons token rest inductionHypothesis =>
      obtain ⟨lexeme, offset⟩ := token
      cases lexeme with
      | constant value => simp [Tape.balancedFrom, Tape.closeDistance, inductionHypothesis]
      | listOpen => simp [Tape.balancedFrom, Tape.closeDistance, inductionHypothesis]
      | listClose =>
          cases depth with
          | zero => simp [Tape.balancedFrom, Tape.closeDistance]
          | succ depth => simp [Tape.balancedFrom, Tape.closeDistance, inductionHypothesis]

theorem Grammar.Balanced.balancedFrom {tokens : List Token} (balanced : Balanced tokens) :
    Tape.balancedFrom 0 tokens = true := by
  rw [Tape.balancedFrom_iff tokens 0 0, balanced]
  simp [Tape.closeDistance]

/-! ## Where constructs end -/

/-- A place of a tape. -/
def Tape.cursor (tape : Tape) (position : Nat) : Cursor :=
  ⟨position, tape.tokens.drop position⟩

/-- A list with balanced tokens in it lies between two places. -/
def Cursor.Encloses (before after : Cursor) : Prop :=
  ∃ opening inside closing, Balanced inside
    ∧ before.Passes (bracketed opening inside closing) after

namespace Cursor.Encloses

variable {before after : Cursor}

theorem verifyClosed (encloses : before.Encloses after) (construct : Construct) :
    before.verifyClosed after construct = .ok () := by
  obtain ⟨opening, inside, closing, balanced, passed⟩ := encloses
  exact passed.verifyClosed balanced construct

theorem matchBracket {tape : Tape} {position : Nat}
    (encloses : (tape.cursor position).Encloses after) :
    ∃ close, tape.matchBracket position = some close ∧ after = tape.cursor (close + 1) := by
  obtain ⟨opening, inside, closing, balanced, passed⟩ := encloses
  have rest : tape.tokens.drop position = bracketed opening inside closing ++ after.rest :=
    passed.rest
  have ends : after.position = position + (inside.length + 2) := by
    rw [passed.position]
    simp [bracketed, Tape.cursor]
  refine ⟨position + inside.length + 1, ?_, ?_⟩
  · unfold Tape.matchBracket
    rw [rest, listLength?_bracketed opening closing after.rest balanced, Option.map_some]
    rfl
  · have behind : tape.tokens.drop (position + (inside.length + 2)) = after.rest := by
      rw [← List.drop_drop, rest]
      exact List.drop_left' (by simp [bracketed])
    obtain ⟨place, left⟩ := after
    simp only at ends behind
    rw [ends, ← behind]
    rfl

end Cursor.Encloses

namespace Form

variable {libraries : List String} {fuel : Nat} {opening after : Cursor}

theorem encloses_of_readCall {construct : Construct} {value : Expr}
    (read : readCall construct fuel opening = .ok (value, after)) : opening.Encloses after := by
  obtain ⟨tokens, derived, passed⟩ := readCall_derives construct fuel read
  cases derived with
  | constant value offset =>
      -- A call opens with a bracket, so it is no constant.
      cases fuel with
      | zero => simp [readCall, Cursor.fail] at read
      | succ fuel =>
          simp only [readCall, Cursor.expectOpen, passed.lexeme, bind_eq_ok] at read
          simp [Cursor.fail] at read
  | call opens head closes isName arguments =>
      exact ⟨opens, _, closes, arguments.balanced.constant _ head, passed⟩

theorem encloses_of_readDefinition {construct : Construct} {form : Form}
    (definition : construct ∈ [.machine, .state, .handler, .function])
    (read : readDefinition libraries construct fuel opening = .ok (form, after)) :
    opening.Encloses after := by
  obtain ⟨head, body, tokens, rfl, _, derives, passed⟩ :=
    readDefinition_derives libraries definition fuel read
  -- Every definition may stand in a state.
  have container : Defines ⟨.state, false⟩ head := by
    cases head with
    | machine => exact .machine (by decide)
    | state => exact .state (by decide)
    | handler => exact .handler rfl
    | function => exact .function (by decide)
  cases derives _ container with
  | define _ closes _ spelt _ _ forms =>
      exact ⟨_, _, closes, spelt.balanced.append forms.balanced, passed⟩

theorem encloses_of_readProgram {forms : List Form}
    (read : readProgram libraries fuel opening = .ok (forms, after)) : opening.Encloses after := by
  simp only [readProgram, bind_eq_ok] at read
  obtain ⟨_, opened, body⟩ := read
  obtain ⟨_, inside, closing, derived, beyond⟩ := readBody_derives libraries _ _ body
  exact ⟨_, inside, closing, derived.balanced, (Cursor.passes_of_expectOpen opened).append beyond⟩

/-- The reading of a construct of some kind that opens at a place, as far as it goes. -/
def readConstruct (libraries : List String) (construct : Construct) (fuel : Nat)
    (opening : Cursor) : Except Failure Cursor :=
  match construct with
  | .root => (readProgram libraries fuel opening).map Prod.snd
  | .assigned | .argument => (readCall construct fuel opening).map Prod.snd
  | .machine | .state | .handler | .function =>
      (readDefinition libraries construct fuel opening).map Prod.snd

theorem map_snd_eq_ok {α β : Type} {reading : Except Failure (α × β)} {result : β}
    (read : reading.map Prod.snd = .ok result) : ∃ content, reading = .ok (content, result) := by
  cases reading with
  | error failure => cases read
  | ok found =>
      cases read
      exact ⟨found.1, rfl⟩

/-- What is read of a construct is the list that opens where it does, and nothing else. -/
theorem encloses_of_readConstruct {construct : Construct}
    (read : readConstruct libraries construct fuel opening = .ok after) :
    opening.Encloses after := by
  cases construct with
  | root =>
      obtain ⟨_, read⟩ := map_snd_eq_ok read
      exact encloses_of_readProgram read
  | assigned | argument =>
      obtain ⟨_, read⟩ := map_snd_eq_ok read
      exact encloses_of_readCall read
  | machine | state | handler | function =>
      obtain ⟨_, read⟩ := map_snd_eq_ok read
      exact encloses_of_readDefinition (by decide) read

/-! ## The check of closing brackets -/

/-- A reading that fails, if it does, at something else than the check of a closing bracket. -/
def Sealed {α : Type} (reading : Except Failure α) : Prop :=
  ∀ failure construct, reading = .error failure → failure.cause ≠ .notProperlyClosed construct

namespace Sealed

variable {α β : Type}

theorem ok (value : α) : Sealed (.ok value : Except Failure α) :=
  fun _ _ failed => nomatch failed

theorem fail {cause : CompileCause} (cursor : Cursor)
    (other : ∀ construct, cause ≠ .notProperlyClosed construct) :
    Sealed (cursor.fail cause : Except Failure α) := by
  intro failure construct failed
  cases failed
  exact other construct

theorem bind {first : Except Failure α} {next : α → Except Failure β} (sealed : Sealed first)
    (others : ∀ value, first = .ok value → Sealed (next value)) : Sealed (first >>= next) := by
  cases first with
  | error failure =>
      intro other construct failed
      cases failed
      exact sealed failure construct rfl
  | ok value => exact others value rfl

theorem map {reading : Except Failure α} {change : α → β} (sealed : Sealed reading) :
    Sealed (reading.map change) := by
  cases reading with
  | error failure =>
      intro other construct failed
      cases failed
      exact sealed failure construct rfl
  | ok value => exact .ok (change value)

/-- The check finds nothing where a reading ends behind the matching bracket. -/
theorem verified {opening : Cursor} {construct : Construct}
    {reading : Except Failure (α × Cursor)} (sealed : Sealed reading)
    (encloses : ∀ content after, reading = .ok (content, after) → opening.Encloses after) :
    Sealed (Form.verified opening construct reading) := by
  apply sealed.bind
  rintro ⟨content, after⟩ read
  have closed := (encloses content after read).verifyClosed construct
  simp only [closed]
  exact .ok _

end Sealed

/-! ### Readers of tokens -/

theorem lexeme_sealed (cursor : Cursor) (construct : Construct) :
    Sealed (cursor.lexeme construct) := by
  unfold Cursor.lexeme
  split
  · exact .fail _ nofun
  · exact .ok _

theorem expectOpen_sealed (cursor : Cursor) (construct : Construct) :
    Sealed (cursor.expectOpen construct) := by
  apply (lexeme_sealed cursor construct).bind
  intro lexeme _
  split
  · exact .ok _
  · exact .fail _ nofun

theorem name_sealed (cursor : Cursor) (keyword : Keyword) (construct : Construct) :
    Sealed (cursor.name keyword construct) := by
  apply (lexeme_sealed cursor construct).bind
  intro lexeme _
  split
  · split
    · exact .fail _ (by simp)
    · exact .ok _
  · exact .fail _ (by simp)

theorem readParameters_sealed (fuel : Nat) (cursor : Cursor) :
    Sealed (readParameters fuel cursor) := by
  induction fuel generalizing cursor with
  | zero => exact .fail _ (by simp)
  | succ fuel inductionHypothesis =>
      rw [readParameters]
      apply (lexeme_sealed cursor .function).bind
      intro lexeme _
      split
      · exact .ok _
      · split
        · exact .fail _ (by simp)
        · exact (inductionHypothesis cursor.next).bind fun _ _ => .ok _
      · exact .fail _ (by simp)

theorem readRequirement_sealed (libraries : List String) (head : Cursor) :
    Sealed (readRequirement libraries head) := by
  apply (lexeme_sealed head.next .root).bind
  intro lexeme _
  split
  · apply (lexeme_sealed head.next.next .root).bind
    intro closing _
    split
    · split
      · exact .ok _
      · exact .fail _ (by simp)
    · exact .fail _ (by simp)
  · exact .fail _ (by simp)

theorem readTransfer_sealed (owner : Owner) (transfer : Transfer) (opening : Cursor) :
    Sealed (readTransfer owner transfer opening) := by
  unfold readTransfer
  split
  · exact .fail _ (by simp)
  · apply (lexeme_sealed opening.next.next .state).bind
    intro lexeme _
    split
    · split
      · exact .fail _ (by simp)
      · apply (lexeme_sealed opening.next.next.next .state).bind
        intro closing _
        split
        · exact .ok _
        · exact .fail _ (by simp)
    · exact .fail _ (by simp)

/-! ### Readers of values -/

mutual

theorem readArguments_sealed (construct : Construct) :
    ∀ (fuel : Nat) (cursor : Cursor), Sealed (readArguments construct fuel cursor)
  | 0, _ => .fail _ nofun
  | fuel + 1, cursor => by
      rw [readArguments]
      apply (lexeme_sealed cursor construct).bind
      intro lexeme _
      split
      · exact .ok _
      · apply ((readCall_sealed .argument fuel cursor).verified
          fun _ _ read => encloses_of_readCall read).bind
        rintro ⟨value, after⟩ _
        exact (readArguments_sealed construct fuel after).bind fun _ _ => .ok _
      · exact (readArguments_sealed construct fuel cursor.next).bind fun _ _ => .ok _

theorem readCall_sealed (construct : Construct) :
    ∀ (fuel : Nat) (cursor : Cursor), Sealed (readCall construct fuel cursor)
  | 0, _ => .fail _ nofun
  | fuel + 1, cursor => by
      rw [readCall]
      apply (expectOpen_sealed cursor construct).bind
      intro _ _
      apply (lexeme_sealed cursor.next construct).bind
      intro lexeme _
      split
      · split
        · exact .fail _ nofun
        · exact (readArguments_sealed construct fuel cursor.next.next).bind fun _ _ => .ok _
      · exact .fail _ nofun

end

theorem readAssigned_sealed (owner : Owner) (assignment : Assignment) (fuel : Nat)
    (place : Cursor) : Sealed (readAssigned owner assignment fuel place) := by
  apply (lexeme_sealed place owner.construct).bind
  intro lexeme _
  split
  · exact (readCall_sealed .assigned fuel place).verified fun _ _ read => encloses_of_readCall read
  · exact .ok _
  · exact .fail _ nofun

theorem readAssignment_sealed (owner : Owner) (assignment : Assignment) (fuel : Nat)
    (opening : Cursor) : Sealed (readAssignment owner assignment fuel opening) := by
  apply (name_sealed opening.next.next assignment.keyword owner.construct).bind
  intro name _
  apply (readAssigned_sealed owner assignment fuel opening.next.next.next).bind
  rintro ⟨value, after⟩ _
  apply (lexeme_sealed after owner.construct).bind
  intro closing _
  split
  · exact .ok _
  · exact .fail _ nofun

/-! ### Readers of definitions -/

theorem readOpener_sealed (construct : Construct) (cursor : Cursor) :
    Sealed (readOpener construct cursor) := by
  apply (lexeme_sealed cursor construct).bind
  intro lexeme _
  split
  · split
    · split
      · exact .ok _
      · exact .fail _ nofun
    · split
      · exact .ok _
      · exact .fail _ nofun
    · exact .fail _ nofun
  · exact .fail _ nofun

theorem readHead_sealed (construct : Construct) (fuel : Nat) (opening : Cursor) :
    Sealed (readHead construct fuel opening) := by
  apply (expectOpen_sealed opening construct).bind
  intro _ _
  apply (readOpener_sealed construct opening.next).bind
  intro isPure _
  apply (name_sealed opening.next.next (definitionKeyword construct) construct).bind
  intro name _
  split
  · exact .ok _
  · exact .ok _
  · apply (lexeme_sealed opening.next.next.next .handler).bind
    intro lexeme _
    split
    · apply (lexeme_sealed opening.next.next.next.next .handler).bind
      intro body _
      split
      · exact .ok _
      · exact .fail _ nofun
    · exact .fail _ nofun
  · apply (lexeme_sealed opening.next.next.next .function).bind
    intro lexeme _
    split
    · exact (readParameters_sealed fuel _).bind fun _ _ => .ok _
    · exact .fail _ nofun

theorem add_sealed (declared : Declared) (owner : Owner) (opening : Cursor) (form : Form) :
    Sealed (declared.add owner opening form) := by
  unfold Declared.add
  split
  · split
    · exact .fail _ nofun
    · exact .ok _
  · split
    · exact .fail _ nofun
    · exact .ok _
  · split
    · exact .fail _ nofun
    · exact .ok _
  · exact .ok _

mutual

theorem readBody_sealed (libraries : List String) (owner : Owner) :
    ∀ (fuel : Nat) (declared : Declared) (cursor : Cursor),
      Sealed (readBody libraries owner declared fuel cursor)
  | 0, _, _ => .fail _ nofun
  | fuel + 1, declared, cursor => by
      rw [readBody]
      apply (lexeme_sealed cursor owner.construct).bind
      intro lexeme _
      split
      · exact .ok _
      · apply (readForm_sealed libraries owner fuel cursor).bind
        rintro ⟨form, after⟩ _
        apply (add_sealed declared owner cursor form).bind
        intro later _
        exact (readBody_sealed libraries owner fuel later after).bind fun _ _ => .ok _
      · exact .fail _ nofun

theorem readForm_sealed (libraries : List String) (owner : Owner) :
    ∀ (fuel : Nat) (cursor : Cursor), Sealed (readForm libraries owner fuel cursor)
  | 0, _ => .fail _ nofun
  | fuel + 1, cursor => by
      have define (construct : Construct)
          (definition : construct ∈ [.machine, .state, .handler, .function]) :
          Sealed (verified cursor construct (readDefinition libraries construct fuel cursor)) :=
        (readDefinition_sealed libraries construct fuel cursor).verified
          fun _ _ read => encloses_of_readDefinition definition read
      rw [readForm]
      apply (lexeme_sealed cursor.next owner.construct).bind
      intro lexeme _
      split
      · exact .ok _
      · split
        · exact (readArguments_sealed owner.construct fuel cursor.next.next).bind fun _ _ => .ok _
        · split
          · exact .fail _ nofun
          · split
            · exact define .machine (by decide)
            · exact define .state (by decide)
            · exact define .handler (by decide)
            · exact define .function (by decide)
            · exact define .function (by decide)
            · exact readRequirement_sealed libraries cursor.next
            · exact readTransfer_sealed owner .launch cursor
            · exact readTransfer_sealed owner .goto cursor
            · exact readAssignment_sealed owner .set fuel cursor
            · exact readAssignment_sealed owner .shared fuel cursor
      · exact .fail _ nofun

theorem readDefinition_sealed (libraries : List String) (construct : Construct) :
    ∀ (fuel : Nat) (cursor : Cursor), Sealed (readDefinition libraries construct fuel cursor)
  | 0, _ => .fail _ nofun
  | fuel + 1, cursor => by
      rw [readDefinition]
      apply (readHead_sealed construct fuel cursor).bind
      rintro ⟨head, inner⟩ _
      exact (readBody_sealed libraries _ fuel {} inner).bind fun _ _ => .ok _

end

theorem readProgram_sealed (libraries : List String) (fuel : Nat) (opening : Cursor) :
    Sealed (readProgram libraries fuel opening) := by
  apply (expectOpen_sealed opening .root).bind
  intro _ _
  exact readBody_sealed libraries .root fuel {} opening.next

theorem readConstruct_sealed (libraries : List String) (construct : Construct) (fuel : Nat)
    (opening : Cursor) : Sealed (readConstruct libraries construct fuel opening) := by
  cases construct with
  | root => exact (readProgram_sealed libraries fuel opening).map
  | assigned | argument => exact (readCall_sealed _ fuel opening).map
  | machine | state | handler | function =>
      exact (readDefinition_sealed libraries _ fuel opening).map

theorem ofTokens_sealed (libraries : List String) (tokens : List Token) :
    Sealed (ofTokens libraries tokens) := by
  apply ((readProgram_sealed libraries _ _).verified
    fun _ _ read => encloses_of_readProgram read).bind
  rintro ⟨forms, after⟩ _
  simp only
  split
  · exact .ok _
  · exact .fail _ nofun

/-- A program that is accepted is read from its first bracket to the end of its tape. -/
theorem readConstruct_of_ofTokens {tokens : List Token} {forms : List Form}
    (read : ofTokens libraries tokens = .ok forms) :
    readConstruct libraries .root (tokens.length + 2) ⟨0, tokens⟩ = .ok ⟨tokens.length, []⟩ := by
  simp only [ofTokens, bind_eq_ok] at read
  obtain ⟨⟨all, after⟩, accepted, read⟩ := read
  have program := eq_ok_of_verified accepted
  split at read
  · next consumed =>
      change after.position = tokens.length at consumed
      obtain ⟨opening, inside, closing, _, passed⟩ := encloses_of_readProgram program
      have total : after.position + after.rest.length = 0 + tokens.length := passed.total
      have nothingLeft : after.rest = [] := List.eq_nil_of_length_eq_zero (by omega)
      have ended : after = ⟨tokens.length, []⟩ := by
        cases after
        simp_all
      rw [← ended]
      exact congrArg (Except.map Prod.snd) program
  · simp [Cursor.fail] at read

end Form

/-! ## Tapes -/

namespace Tape

/-- The compiler keeps to the brackets of a tape. A construct of any kind that is read at any place
ends right behind the bracket that matches the one there, and no reading fails at the check of
that, nor does compiling. A tape that compiles is balanced, and its program takes up all of it. -/
structure KeepsToBrackets (tape : Tape) (options : CompileOptions) : Prop where
  ends : ∀ construct fuel position after,
    Form.readConstruct options.libraries construct fuel (tape.cursor position) = .ok after →
      ∃ close, tape.matchBracket position = some close ∧ after = tape.cursor (close + 1)
  passes : ∀ construct fuel position failure other,
    Form.readConstruct options.libraries construct fuel (tape.cursor position) = .error failure →
      failure.cause ≠ .notProperlyClosed other
  compiles : ∀ error construct, tape.compile options = .error error →
    error.cause ≠ .notProperlyClosed construct
  consumes : ∀ compilation, tape.compile options = .ok compilation →
    Form.readConstruct options.libraries .root (tape.enclosed.size + 2) (tape.enclosed.cursor 0)
      = .ok (tape.enclosed.cursor tape.enclosed.size)
  balanced : ∀ compilation, tape.compile options = .ok compilation → tape.isBalanced = true

/-- Compiling fails just where reading does, with the same cause. -/
theorem compile_eq_error {options : CompileOptions} {tape : Tape} {error : CompileError}
    (failed : tape.compile options = .error error) :
    ∃ failure, Form.ofTokens options.libraries tape.enclosed.tokens = .error failure
      ∧ error = failure.error := by
  unfold compile Tape.forms at failed
  cases read : Form.ofTokens options.libraries tape.enclosed.tokens with
  | error failure =>
      rw [read] at failed
      cases failed
      exact ⟨failure, rfl, rfl⟩
  | ok forms =>
      rw [read] at failed
      cases failed

/-- Whatever the tape, the compiler keeps to its brackets. -/
theorem keeps_to_brackets (options : CompileOptions) (tape : Tape) :
    tape.KeepsToBrackets options where
  ends construct fuel position after read :=
    (Form.encloses_of_readConstruct read).matchBracket
  passes construct fuel position failure other failed :=
    Form.readConstruct_sealed _ construct fuel (tape.cursor position) failure other failed
  compiles error construct failed := by
    obtain ⟨failure, read, rfl⟩ := compile_eq_error failed
    exact Form.ofTokens_sealed _ _ failure construct read
  consumes compilation compiled := by
    obtain ⟨forms, read, _⟩ := compile_eq_ok_iff.mp compiled
    have ended : tape.enclosed.cursor tape.enclosed.size = ⟨tape.enclosed.size, []⟩ := by
      unfold Tape.cursor Tape.size
      rw [List.drop_length]
    rw [ended]
    exact Form.readConstruct_of_ofTokens (forms_eq_ok_iff_ofTokens.mp read)
  balanced compilation compiled := by
    obtain ⟨forms, read, _⟩ := compile_eq_ok_iff.mp compiled
    exact (forms_eq_ok_iff.mp read).2.balanced.balancedFrom

open Token (word) in
/-- The tape of `(machine m (state main (f (g 1))))`. -/
def nestedCalls : Tape :=
  Tape.ofTokens .empty
    (bracketed 0
      ([word "machine" 1, word "m" 9]
        ++ bracketed 11
          ([word "state" 12, word "main" 18]
            ++ bracketed 23
              (word "f" 24 :: bracketed 26 [word "g" 27, ⟨.constant (.int 1), 29⟩] 30) 31)
          32)
      33)

theorem keeps_to_brackets_nestedCalls :
    ∃ compilation, nestedCalls.compile {} = .ok compilation ∧ nestedCalls.isBalanced = true
      ∧ Form.readConstruct ["io", "math", "time"] .state 9 (nestedCalls.cursor 3)
        = .ok (nestedCalls.cursor 14)
      ∧ nestedCalls.matchBracket 3 = some 13 := by
  have compiled : nestedCalls.compile {} = .ok _ := rfl
  have read : Form.readConstruct ["io", "math", "time"] .state 9 (nestedCalls.cursor 3)
      = .ok (nestedCalls.cursor 14) := rfl
  have keeps := keeps_to_brackets {} nestedCalls
  obtain ⟨close, closes, same⟩ := keeps.ends .state 9 3 _ read
  refine ⟨_, compiled, keeps.balanced _ compiled, read, ?_⟩
  rw [closes]
  have position : 14 = close + 1 := congrArg Cursor.position same
  rw [← Nat.succ.inj position]

end Tape

end MachineScript
