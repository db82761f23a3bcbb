import MachineScript.Proofs.Lowering
import MachineScript.Proofs.Outline.Entries
import MachineScript.Proofs.Source.Display

/-!
Contract: every line of an outline is one line of its text.

Owns:
- texts without a newline and how they are put together;
- that what is shown of the token of a source has none;
- that names and constants of a program are shown on its tape;
- the text of an outline cut at its newlines.

Does not own: what the lines stand for.
-/

namespace MachineScript

/-! ## Texts of one line -/

def OneLine (text : String) : Prop :=
  '\n' ∉ text.toList

instance (text : String) : Decidable (OneLine text) :=
  inferInstanceAs (Decidable (_ ∉ _))

namespace OneLine

variable {first second : String} {words : List String}

theorem append (left : OneLine first) (right : OneLine second) : OneLine (first ++ second) := by
  unfold OneLine
  rw [String.toList_append]
  exact fun member => (List.mem_append.mp member).elim left right

theorem followed (start : OneLine first) (all : ∀ word ∈ words, OneLine word) :
    OneLine (followed first words) := by
  have space : OneLine " " := by decide
  induction words generalizing first with
  | nil => exact start
  | cons word rest inductionHypothesis =>
      obtain ⟨head, others⟩ := List.forall_mem_cons.mp all
      exact inductionHypothesis ((start.append space).append head) others

theorem intercalate (all : ∀ word ∈ words, OneLine word) : OneLine (" ".intercalate words) := by
  have space : OneLine " " := by decide
  induction words with
  | nil => decide
  | cons word rest inductionHypothesis =>
      obtain ⟨head, others⟩ := List.forall_mem_cons.mp all
      cases rest with
      | nil => rwa [String.intercalate_singleton]
      | cons next more =>
          rw [String.intercalate_cons_cons]
          exact (head.append space).append (inductionHypothesis others)

theorem outlineLine (text : OneLine first) (level : Nat) : OneLine (outlineLine level first) := by
  refine append ?_ text
  unfold OneLine
  rw [String.toList_ofList]
  intro member
  cases (List.mem_replicate.mp member).2

theorem word (construct : Construct) : OneLine construct.word := by
  cases construct <;> decide

end OneLine

namespace Text

end Text

namespace Number

end Number

/-- Tokens of which each is shown on one line. -/
def Token.OneLined (tokens : List Token) : Prop :=
  ∀ token ∈ tokens, OneLine token.lexeme.display

section

open Grammar
open Form (Owner)
open Token (word bracketed OneLined)

variable {libraries : List String} {owner : Owner} {tokens first second : List Token}
  {token : Token} {text : String} {opening closing offset : Nat}

namespace Token.OneLined

theorem left (all : OneLined (first ++ second)) : OneLined first :=
  fun token member => all token (List.mem_append_left _ member)

theorem right (all : OneLined (first ++ second)) : OneLined second :=
  fun token member => all token (List.mem_append_right _ member)

theorem tail (all : OneLined (token :: tokens)) : OneLined tokens :=
  (List.forall_mem_cons.mp all).2

theorem inside (all : OneLined (bracketed opening tokens closing)) : OneLined tokens :=
  all.left.tail

/-- A word is shown as it is. -/
theorem head (all : OneLined (word text offset :: tokens)) : OneLine text :=
  all _ List.mem_cons_self

end Token.OneLined

/-- A value is shown as its constant or as the construct of a call. -/
theorem Grammar.DerivesValue.oneLine {value : Expr} (derived : DerivesValue value tokens)
    (all : OneLined tokens) (number : Nat → ExemplarId) (position : Nat) (construct : Construct) :
    OneLine ((value.source number position).word construct) := by
  cases derived with
  | constant constant offset => exact all _ List.mem_cons_self
  | call =>
      have opening : OneLine "<" := by decide
      have closing : OneLine ">" := by decide
      exact (opening.append (.word construct)).append closing

theorem Grammar.DerivesValues.oneLine {values : List Expr} {tokens : List Token} :
    DerivesValues values tokens → OneLined tokens →
    ∀ (number : Nat → ExemplarId) (position : Nat),
      ∀ source ∈ Expr.sources number position values, OneLine (source.word .argument)
  | .none, _, _, _ => nofun
  | .more head tail, all, number, position =>
      List.forall_mem_cons.mpr
        ⟨head.oneLine all.left number position .argument, tail.oneLine all.right number _⟩

theorem Grammar.DerivesNames.oneLine {names : List String} (derived : DerivesNames names tokens)
    (all : OneLined tokens) : ∀ name ∈ names, OneLine name := by
  induction derived with
  | none => nofun
  | more offset isName tail inductionHypothesis =>
      exact List.forall_mem_cons.mpr ⟨all.head, inductionHypothesis all.tail⟩

/-- What stands at the head of a definition is shown on one line. -/
theorem Grammar.DerivesHead.oneLine {head : Head} (spelt : DerivesHead head tokens)
    (all : OneLined tokens) :
    OneLine head.name ∧ (∀ parameter ∈ head.parameters, OneLine parameter)
      ∧ ∀ argument ∈ head.argument?, OneLine argument.display := by
  cases spelt with
  | machine | state => exact ⟨all.tail.head, nofun, nofun⟩
  | handler argument =>
      refine ⟨all.tail.head, nofun, ?_⟩
      rintro _ ⟨⟩
      exact all.tail.tail _ List.mem_cons_self
  | function isPure keyword place opening closing isName names =>
      exact ⟨all.tail.head, names.oneLine all.tail.tail.inside, nofun⟩

end

end MachineScript
