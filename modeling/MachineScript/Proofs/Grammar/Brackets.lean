import MachineScript.Proofs.Grammar

/-!
Contract: derived tokens close every bracket that they open.

Owns: balance as a law of the bracket counter, what keeps it, and the length
of a bracketed list, which is the place where its matching bracket is found.
-/

namespace MachineScript.Grammar

open Form (Owner)
open Token (word bracketed)

/-- The bracket counter passes over tokens as if they were constants. -/
def Balanced (tokens : List Token) : Prop :=
  ∀ (inner : Nat) (rest : List Token),
    Tape.closeDistance inner (tokens ++ rest)
      = (Tape.closeDistance inner rest).map (· + tokens.length)

/-! ## What keeps balance -/

theorem Balanced.nil : Balanced [] := by
  intro inner rest
  simp

theorem Balanced.append {first second : List Token} (left : Balanced first)
    (right : Balanced second) : Balanced (first ++ second) := by
  intro inner rest
  rw [List.append_assoc, left, right, Option.map_map, List.length_append]
  congr 1
  funext distance
  simp only [Function.comp_apply]
  omega

theorem Balanced.constant (value : Constant) (offset : Nat) {tokens : List Token}
    (balanced : Balanced tokens) : Balanced (⟨.constant value, offset⟩ :: tokens) := by
  intro inner rest
  simp only [List.cons_append, Tape.closeDistance, balanced inner rest, Option.map_map,
    List.length_cons]
  rfl

theorem Balanced.bracketed (opening closing : Nat) {inside : List Token}
    (balanced : Balanced inside) : Balanced (Token.bracketed opening inside closing) := by
  intro inner rest
  simp only [Token.bracketed, List.cons_append, List.append_assoc, Tape.closeDistance,
    balanced (inner + 1), Option.map_map, List.length_cons, List.length_append, List.length_nil]
  congr 1
  funext distance
  simp only [Function.comp_apply]
  omega

/-- A list of balanced tokens ends at the first bracket behind them. -/
theorem listLength?_bracketed (opening closing : Nat) {inside : List Token} (rest : List Token)
    (balanced : Balanced inside) :
    Tape.listLength? (bracketed opening inside closing ++ rest) = some (inside.length + 2) := by
  simp only [bracketed, List.cons_append, List.append_assoc, Tape.listLength?, balanced 0,
    Tape.closeDistance, Option.map_some]
  congr 1
  omega

/-! ## Derivations -/

mutual

theorem DerivesValue.balanced {value : Expr} {tokens : List Token} :
    DerivesValue value tokens → Balanced tokens
  | .constant value offset => Balanced.nil.constant value offset
  | .call opening head closing _ arguments =>
      (arguments.balanced.constant _ head).bracketed opening closing

theorem DerivesValues.balanced {values : List Expr} {tokens : List Token} :
    DerivesValues values tokens → Balanced tokens
  | .none => Balanced.nil
  | .more head tail => head.balanced.append tail.balanced

end

theorem DerivesNames.balanced {names : List String} {tokens : List Token}
    (derived : DerivesNames names tokens) : Balanced tokens := by
  induction derived with
  | none => exact Balanced.nil
  | more offset _ _ inductionHypothesis => exact inductionHypothesis.constant _ offset

theorem DerivesHead.balanced {head : Head} {tokens : List Token}
    (derived : DerivesHead head tokens) : Balanced tokens := by
  cases derived with
  | machine keyword place _ => exact (Balanced.nil.constant _ place).constant _ keyword
  | state keyword place _ => exact (Balanced.nil.constant _ place).constant _ keyword
  | handler argument keyword place value _ =>
      exact ((Balanced.nil.constant _ value).constant _ place).constant _ keyword
  | function isPure keyword place opening closing _ names =>
      exact ((names.balanced.bracketed opening closing).constant _ place).constant _ keyword

mutual

theorem DerivesForm.balanced {libraries : List String} {owner : Owner} {form : Form}
    {tokens : List Token} : DerivesForm libraries owner form tokens → Balanced tokens
  | .empty _ opening closing => Balanced.nil.bracketed opening closing
  | .call _ opening head closing _ arguments =>
      (arguments.balanced.constant _ head).bracketed opening closing
  | .require opening keyword place closing _ _ =>
      ((Balanced.nil.constant _ place).constant _ keyword).bracketed opening closing
  | .launch opening keyword place closing _ _ =>
      ((Balanced.nil.constant _ place).constant _ keyword).bracketed opening closing
  | .goto opening keyword place closing _ _ =>
      ((Balanced.nil.constant _ place).constant _ keyword).bracketed opening closing
  | .set opening keyword place closing _ _ derived =>
      ((derived.balanced.constant _ place).constant _ keyword).bracketed opening closing
  | .shared opening keyword place closing _ _ derived =>
      ((derived.balanced.constant _ place).constant _ keyword).bracketed opening closing
  | .define opening closing _ spelt _ _ forms =>
      (spelt.balanced.append forms.balanced).bracketed opening closing

theorem DerivesForms.balanced {libraries : List String} {owner : Owner} {forms : List Form}
    {tokens : List Token} : DerivesForms libraries owner forms tokens → Balanced tokens
  | .none _ => Balanced.nil
  | .more head tail => head.balanced.append tail.balanced

end

end MachineScript.Grammar
