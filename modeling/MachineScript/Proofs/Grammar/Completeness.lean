import MachineScript.Proofs.Grammar.Brackets
import MachineScript.Proofs.Grammar.Soundness

/-!
Contract: the reader accepts whatever derives from the grammar.

Owns: for each derivation the run of its reader, at any place with the derived
tokens in front of it and enough fuel; that no check of a closing bracket stops
such a run; and the language of the compiler, which is the grammar.
-/

namespace MachineScript

open Grammar
open Token (word bracketed)

namespace Cursor

variable {before after : Cursor}

theorem Passes.eq (passed : before.Passes [] after) : before = after := by
  obtain ⟨rest, position⟩ := passed
  cases before
  cases after
  simp_all

theorem Passes.split {first second : List Token} (passed : before.Passes (first ++ second) after) :
    ∃ middle, before.Passes first middle ∧ middle.Passes second after := by
  refine ⟨⟨before.position + first.length, second ++ after.rest⟩, ⟨?_, rfl⟩, ⟨rfl, ?_⟩⟩
  · rw [passed.rest, List.append_assoc]
  · rw [passed.position, List.length_append, Nat.add_assoc]

section

variable {token : Token} {tokens : List Token}

theorem Passes.lexeme (passed : before.Passes (token :: tokens) after) (construct : Construct) :
    before.lexeme construct = .ok token.lexeme := by
  unfold Cursor.lexeme
  rw [passed.rest]
  rfl

theorem Passes.offset (passed : before.Passes (token :: tokens) after) :
    before.offset = token.offset := by
  unfold Cursor.offset
  rw [passed.rest]
  rfl

theorem Passes.next (passed : before.Passes (token :: tokens) after) :
    before.next.Passes tokens after := by
  constructor
  · unfold Cursor.next
    rw [passed.rest]
    rfl
  · rw [passed.position, List.length_cons]
    simp only [Cursor.next]
    omega

end

theorem Passes.name {text : String} {offset : Nat} {tokens : List Token}
    (passed : before.Passes (word text offset :: tokens) after) (isName : IsName text)
    (keyword : Keyword) (construct : Construct) : before.name keyword construct = .ok text := by
  have seen := passed.lexeme construct
  unfold IsName at isName
  simp only [Cursor.name, seen, word, bind, Except.bind, isName]

/-- A place behind the matching bracket passes the check. -/
theorem Passes.verifyClosed {opening closing : Nat} {inside : List Token}
    (passed : before.Passes (bracketed opening inside closing) after) (balanced : Balanced inside)
    (construct : Construct) : before.verifyClosed after construct = .ok () := by
  have length := listLength?_bracketed opening closing after.rest balanced
  have position := passed.position
  rw [← passed.rest] at length
  simp only [bracketed, List.length_append, List.length_cons, List.length_nil] at position
  unfold Cursor.verifyClosed
  rw [length, position, Option.map_some]
  exact if_pos rfl

/-- A reading that ends behind the matching bracket passes its check. -/
theorem Passes.verified {α : Type} {opening closing : Nat} {inside : List Token}
    {reading : Except Failure (α × Cursor)} {content : α}
    (passed : before.Passes (bracketed opening inside closing) after) (balanced : Balanced inside)
    (construct : Construct) (read : reading = .ok (content, after)) :
    Form.verified before construct reading = .ok (content, after) := by
  have closed := passed.verifyClosed balanced construct
  simp only [Form.verified, read, closed, bind, Except.bind]

end Cursor

namespace Form

variable {before after : Cursor}

/-! ## Values -/

theorem readParameters_of_derives {names : List String} {inside : List Token}
    (derived : DerivesNames names inside) :
    ∀ (fuel : Nat) {closing : Nat} {before : Cursor}, inside.length < fuel →
      before.Passes (inside ++ [⟨.listClose, closing⟩]) after →
      readParameters fuel before = .ok (names, after) := by
  induction derived with
  | none =>
      intro fuel closing before enough passed
      obtain ⟨fuel, rfl⟩ := Nat.exists_eq_succ_of_ne_zero (Nat.ne_of_gt enough)
      have seen := passed.lexeme .function
      simp only [readParameters, seen, bind, Except.bind, passed.next.eq]
  | more offset isName tail inductionHypothesis =>
      intro fuel closing before enough passed
      obtain ⟨fuel, rfl⟩ := Nat.exists_eq_succ_of_ne_zero (Nat.ne_of_gt (Nat.zero_lt_of_lt enough))
      have seen := passed.lexeme .function
      have others := inductionHypothesis fuel (Nat.lt_of_succ_lt_succ enough) passed.next
      unfold IsName at isName
      simp only [readParameters, seen, word, isName, others, bind, Except.bind]

theorem readCall_eq_ok {construct : Construct} {callee : String} {values : List Expr}
    {inside : List Token} {opening head closing fuel : Nat}
    (passed : before.Passes (bracketed opening (word callee head :: inside) closing) after)
    (isName : IsName callee)
    (arguments : readArguments construct fuel before.next.next = .ok (values, after)) :
    readCall construct (fuel + 1) before = .ok (.call opening callee values, after) := by
  have opened := passed.lexeme construct
  have seen := passed.next.lexeme construct
  have offset := passed.offset
  unfold IsName at isName
  simp only [readCall, Cursor.expectOpen, opened, seen, word, isName, arguments, offset, bind,
    Except.bind]

theorem readArguments_of_derives {values : List Expr} {inside : List Token} :
    DerivesValues values inside →
    ∀ (construct : Construct) (fuel : Nat) {closing : Nat} {before after : Cursor},
      inside.length < fuel → before.Passes (inside ++ [⟨.listClose, closing⟩]) after →
      readArguments construct fuel before = .ok (values, after)
  | _, _, 0, _, _, _, enough, _ => by omega
  | .none, construct, fuel + 1, closing, before, after, _, passed => by
      have seen := passed.lexeme construct
      simp only [readArguments, seen, bind, Except.bind, passed.next.eq]
  | .more (.constant value offset) tail, construct, fuel + 1, closing, before, after, enough,
      passed => by
      rw [List.length_append, List.length_singleton] at enough
      have seen := passed.lexeme construct
      have others := readArguments_of_derives tail construct fuel (by omega) passed.next
      simp only [readArguments, seen, others, bind, Except.bind]
  | .more (.call opening head last isName arguments) tail, construct, fuel + 1, closing, before,
      after, enough, passed => by
      simp only [List.length_append, bracketed, List.length_cons, List.length_nil] at enough
      obtain ⟨fuel, rfl⟩ : ∃ less, fuel = less + 1 := ⟨fuel - 1, by omega⟩
      rw [List.append_assoc] at passed
      obtain ⟨middle, nested, beyond⟩ := passed.split
      have values := readArguments_of_derives arguments .argument fuel (by omega) nested.next.next
      have call := nested.verified (arguments.balanced.constant _ head) .argument
        (readCall_eq_ok nested isName values)
      have others := readArguments_of_derives tail construct (fuel + 1) (by omega) beyond
      have seen := nested.lexeme construct
      rw [readArguments]
      simp only [seen, call, others, bind, Except.bind]

theorem readAssigned_of_derives {value : Expr} {tokens : List Token} (owner : Owner)
    (assignment : Assignment) {fuel : Nat} (derived : DerivesValue value tokens)
    (enough : tokens.length ≤ fuel) (passed : before.Passes tokens after) :
    readAssigned owner assignment fuel before = .ok (value, after) := by
  cases derived with
  | constant value offset =>
      have seen := passed.lexeme owner.construct
      simp only [readAssigned, seen, bind, Except.bind, passed.next.eq]
  | call opening head closing isName arguments =>
      simp only [bracketed, List.length_append, List.length_cons, List.length_nil] at enough
      obtain ⟨fuel, rfl⟩ : ∃ less, fuel = less + 1 := ⟨fuel - 1, by omega⟩
      have values := readArguments_of_derives arguments .assigned fuel (by omega) passed.next.next
      have call := passed.verified (arguments.balanced.constant _ head) .assigned
        (readCall_eq_ok passed isName values)
      have seen := passed.lexeme owner.construct
      simp only [readAssigned, seen, call, bind, Except.bind]

/-! ## Forms without nested forms -/

theorem readRequirement_eq_ok {libraries : List String} {library : String} {place closing : Nat}
    (listed : library ∈ libraries)
    (passed : before.next.Passes [word library place, ⟨.listClose, closing⟩] after) :
    readRequirement libraries before = .ok (.require library, after) := by
  have named := passed.lexeme .root
  have closed := passed.next.lexeme .root
  simp only [readRequirement, named, word, closed, listed, passed.next.next.eq, bind, Except.bind,
    if_true]

theorem readTransfer_eq_ok (owner : Owner) (transfer : Transfer) {target : String}
    {place closing : Nat} (permitted : transfer = .launch → owner ≠ ⟨.function, true⟩)
    (isName : IsName target)
    (passed : before.next.next.Passes [word target place, ⟨.listClose, closing⟩] after) :
    readTransfer owner transfer before
      = .ok (.step before.offset (.transfer transfer target), after) := by
  have named := passed.lexeme .state
  have closed := passed.next.lexeme .state
  have lets : ¬ (transfer = .launch ∧ owner.construct = .function ∧ owner.isPure = true) := by
    rintro ⟨isLaunch, isFunction, isPure⟩
    apply permitted isLaunch
    cases owner
    simp_all
  unfold IsName at isName
  simp only [readTransfer, lets, named, word, isName, closed, passed.next.next.eq, bind,
    Except.bind, if_false]

theorem readAssignment_eq_ok (owner : Owner) (assignment : Assignment) (fuel : Nat)
    {name : String} {value : Expr} {tokens : List Token} {place closing : Nat}
    (isName : IsName name) (derived : DerivesValue value tokens) (enough : tokens.length ≤ fuel)
    (passed : before.next.next.Passes (word name place :: tokens ++ [⟨.listClose, closing⟩])
      after) :
    readAssignment owner assignment fuel before
      = .ok (.step before.offset (.assign assignment name value), after) := by
  obtain ⟨middle, front, beyond⟩ := passed.split
  have named := front.name isName assignment.keyword owner.construct
  have assigned := readAssigned_of_derives owner assignment derived enough front.next
  have closed := beyond.lexeme owner.construct
  simp only [readAssignment, named, assigned, closed, beyond.next.eq, bind, Except.bind]

/-! ## Definitions -/

theorem readOpener_eq_ok (head : Head) {keyword : Nat} {tokens : List Token}
    (passed : before.Passes (word (openerText head.construct head.isPure) keyword :: tokens)
      after) :
    readOpener head.construct before = .ok head.isPure := by
  have seen := passed.lexeme head.construct
  unfold readOpener
  rw [seen]
  cases head with
  | machine name | state name | handler condition argument => rfl
  | function isPure name parameters => cases isPure <;> rfl

theorem readHead_of_derives {head : Head} {front : List Token} {opening : Nat} (fuel : Nat)
    (spelt : DerivesHead head front) (enough : front.length ≤ fuel)
    (passed : before.Passes (⟨.listOpen, opening⟩ :: front) after)
    (bracket : head.construct = .handler → after.lexeme .handler = .ok .listOpen) :
    readHead head.construct fuel before = .ok (head, after) := by
  have opened : before.expectOpen head.construct = .ok () := by
    simp only [Cursor.expectOpen, passed.lexeme head.construct, bind, Except.bind]
  cases spelt with
  | @machine name _ _ isName =>
      have keyword := readOpener_eq_ok (.machine name) passed.next
      have named := passed.next.next.name isName .machine .machine
      simp only [Head.construct] at opened keyword ⊢
      simp only [readHead, definitionKeyword, opened, keyword, named, passed.next.next.next.eq,
        bind, Except.bind]
  | @state name _ _ isName =>
      have keyword := readOpener_eq_ok (.state name) passed.next
      have named := passed.next.next.name isName .state .state
      simp only [Head.construct] at opened keyword ⊢
      simp only [readHead, definitionKeyword, opened, keyword, named, passed.next.next.next.eq,
        bind, Except.bind]
  | @handler condition argument _ _ _ isName =>
      have keyword := readOpener_eq_ok (.handler condition argument) passed.next
      have named := passed.next.next.name isName .on .handler
      have value := passed.next.next.next.lexeme .handler
      have bracket := bracket rfl
      have ends := passed.next.next.next.next.eq
      simp only [Head.construct] at opened keyword ⊢
      simp only [readHead, definitionKeyword, opened, keyword, named, value, ends, bracket, bind,
        Except.bind]
  | @function name parameters inside isPure _ _ _ closing isName names =>
      have keyword := readOpener_eq_ok (.function isPure name parameters) passed.next
      have named := passed.next.next.name isName .defun .function
      have bracket := passed.next.next.next.lexeme .function
      simp only [bracketed, List.length_append, List.length_cons, List.length_nil] at enough
      have read := readParameters_of_derives names fuel (by omega) passed.next.next.next.next
      simp only [Head.construct] at opened keyword ⊢
      simp only [readHead, definitionKeyword, opened, keyword, named, bracket, read, bind,
        Except.bind]
      rfl

/-! ## Bodies -/

def headKeyword : Head → Keyword
  | .machine _ => .machine
  | .state _ => .state
  | .handler _ _ => .on
  | .function isPure _ _ => if isPure then .defun else .defum

theorem allowedIn_of_defines {owner : Owner} {head : Head} (container : Defines owner head) :
    (headKeyword head).allowedIn owner.construct = true := by
  rw [Keyword.allowedIn_iff_mem]
  cases container with
  | machine container | state container => exact container
  | handler container => exact List.mem_singleton.mpr container
  | @function isPure _ _ container => cases isPure <;> exact container

/-- A launch may stand wherever the grammar has one, which is in no pure function. -/
theorem allowedIn_of_launches {owner : Owner}
    (container : owner.construct ∈ [.root, .machine, .state, .handler]
      ∨ owner = ⟨.function, false⟩) :
    Keyword.launch.allowedIn owner.construct = true ∧ owner ≠ ⟨.function, true⟩ := by
  rw [Keyword.allowedIn_iff_mem]
  obtain ⟨construct, isPure⟩ := owner
  cases construct <;> simp_all [Keyword.containers]

theorem headKeyword_of_derives {head : Head} {front : List Token} (spelt : DerivesHead head front) :
    ∃ offset rest, front = word (headKeyword head).text offset :: rest ∧ rest ≠ [] := by
  cases spelt with
  | machine | state | handler => exact ⟨_, _, rfl, by simp⟩
  | function isPure => cases isPure <;> exact ⟨_, _, rfl, by simp⟩

theorem opens_of_derivesForm {libraries : List String} {owner : Owner} {form : Form}
    {tokens : List Token} (derived : DerivesForm libraries owner form tokens) :
    ∃ opening rest, tokens = ⟨.listOpen, opening⟩ :: rest := by
  cases derived <;> exact ⟨_, _, rfl⟩

theorem opens_of_derivesForms {libraries : List String} {owner : Owner} {forms : List Form}
    {tokens : List Token} (derived : DerivesForms libraries owner forms tokens)
    (filled : forms ≠ []) : ∃ opening rest, tokens = ⟨.listOpen, opening⟩ :: rest := by
  cases derived with
  | none => contradiction
  | more head tail =>
      obtain ⟨opening, rest, rfl⟩ := opens_of_derivesForm head
      exact ⟨opening, _, rfl⟩

/-- A form with a keyword in its place is read by the reader of that keyword. -/
theorem readForm_eq_definition {libraries : List String} {owner : Owner} {head : Head}
    {opening offset : Nat} {rest : List Token} (fuel : Nat) (container : Defines owner head)
    (passed : before.Passes
      (⟨.listOpen, opening⟩ :: word (headKeyword head).text offset :: rest) after) :
    readForm libraries owner (fuel + 1) before
      = verified before head.construct (readDefinition libraries head.construct fuel before) := by
  have seen := passed.next.lexeme owner.construct
  have allowed := allowedIn_of_defines container
  rw [readForm]
  simp only [seen, word, Keyword.ofText?_text, allowed, bind, Except.bind]
  cases head with
  | machine | state | handler => rfl
  | function isPure => cases isPure <;> rfl

mutual

theorem readForm_of_derives {libraries : List String} {owner : Owner} {form : Form}
    {tokens : List Token} : DerivesForm libraries owner form tokens →
    ∀ (fuel : Nat) {before after : Cursor}, tokens.length ≤ fuel → before.Passes tokens after →
      readForm libraries owner fuel before = .ok (form, after)
  | derived, 0, _, _, enough, _ => by
      obtain ⟨opening, rest, rfl⟩ := opens_of_derivesForm derived
      simp at enough
  | .empty owner opening closing, fuel + 1, before, after, _, passed => by
      have seen := passed.next.lexeme owner.construct
      rw [readForm]
      simp only [seen, passed.next.next.eq, bind, Except.bind]
  | .call owner opening head closing isName arguments, fuel + 1, before, after, enough, passed => by
      simp only [bracketed, List.length_append, List.length_cons, List.length_nil] at enough
      have seen := passed.next.lexeme owner.construct
      have values := readArguments_of_derives arguments owner.construct fuel (by omega)
        passed.next.next
      have offset := passed.offset
      unfold IsName at isName
      rw [readForm]
      simp only [seen, word, isName, values, offset, bind, Except.bind]
  | .require opening keyword place closing container listed, fuel + 1, before, after, _,
      passed => by
      have seen := passed.next.lexeme owner.construct
      have found : Keyword.ofText? "require" = some .require := Keyword.ofText?_text .require
      have allowed := Keyword.require.allowedIn_iff_mem.mpr container
      have read := readRequirement_eq_ok listed passed.next.next
      rw [readForm]
      simp [seen, word, found, allowed, read, bind, Except.bind]
  | .launch opening keyword place closing container isName, fuel + 1, before, after, _,
      passed => by
      have seen := passed.next.lexeme owner.construct
      have found : Keyword.ofText? "launch" = some .launch := Keyword.ofText?_text .launch
      obtain ⟨allowed, permitted⟩ := allowedIn_of_launches container
      have read := readTransfer_eq_ok owner .launch (fun _ => permitted) isName passed.next.next
      have offset : before.offset = opening := passed.offset
      rw [readForm]
      simp [seen, word, found, allowed, read, offset, bind, Except.bind]
  | .goto opening keyword place closing container isName, fuel + 1, before, after, _,
      passed => by
      have seen := passed.next.lexeme owner.construct
      have found : Keyword.ofText? "goto" = some .goto := Keyword.ofText?_text .goto
      have allowed := Keyword.goto.allowedIn_iff_mem.mpr container
      have read := readTransfer_eq_ok owner .goto nofun isName passed.next.next
      have offset : before.offset = opening := passed.offset
      rw [readForm]
      simp [seen, word, found, allowed, read, offset, bind, Except.bind]
  | .set opening keyword place closing container isName derived, fuel + 1, before, after, enough,
      passed => by
      simp only [bracketed, List.length_append, List.length_cons, List.length_nil] at enough
      have seen := passed.next.lexeme owner.construct
      have found : Keyword.ofText? "set" = some .set := Keyword.ofText?_text .set
      have allowed := Keyword.set.allowedIn_iff_mem.mpr container
      have read := readAssignment_eq_ok owner .set fuel isName derived (by omega)
        passed.next.next
      have offset : before.offset = opening := passed.offset
      rw [readForm]
      simp [seen, word, found, allowed, read, offset, bind, Except.bind]
  | .shared opening keyword place closing container isName derived, fuel + 1, before, after,
      enough, passed => by
      simp only [bracketed, List.length_append, List.length_cons, List.length_nil] at enough
      have seen := passed.next.lexeme owner.construct
      have found : Keyword.ofText? "shared" = some .shared := Keyword.ofText?_text .shared
      have allowed := Keyword.shared.allowedIn_iff_mem.mpr (List.mem_singleton.mpr container)
      have read := readAssignment_eq_ok owner .shared fuel isName derived (by omega)
        passed.next.next
      have offset : before.offset = opening := passed.offset
      rw [readForm]
      simp [seen, word, found, allowed, read, offset, bind, Except.bind]
  | .define opening closing container spelt filled distinct forms, fuel + 1, before, after,
      enough, passed => by
      next head body front inside =>
      obtain ⟨offset, rest, opener, long⟩ := headKeyword_of_derives spelt
      -- The head is two tokens at least, so there is fuel for the definition and for its body.
      have atLeast : 2 ≤ front.length := by
        rw [opener, List.length_cons]
        have positive := List.length_pos_iff.mpr long
        omega
      simp only [bracketed, List.length_append, List.length_cons, List.length_nil] at enough
      obtain ⟨fuel, rfl⟩ : ∃ less, fuel = less + 1 := ⟨fuel - 1, by omega⟩
      have whole := passed
      rw [bracketed, ← List.cons_append, List.append_assoc] at passed
      obtain ⟨middle, ahead, behind⟩ := passed.split
      have inner := readBody_of_derives forms {} fuel ((Declared.admitsAll_empty body).mpr distinct)
        (by omega) behind
      have bracket : head.construct = .handler → middle.lexeme .handler = .ok .listOpen := by
        intro isHandler
        obtain ⟨_, _, rfl⟩ := opens_of_derivesForms forms (filled isHandler)
        exact behind.lexeme .handler
      have spelling := readHead_of_derives fuel spelt (by omega) ahead bracket
      have read : readDefinition libraries head.construct (fuel + 1) before
          = .ok (.define opening head body, after) := by
        rw [readDefinition]
        simp only [spelling, inner, ahead.offset, bind, Except.bind]
      have opened : before.Passes
          (⟨.listOpen, opening⟩ :: word (headKeyword head).text offset :: rest) middle := by
        rwa [opener] at ahead
      rw [readForm_eq_definition _ container opened]
      exact whole.verified (spelt.balanced.append forms.balanced) _ read

theorem readBody_of_derives {libraries : List String} {owner : Owner} {forms : List Form}
    {inside : List Token} : DerivesForms libraries owner forms inside →
    ∀ (declared : Declared) (fuel : Nat) {closing : Nat} {before after : Cursor},
      declared.AdmitsAll forms → inside.length < fuel →
      before.Passes (inside ++ [⟨.listClose, closing⟩]) after →
      readBody libraries owner declared fuel before = .ok (forms, after)
  | _, _, 0, _, _, _, _, enough, _ => by omega
  | .none owner, declared, fuel + 1, closing, before, after, _, _, passed => by
      have seen := passed.lexeme owner.construct
      rw [readBody]
      simp only [seen, passed.next.eq, bind, Except.bind]
  | .more head tail, declared, fuel + 1, closing, before, after, admitted, enough, passed => by
      next form forms first rest =>
      obtain ⟨admits, admitted⟩ := (declared.admitsAll_cons form forms).mp admitted
      rw [List.append_assoc] at passed
      obtain ⟨middle, nested, beyond⟩ := passed.split
      obtain ⟨opening, others, opened⟩ := opens_of_derivesForm head
      rw [opened] at passed
      simp only [List.length_append] at enough
      have shorter : 0 < first.length := by rw [opened]; simp
      have seen := passed.lexeme owner.construct
      have read := readForm_of_derives head fuel (by omega) nested
      have add : declared.add owner before form = .ok (declared.with form) :=
        Declared.add_eq_ok_iff.mpr ⟨admits, rfl⟩
      have forms := readBody_of_derives tail (declared.with form) fuel admitted (by omega) beyond
      rw [readBody]
      simp only [seen, read, add, forms, bind, Except.bind]

end

/-! ## Programs -/

/-- The forms of a program are read from its tokens inside their outer brackets. -/
theorem ofTokens_of_derives {libraries : List String} {tokens : List Token} {forms : List Form}
    (distinct : Distinct forms) (derived : DerivesForms libraries Owner.root forms tokens) :
    ofTokens libraries (Tape.encloseTokens tokens) = .ok forms := by
  let last := (tokens.getLast?.map Token.offset).getD 0
  let opening : Cursor := ⟨0, Tape.encloseTokens tokens⟩
  let ending : Cursor := ⟨(Tape.encloseTokens tokens).length, []⟩
  have passed : opening.Passes (bracketed 0 tokens last) ending :=
    ⟨(List.append_nil _).symm, (Nat.zero_add _).symm⟩
  have enough : tokens.length < (Tape.encloseTokens tokens).length + 2 := by
    simp only [Tape.encloseTokens, List.length_append, List.length_cons, List.length_nil]
    omega
  have body := readBody_of_derives derived {} _ ((Declared.admitsAll_empty forms).mpr distinct)
    enough passed.next
  have program : readProgram libraries ((Tape.encloseTokens tokens).length + 2) opening
      = .ok (forms, ending) := by
    simp only [readProgram, Cursor.expectOpen, passed.lexeme .root, body, bind, Except.bind]
  have accepted := passed.verified derived.balanced .root program
  simp only [ofTokens, opening, ending] at accepted ⊢
  simp only [accepted, bind, Except.bind, if_true]

end Form

namespace Tape

/-- The forms of a tape are those that its tokens spell inside their outer brackets. -/
theorem forms_eq_ok_iff_ofTokens {libraries : List String} {tape : Tape} {forms : List Form} :
    tape.forms libraries = .ok forms
      ↔ Form.ofTokens libraries tape.enclosed.tokens = .ok forms := by
  unfold Tape.forms
  cases Form.ofTokens libraries tape.enclosed.tokens with
  | ok read =>
      constructor
      · intro accepted
        cases accepted
        rfl
      · intro accepted
        cases accepted
        rfl
  | error failure =>
      constructor
      · intro accepted
        cases accepted
      · intro accepted
        cases accepted

theorem forms_eq_ok_iff {libraries : List String} {tape : Tape} {forms : List Form} :
    tape.forms libraries = .ok forms
      ↔ Distinct forms ∧ DerivesForms libraries Form.Owner.root forms tape.tokens := by
  rw [forms_eq_ok_iff_ofTokens]
  constructor
  · exact Form.ofTokens_derives
  · rintro ⟨distinct, derived⟩
    exact Form.ofTokens_of_derives distinct derived

/-- Compiling fails only where reading does. -/
theorem compile_eq_ok_iff {options : CompileOptions} {tape : Tape} {compilation : Compilation} :
    tape.compile options = .ok compilation
      ↔ ∃ forms, tape.forms options.libraries = .ok forms
        ∧ compilation =
          { program := Program.ofForms tape.interner forms
            warnings :=
              if options.warnUnreachable then Form.unreachableIn .root "" none forms else [] } := by
  unfold Tape.compile
  rw [Form.bind_eq_ok]
  constructor
  · rintro ⟨forms, read, same⟩
    cases same
    exact ⟨forms, read, rfl⟩
  · rintro ⟨forms, read, rfl⟩
    exact ⟨forms, read, rfl⟩

/-- A tape is compiled just if its tokens derive from the grammar of programs, with the libraries
that the options list. -/
theorem compiles_iff_derives (options : CompileOptions) (tape : Tape) :
    (∃ compilation, tape.compile options = .ok compilation)
      ↔ DerivesProgram options.libraries tape.tokens := by
  simp only [compile_eq_ok_iff, forms_eq_ok_iff, DerivesProgram]
  constructor
  · rintro ⟨_, forms, spelt, _⟩
    exact ⟨forms, spelt⟩
  · rintro ⟨forms, spelt⟩
    exact ⟨_, forms, spelt, rfl⟩

end Tape

end MachineScript
