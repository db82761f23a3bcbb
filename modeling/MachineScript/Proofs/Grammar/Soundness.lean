import MachineScript.Compilation
import MachineScript.Proofs.Grammar

/-!
Contract: whatever the reader accepts derives from the grammar.

Owns: the tokens that lie between two places of a tape, and for each reader
the derivation of what it returns from the tokens that it passed.

Does not own: that derived tokens are accepted.
-/

namespace MachineScript

/-- Two steps of a reading end well just if the first does and the second does after it. -/
theorem Form.bind_eq_ok {ε α β : Type} {first : Except ε α} {next : α → Except ε β} {result : β} :
    (first >>= next) = .ok result ↔ ∃ value, first = .ok value ∧ next value = .ok result := by
  cases first with
  | error cause => simp [bind, Except.bind]
  | ok value => simp [bind, Except.bind]

theorem Keyword.text_eq_of_ofText? {written : String} {keyword : Keyword}
    (found : ofText? written = some keyword) : keyword.text = written := by
  have matched := List.find?_some found
  simpa using matched

def Keyword.containers : Keyword → List Construct
  | .machine | .defun | .defum => [.root, .machine, .state]
  | .state => [.machine, .state]
  | .on => [.state]
  | .goto => [.state, .handler]
  | .shared => [.machine]
  | .require => [.root, .machine]
  | .launch | .set => [.root, .machine, .state, .handler, .function]

/-- The table of the compiler lists the containers of each keyword. -/
theorem Keyword.allowedIn_iff_mem (keyword : Keyword) {container : Construct} :
    keyword.allowedIn container = true ↔ container ∈ keyword.containers := by
  cases keyword <;> cases container <;> decide

namespace Cursor

/-- The tokens that lie between two places. -/
structure Passes (before : Cursor) (tokens : List Token) (after : Cursor) : Prop where
  rest : before.rest = tokens ++ after.rest
  position : after.position = before.position + tokens.length

theorem Passes.append {before middle after : Cursor} {first second : List Token}
    (left : before.Passes first middle) (right : middle.Passes second after) :
    before.Passes (first ++ second) after where
  rest := by rw [left.rest, right.rest, List.append_assoc]
  position := by rw [right.position, left.position, List.length_append, Nat.add_assoc]

theorem Passes.total {before after : Cursor} {tokens : List Token}
    (passed : before.Passes tokens after) :
    after.position + after.rest.length = before.position + before.rest.length := by
  rw [passed.rest, passed.position, List.length_append, Nat.add_assoc]

theorem passes_of_lexeme {cursor : Cursor} {construct : Construct} {lexeme : Lexeme}
    (seen : cursor.lexeme construct = .ok lexeme) :
    cursor.Passes [⟨lexeme, cursor.offset⟩] cursor.next := by
  obtain ⟨position, rest⟩ := cursor
  cases rest with
  | nil => simp [Cursor.lexeme, Cursor.fail] at seen
  | cons token rest =>
      simp only [Cursor.lexeme, Except.ok.injEq] at seen
      subst seen
      exact ⟨rfl, rfl⟩

theorem passes_of_name {cursor : Cursor} {keyword : Keyword} {construct : Construct}
    {text : String} (read : cursor.name keyword construct = .ok text) :
    Grammar.IsName text ∧ cursor.Passes [.word text cursor.offset] cursor.next := by
  simp only [Cursor.name, Form.bind_eq_ok] at read
  obtain ⟨lexeme, seen, read⟩ := read
  split at read
  · split at read
    · simp [Cursor.fail] at read
    · next isName =>
        cases read
        exact ⟨isName, passes_of_lexeme seen⟩
  · simp [Cursor.fail] at read

theorem passes_of_expectOpen {cursor : Cursor} {construct : Construct}
    (read : cursor.expectOpen construct = .ok ()) :
    cursor.Passes [⟨.listOpen, cursor.offset⟩] cursor.next := by
  simp only [Cursor.expectOpen, Form.bind_eq_ok] at read
  obtain ⟨lexeme, seen, read⟩ := read
  split at read
  · exact passes_of_lexeme seen
  · simp [Cursor.fail] at read

end Cursor

namespace Form

open Grammar
open Token (word bracketed)

theorem eq_ok_of_verified {α : Type} {opening : Cursor} {construct : Construct}
    {reading : Except Failure (α × Cursor)} {result : α × Cursor}
    (accepted : verified opening construct reading = .ok result) : reading = .ok result := by
  simp only [verified, bind_eq_ok] at accepted
  obtain ⟨⟨content, after⟩, read, _, _, same⟩ := accepted
  rw [read, ← same]

/-! ## Values -/

theorem readParameters_derives :
    ∀ (fuel : Nat) {cursor after : Cursor} {names : List String},
      readParameters fuel cursor = .ok (names, after) →
      ∃ inside closing, DerivesNames names inside
        ∧ cursor.Passes (inside ++ [⟨.listClose, closing⟩]) after
  | 0, _, _, _, read => by simp [readParameters, Cursor.fail] at read
  | fuel + 1, cursor, after, names, read => by
      simp only [readParameters, bind_eq_ok] at read
      obtain ⟨lexeme, seen, read⟩ := read
      have passed := Cursor.passes_of_lexeme seen
      split at read
      · cases read
        exact ⟨[], _, .none, passed⟩
      · split at read
        · simp [Cursor.fail] at read
        · next isName =>
            simp only [bind_eq_ok] at read
            obtain ⟨⟨others, last⟩, tail, same⟩ := read
            cases same
            obtain ⟨inside, closing, derived, beyond⟩ := readParameters_derives fuel tail
            exact ⟨_, closing, .more _ isName derived, passed.append beyond⟩
      · simp [Cursor.fail] at read

mutual

theorem readArguments_derives (construct : Construct) :
    ∀ (fuel : Nat) {cursor after : Cursor} {values : List Expr},
      readArguments construct fuel cursor = .ok (values, after) →
      ∃ inside closing, DerivesValues values inside
        ∧ cursor.Passes (inside ++ [⟨.listClose, closing⟩]) after
  | 0, _, _, _, read => by simp [readArguments, Cursor.fail] at read
  | fuel + 1, cursor, after, values, read => by
      simp only [readArguments, bind_eq_ok] at read
      obtain ⟨lexeme, seen, read⟩ := read
      have passed := Cursor.passes_of_lexeme seen
      split at read
      · cases read
        exact ⟨[], _, .none, passed⟩
      · simp only [bind_eq_ok] at read
        obtain ⟨⟨value, middle⟩, first, ⟨others, last⟩, tail, same⟩ := read
        cases same
        obtain ⟨tokens, head, nested⟩ := readCall_derives .argument fuel (eq_ok_of_verified first)
        obtain ⟨inside, closing, derived, beyond⟩ := readArguments_derives construct fuel tail
        refine ⟨_, closing, .more head derived, ?_⟩
        rw [List.append_assoc]
        exact nested.append beyond
      · simp only [bind_eq_ok] at read
        obtain ⟨⟨others, last⟩, tail, same⟩ := read
        cases same
        obtain ⟨inside, closing, derived, beyond⟩ := readArguments_derives construct fuel tail
        exact ⟨_, closing, .more (.constant _ _) derived, passed.append beyond⟩

theorem readCall_derives (construct : Construct) :
    ∀ (fuel : Nat) {cursor after : Cursor} {value : Expr},
      readCall construct fuel cursor = .ok (value, after) →
      ∃ tokens, DerivesValue value tokens ∧ cursor.Passes tokens after
  | 0, _, _, _, read => by simp [readCall, Cursor.fail] at read
  | fuel + 1, cursor, after, value, read => by
      simp only [readCall, bind_eq_ok] at read
      obtain ⟨_, opened, lexeme, seen, read⟩ := read
      have opened := Cursor.passes_of_expectOpen opened
      have named := Cursor.passes_of_lexeme seen
      split at read
      · split at read
        · simp [Cursor.fail] at read
        · next isName =>
            simp only [bind_eq_ok] at read
            obtain ⟨⟨values, last⟩, tail, same⟩ := read
            cases same
            obtain ⟨inside, closing, derived, beyond⟩ := readArguments_derives construct fuel tail
            exact ⟨_, .call _ _ closing isName derived, opened.append (named.append beyond)⟩
      · simp [Cursor.fail] at read

end

/-! ## Forms without nested forms -/

theorem readRequirement_derives {libraries : List String} {head after : Cursor} {form : Form}
    (read : readRequirement libraries head = .ok (form, after)) :
    ∃ library place closing, form = .require library ∧ library ∈ libraries
      ∧ head.next.Passes [word library place, ⟨.listClose, closing⟩] after := by
  simp only [readRequirement, bind_eq_ok] at read
  obtain ⟨lexeme, seen, read⟩ := read
  split at read
  · simp only [bind_eq_ok] at read
    obtain ⟨last, closed, read⟩ := read
    split at read
    · split at read
      · next listed =>
          cases read
          exact ⟨_, _, _, rfl, listed,
            (Cursor.passes_of_lexeme seen).append (Cursor.passes_of_lexeme closed)⟩
      · simp [Cursor.fail] at read
    · simp [Cursor.fail] at read
  · simp [Cursor.fail] at read

theorem readTransfer_derives {owner : Owner} {transfer : Transfer} {opening after : Cursor}
    {form : Form} (read : readTransfer owner transfer opening = .ok (form, after)) :
    ¬ (transfer = .launch ∧ owner.construct = .function ∧ owner.isPure)
      ∧ ∃ target place closing, form = .step opening.offset (.transfer transfer target)
        ∧ IsName target
        ∧ opening.next.next.Passes [word target place, ⟨.listClose, closing⟩] after := by
  unfold readTransfer at read
  split at read
  · simp [Cursor.fail] at read
  · next permitted =>
      simp only [bind_eq_ok] at read
      obtain ⟨lexeme, seen, read⟩ := read
      split at read
      · split at read
        · simp [Cursor.fail] at read
        · next isName =>
            simp only [bind_eq_ok] at read
            obtain ⟨last, closed, read⟩ := read
            split at read
            · cases read
              exact ⟨permitted, _, _, _, rfl, isName,
                (Cursor.passes_of_lexeme seen).append (Cursor.passes_of_lexeme closed)⟩
            · simp [Cursor.fail] at read
      · simp [Cursor.fail] at read

theorem readAssigned_derives {owner : Owner} {assignment : Assignment} {fuel : Nat}
    {place after : Cursor} {value : Expr}
    (read : readAssigned owner assignment fuel place = .ok (value, after)) :
    ∃ tokens, DerivesValue value tokens ∧ place.Passes tokens after := by
  simp only [readAssigned, bind_eq_ok] at read
  obtain ⟨lexeme, seen, read⟩ := read
  split at read
  · exact readCall_derives .assigned fuel (eq_ok_of_verified read)
  · cases read
    exact ⟨_, .constant _ _, Cursor.passes_of_lexeme seen⟩
  · simp [Cursor.fail] at read

theorem readAssignment_derives {owner : Owner} {assignment : Assignment} {fuel : Nat}
    {opening after : Cursor} {form : Form}
    (read : readAssignment owner assignment fuel opening = .ok (form, after)) :
    ∃ name place value tokens closing,
      form = .step opening.offset (.assign assignment name value) ∧ IsName name
        ∧ DerivesValue value tokens
        ∧ opening.next.next.Passes (word name place :: tokens ++ [⟨.listClose, closing⟩])
          after := by
  simp only [readAssignment, bind_eq_ok] at read
  obtain ⟨name, named, ⟨value, behind⟩, assigned, last, closed, read⟩ := read
  obtain ⟨isName, passedName⟩ := Cursor.passes_of_name named
  obtain ⟨tokens, derived, passedValue⟩ := readAssigned_derives assigned
  split at read
  · cases read
    exact ⟨name, _, value, tokens, _, rfl, isName, derived,
      (passedName.append passedValue).append (Cursor.passes_of_lexeme closed)⟩
  · simp [Cursor.fail] at read

/-! ## Definitions -/

/-- The text of the keyword that opens a definition. -/
def openerText (construct : Construct) (isPure : Bool) : String :=
  match construct with
  | .function => if isPure then "defun" else "defum"
  | other => (definitionKeyword other).text

theorem readOpener_derives {construct : Construct} {cursor : Cursor} {isPure : Bool}
    (read : readOpener construct cursor = .ok isPure) :
    cursor.Passes [word (openerText construct isPure) cursor.offset] cursor.next := by
  simp only [readOpener, bind_eq_ok] at read
  obtain ⟨lexeme, seen, read⟩ := read
  split at read
  · split at read
    · next found =>
        split at read
        · next isFunction =>
            cases read
            subst isFunction
            have passed := Cursor.passes_of_lexeme seen
            rwa [← Keyword.text_eq_of_ofText? found] at passed
        · simp [Cursor.fail] at read
    · next keyword _ found =>
        split at read
        · next expected =>
            cases read
            have passed := Cursor.passes_of_lexeme seen
            rw [← Keyword.text_eq_of_ofText? found, expected] at passed
            cases construct <;> exact passed
        · simp [Cursor.fail] at read
    · simp [Cursor.fail] at read
  · simp [Cursor.fail] at read

/-- A head is spelt behind the bracket that opens its definition; the body of a handler is seen
to open with a bracket of its own. -/
theorem readHead_derives {construct : Construct} {fuel : Nat} {opening inner : Cursor}
    {head : Head} (definition : construct ∈ [.machine, .state, .handler, .function])
    (read : readHead construct fuel opening = .ok (head, inner)) :
    head.construct = construct
      ∧ (construct = .handler → inner.lexeme .handler = .ok .listOpen)
      ∧ ∃ tokens, DerivesHead head tokens
        ∧ opening.Passes (⟨.listOpen, opening.offset⟩ :: tokens) inner := by
  simp only [readHead, bind_eq_ok] at read
  obtain ⟨_, opened, isPure, keyword, name, named, read⟩ := read
  have opened := Cursor.passes_of_expectOpen opened
  have keyword := readOpener_derives keyword
  obtain ⟨isName, named⟩ := Cursor.passes_of_name named
  have front := opened.append (keyword.append named)
  simp only [List.mem_cons, List.not_mem_nil, or_false] at definition
  obtain rfl | rfl | rfl | rfl := definition
  · cases read
    exact ⟨rfl, by simp, _, .machine _ _ isName, front⟩
  · cases read
    exact ⟨rfl, by simp, _, .state _ _ isName, front⟩
  · simp only [bind_eq_ok] at read
    obtain ⟨lexeme, seen, read⟩ := read
    split at read
    · simp only [bind_eq_ok] at read
      obtain ⟨next, bracket, read⟩ := read
      split at read
      · cases read
        exact ⟨rfl, fun _ => bracket, _, .handler _ _ _ _ isName,
          front.append (Cursor.passes_of_lexeme seen)⟩
      · simp [Cursor.fail] at read
    · simp [Cursor.fail] at read
  · simp only [bind_eq_ok] at read
    obtain ⟨lexeme, seen, read⟩ := read
    split at read
    · simp only [bind_eq_ok] at read
      obtain ⟨⟨names, behind⟩, parameters, same⟩ := read
      cases same
      obtain ⟨inside, closing, derived, beyond⟩ := readParameters_derives fuel parameters
      exact ⟨rfl, by simp, _, .function isPure _ _ _ closing isName derived,
        front.append ((Cursor.passes_of_lexeme seen).append beyond)⟩
    · simp [Cursor.fail] at read

/-! ## Names that are defined once -/

def Declared.with (declared : Declared) (form : Form) : Declared :=
  { machines := form.machineName?.toList ++ declared.machines
    functions := form.functionName?.toList ++ declared.functions }

/-- The names of a form are not taken. -/
structure Declared.Admits (declared : Declared) (form : Form) : Prop where
  machine : ∀ name ∈ form.machineName?, name ∉ declared.machines
  function : ∀ name ∈ form.functionName?, name ∉ declared.functions

/-- The names of forms are not taken, and no two of one kind are the same. -/
structure Declared.AdmitsAll (declared : Declared) (forms : List Form) : Prop where
  distinct : Distinct forms
  machines : ∀ name ∈ forms.filterMap machineName?, name ∉ declared.machines
  functions : ∀ name ∈ forms.filterMap functionName?, name ∉ declared.functions

theorem Declared.admits_iff (declared : Declared) (form : Form) :
    declared.Admits form ↔ (∀ name ∈ form.machineName?, name ∉ declared.machines)
      ∧ ∀ name ∈ form.functionName?, name ∉ declared.functions :=
  ⟨fun both => ⟨both.machine, both.function⟩, fun both => ⟨both.1, both.2⟩⟩

theorem Declared.add_eq_ok_iff {declared next : Declared} {owner : Owner} {opening : Cursor}
    {form : Form} :
    declared.add owner opening form = .ok next
      ↔ declared.Admits form ∧ next = declared.with form := by
  rw [declared.admits_iff]
  cases form with
  | define offset head body =>
      cases head with
      | machine name | state name | function _ name _ =>
          simp only [Declared.add]
          split <;> simp_all [Cursor.fail, machineName?, functionName?, Declared.with, eq_comm]
      | handler condition argument =>
          simp [Declared.add, machineName?, functionName?, Declared.with]
          exact eq_comm
  | empty | require | step =>
      simp [Declared.add, machineName?, functionName?, Declared.with]
      exact eq_comm

/-- One name more at the front of names that are distinct and not taken. -/
private theorem fresh_cons_iff (name? : Option String) (names taken : List String) :
    ((name?.toList ++ names).Nodup ∧ ∀ name ∈ name?.toList ++ names, name ∉ taken)
      ↔ (∀ name ∈ name?, name ∉ taken) ∧ names.Nodup
        ∧ ∀ name ∈ names, name ∉ name?.toList ++ taken := by
  cases name? with
  | none => simp
  | some name =>
      simp only [Option.toList_some, List.singleton_append, List.nodup_cons, List.mem_cons,
        forall_eq_or_imp, Option.mem_def, Option.some.injEq, forall_eq', not_or]
      constructor
      · rintro ⟨⟨absent, distinct⟩, free, others⟩
        exact ⟨free, distinct, fun other member =>
          ⟨fun same => absent (same ▸ member), others other member⟩⟩
      · rintro ⟨free, distinct, others⟩
        exact ⟨⟨fun member => (others name member).1 rfl, distinct⟩, free,
          fun other member => (others other member).2⟩

theorem filterMap_cons_eq {α β : Type} (choose : α → Option β) (item : α) (items : List α) :
    (item :: items).filterMap choose = (choose item).toList ++ items.filterMap choose := by
  cases found : choose item <;> simp [found]

theorem Declared.admitsAll_cons (declared : Declared) (form : Form) (forms : List Form) :
    declared.AdmitsAll (form :: forms)
      ↔ declared.Admits form ∧ (declared.with form).AdmitsAll forms := by
  have machines := fresh_cons_iff form.machineName? (forms.filterMap machineName?)
    declared.machines
  have functions := fresh_cons_iff form.functionName? (forms.filterMap functionName?)
    declared.functions
  constructor
  · rintro ⟨⟨machinesDistinct, functionsDistinct⟩, machinesFree, functionsFree⟩
    rw [filterMap_cons_eq] at machinesDistinct functionsDistinct machinesFree functionsFree
    obtain ⟨machine, machines⟩ := machines.mp ⟨machinesDistinct, machinesFree⟩
    obtain ⟨function, functions⟩ := functions.mp ⟨functionsDistinct, functionsFree⟩
    exact ⟨⟨machine, function⟩, ⟨⟨machines.1, functions.1⟩, machines.2, functions.2⟩⟩
  · rintro ⟨⟨machine, function⟩, ⟨machinesDistinct, functionsDistinct⟩, machinesFree,
      functionsFree⟩
    obtain ⟨allMachines, machinesFree⟩ := machines.mpr ⟨machine, machinesDistinct, machinesFree⟩
    obtain ⟨allFunctions, functionsFree⟩ :=
      functions.mpr ⟨function, functionsDistinct, functionsFree⟩
    rw [← filterMap_cons_eq] at allMachines allFunctions machinesFree functionsFree
    exact ⟨⟨allMachines, allFunctions⟩, machinesFree, functionsFree⟩

theorem Declared.admitsAll_empty (forms : List Form) :
    ({} : Declared).AdmitsAll forms ↔ Distinct forms :=
  ⟨fun admitted => admitted.distinct, fun distinct => ⟨distinct, by simp, by simp⟩⟩

/-! ## Bodies -/

theorem defines_of_allowedIn {owner : Owner} {head : Head} {keyword : Keyword}
    (opens : keyword = definitionKeyword head.construct
      ∨ keyword = .defum ∧ head.construct = .function)
    (allowed : keyword.allowedIn owner.construct = true) : Defines owner head := by
  have container := keyword.allowedIn_iff_mem.mp allowed
  cases head with
  | machine name =>
      obtain rfl | ⟨-, impossible⟩ := opens
      · exact .machine container
      · cases impossible
  | state name =>
      obtain rfl | ⟨-, impossible⟩ := opens
      · exact .state container
      · cases impossible
  | handler condition argument =>
      obtain rfl | ⟨-, impossible⟩ := opens
      · exact .handler (List.mem_singleton.mp container)
      · cases impossible
  | function isPure name parameters =>
      obtain rfl | ⟨rfl, -⟩ := opens
      · exact .function container
      · exact .function container

theorem launches_of_allowedIn {owner : Owner}
    (allowed : Keyword.launch.allowedIn owner.construct = true)
    (permitted : ¬ (owner.construct = .function ∧ owner.isPure)) :
    owner.construct ∈ [.root, .machine, .state, .handler] ∨ owner = ⟨.function, false⟩ := by
  have container := Keyword.launch.allowedIn_iff_mem.mp allowed
  obtain ⟨construct, isPure⟩ := owner
  cases construct <;> cases isPure <;> simp_all [Keyword.containers]

theorem readBody_ne_nil {libraries : List String} {owner : Owner} {declared : Declared}
    {fuel : Nat} {cursor after : Cursor} {forms : List Form}
    (opened : cursor.lexeme owner.construct = .ok .listOpen)
    (read : readBody libraries owner declared fuel cursor = .ok (forms, after)) :
    forms ≠ [] := by
  cases fuel with
  | zero => simp [readBody, Cursor.fail] at read
  | succ fuel =>
      simp only [readBody, opened, bind_eq_ok, Except.ok.injEq, exists_eq_left'] at read
      obtain ⟨⟨form, middle⟩, _, declared, _, ⟨others, last⟩, _, same⟩ := read
      cases same
      simp

mutual

theorem readBody_derives (libraries : List String) (owner : Owner) :
    ∀ (fuel : Nat) {declared : Declared} {cursor after : Cursor} {forms : List Form},
      readBody libraries owner declared fuel cursor = .ok (forms, after) →
      declared.AdmitsAll forms ∧ ∃ inside closing, DerivesForms libraries owner forms inside
        ∧ cursor.Passes (inside ++ [⟨.listClose, closing⟩]) after
  | 0, _, _, _, _, read => by simp [readBody, Cursor.fail] at read
  | fuel + 1, declared, cursor, after, forms, read => by
      simp only [readBody, bind_eq_ok] at read
      obtain ⟨lexeme, seen, read⟩ := read
      have passed := Cursor.passes_of_lexeme seen
      split at read
      · cases read
        exact ⟨⟨⟨by simp, by simp⟩, by simp, by simp⟩, [], _, .none owner, passed⟩
      · simp only [bind_eq_ok, Declared.add_eq_ok_iff] at read
        obtain ⟨⟨form, middle⟩, first, _, ⟨admitted, rfl⟩, ⟨others, last⟩, tail, same⟩ := read
        cases same
        obtain ⟨tokens, head, nested⟩ := readForm_derives libraries owner fuel passed first
        obtain ⟨allAdmitted, inside, closing, derived, beyond⟩ :=
          readBody_derives libraries owner fuel tail
        refine ⟨(declared.admitsAll_cons form others).mpr ⟨admitted, allAdmitted⟩, _, closing,
          .more head derived, ?_⟩
        rw [List.append_assoc]
        exact nested.append beyond
      · simp [Cursor.fail] at read

theorem readForm_derives (libraries : List String) (owner : Owner) :
    ∀ (fuel : Nat) {cursor after : Cursor} {form : Form},
      cursor.Passes [⟨.listOpen, cursor.offset⟩] cursor.next →
      readForm libraries owner fuel cursor = .ok (form, after) →
      ∃ tokens, DerivesForm libraries owner form tokens ∧ cursor.Passes tokens after
  | 0, _, _, _, _, read => by simp [readForm, Cursor.fail] at read
  | fuel + 1, cursor, after, form, opened, read => by
      simp only [readForm, bind_eq_ok] at read
      obtain ⟨lexeme, seen, read⟩ := read
      have headed := opened.append (Cursor.passes_of_lexeme seen)
      split at read
      · cases read
        exact ⟨_, .empty owner _ _, headed⟩
      · split at read
        · next isName =>
            simp only [bind_eq_ok] at read
            obtain ⟨⟨values, last⟩, tail, same⟩ := read
            cases same
            obtain ⟨inside, closing, derived, beyond⟩ := readArguments_derives _ fuel tail
            exact ⟨_, .call owner _ _ closing isName derived, headed.append beyond⟩
        · next text keyword found =>
            rw [← Keyword.text_eq_of_ofText? found] at headed
            split at read
            · simp [Cursor.fail] at read
            · next allowed =>
                have allowed : keyword.allowedIn owner.construct = true := by simpa using allowed
                have container := keyword.allowedIn_iff_mem.mp allowed
                cases keyword with
                | machine | state | on | defun | defum =>
                    obtain ⟨head, body, tokens, rfl, same, derives, passed⟩ :=
                      readDefinition_derives libraries (by decide) fuel (eq_ok_of_verified read)
                    refine ⟨tokens, derives owner (defines_of_allowedIn ?_ allowed), passed⟩
                    rw [same]
                    decide
                | require =>
                    obtain ⟨library, place, closing, rfl, listed, passed⟩ :=
                      readRequirement_derives read
                    exact ⟨_, .require _ _ place closing container listed,
                      headed.append passed⟩
                | launch =>
                    obtain ⟨permitted, target, place, closing, rfl, isName, passed⟩ :=
                      readTransfer_derives read
                    exact ⟨_, .launch _ _ place closing
                      (launches_of_allowedIn allowed (by simpa using permitted)) isName,
                      headed.append passed⟩
                | goto =>
                    obtain ⟨-, target, place, closing, rfl, isName, passed⟩ :=
                      readTransfer_derives read
                    exact ⟨_, .goto _ _ place closing container isName, headed.append passed⟩
                | set =>
                    obtain ⟨name, place, value, tokens, closing, rfl, isName, derived, passed⟩ :=
                      readAssignment_derives read
                    exact ⟨_, .set _ _ place closing container isName derived,
                      headed.append passed⟩
                | shared =>
                    obtain ⟨name, place, value, tokens, closing, rfl, isName, derived, passed⟩ :=
                      readAssignment_derives read
                    exact ⟨_, .shared _ _ place closing (List.mem_singleton.mp container) isName
                      derived, headed.append passed⟩
      · simp [Cursor.fail] at read

theorem readDefinition_derives (libraries : List String) {construct : Construct}
    (definition : construct ∈ [.machine, .state, .handler, .function]) :
    ∀ (fuel : Nat) {cursor after : Cursor} {form : Form},
      readDefinition libraries construct fuel cursor = .ok (form, after) →
      ∃ head body tokens, form = .define cursor.offset head body ∧ head.construct = construct
        ∧ (∀ owner, Defines owner head → DerivesForm libraries owner form tokens)
        ∧ cursor.Passes tokens after
  | 0, _, _, _, read => by simp [readDefinition, Cursor.fail] at read
  | fuel + 1, cursor, after, form, read => by
      simp only [readDefinition, bind_eq_ok] at read
      obtain ⟨⟨head, inner⟩, front, ⟨forms, last⟩, body, same⟩ := read
      cases same
      obtain ⟨rfl, bracket, tokens, spelt, passed⟩ := readHead_derives definition front
      obtain ⟨admitted, inside, closing, derived, beyond⟩ :=
        readBody_derives libraries ⟨head.construct, head.isPure⟩ fuel body
      -- Only the head of a handler is seen to end at a bracket, which then opens a form.
      have filled : head.construct = .handler → forms ≠ [] := by
        intro isHandler
        apply readBody_ne_nil _ body
        rw [isHandler]
        exact bracket isHandler
      refine ⟨head, forms, bracketed cursor.offset (tokens ++ inside) closing, rfl, rfl, ?_, ?_⟩
      · intro owner container
        exact .define _ closing container spelt filled
          ((Declared.admitsAll_empty forms).mp admitted) derived
      · have whole := passed.append beyond
        simpa [bracketed, List.append_assoc] using whole

end

/-! ## Programs -/

/-- The forms of a program that is accepted derive from the tokens of its tape. -/
theorem ofTokens_derives {libraries : List String} {tokens : List Token} {forms : List Form}
    (read : ofTokens libraries (Tape.encloseTokens tokens) = .ok forms) :
    Distinct forms ∧ DerivesForms libraries Owner.root forms tokens := by
  simp only [ofTokens, bind_eq_ok] at read
  obtain ⟨⟨all, after⟩, accepted, read⟩ := read
  have program := eq_ok_of_verified accepted
  simp only [readProgram, bind_eq_ok] at program
  obtain ⟨_, opened, body⟩ := program
  obtain ⟨admitted, inside, closing, derived, beyond⟩ := readBody_derives libraries _ _ body
  have passed := (Cursor.passes_of_expectOpen opened).append beyond
  split at read
  · next consumed =>
      change after.position = (Tape.encloseTokens tokens).length at consumed
      cases read
      have nothingLeft : after.rest = [] := by
        have total : after.position + after.rest.length = 0 + (Tape.encloseTokens tokens).length :=
          passed.total
        apply List.eq_nil_of_length_eq_zero
        omega
      have whole := passed.rest
      rw [nothingLeft, List.append_nil, Tape.encloseTokens] at whole
      have same : tokens = inside := by
        simp only [List.cons_append, List.nil_append, List.cons.injEq] at whole
        exact (List.append_inj' whole.2 rfl).1
      rw [same]
      exact ⟨(Declared.admitsAll_empty all).mp admitted, derived⟩
  · simp [Cursor.fail] at read

end Form

end MachineScript
