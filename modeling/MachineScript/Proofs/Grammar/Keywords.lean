import Mathlib.Data.List.Basic
import MachineScript.Proofs.Lowering

/-!
Contract: what the constants on a tape stand for.

Owns:
- the use of each constant of a program: the keyword of a form, a name, or a value;
- that these are all constants of the tape, in their order;
- that keywords open forms, that names are no keywords, and hence that a keyword
  anywhere else on the tape is a value.

A value may be any constant. An atom there is a variable that nothing can define
if it is a keyword, and yet the tape has a program.
-/

namespace MachineScript

open Grammar
open Form (Owner)
open Token (word bracketed)

/-- What a constant on the tape of a program stands for. -/
inductive Use where
  | keyword (reserved : Keyword)
  | name (text : String)
  | value (written : Constant)

def Use.constant : Use → Constant
  | .keyword reserved => .atom reserved.text
  | .name text => .atom text
  | .value written => written

/-! ## The uses in a tree -/

mutual

/-- The uses in a value at a position. -/
def Expr.uses (position : Nat) : Expr → List (Nat × Use)
  | .constant value => [(position, .value value)]
  | .call _ callee values => (position + 1, .name callee) :: Expr.usesAll (position + 2) values

def Expr.usesAll (position : Nat) : List Expr → List (Nat × Use)
  | [] => []
  | value :: rest => value.uses position ++ Expr.usesAll (position + value.length) rest

end

/-- The uses of names that start at a position. -/
def Use.names (position : Nat) : List String → List (Nat × Use)
  | [] => []
  | text :: rest => (position, .name text) :: Use.names (position + 1) rest

def Head.keyword : Head → Keyword
  | .machine _ => .machine
  | .state _ => .state
  | .handler _ _ => .on
  | .function pure _ _ => if pure then .defun else .defum

/-- The uses behind the keyword of a definition, which start at a position. -/
def Head.uses (position : Nat) : Head → List (Nat × Use)
  | .machine name => [(position, .name name)]
  | .state name => [(position, .name name)]
  | .handler condition argument => [(position, .name condition), (position + 1, .value argument)]
  | .function _ name parameters => (position, .name name) :: Use.names (position + 2) parameters

def Step.uses (position : Nat) : Step → List (Nat × Use)
  | .transfer kind target =>
      [(position + 1, .keyword kind.keyword), (position + 2, .name target)]
  | .assign kind name value =>
      (position + 1, .keyword kind.keyword) :: (position + 2, .name name)
        :: value.uses (position + 3)
  | .call callee values => (position + 1, .name callee) :: Expr.usesAll (position + 2) values

mutual

/-- The uses in a form whose bracket is at a position. -/
def Form.uses (position : Nat) : Form → List (Nat × Use)
  | .empty => []
  | .require library => [(position + 1, .keyword .require), (position + 2, .name library)]
  | .step _ action => action.uses position
  | .define _ head body =>
      (position + 1, .keyword head.keyword)
        :: (head.uses (position + 2) ++ Form.usesAll (position + 1 + head.length) body)

def Form.usesAll (position : Nat) : List Form → List (Nat × Use)
  | [] => []
  | form :: rest => form.uses position ++ Form.usesAll (position + form.length) rest

end

/-! ## The constants on a tape -/

def Token.constant? (token : Token) : Option Constant :=
  match token.lexeme with
  | .constant value => some value
  | _ => none

/-- The constants among tokens that start at a position. -/
def Token.constants (position : Nat) (tokens : List Token) : List (Nat × Constant) :=
  (tokens.zipIdx position).filterMap fun (token, place) =>
    token.constant?.map fun value => (place, value)

theorem Token.constants_append (position : Nat) (front back : List Token) :
    Token.constants position (front ++ back)
      = Token.constants position front ++ Token.constants (position + front.length) back := by
  unfold Token.constants
  rw [List.zipIdx_append, List.filterMap_append]

/-- Uses are those of the constants among tokens: names are no keywords, and each keyword stands
right behind an opening bracket. -/
structure Use.Account (position : Nat) (uses : List (Nat × Use)) (tokens : List Token) : Prop where
  constants :
    Token.constants position tokens = uses.map fun (place, use) => (place, use.constant)
  names : ∀ place text, (place, .name text) ∈ uses → IsName text
  heads : ∀ place reserved, (place, .keyword reserved) ∈ uses →
    ∃ before opening, place = before + 1
      ∧ (⟨.listOpen, opening⟩, before) ∈ tokens.zipIdx position

namespace Use.Account

variable {position : Nat} {uses others : List (Nat × Use)} {tokens back : List Token}

theorem nil (position : Nat) : Account position [] [] :=
  ⟨rfl, nofun, nofun⟩

theorem append (front : Account position uses tokens)
    (behind : Account (position + tokens.length) others back) :
    Account position (uses ++ others) (tokens ++ back) where
  constants := by
    rw [Token.constants_append, front.constants, behind.constants, List.map_append]
  names := by
    intro place text member
    rcases List.mem_append.mp member with inFront | inBack
    · exact front.names place text inFront
    · exact behind.names place text inBack
  heads := by
    intro place reserved member
    rw [List.zipIdx_append]
    rcases List.mem_append.mp member with inFront | inBack
    · obtain ⟨before, opening, rfl, opens⟩ := front.heads place reserved inFront
      exact ⟨before, opening, rfl, List.mem_append_left _ opens⟩
    · obtain ⟨before, opening, rfl, opens⟩ := behind.heads place reserved inBack
      exact ⟨before, opening, rfl, List.mem_append_right _ opens⟩

theorem value (written : Constant) (offset : Nat) :
    Account position [(position, .value written)] [⟨.constant written, offset⟩] :=
  ⟨rfl, nofun, nofun⟩

theorem name {text : String} (isName : IsName text) (offset : Nat) :
    Account position [(position, .name text)] [word text offset] :=
  ⟨rfl, fun _ _ member => by cases List.mem_singleton.mp member; exact isName, nofun⟩

theorem opened (behind : Account (position + 1) uses tokens) (opening : Nat) :
    Account position uses (⟨.listOpen, opening⟩ :: tokens) := by
  have first : Account position [] [⟨.listOpen, opening⟩] := ⟨rfl, nofun, nofun⟩
  exact first.append behind

theorem closed (front : Account position uses tokens) (closing : Nat) :
    Account position uses (tokens ++ [⟨.listClose, closing⟩]) := by
  have behind : Account (position + tokens.length) [] [⟨.listClose, closing⟩] :=
    ⟨rfl, nofun, nofun⟩
  have whole := front.append behind
  rwa [List.append_nil] at whole

theorem named (behind : Account (position + 1) uses tokens) {text : String}
    (isName : IsName text) (offset : Nat) :
    Account position ((position, .name text) :: uses) (word text offset :: tokens) := by
  have first : Account position [(position, .name text)] [word text offset] :=
    ⟨rfl, fun _ _ member => by cases List.mem_singleton.mp member; exact isName, nofun⟩
  exact first.append behind

theorem valued (behind : Account (position + 1) uses tokens) (written : Constant)
    (offset : Nat) :
    Account position ((position, .value written) :: uses)
      (⟨.constant written, offset⟩ :: tokens) := by
  have first : Account position [(position, .value written)] [⟨.constant written, offset⟩] :=
    ⟨rfl, nofun, nofun⟩
  exact first.append behind

/-- A keyword with the bracket in front of it. -/
theorem headed (behind : Account (position + 2) uses tokens) (reserved : Keyword)
    (opening offset : Nat) :
    Account position ((position + 1, .keyword reserved) :: uses)
      (⟨.listOpen, opening⟩ :: word reserved.text offset :: tokens) := by
  have first : Account position [(position + 1, .keyword reserved)]
      [⟨.listOpen, opening⟩, word reserved.text offset] := by
    refine ⟨rfl, nofun, ?_⟩
    intro place other member
    cases List.mem_singleton.mp member
    exact ⟨position, opening, rfl, List.mem_cons_self⟩
  exact first.append behind

end Use.Account

/-! ## The account of a derivation -/

section

mutual

theorem Expr.uses_account {value : Expr} {tokens : List Token} : DerivesValue value tokens →
    ∀ position, Use.Account position (value.uses position) tokens
  | .constant value offset, _ => (Use.Account.nil _).valued value offset
  | .call opening head closing isName arguments, position =>
      (((Expr.usesAll_account arguments (position + 2)).closed closing).named isName head).opened
        opening

theorem Expr.usesAll_account {values : List Expr} {tokens : List Token} :
    DerivesValues values tokens → ∀ position,
      Use.Account position (Expr.usesAll position values) tokens
  | .none, _ => .nil _
  | .more head tail, position => by
      rw [Expr.usesAll, ← head.length]
      exact (Expr.uses_account head position).append (Expr.usesAll_account tail _)

end

theorem Use.names_account {names : List String} {tokens : List Token}
    (derived : DerivesNames names tokens) (position : Nat) :
    Use.Account position (Use.names position names) tokens := by
  induction derived generalizing position with
  | none => exact .nil _
  | more offset isName tail inductionHypothesis =>
      exact (inductionHypothesis (position + 1)).named isName offset

/-- The front of a definition is its keyword with the uses behind that. -/
theorem Head.uses_account {head : Head} {front : List Token} (spelt : DerivesHead head front)
    (position : Nat) :
    ∃ keyword rest, front = word head.keyword.text keyword :: rest
      ∧ Use.Account position (head.uses position) rest := by
  cases spelt with
  | machine keyword place isName => exact ⟨keyword, _, rfl, (Use.Account.nil _).named isName place⟩
  | state keyword place isName => exact ⟨keyword, _, rfl, (Use.Account.nil _).named isName place⟩
  | handler argument keyword place value isName =>
      exact ⟨keyword, _, rfl, ((Use.Account.nil _).valued argument value).named isName place⟩
  | function isPure keyword place opening closing isName names =>
      refine ⟨keyword, _, ?_,
        (((Use.names_account names (position + 2)).closed closing).opened opening).named isName
          place⟩
      cases isPure <;> rfl

variable {libraries : List String}

mutual

theorem Form.uses_account (plain : ∀ library ∈ libraries, IsName library) {owner : Owner}
    {form : Form} {tokens : List Token} : DerivesForm libraries owner form tokens →
    ∀ position, Use.Account position (form.uses position) tokens
  | .empty _ opening closing, _ => ((Use.Account.nil _).closed closing).opened opening
  | .require opening keyword place closing _ listed, _ =>
      (((Use.Account.nil _).closed closing).named (plain _ listed) place).headed .require opening
        keyword
  | .launch opening keyword place closing _ isName, _ =>
      (((Use.Account.nil _).closed closing).named isName place).headed .launch opening keyword
  | .goto opening keyword place closing _ isName, _ =>
      (((Use.Account.nil _).closed closing).named isName place).headed .goto opening keyword
  | .call _ opening head closing isName arguments, position =>
      Expr.uses_account (.call opening head closing isName arguments) position
  | .set opening keyword place closing _ isName derived, position =>
      (((Expr.uses_account derived (position + 3)).closed closing).named isName place).headed .set
        opening keyword
  | .shared opening keyword place closing _ isName derived, position =>
      (((Expr.uses_account derived (position + 3)).closed closing).named isName place).headed
        .shared opening keyword
  | .define opening closing _ spelt _ _ forms, position => by
      rw [Form.uses, ← spelt.length]
      obtain ⟨keyword, rest, rfl, own⟩ := Head.uses_account spelt (position + 2)
      have inner := Form.usesAll_account plain forms (position + 2 + rest.length)
      rw [show position + 1 + (word _ keyword :: rest).length = position + 2 + rest.length by
        rw [List.length_cons]; omega]
      exact ((own.append inner).closed closing).headed _ opening keyword

theorem Form.usesAll_account (plain : ∀ library ∈ libraries, IsName library) {owner : Owner}
    {forms : List Form} {tokens : List Token} : DerivesForms libraries owner forms tokens →
    ∀ position, Use.Account position (Form.usesAll position forms) tokens
  | .none _, _ => .nil _
  | .more head tail, position => by
      rw [Form.usesAll, ← head.length]
      exact (Form.uses_account plain head position).append (Form.usesAll_account plain tail _)

end

end

/-! ## Compiled programs -/

/-- The keywords of a tape open forms, or they are values. -/
structure Form.Reserves (forms : List Form) (whole : List Token) : Prop where
  account : Use.Account 0 (Form.usesAll 1 forms) whole
  keywords : ∀ (position offset : Nat) (reserved : Keyword),
    whole[position]? = some (word reserved.text offset) →
      (position, .keyword reserved) ∈ Form.usesAll 1 forms
        ∨ (position, .value (.atom reserved.text)) ∈ Form.usesAll 1 forms
  heads : ∀ position reserved, (position, .keyword reserved) ∈ Form.usesAll 1 forms →
    ∃ before opening, position = before + 1 ∧ whole[before]? = some ⟨.listOpen, opening⟩

theorem Keyword.text_inj {first second : Keyword} (same : first.text = second.text) :
    first = second := by
  have texts := congrArg Keyword.ofText? same
  rw [Keyword.ofText?_text, Keyword.ofText?_text] at texts
  exact Option.some.inj texts

theorem Token.mem_constants {tokens : List Token} {position offset : Nat} {written : Constant}
    (there : tokens[position]? = some ⟨.constant written, offset⟩) :
    (position, written) ∈ Token.constants 0 tokens :=
  List.mem_filterMap.mpr
    ⟨(⟨.constant written, offset⟩, position), List.mk_mem_zipIdx_iff_getElem?.mpr there, rfl⟩

theorem Use.Account.reserves {forms : List Form} {whole : List Token}
    (account : Use.Account 0 (Form.usesAll 1 forms) whole) : Form.Reserves forms whole where
  account := account
  keywords := by
    intro position offset reserved there
    have listed := Token.mem_constants there
    rw [account.constants] at listed
    obtain ⟨⟨place, use⟩, member, same⟩ := List.mem_map.mp listed
    obtain ⟨rfl, isAtom⟩ := Prod.mk.inj same
    cases use with
    | keyword other =>
        cases Keyword.text_inj (Constant.atom.inj isAtom)
        exact .inl member
    | name text =>
        -- A name that is the text of a keyword is no name.
        exact absurd (Constant.atom.inj isAtom) ((account.names place text member).ne_text reserved)
    | value written =>
        cases isAtom
        exact .inr member
  heads := by
    intro position reserved member
    obtain ⟨before, opening, isNext, opens⟩ := account.heads position reserved member
    exact ⟨before, opening, isNext, List.mk_mem_zipIdx_iff_getElem?.mp opens⟩

/-- If no library is named like a keyword, then the keywords of a tape that compiles open the
forms of its program, but for those that are written as values. -/
theorem Tape.compile_reserves_keywords {options : CompileOptions} {tape : Tape}
    {compilation : Compilation} (plain : ∀ library ∈ options.libraries, IsName library)
    (compiled : tape.compile options = .ok compilation) :
    ∃ forms, DerivesForms options.libraries Owner.root forms tape.tokens
      ∧ compilation.program = Program.ofForms tape.interner forms
      ∧ Form.Reserves forms tape.enclosed.tokens := by
  obtain ⟨forms, read, rfl⟩ := Tape.compile_eq_ok_iff.mp compiled
  obtain ⟨_, derived⟩ := Tape.forms_eq_ok_iff.mp read
  have inside := Form.usesAll_account plain derived 1
  exact ⟨forms, derived, rfl, ((inside.opened 0).closed _).reserves⟩

/-- The tape of `(set x machine) (f goto (g set)) (machine m (shared y state) (state main
(on always defun (f))))`. -/
def Tape.keywordsAsValues : Tape :=
  Tape.ofTokens .empty
    (bracketed 0 [word "set" 1, word "x" 5, word "machine" 7] 14
      ++ bracketed 16
        ([word "f" 17, word "goto" 19] ++ bracketed 24 [word "g" 25, word "set" 27] 30) 31
      ++ bracketed 33
        ([word "machine" 34, word "m" 42]
          ++ bracketed 44 [word "shared" 45, word "y" 52, word "state" 54] 59
          ++ bracketed 61
            ([word "state" 62, word "main" 68]
              ++ bracketed 73
                ([word "on" 74, word "always" 77, word "defun" 84] ++ bracketed 90 [word "f" 91] 92)
                93)
            94)
        95)

theorem Tape.compile_reserves_keywords_keywordsAsValues :
    (∀ library ∈ ({} : CompileOptions).libraries, IsName library)
      ∧ ∃ compilation, Tape.keywordsAsValues.compile {} = .ok compilation
        ∧ ∃ forms,
          DerivesForms ["io", "math", "time"] Owner.root forms Tape.keywordsAsValues.tokens
          ∧ compilation.program = Program.ofForms Tape.keywordsAsValues.interner forms
          ∧ Form.Reserves forms Tape.keywordsAsValues.enclosed.tokens := by
  have plain : ∀ library ∈ ({} : CompileOptions).libraries, IsName library := by
    unfold IsName
    decide
  have compiled : Tape.keywordsAsValues.compile {} = .ok _ := rfl
  exact ⟨plain, _, compiled, Tape.compile_reserves_keywords plain compiled⟩

/-- A tape has a program although keywords stand behind another token than an opening bracket: as
the value of a `set` and of a `shared`, as an argument, inside of an argument, and as the argument
of a condition. -/
theorem Tape.compile_keywordsAsValues_accepts :
    ∃ compilation, Tape.keywordsAsValues.compile {} = .ok compilation
      ∧ ∀ entry ∈ [(4, Keyword.machine), (8, .goto), (11, .set), (20, .state), (28, .defun)],
        ((Tape.keywordsAsValues.enclosed.tokens[entry.1]?).map Token.lexeme
            = some (.constant (.atom entry.2.text)))
          ∧ (Tape.keywordsAsValues.enclosed.tokens[entry.1 - 1]?).map Token.lexeme
            ≠ some .listOpen := by
  have compiled : Tape.keywordsAsValues.compile {} = .ok _ := rfl
  exact ⟨_, compiled, by decide⟩

end MachineScript
