import Mathlib.Data.List.Basic
import Mathlib.Order.Monotone.Defs
import Mathlib.Order.Nat
import MachineScript.Proofs.Grammar.Completeness
import MachineScript.Proofs.Interning
import MachineScript.Proofs.Layout

/-!
Contract: a compiled program is the reference lowering of its tape.

Owns:
- the exemplar of each construct of a tree, read off its own body, with an
  exemplar's number as the count of constructs whose bracket comes before its own;
- the names that the tokens of a tape require, and which of them are first
  occurrences;
- that the running numbers of the lowering are those counts, and that the handlers
  of a body are filed in their order.

Does not own: where constructs stand on the tape.
-/

namespace MachineScript

open Grammar
open Form (Owner)
open Token (word bracketed)

/-! ## The reference lowering -/

mutual

/-- The source of a value at a position, given the number of each position. -/
def Expr.source (number : Nat → ExemplarId) (position : Nat) : Expr → Source
  | .constant value => .constant value
  | .call _ callee values =>
      .nested (number position) callee (Expr.sources number (position + 2) values)

def Expr.sources (number : Nat → ExemplarId) (position : Nat) : List Expr → List Source
  | [] => []
  | value :: rest =>
      value.source number position :: Expr.sources number (position + value.length) rest

end

/-- The instruction of a step whose bracket is at a position. -/
def Step.instruction (number : Nat → ExemplarId) (position : Nat) : Step → Instruction
  | .transfer .launch target => .launch target
  | .transfer .goto target => .goto target
  | .assign .set name value => .set name (value.source number (position + 3))
  | .assign .shared name value => .shared name (value.source number (position + 3))
  | .call callee values => .call callee (Expr.sources number (position + 2) values)

namespace Form

/-- Forms with the positions of their brackets. -/
def placed (position : Nat) : List Form → List (Nat × Form)
  | [] => []
  | form :: rest => (position, form) :: placed (position + form.length) rest

def instruction? (number : Nat → ExemplarId) (position : Nat) : Form → Option Instruction
  | .step _ action => some (action.instruction number position)
  | _ => none

def machine? (number : Nat → ExemplarId) (position : Nat) (form : Form) :
    Option (String × ExemplarId) :=
  form.machineName?.map (·, number position)

def function? (number : Nat → ExemplarId) (position : Nat) (form : Form) :
    Option (String × ExemplarId) :=
  form.functionName?.map (·, number position)

def handler? (number : Nat → ExemplarId) (position : Nat) : Form → Option ExemplarId
  | .define _ (.handler _ _) _ => some (number position)
  | _ => none

/-- What the forms of a body give their owner, each kind in source order. -/
def contents (number : Nat → ExemplarId) (position : Nat) (body : List Form) : Content :=
  let forms := placed position body
  { instructions := forms.filterMap fun (place, form) => form.instruction? number place
    machines := forms.filterMap fun (place, form) => form.machine? number place
    functions := forms.filterMap fun (place, form) => form.function? number place
    handlers := forms.filterMap fun (place, form) => form.handler? number place }

end Form

def Head.argument? : Head → Option Constant
  | .handler _ argument => some argument
  | _ => none

def Head.parameters : Head → List String
  | .function _ _ parameters => parameters
  | _ => []

/-- The exemplar of a construct. A program has its body behind its bracket, a definition behind its
head, and a call one instruction with the arguments behind its name. -/
def Site.exemplar (number : Nat → ExemplarId) (site : Site) : Exemplar :=
  match site.part with
  | .program body =>
      let content := Form.contents number (site.position + 1) body
      { construct := .root
        parent := site.around.map number
        instructions := content.instructions
        machines := content.machines
        functions := content.functions
        handlers := content.handlers }
  | .definition offset head body =>
      let content := Form.contents number (site.position + 1 + head.length) body
      { construct := head.construct
        name := head.name
        parent := site.around.map number
        instructions := content.instructions
        machines := content.machines
        functions := content.functions
        handlers := content.handlers
        argument := head.argument?
        parameters := head.parameters
        isPure := head.isPure
        offset := offset }
  | .call construct offset callee values =>
      { construct := construct
        parent := site.around.map number
        instructions := [.call callee (Expr.sources number (site.position + 2) values)]
        offset := offset }

/-- The number of the construct at a position: how many constructs open before it. -/
def Form.numberAt (forms : List Form) (position : Nat) : ExemplarId :=
  (Form.programSites forms).countP fun site => site.position < position

/-- Sites have consecutive numbers. -/
def Numbered (number : Nat → ExemplarId) (next : Nat) (sites : List Site) : Prop :=
  sites.map (fun site => number site.position) = List.range' next sites.length

/-- The name that tokens require, if they start with `( require NAME`. -/
def Tape.requiredAt : List Token → Option String
  | ⟨.listOpen, _⟩ :: ⟨.constant (.atom keyword), _⟩ :: ⟨.constant (.atom library), _⟩ :: _ =>
      if keyword = Keyword.require.text then some library else none
  | _ => none

/-- The names that tokens require, in their order. -/
def Tape.requirements : List Token → List String
  | [] => []
  | token :: rest => (requiredAt (token :: rest)).toList ++ requirements rest

/-- A program holds what the forms of a tape say, and nothing else. -/
structure Program.Transcribes (program : Program) (libraries : List String) (tape : Tape)
    (forms : List Form) : Prop where
  exemplars :
    program.exemplars.toList
      = (Form.programSites forms).map (Site.exemplar (Form.numberAt forms))
  numbered : Numbered (Form.numberAt forms) Program.root (Form.programSites forms)
  inOrder : (Form.programSites forms).Pairwise fun left right => left.position < right.position
  spelt : ∀ site ∈ Form.programSites forms, site.StandsOn libraries tape.enclosed.tokens
  required : FirstOccurrences program.required (Tape.requirements tape.tokens)
  interner : program.interner = tape.interner

/-! ## Running numbers -/

section

variable {number : Nat → ExemplarId}

theorem Numbered.append {next : Nat} {first second : List Site}
    (numbered : Numbered number next (first ++ second)) :
    Numbered number next first ∧ Numbered number (next + first.length) second := by
  unfold Numbered at numbered
  rw [List.map_append, List.length_append, ← List.range'_append_1] at numbered
  exact List.append_inj numbered (by rw [List.length_map, List.length_range'])

theorem Numbered.cons {next : Nat} {site : Site} {rest : List Site}
    (numbered : Numbered number next (site :: rest)) :
    number site.position = next ∧ Numbered number (next + 1) rest := by
  unfold Numbered at numbered
  rw [List.map_cons, List.length_cons, List.range'_succ] at numbered
  exact List.cons.inj numbered

mutual

theorem Expr.lower_eq (construct : Construct) :
    ∀ (value : Expr) {around position next : Nat},
      Numbered number next (value.sites around construct position) →
      value.lower (number around) next construct
        = (value.source number position,
          (value.sites around construct position).map (Site.exemplar number))
  | .constant _, _, _, _, _ => rfl
  | .call offset callee values, around, position, next, numbered => by
      obtain ⟨rfl, behind⟩ := numbered.cons
      rw [Expr.lower, Expr.lowerAll_eq values behind]
      rfl

theorem Expr.lowerAll_eq :
    ∀ (values : List Expr) {around position next : Nat},
      Numbered number next (Expr.sitesAll around position values) →
      Expr.lowerAll (number around) next values
        = (Expr.sources number position values,
          (Expr.sitesAll around position values).map (Site.exemplar number))
  | [], _, _, _, _ => rfl
  | value :: rest, around, position, next, numbered => by
      obtain ⟨first, others⟩ := Numbered.append numbered
      rw [Expr.lowerAll, Expr.lower_eq .argument value first]
      simp only [List.length_map]
      rw [Expr.lowerAll_eq rest others, Expr.sitesAll, List.map_append]
      rfl

end

theorem Step.lower_eq (action : Step) {around position next : Nat}
    (numbered : Numbered number next (action.sites around position)) :
    action.lower (number around) next
      = (action.instruction number position,
        (action.sites around position).map (Site.exemplar number)) := by
  cases action with
  | transfer transfer target => cases transfer <;> rfl
  | assign assignment name value =>
      cases assignment with
      | set => rw [Step.lower, Expr.lower_eq .assigned value numbered]; rfl
      | shared => rw [Step.lower, Expr.lower_eq .assigned value numbered]; rfl
  | call callee values =>
      rw [Step.lower, Expr.lowerAll_eq values numbered]
      rfl

/-- The first form of a body in front of what the others give. -/
theorem Form.contents_cons (position : Nat) (form : Form) (rest : List Form) :
    Form.contents number position (form :: rest)
      = let others := Form.contents number (position + form.length) rest
        { instructions := (form.instruction? number position).toList ++ others.instructions
          machines := (form.machine? number position).toList ++ others.machines
          functions := (form.function? number position).toList ++ others.functions
          handlers := (form.handler? number position).toList ++ others.handlers } := by
  simp only [Form.contents, Form.placed, Form.filterMap_cons_eq]

mutual

theorem Form.lower_eq :
    ∀ (form : Form) {around position next : Nat},
      Numbered number next (form.sites around position) →
      (form.lower (number around) next).2
          = (form.sites around position).map (Site.exemplar number)
        ∧ ∀ others : Content, (form.lower (number around) next).1 others
          = { instructions := (form.instruction? number position).toList ++ others.instructions
              machines := (form.machine? number position).toList ++ others.machines
              functions := (form.function? number position).toList ++ others.functions
              handlers := (form.handler? number position).toList ++ others.handlers }
  | .empty, _, _, _, _ => ⟨rfl, fun _ => rfl⟩
  | .require _, _, _, _, _ => ⟨rfl, fun _ => rfl⟩
  | .step _ action, _, _, _, numbered => by
      rw [Form.lower, action.lower_eq numbered]
      exact ⟨rfl, fun _ => rfl⟩
  | .define offset head body, around, position, next, numbered => by
      obtain ⟨rfl, behind⟩ := numbered.cons
      rw [Form.lower, Form.lowerAll_eq body behind]
      cases head <;> exact ⟨rfl, fun _ => rfl⟩

theorem Form.lowerAll_eq :
    ∀ (forms : List Form) {around position next : Nat},
      Numbered number next (Form.sitesAll around position forms) →
      Form.lowerAll (number around) next forms
        = (Form.contents number position forms,
          (Form.sitesAll around position forms).map (Site.exemplar number))
  | [], _, _, _, _ => rfl
  | form :: rest, around, position, next, numbered => by
      obtain ⟨first, others⟩ := Numbered.append numbered
      obtain ⟨exemplars, place⟩ := Form.lower_eq form first
      have behind := Form.lowerAll_eq rest others
      simp only [Form.lowerAll, exemplars, List.length_map, behind, place, Form.contents_cons,
        Form.sitesAll, List.map_append]

end

end

/-- Counting what comes before numbers sites that stand in order. -/
theorem numbered_of_sorted {sites : List Site}
    (sorted : sites.Pairwise fun left right => left.position < right.position) (next : Nat) :
    Numbered (fun position => next + sites.countP fun site => site.position < position) next
      sites := by
  induction sites generalizing next with
  | nil => rfl
  | cons first rest inductionHypothesis =>
      obtain ⟨before, sorted⟩ := List.pairwise_cons.mp sorted
      have isFirst : rest.countP (fun site => site.position < first.position) = 0 := by
        rw [List.countP_eq_zero]
        intro site member
        have behind := before site member
        simp only [decide_eq_true_eq]
        omega
      -- A later site has the first one before it, and otherwise those of the rest.
      have others : ∀ site ∈ rest,
          next + (first :: rest).countP (fun other => other.position < site.position)
            = next + 1 + rest.countP (fun other => other.position < site.position) := by
        intro site member
        rw [List.countP_cons_of_pos (by simpa using before site member)]
        omega
      have behind := inductionHypothesis sorted (next + 1)
      unfold Numbered at behind ⊢
      rw [List.map_cons, List.length_cons, List.range'_succ, List.map_congr_left others, behind]
      simp only [List.countP_cons, isFirst, Nat.lt_irrefl, decide_false, Nat.add_zero, if_false,
        Bool.false_eq_true]

/-! ## Requirements -/

theorem Grammar.IsName.ne_text {text : String} (isName : IsName text) (keyword : Keyword) :
    text ≠ keyword.text := by
  rintro rfl
  unfold IsName at isName
  rw [Keyword.ofText?_text] at isName
  cases isName

namespace Tape

theorem requirements_constant (value : Constant) (offset : Nat) (rest : List Token) :
    requirements (⟨.constant value, offset⟩ :: rest) = requirements rest :=
  rfl

theorem requirements_close (offset : Nat) (rest : List Token) :
    requirements (⟨.listClose, offset⟩ :: rest) = requirements rest :=
  rfl

/-- A list that opens with another word than that of requirements requires nothing itself. -/
theorem requirements_open {text : String} (other : text ≠ Keyword.require.text)
    (opening offset : Nat) (rest : List Token) :
    requirements (⟨.listOpen, opening⟩ :: word text offset :: rest) = requirements rest := by
  have nothing : requiredAt (⟨.listOpen, opening⟩ :: word text offset :: rest) = none := by
    unfold requiredAt
    split
    · next same =>
        cases same
        exact if_neg other
    · rfl
  rw [requirements, nothing]
  exact requirements_constant (.atom text) offset rest

mutual

theorem requirements_value {value : Expr} {tokens : List Token} :
    DerivesValue value tokens → ∀ rest, requirements (tokens ++ rest) = requirements rest
  | .constant _ _, _ => rfl
  | .call opening head closing isName arguments, rest => by
      rw [bracketed, List.cons_append, List.cons_append, List.append_assoc, List.cons_append,
        requirements_open (isName.ne_text .require), requirements_values arguments]
      exact requirements_close closing rest

theorem requirements_values {values : List Expr} {tokens : List Token} :
    DerivesValues values tokens → ∀ rest, requirements (tokens ++ rest) = requirements rest
  | .none, _ => rfl
  | .more head tail, rest => by
      rw [List.append_assoc, requirements_value head, requirements_values tail]

end

theorem requirements_names {names : List String} {tokens : List Token}
    (derived : DerivesNames names tokens) (rest : List Token) :
    requirements (tokens ++ rest) = requirements rest := by
  induction derived with
  | none => rfl
  | more offset isName tail inductionHypothesis => exact inductionHypothesis

/-- A parameter list may open with a parameter, which is no keyword. -/
theorem requirements_parameters {names : List String} {tokens : List Token}
    (derived : DerivesNames names tokens) (opening closing : Nat) (rest : List Token) :
    requirements (bracketed opening tokens closing ++ rest) = requirements rest := by
  cases derived with
  | none => rfl
  | more offset isName tail =>
      rw [bracketed, List.cons_append, List.cons_append, List.append_assoc, List.cons_append,
        requirements_open (isName.ne_text .require), requirements_names tail]
      exact requirements_close closing rest

theorem requirements_head {head : Head} {front : List Token} (spelt : DerivesHead head front)
    (opening : Nat) (rest : List Token) :
    requirements (⟨.listOpen, opening⟩ :: (front ++ rest)) = requirements rest := by
  cases spelt with
  | machine | state | handler =>
      rw [List.cons_append, requirements_open (by decide)]
      rfl
  | function isPure keyword place opener closing isName names =>
      have other : (if isPure then "defun" else "defum") ≠ Keyword.require.text := by
        cases isPure <;> decide
      rw [List.cons_append, requirements_open other]
      exact requirements_parameters names opener closing rest

/-- The tokens of an assignment require nothing: its keyword is another one. -/
theorem requirements_assignment (assignment : Assignment) {name : String} {value : Expr}
    {tokens : List Token} (derived : DerivesValue value tokens)
    (opening keyword place closing : Nat) (rest : List Token) :
    requirements
        (bracketed opening (word assignment.keyword.text keyword :: word name place :: tokens)
          closing ++ rest)
      = requirements rest := by
  have other : assignment.keyword.text ≠ Keyword.require.text := by
    cases assignment <;> decide
  rw [bracketed, List.cons_append, List.cons_append, List.append_assoc, List.cons_append,
    requirements_open other]
  show requirements (tokens ++ ([⟨.listClose, closing⟩] ++ rest)) = _
  rw [requirements_value derived]
  exact requirements_close closing rest

mutual

/-- The tokens of a form require what the form does. -/
theorem requirements_form {libraries : List String} {owner : Owner} {form : Form}
    {tokens : List Token} : DerivesForm libraries owner form tokens →
    ∀ rest, requirements (tokens ++ rest) = form.required ++ requirements rest
  | .empty _ _ _, _ => rfl
  | .require _ _ _ _ _ _, _ => rfl
  | .launch opening keyword place closing _ _, rest =>
      requirements_open (by decide) opening keyword (word _ place :: ⟨.listClose, closing⟩ :: rest)
  | .goto opening keyword place closing _ _, rest =>
      requirements_open (by decide) opening keyword (word _ place :: ⟨.listClose, closing⟩ :: rest)
  | .call _ opening head closing isName arguments, rest =>
      requirements_value (.call opening head closing isName arguments) rest
  | .set opening keyword place closing _ _ derived, rest =>
      requirements_assignment .set derived opening keyword place closing rest
  | .shared opening keyword place closing _ _ derived, rest =>
      requirements_assignment .shared derived opening keyword place closing rest
  | .define opening closing _ spelt _ _ forms, rest => by
      rw [bracketed, List.cons_append, List.cons_append, List.append_assoc, List.append_assoc,
        requirements_head spelt, requirements_forms forms]
      rfl

theorem requirements_forms {libraries : List String} {owner : Owner} {forms : List Form}
    {tokens : List Token} : DerivesForms libraries owner forms tokens →
    ∀ rest, requirements (tokens ++ rest) = Form.requiredAll forms ++ requirements rest
  | .none _, _ => rfl
  | .more head tail, rest => by
      rw [List.append_assoc, requirements_form head, requirements_forms tail, Form.requiredAll,
        List.append_assoc]

end

end Tape

/-! ## Programs -/

theorem Form.programSites_numbered (forms : List Form) :
    Numbered (Form.numberAt forms) Program.root (Form.programSites forms) := by
  have counted := numbered_of_sorted (Form.programSites_inOrder forms).sorted Program.root
  have same : (fun position => Program.root + (Form.programSites forms).countP fun site =>
      site.position < position) = Form.numberAt forms :=
    funext fun position => Nat.zero_add _
  rwa [same] at counted

/-- The lowering of a tree is its reference: the running numbers are those of the constructs. -/
theorem Program.exemplars_ofForms (interner : Interner) (forms : List Form) :
    (Program.ofForms interner forms).exemplars.toList
      = (Form.programSites forms).map (Site.exemplar (Form.numberAt forms)) := by
  obtain ⟨isRoot, behind⟩ := (Form.programSites_numbered forms).cons
  have lowered := Form.lowerAll_eq forms behind
  rw [show Form.numberAt forms 0 = Program.root from isRoot] at lowered
  simp only [Program.ofForms, lowered, Form.programSites, List.map_cons]
  rfl

/-- Every exemplar is that of some construct, but for the blank one of numbers not given out. -/
theorem Program.exemplar_ofForms (interner : Interner) (forms : List Form) (id : ExemplarId) :
    (Program.ofForms interner forms).exemplar id = Exemplar.blank
      ∨ ∃ site ∈ Form.programSites forms,
        (Program.ofForms interner forms).exemplar id = site.exemplar (Form.numberAt forms) := by
  have stored : (Program.ofForms interner forms).exemplar id
      = ((Form.programSites forms).map (Site.exemplar (Form.numberAt forms))).getD id
        Exemplar.blank := by
    rw [← Program.exemplars_ofForms interner forms, Program.exemplar, List.getD_eq_getElem?_getD,
      Array.getElem?_toList, Array.getD_eq_getD_getElem?]
  rw [stored, List.getD_eq_getElem?_getD, List.getElem?_map]
  cases there : (Form.programSites forms)[id]? with
  | none => exact .inl rfl
  | some site => exact .inr ⟨site, List.mem_of_getElem? there, rfl⟩

/-! ## The order of handlers -/

theorem Form.le_of_mem_placed {position : Nat} {forms : List Form} {entry : Nat × Form}
    (member : entry ∈ Form.placed position forms) : position ≤ entry.1 := by
  induction forms generalizing position with
  | nil => cases member
  | cons form rest inductionHypothesis =>
      rcases List.mem_cons.mp member with rfl | behind
      · exact Nat.le_refl position
      · exact Nat.le_of_add_right_le (inductionHypothesis behind)

theorem Form.placed_sorted (position : Nat) (forms : List Form) :
    (Form.placed position forms).Pairwise fun left right => left.1 ≤ right.1 := by
  induction forms generalizing position with
  | nil => exact List.Pairwise.nil
  | cons form rest inductionHypothesis =>
      refine List.Pairwise.cons ?_ (inductionHypothesis _)
      exact fun entry behind => Nat.le_of_add_right_le (Form.le_of_mem_placed behind)

theorem Form.numberAt_mono (forms : List Form) : Monotone (Form.numberAt forms) := by
  intro low high below
  apply List.countP_mono_left
  intro site _ before
  exact decide_eq_true (Nat.lt_of_lt_of_le (of_decide_eq_true before) below)

/-- The handlers of a body are filed in the order of their brackets. -/
theorem Form.handlers_sorted {number : Nat → ExemplarId} (monotone : Monotone number)
    (position : Nat) (body : List Form) :
    (Form.contents number position body).handlers.Pairwise (· ≤ ·) := by
  apply (Form.placed_sorted position body).filterMap
  rintro ⟨low, first⟩ ⟨high, second⟩ below handler isFirst other isSecond
  cases first with
  | empty | require | step => cases isFirst
  | define offset head content =>
      cases second with
      | empty | require | step => cases isSecond
      | define otherOffset otherHead otherContent =>
          cases head <;> cases isFirst
          cases otherHead <;> cases isSecond
          exact monotone below

theorem Program.handlers_sorted_ofForms (interner : Interner) (forms : List Form)
    (id : ExemplarId) :
    ((Program.ofForms interner forms).exemplar id).handlers.Pairwise (· ≤ ·) := by
  have monotone := Form.numberAt_mono forms
  rcases Program.exemplar_ofForms interner forms id with blank | ⟨site, _, same⟩
  · rw [blank]
    exact List.Pairwise.nil
  · rw [same]
    unfold Site.exemplar
    split
    · exact Form.handlers_sorted monotone _ _
    · exact Form.handlers_sorted monotone _ _
    · exact List.Pairwise.nil

/-! ## Compiled programs -/

/-- The program of derived forms is their transcript. -/
theorem Program.ofForms_transcribes {libraries : List String} {tape : Tape} {forms : List Form}
    (derived : DerivesForms libraries Owner.root forms tape.tokens) :
    (Program.ofForms tape.interner forms).Transcribes libraries tape forms := by
  have requirements := Tape.requirements_forms derived []
  rw [List.append_nil, Tape.requirements, List.append_nil] at requirements
  refine ⟨Program.exemplars_ofForms tape.interner forms, Form.programSites_numbered forms,
    (Form.programSites_inOrder forms).sorted, Form.programSites_standOn derived, ?_, rfl⟩
  rw [requirements]
  exact firstOccurrences_eraseDups _

/-- A compiled program is what its tape says: the tape has one tree of forms, and the program is
the transcript of that tree. -/
theorem Tape.compile_transcribes {options : CompileOptions} {tape : Tape}
    {compilation : Compilation} (compiled : tape.compile options = .ok compilation) :
    ∃ forms, (Distinct forms ∧ DerivesForms options.libraries Owner.root forms tape.tokens)
      ∧ (∀ others, Distinct others ∧ DerivesForms options.libraries Owner.root others tape.tokens →
        others = forms)
      ∧ compilation.program.Transcribes options.libraries tape forms := by
  obtain ⟨forms, read, rfl⟩ := Tape.compile_eq_ok_iff.mp compiled
  have parsed := Tape.forms_eq_ok_iff.mp read
  refine ⟨forms, parsed, ?_, Program.ofForms_transcribes parsed.2⟩
  intro others spelt
  have again := Tape.forms_eq_ok_iff.mpr spelt
  rw [read] at again
  exact (Except.ok.inj again).symm

/-- The tape of `(require time) () (set g (f (h 1) 2)) (machine m (require io) (require time)
(state main (on always 0 (g (h) x) (goto main))) (defun k (x y) (set z x)))`. -/
def Tape.everyForm : Tape :=
  Tape.ofTokens .empty
    (bracketed 0 [word "require" 1, word "time" 9] 13
      ++ bracketed 15 [] 16
      ++ bracketed 18
        ([word "set" 19, word "g" 23]
          ++ bracketed 25
            ([word "f" 26] ++ bracketed 28 [word "h" 29, ⟨.constant (.int 1), 31⟩] 32
              ++ [⟨.constant (.int 2), 34⟩])
            35)
        36
      ++ bracketed 38
        ([word "machine" 39, word "m" 47]
          ++ bracketed 49 [word "require" 50, word "io" 58] 60
          ++ bracketed 62 [word "require" 63, word "time" 71] 75
          ++ bracketed 77
            ([word "state" 78, word "main" 84]
              ++ bracketed 89
                ([word "on" 90, word "always" 93, ⟨.constant (.int 0), 100⟩]
                  ++ bracketed 102
                    ([word "g" 103] ++ bracketed 105 [word "h" 106] 107 ++ [word "x" 109]) 110
                  ++ bracketed 112 [word "goto" 113, word "main" 118] 122)
                123)
            124
          ++ bracketed 126
            ([word "defun" 127, word "k" 133]
              ++ bracketed 135 [word "x" 136, word "y" 138] 139
              ++ bracketed 141 [word "set" 142, word "z" 146, word "x" 148] 149)
            150)
        151)

theorem Tape.compile_transcribes_everyForm :
    ∃ compilation, Tape.everyForm.compile {} = .ok compilation
      ∧ compilation.program.exemplars.size = 8
      ∧ (compilation.program.exemplar 5).instructions
        = [.call "g" [.nested 6 "h" [], .constant (.atom "x")], .goto "main"]
      ∧ compilation.program.required = ["time", "io"]
      ∧ ∃ forms,
        (Distinct forms
          ∧ DerivesForms ["io", "math", "time"] Owner.root forms Tape.everyForm.tokens)
        ∧ (∀ others,
          Distinct others
              ∧ DerivesForms ["io", "math", "time"] Owner.root others Tape.everyForm.tokens →
            others = forms)
        ∧ compilation.program.Transcribes ["io", "math", "time"] Tape.everyForm forms := by
  have compiled : Tape.everyForm.compile {} = .ok _ := rfl
  exact ⟨_, compiled, rfl, rfl, rfl, Tape.compile_transcribes compiled⟩

end MachineScript
