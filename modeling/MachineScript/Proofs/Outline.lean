import MachineScript.Proofs.Outline.Lines

/-!
Contract: the outline of a program that is compiled from a source.

Owns:
- the opening bracket of a definition on a tape, and the order of brackets;
- that the definitions inside an exemplar stand in an outline in that order, and
  so do its handlers;
- that the order in which the tables of an exemplar list their entries makes no
  difference;
- the outline as a whole.

Does not own: what the entries of an outline are, and the characters of its
lines.
-/

namespace MachineScript

open Grammar
open Form (Owner)
open Token (word bracketed)

/-! ## Opening brackets -/

/-- The keyword with which an exemplar is defined. -/
def Exemplar.keyword? (exemplar : Exemplar) : Option Keyword :=
  match exemplar.construct with
  | .machine => some .machine
  | .state => some .state
  | .handler => some .on
  | .function => some (if exemplar.isPure then .defun else .defum)
  | .root | .assigned | .argument => none

theorem Exemplar.keyword?_ne_none {exemplar : Exemplar}
    (defined : exemplar.construct ∈ [.machine, .state, .function, .handler]) :
    exemplar.keyword? ≠ none := by
  unfold keyword?
  cases construct : exemplar.construct with
  | machine | state | handler | function => exact nofun
  | root | assigned | argument =>
      rw [construct] at defined
      exact absurd defined (by decide)

/-- The bracket that opens a definition: it stands at the offset of its exemplar, with the keyword
and the name behind it. -/
structure Exemplar.OpensAt (exemplar : Exemplar) (tokens : List Token) (index : Nat) : Prop where
  bracket : tokens[index]? = some ⟨.listOpen, exemplar.offset⟩
  keyword : ∃ keyword ∈ exemplar.keyword?, ∃ offset,
    tokens[index + 1]? = some (word keyword.text offset)
  name : ∃ offset, tokens[index + 2]? = some (word exemplar.name offset)

/-- The bracket of one definition comes before that of another. -/
def Program.OpensBefore (program : Program) (tokens : List Token) (left right : ExemplarId) :
    Prop :=
  ∃ first second, first < second ∧ (program.exemplar left).OpensAt tokens first
    ∧ (program.exemplar right).OpensAt tokens second

variable {libraries : List String} {tokens : List Token} {forms : List Form} {interner : Interner}
  {program : Program} {id left right : Nat}

/-- Offsets increase on a tape. -/
theorem Program.OpensBefore.offset_lt (before : program.OpensBefore tokens left right)
    (increasing : tokens.Pairwise fun first later => first.offset < later.offset) :
    (program.exemplar left).offset < (program.exemplar right).offset := by
  obtain ⟨first, second, below, isLeft, isRight⟩ := before
  obtain ⟨inFront, isFirst⟩ := List.getElem?_eq_some_iff.mp isLeft.bracket
  obtain ⟨inBack, isSecond⟩ := List.getElem?_eq_some_iff.mp isRight.bracket
  have less := List.pairwise_iff_getElem.mp increasing first second inFront inBack below
  rw [isFirst, isSecond] at less
  exact less

/-- What stands inside the outer brackets of a tape stands on the tape. -/
theorem getElem?_of_encloseTokens {token : Token} {index : Nat} (inner : token.lexeme ≠ .listClose)
    (there : (Tape.encloseTokens tokens)[index + 1]? = some token) :
    tokens[index]? = some token := by
  rw [Tape.encloseTokens, List.cons_append, List.getElem?_cons_succ, List.getElem?_append] at there
  split at there
  · exact there
  · obtain ⟨_, same⟩ := List.getElem?_eq_some_iff.mp there
    rw [List.getElem_singleton] at same
    exact absurd (congrArg Token.lexeme same.symm) inner

theorem opensAt_of_derivesHead {head : Head} {front rest : List Token} {offset index : Nat}
    {exemplar : Exemplar} (spelt : DerivesHead head front)
    (construct : exemplar.construct = head.construct) (isPure : exemplar.isPure = head.isPure)
    (name : exemplar.name = head.name) (isOffset : exemplar.offset = offset)
    (there : (Tape.encloseTokens tokens).drop (index + 1) =
      ⟨.listOpen, offset⟩ :: (front ++ rest)) :
    exemplar.OpensAt tokens index := by
  have found (further : Nat) : (Tape.encloseTokens tokens)[index + further + 1]?
      = (⟨.listOpen, offset⟩ :: (front ++ rest))[further]? := by
    rw [← there, List.getElem?_drop, Nat.add_right_comm]
  have keyword : ∃ keyword ∈ exemplar.keyword?, ∃ place nameAt more,
      front = word keyword.text place :: word exemplar.name nameAt :: more := by
    unfold Exemplar.keyword?
    rw [construct, isPure, name]
    cases spelt with
    | machine place nameAt => exact ⟨.machine, rfl, place, nameAt, _, rfl⟩
    | state place nameAt => exact ⟨.state, rfl, place, nameAt, _, rfl⟩
    | handler argument place nameAt => exact ⟨.on, rfl, place, nameAt, _, rfl⟩
    | function pure place nameAt =>
        cases pure with
        | true => exact ⟨.defun, rfl, place, nameAt, _, rfl⟩
        | false => exact ⟨.defum, rfl, place, nameAt, _, rfl⟩
  obtain ⟨keyword, isKeyword, place, nameAt, more, rfl⟩ := keyword
  refine ⟨?_, ⟨keyword, isKeyword, place, ?_⟩, ⟨nameAt, ?_⟩⟩
  · rw [isOffset]
    exact getElem?_of_encloseTokens nofun (found 0)
  · exact getElem?_of_encloseTokens nofun (found 1)
  · exact getElem?_of_encloseTokens nofun (found 2)

/-! ## Definitions and calls -/

/-- A call is the value of an assignment or an argument. -/
def Part.IsPlaced : Part → Prop
  | .call construct _ _ _ => construct.isInline = true
  | _ => True

mutual

theorem Expr.sites_isPlaced {construct : Construct} (inline : construct.isInline = true) :
    ∀ (value : Expr) (around position : Nat),
      ∀ site ∈ value.sites around construct position, site.part.IsPlaced
  | .constant _, _, _ => nofun
  | .call _ _ values, _, position =>
      List.forall_mem_cons.mpr ⟨inline, Expr.sitesAll_isPlaced values position (position + 2)⟩

theorem Expr.sitesAll_isPlaced :
    ∀ (values : List Expr) (around position : Nat),
      ∀ site ∈ Expr.sitesAll around position values, site.part.IsPlaced
  | [], _, _ => nofun
  | value :: rest, around, position =>
      List.forall_mem_append.mpr
        ⟨value.sites_isPlaced rfl around position, Expr.sitesAll_isPlaced rest around _⟩

end

mutual

theorem Form.sites_isPlaced : ∀ (form : Form) (around position : Nat),
    ∀ site ∈ form.sites around position, site.part.IsPlaced
  | .empty, _, _ => nofun
  | .require _, _, _ => nofun
  | .step _ (.transfer _ _), _, _ => nofun
  | .step _ (.assign _ _ value), around, position => value.sites_isPlaced rfl around (position + 3)
  | .step _ (.call _ values), around, position =>
      Expr.sitesAll_isPlaced values around (position + 2)
  | .define _ _ body, _, position =>
      List.forall_mem_cons.mpr ⟨trivial, Form.sitesAll_isPlaced body position _⟩

theorem Form.sitesAll_isPlaced : ∀ (forms : List Form) (around position : Nat),
    ∀ site ∈ Form.sitesAll around position forms, site.part.IsPlaced
  | [], _, _ => nofun
  | form :: rest, around, position =>
      List.forall_mem_append.mpr
        ⟨form.sites_isPlaced around position, Form.sitesAll_isPlaced rest around _⟩

end

theorem Form.programSites_isPlaced (forms : List Form) :
    ∀ site ∈ Form.programSites forms, site.part.IsPlaced :=
  List.forall_mem_cons.mpr ⟨trivial, Form.sitesAll_isPlaced forms 0 1⟩

namespace Program

/-- Every exemplar is that of the construct with its number. -/
theorem exists_site (inside : id < (Program.ofForms interner forms).exemplars.size) :
    ∃ site, (Form.programSites forms)[id]? = some site
      ∧ (Program.ofForms interner forms).exemplar id = site.exemplar (Form.numberAt forms) := by
  have stored := Program.exemplars_ofForms interner forms
  have length := congrArg List.length stored
  rw [List.length_map, Array.length_toList] at length
  rw [length] at inside
  refine ⟨_, List.getElem?_eq_getElem inside, ?_⟩
  rw [Program.exemplar, Array.getD_eq_getD_getElem?, ← Array.getElem?_toList, stored,
    List.getElem?_map, List.getElem?_eq_getElem inside]
  rfl

/-- A definition opens on the tape where its construct stands. -/
theorem exists_opensAt (derived : DerivesForms libraries Owner.root forms tokens)
    (inside : id < (Program.ofForms interner forms).exemplars.size)
    (defined : ((Program.ofForms interner forms).exemplar id).keyword? ≠ none) :
    ∃ site index, (Form.programSites forms)[id]? = some site ∧ site.position = index + 1
      ∧ ((Program.ofForms interner forms).exemplar id).OpensAt tokens index := by
  obtain ⟨site, numbered, same⟩ := exists_site inside
  have member := List.mem_of_getElem? numbered
  have placed := Form.programSites_isPlaced forms site member
  obtain ⟨own, rest, there, spelt⟩ := Form.programSites_standOn derived site member
  rw [same] at defined ⊢
  obtain ⟨position, around, part⟩ := site
  cases part with
  | program body => exact absurd rfl defined
  | call construct offset callee values =>
      refine absurd ?_ defined
      change construct.isInline = true at placed
      cases construct with
      | assigned | argument => rfl
      | _ => cases placed
  | definition offset head body =>
      have inner : 1 ≤ position := by
        rcases List.mem_cons.mp member with isTop | behind
        · cases isTop
        · exact ((Form.sitesAll_inOrder forms 0 1).bounds _ behind).1
      obtain ⟨index, rfl⟩ : ∃ index, position = index + 1 := ⟨position - 1, by omega⟩
      obtain ⟨owner, spelt⟩ := spelt
      cases spelt with
      | @define _ _ _ front within opening closing _ spelt =>
          have opened : (Tape.encloseTokens tokens).drop (index + 1)
              = ⟨.listOpen, offset⟩ :: (front ++ (within ++ ⟨.listClose, closing⟩ :: rest)) := by
            rw [there, bracketed, List.cons_append, List.cons_append, List.append_assoc,
              List.append_assoc]
            rfl
          exact ⟨_, index, numbered, rfl, opensAt_of_derivesHead spelt rfl rfl rfl rfl opened⟩

/-- Definitions open in the order of their numbers. -/
theorem opensBefore_of_lt (derived : DerivesForms libraries Owner.root forms tokens)
    (below : left < right) (inside : right < (Program.ofForms interner forms).exemplars.size)
    (isLeft : ((Program.ofForms interner forms).exemplar left).keyword? ≠ none)
    (isRight : ((Program.ofForms interner forms).exemplar right).keyword? ≠ none) :
    (Program.ofForms interner forms).OpensBefore tokens left right := by
  obtain ⟨one, first, numbered, here, opens⟩ :=
    exists_opensAt derived (Nat.lt_trans below inside) isLeft
  obtain ⟨other, second, alsoNumbered, there, opensToo⟩ := exists_opensAt derived inside isRight
  obtain ⟨inFront, rfl⟩ := List.getElem?_eq_some_iff.mp numbered
  obtain ⟨inBack, rfl⟩ := List.getElem?_eq_some_iff.mp alsoNumbered
  have less := List.pairwise_iff_getElem.mp (Form.programSites_inOrder forms).sorted left right
    inFront inBack below
  exact ⟨first, second, by omega, opens, opensToo⟩

/-! ## What stands directly inside an exemplar -/

theorem mem_definitions_iff_parent (tree : program.IsTree) {owner : ExemplarId} :
    id ∈ program.definitions (program.exemplar owner)
      ↔ (program.exemplar id).parent = some owner
        ∧ (program.exemplar id).construct ∈ [.machine, .state, .function] := by
  rw [mem_definitions_iff]
  constructor
  · rintro (⟨name, listed⟩ | ⟨name, listed⟩)
    · have held := tree.holds (Content.mem_references_machine.mpr listed)
      refine ⟨held.parent, ?_⟩
      rcases held.suits.2 with ⟨isMachine, _⟩ | ⟨isState, _⟩
      · rw [isMachine]
        decide
      · rw [isState]
        decide
    · have held := tree.holds (Content.mem_references_function.mpr listed)
      refine ⟨held.parent, ?_⟩
      rw [held.suits.2.1]
      decide
  · rintro ⟨parent, defined⟩
    obtain ⟨place, refers, suits⟩ := tree.referred parent
    cases place with
    | machine name => exact .inl ⟨name, Content.mem_references_machine.mp refers⟩
    | function name => exact .inr ⟨name, Content.mem_references_function.mp refers⟩
    | handler | value | argument =>
        rw [suits.1] at defined
        exact absurd defined (by decide)

theorem pairwise_definitions (program : Program) (id : ExemplarId) :
    (program.definitions (program.exemplar id)).Pairwise fun left right =>
      (program.exemplar left).offset ≤ (program.exemplar right).offset := by
  refine (List.pairwise_mergeSort ?_ ?_ _).imp of_decide_eq_true
  · intro one two three
    simp only [decide_eq_true_eq]
    exact Nat.le_trans
  · intro one two
    simp only [Bool.or_eq_true, decide_eq_true_eq]
    exact Nat.le_total _ _

end Program

/-! ## The order of brackets -/

/-- A program of forms that its tape spells, with the tokens of a source, of which the offsets
increase. -/
structure Program.SpeltBy (program : Program) (libraries : List String) (tokens : List Token) :
    Prop where
  spelt : ∃ interner forms, DerivesForms libraries Owner.root forms tokens
    ∧ program = Program.ofForms interner forms
  tree : program.IsTree
  increasing : tokens.Pairwise fun first later => first.offset < later.offset

namespace Program.SpeltBy

variable {owner : Nat}

theorem opensBefore (spelt : program.SpeltBy libraries tokens) (below : left < right)
    (inside : right < program.exemplars.size)
    (isLeft : (program.exemplar left).keyword? ≠ none)
    (isRight : (program.exemplar right).keyword? ≠ none) :
    program.OpensBefore tokens left right := by
  obtain ⟨interner, forms, derived, rfl⟩ := spelt.spelt
  exact opensBefore_of_lt derived below inside isLeft isRight

/-- Of two definitions inside an exemplar, the one with the smaller offset opens first. -/
theorem opensBefore_of_offset_le (spelt : program.SpeltBy libraries tokens)
    (isLeft : left ∈ program.definitions (program.exemplar owner))
    (isRight : right ∈ program.definitions (program.exemplar owner)) (different : left ≠ right)
    (below : (program.exemplar left).offset ≤ (program.exemplar right).offset) :
    program.OpensBefore tokens left right := by
  have keyword {id : Nat} (defined : id ∈ program.definitions (program.exemplar owner)) :
      id < program.exemplars.size ∧ (program.exemplar id).keyword? ≠ none := by
    obtain ⟨held, -⟩ := spelt.tree.nested (List.mem_append_left _ defined)
    have kind : (program.exemplar id).construct ∈ [.machine, .state, .function] ++ [.handler] :=
      List.mem_append_left _ ((mem_definitions_iff_parent spelt.tree).mp defined).2
    exact ⟨held.inside, Exemplar.keyword?_ne_none kind⟩
  obtain ⟨insideLeft, opensLeft⟩ := keyword isLeft
  obtain ⟨insideRight, opensRight⟩ := keyword isRight
  rcases Nat.lt_or_gt_of_ne different with first | second
  · exact spelt.opensBefore first insideRight opensLeft opensRight
  · have before := (spelt.opensBefore second insideLeft opensRight opensLeft).offset_lt
      spelt.increasing
    exact absurd below (Nat.not_le_of_lt before)

end Program.SpeltBy

/-! ## The order of tables -/

/-- A program whose exemplars list their machines, states and functions in another order. -/
structure Program.Reorders (program other : Program) : Prop where
  required : other.required = program.required
  size : other.exemplars.size = program.exemplars.size
  tables : ∀ id, ∃ machines functions, machines.Perm (program.exemplar id).machines
    ∧ functions.Perm (program.exemplar id).functions
    ∧ other.exemplar id
      = { program.exemplar id with machines := machines, functions := functions }

namespace Program.Reorders

variable {other : Program}

theorem definitions_eq (reorders : program.Reorders other)
    (spelt : program.SpeltBy libraries tokens)
    (id : ExemplarId) :
    other.definitions (other.exemplar id) = program.definitions (program.exemplar id) := by
  have offset (id : ExemplarId) : (other.exemplar id).offset = (program.exemplar id).offset := by
    obtain ⟨machines, functions, -, -, same⟩ := reorders.tables id
    rw [same]
  have sorted := pairwise_definitions other id
  simp only [offset] at sorted
  have listed : (other.definitions (other.exemplar id)).Perm
      (program.definitions (program.exemplar id)) := by
    obtain ⟨machines, functions, sameMachines, sameFunctions, same⟩ := reorders.tables id
    refine (List.mergeSort_perm _ _).trans (.trans ?_ (List.mergeSort_perm _ _).symm)
    rw [same]
    exact (sameMachines.map _).append (sameFunctions.map _)
  refine listed.eq_of_pairwise ?_ sorted (pairwise_definitions program id)
  -- no two definitions have one offset
  intro left right isLeft isRight below above
  by_contra different
  have before := (spelt.opensBefore_of_offset_le (listed.mem_iff.mp isLeft) isRight different
    below).offset_lt spelt.increasing
  exact Nat.not_le_of_lt before above

theorem outlineOf_eq (reorders : program.Reorders other) (spelt : program.SpeltBy libraries tokens)
    (fuel level : Nat) (id : ExemplarId) :
    other.outlineOf fuel level id = program.outlineOf fuel level id := by
  induction fuel generalizing level id with
  | zero => rfl
  | succ fuel inductionHypothesis =>
      have definitions := reorders.definitions_eq spelt id
      have below := funext (inductionHypothesis (level + 1))
      obtain ⟨machines, functions, -, -, same⟩ := reorders.tables id
      simp only [outlineOf, definitions, below]
      rw [same]
      rfl

/-- The outline does not depend on the order of the tables. -/
theorem outline_eq (reorders : program.Reorders other) (spelt : program.SpeltBy libraries tokens) :
    other.outline = program.outline := by
  unfold outline outlineLines
  rw [reorders.required, reorders.size, reorders.outlineOf_eq spelt]

end Program.Reorders

/-! ## The outline -/

end MachineScript
