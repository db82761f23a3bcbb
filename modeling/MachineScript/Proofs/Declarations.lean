import Mathlib.Data.List.Flatten
import Mathlib.Data.List.Nodup
import MachineScript.Proofs.Ownership

/-!
Contract: what the references of a tree of exemplars stand for.

Owns:
- that an exemplar refers to its children, and to each of them from a place that
  suits it;
- the definitions of a name inside an exemplar, as its tables find them, and
  that nothing is defined inside a function;
- that the handlers of a state are those inside it, each once;
- the exemplars of inline calls.

Does not own: where a running instance looks for a name.
-/

namespace MachineScript

/-- A program has an exemplar of a number, and it is of some construct. -/
structure Program.Stores (program : Program) (id : ExemplarId) (construct : Construct) : Prop where
  inside : id < program.exemplars.size
  construct : (program.exemplar id).construct = construct

/-- Numbers that are not given out stand for the top of a program. -/
theorem Program.stores_of_construct {program : Program} {id : ExemplarId} {construct : Construct}
    (isConstruct : (program.exemplar id).construct = construct) (notRoot : construct ≠ .root) :
    program.Stores id construct := by
  refine ⟨?_, isConstruct⟩
  by_contra beyond
  rw [exemplar_of_size_le (Nat.le_of_not_lt beyond)] at isConstruct
  exact notRoot isConstruct.symm

/-- An exemplar is the definition of a name directly inside another one, and of some construct. -/
structure Program.Declares (program : Program) (scope : ExemplarId) (name : String)
    (construct : Construct) (id : ExemplarId) : Prop where
  parent : (program.exemplar id).parent = some scope
  name : (program.exemplar id).name = name
  construct : (program.exemplar id).construct = construct

/-- The exemplar of an inline call is of the construct that belongs to its place, and holds the call
as its only instruction. -/
def Source.Filed (program : Program) (construct : Construct) : Source → Prop
  | .constant _ => True
  | .nested id callee arguments => program.Stores id construct
      ∧ (program.exemplar id).instructions = [.call callee arguments]

/-- Instructions refer to inline calls only. -/
theorem Instruction.inline_of_references {instruction : Instruction} {place : Place}
    {target : ExemplarId} (refers : (place, target) ∈ instruction.references) :
    (∃ assignment callee arguments, place = .value assignment callee arguments)
      ∨ ∃ callee arguments, place = .argument callee arguments := by
  cases instruction with
  | launch | goto => cases refers
  | set name source | shared name source =>
      cases source with
      | constant => cases refers
      | nested id callee arguments =>
          cases List.mem_singleton.mp refers
          exact .inl ⟨_, callee, arguments, rfl⟩
  | call callee arguments =>
      obtain ⟨source, _, there⟩ := List.mem_flatMap.mp refers
      cases source with
      | constant => cases there
      | nested id inner others =>
          cases List.mem_singleton.mp there
          exact .inr ⟨inner, others, rfl⟩

namespace Content

variable {content : Content} {name : String} {id : ExemplarId}

theorem mem_references_machine :
    (.machine name, id) ∈ content.references ↔ (name, id) ∈ content.machines := by
  constructor
  · intro refers
    simp only [references, List.mem_append, List.mem_map, Prod.mk.injEq, Place.machine.injEq,
      reduceCtorEq, false_and, and_false, exists_false, or_false, List.mem_flatMap] at refers
    rcases refers with ⟨⟨other, target⟩, member, rfl, rfl⟩ | ⟨instruction, _, refers⟩
    · exact member
    · rcases Instruction.inline_of_references refers with ⟨_, _, _, same⟩ | ⟨_, _, same⟩
      · cases same
      · cases same
  · intro member
    simp only [references, List.mem_append, List.mem_map]
    exact .inl (.inl (.inl ⟨_, member, rfl⟩))

theorem mem_references_function :
    (.function name, id) ∈ content.references ↔ (name, id) ∈ content.functions := by
  constructor
  · intro refers
    simp only [references, List.mem_append, List.mem_map, Prod.mk.injEq, Place.function.injEq,
      reduceCtorEq, false_and, and_false, exists_false, false_or, or_false,
      List.mem_flatMap] at refers
    rcases refers with ⟨⟨other, target⟩, member, rfl, rfl⟩ | ⟨instruction, _, refers⟩
    · exact member
    · rcases Instruction.inline_of_references refers with ⟨_, _, _, same⟩ | ⟨_, _, same⟩
      · cases same
      · cases same
  · intro member
    simp only [references, List.mem_append, List.mem_map]
    exact .inl (.inl (.inr ⟨_, member, rfl⟩))

theorem mem_references_handler : (.handler, id) ∈ content.references ↔ id ∈ content.handlers := by
  constructor
  · intro refers
    simp only [references, List.mem_append, List.mem_map, Prod.mk.injEq, reduceCtorEq, false_and,
      and_false, exists_false, false_or, true_and, exists_eq_right, List.mem_flatMap] at refers
    rcases refers with member | ⟨instruction, _, refers⟩
    · exact member
    · rcases Instruction.inline_of_references refers with ⟨_, _, _, same⟩ | ⟨_, _, same⟩
      · cases same
      · cases same
  · intro member
    simp only [references, List.mem_append, List.mem_map]
    exact .inl (.inr ⟨id, member, rfl⟩)

end Content

namespace Program

variable {program : Program} {owner target scope id : ExemplarId} {place : Place} {name : String}

theorem mem_links_iff {link : Link} :
    link ∈ program.links
      ↔ (link.place, link.target) ∈ (program.exemplar link.owner).content.references := by
  constructor
  · intro member
    obtain ⟨owner, _, there⟩ := List.mem_flatMap.mp member
    obtain ⟨reference, refers, rfl⟩ := List.mem_map.mp there
    exact refers
  · intro refers
    have inside : link.owner < program.exemplars.size := by
      by_contra beyond
      rw [exemplar_of_size_le (Nat.le_of_not_lt beyond)] at refers
      cases refers
    apply List.mem_flatMap.mpr
    exact ⟨link.owner, List.mem_range'_1.mpr ⟨Nat.zero_le _, (Nat.zero_add _).symm ▸ inside⟩,
      List.mem_map_of_mem (f := Link.of link.owner) refers⟩

/-- The references to handlers are links of the program, in the order of the handlers. -/
theorem handlers_sublist_links (program : Program) (owner : ExemplarId) :
    ((program.exemplar owner).handlers.map fun id => Link.mk owner .handler id).Sublist
      program.links := by
  by_cases inside : owner < program.exemplars.size
  · have filed : ((program.exemplar owner).handlers.map fun id => (Place.handler, id)).Sublist
        (program.exemplar owner).content.references :=
      List.sublist_append_of_sublist_left (List.sublist_append_right _ _)
    have only : [owner].Sublist (List.range' root program.exemplars.size) := by
      rw [List.singleton_sublist, List.mem_range'_1]
      exact ⟨Nat.zero_le _, (Nat.zero_add _).symm ▸ inside⟩
    have own := filed.map (Link.of owner)
    have all := only.flatMap program.linksOf
    rw [List.map_map] at own
    rw [List.flatMap_singleton] at all
    exact own.trans all
  · rw [exemplar_of_size_le (Nat.le_of_not_lt inside)]
    exact List.nil_sublist _

namespace IsTree

/-- Every reference of an exemplar leads to a child from a place that suits it. -/
theorem holds (tree : program.IsTree)
    (refers : (place, target) ∈ (program.exemplar owner).content.references) :
    Link.Holds ⟨owner, place, target⟩ program := by
  have member : ⟨owner, place, target⟩ ∈ program.links := mem_links_iff.mpr refers
  obtain ⟨link, _, only, held⟩ := tree.owned target (tree.inRange _ member)
    (tree.top.2.2.2 _ member)
  have same : (⟨owner, place, target⟩ : Link) ∈ [link] := by
    rw [← only]
    exact List.mem_filter.mpr ⟨member, decide_eq_true rfl⟩
  rw [List.mem_singleton.mp same]
  exact held

/-- Every child is referred to by its parent. -/
theorem referred (tree : program.IsTree) (parent : (program.exemplar id).parent = some scope) :
    ∃ place, (place, id) ∈ (program.exemplar scope).content.references
      ∧ place.Suits (program.exemplar scope) (program.exemplar id) := by
  have inside : id < program.exemplars.size := by
    by_contra beyond
    rw [exemplar_of_size_le (Nat.le_of_not_lt beyond)] at parent
    cases parent
  have notRoot : id ≠ root := by
    rintro rfl
    rw [tree.top.2.2.1] at parent
    cases parent
  obtain ⟨link, rfl, only, held⟩ := tree.owned id inside notRoot
  have isOwner : link.owner = scope := Option.some.inj (held.parent.symm.trans parent)
  have member : link ∈ program.links :=
    (List.mem_filter.mp (only ▸ List.mem_singleton.mpr rfl)).1
  exact ⟨link.place, isOwner ▸ mem_links_iff.mp member, isOwner ▸ held.suits⟩

/-! ## Definitions -/

theorem keyed_all (tree : program.IsTree) (id : ExemplarId) :
    (program.exemplar id).content.Keyed := by
  by_cases inside : id < program.exemplars.size
  · exact tree.keyed id inside
  · rw [exemplar_of_size_le (Nat.le_of_not_lt inside)]
    exact ⟨List.nodup_nil, List.nodup_nil⟩

/-- The table of machines and states finds the definitions inside an exemplar. -/
theorem nested?_eq_some_iff (tree : program.IsTree) {construct : Construct}
    (kind : construct = .machine ∨ construct = .state) :
    program.nested? scope name construct = some id
      ↔ program.Declares scope name construct id := by
  have entry : (program.exemplar scope).machines.find? name = some id
      ↔ (name, id) ∈ (program.exemplar scope).machines :=
    Bindings.find?_eq_some_iff (tree.keyed_all scope).machines
  constructor
  · intro found
    unfold nested? at found
    split at found
    · next bound =>
        split at found
        · next isKind =>
            cases found
            have held := tree.holds (Content.mem_references_machine.mpr (entry.mp bound))
            exact ⟨held.parent, held.suits.1, isKind⟩
        · cases found
    · cases found
  · rintro ⟨parent, named, isKind⟩
    obtain ⟨place, refers, suits⟩ := tree.referred parent
    cases place with
    | machine filed =>
        cases suits.1.symm.trans named
        unfold nested?
        rw [entry.mpr (Content.mem_references_machine.mp refers)]
        exact if_pos isKind
    | function filed => rw [suits.2.1] at isKind; rcases kind with rfl | rfl <;> cases isKind
    | handler => rw [suits.1] at isKind; rcases kind with rfl | rfl <;> cases isKind
    | value => rw [suits.1] at isKind; rcases kind with rfl | rfl <;> cases isKind
    | argument => rw [suits.1] at isKind; rcases kind with rfl | rfl <;> cases isKind

/-- So does the table of functions. -/
theorem function_eq_some_iff (tree : program.IsTree) :
    (program.exemplar scope).functions.find? name = some id
      ↔ program.Declares scope name .function id := by
  have entry : (program.exemplar scope).functions.find? name = some id
      ↔ (name, id) ∈ (program.exemplar scope).functions :=
    Bindings.find?_eq_some_iff (tree.keyed_all scope).functions
  rw [entry]
  constructor
  · intro member
    have held := tree.holds (Content.mem_references_function.mpr member)
    exact ⟨held.parent, held.suits.1, held.suits.2.1⟩
  · rintro ⟨parent, named, isFunction⟩
    obtain ⟨place, refers, suits⟩ := tree.referred parent
    cases place with
    | function filed =>
        cases suits.1.symm.trans named
        exact Content.mem_references_function.mp refers
    | machine filed =>
        rcases suits.2 with ⟨isMachine, _⟩ | ⟨isState, _⟩
        · cases isMachine.symm.trans isFunction
        · cases isState.symm.trans isFunction
    | handler => cases suits.1.symm.trans isFunction
    | value => cases suits.1.symm.trans isFunction
    | argument => cases suits.1.symm.trans isFunction

/-- Nothing is defined inside a function. -/
theorem tables_of_function (tree : program.IsTree)
    (isFunction : (program.exemplar scope).construct = .function) :
    (program.exemplar scope).machines = [] ∧ (program.exemplar scope).functions = [] := by
  constructor
  · apply List.eq_nil_iff_forall_not_mem.mpr
    rintro ⟨name, id⟩ member
    have suits := (tree.holds (Content.mem_references_machine.mpr member)).suits.2
    rw [isFunction] at suits
    rcases suits with ⟨_, allowed⟩ | ⟨_, allowed⟩
    · cases allowed
    · cases allowed
  · apply List.eq_nil_iff_forall_not_mem.mpr
    rintro ⟨name, id⟩ member
    have allowed := (tree.holds (Content.mem_references_function.mpr member)).suits.2.2
    rw [isFunction] at allowed
    split at allowed
    · cases allowed
    · cases allowed

/-! ## Handlers -/

/-- The handlers of a state are those that stand directly inside it. -/
theorem mem_handlers_iff (tree : program.IsTree) :
    id ∈ (program.exemplar owner).handlers
      ↔ (program.exemplar id).parent = some owner
        ∧ (program.exemplar id).construct = .handler := by
  constructor
  · intro member
    have refers : (.handler, id) ∈ (program.exemplar owner).content.references :=
      Content.mem_references_handler.mpr member
    exact ⟨(tree.holds refers).parent, (tree.holds refers).suits.1⟩
  · rintro ⟨parent, isHandler⟩
    obtain ⟨place, refers, suits⟩ := tree.referred parent
    cases place with
    | handler => exact Content.mem_references_handler.mp refers
    | machine filed =>
        rcases suits.2 with ⟨isMachine, _⟩ | ⟨isState, _⟩
        · cases isMachine.symm.trans isHandler
        · cases isState.symm.trans isHandler
    | function filed => cases suits.2.1.symm.trans isHandler
    | value => cases suits.1.symm.trans isHandler
    | argument => cases suits.1.symm.trans isHandler

/-- No handler is filed twice. -/
theorem nodup_handlers (tree : program.IsTree) (owner : ExemplarId) :
    (program.exemplar owner).handlers.Nodup := by
  rw [List.nodup_iff_count_le_one]
  intro id
  by_cases member : id ∈ (program.exemplar owner).handlers
  · have refers : (.handler, id) ∈ (program.exemplar owner).content.references :=
      Content.mem_references_handler.mpr member
    have linked : ⟨owner, .handler, id⟩ ∈ program.links := mem_links_iff.mpr refers
    obtain ⟨link, _, only, _⟩ := tree.owned id (tree.inRange _ linked) (tree.top.2.2.2 _ linked)
    have fewer := ((program.handlers_sublist_links owner).filter
      fun other => other.target = id).length_le
    rw [only, List.filter_map, List.length_map, ← List.countP_eq_length_filter] at fewer
    exact fewer
  · rw [List.count_eq_zero.mpr member]
    exact Nat.zero_le 1

/-! ## Inline calls -/

theorem mem_references {instruction : Instruction}
    (member : instruction ∈ (program.exemplar owner).instructions)
    (refers : (place, target) ∈ instruction.references) :
    (place, target) ∈ (program.exemplar owner).content.references :=
  List.mem_append_right _ (List.mem_flatMap.mpr ⟨instruction, member, refers⟩)

/-- The value of an assignment has an exemplar of its own if it is a call. -/
theorem filed_assigned (tree : program.IsTree) {instruction : Instruction}
    (assignment : Assignment) {source : Source}
    (member : instruction ∈ (program.exemplar owner).instructions)
    (references : instruction.references = source.references (.value assignment)) :
    source.Filed program .assigned := by
  cases source with
  | constant constant => trivial
  | nested id callee arguments =>
      have refers : (.value assignment callee arguments, id) ∈ instruction.references := by
        rw [references]
        exact List.mem_singleton.mpr rfl
      obtain ⟨isAssigned, _, call⟩ := (tree.holds (mem_references member refers)).suits
      exact ⟨stores_of_construct isAssigned (by decide), call⟩

/-- So has every argument. -/
theorem filed_argument (tree : program.IsTree) {callee : String} {arguments : List Source}
    {source : Source} (member : .call callee arguments ∈ (program.exemplar owner).instructions)
    (there : source ∈ arguments) : source.Filed program .argument := by
  cases source with
  | constant constant => trivial
  | nested id inner others =>
      have refers : (.argument inner others, id) ∈ (Instruction.call callee arguments).references :=
        List.mem_flatMap.mpr ⟨_, there, List.mem_singleton.mpr rfl⟩
      obtain ⟨isArgument, call⟩ := (tree.holds (mem_references member refers)).suits
      exact ⟨stores_of_construct isArgument (by decide), call⟩

end IsTree

end Program

end MachineScript
