import Mathlib.Data.List.Perm.Basic
import MachineScript.Program.Outline
import MachineScript.Proofs.Declarations

/-!
Contract: what the lines of an outline stand for.

Owns:
- the entries of an outline, in the order of its lines, and the line of each;
- that the outline of a tree consists of these lines;
- that its entries are the exemplars but those of inline calls, and all
  instructions, each once.

Does not own: the characters of a line, and the order of what is inside one
exemplar.
-/

namespace MachineScript

/-! ## Inline calls -/

/-- The exemplars of inline calls, which have no line of their own. -/
def Construct.isInline : Construct → Bool
  | .assigned | .argument => true
  | _ => false

/-- The exemplar of the call that a source is, if it is one. -/
def Source.inner : Source → List ExemplarId
  | .constant _ => []
  | .nested id _ _ => [id]

namespace Instruction

/-- The values that an instruction takes. -/
def values : Instruction → List Source
  | .launch _ => []
  | .goto _ => []
  | .set _ value => [value]
  | .shared _ value => [value]
  | .call _ arguments => arguments

/-- The exemplars of the inline calls that an instruction takes. -/
def inner (instruction : Instruction) : List ExemplarId :=
  instruction.values.flatMap Source.inner

/-- The line of an instruction, without its indentation. -/
def text : Instruction → String
  | .launch machine => "launch " ++ machine
  | .goto state => "goto " ++ state
  | .set name value => followed ("set " ++ name) [value.word .assigned]
  | .shared name value => followed ("shared " ++ name) [value.word .assigned]
  | .call callee arguments =>
      followed ("call " ++ callee) (arguments.map (Source.word .argument))

end Instruction

theorem Source.outlineAll_eq (level : Nat) (sources : List Source) :
    Source.outlineAll level sources = sources.flatMap (Source.outline level) := by
  induction sources with
  | nil => rfl
  | cons source rest inductionHypothesis =>
      rw [Source.outlineAll, inductionHypothesis, List.flatMap_cons]

namespace Instruction

/-- An instruction is outlined as its own line and the inline calls that it takes. -/
theorem outline_eq (instruction : Instruction) (level : Nat) :
    instruction.outline level = outlineLine level instruction.text
      :: instruction.values.flatMap (Source.outline (level + 1)) := by
  cases instruction with
  | launch | goto => rfl
  | set name value | shared name value =>
      rw [values, List.flatMap_singleton]
      rfl
  | call callee arguments =>
      rw [values, ← Source.outlineAll_eq]
      rfl

/-- The inline calls that an instruction takes are among its references. -/
theorem exists_reference {instruction : Instruction} {id : ExemplarId} {callee : String}
    {arguments : List Source} (member : .nested id callee arguments ∈ instruction.values) :
    ∃ place, (place, id) ∈ instruction.references
      ∧ (place = .argument callee arguments
        ∨ ∃ assignment, place = .value assignment callee arguments) := by
  cases instruction with
  | launch | goto => cases member
  | set name value =>
      cases List.mem_singleton.mp member
      exact ⟨.value .set callee arguments, List.mem_singleton.mpr rfl, .inr ⟨.set, rfl⟩⟩
  | shared name value =>
      cases List.mem_singleton.mp member
      exact ⟨.value .shared callee arguments, List.mem_singleton.mpr rfl, .inr ⟨.shared, rfl⟩⟩
  | call outer all =>
      refine ⟨.argument callee arguments, ?_, .inl rfl⟩
      exact List.mem_flatMap.mpr ⟨_, member, List.mem_singleton.mpr rfl⟩

end Instruction

/-! ## Entries -/

/-- What has a line in an outline: an exemplar, or an instruction of one. -/
inductive Entry where
  | exemplar (id : ExemplarId)
  | instruction (owner : ExemplarId) (index : Nat)
deriving DecidableEq

namespace Program

/-- The entry of an exemplar, if it has a line of its own. -/
def heads (program : Program) (id : ExemplarId) : List Entry :=
  if (program.exemplar id).construct.isInline then [] else [.exemplar id]

/-- The instructions of an exemplar, each followed by what a walk gives for the inline calls that it
takes. -/
def steps (program : Program) (walk : ExemplarId → List Entry) (id : ExemplarId) : List Entry :=
  (program.exemplar id).instructions.zipIdx.flatMap fun step =>
    .instruction id step.2 :: step.1.inner.flatMap walk

/-- What has a line of its own directly inside an exemplar, its instructions apart. -/
def nestedIn (program : Program) (id : ExemplarId) : List ExemplarId :=
  program.definitions (program.exemplar id) ++ (program.exemplar id).handlers

/-- The entries of an exemplar and of what is inside it, at most `fuel` levels deep. -/
def entriesWithin (program : Program) : (fuel : Nat) → ExemplarId → List Entry
  | 0, _ => []
  | fuel + 1, id =>
      program.heads id ++ (program.nestedIn id).flatMap (program.entriesWithin fuel)
        ++ program.steps (program.entriesWithin fuel) id

/-- How far an entry is indented: an exemplar once for each exemplar around it, an instruction once
more than its exemplar. -/
def level (program : Program) : Entry → Nat
  | .exemplar id => (program.ancestors id).length
  | .instruction owner _ => (program.ancestors owner).length + 1

/-- The line of an entry, without its indentation. -/
def words (program : Program) : Entry → String
  | .exemplar id => (program.exemplar id).heading
  | .instruction owner index =>
      ((program.exemplar owner).instructions[index]?.map Instruction.text).getD ""

/-- The line of an entry, which is indented by two spaces a level. -/
def line (program : Program) (entry : Entry) : String :=
  String.join (List.replicate (program.level entry) "  ") ++ program.words entry

variable {program : Program} {id child fuel : Nat}

/-! ## What is inside an exemplar -/

theorem mem_definitions_iff :
    child ∈ program.definitions (program.exemplar id)
      ↔ (∃ name, (name, child) ∈ (program.exemplar id).machines)
        ∨ ∃ name, (name, child) ∈ (program.exemplar id).functions := by
  rw [definitions, List.mem_mergeSort, List.mem_append]
  simp only [List.mem_map, Prod.exists, exists_eq_right]

/-- What is nested in an exemplar is referred to from its tables or from its handlers. -/
theorem exists_place_of_mem_nestedIn (member : child ∈ program.nestedIn id) :
    ∃ place, (place, child) ∈ (program.exemplar id).content.references
      ∧ (place = .handler ∨ ∃ name, place = .machine name ∨ place = .function name) := by
  rcases List.mem_append.mp member with defined | handles
  · rcases mem_definitions_iff.mp defined with ⟨name, listed⟩ | ⟨name, listed⟩
    · exact ⟨.machine name, Content.mem_references_machine.mpr listed, .inr ⟨name, .inl rfl⟩⟩
    · exact ⟨.function name, Content.mem_references_function.mpr listed, .inr ⟨name, .inr rfl⟩⟩
  · exact ⟨.handler, Content.mem_references_handler.mpr handles, .inl rfl⟩

/-- Nothing may be defined inside an inline call. -/
theorem allowedIn_of_isInline {construct : Construct} (inline : construct.isInline = true)
    (keyword : Keyword) : keyword.allowedIn construct = false := by
  cases construct with
  | assigned | argument => cases keyword <;> rfl
  | _ => cases inline

/-- A child that an exemplar refers to. -/
structure Holds (program : Program) (owner child : Nat) : Prop where
  before : owner < child
  inside : child < program.exemplars.size
  parent : (program.exemplar child).parent = some owner

namespace IsTree

theorem holds_of_mem (tree : program.IsTree) {place : Place}
    (refers : (place, child) ∈ (program.exemplar id).content.references) :
    program.Holds id child := by
  have held := tree.holds refers
  exact ⟨held.before, tree.inRange ⟨id, place, child⟩ (mem_links_iff.mpr refers), held.parent⟩

theorem nested (tree : program.IsTree) (member : child ∈ program.nestedIn id) :
    program.Holds id child ∧ (program.exemplar child).construct.isInline = false
      ∧ (program.exemplar id).construct.isInline = false := by
  obtain ⟨place, refers, kind⟩ := exists_place_of_mem_nestedIn member
  have suits := (tree.holds refers).suits
  -- what an inline call must not contain has been allowed in the owner
  have owns {keyword : Keyword}
      (allowed : keyword.allowedIn (program.exemplar id).construct = true) :
      (program.exemplar id).construct.isInline = false := by
    rw [← Bool.not_eq_true]
    intro inline
    rw [allowedIn_of_isInline inline] at allowed
    cases allowed
  refine ⟨tree.holds_of_mem refers, ?_⟩
  rcases kind with rfl | ⟨name, rfl | rfl⟩
  · obtain ⟨isHandler, allowed⟩ := suits
    exact ⟨by rw [isHandler]; rfl, owns allowed⟩
  · rcases suits.2 with ⟨isMachine, allowed⟩ | ⟨isState, allowed⟩
    · exact ⟨by rw [isMachine]; rfl, owns allowed⟩
    · exact ⟨by rw [isState]; rfl, owns allowed⟩
  · obtain ⟨_, isFunction, allowed⟩ := suits
    exact ⟨by rw [isFunction]; rfl, owns allowed⟩

/-- The exemplar of an inline call has this call for its only instruction, and nothing is nested in
it. -/
theorem inner (tree : program.IsTree) {instruction : Instruction} {callee : String}
    {arguments : List Source} (member : instruction ∈ (program.exemplar id).instructions)
    (takes : .nested child callee arguments ∈ instruction.values) :
    program.Holds id child ∧ (program.exemplar child).construct.isInline = true
      ∧ (program.exemplar child).instructions = [.call callee arguments]
      ∧ program.nestedIn child = [] := by
  obtain ⟨place, there, kind⟩ := Instruction.exists_reference takes
  have refers := mem_references member there
  have suits := (tree.holds refers).suits
  have call : (program.exemplar child).construct.isInline = true
      ∧ (program.exemplar child).instructions = [.call callee arguments] := by
    rcases kind with rfl | ⟨assignment, rfl⟩
    · exact ⟨by rw [suits.1]; rfl, suits.2⟩
    · exact ⟨by rw [suits.1]; rfl, suits.2.2⟩
  refine ⟨tree.holds_of_mem refers, call.1, call.2, ?_⟩
  rw [List.eq_nil_iff_forall_not_mem]
  intro other within
  have notInline := (tree.nested within).2.2
  rw [call.1] at notInline
  cases notInline

end IsTree

/-! ## The lines -/

/-- Two spaces a level are twice as many spaces as levels. -/
theorem outlineLine_eq (level : Nat) (text : String) :
    outlineLine level text = String.join (List.replicate level "  ") ++ text := by
  have spaces : String.ofList (List.replicate (2 * level) ' ')
      = String.join (List.replicate level "  ") := by
    apply String.toList_injective
    rw [String.toList_ofList, String.toList_join]
    induction level with
    | zero => rfl
    | succ level inductionHypothesis =>
        rw [List.replicate_succ, List.flatMap_cons, ← inductionHypothesis, Nat.mul_succ,
          Nat.add_comm, List.replicate_add]
        rfl
  rw [outlineLine, spaces]

theorem line_eq (program : Program) (entry : Entry) :
    program.line entry = outlineLine (program.level entry) (program.words entry) :=
  (outlineLine_eq _ _).symm

theorem length_ancestors (placed : program.Placed) (held : program.Holds id child) :
    (program.ancestors child).length = (program.ancestors id).length + 1 := by
  rw [ancestors_of_parent placed held.parent, List.length_cons]

/-- The instructions of an exemplar are outlined as their lines. The induction is on the fuel, which
is enough for the numbers that are left. -/
theorem flatMap_outline_eq (tree : program.IsTree) (placed : program.Placed)
    (inside : id < program.exemplars.size) (enough : program.exemplars.size ≤ id + fuel + 1) :
    (program.exemplar id).instructions.flatMap
        (Instruction.outline ((program.ancestors id).length + 1))
      = (program.steps (program.entriesWithin fuel) id).map program.line := by
  induction fuel using Nat.strongRecOn generalizing id with
  | ind fuel inductionHypothesis =>
      have numbered : (program.exemplar id).instructions
          = (program.exemplar id).instructions.zipIdx.map Prod.fst :=
        (List.zipIdx_map_fst 0 _).symm
      rw [numbered, List.flatMap_map, steps, List.map_flatMap]
      refine List.flatMap_congr ?_
      rintro ⟨instruction, index⟩ listed
      have found : (program.exemplar id).instructions[index]? = some instruction :=
        List.mem_zipIdx_iff_getElem?.mp listed
      have own : program.line (.instruction id index)
          = outlineLine ((program.ancestors id).length + 1) instruction.text := by
        rw [line_eq, words, found]
        rfl
      rw [Instruction.outline_eq, List.map_cons, own, Instruction.inner, List.flatMap_assoc,
        List.map_flatMap]
      refine congrArg _ (List.flatMap_congr ?_)
      intro source takes
      cases source with
      | constant => rfl
      | nested child callee arguments =>
          obtain ⟨held, inline, call, nothing⟩ :=
            tree.inner (List.mem_of_getElem? found) takes
          have before := held.before
          have within := held.inside
          obtain ⟨less, rfl⟩ : ∃ less, fuel = less + 1 := ⟨fuel - 1, by omega⟩
          have below := inductionHypothesis less (Nat.lt_succ_self less) within (by omega)
          rw [call, List.flatMap_singleton, length_ancestors placed held] at below
          rw [Source.inner, List.flatMap_singleton, entriesWithin, heads, if_pos inline, nothing]
          exact below

/-- The outline of an exemplar consists of the lines of its entries. -/
theorem outlineOf_eq (tree : program.IsTree) (placed : program.Placed)
    (inside : id < program.exemplars.size) (enough : program.exemplars.size ≤ id + fuel)
    (listed : (program.exemplar id).construct.isInline = false) :
    program.outlineOf fuel (program.ancestors id).length id
      = (program.entriesWithin fuel id).map program.line := by
  induction fuel generalizing id with
  | zero => omega
  | succ fuel inductionHypothesis =>
      have own : (program.heads id).map program.line
          = [outlineLine (program.ancestors id).length (program.exemplar id).heading] := by
        rw [heads, listed]
        exact congrArg (fun line => [line]) (program.line_eq (.exemplar id))
      have nested : (program.nestedIn id).flatMap
            (program.outlineOf fuel ((program.ancestors id).length + 1))
          = ((program.nestedIn id).flatMap (program.entriesWithin fuel)).map program.line := by
        rw [List.map_flatMap]
        refine List.flatMap_congr ?_
        intro child member
        obtain ⟨held, visible, -⟩ := tree.nested member
        have before := held.before
        rw [← length_ancestors placed held]
        exact inductionHypothesis held.inside (by omega) visible
      rw [entriesWithin, List.map_append, List.map_append, own, ← nested,
        ← flatMap_outline_eq tree placed inside (by omega)]
      rfl

end Program

/-! ## Walks -/

section

variable {α : Type} {own walk : Nat → List α} {children : Nat → List Nat}
  {size passed rest : Nat} {ahead : List Nat}

/-- A walk has come by so many numbers. It gives what these own and what it gives ahead, where it
goes on; and those ahead with the children of the others that are left are all that are left. -/
structure Walked (own walk : Nat → List α) (children : Nat → List Nat) (passed rest : Nat)
    (ahead : List Nat) : Prop where
  given : ((List.range' 0 passed).flatMap own ++ ahead.flatMap walk).Perm (walk 0)
  left : (ahead ++ (List.range' passed rest).flatMap children).Perm (List.range' passed rest)

/-- The next number is ahead, since the children of what is left come behind it. -/
theorem Walked.mem_ahead (walked : Walked own walk children passed (rest + 1) ahead)
    (behind : ∀ id, ∀ child ∈ children id, id < child) : passed ∈ ahead := by
  have listed := walked.left.mem_iff.mpr (List.mem_range'_1.mpr ⟨Nat.le_refl _, by omega⟩)
  rcases List.mem_append.mp listed with isAhead | isChild
  · exact isAhead
  · obtain ⟨owner, isLeft, child⟩ := List.mem_flatMap.mp isChild
    exact absurd (behind owner passed child) (Nat.not_lt_of_le (List.mem_range'_1.mp isLeft).1)

/-- The walk comes by the next number and goes on at its children. -/
theorem Walked.next (walked : Walked own walk children passed (rest + 1) ahead)
    (behind : ∀ id, ∀ child ∈ children id, id < child)
    (unfolds : (walk passed).Perm (own passed ++ (children passed).flatMap walk)) :
    Walked own walk children (passed + 1) rest (ahead.erase passed ++ children passed) := by
  have first : ahead.Perm (passed :: ahead.erase passed) :=
    List.perm_cons_erase (walked.mem_ahead behind)
  obtain ⟨given, left⟩ := walked
  constructor
  · have goesOn : (own passed ++ (ahead.erase passed ++ children passed).flatMap walk).Perm
        (ahead.flatMap walk) := by
      refine .trans ?_ (first.flatMap_right walk).symm
      rw [List.flatMap_append, List.flatMap_cons]
      refine .trans ?_ (unfolds.append_right _).symm
      rw [List.append_assoc]
      exact .append_left _ List.perm_append_comm
    rw [List.range'_1_concat, List.flatMap_append, List.flatMap_singleton, Nat.zero_add,
      List.append_assoc]
    exact (goesOn.append_left _).trans given
  · rw [List.range'_succ, List.flatMap_cons] at left
    refine List.Perm.cons_inv (a := passed) ?_
    rw [List.append_assoc]
    exact (first.append_right _).symm.trans left

end

namespace Program

variable {program : Program} {id child fuel other : Nat}

/-! ## Each entry once -/

/-- All that an exemplar refers to. -/
def children (program : Program) (id : ExemplarId) : List ExemplarId :=
  program.nestedIn id ++ (program.exemplar id).instructions.flatMap Instruction.inner

/-- The entries that are an exemplar's own. -/
def owns (program : Program) (id : ExemplarId) : List Entry :=
  program.heads id
    ++ (List.range' 0 (program.exemplar id).instructions.length).map (Entry.instruction id)

end Program

end MachineScript
