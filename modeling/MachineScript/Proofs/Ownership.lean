import MachineScript.Proofs.Placement

/-!
Contract: the exemplars of a compiled program form a tree.

Owns: what an exemplar refers to and in which place, that every exemplar but
the top one is referred to once, by its parent and in a place that suits it,
and the way from every exemplar up to the top.

Does not own: what else an exemplar holds.
-/

namespace MachineScript

open Grammar

/-! ## References -/

/-- Where an exemplar refers to another one: under a name, in the list of its handlers, or in an
instruction, which carries the inner call along. -/
inductive Place where
  | machine (name : String)
  | function (name : String)
  | handler
  | value (assignment : Assignment) (callee : String) (arguments : List Source)
  | argument (callee : String) (arguments : List Source)

/-- The reference that a source is, if it is one. What the inner call refers to belongs to the
exemplar of that call. -/
def Source.references (place : String → List Source → Place) : Source → List (Place × ExemplarId)
  | .constant _ => []
  | .nested id callee arguments => [(place callee arguments, id)]

def Instruction.references : Instruction → List (Place × ExemplarId)
  | .launch _ => []
  | .goto _ => []
  | .set _ value => value.references (.value .set)
  | .shared _ value => value.references (.value .shared)
  | .call _ arguments => arguments.flatMap (Source.references .argument)

/-- All references of a body, place by place. -/
def Content.references (content : Content) : List (Place × ExemplarId) :=
  content.machines.map (fun entry => (.machine entry.1, entry.2))
    ++ content.functions.map (fun entry => (.function entry.1, entry.2))
    ++ content.handlers.map (fun id => (.handler, id))
    ++ content.instructions.flatMap Instruction.references

/-- A reference from one exemplar to another. -/
structure Link where
  owner : ExemplarId
  place : Place
  target : ExemplarId

def Link.of (owner : ExemplarId) (reference : Place × ExemplarId) : Link :=
  ⟨owner, reference.1, reference.2⟩

namespace Program

/-- The references of one exemplar. -/
def linksOf (program : Program) (owner : ExemplarId) : List Link :=
  (program.exemplar owner).content.references.map (Link.of owner)

/-- The references of so many exemplars from a number on. -/
def linksFrom (program : Program) (next count : Nat) : List Link :=
  (List.range' next count).flatMap program.linksOf

/-- All references between the exemplars of a program. -/
def links (program : Program) : List Link :=
  program.linksFrom root program.exemplars.size

end Program

/-! ## Ownership -/

/-- An exemplar may stand in a place of its owner: it is of a construct that belongs there and that
the owner allows, it has the name under which it is filed, and an inline call is its only
instruction. -/
def Place.Suits (owner target : Exemplar) : Place → Prop
  | .machine name => target.name = name
      ∧ (target.construct = .machine ∧ Keyword.machine.allowedIn owner.construct
        ∨ target.construct = .state ∧ Keyword.state.allowedIn owner.construct)
  | .function name => target.name = name ∧ target.construct = .function
      ∧ (if target.isPure then Keyword.defun else Keyword.defum).allowedIn owner.construct
  | .handler => target.construct = .handler ∧ Keyword.on.allowedIn owner.construct
  | .value assignment callee arguments => target.construct = .assigned
      ∧ assignment.keyword.allowedIn owner.construct
      ∧ target.instructions = [.call callee arguments]
  | .argument callee arguments => target.construct = .argument
      ∧ target.instructions = [.call callee arguments]

/-- A reference leads from a parent to a child with a greater number, from a place that suits. -/
structure Link.Holds (link : Link) (program : Program) : Prop where
  before : link.owner < link.target
  parent : (program.exemplar link.target).parent = some link.owner
  suits : link.place.Suits (program.exemplar link.owner) (program.exemplar link.target)

/-- No two machines or states of a body are filed under one name, and no two functions are. -/
structure Content.Keyed (content : Content) : Prop where
  machines : (content.machines.map Prod.fst).Nodup
  functions : (content.functions.map Prod.fst).Nodup

/-- The exemplars of a program are a tree. Every number that is stored has been given out. The top
exemplar is nobody's; every other one is referred to once, by its parent, which has a smaller number
and a suitable place for it. From each exemplar the parents lead up to the top, and there is none
above that. -/
structure Program.IsTree (program : Program) : Prop where
  inRange : ∀ link ∈ program.links, link.target < program.exemplars.size
  keyed : ∀ id < program.exemplars.size, (program.exemplar id).content.Keyed
  top : root < program.exemplars.size ∧ (program.exemplar root).construct = .root
    ∧ (program.exemplar root).parent = none ∧ ∀ link ∈ program.links, link.target ≠ root
  owned : ∀ id < program.exemplars.size, id ≠ root → ∃ link : Link, link.target = id
    ∧ program.links.filter (fun other => other.target = id) = [link] ∧ link.Holds program
  ancestors : ∀ id < program.exemplars.size,
    (id :: program.ancestors id).IsChain
        (fun child parent => (program.exemplar child).parent = some parent)
      ∧ (id :: program.ancestors id).getLast? = some root

/-! ## Stretches of exemplars -/

namespace Program

variable {program : Program} {next count : Nat}

theorem linksFrom_succ (program : Program) (next count : Nat) :
    program.linksFrom next (count + 1)
      = program.linksOf next ++ program.linksFrom (next + 1) count := by
  simp only [linksFrom, List.range'_succ, List.flatMap_cons]

theorem linksFrom_append (program : Program) (next first second : Nat) :
    program.linksFrom next (first + second)
      = program.linksFrom next first ++ program.linksFrom (next + first) second := by
  simp only [linksFrom, ← List.range'_append_1, List.flatMap_append]

/-- Some references of a parent, and those of the exemplars of a stretch: they lead once to each
exemplar of the stretch and nowhere else, and each of them holds. -/
structure Accounts (program : Program) (parent : ExemplarId)
    (references : List (Place × ExemplarId)) (next count : Nat) : Prop where
  targets : ((references.map (Link.of parent) ++ program.linksFrom next count).map
    Link.target).Perm (List.range' next count)
  holds : ∀ link ∈ references.map (Link.of parent) ++ program.linksFrom next count,
    link.Holds program
  keyed : ∀ id, next ≤ id → id < next + count → (program.exemplar id).content.Keyed

theorem Accounts.zero (program : Program) (parent : ExemplarId) (next : Nat) :
    program.Accounts parent [] next 0 := by
  refine ⟨List.Perm.refl _, nofun, ?_⟩
  intro id above below
  omega

theorem Accounts.perm {parent : ExemplarId} {references others : List (Place × ExemplarId)}
    (accounts : program.Accounts parent references next count)
    (same : others.Perm references) : program.Accounts parent others next count := by
  have order := (same.map (Link.of parent)).append_right (program.linksFrom next count)
  refine ⟨(order.map Link.target).trans accounts.targets, ?_, accounts.keyed⟩
  intro link member
  exact accounts.holds link (order.mem_iff.mp member)

/-- Two stretches that follow each other are one. -/
theorem Accounts.append {parent : ExemplarId} {first second : List (Place × ExemplarId)}
    {front back : Nat} (left : program.Accounts parent first next front)
    (right : program.Accounts parent second (next + front) back) :
    program.Accounts parent (first ++ second) next (front + back) := by
  have order : ((first ++ second).map (Link.of parent)
      ++ program.linksFrom next (front + back)).Perm
      ((first.map (Link.of parent) ++ program.linksFrom next front)
        ++ (second.map (Link.of parent) ++ program.linksFrom (next + front) back)) := by
    rw [linksFrom_append, List.map_append]
    simp only [List.append_assoc]
    apply List.Perm.append_left
    simp only [← List.append_assoc]
    exact List.perm_append_comm.append_right _
  refine ⟨?_, ?_, ?_⟩
  · rw [← List.range'_append_1]
    refine (order.map Link.target).trans ?_
    rw [List.map_append]
    exact left.targets.append right.targets
  · intro link member
    rcases List.mem_append.mp (order.mem_iff.mp member) with inFront | inBack
    · exact left.holds link inFront
    · exact right.holds link inBack
  · intro id above below
    by_cases inFront : id < next + front
    · exact left.keyed id above inFront
    · exact right.keyed id (by omega) (by omega)

/-- An exemplar in front of the stretch that it accounts for, with a reference to itself. -/
theorem Accounts.enter {parent : ExemplarId} {place : Place}
    (inner : program.Accounts next (program.exemplar next).content.references (next + 1) count)
    (keyed : (program.exemplar next).content.Keyed)
    (holds : Link.Holds ⟨parent, place, next⟩ program) :
    program.Accounts parent [(place, next)] next (count + 1) := by
  have same : [(place, next)].map (Link.of parent) ++ program.linksFrom next (count + 1)
      = ⟨parent, place, next⟩
        :: ((program.exemplar next).content.references.map (Link.of next)
          ++ program.linksFrom (next + 1) count) := by
    rw [linksFrom_succ]
    rfl
  refine ⟨?_, ?_, ?_⟩
  · rw [same, List.map_cons, List.range'_succ]
    exact inner.targets.cons next
  · rw [same]
    exact List.forall_mem_cons.mpr ⟨holds, inner.holds⟩
  · intro id above below
    by_cases first : id = next
    · rw [first]
      exact keyed
    · exact inner.keyed id (by omega) (by omega)

end Program

/-! ## Values -/

mutual

/-- The source of a value refers to the exemplar of its call, which accounts for those inside. -/
theorem Expr.lower_accounts (program : Program) {parent next : Nat} {construct : Construct}
    (place : String → List Source → Place) (value : Expr)
    (covers : program.Covers next (value.lower parent next construct).2) (before : parent < next)
    (suits : ∀ callee arguments (target : Exemplar), target.construct = construct →
      target.instructions = [.call callee arguments] →
      (place callee arguments).Suits (program.exemplar parent) target) :
    program.Accounts parent ((value.lower parent next construct).1.references place) next
      (value.lower parent next construct).2.length :=
  match value with
  | .constant _ => Program.Accounts.zero program parent next
  | .call offset callee values => by
      obtain ⟨first, rest⟩ := covers
      have inner := Expr.lowerAll_accounts program values rest (Nat.lt_succ_self next)
      have only : (program.exemplar next).content.references
          = (Expr.lowerAll next (next + 1) values).1.flatMap (Source.references .argument) := by
        rw [first]
        exact List.append_nil _
      rw [← only] at inner
      refine inner.enter ?_ ⟨before, ?_, ?_⟩
      · rw [first]
        exact ⟨List.nodup_nil, List.nodup_nil⟩
      · rw [first]
      · apply suits <;> rw [first]

theorem Expr.lowerAll_accounts (program : Program) {parent next : Nat} (values : List Expr)
    (covers : program.Covers next (Expr.lowerAll parent next values).2) (before : parent < next) :
    program.Accounts parent
      ((Expr.lowerAll parent next values).1.flatMap (Source.references .argument)) next
      (Expr.lowerAll parent next values).2.length :=
  match values with
  | [] => Program.Accounts.zero program parent next
  | value :: rest => by
      obtain ⟨front, back⟩ := Program.covers_append.mp covers
      simp only [Expr.lowerAll, List.length_append, List.flatMap_cons]
      exact (Expr.lower_accounts program .argument value front before
        fun _ _ _ isArgument call => ⟨isArgument, call⟩).append
        (Expr.lowerAll_accounts program rest back (Nat.lt_add_right _ before))

end

/-! ## Bodies -/

/-- The place in which a definition is filed. -/
def Head.place : Head → Place
  | .machine name => .machine name
  | .state name => .machine name
  | .handler _ _ => .handler
  | .function _ name _ => .function name

theorem Content.references_instruction (content : Content) (instruction : Instruction) :
    { content with instructions := instruction :: content.instructions }.references.Perm
      (instruction.references ++ content.references) := by
  simp only [references, List.flatMap_cons]
  exact List.perm_append_comm_assoc _ _ _

theorem Content.references_define (content : Content) (head : Head) (id : ExemplarId) :
    (content.define head id).references.Perm ((head.place, id) :: content.references) := by
  cases head with
  | machine name => exact List.Perm.refl _
  | state name => exact List.Perm.refl _
  | handler condition argument =>
      simp only [define, references, Head.place, List.map_cons, List.append_assoc,
        List.cons_append]
      rw [← List.append_assoc, ← List.append_assoc]
      exact List.perm_middle
  | function isPure name parameters =>
      simp only [define, references, Head.place, List.map_cons, List.append_assoc,
        List.cons_append]
      exact List.perm_middle

/-- A definition suits the place in which it is filed, where the grammar allows it. -/
theorem Grammar.Defines.suits {owner : Form.Owner} {head : Head} (defines : Defines owner head)
    {parent : Exemplar} (isOwner : parent.construct = owner.construct) (id : ExemplarId)
    (offset : Nat) (content : Content) :
    head.place.Suits parent (head.exemplar id offset content) := by
  have allowed (keyword : Keyword) (listed : owner.construct ∈ keyword.containers) :
      keyword.allowedIn parent.construct = true := by
    rw [isOwner]
    exact keyword.allowedIn_iff_mem.mpr listed
  cases defines with
  | machine container => exact ⟨rfl, .inl ⟨rfl, allowed .machine container⟩⟩
  | state container => exact ⟨rfl, .inr ⟨rfl, allowed .state container⟩⟩
  | handler container => exact ⟨rfl, allowed .on (List.mem_singleton.mpr container)⟩
  | @function isPure _ _ container =>
      refine ⟨rfl, rfl, ?_⟩
      cases isPure with
      | true => exact allowed .defun container
      | false => exact allowed .defum container

/-- The names under which a form is filed come in front of those of the rest. -/
theorem Form.lower_keys (form : Form) (parent next : ExemplarId) (content : Content) :
    ((form.lower parent next).1 content).machines.map Prod.fst
        = form.machineName?.toList ++ content.machines.map Prod.fst
      ∧ ((form.lower parent next).1 content).functions.map Prod.fst
        = form.functionName?.toList ++ content.functions.map Prod.fst := by
  cases form with
  | empty | require | step => exact ⟨rfl, rfl⟩
  | define offset head body => cases head <;> exact ⟨rfl, rfl⟩

theorem Form.lowerAll_keys (forms : List Form) (parent next : ExemplarId) :
    (Form.lowerAll parent next forms).1.machines.map Prod.fst = forms.filterMap Form.machineName?
      ∧ (Form.lowerAll parent next forms).1.functions.map Prod.fst
        = forms.filterMap Form.functionName? := by
  induction forms generalizing next with
  | nil => exact ⟨rfl, rfl⟩
  | cons form rest inductionHypothesis =>
      obtain ⟨machines, functions⟩ := inductionHypothesis (next + (form.lower parent next).2.length)
      obtain ⟨machine, function⟩ := form.lower_keys parent next
        (Form.lowerAll parent (next + (form.lower parent next).2.length) rest).1
      rw [machines] at machine
      rw [functions] at function
      rw [filterMap_cons_eq, filterMap_cons_eq]
      exact ⟨machine, function⟩

theorem Grammar.Distinct.keyed {forms : List Form} (distinct : Distinct forms)
    (parent next : ExemplarId) : (Form.lowerAll parent next forms).1.Keyed := by
  obtain ⟨machines, functions⟩ := Form.lowerAll_keys forms parent next
  constructor
  · rw [machines]
    exact distinct.machines
  · rw [functions]
    exact distinct.functions

mutual

/-- A form adds references to the content of its owner, which account for its exemplars. -/
theorem Form.lower_accounts {program : Program} {libraries : List String} {owner : Form.Owner}
    {form : Form} {tokens : List Token} : DerivesForm libraries owner form tokens →
    ∀ {parent next : Nat}, program.Covers next (form.lower parent next).2 → parent < next →
      (program.exemplar parent).construct = owner.construct →
      ∃ references, program.Accounts parent references next (form.lower parent next).2.length
        ∧ ∀ content : Content, ((form.lower parent next).1 content).references.Perm
          (references ++ content.references)
  | .empty _ _ _, parent, next, _, _, _ => ⟨[], .zero program parent next, fun _ => .refl _⟩
  | .require _ _ _ _ _ _, parent, next, _, _, _ =>
      ⟨[], .zero program parent next, fun _ => .refl _⟩
  | .launch _ _ _ _ _ _, parent, next, _, _, _ =>
      ⟨[], .zero program parent next, fun content => content.references_instruction _⟩
  | .goto _ _ _ _ _ _, parent, next, _, _, _ =>
      ⟨[], .zero program parent next, fun content => content.references_instruction _⟩
  | .call _ _ _ _ _ _, parent, next, covers, before, _ =>
      ⟨_, Expr.lowerAll_accounts program _ covers before,
        fun content => content.references_instruction _⟩
  | .set _ _ _ _ container _ _, parent, next, covers, before, isOwner =>
      ⟨_, Expr.lower_accounts program (.value .set) _ covers before
        fun _ _ _ isAssigned call => ⟨isAssigned, by
          rw [isOwner]
          exact (Keyword.allowedIn_iff_mem .set).mpr container, call⟩,
        fun content => content.references_instruction _⟩
  | .shared _ _ _ _ container _ _, parent, next, covers, before, isOwner =>
      ⟨_, Expr.lower_accounts program (.value .shared) _ covers before
        fun _ _ _ isAssigned call => ⟨isAssigned, by
          rw [isOwner, container]
          rfl, call⟩,
        fun content => content.references_instruction _⟩
  | @DerivesForm.define _ _ head body _ _ _ _ container _ _ distinct forms, parent, next, covers,
      before, isOwner => by
      obtain ⟨first, rest⟩ := covers
      have construct : (program.exemplar next).construct = head.construct := by rw [first]; rfl
      have inner := Form.lowerAll_accounts forms rest (Nat.lt_succ_self next) construct
      have content : (program.exemplar next).content
          = (Form.lowerAll next (next + 1) body).1 := by rw [first]; rfl
      rw [← content] at inner
      refine ⟨[(head.place, next)], inner.enter ?_ ⟨before, ?_, ?_⟩, fun outer => ?_⟩
      · rw [content]
        exact distinct.keyed next (next + 1)
      · rw [first]
        rfl
      · rw [first]
        exact container.suits isOwner _ _ _
      · exact outer.references_define head next

theorem Form.lowerAll_accounts {program : Program} {libraries : List String} {owner : Form.Owner}
    {forms : List Form} {tokens : List Token} : DerivesForms libraries owner forms tokens →
    ∀ {parent next : Nat}, program.Covers next (Form.lowerAll parent next forms).2 →
      parent < next → (program.exemplar parent).construct = owner.construct →
      program.Accounts parent (Form.lowerAll parent next forms).1.references next
        (Form.lowerAll parent next forms).2.length
  | .none _, parent, next, _, _, _ => .zero program parent next
  | .more head tail, parent, next, covers, before, isOwner => by
      obtain ⟨front, back⟩ := Program.covers_append.mp covers
      obtain ⟨references, first, place⟩ := Form.lower_accounts head front before isOwner
      have others := Form.lowerAll_accounts tail back (Nat.lt_add_right _ before) isOwner
      simp only [Form.lowerAll, List.length_append]
      exact (first.append others).perm (place _)

end

/-! ## Programs -/

/-- Where values under a key are distinct, an item is the only one with its key. -/
theorem filter_eq_singleton {α κ : Type} [DecidableEq κ] {items : List α} {key : α → κ} {item : α}
    (distinct : (items.map key).Nodup) (member : item ∈ items) :
    items.filter (fun other => key other = key item) = [item] := by
  induction items with
  | nil => cases member
  | cons first rest inductionHypothesis =>
      rw [List.map_cons, List.nodup_cons] at distinct
      obtain ⟨absent, distinct⟩ := distinct
      by_cases same : key first = key item
      · have isFirst : item = first := by
          rcases List.mem_cons.mp member with isFirst | isRest
          · exact isFirst
          · exact absurd (List.mem_map.mpr ⟨item, isRest, same.symm⟩) absent
        rw [List.filter_cons_of_pos (by simpa using same), isFirst]
        rw [List.filter_eq_nil_iff.mpr]
        intro other there
        rw [decide_eq_true_iff]
        intro again
        exact absent (List.mem_map.mpr ⟨other, there, again⟩)
      · have isRest : item ∈ rest := by
          rcases List.mem_cons.mp member with isFirst | isRest
          · exact absurd (congrArg key isFirst).symm same
          · exact isRest
        rw [List.filter_cons_of_neg (by simpa using same)]
        exact inductionHypothesis distinct isRest

namespace Program

variable {program : Program}

/-- Where every exemplar but the top one has a parent with a smaller number, enough fuel leads from
each exemplar up to the top. -/
theorem ancestorsWithin_isChain
    (top : (program.exemplar root).parent = none)
    (below : ∀ id < program.exemplars.size, id ≠ root →
      ∃ owner < id, (program.exemplar id).parent = some owner) (fuel : Nat) {id : Nat}
    (enough : id ≤ fuel) (inside : id < program.exemplars.size) :
    (id :: program.ancestorsWithin fuel id).IsChain
        (fun child parent => (program.exemplar child).parent = some parent)
      ∧ (id :: program.ancestorsWithin fuel id).getLast? = some root := by
  induction fuel generalizing id with
  | zero =>
      have isRoot : id = root := Nat.le_zero.mp enough
      rw [isRoot]
      exact ⟨List.IsChain.singleton _, rfl⟩
  | succ fuel inductionHypothesis =>
      by_cases isRoot : id = root
      · rw [isRoot, ancestorsWithin, top]
        exact ⟨List.IsChain.singleton _, rfl⟩
      · obtain ⟨owner, before, parent⟩ := below id inside isRoot
        have lower : owner ≤ fuel := by omega
        obtain ⟨chain, last⟩ := inductionHypothesis lower (by omega)
        rw [ancestorsWithin, parent]
        refine ⟨List.isChain_cons_cons.mpr ⟨parent, chain⟩, ?_⟩
        rw [List.getLast?_cons_cons]
        exact last

/-- Enough fuel is as good as more. -/
theorem ancestorsWithin_eq (placed : program.Placed) {fuel other : Nat} {id : ExemplarId}
    (enough : id ≤ fuel) (enoughToo : id ≤ other) :
    program.ancestorsWithin fuel id = program.ancestorsWithin other id := by
  induction fuel generalizing other id with
  | zero =>
      cases other with
      | zero => rfl
      | succ other =>
          cases Nat.le_zero.mp enough
          cases parent : (program.exemplar 0).parent with
          | none => simp only [ancestorsWithin, parent]
          | some owner => exact absurd (placed.parent 0 owner parent) (Nat.not_lt_zero _)
  | succ fuel inductionHypothesis =>
      cases parent : (program.exemplar id).parent with
      | none => cases other <;> simp only [ancestorsWithin, parent]
      | some owner =>
          have before := placed.parent id owner parent
          cases other with
          | zero => exact absurd (Nat.lt_of_lt_of_le before enoughToo) (Nat.not_lt_zero _)
          | succ other =>
              have same : program.ancestorsWithin fuel owner
                  = program.ancestorsWithin other owner :=
                inductionHypothesis (Nat.le_of_lt_succ (Nat.lt_of_lt_of_le before enough))
                  (Nat.le_of_lt_succ (Nat.lt_of_lt_of_le before enoughToo))
              simp only [ancestorsWithin, parent, same]

/-- The exemplars around a child are its parent and those around that. -/
theorem ancestors_of_parent (placed : program.Placed) {id owner : ExemplarId}
    (parent : (program.exemplar id).parent = some owner) :
    program.ancestors id = owner :: program.ancestors owner := by
  have before := placed.parent id owner parent
  unfold ancestors
  cases id with
  | zero => exact absurd before (Nat.not_lt_zero _)
  | succ fuel =>
      simp only [ancestorsWithin, parent]
      rw [ancestorsWithin_eq placed (Nat.le_of_lt_succ before) (Nat.le_refl owner)]

/-- Where the references lead once to each exemplar but the top one, each of those is referred to by
one link. -/
theorem owned_of_targets {count : Nat}
    (targets : (program.links.map Link.target).Perm (List.range' 1 count))
    (holds : ∀ link ∈ program.links, link.Holds program) {id : Nat}
    (inside : id < 1 + count) (notRoot : id ≠ root) : ∃ link : Link, link.target = id
      ∧ program.links.filter (fun other => other.target = id) = [link] ∧ link.Holds program := by
  have positive : id ≠ 0 := notRoot
  have listed : id ∈ program.links.map Link.target :=
    targets.mem_iff.mpr (List.mem_range'_1.mpr ⟨by omega, inside⟩)
  obtain ⟨link, member, rfl⟩ := List.mem_map.mp listed
  have once := targets.nodup_iff.mpr List.nodup_range'
  exact ⟨link, rfl, filter_eq_singleton once member, holds link member⟩

/-- A program whose top exemplar accounts for all others is a tree. -/
theorem Accounts.isTree {count : Nat}
    (accounts : program.Accounts root (program.exemplar root).content.references 1 count)
    (size : program.exemplars.size = count + 1)
    (construct : (program.exemplar root).construct = .root)
    (parent : (program.exemplar root).parent = none)
    (keyed : (program.exemplar root).content.Keyed) : program.IsTree := by
  have links : program.links = (program.exemplar root).content.references.map (Link.of root)
      ++ program.linksFrom 1 count := by
    rw [Program.links, size, linksFrom_succ]
    rfl
  rw [Nat.add_comm] at size
  have targets : (program.links.map Link.target).Perm (List.range' 1 count) := by
    rw [links]
    exact accounts.targets
  have holds : ∀ link ∈ program.links, link.Holds program := by
    rw [links]
    exact accounts.holds
  have range : ∀ link ∈ program.links, 1 ≤ link.target ∧ link.target < 1 + count := by
    intro link member
    exact List.mem_range'_1.mp (targets.mem_iff.mp (List.mem_map_of_mem member))
  have owned : ∀ id < program.exemplars.size, id ≠ root → ∃ link : Link, link.target = id
      ∧ program.links.filter (fun other => other.target = id) = [link] ∧ link.Holds program := by
    rw [size]
    exact fun id inside notRoot => owned_of_targets targets holds inside notRoot
  refine ⟨?_, ?_, ⟨?_, construct, parent, ?_⟩, owned, ?_⟩
  · rw [size]
    exact fun link member => (range link member).2
  · intro id inside
    by_cases isRoot : id = root
    · rw [isRoot]
      exact keyed
    · have positive : id ≠ 0 := isRoot
      exact accounts.keyed id (by omega) (by omega)
  · show 0 < program.exemplars.size
    omega
  · exact fun link member => Nat.ne_of_gt (range link member).1
  · intro id inside
    refine ancestorsWithin_isChain parent ?_ id (Nat.le_refl id) inside
    intro child there notRoot
    obtain ⟨link, rfl, _, held⟩ := owned child there notRoot
    exact ⟨link.owner, held.before, held.parent⟩

end Program

/-- The exemplars of derived forms are a tree. -/
theorem Program.ofForms_isTree {libraries : List String} {forms : List Form} {tokens : List Token}
    (interner : Interner) (distinct : Distinct forms)
    (derived : DerivesForms libraries Form.Owner.root forms tokens) :
    (Program.ofForms interner forms).IsTree := by
  let program := Program.ofForms interner forms
  have inner := Form.lowerAll_accounts derived (Program.covers_ofForms interner forms)
    (Nat.lt_succ_self Program.root) rfl
  exact inner.isTree rfl rfl rfl (distinct.keyed Program.root (Program.root + 1))

/-- What runs rely on: the contents of exemplars are where they may be, and the exemplars are a
tree. -/
structure Program.WellFormed (program : Program) : Prop where
  placed : program.Placed
  tree : program.IsTree

theorem Tape.wellFormed_of_compile {options : CompileOptions} {tape : Tape}
    {compilation : Compilation} (compiled : tape.compile options = .ok compilation) :
    compilation.program.WellFormed where
  placed := Tape.compile_placed compiled
  tree := by
    obtain ⟨forms, read, rfl⟩ := Tape.compile_eq_ok_iff.mp compiled
    obtain ⟨distinct, derived⟩ := Tape.forms_eq_ok_iff.mp read
    exact Program.ofForms_isTree tape.interner distinct derived

/-- The exemplars of a compiled program are a tree, and each stands where the grammar allows it. -/
theorem Tape.compile_isTree {options : CompileOptions} {tape : Tape} {compilation : Compilation}
    (compiled : tape.compile options = .ok compilation) : compilation.program.IsTree :=
  (Tape.wellFormed_of_compile compiled).tree

open Token (word bracketed) in
/-- The tape of `(set g (f (h 1))) (machine m (shared s (f 2)) (state main
(on always 0 (goto main)) (state inner)) (defum f (x) (set y x)))`. -/
def Tape.everyPlace : Tape :=
  Tape.ofTokens .empty
    (bracketed 0
        ([word "set" 1, word "g" 5]
          ++ bracketed 7
            (word "f" 8 :: bracketed 10 [word "h" 11, ⟨.constant (.int 1), 13⟩] 14) 15)
        16
      ++ bracketed 18
        ([word "machine" 19, word "m" 27]
          ++ bracketed 29
            ([word "shared" 30, word "s" 37]
              ++ bracketed 39 [word "f" 40, ⟨.constant (.int 2), 42⟩] 43)
            44
          ++ bracketed 46
            ([word "state" 47, word "main" 53]
              ++ bracketed 58
                ([word "on" 59, word "always" 62, ⟨.constant (.int 0), 69⟩]
                  ++ bracketed 71 [word "goto" 72, word "main" 77] 81)
                82
              ++ bracketed 84 [word "state" 85, word "inner" 91] 96)
            97
          ++ bracketed 99
            ([word "defum" 100, word "f" 106] ++ bracketed 108 [word "x" 109] 110
              ++ bracketed 112 [word "set" 113, word "y" 117, word "x" 119] 120)
            121)
        122)

theorem Tape.compile_isTree_everyPlace :
    ∃ compilation, Tape.everyPlace.compile {} = .ok compilation
      ∧ compilation.program.exemplars.size = 9
      ∧ compilation.program.links.map Link.target = [3, 1, 2, 5, 8, 4, 7, 6]
      ∧ compilation.program.ancestors 6 = [5, 3, Program.root]
      ∧ compilation.program.IsTree := by
  have compiled : Tape.everyPlace.compile {} = .ok _ := rfl
  exact ⟨_, compiled, rfl, rfl, rfl, Tape.compile_isTree compiled⟩

end MachineScript
