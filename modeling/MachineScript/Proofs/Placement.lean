import MachineScript.Proofs.Grammar.Completeness
import MachineScript.Proofs.Table

/-!
Contract: what the rules of the grammar make of a compiled program.

Owns: parents that are numbered before their children, tables that name the
exemplars they own, and which constructs hold transitions and shared variables.

Does not own: that no exemplar is lost, and how a program runs.
-/

namespace MachineScript

open Grammar

def Exemplar.content (exemplar : Exemplar) : Content :=
  { instructions := exemplar.instructions
    machines := exemplar.machines
    functions := exemplar.functions
    handlers := exemplar.handlers }

/-- The content of an exemplar of a construct keeps to the grammar. -/
structure Content.Fits (content : Content) (program : Program) (owner : ExemplarId)
    (construct : Construct) : Prop where
  goto : ∀ target, .goto target ∈ content.instructions → construct.suspends = true
  shared : ∀ name value, .shared name value ∈ content.instructions → construct = .machine
  machines : ∀ entry ∈ content.machines, (program.exemplar entry.2).parent = some owner
  functions : ∀ entry ∈ content.functions, (program.exemplar entry.2).construct = .function
  handlers : ∀ handler ∈ content.handlers, (program.exemplar handler).construct = .handler

/-- The content of every exemplar keeps to the grammar, and parents come before their children. -/
structure Program.Placed (program : Program) : Prop where
  root : (program.exemplar Program.root).construct = .root
  parent : ∀ id owner, (program.exemplar id).parent = some owner → owner < id
  content : ∀ id, (program.exemplar id).content.Fits program id (program.exemplar id).construct

/-! ## Content -/

section

variable {program : Program} {owner : ExemplarId} {construct : Construct} {content : Content}

theorem Content.Fits.empty (program : Program) (owner : ExemplarId) (construct : Construct) :
    ({} : Content).Fits program owner construct := by
  constructor <;> simp

theorem Content.Fits.instruction (fits : content.Fits program owner construct)
    {instruction : Instruction}
    (goto : ∀ target, instruction = .goto target → construct.suspends = true)
    (shared : ∀ name value, instruction = .shared name value → construct = .machine) :
    { content with instructions := instruction :: content.instructions }.Fits program owner
      construct where
  goto := by
    intro target member
    rcases List.mem_cons.mp member with same | others
    · exact goto target same.symm
    · exact fits.goto target others
  shared := by
    intro name value member
    rcases List.mem_cons.mp member with same | others
    · exact shared name value same.symm
    · exact fits.shared name value others
  machines := fits.machines
  functions := fits.functions
  handlers := fits.handlers

theorem Content.Fits.define (fits : content.Fits program owner construct) (head : Head)
    {id : ExemplarId} (parent : (program.exemplar id).parent = some owner)
    (opens : (program.exemplar id).construct = head.construct) :
    (content.define head id).Fits program owner construct := by
  cases head with
  | machine name | state name =>
      refine ⟨fits.goto, fits.shared, ?_, fits.functions, fits.handlers⟩
      exact List.forall_mem_cons.mpr ⟨parent, fits.machines⟩
  | handler condition argument =>
      refine ⟨fits.goto, fits.shared, fits.machines, fits.functions, ?_⟩
      exact List.forall_mem_cons.mpr ⟨opens, fits.handlers⟩
  | function isPure name parameters =>
      refine ⟨fits.goto, fits.shared, fits.machines, ?_, fits.handlers⟩
      exact List.forall_mem_cons.mpr ⟨opens, fits.functions⟩

end

namespace Program

/-! ## Stretches of exemplars -/

/-- The exemplars of a program from a number on. -/
def Covers (program : Program) : (next : Nat) → List Exemplar → Prop
  | _, [] => True
  | next, exemplar :: rest => program.exemplar next = exemplar ∧ program.Covers (next + 1) rest

theorem covers_append {program : Program} {first second : List Exemplar} :
    ∀ {next : Nat}, program.Covers next (first ++ second)
      ↔ program.Covers next first ∧ program.Covers (next + first.length) second := by
  induction first with
  | nil => simp [Covers]
  | cons exemplar rest inductionHypothesis =>
      intro next
      have behind : next + 1 + rest.length = next + (exemplar :: rest).length := by
        rw [List.length_cons]
        omega
      simp only [List.cons_append, Covers, inductionHypothesis, behind, and_assoc]

theorem covers_of_getElem? {program : Program} {segment : List Exemplar} :
    ∀ {next : Nat},
      (∀ index exemplar, segment[index]? = some exemplar →
        program.exemplar (next + index) = exemplar) →
      program.Covers next segment := by
  induction segment with
  | nil => intros; trivial
  | cons exemplar rest inductionHypothesis =>
      intro next found
      refine ⟨found 0 exemplar rfl, inductionHypothesis ?_⟩
      intro index other there
      rw [Nat.add_assoc, Nat.add_comm 1 index]
      exact found (index + 1) other there

/-- An exemplar below another one whose content keeps to the grammar. -/
structure PlacedAt (program : Program) (id : Nat) : Prop where
  parent : ∃ owner, (program.exemplar id).parent = some owner ∧ owner < id
  content : (program.exemplar id).content.Fits program id (program.exemplar id).construct

/-- So many exemplars from a number on are in their place. -/
def PlacedFrom (program : Program) (next count : Nat) : Prop :=
  ∀ id, next ≤ id → id < next + count → program.PlacedAt id

theorem placedFrom_zero (program : Program) (next : Nat) : program.PlacedFrom next 0 := by
  intro id above below
  omega

theorem PlacedFrom.append {program : Program} {next first second : Nat}
    (front : program.PlacedFrom next first) (back : program.PlacedFrom (next + first) second) :
    program.PlacedFrom next (first + second) := by
  intro id above below
  by_cases inFront : id < next + first
  · exact front id above inFront
  · exact back id (by omega) (by omega)

theorem PlacedAt.cons {program : Program} {next count : Nat} (first : program.PlacedAt next)
    (rest : program.PlacedFrom (next + 1) count) : program.PlacedFrom next (count + 1) := by
  intro id above below
  by_cases same : id = next
  · rw [same]
    exact first
  · exact rest id (by omega) (by omega)

end Program

/-! ## Values -/

mutual

theorem Expr.lower_placed (program : Program) {parent next : Nat} (construct : Construct)
    (value : Expr) (covers : program.Covers next (value.lower parent next construct).2)
    (before : parent < next) :
    program.PlacedFrom next (value.lower parent next construct).2.length :=
  match value with
  | .constant _ => program.placedFrom_zero next
  | .call offset callee values => by
      obtain ⟨first, rest⟩ := covers
      refine Program.PlacedAt.cons ⟨?_, ?_⟩ (Expr.lowerAll_placed program values rest
        (Nat.lt_succ_self next))
      · rw [first]
        exact ⟨parent, rfl, before⟩
      · rw [first]
        exact (Content.Fits.empty program next construct).instruction nofun nofun

theorem Expr.lowerAll_placed (program : Program) {parent next : Nat} (values : List Expr)
    (covers : program.Covers next (Expr.lowerAll parent next values).2) (before : parent < next) :
    program.PlacedFrom next (Expr.lowerAll parent next values).2.length :=
  match values with
  | [] => program.placedFrom_zero next
  | value :: rest => by
      obtain ⟨front, back⟩ := Program.covers_append.mp covers
      simp only [Expr.lowerAll, List.length_append]
      exact (Expr.lower_placed program .argument value front before).append
        (Expr.lowerAll_placed program rest back (Nat.lt_add_right _ before))

end

/-! ## Forms -/

mutual

/-- A form puts its part into the content of its owner, and its exemplars into their places. -/
theorem Form.lower_placed {program : Program} {libraries : List String} {owner : Form.Owner}
    {form : Form} {tokens : List Token} : DerivesForm libraries owner form tokens →
    ∀ {parent next : Nat}, program.Covers next (form.lower parent next).2 → parent < next →
      program.PlacedFrom next (form.lower parent next).2.length
        ∧ ∀ content : Content, content.Fits program parent owner.construct →
          ((form.lower parent next).1 content).Fits program parent owner.construct
  | .empty _ _ _, parent, next, _, _ => ⟨program.placedFrom_zero next, fun _ fits => fits⟩
  | .require _ _ _ _ _ _, parent, next, _, _ =>
      ⟨program.placedFrom_zero next, fun _ fits => fits⟩
  | .call _ _ _ _ _ _, parent, next, covers, before =>
      ⟨Expr.lowerAll_placed program _ covers before, fun _ fits => fits.instruction nofun nofun⟩
  | .launch _ _ _ _ _ _, parent, next, _, _ =>
      ⟨program.placedFrom_zero next, fun _ fits => fits.instruction nofun nofun⟩
  | .goto _ _ _ _ container _, parent, next, _, _ => by
      refine ⟨program.placedFrom_zero next, fun _ fits => fits.instruction ?_ nofun⟩
      intro _ _
      simp only [List.mem_cons, List.not_mem_nil, or_false] at container
      rcases container with isState | isHandler
      · rw [isState]
        rfl
      · rw [isHandler]
        rfl
  | .set _ _ _ _ _ _ _, parent, next, covers, before =>
      ⟨Expr.lower_placed program .assigned _ covers before,
        fun _ fits => fits.instruction nofun nofun⟩
  | .shared _ _ _ _ container _ _, parent, next, covers, before =>
      ⟨Expr.lower_placed program .assigned _ covers before,
        fun _ fits => fits.instruction nofun fun _ _ _ => container⟩
  | @DerivesForm.define _ _ head body _ _ _ _ _ _ _ _ forms, parent, next, covers, before => by
      obtain ⟨first, rest⟩ := covers
      obtain ⟨inner, content⟩ := Form.lowerAll_placed forms rest (Nat.lt_succ_self next)
      refine ⟨Program.PlacedAt.cons ⟨?_, ?_⟩ inner, fun _ fits => fits.define head ?_ ?_⟩
      · rw [first]
        exact ⟨parent, rfl, before⟩
      · rw [first]
        exact content
      · rw [first]
        rfl
      · rw [first]
        rfl

theorem Form.lowerAll_placed {program : Program} {libraries : List String} {owner : Form.Owner}
    {forms : List Form} {tokens : List Token} : DerivesForms libraries owner forms tokens →
    ∀ {parent next : Nat}, program.Covers next (Form.lowerAll parent next forms).2 →
      parent < next →
      program.PlacedFrom next (Form.lowerAll parent next forms).2.length
        ∧ (Form.lowerAll parent next forms).1.Fits program parent owner.construct
  | .none _, parent, next, _, _ =>
      ⟨program.placedFrom_zero next, Content.Fits.empty program parent owner.construct⟩
  | .more head tail, parent, next, covers, before => by
      obtain ⟨front, back⟩ := Program.covers_append.mp covers
      obtain ⟨first, place⟩ := Form.lower_placed head front before
      obtain ⟨others, content⟩ := Form.lowerAll_placed tail back (Nat.lt_add_right _ before)
      simp only [Form.lowerAll, List.length_append]
      exact ⟨first.append others, place _ content⟩

end

/-! ## Programs -/

/-- A number that is not given out stands for an exemplar with no content. -/
theorem Program.exemplar_of_size_le {program : Program} {id : Nat}
    (outside : program.exemplars.size ≤ id) : program.exemplar id = Exemplar.blank := by
  unfold Program.exemplar
  rw [Array.getD_eq_getD_getElem?, Array.getElem?_eq_none outside]
  rfl

/-- The exemplars below the top of a program are those of its forms. -/
theorem Program.covers_ofForms (interner : Interner) (forms : List Form) :
    (Program.ofForms interner forms).Covers (Program.root + 1)
      (Form.lowerAll Program.root (Program.root + 1) forms).2 := by
  apply Program.covers_of_getElem?
  intro index exemplar there
  simp only [Program.ofForms, Program.exemplar, Program.root, Array.getD_eq_getD_getElem?,
    List.getElem?_toArray, Nat.zero_add, Nat.add_comm 1 index, List.getElem?_cons_succ]
  change ((Form.lowerAll 0 1 forms).2[index]?).getD _ = _
  rw [show (Form.lowerAll 0 1 forms).2[index]? = some exemplar from there]
  rfl

/-- The program of derived forms keeps to the grammar. -/
theorem Program.ofForms_placed {libraries : List String} {forms : List Form}
    {tokens : List Token} (interner : Interner)
    (derived : DerivesForms libraries Form.Owner.root forms tokens) :
    (Program.ofForms interner forms).Placed := by
  let program := Program.ofForms interner forms
  let inner := (Form.lowerAll Program.root (Program.root + 1) forms).2
  have covers : program.Covers (Program.root + 1) inner := Program.covers_ofForms interner forms
  obtain ⟨below, content⟩ := Form.lowerAll_placed derived covers (Nat.lt_succ_self _)
  have size : program.exemplars.size = inner.length + 1 := rfl
  -- An exemplar is the top of the program, one of the forms below it, or not given out.
  have cases : ∀ id : Nat, id = Program.root ∨ program.PlacedAt id
      ∨ program.exemplar id = Exemplar.blank := by
    intro id
    rcases Nat.eq_zero_or_pos id with isRoot | notRoot
    · exact .inl isRoot
    · by_cases inside : id < 1 + inner.length
      · exact .inr (.inl (below id notRoot inside))
      · have outside : program.exemplars.size ≤ id := by
          rw [size]
          omega
        exact .inr (.inr (Program.exemplar_of_size_le outside))
  refine ⟨rfl, ?_, ?_⟩
  · intro id owner parent
    rcases cases id with rfl | placed | outside
    · cases parent
    · obtain ⟨_, same, before⟩ := placed.parent
      rw [same] at parent
      cases parent
      exact before
    · rw [outside] at parent
      cases parent
  · intro id
    rcases cases id with rfl | placed | outside
    · exact content
    · exact placed.content
    · rw [outside]
      exact Content.Fits.empty program id .root

/-- A compiled program keeps to the grammar. -/
theorem Tape.compile_placed {options : CompileOptions} {tape : Tape} {compilation : Compilation}
    (compiled : tape.compile options = .ok compilation) : compilation.program.Placed := by
  obtain ⟨forms, read, rfl⟩ := Tape.compile_eq_ok_iff.mp compiled
  exact Program.ofForms_placed tape.interner (Tape.forms_eq_ok_iff.mp read).2

end MachineScript
