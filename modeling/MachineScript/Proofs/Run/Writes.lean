import MachineScript.Engine.Scope
import MachineScript.Proofs.Balance

/-!
Contract: what writes of variables leave alone.

Owns:
- what is left of a world, and of an instance in it, without the values of
  variables;
- that no write of a variable and no `set` changes it.

Does not own: which variable is written, and what is read back.
-/

namespace MachineScript

/-! ## What is left without the values -/

def SharedCell.skeleton (cell : SharedCell) : SharedCell :=
  { cell with value := .nil }

/-- A world without the values of its variables. Shared cells stay, with their holders. -/
def World.skeleton (world : World) : World :=
  { world with globals := [], shared := world.shared.mapValues SharedCell.skeleton }

/-- A context without the values of its variables. -/
def Context.skeleton (context : Context) : Context :=
  { context with bindings := [] }

/-- An instance without the values of its variables. -/
def Instance.skeleton (inst : Instance) : Instance :=
  { inst with bindings := [], contexts := inst.contexts.map Context.skeleton }

def Activation.skeleton (activation : Activation) : Activation :=
  ⟨activation.world.skeleton, activation.inst.skeleton⟩

theorem SharedCells.held?_skeleton (cells : SharedCells) (key : SharedKey) :
    SharedCells.held? (cells.mapValues SharedCell.skeleton) key = cells.held? key := by
  unfold held?
  rw [Bindings.find?_mapValues, Option.map_map]
  rfl

theorem SharedCells.skeleton_assign? {cells written : SharedCells} {key : SharedKey} {value : Value}
    (assigned : cells.assign? key value = some written) :
    written.mapValues SharedCell.skeleton = cells.mapValues SharedCell.skeleton := by
  unfold assign? at assigned
  split at assigned
  · next cell found =>
      cases assigned
      exact Bindings.mapValues_insert_of_find? found rfl
  · cases assigned

/-- A change that a projection does not see may be made anywhere in a list. -/
theorem map_modify_eq {α β : Type} {project : α → β} {change : α → α}
    (same : ∀ item, project (change item) = project item) (items : List α) (index : Nat) :
    (items.modify index change).map project = items.map project := by
  induction items generalizing index with
  | nil => rw [List.modify_nil]
  | cons item rest inductionHypothesis =>
      cases index with
      | zero => rw [List.modify_zero_cons, List.map_cons, List.map_cons, same]
      | succ index =>
          rw [List.modify_succ_cons, List.map_cons, List.map_cons, inductionHypothesis]

/-- A change of one context that leaves its skeleton leaves that of the instance. -/
theorem Instance.skeleton_modifyContext (inst : Instance) (level : Nat)
    {change : Context → Context} (same : ∀ context, (change context).skeleton = context.skeleton) :
    (inst.modifyContext level change).skeleton = inst.skeleton := by
  simp only [Instance.skeleton, Instance.modifyContext, map_modify_eq same]

/-! ## Writes -/

namespace Activation

variable {activation written : Activation} {name : String} {slot : Slot} {value : Value}

theorem skeleton_assign (activation : Activation) (level : Nat) (name : String) (value : Value) :
    Activation.skeleton
      { activation with
        inst := activation.inst.modifyContext level fun context => context.assign name value }
      = activation.skeleton :=
  congrArg (Activation.mk _) (Instance.skeleton_modifyContext _ level fun _ => rfl)

theorem skeleton_writeSlot? (assigned : activation.writeSlot? name slot value = some written) :
    written.skeleton = activation.skeleton := by
  unfold writeSlot? at assigned
  cases slot with
  | context level =>
      simp only at assigned
      split at assigned
      · cases assigned
        exact activation.skeleton_assign level name value
      · cases assigned
  | shared key =>
      simp only [Option.map_eq_some_iff] at assigned
      obtain ⟨cells, assigned, rfl⟩ := assigned
      simp only [skeleton, World.skeleton, SharedCells.skeleton_assign? assigned]
  | inst | global =>
      cases assigned
      rfl
  | module => cases assigned

/-- `set` changes the value of a variable. -/
theorem skeleton_set (setup : Setup) (activation : Activation) (name : String) (value : Value) :
    (activation.set setup name value).skeleton = activation.skeleton := by
  have own : (activation.setLocal name value).skeleton = activation.skeleton :=
    activation.skeleton_assign 0 name value
  unfold set
  simp only
  split
  · split <;> rfl
  · split
    · exact own
    · split
      · exact own
      · next slot _ _ =>
          cases written : activation.writeSlot? name slot value with
          | none => rfl
          | some next => exact skeleton_writeSlot? written
      · exact own

end Activation

end MachineScript
