import MachineScript.Proofs.Run.Quiet
import MachineScript.Proofs.Table

/-!
Contract: where the values of variables are, and what one write changes.

Owns:
- the locations that hold values;
- the change that binds one location and leaves everything else, and that every write of a slot is
  one;
- that names mean the same as long as the same locations hold something, and what is then read.

Does not own: which location `set` and the host choose.
-/

namespace MachineScript

/-! ## Locations -/

/-- What can hold a value, for an instance in a world. -/
inductive Location where
  | context (level : Nat) (name : String)
  | inst (name : String)
  | shared (key : SharedKey)
  | global (name : String)
deriving DecidableEq

/-- The name of the variable that is there. -/
def Location.name : Location → String
  | .context _ name | .inst name | .global name => name
  | .shared key => key.2

/-- The location belongs to the world, and is the same one for all instances. -/
def Location.isCommon : Location → Bool
  | .context _ _ | .inst _ => false
  | .shared _ | .global _ => true

/-- Where a slot keeps the value of a variable. The values of modules are kept nowhere. -/
def Slot.location? (name : String) : Slot → Option Location
  | .context level => some (.context level name)
  | .inst => some (.inst name)
  | .shared key => some (.shared key)
  | .module => none
  | .global => some (.global name)

def Activation.valueAt? (activation : Activation) : Location → Option Value
  | .context level name =>
      activation.inst.contexts[level]?.bind fun context => context.bindings.find? name
  | .inst name => activation.inst.bindings.find? name
  | .shared key => activation.world.shared.value? key
  | .global name => activation.world.globals.find? name

/-! ## Writes -/

namespace Activation

/-- A value is bound at one location, and everything else is as before. -/
structure Binds (before after : Activation) (location : Location) (value : Value) : Prop where
  bound : after.valueAt? location = some value
  others : ∀ other, other ≠ location → after.valueAt? other = before.valueAt? other
  skeleton : after.skeleton = before.skeleton

variable {activation written : Activation} {name : String} {value : Value}

theorem binds_context {level : Nat} (inside : level < activation.inst.contexts.length) :
    activation.Binds
      { activation with
        inst := activation.inst.modifyContext level fun context => context.assign name value }
      (.context level name) value where
  bound := by
    simp only [valueAt?, Instance.modifyContext, List.getElem?_modify_eq,
      List.getElem?_eq_getElem inside, Option.map_eq_map, Option.map_some, Option.bind_some]
    exact Bindings.find?_insert_same _ _ _
  others other different := by
    cases other with
    | context otherLevel otherName =>
        simp only [valueAt?, Instance.modifyContext, List.getElem?_modify]
        by_cases same : level = otherLevel
        · subst same
          have different : name ≠ otherName := by
            rintro rfl
            exact different rfl
          simp only [List.getElem?_eq_getElem inside, if_true, Option.map_eq_map, Option.map_some,
            Option.bind_some]
          exact Bindings.find?_insert_other _ _ different
        · simp only [same, if_false, Option.map_eq_map, Option.map_id']
    | inst | shared | global => rfl
  skeleton := activation.skeleton_assign level name value

theorem binds_inst (activation : Activation) (name : String) (value : Value) :
    activation.Binds
      { activation with
        inst :=
          { activation.inst with bindings := activation.inst.bindings.insert name value } }
      (.inst name) value where
  bound := Bindings.find?_insert_same _ _ _
  others other different := by
    cases other with
    | inst otherName =>
        exact Bindings.find?_insert_other _ _ fun same => different (congrArg _ same.symm)
    | context | shared | global => rfl
  skeleton := rfl

theorem binds_global (activation : Activation) (name : String) (value : Value) :
    activation.Binds
      { activation with
        world :=
          { activation.world with globals := activation.world.globals.insert name value } }
      (.global name) value where
  bound := Bindings.find?_insert_same _ _ _
  others other different := by
    cases other with
    | global otherName =>
        exact Bindings.find?_insert_other _ _ fun same => different (congrArg _ same.symm)
    | context | inst | shared => rfl
  skeleton := rfl

theorem binds_shared {key : SharedKey} {cell : SharedCell}
    (found : activation.world.shared.find? key = some cell) :
    activation.Binds
      { activation with
        world :=
          { activation.world with
            shared := activation.world.shared.insert key { cell with value := value } } }
      (.shared key) value where
  bound := by
    simp only [valueAt?, SharedCells.value?, Bindings.find?_insert_same, Option.map_some]
  others other different := by
    cases other with
    | shared otherKey =>
        have different : key ≠ otherKey := fun same => different (congrArg _ same.symm)
        simp only [valueAt?, SharedCells.value?, Bindings.find?_insert_other _ _ different]
    | context | inst | global => rfl
  skeleton := by
    have same : SharedCell.skeleton { cell with value } = cell.skeleton := rfl
    simp only [Activation.skeleton, World.skeleton, Bindings.mapValues_insert_of_find? found same]

/-- A context that is open can be given a variable. -/
theorem binds_setLocal (opened : activation.inst.contexts ≠ []) :
    activation.Binds (activation.setLocal name value) (.context 0 name) value :=
  binds_context (List.length_pos_iff.mpr opened)

/-- A slot whose location holds a value can be written, and nothing else is. -/
theorem writeSlot?_of_location {slot : Slot} {location : Location}
    (located : slot.location? name = some location)
    (present : (activation.valueAt? location).isSome = true) (value : Value) :
    ∃ written, activation.writeSlot? name slot value = some written
      ∧ activation.Binds written location value := by
  cases slot with
  | context level =>
      cases located
      have inside : level < activation.inst.contexts.length := by
        by_contra outside
        have none := List.getElem?_eq_none (Nat.le_of_not_lt outside)
        simp only [valueAt?, none, Option.bind_none, Option.isSome_none, Bool.false_eq_true]
          at present
      exact ⟨_, if_pos inside, binds_context inside⟩
  | inst =>
      cases located
      exact ⟨_, rfl, activation.binds_inst name value⟩
  | shared key =>
      cases located
      simp only [valueAt?, SharedCells.value?, Option.isSome_map, Option.isSome_iff_exists]
        at present
      obtain ⟨cell, found⟩ := present
      refine ⟨_, ?_, binds_shared found⟩
      simp only [writeSlot?, SharedCells.assign?, found, Option.map_some]
  | module => cases located
  | global =>
      cases located
      exact ⟨_, rfl, activation.binds_global name value⟩

end Activation

/-! ## Meanings -/

/-- Where the value of a name is kept for an instance. Names that are not found and values of
modules have no location. -/
def Setup.locationOf? (setup : Setup) (activation : Activation) (name : String) :
    Option Location :=
  (setup.resolve activation.world activation.inst name).toOption.bind (Slot.location? name)

namespace Setup

variable {setup : Setup} {activation : Activation} {name : String} {slot : Slot}
  {location : Location} {value : Value}

theorem locationOf?_of_resolve
    (found : setup.resolve activation.world activation.inst name = .ok slot) :
    setup.locationOf? activation name = slot.location? name := by
  unfold locationOf?
  rw [found]
  rfl

theorem locationOf?_eq_some_iff : setup.locationOf? activation name = some location
    ↔ ∃ slot, setup.resolve activation.world activation.inst name = .ok slot
      ∧ slot.location? name = some location := by
  constructor
  · intro located
    cases found : setup.resolve activation.world activation.inst name with
    | error =>
        unfold locationOf? at located
        rw [found] at located
        cases located
    | ok slot =>
        rw [locationOf?_of_resolve found] at located
        exact ⟨slot, rfl, located⟩
  · rintro ⟨slot, found, located⟩
    rw [locationOf?_of_resolve found, located]

/-- What a name means is a variable of that name, and it is there. -/
theorem present_of_locationOf? (located : setup.locationOf? activation name = some location) :
    location.name = name ∧ (activation.valueAt? location).isSome = true := by
  obtain ⟨slot, found, located⟩ := locationOf?_eq_some_iff.mp located
  unfold resolve at found
  split at found
  · next level isLevel =>
      cases found
      cases located
      obtain ⟨inside, has, _⟩ := List.findIdx?_eq_some_iff_getElem.mp isLevel
      refine ⟨rfl, ?_⟩
      simpa only [Activation.valueAt?, List.getElem?_eq_getElem inside, Option.bind_some,
        Bindings.has] using has
  · split at found
    · next has =>
        cases found
        cases located
        rw [Bool.and_eq_true] at has
        exact ⟨rfl, has.2⟩
    · simp only at found
      split at found
      · next key isKey =>
          cases found
          cases located
          obtain ⟨machine, _, rfl⟩ := List.mem_map.mp (List.mem_of_find?_eq_some isKey)
          refine ⟨rfl, ?_⟩
          simpa only [Activation.valueAt?, SharedCells.value?, Option.isSome_map, Bindings.has]
            using List.find?_some isKey
      · split at found
        · cases found
          cases located
        · split at found
          · next has =>
              cases found
              cases located
              exact ⟨rfl, has⟩
          · cases found

theorem readSlot_of_location (located : slot.location? name = some location) :
    setup.readSlot activation.world activation.inst name slot
      = (activation.valueAt? location).getD .nil := by
  cases slot with
  | module => cases located
  | context | inst | shared | global =>
      cases located
      rfl

/-- A name is read where its value is kept. -/
theorem readVariable_of_locationOf?
    (located : setup.locationOf? activation name = some location)
    (bound : activation.valueAt? location = some value) :
    setup.readVariable activation.world activation.inst name = .ok value := by
  obtain ⟨slot, found, located⟩ := locationOf?_eq_some_iff.mp located
  unfold readVariable
  rw [found]
  change Except.ok (setup.readSlot activation.world activation.inst name slot) = _
  rw [readSlot_of_location located, bound]
  rfl

end Setup

/-! ## Changes that no name notices -/

namespace Activation

variable {setup : Setup} {before after : Activation} {name : String} {location : Location}
  {value : Value}

/-- The same locations hold something, and the instance has the same place in the program. -/
structure Alike (before after : Activation) : Prop where
  present : ∀ location, (after.valueAt? location).isSome = (before.valueAt? location).isSome
  depth : after.inst.contexts.length = before.inst.contexts.length
  machine : after.inst.machine = before.inst.machine
  isRoot : after.inst.isRoot = before.inst.isRoot

/-- The search through the contexts sees the same. -/
theorem Alike.map_has (alike : before.Alike after) (name : String) :
    (after.inst.contexts.map fun context => context.bindings.has name)
      = before.inst.contexts.map fun context => context.bindings.has name := by
  apply List.ext_getElem (by simpa only [List.length_map] using alike.depth)
  intro level insideAfter insideBefore
  rw [List.length_map] at insideAfter insideBefore
  have present := alike.present (.context level name)
  simp only [valueAt?, List.getElem?_eq_getElem insideAfter,
    List.getElem?_eq_getElem insideBefore, Option.bind_some] at present
  simpa only [List.getElem_map, Bindings.has] using present

/-- What a name means depends only on which locations hold something. -/
theorem Alike.resolve (alike : before.Alike after) (setup : Setup) (name : String) :
    setup.resolve after.world after.inst name = setup.resolve before.world before.inst name := by
  have contexts : after.inst.contexts.findIdx? (fun context => context.bindings.has name)
      = before.inst.contexts.findIdx? fun context => context.bindings.has name := by
    have same := congrArg (List.findIdx? id) (alike.map_has name)
    simpa only [List.findIdx?_map, Function.id_comp] using same
  have inst : after.inst.bindings.has name = before.inst.bindings.has name :=
    alike.present (.inst name)
  have shared : (fun key => after.world.shared.has key)
      = fun key => before.world.shared.has key := by
    funext key
    simpa only [valueAt?, SharedCells.value?, Option.isSome_map, Bindings.has] using
      alike.present (.shared key)
  have globals : after.world.globals.has name = before.world.globals.has name :=
    alike.present (.global name)
  unfold Setup.resolve
  rw [contexts, alike.isRoot, inst, alike.machine, shared, globals]

theorem Alike.locationOf? (alike : before.Alike after) (setup : Setup) (name : String) :
    setup.locationOf? after name = setup.locationOf? before name := by
  unfold Setup.locationOf?
  rw [alike.resolve]

/-- A name is read as before if the value is the same where it is kept. -/
theorem Alike.readVariable (alike : before.Alike after)
    (same : ∀ location, setup.locationOf? before name = some location →
      after.valueAt? location = before.valueAt? location) :
    setup.readVariable after.world after.inst name
      = setup.readVariable before.world before.inst name := by
  unfold Setup.readVariable
  rw [alike.resolve]
  cases found : setup.resolve before.world before.inst name with
  | error => rfl
  | ok slot =>
      change Except.ok (setup.readSlot after.world after.inst name slot)
        = Except.ok (setup.readSlot before.world before.inst name slot)
      cases located : slot.location? name with
      | some location =>
          have kept := Setup.locationOf?_eq_some_iff.mpr ⟨slot, found, located⟩
          rw [Setup.readSlot_of_location located, Setup.readSlot_of_location located,
            same location kept]
      | none =>
          cases slot with
          | module => rfl
          | context | inst | shared | global => cases located

/-- A location of the world holds the same for all instances. -/
theorem valueAt?_of_isCommon (isCommon : location.isCommon = true) (world : World)
    (inst other : Instance) :
    valueAt? ⟨world, inst⟩ location = valueAt? ⟨world, other⟩ location := by
  cases location with
  | context | inst => cases isCommon
  | shared | global => rfl

/-- A location of an instance holds the same in all worlds. -/
theorem valueAt?_of_not_isCommon (own : location.isCommon = false) (inst : Instance)
    (world other : World) : valueAt? ⟨world, inst⟩ location = valueAt? ⟨other, inst⟩ location := by
  cases location with
  | context | inst => rfl
  | shared | global => cases own

namespace Binds

theorem depth (binds : before.Binds after location value) :
    after.inst.contexts.length = before.inst.contexts.length := by
  have same := congrArg (fun rest => rest.inst.contexts.length) binds.skeleton
  simpa only [Activation.skeleton, Instance.skeleton, List.length_map] using same

theorem machine (binds : before.Binds after location value) :
    after.inst.machine = before.inst.machine :=
  congrArg (fun rest => rest.inst.machine) binds.skeleton

theorem id (binds : before.Binds after location value) : after.inst.id = before.inst.id :=
  congrArg (fun rest => rest.inst.id) binds.skeleton

theorem isRoot (binds : before.Binds after location value) :
    after.inst.isRoot = before.inst.isRoot :=
  congrArg (fun rest => rest.inst.isRoot) binds.skeleton

/-- Overwriting a value does not change what names mean. -/
theorem alike (binds : before.Binds after location value)
    (present : (before.valueAt? location).isSome = true) : before.Alike after where
  present other := by
    by_cases same : other = location
    · rw [same, binds.bound, present]
      rfl
    · rw [binds.others other same]
  depth := binds.depth
  machine := binds.machine
  isRoot := binds.isRoot

/-- Another instance sees the change at most where it was made. -/
theorem elsewhere (binds : before.Binds after location value) (inst : Instance) (other : Location)
    (different : other ≠ location ∨ other.isCommon = false) :
    valueAt? ⟨after.world, inst⟩ other = valueAt? ⟨before.world, inst⟩ other := by
  cases isCommon : other.isCommon with
  | false => exact valueAt?_of_not_isCommon isCommon inst _ _
  | true =>
      rw [isCommon] at different
      rw [valueAt?_of_isCommon isCommon _ inst after.inst,
        valueAt?_of_isCommon isCommon _ inst before.inst]
      exact binds.others other (different.resolve_right nofun)

/-- Nor does it change what names mean to other instances. -/
theorem alike_elsewhere (binds : before.Binds after location value)
    (present : (before.valueAt? location).isSome = true) (inst : Instance) :
    Alike ⟨before.world, inst⟩ ⟨after.world, inst⟩ where
  present other := by
    cases isCommon : other.isCommon with
    | false => rw [valueAt?_of_not_isCommon isCommon]
    | true =>
        rw [valueAt?_of_isCommon isCommon _ inst after.inst,
          valueAt?_of_isCommon isCommon _ inst before.inst]
        exact (binds.alike present).present other
  depth := rfl
  machine := rfl
  isRoot := rfl

end Binds

end Activation

end MachineScript
