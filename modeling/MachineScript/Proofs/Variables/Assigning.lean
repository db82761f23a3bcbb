import MachineScript.Proofs.Sharing
import MachineScript.Proofs.Variables

/-!
Contract: what the host assigns.

Owns:
- when an assignment is accepted, told by what the host can read;
- what is read afterwards, by the instance, by the instances that share the variable and by all
  others;
- that nothing but the value differs, and nothing at all if the assignment is refused.

Does not own: what `set` binds.
-/

namespace MachineScript.Engine

variable {engine next : Engine} {id other : InstanceId} {inst : Instance} {name : String}
  {value : Value} {slot : Slot} {location : Location}

/-! ## Names of instances -/

/-- What a name means to an instance that is there. -/
def slot? (engine : Engine) (id : InstanceId) (name : String) : Option Slot :=
  if engine.knowsName name then
    (engine.instances.find? id).bind fun inst =>
      (engine.setup.resolve engine.world inst name).toOption
  else none

/-- Where the value of a name is kept for an instance that is there. -/
def locationOf? (engine : Engine) (id : InstanceId) (name : String) : Option Location :=
  (engine.slot? id name).bind (Slot.location? name)

/-- The name means the same global or shared variable to two instances. -/
def SharesVariable (engine : Engine) (name : String) (id other : InstanceId) : Prop :=
  ∃ location : Location, location.isCommon = true ∧ engine.locationOf? id name = some location
    ∧ engine.locationOf? other name = some location

/-- An engine without the values of variables. -/
def skeleton (engine : Engine) : Engine :=
  { engine with
    world := engine.world.skeleton
    instances := engine.instances.mapValues Instance.skeleton }

theorem slot?_of_find? (known : engine.knowsName name = true)
    (found : engine.instances.find? id = some inst) :
    engine.slot? id name = (engine.setup.resolve engine.world inst name).toOption := by
  unfold slot?
  rw [known, found]
  rfl

theorem locationOf?_of_find? (known : engine.knowsName name = true)
    (found : engine.instances.find? id = some inst) :
    engine.locationOf? id name = engine.setup.locationOf? ⟨engine.world, inst⟩ name := by
  unfold locationOf?
  rw [slot?_of_find? known found]
  rfl

theorem readVariable_of_find? (known : engine.knowsName name = true)
    (found : engine.instances.find? id = some inst) :
    engine.readVariable id name = (engine.setup.readVariable engine.world inst name).toOption := by
  unfold readVariable
  rw [known, found]
  rfl

theorem readVariable_of_unknown (unknown : engine.knowsName name = false) :
    engine.readVariable id name = none := by
  unfold readVariable
  rw [unknown]
  rfl

theorem readVariable_of_absent (absent : engine.instances.find? id = none) :
    engine.readVariable id name = none := by
  unfold readVariable
  rw [absent]
  exact ite_self none

/-- A location belongs to an instance that is there. -/
theorem exists_of_locationOf? (located : engine.locationOf? id name = some location) :
    engine.knowsName name = true ∧ ∃ inst, engine.instances.find? id = some inst
      ∧ engine.setup.locationOf? ⟨engine.world, inst⟩ name = some location := by
  cases known : engine.knowsName name with
  | false =>
      unfold locationOf? slot? at located
      rw [known] at located
      cases located
  | true =>
      cases found : engine.instances.find? id with
      | none =>
          unfold locationOf? slot? at located
          rw [known, found] at located
          cases located
      | some inst =>
          rw [locationOf?_of_find? known found] at located
          exact ⟨rfl, inst, rfl, located⟩

theorem isSome_readVariable (engine : Engine) (id : InstanceId) (name : String) :
    (engine.readVariable id name).isSome = (engine.slot? id name).isSome := by
  cases known : engine.knowsName name with
  | false =>
      rw [readVariable_of_unknown known]
      unfold slot?
      rw [known]
      rfl
  | true =>
      cases found : engine.instances.find? id with
      | none =>
          rw [readVariable_of_absent found]
          unfold slot?
          rw [known, found]
          rfl
      | some inst =>
          rw [readVariable_of_find? known found, slot?_of_find? known found]
          unfold Setup.readVariable
          cases engine.setup.resolve engine.world inst name <;> rfl

/-- What can be read is kept somewhere, unless it is the value of a module. -/
theorem isSome_locationOf? (engine : Engine) (id : InstanceId) (name : String) :
    (engine.locationOf? id name).isSome = true
      ↔ (engine.readVariable id name).isSome = true ∧ engine.slot? id name ≠ some .module := by
  rw [isSome_readVariable]
  unfold locationOf?
  cases engine.slot? id name with
  | none => simp
  | some slot => cases slot <;> simp [Slot.location?]

/-! ## Accepted and refused assignments -/

/-- What is kept somewhere can be assigned, and only its value differs then. -/
theorem assignVariable_of_locationOf? (known : engine.knowsName name = true)
    (found : engine.instances.find? id = some inst)
    (located : engine.setup.locationOf? ⟨engine.world, inst⟩ name = some location)
    (value : Value) :
    ∃ written, engine.assignVariable id name value = .ok (engine.put written)
      ∧ Activation.Binds ⟨engine.world, inst⟩ written location value := by
  obtain ⟨_, present⟩ := Setup.present_of_locationOf? located
  obtain ⟨slot, resolved, located⟩ := Setup.locationOf?_eq_some_iff.mp located
  obtain ⟨written, assigned, binds⟩ := Activation.writeSlot?_of_location located present value
  refine ⟨written, ?_, binds⟩
  simp only at resolved
  unfold assignVariable
  simp only [known, found, resolved, bind, Except.bind, assigned]
  rfl

theorem assignVariable_of_unlocated (unlocated : engine.locationOf? id name = none)
    (value : Value) : ∃ error, engine.assignVariable id name value = .error error := by
  cases known : engine.knowsName name with
  | false =>
      refine ⟨⟨.variable, name⟩, ?_⟩
      unfold assignVariable
      rw [known]
      rfl
  | true =>
      cases found : engine.instances.find? id with
      | none =>
          refine ⟨⟨.variable, name⟩, ?_⟩
          unfold assignVariable
          rw [known, found]
          rfl
      | some inst =>
          unfold locationOf? at unlocated
          rw [slot?_of_find? known found] at unlocated
          unfold assignVariable
          simp only [known, found, Bool.not_true, Bool.false_eq_true, if_false]
          cases resolved : engine.setup.resolve engine.world inst name with
          | error refused => exact ⟨refused, rfl⟩
          | ok slot =>
              rw [resolved] at unlocated
              cases slot with
              | module => exact ⟨_, rfl⟩
              | context | inst | shared | global => cases unlocated

theorem assignVariable_accepted_iff : (∃ next, engine.assignVariable id name value = .ok next)
    ↔ (engine.locationOf? id name).isSome = true := by
  constructor
  · rintro ⟨next, accepted⟩
    cases located : engine.locationOf? id name with
    | some location => rfl
    | none =>
        obtain ⟨error, refused⟩ := assignVariable_of_unlocated located value
        rw [refused] at accepted
        cases accepted
  · intro located
    obtain ⟨location, located⟩ := Option.isSome_iff_exists.mp located
    obtain ⟨known, inst, found, located⟩ := exists_of_locationOf? located
    obtain ⟨written, accepted, _⟩ := assignVariable_of_locationOf? known found located value
    exact ⟨_, accepted⟩

/-- An instance that is put back as it was leaves the engine as it was. -/
theorem put_of_find? (own : inst.id = id) (found : engine.instances.find? id = some inst) :
    engine.put ⟨engine.world, inst⟩ = engine := by
  have same : engine.instances.insert inst.id inst = engine.instances :=
    Bindings.insert_of_find? (own ▸ found)
  unfold put
  simp only [same]

/-! ## What is read afterwards -/

/-- An assignment gives a variable a value, for all instances that share it, and nothing else is
read differently or is different at all. -/
structure Assigns (before after : Engine) (id : InstanceId) (name : String) (value : Value) :
    Prop where
  read : after.readVariable id name = some value
  shared : ∀ other, before.SharesVariable name id other →
    after.readVariable other name = some value
  others : ∀ other otherName,
    ¬ (otherName = name ∧ (other = id ∨ before.SharesVariable name id other)) →
    after.readVariable other otherName = before.readVariable other otherName
  skeleton : after.skeleton = before.skeleton

section

variable {written : Activation}

theorem readVariable_put_of_find? (known : engine.knowsName name = true)
    (found : (engine.put written).instances.find? id = some inst) :
    (engine.put written).readVariable id name
      = (engine.setup.readVariable written.world inst name).toOption :=
  have known : (engine.put written).knowsName name = true := known
  readVariable_of_find? known found

variable (own : inst.id = id)
  (found : engine.instances.find? id = some inst)
  (binds : Activation.Binds ⟨engine.world, inst⟩ written location value)
  (located : engine.setup.locationOf? ⟨engine.world, inst⟩ name = some location)
include own binds

include found in
theorem skeleton_put : (engine.put written).skeleton = engine.skeleton := by
  have sameWorld : written.world.skeleton = engine.world.skeleton :=
    congrArg Activation.world binds.skeleton
  have sameInst : written.inst.skeleton = inst.skeleton := congrArg Activation.inst binds.skeleton
  have same : Bindings.mapValues (engine.instances.insert written.inst.id written.inst)
      Instance.skeleton = engine.instances.mapValues Instance.skeleton :=
    Bindings.mapValues_insert_of_find? ((binds.id.trans own) ▸ found) sameInst
  unfold skeleton put
  simp only [sameWorld, same]

include located

theorem readVariable_put (known : engine.knowsName name = true) :
    (engine.put written).readVariable id name = some value := by
  have foundAfter := find?_put engine (binds.id.trans own)
  have alike := binds.alike (Setup.present_of_locationOf? located).2
  have means := (alike.locationOf? engine.setup name).trans located
  have read := Setup.readVariable_of_locationOf? means binds.bound
  rw [readVariable_put_of_find? known foundAfter]
  exact congrArg Except.toOption read

include found

theorem readVariable_put_shared (known : engine.knowsName name = true)
    (shares : engine.SharesVariable name id other) :
    (engine.put written).readVariable other name = some value := by
  obtain ⟨common, isCommon, here, there⟩ := shares
  rw [locationOf?_of_find? known found, located, Option.some.injEq] at here
  obtain ⟨_, sharing, foundOther, locatedOther⟩ := exists_of_locationOf? there
  rw [← here] at isCommon locatedOther
  by_cases same : id = other
  · rw [← same]
    exact readVariable_put own binds located known
  · have foundAfter : (engine.put written).instances.find? other = some sharing := by
      rw [← foundOther]
      exact Bindings.find?_insert_other _ _ ((binds.id.trans own) ▸ same)
    have alike := binds.alike_elsewhere (Setup.present_of_locationOf? located).2 sharing
    have bound : Activation.valueAt? ⟨written.world, sharing⟩ location = some value :=
      (Activation.valueAt?_of_isCommon isCommon _ _ _).trans binds.bound
    have means := (alike.locationOf? engine.setup name).trans locatedOther
    have read := Setup.readVariable_of_locationOf? means bound
    rw [readVariable_put_of_find? known foundAfter]
    exact congrArg Except.toOption read

/-- The instance reads its other variables as before. -/
theorem readVariable_put_own {otherName : String} (knownOther : engine.knowsName otherName = true)
    (different : otherName ≠ name) :
    (engine.put written).readVariable id otherName = engine.readVariable id otherName := by
  obtain ⟨named, present⟩ := Setup.present_of_locationOf? located
  have foundAfter := find?_put engine (binds.id.trans own)
  rw [readVariable_put_of_find? knownOther foundAfter, readVariable_of_find? knownOther found]
  apply congrArg Except.toOption
  apply (binds.alike present).readVariable
  intro kept locatedOther
  apply binds.others
  rintro rfl
  exact different ((Setup.present_of_locationOf? locatedOther).1.symm.trans named)

/-- Another instance reads as before what it does not share. -/
theorem readVariable_put_elsewhere (known : engine.knowsName name = true) {otherName : String}
    (knownOther : engine.knowsName otherName = true) (another : id ≠ other)
    (apart : ¬ (otherName = name ∧ engine.SharesVariable name id other)) :
    (engine.put written).readVariable other otherName = engine.readVariable other otherName := by
  obtain ⟨named, present⟩ := Setup.present_of_locationOf? located
  have foundAfter : (engine.put written).instances.find? other = engine.instances.find? other :=
    Bindings.find?_insert_other _ _ ((binds.id.trans own) ▸ another)
  cases foundOther : engine.instances.find? other with
  | none =>
      rw [foundOther] at foundAfter
      rw [readVariable_of_absent foundAfter, readVariable_of_absent foundOther]
  | some sharing =>
      rw [foundOther] at foundAfter
      rw [readVariable_put_of_find? knownOther foundAfter,
        readVariable_of_find? knownOther foundOther]
      apply congrArg Except.toOption
      apply (binds.alike_elsewhere present sharing).readVariable
      intro kept locatedOther
      apply binds.elsewhere
      -- What is kept at the location that is written has its name, and is shared.
      by_contra met
      simp only [not_or, Decidable.not_not, Bool.not_eq_false] at met
      obtain ⟨rfl, isCommon⟩ := met
      obtain rfl : otherName = name :=
        (Setup.present_of_locationOf? locatedOther).1.symm.trans named
      refine apart ⟨rfl, _, isCommon, ?_, ?_⟩
      · rw [locationOf?_of_find? known found, located]
      · rw [locationOf?_of_find? known foundOther, locatedOther]

theorem readVariable_put_other (known : engine.knowsName name = true) {otherName : String}
    (apart : ¬ (otherName = name ∧ (other = id ∨ engine.SharesVariable name id other))) :
    (engine.put written).readVariable other otherName = engine.readVariable other otherName := by
  cases knownOther : engine.knowsName otherName with
  | false =>
      have knownAfter : (engine.put written).knowsName otherName = false := knownOther
      rw [readVariable_of_unknown knownAfter, readVariable_of_unknown knownOther]
  | true =>
      by_cases same : id = other
      · subst same
        exact readVariable_put_own own found binds located knownOther fun named =>
          apart ⟨named, .inl rfl⟩
      · exact readVariable_put_elsewhere own found binds located known knownOther same
          fun shares => apart ⟨shares.1, .inr shares.2⟩

theorem assigns_put (known : engine.knowsName name = true) :
    engine.Assigns (engine.put written) id name value where
  read := readVariable_put own binds located known
  shared _ := readVariable_put_shared own found binds located known
  others _ _ := readVariable_put_other own found binds located known
  skeleton := skeleton_put own found binds

end

/-! ## Reachable engines -/

/-- Whatever a host has done with a compiled program, an assignment is accepted if the variable can
be read and is not the value of a module, and then does nothing but to give it the value. One that
is refused changes nothing, as the instance is put back as it was. -/
theorem Reaches.assign_variable {options : CompileOptions} {tape : Tape}
    {compilation : Compilation} (compiled : tape.compile options = .ok compilation)
    {registry : Registry} {config : EngineConfig} {printer : Printer}
    (reached : (build compilation.program registry config printer).Reaches engine)
    (id : InstanceId) (name : String) (value : Value) :
    ((∃ next, engine.assignVariable id name value = .ok next)
        ↔ (engine.readVariable id name).isSome = true ∧ engine.slot? id name ≠ some .module)
      ∧ (∀ next, engine.assignVariable id name value = .ok next →
        engine.perform (.assign id name value) = (.done, next)
          ∧ engine.Assigns next id name value)
      ∧ (∀ error, engine.assignVariable id name value = .error error →
        engine.perform (.assign id name value) = (.refused error, engine))
      ∧ ∀ inst, engine.instances.find? id = some inst →
        engine.put ⟨engine.world, inst⟩ = engine := by
  have coherent := reached.coherent_of_compiled compiled
  refine ⟨?_, ?_, ?_, ?_⟩
  · rw [assignVariable_accepted_iff, isSome_locationOf?]
  · intro next accepted
    constructor
    · simp only [Engine.perform, accepted, orUnchanged]
    · obtain ⟨location, located⟩ := Option.isSome_iff_exists.mp
        (assignVariable_accepted_iff.mp ⟨next, accepted⟩)
      obtain ⟨known, inst, found, located⟩ := exists_of_locationOf? located
      obtain ⟨written, put, binds⟩ := assignVariable_of_locationOf? known found located value
      cases put.symm.trans accepted
      exact assigns_put (coherent.id_of_find? found) found binds located known
  · intro error refused
    simp only [Engine.perform, refused, orUnchanged]
  · intro inst found
    exact put_of_find? (coherent.id_of_find? found) found

/-- The variable that a machine shares is assigned for one instance, and the other one reads it. -/
theorem assign_variable_twiceShared :
    ∃ compilation engine, twiceShared.compile {} = .ok compilation
      ∧ (build compilation.program .empty {} .empty).performAll [.tick] = engine
      ∧ engine.readVariable 1 "n" = some (.int 1) ∧ engine.SharesVariable "n" 1 2
      ∧ ((∃ next, engine.assignVariable 1 "n" (.int 7) = .ok next)
        ↔ (engine.readVariable 1 "n").isSome = true ∧ engine.slot? 1 "n" ≠ some .module)
      ∧ (∀ next, engine.assignVariable 1 "n" (.int 7) = .ok next →
        engine.perform (.assign 1 "n" (.int 7)) = (.done, next)
          ∧ engine.Assigns next 1 "n" (.int 7))
      ∧ (∀ error, engine.assignVariable 1 "n" (.int 7) = .error error →
        engine.perform (.assign 1 "n" (.int 7)) = (.refused error, engine))
      ∧ ∀ inst, engine.instances.find? 1 = some inst →
        engine.put ⟨engine.world, inst⟩ = engine := by
  refine ⟨_, _, rfl, rfl, by decide +kernel, ?_, ?_⟩
  · exact ⟨.shared (1, "n"), rfl, by decide +kernel, by decide +kernel⟩
  · have compiled : twiceShared.compile {} = .ok _ := rfl
    exact Reaches.assign_variable compiled ⟨[.tick], rfl⟩ 1 "n" (.int 7)

end MachineScript.Engine
