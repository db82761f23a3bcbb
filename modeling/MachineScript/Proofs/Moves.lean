import Mathlib.Logic.Relation
import MachineScript.Engine.Host
import MachineScript.Proofs.Run.Quiet

/-!
Contract: what calls of the host do to an engine, one move after another.

Owns: the moves, and that every call and every sequence of calls is made of
them, also a call that is refused and a run of several ticks.

Does not own: what a move leaves of an engine.
-/

namespace MachineScript.Engine

/-- An engine with one more launch in its queue. -/
def withLaunch (engine : Engine) (pending : PendingLaunch) : Engine :=
  { engine with
    world := { engine.world with launches := engine.world.launches ++ [pending] } }

/-- An engine without the transition that an instance has queued. -/
def withoutTransition (engine : Engine) (id : InstanceId) : Engine :=
  { engine with
    world :=
      { engine.world with
        transitions := engine.world.transitions.filter fun pending => pending.instanceId ≠ id } }

/-- An engine with another clock and another output. -/
def withSurroundings (engine : Engine) (clock : ManualClock) (printer : Printer) : Engine :=
  { engine with clock := clock, world := { engine.world with printer := printer } }

/-- What a call of the host does to an engine, if it does anything. -/
inductive Move : Engine → Engine → Prop where
  | start (engine : Engine) : Move engine engine.start.2
  | tick (engine : Engine) : Move engine engine.runTick.2
  | launch (engine : Engine) {machine : String} {exemplar : ExemplarId}
      (found : engine.setup.program.machine? machine = some exemplar) :
      Move engine (engine.withLaunch ⟨exemplar, rootInstance⟩)
  | terminate (engine : Engine) {id : InstanceId} {inst : Instance} (other : id ≠ rootInstance)
      (found : engine.instances.find? id = some inst) :
      Move engine ((engine.withoutTransition id).retire id)
  | assign (engine : Engine) {id : InstanceId} {inst : Instance} {after : Activation}
      (found : engine.instances.find? id = some inst)
      (quiet : Quiet engine.setup.program ⟨engine.world, inst⟩ after) :
      Move engine (engine.put after)
  | surroundings (engine : Engine) (clock : ManualClock) (printer : Printer) :
      Move engine (engine.withSurroundings clock printer)

/-- Any number of moves, one after another. -/
abbrev Moves : Engine → Engine → Prop :=
  Relation.ReflTransGen Move

/-! ## The calls of the host -/

theorem launch_eq_ok {engine next : Engine} {machine : String}
    (accepted : engine.launch machine = .ok next) :
    ∃ exemplar, engine.setup.program.machine? machine = some exemplar
      ∧ next = engine.withLaunch ⟨exemplar, rootInstance⟩ := by
  unfold Engine.launch at accepted
  split at accepted
  · next exemplar found =>
      cases accepted
      exact ⟨exemplar, found, rfl⟩
  · cases accepted

theorem terminate_cases (engine : Engine) (id : InstanceId) :
    engine.terminate id = (false, engine)
      ∨ id ≠ rootInstance ∧ (∃ inst, engine.instances.find? id = some inst)
        ∧ engine.terminate id = (true, (engine.withoutTransition id).retire id) := by
  unfold Engine.terminate
  split
  · exact .inl rfl
  · next removable =>
      simp only [Bool.or_eq_true, not_or, Bool.not_eq_true', Bool.not_eq_false, decide_eq_true_iff,
        Bindings.has, Option.isSome_iff_exists] at removable
      exact .inr ⟨removable.1, removable.2, rfl⟩

theorem assignVariable_eq_ok {engine next : Engine} {id : InstanceId} {name : String}
    {value : Value} (accepted : engine.assignVariable id name value = .ok next) :
    ∃ inst slot after, engine.instances.find? id = some inst
      ∧ (Activation.mk engine.world inst).writeSlot? name slot value = some after
      ∧ next = engine.put after := by
  unfold Engine.assignVariable at accepted
  simp only at accepted
  split at accepted
  · cases accepted
  · split at accepted
    · cases accepted
    · next inst found =>
        rw [Form.bind_eq_ok] at accepted
        obtain ⟨slot, _, accepted⟩ := accepted
        split at accepted
        · next written assigned =>
            cases accepted
            exact ⟨inst, slot, written, found, assigned, rfl⟩
        · cases accepted

theorem runUntilHalted_moves (maxTicks : Nat) (engine : Engine) :
    engine.Moves (engine.runUntilHalted maxTicks).2 := by
  induction maxTicks generalizing engine with
  | zero => exact .refl
  | succ maxTicks inductionHypothesis =>
      unfold runUntilHalted
      split
      · exact .refl
      · exact .head (.tick engine) (inductionHypothesis engine.runTick.2)

theorem perform_moves (engine : Engine) (call : HostCall) :
    engine.Moves (engine.perform call).2 := by
  cases call with
  | start => exact .single (.start engine)
  | tick => exact .single (.tick engine)
  | run maxTicks => exact runUntilHalted_moves maxTicks engine
  | launch machine =>
      simp only [perform]
      cases accepted : engine.launch machine with
      | error refused => exact .refl
      | ok next =>
          obtain ⟨exemplar, found, rfl⟩ := launch_eq_ok accepted
          exact .single (.launch engine found)
  | terminate id =>
      simp only [perform]
      rcases engine.terminate_cases id with refused | ⟨other, ⟨inst, found⟩, removed⟩
      · rw [refused]
      · rw [removed]
        exact .single (.terminate engine other found)
  | assign id name value =>
      simp only [perform]
      cases accepted : engine.assignVariable id name value with
      | error refused => exact .refl
      | ok next =>
          obtain ⟨inst, slot, after, found, assigned, rfl⟩ := assignVariable_eq_ok accepted
          exact .single (.assign engine found (.of_writeSlot? assigned))
  | clearOutput => exact .single (.surroundings engine engine.clock engine.world.printer.clear)
  | advance span => exact .single (.surroundings engine _ engine.world.printer)
  | advanceSeconds seconds => exact .single (.surroundings engine _ engine.world.printer)
  | setClock time => exact .single (.surroundings engine _ engine.world.printer)

theorem Reaches.moves {before after : Engine} (reached : before.Reaches after) :
    before.Moves after := by
  obtain ⟨calls, rfl⟩ := reached
  induction calls generalizing before with
  | nil => exact .refl
  | cons call rest inductionHypothesis =>
      exact (before.perform_moves call).trans inductionHypothesis

end MachineScript.Engine
