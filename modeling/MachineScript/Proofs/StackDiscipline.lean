import MachineScript.Engine
import MachineScript.Proofs.Run.Parts

/-!
Contract: running code leaves the stack of its instance as it finds it.

Owns:
- what running code may change of an instance and of the world around it;
- that lists of instructions, single instructions, values and calls change
  nothing else, at any depth of calls and whether they return or fail, and that
  they add to the queues at the end only, and for their own instance only;
- that the table of the other instances is as it was once the instance that ran
  is put back.

Does not own: what becomes of an instance when its run has ended, and what
handlers and transitions do to its stack between such runs.
-/

namespace MachineScript

/-! ## What is left alone -/

/-- An instance without what running code may change: the values of its variables, the shared
variables that it holds and its flags. -/
def Instance.fixed (inst : Instance) : Instance :=
  { inst.skeleton with sharedRefs := [], transitionQueued := false, parked := false }

/-- A world without what running code may change: the values of variables, the queues, the output
and the count of instructions. -/
def World.fixed (world : World) : World :=
  { world with
    globals := []
    shared := []
    launches := []
    transitions := []
    printer := .empty
    executed := 0 }

/-- The effects of code that an instance runs. -/
structure Contained (before after : Activation) : Prop where
  inst : after.inst.fixed = before.inst.fixed
  world : after.world.fixed = before.world.fixed
  launches : QueuedBehind (fun pending => pending.parent = before.inst.id)
    before.world.launches after.world.launches
  transitions : QueuedBehind (fun pending => pending.instanceId = before.inst.id)
    before.world.transitions after.world.transitions

namespace Contained

variable {before after : Activation}

theorem same {α : Type} {project : Instance → α}
    (blind : ∀ inst : Instance, project inst.fixed = project inst)
    (contained : Contained before after) : project after.inst = project before.inst := by
  rw [← blind after.inst, contained.inst, blind]

theorem id (contained : Contained before after) : after.inst.id = before.inst.id :=
  contained.same fun _ => rfl

theorem lasts : Run.Lasts Contained where
  refl _ := ⟨rfl, rfl, .refl _ _, .refl _ _⟩
  trans first second :=
    { inst := second.inst.trans first.inst
      world := second.world.trans first.world
      launches := first.launches.trans (first.id ▸ second.launches)
      transitions := first.transitions.trans (first.id ▸ second.transitions) }

/-- Values of variables are among what may change. -/
theorem of_skeleton (same : after.skeleton = before.skeleton) : Contained before after := by
  have world : after.world.skeleton = before.world.skeleton := congrArg Activation.world same
  have inst : after.inst.skeleton = before.inst.skeleton := congrArg Activation.inst same
  have launches := congrArg World.launches world
  have transitions := congrArg World.transitions world
  have fixed := congrArg World.fixed world
  simp only [World.skeleton] at launches transitions
  refine ⟨?_, fixed, launches ▸ .refl _ _, transitions ▸ .refl _ _⟩
  unfold Instance.fixed
  rw [inst]

theorem closeFrame {start left : Activation} {frame : Context}
    (contained : Contained (start.openFrame frame) left) : Contained start left.closeFrame where
  inst := by
    have closed : left.closeFrame.inst.fixed
        = { left.inst.fixed with
            contexts := left.inst.fixed.contexts.tail
            callDepth := left.inst.fixed.callDepth - 1 } := by
      unfold Instance.fixed
      rw [left.skeleton_closeFrame]
    rw [closed, contained.inst]
    rfl
  world := contained.world
  launches := contained.launches
  transitions := contained.transitions

/-- Every effect of which runs are made up is contained; a frame that is opened is closed. -/
theorem keptByRuns : KeptByRuns Contained where
  lasts := lasts
  count _ := ⟨rfl, rfl, .refl _ _, .refl _ _⟩
  print _ _ := ⟨rfl, rfl, .refl _ _, .refl _ _⟩
  frame := closeFrame
  values := of_skeleton
  launch _ _ := ⟨rfl, rfl, .one _ rfl, .refl _ _⟩
  queue _ _ := ⟨rfl, rfl, .refl _ _, .one _ rfl⟩
  refer _ _ _ := ⟨rfl, rfl, .refl _ _, .refl _ _⟩
  park _ := ⟨rfl, rfl, .refl _ _, .refl _ _⟩

/-- Contexts stay open, each with its exemplar, its kind and the handlers that wait in it. -/
theorem skeletons (contained : Contained before after) :
    after.inst.contexts.map Context.skeleton = before.inst.contexts.map Context.skeleton :=
  congrArg Instance.contexts contained.inst

end Contained

/-! ## The engine around a run -/

namespace Engine

/-- What a run of code leaves of an instance that is taken out of an engine, and of the engine. All
contexts of the instance are open as before, and as many calls; the queues have got longer at their
ends; and the instances that stayed in the table are untouched. Nothing else has changed but values
of variables, shared cells and the holds on them, the flags, the count of instructions and the
output. -/
structure KeepsPlace (engine : Engine) (start left : Activation) : Prop where
  length : left.inst.contexts.length = start.inst.contexts.length
  contexts : ∀ (level : Nat) before after, start.inst.contexts[level]? = some before →
    left.inst.contexts[level]? = some after → after.exemplar = before.exemplar
      ∧ after.kind = before.kind ∧ after.callbacks = before.callbacks
  callDepth : left.inst.callDepth = start.inst.callDepth
  launches : QueuedBehind (fun pending => pending.parent = start.inst.id)
    start.world.launches left.world.launches
  transitions : QueuedBehind (fun pending => pending.instanceId = start.inst.id)
    start.world.transitions left.world.transitions
  others : (engine.put left).instances.erase start.inst.id = engine.instances.erase start.inst.id
  inst : left.inst.fixed = start.inst.fixed
  world : left.world.fixed = start.world.fixed

theorem keepsPlace_of_contained (engine : Engine) {start left : Activation}
    (contained : Contained start left) : engine.KeepsPlace start left where
  length := by simpa using congrArg List.length contained.skeletons
  contexts level before after here there := by
    have same := congrArg (·[level]?) contained.skeletons
    simp only [List.getElem?_map, here, there, Option.map_some, Option.some.injEq] at same
    simp only [Context.skeleton, Context.mk.injEq] at same
    obtain ⟨exemplar, kind, _, callbacks⟩ := same
    exact ⟨exemplar, kind, callbacks⟩
  callDepth := contained.same fun _ => rfl
  launches := contained.launches
  transitions := contained.transitions
  others := by
    rw [← contained.id]
    exact Bindings.erase_insert_same _ _ _
  inst := contained.inst
  world := contained.world

/-- However a run ends, it has kept its place. -/
def Contains {α : Type} (engine : Engine) (run : Run α) : Prop :=
  ∀ start, run.Ends start (fun _ left => engine.KeepsPlace start left) (engine.KeepsPlace start)

theorem contains_of_keeps {α : Type} (engine : Engine) {run : Run α}
    (kept : run.Keeps Contained) : engine.Contains run :=
  fun start => (kept start).mono (fun _ _ => engine.keepsPlace_of_contained)
    fun _ => engine.keepsPlace_of_contained

/-- Lists of instructions keep their place, and so does all that is done in the course of them, with
however many calls still allowed. -/
structure KeepsDiscipline (engine : Engine) : Prop where
  lists : ∀ remaining owner, engine.Contains
    (engine.setup.runExemplarWith (engine.setup.call remaining) owner)
  instructions : ∀ remaining instruction, engine.Contains
    (engine.setup.execute (engine.setup.call remaining) instruction)
  values : ∀ remaining source, engine.Contains
    (engine.setup.evalSource (engine.setup.call remaining) source)
  calls : ∀ remaining name arguments, engine.Contains
    (engine.setup.call remaining name arguments)

/-- Running code keeps the stack of its instance, on success and on failure alike. -/
theorem keeps_discipline (engine : Engine) : engine.KeepsDiscipline := by
  have kept := Contained.keptByRuns
  constructor
  · intro remaining owner
    exact engine.contains_of_keeps (kept.runExemplarWith (kept.calls remaining) owner)
  · intro remaining instruction
    exact engine.contains_of_keeps (kept.execute (kept.calls remaining) instruction)
  · intro remaining source
    exact engine.contains_of_keeps (kept.evalSource (kept.calls remaining) source)
  · intro remaining name arguments
    exact engine.contains_of_keeps (kept.calls remaining name arguments)

end Engine

end MachineScript
