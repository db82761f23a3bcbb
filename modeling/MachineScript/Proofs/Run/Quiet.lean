import MachineScript.Proofs.Placement
import MachineScript.Proofs.Run.Parts

/-!
Contract: the runs that change variables only.

Owns: what stays as it is while values are evaluated and functions are called,
on success and on failure alike, and that this holds for every function body,
since no function holds a transition or a shared variable.

Does not own: the runs of states, handlers and machines.
-/

namespace MachineScript

/-! ## Quiet changes -/

/-- Launches of machines that an instance has queued behind those that waited. -/
def LaunchesQueued (program : Program) (parent : InstanceId)
    (before after : List PendingLaunch) : Prop :=
  ∃ queued, after = before ++ queued ∧ ∀ pending ∈ queued,
    pending.parent = parent ∧ (program.exemplar pending.machine).construct = .machine

theorem LaunchesQueued.refl (program : Program) (parent : InstanceId)
    (launches : List PendingLaunch) : LaunchesQueued program parent launches launches :=
  QueuedBehind.refl _ launches

theorem LaunchesQueued.trans {program : Program} {parent : InstanceId}
    {before middle after : List PendingLaunch} (first : LaunchesQueued program parent before middle)
    (second : LaunchesQueued program parent middle after) :
    LaunchesQueued program parent before after :=
  QueuedBehind.trans first second

/-- Only values of variables, counters and the output differ, and launches have been queued. -/
structure Quiet (program : Program) (before after : Activation) : Prop where
  skeleton : after.inst.skeleton = before.inst.skeleton
  transitions : after.world.transitions = before.world.transitions
  now : after.world.now = before.world.now
  held : ∀ key, after.world.shared.held? key = before.world.shared.held? key
  launches : LaunchesQueued program before.inst.id before.world.launches after.world.launches

namespace Quiet

variable {program : Program} {before after : Activation}

theorem same {α : Type} {project : Instance → α}
    (blind : ∀ inst : Instance, project inst.skeleton = project inst)
    (quiet : Quiet program before after) : project after.inst = project before.inst := by
  rw [← blind after.inst, quiet.skeleton, blind]

theorem id (quiet : Quiet program before after) : after.inst.id = before.inst.id :=
  quiet.same fun _ => rfl

theorem lasts (program : Program) : Run.Lasts (Quiet program) where
  refl _ := ⟨rfl, rfl, rfl, fun _ => rfl, .refl program _ _⟩
  trans first second :=
    { skeleton := second.skeleton.trans first.skeleton
      transitions := second.transitions.trans first.transitions
      now := second.now.trans first.now
      held := fun key => (second.held key).trans (first.held key)
      launches := first.launches.trans (first.id ▸ second.launches) }

/-- Writes of variables are quiet. -/
theorem of_skeleton (same : after.skeleton = before.skeleton) : Quiet program before after where
  skeleton := congrArg Activation.inst same
  transitions := congrArg (fun activation => activation.world.transitions) same
  now := congrArg (fun activation => activation.world.now) same
  held key := by
    have shared := congrArg (fun activation => activation.world.shared) same
    rw [← after.world.shared.held?_skeleton, ← before.world.shared.held?_skeleton]
    exact congrArg (SharedCells.held? · key) shared
  launches := by
    have launches : after.world.launches = before.world.launches :=
      congrArg (fun activation => activation.world.launches) same
    exact launches ▸ .refl program _ _

theorem of_writeSlot? {name : String} {slot : Slot} {value : Value}
    (assigned : before.writeSlot? name slot value = some after) : Quiet program before after :=
  of_skeleton (Activation.skeleton_writeSlot? assigned)

/-- With its frame closed, a quiet run has left nothing of it. -/
theorem closeFrame {start left : Activation} {frame : Context}
    (quiet : Quiet program (start.openFrame frame) left) : Quiet program start left.closeFrame where
  skeleton := by
    rw [left.skeleton_closeFrame, quiet.skeleton]
    rfl
  transitions := quiet.transitions
  now := quiet.now
  held := quiet.held
  launches := quiet.launches

/-- What values and calls do is quiet, apart from the instructions of functions. -/
theorem keptByCalls (program : Program) : KeptByCalls (Quiet program) where
  lasts := lasts program
  count _ := ⟨rfl, rfl, rfl, fun _ => rfl, .refl program _ _⟩
  print _ _ := ⟨rfl, rfl, rfl, fun _ => rfl, .refl program _ _⟩
  frame := closeFrame

end Quiet

/-! ## Quiet runs -/

def Instruction.isQuiet : Instruction → Bool
  | .goto _ => false
  | .shared _ _ => false
  | _ => true

namespace Setup

variable {setup : Setup} {caller : Caller}

theorem countInstruction_keeps (program : Program) :
    Run.countInstruction.Keeps (Quiet program) :=
  (Quiet.keptByCalls program).countInstruction

theorem evalSource_keeps (calls : caller.Keeps (Quiet setup.program)) (source : Source) :
    (setup.evalSource caller source).Keeps (Quiet setup.program) :=
  (Quiet.keptByCalls _).evalSource calls source

theorem evalSources_keeps (calls : caller.Keeps (Quiet setup.program)) (sources : List Source) :
    (setup.evalSources caller sources).Keeps (Quiet setup.program) :=
  (Quiet.keptByCalls _).evalSources calls sources

theorem construct_of_findMachine {inst : Instance} {name : String} {machine : ExemplarId}
    (found : setup.findMachine inst name = some machine) :
    (setup.program.exemplar machine).construct = .machine := by
  obtain ⟨scope, _, nested⟩ := List.exists_of_findSome?_eq_some found
  unfold Program.nested? at nested
  split at nested
  · split at nested
    · next isMachine =>
        cases nested
        exact isMachine
    · cases nested
  · cases nested

theorem launch_keeps (setup : Setup) (name : String) :
    (setup.launch name).Keeps (Quiet setup.program) := by
  intro start
  unfold launch
  rw [Run.ends_bind, Run.ends_get]
  split
  · next machine found =>
      rw [Run.ends_modifyWorld]
      refine ⟨rfl, rfl, rfl, fun _ => rfl, _, rfl, ?_⟩
      intro pending member
      rw [List.mem_singleton.mp member]
      exact ⟨rfl, construct_of_findMachine found⟩
  · exact (Quiet.lasts _).refl start

/-- Instructions other than transitions and shared variables are quiet if calls are. -/
theorem execute_keeps (calls : caller.Keeps (Quiet setup.program)) {instruction : Instruction}
    (quiet : instruction.isQuiet = true) :
    (setup.execute caller instruction).Keeps (Quiet setup.program) := by
  have lasts := Quiet.lasts setup.program
  cases instruction with
  | launch machine => exact lasts.bind (setup.launch_keeps machine) fun _ => lasts.pure _
  | goto target => cases quiet
  | set name source =>
      apply lasts.bind (evalSource_keeps calls source)
      intro value
      exact lasts.bind
        (Run.keeps_modify fun start => .of_skeleton (start.skeleton_set setup name value))
        fun _ => lasts.pure _
  | shared name source => cases quiet
  | call callee arguments =>
      exact lasts.bind (evalSources_keeps calls arguments) (calls callee)

/-- Lists of quiet instructions run quietly where transfers do not end them. -/
theorem runInstructions_keeps (calls : caller.Keeps (Quiet setup.program)) (last : Value)
    {instructions : List Instruction}
    (quiet : ∀ instruction ∈ instructions, instruction.isQuiet = true) :
    (setup.runInstructions caller false last instructions).Keeps (Quiet setup.program) := by
  have lasts := Quiet.lasts setup.program
  induction instructions generalizing last with
  | nil => exact lasts.pure _
  | cons instruction rest inductionHypothesis =>
      rw [runInstructions]
      apply lasts.bind (countInstruction_keeps _)
      intro _
      apply lasts.bind (execute_keeps calls (quiet instruction List.mem_cons_self))
      intro value
      exact inductionHypothesis value fun other member =>
        quiet other (List.mem_cons_of_mem _ member)

/-! ## Functions -/

/-- An exemplar that runs to its end and shares nothing holds quiet instructions only. -/
theorem isQuiet_of_placed (placed : setup.program.Placed) {id : ExemplarId}
    (runsOn : (setup.program.exemplar id).construct.suspends = false)
    (notMachine : (setup.program.exemplar id).construct ≠ .machine) :
    ∀ instruction ∈ (setup.program.exemplar id).instructions, instruction.isQuiet = true := by
  intro instruction member
  have fits := placed.content id
  cases instruction with
  | launch | set | call => rfl
  | goto target =>
      have suspends := fits.goto target member
      rw [runsOn] at suspends
      cases suspends
  | shared name value => exact absurd (fits.shared name value member) notMachine

theorem runExemplarWith_keeps (placed : setup.program.Placed)
    (calls : caller.Keeps (Quiet setup.program)) {id : ExemplarId}
    (runsOn : (setup.program.exemplar id).construct.suspends = false)
    (notMachine : (setup.program.exemplar id).construct ≠ .machine) :
    (setup.runExemplarWith caller id).Keeps (Quiet setup.program) := by
  unfold runExemplarWith
  simp only [runsOn]
  exact runInstructions_keeps calls .nil (isQuiet_of_placed placed runsOn notMachine)

theorem construct_of_findFunction (placed : setup.program.Placed) {inst : Instance}
    {name : String} {function : ExemplarId}
    (found : setup.findFunction inst name = some function) :
    (setup.program.exemplar function).construct = .function := by
  obtain ⟨scope, _, bound⟩ := List.exists_of_findSome?_eq_some found
  exact (placed.content scope).functions _ (Bindings.mem_of_find? bound)

/-- Calls are quiet, however deep they nest. -/
theorem call_keeps (placed : setup.program.Placed) (remaining : Nat) :
    (setup.call remaining).Keeps (Quiet setup.program) := by
  apply (Quiet.keptByCalls _).call
  intro caller calls inst name function found
  have isFunction := construct_of_findFunction placed found
  apply runExemplarWith_keeps placed calls
  · rw [isFunction]
    rfl
  · rw [isFunction]
    decide

theorem runExemplar_keeps (placed : setup.program.Placed) {id : ExemplarId}
    (runsOn : (setup.program.exemplar id).construct.suspends = false)
    (notMachine : (setup.program.exemplar id).construct ≠ .machine) :
    (setup.runExemplar id).Keeps (Quiet setup.program) :=
  runExemplarWith_keeps placed (call_keeps placed _) runsOn notMachine

end Setup

end MachineScript
