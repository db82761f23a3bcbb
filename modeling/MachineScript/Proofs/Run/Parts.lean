import MachineScript.Proofs.Run
import MachineScript.Proofs.Run.Writes

/-!
Contract: the effects of which runs are made up.

Owns:
- each effect besides writes as a change of an activation: an instruction is
  counted, lines are printed, a launch or a transition is queued, a shared
  variable is held, an instance is parked, a frame is opened and closed;
- what it is to be queued behind what waited;
- that a relation which lasts, and which these effects keep, is kept by the
  evaluation of values, by instructions, by lists of them and by calls, however
  deep they nest and whether they return or fail.

Does not own: any particular relation.
-/

namespace MachineScript

/-! ## Effects -/

namespace Activation

/-- An activation with one more instruction counted. -/
def count (activation : Activation) : Activation :=
  { activation with
    world := { activation.world with executed := activation.world.executed + 1 } }

def print (activation : Activation) (lines : List String) : Activation :=
  { activation with
    world := { activation.world with printer := activation.world.printer.printLines lines } }

/-- An activation with one more launch queued. -/
def launch (activation : Activation) (machine : ExemplarId) : Activation :=
  { activation with
    world :=
      { activation.world with
        launches := activation.world.launches ++ [⟨machine, activation.inst.id⟩] } }

/-- An activation with one more transition queued. -/
def queue (activation : Activation) (target : String) : Activation :=
  { world :=
      { activation.world with
        transitions := activation.world.transitions ++ [⟨activation.inst.id, target⟩] }
    inst := { activation.inst with transitionQueued := true } }

/-- An activation with other cells, to one of which the instance refers once more. -/
def refer (activation : Activation) (cells : SharedCells) (key : SharedKey) :
    Activation :=
  { world := { activation.world with shared := cells }
    inst := { activation.inst with sharedRefs := activation.inst.sharedRefs ++ [key] } }

/-- An activation whose instance is parked in its state. -/
def park (activation : Activation) : Activation :=
  { activation with inst := { activation.inst with parked := true } }

/-- The instance of an activation inside the frame of a call. -/
def openFrame (activation : Activation) (frame : Context) : Activation :=
  { activation with
    inst :=
      { activation.inst.pushContext frame with callDepth := activation.inst.callDepth + 1 } }

/-- The instance of an activation with its innermost frame closed. -/
def closeFrame (activation : Activation) : Activation :=
  { activation with
    inst := { activation.inst.popContext with callDepth := activation.inst.callDepth - 1 } }

theorem skeleton_closeFrame (activation : Activation) :
    activation.closeFrame.inst.skeleton
      = { activation.inst.skeleton with
          contexts := activation.inst.skeleton.contexts.tail
          callDepth := activation.inst.skeleton.callDepth - 1 } := by
  simp only [Activation.closeFrame, Instance.skeleton, Instance.popContext, List.map_tail]

end Activation

namespace Setup

/-- The end of a call whose body has ended inside its frame. -/
def closeFrame : EStateM.Result RuntimeError Activation (Flow × Value) →
    EStateM.Result RuntimeError Activation Value
  | .ok (_, value) left => .ok value left.closeFrame
  | .error cause left => .error cause left.closeFrame

/-- However a body ends, its frame is closed. -/
theorem ends_inFrame {frame : Context} {body : Run (Flow × Value)} {start : Activation}
    {returned : Value → Activation → Prop} {failed : Activation → Prop} :
    (inFrame frame body).Ends start returned failed
      ↔ body.Ends (start.openFrame frame) (fun result left => returned result.2 left.closeFrame)
        (fun left => failed left.closeFrame) := by
  have same : inFrame frame body start = closeFrame (body (start.openFrame frame)) := rfl
  unfold Run.Ends
  rw [same]
  cases body (start.openFrame frame) <;> rfl

/-- A frame sees no more of a body than what it does from where the frame is opened. -/
theorem inFrame_congr {frame : Context} {body other : Run (Flow × Value)} {start : Activation}
    (same : body (start.openFrame frame) = other (start.openFrame frame)) :
    inFrame frame body start = inFrame frame other start :=
  congrArg closeFrame same

theorem evalConstant_ends {setup : Setup} (constant : Constant) (start : Activation) :
    (setup.evalConstant constant).Ends start (fun _ left => left = start) (· = start) := by
  unfold evalConstant
  split
  · rw [Run.ends_bind, Run.ends_get]
    split
    · rfl
    · rfl
  · rfl

end Setup

/-! ## Queues -/

/-- Entries of one's own have been queued behind those that waited. -/
def QueuedBehind {α : Type} (own : α → Prop) (before after : List α) : Prop :=
  ∃ queued, after = before ++ queued ∧ ∀ entry ∈ queued, own entry

namespace QueuedBehind

variable {α : Type} {own : α → Prop} {before middle after : List α}

theorem refl (own : α → Prop) (entries : List α) : QueuedBehind own entries entries :=
  ⟨[], (List.append_nil entries).symm, List.forall_mem_nil _⟩

theorem one (before : List α) {entry : α} (isOwn : own entry) :
    QueuedBehind own before (before ++ [entry]) :=
  ⟨[entry], rfl, List.forall_mem_singleton.mpr isOwn⟩

theorem trans (first : QueuedBehind own before middle) (second : QueuedBehind own middle after) :
    QueuedBehind own before after := by
  obtain ⟨early, rfl, earlyOwn⟩ := first
  obtain ⟨late, rfl, lateOwn⟩ := second
  exact ⟨early ++ late, List.append_assoc _ _ _, List.forall_mem_append.mpr ⟨earlyOwn, lateOwn⟩⟩

end QueuedBehind

/-! ## Values and calls -/

def Caller.Keeps (relation : Activation → Activation → Prop) (caller : Caller) : Prop :=
  ∀ name arguments, (caller name arguments).Keeps relation

/-- A relation that the effects of values and calls keep. -/
structure KeptByCalls (relation : Activation → Activation → Prop) : Prop where
  lasts : Run.Lasts relation
  count : ∀ start : Activation, relation start start.count
  print : ∀ (start : Activation) lines, relation start (start.print lines)
  frame : ∀ {start left : Activation} {frame : Context},
    relation (start.openFrame frame) left → relation start left.closeFrame

namespace KeptByCalls

variable {relation : Activation → Activation → Prop} {setup : Setup} {caller : Caller}

theorem countInstruction (kept : KeptByCalls relation) : Run.countInstruction.Keeps relation :=
  kept.count

theorem evalConstant (kept : KeptByCalls relation) (constant : Constant) :
    (setup.evalConstant constant).Keeps relation := by
  intro start
  have stays := kept.lasts.refl start
  exact (Setup.evalConstant_ends constant start).mono (fun _ _ same => same ▸ stays)
    fun _ same => same ▸ stays

mutual

theorem evalSource (kept : KeptByCalls relation) (calls : caller.Keeps relation)
    (source : Source) : (setup.evalSource caller source).Keeps relation := by
  cases source with
  | constant constant =>
      rw [Setup.evalSource]
      exact kept.evalConstant constant
  | nested id callee arguments =>
      rw [Setup.evalSource]
      apply kept.lasts.bind kept.countInstruction
      intro _
      exact kept.lasts.bind (kept.evalSources calls arguments) (calls callee)

theorem evalSources (kept : KeptByCalls relation) (calls : caller.Keeps relation)
    (sources : List Source) : (setup.evalSources caller sources).Keeps relation := by
  cases sources with
  | nil =>
      rw [Setup.evalSources]
      exact kept.lasts.pure _
  | cons source rest =>
      rw [Setup.evalSources]
      apply kept.lasts.bind (kept.evalSource calls source)
      intro value
      exact kept.lasts.bind (kept.evalSources calls rest) fun _ => kept.lasts.pure _

end

theorem callLibrary (kept : KeptByCalls relation) (setup : Setup) (name : String)
    (arguments : List Value) : (setup.callLibrary name arguments).Keeps relation := by
  unfold Setup.callLibrary
  split
  · exact kept.lasts.throw _
  · split
    · exact kept.lasts.throw _
    · split
      · exact kept.lasts.throw _
      · split
        · next answer _ =>
            exact kept.lasts.bind (fun start => kept.print start answer.printed)
              fun _ => kept.lasts.pure _
        · exact kept.lasts.throw _

theorem inFrame (kept : KeptByCalls relation) {frame : Context} {body : Run (Flow × Value)}
    (within : body.Keeps relation) : (Setup.inFrame frame body).Keeps relation := by
  intro start
  rw [Setup.ends_inFrame]
  exact (within (start.openFrame frame)).mono (fun _ _ left => kept.frame left)
    fun _ left => kept.frame left

/-- Calls keep what the bodies of functions keep. The induction is on how many more calls may be
nested, which is one less inside of each. -/
theorem call (kept : KeptByCalls relation)
    (bodies : ∀ caller : Caller, caller.Keeps relation → ∀ inst name function,
      setup.findFunction inst name = some function →
        (setup.runExemplarWith caller function).Keeps relation)
    (remaining : Nat) : (setup.call remaining).Keeps relation := by
  induction remaining with
  | zero =>
      intro name arguments start
      simp only [Setup.call, Run.ends_bind, Run.ends_get]
      split
      · exact kept.callLibrary setup name arguments start
      · split
        · exact kept.lasts.throw _ start
        · exact kept.lasts.throw _ start
  | succ remaining inductionHypothesis =>
      intro name arguments start
      simp only [Setup.call, Run.ends_bind, Run.ends_get]
      split
      · exact kept.callLibrary setup name arguments start
      · next function found =>
          split
          · exact kept.lasts.throw _ start
          · exact kept.inFrame (bodies _ inductionHypothesis start.inst name function found) start

end KeptByCalls

/-! ## Instructions and lists -/

/-- A relation that all effects of instructions keep. -/
structure KeptByRuns (relation : Activation → Activation → Prop) : Prop
    extends KeptByCalls relation where
  values : ∀ {start left : Activation}, left.skeleton = start.skeleton → relation start left
  launch : ∀ (start : Activation) machine, relation start (start.launch machine)
  queue : ∀ (start : Activation) target, relation start (start.queue target)
  refer : ∀ (start : Activation) cells key, relation start (start.refer cells key)
  park : ∀ start : Activation, relation start start.park

namespace KeptByRuns

variable {relation : Activation → Activation → Prop} {setup : Setup} {caller : Caller}

theorem launches (kept : KeptByRuns relation) (name : String) :
    (setup.launch name).Keeps relation := by
  intro start
  unfold Setup.launch
  rw [Run.ends_bind, Run.ends_get]
  split
  · next machine _ => exact kept.launch start machine
  · exact kept.lasts.throw _ start

theorem holdShared (kept : KeptByRuns relation) (name : String) {default : Run Value}
    (evaluated : default.Keeps relation) : (Setup.holdShared name default).Keeps relation := by
  intro start
  unfold Setup.holdShared
  simp only [Run.ends_bind, Run.ends_get]
  cases start.world.shared.retain? (start.inst.machine, name) with
  | some cells => exact kept.refer start cells _
  | none =>
      rw [Run.ends_bind]
      exact (evaluated start).mono
        (fun _ left before => kept.lasts.trans before (kept.refer left _ _))
        fun _ before => before

theorem execute (kept : KeptByRuns relation) (calls : caller.Keeps relation)
    (instruction : Instruction) : (setup.execute caller instruction).Keeps relation := by
  cases instruction with
  | launch machine => exact kept.lasts.bind (kept.launches machine) fun _ => kept.lasts.pure _
  | goto target =>
      exact kept.lasts.bind (fun start => kept.queue start target) fun _ => kept.lasts.pure _
  | set name source =>
      apply kept.lasts.bind (kept.evalSource calls source)
      intro value
      exact kept.lasts.bind
        (Run.keeps_modify fun start => kept.values (start.skeleton_set setup name value))
        fun _ => kept.lasts.pure _
  | shared name source =>
      exact kept.lasts.bind (kept.holdShared name (kept.evalSource calls source))
        fun _ => kept.lasts.pure _
  | call callee arguments =>
      exact kept.lasts.bind (kept.evalSources calls arguments) (calls callee)

theorem runInstructions (kept : KeptByRuns relation) (calls : caller.Keeps relation)
    (suspends : Bool) (last : Value) (instructions : List Instruction) :
    (setup.runInstructions caller suspends last instructions).Keeps relation := by
  induction instructions generalizing last with
  | nil => exact kept.lasts.pure _
  | cons instruction rest inductionHypothesis =>
      rw [Setup.runInstructions]
      apply kept.lasts.bind kept.countInstruction
      intro _
      apply kept.lasts.bind (kept.execute calls instruction)
      intro value
      split
      · cases instruction with
        | launch machine => exact kept.lasts.bind kept.park fun _ => kept.lasts.pure _
        | goto | set | shared | call =>
            exact kept.lasts.bind (kept.lasts.pure _) fun _ => kept.lasts.pure _
      · exact inductionHypothesis value

theorem runExemplarWith (kept : KeptByRuns relation) (calls : caller.Keeps relation)
    (id : ExemplarId) : (setup.runExemplarWith caller id).Keeps relation :=
  kept.runInstructions calls _ .nil _

theorem calls (kept : KeptByRuns relation) (remaining : Nat) :
    (setup.call remaining).Keeps relation :=
  kept.call (fun _ within _ _ function _ => kept.runExemplarWith within function) remaining

theorem runExemplar (kept : KeptByRuns relation) (id : ExemplarId) :
    (setup.runExemplar id).Keeps relation :=
  kept.runExemplarWith (kept.calls _) id

end KeptByRuns

end MachineScript
