import MachineScript.Proofs.Declarations
import MachineScript.Proofs.Reachable
import MachineScript.Proofs.Run.Calls
import MachineScript.Proofs.Run.Polls

/-!
Contract: the points that a run passes.

Owns:
- the parts of a run, from the errand of a turn down to a call inside a value,
  and which parts begin in the course of another, in which activations;
- what holds at each of these points: frames of functions, as many as calls are
  open, on top of a lexical stack; and exemplars of the constructs that the
  parts are about;
- that the points of a reachable engine are all like that.

Does not own: what is looked up at a point, and how long a run takes.
-/

namespace MachineScript

/-! ## Parts of a run -/

/-- What is about to be done for an instance: an errand, the registration of a handler, the list of
an exemplar of some construct, an instruction, a value whose inline calls have exemplars of some
construct, or a call. -/
inductive Activity where
  | errand (errand : Errand)
  | registration (handler : ExemplarId)
  | list (construct : Construct) (owner : ExemplarId)
  | instruction (instruction : Instruction)
  | value (construct : Construct) (source : Source)
  | call (callee : String) (arguments : List Value)

/-- A part of a run, and the activation in which it begins. -/
structure Point where
  activity : Activity
  activation : Activation

/-- The frame of a call of a script function. -/
def Setup.frameOf (setup : Setup) (function : ExemplarId) (arguments : List Value) : Context :=
  (Context.frame function (setup.program.exemplar function).isPure).bind
    (setup.program.exemplar function).parameters arguments

/-- A part of a run begins in the course of another one, once what comes before it has ended. -/
inductive Point.Begins (setup : Setup) : Point → Point → Prop where
  /-- A launch runs the machine's own instructions first. -/
  | machine (start : Activation) :
      Begins setup ⟨.errand .launch, start⟩ ⟨.list .machine start.inst.machine, start⟩
  /-- A state that is entered registers its handlers one after another. -/
  | registration {errand : Errand} {start arrived registered : Activation} {state : ExemplarId}
      {front back : List ExemplarId} {handler : ExemplarId}
      (arrives : errand.destination setup start = .ok (some state) arrived)
      (handlers : (setup.program.exemplar state).handlers = front ++ handler :: back)
      (before : setup.registerHandlers front (arrived.enter state) = .ok () registered) :
      Begins setup ⟨.errand errand, start⟩ ⟨.registration handler, registered⟩
  | condition {handler : ExemplarId} {start : Activation} {constant : Constant}
      (argument : (setup.program.exemplar handler).argument = some constant) :
      Begins setup ⟨.registration handler, start⟩ ⟨.value .argument (.constant constant), start⟩
  | state {errand : Errand} {start arrived registered : Activation} {state : ExemplarId}
      (arrives : errand.destination setup start = .ok (some state) arrived)
      (before : setup.registerHandlers (setup.program.exemplar state).handlers
        (arrived.enter state) = .ok () registered) :
      Begins setup ⟨.errand errand, start⟩ ⟨.list .state state, registered⟩
  /-- A poll runs a handler whose condition holds. -/
  | handler {start : Activation} {head : PollHead} {callback : Callback}
      (polls : setup.PollsAt start head) (found : head.callback? = some callback)
      (satisfied : setup.satisfaction head.activation callback = some (.ok true)) :
      Begins setup ⟨.errand .poll, start⟩ ⟨.list .handler callback.handler, head.fire⟩
  /-- A list comes to an instruction if those in front of it have not ended the list. -/
  | instruction {construct : Construct} {owner : ExemplarId} {start current : Activation}
      {front back : List Instruction} {instruction : Instruction} {value : Value}
      (instructions : (setup.program.exemplar owner).instructions = front ++ instruction :: back)
      (before : setup.runInstructions setup.callAtDepth
        (setup.program.exemplar owner).construct.suspends .nil front start
          = .ok (.completed, value) current) :
      Begins setup ⟨.list construct owner, start⟩ ⟨.instruction instruction, current.count⟩
  | set (name : String) (source : Source) (start : Activation) :
      Begins setup ⟨.instruction (.set name source), start⟩ ⟨.value .assigned source, start⟩
  /-- The default of a shared variable is evaluated if nothing holds the variable. -/
  | shared {name : String} {source : Source} {start : Activation}
      (absent : start.world.shared.retain? (start.inst.machine, name) = none) :
      Begins setup ⟨.instruction (.shared name source), start⟩ ⟨.value .assigned source, start⟩
  | argument {callee : String} {front back : List Source} {source : Source}
      {start current : Activation} {values : List Value}
      (before : setup.evalSources setup.callAtDepth front start = .ok values current) :
      Begins setup ⟨.instruction (.call callee (front ++ source :: back)), start⟩
        ⟨.value .argument source, current⟩
  | call {callee : String} {arguments : List Source} {start current : Activation}
      {values : List Value}
      (before : setup.evalSources setup.callAtDepth arguments start = .ok values current) :
      Begins setup ⟨.instruction (.call callee arguments), start⟩ ⟨.call callee values, current⟩
  /-- An inline call has an exemplar of its own. -/
  | inline (construct : Construct) (id : ExemplarId) (callee : String) (arguments : List Source)
      (start : Activation) :
      Begins setup ⟨.value construct (.nested id callee arguments), start⟩
        ⟨.list construct id, start⟩
  /-- The body of a function runs in a frame of its own. -/
  | body {callee : String} {arguments : List Value} {function : ExemplarId} {start : Activation}
      (found : setup.findFunction start.inst callee = some function)
      (arity : arguments.length = (setup.program.exemplar function).parameters.length)
      (room : start.inst.callDepth < setup.config.maxCallDepth) :
      Begins setup ⟨.call callee arguments, start⟩
        ⟨.list .function function, start.openFrame (setup.frameOf function arguments)⟩

/-! ## Instances that run -/

/-- The contexts of an instance are frames of functions on top of a lexical stack. -/
structure Instance.Layered (inst : Instance) (program : Program) (frames states : List Context) :
    Prop where
  contexts : inst.contexts = frames ++ states
  functions : ∀ frame ∈ frames, frame.isFrame = true
    ∧ (program.exemplar frame.exemplar).construct = .function
  lexical : program.Lexical inst.machine states

/-- There are as many frames as calls are open. -/
def Instance.Stands (inst : Instance) (program : Program) : Prop :=
  ∃ frames states, inst.Layered program frames states ∧ frames.length = inst.callDepth

/-- What holds of an instance and the launches of the world wherever the instance runs. -/
structure Activation.Runs (activation : Activation) (program : Program) : Prop where
  stands : activation.inst.Stands program
  root : activation.inst.isRoot = true → activation.inst.machine = Program.root
  machine : activation.inst.isRoot = false →
    (program.exemplar activation.inst.machine).construct = .machine
  handlers : activation.inst.WaitsForHandlers program
  launches : ∀ pending ∈ activation.world.launches,
    (program.exemplar pending.machine).construct = .machine

/-- No state of a lexical stack is a frame. -/
theorem Program.Lexical.isFrame_eq_false {program : Program} {machine : ExemplarId}
    {states : List Context} (lexical : program.Lexical machine states) :
    ∀ context ∈ states, context.isFrame = false := by
  induction states with
  | nil => exact List.forall_mem_nil _
  | cons context outer inductionHypothesis =>
      obtain ⟨kind, _, _, rest⟩ := lexical
      refine List.forall_mem_cons.mpr ⟨?_, inductionHypothesis rest⟩
      unfold Context.isFrame
      rw [kind]

theorem Instance.stands_of_lexical {inst : Instance} {program : Program}
    (outside : inst.callDepth = 0) (lexical : program.Lexical inst.machine inst.contexts) :
    inst.Stands program :=
  ⟨[], inst.contexts, ⟨rfl, List.forall_mem_nil _, lexical⟩, outside.symm⟩

/-- Outside of all calls there are states only. -/
theorem Instance.Stands.lexical {inst : Instance} {program : Program} (stands : inst.Stands program)
    (outside : inst.callDepth = 0) : program.Lexical inst.machine inst.contexts := by
  obtain ⟨frames, states, ⟨contexts, _, lexical⟩, length⟩ := stands
  rw [outside, List.length_eq_zero_iff] at length
  rw [contexts, length]
  exact lexical

/-- Contexts of the same exemplars and kinds stand alike. -/
theorem Instance.Stands.of_stack {inst other : Instance} {program : Program}
    (stands : inst.Stands program) (stack : other.stack = inst.stack)
    (machine : other.machine = inst.machine) (callDepth : other.callDepth = inst.callDepth) :
    other.Stands program := by
  obtain ⟨frames, states, ⟨contexts, functions, lexical⟩, length⟩ := stands
  unfold Instance.stack at stack
  rw [contexts, List.map_append] at stack
  obtain ⟨others, below, same, sameFrames, sameStates⟩ := List.map_eq_append_iff.mp stack
  refine ⟨others, below, ⟨same, ?_, ?_⟩, ?_⟩
  · intro frame member
    have listed : (frame.exemplar, frame.kind) ∈ frames.map fun context =>
        (context.exemplar, context.kind) :=
      sameFrames ▸ List.mem_map_of_mem member
    obtain ⟨before, there, same⟩ := List.mem_map.mp listed
    rw [Prod.mk.injEq] at same
    obtain ⟨isFrame, isFunction⟩ := functions before there
    unfold Context.isFrame at isFrame ⊢
    rw [← same.1, ← same.2]
    exact ⟨isFrame, isFunction⟩
  · rw [machine]
    exact Program.lexical_of_stack sameStates lexical
  · rw [callDepth, ← length]
    simpa only [List.length_map] using congrArg List.length sameFrames

namespace Activation.Runs

variable {program : Program} {before after : Activation}

theorem launches_of_queued (runs : before.Runs program)
    (queued : LaunchesQueued program before.inst.id before.world.launches after.world.launches) :
    ∀ pending ∈ after.world.launches, (program.exemplar pending.machine).construct = .machine := by
  obtain ⟨launched, same, machines⟩ := queued
  rw [same]
  intro pending member
  rcases List.mem_append.mp member with waited | added
  · exact runs.launches pending waited
  · exact (machines pending added).2

theorem of_calm (runs : before.Runs program) (calm : Calm program before after) :
    after.Runs program where
  stands := runs.stands.of_stack calm.stack calm.machine calm.callDepth
  root isRoot := calm.machine.trans (runs.root (calm.isRoot ▸ isRoot))
  machine notRoot := calm.machine ▸ runs.machine (calm.isRoot ▸ notRoot)
  handlers := calm.handlers runs.handlers
  launches := runs.launches_of_queued calm.launches

/-- Outside of all calls an instance may also change its state. -/
theorem of_steady (runs : before.Runs program) (outside : before.inst.callDepth = 0)
    (steady : Steady program before after) : after.Runs program where
  stands := Instance.stands_of_lexical (steady.callDepth.trans outside)
    (steady.lexical (runs.stands.lexical outside))
  root isRoot := steady.machine.trans (runs.root (steady.isRoot ▸ isRoot))
  machine notRoot := steady.machine ▸ runs.machine (steady.isRoot ▸ notRoot)
  handlers := steady.handlers runs.handlers
  launches := runs.launches_of_queued steady.launches

/-- An instance that runs may open the frame of a function. -/
theorem openFrame (runs : before.Runs program) {frame : Context} (isFrame : frame.isFrame = true)
    (isFunction : (program.exemplar frame.exemplar).construct = .function)
    (unwatched : frame.callbacks = []) : (before.openFrame frame).Runs program where
  stands := by
    obtain ⟨frames, states, ⟨contexts, functions, lexical⟩, length⟩ := runs.stands
    refine ⟨frame :: frames, states, ⟨?_, ?_, lexical⟩, congrArg Nat.succ length⟩
    · exact congrArg (frame :: ·) contexts
    · exact List.forall_mem_cons.mpr ⟨⟨isFrame, isFunction⟩, functions⟩
  root := runs.root
  machine := runs.machine
  handlers := by
    refine List.forall_mem_cons.mpr ⟨?_, runs.handlers⟩
    rw [unwatched]
    exact List.forall_mem_nil _
  launches := runs.launches

end Activation.Runs

theorem Context.bind_keeps (context : Context) (parameters : List String)
    (arguments : List Value) :
    (context.bind parameters arguments).exemplar = context.exemplar
      ∧ (context.bind parameters arguments).kind = context.kind
      ∧ (context.bind parameters arguments).callbacks = context.callbacks := by
  unfold bind
  induction parameters.zip arguments generalizing context with
  | nil => exact ⟨rfl, rfl, rfl⟩
  | cons entry rest inductionHypothesis =>
      exact inductionHypothesis (context.assign entry.1 entry.2)

/-! ## What parts of a run are about -/

/-- A part of a run is about exemplars of the constructs that belong to it. -/
def Point.Fits (point : Point) (program : Program) : Prop :=
  match point.activity with
  | .errand errand => point.activation.inst.callDepth = 0
      ∧ (errand = .launch → point.activation.inst.contexts = []
        ∧ (program.exemplar point.activation.inst.machine).construct = .machine)
  | .registration handler => (program.exemplar handler).construct = .handler
  | .list construct owner => program.Stores owner construct
  | .instruction instruction => ∃ owner, instruction ∈ (program.exemplar owner).instructions
  | .value construct source => source.Filed program construct
  | .call _ _ => True

/-! ## Sound points -/

/-- What holds at every point of a run. -/
structure Point.Sound (point : Point) (setup : Setup) : Prop where
  runs : point.activation.Runs setup.program
  limited : point.activation.inst.callDepth ≤ setup.config.maxCallDepth
  fits : point.Fits setup.program

namespace Errand

variable {setup : Setup} {errand : Errand} {start : Activation}

/-- The state at which an errand arrives may be entered. -/
theorem destination_runs (placed : setup.program.Placed) (runs : start.Runs setup.program)
    (outside : start.inst.callDepth = 0)
    (fresh : errand = .launch → start.inst.contexts = []
      ∧ (setup.program.exemplar start.inst.machine).construct = .machine) :
    (errand.destination setup).Ends start
      (fun destination left => ∀ state, destination = some state →
        (setup.program.exemplar state).construct = .state
          ∧ (left.enter state).Runs setup.program ∧ left.inst.callDepth = 0)
      (fun _ => True) := by
  have lasts := Steady.lasts setup.program
  cases errand with
  | launch =>
      obtain ⟨empty, isMachine⟩ := fresh rfl
      have runsOn : (setup.program.exemplar start.inst.machine).construct.suspends = false := by
        rw [isMachine]
        rfl
      simp only [destination, Run.ends_bind, Run.ends_get]
      apply (Setup.runExemplar_calm placed runsOn start).mono _ fun _ _ => trivial
      intro _ left calm
      split
      · next main found =>
          rintro state ⟨⟩
          obtain ⟨isState, parent⟩ := placed.nested found
          have held : (setup.program.exemplar main).parent
              = some (Instance.holder left.inst.machine left.inst.contexts) := by
            rw [parent, calm.contexts_eq_nil empty, calm.machine]
            rfl
          refine ⟨isState, ?_, calm.callDepth.trans outside⟩
          have enters := (Roams.enter isState held).toSteady
          exact runs.of_steady outside (lasts.trans calm.toSteady enters)
      · trivial
  | transition target =>
      have unqueued : start.unqueue.Runs setup.program :=
        ⟨runs.stands.of_stack rfl rfl rfl, runs.root, runs.machine, runs.handlers, runs.launches⟩
      simp only [destination, Run.ends_bind, Run.ends_get, Run.ends_modifyInstance]
      split
      · trivial
      · next state found =>
          obtain ⟨isState, scope, parent, stands⟩ := Setup.holder_of_findState placed found
          simp only [Run.ends_bind, Run.ends_modifyInstance, parent]
          rintro state ⟨⟩
          have held : (setup.program.exemplar state).parent
              = some (Instance.holder start.inst.machine
                (start.unqueue.closeTo scope).inst.contexts) := by
            rw [parent]
            exact congrArg some (holder_dropWhile stands).symm
          refine ⟨isState, ?_, outside⟩
          exact unqueued.of_steady outside
            (lasts.trans (Roams.closeTo _ scope).toSteady (Roams.enter isState held).toSteady)
  | poll =>
      simp only [destination, Run.ends_bind]
      refine Run.ends_of_forall _ (fun _ _ => ?_) fun _ => trivial
      rintro state ⟨⟩

end Errand

namespace Setup

variable {setup : Setup}

/-- As long as a list has not ended, its instance stays in the state where it stands. -/
theorem runInstructions_completes (placed : setup.program.Placed) {caller : Caller}
    (calls : caller.Keeps (Quiet setup.program)) {owner : ExemplarId}
    {front back : List Instruction} {last value : Value} {start left : Activation}
    (instructions : (setup.program.exemplar owner).instructions = front ++ back)
    (ended : setup.runInstructions caller (setup.program.exemplar owner).construct.suspends last
      front start = .ok (.completed, value) left) : Calm setup.program start left := by
  have member : ∀ instruction ∈ front,
      instruction ∈ (setup.program.exemplar owner).instructions := by
    rw [instructions]
    exact fun _ there => List.mem_append_left _ there
  cases suspends : (setup.program.exemplar owner).construct.suspends with
  | false =>
      rw [suspends] at ended
      apply (runInstructions_calm calls last _ start).of_ok ended
      exact fun instruction there => notGoto_of_placed placed suspends instruction
        (member instruction there)
  | true =>
      rw [suspends] at ended
      have unshared : ∀ instruction ∈ front, ∀ name value, instruction ≠ .shared name value := by
        rintro _ there name value rfl
        have isMachine := (placed.content owner).shared name value (member _ there)
        rw [isMachine] at suspends
        cases suspends
      cases (runInstructions_suspends calls unshared last start).of_ok ended with
      | completed quiet => exact quiet.calm

end Setup

namespace Point.Sound

variable {setup : Setup} {point next : Point}

/-- Where the instance stays in its state, another part of the run is sound if it fits. -/
theorem of_calm (sound : point.Sound setup) (calm : Calm setup.program point.activation
    next.activation) (fits : next.Fits setup.program) : next.Sound setup :=
  ⟨sound.runs.of_calm calm, calm.callDepth ▸ sound.limited, fits⟩

theorem same (sound : point.Sound setup) {activity : Activity}
    (fits : (Point.mk activity point.activation).Fits setup.program) :
    (Point.mk activity point.activation).Sound setup :=
  ⟨sound.runs, sound.limited, fits⟩

/-- What begins at a sound point is sound. -/
theorem begins (placed : setup.program.Placed) (tree : setup.program.IsTree)
    (sound : point.Sound setup) (begins : point.Begins setup next) : next.Sound setup := by
  have calls := Setup.callAtDepth_keeps placed
  have lasts := Calm.lasts setup.program
  cases begins with
  | machine start =>
      exact sound.same (Program.stores_of_construct (sound.fits.2 rfl).2 (by decide))
  | @registration errand start arrived registered state front back handler arrives handlers
      before =>
      obtain ⟨isState, entered, outside⟩ := (errand.destination_runs placed sound.runs sound.fits.1
        sound.fits.2).of_ok arrives state rfl
      have areHandlers := (placed.content state).handlers
      change ∀ handler ∈ (setup.program.exemplar state).handlers, _ at areHandlers
      rw [handlers] at areHandlers
      have still := (Setup.registerHandlers_keeps (fun other member =>
        areHandlers other (List.mem_append_left _ member)) _).of_ok before
      refine ⟨entered.of_calm still.calm, ?_, areHandlers handler (by simp)⟩
      rw [show registered.inst.callDepth = 0 from still.callDepth.trans outside]
      exact Nat.zero_le _
  | condition => exact sound.same trivial
  | @state errand start arrived registered state arrives before =>
      obtain ⟨isState, entered, outside⟩ := (errand.destination_runs placed sound.runs sound.fits.1
        sound.fits.2).of_ok arrives state rfl
      have still := (Setup.registerHandlers_keeps (placed.content state).handlers _).of_ok before
      refine ⟨entered.of_calm still.calm, ?_, Program.stores_of_construct isState (by decide)⟩
      rw [show registered.inst.callDepth = 0 from still.callDepth.trans outside]
      exact Nat.zero_le _
  | @handler start head callback polls found =>
      obtain ⟨still, _⟩ := polls.still placed sound.runs.handlers
      have waits := still.handlers sound.runs.handlers
      refine sound.of_calm (lasts.trans still.calm (Still.fire _ _ _).calm) ?_
      exact Program.stores_of_construct (Setup.isHandler_of_callback? waits found) (by decide)
  | @instruction construct owner start current front back instruction value instructions before =>
      have calm := Setup.runInstructions_completes placed calls instructions before
      have counted : Quiet setup.program current current.count :=
        ⟨rfl, rfl, rfl, fun _ => rfl, .refl _ _ _⟩
      refine sound.of_calm (lasts.trans calm counted.calm) ⟨owner, ?_⟩
      rw [instructions]
      exact List.mem_append_right _ List.mem_cons_self
  | set name source start =>
      obtain ⟨owner, member⟩ := sound.fits
      exact sound.same (tree.filed_assigned .set member rfl)
  | shared absent =>
      obtain ⟨owner, member⟩ := sound.fits
      exact sound.same (tree.filed_assigned .shared member rfl)
  | argument before =>
      obtain ⟨owner, member⟩ := sound.fits
      have quiet := (Setup.evalSources_keeps calls _ _).of_ok before
      exact sound.of_calm quiet.calm (tree.filed_argument member (by simp))
  | call before =>
      have quiet := (Setup.evalSources_keeps calls _ _).of_ok before
      exact sound.of_calm quiet.calm trivial
  | inline construct id callee arguments start => exact sound.same sound.fits.1
  | @body callee arguments function start found arity room =>
      have isFunction := Setup.construct_of_findFunction placed found
      obtain ⟨exemplar, kind, callbacks⟩ := Context.bind_keeps
        (Context.frame function (setup.program.exemplar function).isPure)
        (setup.program.exemplar function).parameters arguments
      refine ⟨sound.runs.openFrame ?_ ?_ callbacks, room,
        Program.stores_of_construct isFunction (by decide)⟩
      · unfold Context.isFrame Setup.frameOf
        rw [kind]
        rfl
      · unfold Setup.frameOf
        rw [exemplar]
        exact isFunction

end Point.Sound

/-! ## The points of an engine -/

namespace Engine

variable {engine before : Engine} {setup : Setup} {turn : Turn} {due taken : List PendingTransition}

/-- The point at which a turn begins. -/
def Turn.point (turn : Turn) : Point :=
  ⟨.errand turn.errand, turn.engine.starting turn.inst⟩

/-- Where a run of the next tick begins: with the forms at the top of the program, if they have not
run, or with a turn. -/
inductive Enters (engine : Engine) : Point → Prop where
  | root {root : Instance} (fresh : engine.started = false)
      (found : engine.instances.find? rootInstance = some root) :
      Enters engine ⟨.list .root Program.root, engine.begun.starting root⟩
  | turn {turn : Turn} (member : turn ∈ engine.turns) : Enters engine turn.point

/-- The next tick passes a point, in a run of one of the instances. -/
def Passes (engine : Engine) (point : Point) : Prop :=
  ∃ first, engine.Enters first
    ∧ Relation.ReflTransGen (Point.Begins engine.setup) first point

theorem Turn.point_sound (coherent : before.Coherent setup due) (begins : turn.Begins before)
    (orderly : turn.Orderly setup taken) : turn.point.Sound setup := by
  have notRoot : turn.inst.isRoot = true → turn.inst.machine = Program.root := by
    rw [orderly.notRoot]
    exact nofun
  have isMachine := orderly.isMachine
  have launches : ∀ pending ∈ turn.engine.world.launches,
      (setup.program.exemplar pending.machine).construct = .machine := by
    rw [begins.world]
    exact coherent.launches
  cases begins with
  | launch machine parent fresh =>
      exact ⟨⟨Instance.stands_of_lexical rfl trivial, notRoot, fun _ => isMachine,
        List.forall_mem_nil _, launches⟩, Nat.zero_le _, rfl, fun _ => ⟨rfl, isMachine⟩⟩
  | resume inst errand other found =>
      have rests := coherent.rests _ (Bindings.mem_of_find? found)
      have outside : inst.callDepth = 0 := rests.callDepth
      refine ⟨⟨Instance.stands_of_lexical outside rests.lexical, notRoot, fun _ => isMachine,
        rests.handlers, launches⟩, ?_, outside, fun isLaunch => absurd isLaunch other⟩
      exact outside ▸ Nat.zero_le _

/-- The root instance runs the forms at the top of the program. -/
def RunsRoot (engine : Engine) : Prop :=
  ∀ root, engine.instances.find? rootInstance = some root → root.machine = Program.root

theorem Coherent.sound_of_enters (placed : setup.program.Placed) (tree : setup.program.IsTree)
    (coherent : engine.Coherent setup []) (runsRoot : engine.RunsRoot) {point : Point}
    (enters : engine.Enters point) :
    point.Sound setup := by
  cases enters with
  | @root root _ found =>
      have rests := coherent.rests _ (Bindings.mem_of_find? found)
      have outside : root.callDepth = 0 := rests.callDepth
      refine ⟨⟨Instance.stands_of_lexical outside rests.lexical, fun _ => runsRoot root found,
        rests.machine, rests.handlers, coherent.launches⟩, ?_, tree.top.1, placed.root⟩
      exact outside ▸ Nat.zero_le _
  | turn member =>
      obtain ⟨before, due, taken, middle, begins, orderly⟩ :=
        (coherent.tick placed).succession.of_mem member
      exact Turn.point_sound middle begins orderly

/-- Every point that a tick passes is sound. -/
theorem Coherent.sound_of_passes (placed : setup.program.Placed) (tree : setup.program.IsTree)
    (coherent : engine.Coherent setup []) (runsRoot : engine.RunsRoot) {point : Point}
    (passes : engine.Passes point) : point.Sound setup := by
  obtain ⟨first, enters, path⟩ := passes
  rw [coherent.same] at path
  induction path with
  | refl => exact coherent.sound_of_enters placed tree runsRoot enters
  | tail _ begins inductionHypothesis => exact inductionHypothesis.begins placed tree begins

/-- Whatever a host does, the root keeps running the forms at the top of the program. -/
theorem Reaches.runsRoot {program : Program} {registry : Registry} {config : EngineConfig}
    {printer : Printer} (placed : program.Placed)
    (reached : (build program registry config printer).Reaches engine) : engine.RunsRoot := by
  intro root found
  have setupPlaced : (Setup.mk program registry config).program.Placed := placed
  have first := build_coherent program registry config printer
  obtain ⟨_, follows⟩ := reached.coherent setupPlaced first
  rcases follows.machines _ (Bindings.mem_of_find? found) with new | ⟨before, there, same⟩
  · exact absurd new (Nat.not_succ_le_zero _)
  · cases List.mem_singleton.mp there
    exact same

/-- Whatever a host does with a compiled program, its runs pass sound points only. -/
theorem Reaches.sound_of_passes {options : CompileOptions} {tape : Tape}
    {compilation : Compilation} (compiled : tape.compile options = .ok compilation)
    {registry : Registry} {config : EngineConfig} {printer : Printer}
    (reached : (build compilation.program registry config printer).Reaches engine)
    {point : Point} (passes : engine.Passes point) :
    point.Sound ⟨compilation.program, registry, config⟩ :=
  have wellFormed := Tape.wellFormed_of_compile compiled
  (reached.coherent_of_compiled compiled).sound_of_passes wellFormed.placed wellFormed.tree
    (reached.runsRoot wellFormed.placed) passes

/-! What an engine runs stays the program it was built with, so that both can be said of the engine
alone. -/

/-- Whatever a host does with a compiled program, what the engine runs is well formed. -/
theorem Reaches.wellFormed {options : CompileOptions} {tape : Tape}
    {compilation : Compilation} (compiled : tape.compile options = .ok compilation)
    {registry : Registry} {config : EngineConfig} {printer : Printer}
    (reached : (build compilation.program registry config printer).Reaches engine) :
    engine.setup.program.WellFormed := by
  rw [(reached.coherent_of_compiled compiled).same]
  exact Tape.wellFormed_of_compile compiled

/-- The points that an engine's runs pass are sound for what the engine runs. -/
theorem Reaches.sound {options : CompileOptions} {tape : Tape}
    {compilation : Compilation} (compiled : tape.compile options = .ok compilation)
    {registry : Registry} {config : EngineConfig} {printer : Printer}
    (reached : (build compilation.program registry config printer).Reaches engine)
    {point : Point} (passes : engine.Passes point) : point.Sound engine.setup := by
  rw [(reached.coherent_of_compiled compiled).same]
  exact reached.sound_of_passes compiled passes

end Engine

end MachineScript
