import MachineScript.Engine.Host
import MachineScript.Proofs.Phases

/-!
Contract: every engine that a host can bring about is coherent.

Owns: the start and the tick as wholes, each call of the host, and by
induction any sequence of calls on the engine of a compiled program.

Does not own: what coherence is good for.
-/

namespace MachineScript.Engine

variable {setup : Setup} {engine : Engine}

/-! ## The start -/

/-- An engine whose start has begun. -/
def begun (engine : Engine) : Engine :=
  { engine with started := true, world := { engine.world with now := engine.clock.now } }

/-- The run of the forms at the top of the program. -/
def rootRun (setup : Setup) : Run Unit := do
  let _ ← setup.runExemplar Program.root

theorem start_of_started (started : engine.started = true) : engine.start = (none, engine) := by
  unfold Engine.start
  rw [if_pos started]

theorem start_of_fresh (fresh : engine.started = false) :
    engine.start = match engine.instances.find? rootInstance with
      | some root => engine.begun.activate root (rootRun engine.setup)
      | none => (none, engine.begun) := by
  unfold Engine.start
  rw [if_neg (fresh ▸ Bool.false_ne_true)]
  rfl

theorem start_keeps (engine : Engine) :
    engine.start.2.started = true ∧ engine.start.2.nextId = engine.nextId
      ∧ engine.start.2.created = engine.created ∧ engine.start.2.clock = engine.clock := by
  unfold Engine.start activate
  split
  · next started => exact ⟨started, rfl, rfl, rfl⟩
  · simp only
    split
    · split <;> exact ⟨rfl, rfl, rfl, rfl⟩
    · exact ⟨rfl, rfl, rfl, rfl⟩

theorem rootRun_calm (placed : setup.program.Placed) :
    (rootRun setup).Keeps (Calm setup.program) := by
  have runsOn : (setup.program.exemplar Program.root).construct.suspends = false := by
    rw [placed.root]
    rfl
  have lasts := Calm.lasts setup.program
  exact lasts.bind (Setup.runExemplar_calm placed runsOn) fun _ => lasts.pure ()

/-- The root runs the forms at the top of the program, queues no transition, and is suspended. -/
theorem Coherent.rootTurn (placed : setup.program.Placed) (coherent : engine.Coherent setup [])
    {root : Instance} (found : engine.instances.find? rootInstance = some root) :
    ∃ after, (engine.begun.activate root (rootRun setup)).2 = engine.begun.put after
      ∧ Turns setup.program engine.begun root after none ∧ after.inst.id = rootInstance
      ∧ after.inst.status = .suspended := by
  have member := Bindings.mem_of_find? found
  have id : root.id = rootInstance := coherent.id_of_find? found
  have isRoot : root.isRoot = true := decide_eq_true id
  have rests := coherent.rests _ member
  obtain ⟨empty, unqueued⟩ := rests.root isRoot
  rw [← id] at member
  have absent : root.id ∉ instancesOf engine.begun.world.transitions :=
    coherent.notMem_of_unqueued member unqueued
  have ends := (rootRun_calm placed (engine.begun.starting root)).mono
    (fun _ left calm => And.intro (Settles.waits calm.toSteady)
      fun _ : root.isRoot = true => And.intro (calm.contexts_eq_nil empty)
        (calm.queued.trans unqueued))
    fun _ calm => calm.toSteady
  obtain ⟨after, queued, put, turns, _, suspended⟩ := activate_turns rests unqueued absent ends
  have isStillRoot : after.inst.isRoot = true := by
    unfold Instance.isRoot
    rw [turns.id]
    exact isRoot
  have flag := turns.flag
  rw [(turns.rests.root isStillRoot).2] at flag
  cases queued with
  | none => exact ⟨after, put, turns, turns.id.trans id, suspended isRoot⟩
  | some target => cases flag

/-- What a start does: nothing if there has been one, and else a turn of the root, if there is a
root. -/
theorem Coherent.start_cases (placed : setup.program.Placed) (coherent : engine.Coherent setup []) :
    engine.start.2 = engine
      ∨ engine.start.2 = engine.begun ∧ engine.instances.find? rootInstance = none
      ∨ ∃ root after, engine.instances.find? rootInstance = some root
        ∧ engine.start.2 = engine.begun.put after
        ∧ Turns setup.program engine.begun root after none
        ∧ after.inst.id = rootInstance ∧ after.inst.status = .suspended := by
  cases fresh : engine.started with
  | true => exact .inl (congrArg Prod.snd (start_of_started fresh))
  | false =>
      right
      rw [start_of_fresh fresh, coherent.same]
      cases found : engine.instances.find? rootInstance with
      | none => exact .inl ⟨rfl, rfl⟩
      | some root =>
          obtain ⟨after, turn⟩ := coherent.rootTurn placed found
          exact .inr ⟨root, after, rfl, turn⟩

/-- The forms at the top of a program run once, and queue no transition. -/
theorem Coherent.start (placed : setup.program.Placed) (coherent : engine.Coherent setup []) :
    engine.start.2.Coherent setup [] ∧ engine.Follows engine.start.2
      ∧ engine.start.2.world.transitions = engine.world.transitions := by
  have begun : engine.begun.Coherent setup [] :=
    coherent.congr rfl rfl rfl rfl coherent.launches rfl
  have follows : engine.Follows engine.begun := Follows.of_subset rfl fun _ there => there
  rcases coherent.start_cases placed with same | ⟨same, _⟩
    | ⟨root, after, found, same, turns, id, _⟩
  · rw [same]
    exact ⟨coherent, Follows.refl engine, rfl⟩
  · rw [same]
    exact ⟨begun, follows, rfl⟩
  · have member := Bindings.mem_of_find? found
    have isRoot : root.id = rootInstance := coherent.id_of_find? found
    rw [← isRoot] at member
    have unqueued := ((coherent.rests _ member).root (decide_eq_true isRoot)).2
    rw [same]
    refine ⟨begun.put member unqueued turns, follows.trans ?_,
      turns.transitions.trans (List.append_nil _)⟩
    apply Follows.of_put begun (Nat.le_refl _) rfl
    exact .inr ⟨root, turns.id ▸ member, turns.machine⟩

/-- The start concerns no other instance. -/
theorem Coherent.find?_start (placed : setup.program.Placed) (coherent : engine.Coherent setup [])
    {id : InstanceId} (other : id ≠ rootInstance) :
    engine.start.2.instances.find? id = engine.instances.find? id := by
  rcases coherent.start_cases placed with same | ⟨same, _⟩ | ⟨root, after, _, same, _, isRoot, _⟩
  · rw [same]
  · rw [same]
    rfl
  · rw [same]
    exact Bindings.find?_insert_other _ _ (isRoot ▸ Ne.symm other)

/-- The root runs in its place. -/
theorem Coherent.length_start (placed : setup.program.Placed)
    (coherent : engine.Coherent setup []) :
    engine.start.2.instances.length = engine.instances.length := by
  rcases coherent.start_cases placed with same | ⟨same, _⟩ | ⟨root, after, found, same, _, id, _⟩
  · rw [same]
  · rw [same]
    rfl
  · rw [same]
    change (engine.instances.insert after.inst.id after.inst).length = _
    rw [Bindings.length_insert, id, found]
    rfl

/-- What fails in a start is the root, and only an engine that has not started. -/
theorem Coherent.instanceId_of_start (coherent : engine.Coherent setup []) {fault : InstanceFault}
    (failed : engine.start.1 = some fault) :
    fault.instanceId = rootInstance ∧ engine.started = false := by
  cases fresh : engine.started with
  | true =>
      rw [start_of_started fresh] at failed
      cases failed
  | false =>
      rw [start_of_fresh fresh] at failed
      split at failed
      · next root found =>
          rw [instanceId_of_activate failed]
          exact ⟨coherent.id_of_find? found, rfl⟩
      · cases failed

/-! ## The tick -/

theorem Coherent.ready (placed : setup.program.Placed) (coherent : engine.Coherent setup []) :
    engine.ready.Coherent setup [] ∧ engine.Follows engine.ready
      ∧ engine.dueTransitions = engine.world.transitions := by
  obtain ⟨started, follows, queue⟩ := coherent.start placed
  refine ⟨started.congr rfl rfl rfl rfl started.launches rfl, ?_, queue⟩
  exact follows.trans (Follows.of_subset rfl fun _ there => there)

theorem Coherent.opened (placed : setup.program.Placed) (coherent : engine.Coherent setup []) :
    engine.opened.engine.Coherent setup engine.dueTransitions
      ∧ engine.Follows engine.opened.engine := by
  obtain ⟨ready, follows, _⟩ := coherent.ready placed
  refine ⟨ready.congr rfl rfl rfl rfl ?_ (List.append_nil _),
    follows.trans (Follows.of_subset rfl fun _ there => there)⟩
  exact fun pending there => ready.launches pending (List.mem_of_mem_drop there)

/-- The phases of a tick lead from one another. -/
theorem Coherent.phases (placed : setup.program.Placed) (coherent : engine.Coherent setup []) :
    Phase setup engine.opened engine.launchTurns engine.launched engine.dueTransitions
      ∧ Phase setup engine.launched engine.transitionTurns engine.transitioned []
      ∧ Phase setup engine.transitioned engine.pollTurns engine.polled [] := by
  obtain ⟨opened, _⟩ := coherent.opened placed
  obtain ⟨ready, _, _⟩ := coherent.ready placed
  have machines : ∀ pending ∈ engine.dueLaunches,
      (setup.program.exemplar pending.machine).construct = .machine :=
    fun pending there => ready.launches pending (List.mem_of_mem_take there)
  have launches := launch_phase placed machines opened
  have due : engine.launched.engine.Coherent setup (engine.dueTransitions ++ []) := by
    rw [List.append_nil]
    exact launches.coherent
  have transitions := transition_phase placed due
  exact ⟨launches, transitions, poll_phase placed transitions.coherent⟩

/-! The engine is coherent before each turn, too. -/

theorem Coherent.of_mem_launchTurns (placed : setup.program.Placed)
    (coherent : engine.Coherent setup []) {turn : Turn} (member : turn ∈ engine.launchTurns) :
    ∃ progress pending, turn = Progress.launchTurn progress pending
      ∧ progress.engine.Coherent setup engine.dueTransitions
      ∧ (setup.program.exemplar pending.machine).construct = .machine := by
  obtain ⟨opened, _⟩ := coherent.opened placed
  obtain ⟨ready, _, _⟩ := coherent.ready placed
  obtain ⟨front, pending, back, due, taken⟩ := mem_turnsOf member
  have machines : ∀ other ∈ front ++ pending :: back,
      (setup.program.exemplar other.machine).construct = .machine := by
    rw [← due]
    exact fun other there => ready.launches other (List.mem_of_mem_take there)
  have before := launch_phase placed
    (fun other there => machines other (List.mem_append_left _ there)) opened
  refine ⟨front.foldl Progress.launch engine.opened, pending, ?_, before.coherent, ?_⟩
  · exact (Option.some.inj taken).symm
  · exact machines pending (List.mem_append_right _ List.mem_cons_self)

theorem Coherent.of_mem_transitionTurns (placed : setup.program.Placed)
    (coherent : engine.Coherent setup []) {turn : Turn} (member : turn ∈ engine.transitionTurns) :
    ∃ before inst target due, turn = ⟨before, inst, .transition target⟩
      ∧ before.Coherent setup due ∧ (inst.id, inst) ∈ before.instances := by
  obtain ⟨launches, _, _⟩ := coherent.phases placed
  obtain ⟨front, pending, back, due, taken⟩ := mem_turnsOf member
  have launched := launches.coherent
  rw [due] at launched
  have before := (transition_phase placed launched).coherent
  obtain ⟨inst, isTurn, _, there, _⟩ := before.transitionTurn placed
  exact ⟨_, inst, pending.target, _, Option.some.inj (taken.symm.trans isTurn), before, there⟩

theorem Coherent.of_mem_pollTurns (placed : setup.program.Placed)
    (coherent : engine.Coherent setup []) {turn : Turn} (member : turn ∈ engine.pollTurns) :
    ∃ before inst, turn = ⟨before, inst, .poll⟩ ∧ inst.isRoot = false
      ∧ before.Coherent setup [] ∧ (inst.id, inst) ∈ before.instances := by
  obtain ⟨_, transitions, _⟩ := coherent.phases placed
  obtain ⟨front, id, back, _, taken⟩ := mem_turnsOf member
  have before : (front.foldl Progress.poll engine.transitioned).engine.Coherent setup [] :=
    (poll_phase placed transitions.coherent).coherent
  obtain ⟨inst, rfl, _, there, _, orderly⟩ := before.pollTurn placed taken
  exact ⟨_, inst, rfl, orderly.notRoot, before, there⟩

/-- Behind its turns a tick only removes instances, with their shared variables. -/
theorem runTick_eq (engine : Engine) : ∃ instances shared,
    engine.runTick.2
      = { engine.polled.engine with
          instances := instances
          world := { engine.polled.engine.world with shared := shared } } :=
  retireAll_eq _ _

/-- A tick is one turn after another. -/
theorem Coherent.tick (placed : setup.program.Placed) (coherent : engine.Coherent setup []) :
    Phase setup engine.opened engine.turns engine.polled [] := by
  obtain ⟨launches, transitions, polls⟩ := coherent.phases placed
  exact (launches.append transitions).append polls

theorem Coherent.runTick (placed : setup.program.Placed) (coherent : engine.Coherent setup []) :
    engine.runTick.2.Coherent setup [] ∧ engine.Follows engine.runTick.2 := by
  have tick := coherent.tick placed
  obtain ⟨_, opened⟩ := coherent.opened placed
  rw [runTick_engine]
  have retired := tick.coherent.retireAll fun _ member => member
  exact ⟨retired.1, opened.trans (tick.follows.trans retired.2)⟩

/-- After a tick the instances are gone that have finished, and the others are there. -/
theorem find?_runTick (engine : Engine) (id : InstanceId) :
    engine.runTick.2.instances.find? id
      = if id ∈ engine.polled.engine.retiring then none
        else engine.polled.engine.instances.find? id :=
  find?_retireAll _ _ _

theorem Coherent.started_runTick (placed : setup.program.Placed)
    (coherent : engine.Coherent setup []) : engine.runTick.2.started = true := by
  obtain ⟨instances, shared, same⟩ := engine.runTick_eq
  rw [same]
  exact (coherent.tick placed).succession.started.trans engine.start_keeps.1

/-- A tick reports the fault of the start and those of its turns. -/
theorem Coherent.runTick_faults (placed : setup.program.Placed)
    (coherent : engine.Coherent setup []) :
    engine.runTick.1.faults
      = engine.start.1.toList ++ engine.turns.flatMap fun turn => turn.outcome.1.toList :=
  (coherent.tick placed).faults

theorem runUntilHalted_eq (maxTicks : Nat) (engine : Engine) : ∃ count ≤ maxTicks,
    (engine.runUntilHalted maxTicks).2 = engine.performAll (List.replicate count .tick) := by
  induction maxTicks generalizing engine with
  | zero => exact ⟨0, Nat.le_refl 0, rfl⟩
  | succ maxTicks inductionHypothesis =>
      unfold Engine.runUntilHalted
      split
      · exact ⟨0, Nat.zero_le _, rfl⟩
      · obtain ⟨count, bounded, same⟩ := inductionHypothesis engine.runTick.2
        exact ⟨count + 1, Nat.succ_le_succ bounded, same⟩

/-! ## Calls of the host -/

theorem Coherent.terminate (coherent : engine.Coherent setup []) (id : InstanceId) :
    (engine.terminate id).2.Coherent setup [] := by
  rcases engine.terminate_cases id with refused | ⟨_, ⟨inst, found⟩, removed⟩
  · rw [refused]
    exact coherent
  · rw [removed]
    exact coherent.remove found

/-- Whatever a host does, a coherent engine stays coherent. -/
theorem Coherent.move {next : Engine} (placed : setup.program.Placed)
    (coherent : engine.Coherent setup []) (move : engine.Move next) :
    next.Coherent setup [] ∧ engine.Follows next := by
  cases move with
  | start =>
      obtain ⟨started, follows, _⟩ := coherent.start placed
      exact ⟨started, follows⟩
  | tick => exact coherent.runTick placed
  | @launch machine exemplar found =>
      refine ⟨coherent.congr rfl rfl rfl rfl ?_ rfl, Follows.of_subset rfl fun _ there => there⟩
      intro pending there
      rcases List.mem_append.mp there with before | added
      · exact coherent.launches pending before
      · rw [List.mem_singleton.mp added]
        rw [coherent.same] at found
        exact (placed.nested found).1
  | @terminate id inst _ found =>
      have follows : engine.Follows (engine.withoutTransition id) :=
        Follows.of_subset rfl fun _ there => there
      exact ⟨coherent.remove found, follows.trans (follows_retire _ id)⟩
  | @assign id inst after found quiet =>
      have member := Bindings.mem_of_find? found
      have same : inst.id = id := coherent.id_of_find? found
      rw [← same] at member
      rw [coherent.same] at quiet
      refine ⟨coherent.putQuiet member quiet, ?_⟩
      apply Follows.of_put coherent (Nat.le_refl _) rfl
      exact .inr ⟨inst, quiet.id ▸ member, quiet.calm.machine⟩
  | surroundings clock printer =>
      exact ⟨coherent.congr rfl rfl rfl rfl coherent.launches rfl,
        Follows.of_subset rfl fun _ there => there⟩

/-! ## Reachable engines -/

/-- An engine that has not started is coherent. -/
theorem build_coherent (program : Program) (registry : Registry) (config : EngineConfig)
    (printer : Printer) :
    (build program registry config printer).Coherent ⟨program, registry, config⟩ [] := by
  have only : ∀ entry ∈ (build program registry config printer).instances,
      entry = (rootInstance, Instance.create rootInstance Program.root none) :=
    fun _ there => List.mem_singleton.mp there
  refine ⟨rfl, by simp [build], ?_, Nat.zero_lt_one, ?_, nofun, List.nodup_nil, nofun, ?_,
    ?_⟩
  · intro entry there
    rw [only entry there]
    exact ⟨rfl, Nat.zero_lt_one⟩
  · intro entry there
    rw [only entry there]
    exact ⟨⟨rfl, nofun, trivial, nofun, nofun⟩, fun _ => ⟨rfl, rfl⟩, nofun⟩
  · intro entry there
    rw [only entry there]
    exact ⟨nofun, nofun⟩
  · intro key
    rfl

/-- However long a coherent engine is moved, it stays coherent, and its instances keep their
machines. -/
theorem Moves.coherent {before after : Engine} (placed : setup.program.Placed)
    (coherent : before.Coherent setup []) (moves : before.Moves after) :
    after.Coherent setup [] ∧ before.Follows after := by
  induction moves with
  | refl => exact ⟨coherent, .refl before⟩
  | tail _ move inductionHypothesis =>
      obtain ⟨middle, follows⟩ := inductionHypothesis
      obtain ⟨last, others⟩ := middle.move placed move
      exact ⟨last, follows.trans others⟩

/-- What every move of a coherent engine keeps is kept by all moves. -/
theorem Moves.keeps {before after : Engine} (placed : setup.program.Placed)
    (coherent : before.Coherent setup []) (moves : before.Moves after) {kept : Engine → Prop}
    (step : ∀ {engine next : Engine}, engine.Coherent setup [] → kept engine → engine.Move next →
      kept next) (holds : kept before) : kept after := by
  induction moves with
  | refl => exact holds
  | tail earlier move inductionHypothesis =>
      exact step (Moves.coherent placed coherent earlier).1 inductionHypothesis move

theorem Reaches.coherent {before after : Engine} (placed : setup.program.Placed)
    (coherent : before.Coherent setup []) (reached : before.Reaches after) :
    after.Coherent setup [] ∧ before.Follows after :=
  reached.moves.coherent placed coherent

/-- Every engine that a host can make of a compiled program is coherent. -/
theorem Reaches.coherent_of_compiled {options : CompileOptions} {tape : Tape}
    {compilation : Compilation} (compiled : tape.compile options = .ok compilation)
    {registry : Registry} {config : EngineConfig} {printer : Printer}
    (reached : (build compilation.program registry config printer).Reaches engine) :
    engine.Coherent ⟨compilation.program, registry, config⟩ [] := by
  have placed : (Setup.mk compilation.program registry config).program.Placed :=
    Tape.compile_placed compiled
  exact (Reaches.coherent placed (build_coherent _ registry config printer) reached).1

end MachineScript.Engine
