import MachineScript.Proofs.History
import MachineScript.Proofs.Reachable
import MachineScript.Proofs.Run.Visibility

/-!
Contract: a host cannot tell registries apart that agree on what a program sees.

Owns:
- engines that differ in their registries only, and that they stay so through
  turns, ticks and calls of the host, with the same reports and answers;
- that between turns all instances wait for conditions in sight.

Does not own: what a single run sees.
-/

namespace MachineScript.Engine

/-- An engine with another registry, and the same in everything else. -/
def withRegistry (engine : Engine) (registry : Registry) : Engine :=
  { engine with setup := engine.setup.withRegistry registry }

section

variable (engine : Engine) (registry : Registry)

@[simp] theorem setup_withRegistry :
    (engine.withRegistry registry).setup = engine.setup.withRegistry registry := rfl

@[simp] theorem world_withRegistry : (engine.withRegistry registry).world = engine.world := rfl

@[simp] theorem instances_withRegistry :
    (engine.withRegistry registry).instances = engine.instances := rfl

@[simp] theorem started_withRegistry :
    (engine.withRegistry registry).started = engine.started := rfl

@[simp] theorem knowsName_withRegistry (name : String) :
    (engine.withRegistry registry).knowsName name = engine.knowsName name := rfl

@[simp] theorem isHalted_withRegistry :
    (engine.withRegistry registry).isHalted = engine.isHalted := rfl

end

/-- An engine of a setup all of whose instances wait for conditions in sight. -/
structure WaitsInSight (engine : Engine) (setup : Setup) : Prop where
  same : engine.setup = setup
  waits : ∀ id inst, engine.instances.find? id = some inst → inst.WaitsInSight setup.program

variable {setup : Setup} {other : Registry} {engine : Engine}

/-! ## Turns -/

theorem WaitsInSight.put (sight : engine.WaitsInSight setup) {after : Activation}
    (waits : after.inst.WaitsInSight setup.program) : (engine.put after).WaitsInSight setup := by
  refine ⟨sight.same, fun id inst found => ?_⟩
  by_cases isAfter : after.inst.id = id
  · rw [← isAfter] at found
    have same := (Bindings.find?_insert_same _ _ _).symm.trans found
    cases same
    exact waits
  · exact sight.waits id inst ((Bindings.find?_insert_other _ _ isAfter).symm.trans found)

theorem waitsInSight_settle {inst : Instance} {program : Program}
    (waits : inst.WaitsInSight program) : inst.settle.WaitsInSight program := by
  unfold Instance.settle
  split
  · exact waits
  · exact nofun

/-- Settled or halted, an instance waits for no more than before. -/
theorem WaitsInSight.activate (sight : engine.WaitsInSight setup) {inst : Instance}
    {run : Run Unit} (kept : run.Keeps (InSight setup.program))
    (waits : inst.WaitsInSight setup.program) :
    (engine.activate inst run).2.WaitsInSight setup := by
  rcases activate_of_ends (kept (engine.starting inst)) with ⟨left, inSight, put⟩
    | ⟨fault, left, inSight, put⟩
  · rw [put]
    exact sight.put (waitsInSight_settle (inSight waits))
  · rw [put]
    exact sight.put nofun

/-- Runs that end alike make turns that end alike. -/
theorem activate_withRegistry {inst : Instance} {first second : Run Unit}
    (same : second (engine.starting inst) = first (engine.starting inst)) :
    (engine.withRegistry other).activate inst second
      = ((engine.activate inst first).1, (engine.activate inst first).2.withRegistry other) := by
  -- Both runs start in the same world, and neither looks at the setup of the engine again.
  have sameStart : second ⟨(engine.withRegistry other).world, { inst with status := .ready }⟩
      = first ⟨engine.world, { inst with status := .ready }⟩ := same
  unfold activate
  rw [sameStart]
  cases first ⟨engine.world, { inst with status := .ready }⟩ with
  | ok value left => rfl
  | error cause left => rfl

theorem run_inSight (placed : setup.program.Placed) (errand : Errand) :
    (errand.run setup).Keeps (InSight setup.program) := by
  cases errand with
  | launch => exact Setup.initializeInstance_inSight placed
  | transition target => exact Setup.transition_inSight placed target
  | poll => exact Setup.pollHandlers_inSight placed

theorem run_withRegistry (agrees : setup.registry.AgreesFor setup.program other)
    (placed : setup.program.Placed) (errand : Errand) {start : Activation}
    (waits : start.inst.WaitsInSight setup.program) :
    errand.run (setup.withRegistry other) start = errand.run setup start := by
  cases errand with
  | launch => exact congrFun (Setup.initializeInstance_withRegistry agrees) start
  | transition target => exact congrFun (Setup.transition_withRegistry agrees target) start
  | poll => exact Setup.pollHandlers_withRegistry agrees placed waits

/-- The same turn in an engine with another registry. -/
def Turn.withRegistry (turn : Turn) (registry : Registry) : Turn :=
  { turn with engine := turn.engine.withRegistry registry }

/-- A turn of an instance that waits in sight. -/
structure Turn.IsInSight (turn : Turn) (setup : Setup) : Prop where
  engine : turn.engine.WaitsInSight setup
  inst : turn.inst.WaitsInSight setup.program

section

variable (agrees : setup.registry.AgreesFor setup.program other) (placed : setup.program.Placed)
  {turn : Turn} (sight : turn.IsInSight setup)
include placed sight

theorem Turn.IsInSight.outcome : turn.outcome.2.WaitsInSight setup := by
  apply sight.engine.activate _ sight.inst
  rw [sight.engine.same]
  exact run_inSight placed turn.errand

include agrees in
theorem Turn.IsInSight.outcome_withRegistry :
    (turn.withRegistry other).outcome
      = (turn.outcome.1, turn.outcome.2.withRegistry other) := by
  apply activate_withRegistry
  show turn.errand.run (turn.engine.setup.withRegistry other) _ = _
  rw [sight.engine.same]
  exact run_withRegistry agrees placed turn.errand sight.inst

end

/-- The turn of an instance in the table, if that is one of those to take up. -/
def turnOf? (engine : Engine) (id : InstanceId) (takenUp : Instance → Bool) (errand : Errand) :
    Option Turn :=
  ((engine.instances.find? id).filter takenUp).map fun inst => ⟨engine, inst, errand⟩

theorem turnOf?_withRegistry (engine : Engine) (id : InstanceId) (takenUp : Instance → Bool)
    (errand : Errand) :
    (engine.withRegistry other).turnOf? id takenUp errand
      = (engine.turnOf? id takenUp errand).map fun turn => turn.withRegistry other := by
  unfold turnOf?
  rw [Option.map_map]
  rfl

theorem WaitsInSight.turnOf? (sight : engine.WaitsInSight setup) {id : InstanceId}
    {takenUp : Instance → Bool} {errand : Errand} :
    ∀ turn ∈ engine.turnOf? id takenUp errand, turn.IsInSight setup := by
  rintro _ taken
  obtain ⟨inst, found, rfl⟩ := Option.map_eq_some_iff.mp taken
  exact ⟨sight, sight.waits id inst (Option.filter_eq_some_iff.mp found).1⟩

/-! ## Ticks -/

namespace Progress

/-- A tick that has come as far in an engine with another registry. -/
def withRegistry (progress : Progress) (registry : Registry) : Progress :=
  { progress with engine := progress.engine.withRegistry registry }

/-- Two ticks have come as far, in engines that differ in the registry only, and what waits there
waits in sight. -/
structure Alike (setup : Setup) (other : Registry) (progress twin : Progress) : Prop where
  same : twin = progress.withRegistry other
  sight : progress.engine.WaitsInSight setup

/-- Steps that keep two ticks alike do so one after another. -/
theorem Alike.foldl {α : Type} {step : Progress → α → Progress}
    (keeps : ∀ {progress twin : Progress} (item : α), Alike setup other progress twin →
      Alike setup other (step progress item) (step twin item))
    (items : List α) {progress twin : Progress} (alike : Alike setup other progress twin) :
    Alike setup other (items.foldl step progress) (items.foldl step twin) := by
  induction items generalizing progress twin with
  | nil => exact alike
  | cons item rest inductionHypothesis => exact inductionHypothesis (keeps item alike)

theorem transitionTurn?_eq (progress : Progress) (pending : PendingTransition) :
    progress.transitionTurn? pending
      = progress.engine.turnOf? pending.instanceId (fun inst => inst.status ≠ .retiring)
          (.transition pending.target) := by
  unfold transitionTurn? turnOf?
  cases progress.engine.instances.find? pending.instanceId with
  | none => rfl
  | some inst => by_cases retiring : inst.status = .retiring <;> simp [retiring, Option.filter_some]

theorem pollTurn?_eq (progress : Progress) (id : InstanceId) :
    progress.pollTurn? id = progress.engine.turnOf? id isPolled .poll := by
  unfold pollTurn? turnOf?
  cases progress.engine.instances.find? id with
  | none => rfl
  | some inst => by_cases polled : isPolled inst = true <;> simp [polled, Option.filter_some]

section

variable (agrees : setup.registry.AgreesFor setup.program other) (placed : setup.program.Placed)
include agrees placed

/-- What is recorded of a turn is the same, whatever has been counted before. -/
theorem record_alike {turn : Turn} (sight : turn.IsInSight setup) (progress : Progress) :
    Alike setup other (progress.record turn.outcome)
      ((progress.withRegistry other).record (turn.withRegistry other).outcome) := by
  refine ⟨?_, sight.outcome placed⟩
  rw [sight.outcome_withRegistry agrees placed]
  rfl

theorem afterTurn_alike {progress twin : Progress} (alike : Alike setup other progress twin)
    {turn? : Option Turn} (turns : ∀ turn ∈ turn?, turn.IsInSight setup) :
    Alike setup other (progress.afterTurn turn?)
      (twin.afterTurn (turn?.map fun turn => turn.withRegistry other)) := by
  rw [alike.same]
  cases turn? with
  | none => exact ⟨rfl, alike.sight⟩
  | some turn => exact record_alike agrees placed (turns turn rfl) progress

theorem launch_alike {progress twin : Progress} (pending : PendingLaunch)
    (alike : Alike setup other progress twin) :
    Alike setup other (progress.launch pending) (twin.launch pending) := by
  have turn : (progress.launchTurn pending).IsInSight setup :=
    ⟨⟨alike.sight.same, alike.sight.waits⟩, nofun⟩
  rw [alike.same]
  exact record_alike agrees placed turn { progress with launched := progress.launched + 1 }

theorem transition_alike {progress twin : Progress} (pending : PendingTransition)
    (alike : Alike setup other progress twin) :
    Alike setup other (progress.transition pending) (twin.transition pending) := by
  have turns : twin.transitionTurn? pending
      = (progress.transitionTurn? pending).map fun turn => turn.withRegistry other := by
    rw [transitionTurn?_eq, transitionTurn?_eq, alike.same]
    exact turnOf?_withRegistry _ _ _ _
  have counted : ∀ more, Alike setup other
      { progress with transitioned := progress.transitioned + more }
      { twin with transitioned := twin.transitioned + more } := by
    intro more
    rw [alike.same]
    exact ⟨rfl, alike.sight⟩
  rw [transition_eq, transition_eq, turns, Option.toList_map, List.length_map]
  apply afterTurn_alike agrees placed (counted _)
  rw [transitionTurn?_eq]
  exact alike.sight.turnOf?

theorem poll_alike {progress twin : Progress} (id : InstanceId)
    (alike : Alike setup other progress twin) :
    Alike setup other (progress.poll id) (twin.poll id) := by
  have turns : twin.pollTurn? id
      = (progress.pollTurn? id).map fun turn => turn.withRegistry other := by
    rw [pollTurn?_eq, pollTurn?_eq, alike.same]
    exact turnOf?_withRegistry _ _ _ _
  rw [poll_eq, poll_eq, turns]
  apply afterTurn_alike agrees placed alike
  rw [pollTurn?_eq]
  exact alike.sight.turnOf?

end

end Progress

/-! ## Removals -/

theorem retire_withRegistry (engine : Engine) (id : InstanceId) :
    (engine.withRegistry other).retire id = (engine.retire id).withRegistry other := by
  unfold Engine.retire
  rw [instances_withRegistry]
  cases engine.instances.find? id <;> rfl

theorem retireAll_withRegistry (ids : List InstanceId) (engine : Engine) :
    ids.foldl Engine.retire (engine.withRegistry other)
      = (ids.foldl Engine.retire engine).withRegistry other := by
  induction ids generalizing engine with
  | nil => rfl
  | cons id rest inductionHypothesis =>
      rw [List.foldl_cons, retire_withRegistry, inductionHypothesis, List.foldl_cons]

theorem WaitsInSight.retireAll (sight : engine.WaitsInSight setup) (ids : List InstanceId) :
    (ids.foldl Engine.retire engine).WaitsInSight setup := by
  refine ⟨?_, fun id inst found => ?_⟩
  · obtain ⟨instances, shared, same⟩ := retireAll_eq ids engine
    rw [same]
    exact sight.same
  · rw [find?_retireAll] at found
    split at found
    · cases found
    · exact sight.waits id inst found

/-! ## Starts and ticks -/

/-- Two outcomes are the same but for the registry of the engines, where what waits does so in
sight. -/
structure Alike {α : Type} (setup : Setup) (other : Registry) (outcome twin : α × Engine) :
    Prop where
  same : twin = (outcome.1, outcome.2.withRegistry other)
  sight : outcome.2.WaitsInSight setup

theorem Alike.answering {α β : Type} {outcome twin : α × Engine}
    (alike : Alike setup other outcome twin) (answer : α → β) :
    Alike setup other (answer outcome.1, outcome.2) (answer twin.1, twin.2) := by
  rw [alike.same]
  exact ⟨rfl, alike.sight⟩

/-- The end of a tick: what has finished is removed, and the tick is reported. -/
def Progress.close (progress : Progress) : TickReport × Engine :=
  let engine := progress.engine.retiring.foldl retire progress.engine
  ({ tick := engine.tick
     launched := progress.launched
     transitioned := progress.transitioned
     callbacks := engine.world.fired
     retired := progress.engine.retiring.length
     executed := engine.world.executed
     faults := progress.faults }, engine)

theorem runTick_eq_close (engine : Engine) : engine.runTick = engine.polled.close := rfl

theorem Progress.Alike.close {progress twin : Progress}
    (alike : Progress.Alike setup other progress twin) :
    Engine.Alike setup other progress.close twin.close := by
  have same : (progress.engine.withRegistry other).retiring.foldl retire
        (progress.engine.withRegistry other)
      = (progress.engine.retiring.foldl retire progress.engine).withRegistry other :=
    retireAll_withRegistry progress.engine.retiring progress.engine
  refine ⟨?_, alike.sight.retireAll _⟩
  rw [alike.same]
  unfold Progress.close Progress.withRegistry
  simp only [same]
  rfl

section

variable (agrees : setup.registry.AgreesFor setup.program other) (placed : setup.program.Placed)
include agrees placed

theorem start_alike (sight : engine.WaitsInSight setup) :
    Alike setup other engine.start (engine.withRegistry other).start := by
  cases fresh : engine.started with
  | true =>
      have freshToo := (started_withRegistry engine other).trans fresh
      rw [start_of_started fresh, start_of_started freshToo]
      exact ⟨rfl, sight⟩
  | false =>
      have freshToo := (started_withRegistry engine other).trans fresh
      have begun : engine.begun.WaitsInSight setup := ⟨sight.same, sight.waits⟩
      rw [start_of_fresh fresh, start_of_fresh freshToo, instances_withRegistry]
      cases found : engine.instances.find? rootInstance with
      | none => exact ⟨rfl, begun⟩
      | some root =>
          have lasts := InSight.lasts setup.program
          have kept : (rootRun engine.setup).Keeps (InSight setup.program) := by
            rw [sight.same]
            exact lasts.bind (Setup.runExemplar_inSight placed _) fun _ => lasts.pure ()
          have same : rootRun (engine.setup.withRegistry other) = rootRun engine.setup := by
            unfold rootRun
            rw [sight.same, Setup.runExemplar_withRegistry agrees]
          refine ⟨?_, begun.activate kept (sight.waits rootInstance root found)⟩
          show (engine.begun.withRegistry other).activate root _ = _
          exact activate_withRegistry (congrFun same _)

theorem opened_alike (sight : engine.WaitsInSight setup) :
    Progress.Alike setup other engine.opened (engine.withRegistry other).opened
      ∧ (engine.withRegistry other).dueLaunches = engine.dueLaunches
      ∧ (engine.withRegistry other).dueTransitions = engine.dueTransitions := by
  obtain ⟨same, sight⟩ := start_alike agrees placed sight
  unfold opened dueLaunches dueTransitions ready
  rw [same]
  exact ⟨⟨rfl, sight.same, sight.waits⟩, rfl, rfl⟩

/-- With either registry a tick gives the same report, and leaves the same. -/
theorem runTick_alike (sight : engine.WaitsInSight setup) :
    Alike setup other engine.runTick (engine.withRegistry other).runTick := by
  obtain ⟨opened, sameLaunches, sameTransitions⟩ := opened_alike agrees placed sight
  have launched : Progress.Alike setup other engine.launched
      (engine.withRegistry other).launched := by
    unfold Engine.launched
    rw [sameLaunches]
    exact opened.foldl (Progress.launch_alike agrees placed) _
  have transitioned : Progress.Alike setup other engine.transitioned
      (engine.withRegistry other).transitioned := by
    unfold Engine.transitioned
    rw [sameTransitions]
    exact launched.foldl (Progress.transition_alike agrees placed) _
  have polled : Progress.Alike setup other engine.polled (engine.withRegistry other).polled := by
    have sameTable : (engine.withRegistry other).transitioned.engine.instances
        = engine.transitioned.engine.instances := by
      rw [transitioned.same]
      rfl
    unfold Engine.polled
    rw [sameTable]
    exact transitioned.foldl (Progress.poll_alike agrees placed) _
  rw [runTick_eq_close, runTick_eq_close]
  exact polled.close

theorem runUntilHalted_alike (maxTicks : Nat) (sight : engine.WaitsInSight setup) :
    Alike setup other (engine.runUntilHalted maxTicks)
      ((engine.withRegistry other).runUntilHalted maxTicks) := by
  induction maxTicks generalizing engine with
  | zero => exact ⟨rfl, sight⟩
  | succ maxTicks inductionHypothesis =>
      unfold runUntilHalted
      rw [isHalted_withRegistry]
      split
      · exact ⟨rfl, sight⟩
      · obtain ⟨sameTick, sightAfter⟩ := runTick_alike agrees placed sight
        obtain ⟨sameRest, sightAtEnd⟩ := inductionHypothesis sightAfter
        rw [sameTick]
        simp only [sameRest]
        exact ⟨rfl, sightAtEnd⟩

end

/-! ## Calls of the host -/

theorem terminate_alike (sight : engine.WaitsInSight setup) (id : InstanceId) :
    Alike setup other (engine.terminate id) ((engine.withRegistry other).terminate id) := by
  unfold terminate
  rw [instances_withRegistry]
  split
  · exact ⟨rfl, sight⟩
  · have without : (engine.withoutTransition id).WaitsInSight setup := ⟨sight.same, sight.waits⟩
    refine ⟨?_, without.retireAll [id]⟩
    show (true, ((engine.withoutTransition id).withRegistry other).retire id) = _
    rw [retire_withRegistry]
    rfl

theorem orUnchanged_alike (sight : engine.WaitsInSight setup)
    {answer twin : Except NameError Engine}
    (same : twin = answer.map fun next => next.withRegistry other)
    (kept : ∀ next, answer = .ok next → next.WaitsInSight setup) :
    Alike setup other (engine.orUnchanged answer)
      ((engine.withRegistry other).orUnchanged twin) := by
  rw [same]
  cases answer with
  | error refused => exact ⟨rfl, sight⟩
  | ok next => exact ⟨rfl, kept next rfl⟩

theorem launch_withRegistry (engine : Engine) (machine : String) :
    (engine.withRegistry other).launch machine
      = (engine.launch machine).map fun next => next.withRegistry other := by
  unfold Engine.launch
  rw [setup_withRegistry, Setup.program_withRegistry]
  cases engine.setup.program.machine? machine <;> rfl

theorem WaitsInSight.launch (sight : engine.WaitsInSight setup) {machine : String} (next : Engine)
    (accepted : engine.launch machine = .ok next) : next.WaitsInSight setup := by
  obtain ⟨exemplar, _, rfl⟩ := launch_eq_ok accepted
  exact ⟨sight.same, sight.waits⟩

theorem WaitsInSight.assignVariable (sight : engine.WaitsInSight setup) {id : InstanceId}
    {name : String} {value : Value} (next : Engine)
    (accepted : engine.assignVariable id name value = .ok next) : next.WaitsInSight setup := by
  obtain ⟨inst, slot, after, found, assigned, rfl⟩ := assignVariable_eq_ok accepted
  have quiet : Quiet setup.program ⟨engine.world, inst⟩ after := .of_writeSlot? assigned
  exact sight.put (quiet.inSight (sight.waits id inst found))

section

variable (agrees : setup.registry.AgreesFor setup.program other)
include agrees

theorem assignVariable_withRegistry (same : engine.setup = setup) (id : InstanceId) (name : String)
    (value : Value) :
    (engine.withRegistry other).assignVariable id name value
      = (engine.assignVariable id name value).map fun next => next.withRegistry other := by
  subst same
  unfold Engine.assignVariable
  simp only [knowsName_withRegistry, instances_withRegistry, setup_withRegistry, world_withRegistry,
    Setup.resolve_withRegistry agrees]
  split
  · rfl
  · cases engine.instances.find? id with
    | none => rfl
    | some inst =>
        simp only [bind, Except.bind]
        cases engine.setup.resolve engine.world inst name with
        | error missing => rfl
        | ok slot =>
            simp only
            cases (Activation.mk engine.world inst).writeSlot? name slot value <;> rfl

theorem readVariable_withRegistry (same : engine.setup = setup) (id : InstanceId) (name : String) :
    (engine.withRegistry other).readVariable id name = engine.readVariable id name := by
  subst same
  unfold Engine.readVariable
  simp only [knowsName_withRegistry, instances_withRegistry, setup_withRegistry, world_withRegistry,
    Setup.readVariable_withRegistry agrees]

theorem perform_alike (placed : setup.program.Placed) (sight : engine.WaitsInSight setup)
    (call : HostCall) :
    Alike setup other (engine.perform call) ((engine.withRegistry other).perform call) := by
  cases call with
  | start => exact (start_alike agrees placed sight).answering HostAnswer.outcome
  | tick => exact (runTick_alike agrees placed sight).answering HostAnswer.report
  | run maxTicks =>
      exact (runUntilHalted_alike agrees placed maxTicks sight).answering HostAnswer.summary
  | launch machine => exact orUnchanged_alike sight (launch_withRegistry _ _) sight.launch
  | terminate id => exact (terminate_alike sight id).answering HostAnswer.removed
  | assign id name value =>
      exact orUnchanged_alike sight (assignVariable_withRegistry agrees sight.same _ _ _)
        sight.assignVariable
  | clearOutput | advance | advanceSeconds | setClock =>
      exact ⟨rfl, sight.same, sight.waits⟩

/-- Sequences of calls have the same answers, and leave engines that differ in the registry only. -/
theorem performAll_withRegistry (placed : setup.program.Placed)
    (sight : engine.WaitsInSight setup) (calls : List HostCall) :
    (engine.withRegistry other).answers calls = engine.answers calls
      ∧ (engine.withRegistry other).performAll calls
        = (engine.performAll calls).withRegistry other
      ∧ (engine.performAll calls).WaitsInSight setup := by
  induction calls generalizing engine with
  | nil => exact ⟨rfl, rfl, sight⟩
  | cons call rest inductionHypothesis =>
      obtain ⟨same, sight⟩ := perform_alike agrees placed sight call
      obtain ⟨answers, engines, sight⟩ := inductionHypothesis sight
      refine ⟨?_, ?_, sight⟩
      · rw [Engine.answers, Engine.answers, same, answers]
      · show ((engine.withRegistry other).perform call).2.performAll rest = _
        rw [same]
        exact engines

end

/-- A program sees only the modules that it requires: with registries that agree on those, and on
the conditions without a module, a host has the same answers to all its calls, is left with the same
engine but for the registry, and reads the same variables there. -/
theorem build_sees_required_only {options : CompileOptions} {tape : Tape}
    {compilation : Compilation} (compiled : tape.compile options = .ok compilation)
    {registry other : Registry} (agrees : registry.AgreesFor compilation.program other)
    (config : EngineConfig) (printer : Printer) (calls : List HostCall) :
    let engine := build compilation.program registry config printer
    let twin := build compilation.program other config printer
    twin.answers calls = engine.answers calls
      ∧ twin.performAll calls = (engine.performAll calls).withRegistry other
      ∧ ∀ id name, (twin.performAll calls).readVariable id name
        = (engine.performAll calls).readVariable id name := by
  intro engine twin
  let setup : Setup := ⟨compilation.program, registry, config⟩
  have placed : setup.program.Placed := Tape.compile_placed compiled
  have sight : engine.WaitsInSight setup := by
    refine ⟨rfl, fun id inst found => ?_⟩
    cases List.mem_singleton.mp (Bindings.mem_of_find? found)
    exact nofun
  have same : twin = engine.withRegistry other := rfl
  have agrees : setup.registry.AgreesFor setup.program other := agrees
  obtain ⟨answers, engines, sightAtEnd⟩ := performAll_withRegistry agrees placed sight calls
  rw [same, engines]
  exact ⟨answers, rfl, readVariable_withRegistry agrees sightAtEnd.same⟩

open Token in
/-- The tape of `(require io) (set a (io.answer)) (machine m (state main (on always 0 (set b
(tools.answer))))) (launch m)`. -/
def toolsNotRequired : Tape :=
  Tape.ofTokens .empty
    (bracketed 0 [word "require" 1, word "io" 9] 11
      ++ bracketed 13 ([word "set" 14, word "a" 18] ++ bracketed 20 [word "io.answer" 21] 30) 31
      ++ bracketed 33
        ([word "machine" 34, word "m" 42]
          ++ bracketed 44
            ([word "state" 45, word "main" 51]
              ++ bracketed 56
                ([word "on" 57, word "always" 60, ⟨.constant (.int 0), 67⟩]
                  ++ bracketed 69
                    ([word "set" 70, word "b" 74] ++ bracketed 76 [word "tools.answer" 77] 89) 90)
                91)
            92)
        93
      ++ bracketed 95 [word "launch" 96, word "m" 103] 104)

/-- An answer in `io`, and the condition of the program. -/
def withoutTools : Registry :=
  Registry.empty.withFunction "io.answer" (fun _ => .ok ⟨.int 1, ["asked"]⟩)
    |>.withCondition "always" fun _ _ => .ok true

/-- There is more elsewhere. -/
def withTools : Registry :=
  withoutTools.withFunction "tools.answer" (fun _ => .ok ⟨.int 2, []⟩)
    |>.withFunction "answer" (fun _ => .ok ⟨.int 3, []⟩)
    |>.withValue "tools.answer" (.int 4)
    |>.withCondition "tools.always" fun _ _ => .ok true

theorem withTools_agrees {program : Program} (required : program.required = ["io"]) :
    withoutTools.AgreesFor program withTools := by
  have tools : ¬ program.SeesModuleOf "tools.answer" := by
    unfold Program.SeesModuleOf
    rw [required]
    decide
  have undotted : ¬ program.SeesModuleOf "answer" := nofun
  have condition : ¬ program.SeesCondition "tools.always" := by
    unfold Program.SeesCondition
    rw [required]
    decide
  exact (Registry.AgreesFor.refl program withoutTools).withFunction tools _
    |>.withFunction undotted _ |>.withValue tools _ |>.withCondition condition _

/-- The machine fails at the same call with and without tools. -/
theorem build_sees_required_only_toolsNotRequired :
    ∃ compilation, toolsNotRequired.compile {} = .ok compilation
      ∧ withoutTools.AgreesFor compilation.program withTools
      ∧ let engine := build compilation.program withoutTools {} .empty
        let twin := build compilation.program withTools {} .empty
        (engine.performAll [.tick]).output = "asked\n"
          ∧ (engine.answers [.tick]).flatMap HostAnswer.faults
            = [⟨1, "m", .undefined .module "tools"⟩]
          ∧ twin.answers [.tick] = engine.answers [.tick]
          ∧ twin.performAll [.tick] = (engine.performAll [.tick]).withRegistry withTools
          ∧ ∀ id name, (twin.performAll [.tick]).readVariable id name
            = (engine.performAll [.tick]).readVariable id name := by
  have compiled : toolsNotRequired.compile {} = .ok _ := rfl
  exact ⟨_, compiled, withTools_agrees rfl, by decide +kernel, by decide +kernel,
    build_sees_required_only compiled (withTools_agrees rfl) {} .empty [.tick]⟩

end MachineScript.Engine
