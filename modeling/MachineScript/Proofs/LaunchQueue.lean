import Mathlib.Algebra.GroupWithZero.Nat
import MachineScript.Proofs.History
import MachineScript.Proofs.Waiting

/-!
Contract: the queue of launches, and the instances that come of it.

Owns:
- that a tick serves the front of the queue, first come first served and no
  more than the cap allows, and leaves the rest with what the tick launches
  behind it;
- what the other calls of the host put into the queue;
- the books of a run: instances created, live, retired and terminated, and
  the numbers that they get, each once.

Does not own: the turns in which launches are executed.
-/

namespace MachineScript.Engine

variable {setup : Setup} {engine before middle after : Engine} {turn : Turn} {turns : List Turn}
  {taken : List PendingTransition}

/-! ## What is in the queue -/

/-- What the forms at the top of the program launch, unless they have run before. -/
def startLaunches (engine : Engine) : List PendingLaunch :=
  if engine.started then []
  else match engine.instances.find? rootInstance with
    | some root => engine.setup.exemplarLog Program.root (engine.begun.starting root)
    | none => []

theorem launches_start (engine : Engine) :
    engine.start.2.world.launches = engine.world.launches ++ engine.startLaunches := by
  unfold startLaunches
  cases fresh : engine.started with
  | true =>
      rw [start_of_started fresh]
      exact (List.append_nil _).symm
  | false =>
      rw [start_of_fresh fresh]
      cases engine.instances.find? rootInstance with
      | none => exact (List.append_nil _).symm
      | some root =>
          have launches : (rootRun engine.setup).Launches (engine.setup.exemplarLog Program.root) :=
            (engine.setup.runExemplar_launches Program.root).before fun _ => .pure _
          exact launches_activate launches

/-- What a call of the host that lets nothing tick puts into the queue. -/
def callLaunches (engine : Engine) : HostCall → List PendingLaunch
  | .start => engine.startLaunches
  | .launch machine =>
      match engine.setup.program.machine? machine with
      | some exemplar => [⟨exemplar, rootInstance⟩]
      | none => []
  | _ => []

theorem launches_perform (engine : Engine) {call : HostCall} (notTick : call ≠ .tick)
    (notRun : ∀ maxTicks, call ≠ .run maxTicks) :
    (engine.perform call).2.world.launches = engine.world.launches ++ engine.callLaunches call := by
  have unchanged := (List.append_nil engine.world.launches).symm
  cases call with
  | tick => exact absurd rfl notTick
  | run maxTicks => exact absurd rfl (notRun maxTicks)
  | start => exact engine.launches_start
  | launch machine =>
      simp only [perform, Engine.launch, callLaunches]
      cases engine.setup.program.machine? machine with
      | none => exact unchanged
      | some exemplar => rfl
  | terminate id =>
      simp only [perform]
      rcases engine.terminate_cases id with refused | ⟨_, ⟨inst, found⟩, removed⟩
      · rw [refused]
        exact unchanged
      · rw [removed]
        unfold retire
        split <;> exact unchanged
  | assign id name value =>
      simp only [perform]
      cases accepted : engine.assignVariable id name value with
      | error refused => exact unchanged
      | ok next =>
          obtain ⟨inst, slot, after, _, assigned, rfl⟩ := assignVariable_eq_ok accepted
          have kept := Activation.launches_of_skeleton (Activation.skeleton_writeSlot? assigned)
          exact kept.trans unchanged
  | clearOutput | advance | advanceSeconds | setClock => exact unchanged

/-! ## What a tick serves -/

/-- How a tick serves the queue. The queue at that moment is the one before the tick with what the
start launches. Its front is launched, in order, with consecutive numbers that are new; an instance
has the machine and the parent of its entry, and keeps them. What the tick launches, also in turns
that fail, comes behind the rest and waits. -/
structure ServesLaunches (engine : Engine) : Prop where
  drained : engine.ready.world.launches = engine.world.launches ++ engine.startLaunches
  counted : engine.runTick.1.launched = match engine.setup.config.maxLaunches with
    | some cap => min cap engine.ready.world.launches.length
    | none => engine.ready.world.launches.length
  serviced : engine.launchTurns.map
      (fun turn => (turn.inst.id, turn.inst.machine, turn.inst.parent, turn.errand))
    = ((engine.ready.world.launches.take engine.runTick.1.launched).zipIdx engine.nextId).map
      fun entry => (entry.2, entry.1.machine, some entry.1.parent, Errand.launch)
  fresh : ∀ id inst, engine.instances.find? id = some inst → id < engine.nextId
  created : ∀ turn ∈ engine.launchTurns, ∃ inst,
    turn.outcome.2.instances.find? turn.inst.id = some inst
      ∧ inst.machine = turn.inst.machine ∧ inst.parent = turn.inst.parent
  kept : ∀ turn ∈ engine.launchTurns, ∀ inst,
    engine.runTick.2.instances.find? turn.inst.id = some inst →
      inst.machine = turn.inst.machine ∧ inst.parent = turn.inst.parent
  remains : engine.runTick.2.world.launches
    = engine.ready.world.launches.drop engine.runTick.1.launched
      ++ engine.turns.flatMap Turn.launches
  appends : ∀ call : HostCall, call ≠ .tick → (∀ maxTicks, call ≠ .run maxTicks) →
    (engine.perform call).2.world.launches = engine.world.launches ++ engine.callLaunches call

/-- The launches of a tick are the turns for which a number is given out. -/
theorem Coherent.countP_launches (placed : setup.program.Placed)
    (coherent : engine.Coherent setup []) :
    engine.turns.countP (fun turn => turn.errand = .launch) = engine.launchTurns.length := by
  have all : engine.launchTurns.countP (fun turn => turn.errand = .launch)
      = engine.launchTurns.length := by
    rw [List.countP_eq_length]
    exact fun turn member => decide_eq_true (errand_of_mem_launchTurns member)
  have noTransition : engine.transitionTurns.countP (fun turn => turn.errand = .launch) = 0 := by
    rw [List.countP_eq_zero]
    intro turn member
    obtain ⟨_, _, _, _, rfl, _⟩ := coherent.of_mem_transitionTurns placed member
    exact of_decide_eq_false rfl
  have noPoll : engine.pollTurns.countP (fun turn => turn.errand = .launch) = 0 := by
    rw [List.countP_eq_zero]
    intro turn member
    obtain ⟨_, _, rfl, _⟩ := coherent.of_mem_pollTurns placed member
    exact of_decide_eq_false rfl
  unfold turns
  rw [List.countP_append, List.countP_append, all, noTransition, noPoll, Nat.add_zero]

theorem length_launchTurns (engine : Engine) :
    engine.launchTurns.length = engine.ready.launchCount := by
  have ids := congrArg List.length (ids_launches engine.dueLaunches engine.opened)
  rw [List.length_map, List.length_range'] at ids
  refine ids.trans ?_
  unfold dueLaunches
  rw [List.length_take, Nat.min_eq_left]
  unfold launchCount
  simp only
  split
  · exact Nat.min_le_right _ _
  · exact Nat.le_refl _

theorem Coherent.runTick_launched (placed : setup.program.Placed)
    (coherent : engine.Coherent setup []) :
    engine.runTick.1.launched = engine.launchTurns.length :=
  (coherent.tick placed).launched.trans
    ((Nat.zero_add _).trans (coherent.countP_launches placed))

theorem Coherent.servesLaunches (placed : setup.program.Placed)
    (coherent : engine.Coherent setup []) : engine.ServesLaunches := by
  have tick := coherent.tick placed
  have launched : engine.runTick.1.launched = engine.ready.launchCount :=
    (coherent.runTick_launched placed).trans engine.length_launchTurns
  obtain ⟨instances, shared, ended⟩ := engine.runTick_eq
  refine ⟨engine.launches_start, ?_, ?_, ?_, ?_, ?_, ?_, ?_⟩
  · obtain ⟨ready, _, _⟩ := coherent.ready placed
    rw [launched, ← ready.same.trans coherent.same.symm]
    rfl
  · rw [launched, ← engine.start_keeps.2.1]
    exact services_launches engine.dueLaunches engine.opened
  · exact fun id inst found => coherent.lt_nextId found
  · intro turn member
    obtain ⟨_, orderly⟩ := tick.orderly
      (List.mem_append_left _ (List.mem_append_left engine.transitionTurns member))
    exact orderly.find?_own
  · intro turn member inst found
    obtain ⟨front, back, split⟩ := List.append_of_mem
      (List.mem_append_left engine.pollTurns (List.mem_append_left engine.transitionTurns member))
    have succession := tick.succession
    unfold turns at succession
    rw [split] at succession
    obtain ⟨_, _, _, _, _, _, orderly, rest⟩ := succession.split
    obtain ⟨first, there, machine, parent⟩ := orderly.find?_own
    rw [find?_runTick] at found
    split at found
    · cases found
    · obtain ⟨sameMachine, sameParent⟩ := rest.kin there found
      exact ⟨sameMachine.trans machine, sameParent.trans parent⟩
  · rw [launched, ended]
    exact tick.succession.launches
  · exact fun call notTick notRun => engine.launches_perform notTick notRun

/-! ## The books of a run -/

/-- The launches that ticks report. -/
def launchedIn (ticks : List Engine) : Nat :=
  (ticks.map fun ticked => ticked.runTick.1.launched).sum

/-- The removals that ticks report. -/
def retiredIn (ticks : List Engine) : Nat :=
  (ticks.map fun ticked => ticked.runTick.1.retired).sum

/-- The numbers that ticks give out. -/
def numbersIn (ticks : List Engine) : List InstanceId :=
  ticks.flatMap fun ticked => ticked.launchTurns.map fun turn => turn.inst.id

/-- What ticks and terminations between two engines have made of the numbers and of the table. -/
structure Booked (before after : Engine) (ticks : List Engine) (terminated : Nat) : Prop where
  numbers : numbersIn ticks = List.range' before.nextId (launchedIn ticks)
  nextId : after.nextId = before.nextId + launchedIn ticks
  created : after.created = before.created + launchedIn ticks
  table : after.instances.length + retiredIn ticks + terminated
    = before.instances.length + launchedIn ticks

namespace Booked

variable {ticks later : List Engine} {terminated others : Nat}

/-- Nothing is launched and nothing removed. -/
theorem of_same (nextId : after.nextId = before.nextId) (created : after.created = before.created)
    (table : after.instances.length = before.instances.length) : Booked before after [] 0 :=
  ⟨rfl, nextId, created, table⟩

theorem refl (engine : Engine) : Booked engine engine [] 0 :=
  .of_same rfl rfl rfl

/-- What is booked one after another adds up. -/
theorem trans (first : Booked before middle ticks terminated)
    (second : Booked middle after later others) :
    Booked before after (ticks ++ later) (terminated + others) := by
  have launched : launchedIn (ticks ++ later) = launchedIn ticks + launchedIn later := by
    simp [launchedIn]
  have retired : retiredIn (ticks ++ later) = retiredIn ticks + retiredIn later := by
    simp [retiredIn]
  refine ⟨?_, ?_, ?_, ?_⟩
  · rw [launched, ← List.range'_append_1, ← first.nextId, ← first.numbers, ← second.numbers]
    exact List.flatMap_append
  · rw [second.nextId, first.nextId, launched]
    exact Nat.add_assoc _ _ _
  · rw [second.created, first.created, launched, Nat.add_assoc]
  · have early := first.table
    have late := second.table
    omega

end Booked

theorem Coherent.booked_tick (placed : setup.program.Placed) (coherent : engine.Coherent setup []) :
    Booked engine engine.runTick.2 [engine] 0 := by
  have tick := coherent.tick placed
  obtain ⟨_, nextId, created, _⟩ := engine.start_keeps
  have launched : launchedIn [engine] = engine.turns.countP fun turn => turn.errand = .launch :=
    (Nat.add_zero _).trans ((coherent.runTick_launched placed).trans
      (coherent.countP_launches placed).symm)
  obtain ⟨instances, shared, ended⟩ := engine.runTick_eq
  refine ⟨?_, ?_, ?_, ?_⟩
  · have ids := ids_launches engine.dueLaunches engine.opened
    have length : engine.launchTurns.length = engine.dueLaunches.length := by
      have lengths := congrArg List.length ids
      rwa [List.length_map, List.length_range'] at lengths
    rw [launched, coherent.countP_launches placed, length, ← nextId]
    unfold numbersIn
    rw [List.flatMap_singleton]
    exact ids
  · rw [ended, launched, ← nextId]
    exact tick.succession.nextId
  · rw [ended, launched, ← created]
    exact tick.succession.created
  · have known : ∀ id ∈ engine.polled.engine.retiring,
        (engine.polled.engine.instances.find? id).isSome = true := by
      intro id member
      obtain ⟨inst, found, _⟩ := (mem_retiring_iff tick.coherent).mp member
      rw [found]
      rfl
    have once : engine.polled.engine.retiring.Nodup :=
      tick.coherent.distinct.sublist (List.filter_sublist.map Prod.fst)
    have removed := length_retireAll tick.coherent.distinct once known
    rw [← runTick_engine] at removed
    have retired : retiredIn [engine] = engine.polled.engine.retiring.length :=
      (Nat.add_zero _).trans engine.runTick_retired
    rw [launched, retired, Nat.add_zero, removed, tick.succession.length_instances]
    exact congrArg (· + _) (coherent.length_start placed)

theorem Coherent.booked_run (placed : setup.program.Placed) (maxTicks : Nat) {engine : Engine}
    (coherent : engine.Coherent setup []) :
    Booked engine (engine.runUntilHalted maxTicks).2 (engine.ticksUntilHalted maxTicks) 0 := by
  induction maxTicks generalizing engine with
  | zero => exact .refl engine
  | succ maxTicks inductionHypothesis =>
      unfold runUntilHalted ticksUntilHalted
      split
      · exact .refl engine
      · exact (coherent.booked_tick placed).trans (inductionHypothesis (coherent.runTick placed).1)

theorem Coherent.booked_perform (placed : setup.program.Placed)
    (coherent : engine.Coherent setup []) (call : HostCall) :
    Booked engine (engine.perform call).2 (engine.ticksOf call)
      ([(engine.perform call).1].count (.removed true)) := by
  cases call with
  | tick => exact coherent.booked_tick placed
  | run maxTicks => exact coherent.booked_run placed maxTicks
  | start =>
      obtain ⟨_, nextId, created, _⟩ := engine.start_keeps
      exact .of_same nextId created (coherent.length_start placed)
  | launch machine =>
      simp only [perform, Engine.launch]
      split <;> exact .of_same rfl rfl rfl
  | terminate id =>
      simp only [perform]
      rcases engine.terminate_cases id with refused | ⟨_, ⟨inst, found⟩, removed⟩
      · rw [refused]
        exact .refl engine
      · rw [removed]
        change Booked engine ((engine.withoutTransition id).retire id) [] 1
        have there : (engine.withoutTransition id).instances.find? id = some inst := found
        unfold Engine.retire
        rw [there]
        exact ⟨rfl, rfl, rfl, Bindings.length_erase coherent.distinct found⟩
  | assign id name value =>
      simp only [perform]
      cases accepted : engine.assignVariable id name value with
      | error refused => exact .refl engine
      | ok next =>
          obtain ⟨inst, slot, after, found, assigned, rfl⟩ := assignVariable_eq_ok accepted
          have quiet : Quiet setup.program ⟨engine.world, inst⟩ after := .of_writeSlot? assigned
          have same : after.inst.id = id :=
            quiet.id.trans (coherent.id_of_find? found)
          refine .of_same rfl rfl ?_
          change (engine.instances.insert after.inst.id after.inst).length = _
          rw [Bindings.length_insert, same, found]
          rfl
  | clearOutput | advance | advanceSeconds | setClock => exact .of_same rfl rfl rfl

theorem Coherent.booked (placed : setup.program.Placed) (calls : List HostCall) {engine : Engine}
    (coherent : engine.Coherent setup []) :
    Booked engine (engine.performAll calls) (engine.ticksIn calls)
      ((engine.answers calls).count (.removed true)) := by
  induction calls generalizing engine with
  | nil => exact .refl engine
  | cons call rest inductionHypothesis =>
      have next := ((engine.perform_moves call).coherent placed coherent).1
      have both := (coherent.booked_perform placed call).trans (inductionHypothesis next)
      rw [← List.count_append] at both
      exact both

/-- Between calls of the host every instance but the root is live. -/
theorem AtRest.length_live (coherent : engine.Coherent setup []) (atRest : engine.AtRest) :
    engine.live.length + 1 = engine.instances.length := by
  obtain ⟨root, found, _⟩ := atRest.root
  have member := Bindings.mem_of_find? found
  have isRoot : root.isRoot = true := decide_eq_true (coherent.id_of_find? found)
  have order := Bindings.perm_of_mem coherent.distinct member
  have lives : ∀ inst ∈ (engine.instances.erase rootInstance).map Prod.snd,
      (!inst.isRoot && decide (inst.status ≠ .retiring)) = true := by
    intro inst there
    obtain ⟨entry, kept, rfl⟩ := List.mem_map.mp there
    obtain ⟨known, other⟩ := Bindings.mem_erase_iff.mp kept
    have waits := atRest.waits ((Bindings.find?_eq_some_iff coherent.distinct).mpr known) other
    have notRoot : entry.2.isRoot = false := by
      unfold Instance.isRoot
      rw [(coherent.ids entry known).1]
      exact decide_eq_false other
    rw [notRoot, waits.suspended]
    rfl
  have same := ((order.map Prod.snd).filter
    fun inst => !inst.isRoot && decide (inst.status ≠ .retiring)).length_eq
  rw [List.map_cons, List.filter_cons_of_neg (by simp [isRoot]), List.filter_eq_self.mpr lives,
    List.length_map] at same
  unfold live
  rw [same, Bindings.length_erase coherent.distinct found]

/-- The books of a run. Every instance that was created has been launched in a tick, and is live,
has been removed in a tick or has been terminated by the host. Numbers are given out from one on,
each once, and an instance that has gone does not come back. -/
structure BooksBalance (engine : Engine) (calls : List HostCall) : Prop where
  launched : (engine.performAll calls).created = launchedIn (engine.ticksIn calls)
  accounted : (engine.performAll calls).created
    = (engine.performAll calls).live.length + retiredIn (engine.ticksIn calls)
      + (engine.answers calls).count (.removed true)
  numbers : numbersIn (engine.ticksIn calls) = List.range' 1 (engine.performAll calls).created
  numbered : ∀ id inst, (engine.performAll calls).instances.find? id = some inst →
    id ≠ rootInstance → id ∈ numbersIn (engine.ticksIn calls)
  gone : ∀ id < (engine.performAll calls).nextId,
    (engine.performAll calls).instances.find? id = none →
      ∀ later, (engine.performAll calls).Reaches later → later.instances.find? id = none

/-- An instance that has gone does not come back. -/
theorem Coherent.gone (placed : setup.program.Placed) (coherent : engine.Coherent setup [])
    {id : InstanceId} (below : id < engine.nextId) (absent : engine.instances.find? id = none)
    {later : Engine} (reached : engine.Reaches later) : later.instances.find? id = none := by
  obtain ⟨_, follows⟩ := reached.coherent placed coherent
  cases found : later.instances.find? id with
  | none => rfl
  | some inst =>
      have there : (later.instances.find? id).isSome = true := by
        rw [found]
        rfl
      rcases follows.known there with old | new
      · rw [absent] at old
        cases old
      · exact absurd below (Nat.not_lt_of_le new)

/-- Whatever a host does with a compiled program, launches are served in the order of the queue, and
the books of the run balance. -/
theorem build_serves_launches {options : CompileOptions} {tape : Tape} {compilation : Compilation}
    (compiled : tape.compile options = .ok compilation) (registry : Registry)
    (config : EngineConfig) (printer : Printer) (calls : List HostCall) :
    ((build compilation.program registry config printer).performAll calls).ServesLaunches
      ∧ (build compilation.program registry config printer).BooksBalance calls := by
  have placed : (Setup.mk compilation.program registry config).program.Placed :=
    Tape.compile_placed compiled
  have reached : (build compilation.program registry config printer).Reaches _ := ⟨calls, rfl⟩
  have coherent := reached.coherent_of_compiled compiled
  have live := (reached.atRest_of_compiled compiled).length_live coherent
  have booked := (build_coherent _ registry config printer).booked placed calls
  have created := booked.created.trans (Nat.zero_add _)
  have numbers := created ▸ booked.numbers
  refine ⟨coherent.servesLaunches placed, created, ?_, numbers, ?_, ?_⟩
  · have table := booked.table
    have one : (build compilation.program registry config printer).instances.length = 1 := rfl
    omega
  · intro id inst found other
    have below := coherent.lt_nextId found
    rw [booked.nextId, ← created] at below
    rw [numbers, List.mem_range'_1]
    exact ⟨Nat.one_le_iff_ne_zero.mpr other, below⟩
  · exact fun id below absent later reachedLater => coherent.gone placed below absent reachedLater

open Token in
/-- The tape of `(machine m (state main (launch m))) (launch m) (launch m)`. -/
def launchingItself : Tape :=
  Tape.ofTokens .empty
    (bracketed 0
        ([word "machine" 1, word "m" 9]
          ++ bracketed 11
            ([word "state" 12, word "main" 18] ++ bracketed 23 [word "launch" 24, word "m" 31] 32)
            33)
        34
      ++ bracketed 36 [word "launch" 37, word "m" 44] 45
      ++ bracketed 47 [word "launch" 48, word "m" 55] 56)

/-- One launch a tick: what the instances launch waits behind what the root has launched. -/
theorem build_serves_launches_launchingItself :
    ∃ compilation engine, launchingItself.compile {} = .ok compilation
      ∧ build compilation.program .empty { maxLaunches := some 1 } .empty = engine
      ∧ (engine.performAll [.tick, .tick, .terminate 1]).world.launches = [⟨1, 1⟩, ⟨1, 2⟩]
      ∧ (engine.performAll [.tick, .tick, .terminate 1]).created = 2
      ∧ (engine.performAll [.tick, .tick, .terminate 1]).ServesLaunches
      ∧ engine.BooksBalance [.tick, .tick, .terminate 1] := by
  refine ⟨_, _, rfl, rfl, by decide +kernel, by decide +kernel, ?_⟩
  have compiled : launchingItself.compile {} = .ok _ := rfl
  exact build_serves_launches compiled .empty { maxLaunches := some 1 } .empty
    [.tick, .tick, .terminate 1]

end MachineScript.Engine
