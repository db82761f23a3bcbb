import MachineScript.Proofs.LaunchQueue

/-!
Contract: an engine that has halted stays as it is.

Owns:
- what is left of an engine that has halted: the root, in no state, and neither
  queues nor shared variables;
- that a tick of such an engine does nothing, and that of all other calls of the
  host only the launch of a machine brings it back to life.

Does not own: when an engine comes to a halt.
-/

namespace MachineScript

/-- The report of a tick in which nothing has happened. -/
def TickReport.uneventful (tick : Nat) : TickReport where
  tick := tick
  launched := 0
  transitioned := 0
  callbacks := 0
  retired := 0
  executed := 0
  faults := []

/-- What a host is answered while nothing happens. -/
def HostAnswer.isUneventful : HostAnswer → Bool
  | .outcome ofStart => ofStart = none
  | .report ofTick => ofTick = .uneventful ofTick.tick
  | .summary ofRun => ofRun = { ticks := 0, halted := true, faults := [] }
  | .removed any => !any
  | .refused _ | .done | .time _ => true

namespace Engine

variable {setup : Setup} {engine before : Engine} {call : HostCall}

/-! ## The root holds nothing -/

/-- The root holds no shared variables. -/
def RootHoldsNothing (engine : Engine) : Prop :=
  ∀ root, engine.instances.find? rootInstance = some root → root.sharedRefs = []

theorem RootHoldsNothing.put {after : Activation} (nothing : engine.RootHoldsNothing)
    (none : after.inst.id = rootInstance → after.inst.sharedRefs = []) :
    (engine.put after).RootHoldsNothing := by
  intro root found
  by_cases isRoot : after.inst.id = rootInstance
  · cases (find?_put engine isRoot).symm.trans found
    exact none isRoot
  · apply nothing root
    rw [← found]
    exact (Bindings.find?_insert_other _ _ isRoot).symm

/-- The forms at the top of a program write variables only; they cannot share any. -/
theorem rootRun_quiet (placed : setup.program.Placed) :
    (rootRun setup).Keeps (Quiet setup.program) := by
  have runsOn : (setup.program.exemplar Program.root).construct.suspends = false := by
    rw [placed.root]
    rfl
  have notMachine : (setup.program.exemplar Program.root).construct ≠ .machine := by
    rw [placed.root]
    decide
  have lasts := Quiet.lasts setup.program
  exact lasts.bind (Setup.runExemplar_keeps placed runsOn notMachine) fun _ => lasts.pure ()

theorem RootHoldsNothing.start (placed : setup.program.Placed) (coherent : engine.Coherent setup [])
    (nothing : engine.RootHoldsNothing) : engine.start.2.RootHoldsNothing := by
  cases fresh : engine.started with
  | true =>
      rw [start_of_started fresh]
      exact nothing
  | false =>
      rw [start_of_fresh fresh, coherent.same]
      cases found : engine.instances.find? rootInstance with
      | none => exact nothing
      | some root =>
          change (engine.begun.activate root (rootRun setup)).2.RootHoldsNothing
          have begun : engine.begun.RootHoldsNothing := nothing
          have refs : ∀ left, Quiet setup.program (engine.begun.starting root) left →
              left.inst.settle.sharedRefs = [] := by
            intro left quiet
            rw [left.inst.settle_sharedRefs]
            exact (quiet.same fun _ => rfl).trans (nothing root found)
          rcases activate_of_ends (rootRun_quiet placed (engine.begun.starting root)) with
            ⟨left, quiet, same⟩ | ⟨fault, left, quiet, same⟩
          · rw [same]
            exact begun.put fun _ => refs left quiet
          · rw [same]
            exact begun.put fun _ => refs left quiet

/-- No turn of a tick concerns the root. -/
theorem Coherent.find?_polled_root (placed : setup.program.Placed)
    (coherent : engine.Coherent setup []) :
    engine.polled.engine.instances.find? rootInstance
      = engine.start.2.instances.find? rootInstance := by
  have succession := (coherent.tick placed).succession
  have others : (engine.turns.filter fun turn => turn.inst.id = rootInstance) = [] := by
    apply List.filter_eq_nil_iff.mpr
    intro turn member
    simpa using (succession.known member).1
  rw [succession.find?_eq, others]
  rfl

theorem RootHoldsNothing.tick (placed : setup.program.Placed) (coherent : engine.Coherent setup [])
    (nothing : engine.RootHoldsNothing) : engine.runTick.2.RootHoldsNothing := by
  intro root found
  rw [find?_runTick] at found
  split at found
  · cases found
  · rw [coherent.find?_polled_root placed] at found
    exact nothing.start placed coherent root found

theorem RootHoldsNothing.move {next : Engine} (placed : setup.program.Placed)
    (coherent : engine.Coherent setup []) (nothing : engine.RootHoldsNothing)
    (move : engine.Move next) : next.RootHoldsNothing := by
  cases move with
  | start => exact nothing.start placed coherent
  | tick => exact nothing.tick placed coherent
  | launch | surroundings => exact nothing
  | @terminate id inst other found =>
      intro root foundRoot
      rw [find?_retire, if_neg (Ne.symm other)] at foundRoot
      exact nothing root foundRoot
  | @assign id inst after found quiet =>
      have same : after.inst.id = id := quiet.id.trans (coherent.id_of_find? found)
      apply nothing.put
      intro isRoot
      exact (quiet.same fun _ => rfl).trans (nothing inst (isRoot ▸ same ▸ found))

/-! ## An engine that has halted -/

/-- What is left of an engine that has halted: its root, which waits for nothing, with empty queues
and without shared variables. -/
structure Dormant (engine : Engine) (root : Instance) : Prop where
  started : engine.started = true
  launches : engine.world.launches = []
  transitions : engine.world.transitions = []
  shared : engine.world.shared = []
  instances : engine.instances = [(rootInstance, root)]
  id : root.id = rootInstance
  idle : root.contexts = []
  suspended : root.status = .suspended

/-- A table of variables in which nothing is held has no entries. -/
theorem eq_nil_of_balanced {cells : SharedCells} (balanced : cells.Balanced fun _ => 0) :
    cells = [] := by
  cases cells with
  | nil => rfl
  | cons entry rest =>
      have absent := balanced entry.1
      simp [SharedCells.held?, Bindings.find?] at absent

/-- Nothing is left but the root of an engine that has halted. -/
theorem AtRest.dormant (coherent : engine.Coherent setup []) (atRest : engine.AtRest)
    (nothing : engine.RootHoldsNothing) (halted : engine.isHalted = true) :
    ∃ root, engine.Dormant root := by
  simp only [isHalted, Bool.and_eq_true, List.isEmpty_iff] at halted
  obtain ⟨⟨⟨started, launches⟩, transitions⟩, live⟩ := halted
  obtain ⟨root, found, status⟩ := atRest.root
  have member := Bindings.mem_of_find? found
  have id := coherent.id_of_find? found
  have length := atRest.length_live coherent
  rw [live, List.length_nil, Nat.zero_add] at length
  obtain ⟨entry, only⟩ := List.length_eq_one_iff.mp length.symm
  rw [only, List.mem_singleton] at member
  rw [← member] at only
  refine ⟨root, started, launches, transitions, ?_, only, id, ?_, status.trans (if_pos started)⟩
  · apply eq_nil_of_balanced
    apply coherent.balanced.congr
    intro key
    rw [only, referencesIn]
    simp [nothing root found]
  · exact ((coherent.rests _ (Bindings.mem_of_find? found)).root (decide_eq_true id)).1

/-- Empty queues are taken off as they are. -/
theorem takeQueues_of_empty (launches : engine.world.launches = [])
    (transitions : engine.world.transitions = []) : engine.takeQueues = engine := by
  have drop : engine.world.launches.drop engine.launchCount = engine.world.launches := by
    rw [launches, List.drop_nil]
  unfold takeQueues
  rw [drop, ← transitions]

namespace Dormant

variable {root : Instance}

theorem find?_root (dormant : engine.Dormant root) :
    engine.instances.find? rootInstance = some root := by
  rw [dormant.instances]
  rfl

theorem isHalted (dormant : engine.Dormant root) : engine.isHalted = true := by
  have isRoot : root.isRoot = true := decide_eq_true dormant.id
  simp [Engine.isHalted, live, dormant.started, dormant.launches, dormant.transitions,
    dormant.instances, isRoot]

theorem start (dormant : engine.Dormant root) : engine.start = (none, engine) :=
  start_of_started dormant.started

/-- The root is not polled, since it is in no state. -/
theorem poll (dormant : engine.Dormant root) (progress : Progress)
    (same : progress.engine.instances = engine.instances) :
    progress.poll rootInstance = progress := by
  have quiet : root.hasPendingCallbacks = false := by
    unfold Instance.hasPendingCallbacks
    rw [dormant.idle]
    rfl
  unfold Progress.poll
  simp only [same, dormant.find?_root, Progress.isPolled, quiet, Bool.and_false, Bool.false_eq_true,
    if_false]

theorem beginTick (dormant : engine.Dormant root) : engine.beginTick.Dormant root :=
  ⟨dormant.started, dormant.launches, dormant.transitions, dormant.shared, dormant.instances,
    dormant.id, dormant.idle, dormant.suspended⟩

theorem retiring (dormant : engine.Dormant root) : engine.retiring = [] := by
  simp [Engine.retiring, dormant.instances, dormant.suspended]

/-- Behind its phases a tick has done no more than read the clock. -/
theorem polled (dormant : engine.Dormant root) :
    engine.polled = { engine := engine.beginTick } := by
  have ready : engine.ready = engine.beginTick := by
    unfold Engine.ready
    rw [dormant.start]
  have opened : engine.opened = { engine := engine.beginTick } := by
    unfold Engine.opened
    rw [ready, dormant.start,
      takeQueues_of_empty dormant.beginTick.launches dormant.beginTick.transitions]
    rfl
  have launches : engine.dueLaunches = [] := by
    unfold Engine.dueLaunches
    rw [ready, dormant.beginTick.launches, List.take_nil]
  have transitions : engine.dueTransitions = [] := by
    unfold Engine.dueTransitions
    rw [ready, dormant.beginTick.transitions]
  unfold Engine.polled transitioned launched
  rw [launches, transitions, List.foldl_nil, List.foldl_nil, opened, dormant.beginTick.instances]
  exact dormant.beginTick.poll _ rfl

/-- A tick finds nothing to do; it only reads the clock. -/
theorem runTick (dormant : engine.Dormant root) :
    engine.runTick = (.uneventful (engine.tick + 1), engine.beginTick) := by
  have phases : engine.runTick.2 = engine.beginTick := by
    rw [runTick_engine, dormant.polled, dormant.beginTick.retiring]
    rfl
  have report : engine.runTick.1 =
      { tick := engine.runTick.2.tick
        launched := engine.polled.launched
        transitioned := engine.polled.transitioned
        callbacks := engine.runTick.2.world.fired
        retired := engine.polled.engine.retiring.length
        executed := engine.runTick.2.world.executed
        faults := engine.polled.faults } := rfl
  rw [phases, dormant.polled, dormant.beginTick.retiring] at report
  exact Prod.ext report phases

/-- Without machines around it and without shared variables, the root only has globals to write. -/
theorem resolves (dormant : engine.Dormant root) {name : String} {slot : Slot}
    (resolved : engine.setup.resolve engine.world root name = .ok slot) :
    slot = .module ∨ slot = .global ∧ engine.world.globals.has name = true := by
  have isRoot : root.isRoot = true := decide_eq_true dormant.id
  unfold Setup.resolve at resolved
  simp only [dormant.idle, isRoot, dormant.shared, List.findIdx?_nil, Bool.not_true,
    Bool.false_and, Bool.false_eq_true, if_false] at resolved
  split at resolved
  · next key found =>
      have held := List.find?_some found
      cases held
  · split at resolved
    · cases resolved
      exact .inl rfl
    · split at resolved
      · next known =>
          cases resolved
          exact .inr ⟨rfl, known⟩
      · cases resolved

/-- Only a global can be written, through the root. -/
theorem assignVariable (dormant : engine.Dormant root) {next : Engine} {id : InstanceId}
    {name : String} {value : Value} (accepted : engine.assignVariable id name value = .ok next) :
    id = rootInstance ∧ engine.world.globals.has name = true
      ∧ next = { engine with
          world := { engine.world with globals := engine.world.globals.insert name value } } := by
  unfold Engine.assignVariable at accepted
  simp only at accepted
  split at accepted
  · cases accepted
  · split at accepted
    · cases accepted
    · next inst found =>
        have isOnly := Bindings.mem_of_find? found
        rw [dormant.instances, List.mem_singleton] at isOnly
        cases isOnly
        rw [Form.bind_eq_ok] at accepted
        obtain ⟨slot, resolved, accepted⟩ := accepted
        rcases dormant.resolves resolved with rfl | ⟨rfl, known⟩
        · cases accepted
        · cases accepted
          refine ⟨rfl, known, ?_⟩
          unfold Engine.put
          rw [dormant.id, Bindings.insert_of_find? found]

theorem runUntilHalted (dormant : engine.Dormant root) (maxTicks : Nat) :
    engine.runUntilHalted maxTicks = ({ ticks := 0, halted := true, faults := [] }, engine) := by
  cases maxTicks with
  | zero =>
      unfold Engine.runUntilHalted
      rw [dormant.isHalted]
  | succ maxTicks =>
      unfold Engine.runUntilHalted
      rw [if_pos dormant.isHalted]

/-- There is nothing to terminate. -/
theorem terminate (dormant : engine.Dormant root) (id : InstanceId) :
    engine.terminate id = (false, engine) := by
  rcases engine.terminate_cases id with refused | ⟨other, ⟨inst, found⟩, _⟩
  · exact refused
  · have isOnly := Bindings.mem_of_find? found
    rw [dormant.instances, List.mem_singleton] at isOnly
    exact absurd (congrArg Prod.fst isOnly) other

end Dormant

/-! ## The calls of a host -/

/-- A launch of a machine that exists is the only call that wakes an engine that has halted. -/
def wakes (engine : Engine) : HostCall → Bool
  | .launch machine => (engine.setup.program.machine? machine).isSome
  | _ => false

/-- What a call of the host does while an engine sleeps. A global changes only if the host writes
it, and the output only if the host clears it. -/
structure SleepsThrough (engine : Engine) (call : HostCall) : Prop where
  uneventful : (engine.perform call).1.isUneventful = true
  halted : (engine.perform call).2.isHalted = true
  shared : (engine.perform call).2.world.shared = []
  globals : (engine.perform call).2.world.globals = engine.world.globals
    ∨ ∃ name value, call = .assign rootInstance name value ∧ engine.world.globals.has name = true
      ∧ (engine.perform call).2.world.globals = engine.world.globals.insert name value
  printer : (engine.perform call).2.world.printer = engine.world.printer ∨ call = .clearOutput

namespace Dormant

variable {root : Instance}

theorem sleeps {answer : HostAnswer} {next : Engine} (same : engine.perform call = (answer, next))
    (uneventful : answer.isUneventful = true) (dormant : next.Dormant root)
    (globals : next.world.globals = engine.world.globals)
    (printer : next.world.printer = engine.world.printer ∨ call = .clearOutput) :
    engine.SleepsThrough call ∧ (engine.perform call).2.Dormant root := by
  constructor
  · constructor <;> rw [same]
    exacts [uneventful, dormant.isHalted, dormant.shared, .inl globals, printer]
  · rw [same]
    exact dormant

/-- One call: the same root stays asleep, unless a machine is launched. -/
theorem perform (dormant : engine.Dormant root) (asleep : engine.wakes call = false) :
    engine.SleepsThrough call ∧ (engine.perform call).2.Dormant root := by
  cases call with
  | start =>
      have same : engine.perform .start = (.outcome none, engine) := by
        simp only [Engine.perform, dormant.start]
      exact sleeps same rfl dormant rfl (.inl rfl)
  | tick =>
      have same : engine.perform .tick
          = (.report (.uneventful (engine.tick + 1)), engine.beginTick) := by
        simp only [Engine.perform, dormant.runTick]
      exact sleeps same (decide_eq_true rfl) dormant.beginTick rfl (.inl rfl)
  | run maxTicks =>
      have same : engine.perform (.run maxTicks)
          = (.summary { ticks := 0, halted := true, faults := [] }, engine) := by
        simp only [Engine.perform, dormant.runUntilHalted]
      exact sleeps same rfl dormant rfl (.inl rfl)
  | launch machine =>
      have unknown : engine.setup.program.machine? machine = none := by
        rwa [← Option.isNone_iff_eq_none, ← Option.isSome_eq_false_iff]
      have same : engine.perform (.launch machine)
          = (.refused ⟨.machine, machine⟩, engine) := by
        simp only [Engine.perform, Engine.launch, unknown, orUnchanged]
      exact sleeps same rfl dormant rfl (.inl rfl)
  | terminate id =>
      have same : engine.perform (.terminate id) = (.removed false, engine) := by
        simp only [Engine.perform, dormant.terminate]
      exact sleeps same rfl dormant rfl (.inl rfl)
  | assign id name value =>
      cases accepted : engine.assignVariable id name value with
      | error refused =>
          have same : engine.perform (.assign id name value) = (.refused refused, engine) := by
            simp only [Engine.perform, accepted, orUnchanged]
          exact sleeps same rfl dormant rfl (.inl rfl)
      | ok next =>
          have same : engine.perform (.assign id name value) = (.done, next) := by
            simp only [Engine.perform, accepted, orUnchanged]
          obtain ⟨rfl, known, rfl⟩ := dormant.assignVariable accepted
          have written : (engine.perform (.assign rootInstance name value)).2.Dormant root := by
            rw [same]
            exact { dormant with }
          refine ⟨⟨?_, written.isHalted, written.shared, .inr ⟨name, value, rfl, known, ?_⟩, ?_⟩,
            written⟩ <;> rw [same]
          · rfl
          · exact .inl rfl
  | clearOutput => exact sleeps rfl rfl { dormant with } rfl (.inr rfl)
  | advance | advanceSeconds | setClock => exact sleeps rfl rfl { dormant with } rfl (.inl rfl)

end Dormant

/-- A halt is for good. Whatever the calls of the host, as long as none launches a machine, nothing
happens in any of them, and the engine is halted at the end. -/
structure StaysHalted (engine : Engine) (calls : List HostCall) : Prop where
  halted : (engine.performAll calls).isHalted = true
  shared : (engine.performAll calls).world.shared = []
  sleeps : ∀ front call back, calls = front ++ call :: back →
    (engine.performAll front).SleepsThrough call

theorem Dormant.staysHalted {root : Instance} {calls : List HostCall}
    (placed : setup.program.Placed) (coherent : engine.Coherent setup [])
    (dormant : engine.Dormant root) (asleep : ∀ call ∈ calls, engine.wakes call = false) :
    engine.StaysHalted calls := by
  induction calls generalizing engine with
  | nil => exact ⟨dormant.isHalted, dormant.shared, by simp⟩
  | cons first rest inductionHypothesis =>
      obtain ⟨here, still⟩ := dormant.perform (asleep first List.mem_cons_self)
      have next := ((engine.perform_moves first).coherent placed coherent).1
      have same : (engine.perform first).2.setup = engine.setup :=
        next.same.trans coherent.same.symm
      have others : ∀ call ∈ rest, (engine.perform first).2.wakes call = false := by
        intro call member
        rw [← asleep call (List.mem_cons_of_mem _ member)]
        unfold wakes
        rw [same]
      have later := inductionHypothesis next still others
      refine ⟨later.halted, later.shared, ?_⟩
      rintro (_ | ⟨_, front⟩) call back split
      · obtain ⟨rfl, _⟩ := List.cons.inj split
        exact here
      · obtain ⟨rfl, isRest⟩ := List.cons.inj split
        exact later.sleeps front call back isRest

/-- Whatever a host has done with a compiled program, once the engine has halted, only the launch
of a machine brings it back to life. -/
theorem Reaches.stays_halted {options : CompileOptions} {tape : Tape} {compilation : Compilation}
    (compiled : tape.compile options = .ok compilation) {registry : Registry}
    {config : EngineConfig} {printer : Printer}
    (reached : (build compilation.program registry config printer).Reaches engine)
    (halted : engine.isHalted = true) (calls : List HostCall)
    (asleep : ∀ call ∈ calls, engine.wakes call = false) : engine.StaysHalted calls := by
  have placed : (Setup.mk compilation.program registry config).program.Placed :=
    Tape.compile_placed compiled
  have nothing : engine.RootHoldsNothing := by
    apply reached.moves.keeps placed (build_coherent _ registry config printer)
      (fun coherent nothing move => RootHoldsNothing.move placed coherent nothing move)
    intro root found
    cases found
    rfl
  have coherent := reached.coherent_of_compiled compiled
  obtain ⟨root, dormant⟩ := (reached.atRest_of_compiled compiled).dormant coherent nothing halted
  exact dormant.staysHalted placed coherent asleep

open Token in
/-- The tape of `(machine m (shared s 1) (state main (set g 2))) (set g 1) (launch m)`. -/
def sharedThenGone : Tape :=
  Tape.ofTokens .empty
    (bracketed 0
        ([word "machine" 1, word "m" 9]
          ++ bracketed 11 [word "shared" 12, word "s" 19, ⟨.constant (.int 1), 21⟩] 22
          ++ bracketed 24
            ([word "state" 25, word "main" 31]
              ++ bracketed 36 [word "set" 37, word "g" 41, ⟨.constant (.int 2), 43⟩] 44)
            45)
        46
      ++ bracketed 48 [word "set" 49, word "g" 53, ⟨.constant (.int 1), 55⟩] 56
      ++ bracketed 58 [word "launch" 59, word "m" 66] 67)

/-- An instance has come and gone, with the variable that it shared; then the host writes a
global. -/
theorem stays_halted_sharedThenGone :
    ∃ compilation engine, sharedThenGone.compile {} = .ok compilation
      ∧ (build compilation.program .empty {} .empty).performAll [.tick] = engine
      ∧ engine.nextId = 2 ∧ engine.isHalted = true
      ∧ engine.world.globals = [("g", .int 2)]
      ∧ (engine.performAll [.tick, .assign 0 "g" (.int 3), .launch "nobody", .terminate 1,
          .run 5]).world.globals = [("g", .int 3)]
      ∧ engine.StaysHalted [.tick, .assign 0 "g" (.int 3), .launch "nobody", .terminate 1,
          .run 5] := by
  refine ⟨_, _, rfl, rfl, by decide +kernel, by decide +kernel, by decide +kernel,
    by decide +kernel, ?_⟩
  have compiled : sharedThenGone.compile {} = .ok _ := rfl
  exact Reaches.stays_halted compiled ⟨[.tick], rfl⟩ (by decide +kernel) _ (by decide +kernel)

end Engine

end MachineScript
