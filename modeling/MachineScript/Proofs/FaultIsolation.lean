import MachineScript.Proofs.History
import MachineScript.Proofs.Waiting

/-!
Contract: faults concern the instances that have them, and these once.

Owns:
- that a tick reports an instance at most once, that it removes what has
  failed, with its transition, and that the root stays;
- that an instance which waits stays as it is through a tick in which none of
  its conditions holds or fails, whatever the others do;
- that no instance fails twice in a run.

Does not own: which runs fail.
-/

namespace MachineScript

/-! ## Instances whose conditions do not hold -/

/-- At some time no condition of a waiting handler holds, and none fails. -/
def Instance.KeepsWaiting (inst : Instance) (registry : Registry) (now : Duration) : Prop :=
  ∀ context ∈ inst.contexts, ∀ callback ∈ context.callbacks,
    registry.isSatisfied callback.condition callback.argument (callback.waited now)
      = some (.ok false)

namespace Setup

variable {setup : Setup} {start : Activation}

theorem pollContext_idle (idle : start.inst.KeepsWaiting setup.registry start.world.now)
    (level unseen index : Nat) : setup.pollContext level unseen index start = .ok true start := by
  induction unseen generalizing index with
  | zero => rfl
  | succ unseen inductionHypothesis =>
      rw [pollContext, Run.bind_get]
      cases found : start.inst.callback? level index with
      | none => rfl
      | some callback =>
          unfold Instance.callback? at found
          split at found
          · next context there =>
              simp only [idle context (List.mem_of_getElem? there) callback
                (List.mem_of_getElem? found)]
              exact inductionHypothesis (index + 1)
          · cases found

theorem pollContexts_idle (idle : start.inst.KeepsWaiting setup.registry start.world.now)
    (levels : Nat) : setup.pollContexts levels start = .ok () start := by
  induction levels with
  | zero => rfl
  | succ level inductionHypothesis =>
      rw [pollContexts, Run.bind_get, Run.bind_of_ok (pollContext_idle idle level _ 0), if_pos rfl]
      exact inductionHypothesis

theorem pollHandlers_idle (idle : start.inst.KeepsWaiting setup.registry start.world.now) :
    setup.pollHandlers start = .ok () start := by
  unfold pollHandlers
  rw [Run.bind_get]
  exact pollContexts_idle idle _

end Setup

namespace Engine

variable {setup : Setup} {engine before middle after : Engine} {turn : Turn} {turns : List Turn}
  {taken : List PendingTransition}

/-! ## What faults leave alone -/

/-- A poll in which nothing happens leaves its instance as it is. -/
theorem find?_poll {inst : Instance} (waits : inst.Waits)
    (idle : inst.KeepsWaiting engine.setup.registry engine.world.now) :
    (Turn.mk engine inst .poll).outcome.2.instances.find? inst.id = some inst := by
  have idleToo : (engine.starting inst).inst.KeepsWaiting engine.setup.registry
      (engine.starting inst).world.now := idle
  have ended : (Turn.mk engine inst .poll).run = .ok () (engine.starting inst) :=
    Setup.pollHandlers_idle idleToo
  have settled : (engine.starting inst).inst.settle = inst := by
    have work : (engine.starting inst).inst.hasWork = true := waits.work
    rw [Instance.settle_of_work work, ← waits.suspended]
    rfl
  rw [Turn.outcome_of_ok ended, settled]
  exact find?_put _ rfl

/-- An instance that waits stays as it is, if it is polled only and nothing happens then. -/
theorem Succession.untouched (succession : Succession setup before turns after) {id : InstanceId}
    {inst : Instance} (found : before.instances.find? id = some inst) (waits : inst.Waits)
    (idle : inst.KeepsWaiting setup.registry before.world.now)
    (polls : ∀ turn ∈ turns, turn.inst.id = id → turn.errand = .launch ∨ turn.errand = .poll) :
    after.instances.find? id = some inst := by
  induction succession with
  | done engine => exact found
  | @more before after turn turns _ _ coherent begins orderly _ inductionHypothesis =>
      refine inductionHypothesis ?_ ?_ fun later member =>
        polls later (List.mem_cons_of_mem _ member)
      · by_cases same : turn.inst.id = id
        · subst same
          have running := begins.found.symm.trans found
          split at running
          · cases running
          · next notLaunch =>
              cases running
              have isPoll := (polls turn List.mem_cons_self rfl).resolve_left notLaunch
              rw [← coherent.same, ← begins.sameSetup, ← begins.world] at idle
              obtain ⟨engine, inst, errand⟩ := turn
              subst isPoll
              exact find?_poll waits idle
        · rw [orderly.find?_other same, begins.table, found]
      · rw [orderly.now, begins.world]
        exact idle

/-! ## A tick -/

/-- How a tick deals with faults. It reports an instance once at most, and removes what has failed
together with its transition, but for the root. An instance that has no transition queued and whose
handlers keep waiting stays as it is. -/
structure IsolatesFaults (engine : Engine) : Prop where
  once : (engine.runTick.1.faults.map InstanceFault.instanceId).Nodup
  gone : ∀ fault ∈ engine.runTick.1.faults, fault.instanceId ≠ rootInstance →
    engine.runTick.2.instances.find? fault.instanceId = none
      ∧ ∀ pending ∈ engine.runTick.2.world.transitions, pending.instanceId ≠ fault.instanceId
  root : ∃ root, engine.runTick.2.instances.find? rootInstance = some root
    ∧ root.status = .suspended ∧ root.contexts = []
  untouched : ∀ id inst, engine.instances.find? id = some inst → id ≠ rootInstance →
    (∀ pending ∈ engine.world.transitions, pending.instanceId ≠ id) →
    inst.KeepsWaiting engine.setup.registry engine.clock.now →
      engine.runTick.2.instances.find? id = some inst

/-- An instance of a machine that fails in a tick is removed by the tick. -/
theorem Coherent.gone_of_fault (placed : setup.program.Placed)
    (coherent : engine.Coherent setup []) {fault : InstanceFault}
    (failed : fault ∈ engine.runTick.1.faults) (other : fault.instanceId ≠ rootInstance) :
    engine.runTick.2.instances.find? fault.instanceId = none
      ∧ fault.instanceId < engine.runTick.2.nextId := by
  have tick := coherent.tick placed
  obtain ⟨turn, member, same, failing⟩ :=
    (coherent.exists_fault_iff placed other).mp ⟨fault, failed, rfl⟩
  have finished := tick.succession.finished_of_mem member failing
  rw [same] at finished
  constructor
  · rw [find?_runTick, if_pos ((mem_retiring_iff tick.coherent).mpr finished)]
  · obtain ⟨inst, found, _⟩ := finished
    obtain ⟨instances, shared, ended⟩ := engine.runTick_eq
    rw [ended]
    exact tick.coherent.lt_nextId found

/-- The start fails for the root only, and the turns of a tick for other instances. -/
theorem Coherent.nodup_runTick_faults (placed : setup.program.Placed)
    (coherent : engine.Coherent setup []) :
    (engine.runTick.1.faults.map InstanceFault.instanceId).Nodup := by
  have tick := coherent.tick placed
  have turns := tick.succession.nodup_faults
  rw [coherent.runTick_faults placed, List.map_append]
  cases failed : engine.start.1 with
  | none => exact turns
  | some fault =>
      refine List.nodup_cons.mpr ⟨?_, turns⟩
      intro again
      obtain ⟨other, member, same⟩ := List.mem_map.mp again
      obtain ⟨turn, there, failedToo⟩ := List.mem_flatMap.mp member
      apply (tick.succession.known there).1
      rw [← instanceId_of_activate (Option.mem_toList.mp failedToo), same]
      exact (coherent.instanceId_of_start failed).1

/-- Only launches and polls concern an instance that has no transition queued. -/
theorem Coherent.errand_of_unqueued (placed : setup.program.Placed)
    (coherent : engine.Coherent setup []) (member : turn ∈ engine.turns)
    (unqueued : ∀ pending ∈ engine.world.transitions, pending.instanceId ≠ turn.inst.id) :
    turn.errand = .launch ∨ turn.errand = .poll := by
  rcases List.mem_append.mp member with isServiced | isPoll
  · rcases List.mem_append.mp isServiced with isLaunch | isTransition
    · exact .inl (errand_of_mem_launchTurns isLaunch)
    · have listed := List.mem_map_of_mem (f := fun turn => (turn.inst.id, turn.errand)) isTransition
      rw [(coherent.servesQueue placed).serviced] at listed
      obtain ⟨pending, there, same⟩ := List.mem_map.mp listed
      exact absurd (congrArg Prod.fst same) (unqueued pending there)
  · obtain ⟨_, _, rfl, _⟩ := coherent.of_mem_pollTurns placed isPoll
    exact .inr rfl

theorem AtRest.isolatesFaults (placed : setup.program.Placed)
    (coherent : engine.Coherent setup []) (atRest : engine.AtRest) : engine.IsolatesFaults := by
  have tick := coherent.tick placed
  have after := (coherent.runTick placed).1
  refine ⟨coherent.nodup_runTick_faults placed, ?_, ?_, ?_⟩
  · intro fault failed other
    have absent := (coherent.gone_of_fault placed failed other).1
    refine ⟨absent, ?_⟩
    intro pending there same
    obtain ⟨_, inst, _, found⟩ := after.queueInStep.live pending there
    rw [same, absent] at found
    cases found
  · obtain ⟨root, found, status⟩ := (atRest.tick placed coherent).root
    rw [coherent.started_runTick placed, if_pos rfl] at status
    have member := Bindings.mem_of_find? found
    have isRoot : root.isRoot = true := decide_eq_true (after.ids _ member).1
    exact ⟨root, found, status, ((after.rests _ member).root isRoot).1⟩
  · intro id inst found other unqueued idle
    have waits := atRest.waits found other
    have opened : engine.opened.engine.instances.find? id = some inst :=
      (coherent.find?_start placed other).trans found
    have now : engine.opened.engine.world.now = engine.clock.now :=
      congrArg ManualClock.now engine.start_keeps.2.2.2
    rw [coherent.same, ← now] at idle
    have polled := tick.succession.untouched opened waits idle (by
      rintro turn member rfl
      exact coherent.errand_of_unqueued placed member unqueued)
    rw [find?_runTick, if_neg, polled]
    rw [mem_retiring_iff tick.coherent]
    rintro ⟨last, foundLast, retiring⟩
    cases polled.symm.trans foundLast
    rw [waits.suspended] at retiring
    cases retiring

/-! ## A run -/

/-- An instance may fail: the root until it has started, and any other as long as it is in the table
or does not exist yet. -/
def MayFail (engine : Engine) (id : InstanceId) : Prop :=
  if id = rootInstance then engine.started = false
  else (engine.instances.find? id).isSome = true ∨ engine.nextId ≤ id

/-- Faults between two engines: each instance fails that might, and may not fail again. -/
structure FailsOnce (before after : Engine) (faults : List InstanceFault) : Prop where
  once : (faults.map InstanceFault.instanceId).Nodup
  could : ∀ fault ∈ faults, before.MayFail fault.instanceId
  spent : ∀ fault ∈ faults, ¬after.MayFail fault.instanceId
  fewer : ∀ id, after.MayFail id → before.MayFail id

theorem Follows.mayFail (follows : before.Follows after)
    (started : before.started = true → after.started = true) {id : InstanceId}
    (may : after.MayFail id) : before.MayFail id := by
  unfold MayFail at may ⊢
  split
  · next isRoot =>
      rw [if_pos isRoot] at may
      by_contra fresh
      rw [started (Bool.not_eq_false _ ▸ fresh)] at may
      cases may
  · next other =>
      rw [if_neg other] at may
      rcases may with there | new
      · exact follows.known there
      · exact .inr (Nat.le_trans follows.nextId new)

theorem FailsOnce.trans {early late : List InstanceFault} (first : FailsOnce before middle early)
    (second : FailsOnce middle after late) : FailsOnce before after (early ++ late) where
  once := by
    rw [List.map_append, List.nodup_append]
    refine ⟨first.once, second.once, ?_⟩
    intro id isEarly other isLate same
    subst same
    obtain ⟨fault, member, rfl⟩ := List.mem_map.mp isEarly
    obtain ⟨again, memberToo, same⟩ := List.mem_map.mp isLate
    exact first.spent fault member (same ▸ second.could again memberToo)
  could := List.forall_mem_append.mpr
    ⟨first.could, fun fault member => first.fewer _ (second.could fault member)⟩
  spent := List.forall_mem_append.mpr
    ⟨fun fault member may => first.spent fault member (second.fewer _ may), second.spent⟩
  fewer id may := first.fewer id (second.fewer id may)

theorem Move.started {next : Engine} (placed : setup.program.Placed)
    (coherent : engine.Coherent setup []) (started : engine.started = true)
    (move : engine.Move next) : next.started = true := by
  cases move with
  | start => exact engine.start_keeps.1
  | tick => exact coherent.started_runTick placed
  | terminate other found =>
      unfold retire
      split <;> exact started
  | launch | assign | surroundings => exact started

/-- Where nothing fails, nothing becomes able to. -/
theorem Coherent.failsOnce_of_moves (placed : setup.program.Placed)
    (coherent : before.Coherent setup []) (moves : before.Moves after) :
    FailsOnce before after [] := by
  have started : before.started = true → after.started = true :=
    moves.keeps placed coherent fun here started move => move.started placed here started
  refine ⟨List.nodup_nil, nofun, nofun, ?_⟩
  exact fun id => (moves.coherent placed coherent).2.mayFail started

theorem Coherent.failsOnce_start (placed : setup.program.Placed)
    (coherent : engine.Coherent setup []) :
    FailsOnce engine engine.start.2 engine.start.1.toList := by
  have nothing := coherent.failsOnce_of_moves placed (.single (.start engine))
  cases failed : engine.start.1 with
  | none => exact nothing
  | some fault =>
      obtain ⟨isRoot, fresh⟩ := coherent.instanceId_of_start failed
      refine ⟨List.pairwise_singleton _ _, ?_, ?_, nothing.fewer⟩
      · refine List.forall_mem_singleton.mpr ?_
        unfold MayFail
        rwa [if_pos isRoot]
      · refine List.forall_mem_singleton.mpr ?_
        unfold MayFail
        rw [if_pos isRoot, engine.start_keeps.1]
        exact Bool.noConfusion

theorem Coherent.failsOnce_tick (placed : setup.program.Placed)
    (coherent : engine.Coherent setup []) :
    FailsOnce engine engine.runTick.2 engine.runTick.1.faults := by
  have nothing := coherent.failsOnce_of_moves placed (.single (.tick engine))
  refine ⟨coherent.nodup_runTick_faults placed, ?_, ?_, nothing.fewer⟩
  · rw [coherent.runTick_faults placed, List.forall_mem_append]
    refine ⟨(coherent.failsOnce_start placed).could, ?_⟩
    intro fault member
    obtain ⟨turn, there, failed⟩ := List.mem_flatMap.mp member
    have same := instanceId_of_activate (Option.mem_toList.mp failed)
    obtain ⟨other, known⟩ := (coherent.tick placed).succession.known there
    unfold MayFail
    rw [same, if_neg other, ← coherent.find?_start placed other, ← engine.start_keeps.2.1]
    exact known
  · intro fault failed
    unfold MayFail
    split
    · rw [coherent.started_runTick placed]
      exact Bool.noConfusion
    · next other =>
        obtain ⟨absent, below⟩ := coherent.gone_of_fault placed failed other
        rw [absent]
        rintro (there | new)
        · cases there
        · exact Nat.not_lt_of_le new below

theorem Coherent.failsOnce_run (placed : setup.program.Placed) (maxTicks : Nat) {engine : Engine}
    (coherent : engine.Coherent setup []) :
    FailsOnce engine (engine.runUntilHalted maxTicks).2
      (engine.runUntilHalted maxTicks).1.faults := by
  induction maxTicks generalizing engine with
  | zero => exact coherent.failsOnce_of_moves placed .refl
  | succ maxTicks inductionHypothesis =>
      unfold runUntilHalted
      split
      · exact coherent.failsOnce_of_moves placed .refl
      · exact (coherent.failsOnce_tick placed).trans
          (inductionHypothesis (coherent.runTick placed).1)

theorem Coherent.failsOnce_perform (placed : setup.program.Placed)
    (coherent : engine.Coherent setup []) (call : HostCall) :
    FailsOnce engine (engine.perform call).2 (engine.perform call).1.faults := by
  have nothing := coherent.failsOnce_of_moves placed (engine.perform_moves call)
  cases call with
  | start => exact coherent.failsOnce_start placed
  | tick => exact coherent.failsOnce_tick placed
  | run maxTicks => exact coherent.failsOnce_run placed maxTicks
  | launch machine =>
      simp only [perform] at nothing ⊢
      cases accepted : engine.launch machine <;> rw [accepted] at nothing <;> exact nothing
  | assign id name value =>
      simp only [perform] at nothing ⊢
      cases accepted : engine.assignVariable id name value <;> rw [accepted] at nothing <;>
        exact nothing
  | terminate | clearOutput | advance | advanceSeconds | setClock => exact nothing

/-- No instance fails twice, however long a run is. -/
theorem Coherent.failsOnce (placed : setup.program.Placed) (calls : List HostCall)
    {engine : Engine} (coherent : engine.Coherent setup []) :
    FailsOnce engine (engine.performAll calls)
      ((engine.answers calls).flatMap HostAnswer.faults) := by
  induction calls generalizing engine with
  | nil => exact coherent.failsOnce_of_moves placed .refl
  | cons call rest inductionHypothesis =>
      have next := ((engine.perform_moves call).coherent placed coherent).1
      exact (coherent.failsOnce_perform placed call).trans (inductionHypothesis next)

/-- Whatever a host does with a compiled program, faults are isolated in every tick, and no instance
fails twice. -/
theorem build_isolates_faults {options : CompileOptions} {tape : Tape} {compilation : Compilation}
    (compiled : tape.compile options = .ok compilation) (registry : Registry)
    (config : EngineConfig) (printer : Printer) (calls : List HostCall) :
    ((build compilation.program registry config printer).performAll calls).IsolatesFaults
      ∧ ((((build compilation.program registry config printer).answers calls).flatMap
          HostAnswer.faults).map InstanceFault.instanceId).Nodup := by
  have placed : (Setup.mk compilation.program registry config).program.Placed :=
    Tape.compile_placed compiled
  have reached : (build compilation.program registry config printer).Reaches _ := ⟨calls, rfl⟩
  have coherent := reached.coherent_of_compiled compiled
  have atRest := reached.atRest_of_compiled compiled
  have runs := (build_coherent _ registry config printer).failsOnce placed calls
  exact ⟨atRest.isolatesFaults placed coherent, runs.once⟩

open Token in
/-- The tape of `(machine good (state main (on never 0 (goto main))))
(machine bad (state main (goto nowhere))) (launch good) (launch bad)`. -/
def goodAndBad : Tape :=
  Tape.ofTokens .empty
    (bracketed 0
        ([word "machine" 1, word "good" 9]
          ++ bracketed 14
            ([word "state" 15, word "main" 21]
              ++ bracketed 26
                ([word "on" 27, word "never" 30, ⟨.constant (.int 0), 36⟩]
                  ++ bracketed 38 [word "goto" 39, word "main" 44] 48)
                49)
            50)
        51
      ++ bracketed 53
        ([word "machine" 54, word "bad" 62]
          ++ bracketed 66
            ([word "state" 67, word "main" 73]
              ++ bracketed 78 [word "goto" 79, word "nowhere" 84] 91)
            92)
        93
      ++ bracketed 95 [word "launch" 96, word "good" 103] 107
      ++ bracketed 109 [word "launch" 110, word "bad" 117] 120)

/-- The transition to a state that does not exist fails; what waits for `never` goes on waiting. -/
theorem build_isolates_faults_goodAndBad :
    ∃ compilation engine, goodAndBad.compile {} = .ok compilation
      ∧ build compilation.program (Registry.empty.withCondition "never" fun _ _ => .ok false) {}
          .empty = engine
      ∧ (engine.answers [.tick, .tick]).flatMap HostAnswer.faults
        = [⟨2, "bad", .undefined .state "nowhere"⟩]
      ∧ ((engine.performAll [.tick, .tick]).instances.map Prod.fst) = [rootInstance, 1]
      ∧ (engine.performAll [.tick]).IsolatesFaults
      ∧ (((engine.answers [.tick]).flatMap HostAnswer.faults).map
          InstanceFault.instanceId).Nodup := by
  refine ⟨_, _, rfl, rfl, by decide +kernel, by decide +kernel, ?_⟩
  have compiled : goodAndBad.compile {} = .ok _ := rfl
  exact build_isolates_faults compiled
    (Registry.empty.withCondition "never" fun _ _ => .ok false) {} .empty [.tick]

end Engine

end MachineScript
