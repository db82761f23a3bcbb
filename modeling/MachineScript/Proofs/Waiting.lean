import MachineScript.Proofs.LexicalStack
import MachineScript.Proofs.TransitionQueue

/-!
Contract: what instances wait for when they do not run.

Owns:
- between calls of the host, instances that are suspended in a state with
  something to wait for, and a root that is there;
- that a turn leaves its instance like that or finished, and which of the two;
- which instances a tick removes.

Does not own: when an instance that waits goes on.
-/

namespace MachineScript

/-! ## Instances that wait -/

namespace Instance

variable {inst : Instance}

/-- There is something for which the instance may run again. -/
def hasWork (inst : Instance) : Bool :=
  inst.transitionQueued || inst.parked || inst.hasPendingCallbacks

/-- An instance of a machine between its runs. -/
structure Waits (inst : Instance) : Prop where
  suspended : inst.status = .suspended
  stands : inst.contexts ≠ []
  work : inst.hasWork = true

theorem settle_of_work (work : inst.hasWork = true) :
    inst.settle = { inst with status := .suspended } := by
  unfold hasWork at work
  unfold settle
  rw [if_pos]
  simpa only [Bool.or_assoc, Bool.or_eq_true] using Or.inr work

theorem settle_of_idle (notRoot : inst.isRoot = false) (idle : inst.hasWork = false) :
    inst.settle = { inst with contexts := [], status := .retiring } := by
  unfold hasWork at idle
  unfold settle
  rw [if_neg]
  rw [Bool.not_eq_true, notRoot, Bool.false_or]
  exact idle

theorem stands_of_currentState {state : ExemplarId} (current : inst.currentState = some state) :
    inst.contexts ≠ [] := by
  intro empty
  unfold currentState at current
  rw [empty] at current
  cases current

end Instance

/-- Other values of variables make no difference. -/
theorem Quiet.waits {program : Program} {before after : Activation}
    (quiet : Quiet program before after) (waits : before.inst.Waits) : after.inst.Waits where
  suspended := (quiet.same fun _ => rfl).trans waits.suspended
  stands := by
    have same : after.inst.contexts.isEmpty = before.inst.contexts.isEmpty :=
      @Quiet.same _ _ _ _ (fun inst => inst.contexts.isEmpty) (fun inst => List.isEmpty_map) quiet
    intro empty
    rw [empty] at same
    exact waits.stands (List.isEmpty_iff.mp same.symm)
  work := by
    have callbacks : ∀ inst : Instance,
        inst.skeleton.hasPendingCallbacks = inst.hasPendingCallbacks :=
      fun inst => List.any_map
    have same : after.inst.hasWork = before.inst.hasWork := by
      apply quiet.same
      intro inst
      unfold Instance.hasWork
      rw [callbacks]
      rfl
    exact same.trans waits.work

/-- An errand that returns has entered a state, unless it is a poll. -/
theorem Errand.destination_isSome (setup : Setup) {errand : Errand} (enters : errand ≠ .poll)
    (start : Activation) :
    (errand.destination setup).Ends start (fun destination _ => destination.isSome = true)
      (fun _ => True) := by
  cases errand with
  | launch =>
      simp only [destination, Run.ends_bind, Run.ends_get]
      apply Run.ends_of_forall _ _ fun _ => trivial
      intro _ _
      split
      · rfl
      · trivial
  | transition target =>
      simp only [destination, Run.ends_bind, Run.ends_get, Run.ends_modifyInstance]
      split
      · trivial
      · rfl
  | poll => exact absurd rfl enters

namespace Engine

variable {setup : Setup} {engine before after : Engine} {turn : Turn} {turns : List Turn}
  {due taken : List PendingTransition}

/-! ## The end of a turn -/

/-- The run of a turn returns, and its instance is left with nothing to wait for. -/
def Turn.EndsIdle (turn : Turn) : Prop :=
  ∃ left, turn.run = .ok () left ∧ left.inst.hasWork = false

theorem Turn.entered_of_ok {left : Activation} (ended : turn.run = .ok () left)
    (enters : turn.errand ≠ .poll) : ∃ state, turn.entered = some state := by
  unfold Turn.run at ended
  rw [Errand.run_eq] at ended
  unfold Turn.entered
  cases arrived : turn.errand.destination turn.engine.setup (turn.engine.starting turn.inst) with
  | ok destination middle =>
      have isSome := (Errand.destination_isSome _ enters _).of_ok arrived
      exact Option.isSome_iff_exists.mp isSome
  | error cause middle =>
      rw [Run.bind_of_error arrived] at ended
      cases ended

namespace Turn

/-- An instance has finished after a turn if the turn fails or leaves nothing to wait for. -/
theorem Orderly.finished_iff (orderly : turn.Orderly setup taken) :
    turn.outcome.2.Finished turn.inst.id ↔ turn.outcome.1.isSome = true ∨ turn.EndsIdle := by
  cases ended : turn.run with
  | ok value left =>
      obtain ⟨found, notRoot⟩ := orderly.settles ended
      have returned : turn.outcome.1.isSome = false := by
        rw [outcome_of_ok ended]
        rfl
      rw [returned]
      constructor
      · rintro ⟨inst, foundToo, retiring⟩
        cases foundToo.symm.trans found
        refine .inr ⟨left, ended, ?_⟩
        by_contra work
        rw [Bool.not_eq_false] at work
        rw [Instance.settle_of_work work] at retiring
        cases retiring
      · rintro (failed | ⟨other, endedToo, idle⟩)
        · cases failed
        · cases ended.symm.trans endedToo
          exact ⟨_, found, by rw [Instance.settle_of_idle notRoot idle]⟩
  | error cause left =>
      have failed := failed_of_error ended
      exact ⟨fun _ => .inl failed, fun _ => orderly.fault failed⟩

/-- A turn leaves its instance in a state, unless the instance has finished. -/
theorem Orderly.stands (placed : setup.program.Placed) (coherent : before.Coherent setup due)
    (begins : turn.Begins before) (orderly : turn.Orderly setup taken) {left : Activation}
    (ended : turn.run = .ok () left) (stands : turn.errand = .poll → turn.inst.contexts ≠ []) :
    ∃ inst, turn.outcome.2.instances.find? turn.inst.id = some inst
      ∧ (inst.contexts ≠ [] ∨ inst.status = .retiring) := by
  by_cases isPoll : turn.errand = .poll
  · cases begins with
    | launch => cases isPoll
    | resume inst errand _ found =>
        change errand = .poll at isPoll
        subst isPoll
        obtain ⟨after, there, stays⟩ := stays_of_polls placed coherent
          (Bindings.mem_of_find? found) orderly.notRoot
        refine ⟨after, there, stays.imp_left fun same => ?_⟩
        intro empty
        unfold Instance.stack at same
        rw [empty, List.map_nil, eq_comm, List.map_eq_nil_iff] at same
        exact stands rfl same
  · obtain ⟨state, entered⟩ := entered_of_ok ended isPoll
    have same : turn.engine.setup = setup := begins.sameSetup.trans coherent.same
    have isMachine := orderly.isMachine
    subst same
    obtain ⟨after, there, current⟩ := current_of_entered placed orderly.notRoot
      (fun _ => isMachine) entered ((leads_of_entered entered).isState placed)
    exact ⟨after, there, current.imp_left Instance.stands_of_currentState⟩

end Turn

/-! ## Between two turns -/

/-- What holds between two turns: the root is there and has not finished, and every other instance
waits, or it has finished. -/
structure Settled (engine : Engine) : Prop where
  root : ∃ root, engine.instances.find? rootInstance = some root
    ∧ root.status = if engine.started then .suspended else .idle
  others : ∀ id inst, engine.instances.find? id = some inst → id ≠ rootInstance →
    inst.status = .retiring ∨ inst.Waits

/-- What holds between calls of the host: no instance has finished. -/
structure AtRest (engine : Engine) : Prop extends engine.Settled where
  unfinished : ∀ id, ¬engine.Finished id

theorem AtRest.waits (atRest : engine.AtRest) {id : InstanceId} {inst : Instance}
    (found : engine.instances.find? id = some inst) (other : id ≠ rootInstance) : inst.Waits :=
  (atRest.others id inst found other).resolve_left fun retiring =>
    atRest.unfinished id ⟨inst, found, retiring⟩

/-- It is enough that the root is there and that the others wait. -/
theorem AtRest.of_waits
    (root : ∃ root, engine.instances.find? rootInstance = some root
      ∧ root.status = if engine.started then .suspended else .idle)
    (waits : ∀ id inst, engine.instances.find? id = some inst → id ≠ rootInstance → inst.Waits) :
    engine.AtRest := by
  refine ⟨⟨root, fun id inst found other => .inr (waits id inst found other)⟩, ?_⟩
  rintro id ⟨inst, found, retiring⟩
  by_cases isRoot : id = rootInstance
  · obtain ⟨known, there, status⟩ := root
    subst isRoot
    cases found.symm.trans there
    rw [retiring] at status
    split at status <;> cases status
  · have suspended := (waits id inst found isRoot).suspended
    rw [retiring] at suspended
    cases suspended

theorem Settled.root_not_finished (settled : engine.Settled) : ¬engine.Finished rootInstance := by
  rintro ⟨inst, found, retiring⟩
  obtain ⟨root, there, status⟩ := settled.root
  cases found.symm.trans there
  rw [retiring] at status
  split at status <;> cases status

/-- A turn leaves its instance waiting, unless the instance has finished. -/
theorem Turn.Orderly.comesToRest (placed : setup.program.Placed)
    (coherent : before.Coherent setup due) (begins : turn.Begins before)
    (orderly : turn.Orderly setup taken) (stands : turn.errand = .poll → turn.inst.contexts ≠ [])
    {inst : Instance} (found : turn.outcome.2.instances.find? turn.inst.id = some inst) :
    inst.status = .retiring ∨ inst.Waits := by
  cases ended : turn.run with
  | error cause left =>
      obtain ⟨last, there, retiring⟩ := orderly.fault (Turn.failed_of_error ended)
      cases found.symm.trans there
      exact .inl retiring
  | ok value left =>
      obtain ⟨last, there, standing⟩ := orderly.stands placed coherent begins ended stands
      cases found.symm.trans there
      obtain ⟨put, notRoot⟩ := orderly.settles ended
      cases found.symm.trans put
      cases work : left.inst.hasWork with
      | true =>
          rw [Instance.settle_of_work work] at standing ⊢
          exact .inr ⟨rfl, standing.resolve_right nofun, work⟩
      | false =>
          rw [Instance.settle_of_idle notRoot work]
          exact .inl rfl

/-- A turn leaves the other instances alone. -/
theorem Settled.afterTurn (placed : setup.program.Placed) (settled : before.Settled)
    (coherent : before.Coherent setup due) (begins : turn.Begins before)
    (orderly : turn.Orderly setup taken) : turn.outcome.2.Settled := by
  have notRoot : turn.inst.id ≠ rootInstance := of_decide_eq_false orderly.notRoot
  constructor
  · obtain ⟨root, found, status⟩ := settled.root
    obtain ⟨_, activation, _, _, _, put, _⟩ := orderly.put
    have started : turn.outcome.2.started = before.started := by
      rw [put]
      exact begins.started
    refine ⟨root, ?_, started ▸ status⟩
    rw [orderly.find?_other notRoot, begins.table, found]
  · intro id inst found other
    by_cases same : turn.inst.id = id
    · subst same
      refine orderly.comesToRest placed coherent begins ?_ found
      intro isPoll
      cases begins with
      | launch => cases isPoll
      | resume running errand _ there unfinished =>
          exact ((settled.others _ _ there other).resolve_left unfinished).stands
    · rw [orderly.find?_other same, begins.table] at found
      exact settled.others id inst found other

theorem Succession.settled (placed : setup.program.Placed)
    (succession : Succession setup before turns after) (settled : before.Settled) :
    after.Settled := by
  induction succession with
  | done engine => exact settled
  | more coherent begins orderly _ inductionHypothesis =>
      exact inductionHypothesis (settled.afterTurn placed coherent begins orderly)

/-! ## Between calls of the host -/

theorem AtRest.start (placed : setup.program.Placed) (coherent : engine.Coherent setup [])
    (atRest : engine.AtRest) : engine.start.2.AtRest := by
  obtain ⟨root, found, _⟩ := atRest.root
  rcases coherent.start_cases placed with
    same | ⟨_, absent⟩ | ⟨_, after, _, same, _, id, suspended⟩
  · rw [same]
    exact atRest
  · cases found.symm.trans absent
  · apply AtRest.of_waits
    · rw [same]
      exact ⟨after.inst, find?_put _ id, suspended⟩
    · intro other inst there notRoot
      rw [coherent.find?_start placed notRoot] at there
      exact atRest.waits there notRoot

theorem AtRest.opened (placed : setup.program.Placed) (coherent : engine.Coherent setup [])
    (atRest : engine.AtRest) : engine.opened.engine.Settled := by
  have started := atRest.start placed coherent
  exact ⟨started.root, started.others⟩

theorem AtRest.polled (placed : setup.program.Placed) (coherent : engine.Coherent setup [])
    (atRest : engine.AtRest) : engine.polled.engine.Settled :=
  (coherent.tick placed).succession.settled placed (atRest.opened placed coherent)

theorem AtRest.tick (placed : setup.program.Placed) (coherent : engine.Coherent setup [])
    (atRest : engine.AtRest) : engine.runTick.2.AtRest := by
  have settled := atRest.polled placed coherent
  have retiring : ∀ id, id ∈ engine.polled.engine.retiring ↔ engine.polled.engine.Finished id :=
    fun id => mem_retiring_iff (coherent.tick placed).coherent
  apply AtRest.of_waits
  · obtain ⟨root, found, status⟩ := settled.root
    have started : engine.runTick.2.started = engine.polled.engine.started := by
      obtain ⟨instances, shared, ended⟩ := engine.runTick_eq
      rw [ended]
    refine ⟨root, ?_, started ▸ status⟩
    rw [find?_runTick, if_neg, found]
    rw [retiring]
    exact settled.root_not_finished
  · intro id inst found other
    rw [find?_runTick] at found
    split at found
    · cases found
    · next unfinished =>
        rw [retiring] at unfinished
        exact (settled.others id inst found other).resolve_left fun finished =>
          unfinished ⟨inst, found, finished⟩

theorem AtRest.move {next : Engine} (placed : setup.program.Placed)
    (coherent : engine.Coherent setup []) (atRest : engine.AtRest) (move : engine.Move next) :
    next.AtRest := by
  cases move with
  | start => exact atRest.start placed coherent
  | tick => exact atRest.tick placed coherent
  | launch | surroundings => exact ⟨⟨atRest.root, atRest.others⟩, atRest.unfinished⟩
  | @terminate id inst isOther found =>
      have there : ∀ other, ((engine.withoutTransition id).retire id).instances.find? other
          = if other = id then none else engine.instances.find? other := find?_retire _ id
      apply AtRest.of_waits
      · obtain ⟨root, found, status⟩ := atRest.root
        have started : ((engine.withoutTransition id).retire id).started = engine.started := by
          unfold Engine.retire
          split <;> rfl
        refine ⟨root, ?_, started ▸ status⟩
        rw [there, if_neg (Ne.symm isOther), found]
      · intro other last foundLast notRoot
        rw [there] at foundLast
        split at foundLast
        · cases foundLast
        · exact atRest.waits foundLast notRoot
  | @assign id inst after found quiet =>
      have same : after.inst.id = id :=
        quiet.id.trans (coherent.id_of_find? found)
      have status : after.inst.status = inst.status := quiet.same fun _ => rfl
      have there : ∀ other, (engine.put after).instances.find? other
          = if other = id then some after.inst else engine.instances.find? other := by
        intro other
        split
        · next isSame => exact find?_put _ (same.trans isSame.symm)
        · next different => exact Bindings.find?_insert_other _ _ (same ▸ Ne.symm different)
      apply AtRest.of_waits
      · obtain ⟨root, foundRoot, rootStatus⟩ := atRest.root
        rw [there]
        split
        · next isRoot =>
            rw [isRoot, found] at foundRoot
            cases foundRoot
            exact ⟨after.inst, rfl, status.trans rootStatus⟩
        · exact ⟨root, foundRoot, rootStatus⟩
      · intro other last foundLast notRoot
        rw [there] at foundLast
        split at foundLast
        · next isSame =>
            cases foundLast
            exact quiet.waits (atRest.waits found (isSame ▸ notRoot))
        · exact atRest.waits foundLast notRoot

theorem build_atRest (program : Program) (registry : Registry) (config : EngineConfig)
    (printer : Printer) : (build program registry config printer).AtRest := by
  apply AtRest.of_waits
  · exact ⟨_, rfl, rfl⟩
  · intro id inst found other
    unfold build at found
    rw [Bindings.find?, if_neg (Ne.symm other)] at found
    cases found

theorem Reaches.atRest_of_compiled {options : CompileOptions} {tape : Tape}
    {compilation : Compilation} (compiled : tape.compile options = .ok compilation)
    {registry : Registry} {config : EngineConfig} {printer : Printer}
    (reached : (build compilation.program registry config printer).Reaches engine) :
    engine.AtRest := by
  have placed : (Setup.mk compilation.program registry config).program.Placed :=
    Tape.compile_placed compiled
  exact reached.moves.keeps placed (build_coherent _ registry config printer)
    (fun coherent atRest move => atRest.move placed coherent move) (build_atRest _ _ _ _)

/-- An instance of a machine is suspended in a state, and waits for a transition that is queued,
for the tick after a launch, or for a handler. -/
structure AwaitsWork (engine : Engine) : Prop where
  suspended : ∀ id inst, engine.instances.find? id = some inst → id ≠ rootInstance →
    inst.status = .suspended
  stands : ∀ id inst, engine.instances.find? id = some inst → id ≠ rootInstance →
    inst.contexts ≠ []
  work : ∀ id inst, engine.instances.find? id = some inst → id ≠ rootInstance →
    (∃ pending ∈ engine.world.transitions, pending.instanceId = id)
      ∨ inst.parked = true ∨ inst.hasPendingCallbacks = true
  root : ∃ root, engine.instances.find? rootInstance = some root
    ∧ root.status = if engine.started then .suspended else .idle

theorem AtRest.awaitsWork (coherent : engine.Coherent setup []) (atRest : engine.AtRest) :
    engine.AwaitsWork where
  suspended _ _ found other := (atRest.waits found other).suspended
  stands _ _ found other := (atRest.waits found other).stands
  work := by
    intro id inst found other
    have work := (atRest.waits found other).work
    unfold Instance.hasWork at work
    rw [Bool.or_eq_true, Bool.or_eq_true, or_assoc] at work
    exact work.imp_left (coherent.queueInStep.flagged id inst found).mp
  root := atRest.root

/-! ## The removals of a tick -/

/-- The last turn of an instance in a tick, if it takes one. -/
def lastTurn? (engine : Engine) (id : InstanceId) : Option Turn :=
  (engine.turns.filter fun turn => turn.inst.id = id).getLast?

theorem mem_of_lastTurn? {id : InstanceId} (last : engine.lastTurn? id = some turn) :
    turn ∈ engine.turns ∧ turn.inst.id = id := by
  obtain ⟨member, same⟩ := List.mem_filter.mp (List.mem_of_getLast? last)
  exact ⟨member, of_decide_eq_true same⟩

/-- The faults that a tick reports of an instance of a machine are those of its turns. -/
theorem Coherent.exists_fault_iff (placed : setup.program.Placed)
    (coherent : engine.Coherent setup []) {id : InstanceId} (other : id ≠ rootInstance) :
    (∃ fault ∈ engine.runTick.1.faults, fault.instanceId = id)
      ↔ ∃ turn ∈ engine.turns, turn.inst.id = id ∧ turn.outcome.1.isSome = true := by
  rw [coherent.runTick_faults placed]
  constructor
  · rintro ⟨fault, member, rfl⟩
    rcases List.mem_append.mp member with inStart | inTurn
    · have isRoot := (coherent.instanceId_of_start (Option.mem_toList.mp inStart)).1
      exact absurd isRoot other
    · obtain ⟨turn, there, failed⟩ := List.mem_flatMap.mp inTurn
      rw [Option.mem_toList] at failed
      exact ⟨turn, there, (instanceId_of_activate failed).symm, failed ▸ rfl⟩
  · rintro ⟨turn, there, rfl, failed⟩
    obtain ⟨fault, failed⟩ := Option.isSome_iff_exists.mp failed
    refine ⟨fault, List.mem_append_right _ (List.mem_flatMap.mpr ⟨turn, there, ?_⟩),
      instanceId_of_activate failed⟩
    exact Option.mem_toList.mpr failed

/-- What has finished when a tick removes it is what its last turn has left finished. -/
theorem AtRest.finished_polled_iff (placed : setup.program.Placed)
    (coherent : engine.Coherent setup []) (atRest : engine.AtRest) {id : InstanceId}
    (other : id ≠ rootInstance) :
    engine.polled.engine.Finished id
      ↔ ∃ turn, engine.lastTurn? id = some turn
        ∧ (turn.outcome.1.isSome = true ∨ turn.EndsIdle) := by
  have tick := coherent.tick placed
  have found := tick.succession.find?_eq id
  cases last : engine.lastTurn? id with
  | none =>
      unfold lastTurn? at last
      rw [last] at found
      constructor
      · rintro ⟨inst, there, retiring⟩
        have before : engine.instances.find? id = some inst := by
          rw [← coherent.find?_start placed other]
          exact found.symm.trans there
        exact absurd ⟨inst, before, retiring⟩ (atRest.unfinished id)
      · rintro ⟨turn, absent, _⟩
        cases absent
  | some turn =>
      obtain ⟨member, rfl⟩ := mem_of_lastTurn? last
      unfold lastTurn? at last
      rw [last] at found
      obtain ⟨taken, orderly⟩ := tick.orderly member
      have same : engine.polled.engine.Finished turn.inst.id
          ↔ turn.outcome.2.Finished turn.inst.id := by
        unfold Finished
        rw [found]
      rw [same, orderly.finished_iff]
      constructor
      · exact fun ends => ⟨turn, rfl, ends⟩
      · rintro ⟨_, same, ends⟩
        cases same
        exact ends

/-- A tick removes an instance, old or launched in the tick, if it has failed in the tick, or if its
last turn has left it without a queued transition, not parked and with no handler waiting. -/
def RemovesFinished (engine : Engine) : Prop :=
  ∀ id, id ≠ rootInstance →
    (engine.instances.find? id).isSome = true ∨ (∃ turn ∈ engine.launchTurns, turn.inst.id = id) →
    (engine.runTick.2.instances.find? id = none
      ↔ (∃ fault ∈ engine.runTick.1.faults, fault.instanceId = id)
        ∨ ∃ turn, engine.lastTurn? id = some turn ∧ turn.EndsIdle)

theorem AtRest.removesFinished (placed : setup.program.Placed)
    (coherent : engine.Coherent setup []) (atRest : engine.AtRest) : engine.RemovesFinished := by
  intro id other known
  have tick := coherent.tick placed
  have there : (engine.polled.engine.instances.find? id).isSome = true := by
    apply tick.succession.isSome_find?
    rcases known with old | ⟨turn, member, same⟩
    · left
      rw [← coherent.find?_start placed other] at old
      exact old
    · exact .inr ⟨turn, List.mem_append_left _ (List.mem_append_left _ member), same⟩
  have removed : engine.runTick.2.instances.find? id = none ↔ engine.polled.engine.Finished id := by
    rw [find?_runTick, ← mem_retiring_iff tick.coherent]
    split
    · next finished => exact iff_of_true rfl finished
    · next unfinished =>
        refine iff_of_false ?_ unfinished
        intro absent
        rw [absent] at there
        cases there
  rw [removed, coherent.exists_fault_iff placed other]
  constructor
  · intro finished
    obtain ⟨turn, last, ends⟩ := (atRest.finished_polled_iff placed coherent other).mp finished
    obtain ⟨member, same⟩ := mem_of_lastTurn? last
    exact ends.imp (fun failed => ⟨turn, member, same, failed⟩) fun idle => ⟨turn, last, idle⟩
  · rintro (⟨turn, member, rfl, failed⟩ | ⟨turn, last, idle⟩)
    · exact tick.succession.finished_of_mem member failed
    · exact (atRest.finished_polled_iff placed coherent other).mpr ⟨turn, last, .inr idle⟩

/-- Whatever a host does with a compiled program, the instances that it sees between its calls wait
for something, and a tick removes those that have failed or have nothing left to wait for. -/
theorem Reaches.awaits_work {options : CompileOptions} {tape : Tape}
    {compilation : Compilation} (compiled : tape.compile options = .ok compilation)
    {registry : Registry} {config : EngineConfig} {printer : Printer}
    (reached : (build compilation.program registry config printer).Reaches engine) :
    engine.AwaitsWork ∧ engine.RemovesFinished := by
  have placed := Tape.compile_placed compiled
  have coherent := reached.coherent_of_compiled compiled
  have atRest := reached.atRest_of_compiled compiled
  exact ⟨atRest.awaitsWork coherent, atRest.removesFinished placed coherent⟩

open Token in
/-- The tape of `(machine boss (state main (launch worker))) (machine worker (state main))
(launch boss)`. -/
def bossAndWorker : Tape :=
  Tape.ofTokens .empty
    (bracketed 0
        ([word "machine" 1, word "boss" 9]
          ++ bracketed 14
            ([word "state" 15, word "main" 21]
              ++ bracketed 26 [word "launch" 27, word "worker" 34] 40)
            41)
        42
      ++ bracketed 44
        ([word "machine" 45, word "worker" 53]
          ++ bracketed 60 [word "state" 61, word "main" 67] 71)
        72
      ++ bracketed 74 [word "launch" 75, word "boss" 82] 86)

/-- The boss is parked behind its launch; the worker has nothing to wait for. -/
theorem awaits_work_bossAndWorker :
    ∃ compilation engine, bossAndWorker.compile {} = .ok compilation
      ∧ (build compilation.program .empty {} .empty).performAll [.tick] = engine
      ∧ (engine.instances.find? 1).map Instance.parked = some true
      ∧ engine.runTick.1.launched = 1
      ∧ (engine.runTick.2.instances.map Prod.fst) = [rootInstance, 1]
      ∧ engine.AwaitsWork ∧ engine.RemovesFinished := by
  refine ⟨_, _, rfl, rfl, by decide +kernel, by decide +kernel, by decide +kernel, ?_⟩
  have compiled : bossAndWorker.compile {} = .ok _ := rfl
  exact Reaches.awaits_work compiled ⟨[.tick], rfl⟩

end Engine

end MachineScript
