import MachineScript.Proofs.Run.Launches
import MachineScript.Proofs.Turns

/-!
Contract: turns that are taken one after another.

Owns:
- how a turn begins: a launch with a new number, or an instance of the table
  that has not finished;
- what a succession of turns leaves: for each instance what its last turn has
  made of it, the queues with what the turns have put behind them, and no turn
  of an instance that has finished.

Does not own: which turns a tick takes.
-/

namespace MachineScript

namespace Engine

/-! ## Engines that follow one another -/

/-- No instance changes its machine, and numbers are not given out again. -/
structure Follows (before after : Engine) : Prop where
  nextId : before.nextId ≤ after.nextId
  machines : ∀ entry ∈ after.instances, before.nextId ≤ entry.1
    ∨ ∃ inst, (entry.1, inst) ∈ before.instances ∧ entry.2.machine = inst.machine

theorem Follows.refl (engine : Engine) : engine.Follows engine :=
  ⟨Nat.le_refl _, fun entry there => .inr ⟨entry.2, there, rfl⟩⟩

theorem Follows.trans {before middle after : Engine} (first : before.Follows middle)
    (second : middle.Follows after) : before.Follows after := by
  refine ⟨Nat.le_trans first.nextId second.nextId, ?_⟩
  intro entry there
  rcases second.machines entry there with new | ⟨inst, old, same⟩
  · exact .inl (Nat.le_trans first.nextId new)
  · rcases first.machines _ old with new | ⟨oldest, known, sameBefore⟩
    · exact .inl new
    · exact .inr ⟨oldest, known, same.trans sameBefore⟩

/-- An instance is in the table before, or it is new. -/
theorem Follows.known {before after : Engine} (follows : before.Follows after) {id : InstanceId}
    (there : (after.instances.find? id).isSome = true) :
    (before.instances.find? id).isSome = true ∨ before.nextId ≤ id := by
  obtain ⟨inst, found⟩ := Option.isSome_iff_exists.mp there
  rcases follows.machines _ (Bindings.mem_of_find? found) with new | ⟨other, old, _⟩
  · exact .inr new
  · left
    rw [Option.isSome_iff_ne_none]
    intro absent
    exact Bindings.find?_eq_none_iff.mp absent (List.mem_map_of_mem old)

theorem Follows.of_subset {before after : Engine} (nextId : before.nextId = after.nextId)
    (fewer : ∀ entry ∈ after.instances, entry ∈ before.instances) : before.Follows after :=
  ⟨Nat.le_of_eq nextId, fun entry there => .inr ⟨entry.2, fewer entry there, rfl⟩⟩

theorem Follows.of_put {before engine : Engine} {setup : Setup} {taken : List PendingTransition}
    (coherent : before.Coherent setup taken) {activation : Activation}
    (nextId : before.nextId ≤ engine.nextId) (table : engine.instances = before.instances)
    (machine : before.nextId ≤ activation.inst.id ∨ ∃ inst,
      (activation.inst.id, inst) ∈ before.instances ∧ activation.inst.machine = inst.machine) :
    before.Follows (engine.put activation) := by
  refine ⟨nextId, ?_⟩
  intro entry there
  change entry ∈ engine.instances.insert activation.inst.id activation.inst at there
  rw [table] at there
  rcases (Bindings.mem_insert_iff coherent.distinct).mp there with rfl | ⟨other, _⟩
  · exact machine
  · exact .inr ⟨entry.2, other, rfl⟩

/-! ## How a turn begins -/

variable {setup : Setup} {before middle after : Engine} {turn : Turn} {turns : List Turn}
  {taken : List PendingTransition}

/-- A turn begins with a new instance that gets the next number, or with an instance as it stands
in the table, unless that has finished. -/
inductive Turn.Begins (before : Engine) : Turn → Prop where
  | launch (machine : ExemplarId) (parent : InstanceId)
      (fresh : before.instances.find? before.nextId = none) :
      Begins before
        ⟨{ before with nextId := before.nextId + 1, created := before.created + 1 },
          Instance.create before.nextId machine (some parent), .launch⟩
  | resume (inst : Instance) (errand : Errand) (other : errand ≠ .launch)
      (found : before.instances.find? inst.id = some inst) (unfinished : inst.status ≠ .retiring) :
      Begins before ⟨before, inst, errand⟩

namespace Turn

theorem Begins.table (begins : turn.Begins before) :
    turn.engine.instances = before.instances := by
  cases begins <;> rfl

theorem Begins.world (begins : turn.Begins before) : turn.engine.world = before.world := by
  cases begins <;> rfl

theorem Begins.started (begins : turn.Begins before) : turn.engine.started = before.started := by
  cases begins <;> rfl

theorem Begins.sameSetup (begins : turn.Begins before) : turn.engine.setup = before.setup := by
  cases begins <;> rfl

/-- A launch gives out a number, and is counted. -/
theorem Begins.nextId (begins : turn.Begins before) :
    turn.engine.nextId = before.nextId + if turn.errand = .launch then 1 else 0 := by
  cases begins with
  | launch => rfl
  | resume inst errand other => rw [if_neg other]; rfl

theorem Begins.created (begins : turn.Begins before) :
    turn.engine.created = before.created + if turn.errand = .launch then 1 else 0 := by
  cases begins with
  | launch => rfl
  | resume inst errand other => rw [if_neg other]; rfl

/-- The table has no entry for an instance that is new, and the one that runs for any other. -/
theorem Begins.found (begins : turn.Begins before) :
    before.instances.find? turn.inst.id
      = if turn.errand = .launch then none else some turn.inst := by
  cases begins with
  | launch machine parent fresh => exact fresh
  | resume inst errand other found unfinished => rw [if_neg other, found]

/-- An instance that has finished takes no turn. -/
theorem Begins.not_finished (begins : turn.Begins before) : ¬before.Finished turn.inst.id := by
  rintro ⟨inst, found, retiring⟩
  cases begins with
  | launch machine parent fresh =>
      rw [show before.instances.find? before.nextId = some inst from found] at fresh
      cases fresh
  | resume running errand other there unfinished =>
      cases found.symm.trans there
      exact unfinished retiring

/-- The instance that takes a turn is put back. -/
theorem Orderly.find?_own (orderly : turn.Orderly setup taken) :
    ∃ inst, turn.outcome.2.instances.find? turn.inst.id = some inst
      ∧ inst.machine = turn.inst.machine ∧ inst.parent = turn.inst.parent := by
  obtain ⟨resumed, activation, queued, id, machine, put, turns⟩ := orderly.put
  have found : turn.outcome.2.instances.find? turn.inst.id = some activation.inst := by
    rw [put]
    exact find?_put _ (turns.id.trans id)
  exact ⟨activation.inst, found, turns.machine.trans machine, orderly.parent _ found⟩

/-- All others stay as they are. -/
theorem Orderly.find?_other (orderly : turn.Orderly setup taken) {id : InstanceId}
    (different : turn.inst.id ≠ id) :
    turn.outcome.2.instances.find? id = turn.engine.instances.find? id := by
  obtain ⟨resumed, activation, queued, same, _, put, turns⟩ := orderly.put
  rw [put]
  exact Bindings.find?_insert_other _ _ (turns.id.trans same ▸ different)

/-- The launches that a turn executes, in order. -/
def launches (turn : Turn) : List PendingLaunch :=
  turn.errand.log turn.engine.setup (turn.engine.starting turn.inst)

theorem launches_outcome (turn : Turn) :
    turn.outcome.2.world.launches = turn.engine.world.launches ++ turn.launches :=
  launches_activate (turn.errand.run_launches turn.engine.setup)

end Turn

/-! ## One turn after another -/

/-- Turns of a setup, each of which begins where the one before it has ended, in a coherent
engine. -/
inductive Succession (setup : Setup) : Engine → List Turn → Engine → Prop where
  | done (engine : Engine) : Succession setup engine [] engine
  | more {before after : Engine} {turn : Turn} {turns : List Turn}
      {due taken : List PendingTransition} (coherent : before.Coherent setup due)
      (begins : turn.Begins before) (orderly : turn.Orderly setup taken)
      (rest : Succession setup turn.outcome.2 turns after) :
      Succession setup before (turn :: turns) after

namespace Succession

theorem append {first second : List Turn} (early : Succession setup before first middle)
    (late : Succession setup middle second after) :
    Succession setup before (first ++ second) after := by
  induction early with
  | done engine => exact late
  | more coherent begins orderly _ inductionHypothesis =>
      exact .more coherent begins orderly (inductionHypothesis late)

/-- A succession can be cut at any turn. -/
theorem split {front back : List Turn}
    (succession : Succession setup before (front ++ turn :: back) after) :
    ∃ middle due taken, Succession setup before front middle ∧ middle.Coherent setup due
      ∧ turn.Begins middle ∧ turn.Orderly setup taken
      ∧ Succession setup turn.outcome.2 back after := by
  induction front generalizing before with
  | nil =>
      cases succession with
      | more coherent begins orderly rest =>
          exact ⟨before, _, _, .done before, coherent, begins, orderly, rest⟩
  | cons first others inductionHypothesis =>
      cases succession with
      | more coherent begins orderly rest =>
          obtain ⟨middle, due, taken, early, here⟩ := inductionHypothesis rest
          exact ⟨middle, due, taken, .more coherent begins orderly early, here⟩

theorem of_mem (succession : Succession setup before turns after) (member : turn ∈ turns) :
    ∃ middle due taken, middle.Coherent setup due ∧ turn.Begins middle
      ∧ turn.Orderly setup taken := by
  obtain ⟨front, back, rfl⟩ := List.append_of_mem member
  obtain ⟨middle, due, taken, _, coherent, begins, orderly, _⟩ := succession.split
  exact ⟨middle, due, taken, coherent, begins, orderly⟩

/-- No turn changes the machine of its instance. -/
theorem follows (succession : Succession setup before turns after) : before.Follows after := by
  induction succession with
  | done engine => exact .refl engine
  | @more before after turn turns _ _ coherent begins orderly _ inductionHypothesis =>
      refine Follows.trans ?_ inductionHypothesis
      obtain ⟨resumed, activation, queued, id, machine, put, turns⟩ := orderly.put
      rw [put]
      apply Follows.of_put coherent (begins.nextId ▸ Nat.le_add_right _ _) begins.table
      rw [turns.id.trans id, turns.machine, machine]
      cases begins with
      | launch => exact .inl (Nat.le_refl _)
      | resume inst errand other found => exact .inr ⟨inst, Bindings.mem_of_find? found, rfl⟩

/-! ### Instances that have finished -/

theorem finished (succession : Succession setup before turns after) {id : InstanceId}
    (finished : before.Finished id) :
    after.Finished id ∧ ∀ turn ∈ turns, turn.inst.id ≠ id := by
  induction succession with
  | done engine => exact ⟨finished, List.forall_mem_nil _⟩
  | @more before after turn turns _ _ _ begins orderly _ inductionHypothesis =>
      have different : turn.inst.id ≠ id := by
        rintro rfl
        exact begins.not_finished finished
      have still : turn.outcome.2.Finished id := by
        obtain ⟨inst, found, retiring⟩ := finished
        refine ⟨inst, ?_, retiring⟩
        rw [orderly.find?_other different, begins.table, found]
      obtain ⟨last, others⟩ := inductionHypothesis still
      exact ⟨last, List.forall_mem_cons.mpr ⟨different, others⟩⟩

/-- An instance that fails has finished, and takes no other turn. -/
theorem finished_of_fault {front back : List Turn}
    (succession : Succession setup before (front ++ turn :: back) after)
    (failed : turn.outcome.1.isSome = true) :
    after.Finished turn.inst.id ∧ ∀ later ∈ back, later.inst.id ≠ turn.inst.id := by
  obtain ⟨_, _, _, _, _, _, orderly, rest⟩ := succession.split
  exact rest.finished (orderly.fault failed)

theorem finished_of_mem (succession : Succession setup before turns after) (member : turn ∈ turns)
    (failed : turn.outcome.1.isSome = true) : after.Finished turn.inst.id := by
  obtain ⟨front, back, rfl⟩ := List.append_of_mem member
  exact (succession.finished_of_fault failed).1

/-- No instance fails twice. -/
theorem nodup_faults (succession : Succession setup before turns after) :
    ((turns.flatMap fun turn => turn.outcome.1.toList).map InstanceFault.instanceId).Nodup := by
  induction succession with
  | done engine => exact List.nodup_nil
  | @more before after turn turns _ _ _ _ orderly rest inductionHypothesis =>
      rw [List.flatMap_cons, List.map_append]
      cases failed : turn.outcome.1 with
      | none => exact inductionHypothesis
      | some fault =>
          have finished := (rest.finished (orderly.fault (failed ▸ rfl))).2
          refine List.nodup_cons.mpr ⟨?_, inductionHypothesis⟩
          intro again
          obtain ⟨other, member, same⟩ := List.mem_map.mp again
          obtain ⟨later, there, failedToo⟩ := List.mem_flatMap.mp member
          apply finished later there
          rw [← instanceId_of_activate (Option.mem_toList.mp failedToo), same]
          exact instanceId_of_activate failed

/-! ### The table -/

/-- The last turn of an instance decides what becomes of it. -/
theorem find?_eq (succession : Succession setup before turns after) (id : InstanceId) :
    after.instances.find? id
      = match (turns.filter fun turn => turn.inst.id = id).getLast? with
        | some last => last.outcome.2.instances.find? id
        | none => before.instances.find? id := by
  induction succession with
  | done engine => rfl
  | @more before after turn turns _ _ _ begins orderly _ inductionHypothesis =>
      rw [inductionHypothesis]
      by_cases same : turn.inst.id = id
      · rw [List.filter_cons_of_pos (by simpa using same), List.getLast?_cons]
        cases (turns.filter fun turn => turn.inst.id = id).getLast? <;> rfl
      · rw [List.filter_cons_of_neg (by simpa using same), orderly.find?_other same, begins.table]

/-- An instance keeps its place in the table, and one that takes a turn has a place there. -/
theorem isSome_find? (succession : Succession setup before turns after) {id : InstanceId}
    (known : (before.instances.find? id).isSome = true ∨ ∃ turn ∈ turns, turn.inst.id = id) :
    (after.instances.find? id).isSome = true := by
  rw [succession.find?_eq]
  cases last : (turns.filter fun turn => turn.inst.id = id).getLast? with
  | none =>
      refine known.resolve_right ?_
      rintro ⟨turn, member, same⟩
      have there : turn ∈ turns.filter fun turn => turn.inst.id = id :=
        List.mem_filter.mpr ⟨member, by simpa using same⟩
      rw [List.getLast?_eq_none_iff.mp last] at there
      cases there
  | some turn =>
      obtain ⟨member, same⟩ := List.mem_filter.mp (List.mem_of_getLast? last)
      obtain ⟨_, _, _, _, _, orderly⟩ := succession.of_mem member
      obtain ⟨inst, found, _⟩ := orderly.find?_own
      change (turn.outcome.2.instances.find? id).isSome = true
      rw [← of_decide_eq_true same, found]
      rfl

/-- An instance keeps its machine and its parent. -/
theorem kin (succession : Succession setup before turns after) {id : InstanceId}
    {inst last : Instance} (found : before.instances.find? id = some inst)
    (foundLast : after.instances.find? id = some last) :
    last.machine = inst.machine ∧ last.parent = inst.parent := by
  induction succession generalizing inst with
  | done engine =>
      cases found.symm.trans foundLast
      exact ⟨rfl, rfl⟩
  | @more before after turn turns _ _ _ begins orderly _ inductionHypothesis =>
      by_cases same : turn.inst.id = id
      · subst same
        have running := begins.found.symm.trans found
        split at running
        · cases running
        · cases running
          obtain ⟨next, foundNext, machine, parent⟩ := orderly.find?_own
          obtain ⟨sameMachine, sameParent⟩ := inductionHypothesis foundNext foundLast
          exact ⟨sameMachine.trans machine, sameParent.trans parent⟩
      · rw [← begins.table, ← orderly.find?_other same] at found
        exact inductionHypothesis found foundLast

theorem length_instances (succession : Succession setup before turns after) :
    after.instances.length
      = before.instances.length + turns.countP fun turn => turn.errand = .launch := by
  induction succession with
  | done engine => rfl
  | @more before after turn turns _ _ _ begins orderly _ inductionHypothesis =>
      obtain ⟨resumed, activation, queued, same, _, put, turns⟩ := orderly.put
      have length : turn.outcome.2.instances.length
          = before.instances.length + if turn.errand = .launch then 1 else 0 := by
        have own : activation.inst.id = turn.inst.id := turns.id.trans same
        rw [put]
        change (turn.engine.instances.insert _ _).length = _
        rw [Bindings.length_insert, own, begins.table, begins.found]
        split <;> simp_all
      rw [inductionHypothesis, length, List.countP_cons]
      simp only [decide_eq_true_eq]
      omega

/-! ### The numbers -/

theorem nextId (succession : Succession setup before turns after) :
    after.nextId = before.nextId + turns.countP fun turn => turn.errand = .launch := by
  induction succession with
  | done engine => rfl
  | @more before after turn turns _ _ _ begins orderly _ inductionHypothesis =>
      obtain ⟨_, activation, _, _, _, put, _⟩ := orderly.put
      have same : turn.outcome.2.nextId = turn.engine.nextId := by
        rw [put]
        rfl
      rw [inductionHypothesis, same, begins.nextId, List.countP_cons]
      simp only [decide_eq_true_eq]
      exact (Nat.add_assoc _ _ _).trans (congrArg _ (Nat.add_comm _ _))

theorem created (succession : Succession setup before turns after) :
    after.created = before.created + turns.countP fun turn => turn.errand = .launch := by
  induction succession with
  | done engine => rfl
  | @more before after turn turns _ _ _ begins orderly _ inductionHypothesis =>
      obtain ⟨_, activation, _, _, _, put, _⟩ := orderly.put
      have same : turn.outcome.2.created = turn.engine.created := by
        rw [put]
        rfl
      rw [inductionHypothesis, same, begins.created, List.countP_cons]
      simp only [decide_eq_true_eq]
      exact (Nat.add_assoc _ _ _).trans (congrArg _ (Nat.add_comm _ _))

theorem started (succession : Succession setup before turns after) :
    after.started = before.started := by
  induction succession with
  | done engine => rfl
  | more _ begins orderly _ inductionHypothesis =>
      obtain ⟨_, activation, _, _, _, put, _⟩ := orderly.put
      rw [inductionHypothesis, put]
      exact begins.started

/-- What takes a turn is in the table before the first of the turns, or it is new. -/
theorem known (succession : Succession setup before turns after) (member : turn ∈ turns) :
    turn.inst.id ≠ rootInstance
      ∧ ((before.instances.find? turn.inst.id).isSome = true ∨ before.nextId ≤ turn.inst.id) := by
  obtain ⟨front, back, rfl⟩ := List.append_of_mem member
  obtain ⟨middle, _, _, early, _, begins, orderly, _⟩ := succession.split
  refine ⟨of_decide_eq_false orderly.notRoot, ?_⟩
  cases begins with
  | launch => exact .inr early.follows.nextId
  | resume inst errand _ found => exact early.follows.known (found ▸ rfl)

/-! ### The queues and the clock -/

theorem transitions (succession : Succession setup before turns after) :
    after.world.transitions = before.world.transitions ++ turns.flatMap Turn.queued := by
  induction succession with
  | done engine => exact (List.append_nil _).symm
  | more _ begins orderly _ inductionHypothesis =>
      rw [inductionHypothesis, orderly.appends.1, begins.world, List.flatMap_cons,
        List.append_assoc]

theorem launches (succession : Succession setup before turns after) :
    after.world.launches = before.world.launches ++ turns.flatMap Turn.launches := by
  induction succession with
  | done engine => exact (List.append_nil _).symm
  | more _ begins orderly _ inductionHypothesis =>
      rw [inductionHypothesis, Turn.launches_outcome, begins.world, List.flatMap_cons,
        List.append_assoc]

theorem now (succession : Succession setup before turns after) :
    after.world.now = before.world.now := by
  induction succession with
  | done engine => rfl
  | more _ begins orderly _ inductionHypothesis =>
      rw [inductionHypothesis, orderly.now, begins.world]

end Succession

end Engine

end MachineScript
