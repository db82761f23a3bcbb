import MachineScript.Proofs.History
import MachineScript.Proofs.Waiting

/-!
Contract: the turns of a run, with what happens between them.

Owns:
- the turns that instances take in the ticks of a run, in order;
- that between two turns instances may be removed and variables may change, and
  nothing else becomes of them;
- that an instance which has finished or has gone takes no turn any more.

Does not own: what turns do.
-/

namespace MachineScript.Engine

variable {setup : Setup} {engine first before middle after : Engine} {turn : Turn}
  {turns past front back : List Turn} {taken : List PendingTransition} {id : InstanceId}

/-- The turns of a run, in order. -/
def turnsIn (engine : Engine) (calls : List HostCall) : List Turn :=
  (engine.ticksIn calls).flatMap Engine.turns

/-! ## Between two turns -/

/-- Some instances are removed, and those that stay are the same but for the values of variables.
The root may have run; it stands in no state. -/
structure Idles (before after : Engine) : Prop where
  nextId : after.nextId = before.nextId
  table : ∀ id inst, after.instances.find? id = some inst →
    id = rootInstance ∧ inst.contexts = []
      ∨ ∃ old, before.instances.find? id = some old ∧ inst.skeleton = old.skeleton

/-- Nothing but removals. -/
theorem Idles.of_fewer (nextId : after.nextId = before.nextId)
    (fewer : ∀ id inst, after.instances.find? id = some inst →
      before.instances.find? id = some inst) : before.Idles after :=
  ⟨nextId, fun id inst found => .inr ⟨inst, fewer id inst found, rfl⟩⟩

theorem Idles.refl (engine : Engine) : engine.Idles engine :=
  .of_fewer rfl fun _ _ found => found

theorem Coherent.idles_start (placed : setup.program.Placed)
    (coherent : engine.Coherent setup []) : engine.Idles engine.start.2 := by
  refine ⟨engine.start_keeps.2.1, ?_⟩
  intro id inst found
  by_cases isRoot : id = rootInstance
  · have started := (coherent.start placed).1
    have rests := started.rests _ (Bindings.mem_of_find? found)
    exact .inl ⟨isRoot, (rests.root (decide_eq_true ((started.id_of_find? found).trans isRoot))).1⟩
  · rw [coherent.find?_start placed isRoot] at found
    exact .inr ⟨inst, found, rfl⟩

theorem idles_retire (engine : Engine) (id : InstanceId) : engine.Idles (engine.retire id) := by
  refine .of_fewer ?_ ?_
  · unfold Engine.retire
    split <;> rfl
  · intro other inst found
    rw [find?_retire] at found
    split at found
    · cases found
    · exact found

/-- Calls of the host that let nothing tick. -/
theorem Coherent.idles_perform (placed : setup.program.Placed)
    (coherent : engine.Coherent setup []) {call : HostCall} (notTick : call ≠ .tick)
    (notRun : ∀ maxTicks, call ≠ .run maxTicks) : engine.Idles (engine.perform call).2 := by
  have untouched : ∀ {next : Engine}, next.nextId = engine.nextId →
      next.instances = engine.instances → engine.Idles next :=
    fun nextId same => .of_fewer nextId fun _ _ found => same ▸ found
  cases call with
  | tick => exact absurd rfl notTick
  | run maxTicks => exact absurd rfl (notRun maxTicks)
  | start => exact coherent.idles_start placed
  | launch machine =>
      simp only [perform, Engine.launch]
      split <;> exact untouched rfl rfl
  | terminate id =>
      simp only [perform]
      rcases engine.terminate_cases id with refused | ⟨_, _, removed⟩
      · rw [refused]
        exact .refl engine
      · rw [removed]
        have removes := (engine.withoutTransition id).idles_retire id
        exact ⟨removes.nextId, removes.table⟩
  | assign id name value =>
      simp only [perform]
      cases accepted : engine.assignVariable id name value with
      | error refused => exact .refl engine
      | ok next =>
          obtain ⟨inst, slot, written, there, assigned, rfl⟩ := assignVariable_eq_ok accepted
          have quiet : Quiet setup.program ⟨engine.world, inst⟩ written := .of_writeSlot? assigned
          have own : written.inst.id = id := quiet.id.trans (coherent.id_of_find? there)
          refine ⟨rfl, ?_⟩
          intro other last found
          by_cases same : id = other
          · cases (find?_put engine (own.trans same)).symm.trans found
            exact .inr ⟨inst, same ▸ there, quiet.skeleton⟩
          · have foundBefore : engine.instances.find? other = some last := by
              rw [← found]
              exact (Bindings.find?_insert_other _ _ (own ▸ same)).symm
            exact .inr ⟨last, foundBefore, rfl⟩
  | clearOutput | advance | advanceSeconds | setClock => exact untouched rfl rfl

/-! ## Runs -/

/-- A run of an engine, with the turns that have been taken so far. -/
inductive Chronicle (setup : Setup) (first : Engine) : List Turn → Engine → Prop where
  | opens : Chronicle setup first [] first
  | idle {past : List Turn} {before after : Engine} (earlier : Chronicle setup first past before)
      (idles : before.Idles after) : Chronicle setup first past after
  | turn {past : List Turn} {before : Engine} {turn : Turn} {due taken : List PendingTransition}
      (earlier : Chronicle setup first past before) (coherent : before.Coherent setup due)
      (begins : turn.Begins before) (orderly : turn.Orderly setup taken) :
      Chronicle setup first (past ++ [turn]) turn.outcome.2

namespace Chronicle

theorem succeed (earlier : Chronicle setup first past before)
    (succession : Succession setup before turns after) :
    Chronicle setup first (past ++ turns) after := by
  induction succession generalizing past with
  | done engine =>
      rw [List.append_nil]
      exact earlier
  | more coherent begins orderly _ inductionHypothesis =>
      rw [List.append_cons]
      exact inductionHypothesis (earlier.turn coherent begins orderly)

/-- A run can be cut at any turn. -/
theorem split (chronicle : Chronicle setup first (front ++ turn :: back) after) :
    ∃ before due taken, Chronicle setup first front before ∧ before.Coherent setup due
      ∧ turn.Begins before ∧ turn.Orderly setup taken
      ∧ Chronicle setup turn.outcome.2 back after := by
  generalize whole : front ++ turn :: back = turns at chronicle
  induction chronicle generalizing back with
  | opens => cases List.append_eq_nil_iff.mp whole |>.2
  | idle _ idles inductionHypothesis =>
      obtain ⟨before, due, taken, earlier, coherent, begins, orderly, rest⟩ :=
        inductionHypothesis whole
      exact ⟨before, due, taken, earlier, coherent, begins, orderly, rest.idle idles⟩
  | @turn past before last due taken earlier coherent begins orderly inductionHypothesis =>
      rcases List.eq_nil_or_concat back with rfl | ⟨others, final, rfl⟩
      · obtain ⟨rfl, same⟩ := List.append_inj' whole rfl
        cases same
        exact ⟨before, due, taken, earlier, coherent, begins, orderly, .opens⟩
      · rw [List.concat_eq_append, ← List.cons_append, ← List.append_assoc] at whole
        obtain ⟨shorter, same⟩ := List.append_inj' whole rfl
        cases same
        obtain ⟨start, dueThere, takenThere, before, coherentThere, beginsThere, orderlyThere,
          rest⟩ := inductionHypothesis shorter
        rw [List.concat_eq_append]
        exact ⟨start, dueThere, takenThere, before, coherentThere, beginsThere, orderlyThere,
          rest.turn coherent begins orderly⟩

end Chronicle

namespace Coherent

theorem chronicle_tick (placed : setup.program.Placed) (coherent : engine.Coherent setup [])
    (earlier : Chronicle setup first past engine) :
    Chronicle setup first (past ++ engine.turns) engine.runTick.2 := by
  have starts := coherent.idles_start placed
  have opens : engine.Idles engine.opened.engine := ⟨starts.nextId, starts.table⟩
  have removes : engine.polled.engine.Idles engine.runTick.2 := by
    obtain ⟨instances, shared, ended⟩ := engine.runTick_eq
    refine .of_fewer (ended ▸ rfl) ?_
    intro id inst found
    rw [find?_runTick] at found
    split at found
    · cases found
    · exact found
  exact ((earlier.idle opens).succeed (coherent.tick placed).succession).idle removes

theorem chronicle_run (placed : setup.program.Placed) (maxTicks : Nat) {engine : Engine}
    {past : List Turn} (coherent : engine.Coherent setup [])
    (earlier : Chronicle setup first past engine) :
    Chronicle setup first (past ++ (engine.ticksUntilHalted maxTicks).flatMap Engine.turns)
      (engine.runUntilHalted maxTicks).2 := by
  induction maxTicks generalizing engine past with
  | zero => exact (List.append_nil past).symm ▸ earlier
  | succ maxTicks inductionHypothesis =>
      unfold runUntilHalted ticksUntilHalted
      split
      · exact (List.append_nil past).symm ▸ earlier
      · rw [List.flatMap_cons, ← List.append_assoc]
        exact inductionHypothesis (coherent.runTick placed).1
          (coherent.chronicle_tick placed earlier)

theorem chronicle_perform (placed : setup.program.Placed) (coherent : engine.Coherent setup [])
    (earlier : Chronicle setup first past engine) (call : HostCall) :
    Chronicle setup first (past ++ (engine.ticksOf call).flatMap Engine.turns)
      (engine.perform call).2 := by
  cases call with
  | tick =>
      have ticks := coherent.chronicle_tick placed earlier
      rw [← List.flatMap_singleton Engine.turns engine] at ticks
      exact ticks
  | run maxTicks => exact coherent.chronicle_run placed maxTicks earlier
  | start | launch | terminate | assign | clearOutput | advance | advanceSeconds | setClock =>
      rw [← List.append_nil past] at earlier
      exact earlier.idle (coherent.idles_perform placed nofun nofun)

/-- Whatever a host does, the run goes on. -/
theorem chronicle (placed : setup.program.Placed) (calls : List HostCall) {engine : Engine}
    {past : List Turn} (coherent : engine.Coherent setup [])
    (earlier : Chronicle setup first past engine) :
    Chronicle setup first (past ++ engine.turnsIn calls) (engine.performAll calls) := by
  induction calls generalizing engine past with
  | nil => exact (List.append_nil past).symm ▸ earlier
  | cons call rest inductionHypothesis =>
      have next := ((engine.perform_moves call).coherent placed coherent).1
      have further := inductionHypothesis next (coherent.chronicle_perform placed earlier call)
      unfold turnsIn at further ⊢
      rw [List.append_assoc, ← List.flatMap_append] at further
      exact further

/-- The turns of a tick are taken at the time that the clock shows. -/
theorem now_of_mem_turns (placed : setup.program.Placed) (coherent : engine.Coherent setup [])
    (member : turn ∈ engine.turns) : turn.engine.world.now = engine.clock.now := by
  obtain ⟨front, back, split⟩ := List.append_of_mem member
  have succession := (coherent.tick placed).succession
  rw [split] at succession
  obtain ⟨_, _, _, early, _, begins, _⟩ := succession.split
  rw [begins.world, early.now]
  exact congrArg ManualClock.now engine.start_keeps.2.2.2

end Coherent

/-! ## Instances that have gone -/

/-- A number has been given out, and its instance has finished or is not in the table any more. -/
def Spent (engine : Engine) (id : InstanceId) : Prop :=
  id < engine.nextId ∧ ∀ inst, engine.instances.find? id = some inst → inst.status = .retiring

theorem Idles.spent (idles : before.Idles after) (other : id ≠ rootInstance)
    (spent : before.Spent id) : after.Spent id := by
  refine ⟨idles.nextId ▸ spent.1, ?_⟩
  intro inst found
  rcases idles.table id inst found with ⟨isRoot, _⟩ | ⟨old, there, same⟩
  · exact absurd isRoot other
  · exact (congrArg Instance.status same).trans (spent.2 old there)

namespace Turn

theorem Begins.not_spent (begins : turn.Begins before) : ¬before.Spent turn.inst.id := by
  rintro ⟨below, retiring⟩
  cases begins with
  | launch => exact Nat.lt_irrefl _ below
  | resume inst errand _ found unfinished => exact unfinished (retiring inst found)

theorem Orderly.spent (begins : turn.Begins before) (orderly : turn.Orderly setup taken)
    (spent : before.Spent id) : turn.outcome.2.Spent id := by
  have different : turn.inst.id ≠ id := fun same => begins.not_spent (same ▸ spent)
  refine ⟨?_, ?_⟩
  · obtain ⟨_, activation, _, _, _, put, _⟩ := orderly.put
    rw [put]
    exact Nat.lt_of_lt_of_le spent.1 (begins.nextId ▸ Nat.le_add_right _ _)
  · intro inst found
    rw [orderly.find?_other different, begins.table] at found
    exact spent.2 inst found

/-- A turn that fails or leaves nothing to wait for is the last one of its instance. -/
theorem Orderly.spent_own (orderly : turn.Orderly setup taken)
    (ends : turn.outcome.1.isSome = true ∨ turn.EndsIdle) :
    turn.outcome.2.Spent turn.inst.id := by
  obtain ⟨inst, found, retiring⟩ := orderly.finished_iff.mpr ends
  refine ⟨orderly.coherent.lt_nextId found, ?_⟩
  intro other foundToo
  cases found.symm.trans foundToo
  exact retiring

end Turn

/-- What is spent stays spent, and takes no turn. -/
theorem Chronicle.spent (chronicle : Chronicle setup first past after) (other : id ≠ rootInstance)
    (spent : first.Spent id) : after.Spent id ∧ ∀ turn ∈ past, turn.inst.id ≠ id := by
  induction chronicle with
  | opens => exact ⟨spent, List.forall_mem_nil _⟩
  | idle _ idles inductionHypothesis =>
      exact ⟨idles.spent other inductionHypothesis.1, inductionHypothesis.2⟩
  | @turn _ _ turn _ _ _ _ begins orderly inductionHypothesis =>
      refine ⟨orderly.spent begins inductionHypothesis.1, ?_⟩
      refine List.forall_mem_append.mpr ⟨inductionHypothesis.2, List.forall_mem_singleton.mpr ?_⟩
      exact fun same => begins.not_spent (same ▸ inductionHypothesis.1)

end MachineScript.Engine
