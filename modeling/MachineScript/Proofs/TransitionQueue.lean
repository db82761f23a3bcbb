import MachineScript.Proofs.Reachable

/-!
Contract: the queue of transitions against the instances that wait for them.

Owns:
- between calls of the host, one entry for each instance whose flag is set;
- within a tick, one turn for each entry, in the order of the queue, and one
  state at most that an instance enters;
- that what a tick queues is still there when the tick is over.

Does not own: which state a name stands for.
-/

namespace MachineScript.Engine

variable {setup : Setup} {engine : Engine} {before : Progress} {taken : List PendingTransition}

/-! ## Between calls of the host -/

/-- The queue has one entry for each instance that waits for a transition. Such an instance is
live. -/
structure QueueInStep (engine : Engine) : Prop where
  once : (instancesOf engine.world.transitions).Nodup
  live : ∀ pending ∈ engine.world.transitions, pending.instanceId ≠ rootInstance
    ∧ ∃ inst ∈ engine.live, engine.instances.find? pending.instanceId = some inst
  flagged : ∀ id inst, engine.instances.find? id = some inst →
    (inst.transitionQueued = true
      ↔ ∃ pending ∈ engine.world.transitions, pending.instanceId = id)

theorem Coherent.mem_live (coherent : engine.Coherent setup taken) {id : InstanceId}
    {inst : Instance} (member : (id, inst) ∈ engine.instances)
    (flag : inst.transitionQueued = true) : id ≠ rootInstance ∧ inst ∈ engine.live := by
  obtain ⟨notRoot, notRetiring⟩ := (coherent.rests _ member).of_queued flag
  have same : inst.id = id := (coherent.ids _ member).1
  constructor
  · rintro rfl
    exact notRoot (decide_eq_true same)
  · apply List.mem_filter.mpr
    refine ⟨List.mem_map.mpr ⟨_, member, rfl⟩, ?_⟩
    simp [notRoot, notRetiring]

theorem Coherent.queueInStep (coherent : engine.Coherent setup []) : engine.QueueInStep where
  once := coherent.once
  live := by
    intro pending there
    have queued : pending.instanceId ∈ instancesOf ([] ++ engine.world.transitions) :=
      List.mem_map_of_mem there
    obtain ⟨⟨id, inst⟩, member, same⟩ := List.mem_map.mp (coherent.listed _ queued)
    change id = pending.instanceId at same
    subst same
    have flag : inst.transitionQueued = true := (coherent.flagged _ member).mpr queued
    obtain ⟨notRoot, live⟩ := coherent.mem_live member flag
    exact ⟨notRoot, inst, live, (Bindings.find?_eq_some_iff coherent.distinct).mpr member⟩
  flagged := by
    intro id inst found
    have flagged := coherent.flagged _ (Bindings.mem_of_find? found)
    rw [flagged]
    exact List.mem_map

/-! ## The turns of the queue -/

theorem services_transitions (placed : setup.program.Placed) {due : List PendingTransition}
    (coherent : before.engine.Coherent setup (due ++ taken)) :
    (turnsOf Progress.transition Progress.transitionTurn? before due).map
        (fun turn => (turn.inst.id, turn.errand))
      = due.map fun pending => (pending.instanceId, Errand.transition pending.target) := by
  induction due generalizing before with
  | nil => rfl
  | cons pending rest inductionHypothesis =>
      obtain ⟨inst, turn, id, _, _, orderly⟩ := coherent.transitionTurn placed
      have later : (before.transition pending).engine.Coherent setup (rest ++ taken) := by
        rw [Progress.transition_eq, turn]
        exact orderly.coherent
      rw [turnsOf, turn, List.map_append, inductionHypothesis later, List.map_cons, ← id]
      rfl

theorem transitioned_launches (launches : List PendingLaunch) (before : Progress) :
    (launches.foldl Progress.launch before).transitioned = before.transitioned := by
  induction launches generalizing before with
  | nil => rfl
  | cons pending rest inductionHypothesis =>
      rw [List.foldl_cons, inductionHypothesis]
      rfl

theorem transitioned_afterTurn (before : Progress) (turn : Option Turn) :
    (before.afterTurn turn).transitioned = before.transitioned := by
  cases turn <;> rfl

theorem transitioned_transitions (due : List PendingTransition) (before : Progress) :
    (due.foldl Progress.transition before).transitioned = before.transitioned
      + (turnsOf Progress.transition Progress.transitionTurn? before due).length := by
  induction due generalizing before with
  | nil => rfl
  | cons pending rest inductionHypothesis =>
      have first : (before.transition pending).transitioned
          = before.transitioned + (before.transitionTurn? pending).toList.length := by
        rw [Progress.transition_eq, transitioned_afterTurn]
      rw [List.foldl_cons, inductionHypothesis, first, turnsOf, List.length_append, Nat.add_assoc]

theorem transitioned_polls (ids : List InstanceId) (before : Progress) :
    (ids.foldl Progress.poll before).transitioned = before.transitioned := by
  induction ids generalizing before with
  | nil => rfl
  | cons id rest inductionHypothesis =>
      rw [List.foldl_cons, inductionHypothesis, Progress.poll_eq, transitioned_afterTurn]

/-- A poll enters nothing: its instance stands where it stood, or it has finished. -/
theorem stays_of_polls (placed : setup.program.Placed) (coherent : engine.Coherent setup taken)
    {inst : Instance} (member : (inst.id, inst) ∈ engine.instances)
    (notRoot : inst.isRoot = false) :
    ∃ after, (Turn.mk engine inst .poll).outcome.2.instances.find? inst.id = some after
      ∧ (after.stack = inst.stack ∨ after.status = .retiring) := by
  have handlers : (engine.starting inst).inst.WaitsForHandlers setup.program :=
    (coherent.rests _ member).handlers
  rw [← coherent.same] at placed handlers
  have same : (engine.starting inst).inst.id = inst.id := rfl
  exact stands_of_ends same notRoot (Setup.pollHandlers_ends placed handlers)

/-! ## A tick -/

/-- How a tick serves the queue. Each entry is the errand of a turn. An instance enters at most one
state, its `main` or the target of one entry. What turns queue waits for the next tick. -/
structure ServesQueue (engine : Engine) : Prop where
  serviced : engine.transitionTurns.map (fun turn => (turn.inst.id, turn.errand))
    = engine.world.transitions.map fun pending =>
      (pending.instanceId, Errand.transition pending.target)
  counted : engine.runTick.1.transitioned = engine.world.transitions.length
  enters : ∀ turn ∈ engine.turns, ∀ state, turn.entered = some state →
    turn.errand.Leads turn.engine.setup turn.inst (some state)
  once : ((engine.turns.filter fun turn => turn.entered.isSome).map fun turn => turn.inst.id).Nodup
  polls : ∀ turn ∈ engine.pollTurns, turn.entered = none
    ∧ ∃ after, turn.outcome.2.instances.find? turn.inst.id = some after
      ∧ (after.stack = turn.inst.stack ∨ after.status = .retiring)
  appends : ∀ turn ∈ engine.turns,
    turn.outcome.2.world.transitions = turn.engine.world.transitions ++ turn.queued
      ∧ turn.queued.length ≤ 1 ∧ ∀ pending ∈ turn.queued, pending.instanceId = turn.inst.id
  waits : engine.runTick.2.world.transitions = engine.turns.flatMap Turn.queued

/-- The instances of the launches and transitions of a tick are distinct. -/
theorem Coherent.nodup_serviced (placed : setup.program.Placed)
    (coherent : engine.Coherent setup [])
    (serviced : engine.transitionTurns.map (fun turn => turn.inst.id)
      = instancesOf engine.world.transitions) :
    ((engine.launchTurns ++ engine.transitionTurns).map fun turn => turn.inst.id).Nodup := by
  obtain ⟨ready, _, due⟩ := coherent.ready placed
  have launched : engine.launchTurns.map (fun turn => turn.inst.id)
      = List.range' engine.ready.nextId engine.dueLaunches.length :=
    ids_launches engine.dueLaunches engine.opened
  rw [List.map_append, launched, serviced, List.nodup_append]
  -- A launch gives out a number that no instance in the queue has.
  refine ⟨List.nodup_range', coherent.once, ?_⟩
  intro new isNew old isOld same
  subst same
  have above : engine.ready.nextId ≤ new := (List.mem_range'_1.mp isNew).1
  rw [← due] at isOld
  obtain ⟨entry, there, isEntry⟩ := List.mem_map.mp (ready.listed new isOld)
  have below := (ready.ids entry there).2
  rw [isEntry] at below
  exact Nat.not_lt_of_le above below

theorem Coherent.servesQueue (placed : setup.program.Placed) (coherent : engine.Coherent setup []) :
    engine.ServesQueue := by
  obtain ⟨launches, _, _⟩ := coherent.phases placed
  obtain ⟨_, _, due⟩ := coherent.ready placed
  have tick := coherent.tick placed
  have dueCoherent : engine.launched.engine.Coherent setup (engine.dueTransitions ++ []) := by
    rw [List.append_nil]
    exact launches.coherent
  have serviced : engine.transitionTurns.map (fun turn => (turn.inst.id, turn.errand))
      = engine.world.transitions.map fun pending =>
        (pending.instanceId, Errand.transition pending.target) := by
    rw [← due]
    exact services_transitions placed dueCoherent
  have ids : engine.transitionTurns.map (fun turn => turn.inst.id)
      = instancesOf engine.world.transitions := by
    have firsts := congrArg (List.map Prod.fst) serviced
    rwa [List.map_map, List.map_map] at firsts
  have polled : ∀ turn ∈ engine.pollTurns, turn.entered = none
      ∧ ∃ after, turn.outcome.2.instances.find? turn.inst.id = some after
        ∧ (after.stack = turn.inst.stack ∨ after.status = .retiring) := by
    intro turn member
    obtain ⟨before, inst, rfl, notRoot, here, there⟩ := coherent.of_mem_pollTurns placed member
    refine ⟨?_, stays_of_polls placed here there notRoot⟩
    cases entered : Turn.entered _ with
    | none => rfl
    | some state => exact absurd (Turn.leads_of_entered entered) nofun
  refine ⟨serviced, ?_, ?_, ?_, polled, ?_, ?_⟩
  · have counted := congrArg List.length serviced
    rw [List.length_map, List.length_map] at counted
    rw [runTick_transitioned, ← counted]
    unfold Engine.polled Engine.transitioned Engine.launched
    rw [transitioned_polls, transitioned_transitions, transitioned_launches]
    exact Nat.zero_add _
  · intro turn _ state entered
    exact Turn.leads_of_entered entered
  · have unfilled : engine.pollTurns.filter (fun turn => turn.entered.isSome) = [] := by
      apply List.filter_eq_nil_iff.mpr
      intro turn member
      rw [(polled turn member).1]
      exact Bool.false_ne_true
    unfold turns
    rw [List.filter_append, unfilled, List.append_nil]
    exact (coherent.nodup_serviced placed ids).sublist (List.filter_sublist.map _)
  · intro turn member
    obtain ⟨taken, orderly⟩ := tick.orderly member
    exact orderly.appends
  · obtain ⟨instances, shared, same⟩ := engine.runTick_eq
    rw [same]
    exact tick.succession.transitions

/-! ## Reachable engines -/

/-- Whatever a host does with a compiled program, queue and flags are in step between its calls,
and a tick serves the queue. -/
theorem Reaches.transitions_in_step {options : CompileOptions} {tape : Tape}
    {compilation : Compilation} (compiled : tape.compile options = .ok compilation)
    {registry : Registry} {config : EngineConfig} {printer : Printer}
    (reached : (build compilation.program registry config printer).Reaches engine) :
    engine.QueueInStep ∧ engine.ServesQueue := by
  have coherent := reached.coherent_of_compiled compiled
  exact ⟨coherent.queueInStep, coherent.servesQueue (Tape.compile_placed compiled)⟩

open Token in
/-- The tape of `(machine pair (state main (goto other)) (state other (goto main)))
(launch pair)`. -/
def pingPong : Tape :=
  Tape.ofTokens .empty
    (bracketed 0
        ([word "machine" 1, word "pair" 9]
          ++ bracketed 14
            ([word "state" 15, word "main" 21] ++ bracketed 26 [word "goto" 27, word "other" 32] 37)
            38
          ++ bracketed 40
            ([word "state" 41, word "other" 47] ++ bracketed 53 [word "goto" 54, word "main" 59] 63)
            64)
        65
      ++ bracketed 67 [word "launch" 68, word "pair" 75] 79)

theorem transitions_in_step_pingPong :
    ∃ compilation engine, pingPong.compile {} = .ok compilation
      ∧ (build compilation.program .empty {} .empty).performAll [.tick, .tick, .tick] = engine
      ∧ engine.world.transitions = [⟨1, "other"⟩]
      ∧ engine.QueueInStep ∧ engine.ServesQueue := by
  refine ⟨_, _, rfl, rfl, by decide +kernel, ?_⟩
  have compiled : pingPong.compile {} = .ok _ := rfl
  exact Reaches.transitions_in_step compiled ⟨[.tick, .tick, .tick], rfl⟩

end MachineScript.Engine
