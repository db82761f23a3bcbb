import MachineScript.Proofs.Tick

/-!
Contract: what a turn leaves of a coherent engine.

Owns: for each errand the instance that takes the turn, with its flag clear,
and that the engine is coherent again after it.

Does not own: sequences of turns.
-/

namespace MachineScript.Engine

variable {engine : Engine} {setup : Setup} {taken : List PendingTransition}

/-- An engine with an instance put into its table before that instance runs. -/
def withInstance (engine : Engine) (inst : Instance) : Engine :=
  { engine with instances := engine.instances.insert inst.id inst }

theorem put_withInstance (engine : Engine) {inst : Instance} {after : Activation}
    (same : after.inst.id = inst.id) : (engine.withInstance inst).put after = engine.put after := by
  simp only [Engine.put, withInstance, same, Bindings.insert_insert]

theorem mem_withInstance (coherent : engine.Coherent setup taken) (inst : Instance) :
    (inst.id, inst) ∈ (engine.withInstance inst).instances :=
  (Bindings.mem_insert_iff coherent.distinct).mpr (.inl rfl)

/-- What is known of a turn. The instance that took it is put back, and has finished if it failed;
the engine is coherent. -/
structure Turn.Orderly (turn : Turn) (setup : Setup) (taken : List PendingTransition) :
    Prop where
  notRoot : turn.inst.isRoot = false
  coherent : turn.outcome.2.Coherent setup taken
  put : ∃ resumed after queued, resumed.id = turn.inst.id ∧ resumed.machine = turn.inst.machine
    ∧ turn.outcome.2 = turn.engine.put after
    ∧ Turns setup.program turn.engine resumed after queued
  parent : ∀ inst, turn.outcome.2.instances.find? turn.inst.id = some inst →
    inst.parent = turn.inst.parent
  now : turn.outcome.2.world.now = turn.engine.world.now
  fault : turn.outcome.1.isSome = true → turn.outcome.2.Finished turn.inst.id
  returned : ∀ left, turn.run = .ok () left → left.inst.id = turn.inst.id

/-- A turn is orderly if its instance, once its flag is clear, makes the engine coherent and the
run settles from there. -/
theorem Turn.orderly_of_ends {turn : Turn} (resumed : Instance)
    (id : resumed.id = turn.inst.id) (machine : resumed.machine = turn.inst.machine)
    (parent : resumed.parent = turn.inst.parent)
    (coherent : (turn.engine.withInstance resumed).Coherent setup taken)
    (notRoot : resumed.isRoot = false) (unqueued : resumed.transitionQueued = false)
    (member : (resumed.id, resumed) ∈ (turn.engine.withInstance resumed).instances)
    (ends : (turn.errand.run turn.engine.setup).Ends (turn.engine.starting turn.inst)
      (fun _ left => Settles (Steady setup.program) (turn.engine.starting resumed) left)
      (Steady setup.program (turn.engine.starting resumed))) : turn.Orderly setup taken := by
  have absent : resumed.id ∉ instancesOf turn.engine.world.transitions := by
    intro queued
    apply coherent.notMem_of_unqueued member unqueued
    unfold instancesOf
    rw [List.map_append]
    exact List.mem_append_right _ queued
  obtain ⟨after, queued, put, turns, fault, _⟩ := activate_turns (coherent.rests _ member) unqueued
    absent (ends.mono (fun _ _ settles => ⟨settles, by simp [notRoot]⟩) fun _ steady => steady)
  change turn.outcome.2 = turn.engine.put after at put
  have putBack : turn.outcome.2.instances.find? turn.inst.id = some after.inst := by
    rw [put]
    exact find?_put _ (turns.id.trans id)
  refine ⟨?_, ?_, ⟨resumed, after, queued, id, machine, put, turns⟩, ?_, ?_, ?_, ?_⟩
  · unfold Instance.isRoot at notRoot ⊢
    rw [← id, notRoot]
  · rw [put, ← put_withInstance _ turns.id]
    exact coherent.put member unqueued
      ⟨turns.id, turns.machine, turns.parent, turns.now, turns.rests, turns.launches,
        turns.transitions, turns.flag, turns.balance⟩
  · intro inst found
    cases putBack.symm.trans found
    exact turns.parent.trans parent
  · rw [put]
    exact turns.now
  · intro failed
    exact ⟨after.inst, putBack, fault failed notRoot⟩
  · intro left ended
    exact (ends.of_ok ended).id.trans id

/-- A turn queues at most one transition, for its own instance. -/
theorem Turn.Orderly.appends {turn : Turn} (orderly : turn.Orderly setup taken) :
    turn.outcome.2.world.transitions = turn.engine.world.transitions ++ turn.queued
      ∧ turn.queued.length ≤ 1 ∧ ∀ pending ∈ turn.queued, pending.instanceId = turn.inst.id := by
  obtain ⟨resumed, after, queued, id, _, put, turns⟩ := orderly.put
  have grown : turn.outcome.2.world.transitions = turn.engine.world.transitions
      ++ (queued.map (PendingTransition.mk resumed.id)).toList := by
    rw [put]
    exact turns.transitions
  have own : turn.queued = (queued.map (PendingTransition.mk resumed.id)).toList := by
    rw [Turn.queued, grown, List.drop_left]
  rw [own]
  refine ⟨grown, ?_, ?_⟩
  · cases queued <;> simp
  · intro pending there
    cases queued with
    | none => cases there
    | some target =>
        rw [List.mem_singleton.mp there]
        exact id

/-- What takes a turn is an instance of a machine. -/
theorem Turn.Orderly.isMachine {turn : Turn} (orderly : turn.Orderly setup taken) :
    (setup.program.exemplar turn.inst.machine).construct = .machine := by
  obtain ⟨resumed, after, queued, id, machine, _, turns⟩ := orderly.put
  have notRoot : after.inst.isRoot = false := by
    have notRoot := orderly.notRoot
    unfold Instance.isRoot at notRoot ⊢
    rw [turns.id, id, notRoot]
  rw [← machine, ← turns.machine]
  exact turns.rests.machine notRoot

/-- A run that returns leaves its instance settled in the table. -/
theorem Turn.Orderly.settles {turn : Turn} (orderly : turn.Orderly setup taken)
    {left : Activation} (ended : turn.run = .ok () left) :
    turn.outcome.2.instances.find? turn.inst.id = some left.inst.settle
      ∧ left.inst.isRoot = false := by
  have id := orderly.returned left ended
  rw [Turn.outcome_of_ok ended]
  refine ⟨find?_put _ (left.inst.settle_id.trans id), ?_⟩
  have notRoot := orderly.notRoot
  unfold Instance.isRoot at notRoot ⊢
  rw [id, notRoot]

/-! ## Launches -/

theorem Coherent.create (coherent : engine.Coherent setup taken) {machine : ExemplarId}
    (isMachine : (setup.program.exemplar machine).construct = .machine)
    (parent : Option InstanceId) (created : Nat) :
    ({ engine with nextId := engine.nextId + 1, created := created }.withInstance
      (Instance.create engine.nextId machine parent)).Coherent setup taken := by
  let inst := Instance.create engine.nextId machine parent
  have fresh := Bindings.find?_eq_none_iff.mp coherent.find?_nextId
  have notRoot : inst.isRoot = false := by
    unfold Instance.isRoot
    rw [decide_eq_false_iff_not]
    exact Nat.ne_of_gt coherent.next
  have entries : ∀ entry, entry ∈ engine.instances.insert engine.nextId inst
      ↔ entry = (engine.nextId, inst) ∨ entry ∈ engine.instances ∧ entry.1 ≠ engine.nextId :=
    fun entry => Bindings.mem_insert_iff coherent.distinct
  refine ⟨coherent.same, Bindings.nodup_insert coherent.distinct _ _, ?_,
    Nat.lt_succ_of_lt coherent.next, ?_, coherent.launches, coherent.once, ?_, ?_, ?_⟩
  · intro entry there
    rcases (entries entry).mp there with rfl | ⟨other, _⟩
    · exact ⟨rfl, Nat.lt_succ_self _⟩
    · exact ⟨(coherent.ids entry other).1, Nat.lt_succ_of_lt (coherent.ids entry other).2⟩
  · intro entry there
    rcases (entries entry).mp there with rfl | ⟨other, _⟩
    · exact ⟨⟨rfl, fun _ => isMachine, trivial, nofun, nofun⟩, fun _ => ⟨rfl, rfl⟩, fun _ => rfl⟩
    · exact coherent.rests entry other
  · intro id there
    exact (Bindings.mem_keys_insert_iff coherent.distinct).mpr (.inr (coherent.listed id there))
  · intro entry there
    rcases (entries entry).mp there with rfl | ⟨other, _⟩
    · constructor
      · exact nofun
      · intro queued
        exact absurd (coherent.listed _ queued) fresh
    · exact coherent.flagged entry other
  · apply coherent.balanced.congr
    intro key
    change referencesIn (engine.instances.insert engine.nextId inst) key = _
    rw [referencesIn_perm (Bindings.perm_insert coherent.distinct _ _), referencesIn_cons,
      Bindings.erase_of_notMem fresh]
    rfl

/-- The turn of a launch. -/
theorem Coherent.launchTurn {progress : Progress} (placed : setup.program.Placed)
    (coherent : progress.engine.Coherent setup taken) {pending : PendingLaunch}
    (isMachine : (setup.program.exemplar pending.machine).construct = .machine) :
    (progress.launchTurn pending).Orderly setup taken := by
  have added := coherent.create isMachine (some pending.parent) (progress.engine.created + 1)
  have notRoot : (progress.launchTurn pending).inst.isRoot = false := by
    unfold Instance.isRoot
    rw [decide_eq_false_iff_not]
    exact Nat.ne_of_gt coherent.next
  refine Turn.orderly_of_ends _ rfl rfl rfl added notRoot rfl
    ((Bindings.mem_insert_iff coherent.distinct).mpr (.inl rfl)) ?_
  change progress.engine.setup.initializeInstance.Ends _ _ _
  rw [coherent.same]
  exact Setup.initializeInstance_ends placed isMachine rfl

/-! ## Transitions -/

/-- The first transition that is due is taken off, together with the flag of its instance. -/
theorem Coherent.unqueue {pending : PendingTransition}
    (coherent : engine.Coherent setup (pending :: taken)) {inst : Instance}
    (member : (pending.instanceId, inst) ∈ engine.instances) :
    (engine.withInstance { inst with transitionQueued := false, parked := false }).Coherent setup
      taken := by
  have id : inst.id = pending.instanceId := (coherent.ids _ member).1
  have rests := coherent.rests _ member
  obtain ⟨absent, once⟩ := List.nodup_cons.mp coherent.once
  rw [← id] at member absent
  let resumed : Activation :=
    ⟨engine.world, { inst with transitionQueued := false, parked := false }⟩
  have stillRests : resumed.inst.Rests setup.program :=
    ⟨⟨rests.callDepth, rests.machine, rests.lexical, rests.handlers, rests.own⟩,
      fun isRoot => ⟨(rests.root isRoot).1, rfl⟩, fun _ => rfl⟩
  -- The queue has one entry for the instance, so flag and entry go together.
  have replaced : (engine.put resumed).Coherent setup taken := by
    refine coherent.replace member rfl stillRests (.refl _ _ _) (fun _ balanced => balanced) once
      ?_ ?_
    · exact ⟨nofun, fun queued => absurd queued absent⟩
    · intro other different
      rw [id] at different
      exact ⟨List.mem_cons_of_mem _, fun queued => (List.mem_cons.mp queued).resolve_left different⟩
  exact replaced

/-- The turn of the first transition that is due: its instance is there, and has not finished. -/
theorem Coherent.transitionTurn {progress : Progress} {pending : PendingTransition}
    (placed : setup.program.Placed)
    (coherent : progress.engine.Coherent setup (pending :: taken)) :
    ∃ inst, progress.transitionTurn? pending
        = some ⟨progress.engine, inst, .transition pending.target⟩
      ∧ inst.id = pending.instanceId
      ∧ (inst.id, inst) ∈ progress.engine.instances ∧ inst.status ≠ .retiring
      ∧ (Turn.mk progress.engine inst (.transition pending.target)).Orderly setup taken := by
  have queued : pending.instanceId
      ∈ instancesOf (pending :: taken ++ progress.engine.world.transitions) :=
    List.mem_cons_self
  obtain ⟨⟨_, inst⟩, member, rfl⟩ := List.mem_map.mp (coherent.listed _ queued)
  have found := (Bindings.find?_eq_some_iff coherent.distinct).mpr member
  have flag : inst.transitionQueued = true := (coherent.flagged _ member).mpr queued
  obtain ⟨notRoot, notRetiring⟩ := (coherent.rests _ member).of_queued flag
  have same : inst.id = pending.instanceId := (coherent.ids _ member).1
  refine ⟨inst, ?_, same, same ▸ member, notRetiring, ?_⟩
  · unfold Progress.transitionTurn?
    rw [found]
    exact if_neg notRetiring
  · refine Turn.orderly_of_ends { inst with transitionQueued := false, parked := false } rfl rfl
      rfl (coherent.unqueue member) (Bool.eq_false_iff.mpr notRoot) rfl
      (mem_withInstance coherent _) ?_
    change (progress.engine.setup.transition pending.target).Ends _ _ _
    rw [coherent.same]
    apply (Setup.transition_ends placed pending.target _).mono _ fun _ roams => roams.toSteady
    exact fun _ _ settles => settles.mono fun _ roams => roams.toSteady

/-! ## Polls -/

/-- The turn of an instance that is polled. -/
theorem Coherent.pollTurn {progress : Progress} (placed : setup.program.Placed)
    (coherent : progress.engine.Coherent setup taken) {id : InstanceId} {turn : Turn}
    (polled : progress.pollTurn? id = some turn) :
    ∃ inst, turn = ⟨progress.engine, inst, .poll⟩ ∧ inst.id = id
      ∧ (inst.id, inst) ∈ progress.engine.instances ∧ inst.status ≠ .retiring
      ∧ turn.Orderly setup taken := by
  unfold Progress.pollTurn? at polled
  split at polled
  · cases polled
  · next inst found =>
      split at polled
      · next isPolled =>
          cases polled
          have member := Bindings.mem_of_find? found
          have rests := coherent.rests _ member
          have same : inst.id = id := (coherent.ids _ member).1
          have unchanged : progress.engine.withInstance inst = progress.engine := by
            unfold withInstance
            rw [same, Bindings.insert_of_find? found]
          simp only [Progress.isPolled, Bool.and_eq_true, Bool.not_eq_true',
            decide_eq_true_iff] at isPolled
          obtain ⟨⟨suspended, unqueued⟩, waits⟩ := isPolled
          have notRetiring : inst.status ≠ .retiring := by
            rw [suspended]
            decide
          have notRoot : inst.isRoot ≠ true := by
            intro isRoot
            unfold Instance.hasPendingCallbacks at waits
            rw [(rests.root isRoot).1] at waits
            cases waits
          refine ⟨inst, rfl, same, same ▸ member, notRetiring, ?_⟩
          refine Turn.orderly_of_ends inst rfl rfl rfl ?_ (Bool.eq_false_iff.mpr notRoot) unqueued
            (mem_withInstance coherent _) ?_
          · change (progress.engine.withInstance inst).Coherent setup taken
            rw [unchanged]
            exact coherent
          · change progress.engine.setup.pollHandlers.Ends _ _ _
            rw [coherent.same]
            apply (Setup.pollHandlers_ends placed rests.handlers).mono
            · exact fun _ _ settles => settles.mono fun _ still => still.toSteady
            · exact fun _ still => still.toSteady
      · cases polled

end MachineScript.Engine
