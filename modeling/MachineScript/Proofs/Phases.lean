import MachineScript.Proofs.Moves
import MachineScript.Proofs.Succession

/-!
Contract: what the phases of a tick leave of a coherent engine.

Owns:
- the launches, transitions and polls of a tick as turns taken one after
  another, whose faults the tick records;
- the removal of instances.

Does not own: calls of the host.
-/

namespace MachineScript.Engine

/-! ## Sequences of turns -/

/-- Turns that lead from one stage of a tick to another, which counts the launches among them and
records their faults. -/
structure Phase (setup : Setup) (before : Progress) (turns : List Turn) (after : Progress)
    (taken : List PendingTransition) : Prop where
  coherent : after.engine.Coherent setup taken
  succession : Succession setup before.engine turns after.engine
  launched : after.launched = before.launched + turns.countP fun turn => turn.errand = .launch
  faults : after.faults = before.faults ++ turns.flatMap fun turn => turn.outcome.1.toList

variable {setup : Setup} {before middle after : Progress} {taken : List PendingTransition}

theorem Phase.refl (coherent : before.engine.Coherent setup taken) :
    Phase setup before [] before taken where
  coherent := coherent
  succession := .done _
  launched := rfl
  faults := (List.append_nil _).symm

theorem Phase.append {first second : List Turn} {others : List PendingTransition}
    (early : Phase setup before first middle others)
    (late : Phase setup middle second after taken) :
    Phase setup before (first ++ second) after taken where
  coherent := late.coherent
  succession := early.succession.append late.succession
  launched := by rw [late.launched, early.launched, List.countP_append, Nat.add_assoc]
  faults := by rw [late.faults, early.faults, List.flatMap_append, List.append_assoc]

/-- One turn leads on. -/
theorem Phase.of_turn {turn : Turn} {others : List PendingTransition}
    (coherent : before.engine.Coherent setup others) (begins : turn.Begins before.engine)
    (orderly : turn.Orderly setup taken) (same : after.engine = turn.outcome.2)
    (launched : after.launched = before.launched + if turn.errand = .launch then 1 else 0)
    (faults : after.faults = before.faults ++ turn.outcome.1.toList) :
    Phase setup before [turn] after taken where
  coherent := same ▸ orderly.coherent
  succession := by
    rw [same]
    exact .more coherent begins orderly (.done _)
  launched := by
    rw [launched, List.countP_singleton]
    simp only [decide_eq_true_eq]
  faults := by rw [faults, List.flatMap_singleton]

theorem Phase.follows {turns : List Turn} (phase : Phase setup before turns after taken) :
    before.engine.Follows after.engine :=
  phase.succession.follows

theorem Phase.orderly {turns : List Turn} (phase : Phase setup before turns after taken)
    {turn : Turn} (member : turn ∈ turns) : ∃ taken, turn.Orderly setup taken := by
  obtain ⟨_, _, taken, _, _, orderly⟩ := phase.succession.of_mem member
  exact ⟨taken, orderly⟩

/-! ## Launches -/

theorem launch_phase (placed : setup.program.Placed) {launches : List PendingLaunch}
    (machines : ∀ pending ∈ launches, (setup.program.exemplar pending.machine).construct = .machine)
    (coherent : before.engine.Coherent setup taken) :
    Phase setup before
      (turnsOf Progress.launch (fun progress pending => some (progress.launchTurn pending))
        before launches)
      (launches.foldl Progress.launch before) taken := by
  induction launches generalizing before with
  | nil => exact .refl coherent
  | cons pending rest inductionHypothesis =>
      have orderly := coherent.launchTurn placed (machines pending List.mem_cons_self)
      have first : Phase setup before [before.launchTurn pending] (before.launch pending) taken :=
        .of_turn coherent (.launch _ _ coherent.find?_nextId) orderly rfl rfl rfl
      exact first.append (inductionHypothesis
        (fun other member => machines other (List.mem_cons_of_mem _ member)) first.coherent)

/-- Launches are served in order, each with the next number and with the machine and the parent that
are in the queue. -/
theorem services_launches (launches : List PendingLaunch) (before : Progress) :
    (turnsOf Progress.launch (fun progress pending => some (progress.launchTurn pending))
      before launches).map
        (fun turn => (turn.inst.id, turn.inst.machine, turn.inst.parent, turn.errand))
      = (launches.zipIdx before.engine.nextId).map fun entry =>
        (entry.2, entry.1.machine, some entry.1.parent, Errand.launch) := by
  induction launches generalizing before with
  | nil => rfl
  | cons pending rest inductionHypothesis =>
      have next : (before.launch pending).engine.nextId = before.engine.nextId + 1 :=
        nextId_activate _ _ _
      rw [turnsOf, List.map_append, inductionHypothesis, next]
      rfl

theorem ids_launches (launches : List PendingLaunch) (before : Progress) :
    (turnsOf Progress.launch (fun progress pending => some (progress.launchTurn pending))
      before launches).map (fun turn => turn.inst.id)
      = List.range' before.engine.nextId launches.length := by
  have ids := congrArg (List.map Prod.fst) (services_launches launches before)
  rw [List.map_map, List.map_map] at ids
  exact ids.trans (List.zipIdx_map_snd before.engine.nextId launches)

/-! ## Transitions -/

theorem transition_phase (placed : setup.program.Placed) {due : List PendingTransition}
    (coherent : before.engine.Coherent setup (due ++ taken)) :
    Phase setup before (turnsOf Progress.transition Progress.transitionTurn? before due)
      (due.foldl Progress.transition before) taken := by
  induction due generalizing before with
  | nil => exact .refl coherent
  | cons pending rest inductionHypothesis =>
      -- What is still due is part of the invariant, so the instance is there and its flag is set.
      obtain ⟨inst, turn, _, member, notRetiring, orderly⟩ := coherent.transitionTurn placed
      have found := (Bindings.find?_eq_some_iff coherent.distinct).mpr member
      have first : Phase setup before [⟨before.engine, inst, .transition pending.target⟩]
          (before.transition pending) (rest ++ taken) := by
        rw [Progress.transition_eq, turn]
        exact .of_turn coherent (.resume _ _ nofun found notRetiring) orderly rfl rfl rfl
      rw [turnsOf, turn]
      exact first.append (inductionHypothesis first.coherent)

/-! ## Polls -/

theorem poll_phase (placed : setup.program.Placed) {ids : List InstanceId}
    (coherent : before.engine.Coherent setup taken) :
    Phase setup before (turnsOf Progress.poll Progress.pollTurn? before ids)
      (ids.foldl Progress.poll before) taken := by
  induction ids generalizing before with
  | nil => exact .refl coherent
  | cons id rest inductionHypothesis =>
      have first : Phase setup before (before.pollTurn? id).toList (before.poll id) taken := by
        rw [Progress.poll_eq]
        cases polled : before.pollTurn? id with
        | none => exact .refl coherent
        | some turn =>
            obtain ⟨inst, rfl, _, member, notRetiring, orderly⟩ := coherent.pollTurn placed polled
            have found := (Bindings.find?_eq_some_iff coherent.distinct).mpr member
            exact .of_turn coherent (.resume _ _ nofun found notRetiring) orderly rfl rfl rfl
      exact first.append (inductionHypothesis first.coherent)

/-! ## Removals -/

theorem Coherent.remove {engine : Engine} (coherent : engine.Coherent setup []) {id : InstanceId}
    {inst : Instance} (found : engine.instances.find? id = some inst) :
    ((engine.withoutTransition id).retire id).Coherent setup [] := by
  have member := Bindings.mem_of_find? found
  have queue : ∀ other, other ∈ instancesOf (engine.world.transitions.filter fun pending =>
      pending.instanceId ≠ id) ↔ other ∈ instancesOf engine.world.transitions ∧ other ≠ id := by
    intro other
    unfold instancesOf
    simp only [List.mem_map, List.mem_filter, decide_eq_true_iff]
    constructor
    · rintro ⟨pending, ⟨there, different⟩, rfl⟩
      exact ⟨⟨pending, there, rfl⟩, different⟩
    · rintro ⟨⟨pending, there, rfl⟩, different⟩
      exact ⟨pending, ⟨there, different⟩, rfl⟩
  unfold withoutTransition retire
  simp only [found]
  refine ⟨coherent.same, Bindings.nodup_erase coherent.distinct id, ?_, coherent.next, ?_,
    coherent.launches, ?_, ?_, ?_, ?_⟩
  · exact fun entry there => coherent.ids entry (Bindings.mem_erase_iff.mp there).1
  · exact fun entry there => coherent.rests entry (Bindings.mem_erase_iff.mp there).1
  · exact coherent.once.sublist (List.filter_sublist.map _)
  · intro other there
    obtain ⟨queued, different⟩ := (queue other).mp there
    obtain ⟨entry, known, rfl⟩ := List.mem_map.mp (coherent.listed other queued)
    exact List.mem_map_of_mem (Bindings.mem_erase_iff.mpr ⟨known, different⟩)
  · intro entry there
    obtain ⟨known, different⟩ := Bindings.mem_erase_iff.mp there
    rw [coherent.flagged entry known]
    exact ⟨fun queued => (queue _).mpr ⟨queued, different⟩, fun queued => ((queue _).mp queued).1⟩
  · exact (coherent.balanced_others member).releaseAll

/-- An instance that waits for no transition is removed with nothing but itself. -/
theorem Coherent.retire {engine : Engine} (coherent : engine.Coherent setup []) {id : InstanceId}
    (unqueued : ∀ inst, engine.instances.find? id = some inst → inst.transitionQueued = false) :
    (engine.retire id).Coherent setup [] := by
  cases found : engine.instances.find? id with
  | none =>
      unfold Engine.retire
      rw [found]
      exact coherent
  | some inst =>
      have absent := coherent.notMem_of_unqueued (Bindings.mem_of_find? found) (unqueued inst found)
      have same : (engine.world.transitions.filter fun pending => pending.instanceId ≠ id)
          = engine.world.transitions := by
        apply List.filter_eq_self.mpr
        intro pending there
        rw [decide_eq_true_iff]
        rintro rfl
        exact absent (List.mem_map_of_mem there)
      have removed := coherent.remove found
      unfold withoutTransition at removed
      rwa [same] at removed

theorem mem_retire_iff {engine : Engine} {id : InstanceId} {entry : InstanceId × Instance} :
    entry ∈ (engine.retire id).instances ↔ entry ∈ engine.instances ∧ entry.1 ≠ id := by
  unfold Engine.retire
  split
  · next absent =>
      constructor
      · intro there
        refine ⟨there, ?_⟩
        rintro rfl
        exact Bindings.find?_eq_none_iff.mp absent (List.mem_map_of_mem there)
      · exact And.left
  · exact Bindings.mem_erase_iff

theorem find?_retire (engine : Engine) (id other : InstanceId) :
    (engine.retire id).instances.find? other
      = if other = id then none else engine.instances.find? other := by
  unfold Engine.retire
  split
  · next absent =>
      split
      · next same => rw [same, absent]
      · rfl
  · split
    · next same =>
        rw [same]
        exact Bindings.find?_erase_same _ _
    · next different => exact Bindings.find?_erase_other _ (Ne.symm different)

theorem find?_retireAll (ids : List InstanceId) (engine : Engine) (other : InstanceId) :
    (ids.foldl Engine.retire engine).instances.find? other
      = if other ∈ ids then none else engine.instances.find? other := by
  induction ids generalizing engine with
  | nil => rfl
  | cons id rest inductionHypothesis =>
      rw [List.foldl_cons, inductionHypothesis, find?_retire]
      simp only [List.mem_cons]
      split_ifs <;> simp_all

/-- Removals concern the table and the shared variables only. -/
theorem retireAll_eq (ids : List InstanceId) (engine : Engine) : ∃ instances shared,
    ids.foldl Engine.retire engine = { engine with
      instances := instances, world := { engine.world with shared := shared } } := by
  induction ids generalizing engine with
  | nil => exact ⟨engine.instances, engine.world.shared, rfl⟩
  | cons id rest inductionHypothesis =>
      obtain ⟨instances, shared, same⟩ := inductionHypothesis (engine.retire id)
      refine ⟨instances, shared, ?_⟩
      rw [List.foldl_cons, same]
      unfold Engine.retire
      split <;> rfl

theorem length_retireAll {ids : List InstanceId} {engine : Engine}
    (distinct : (engine.instances.map Prod.fst).Nodup) (once : ids.Nodup)
    (known : ∀ id ∈ ids, (engine.instances.find? id).isSome = true) :
    (ids.foldl Engine.retire engine).instances.length + ids.length = engine.instances.length := by
  induction ids generalizing engine with
  | nil => rfl
  | cons id rest inductionHypothesis =>
      obtain ⟨absent, once⟩ := List.nodup_cons.mp once
      obtain ⟨inst, found⟩ := Option.isSome_iff_exists.mp (known id List.mem_cons_self)
      have table : (engine.retire id).instances = engine.instances.erase id := by
        unfold Engine.retire
        rw [found]
      have still : ∀ other ∈ rest, ((engine.retire id).instances.find? other).isSome = true := by
        intro other member
        rw [find?_retire, if_neg (ne_of_mem_of_not_mem member absent)]
        exact known other (List.mem_cons_of_mem _ member)
      have others := inductionHypothesis (table ▸ Bindings.nodup_erase distinct id) once still
      have removed := Bindings.length_erase distinct found
      rw [table] at others
      rw [List.foldl_cons, List.length_cons, ← Nat.add_assoc, others, removed]

theorem follows_retire (engine : Engine) (id : InstanceId) : engine.Follows (engine.retire id) := by
  apply Follows.of_subset _ fun _ there => (mem_retire_iff.mp there).1
  unfold Engine.retire
  split <;> rfl

theorem mem_retiring_iff {engine : Engine} (coherent : engine.Coherent setup taken)
    {id : InstanceId} : id ∈ engine.retiring ↔ engine.Finished id := by
  unfold Engine.retiring Finished
  simp only [List.mem_map, List.mem_filter, decide_eq_true_iff, Bindings.find?_eq_some_iff
    coherent.distinct]
  constructor
  · rintro ⟨⟨_, inst⟩, ⟨there, retiring⟩, rfl⟩
    exact ⟨inst, there, retiring⟩
  · rintro ⟨inst, there, retiring⟩
    exact ⟨(id, inst), ⟨there, retiring⟩, rfl⟩

/-- The last phase of a tick: instances that have finished are removed. -/
theorem Coherent.retireAll {engine : Engine} (coherent : engine.Coherent setup [])
    {ids : List InstanceId} (finished : ∀ id ∈ ids, id ∈ engine.retiring) :
    (ids.foldl Engine.retire engine).Coherent setup []
      ∧ engine.Follows (ids.foldl Engine.retire engine) := by
  have unqueued : ∀ id ∈ ids, ∀ inst, engine.instances.find? id = some inst →
      inst.transitionQueued = false := by
    intro id member inst found
    obtain ⟨other, foundToo, retiring⟩ := (mem_retiring_iff coherent).mp (finished id member)
    cases found.symm.trans foundToo
    exact (coherent.rests _ (Bindings.mem_of_find? found)).retiring retiring
  clear finished
  induction ids generalizing engine with
  | nil => exact ⟨coherent, Follows.refl engine⟩
  | cons id rest inductionHypothesis =>
      have first := coherent.retire (unqueued id List.mem_cons_self)
      have others := inductionHypothesis first (by
        intro other member inst found
        have there := (mem_retire_iff.mp (Bindings.mem_of_find? found)).1
        exact unqueued other (List.mem_cons_of_mem _ member) inst
          ((Bindings.find?_eq_some_iff coherent.distinct).mpr there))
      exact ⟨others.1, (follows_retire engine id).trans others.2⟩

end MachineScript.Engine
