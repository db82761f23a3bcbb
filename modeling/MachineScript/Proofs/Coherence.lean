import MachineScript.Engine
import MachineScript.Proofs.Run.Errands
import MachineScript.Proofs.Table

/-!
Contract: what holds of an engine between any two runs of its instances.

Owns: the invariant that ties the table of instances to the queue of
transitions and to the shared cells, and what one run, one launch and one
removal make of it.

Does not own: ticks and calls of the host, which are made of these.
-/

namespace MachineScript

/-! ## Instances between their runs -/

/-- An instance of a machine on a lexical stack, with nothing but handlers waiting. -/
structure Instance.Sound (inst : Instance) (program : Program) : Prop where
  callDepth : inst.callDepth = 0
  machine : inst.isRoot = false → (program.exemplar inst.machine).construct = .machine
  lexical : program.Lexical inst.machine inst.contexts
  handlers : inst.WaitsForHandlers program
  own : inst.HoldsOwn

/-- A sound instance in the table: the root has no context, and what retires waits for nothing. -/
structure Instance.Rests (inst : Instance) (program : Program) : Prop
    extends inst.Sound program where
  root : inst.isRoot = true → inst.contexts = [] ∧ inst.transitionQueued = false
  retiring : inst.status = .retiring → inst.transitionQueued = false

/-- What waits for a transition is not the root, and has not finished. -/
theorem Instance.Rests.of_queued {inst : Instance} {program : Program}
    (rests : inst.Rests program) (flag : inst.transitionQueued = true) :
    inst.isRoot ≠ true ∧ inst.status ≠ .retiring := by
  constructor
  · intro isRoot
    rw [(rests.root isRoot).2] at flag
    cases flag
  · intro retiring
    rw [rests.retiring retiring] at flag
    cases flag

theorem Steady.isRoot {program : Program} {before after : Activation}
    (steady : Steady program before after) : after.inst.isRoot = before.inst.isRoot := by
  unfold Instance.isRoot
  rw [steady.id]

theorem Settles.id {program : Program} {before after : Activation}
    (settles : Settles (Steady program) before after) : after.inst.id = before.inst.id := by
  cases settles with
  | waits steady => exact steady.id
  | queued steady target => exact steady.id

theorem Settles.isRoot {program : Program} {before after : Activation}
    (settles : Settles (Steady program) before after) :
    after.inst.isRoot = before.inst.isRoot := by
  unfold Instance.isRoot
  rw [settles.id]

theorem Steady.sound {program : Program} {before after : Activation}
    (steady : Steady program before after) (sound : before.inst.Sound program) :
    after.inst.Sound program where
  callDepth := steady.callDepth.trans sound.callDepth
  machine notRoot := by
    rw [steady.isRoot] at notRoot
    rw [steady.machine]
    exact sound.machine notRoot
  lexical := steady.lexical sound.lexical
  handlers := steady.handlers sound.handlers
  own := steady.own sound.own

theorem Instance.Sound.queue {program : Program} {activation : Activation}
    (sound : activation.inst.Sound program) (target : String) :
    (activation.queue target).inst.Sound program :=
  ⟨sound.callDepth, sound.machine, sound.lexical, sound.handlers, sound.own⟩

namespace Instance

variable {inst : Instance} {program : Program}

theorem settle_id (inst : Instance) : inst.settle.id = inst.id := by
  unfold settle
  split <;> rfl

theorem settle_isRoot (inst : Instance) : inst.settle.isRoot = inst.isRoot := by
  unfold isRoot
  rw [inst.settle_id]

theorem settle_machine (inst : Instance) : inst.settle.machine = inst.machine := by
  unfold settle
  split <;> rfl

theorem settle_parent (inst : Instance) : inst.settle.parent = inst.parent := by
  unfold settle
  split <;> rfl

theorem settle_sharedRefs (inst : Instance) : inst.settle.sharedRefs = inst.sharedRefs := by
  unfold settle
  split <;> rfl

theorem settle_transitionQueued (inst : Instance) :
    inst.settle.transitionQueued = inst.transitionQueued := by
  unfold settle
  split <;> rfl

theorem settle_contexts (inst : Instance) :
    inst.settle.contexts = inst.contexts ∨ inst.settle.status = .retiring := by
  unfold settle
  split
  · exact .inl rfl
  · exact .inr rfl

theorem halt_status (notRoot : inst.isRoot = false) : inst.halt.status = .retiring := by
  unfold halt
  simp [notRoot]

theorem settle_status_of_root (isRoot : inst.isRoot = true) : inst.settle.status = .suspended := by
  unfold settle
  simp [isRoot]

theorem halt_status_of_root (isRoot : inst.isRoot = true) : inst.halt.status = inst.status := by
  unfold halt
  simp [isRoot]

/-- An instance comes to rest after a run: it waits for something, or it retires. -/
theorem Sound.settle (sound : inst.Sound program)
    (root : inst.isRoot = true → inst.contexts = [] ∧ inst.transitionQueued = false) :
    inst.settle.Rests program := by
  unfold Instance.settle
  split
  · exact ⟨⟨sound.callDepth, sound.machine, sound.lexical, sound.handlers, sound.own⟩, root,
      nofun⟩
  · next idle =>
      simp only [Bool.or_eq_true, not_or, Bool.not_eq_true] at idle
      obtain ⟨⟨⟨_, unqueued⟩, _⟩, _⟩ := idle
      exact ⟨⟨sound.callDepth, sound.machine, trivial, nofun, sound.own⟩,
        fun isRoot => ⟨rfl, (root isRoot).2⟩, fun _ => unqueued⟩

theorem Sound.halt (sound : inst.Sound program) : inst.settle.halt.Rests program := by
  have same : inst.settle.halt.isRoot = inst.isRoot := inst.settle_isRoot
  have machine : inst.settle.halt.machine = inst.machine := inst.settle_machine
  refine ⟨⟨rfl, ?_, trivial, nofun, ?_⟩, fun _ => ⟨rfl, rfl⟩, fun _ => rfl⟩
  · rw [same, machine]
    exact sound.machine
  · unfold HoldsOwn
    rw [machine]
    intro key member
    apply sound.own key
    rwa [← inst.settle_sharedRefs]

end Instance

/-! ## The invariant -/

namespace Engine

/-- How often the instances of a table refer to a shared variable. -/
def referencesIn (instances : Bindings InstanceId Instance) (key : SharedKey) : Nat :=
  (instances.flatMap fun entry => entry.2.sharedRefs).count key

def instancesOf (transitions : List PendingTransition) : List InstanceId :=
  transitions.map PendingTransition.instanceId

/-- What holds of an engine between any two runs, with transitions that the tick has taken off the
queue and not serviced yet. -/
structure Coherent (engine : Engine) (setup : Setup) (taken : List PendingTransition) :
    Prop where
  same : engine.setup = setup
  distinct : (engine.instances.map Prod.fst).Nodup
  ids : ∀ entry ∈ engine.instances, entry.2.id = entry.1 ∧ entry.1 < engine.nextId
  next : rootInstance < engine.nextId
  rests : ∀ entry ∈ engine.instances, entry.2.Rests setup.program
  launches : ∀ pending ∈ engine.world.launches,
    (setup.program.exemplar pending.machine).construct = .machine
  once : (instancesOf (taken ++ engine.world.transitions)).Nodup
  listed : ∀ id ∈ instancesOf (taken ++ engine.world.transitions),
    id ∈ engine.instances.map Prod.fst
  flagged : ∀ entry ∈ engine.instances, entry.2.transitionQueued = true
    ↔ entry.1 ∈ instancesOf (taken ++ engine.world.transitions)
  balanced : engine.world.shared.Balanced (referencesIn engine.instances)

/-- Coherence is about the table, the queues and the shared cells only. -/
theorem Coherent.congr {engine other : Engine} {setup : Setup}
    {taken others : List PendingTransition}
    (coherent : engine.Coherent setup taken) (same : other.setup = engine.setup)
    (table : other.instances = engine.instances) (nextId : other.nextId = engine.nextId)
    (shared : other.world.shared = engine.world.shared)
    (launches : ∀ pending ∈ other.world.launches,
      (setup.program.exemplar pending.machine).construct = .machine)
    (queue : others ++ other.world.transitions = taken ++ engine.world.transitions) :
    other.Coherent setup others := by
  refine ⟨same.trans coherent.same, ?_, ?_, ?_, ?_, launches, ?_, ?_, ?_, ?_⟩
  · rw [table]
    exact coherent.distinct
  · rw [table, nextId]
    exact coherent.ids
  · rw [nextId]
    exact coherent.next
  · rw [table]
    exact coherent.rests
  · rw [queue]
    exact coherent.once
  · rw [queue, table]
    exact coherent.listed
  · rw [queue, table]
    exact coherent.flagged
  · rw [table, shared]
    exact coherent.balanced

theorem referencesIn_perm {instances others : Bindings InstanceId Instance}
    (order : instances.Perm others) (key : SharedKey) :
    referencesIn instances key = referencesIn others key :=
  (order.flatMap_right _).count_eq key

theorem referencesIn_cons (id : InstanceId) (inst : Instance)
    (others : Bindings InstanceId Instance) (key : SharedKey) :
    referencesIn ((id, inst) :: others) key
      = referencesIn others key + inst.sharedRefs.count key := by
  unfold referencesIn
  rw [List.flatMap_cons, List.count_append, Nat.add_comm]

/-- One instance of the table against the others, as far as shared variables go. -/
theorem Coherent.balanced_others {engine : Engine} {setup : Setup}
    {taken : List PendingTransition} (coherent : engine.Coherent setup taken) {id : InstanceId}
    {inst : Instance} (member : (id, inst) ∈ engine.instances) :
    engine.world.shared.Balanced fun key =>
      referencesIn (engine.instances.erase id) key + inst.sharedRefs.count key := by
  apply coherent.balanced.congr
  intro key
  rw [referencesIn_perm (Bindings.perm_of_mem coherent.distinct member), referencesIn_cons]

theorem find?_put (engine : Engine) {activation : Activation} {id : InstanceId}
    (same : activation.inst.id = id) :
    (engine.put activation).instances.find? id = some activation.inst := by
  rw [← same]
  exact Bindings.find?_insert_same _ _ _

theorem Coherent.id_of_find? {engine : Engine} {setup : Setup} {taken : List PendingTransition}
    (coherent : engine.Coherent setup taken) {id : InstanceId} {inst : Instance}
    (found : engine.instances.find? id = some inst) : inst.id = id :=
  (coherent.ids _ (Bindings.mem_of_find? found)).1

theorem Coherent.lt_nextId {engine : Engine} {setup : Setup} {taken : List PendingTransition}
    (coherent : engine.Coherent setup taken) {id : InstanceId} {inst : Instance}
    (found : engine.instances.find? id = some inst) : id < engine.nextId :=
  (coherent.ids _ (Bindings.mem_of_find? found)).2

/-- No instance has the number that is given out next. -/
theorem Coherent.find?_nextId {engine : Engine} {setup : Setup} {taken : List PendingTransition}
    (coherent : engine.Coherent setup taken) : engine.instances.find? engine.nextId = none := by
  rw [Bindings.find?_eq_none_iff]
  intro known
  obtain ⟨entry, there, same⟩ := List.mem_map.mp known
  exact Nat.lt_irrefl _ (same ▸ (coherent.ids entry there).2)

/-- The entry of an instance whose flag is clear is not in the queue. -/
theorem Coherent.notMem_of_unqueued {engine : Engine} {setup : Setup}
    {taken : List PendingTransition} (coherent : engine.Coherent setup taken) {id : InstanceId}
    {inst : Instance} (member : (id, inst) ∈ engine.instances)
    (unqueued : inst.transitionQueued = false) :
    id ∉ instancesOf (taken ++ engine.world.transitions) := by
  intro queued
  have flag := (coherent.flagged _ member).mpr queued
  rw [unqueued] at flag
  cases flag

/-- An instance is replaced, with what it queues and what it refers to. -/
theorem Coherent.replace {engine : Engine} {setup : Setup} {taken left : List PendingTransition}
    (coherent : engine.Coherent setup taken) {inst : Instance}
    (member : (inst.id, inst) ∈ engine.instances) {after : Activation}
    (id : after.inst.id = inst.id) (rests : after.inst.Rests setup.program)
    (launches : LaunchesQueued setup.program inst.id engine.world.launches after.world.launches)
    (balance : ∀ others : SharedKey → Nat,
      (engine.world.shared.Balanced fun key => others key + inst.sharedRefs.count key) →
      after.world.shared.Balanced fun key => others key + after.inst.sharedRefs.count key)
    (once : (instancesOf (left ++ after.world.transitions)).Nodup)
    (own : after.inst.transitionQueued = true
      ↔ inst.id ∈ instancesOf (left ++ after.world.transitions))
    (others : ∀ other, other ≠ inst.id → (other ∈ instancesOf (left ++ after.world.transitions)
      ↔ other ∈ instancesOf (taken ++ engine.world.transitions))) :
    (engine.put after).Coherent setup left := by
  have entries : ∀ entry, entry ∈ (engine.put after).instances
      ↔ entry = (after.inst.id, after.inst) ∨ entry ∈ engine.instances ∧ entry.1 ≠ after.inst.id :=
    fun entry => Bindings.mem_insert_iff coherent.distinct
  have known : after.inst.id < engine.nextId := by
    rw [id]
    exact (coherent.ids _ member).2
  refine ⟨coherent.same, Bindings.nodup_insert coherent.distinct _ _, ?_, coherent.next, ?_, ?_,
    once, ?_, ?_, ?_⟩
  · intro entry there
    rcases (entries entry).mp there with rfl | ⟨other, _⟩
    · exact ⟨rfl, known⟩
    · exact coherent.ids entry other
  · intro entry there
    rcases (entries entry).mp there with rfl | ⟨other, _⟩
    · exact rests
    · exact coherent.rests entry other
  · intro pending there
    obtain ⟨launched, same, machines⟩ := launches
    change pending ∈ after.world.launches at there
    rw [same] at there
    rcases List.mem_append.mp there with before | since
    · exact coherent.launches pending before
    · exact (machines pending since).2
  · intro other there
    apply (Bindings.mem_keys_insert_iff coherent.distinct).mpr
    by_cases same : other = inst.id
    · exact .inl (same.trans id.symm)
    · exact .inr (coherent.listed other ((others other same).mp there))
  · intro entry there
    rcases (entries entry).mp there with rfl | ⟨other, different⟩
    · change after.inst.transitionQueued = true ↔ after.inst.id ∈ _
      rw [id]
      exact own
    · rw [id] at different
      exact (coherent.flagged entry other).trans (others entry.1 different).symm
  · rw [← id] at member
    apply (balance _ (coherent.balanced_others member)).congr
    intro key
    change referencesIn (engine.instances.insert after.inst.id after.inst) key = _
    rw [referencesIn_perm (Bindings.perm_insert coherent.distinct _ _), referencesIn_cons]

/-- Quiet changes leave an engine coherent, whether a transition is queued or not. -/
theorem Coherent.putQuiet {engine : Engine} {setup : Setup} {taken : List PendingTransition}
    (coherent : engine.Coherent setup taken) {inst : Instance}
    (member : (inst.id, inst) ∈ engine.instances) {after : Activation}
    (quiet : Quiet setup.program ⟨engine.world, inst⟩ after) :
    (engine.put after).Coherent setup taken := by
  have steady := quiet.calm.toSteady
  have rests := coherent.rests _ member
  have sound : after.inst.Sound setup.program := steady.sound rests.toSound
  have queue := steady.transitions
  have flag := steady.queued
  refine coherent.replace member quiet.id ⟨sound, ?_, ?_⟩ quiet.launches steady.balance ?_ ?_ ?_
  · intro isRoot
    obtain ⟨empty, unqueued⟩ := rests.root (steady.isRoot ▸ isRoot)
    exact ⟨quiet.calm.contexts_eq_nil empty, flag.trans unqueued⟩
  · intro retiring
    have status : after.inst.status = inst.status := quiet.same fun _ => rfl
    exact flag.trans (rests.retiring (status.symm.trans retiring))
  · rw [queue]
    exact coherent.once
  · rw [queue, flag]
    exact coherent.flagged _ member
  · intro other _
    rw [queue]

/-- What a run makes of an instance whose flag is clear, with the transition that it has queued. -/
structure Turns (program : Program) (engine : Engine) (inst : Instance) (after : Activation)
    (queued : Option String) : Prop where
  id : after.inst.id = inst.id
  machine : after.inst.machine = inst.machine
  parent : after.inst.parent = inst.parent
  now : after.world.now = engine.world.now
  rests : after.inst.Rests program
  launches : LaunchesQueued program inst.id engine.world.launches after.world.launches
  transitions : after.world.transitions
    = engine.world.transitions ++ (queued.map (PendingTransition.mk inst.id)).toList
  flag : after.inst.transitionQueued = queued.isSome
  balance : ∀ others : SharedKey → Nat,
    (engine.world.shared.Balanced fun key => others key + inst.sharedRefs.count key) →
    after.world.shared.Balanced fun key => others key + after.inst.sharedRefs.count key

theorem Coherent.put {engine : Engine} {setup : Setup} {taken : List PendingTransition}
    (coherent : engine.Coherent setup taken) {inst : Instance}
    (member : (inst.id, inst) ∈ engine.instances) (unqueued : inst.transitionQueued = false)
    {after : Activation} {queued : Option String}
    (turns : Turns setup.program engine inst after queued) :
    (engine.put after).Coherent setup taken := by
  have absent := coherent.notMem_of_unqueued member unqueued
  have queue : instancesOf (taken ++ after.world.transitions)
      = instancesOf (taken ++ engine.world.transitions)
        ++ (queued.map fun _ => inst.id).toList := by
    rw [turns.transitions, ← List.append_assoc]
    cases queued with
    | none => exact congrArg instancesOf (List.append_nil _) |>.trans (List.append_nil _).symm
    | some target => exact List.map_append
  refine coherent.replace member turns.id turns.rests turns.launches turns.balance ?_ ?_ ?_
  · rw [queue, List.nodup_append]
    refine ⟨coherent.once, ?_, ?_⟩
    · cases queued <;> simp
    · intro id there other added same
      have isOwn : other = inst.id := by
        cases queued with
        | none => cases added
        | some target => exact List.mem_singleton.mp added
      rw [same, isOwn] at there
      exact absent there
  · rw [queue, turns.flag]
    cases queued <;> simp [absent]
  · intro other different
    rw [queue]
    cases queued <;> simp [different]

/-- An instance of the table has finished, and is removed at the end of the tick. -/
def Finished (engine : Engine) (id : InstanceId) : Prop :=
  ∃ inst, engine.instances.find? id = some inst ∧ inst.status = .retiring

/-! ## One run -/

/-- The activation in which an instance of an engine starts to run. -/
def starting (engine : Engine) (inst : Instance) : Activation :=
  ⟨engine.world, { inst with status := .ready }⟩

/-- An instance is put back settled or halted, as its run ends. -/
theorem activate_of_ends {engine : Engine} {inst : Instance} {run : Run Unit}
    {returned : Unit → Activation → Prop} {failed : Activation → Prop}
    (ends : run.Ends (engine.starting inst) returned failed) :
    (∃ left, returned () left
      ∧ engine.activate inst run = (none, engine.put { left with inst := left.inst.settle }))
    ∨ ∃ fault left, failed left
      ∧ engine.activate inst run = (some fault, engine.put (haltActivation left)) := by
  unfold activate
  cases ended : run ⟨engine.world, { inst with status := .ready }⟩ with
  | ok value left => exact .inl ⟨left, ends.of_ok ended, rfl⟩
  | error cause left => exact .inr ⟨_, left, ends.of_error ended, rfl⟩

theorem sound_of_steady {program : Program} {engine : Engine} {inst : Instance}
    {left : Activation} (rests : inst.Rests program)
    (steady : Steady program (engine.starting inst) left) : left.inst.Sound program := by
  apply steady.sound
  exact ⟨rests.callDepth, rests.machine, rests.lexical, rests.handlers, rests.own⟩

/-- A run that returns is one turn of its instance. -/
theorem turns_of_settles {program : Program} {engine : Engine} {inst : Instance}
    {left : Activation} (rests : inst.Rests program) (unqueued : inst.transitionQueued = false)
    (settles : Settles (Steady program) (engine.starting inst) left)
    (root : inst.isRoot = true → left.inst.contexts = [] ∧ left.inst.transitionQueued = false) :
    ∃ queued, Turns program engine inst { left with inst := left.inst.settle } queued := by
  cases settles with
  | waits steady =>
      have sound := sound_of_steady rests steady
      refine ⟨none, left.inst.settle_id.trans steady.id,
        left.inst.settle_machine.trans steady.machine, left.inst.settle_parent.trans steady.parent,
        steady.now, sound.settle ?_, steady.launches, ?_, ?_, ?_⟩
      · rw [steady.isRoot]
        exact root
      · exact steady.transitions.trans (List.append_nil _).symm
      · rw [left.inst.settle_transitionQueued, steady.queued]
        exact unqueued
      · intro others balanced
        rw [left.inst.settle_sharedRefs]
        exact steady.balance others balanced
  | @queued left steady target =>
      have sound := (sound_of_steady rests steady).queue target
      refine ⟨some target, (Instance.settle_id _).trans steady.id,
        (Instance.settle_machine _).trans steady.machine,
        (Instance.settle_parent _).trans steady.parent, steady.now, sound.settle ?_,
        steady.launches, ?_, ?_, ?_⟩
      · intro isRoot
        have same := steady.isRoot
        exact root (same.symm.trans isRoot)
      · change left.world.transitions ++ [⟨left.inst.id, target⟩] = _
        rw [steady.transitions, steady.id]
        rfl
      · rw [Instance.settle_transitionQueued]
        rfl
      · intro others balanced
        rw [Instance.settle_sharedRefs]
        exact steady.balance others balanced

/-- So is a run that fails; it queues nothing, and takes nothing off the queue. -/
theorem turns_of_failure {program : Program} {engine : Engine} {inst : Instance}
    {left : Activation} (rests : inst.Rests program)
    (absent : inst.id ∉ instancesOf engine.world.transitions)
    (steady : Steady program (engine.starting inst) left) :
    Turns program engine inst (haltActivation left) none where
  id := left.inst.settle_id.trans steady.id
  machine := left.inst.settle_machine.trans steady.machine
  parent := left.inst.settle_parent.trans steady.parent
  now := steady.now
  rests := (sound_of_steady rests steady).halt
  launches := steady.launches
  transitions := by
    change left.world.transitions.filter _ = _
    rw [steady.transitions, steady.id, Option.map_none, Option.toList_none, List.append_nil]
    apply List.filter_eq_self.mpr
    intro pending there
    rw [decide_eq_true_iff]
    intro same
    exact absent (List.mem_map.mpr ⟨pending, there, same⟩)
  flag := rfl
  balance others balanced := by
    change (left.world.shared).Balanced fun key =>
      others key + left.inst.settle.sharedRefs.count key
    rw [left.inst.settle_sharedRefs]
    exact steady.balance others balanced

/-- However a run ends, its instance is put back after one turn; if it fails, it has finished. The
root is suspended either way. -/
theorem activate_turns {program : Program} {engine : Engine} {inst resumed : Instance}
    {run : Run Unit} (rests : resumed.Rests program) (unqueued : resumed.transitionQueued = false)
    (absent : resumed.id ∉ instancesOf engine.world.transitions)
    (ends : run.Ends (engine.starting inst)
      (fun _ left => Settles (Steady program) (engine.starting resumed) left
        ∧ (resumed.isRoot = true →
          left.inst.contexts = [] ∧ left.inst.transitionQueued = false))
      (Steady program (engine.starting resumed))) :
    ∃ after queued, (engine.activate inst run).2 = engine.put after
      ∧ Turns program engine resumed after queued
      ∧ ((engine.activate inst run).1.isSome = true → resumed.isRoot = false →
        after.inst.status = .retiring)
      ∧ (resumed.isRoot = true → after.inst.status = .suspended) := by
  rcases activate_of_ends ends with ⟨left, ⟨settles, root⟩, put⟩ | ⟨fault, left, steady, put⟩
  · obtain ⟨queued, turns⟩ := turns_of_settles rests unqueued settles root
    rw [put]
    refine ⟨_, queued, rfl, turns, nofun, fun isRoot => ?_⟩
    apply Instance.settle_status_of_root
    rw [settles.isRoot]
    exact isRoot
  · have same : left.inst.settle.isRoot = resumed.isRoot :=
      left.inst.settle_isRoot.trans steady.isRoot
    rw [put]
    refine ⟨_, none, rfl, turns_of_failure rests absent steady, fun _ notRoot => ?_,
      fun isRoot => ?_⟩
    · exact Instance.halt_status (same.trans notRoot)
    · have settled := Instance.settle_status_of_root (steady.isRoot.trans isRoot)
      exact (Instance.halt_status_of_root (same.trans isRoot)).trans settled

/-- After a run in its place an instance stands where it stood, or it has finished. -/
theorem stands_of_ends {program : Program} {engine : Engine} {inst : Instance} {run : Run Unit}
    {start : Activation} (id : start.inst.id = inst.id) (notRoot : inst.isRoot = false)
    (ends : run.Ends (engine.starting inst) (fun _ left => Settles (Still program) start left)
      (Still program start)) :
    ∃ after, (engine.activate inst run).2.instances.find? inst.id = some after
      ∧ (after.stack = start.inst.stack ∨ after.status = .retiring) := by
  rcases activate_of_ends ends with ⟨left, settles, put⟩ | ⟨fault, left, still, put⟩
  · obtain ⟨same, stack⟩ : left.inst.id = start.inst.id ∧ left.inst.stack = start.inst.stack := by
      cases settles with
      | waits still => exact ⟨still.id, still.stack⟩
      | queued still target => exact ⟨still.id, still.stack⟩
    rw [put]
    refine ⟨_, find?_put _ (left.inst.settle_id.trans (same.trans id)), ?_⟩
    rcases left.inst.settle_contexts with kept | closed
    · left
      unfold Instance.stack at stack ⊢
      rw [kept, stack]
    · exact .inr closed
  · rw [put]
    refine ⟨_, find?_put _ (left.inst.settle_id.trans (still.id.trans id)), .inr ?_⟩
    apply Instance.halt_status
    rw [left.inst.settle_isRoot, still.isRoot]
    unfold Instance.isRoot at notRoot ⊢
    rw [id, notRoot]

end Engine

end MachineScript
