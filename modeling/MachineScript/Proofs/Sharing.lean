import MachineScript.Proofs.Reachable

/-!
Contract: shared variables against the instances that refer to them.

Owns:
- between calls of the host and between the turns of a tick, a variable exists
  just as long as instances of its machine refer to it;
- the steps that make and free variables: an instruction of a launch makes one
  with a new default if nothing refers to it, and a removal frees it with the
  last reference. No other step does either.

Does not own: which variable a name stands for.
-/

namespace MachineScript

/-! ## Taking hold -/

namespace Setup

variable {setup : Setup}

/-- Run the instructions in front of one, and count that one. -/
def runUpTo (setup : Setup) (front : List Instruction) : Run Unit := do
  let _ ← setup.runInstructions (setup.call setup.config.maxCallDepth) false .nil front
  Run.countInstruction

theorem runInstructions_split (caller : Caller) (front : List Instruction)
    (instruction : Instruction) (back : List Instruction) (last : Value) :
    setup.runInstructions caller false last (front ++ instruction :: back) = (do
      let _ ← setup.runInstructions caller false last front
      Run.countInstruction
      let value ← setup.execute caller instruction
      setup.runInstructions caller false value back) := by
  induction front generalizing last with
  | nil => simp [runInstructions]
  | cons first rest inductionHypothesis =>
      simp only [List.cons_append, runInstructions, Bool.false_and, Bool.false_eq_true, if_false,
        inductionHypothesis, bind_assoc]

theorem execute_shared_of_retain? (caller : Caller) (name : String) (source : Source)
    {current : Activation} {held : SharedCells}
    (retained : current.world.shared.retain? (current.inst.machine, name) = some held) :
    setup.execute caller (.shared name source) current
      = .ok .nil (current.refer held (current.inst.machine, name)) := by
  rw [execute]
  unfold holdShared
  simp only [bind_assoc, Run.bind_get, retained]
  rfl

theorem execute_shared_of_absent (caller : Caller) (name : String) (source : Source)
    {current : Activation}
    (absent : current.world.shared.retain? (current.inst.machine, name) = none) :
    setup.execute caller (.shared name source) current
      = match setup.evalSource caller source current with
        | .ok value left =>
            .ok .nil (left.refer (left.world.shared.create (current.inst.machine, name) value)
              (current.inst.machine, name))
        | .error cause left => .error cause left := by
  rw [execute]
  unfold holdShared
  simp only [bind_assoc, Run.bind_get, absent]
  cases evaluated : setup.evalSource caller source current with
  | ok value left => exact Run.bind_of_ok evaluated
  | error cause left => exact Run.bind_of_error evaluated

/-- What a `shared` instruction does. If nothing refers to its variable, the default is evaluated
and the variable made from it; otherwise there is one more hold on the variable. -/
structure Shares (setup : Setup) (name : String) (source : Source) (current : Activation)
    (referred : Prop) : Prop where
  has_iff : current.world.shared.has (current.inst.machine, name) = true ↔ referred
  fresh : ¬referred →
    (setup.evalSource (setup.call setup.config.maxCallDepth) source).Ends current
      (fun _ left => left.world.shared.has (current.inst.machine, name) = false)
      (fun left => left.world.shared.has (current.inst.machine, name) = false)
  makes : ¬referred →
    setup.execute (setup.call setup.config.maxCallDepth) (.shared name source) current
      = match setup.evalSource (setup.call setup.config.maxCallDepth) source current with
        | .ok value left =>
            .ok .nil (left.refer (left.world.shared.create (current.inst.machine, name) value)
              (current.inst.machine, name))
        | .error cause left => .error cause left
  holds : referred → ∃ held,
    setup.execute (setup.call setup.config.maxCallDepth) (.shared name source) current
        = .ok .nil (current.refer held (current.inst.machine, name))
      ∧ held.value? (current.inst.machine, name)
        = current.world.shared.value? (current.inst.machine, name)
      ∧ held.holders (current.inst.machine, name)
        = current.world.shared.holders (current.inst.machine, name) + 1

theorem shares_of_balanced (placed : setup.program.Placed) (name : String) (source : Source)
    {current : Activation} {references : SharedKey → Nat}
    (balanced : current.world.shared.Balanced references) :
    setup.Shares name source current (0 < references (current.inst.machine, name)) := by
  have has := balanced.has_iff (current.inst.machine, name)
  have absent (unreferred : ¬0 < references (current.inst.machine, name)) :
      current.world.shared.has (current.inst.machine, name) = false := by
    rw [Bool.eq_false_iff]
    exact fun present => unreferred (has.mp present)
  refine ⟨has, ?_, ?_, ?_⟩
  · intro unreferred
    have still {left : Activation} (quiet : Quiet setup.program current left) :
        left.world.shared.has (current.inst.machine, name) = false := by
      rw [← SharedCells.isSome_held?, quiet.held, SharedCells.isSome_held?]
      exact absent unreferred
    have kept := evalSource_keeps (call_keeps placed setup.config.maxCallDepth) source current
    exact kept.mono (fun _ _ => still) fun _ => still
  · intro unreferred
    exact execute_shared_of_absent _ name source
      (SharedCells.retain?_of_absent (absent unreferred))
  · intro referred
    obtain ⟨held, retained, value, holders⟩ := SharedCells.retain?_of_has (has.mpr referred)
    exact ⟨held, execute_shared_of_retain? _ name source retained, value, holders⟩

end Setup

namespace Engine

variable {setup : Setup} {engine : Engine} {taken : List PendingTransition}

/-! ## Between calls of the host -/

/-- Some instance of the table refers to a shared variable. -/
def Refers (engine : Engine) (key : SharedKey) : Prop :=
  ∃ entry ∈ engine.instances, key ∈ entry.2.sharedRefs

theorem referencesIn_pos_iff (engine : Engine) (key : SharedKey) :
    0 < referencesIn engine.instances key ↔ engine.Refers key := by
  unfold referencesIn Refers
  rw [List.count_pos_iff, List.mem_flatMap]

/-- A shared variable exists as long as some instance refers to it, it is held once for each
reference, and instances refer to variables of their own machine only. -/
structure SharesInBalance (engine : Engine) : Prop where
  has_iff : ∀ key, engine.world.shared.has key = true ↔ engine.Refers key
  holders : ∀ key, engine.world.shared.holders key = referencesIn engine.instances key
  own : ∀ entry ∈ engine.instances, ∀ key ∈ entry.2.sharedRefs, key.1 = entry.2.machine

theorem Coherent.sharesInBalance (coherent : engine.Coherent setup taken) :
    engine.SharesInBalance where
  has_iff key := (coherent.balanced.has_iff key).trans (engine.referencesIn_pos_iff key)
  holders := coherent.balanced.holders_eq
  own entry there := (coherent.rests entry there).own

/-! ## Launches -/

/-- A new instance takes hold of what its machine shares, one instruction after another. Where one
of them runs, its variable exists if an instance of the table or the new one itself refers to it. -/
def TakesHold (engine : Engine) (inst : Instance) : Prop :=
  ∀ front name source back,
    (engine.setup.program.exemplar inst.machine).instructions
        = front ++ .shared name source :: back →
      engine.setup.runExemplar inst.machine = (do
        engine.setup.runUpTo front
        let value ← engine.setup.execute (engine.setup.call engine.setup.config.maxCallDepth)
          (.shared name source)
        engine.setup.runInstructions (engine.setup.call engine.setup.config.maxCallDepth) false
          value back)
      ∧ ∀ current, engine.setup.runUpTo front (engine.starting inst) = .ok () current →
        current.inst.machine = inst.machine ∧ engine.setup.Shares name source current
          (engine.Refers (inst.machine, name) ∨ (inst.machine, name) ∈ current.inst.sharedRefs)

theorem takesHold_of_balanced {inst : Instance} (placed : engine.setup.program.Placed)
    (balanced : engine.world.shared.Balanced (referencesIn engine.instances))
    (isMachine : (engine.setup.program.exemplar inst.machine).construct = .machine)
    (fresh : inst.sharedRefs = []) : engine.TakesHold inst := by
  have runsOn : (engine.setup.program.exemplar inst.machine).construct.suspends = false := by
    rw [isMachine]
    rfl
  intro front name source back instructions
  constructor
  · unfold Setup.runExemplar Setup.runExemplarWith Setup.runUpTo
    simp only [runsOn, instructions, Setup.runInstructions_split, bind_assoc]
  · intro current reached
    have lasts := Calm.lasts engine.setup.program
    have notGoto := Setup.notGoto_of_placed placed runsOn
    rw [instructions] at notGoto
    have runs : (engine.setup.runUpTo front).Keeps (Calm engine.setup.program) := by
      apply lasts.bind
      · exact Setup.runInstructions_calm (Setup.call_keeps placed _) .nil fun other member =>
          notGoto other (List.mem_append_left _ member)
      · intro _ start
        exact (Setup.countInstruction_keeps _ start).mono (fun _ _ => Quiet.calm)
          fun _ => Quiet.calm
    have calm := (runs (engine.starting inst)).of_ok reached
    have machine : current.inst.machine = inst.machine := calm.machine
    refine ⟨machine, ?_⟩
    -- While the new instance runs, its references count beside those of the table.
    have before : (engine.starting inst).world.shared.Balanced fun key =>
        referencesIn engine.instances key + (engine.starting inst).inst.sharedRefs.count key := by
      apply balanced.congr
      intro key
      change _ + inst.sharedRefs.count key = _
      rw [fresh, List.count_nil, Nat.add_zero]
    have shares := Setup.shares_of_balanced placed name source
      (calm.balance (referencesIn engine.instances) before)
    rwa [Nat.add_pos_iff_pos_or_pos, referencesIn_pos_iff, List.count_pos_iff, machine] at shares

/-! ## Turns that take no hold -/

theorem held?_activate {program : Program} {inst : Instance} {run : Run Unit} {start : Activation}
    (world : start.world = engine.world)
    (ends : run.Ends (engine.starting inst)
      (fun _ left => Settles (Roams program) start left) (Roams program start)) (key : SharedKey) :
    (engine.activate inst run).2.world.shared.held? key = engine.world.shared.held? key := by
  rw [← world]
  rcases activate_of_ends ends with ⟨left, settles, put⟩ | ⟨fault, left, roams, put⟩
  · rw [put]
    cases settles with
    | waits roams => exact roams.held key
    | queued roams target => exact roams.held key
  · rw [put]
    exact roams.held key

theorem held?_transition (placed : engine.setup.program.Placed) (inst : Instance)
    (target : String) (key : SharedKey) :
    (Turn.mk engine inst (.transition target)).outcome.2.world.shared.held? key
      = engine.world.shared.held? key :=
  held?_activate rfl (Setup.transition_ends placed target (engine.starting inst)) key

theorem held?_poll (placed : engine.setup.program.Placed) {inst : Instance}
    (handlers : inst.WaitsForHandlers engine.setup.program) (key : SharedKey) :
    (Turn.mk engine inst .poll).outcome.2.world.shared.held? key
      = engine.world.shared.held? key := by
  have start : (engine.starting inst).inst.WaitsForHandlers engine.setup.program := handlers
  have ends := (Setup.pollHandlers_ends placed start).mono
    (fun _ _ settles => settles.mono fun _ still => still.toRoams) fun _ still => still.toRoams
  exact held?_activate rfl ends key

theorem held?_start (placed : engine.setup.program.Placed) (key : SharedKey) :
    engine.start.2.world.shared.held? key = engine.world.shared.held? key := by
  unfold Engine.start
  split
  · rfl
  · simp only
    split
    · next root found =>
        have lasts := Quiet.lasts engine.setup.program
        have runsOn : (engine.setup.program.exemplar Program.root).construct.suspends = false := by
          rw [placed.root]
          rfl
        have notMachine : (engine.setup.program.exemplar Program.root).construct ≠ .machine := by
          rw [placed.root]
          decide
        have kept := lasts.bind (Setup.runExemplar_keeps placed runsOn notMachine)
          fun _ => lasts.pure ()
        let begun : Engine :=
          { engine with started := true, world := { engine.world with now := engine.clock.now } }
        have ends := (kept (begun.starting root)).mono
          (fun _ _ quiet => Settles.waits quiet.still.toRoams) fun _ quiet => quiet.still.toRoams
        exact held?_activate rfl ends key
    · rfl

/-! ## Removals -/

/-- An instance is removed with its references. What no other instance refers to is freed, and the
rest keeps its value. -/
structure Releases (before after : Engine) (id : InstanceId) : Prop where
  removed : after.instances = before.instances.erase id
  freed : ∀ key, before.world.shared.has key = true →
    (after.world.shared.has key = false ↔ ¬after.Refers key)
  kept : ∀ key, after.world.shared.has key = true →
    after.world.shared.value? key = before.world.shared.value? key

theorem releases_retire {id : InstanceId} (balanced : (engine.retire id).SharesInBalance) :
    Releases engine (engine.retire id) id := by
  have freed : ∀ key, (engine.retire id).world.shared.has key = false
      ↔ ¬(engine.retire id).Refers key := by
    intro key
    rw [← balanced.has_iff, Bool.not_eq_true]
  refine ⟨?_, fun key _ => freed key, ?_⟩
  · unfold retire
    split
    · next absent =>
        exact (Bindings.erase_of_notMem (Bindings.find?_eq_none_iff.mp absent)).symm
    · rfl
  · intro key
    unfold retire
    split
    · exact fun _ => rfl
    · exact SharedCells.value?_releaseAll

/-! ## A tick -/

/-- Shared variables in a tick. They are in balance between any two turns. A launch makes what its
machine shares and does not exist, other turns make and free nothing, and the removals at the end
free what nothing refers to any more, also where a turn has failed. -/
structure SharesOverTick (engine : Engine) : Prop where
  opens : ∀ key, engine.opened.engine.world.shared.held? key = engine.world.shared.held? key
  balanced : ∀ turn ∈ engine.turns, turn.engine.SharesInBalance ∧ turn.outcome.2.SharesInBalance
  launches : ∀ turn ∈ engine.launchTurns,
    turn.errand = .launch ∧ turn.engine.TakesHold turn.inst
  keeps : ∀ turn ∈ engine.launchTurns, ∀ key, turn.engine.world.shared.has key = true →
    turn.outcome.2.world.shared.has key = true
  others : ∀ turn ∈ engine.transitionTurns ++ engine.pollTurns, ∀ key,
    turn.outcome.2.world.shared.held? key = turn.engine.world.shared.held? key
  removals : ∀ front id back, engine.polled.engine.retiring = front ++ id :: back →
    Releases (front.foldl retire engine.polled.engine)
      ((front ++ [id]).foldl retire engine.polled.engine) id
  faults : ∀ turn ∈ engine.turns, turn.outcome.1.isSome = true →
    engine.runTick.2.instances.find? turn.inst.id = none

theorem Coherent.launchTurns_share (placed : setup.program.Placed)
    (coherent : engine.Coherent setup []) {turn : Turn} (member : turn ∈ engine.launchTurns) :
    turn.engine.SharesInBalance ∧ turn.errand = .launch ∧ turn.engine.TakesHold turn.inst := by
  obtain ⟨progress, pending, rfl, here, isMachine⟩ := coherent.of_mem_launchTurns placed member
  have shares := here.sharesInBalance
  rw [← here.same] at placed isMachine
  refine ⟨⟨shares.has_iff, shares.holders, shares.own⟩, rfl, ?_⟩
  exact takesHold_of_balanced placed here.balanced isMachine rfl

theorem Coherent.launchTurns_keep (placed : setup.program.Placed)
    (coherent : engine.Coherent setup []) {turn : Turn} (member : turn ∈ engine.launchTurns)
    {key : SharedKey} (present : turn.engine.world.shared.has key = true) :
    turn.outcome.2.world.shared.has key = true := by
  obtain ⟨progress, pending, rfl, here, isMachine⟩ := coherent.of_mem_launchTurns placed member
  have orderly := here.launchTurn placed isMachine
  obtain ⟨resumed, after, queued, id, _, put, turns⟩ := orderly.put
  obtain ⟨entry, there, refers⟩ := (here.sharesInBalance.has_iff key).mp present
  have isNew : after.inst.id = progress.engine.nextId := turns.id.trans id
  have different : entry.1 ≠ after.inst.id := by
    rw [isNew]
    exact Nat.ne_of_lt (here.ids entry there).2
  apply (orderly.coherent.sharesInBalance.has_iff key).mpr
  refine ⟨entry, ?_, refers⟩
  rw [put]
  exact (Bindings.mem_insert_iff here.distinct).mpr (.inr ⟨there, different⟩)

theorem Coherent.otherTurns_share (placed : setup.program.Placed)
    (coherent : engine.Coherent setup []) {turn : Turn}
    (member : turn ∈ engine.transitionTurns ++ engine.pollTurns) :
    turn.engine.SharesInBalance ∧ ∀ key,
      turn.outcome.2.world.shared.held? key = turn.engine.world.shared.held? key := by
  rcases List.mem_append.mp member with isTransition | isPoll
  · obtain ⟨before, inst, target, _, rfl, here, _⟩ :=
      coherent.of_mem_transitionTurns placed isTransition
    rw [← here.same] at placed
    exact ⟨here.sharesInBalance, held?_transition placed inst target⟩
  · obtain ⟨before, inst, rfl, _, here, there⟩ := coherent.of_mem_pollTurns placed isPoll
    have handlers := (here.rests _ there).handlers
    rw [← here.same] at placed handlers
    exact ⟨here.sharesInBalance, held?_poll placed handlers⟩

theorem Coherent.sharesOverTick (placed : setup.program.Placed)
    (coherent : engine.Coherent setup []) : engine.SharesOverTick := by
  have tick := coherent.tick placed
  have polled := tick.coherent
  refine ⟨?_, ?_, ?_, ?_, ?_, ?_, ?_⟩
  · have same := coherent.same
    subst same
    exact held?_start placed
  · intro turn member
    obtain ⟨_, orderly⟩ := tick.orderly member
    refine ⟨?_, orderly.coherent.sharesInBalance⟩
    unfold turns at member
    rw [List.append_assoc] at member
    rcases List.mem_append.mp member with isLaunch | isOther
    · exact (coherent.launchTurns_share placed isLaunch).1
    · exact (coherent.otherTurns_share placed isOther).1
  · exact fun turn member => (coherent.launchTurns_share placed member).2
  · exact fun turn member key => coherent.launchTurns_keep placed member
  · exact fun turn member => (coherent.otherTurns_share placed member).2
  · intro front id back retiring
    have finished : ∀ other ∈ front ++ [id], other ∈ engine.polled.engine.retiring := by
      intro other member
      rw [retiring, ← List.singleton_append, ← List.append_assoc]
      exact List.mem_append_left _ member
    have after := (polled.retireAll finished).1.sharesInBalance
    rw [List.foldl_append] at after ⊢
    exact releases_retire after
  · intro turn member failed
    have finished := (mem_retiring_iff polled).mpr (tick.succession.finished_of_mem member failed)
    rw [find?_runTick, if_pos finished]

/-! ## Other calls of the host -/

/-- Shared variables in the other calls. A removal by the host frees what nothing refers to any
more, a run of ticks makes and frees what its ticks do, and the rest makes and frees nothing. -/
structure SharesOverCalls (engine : Engine) : Prop where
  terminates : ∀ id, (engine.terminate id).1 = true → Releases engine (engine.terminate id).2 id
  refuses : ∀ id, (engine.terminate id).1 = false → (engine.terminate id).2 = engine
  runs : ∀ maxTicks, ∃ count ≤ maxTicks,
    (engine.runUntilHalted maxTicks).2 = engine.performAll (List.replicate count .tick)
  others : ∀ call : HostCall, call ≠ .tick → (∀ maxTicks, call ≠ .run maxTicks) →
    (∀ id, call ≠ .terminate id) → ∀ key,
      (engine.perform call).2.world.shared.held? key = engine.world.shared.held? key

theorem Coherent.sharesOverCalls (placed : setup.program.Placed)
    (coherent : engine.Coherent setup []) : engine.SharesOverCalls where
  terminates := by
    intro id done
    have after := (coherent.terminate id).sharesInBalance
    unfold Engine.terminate at done after ⊢
    split at done
    · cases done
    · next removable =>
        rw [if_neg removable] at after ⊢
        have releases := releases_retire after
        exact ⟨releases.removed, releases.freed, releases.kept⟩
  refuses := by
    intro id refused
    unfold Engine.terminate at refused ⊢
    split at refused
    · next kept => rw [if_pos kept]
    · cases refused
  runs := fun maxTicks => runUntilHalted_eq maxTicks engine
  others := by
    intro call notTick notRun notTerminate key
    have same := coherent.same
    subst same
    cases call with
    | tick => exact absurd rfl notTick
    | run maxTicks => exact absurd rfl (notRun maxTicks)
    | terminate id => exact absurd rfl (notTerminate id)
    | start => exact held?_start placed key
    | launch machine =>
        simp only [Engine.perform]
        unfold Engine.launch
        split <;> rfl
    | assign id name value =>
        simp only [Engine.perform]
        cases accepted : engine.assignVariable id name value with
        | error refused => rfl
        | ok next =>
            obtain ⟨inst, slot, after, _, assigned, rfl⟩ := assignVariable_eq_ok accepted
            have quiet : Quiet engine.setup.program _ after := .of_writeSlot? assigned
            exact quiet.held key
    | clearOutput | advance | advanceSeconds | setClock => rfl

/-! ## Reachable engines -/

/-- Whatever a host does with a compiled program, shared variables and the references to them are
in balance between its calls, and every call makes and frees variables as it should. -/
theorem Reaches.shares_in_balance {options : CompileOptions} {tape : Tape}
    {compilation : Compilation} (compiled : tape.compile options = .ok compilation)
    {registry : Registry} {config : EngineConfig} {printer : Printer}
    (reached : (build compilation.program registry config printer).Reaches engine) :
    engine.SharesInBalance ∧ engine.SharesOverTick ∧ engine.SharesOverCalls := by
  have placed := Tape.compile_placed compiled
  have coherent := reached.coherent_of_compiled compiled
  exact ⟨coherent.sharesInBalance, coherent.sharesOverTick placed,
    coherent.sharesOverCalls placed⟩

open Token in
/-- The tape of `(machine m (shared n 1) (shared n 2) (state main (goto main))) (launch m)
(launch m)`. -/
def twiceShared : Tape :=
  Tape.ofTokens .empty
    (bracketed 0
        ([word "machine" 1, word "m" 9]
          ++ bracketed 11 [word "shared" 12, word "n" 19, ⟨.constant (.int 1), 21⟩] 22
          ++ bracketed 24 [word "shared" 25, word "n" 32, ⟨.constant (.int 2), 34⟩] 35
          ++ bracketed 37
            ([word "state" 38, word "main" 44] ++ bracketed 49 [word "goto" 50, word "main" 55] 59)
            60)
        61
      ++ bracketed 63 [word "launch" 64, word "m" 71] 72
      ++ bracketed 74 [word "launch" 75, word "m" 82] 83)

theorem shares_in_balance_twiceShared :
    ∃ compilation engine, twiceShared.compile {} = .ok compilation
      ∧ (build compilation.program .empty {} .empty).performAll [.tick] = engine
      ∧ engine.world.shared.value? (1, "n") = some (.int 1)
      ∧ engine.world.shared.holders (1, "n") = 4
      ∧ engine.SharesInBalance ∧ engine.SharesOverTick ∧ engine.SharesOverCalls := by
  refine ⟨_, _, rfl, rfl, by decide +kernel, by decide +kernel, ?_⟩
  have compiled : twiceShared.compile {} = .ok _ := rfl
  exact Reaches.shares_in_balance compiled ⟨[.tick], rfl⟩

end Engine

end MachineScript
