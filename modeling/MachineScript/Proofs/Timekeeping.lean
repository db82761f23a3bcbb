import MachineScript.Proofs.OneShot

/-!
Contract: the time that handlers are told to have waited.

Owns:
- that no call of the host moves the clock back, and that an engine reads it
  when it starts and at each tick;
- that nothing waits from a time on that has not come yet, so that a condition
  is shown the span between the tick that entered the state and the present
  tick, exactly, and never a shorter one than before.

Does not own: what conditions make of the time.
-/

namespace MachineScript

/-! ## Clocks -/

namespace ManualClock

theorem now_le_advance (clock : ManualClock) (span : Duration) :
    clock.now.nanos ≤ (clock.advance span).now.nanos := by
  have bound := clock.now.inRange
  rw [advance, Duration.nanos_add]
  omega

/-- Whatever float it is, it does not turn the clock back. -/
theorem now_le_advanceSeconds (clock : ManualClock) (seconds : Float) :
    clock.now.nanos ≤ (clock.advanceSeconds seconds).now.nanos := by
  unfold advanceSeconds
  split
  · exact clock.now_le_advance _
  · exact Nat.le_refl _

theorem now_le_set (clock : ManualClock) (time : Duration) :
    clock.now.nanos ≤ (clock.set time).now.nanos := by
  unfold set
  split
  · next later => exact Nat.le_of_lt later
  · exact Nat.le_refl _

end ManualClock

/-! ## What a poll looks at -/

/-- What a poll comes to has waited since it began, and it is still the same time. -/
theorem Setup.PollsAt.waited {setup : Setup} {start : Activation} {head : PollHead}
    (polls : setup.PollsAt start head) :
    head.activation.world.now = start.world.now
      ∧ ∀ waiting ∈ head.activation.inst.watch, ∃ before ∈ start.inst.watch,
        waiting.2.Sublist before.2 := by
  obtain ⟨level, _, path⟩ := polls
  induction path with
  | refl => exact ⟨rfl, fun waiting member => ⟨waiting, member, .refl _⟩⟩
  | @tail before _ _ follows inductionHypothesis =>
      obtain ⟨now, waited⟩ := inductionHypothesis
      cases follows with
      | skips | inward => exact ⟨now, waited⟩
      | @fires _ callback _ _ left _ _ ran =>
          have spares := (setup.runExemplar_spares callback.handler before.fire).of_ok ran
          refine ⟨spares.now.trans now, ?_⟩
          intro waiting member
          change waiting ∈ left.inst.watch at member
          rw [spares.watch] at member
          change waiting ∈ (before.activation.inst.removeCallback before.level before.index).watch
            at member
          rw [Instance.watch_removeCallback] at member
          obtain ⟨place, there⟩ := List.getElem?_of_mem member
          rw [List.getElem?_modify] at there
          obtain ⟨entry, known, rfl⟩ := Option.map_eq_some_iff.mp there
          obtain ⟨first, memberFirst, fewer⟩ := waited entry (List.mem_of_getElem? known)
          refine ⟨first, memberFirst, ?_⟩
          split
          · exact (List.eraseIdx_sublist _ _).trans fewer
          · exact fewer

/-- The callback that a poll looks at has waited since it began. -/
theorem Setup.PollsAt.callback_waited {setup : Setup} {start : Activation} {head : PollHead}
    {callback : Callback} (polls : setup.PollsAt start head)
    (found : head.callback? = some callback) :
    ∃ waiting ∈ start.inst.watch, callback ∈ waiting.2 := by
  obtain ⟨context, there, present⟩ := Instance.exists_context_of_callback? found
  have member : (context.exemplar, context.callbacks) ∈ head.activation.inst.watch :=
    List.mem_map_of_mem (List.mem_of_getElem? there)
  obtain ⟨before, memberBefore, fewer⟩ := polls.waited.2 _ member
  exact ⟨before, memberBefore, fewer.subset (List.mem_of_getElem? present)⟩

namespace Engine

variable {setup : Setup} {engine before middle after ticked : Engine} {turn : Turn}
  {turns : List Turn} {taken : List PendingTransition} {id : InstanceId} {callback : Callback}

/-! ## How time passes -/

theorem Turn.Begins.clock (begins : turn.Begins before) : turn.engine.clock = before.clock := by
  cases begins <;> rfl

theorem Succession.clock (succession : Succession setup before turns after) :
    after.clock = before.clock := by
  induction succession with
  | done engine => rfl
  | more _ begins orderly _ inductionHypothesis =>
      obtain ⟨_, activation, _, _, _, put, _⟩ := orderly.put
      rw [inductionHypothesis, put]
      exact begins.clock

/-- A tick reads the clock and does not move it. -/
theorem Coherent.clock_runTick (placed : setup.program.Placed)
    (coherent : engine.Coherent setup []) :
    engine.runTick.2.clock = engine.clock ∧ engine.runTick.2.world.now = engine.clock.now := by
  have succession := (coherent.tick placed).succession
  obtain ⟨instances, shared, ended⟩ := engine.runTick_eq
  have unmoved : engine.opened.engine.clock = engine.clock := engine.start_keeps.2.2.2
  rw [ended]
  exact ⟨succession.clock.trans unmoved, succession.now.trans (congrArg ManualClock.now unmoved)⟩

/-- Only the first start reads the clock. -/
theorem Coherent.now_start (placed : setup.program.Placed) (coherent : engine.Coherent setup []) :
    engine.start.2.world.now = engine.world.now ∨ engine.start.2.world.now = engine.clock.now := by
  rcases coherent.start_cases placed with same | ⟨same, _⟩ | ⟨_, _, _, same, turns, _⟩
  · exact .inl (congrArg (·.world.now) same)
  · exact .inr (congrArg (·.world.now) same)
  · exact .inr ((congrArg (·.world.now) same).trans turns.now)

/-- The time of an engine has come already. -/
def IsCurrent (engine : Engine) : Prop :=
  engine.world.now.nanos ≤ engine.clock.now.nanos

/-- How time passes between two engines, with the engines that tick in between: neither the clock
nor the time that has been read from it goes back. -/
structure TimePasses (before after : Engine) (ticks : List Engine) : Prop where
  clock : before.clock.now.nanos ≤ after.clock.now.nanos
  now : before.world.now.nanos ≤ after.world.now.nanos
  current : after.IsCurrent
  read : ∀ ticked ∈ ticks, before.clock.now.nanos ≤ ticked.clock.now.nanos
    ∧ ticked.clock.now.nanos ≤ after.world.now.nanos
  ordered : ticks.Pairwise fun first later => first.clock.now.nanos ≤ later.clock.now.nanos

namespace TimePasses

variable {ticks later : List Engine}

/-- No time is read. -/
theorem of_unread (current : before.IsCurrent) (now : after.world.now = before.world.now)
    (clock : before.clock.now.nanos ≤ after.clock.now.nanos) : TimePasses before after [] := by
  refine ⟨clock, Nat.le_of_eq (congrArg Duration.nanos now.symm), ?_, List.forall_mem_nil _,
    .nil⟩
  unfold IsCurrent at current ⊢
  rw [now]
  exact Nat.le_trans current clock

theorem refl (current : engine.IsCurrent) : TimePasses engine engine [] :=
  .of_unread current rfl (Nat.le_refl _)

theorem trans (first : TimePasses before middle ticks) (second : TimePasses middle after later) :
    TimePasses before after (ticks ++ later) where
  clock := Nat.le_trans first.clock second.clock
  now := Nat.le_trans first.now second.now
  current := second.current
  read := List.forall_mem_append.mpr
    ⟨fun ticked member => (first.read ticked member).imp_right fun read =>
        Nat.le_trans read second.now,
      fun ticked member => (second.read ticked member).imp_left (Nat.le_trans first.clock)⟩
  ordered := by
    refine List.pairwise_append.mpr ⟨first.ordered, second.ordered, ?_⟩
    intro early isEarly late isLate
    calc
      early.clock.now.nanos ≤ middle.world.now.nanos := (first.read early isEarly).2
      _ ≤ middle.clock.now.nanos := first.current
      _ ≤ late.clock.now.nanos := (second.read late isLate).1

end TimePasses

namespace Coherent

theorem timePasses_tick (placed : setup.program.Placed) (coherent : engine.Coherent setup [])
    (current : engine.IsCurrent) : TimePasses engine engine.runTick.2 [engine] := by
  obtain ⟨clock, now⟩ := coherent.clock_runTick placed
  have readNow : engine.runTick.2.world.now.nanos = engine.clock.now.nanos :=
    congrArg Duration.nanos now
  refine ⟨Nat.le_of_eq (clock ▸ rfl), readNow ▸ current, ?_, ?_, List.pairwise_singleton _ _⟩
  · unfold IsCurrent
    rw [readNow, clock]
  · exact List.forall_mem_singleton.mpr ⟨Nat.le_refl _, Nat.le_of_eq readNow.symm⟩

theorem timePasses_run (placed : setup.program.Placed) (maxTicks : Nat) {engine : Engine}
    (coherent : engine.Coherent setup []) (current : engine.IsCurrent) :
    TimePasses engine (engine.runUntilHalted maxTicks).2 (engine.ticksUntilHalted maxTicks) := by
  induction maxTicks generalizing engine with
  | zero => exact .refl current
  | succ maxTicks inductionHypothesis =>
      unfold runUntilHalted ticksUntilHalted
      split
      · exact .refl current
      · have ticks := coherent.timePasses_tick placed current
        exact ticks.trans (inductionHypothesis (coherent.runTick placed).1 ticks.current)

theorem timePasses_perform (placed : setup.program.Placed) (coherent : engine.Coherent setup [])
    (current : engine.IsCurrent) (call : HostCall) :
    TimePasses engine (engine.perform call).2 (engine.ticksOf call) := by
  cases call with
  | tick => exact coherent.timePasses_tick placed current
  | run maxTicks => exact coherent.timePasses_run placed maxTicks current
  | start =>
      have clock : engine.start.2.clock = engine.clock := engine.start_keeps.2.2.2
      rcases coherent.now_start placed with unread | read
      · exact .of_unread current unread (Nat.le_of_eq (clock ▸ rfl))
      · have readNow : engine.start.2.world.now.nanos = engine.clock.now.nanos :=
          congrArg Duration.nanos read
        refine ⟨Nat.le_of_eq (clock ▸ rfl), ?_, ?_, List.forall_mem_nil _, .nil⟩
        · exact readNow ▸ current
        · change engine.start.2.world.now.nanos ≤ engine.start.2.clock.now.nanos
          rw [readNow, clock]
  | launch machine =>
      simp only [perform, Engine.launch]
      split <;> exact .of_unread current rfl (Nat.le_refl _)
  | terminate id =>
      simp only [perform]
      rcases engine.terminate_cases id with refused | ⟨_, _, removed⟩
      · rw [refused]
        exact .refl current
      · rw [removed]
        unfold Engine.retire
        split <;> exact .of_unread current rfl (Nat.le_refl _)
  | assign id name value =>
      simp only [perform]
      cases accepted : engine.assignVariable id name value with
      | error refused => exact .refl current
      | ok next =>
          obtain ⟨inst, slot, written, _, assigned, rfl⟩ := assignVariable_eq_ok accepted
          have spares := Spares.of_skeleton (Activation.skeleton_writeSlot? assigned)
          exact .of_unread current spares.now (Nat.le_refl _)
  | clearOutput => exact .of_unread current rfl (Nat.le_refl _)
  | advance span => exact .of_unread current rfl (engine.clock.now_le_advance span)
  | advanceSeconds seconds =>
      exact .of_unread current rfl (engine.clock.now_le_advanceSeconds seconds)
  | setClock time => exact .of_unread current rfl (engine.clock.now_le_set time)

theorem timePasses (placed : setup.program.Placed) (calls : List HostCall) {engine : Engine}
    (coherent : engine.Coherent setup []) (current : engine.IsCurrent) :
    TimePasses engine (engine.performAll calls) (engine.ticksIn calls) := by
  induction calls generalizing engine with
  | nil => exact .refl current
  | cons call rest inductionHypothesis =>
      have next := ((engine.perform_moves call).coherent placed coherent).1
      have passes := coherent.timePasses_perform placed current call
      exact passes.trans (inductionHypothesis next passes.current)

/-- The engines that tick in a run are coherent. -/
theorem of_mem_ticksUntilHalted (placed : setup.program.Placed) (maxTicks : Nat) {engine : Engine}
    (coherent : engine.Coherent setup []) :
    ∀ ticked ∈ engine.ticksUntilHalted maxTicks, ticked.Coherent setup [] := by
  induction maxTicks generalizing engine with
  | zero => exact List.forall_mem_nil _
  | succ maxTicks inductionHypothesis =>
      unfold ticksUntilHalted
      split
      · exact List.forall_mem_nil _
      · exact List.forall_mem_cons.mpr
          ⟨coherent, inductionHypothesis (coherent.runTick placed).1⟩

theorem of_mem_ticksIn (placed : setup.program.Placed) (calls : List HostCall) {engine : Engine}
    (coherent : engine.Coherent setup []) :
    ∀ ticked ∈ engine.ticksIn calls, ticked.Coherent setup [] := by
  induction calls generalizing engine with
  | nil => exact List.forall_mem_nil _
  | cons call rest inductionHypothesis =>
      have next := ((engine.perform_moves call).coherent placed coherent).1
      refine List.forall_mem_append.mpr ⟨?_, inductionHypothesis next⟩
      cases call with
      | tick => exact List.forall_mem_singleton.mpr coherent
      | run maxTicks => exact coherent.of_mem_ticksUntilHalted placed maxTicks
      | start | launch | terminate | assign | clearOutput | advance | advanceSeconds | setClock =>
          exact List.forall_mem_nil _

end Coherent

/-! ## What conditions are shown -/

/-- The turn polls a handler, whose condition is shown a span of time. -/
def Turn.Shows (turn : Turn) (callback : Callback) (elapsed : Duration) : Prop :=
  turn.errand = .poll ∧ ∃ head,
    turn.engine.setup.PollsAt (turn.engine.starting turn.inst) head
      ∧ head.callback? = some callback
      ∧ elapsed = callback.waited head.activation.world.now

/-- The span runs from the registration of the handler to the reading of the clock. -/
theorem Turn.Shows.elapsed_eq {elapsed : Duration} (displays : turn.Shows callback elapsed)
    (placed : setup.program.Placed) (coherent : ticked.Coherent setup [])
    (member : turn ∈ ticked.turns) :
    elapsed.nanos = ticked.clock.now.nanos - callback.registeredAt.nanos := by
  obtain ⟨_, head, polls, _, rfl⟩ := displays
  have now : head.activation.world.now = ticked.clock.now :=
    polls.waited.1.trans (coherent.now_of_mem_turns placed member)
  rw [now, Callback.waited, Duration.nanos_sub]

/-- How a run keeps time. What waits has waited since a time that has come, and the time of the
engine is not ahead of the clock. A condition is shown exactly the time between the tick in which
the instance has entered the state, which it has not left since, and the present tick. What is
polled again later is not shown less. -/
structure KeepsTime (engine : Engine) (calls : List HostCall) : Prop where
  pending : ∀ id inst, (engine.performAll calls).instances.find? id = some inst →
    ∀ waiting ∈ inst.watch, ∀ callback ∈ waiting.2,
      callback.registeredAt.nanos ≤ (engine.performAll calls).world.now.nanos
  current : (engine.performAll calls).IsCurrent
  exactly : ∀ early ticked late, engine.ticksIn calls = early ++ ticked :: late →
    ∀ front turn back, ticked.turns = front ++ turn :: back →
    ∀ callback elapsed, turn.Shows callback elapsed →
      ∃ state opening since registered left,
        Stays turn.inst.id state (early.flatMap Engine.turns ++ front) opening since
          ∧ opening.Registers engine.setup.program state registered left
          ∧ callback ∈ registered
          ∧ ∃ entered ∈ early ++ [ticked], opening ∈ entered.turns
            ∧ elapsed.nanos + entered.clock.now.nanos = ticked.clock.now.nanos
  grows : ∀ early first middle second late,
    engine.ticksIn calls = early ++ first :: middle ++ second :: late →
    ∀ turn ∈ first.turns, ∀ later ∈ second.turns, ∀ callback elapsed longer,
      turn.Shows callback elapsed → later.Shows callback longer → elapsed.nanos ≤ longer.nanos

/-- What waits was registered in the turn that entered its state, at the time of then. -/
theorem Awaits.registered {program : Program} {past : List Turn}
    {waiting : ExemplarId × List Callback} (awaits : Awaits program id past waiting)
    (member : callback ∈ waiting.2) :
    ∃ opening since registered left, Stays id waiting.1 past opening since
      ∧ opening.Registers program waiting.1 registered left ∧ callback ∈ registered
      ∧ opening ∈ past ∧ callback.registeredAt = opening.engine.world.now := by
  obtain ⟨opening, since, registered, left, stays, registers, same⟩ := awaits
  rw [same] at member
  have before := (List.mem_filter.mp member).1
  obtain ⟨early, split⟩ := stays.past
  refine ⟨opening, since, registered, left, stays, registers, before, ?_,
    (registers.registered.since callback before).1⟩
  rw [split]
  exact List.mem_append_right _ List.mem_cons_self

/-- A handler whose condition is shown a span was registered when its state was entered. -/
theorem Coherent.registered_of_shows {past rest : List Turn} {calls : List HostCall}
    {elapsed : Duration} (placed : setup.program.Placed) (tree : setup.program.IsTree)
    (coherent : engine.Coherent setup []) (nothing : engine.Ledger setup.program [])
    (split : engine.turnsIn calls = past ++ turn :: rest)
    (displays : turn.Shows callback elapsed) :
    ∃ state opening since registered left, Stays turn.inst.id state past opening since
      ∧ opening.Registers setup.program state registered left ∧ callback ∈ registered
      ∧ opening ∈ past ∧ callback.registeredAt = opening.engine.world.now := by
  have chronicle : Chronicle setup engine (engine.turnsIn calls) _ :=
    coherent.chronicle placed calls .opens
  rw [split] at chronicle
  obtain ⟨before, _, _, earlier, _, begins, _, _⟩ := chronicle.split
  obtain ⟨_, head, polls, found, _⟩ := displays
  obtain ⟨waiting, memberWaiting, waits⟩ := polls.callback_waited found
  have ledger := earlier.ledger placed tree nothing
  rw [List.nil_append] at ledger
  obtain ⟨opening, since, registered, left, stays, registers, isRegistered, isPast, time⟩ :=
    (ledger.of_begins begins waiting memberWaiting).registered waits
  exact ⟨waiting.1, opening, since, registered, left, stays, registers, isRegistered, isPast, time⟩

theorem Coherent.keepsTime (placed : setup.program.Placed) (tree : setup.program.IsTree)
    (coherent : engine.Coherent setup []) (nothing : engine.Ledger setup.program [])
    (current : engine.IsCurrent) (calls : List HostCall) : engine.KeepsTime calls := by
  have passes := coherent.timePasses placed calls current
  have ticks := coherent.of_mem_ticksIn placed calls
  have ordered := passes.ordered
  refine ⟨?_, passes.current, ?_, ?_⟩
  · intro id inst found waiting member callback waits
    have chronicle : Chronicle setup engine (engine.turnsIn calls) _ :=
      coherent.chronicle placed calls .opens
    obtain ⟨opening, _, _, _, _, _, _, past, since⟩ :=
      (chronicle.ledger placed tree nothing id inst found waiting member).registered waits
    obtain ⟨ticked, isTick, taken⟩ := List.mem_flatMap.mp past
    rw [since, (ticks ticked isTick).now_of_mem_turns placed taken]
    exact (passes.read ticked isTick).2
  · intro early ticked late split front turn back cut callback elapsed displays
    have isTick : ticked ∈ engine.ticksIn calls :=
      split ▸ List.mem_append_right _ List.mem_cons_self
    have member : turn ∈ ticked.turns := cut ▸ List.mem_append_right _ List.mem_cons_self
    have turns : engine.turnsIn calls = (early.flatMap Engine.turns ++ front)
        ++ turn :: (back ++ late.flatMap Engine.turns) := by
      simp only [turnsIn, split, cut, List.flatMap_append, List.flatMap_cons, List.append_assoc,
        List.cons_append]
    obtain ⟨state, opening, since, registered, left, stays, registers, isRegistered, past, time⟩ :=
      coherent.registered_of_shows placed tree nothing turns displays
    obtain ⟨entered, isEarly, taken⟩ : ∃ entered ∈ early ++ [ticked], opening ∈ entered.turns := by
      rcases List.mem_append.mp past with isEarly | isFront
      · obtain ⟨entered, there, taken⟩ := List.mem_flatMap.mp isEarly
        exact ⟨entered, List.mem_append_left _ there, taken⟩
      · exact ⟨ticked, List.mem_append_right _ List.mem_cons_self,
          cut ▸ List.mem_append_left _ isFront⟩
    have notLater : entered.clock.now.nanos ≤ ticked.clock.now.nanos := by
      rw [split, List.pairwise_append] at ordered
      rcases List.mem_append.mp isEarly with there | here
      · exact ordered.2.2 entered there ticked List.mem_cons_self
      · rw [List.mem_singleton.mp here]
    have isEntered : entered ∈ engine.ticksIn calls := by
      rw [split, List.append_cons]
      exact List.mem_append_left _ isEarly
    rw [(ticks entered isEntered).now_of_mem_turns placed taken] at time
    refine ⟨state, opening, since, registered, left, stays, coherent.same ▸ registers,
      isRegistered, entered, isEarly, taken, ?_⟩
    rw [displays.elapsed_eq placed (ticks ticked isTick) member, time]
    exact Nat.sub_add_cancel notLater
  · intro early first middle second late split turn member later memberLater callback elapsed longer
      displays displaysLater
    have isFirst : first ∈ engine.ticksIn calls := by simp [split]
    have isSecond : second ∈ engine.ticksIn calls := by simp [split]
    rw [split, List.pairwise_append] at ordered
    have notEarlier := ordered.2.2 first (by simp) second List.mem_cons_self
    rw [displays.elapsed_eq placed (ticks first isFirst) member,
      displaysLater.elapsed_eq placed (ticks second isSecond) memberLater]
    exact Nat.sub_le_sub_right notEarlier _

/-- Whatever a host does with a compiled program and its clock, the run keeps time. -/
theorem build_keeps_time {options : CompileOptions} {tape : Tape} {compilation : Compilation}
    (compiled : tape.compile options = .ok compilation) (registry : Registry)
    (config : EngineConfig) (printer : Printer) (calls : List HostCall) :
    (build compilation.program registry config printer).KeepsTime calls := by
  obtain ⟨placed, tree⟩ : (Setup.mk compilation.program registry config).program.WellFormed :=
    Tape.wellFormed_of_compile compiled
  exact (build_coherent _ registry config printer).keepsTime placed tree
    (build_ledger _ registry config printer) (Nat.le_refl _) calls

open Token in
/-- The tape of `(machine m (state main (on never 0 (set x 1)))) (launch m)`. -/
def waitingForever : Tape :=
  Tape.ofTokens .empty
    (bracketed 0
        ([word "machine" 1, word "m" 9]
          ++ bracketed 11
            ([word "state" 12, word "main" 18]
              ++ bracketed 23
                ([word "on" 24, word "never" 27, ⟨.constant (.int 0), 33⟩]
                  ++ bracketed 35 [word "set" 36, word "x" 40, ⟨.constant (.int 1), 42⟩] 43)
                44)
            45)
        46
      ++ bracketed 48 [word "launch" 49, word "m" 56] 57)

/-- A handler waits from the fifth nanosecond on, while the host tries to set the clock back and
moves it on to where it stops. -/
theorem build_keeps_time_waitingForever :
    ∃ compilation engine, waitingForever.compile {} = .ok compilation
      ∧ build compilation.program (Registry.empty.withCondition "never" fun _ _ => .ok false) {}
          .empty = engine
      ∧ ((engine.performAll [.advance (.ofNanos 5), .tick, .setClock (.ofNanos 3),
          .advance (.ofNanos maxNanos), .tick, .advance (.ofNanos 7), .tick]).instances.find? 1).map
          Instance.watch
        = some [(2, [⟨3, "never", .int 0, .ofNanos 5⟩])]
      ∧ (engine.ticksIn [.advance (.ofNanos 5), .tick, .setClock (.ofNanos 3),
          .advance (.ofNanos maxNanos), .tick, .advance (.ofNanos 7), .tick]).map (·.clock.now)
        = [.ofNanos 5, .ofNanos maxNanos, .ofNanos maxNanos]
      ∧ engine.KeepsTime [.advance (.ofNanos 5), .tick, .setClock (.ofNanos 3),
          .advance (.ofNanos maxNanos), .tick, .advance (.ofNanos 7), .tick] := by
  refine ⟨_, _, rfl, rfl, by decide +kernel, by decide +kernel, ?_⟩
  have compiled : waitingForever.compile {} = .ok _ := rfl
  exact build_keeps_time compiled (Registry.empty.withCondition "never" fun _ _ => .ok false) {}
    .empty _

end Engine

end MachineScript
