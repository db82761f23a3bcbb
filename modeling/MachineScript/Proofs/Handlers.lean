import MachineScript.Proofs.Points
import MachineScript.Proofs.Run.Firings
import MachineScript.Proofs.Waiting

/-!
Contract: the handlers of an instance that takes a turn.

Owns:
- what waits on a lexical stack: in each context handlers of its state, each once
  and in their order, also at every point of a turn;
- what a turn that enters a state leaves waiting, and what a poll leaves;
- the callbacks that a turn fires: they have waited, the world counts them, and
  no other handler runs.

Does not own: what happened before the turn.
-/

namespace MachineScript

/-! ## The contexts of a stack -/

namespace Program

variable {program : Program} {machine : ExemplarId}

/-- Whatever stands outside of a context has a smaller number. -/
theorem Lexical.lt_innermost (placed : program.Placed) {context : Context} {outer : List Context}
    (lexical : program.Lexical machine (context :: outer)) :
    ∀ other ∈ outer, other.exemplar < context.exemplar := by
  induction outer generalizing context with
  | nil => exact List.forall_mem_nil _
  | cons below rest inductionHypothesis =>
      obtain ⟨_, _, parent, outside⟩ := lexical
      have above : below.exemplar < context.exemplar := placed.parent _ _ parent
      refine List.forall_mem_cons.mpr ⟨above, ?_⟩
      exact fun other member => Nat.lt_trans (inductionHypothesis outside other member) above

/-- A state is at most once on a stack. -/
theorem Lexical.nodup (placed : program.Placed) {contexts : List Context}
    (lexical : program.Lexical machine contexts) :
    (contexts.map Context.exemplar).Nodup := by
  induction contexts with
  | nil => exact List.nodup_nil
  | cons context outer inductionHypothesis =>
      refine List.nodup_cons.mpr ⟨?_, inductionHypothesis lexical.2.2.2⟩
      intro again
      obtain ⟨other, member, same⟩ := List.mem_map.mp again
      exact Nat.ne_of_lt (lexical.lt_innermost placed other member) same

/-- The states in whose contexts something may wait are active. -/
theorem Lexical.mem_activeStates {inst : Instance} (lexical : program.Lexical machine inst.contexts)
    {waiting : ExemplarId × List Callback} (member : waiting ∈ inst.watch) :
    waiting.1 ∈ inst.activeStates := by
  obtain ⟨context, there, rfl⟩ := List.mem_map.mp member
  apply List.mem_reverse.mpr
  apply List.mem_map_of_mem
  apply List.mem_filter.mpr ⟨there, ?_⟩
  rw [lexical.isFrame_eq_false context there]
  rfl

end Program

namespace Instance

variable {inst : Instance} {program : Program}

/-- In every context handlers of its state wait, in their order. -/
def Listed (inst : Instance) (program : Program) : Prop :=
  ∀ waiting ∈ inst.watch,
    (waiting.2.map Callback.handler).Sublist (program.exemplar waiting.1).handlers

/-- Handlers that wait on a lexical stack are distinct. -/
theorem Listed.nodup (placed : program.Placed) (tree : program.IsTree)
    (listed : inst.Listed program) {machine : ExemplarId}
    (lexical : program.Lexical machine inst.contexts) :
    (handlersIn inst.watch).Nodup := by
  have states : (inst.watch.map Prod.fst).Nodup := by
    unfold watch
    rw [List.map_map]
    exact lexical.nodup placed
  unfold Listed at listed
  generalize inst.watch = watch at listed states ⊢
  induction watch with
  | nil => exact List.nodup_nil
  | cons first rest inductionHypothesis =>
      obtain ⟨here, outside⟩ := List.forall_mem_cons.mp listed
      obtain ⟨absent, others⟩ := List.nodup_cons.mp states
      unfold handlersIn
      rw [List.flatMap_cons, List.nodup_append]
      refine ⟨here.nodup (tree.nodup_handlers _), inductionHypothesis outside others, ?_⟩
      -- A handler stands inside one state only.
      intro handler inFirst other inRest same
      subst same
      obtain ⟨entry, member, callback, waits, rfl⟩ := mem_handlersIn_iff.mp inRest
      have firstParent := (tree.mem_handlers_iff.mp (here.subset inFirst)).1
      have otherParent := (tree.mem_handlers_iff.mp
        ((outside entry member).subset (List.mem_map_of_mem waits))).1
      have same : first.1 = entry.1 := Option.some.inj (firstParent.symm.trans otherParent)
      exact absent (same ▸ List.mem_map_of_mem member)

theorem watch_settle (inst : Instance) :
    inst.settle.watch = inst.watch ∨ inst.settle.watch = [] := by
  unfold settle
  split
  · exact .inl rfl
  · exact .inr rfl

end Instance

/-! ## At the points of a run -/

theorem Spares.listed {program : Program} {before after : Activation} (spares : Spares before after)
    (listed : before.inst.Listed program) : after.inst.Listed program := by
  unfold Instance.Listed
  rw [spares.watch]
  exact listed

theorem Instance.Listed.removeCallback {inst : Instance} {program : Program}
    (listed : inst.Listed program) (level index : Nat) :
    (inst.removeCallback level index).Listed program := by
  unfold Listed
  rw [watch_removeCallback]
  intro waiting member
  obtain ⟨place, there⟩ := List.getElem?_of_mem member
  rw [List.getElem?_modify] at there
  obtain ⟨entry, known, rfl⟩ := Option.map_eq_some_iff.mp there
  have before := listed entry (List.mem_of_getElem? known)
  split
  · exact ((List.eraseIdx_sublist _ _).map _).trans before
  · exact before

/-- Handlers that have been registered in a context without callbacks wait there in the order of
their state. -/
theorem Setup.registerHandlers_listed {setup : Setup} {state : ExemplarId}
    {front back : List ExemplarId} {arrived left : Activation}
    (listed : arrived.inst.Listed setup.program)
    (handlers : (setup.program.exemplar state).handlers = front ++ back)
    (ended : setup.registerHandlers front (arrived.enter state) = .ok () left) :
    left.inst.Listed setup.program := by
  have entered : (arrived.enter state).inst.watch = (state, []) :: arrived.inst.watch := rfl
  obtain ⟨added, registered, watch⟩ := (setup.registerHandlers_watch front entered).of_ok ended
  unfold Instance.Listed
  rw [watch]
  refine List.forall_mem_cons.mpr ⟨?_, listed⟩
  rw [List.nil_append, registered.handlers, handlers]
  exact List.sublist_append_left front back

theorem Errand.destination_listed {setup : Setup} {errand : Errand} {start arrived : Activation}
    {state : ExemplarId} (fresh : errand = .launch → start.inst.contexts = [])
    (listed : start.inst.Listed setup.program)
    (arrives : errand.destination setup start = .ok (some state) arrived) :
    arrived.inst.Listed setup.program := by
  have watch := ((Errand.destination_watch setup fresh).of_ok arrives state rfl).1
  unfold Instance.Listed
  rw [watch]
  exact fun waiting member => listed waiting ((List.dropWhile_sublist _).subset member)

theorem Setup.PollsAt.listed {setup : Setup} {start : Activation} {head : PollHead}
    (polls : setup.PollsAt start head) (listed : start.inst.Listed setup.program) :
    head.activation.inst.Listed setup.program := by
  obtain ⟨level, _, path⟩ := polls
  induction path with
  | refl => exact listed
  | @tail before _ _ follows inductionHypothesis =>
      cases follows with
      | skips | inward => exact inductionHypothesis
      | @fires _ callback _ _ _ _ _ ran =>
          have spares := (setup.runExemplar_spares callback.handler before.fire).of_ok ran
          exact spares.listed (inductionHypothesis.removeCallback before.level before.index)

namespace Point

variable {setup : Setup} {point next : Point}

/-- At every point of a run handlers wait in the order of their states. -/
theorem Begins.listed (begins : Begins setup point next) (sound : point.Sound setup)
    (listed : point.activation.inst.Listed setup.program) :
    next.activation.inst.Listed setup.program := by
  have kept := Spares.keptByRuns
  have calls := setup.callAtDepth_of_kept kept
  cases begins with
  | machine | condition | set | shared | inline => exact listed
  | registration arrives handlers before =>
      have fresh := fun isLaunch => (sound.fits.2 isLaunch).1
      exact Setup.registerHandlers_listed (Errand.destination_listed fresh listed arrives) handlers
        before
  | state arrives before =>
      have fresh := fun isLaunch => (sound.fits.2 isLaunch).1
      exact Setup.registerHandlers_listed (Errand.destination_listed fresh listed arrives)
        (List.append_nil _).symm before
  | handler polls => exact (polls.listed listed).removeCallback _ _
  | @instruction construct owner start current front back instruction value instructions before =>
      have spares := (kept.runInstructions calls _ .nil front start).of_ok before
      exact (spares.listed listed : current.inst.Listed setup.program)
  | @argument callee front back source start current values before
  | @call callee arguments start current values before =>
      exact ((kept.evalSources calls _ start).of_ok before).listed listed
  | @body callee arguments function start found arity room =>
      obtain ⟨exemplar, _, callbacks⟩ := Context.bind_keeps
        (Context.frame function (setup.program.exemplar function).isPure)
        (setup.program.exemplar function).parameters arguments
      refine List.forall_mem_cons.mpr ⟨?_, listed⟩
      change ((setup.frameOf function arguments).callbacks.map Callback.handler).Sublist _
      unfold Setup.frameOf
      rw [callbacks]
      exact List.nil_sublist _

end Point

namespace Engine

variable {setup : Setup} {engine before middle after : Engine} {turn : Turn}
  {turns past : List Turn} {due taken : List PendingTransition} {id : InstanceId}

/-! ## One turn -/

namespace Turn

/-- The callbacks that a turn fires, in order. -/
def firings (turn : Turn) : List Callback :=
  turn.errand.firings turn.engine.setup (turn.engine.starting turn.inst)

/-- A turn that has entered a state lets all its handlers wait in their order and from now on. What
waits further out is left alone, from the context on that holds the state. -/
structure Registers (turn : Turn) (program : Program) (state : ExemplarId)
    (callbacks : List Callback) (left : Activation) : Prop where
  ended : turn.run = .ok () left
  registered : Registered program turn.engine.world.now (program.exemplar state).handlers callbacks
  watch : left.inst.watch = (state, callbacks) :: turn.inst.watch.dropWhile fun waiting =>
    some waiting.1 ≠ (program.exemplar state).parent

/-- A poll enters no state. -/
theorem entered_of_poll (isPoll : turn.errand = .poll) : turn.entered = none := by
  cases entered : turn.entered with
  | none => rfl
  | some state =>
      have leads := leads_of_entered entered
      rw [isPoll] at leads
      cases leads

/-- Only polls fire. -/
theorem firings_of_entered {state : ExemplarId} (entered : turn.entered = some state) :
    turn.firings = [] := by
  have notPoll : turn.errand ≠ .poll := by
    intro isPoll
    rw [entered_of_poll isPoll] at entered
    cases entered
  unfold firings
  cases errand : turn.errand with
  | launch | transition => rfl
  | poll => exact absurd errand notPoll

theorem registers_of_entered (begins : turn.Begins before) {state : ExemplarId}
    (entered : turn.entered = some state) {left : Activation} (ended : turn.run = .ok () left) :
    ∃ callbacks, turn.Registers before.setup.program state callbacks left := by
  have fresh : turn.errand = .launch → turn.inst.contexts = [] := by
    intro isLaunch
    cases begins with
    | launch => rfl
    | resume inst errand other => exact absurd isLaunch other
  have runs := ended
  unfold Turn.run at runs
  rw [Errand.run_eq] at runs
  unfold Turn.entered at entered
  cases arrived : turn.errand.destination turn.engine.setup (turn.engine.starting turn.inst) with
  | error cause middle =>
      rw [arrived] at entered
      cases entered
  | ok destination middle =>
      rw [arrived] at entered
      cases entered
      obtain ⟨closed, now⟩ := (Errand.destination_watch _ fresh).of_ok arrived state rfl
      rw [Run.bind_of_ok arrived] at runs
      obtain ⟨callbacks, registered, watch⟩ :=
        (turn.engine.setup.enterState_watch state middle).of_ok runs
      rw [closed] at watch
      rw [now] at registered
      rw [← begins.sameSetup]
      exact ⟨callbacks, ended, registered, watch⟩

theorem Begins.lexical (begins : turn.Begins before) (coherent : before.Coherent setup due) :
    setup.program.Lexical turn.inst.machine turn.inst.contexts := by
  cases begins with
  | launch => trivial
  | resume inst errand _ found => exact (coherent.rests _ (Bindings.mem_of_find? found)).lexical

/-- What a turn fires has waited, once each. -/
theorem fires_of_mem (once : (handlersIn turn.inst.watch).Nodup) :
    (∀ callback ∈ turn.firings, ∃ waiting ∈ turn.inst.watch, callback ∈ waiting.2)
      ∧ (turn.firings.map Callback.handler).Nodup := by
  unfold firings
  cases turn.errand with
  | launch | transition => exact ⟨List.forall_mem_nil _, List.nodup_nil⟩
  | poll =>
      have fires :=
        @Setup.pollHandlers_fires turn.engine.setup (turn.engine.starting turn.inst) once
      cases ended : turn.engine.setup.pollHandlers (turn.engine.starting turn.inst) with
      | ok value left => exact ⟨(fires.of_ok ended).waited, (fires.of_ok ended).once⟩
      | error cause left => exact ⟨(fires.of_error ended).waited, (fires.of_error ended).once⟩

/-- After a poll what it has fired does not wait any more. -/
theorem watch_of_poll (once : (handlersIn turn.inst.watch).Nodup) (isPoll : turn.errand = .poll)
    {left : Activation} (ended : turn.run = .ok () left) :
    left.inst.watch = dismiss (turn.firings.map Callback.handler) turn.inst.watch := by
  unfold Turn.run at ended
  unfold firings
  rw [isPoll] at ended ⊢
  exact ((@Setup.pollHandlers_fires _ (turn.engine.starting turn.inst) once).of_ok ended).watch

/-- The world counts what a turn fires. -/
theorem fired_outcome (once : (handlersIn turn.inst.watch).Nodup) :
    turn.outcome.2.world.fired = turn.engine.world.fired + turn.firings.length := by
  have counts :=
    @Errand.run_fired turn.engine.setup (turn.engine.starting turn.inst) turn.errand once
  rcases activate_of_ends counts with ⟨left, counted, put⟩ | ⟨fault, left, counted, put⟩
  · unfold outcome
    rw [put]
    exact counted
  · unfold outcome
    rw [put]
    exact counted

/-- What waits for an instance in the table after its turn waited at the end of the run. -/
theorem Orderly.watch_cases (begins : turn.Begins before) (orderly : turn.Orderly setup taken)
    {inst : Instance} (found : turn.outcome.2.instances.find? turn.inst.id = some inst) :
    inst.watch = [] ∨ ∃ left, turn.run = .ok () left ∧ inst.watch = left.inst.watch := by
  cases ended : turn.run with
  | ok value left =>
      obtain ⟨settled, _⟩ := orderly.settles ended
      cases found.symm.trans settled
      exact left.inst.watch_settle.symm.imp_right fun same => ⟨left, rfl, same⟩
  | error cause left =>
      left
      by_cases same : (haltActivation left).inst.id = turn.inst.id
      · rw [outcome_of_error ended, find?_put _ same] at found
        cases found
        rfl
      · -- The instance would be as it was before its turn, though it has finished.
        obtain ⟨other, foundToo, retiring⟩ := orderly.fault (failed_of_error ended)
        cases found.symm.trans foundToo
        rw [outcome_of_error ended] at found
        change (turn.engine.instances.insert _ _).find? _ = _ at found
        rw [Bindings.find?_insert_other _ _ same, begins.table, begins.found] at found
        cases begins with
        | launch => cases found
        | resume running errand other _ unfinished =>
            rw [if_neg other] at found
            cases found
            exact absurd retiring unfinished

end Turn

/-! ## The turns of a tick -/

/-- The world counts what turns fire one after another. -/
theorem Succession.fired (succession : Succession setup before turns after)
    (once : ∀ turn ∈ turns, (handlersIn turn.inst.watch).Nodup) :
    after.world.fired = before.world.fired + (turns.flatMap Turn.firings).length := by
  induction succession with
  | done engine => rfl
  | more _ begins _ _ inductionHypothesis =>
      obtain ⟨here, later⟩ := List.forall_mem_cons.mp once
      rw [inductionHypothesis later, Turn.fired_outcome here, begins.world, List.flatMap_cons,
        List.length_append, Nat.add_assoc]

/-- No errand begins in the course of another part of a run. -/
theorem Enters.of_errand {first : Point} {errand : Errand} {start : Activation}
    (path : Relation.ReflTransGen (Point.Begins setup) first ⟨.errand errand, start⟩) :
    first = ⟨.errand errand, start⟩ := by
  rcases path.cases_tail with same | ⟨_, _, begins⟩
  · exact same.symm
  · cases begins

/-- A list of a handler runs only because a poll has fired the handler. -/
theorem Coherent.fires_of_passes (placed : setup.program.Placed)
    (coherent : engine.Coherent setup []) {handler : ExemplarId} {activation : Activation}
    (passes : engine.Passes ⟨.list .handler handler, activation⟩) :
    ∃ turn ∈ engine.turns, ∃ callback ∈ turn.firings, callback.handler = handler := by
  obtain ⟨first, enters, path⟩ := passes
  rcases path.cases_tail with same | ⟨last, earlier, begins⟩
  · cases same
    cases enters
  · cases begins with
    | @handler start head callback polls found satisfied =>
        cases Enters.of_errand earlier
        generalize reached : Point.mk (.errand .poll) start = point at enters
        cases enters with
        | root => cases reached
        | @turn turn member =>
            obtain ⟨isPoll, same⟩ := Point.mk.injEq _ _ _ _ ▸ reached
            obtain ⟨before, _, _, middle, begins, _⟩ :=
              (coherent.tick placed).succession.of_mem member
            refine ⟨turn, member, callback, ?_, rfl⟩
            unfold Turn.firings
            rw [← Activity.errand.inj isPoll, ← same, begins.sameSetup, middle.same,
              ← coherent.same]
            exact polls.mem_firings found satisfied
    | inline =>
        -- Values are assigned or handed on; neither is the list of a handler.
        rcases earlier.cases_tail with same | ⟨_, _, begins⟩
        · cases same
          cases enters
        · cases begins

end Engine

end MachineScript
