import MachineScript.Proofs.Chronicle
import MachineScript.Proofs.Handlers
import MachineScript.Proofs.Lowering

/-!
Contract: a handler fires at most once for each entry of its state, and never
after the state has been left.

Owns:
- the history of what waits: what was registered when the state was entered,
  less what has fired since, with the state active all the time;
- that this is so between all turns of a run, and that nothing else fires;
- how a tick registers and fires handlers.

Does not own: whether conditions hold.
-/

namespace MachineScript.Engine

variable {setup : Setup} {program : Program} {engine first before after : Engine}
  {turn opening : Turn} {past since front back : List Turn} {due taken : List PendingTransition}
  {id : InstanceId} {state : ExemplarId} {waiting : ExemplarId × List Callback}

/-! ## What becomes of a state -/

/-- The handlers that have fired in the turns of an instance, in order. -/
def firedIn (id : InstanceId) (turns : List Turn) : List ExemplarId :=
  (turns.filter fun turn => turn.inst.id = id).flatMap fun turn =>
    turn.firings.map Callback.handler

theorem firedIn_append (id : InstanceId) (past since : List Turn) :
    firedIn id (past ++ since) = firedIn id past ++ firedIn id since := by
  unfold firedIn
  rw [List.filter_append, List.flatMap_append]

theorem firedIn_of_own (own : turn.inst.id = id) :
    firedIn id [turn] = turn.firings.map Callback.handler := by
  unfold firedIn
  rw [List.filter_cons_of_pos (by simpa using own)]
  exact List.append_nil _

theorem firedIn_of_other (other : turn.inst.id ≠ id) : firedIn id [turn] = [] := by
  unfold firedIn
  rw [List.filter_cons_of_neg (by simpa using other)]
  rfl

/-- An instance is in a state after a turn. -/
def Turn.LeavesActive (turn : Turn) (id : InstanceId) (state : ExemplarId) : Prop :=
  ∃ inst, turn.outcome.2.instances.find? id = some inst ∧ state ∈ inst.activeStates

/-- An instance has entered a state in a turn, and since then it has neither left the state nor
entered it again. -/
structure Stays (id : InstanceId) (state : ExemplarId) (past : List Turn) (opening : Turn)
    (since : List Turn) : Prop where
  past : ∃ early, past = early ++ opening :: since
  own : opening.inst.id = id
  entered : opening.entered = some state
  active : opening.LeavesActive id state
  kept : ∀ turn ∈ since, turn.inst.id = id →
    turn.entered ≠ some state ∧ turn.LeavesActive id state

theorem Stays.later (stays : Stays id state past opening since)
    (keeps : turn.inst.id = id → turn.entered ≠ some state ∧ turn.LeavesActive id state) :
    Stays id state (past ++ [turn]) opening (since ++ [turn]) where
  past := by
    obtain ⟨early, rfl⟩ := stays.past
    exact ⟨early, List.append_assoc _ _ _⟩
  own := stays.own
  entered := stays.entered
  active := stays.active
  kept := List.forall_mem_append.mpr ⟨stays.kept, List.forall_mem_singleton.mpr keeps⟩

/-! ## The history of what waits -/

/-- What waits for an instance in the context of a state is what was registered when the state was
entered, less what has fired since. -/
def Awaits (program : Program) (id : InstanceId) (past : List Turn)
    (waiting : ExemplarId × List Callback) : Prop :=
  ∃ opening since registered left, Stays id waiting.1 past opening since
    ∧ opening.Registers program waiting.1 registered left
    ∧ waiting.2 = registered.filter fun callback => callback.handler ∉ firedIn id since

namespace Awaits

theorem opens {callbacks : List Callback} {left : Activation} (past : List Turn)
    (entered : turn.entered = some state) (active : turn.LeavesActive turn.inst.id state)
    (registers : turn.Registers program state callbacks left) :
    Awaits program turn.inst.id (past ++ [turn]) (state, callbacks) := by
  refine ⟨turn, [], callbacks, left, ⟨⟨past, rfl⟩, rfl, entered, active, List.forall_mem_nil _⟩,
    registers, ?_⟩
  symm
  apply List.filter_eq_self.mpr
  exact fun callback _ => decide_eq_true List.not_mem_nil

theorem later (awaits : Awaits program id past waiting)
    (keeps : turn.inst.id = id →
      turn.entered ≠ some waiting.1 ∧ turn.LeavesActive id waiting.1) :
    Awaits program id (past ++ [turn])
      (waiting.1, waiting.2.filter fun callback => callback.handler ∉ firedIn id [turn]) := by
  obtain ⟨opening, since, registered, left, stays, registers, same⟩ := awaits
  refine ⟨opening, since ++ [turn], registered, left, stays.later keeps, registers, ?_⟩
  simp only [same, firedIn_append, List.filter_filter, List.mem_append, not_or, Bool.decide_and,
    Bool.and_comm]

/-- A turn in which nothing fires for an instance leaves waiting what waits. -/
theorem later_of_quiet (awaits : Awaits program id past waiting) (quiet : firedIn id [turn] = [])
    (keeps : turn.inst.id = id →
      turn.entered ≠ some waiting.1 ∧ turn.LeavesActive id waiting.1) :
    Awaits program id (past ++ [turn]) waiting := by
  have later := awaits.later keeps
  have all : waiting.2.filter (fun callback => callback.handler ∉ firedIn id [turn])
      = waiting.2 := by
    rw [quiet]
    apply List.filter_eq_self.mpr
    exact fun callback _ => decide_eq_true List.not_mem_nil
  rwa [all] at later

theorem listed (awaits : Awaits program id past waiting) :
    (waiting.2.map Callback.handler).Sublist (program.exemplar waiting.1).handlers := by
  obtain ⟨opening, since, registered, left, _, registers, same⟩ := awaits
  rw [same, ← registers.registered.handlers]
  exact List.filter_sublist.map _

end Awaits

/-- Everything that waits in a table has its history. -/
def Ledger (engine : Engine) (program : Program) (past : List Turn) : Prop :=
  ∀ id inst, engine.instances.find? id = some inst → ∀ waiting ∈ inst.watch,
    Awaits program id past waiting

namespace Ledger

theorem listed (ledger : engine.Ledger program past) {inst : Instance}
    (found : engine.instances.find? id = some inst) : inst.Listed program :=
  fun waiting member => (ledger id inst found waiting member).listed

theorem idles (ledger : before.Ledger program past) (idles : before.Idles after) :
    after.Ledger program past := by
  intro id inst found waiting member
  rcases idles.table id inst found with ⟨_, empty⟩ | ⟨old, there, same⟩
  · unfold Instance.watch at member
    rw [empty] at member
    cases member
  · rw [← inst.watch_skeleton, same, old.watch_skeleton] at member
    exact ledger id old there waiting member

/-- What an instance has waiting when it takes a turn is what it has in the table. -/
theorem of_begins (ledger : before.Ledger program past) (begins : turn.Begins before) :
    ∀ waiting ∈ turn.inst.watch, Awaits program turn.inst.id past waiting := by
  cases begins with
  | launch => exact List.forall_mem_nil _
  | resume inst errand _ found => exact ledger inst.id inst found

/-- No handler waits twice for an instance that takes a turn. -/
theorem once (placed : setup.program.Placed) (tree : setup.program.IsTree)
    (ledger : before.Ledger setup.program past) (coherent : before.Coherent setup due)
    (begins : turn.Begins before) : (handlersIn turn.inst.watch).Nodup := by
  have listed : turn.inst.Listed setup.program :=
    fun waiting member => (ledger.of_begins begins waiting member).listed
  exact listed.nodup placed tree (begins.lexical coherent)

/-- What the instance of a turn has waiting when its run returns. -/
theorem of_ok (placed : setup.program.Placed) (tree : setup.program.IsTree)
    (ledger : before.Ledger setup.program past) (coherent : before.Coherent setup due)
    (begins : turn.Begins before) {left : Activation} (ended : turn.run = .ok () left)
    (active : ∀ waiting ∈ left.inst.watch, turn.LeavesActive turn.inst.id waiting.1)
    (once : (left.inst.watch.map Prod.fst).Nodup) :
    ∀ waiting ∈ left.inst.watch, Awaits setup.program turn.inst.id (past ++ [turn]) waiting := by
  have waits := ledger.of_begins begins
  by_cases isPoll : turn.errand = .poll
  · rw [Turn.watch_of_poll (ledger.once placed tree coherent begins) isPoll ended] at active ⊢
    intro waiting member
    have still := active waiting member
    obtain ⟨known, there, rfl⟩ := List.mem_map.mp member
    rw [← firedIn_of_own rfl]
    apply (waits known there).later
    exact fun _ => ⟨by simp [Turn.entered_of_poll isPoll], still⟩
  · obtain ⟨state, entered⟩ := Turn.entered_of_ok ended isPoll
    obtain ⟨callbacks, registers⟩ := Turn.registers_of_entered begins entered ended
    rw [coherent.same] at registers
    rw [registers.watch] at active once ⊢
    obtain ⟨here, outside⟩ := List.forall_mem_cons.mp active
    refine List.forall_mem_cons.mpr ⟨.opens past entered here registers, ?_⟩
    intro waiting member
    have quiet : firedIn turn.inst.id [turn] = [] := by
      rw [firedIn_of_own rfl, Turn.firings_of_entered entered]
      rfl
    apply (waits waiting ((List.dropWhile_sublist _).subset member)).later_of_quiet quiet
    -- A state that stays is not the one that is entered, for none is on the stack twice.
    intro _
    refine ⟨?_, outside waiting member⟩
    intro again
    have same : state = waiting.1 := Option.some.inj (entered.symm.trans again)
    exact (List.nodup_cons.mp once).1 (List.mem_map.mpr ⟨waiting, member, same.symm⟩)

theorem afterTurn (placed : setup.program.Placed) (tree : setup.program.IsTree)
    (ledger : before.Ledger setup.program past) (coherent : before.Coherent setup due)
    (begins : turn.Begins before) (orderly : turn.Orderly setup taken) :
    turn.outcome.2.Ledger setup.program (past ++ [turn]) := by
  intro id inst found
  by_cases own : turn.inst.id = id
  · subst own
    have lexical := (orderly.coherent.rests _ (Bindings.mem_of_find? found)).lexical
    rcases orderly.watch_cases begins found with empty | ⟨left, ended, same⟩
    · rw [empty]
      exact List.forall_mem_nil _
    · have active : ∀ waiting ∈ inst.watch, turn.LeavesActive turn.inst.id waiting.1 :=
        fun waiting member => ⟨inst, found, lexical.mem_activeStates member⟩
      have once : (inst.watch.map Prod.fst).Nodup := by
        unfold Instance.watch
        rw [List.map_map]
        exact lexical.nodup placed
      rw [same] at active once ⊢
      exact ledger.of_ok placed tree coherent begins ended active once
  · intro waiting member
    rw [orderly.find?_other own, begins.table] at found
    exact (ledger id inst found waiting member).later_of_quiet (firedIn_of_other own)
      fun same => absurd same own

end Ledger

/-- Through all of a run what waits has its history. -/
theorem Chronicle.ledger (placed : setup.program.Placed) (tree : setup.program.IsTree)
    (ledger : first.Ledger setup.program past) (chronicle : Chronicle setup first since after) :
    after.Ledger setup.program (past ++ since) := by
  induction chronicle with
  | opens => exact (List.append_nil past).symm ▸ ledger
  | idle _ idles inductionHypothesis => exact inductionHypothesis.idles idles
  | turn _ coherent begins orderly inductionHypothesis =>
      rw [← List.append_assoc]
      exact inductionHypothesis.afterTurn placed tree coherent begins orderly

/-- Nothing waits before the start. -/
theorem build_ledger (program : Program) (registry : Registry) (config : EngineConfig)
    (printer : Printer) : (build program registry config printer).Ledger program [] := by
  intro id inst found waiting member
  cases List.mem_singleton.mp (Bindings.mem_of_find? found)
  cases member

/-! ## A tick -/

/-- How the next tick deals with handlers.

The handlers of a state are those that stand directly inside it, in the order of their brackets,
which exemplars are numbered by. A turn that enters a state and does not fail has them all waiting
from the reading of the clock on; what has waited further out goes on waiting. At every point of a
run there wait, in each context, some of the handlers of its state, in their order. Whenever the
list of a handler runs, the handler has fired, and the tick reports how many have. -/
structure RegistersHandlers (engine : Engine) : Prop where
  ordered : ∀ state, (engine.setup.program.exemplar state).handlers.Pairwise (· < ·)
    ∧ ∀ handler, handler ∈ (engine.setup.program.exemplar state).handlers
      ↔ (engine.setup.program.exemplar handler).parent = some state
        ∧ (engine.setup.program.exemplar handler).construct = .handler
  enters : ∀ turn ∈ engine.turns, ∀ state, turn.entered = some state → turn.outcome.1 = none →
    ∃ callbacks left, turn.Registers engine.setup.program state callbacks left
      ∧ turn.engine.world.now = engine.clock.now
      ∧ turn.outcome.2.instances.find? turn.inst.id = some left.inst.settle
  listed : ∀ point, engine.Passes point → point.activation.inst.Listed engine.setup.program
  runs : ∀ handler activation, engine.Passes ⟨.list .handler handler, activation⟩ →
    ∃ turn ∈ engine.turns, ∃ callback ∈ turn.firings, callback.handler = handler
  counts : engine.runTick.1.callbacks = (engine.turns.flatMap Turn.firings).length

namespace Ledger

theorem of_mem_turns (placed : setup.program.Placed) (tree : setup.program.IsTree)
    (ledger : engine.Ledger setup.program past) (coherent : engine.Coherent setup [])
    (member : turn ∈ engine.turns) :
    ∃ before since due taken, before.Ledger setup.program since ∧ before.Coherent setup due
      ∧ turn.Begins before ∧ turn.Orderly setup taken := by
  obtain ⟨front, back, split⟩ := List.append_of_mem member
  have chronicle : Chronicle setup engine ([] ++ engine.turns) _ :=
    coherent.chronicle_tick placed .opens
  rw [List.nil_append, split] at chronicle
  obtain ⟨before, due, taken, earlier, middle, begins, orderly, _⟩ := chronicle.split
  exact ⟨before, _, due, taken, earlier.ledger placed tree ledger, middle, begins, orderly⟩

theorem listed_of_passes (placed : setup.program.Placed) (tree : setup.program.IsTree)
    (ledger : engine.Ledger setup.program past) (coherent : engine.Coherent setup [])
    (runsRoot : engine.RunsRoot) {point : Point} (passes : engine.Passes point) :
    point.activation.inst.Listed setup.program := by
  obtain ⟨start, enters, path⟩ := passes
  rw [coherent.same] at path
  induction path with
  | refl =>
      cases enters with
      | @root root _ found => exact (ledger.listed found : root.Listed setup.program)
      | turn member =>
          obtain ⟨before, since, _, _, there, _, begins, _⟩ :=
            ledger.of_mem_turns placed tree coherent member
          exact fun waiting waits => (there.of_begins begins waiting waits).listed
  | tail earlier begins inductionHypothesis =>
      have passed : engine.Passes _ := ⟨start, enters, coherent.same ▸ earlier⟩
      exact begins.listed (coherent.sound_of_passes placed tree runsRoot passed)
        inductionHypothesis

theorem registersHandlers (placed : setup.program.Placed) (tree : setup.program.IsTree)
    (sorted : ∀ state, (setup.program.exemplar state).handlers.Pairwise (· ≤ ·))
    (ledger : engine.Ledger setup.program past) (coherent : engine.Coherent setup [])
    (runsRoot : engine.RunsRoot) : engine.RegistersHandlers := by
  have same := coherent.same
  refine ⟨?_, ?_, ?_, ?_, ?_⟩
  · intro state
    rw [same]
    refine ⟨?_, fun handler => tree.mem_handlers_iff⟩
    exact (sorted state).imp₂ (fun _ _ below other => Nat.lt_of_le_of_ne below other)
      (tree.nodup_handlers state)
  · intro turn member state entered returned
    obtain ⟨before, _, _, _, _, middle, begins, orderly⟩ :=
      ledger.of_mem_turns placed tree coherent member
    cases ended : turn.run with
    | error cause left =>
        have failed := Turn.failed_of_error ended
        rw [returned] at failed
        cases failed
    | ok value left =>
        obtain ⟨callbacks, registers⟩ := Turn.registers_of_entered begins entered ended
        rw [middle.same, ← same] at registers
        exact ⟨callbacks, left, registers, coherent.now_of_mem_turns placed member,
          (orderly.settles ended).1⟩
  · intro point passes
    rw [same]
    exact ledger.listed_of_passes placed tree coherent runsRoot passes
  · exact fun handler activation passes => coherent.fires_of_passes placed passes
  · obtain ⟨instances, shared, ended⟩ := engine.runTick_eq
    have counted : engine.polled.engine.world.fired = _ :=
      (coherent.tick placed).succession.fired fun turn member => by
        obtain ⟨before, _, _, _, there, middle, begins, _⟩ :=
          ledger.of_mem_turns placed tree coherent member
        exact there.once placed tree middle begins
    calc
      engine.runTick.1.callbacks = engine.runTick.2.world.fired := rfl
      _ = engine.polled.engine.world.fired := by rw [ended]
      _ = 0 + (engine.turns.flatMap Turn.firings).length := counted
      _ = (engine.turns.flatMap Turn.firings).length := Nat.zero_add _

end Ledger

/-! ## A run -/

/-- What becomes of handlers in a run.

After the run, and before each of its turns, what waits for an instance is what was registered when
the instance entered the state, with the time of then, less what has fired since, and the instance
has been in the state all the time. A turn fires no handler twice, and only what has been registered
like that and has not fired since. An instance that fails, that has nothing left to wait for or that
is not there between two calls takes no turn any more. -/
structure HandlesOnce (engine : Engine) (calls : List HostCall) : Prop where
  waits : (engine.performAll calls).Ledger engine.setup.program (engine.turnsIn calls)
  before : ∀ front turn back, engine.turnsIn calls = front ++ turn :: back →
    turn.engine.Ledger engine.setup.program front
  fires : ∀ front turn back, engine.turnsIn calls = front ++ turn :: back →
    (turn.firings.map Callback.handler).Nodup ∧ ∀ callback ∈ turn.firings,
      ∃ state opening since registered left, Stays turn.inst.id state front opening since
        ∧ opening.Registers engine.setup.program state registered left
        ∧ callback ∈ registered ∧ callback.handler ∉ firedIn turn.inst.id since
  ends : ∀ front turn back, engine.turnsIn calls = front ++ turn :: back →
    turn.outcome.1.isSome = true ∨ turn.EndsIdle → ∀ later ∈ back, later.inst.id ≠ turn.inst.id
  gone : ∀ early late, calls = early ++ late → ∀ id < (engine.performAll early).nextId,
    (engine.performAll early).instances.find? id = none →
    ∀ turn ∈ (engine.performAll early).turnsIn late, turn.inst.id ≠ id

/-- What fires has its history. -/
theorem Ledger.fires (placed : setup.program.Placed) (tree : setup.program.IsTree)
    (ledger : before.Ledger setup.program past) (coherent : before.Coherent setup due)
    (begins : turn.Begins before) :
    (turn.firings.map Callback.handler).Nodup ∧ ∀ callback ∈ turn.firings,
      ∃ state opening since registered left, Stays turn.inst.id state past opening since
        ∧ opening.Registers setup.program state registered left
        ∧ callback ∈ registered ∧ callback.handler ∉ firedIn turn.inst.id since := by
  obtain ⟨waited, once⟩ := Turn.fires_of_mem (ledger.once placed tree coherent begins)
  refine ⟨once, ?_⟩
  intro callback fired
  obtain ⟨waiting, member, waits⟩ := waited callback fired
  obtain ⟨opening, since, registered, left, stays, registers, same⟩ :=
    ledger.of_begins begins waiting member
  rw [same, List.mem_filter] at waits
  exact ⟨waiting.1, opening, since, registered, left, stays, registers, waits.1,
    of_decide_eq_true waits.2⟩

theorem Coherent.handlesOnce (placed : setup.program.Placed) (tree : setup.program.IsTree)
    (coherent : engine.Coherent setup []) (nothing : engine.Ledger setup.program [])
    (calls : List HostCall) : engine.HandlesOnce calls := by
  have chronicle : Chronicle setup engine (engine.turnsIn calls) _ :=
    coherent.chronicle placed calls .opens
  have same := coherent.same
  subst same
  refine ⟨chronicle.ledger placed tree nothing, ?_, ?_, ?_, ?_⟩
  · intro front turn back split
    rw [split] at chronicle
    obtain ⟨before, _, _, earlier, middle, begins, _, _⟩ := chronicle.split
    have ledger := earlier.ledger placed tree nothing
    intro id inst found
    rw [begins.table] at found
    exact ledger id inst found
  · intro front turn back split
    rw [split] at chronicle
    obtain ⟨before, _, _, earlier, middle, begins, _, _⟩ := chronicle.split
    exact (earlier.ledger placed tree nothing).fires placed tree middle begins
  · intro front turn back split ending
    rw [split] at chronicle
    obtain ⟨_, _, _, _, _, _, orderly, rest⟩ := chronicle.split
    exact (rest.spent (of_decide_eq_false orderly.notRoot) (orderly.spent_own ending)).2
  · rintro early late rfl id below absent turn member
    have reached : engine.Reaches (engine.performAll early) := ⟨early, rfl⟩
    have middle := (reached.coherent placed coherent).1
    have rest : Chronicle engine.setup _ ((engine.performAll early).turnsIn late) _ :=
      middle.chronicle placed late .opens
    by_cases isRoot : id = rootInstance
    · obtain ⟨front, back, split⟩ := List.append_of_mem member
      rw [split] at rest
      obtain ⟨_, _, _, _, _, _, orderly, _⟩ := rest.split
      exact isRoot ▸ of_decide_eq_false orderly.notRoot
    · refine (rest.spent isRoot ⟨below, ?_⟩).2 turn member
      rw [absent]
      exact nofun

/-- Whatever a host does with a compiled program, each tick registers the handlers of the states
that it enters, and each of them fires at most once and only as long as the state is active. -/
theorem build_handles_once {options : CompileOptions} {tape : Tape} {compilation : Compilation}
    (compiled : tape.compile options = .ok compilation) (registry : Registry)
    (config : EngineConfig) (printer : Printer) (calls : List HostCall) :
    ((build compilation.program registry config printer).performAll calls).RegistersHandlers
      ∧ (build compilation.program registry config printer).HandlesOnce calls := by
  obtain ⟨placed, tree⟩ : (Setup.mk compilation.program registry config).program.WellFormed :=
    Tape.wellFormed_of_compile compiled
  have first := build_coherent compilation.program registry config printer
  have nothing := build_ledger compilation.program registry config printer
  have once := first.handlesOnce placed tree nothing calls
  have reached : (build compilation.program registry config printer).Reaches _ := ⟨calls, rfl⟩
  refine ⟨?_, once⟩
  apply Ledger.registersHandlers placed tree _ once.waits (reached.coherent_of_compiled compiled)
    (reached.runsRoot placed)
  intro state
  obtain ⟨forms, _, rfl⟩ := Tape.compile_eq_ok_iff.mp compiled
  exact Program.handlers_sorted_ofForms tape.interner forms state

open Token in
/-- The tape of `(machine m (state main (on always 0 (goto inner)) (on never 0 (set x 1))
(state inner (on always 0 (set y 1))))) (launch m)`. -/
def nestedHandlers : Tape :=
  Tape.ofTokens .empty
    (bracketed 0
        ([word "machine" 1, word "m" 9]
          ++ bracketed 11
            ([word "state" 12, word "main" 18]
              ++ bracketed 23
                ([word "on" 24, word "always" 27, ⟨.constant (.int 0), 34⟩]
                  ++ bracketed 36 [word "goto" 37, word "inner" 42] 47)
                48
              ++ bracketed 50
                ([word "on" 51, word "never" 54, ⟨.constant (.int 0), 60⟩]
                  ++ bracketed 62 [word "set" 63, word "x" 67, ⟨.constant (.int 1), 69⟩] 70)
                71
              ++ bracketed 73
                ([word "state" 74, word "inner" 80]
                  ++ bracketed 86
                    ([word "on" 87, word "always" 90, ⟨.constant (.int 0), 97⟩]
                      ++ bracketed 99 [word "set" 100, word "y" 104, ⟨.constant (.int 1), 106⟩] 107)
                    108)
                109)
            110)
        111
      ++ bracketed 113 [word "launch" 114, word "m" 121] 122)

/-- The transition to the inner state lets the handler of the outer one wait on, from the time of
the first tick. -/
theorem build_handles_once_nestedHandlers :
    ∃ compilation engine, nestedHandlers.compile {} = .ok compilation
      ∧ build compilation.program ((Registry.empty.withCondition "always" fun _ _ => .ok true)
          |>.withCondition "never" fun _ _ => .ok false) {} .empty = engine
      ∧ (engine.turnsIn [.tick, .advance (.ofNanos 5), .tick]).map
          (fun turn => (turn.errand, turn.firings.map Callback.handler))
        = [(.launch, []), (.poll, [3]), (.transition "inner", []), (.poll, [6])]
      ∧ ((engine.performAll [.tick, .advance (.ofNanos 5), .tick]).instances.find? 1).map
          Instance.watch
        = some [(5, []), (2, [⟨4, "never", .int 0, .zero⟩])]
      ∧ (engine.performAll [.tick, .advance (.ofNanos 5), .tick]).RegistersHandlers
      ∧ engine.HandlesOnce [.tick, .advance (.ofNanos 5), .tick] := by
  refine ⟨_, _, rfl, rfl, by decide +kernel, by decide +kernel, ?_⟩
  have compiled : nestedHandlers.compile {} = .ok _ := rfl
  exact build_handles_once compiled ((Registry.empty.withCondition "always" fun _ _ => .ok true)
    |>.withCondition "never" fun _ _ => .ok false) {} .empty [.tick, .advance (.ofNanos 5), .tick]

end MachineScript.Engine
