import MachineScript.Proofs.Reachable

/-!
Contract: the stack of an instance against the tree of its machine.

Owns:
- how deep the states of a machine are nested, which no lexical stack exceeds;
- between calls of the host and after each turn, lexical stacks for all
  instances, and none for the root;
- that a state which is entered belongs to the machine of the instance, and is
  the innermost one afterwards.

Does not own: which of several states of one name a transition finds.
-/

namespace MachineScript

/-! ## The nesting of states -/

namespace Program

variable {program : Program} {machine : ExemplarId}

def statesIn (program : Program) (id : ExemplarId) : List ExemplarId :=
  (List.range program.exemplars.size).filter fun state =>
    (program.exemplar state).construct = .state && (program.exemplar state).parent = some id

/-- How deep states are nested in an exemplar, counted down to so many levels. -/
def nestingWithin (program : Program) : (levels : Nat) → ExemplarId → Nat
  | 0, _ => 0
  | levels + 1, id =>
      ((program.statesIn id).map fun state => program.nestingWithin levels state + 1).max?.getD 0

/-- How deep the states of a machine are nested; there are no more levels than exemplars. -/
def nestingDepth (program : Program) (machine : ExemplarId) : Nat :=
  program.nestingWithin program.exemplars.size machine

/-- A state belongs to a machine if there are only states between the two. -/
def IsStateOf (program : Program) (state machine : ExemplarId) : Prop :=
  ∃ outer, program.Lexical machine (Context.state state :: outer)

theorem lt_size_of_isState {id : ExemplarId} (isState : (program.exemplar id).construct = .state) :
    id < program.exemplars.size := by
  by_contra beyond
  rw [exemplar_of_size_le (Nat.le_of_not_lt beyond)] at isState
  cases isState

theorem mem_statesIn_iff {state id : ExemplarId} :
    state ∈ program.statesIn id
      ↔ (program.exemplar state).construct = .state
        ∧ (program.exemplar state).parent = some id := by
  unfold statesIn
  simp only [List.mem_filter, List.mem_range, Bool.and_eq_true, decide_eq_true_iff,
    and_iff_right_iff_imp]
  exact fun isState => lt_size_of_isState isState.1

theorem lexical_append_singleton {inner : List Context} {outermost : Context} :
    program.Lexical machine (inner ++ [outermost])
      ↔ program.Lexical machine [outermost] ∧ program.Lexical outermost.exemplar inner := by
  induction inner with
  | nil => simp [Lexical]
  | cons context rest inductionHypothesis =>
      have holder : Instance.holder machine (rest ++ [outermost])
          = Instance.holder outermost.exemplar rest := by
        cases rest <;> rfl
      simp only [List.cons_append, Lexical, holder] at inductionHypothesis ⊢
      rw [inductionHypothesis]
      tauto

theorem Lexical.length_le_nestingWithin {contexts : List Context} {levels : Nat}
    (lexical : program.Lexical machine contexts) (bounded : contexts.length ≤ levels) :
    contexts.length ≤ program.nestingWithin levels machine := by
  -- The levels count from the machine in, so the list is taken apart at its outermost context.
  induction levels generalizing machine contexts with
  | zero => exact bounded
  | succ levels inductionHypothesis =>
      rcases contexts.eq_nil_or_concat with rfl | ⟨inner, outermost, rfl⟩
      · exact Nat.zero_le _
      · rw [List.concat_eq_append] at lexical bounded ⊢
        obtain ⟨⟨_, isState, parent, _⟩, inside⟩ := lexical_append_singleton.mp lexical
        rw [List.length_append, List.length_singleton] at bounded ⊢
        have deep := inductionHypothesis inside (by omega)
        have member : program.nestingWithin levels outermost.exemplar + 1
            ∈ (program.statesIn machine).map fun state => program.nestingWithin levels state + 1 :=
          List.mem_map_of_mem (mem_statesIn_iff.mpr ⟨isState, parent⟩)
        calc
          inner.length + 1 ≤ program.nestingWithin levels outermost.exemplar + 1 := by omega
          _ ≤ program.nestingWithin (levels + 1) machine := List.le_max?_getD_of_mem member

/-- Every context of a lexical stack stands for an exemplar with a greater number than the one
below it. -/
theorem Lexical.length_le_holder (placed : program.Placed) {contexts : List Context}
    (lexical : program.Lexical machine contexts) :
    contexts.length ≤ Instance.holder machine contexts := by
  induction contexts with
  | nil => exact Nat.zero_le machine
  | cons context outer inductionHypothesis =>
      obtain ⟨_, _, parent, rest⟩ := lexical
      have above : Instance.holder machine outer < context.exemplar := placed.parent _ _ parent
      exact Nat.succ_le_of_lt (Nat.lt_of_le_of_lt (inductionHypothesis rest) above)

/-- A lexical stack is not deeper than the states of its machine are nested. -/
theorem Lexical.length_le_nestingDepth (placed : program.Placed) {contexts : List Context}
    (lexical : program.Lexical machine contexts) :
    contexts.length ≤ program.nestingDepth machine := by
  apply lexical.length_le_nestingWithin
  cases contexts with
  | nil => exact Nat.zero_le _
  | cons context outer =>
      have high := lexical.length_le_holder placed
      exact Nat.le_of_lt (Nat.lt_of_le_of_lt high (lt_size_of_isState lexical.2.1))

end Program

/-! ## The states that are entered -/

theorem Errand.Leads.isState {setup : Setup} (placed : setup.program.Placed) {errand : Errand}
    {inst : Instance} {state : ExemplarId} (leads : errand.Leads setup inst (some state)) :
    (setup.program.exemplar state).construct = .state := by
  cases errand with
  | launch => exact (placed.nested leads).1
  | transition target => exact (Setup.holder_of_findState placed leads).1
  | poll => cases leads

/-- What an errand leads to belongs to the machine of the instance. -/
theorem Errand.Leads.isStateOf {setup : Setup} (placed : setup.program.Placed) {errand : Errand}
    {inst : Instance} {state : ExemplarId}
    (lexical : setup.program.Lexical inst.machine inst.contexts)
    (leads : errand.Leads setup inst (some state)) :
    setup.program.IsStateOf state inst.machine := by
  cases errand with
  | launch =>
      obtain ⟨isState, parent⟩ := placed.nested leads
      exact ⟨[], rfl, isState, parent, trivial⟩
  | transition target =>
      obtain ⟨isState, scope, parent, stands⟩ := Setup.holder_of_findState placed leads
      refine ⟨_, rfl, isState, ?_, lexical.dropWhile fun context =>
        some context.exemplar ≠ some scope⟩
      rw [holder_dropWhile stands]
      exact parent
  | poll => cases leads

/-- An errand leaves its instance's number alone on its way to the state that it enters. -/
theorem Errand.destination_id {setup : Setup} (placed : setup.program.Placed) {errand : Errand}
    {start : Activation}
    (isMachine : errand = .launch →
      (setup.program.exemplar start.inst.machine).construct = .machine) :
    (errand.destination setup).Ends start
      (fun destination left => destination.isSome = true → left.inst.id = start.inst.id)
      (fun _ => True) := by
  cases errand with
  | launch =>
      have runsOn : (setup.program.exemplar start.inst.machine).construct.suspends = false := by
        rw [isMachine rfl]
        rfl
      simp only [destination, Run.ends_bind, Run.ends_get]
      apply (Setup.runExemplar_calm placed runsOn start).mono _ fun _ _ => trivial
      intro _ left calm
      split
      · exact fun _ => calm.id
      · trivial
  | transition target =>
      simp only [destination, Run.ends_bind, Run.ends_get, Run.ends_modifyInstance]
      split
      · trivial
      · exact fun _ => rfl
  | poll =>
      simp only [destination, Run.ends_bind]
      exact Run.ends_of_forall _ (fun _ _ entered => absurd entered Bool.false_ne_true)
        fun _ => trivial

namespace Instance

theorem currentState_of_stack {inst : Instance} {state : ExemplarId}
    {below : List (ExemplarId × ContextKind)} (stack : inst.stack = (state, .state) :: below) :
    inst.currentState = some state := by
  unfold Instance.stack at stack
  unfold currentState
  cases contexts : inst.contexts with
  | nil =>
      rw [contexts] at stack
      cases stack
  | cons innermost outer =>
      rw [contexts, List.map_cons, List.cons.injEq, Prod.mk.injEq] at stack
      obtain ⟨⟨exemplar, kind⟩, _⟩ := stack
      have notFrame : innermost.isFrame = false := by
        unfold Context.isFrame
        rw [kind]
      rw [List.find?_cons_of_pos (by simp [notFrame]), Option.map_some, exemplar]

end Instance

namespace Engine

variable {setup : Setup} {engine : Engine} {taken : List PendingTransition}

/-- The state that a turn enters is the innermost one afterwards, unless the instance has
finished. -/
theorem Turn.current_of_entered {turn : Turn} (placed : turn.engine.setup.program.Placed)
    (notRoot : turn.inst.isRoot = false)
    (isMachine : turn.errand = .launch →
      (turn.engine.setup.program.exemplar turn.inst.machine).construct = .machine)
    {state : ExemplarId} (entered : turn.entered = some state)
    (isState : (turn.engine.setup.program.exemplar state).construct = .state) :
    ∃ after, turn.outcome.2.instances.find? turn.inst.id = some after
      ∧ (after.currentState = some state ∨ after.status = .retiring) := by
  unfold Turn.entered at entered
  split at entered
  · next destination left ended =>
      subst entered
      have id : (left.enter state).inst.id = turn.inst.id :=
        (Errand.destination_id placed isMachine).of_ok ended rfl
      have runs : turn.errand.run turn.engine.setup (turn.engine.starting turn.inst)
          = turn.engine.setup.enterState state left := by
        rw [Errand.run_eq]
        exact Run.bind_of_ok ended
      have ends : (turn.errand.run turn.engine.setup).Ends (turn.engine.starting turn.inst)
          (fun _ last => Settles (Still turn.engine.setup.program) (left.enter state) last)
          (Still turn.engine.setup.program (left.enter state)) := by
        unfold Run.Ends
        rw [runs]
        exact Setup.enterState_ends placed isState left
      obtain ⟨after, found, stands⟩ := stands_of_ends id notRoot ends
      exact ⟨after, found, stands.imp_left Instance.currentState_of_stack⟩
  · cases entered

/-! ## Between calls of the host and between turns -/

/-- Instances stand on lexical stacks, with no function call open; the root stands on none. -/
structure StandsLexically (engine : Engine) : Prop where
  root : ∀ inst, engine.instances.find? rootInstance = some inst → inst.contexts = []
  callDepth : ∀ entry ∈ engine.instances, entry.2.callDepth = 0
  machine : ∀ entry ∈ engine.instances, entry.1 ≠ rootInstance →
    (engine.setup.program.exemplar entry.2.machine).construct = .machine
  lexical : ∀ entry ∈ engine.instances,
    engine.setup.program.Lexical entry.2.machine entry.2.contexts
  bounded : ∀ entry ∈ engine.instances,
    entry.2.contexts.length ≤ engine.setup.program.nestingDepth entry.2.machine

/-- Instances stay in their machines, however long they run, and whatever a turn enters. -/
structure StaysInMachines (engine : Engine) : Prop where
  machine : ∀ later, engine.Reaches later → ∀ id inst after,
    engine.instances.find? id = some inst → later.instances.find? id = some after →
      after.machine = inst.machine
  turns : ∀ turn ∈ engine.turns, turn.outcome.2.StandsLexically
  entered : ∀ turn ∈ engine.turns, ∀ state, turn.entered = some state →
    engine.setup.program.IsStateOf state turn.inst.machine
      ∧ ∃ after, turn.outcome.2.instances.find? turn.inst.id = some after
        ∧ after.machine = turn.inst.machine
        ∧ (after.currentState = some state ∨ after.status = .retiring)

theorem Coherent.standsLexically (placed : setup.program.Placed)
    (coherent : engine.Coherent setup taken) : engine.StandsLexically := by
  have same := coherent.same
  subst same
  refine ⟨?_, ?_, ?_, ?_, ?_⟩
  · intro inst found
    have member := Bindings.mem_of_find? found
    have isRoot : inst.isRoot = true := decide_eq_true (coherent.ids _ member).1
    exact ((coherent.rests _ member).root isRoot).1
  · exact fun entry there => (coherent.rests entry there).callDepth
  · intro entry there notRoot
    apply (coherent.rests entry there).machine
    unfold Instance.isRoot
    rw [(coherent.ids entry there).1]
    exact decide_eq_false notRoot
  · exact fun entry there => (coherent.rests entry there).lexical
  · exact fun entry there => (coherent.rests entry there).lexical.length_le_nestingDepth placed

theorem Turn.Orderly.entered {turn : Turn} (placed : setup.program.Placed)
    (orderly : turn.Orderly setup taken) (same : turn.engine.setup = setup)
    (lexical : setup.program.Lexical turn.inst.machine turn.inst.contexts)
    (isMachine : turn.errand = .launch →
      (setup.program.exemplar turn.inst.machine).construct = .machine)
    {state : ExemplarId} (entered : turn.entered = some state) :
    setup.program.IsStateOf state turn.inst.machine
      ∧ ∃ after, turn.outcome.2.instances.find? turn.inst.id = some after
        ∧ after.machine = turn.inst.machine
        ∧ (after.currentState = some state ∨ after.status = .retiring) := by
  have leads := Turn.leads_of_entered entered
  obtain ⟨resumed, activation, queued, id, machine, put, turns⟩ := orderly.put
  have putBack := find?_put turn.engine (turns.id.trans id)
  rw [← put] at putBack
  subst same
  obtain ⟨outer, kind, isState, chain⟩ := leads.isStateOf placed lexical
  refine ⟨⟨outer, kind, isState, chain⟩, activation.inst, putBack, turns.machine.trans machine, ?_⟩
  obtain ⟨after, found, current⟩ := Turn.current_of_entered placed orderly.notRoot isMachine entered
    isState
  cases found.symm.trans putBack
  exact current

theorem Coherent.staysInMachines (placed : setup.program.Placed)
    (coherent : engine.Coherent setup []) : engine.StaysInMachines := by
  have tick := coherent.tick placed
  refine ⟨?_, ?_, ?_⟩
  · intro later reached id inst after found foundLater
    obtain ⟨_, follows⟩ := reached.coherent placed coherent
    have member := Bindings.mem_of_find? found
    rcases follows.machines _ (Bindings.mem_of_find? foundLater) with new | ⟨other, old, same⟩
    · exact absurd (coherent.ids _ member).2 (Nat.not_lt_of_le new)
    · have foundToo := (Bindings.find?_eq_some_iff coherent.distinct).mpr old
      cases found.symm.trans foundToo
      exact same
  · intro turn member
    obtain ⟨_, orderly⟩ := tick.orderly member
    exact orderly.coherent.standsLexically placed
  · intro turn member state entered
    obtain ⟨_, orderly⟩ := tick.orderly member
    rw [coherent.same]
    rcases List.mem_append.mp member with isServiced | isPoll
    · rcases List.mem_append.mp isServiced with isLaunch | isTransition
      · obtain ⟨progress, pending, rfl, here, isMachine⟩ :=
          coherent.of_mem_launchTurns placed isLaunch
        exact orderly.entered placed here.same trivial (fun _ => isMachine) entered
      · obtain ⟨before, inst, target, _, rfl, here, there⟩ :=
          coherent.of_mem_transitionTurns placed isTransition
        exact orderly.entered placed here.same (here.rests _ there).lexical nofun entered
    · obtain ⟨before, inst, rfl, _, here, there⟩ := coherent.of_mem_pollTurns placed isPoll
      exact orderly.entered placed here.same (here.rests _ there).lexical nofun entered

/-! ## Reachable engines -/

/-- Whatever a host does with a compiled program, instances stand on lexical stacks inside their
machines, which they never leave. -/
theorem Reaches.stands_lexically {options : CompileOptions} {tape : Tape}
    {compilation : Compilation} (compiled : tape.compile options = .ok compilation)
    {registry : Registry} {config : EngineConfig} {printer : Printer}
    (reached : (build compilation.program registry config printer).Reaches engine) :
    engine.StandsLexically ∧ engine.StaysInMachines := by
  have placed := Tape.compile_placed compiled
  have coherent := reached.coherent_of_compiled compiled
  exact ⟨coherent.standsLexically placed, coherent.staysInMachines placed⟩

open Token in
/-- The tape of `(machine m (state main (state inner (goto main)) (goto inner))) (launch m)`. -/
def nestedStates : Tape :=
  Tape.ofTokens .empty
    (bracketed 0
        ([word "machine" 1, word "m" 9]
          ++ bracketed 11
            ([word "state" 12, word "main" 18]
              ++ bracketed 23
                ([word "state" 24, word "inner" 30]
                  ++ bracketed 36 [word "goto" 37, word "main" 42] 46)
                47
              ++ bracketed 49 [word "goto" 50, word "inner" 55] 60)
            61)
        62
      ++ bracketed 64 [word "launch" 65, word "m" 72] 73)

theorem stands_lexically_nestedStates :
    ∃ compilation engine, nestedStates.compile {} = .ok compilation
      ∧ (build compilation.program .empty {} .empty).performAll [.tick, .tick] = engine
      ∧ engine.statePath 1 = ["main", "inner"] ∧ compilation.program.nestingDepth 1 = 2
      ∧ engine.StandsLexically ∧ engine.StaysInMachines := by
  refine ⟨_, _, rfl, rfl, by decide +kernel, by decide +kernel, ?_⟩
  have compiled : nestedStates.compile {} = .ok _ := rfl
  exact Reaches.stands_lexically compiled ⟨[.tick, .tick], rfl⟩

end Engine

end MachineScript
