import MachineScript.Proofs.Handlers
import MachineScript.Proofs.Run.Failures
import MachineScript.Proofs.StaticScope

/-!
Contract: how a transition goes from one state to another.

Owns:
- the scopes in which the target is searched, and that the contexts that are
  closed are those inside the one whose state declares it;
- the activation in which the state that is entered starts to run: its own context
  is new, those that hold it are as they were, and its handlers wait;
- that a transition fails for want of a state just if no scope declares one.

Does not own: which transitions are due, and what the state does when it runs.
-/

namespace MachineScript

/-! ## The search and the closing -/

/-- Where the target of a transition is looked for, nearest first: in the active states and in
the machine. -/
def Instance.stateScopes (inst : Instance) : List ExemplarId :=
  inst.contexts.map Context.exemplar ++ [inst.machine]

namespace Setup

variable {setup : Setup} {inst : Instance} {target : String} {state : ExemplarId}

theorem findState_eq_findSome? (lexical : setup.program.Lexical inst.machine inst.contexts)
    (target : String) :
    setup.findState inst target
      = inst.stateScopes.findSome? fun scope => setup.program.nested? scope target .state := by
  have allStates : inst.contexts.filter (fun context => !context.isFrame) = inst.contexts := by
    apply List.filter_eq_self.mpr
    intro context member
    rw [lexical.isFrame_eq_false context member]
    rfl
  unfold findState
  rw [allStates]
  rfl

theorem findState_eq_none_iff (tree : setup.program.IsTree)
    (lexical : setup.program.Lexical inst.machine inst.contexts) :
    setup.findState inst target = none
      ↔ ∀ scope ∈ inst.stateScopes, ∀ other, ¬setup.program.Declares scope target .state other := by
  rw [findState_eq_findSome? lexical, List.findSome?_eq_none_iff]
  refine forall₂_congr fun scope _ => ?_
  rw [Option.eq_none_iff_forall_ne_some]
  exact forall_congr' fun other => not_congr (tree.nested?_eq_some_iff (.inr rfl))

/-- Closing contexts up to the one that holds what was found, one gets to where it was found: the
search has passed over what is closed, and over nothing else. -/
theorem search_closes {search : ExemplarId → Option ExemplarId} {machine : ExemplarId}
    {contexts : List Context} {parent : Option ExemplarId}
    (holds : ∀ scope, search scope = some state → parent = some scope)
    (found : (contexts.map Context.exemplar ++ [machine]).findSome? search = some state) :
    ∃ dropped kept, contexts = dropped ++ kept
      ∧ (contexts.dropWhile fun context => some context.exemplar ≠ parent) = kept
      ∧ search (Instance.holder machine kept) = some state
      ∧ ∀ context ∈ dropped, some context.exemplar ≠ parent ∧ search context.exemplar = none := by
  induction contexts with
  | nil =>
      rw [List.map_nil, List.nil_append, List.findSome?_singleton] at found
      exact ⟨[], [], rfl, rfl, found, List.forall_mem_nil _⟩
  | cons context outer inductionHypothesis =>
      rw [List.map_cons, List.cons_append, List.findSome?_cons] at found
      cases here : search context.exemplar with
      | some other =>
          rw [here] at found
          cases found
          refine ⟨[], context :: outer, rfl, ?_, here, List.forall_mem_nil _⟩
          exact List.dropWhile_cons_of_neg (by simp [holds _ here])
      | none =>
          rw [here] at found
          obtain ⟨dropped, kept, rfl, closed, there, passed⟩ := inductionHypothesis found
          -- What was found further out is held there, so this context is not its holder.
          have notHolder : some context.exemplar ≠ parent := by
            intro isParent
            have same := Option.some.inj (isParent.trans (holds _ there))
            rw [same, there] at here
            cases here
          refine ⟨context :: dropped, kept, rfl, ?_, there,
            List.forall_mem_cons.mpr ⟨⟨notHolder, here⟩, passed⟩⟩
          rwa [List.dropWhile_cons_of_pos (by simpa using notHolder)]

end Setup

/-! ## The way into a state -/

/-- An activation that has entered a state: the contexts that hold the state are left, and inside
of them is a new one without variables, in which so many callbacks wait. -/
def Activation.entering (start : Activation) (state : ExemplarId) (callbacks : List Callback)
    (kept : List Context) : Activation :=
  { start with
    inst :=
      { start.inst with
        contexts := { Context.state state with callbacks := callbacks } :: kept
        transitionQueued := false
        parked := false } }

namespace Setup

variable {setup : Setup} {start : Activation} {target : String} {state : ExemplarId}
  {kept : List Context}

/-- Registered handlers wait in the new context; nothing else changes. -/
theorem registerHandlers_entering (handlers : List ExemplarId) (callbacks : List Callback) :
    (setup.registerHandlers handlers).Ends (start.entering state callbacks kept)
      (fun _ left => ∃ added, Registered setup.program start.world.now handlers added
        ∧ left = start.entering state (callbacks ++ added) kept) fun _ => True := by
  induction handlers generalizing callbacks with
  | nil => exact ⟨[], .nil _ _, by rw [List.append_nil]⟩
  | cons handler rest inductionHypothesis =>
      rw [registerHandlers, Run.ends_bind]
      apply (registerHandler_ends handler _).mono _ fun _ _ => trivial
      rintro _ _ ⟨argument, rfl⟩
      have awaits : (start.entering state callbacks kept).await setup handler argument
          = start.entering state (callbacks
            ++ [⟨handler, (setup.program.exemplar handler).name, argument, start.world.now⟩])
            kept := rfl
      rw [awaits]
      apply (inductionHypothesis _).mono _ fun _ _ => trivial
      rintro _ left ⟨added, registered, rfl⟩
      refine ⟨_, registered.cons argument, ?_⟩
      rw [List.append_assoc]
      rfl

theorem transition_of_absent (absent : setup.findState start.inst target = none) :
    setup.transition target start = .error (.undefined .state target) start.unqueue := by
  have same : setup.findState start.unqueue.inst target = none := absent
  unfold transition
  rw [Run.bind_of_ok (rfl : Run.modifyInstance _ start = .ok () start.unqueue), Run.bind_get, same]
  rfl

/-- A transition that finds its target lets the handlers of the target wait, and runs it. -/
theorem transition_of_found (found : setup.findState start.inst target = some state) :
    setup.transition target start
      = (do
          setup.registerHandlers (setup.program.exemplar state).handlers
          let _ ← setup.runExemplar state)
        (start.entering state [] (start.inst.contexts.dropWhile fun context =>
          some context.exemplar ≠ (setup.program.exemplar state).parent)) := by
  have same : setup.findState start.unqueue.inst target = some state := found
  unfold transition
  rw [Run.bind_of_ok (rfl : Run.modifyInstance _ start = .ok () start.unqueue), Run.bind_get, same]
  rfl

/-- What a transition does that finds its target. The contexts inside the one that declares the
target are dropped. The others are kept as they are, and the target gets a new one, without
variables; then its handlers are registered, and only if that succeeds does it run. -/
structure Enters (setup : Setup) (target : String) (start : Activation) (state : ExemplarId)
    (dropped kept : List Context) : Prop where
  stack : start.inst.contexts = dropped ++ kept
  declares : ∀ other, setup.program.Declares (Instance.holder start.inst.machine kept) target
    .state other ↔ other = state
  passed : ∀ context ∈ dropped, context.exemplar ≠ Instance.holder start.inst.machine kept
    ∧ ∀ other, ¬setup.program.Declares context.exemplar target .state other
  outermost : kept = [] ↔ (setup.program.exemplar state).parent = some start.inst.machine
  fresh : ∀ context ∈ kept, context.exemplar ≠ state
  refused : ∀ cause left,
    setup.registerHandlers (setup.program.exemplar state).handlers (start.entering state [] kept)
        = .error cause left →
      setup.transition target start = .error cause left
  registered : ∀ ready,
    setup.registerHandlers (setup.program.exemplar state).handlers (start.entering state [] kept)
        = .ok () ready →
      (∃ callbacks, ready = start.entering state callbacks kept
        ∧ Registered setup.program start.world.now (setup.program.exemplar state).handlers
          callbacks
        ∧ (setup.runExemplar state).Ends ready
          (fun _ left => left.inst.watch = ready.inst.watch)
          (fun left => left.inst.watch = ready.inst.watch))
      ∧ setup.transition target start
        = match setup.runExemplar state ready with
          | .ok _ left => .ok () left
          | .error cause left => .error cause left

/-- How a transition goes on. It fails for want of a state, and for no other one than its target,
if none of the scopes that are searched declares the target; otherwise it enters a state. -/
structure Follows (setup : Setup) (target : String) (start : Activation) : Prop where
  missing : (∃ name left, setup.transition target start = .error (.undefined .state name) left)
    ↔ ∀ scope ∈ start.inst.stateScopes, ∀ other,
      ¬setup.program.Declares scope target .state other
  fails : (∀ scope ∈ start.inst.stateScopes, ∀ other,
      ¬setup.program.Declares scope target .state other) →
    setup.transition target start = .error (.undefined .state target) start.unqueue
  enters : (∃ scope ∈ start.inst.stateScopes, ∃ other,
      setup.program.Declares scope target .state other) →
    ∃ state dropped kept, setup.Enters target start state dropped kept

theorem enters_of_findState (placed : setup.program.Placed) (tree : setup.program.IsTree)
    (lexical : setup.program.Lexical start.inst.machine start.inst.contexts)
    (found : setup.findState start.inst target = some state) :
    ∃ dropped kept, setup.Enters target start state dropped kept := by
  have declared : ∀ {scope other}, setup.program.nested? scope target .state = some other
      ↔ setup.program.Declares scope target .state other := tree.nested?_eq_some_iff (.inr rfl)
  obtain ⟨dropped, kept, stack, closed, here, passed⟩ := search_closes
    (fun _ found => (declared.mp found).parent)
    ((findState_eq_findSome? lexical target).symm.trans found)
  have declares := declared.mp here
  have enters := transition_of_found found
  rw [closed] at enters
  have outside : setup.program.Lexical start.inst.machine kept :=
    closed ▸ lexical.dropWhile fun context =>
      some context.exemplar ≠ (setup.program.exemplar state).parent
  have entered : setup.program.Lexical start.inst.machine (Context.state state :: kept) :=
    ⟨rfl, declares.construct, declares.parent, outside⟩
  refine ⟨dropped, kept, stack, ?declares, ?passed, ?outermost, ?fresh, ?refused, ?registered⟩
  case declares =>
    intro other
    rw [← declared, here, Option.some.injEq]
    exact eq_comm
  case passed =>
    intro context member
    obtain ⟨notParent, absent⟩ := passed context member
    rw [declares.parent] at notParent
    refine ⟨fun same => notParent (congrArg some same), fun other elsewhere => ?_⟩
    cases absent.symm.trans (declared.mpr elsewhere)
  case outermost =>
    rw [declares.parent]
    constructor
    · rintro rfl
      rfl
    · intro isMachine
      cases kept with
      | nil => rfl
      | cons context outer =>
          have above := outside.machine_lt placed context List.mem_cons_self
          exact absurd (Option.some.inj isMachine) (Nat.ne_of_gt above)
  case fresh =>
    exact fun context member => Nat.ne_of_lt (entered.lt_innermost placed context member)
  case refused =>
    intro cause left failed
    rw [enters]
    exact Run.bind_of_error failed
  case registered =>
    intro ready succeeded
    obtain ⟨callbacks, registered, same⟩ := (registerHandlers_entering _ []).of_ok succeeded
    refine ⟨⟨callbacks, same, registered, ?_⟩, ?_⟩
    · exact (setup.runExemplar_spares state ready).mono (fun _ _ spares => spares.watch)
        fun _ spares => spares.watch
    · rw [enters, Run.bind_of_ok succeeded]
      cases ended : setup.runExemplar state ready with
      | ok value left => exact Run.bind_of_ok ended
      | error cause left => exact Run.bind_of_error ended

theorem follows (placed : setup.program.Placed) (tree : setup.program.IsTree)
    (lexical : setup.program.Lexical start.inst.machine start.inst.contexts) (target : String) :
    setup.Follows target start := by
  have fails : (∀ scope ∈ start.inst.stateScopes, ∀ other,
        ¬setup.program.Declares scope target .state other) →
      setup.transition target start = .error (.undefined .state target) start.unqueue :=
    fun absent => transition_of_absent ((findState_eq_none_iff tree lexical).mpr absent)
  refine ⟨⟨?_, fun absent => ⟨_, _, fails absent⟩⟩, fails, ?_⟩
  · rintro ⟨name, left, failed⟩
    rw [← findState_eq_none_iff tree lexical]
    by_contra isFound
    obtain ⟨state, found⟩ := Option.ne_none_iff_exists'.mp isFound
    rw [transition_of_found found] at failed
    have enters : SparesStates (do
        setup.registerHandlers (setup.program.exemplar state).handlers
        let _ ← setup.runExemplar state) :=
      (setup.registerHandlers_sparesStates _).bind fun _ =>
        (setup.runExemplar_sparesStates state).bind fun _ => .pure _
    cases enters.of_error failed
  · rintro ⟨scope, member, other, declares⟩
    cases found : setup.findState start.inst target with
    | none =>
        exact absurd declares ((findState_eq_none_iff tree lexical).mp found scope member other)
    | some state => exact ⟨state, enters_of_findState placed tree lexical found⟩

end Setup

/-! ## Reachable engines -/

namespace Engine

variable {engine : Engine}

/-- The turn of a transition follows it, and has a fault about a state just if the transition fails
for want of its target. -/
structure Turn.FollowsTransition (turn : Turn) (target : String) : Prop where
  run : turn.run = turn.engine.setup.transition target (turn.engine.starting turn.inst)
  follows : turn.engine.setup.Follows target (turn.engine.starting turn.inst)
  fault : (∃ name, turn.outcome.1.map InstanceFault.error = some (.undefined .state name))
    ↔ ∀ scope ∈ turn.inst.stateScopes, ∀ other,
      ¬turn.engine.setup.program.Declares scope target .state other

theorem Turn.followsTransition {turn : Turn} {target : String}
    (errand : turn.errand = .transition target)
    (follows : turn.engine.setup.Follows target (turn.engine.starting turn.inst)) :
    turn.FollowsTransition target := by
  have run : turn.run = turn.engine.setup.transition target (turn.engine.starting turn.inst) := by
    unfold Turn.run
    rw [errand]
    rfl
  refine ⟨run, follows, Iff.trans ?_ follows.missing⟩
  rw [← run]
  cases ended : turn.run with
  | ok value left =>
      rw [Turn.outcome_of_ok ended]
      simp
  | error cause left =>
      rw [Turn.outcome_of_error ended]
      simp

/-- Whatever a host does with a compiled program, each instance follows a transition to the state
that the nearest of its scopes declares, and drops what is active inside of that scope. -/
theorem Reaches.follows_transitions {options : CompileOptions} {tape : Tape}
    {compilation : Compilation} (compiled : tape.compile options = .ok compilation)
    {registry : Registry} {config : EngineConfig} {printer : Printer}
    (reached : (build compilation.program registry config printer).Reaches engine) :
    (∀ entry ∈ engine.instances, ∀ target,
        engine.setup.Follows target (engine.starting entry.2))
      ∧ ∀ turn ∈ engine.turns, ∀ target, turn.errand = .transition target →
        turn.FollowsTransition target := by
  obtain ⟨placed, tree⟩ := Tape.wellFormed_of_compile compiled
  have coherent := reached.coherent_of_compiled compiled
  constructor
  · intro entry there target
    rw [coherent.same]
    exact Setup.follows placed tree (coherent.rests entry there).lexical target
  · intro turn member target errand
    apply Turn.followsTransition errand
    rcases List.mem_append.mp member with isServiced | isPoll
    · rcases List.mem_append.mp isServiced with isLaunch | isTransition
      · rw [errand_of_mem_launchTurns isLaunch] at errand
        cases errand
      · obtain ⟨before, inst, due, _, rfl, here, there⟩ :=
          coherent.of_mem_transitionTurns placed isTransition
        change before.setup.Follows target (before.starting inst)
        rw [here.same]
        exact Setup.follows placed tree (here.rests _ there).lexical target
    · obtain ⟨before, inst, rfl, _⟩ := coherent.of_mem_pollTurns placed isPoll
      cases errand

open Token in
/-- The tape of `(machine m (state main (state next (set x 1) (goto next)) (goto next))
(state next ())) (launch m)`. -/
def shadowedState : Tape :=
  Tape.ofTokens .empty
    (bracketed 0
        ([word "machine" 1, word "m" 9]
          ++ bracketed 11
            ([word "state" 12, word "main" 18]
              ++ bracketed 23
                ([word "state" 24, word "next" 30]
                  ++ bracketed 35 [word "set" 36, word "x" 40, ⟨.constant (.int 1), 42⟩] 43
                  ++ bracketed 45 [word "goto" 46, word "next" 51] 55)
                56
              ++ bracketed 58 [word "goto" 59, word "next" 64] 68)
            69
          ++ bracketed 71 ([word "state" 72, word "next" 78] ++ bracketed 83 [] 84) 85)
        86
      ++ bracketed 88 [word "launch" 89, word "m" 96] 97)

theorem follows_transitions_shadowedState :
    ∃ compilation engine, shadowedState.compile {} = .ok compilation
      ∧ (build compilation.program .empty {} .empty).performAll [.tick, .tick] = engine
      ∧ engine.statePath 1 = ["main", "next"]
      ∧ ((engine.instances.find? 1).map Instance.transitionQueued) = some true
      ∧ (∀ entry ∈ engine.instances, ∀ target,
        engine.setup.Follows target (engine.starting entry.2))
      ∧ ∀ turn ∈ engine.turns, ∀ target, turn.errand = .transition target →
        turn.FollowsTransition target := by
  refine ⟨_, _, rfl, rfl, by decide +kernel, by decide +kernel, ?_⟩
  have compiled : shadowedState.compile {} = .ok _ := rfl
  exact Reaches.follows_transitions compiled ⟨[.tick, .tick], rfl⟩

end Engine

end MachineScript
