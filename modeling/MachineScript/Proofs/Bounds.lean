import MachineScript.Proofs.CallDepth

/-!
Contract: whatever an engine looks up is there.

Owns:
- the exemplars that an engine names, between ticks and at each point of a tick,
  and the construct that it takes each of them for;
- the exemplars that it comes to from those: the ones around them, and the
  machines, states, functions and handlers inside them;
- that the program has all of these, and that they are what they are taken for;
- that the places at which a poll looks and the launches that a tick takes off
  the queue are there, and that what closes a call finds its frame.

Does not own: counters, and what library functions do.
-/

namespace MachineScript

/-! ## Exemplars that are named -/

/-- An instance takes exemplars for its machine, for what its contexts stand for, and for the
handlers that wait. -/
inductive Instance.Names (inst : Instance) : ExemplarId → Construct → Prop where
  | top (isRoot : inst.isRoot = true) : Names inst inst.machine .root
  | machine (notRoot : inst.isRoot = false) : Names inst inst.machine .machine
  | state {context : Context} (member : context ∈ inst.contexts)
      (notFrame : context.isFrame = false) : Names inst context.exemplar .state
  | function {context : Context} (member : context ∈ inst.contexts)
      (isFrame : context.isFrame = true) : Names inst context.exemplar .function
  | handler {context : Context} {callback : Callback} (member : context ∈ inst.contexts)
      (waits : callback ∈ context.callbacks) : Names inst callback.handler .handler

/-- So does an activation, for the machines that wait to be launched too. -/
inductive Activation.Names (activation : Activation) : ExemplarId → Construct → Prop where
  | inst {id : ExemplarId} {construct : Construct} (names : activation.inst.Names id construct) :
      Names activation id construct
  | launch {pending : PendingLaunch} (member : pending ∈ activation.world.launches) :
      Names activation pending.machine .machine

/-- What is about to be done takes an exemplar for a handler, for the owner of a list, or for an
inline call. -/
inductive Activity.Names : Activity → ExemplarId → Construct → Prop where
  | registration (handler : ExemplarId) : Names (.registration handler) handler .handler
  | list (construct : Construct) (owner : ExemplarId) :
      Names (.list construct owner) owner construct
  | value (construct : Construct) (id : ExemplarId) (callee : String) (arguments : List Source) :
      Names (.value construct (.nested id callee arguments)) id construct

def Point.Names (point : Point) (id : ExemplarId) (construct : Construct) : Prop :=
  point.activation.Names id construct ∨ point.activity.Names id construct

/-- An engine names the top of its program, and what its instances and its queue name. -/
inductive Engine.Names (engine : Engine) : ExemplarId → Construct → Prop where
  | top : Names engine Program.root .root
  | activation {entry : InstanceId × Instance} {id : ExemplarId} {construct : Construct}
      (member : entry ∈ engine.instances)
      (names : (Activation.mk engine.world entry.2).Names id construct) : Names engine id construct
  | launch {pending : PendingLaunch} (member : pending ∈ engine.world.launches) :
      Names engine pending.machine .machine

/-! ## Exemplars that are visited -/

/-- From the exemplars that are named, the ones around them are visited, and the ones that their
tables and their lists of handlers hold; each is taken for one of certain constructs. -/
inductive Program.Visits (program : Program) (names : ExemplarId → Construct → Prop) :
    ExemplarId → (Construct → Prop) → Prop where
  | named {id : ExemplarId} {construct : Construct} (named : names id construct) :
      Visits program names id (· = construct)
  | parent {owner id : ExemplarId} {expected : Construct → Prop}
      (visits : Visits program names owner expected)
      (around : (program.exemplar owner).parent = some id) : Visits program names id fun _ => True
  | nested {owner id : ExemplarId} {name : String} {expected : Construct → Prop}
      (visits : Visits program names owner expected)
      (inside : (name, id) ∈ (program.exemplar owner).machines) :
      Visits program names id fun construct => construct = .machine ∨ construct = .state
  | function {owner id : ExemplarId} {name : String} {expected : Construct → Prop}
      (visits : Visits program names owner expected)
      (inside : (name, id) ∈ (program.exemplar owner).functions) :
      Visits program names id (· = .function)
  | handler {owner id : ExemplarId} {expected : Construct → Prop}
      (visits : Visits program names owner expected)
      (inside : id ∈ (program.exemplar owner).handlers) : Visits program names id (· = .handler)

/-- A program has an exemplar of a number, and it is of one of certain constructs. -/
def Program.Has (program : Program) (id : ExemplarId) (expected : Construct → Prop) : Prop :=
  id < program.exemplars.size ∧ expected (program.exemplar id).construct

namespace Program

variable {program : Program}

theorem Stores.has {id : ExemplarId} {construct : Construct}
    (stores : program.Stores id construct) : program.Has id (· = construct) :=
  ⟨stores.inside, stores.construct⟩

/-- If a program has what is named, it has all that is visited from there. -/
theorem IsTree.has_of_visits (placed : program.Placed) (tree : program.IsTree)
    {names : ExemplarId → Construct → Prop} {id : ExemplarId} {expected : Construct → Prop}
    (stores : ∀ id construct, names id construct → program.Stores id construct)
    (visits : program.Visits names id expected) : program.Has id expected := by
  induction visits with
  | named named => exact (stores _ _ named).has
  | parent _ around inductionHypothesis =>
      obtain ⟨place, refers, _⟩ := tree.referred around
      exact ⟨Nat.lt_trans (tree.holds refers).before inductionHypothesis.1, trivial⟩
  | @nested owner id name _ _ inside =>
      have refers : (.machine name, id) ∈ (program.exemplar owner).content.references :=
        Content.mem_references_machine.mpr inside
      have member : ⟨owner, .machine name, id⟩ ∈ program.links := mem_links_iff.mpr refers
      exact ⟨tree.inRange _ member, (tree.holds refers).suits.2.imp And.left And.left⟩
  | @function owner id name _ _ inside =>
      have refers : (.function name, id) ∈ (program.exemplar owner).content.references :=
        Content.mem_references_function.mpr inside
      have isFunction := (tree.holds refers).suits.2.1
      exact (stores_of_construct isFunction (by decide)).has
  | @handler owner id _ _ inside =>
      have isHandler := (placed.content owner).handlers id inside
      exact (stores_of_construct isHandler (by decide)).has

/-- The states of a lexical stack are exemplars of states. -/
theorem Lexical.construct_eq {machine : ExemplarId} {states : List Context}
    (lexical : program.Lexical machine states) :
    ∀ context ∈ states, (program.exemplar context.exemplar).construct = .state := by
  induction states with
  | nil => exact List.forall_mem_nil _
  | cons context outer inductionHypothesis =>
      obtain ⟨_, isState, _, rest⟩ := lexical
      exact List.forall_mem_cons.mpr ⟨isState, inductionHypothesis rest⟩

end Program

/-! ## What is named is there -/

/-- A context of an instance that runs is a frame of a function, or one of a state. -/
theorem Instance.Stands.construct_eq {inst : Instance} {program : Program}
    (stands : inst.Stands program) {context : Context} (member : context ∈ inst.contexts) :
    (program.exemplar context.exemplar).construct
      = if context.isFrame then .function else .state := by
  obtain ⟨frames, states, layered, _⟩ := stands
  rw [layered.contexts] at member
  rcases List.mem_append.mp member with isInner | isState
  · obtain ⟨isFrame, isFunction⟩ := layered.functions context isInner
    rw [isFrame, isFunction, if_pos rfl]
  · rw [layered.lexical.isFrame_eq_false context isState,
      layered.lexical.construct_eq context isState, if_neg Bool.false_ne_true]

/-- An instance that runs names exemplars of its program. -/
theorem Activation.Runs.stores {program : Program} {activation : Activation}
    (tree : program.IsTree) (runs : activation.Runs program) {id : ExemplarId}
    {construct : Construct} (names : activation.Names id construct) :
    program.Stores id construct := by
  cases names with
  | launch member => exact Program.stores_of_construct (runs.launches _ member) (by decide)
  | inst names =>
      cases names with
      | top isRoot =>
          rw [runs.root isRoot]
          exact ⟨tree.top.1, tree.top.2.1⟩
      | machine notRoot => exact Program.stores_of_construct (runs.machine notRoot) (by decide)
      | state member notFrame =>
          have isState := runs.stands.construct_eq member
          rw [if_neg (notFrame ▸ Bool.false_ne_true)] at isState
          exact Program.stores_of_construct isState (by decide)
      | function member isFrame =>
          have isFunction := runs.stands.construct_eq member
          rw [if_pos isFrame] at isFunction
          exact Program.stores_of_construct isFunction (by decide)
      | handler member waits =>
          exact Program.stores_of_construct (runs.handlers _ member _ waits) (by decide)

/-- So does every sound point. -/
theorem Point.Sound.stores {point : Point} {setup : Setup} (tree : setup.program.IsTree)
    (sound : point.Sound setup) {id : ExemplarId} {construct : Construct}
    (names : point.Names id construct) : setup.program.Stores id construct := by
  obtain ⟨activity, activation⟩ := point
  rcases names with ofActivation | ofActivity
  · exact sound.runs.stores tree ofActivation
  · cases ofActivity with
    | registration => exact Program.stores_of_construct sound.fits (by decide)
    | list => exact sound.fits
    | value => exact sound.fits.1

namespace Engine

variable {engine : Engine} {setup : Setup}

/-- What holds where an instance runs holds of it between ticks as well. -/
theorem Coherent.runs_of_mem (coherent : engine.Coherent setup []) (runsRoot : engine.RunsRoot)
    {entry : InstanceId × Instance} (member : entry ∈ engine.instances) :
    (Activation.mk engine.world entry.2).Runs setup.program := by
  have rests := coherent.rests entry member
  refine ⟨Instance.stands_of_lexical rests.callDepth rests.lexical, ?_, rests.machine,
    rests.handlers, coherent.launches⟩
  intro isRoot
  have id : entry.1 = rootInstance := (coherent.ids entry member).1.symm.trans
    (of_decide_eq_true isRoot)
  apply runsRoot entry.2
  rw [Bindings.find?_eq_some_iff coherent.distinct, ← id]
  exact member

/-- An engine names exemplars of its program. -/
theorem Coherent.stores (tree : setup.program.IsTree) (coherent : engine.Coherent setup [])
    (runsRoot : engine.RunsRoot) {id : ExemplarId} {construct : Construct}
    (names : engine.Names id construct) : setup.program.Stores id construct := by
  cases names with
  | top => exact ⟨tree.top.1, tree.top.2.1⟩
  | activation member names => exact (coherent.runs_of_mem runsRoot member).stores tree names
  | launch member => exact Program.stores_of_construct (coherent.launches _ member) (by decide)

/-! ## Reachable engines -/

/-- Whatever an engine looks up is there.

Every exemplar that it names between ticks or at a point of the next tick, and every one that it
visits from those, is in the program and of the construct that it is taken for. At every head of a
poll, also behind the runs of handlers, there are as many contexts as at first and the level is that
of one of them; a callback that is taken away there is one that waits in it. A tick takes no more
launches off the queue than there are. The body of a call, however it ends, leaves the contexts that
it has found and the count of open calls, so that there is a frame to close and a call to count
back. -/
structure StaysInBounds (engine : Engine) : Prop where
  between : ∀ id expected, engine.setup.program.Visits engine.Names id expected →
    engine.setup.program.Has id expected
  within : ∀ point, engine.Passes point → ∀ id expected,
    engine.setup.program.Visits point.Names id expected → engine.setup.program.Has id expected
  polls : ∀ start head, engine.Passes ⟨.errand .poll, start⟩ → engine.setup.PollsAt start head →
    head.activation.inst.contexts.length = start.inst.contexts.length
      ∧ head.level < head.activation.inst.contexts.length
      ∧ ∀ callback, head.callback? = some callback →
        ∃ context, head.activation.inst.contexts[head.level]? = some context
          ∧ head.index < context.callbacks.length
  drains : engine.ready.launchCount ≤ engine.ready.world.launches.length
  closes : ∀ name arguments function start, engine.Passes ⟨.call name arguments, start⟩ →
    engine.setup.Calls start name arguments function →
    start.inst.frameCount < engine.setup.config.maxCallDepth →
    let opened := start.openFrame (engine.setup.frameOf function arguments)
    (engine.setup.runExemplarWith engine.setup.callAtDepth function).Ends opened
      (fun _ left => left.inst.stack = opened.inst.stack
        ∧ left.inst.callDepth = start.inst.callDepth + 1)
      (fun left => left.inst.stack = opened.inst.stack
        ∧ left.inst.callDepth = start.inst.callDepth + 1)

theorem launchCount_le (engine : Engine) :
    engine.launchCount ≤ engine.world.launches.length := by
  unfold launchCount
  split
  · exact Nat.min_le_right _ _
  · exact Nat.le_refl _

/-- Whatever a host does with a compiled program, the engine looks up nothing that is not there. -/
theorem Reaches.stays_in_bounds {options : CompileOptions} {tape : Tape}
    {compilation : Compilation} (compiled : tape.compile options = .ok compilation)
    {registry : Registry} {config : EngineConfig} {printer : Printer}
    (reached : (build compilation.program registry config printer).Reaches engine) :
    engine.StaysInBounds := by
  obtain ⟨placed, tree⟩ := reached.wellFormed compiled
  have sound : ∀ {point}, engine.Passes point → point.Sound engine.setup := reached.sound compiled
  refine ⟨?_, ?_, ?_, engine.ready.launchCount_le, ?_⟩
  · intro id expected visits
    apply tree.has_of_visits placed _ visits
    have coherent := reached.coherent_of_compiled compiled
    have runsRoot := reached.runsRoot (Tape.compile_placed compiled)
    rw [← coherent.same] at coherent
    exact fun _ _ names => coherent.stores tree runsRoot names
  · intro point passes id expected visits
    exact tree.has_of_visits placed (fun _ _ names => (sound passes).stores tree names) visits
  · intro start head passes polls
    obtain ⟨still, inside⟩ := polls.still placed (sound passes).runs.handlers
    refine ⟨still.length_contexts, inside, ?_⟩
    intro callback found
    obtain ⟨context, there, waits⟩ := Instance.exists_context_of_callback? found
    exact ⟨context, there, (List.getElem?_eq_some_iff.mp waits).1⟩
  · intro name arguments function start _ calls _
    have isFunction := Setup.construct_of_findFunction placed calls.found
    have kept : (engine.setup.runExemplarWith engine.setup.callAtDepth function).Keeps
        (Quiet engine.setup.program) := by
      apply Setup.runExemplarWith_keeps placed (Setup.callAtDepth_keeps placed)
      · rw [isFunction]
        rfl
      · rw [isFunction]
        decide
    apply (kept _).mono
    · exact fun _ _ quiet => ⟨quiet.calm.stack, quiet.calm.callDepth⟩
    · exact fun _ quiet => ⟨quiet.calm.stack, quiet.calm.callDepth⟩

open Token in
/-- The tape of `(machine m (state main (on always 0 (set x 1)) (on always 0 (set x 2))))
(launch m)`. -/
def twoHandlers : Tape :=
  Tape.ofTokens .empty
    (bracketed 0
        ([word "machine" 1, word "m" 9]
          ++ bracketed 11
            ([word "state" 12, word "main" 18]
              ++ bracketed 23
                ([word "on" 24, word "always" 27, ⟨.constant (.int 0), 34⟩]
                  ++ bracketed 36 [word "set" 37, word "x" 41, ⟨.constant (.int 1), 43⟩] 44)
                45
              ++ bracketed 47
                ([word "on" 48, word "always" 51, ⟨.constant (.int 0), 58⟩]
                  ++ bracketed 60 [word "set" 61, word "x" 65, ⟨.constant (.int 2), 67⟩] 68)
                69)
            70)
        71
      ++ bracketed 73 [word "launch" 74, word "m" 81] 82)

/-- The first poll looks at the second handler where the first one was, after that has run. -/
theorem stays_in_bounds_twoHandlers :
    ∃ compilation engine, twoHandlers.compile {} = .ok compilation
      ∧ build compilation.program (Registry.empty.withCondition "always" fun _ _ => .ok true) {}
        .empty = engine
      ∧ (∃ start head, engine.Passes ⟨.errand .poll, start⟩ ∧ engine.setup.PollsAt start head
        ∧ head.level = 0 ∧ head.index = 0 ∧ start.inst.waiting 0 = 2
        ∧ head.activation.inst.waiting 0 = 1)
      ∧ engine.StaysInBounds := by
  refine ⟨_, _, rfl, rfl, ?_, ?_⟩
  · refine ⟨_, _, ⟨_, .turn (List.mem_of_getElem? (i := 1) rfl), .refl⟩,
      ⟨0, rfl, .head (.fires rfl rfl rfl rfl) .refl⟩, rfl, rfl, by decide +kernel,
      by decide +kernel⟩
  · have compiled : twoHandlers.compile {} = .ok _ := rfl
    exact Reaches.stays_in_bounds compiled ⟨[], rfl⟩

end Engine

end MachineScript
