import MachineScript.Proofs.Run.Quiet

/-!
Contract: what an instance is while it runs, from its launch to its end.

Owns:
- the lexical stack: the contexts of an instance are states of its machine,
  each inside the one below it;
- the relations that the runs of an instance keep, whether it stays where it
  stands or enters a state, and whether it takes hold of shared variables.

Does not own: which runs keep them.
-/

namespace MachineScript

/-! ## The lexical stack -/

/-- What holds a state of a stack: the context below it, or the machine. -/
def Instance.holder (machine : ExemplarId) : List Context → ExemplarId
  | [] => machine
  | below :: _ => below.exemplar

/-- Contexts of states, innermost first, each of which stands directly inside the next, and the
last one inside the machine. -/
def Program.Lexical (program : Program) (machine : ExemplarId) : List Context → Prop
  | [] => True
  | context :: outer =>
      context.kind = .state
        ∧ (program.exemplar context.exemplar).construct = .state
        ∧ (program.exemplar context.exemplar).parent = some (Instance.holder machine outer)
        ∧ program.Lexical machine outer

/-- The exemplars and kinds of the contexts of an instance. -/
def Instance.stack (inst : Instance) : List (ExemplarId × ContextKind) :=
  inst.contexts.map fun context => (context.exemplar, context.kind)

theorem Program.lexical_of_stack {program : Program} {machine : ExemplarId}
    {contexts others : List Context}
    (same : (others.map fun context => (context.exemplar, context.kind))
      = contexts.map fun context => (context.exemplar, context.kind))
    (lexical : program.Lexical machine contexts) : program.Lexical machine others := by
  induction contexts generalizing others with
  | nil =>
      rw [List.map_nil, List.map_eq_nil_iff] at same
      rw [same]
      trivial
  | cons context outer inductionHypothesis =>
      cases others with
      | nil => cases same
      | cons other below =>
          rw [List.map_cons, List.map_cons, List.cons.injEq, Prod.mk.injEq] at same
          obtain ⟨⟨sameExemplar, sameKind⟩, sameBelow⟩ := same
          obtain ⟨isState, construct, parent, rest⟩ := lexical
          have sameHolder : Instance.holder machine below = Instance.holder machine outer := by
            cases outer <;> cases below <;> simp_all [Instance.holder]
          refine ⟨sameKind.trans isState, ?_, ?_, inductionHypothesis sameBelow rest⟩
          · rw [sameExemplar, construct]
          · rw [sameExemplar, parent, sameHolder]

/-- Contexts may be closed from the inside. -/
theorem Program.Lexical.dropWhile {program : Program} {machine : ExemplarId}
    {contexts : List Context} (lexical : program.Lexical machine contexts)
    (closes : Context → Bool) : program.Lexical machine (contexts.dropWhile closes) := by
  induction contexts with
  | nil => trivial
  | cons context outer inductionHypothesis =>
      rw [List.dropWhile_cons]
      split
      · exact inductionHypothesis lexical.2.2.2
      · exact lexical

/-! ## Runs of an instance -/

namespace Instance

def WaitsForHandlers (inst : Instance) (program : Program) : Prop :=
  ∀ context ∈ inst.contexts, ∀ callback ∈ context.callbacks,
    (program.exemplar callback.handler).construct = .handler

/-- The shared variables that an instance holds are those of its machine. -/
def HoldsOwn (inst : Instance) : Prop :=
  ∀ key ∈ inst.sharedRefs, key.1 = inst.machine

end Instance

/-- What every run of an instance keeps, in whatever state it stands before and after. -/
structure Steady (program : Program) (before after : Activation) : Prop where
  id : after.inst.id = before.inst.id
  machine : after.inst.machine = before.inst.machine
  parent : after.inst.parent = before.inst.parent
  callDepth : after.inst.callDepth = before.inst.callDepth
  queued : after.inst.transitionQueued = before.inst.transitionQueued
  transitions : after.world.transitions = before.world.transitions
  now : after.world.now = before.world.now
  launches : LaunchesQueued program before.inst.id before.world.launches after.world.launches
  lexical : program.Lexical before.inst.machine before.inst.contexts →
    program.Lexical after.inst.machine after.inst.contexts
  handlers : before.inst.WaitsForHandlers program → after.inst.WaitsForHandlers program
  own : before.inst.HoldsOwn → after.inst.HoldsOwn
  balance : ∀ others : SharedKey → Nat,
    (before.world.shared.Balanced fun key => others key + before.inst.sharedRefs.count key) →
    after.world.shared.Balanced fun key => others key + after.inst.sharedRefs.count key

/-- A run that stays in the state where the instance stands. -/
structure Calm (program : Program) (before after : Activation) : Prop
    extends Steady program before after where
  stack : after.inst.stack = before.inst.stack

/-- A run that takes hold of no shared variable, whatever state it enters. -/
structure Roams (program : Program) (before after : Activation) : Prop
    extends Steady program before after where
  refs : after.inst.sharedRefs = before.inst.sharedRefs
  held : ∀ key, after.world.shared.held? key = before.world.shared.held? key

/-- A run that does neither. -/
structure Still (program : Program) (before after : Activation) : Prop
    extends Roams program before after where
  stack : after.inst.stack = before.inst.stack

theorem Steady.lasts (program : Program) : Run.Lasts (Steady program) where
  refl _ := ⟨rfl, rfl, rfl, rfl, rfl, rfl, rfl, .refl _ _ _, fun lexical => lexical,
    fun waits => waits, fun own => own, fun _ balanced => balanced⟩
  trans first second :=
    { id := second.id.trans first.id
      machine := second.machine.trans first.machine
      parent := second.parent.trans first.parent
      callDepth := second.callDepth.trans first.callDepth
      queued := second.queued.trans first.queued
      transitions := second.transitions.trans first.transitions
      now := second.now.trans first.now
      launches := first.launches.trans (first.id ▸ second.launches)
      lexical := fun lexical => second.lexical (first.lexical lexical)
      handlers := fun waits => second.handlers (first.handlers waits)
      own := fun own => second.own (first.own own)
      balance := fun others balanced => second.balance others (first.balance others balanced) }

theorem Calm.lasts (program : Program) : Run.Lasts (Calm program) where
  refl start := ⟨(Steady.lasts program).refl start, rfl⟩
  trans first second :=
    ⟨(Steady.lasts program).trans first.toSteady second.toSteady,
      second.stack.trans first.stack⟩

theorem Roams.lasts (program : Program) : Run.Lasts (Roams program) where
  refl start := ⟨(Steady.lasts program).refl start, rfl, fun _ => rfl⟩
  trans first second :=
    ⟨(Steady.lasts program).trans first.toSteady second.toSteady, second.refs.trans first.refs,
      fun key => (second.held key).trans (first.held key)⟩

theorem Still.lasts (program : Program) : Run.Lasts (Still program) where
  refl start := ⟨(Roams.lasts program).refl start, rfl⟩
  trans first second :=
    ⟨(Roams.lasts program).trans first.toRoams second.toRoams, second.stack.trans first.stack⟩

theorem Still.calm {program : Program} {before after : Activation}
    (still : Still program before after) : Calm program before after :=
  ⟨still.toSteady, still.stack⟩

/-- A calm run opens no context that it does not close. -/
theorem Calm.contexts_eq_nil {program : Program} {before after : Activation}
    (calm : Calm program before after) (empty : before.inst.contexts = []) :
    after.inst.contexts = [] := by
  have stack := calm.stack
  unfold Instance.stack at stack
  rwa [empty, List.map_nil, List.map_eq_nil_iff] at stack

theorem Instance.stack_skeleton (inst : Instance) : inst.skeleton.stack = inst.stack := by
  simp only [Instance.stack, Instance.skeleton, List.map_map]
  rfl

theorem Instance.waitsForHandlers_skeleton (inst : Instance) (program : Program) :
    inst.skeleton.WaitsForHandlers program ↔ inst.WaitsForHandlers program := by
  unfold Instance.WaitsForHandlers Instance.skeleton
  simp only [List.forall_mem_map]
  rfl

theorem Quiet.still {program : Program} {before after : Activation}
    (quiet : Quiet program before after) : Still program before after := by
  have machine : after.inst.machine = before.inst.machine := quiet.same fun _ => rfl
  have refs : after.inst.sharedRefs = before.inst.sharedRefs := quiet.same fun _ => rfl
  have stack : after.inst.stack = before.inst.stack := quiet.same Instance.stack_skeleton
  refine ⟨⟨⟨quiet.id, machine, quiet.same fun _ => rfl, quiet.same fun _ => rfl,
    quiet.same fun _ => rfl, quiet.transitions, quiet.now, quiet.launches, ?_, ?_, ?_, ?_⟩, refs,
    quiet.held⟩, stack⟩
  · intro lexical
    rw [machine]
    exact Program.lexical_of_stack stack lexical
  · intro waits
    rw [← Instance.waitsForHandlers_skeleton, quiet.skeleton, Instance.waitsForHandlers_skeleton]
    exact waits
  · unfold Instance.HoldsOwn
    rw [machine, refs]
    exact fun own => own
  · intro others balanced
    rw [refs]
    exact balanced.of_held? quiet.held

theorem Quiet.calm {program : Program} {before after : Activation}
    (quiet : Quiet program before after) : Calm program before after :=
  quiet.still.calm

end MachineScript
