import MachineScript.Proofs.Run.Steady

/-!
Contract: the ends of the runs for which an instance is taken out of the table.

Owns: what the runs of machines, states and handlers leave, and from them what
a launch, a transition and a poll leave: an instance on a lexical stack, with
one transition queued at most, and that one last.

Does not own: the table of instances and the queues of the engine.
-/

namespace MachineScript

/-! ## Runs of machines -/

theorem Calm.refer {program : Program} {activation : Activation} {cells : SharedCells}
    (key : SharedKey) (own : key.1 = activation.inst.machine)
    (held : ∀ references, activation.world.shared.Balanced references →
      cells.Balanced fun other => references other + [key].count other) :
    Calm program activation (activation.refer cells key) := by
  refine ⟨⟨rfl, rfl, rfl, rfl, rfl, rfl, rfl, .refl _ _ _, fun lexical => lexical,
    fun waits => waits, ?_, ?_⟩, rfl⟩
  · intro others
    exact List.forall_mem_append.mpr ⟨others, List.forall_mem_singleton.mpr own⟩
  · intro others balanced
    apply (held _ balanced).congr
    intro other
    simp only [Activation.refer, List.count_append, Nat.add_assoc]

namespace Setup

variable {setup : Setup} {caller : Caller}

theorem holdShared_keeps {program : Program} (name : String) {default : Run Value}
    (kept : default.Keeps (Quiet program)) : (holdShared name default).Keeps (Calm program) := by
  intro start
  unfold holdShared
  simp only [Run.ends_bind, Run.ends_get]
  cases retained : start.world.shared.retain? (start.inst.machine, name) with
  | some cells =>
      exact Calm.refer _ rfl fun _ balanced => balanced.retain retained
  | none =>
      have absent : start.world.shared.held? (start.inst.machine, name) = none := by
        unfold SharedCells.retain? at retained
        unfold SharedCells.held?
        split at retained
        · cases retained
        · next missing =>
            rw [missing]
            rfl
      apply Run.ends_bind.mpr
      apply (kept start).mono
      · intro value left quiet
        have own : start.inst.machine = left.inst.machine := quiet.calm.machine.symm
        apply (Calm.lasts program).trans quiet.calm
        apply Calm.refer (start.inst.machine, name) own
        intro references balanced
        exact balanced.create ((quiet.held _).trans absent) value
      · exact fun _ quiet => quiet.calm

theorem execute_calm (calls : caller.Keeps (Quiet setup.program)) {instruction : Instruction}
    (notGoto : ∀ target, instruction ≠ .goto target) :
    (setup.execute caller instruction).Keeps (Calm setup.program) := by
  by_cases quiet : instruction.isQuiet = true
  · intro start
    exact (execute_keeps calls quiet start).mono (fun _ _ => Quiet.calm) (fun _ => Quiet.calm)
  · cases instruction with
    | launch | set | call => exact absurd rfl quiet
    | goto target => exact absurd rfl (notGoto target)
    | shared name source =>
        have lasts := Calm.lasts setup.program
        exact lasts.bind (holdShared_keeps name (evalSource_keeps calls source))
          fun _ => lasts.pure _

theorem runInstructions_calm (calls : caller.Keeps (Quiet setup.program)) (last : Value)
    {instructions : List Instruction}
    (notGoto : ∀ instruction ∈ instructions, ∀ target, instruction ≠ .goto target) :
    (setup.runInstructions caller false last instructions).Keeps (Calm setup.program) := by
  have lasts := Calm.lasts setup.program
  induction instructions generalizing last with
  | nil => exact lasts.pure _
  | cons instruction rest inductionHypothesis =>
      rw [runInstructions]
      apply lasts.bind
      · intro start
        exact (countInstruction_keeps _ start).mono (fun _ _ => Quiet.calm) (fun _ => Quiet.calm)
      intro _
      apply lasts.bind (execute_calm calls (notGoto instruction List.mem_cons_self))
      intro value
      exact inductionHypothesis value fun other member =>
        notGoto other (List.mem_cons_of_mem _ member)

theorem notGoto_of_placed (placed : setup.program.Placed) {id : ExemplarId}
    (runsOn : (setup.program.exemplar id).construct.suspends = false) :
    ∀ instruction ∈ (setup.program.exemplar id).instructions, ∀ target,
      instruction ≠ .goto target := by
  intro instruction member target isGoto
  rw [isGoto] at member
  have suspends := (placed.content id).goto target member
  rw [runsOn] at suspends
  cases suspends

theorem runExemplar_calm (placed : setup.program.Placed) {id : ExemplarId}
    (runsOn : (setup.program.exemplar id).construct.suspends = false) :
    (setup.runExemplar id).Keeps (Calm setup.program) := by
  unfold runExemplar runExemplarWith
  simp only [runsOn]
  exact runInstructions_calm (call_keeps placed _) .nil (notGoto_of_placed placed runsOn)

end Setup

/-! ## Runs of states and handlers -/

/-- The ends of a list that a transfer ends: quiet up to the transfer, if there is one. -/
inductive Suspends (program : Program) (start : Activation) : Flow → Activation → Prop where
  | completed {left : Activation} (quiet : Quiet program start left) :
      Suspends program start .completed left
  | parked {left : Activation} (quiet : Quiet program start left) :
      Suspends program start .suspended left.park
  | queued {left : Activation} (quiet : Quiet program start left) (target : String) :
      Suspends program start .suspended (left.queue target)

theorem Suspends.after {program : Program} {start middle left : Activation} {flow : Flow}
    (before : Quiet program start middle) (suspends : Suspends program middle flow left) :
    Suspends program start flow left := by
  have lasts := Quiet.lasts program
  cases suspends with
  | completed quiet => exact .completed (lasts.trans before quiet)
  | parked quiet => exact .parked (lasts.trans before quiet)
  | queued quiet target => exact .queued (lasts.trans before quiet) target

namespace Setup

variable {setup : Setup} {caller : Caller}

theorem runInstructions_suspends (calls : caller.Keeps (Quiet setup.program))
    {instructions : List Instruction}
    (unshared : ∀ instruction ∈ instructions, ∀ name value, instruction ≠ .shared name value) :
    ∀ (last : Value) (start : Activation),
      (setup.runInstructions caller true last instructions).Ends start
        (fun result left => Suspends setup.program start result.1 left)
        (Quiet setup.program start) := by
  have lasts := Quiet.lasts setup.program
  induction instructions with
  | nil => exact fun last start => .completed (lasts.refl start)
  | cons instruction rest inductionHypothesis =>
      intro last start
      have others := inductionHypothesis fun other member =>
        unshared other (List.mem_cons_of_mem _ member)
      rw [runInstructions, Run.ends_bind]
      apply (countInstruction_keeps setup.program start).mono _ fun _ quiet => quiet
      intro _ counted quietBefore
      rw [Run.ends_bind]
      cases instruction with
      | goto target =>
          -- The list ends right here, so a run queues one transition at most.
          exact Suspends.queued quietBefore target
      | launch machine =>
          apply (lasts.ends_of_keeps quietBefore (execute_keeps calls rfl)).mono _
            fun _ quiet => quiet
          exact fun _ _ quiet => Suspends.parked quiet
      | set _ _ | call _ _ =>
          apply (lasts.ends_of_keeps quietBefore (execute_keeps calls rfl)).mono _
            fun _ quiet => quiet
          intro value left quiet
          exact (others value left).mono (fun _ _ => Suspends.after quiet)
            fun _ => lasts.trans quiet
      | shared name value => exact absurd rfl (unshared _ List.mem_cons_self name value)

theorem runExemplar_suspends (placed : setup.program.Placed) {id : ExemplarId}
    (suspends : (setup.program.exemplar id).construct.suspends = true) (start : Activation) :
    (setup.runExemplar id).Ends start
      (fun result left => Suspends setup.program start result.1 left)
      (Quiet setup.program start) := by
  unfold runExemplar runExemplarWith
  simp only [suspends]
  apply runInstructions_suspends (call_keeps placed _)
  intro instruction member name value isShared
  rw [isShared] at member
  have isMachine := (placed.content id).shared name value member
  rw [isMachine] at suspends
  cases suspends

end Setup

/-! ## Ends with one transition queued at most -/

/-- The ends of a run that a relation lasts over, but for one transition that may come last. -/
inductive Settles (relation : Activation → Activation → Prop) (start : Activation) :
    Activation → Prop where
  | waits {left : Activation} (kept : relation start left) : Settles relation start left
  | queued {left : Activation} (kept : relation start left) (target : String) :
      Settles relation start (left.queue target)

theorem Settles.after {relation : Activation → Activation → Prop} (lasts : Run.Lasts relation)
    {start middle left : Activation} (before : relation start middle)
    (settles : Settles relation middle left) : Settles relation start left := by
  cases settles with
  | waits kept => exact .waits (lasts.trans before kept)
  | queued kept target => exact .queued (lasts.trans before kept) target

theorem Settles.mono {relation weaker : Activation → Activation → Prop} {start left : Activation}
    (settles : Settles relation start left)
    (weakens : ∀ left, relation start left → weaker start left) :
    Settles weaker start left := by
  cases settles with
  | waits kept => exact .waits (weakens _ kept)
  | queued kept target => exact .queued (weakens _ kept) target

theorem Still.park {program : Program} (activation : Activation) :
    Still program activation activation.park :=
  ⟨⟨⟨rfl, rfl, rfl, rfl, rfl, rfl, rfl, .refl _ _ _, fun lexical => lexical, fun waits => waits,
    fun own => own, fun _ balanced => balanced⟩, rfl, fun _ => rfl⟩, rfl⟩

theorem Suspends.settles {program : Program} {start left : Activation} {flow : Flow}
    (suspends : Suspends program start flow left) : Settles (Still program) start left := by
  cases suspends with
  | completed quiet => exact .waits quiet.still
  | parked quiet => exact .waits ((Still.lasts program).trans quiet.still (Still.park _))
  | queued quiet target => exact .queued quiet.still target

/-! ## Entering a state -/

theorem Still.addCallback {program : Program} (world : World) (inst : Instance)
    {callback : Callback}
    (isHandler : (program.exemplar callback.handler).construct = .handler) :
    Still program ⟨world, inst⟩ ⟨world, inst.addCallback callback⟩ := by
  have stack : (inst.addCallback callback).stack = inst.stack := by
    apply map_modify_eq
    exact fun _ => rfl
  refine ⟨⟨⟨rfl, rfl, rfl, rfl, rfl, rfl, rfl, .refl _ _ _, ?_, ?_, fun own => own,
    fun _ balanced => balanced⟩, rfl, fun _ => rfl⟩, stack⟩
  · exact fun lexical => Program.lexical_of_stack stack lexical
  · intro waits context member waiting there
    cases contexts : inst.contexts with
    | nil =>
        simp only [Instance.addCallback, Instance.modifyContext, contexts,
          List.modify_nil] at member
        cases member
    | cons innermost outer =>
        simp only [Instance.addCallback, Instance.modifyContext, contexts,
          List.modify_zero_cons, List.mem_cons] at member
        unfold Instance.WaitsForHandlers at waits
        simp only [contexts, List.forall_mem_cons] at waits
        rcases member with rfl | isOuter
        · rcases List.mem_append.mp there with waited | added
          · exact waits.1 waiting waited
          · rw [List.mem_singleton.mp added]
            exact isHandler
        · exact waits.2 context isOuter waiting there

/-- An activation with a handler that waits in the innermost context from now on. -/
def Activation.await (activation : Activation) (setup : Setup) (handler : ExemplarId)
    (argument : Value) : Activation :=
  { activation with
    inst := activation.inst.addCallback
      ⟨handler, (setup.program.exemplar handler).name, argument, activation.world.now⟩ }

/-- An activation whose instance has opened the context of a state. -/
def Activation.enter (activation : Activation) (state : ExemplarId) : Activation :=
  { activation with inst := activation.inst.pushContext (Context.state state) }

/-- A state is entered from the context or the machine that holds it. -/
theorem Roams.enter {program : Program} {activation : Activation} {state : ExemplarId}
    (isState : (program.exemplar state).construct = .state)
    (held : (program.exemplar state).parent
      = some (Instance.holder activation.inst.machine activation.inst.contexts)) :
    Roams program activation (activation.enter state) where
  id := rfl
  machine := rfl
  parent := rfl
  callDepth := rfl
  queued := rfl
  transitions := rfl
  now := rfl
  launches := .refl _ _ _
  lexical lexical := ⟨rfl, isState, held, lexical⟩
  handlers waits := List.forall_mem_cons.mpr ⟨by simp [Context.state], waits⟩
  own own := own
  balance _ balanced := balanced
  refs := rfl
  held _ := rfl

/-- What is nested in an exemplar is of the kind asked for and has it as its parent. -/
theorem Program.Placed.nested {program : Program} (placed : program.Placed)
    {owner id : ExemplarId} {name : String} {construct : Construct}
    (found : program.nested? owner name construct = some id) :
    (program.exemplar id).construct = construct ∧ (program.exemplar id).parent = some owner := by
  unfold Program.nested? at found
  split at found
  · next bound =>
      split at found
      · next isKind =>
          cases found
          exact ⟨isKind, (placed.content owner).machines _ (Bindings.mem_of_find? bound)⟩
      · cases found
  · cases found

namespace Setup

variable {setup : Setup}

/-- A registered handler waits in the innermost context; nothing else changes. -/
theorem registerHandler_ends (handler : ExemplarId) (start : Activation) :
    (setup.registerHandler handler).Ends start
      (fun _ left => ∃ argument, left = start.await setup handler argument) (· = start) := by
  unfold registerHandler
  simp only
  split
  focus
    split
    · rfl
  -- What follows the check of the module is the same in both branches that are left.
  all_goals
    split
    · rfl
    · split
      · apply Run.ends_bind.mpr
        apply (evalConstant_ends _ start).mono _ fun _ same => same
        rintro argument _ rfl
        exact ⟨argument, rfl⟩
      · exact ⟨.nil, rfl⟩

theorem registerHandler_keeps {handler : ExemplarId}
    (isHandler : (setup.program.exemplar handler).construct = .handler) :
    (setup.registerHandler handler).Keeps (Still setup.program) := by
  intro start
  apply (registerHandler_ends handler start).mono
  · rintro _ _ ⟨argument, rfl⟩
    exact Still.addCallback start.world start.inst isHandler
  · rintro _ rfl
    exact (Still.lasts _).refl _

theorem registerHandlers_keeps {handlers : List ExemplarId}
    (areHandlers : ∀ handler ∈ handlers, (setup.program.exemplar handler).construct = .handler) :
    (setup.registerHandlers handlers).Keeps (Still setup.program) := by
  have lasts := Still.lasts setup.program
  induction handlers with
  | nil => exact lasts.pure _
  | cons handler rest inductionHypothesis =>
      apply lasts.bind (registerHandler_keeps (areHandlers handler List.mem_cons_self))
      intro _
      exact inductionHypothesis fun other member =>
        areHandlers other (List.mem_cons_of_mem _ member)

/-- A state that has been entered stays where it stands, but for a transition at its end. -/
theorem enterState_ends (placed : setup.program.Placed) {state : ExemplarId}
    (isState : (setup.program.exemplar state).construct = .state) (start : Activation) :
    (setup.enterState state).Ends start
      (fun _ left => Settles (Still setup.program) (start.enter state) left)
      (Still setup.program (start.enter state)) := by
  have lasts := Still.lasts setup.program
  have registers := registerHandlers_keeps (placed.content state).handlers
  have suspends : (setup.program.exemplar state).construct.suspends = true := by
    rw [isState]
    rfl
  unfold enterState
  simp only [Run.ends_bind, Run.ends_modifyInstance]
  apply (registers (start.enter state)).mono _ fun _ still => still
  intro _ entered still
  apply (runExemplar_suspends placed suspends entered).mono
  · exact fun _ _ suspends => suspends.settles.after lasts still
  · exact fun _ quiet => lasts.trans still quiet.still

/-! ## Launches -/

/-- The run of a machine's own instructions and of its state `main` settles. -/
theorem initializeInstance_ends (placed : setup.program.Placed) {start : Activation}
    (isMachine : (setup.program.exemplar start.inst.machine).construct = .machine)
    (fresh : start.inst.contexts = []) :
    setup.initializeInstance.Ends start
      (fun _ left => Settles (Steady setup.program) start left) (Steady setup.program start) := by
  have runsOn : (setup.program.exemplar start.inst.machine).construct.suspends = false := by
    rw [isMachine]
    rfl
  unfold initializeInstance
  simp only [Run.ends_bind, Run.ends_get]
  apply (runExemplar_calm placed runsOn start).mono _ fun _ calm => calm.toSteady
  intro _ left calm
  split
  · next main found =>
      obtain ⟨isState, parent⟩ := placed.nested found
      have empty := calm.contexts_eq_nil fresh
      have held : (setup.program.exemplar main).parent
          = some (Instance.holder left.inst.machine left.inst.contexts) := by
        rw [parent, empty, calm.machine]
        rfl
      have entered := (Steady.lasts _).trans calm.toSteady (Roams.enter isState held).toSteady
      apply (enterState_ends placed isState left).mono
      · intro _ _ settles
        exact (settles.mono fun _ still => still.toSteady).after (Steady.lasts _) entered
      · exact fun _ calm => (Steady.lasts _).trans entered calm.toSteady
  · exact calm.toSteady

/-! ## Transitions -/

/-- A state that is found stands inside an active state or the machine. -/
theorem holder_of_findState (placed : setup.program.Placed) {inst : Instance} {target : String}
    {state : ExemplarId} (found : setup.findState inst target = some state) :
    (setup.program.exemplar state).construct = .state
      ∧ ∃ scope, (setup.program.exemplar state).parent = some scope
        ∧ (scope = inst.machine ∨ ∃ context ∈ inst.contexts, context.exemplar = scope) := by
  obtain ⟨scope, member, nested⟩ := List.exists_of_findSome?_eq_some found
  obtain ⟨isState, parent⟩ := placed.nested nested
  refine ⟨isState, scope, parent, ?_⟩
  rcases List.mem_append.mp member with isActive | isMachine
  · obtain ⟨context, active, same⟩ := List.mem_map.mp isActive
    exact .inr ⟨context, (List.mem_filter.mp active).1, same⟩
  · exact .inl (List.mem_singleton.mp isMachine)

end Setup

/-- An activation whose instance waits neither for a transition nor for what it has launched. -/
def Activation.unqueue (activation : Activation) : Activation :=
  { activation with
    inst := { activation.inst with transitionQueued := false, parked := false } }

/-- An activation whose instance has closed the contexts inside the one of a holder. -/
def Activation.closeTo (activation : Activation) (holder : ExemplarId) : Activation :=
  { activation with
    inst :=
      { activation.inst with
        contexts := activation.inst.contexts.dropWhile fun context =>
          some context.exemplar ≠ some holder } }

theorem holder_dropWhile {machine scope : ExemplarId} {contexts : List Context}
    (stands : scope = machine ∨ ∃ context ∈ contexts, context.exemplar = scope) :
    Instance.holder machine (contexts.dropWhile fun context =>
      some context.exemplar ≠ some scope) = scope := by
  induction contexts with
  | nil =>
      rcases stands with isMachine | ⟨_, impossible, _⟩
      · exact isMachine.symm
      · cases impossible
  | cons context outer inductionHypothesis =>
      by_cases same : context.exemplar = scope
      · rw [List.dropWhile_cons_of_neg (by simp [same])]
        exact same
      · rw [List.dropWhile_cons_of_pos (by simp [same])]
        apply inductionHypothesis
        rcases stands with isMachine | ⟨other, member, there⟩
        · exact .inl isMachine
        · rcases List.mem_cons.mp member with rfl | isOuter
          · exact absurd there same
          · exact .inr ⟨other, isOuter, there⟩

theorem Roams.closeTo {program : Program} (activation : Activation) (holder : ExemplarId) :
    Roams program activation (activation.closeTo holder) where
  id := rfl
  machine := rfl
  parent := rfl
  callDepth := rfl
  queued := rfl
  transitions := rfl
  now := rfl
  launches := .refl _ _ _
  lexical lexical := lexical.dropWhile _
  handlers waits := fun context member =>
    waits context ((List.dropWhile_sublist _).subset member)
  own own := own
  balance _ balanced := balanced
  refs := rfl
  held _ := rfl

namespace Setup

variable {setup : Setup}

theorem transition_ends (placed : setup.program.Placed) (target : String) (start : Activation) :
    (setup.transition target).Ends start
      (fun _ left => Settles (Roams setup.program) start.unqueue left)
      (Roams setup.program start.unqueue) := by
  have lasts := Roams.lasts setup.program
  unfold transition
  simp only [Run.ends_bind, Run.ends_modifyInstance, Run.ends_get]
  split
  · exact lasts.refl start.unqueue
  · next state found =>
      obtain ⟨isState, scope, parent, stands⟩ := holder_of_findState placed found
      simp only [Run.ends_bind, Run.ends_modifyInstance, parent]
      have held : (setup.program.exemplar state).parent
          = some (Instance.holder start.inst.machine
            (start.unqueue.closeTo scope).inst.contexts) := by
        rw [parent]
        exact congrArg some (holder_dropWhile stands).symm
      have entered : Roams setup.program start.unqueue
          ((start.unqueue.closeTo scope).enter state) :=
        lasts.trans (Roams.closeTo _ scope) (Roams.enter isState held)
      apply (enterState_ends placed isState (start.unqueue.closeTo scope)).mono
      · exact fun _ _ settles => (settles.mono fun _ => Still.toRoams).after lasts entered
      · exact fun _ still => lasts.trans entered still.toRoams

end Setup

/-! ## Polls -/

/-- Where one context of an instance is changed, each is one from before, changed or not. -/
theorem Instance.of_mem_modifyContext {inst : Instance} {level : Nat} {change : Context → Context}
    {context : Context} (member : context ∈ (inst.modifyContext level change).contexts) :
    context ∈ inst.contexts ∨ ∃ before ∈ inst.contexts, change before = context := by
  obtain ⟨place, found⟩ := List.mem_iff_getElem?.mp member
  simp only [Instance.modifyContext, List.getElem?_modify, Option.map_eq_map,
    Option.map_eq_some_iff] at found
  obtain ⟨before, present, same⟩ := found
  have there := List.mem_of_getElem? present
  split at same
  · exact .inr ⟨before, there, same⟩
  · exact .inl (same ▸ there)

theorem Instance.waitsForHandlers_removeCallback {inst : Instance} {program : Program}
    (waits : inst.WaitsForHandlers program) (level index : Nat) :
    (inst.removeCallback level index).WaitsForHandlers program := by
  intro context member waiting there
  rcases of_mem_modifyContext member with kept | ⟨before, present, rfl⟩
  · exact waits context kept waiting there
  · exact waits before present waiting (List.mem_of_mem_eraseIdx there)

theorem Still.removeCallback {program : Program} (world : World) (inst : Instance)
    (level index : Nat) :
    Still program ⟨world, inst⟩ ⟨world, inst.removeCallback level index⟩ := by
  have stack : (inst.removeCallback level index).stack = inst.stack := by
    apply map_modify_eq
    exact fun _ => rfl
  exact ⟨⟨⟨rfl, rfl, rfl, rfl, rfl, rfl, rfl, .refl _ _ _, Program.lexical_of_stack stack,
    fun waits => Instance.waitsForHandlers_removeCallback waits level index, fun own => own,
    fun _ balanced => balanced⟩, rfl, fun _ => rfl⟩, stack⟩

/-- The ends of a poll: it goes on as long as nothing but still runs have been made. -/
inductive Polls (program : Program) (start : Activation) : Bool → Activation → Prop where
  | goesOn {left : Activation} (still : Still program start left) : Polls program start true left
  | stops {left : Activation} (settles : Settles (Still program) start left) :
      Polls program start false left

theorem Polls.after {program : Program} {start middle left : Activation} {goesOn : Bool}
    (before : Still program start middle) (polls : Polls program middle goesOn left) :
    Polls program start goesOn left := by
  have lasts := Still.lasts program
  cases polls with
  | goesOn still => exact .goesOn (lasts.trans before still)
  | stops settles => exact .stops (settles.after lasts before)

namespace Setup

variable {setup : Setup}

theorem isHandler_of_callback? {inst : Instance} {level index : Nat} {callback : Callback}
    (waits : inst.WaitsForHandlers setup.program)
    (found : inst.callback? level index = some callback) :
    (setup.program.exemplar callback.handler).construct = .handler := by
  unfold Instance.callback? at found
  split at found
  · next context there =>
      exact waits context (List.mem_of_getElem? there) callback (List.mem_of_getElem? found)
  · cases found

theorem pollContext_ends (placed : setup.program.Placed) (level : Nat) :
    ∀ (unseen index : Nat) {start : Activation}, start.inst.WaitsForHandlers setup.program →
      (setup.pollContext level unseen index).Ends start (Polls setup.program start)
        (Still setup.program start) := by
  have lasts := Still.lasts setup.program
  intro unseen
  -- A handler that fires is removed, and the next one takes its index; one that is not ready keeps
  -- its place. Either way one handler less is unseen.
  induction unseen with
  | zero => exact fun index start _ => .goesOn (lasts.refl start)
  | succ unseen inductionHypothesis =>
      intro index start waits
      simp only [pollContext, Run.ends_bind, Run.ends_get]
      split
      · exact .goesOn (lasts.refl start)
      · next callback found =>
          split
          · exact lasts.refl start
          · exact lasts.refl start
          · exact inductionHypothesis (index + 1) waits
          · have isHandler := isHandler_of_callback? waits found
            have suspends :
                (setup.program.exemplar callback.handler).construct.suspends = true := by
              rw [isHandler]
              rfl
            let taken : Activation :=
              { world := { start.world with fired := start.world.fired + 1 }
                inst := start.inst.removeCallback level index }
            have counted : Quiet setup.program ⟨start.world, taken.inst⟩ taken :=
              ⟨rfl, rfl, rfl, fun _ => rfl, .refl _ _ _⟩
            have removed : Still setup.program start taken :=
              lasts.trans (Still.removeCallback start.world start.inst level index) counted.still
            simp only [Run.ends_bind, Run.ends_modifyInstance]
            apply (runExemplar_suspends placed suspends taken).mono
            · rintro ⟨flow, value⟩ left ended
              simp only [Run.ends_get]
              split
              · exact .stops (ended.settles.after lasts removed)
              · next goesOn =>
                  have still : Still setup.program start left := by
                    cases ended with
                    | completed quiet => exact lasts.trans removed quiet.still
                    | parked quiet =>
                        exact lasts.trans removed (lasts.trans quiet.still (Still.park _))
                    | queued quiet target => exact absurd rfl goesOn
                  apply (inductionHypothesis index (still.handlers waits)).mono
                  · exact fun _ _ polls => polls.after still
                  · exact fun _ after => lasts.trans still after
            · exact fun _ quiet => lasts.trans removed quiet.still

theorem pollContexts_ends (placed : setup.program.Placed) :
    ∀ (levels : Nat) {start : Activation}, start.inst.WaitsForHandlers setup.program →
      (setup.pollContexts levels).Ends start
        (fun _ left => Settles (Still setup.program) start left) (Still setup.program start) := by
  have lasts := Still.lasts setup.program
  intro levels
  induction levels with
  | zero => exact fun _ => .waits (lasts.refl _)
  | succ level inductionHypothesis =>
      intro start waits
      simp only [pollContexts, Run.ends_bind, Run.ends_get]
      apply (pollContext_ends placed level _ 0 waits).mono _ fun _ still => still
      intro goesOn left polls
      cases polls with
      | goesOn still =>
          apply (inductionHypothesis (still.handlers waits)).mono
          · exact fun _ _ settles => settles.after lasts still
          · exact fun _ after => lasts.trans still after
      | stops settles => exact settles

/-- A poll stays where the instance stands, but for a transition at its end. -/
theorem pollHandlers_ends (placed : setup.program.Placed) {start : Activation}
    (waits : start.inst.WaitsForHandlers setup.program) :
    setup.pollHandlers.Ends start (fun _ left => Settles (Still setup.program) start left)
      (Still setup.program start) :=
  pollContexts_ends placed _ waits

end Setup

end MachineScript
