import MachineScript.Proofs.Run.Errands

/-!
Contract: what runs see of a registry.

Owns:
- the names that a program sees, and registries that agree on them;
- that a run has the same effect with either of two registries that agree,
  whether it evaluates, calls, registers handlers or polls them;
- that handlers wait for conditions in sight only, which is what makes this
  hold of polls: a poll does not check the module of a condition again.

Does not own: the table of instances, and calls of the host.
-/

namespace MachineScript

/-! ## Names in sight -/

/-- A program sees the names of the modules that it requires. -/
def Program.SeesModuleOf (program : Program) (name : String) : Prop :=
  ∃ module, moduleOf name = some module ∧ module ∈ program.required

/-- Conditions may also have no module. -/
def Program.SeesCondition (program : Program) (name : String) : Prop :=
  ∀ module, moduleOf name = some module → module ∈ program.required

/-- Two registries have the same entries under the names that a program sees, and the same
conditions without a module. They may differ in everything else. -/
structure Registry.AgreesFor (program : Program) (registry other : Registry) : Prop where
  functions : ∀ name, program.SeesModuleOf name → other.function? name = registry.function? name
  values : ∀ name, program.SeesModuleOf name → other.value? name = registry.value? name
  conditions : ∀ name, program.SeesCondition name →
    other.condition? name = registry.condition? name

namespace Registry.AgreesFor

variable {program : Program} {registry other : Registry}

theorem refl (program : Program) (registry : Registry) : registry.AgreesFor program registry :=
  ⟨fun _ _ => rfl, fun _ _ => rfl, fun _ _ => rfl⟩

/-- What a program does not see may be added and replaced. -/
theorem withFunction (agrees : registry.AgreesFor program other) {name : String}
    (hidden : ¬ program.SeesModuleOf name) (run : NativeFunction) :
    registry.AgreesFor program (other.withFunction name run) := by
  refine ⟨fun seen sees => ?_, agrees.values, agrees.conditions⟩
  have different : name ≠ seen := fun same => hidden (same ▸ sees)
  exact (Bindings.find?_insert_other _ _ different).trans (agrees.functions seen sees)

theorem withValue (agrees : registry.AgreesFor program other) {name : String}
    (hidden : ¬ program.SeesModuleOf name) (value : Value) :
    registry.AgreesFor program (other.withValue name value) := by
  refine ⟨agrees.functions, fun seen sees => ?_, agrees.conditions⟩
  have different : name ≠ seen := fun same => hidden (same ▸ sees)
  exact (Bindings.find?_insert_other _ _ different).trans (agrees.values seen sees)

theorem withCondition (agrees : registry.AgreesFor program other) {name : String}
    (hidden : ¬ program.SeesCondition name) (holds : NativeCondition) :
    registry.AgreesFor program (other.withCondition name holds) := by
  refine ⟨agrees.functions, agrees.values, fun seen sees => ?_⟩
  have different : name ≠ seen := fun same => hidden (same ▸ sees)
  exact (Bindings.find?_insert_other _ _ different).trans (agrees.conditions seen sees)

end Registry.AgreesFor

def Setup.withRegistry (setup : Setup) (registry : Registry) : Setup :=
  { setup with registry := registry }

@[simp] theorem Setup.program_withRegistry (setup : Setup) (registry : Registry) :
    (setup.withRegistry registry).program = setup.program := rfl

@[simp] theorem Setup.registry_withRegistry (setup : Setup) (registry : Registry) :
    (setup.withRegistry registry).registry = registry := rfl

@[simp] theorem Setup.requires_withRegistry (setup : Setup) (registry : Registry) :
    (setup.withRegistry registry).requires = setup.requires := rfl

theorem Setup.mem_required_of_requires {setup : Setup} {module : String}
    (required : setup.requires module = true) : module ∈ setup.program.required :=
  List.contains_iff_mem.mp required

/-- A condition out of sight is refused before any registry is asked. -/
theorem Setup.refused_of_not_sees {setup : Setup} {name : String}
    (hidden : ¬ setup.program.SeesCondition name) :
    ∃ module, moduleOf name = some module ∧ setup.requires module = false := by
  unfold Program.SeesCondition at hidden
  simp only [not_forall] at hidden
  obtain ⟨module, named, absent⟩ := hidden
  refine ⟨module, named, ?_⟩
  rw [Bool.eq_false_iff]
  exact fun required => absent (mem_required_of_requires required)

/-! ## Evaluation and calls -/

namespace Setup

variable {setup : Setup} {other : Registry} {caller : Caller}

theorem isModuleValue_of_resolve {world : World} {inst : Instance} {name : String}
    (found : setup.resolve world inst name = .ok .module) : setup.isModuleValue name = true := by
  unfold resolve at found
  split at found
  · cases found
  · split at found
    · cases found
    · simp only at found
      split at found
      · cases found
      · split at found
        · next isValue => exact isValue
        · split at found <;> cases found

theorem seesModuleOf_of_isModuleValue {name : String}
    (isValue : setup.isModuleValue name = true) : setup.program.SeesModuleOf name := by
  unfold isModuleValue at isValue
  split at isValue
  · next module named =>
      rw [Bool.and_eq_true] at isValue
      exact ⟨module, named, mem_required_of_requires isValue.1⟩
  · cases isValue

section

variable (agrees : setup.registry.AgreesFor setup.program other)
include agrees

theorem isModuleValue_withRegistry (name : String) :
    (setup.withRegistry other).isModuleValue name = setup.isModuleValue name := by
  unfold isModuleValue
  split
  · next module named =>
      rw [requires_withRegistry, registry_withRegistry]
      cases required : setup.requires module with
      | false => rfl
      | true => rw [agrees.values name ⟨module, named, mem_required_of_requires required⟩]
  · rfl

theorem resolve_withRegistry (world : World) (inst : Instance) (name : String) :
    (setup.withRegistry other).resolve world inst name = setup.resolve world inst name := by
  unfold resolve
  rw [isModuleValue_withRegistry agrees]
  rfl

theorem readVariable_withRegistry (world : World) (inst : Instance) (name : String) :
    (setup.withRegistry other).readVariable world inst name
      = setup.readVariable world inst name := by
  unfold readVariable
  rw [resolve_withRegistry agrees]
  cases found : setup.resolve world inst name with
  | error missing => rfl
  | ok slot =>
      cases slot with
      | module =>
          have sees := seesModuleOf_of_isModuleValue (isModuleValue_of_resolve found)
          show Except.ok ((other.value? name).getD .nil)
            = Except.ok ((setup.registry.value? name).getD .nil)
          rw [agrees.values name sees]
      | context | inst | shared | global => rfl

theorem evalConstant_withRegistry :
    (setup.withRegistry other).evalConstant = setup.evalConstant := by
  funext constant
  cases constant with
  | atom name => simp only [evalConstant, readVariable_withRegistry agrees]
  | str | int | float => rfl

end

mutual

theorem evalSource_withRegistry (agrees : setup.registry.AgreesFor setup.program other)
    (source : Source) :
    (setup.withRegistry other).evalSource caller source = setup.evalSource caller source := by
  cases source with
  | constant constant => rw [evalSource, evalSource, evalConstant_withRegistry agrees]
  | nested id callee arguments =>
      rw [evalSource, evalSource, evalSources_withRegistry agrees arguments]

theorem evalSources_withRegistry (agrees : setup.registry.AgreesFor setup.program other)
    (sources : List Source) :
    (setup.withRegistry other).evalSources caller sources = setup.evalSources caller sources := by
  cases sources with
  | nil => rw [evalSources, evalSources]
  | cons source rest =>
      rw [evalSources, evalSources, evalSource_withRegistry agrees source,
        evalSources_withRegistry agrees rest]

end

section

variable (agrees : setup.registry.AgreesFor setup.program other)
include agrees

theorem set_withRegistry (activation : Activation) (name : String) (value : Value) :
    activation.set (setup.withRegistry other) name value = activation.set setup name value := by
  unfold Activation.set
  simp only [resolve_withRegistry agrees]

theorem execute_withRegistry (instruction : Instruction) :
    (setup.withRegistry other).execute caller instruction
      = setup.execute caller instruction := by
  cases instruction with
  | launch | goto => rfl
  | set name source =>
      simp only [execute, evalSource_withRegistry agrees, set_withRegistry agrees]
  | shared name source => simp only [execute, evalSource_withRegistry agrees]
  | call callee arguments => simp only [execute, evalSources_withRegistry agrees]

theorem runInstructions_withRegistry (suspends : Bool) (last : Value)
    (instructions : List Instruction) :
    (setup.withRegistry other).runInstructions caller suspends last instructions
      = setup.runInstructions caller suspends last instructions := by
  induction instructions generalizing last with
  | nil => rfl
  | cons instruction rest inductionHypothesis =>
      simp only [runInstructions, execute_withRegistry agrees, inductionHypothesis]

theorem runExemplarWith_withRegistry (caller : Caller) (id : ExemplarId) :
    (setup.withRegistry other).runExemplarWith caller id = setup.runExemplarWith caller id :=
  runInstructions_withRegistry agrees _ _ _

theorem callLibrary_withRegistry (name : String) (arguments : List Value) :
    (setup.withRegistry other).callLibrary name arguments
      = setup.callLibrary name arguments := by
  unfold callLibrary
  split
  · rfl
  · next module named =>
      rw [requires_withRegistry, registry_withRegistry]
      cases required : setup.requires module with
      | false => rfl
      | true => rw [agrees.functions name ⟨module, named, mem_required_of_requires required⟩]

theorem call_withRegistry (remaining : Nat) :
    (setup.withRegistry other).call remaining = setup.call remaining := by
  induction remaining with
  | zero =>
      funext name arguments
      simp only [call, callLibrary_withRegistry agrees]
      rfl
  | succ remaining inductionHypothesis =>
      funext name arguments
      simp only [call, callLibrary_withRegistry agrees, inductionHypothesis,
        runExemplarWith_withRegistry agrees]
      rfl

theorem runExemplar_withRegistry (id : ExemplarId) :
    (setup.withRegistry other).runExemplar id = setup.runExemplar id := by
  unfold runExemplar
  rw [call_withRegistry agrees, runExemplarWith_withRegistry agrees]
  rfl

/-! ## Handlers -/

theorem registerHandler_withRegistry (handler : ExemplarId) :
    (setup.withRegistry other).registerHandler handler = setup.registerHandler handler := by
  unfold registerHandler
  simp only [program_withRegistry, requires_withRegistry, registry_withRegistry,
    evalConstant_withRegistry agrees]
  by_cases sees : setup.program.SeesCondition (setup.program.exemplar handler).name
  · rw [agrees.conditions _ sees]
  · obtain ⟨module, named, refused⟩ := refused_of_not_sees sees
    simp only [named, refused]
    rfl

theorem registerHandlers_withRegistry (handlers : List ExemplarId) :
    (setup.withRegistry other).registerHandlers handlers = setup.registerHandlers handlers := by
  induction handlers with
  | nil => rfl
  | cons handler rest inductionHypothesis =>
      rw [registerHandlers, registerHandlers, registerHandler_withRegistry agrees,
        inductionHypothesis]

theorem enterState_withRegistry (state : ExemplarId) :
    (setup.withRegistry other).enterState state = setup.enterState state := by
  unfold enterState
  rw [registerHandlers_withRegistry agrees, runExemplar_withRegistry agrees]
  rfl

theorem initializeInstance_withRegistry :
    (setup.withRegistry other).initializeInstance = setup.initializeInstance := by
  unfold initializeInstance
  simp only [runExemplar_withRegistry agrees, enterState_withRegistry agrees]
  rfl

theorem transition_withRegistry (target : String) :
    (setup.withRegistry other).transition target = setup.transition target := by
  unfold transition
  simp only [enterState_withRegistry agrees]
  rfl

end

end Setup

/-! ## Conditions in sight -/

/-- The conditions that an instance waits for are in sight. -/
def Instance.WaitsInSight (inst : Instance) (program : Program) : Prop :=
  ∀ context ∈ inst.contexts, ∀ callback ∈ context.callbacks,
    program.SeesCondition callback.condition

/-- What waits in sight at the start of a run does so at its end. -/
def InSight (program : Program) (before after : Activation) : Prop :=
  before.inst.WaitsInSight program → after.inst.WaitsInSight program

theorem InSight.lasts (program : Program) : Run.Lasts (InSight program) where
  refl _ waits := waits
  trans first second waits := second (first waits)

namespace Instance.WaitsInSight

variable {inst : Instance} {program : Program}

theorem of_contexts {changed : Instance} (waits : inst.WaitsInSight program)
    (fewer : changed.contexts ⊆ inst.contexts) : changed.WaitsInSight program :=
  fun context member => waits context (fewer member)

theorem pushContext (waits : inst.WaitsInSight program) {context : Context}
    (empty : context.callbacks = []) : (inst.pushContext context).WaitsInSight program := by
  refine List.forall_mem_cons.mpr ⟨?_, waits⟩
  rw [empty]
  exact nofun

theorem addCallback (waits : inst.WaitsInSight program) {callback : Callback}
    (sees : program.SeesCondition callback.condition) :
    (inst.addCallback callback).WaitsInSight program := by
  intro context member waiting there
  rcases Instance.of_mem_modifyContext member with kept | ⟨before, present, rfl⟩
  · exact waits context kept waiting there
  · rcases List.mem_append.mp there with old | added
    · exact waits before present waiting old
    · rw [List.mem_singleton.mp added]
      exact sees

theorem removeCallback (waits : inst.WaitsInSight program) (level index : Nat) :
    (inst.removeCallback level index).WaitsInSight program := by
  intro context member waiting there
  rcases Instance.of_mem_modifyContext member with kept | ⟨before, present, rfl⟩
  · exact waits context kept waiting there
  · exact waits before present waiting (List.mem_of_mem_eraseIdx there)

theorem callback? (waits : inst.WaitsInSight program) {level index : Nat} {callback : Callback}
    (found : inst.callback? level index = some callback) :
    program.SeesCondition callback.condition := by
  unfold Instance.callback? at found
  split at found
  · next context there =>
      exact waits context (List.mem_of_getElem? there) callback (List.mem_of_getElem? found)
  · cases found

end Instance.WaitsInSight

theorem Instance.waitsInSight_skeleton (inst : Instance) (program : Program) :
    inst.skeleton.WaitsInSight program ↔ inst.WaitsInSight program := by
  unfold Instance.WaitsInSight Instance.skeleton
  simp only [List.forall_mem_map]
  rfl

theorem Quiet.inSight {program : Program} {before after : Activation}
    (quiet : Quiet program before after) : InSight program before after := by
  intro waits
  rw [← Instance.waitsInSight_skeleton, quiet.skeleton, Instance.waitsInSight_skeleton]
  exact waits

theorem Run.keeps_inSight_of_quiet {α : Type} {run : Run α} {program : Program}
    (quiet : run.Keeps (Quiet program)) : run.Keeps (InSight program) :=
  fun start => (quiet start).mono (fun _ _ => Quiet.inSight) (fun _ => Quiet.inSight)

namespace Setup

variable {setup : Setup} {other : Registry} {caller : Caller}

theorem holdShared_inSight {program : Program} (name : String) {default : Run Value}
    (kept : default.Keeps (Quiet program)) : (holdShared name default).Keeps (InSight program) := by
  intro start
  unfold holdShared
  simp only [Run.ends_bind, Run.ends_get]
  split
  · exact fun waits => waits
  · apply Run.ends_bind.mpr
    exact (kept start).mono (fun _ _ => Quiet.inSight) (fun _ => Quiet.inSight)

theorem execute_inSight (calls : caller.Keeps (Quiet setup.program)) (instruction : Instruction) :
    (setup.execute caller instruction).Keeps (InSight setup.program) := by
  have lasts := InSight.lasts setup.program
  cases instruction with
  | launch | set | call => exact Run.keeps_inSight_of_quiet (execute_keeps calls rfl)
  | goto target => exact fun start waits => waits
  | shared name source =>
      apply lasts.bind (holdShared_inSight name (evalSource_keeps calls source))
      exact fun _ => lasts.pure _

theorem runInstructions_inSight (calls : caller.Keeps (Quiet setup.program)) (suspends : Bool)
    (last : Value) (instructions : List Instruction) :
    (setup.runInstructions caller suspends last instructions).Keeps (InSight setup.program) := by
  have lasts := InSight.lasts setup.program
  induction instructions generalizing last with
  | nil => exact lasts.pure _
  | cons instruction rest inductionHypothesis =>
      rw [runInstructions]
      apply lasts.bind (Run.keeps_inSight_of_quiet (countInstruction_keeps _))
      intro _
      apply lasts.bind (execute_inSight calls instruction)
      intro value
      split
      · cases instruction with
        | launch machine => exact lasts.bind (fun start waits => waits) fun _ => lasts.pure _
        | goto | set | shared | call => exact lasts.pure _
      · exact inductionHypothesis value

theorem runExemplar_inSight (placed : setup.program.Placed) (id : ExemplarId) :
    (setup.runExemplar id).Keeps (InSight setup.program) :=
  runInstructions_inSight (call_keeps placed _) _ _ _

/-- A handler is registered only if its condition is in sight. -/
theorem registerHandler_inSight (handler : ExemplarId) :
    (setup.registerHandler handler).Keeps (InSight setup.program) := by
  intro start
  by_cases sees : setup.program.SeesCondition (setup.program.exemplar handler).name
  · apply (registerHandler_ends handler start).mono
    · rintro _ _ ⟨argument, rfl⟩
      exact fun waits => waits.addCallback sees
    · rintro _ rfl
      exact fun waits => waits
  · obtain ⟨module, named, refused⟩ := refused_of_not_sees sees
    unfold registerHandler
    simp only [named, refused]
    exact fun waits => waits

theorem registerHandlers_inSight (handlers : List ExemplarId) :
    (setup.registerHandlers handlers).Keeps (InSight setup.program) := by
  have lasts := InSight.lasts setup.program
  induction handlers with
  | nil => exact lasts.pure _
  | cons handler rest inductionHypothesis =>
      exact lasts.bind (registerHandler_inSight handler) fun _ => inductionHypothesis

theorem enterState_inSight (placed : setup.program.Placed) (state : ExemplarId) :
    (setup.enterState state).Keeps (InSight setup.program) := by
  have lasts := InSight.lasts setup.program
  unfold enterState
  apply lasts.bind
  · exact fun start waits => waits.pushContext rfl
  · intro _
    apply lasts.bind (registerHandlers_inSight _)
    intro _
    exact lasts.bind (runExemplar_inSight placed state) fun _ => lasts.pure _

theorem initializeInstance_inSight (placed : setup.program.Placed) :
    setup.initializeInstance.Keeps (InSight setup.program) := by
  have lasts := InSight.lasts setup.program
  intro start
  unfold initializeInstance
  rw [Run.ends_bind, Run.ends_get]
  refine lasts.bind (runExemplar_inSight placed _) (fun _ => ?_) start
  split
  · exact enterState_inSight placed _
  · exact lasts.throw _

theorem transition_inSight (placed : setup.program.Placed) (target : String) :
    (setup.transition target).Keeps (InSight setup.program) := by
  have lasts := InSight.lasts setup.program
  unfold transition
  apply lasts.bind
  · exact fun start waits => waits
  · intro _ start
    rw [Run.ends_bind, Run.ends_get]
    split
    · exact lasts.refl start
    · rw [Run.ends_bind, Run.ends_modifyInstance]
      refine lasts.ends_of_keeps (fun waits => ?_) (enterState_inSight placed _)
      exact waits.of_contexts (List.dropWhile_sublist _).subset

/-! ## Polls -/

/-- Two runs end alike if their first parts do, and if what follows does wherever handlers wait in
sight. -/
theorem bind_eq_of_inSight {α β : Type} {program : Program} {first second : Run α}
    {next others : α → Run β} {start : Activation} (waits : start.inst.WaitsInSight program)
    (begins : first start = second start) (kept : second.Keeps (InSight program))
    (follows : ∀ value left, left.inst.WaitsInSight program → next value left = others value left) :
    (first >>= next) start = (second >>= others) start := by
  have ends : second.Ends start (fun _ left => left.inst.WaitsInSight program) fun _ => True :=
    (kept start).mono (fun _ _ inSight => inSight waits) fun _ _ => trivial
  symm
  apply Run.bind_eq_of_ends begins.symm ends
  exact fun value left waitsToo => (follows value left waitsToo).symm

theorem removeCallback_inSight (program : Program) (level index : Nat) :
    (Run.modifyInstance fun inst => inst.removeCallback level index).Keeps (InSight program) :=
  fun _ waits => waits.removeCallback level index

theorem countCallback_inSight (program : Program) : Run.countCallback.Keeps (InSight program) :=
  fun _ waits => waits

theorem pollContext_inSight (placed : setup.program.Placed) (level unseen index : Nat) :
    (setup.pollContext level unseen index).Keeps (InSight setup.program) := by
  have lasts := InSight.lasts setup.program
  induction unseen generalizing index with
  | zero => exact lasts.pure _
  | succ unseen inductionHypothesis =>
      intro start
      simp only [pollContext, Run.ends_bind, Run.ends_get]
      split
      · exact lasts.refl start
      · split
        · exact lasts.refl start
        · exact lasts.refl start
        · exact inductionHypothesis (index + 1) start
        · refine lasts.bind (removeCallback_inSight _ level index) (fun _ => ?_) start
          apply lasts.bind (countCallback_inSight _)
          intro _
          apply lasts.bind (runExemplar_inSight placed _)
          rintro ⟨flow, value⟩ after
          simp only [Run.ends_bind, Run.ends_get]
          split
          · exact lasts.refl after
          · exact inductionHypothesis index after

theorem pollContexts_inSight (placed : setup.program.Placed) (levels : Nat) :
    (setup.pollContexts levels).Keeps (InSight setup.program) := by
  have lasts := InSight.lasts setup.program
  induction levels with
  | zero => exact lasts.pure _
  | succ level inductionHypothesis =>
      intro start
      rw [pollContexts, Run.ends_bind, Run.ends_get]
      refine lasts.bind (pollContext_inSight placed level _ 0) (fun goesOn => ?_) start
      split
      · exact inductionHypothesis
      · exact lasts.pure _

theorem pollHandlers_inSight (placed : setup.program.Placed) :
    setup.pollHandlers.Keeps (InSight setup.program) :=
  fun start => pollContexts_inSight placed _ start

theorem pollContext_withRegistry (agrees : setup.registry.AgreesFor setup.program other)
    (placed : setup.program.Placed) (level unseen index : Nat) {start : Activation}
    (waits : start.inst.WaitsInSight setup.program) :
    (setup.withRegistry other).pollContext level unseen index start
      = setup.pollContext level unseen index start := by
  induction unseen generalizing index start with
  | zero => rfl
  | succ unseen inductionHypothesis =>
      simp only [pollContext, Run.bind_get, runExemplar_withRegistry agrees, registry_withRegistry]
      cases found : start.inst.callback? level index with
      | none => rfl
      | some callback =>
          have sees := waits.callback? found
          have asked : other.isSatisfied callback.condition
              = setup.registry.isSatisfied callback.condition := by
            funext argument elapsed
            simp only [Registry.isSatisfied, agrees.conditions _ sees]
          simp only [asked]
          cases setup.registry.isSatisfied callback.condition callback.argument
              (callback.waited start.world.now) with
          | none => rfl
          | some answer =>
              cases answer with
              | error cause => rfl
              | ok holds =>
                  cases holds with
                  | false => exact inductionHypothesis (index + 1) waits
                  | true =>
                      apply bind_eq_of_inSight waits rfl (removeCallback_inSight _ level index)
                      intro _ removed waits
                      apply bind_eq_of_inSight waits rfl (countCallback_inSight _)
                      intro _ counted waits
                      apply bind_eq_of_inSight waits rfl (runExemplar_inSight placed _)
                      rintro ⟨flow, value⟩ after waits
                      rw [Run.bind_get, Run.bind_get]
                      split
                      · rfl
                      · exact inductionHypothesis index waits

theorem pollContexts_withRegistry (agrees : setup.registry.AgreesFor setup.program other)
    (placed : setup.program.Placed) (levels : Nat) {start : Activation}
    (waits : start.inst.WaitsInSight setup.program) :
    (setup.withRegistry other).pollContexts levels start = setup.pollContexts levels start := by
  induction levels generalizing start with
  | zero => rfl
  | succ level inductionHypothesis =>
      rw [pollContexts, pollContexts, Run.bind_get, Run.bind_get]
      apply bind_eq_of_inSight waits (pollContext_withRegistry agrees placed level _ 0 waits)
        (pollContext_inSight placed level _ 0)
      intro goesOn left waits
      split
      · exact inductionHypothesis waits
      · rfl

/-- Polls ask for conditions in sight, and for nothing else of a registry. -/
theorem pollHandlers_withRegistry (agrees : setup.registry.AgreesFor setup.program other)
    (placed : setup.program.Placed) {start : Activation}
    (waits : start.inst.WaitsInSight setup.program) :
    (setup.withRegistry other).pollHandlers start = setup.pollHandlers start :=
  pollContexts_withRegistry agrees placed _ waits

end Setup

end MachineScript
