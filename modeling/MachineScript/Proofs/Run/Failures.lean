import MachineScript.Proofs.Run.Quiet

/-!
Contract: with which errors a run can end.

Owns:
- how the errors of a run come from those of its parts;
- that no list of instructions, no call and no registration of a handler fails for
  want of a state: only a transition and a launch look states up.
-/

namespace MachineScript

/-- An error about the name of a state. -/
def RuntimeError.isOfState : RuntimeError → Bool
  | .name error => error.kind = .state
  | _ => false

namespace Run

variable {α β : Type} {allowed : RuntimeError → Prop}

/-- If a run fails, then with one of these errors. -/
def FailsWith (allowed : RuntimeError → Prop) (run : Run α) : Prop :=
  ∀ start, match run start with
    | .ok _ _ => True
    | .error cause _ => allowed cause

namespace FailsWith

theorem of_error {run : Run α} (fails : FailsWith allowed run) {start left : Activation}
    {cause : RuntimeError} (ended : run start = .error cause left) : allowed cause := by
  have known := fails start
  rwa [ended] at known

theorem pure (value : α) : FailsWith allowed (pure value : Run α) :=
  fun _ => trivial

theorem get : FailsWith allowed (get : Run Activation) :=
  fun _ => trivial

theorem modify (change : Activation → Activation) : FailsWith allowed (modify change : Run Unit) :=
  fun _ => trivial

theorem modifyInstance (change : Instance → Instance) : FailsWith allowed (modifyInstance change) :=
  fun _ => trivial

theorem modifyWorld (change : World → World) : FailsWith allowed (modifyWorld change) :=
  fun _ => trivial

theorem throw {cause : RuntimeError} (isAllowed : allowed cause) :
    FailsWith allowed (throw cause : Run α) :=
  fun _ => isAllowed

theorem bind {first : Run α} {next : α → Run β} (before : FailsWith allowed first)
    (after : ∀ value, FailsWith allowed (next value)) : FailsWith allowed (first >>= next) := by
  intro start
  cases ended : first start with
  | ok value middle =>
      rw [bind_of_ok ended]
      exact after value middle
  | error cause middle =>
      rw [bind_of_error ended]
      exact before.of_error ended

end FailsWith

end Run

namespace Setup

variable {setup : Setup}

/-- No error of a run is about a state. -/
abbrev SparesStates {α : Type} (run : Run α) : Prop :=
  run.FailsWith fun cause => cause.isOfState = false

theorem isOfState_variableError (setup : Setup) (name : String) :
    (RuntimeError.name (setup.variableError name)).isOfState = false := by
  unfold variableError
  split
  · split <;> rfl
  · rfl

theorem error_of_resolve (setup : Setup) {world : World} {inst : Instance} {name : String}
    {error : NameError} (unresolved : setup.resolve world inst name = .error error) :
    error = setup.variableError name := by
  unfold resolve at unresolved
  simp only at unresolved
  repeat' split at unresolved
  all_goals cases unresolved
  rfl

theorem isOfState_of_readVariable {world : World} {inst : Instance} {name : String}
    {error : NameError} (missing : setup.readVariable world inst name = .error error) :
    (RuntimeError.name error).isOfState = false := by
  unfold readVariable at missing
  cases resolved : setup.resolve world inst name with
  | ok slot =>
      rw [resolved] at missing
      cases missing
  | error other =>
      rw [resolved] at missing
      cases missing
      rw [setup.error_of_resolve resolved]
      exact setup.isOfState_variableError name

theorem evalConstant_sparesStates (setup : Setup) (constant : Constant) :
    SparesStates (setup.evalConstant constant) := by
  unfold evalConstant
  split
  · apply Run.FailsWith.get.bind
    intro activation
    split
    · exact .pure _
    · next error missing => exact .throw (isOfState_of_readVariable missing)
  · exact .pure _

variable {caller : Caller}

mutual

theorem evalSource_sparesStates (calls : ∀ name arguments, SparesStates (caller name arguments))
    (source : Source) : SparesStates (setup.evalSource caller source) := by
  cases source with
  | constant constant =>
      rw [evalSource]
      exact setup.evalConstant_sparesStates constant
  | nested id callee arguments =>
      rw [evalSource]
      apply (Run.FailsWith.modifyWorld _).bind
      intro _
      exact (evalSources_sparesStates calls arguments).bind (calls callee)

theorem evalSources_sparesStates (calls : ∀ name arguments, SparesStates (caller name arguments))
    (sources : List Source) : SparesStates (setup.evalSources caller sources) := by
  cases sources with
  | nil =>
      rw [evalSources]
      exact .pure _
  | cons source rest =>
      rw [evalSources]
      apply (evalSource_sparesStates calls source).bind
      intro value
      exact (evalSources_sparesStates calls rest).bind fun _ => .pure _

end

theorem launch_sparesStates (setup : Setup) (name : String) : SparesStates (setup.launch name) := by
  unfold launch
  apply Run.FailsWith.get.bind
  intro activation
  split
  · exact .modifyWorld _
  · exact .throw rfl

theorem holdShared_sparesStates (name : String) {default : Run Value}
    (evaluates : SparesStates default) : SparesStates (holdShared name default) := by
  unfold holdShared
  apply Run.FailsWith.get.bind
  intro activation
  dsimp only
  split
  · exact fun _ => trivial
  · exact evaluates.bind fun value => (Run.FailsWith.modifyWorld _).bind fun _ => .modifyInstance _

theorem execute_sparesStates (calls : ∀ name arguments, SparesStates (caller name arguments))
    (instruction : Instruction) : SparesStates (setup.execute caller instruction) := by
  cases instruction with
  | launch machine => exact (setup.launch_sparesStates machine).bind fun _ => .pure _
  | goto target => exact fun _ => trivial
  | set name source =>
      apply (evalSource_sparesStates calls source).bind
      intro value
      exact (Run.FailsWith.modify _).bind fun _ => .pure _
  | shared name source =>
      exact (holdShared_sparesStates name (evalSource_sparesStates calls source)).bind
        fun _ => .pure _
  | call callee arguments => exact (evalSources_sparesStates calls arguments).bind (calls callee)

theorem runInstructions_sparesStates
    (calls : ∀ name arguments, SparesStates (caller name arguments)) (suspends : Bool)
    (last : Value) (instructions : List Instruction) :
    SparesStates (setup.runInstructions caller suspends last instructions) := by
  induction instructions generalizing last with
  | nil => exact .pure _
  | cons instruction rest inductionHypothesis =>
      rw [runInstructions]
      apply (Run.FailsWith.modifyWorld _).bind
      intro _
      apply (execute_sparesStates calls instruction).bind
      intro value
      split
      · cases instruction <;> exact fun _ => trivial
      · exact inductionHypothesis value

theorem callLibrary_sparesStates (setup : Setup) (name : String) (arguments : List Value) :
    SparesStates (setup.callLibrary name arguments) := by
  unfold callLibrary
  split
  · exact .throw rfl
  · split
    · exact .throw rfl
    · split
      · exact .throw rfl
      · split
        · exact fun _ => trivial
        · exact .throw rfl

theorem inFrame_sparesStates {frame : Context} {body : Run (Flow × Value)}
    (inside : SparesStates body) : SparesStates (inFrame frame body) := by
  intro start
  have ended := inside (start.openFrame frame)
  rw [show inFrame frame body start = closeFrame (body (start.openFrame frame)) from rfl]
  cases same : body (start.openFrame frame) with
  | ok result left => trivial
  | error cause left =>
      rw [same] at ended
      exact ended

/-- The induction is on the calls that may still be nested. -/
theorem call_sparesStates (setup : Setup) (remaining : Nat) :
    ∀ name arguments, SparesStates (setup.call remaining name arguments) := by
  induction remaining with
  | zero =>
      intro name arguments
      unfold call
      apply Run.FailsWith.get.bind
      intro activation
      split
      · exact setup.callLibrary_sparesStates name arguments
      · dsimp only
        split
        · exact .throw rfl
        · exact .throw rfl
  | succ remaining inductionHypothesis =>
      intro name arguments
      unfold call
      apply Run.FailsWith.get.bind
      intro activation
      split
      · exact setup.callLibrary_sparesStates name arguments
      · dsimp only
        split
        · exact .throw rfl
        · exact inFrame_sparesStates (runInstructions_sparesStates inductionHypothesis _ .nil _)

theorem runExemplar_sparesStates (setup : Setup) (id : ExemplarId) :
    SparesStates (setup.runExemplar id) :=
  runInstructions_sparesStates (setup.call_sparesStates _) _ .nil _

theorem registerHandler_sparesStates (setup : Setup) (handler : ExemplarId) :
    SparesStates (setup.registerHandler handler) := by
  unfold registerHandler
  simp only
  split
  focus
    split
    · exact fun _ => rfl
  -- What follows the check of the module is the same in both branches that are left.
  all_goals
    split
    · exact fun _ => rfl
    · split
      · exact (setup.evalConstant_sparesStates _).bind fun _ => fun _ => trivial
      · exact fun _ => trivial

theorem registerHandlers_sparesStates (setup : Setup) (handlers : List ExemplarId) :
    SparesStates (setup.registerHandlers handlers) := by
  induction handlers with
  | nil => exact .pure _
  | cons handler rest inductionHypothesis =>
      exact (setup.registerHandler_sparesStates handler).bind fun _ => inductionHypothesis

end Setup

end MachineScript
