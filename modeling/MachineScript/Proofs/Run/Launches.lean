import MachineScript.Proofs.Run.Errands
import MachineScript.Proofs.Tick

/-!
Contract: the launches that a run executes, in order.

Owns:
- logs, which tell the launches of a run from where it starts, for every kind
  of run; each `launch` that finds its machine is in them once, with the
  instance that executes it, and nothing else is;
- that a run, whether it returns or fails, leaves the queue as it was with its
  log behind it.

Does not own: who services the queue.
-/

namespace MachineScript

/-- The launches that a run executes, told from where it starts. -/
abbrev LaunchLog := Activation → List PendingLaunch

namespace LaunchLog

def none : LaunchLog := fun _ => []

/-- What is launched behind a run that launches nothing. -/
def after {α : Type} (run : Run α) (next : α → LaunchLog) : LaunchLog := fun start =>
  match run start with
  | .ok value left => next value left
  | .error _ _ => []

/-- What a run launches, and then what is launched behind it. -/
def andThen {α : Type} (log : LaunchLog) (run : Run α) (next : α → LaunchLog) : LaunchLog :=
  fun start => log start ++ after run next start

end LaunchLog

/-! ## Logs -/

namespace Setup

mutual

/-- The launches of the calls in a source, given those of a call. -/
def sourceLog (setup : Setup) (caller : Caller) (log : String → List Value → LaunchLog) :
    Source → LaunchLog
  | .constant _ => .none
  | .nested _ callee arguments =>
      .after Run.countInstruction fun _ =>
        (sourcesLog setup caller log arguments).andThen (setup.evalSources caller arguments)
          (log callee)

def sourcesLog (setup : Setup) (caller : Caller) (log : String → List Value → LaunchLog) :
    List Source → LaunchLog
  | [] => .none
  | source :: rest =>
      (sourceLog setup caller log source).andThen (setup.evalSource caller source) fun _ =>
        sourcesLog setup caller log rest

end

/-- A `launch` that finds its machine. -/
def launchLog (setup : Setup) (name : String) : LaunchLog := fun start =>
  match setup.findMachine start.inst name with
  | some machine => [⟨machine, start.inst.id⟩]
  | none => []

/-- The launches of an instruction. The default of a shared variable that exists is not
evaluated. -/
def executeLog (setup : Setup) (caller : Caller) (log : String → List Value → LaunchLog) :
    Instruction → LaunchLog
  | .launch machine => setup.launchLog machine
  | .goto _ => .none
  | .set _ source => setup.sourceLog caller log source
  | .shared name source => fun start =>
      match start.world.shared.retain? (start.inst.machine, name) with
      | some _ => []
      | none => setup.sourceLog caller log source start
  | .call callee arguments =>
      (setup.sourcesLog caller log arguments).andThen (setup.evalSources caller arguments)
        (log callee)

/-- The launches of a list of instructions, as far as it runs. -/
def instructionsLog (setup : Setup) (caller : Caller) (log : String → List Value → LaunchLog)
    (suspends : Bool) : List Instruction → LaunchLog
  | [] => .none
  | instruction :: rest =>
      .after Run.countInstruction fun _ =>
        (setup.executeLog caller log instruction).andThen (setup.execute caller instruction)
          fun _ =>
            if suspends && instruction.isTransfer then .none
            else setup.instructionsLog caller log suspends rest

def exemplarLogWith (setup : Setup) (caller : Caller) (log : String → List Value → LaunchLog)
    (id : ExemplarId) : LaunchLog :=
  let exemplar := setup.program.exemplar id
  setup.instructionsLog caller log exemplar.construct.suspends exemplar.instructions

/-- The launches of a call: those of the function's body, if the body runs. -/
def callLog (setup : Setup) : (remaining : Nat) → String → List Value → LaunchLog
  | remaining, name, arguments => fun start =>
      match setup.findFunction start.inst name with
      | none => []
      | some function =>
          let exemplar := setup.program.exemplar function
          if arguments.length ≠ exemplar.parameters.length then []
          else match remaining with
            | 0 => []
            | remaining + 1 =>
                let frame := (Context.frame function exemplar.isPure).bind
                  exemplar.parameters arguments
                setup.exemplarLogWith (setup.call remaining) (setup.callLog remaining) function
                  (start.openFrame frame)

def exemplarLog (setup : Setup) (id : ExemplarId) : LaunchLog :=
  setup.exemplarLogWith (setup.call setup.config.maxCallDepth)
    (setup.callLog setup.config.maxCallDepth) id

/-- The launches of a state that is entered. Letting its handlers wait launches nothing. -/
def stateLog (setup : Setup) (state : ExemplarId) : LaunchLog :=
  .after (Run.modifyInstance fun inst => inst.pushContext (Context.state state)) fun _ =>
    .after (setup.registerHandlers (setup.program.exemplar state).handlers) fun _ =>
      setup.exemplarLog state

/-- The launches of the handlers of a context that fire. -/
def contextLog (setup : Setup) (level : Nat) : (unseen : Nat) → (index : Nat) → LaunchLog
  | 0, _ => .none
  | unseen + 1, index => fun start =>
      match start.inst.callback? level index with
      | none => []
      | some callback =>
          let elapsed := callback.waited start.world.now
          match setup.registry.isSatisfied callback.condition callback.argument elapsed with
          | none => []
          | some (.error _) => []
          | some (.ok false) => setup.contextLog level unseen (index + 1) start
          | some (.ok true) =>
              LaunchLog.after (Run.modifyInstance fun inst => inst.removeCallback level index)
                (fun _ => .after Run.countCallback fun _ =>
                  (setup.exemplarLog callback.handler).andThen
                    (setup.runExemplar callback.handler) fun ended left =>
                      if ended.1 = .suspended && left.inst.transitionQueued then []
                      else setup.contextLog level unseen index left) start

def contextsLog (setup : Setup) : (levels : Nat) → LaunchLog
  | 0 => .none
  | level + 1 => fun start =>
      let waiting := match start.inst.contexts[level]? with
        | some context => context.callbacks.length
        | none => 0
      ((setup.contextLog level waiting 0).andThen (setup.pollContext level waiting 0) fun goesOn =>
        if goesOn then setup.contextsLog level else .none) start

end Setup

/-- The launches on the way to the state that an errand enters. -/
def Errand.destinationLog (setup : Setup) : Errand → LaunchLog
  | .launch => fun start => setup.exemplarLog start.inst.machine start
  | .transition _ => .none
  | .poll => fun start => setup.contextsLog start.inst.contexts.length start

/-- The launches that an errand executes. -/
def Errand.log (setup : Setup) (errand : Errand) : LaunchLog :=
  (errand.destinationLog setup).andThen (errand.destination setup) fun destination =>
    match destination with
    | some state => setup.stateLog state
    | none => .none

/-! ## Runs and their logs -/

namespace Run

variable {α β : Type} {log : LaunchLog}

/-- However a run ends, the launches of its log are in the queue behind those that waited. -/
def Launches (run : Run α) (log : LaunchLog) : Prop :=
  ∀ start, run.Ends start
    (fun _ left => left.world.launches = start.world.launches ++ log start)
    (fun left => left.world.launches = start.world.launches ++ log start)

namespace Launches

theorem of_keeps {run : Run α}
    (kept : run.Keeps fun start left => left.world.launches = start.world.launches) :
    run.Launches .none := by
  intro start
  have same {left : Activation} (kept : left.world.launches = start.world.launches) :
      left.world.launches = start.world.launches ++ LaunchLog.none start := by
    rw [kept]
    exact (List.append_nil _).symm
  exact (kept start).mono (fun _ _ => same) fun _ => same

theorem pure (value : α) : Launches (pure value : Run α) .none :=
  of_keeps fun _ => rfl

theorem throw (error : RuntimeError) : Launches (throw error : Run α) .none :=
  of_keeps fun _ => rfl

theorem bind {first : Run α} {next : α → Run β} {logs : α → LaunchLog}
    (launches : first.Launches log) (others : ∀ value, (next value).Launches (logs value)) :
    (first >>= next).Launches (log.andThen first logs) := by
  intro start
  have before := launches start
  unfold LaunchLog.andThen LaunchLog.after
  cases ended : first start with
  | ok value left =>
      have behind {last : Activation}
          (queue : last.world.launches = left.world.launches ++ logs value left) :
          last.world.launches = start.world.launches ++ (log start ++ logs value left) := by
        rw [queue, before.of_ok ended, List.append_assoc]
      unfold Ends
      rw [bind_of_ok ended]
      exact (others value left).mono (fun _ _ => behind) fun _ => behind
  | error cause left =>
      unfold Ends
      rw [bind_of_error ended]
      change left.world.launches = start.world.launches ++ (log start ++ [])
      rw [before.of_error ended, List.append_nil]

/-- A run that launches nothing may come first. -/
theorem behind {first : Run α} {next : α → Run β} {logs : α → LaunchLog}
    (silent : first.Launches .none) (others : ∀ value, (next value).Launches (logs value)) :
    (first >>= next).Launches (.after first logs) :=
  silent.bind others

/-- So may one come last. -/
theorem before {first : Run α} {next : α → Run β} (launches : first.Launches log)
    (silent : ∀ value, (next value).Launches .none) : (first >>= next).Launches log := by
  intro start
  have both := launches.bind silent start
  have same : log.andThen first (fun _ => .none) start = log start := by
    unfold LaunchLog.andThen LaunchLog.after
    cases first start <;> exact List.append_nil _
  rw [same] at both
  exact both

end Launches

end Run

/-! ### Instructions and calls -/

/-- A write of a variable launches nothing. -/
theorem Activation.launches_of_skeleton {before after : Activation}
    (same : after.skeleton = before.skeleton) : after.world.launches = before.world.launches :=
  congrArg (fun activation => activation.world.launches) same

namespace Setup

variable {setup : Setup} {caller : Caller} {log : String → List Value → LaunchLog}

theorem countInstruction_launches : Run.countInstruction.Launches .none :=
  .of_keeps fun _ => rfl

theorem evalConstant_launches (constant : Constant) :
    (setup.evalConstant constant).Launches .none :=
  .of_keeps fun start =>
    (evalConstant_ends constant start).mono (fun _ _ same => same ▸ rfl) fun _ same => same ▸ rfl

mutual

theorem evalSource_launches (calls : ∀ name arguments,
      (caller name arguments).Launches (log name arguments)) (source : Source) :
    (setup.evalSource caller source).Launches (setup.sourceLog caller log source) := by
  cases source with
  | constant constant =>
      rw [evalSource, sourceLog]
      exact evalConstant_launches constant
  | nested id callee arguments =>
      rw [evalSource, sourceLog]
      apply countInstruction_launches.behind
      intro _
      exact (evalSources_launches calls arguments).bind (calls callee)

theorem evalSources_launches (calls : ∀ name arguments,
      (caller name arguments).Launches (log name arguments)) (sources : List Source) :
    (setup.evalSources caller sources).Launches (setup.sourcesLog caller log sources) := by
  cases sources with
  | nil =>
      rw [evalSources, sourcesLog]
      exact .pure _
  | cons source rest =>
      rw [evalSources, sourcesLog]
      apply (evalSource_launches calls source).bind
      intro _
      exact (evalSources_launches calls rest).before fun _ => .pure _

end

theorem launch_launches (setup : Setup) (name : String) :
    (setup.launch name).Launches (setup.launchLog name) := by
  intro start
  unfold launch launchLog
  rw [Run.ends_bind, Run.ends_get]
  cases setup.findMachine start.inst name with
  | some machine => exact rfl
  | none => exact Run.Launches.throw _ start

theorem holdShared_launches (name : String) {default : Run Value} {defaultLog : LaunchLog}
    (launches : default.Launches defaultLog) :
    (holdShared name default).Launches fun start =>
      match start.world.shared.retain? (start.inst.machine, name) with
      | some _ => []
      | none => defaultLog start := by
  intro start
  unfold holdShared
  simp only [Run.ends_bind, Run.ends_get]
  cases start.world.shared.retain? (start.inst.machine, name) with
  | some cells => exact (List.append_nil _).symm
  | none =>
      rw [Run.ends_bind]
      exact (launches start).mono (fun _ _ queue => queue) fun _ queue => queue

theorem execute_launches (calls : ∀ name arguments,
      (caller name arguments).Launches (log name arguments)) (instruction : Instruction) :
    (setup.execute caller instruction).Launches (setup.executeLog caller log instruction) := by
  cases instruction with
  | launch machine => exact (setup.launch_launches machine).before fun _ => .pure _
  | goto target => exact .of_keeps fun _ => rfl
  | set name source =>
      apply (evalSource_launches calls source).before
      intro value
      apply Run.Launches.before _ fun _ => .pure _
      exact .of_keeps (Run.keeps_modify fun start =>
        Activation.launches_of_skeleton (start.skeleton_set setup name value))
  | shared name source =>
      exact (holdShared_launches name (evalSource_launches calls source)).before fun _ => .pure _
  | call callee arguments => exact (evalSources_launches calls arguments).bind (calls callee)

theorem runInstructions_launches (calls : ∀ name arguments,
      (caller name arguments).Launches (log name arguments)) (suspends : Bool) (last : Value)
    (instructions : List Instruction) :
    (setup.runInstructions caller suspends last instructions).Launches
      (setup.instructionsLog caller log suspends instructions) := by
  induction instructions generalizing last with
  | nil => exact .pure _
  | cons instruction rest inductionHypothesis =>
      rw [runInstructions, instructionsLog]
      apply countInstruction_launches.behind
      intro _
      apply (execute_launches calls instruction).bind
      intro value
      split
      · apply Run.Launches.of_keeps
        intro start
        cases instruction <;> rfl
      · exact inductionHypothesis value

theorem runExemplarWith_launches (calls : ∀ name arguments,
      (caller name arguments).Launches (log name arguments)) (id : ExemplarId) :
    (setup.runExemplarWith caller id).Launches (setup.exemplarLogWith caller log id) :=
  runInstructions_launches calls _ .nil _

theorem callLibrary_launches (setup : Setup) (name : String) (arguments : List Value) :
    (setup.callLibrary name arguments).Launches .none := by
  unfold callLibrary
  split
  · exact .throw _
  · split
    · exact .throw _
    · split
      · exact .throw _
      · split
        · exact .of_keeps fun _ => rfl
        · exact .throw _

theorem call_launches (setup : Setup) (remaining : Nat) (name : String) (arguments : List Value) :
    (setup.call remaining name arguments).Launches (setup.callLog remaining name arguments) := by
  induction remaining generalizing name arguments with
  | zero =>
      intro start
      simp only [call, callLog, Run.ends_bind, Run.ends_get]
      cases setup.findFunction start.inst name with
      | none => exact setup.callLibrary_launches name arguments start
      | some function =>
          simp only
          split
          · exact Run.Launches.throw _ start
          · exact Run.Launches.throw _ start
  | succ remaining inductionHypothesis =>
      intro start
      simp only [call, callLog, Run.ends_bind, Run.ends_get]
      cases setup.findFunction start.inst name with
      | none => exact setup.callLibrary_launches name arguments start
      | some function =>
          simp only
          split
          · exact Run.Launches.throw _ start
          · rw [ends_inFrame]
            exact runExemplarWith_launches inductionHypothesis function _

theorem runExemplar_launches (setup : Setup) (id : ExemplarId) :
    (setup.runExemplar id).Launches (setup.exemplarLog id) :=
  runExemplarWith_launches (setup.call_launches _) id

theorem registerHandlers_launches (setup : Setup) (handlers : List ExemplarId) :
    (setup.registerHandlers handlers).Launches .none := by
  induction handlers with
  | nil => exact .pure _
  | cons handler rest inductionHypothesis =>
      apply Run.Launches.before _ fun _ => inductionHypothesis
      apply Run.Launches.of_keeps
      intro start
      apply (registerHandler_ends handler start).mono
      · rintro _ _ ⟨argument, rfl⟩
        rfl
      · rintro _ rfl
        rfl

theorem enterState_launches (setup : Setup) (state : ExemplarId) :
    (setup.enterState state).Launches (setup.stateLog state) := by
  have opens : (Run.modifyInstance fun inst =>
      inst.pushContext (Context.state state)).Launches .none := .of_keeps fun _ => rfl
  apply opens.behind
  intro _
  apply (setup.registerHandlers_launches _).behind
  intro _
  exact (setup.runExemplar_launches state).before fun _ => .pure _

theorem pollContext_launches (setup : Setup) (level unseen index : Nat) :
    (setup.pollContext level unseen index).Launches (setup.contextLog level unseen index) := by
  induction unseen generalizing index with
  | zero => exact .pure _
  | succ unseen inductionHypothesis =>
      intro start
      simp only [pollContext, contextLog, Run.ends_bind, Run.ends_get]
      cases start.inst.callback? level index with
      | none => exact Run.Launches.pure _ start
      | some callback =>
          simp only
          cases setup.registry.isSatisfied callback.condition callback.argument
              (callback.waited start.world.now) with
          | none => exact Run.Launches.throw _ start
          | some answer =>
              cases answer with
              | error cause => exact Run.Launches.throw _ start
              | ok holds =>
                  cases holds with
                  | false => exact inductionHypothesis (index + 1) start
                  | true =>
                      have removes : (Run.modifyInstance fun inst =>
                          inst.removeCallback level index).Launches .none := .of_keeps fun _ => rfl
                      have counts : Run.countCallback.Launches .none := .of_keeps fun _ => rfl
                      refine removes.behind (fun _ => counts.behind fun _ =>
                        (setup.runExemplar_launches callback.handler).bind ?_) start
                      rintro ⟨flow, value⟩ after
                      simp only [Run.ends_bind, Run.ends_get]
                      split
                      · exact Run.Launches.pure _ after
                      · exact inductionHypothesis index after

theorem pollContexts_launches (setup : Setup) (levels : Nat) :
    (setup.pollContexts levels).Launches (setup.contextsLog levels) := by
  induction levels with
  | zero => exact .pure _
  | succ level inductionHypothesis =>
      intro start
      rw [pollContexts, contextsLog, Run.ends_bind, Run.ends_get]
      refine (setup.pollContext_launches level _ 0).bind ?_ start
      intro goesOn
      split
      · exact inductionHypothesis
      · exact .pure _

end Setup

/-! ### Errands -/

theorem Errand.destination_launches (setup : Setup) (errand : Errand) :
    (errand.destination setup).Launches (errand.destinationLog setup) := by
  intro start
  cases errand with
  | launch =>
      simp only [destination, destinationLog, Run.ends_bind, Run.ends_get]
      rw [← Run.ends_bind]
      refine (setup.runExemplar_launches start.inst.machine).before ?_ start
      intro _
      split
      · exact .pure _
      · exact .throw _
  | transition target =>
      have clears : (Run.modifyInstance fun inst =>
          { inst with transitionQueued := false, parked := false }).Launches .none :=
        .of_keeps fun _ => rfl
      refine clears.before ?_ start
      intro _ cleared
      rw [Run.ends_bind, Run.ends_get]
      cases setup.findState cleared.inst target with
      | none => exact Run.Launches.throw _ cleared
      | some state => exact (List.append_nil _).symm
  | poll =>
      refine Run.Launches.before ?_ (fun _ => .pure _) start
      intro polled
      exact setup.pollContexts_launches polled.inst.contexts.length polled

/-- However an errand ends, it leaves the queue as it was, with its launches behind. -/
theorem Errand.run_launches (setup : Setup) (errand : Errand) :
    (errand.run setup).Launches (errand.log setup) := by
  rw [Errand.run_eq]
  apply (errand.destination_launches setup).bind
  intro destination
  cases destination with
  | none => exact .pure _
  | some state => exact setup.enterState_launches state

/-- Settling an instance or halting it launches nothing. -/
theorem Engine.launches_activate {engine : Engine} {inst : Instance} {run : Run Unit}
    {log : LaunchLog} (launches : run.Launches log) :
    (engine.activate inst run).2.world.launches
      = engine.world.launches ++ log (engine.starting inst) := by
  rcases activate_of_ends (launches _) with ⟨left, queue, put⟩ | ⟨fault, left, queue, put⟩
  · rw [put]
    exact queue
  · rw [put]
    exact queue

end MachineScript
