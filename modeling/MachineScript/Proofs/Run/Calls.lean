import MachineScript.Proofs.Run.Errands

/-!
Contract: calls by the depth that an instance counts.

Owns:
- the call that looks at the instance's own count of open calls, and at nothing
  else, to find out whether one more may be opened;
- that this is how the engine calls: what it counts down is what that count
  leaves of the limit, at every depth.

Does not own: how often a run calls.
-/

namespace MachineScript

/-- Two ways to call have the same effect wherever so many calls are open. -/
def Caller.AgreesAt (depth : Nat) (caller other : Caller) : Prop :=
  ∀ name arguments start, start.inst.callDepth = depth →
    caller name arguments start = other name arguments start

/-- A quiet run leaves as many calls open as there were. -/
theorem Run.Keeps.callDepth {α : Type} {run : Run α} {program : Program}
    (kept : run.Keeps (Quiet program)) {depth : Nat} {start : Activation}
    (here : start.inst.callDepth = depth) :
    run.Ends start (fun _ left => left.inst.callDepth = depth) fun _ => True :=
  (kept start).mono (fun _ _ quiet => quiet.calm.callDepth.trans here) fun _ _ => trivial

namespace Setup

variable {setup : Setup} {caller other : Caller} {depth : Nat}

/-- So does every instruction, if the calls in it are quiet. -/
theorem execute_callDepth (calls : caller.Keeps (Quiet setup.program)) (instruction : Instruction)
    {start : Activation} (here : start.inst.callDepth = depth) :
    (setup.execute caller instruction).Ends start
      (fun _ left => left.inst.callDepth = depth) fun _ => True := by
  by_cases isGoto : ∃ target, instruction = .goto target
  · obtain ⟨target, rfl⟩ := isGoto
    exact here
  · have notGoto : ∀ target, instruction ≠ .goto target := fun target same =>
      isGoto ⟨target, same⟩
    exact (execute_calm calls notGoto start).mono
      (fun _ _ calm => calm.callDepth.trans here) fun _ _ => trivial

/-! ## Runs whose calls agree at a depth -/

mutual

theorem evalSource_agrees (agrees : caller.AgreesAt depth other)
    (calls : caller.Keeps (Quiet setup.program)) (source : Source) {start : Activation}
    (here : start.inst.callDepth = depth) :
    setup.evalSource caller source start = setup.evalSource other source start := by
  cases source with
  | constant constant => rw [evalSource, evalSource]
  | nested id callee arguments =>
      rw [evalSource, evalSource]
      apply Run.bind_eq_of_ends rfl ((countInstruction_keeps setup.program).callDepth here)
      intro _ counted here
      apply Run.bind_eq_of_ends (evalSources_agrees agrees calls arguments here)
        ((evalSources_keeps calls arguments).callDepth here)
      exact agrees callee

theorem evalSources_agrees (agrees : caller.AgreesAt depth other)
    (calls : caller.Keeps (Quiet setup.program)) (sources : List Source) {start : Activation}
    (here : start.inst.callDepth = depth) :
    setup.evalSources caller sources start = setup.evalSources other sources start := by
  cases sources with
  | nil => rw [evalSources, evalSources]
  | cons source rest =>
      rw [evalSources, evalSources]
      apply Run.bind_eq_of_ends (evalSource_agrees agrees calls source here)
        ((evalSource_keeps calls source).callDepth here)
      intro value left here
      apply Run.bind_eq_of_ends (evalSources_agrees agrees calls rest here)
        ((evalSources_keeps calls rest).callDepth here)
      exact fun _ _ _ => rfl

end

section

variable (agrees : caller.AgreesAt depth other) (calls : caller.Keeps (Quiet setup.program))
include agrees calls

theorem execute_agrees (instruction : Instruction) {start : Activation}
    (here : start.inst.callDepth = depth) :
    setup.execute caller instruction start = setup.execute other instruction start := by
  cases instruction with
  | launch machine => rfl
  | goto target => rfl
  | set name source =>
      apply Run.bind_eq_of_ends (evalSource_agrees agrees calls source here)
        ((evalSource_keeps calls source).callDepth here)
      exact fun _ _ _ => rfl
  | shared name source =>
      rw [execute, execute]
      unfold holdShared
      simp only [bind_assoc, Run.bind_get]
      cases start.world.shared.retain? (start.inst.machine, name) with
      | some cells => rfl
      | none =>
          simp only [bind_assoc]
          apply Run.bind_eq_of_ends (evalSource_agrees agrees calls source here)
            ((evalSource_keeps calls source).callDepth here)
          exact fun _ _ _ => rfl
  | call callee arguments =>
      apply Run.bind_eq_of_ends (evalSources_agrees agrees calls arguments here)
        ((evalSources_keeps calls arguments).callDepth here)
      exact agrees callee

theorem runInstructions_agrees (suspends : Bool) (last : Value) (instructions : List Instruction)
    {start : Activation} (here : start.inst.callDepth = depth) :
    setup.runInstructions caller suspends last instructions start
      = setup.runInstructions other suspends last instructions start := by
  induction instructions generalizing last start with
  | nil => rfl
  | cons instruction rest inductionHypothesis =>
      rw [runInstructions, runInstructions]
      apply Run.bind_eq_of_ends rfl ((countInstruction_keeps setup.program).callDepth here)
      intro _ counted here
      apply Run.bind_eq_of_ends (execute_agrees agrees calls instruction here)
        (execute_callDepth calls instruction here)
      intro value left here
      split
      · rfl
      · exact inductionHypothesis value here

theorem runExemplarWith_agrees (id : ExemplarId) {start : Activation}
    (here : start.inst.callDepth = depth) :
    setup.runExemplarWith caller id start = setup.runExemplarWith other id start :=
  runInstructions_agrees agrees calls _ .nil _ here

end

/-! ## Calls by depth -/

/-- A call that opens a frame as long as fewer calls are open than the limit allows, given the calls
inside that frame. -/
def callWithin (setup : Setup) (inner : Caller) : Caller := fun name arguments => do
  let activation ← get
  match setup.findFunction activation.inst name with
  | none => setup.callLibrary name arguments
  | some function =>
      let exemplar := setup.program.exemplar function
      let expected := exemplar.parameters.length
      if arguments.length ≠ expected then
        throw (.library (.arity exemplar.name
          (String.ofList (Number.digits expected)) arguments.length))
      else if setup.config.maxCallDepth ≤ activation.inst.callDepth then
        throw (.recursionLimit setup.config.maxCallDepth)
      else
        let frame := (Context.frame function exemplar.isPure).bind exemplar.parameters arguments
        inFrame frame (setup.runExemplarWith inner function)

/-- A call of the engine, with what the open calls leave of the limit. -/
def callAtDepth (setup : Setup) : Caller := fun name arguments start =>
  setup.call (setup.config.maxCallDepth - start.inst.callDepth) name arguments start

theorem callAtDepth_of_kept (setup : Setup) {relation : Activation → Activation → Prop}
    (kept : KeptByRuns relation) : setup.callAtDepth.Keeps relation :=
  fun name arguments start => kept.calls _ name arguments start

theorem callAtDepth_keeps (placed : setup.program.Placed) :
    setup.callAtDepth.Keeps (Quiet setup.program) :=
  fun name arguments start => call_keeps placed _ name arguments start

theorem call_agreesAt {remaining : Nat} (left : setup.config.maxCallDepth - depth = remaining) :
    Caller.AgreesAt depth (setup.call remaining) setup.callAtDepth := by
  intro name arguments start here
  unfold callAtDepth
  rw [here, left]

/-- The engine's calls are those that the open calls alone decide on, also inside each other. -/
theorem callAtDepth_eq (placed : setup.program.Placed) :
    setup.callAtDepth = setup.callWithin setup.callAtDepth := by
  funext name arguments start
  change setup.call (setup.config.maxCallDepth - start.inst.callDepth) name arguments start = _
  unfold callWithin
  cases budget : setup.config.maxCallDepth - start.inst.callDepth with
  | zero =>
      have full : setup.config.maxCallDepth ≤ start.inst.callDepth := by omega
      cases found : setup.findFunction start.inst name with
      | none => simp only [call, Run.bind_get, found]
      | some function => simp only [call, Run.bind_get, found, full, if_true]
  | succ remaining =>
      have room : ¬setup.config.maxCallDepth ≤ start.inst.callDepth := by omega
      simp only [call, Run.bind_get, room, if_false]
      cases setup.findFunction start.inst name with
      | none => rfl
      | some function =>
          simp only
          split
          · rfl
          · apply inFrame_congr
            apply runExemplarWith_agrees (call_agreesAt _) (call_keeps placed _) function rfl
            change setup.config.maxCallDepth - (start.inst.callDepth + 1) = remaining
            omega

/-- Nothing else is a call that makes its own calls like that: however functions call one another,
what a call does is decided. -/
theorem eq_callAtDepth_iff (placed : setup.program.Placed) :
    caller = setup.callWithin caller ↔ caller = setup.callAtDepth := by
  constructor
  · intro recurses
    have agrees : ∀ remaining depth, setup.config.maxCallDepth - depth = remaining →
        setup.callAtDepth.AgreesAt depth caller := by
      intro remaining
      induction remaining with
      | zero =>
          intro depth left name arguments start here
          have full : setup.config.maxCallDepth ≤ start.inst.callDepth := by omega
          rw [callAtDepth_eq placed, recurses]
          simp only [callWithin, Run.bind_get, full, if_true]
      | succ remaining inductionHypothesis =>
          intro depth left name arguments start here
          have inner := inductionHypothesis (depth + 1) (by omega)
          rw [callAtDepth_eq placed, recurses]
          simp only [callWithin, Run.bind_get]
          cases setup.findFunction start.inst name with
          | none => rfl
          | some function =>
              simp only
              split
              · rfl
              · split
                · rfl
                · apply inFrame_congr
                  exact runExemplarWith_agrees inner (callAtDepth_keeps placed) function
                    (congrArg Nat.succ here)
    funext name arguments start
    exact (agrees _ start.inst.callDepth rfl name arguments start rfl).symm
  · rintro rfl
    exact callAtDepth_eq placed

/-- Outside all calls an exemplar runs with the calls that the depth decides on. -/
theorem runExemplar_eq (placed : setup.program.Placed) (id : ExemplarId) {start : Activation}
    (outside : start.inst.callDepth = 0) :
    setup.runExemplar id start = setup.runExemplarWith setup.callAtDepth id start :=
  runExemplarWith_agrees (call_agreesAt (Nat.sub_zero _)) (call_keeps placed _) id outside

end Setup

end MachineScript
