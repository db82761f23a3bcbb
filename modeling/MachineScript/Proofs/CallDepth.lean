import MachineScript.Proofs.Points

/-!
Contract: every run ends, however functions call one another.

Owns:
- how deep inline calls are nested in a value, an instruction and a list;
- the measure that decreases from each part of a run to those that begin in its
  course: the calls that may still be opened, then the nesting;
- that an instance counts its open calls by the frames on its stack, also after
  a failure, and that a call is refused exactly if the limit has been reached;
- that every round of a poll brings it nearer to its end.

Does not own: how many instructions a run takes.
-/

namespace MachineScript

/-! ## Nesting -/

mutual

/-- How deep inline calls are nested in a value. -/
def Source.depth : Source → Nat
  | .constant _ => 0
  | .nested _ _ arguments => Source.depthAll arguments + 1

def Source.depthAll : List Source → Nat
  | [] => 0
  | source :: rest => max source.depth (Source.depthAll rest)

end

theorem Source.depth_le_depthAll {source : Source} {sources : List Source}
    (member : source ∈ sources) : source.depth ≤ Source.depthAll sources := by
  induction sources with
  | nil => cases member
  | cons first rest inductionHypothesis =>
      rw [depthAll]
      rcases List.mem_cons.mp member with rfl | later
      · exact Nat.le_max_left _ _
      · exact Nat.le_trans (inductionHypothesis later) (Nat.le_max_right _ _)

/-- How deep inline calls are nested in the values of an instruction. -/
def Instruction.depth : Instruction → Nat
  | .launch _ => 0
  | .goto _ => 0
  | .set _ value => value.depth
  | .shared _ value => value.depth
  | .call _ arguments => Source.depthAll arguments

/-- How deep inline calls are nested in the instructions of an exemplar. -/
def Exemplar.depth (exemplar : Exemplar) : Nat :=
  (exemplar.instructions.map Instruction.depth).max?.getD 0

theorem Exemplar.depth_le {exemplar : Exemplar} {instruction : Instruction}
    (member : instruction ∈ exemplar.instructions) : instruction.depth ≤ exemplar.depth :=
  List.le_max?_getD_of_mem (List.mem_map_of_mem member)

/-! ## The measure -/

namespace Point

variable {setup : Setup} {point next : Point}

/-- How many calls may still be opened; an errand comes before all of them. -/
def budget (point : Point) (setup : Setup) : Nat :=
  match point.activity with
  | .errand _ => setup.config.maxCallDepth + 1
  | _ => setup.config.maxCallDepth - point.activation.inst.callDepth

/-- How deep inline calls are nested in what is about to be done. -/
def depth (point : Point) (program : Program) : Nat :=
  match point.activity with
  | .list _ owner => (program.exemplar owner).depth
  | .instruction instruction => instruction.depth
  | .value _ source => source.depth
  | _ => 0

/-- The order in which activities of one depth begin. -/
def stage (point : Point) : Nat :=
  match point.activity with
  | .errand _ => 4
  | .list _ _ => 3
  | .registration _ => 2
  | .instruction _ => 2
  | .value _ _ => 1
  | .call _ _ => 0

/-- The calls that may still be opened, then the nesting, then the stage. -/
def measure (point : Point) (setup : Setup) : Nat × Nat × Nat :=
  (point.budget setup, point.depth setup.program, point.stage)

/-- The order of measures, by the first component in which they differ. -/
abbrev Precedes : Nat × Nat × Nat → Nat × Nat × Nat → Prop :=
  Prod.Lex (· < ·) (Prod.Lex (· < ·) (· < ·))

theorem precedes_of_budget (fewer : next.budget setup < point.budget setup) :
    Precedes (next.measure setup) (point.measure setup) :=
  Prod.Lex.left _ _ fewer

theorem precedes_of_depth (same : next.budget setup = point.budget setup)
    (less : next.depth setup.program < point.depth setup.program) :
    Precedes (next.measure setup) (point.measure setup) := by
  unfold measure
  rw [same]
  exact Prod.Lex.right _ (Prod.Lex.left _ _ less)

theorem precedes_of_stage (same : next.budget setup = point.budget setup)
    (notMore : next.depth setup.program ≤ point.depth setup.program)
    (earlier : next.stage < point.stage) :
    Precedes (next.measure setup) (point.measure setup) := by
  rcases Nat.lt_or_eq_of_le notMore with less | sameDepth
  · exact precedes_of_depth same less
  · unfold measure
    rw [same, sameDepth]
    exact Prod.Lex.right _ (Prod.Lex.right _ earlier)

/-- Whatever begins in the course of a part of a run is smaller. -/
theorem Begins.precedes (placed : setup.program.Placed) (sound : point.Sound setup)
    (begins : point.Begins setup next) : Precedes (next.measure setup) (point.measure setup) := by
  have calls := Setup.callAtDepth_keeps placed
  cases begins with
  | machine | registration | state | handler =>
      exact precedes_of_budget (Nat.lt_succ_of_le (Nat.sub_le _ _))
  | condition => exact precedes_of_stage rfl (Nat.le_refl 0) (Nat.lt_succ_self 1)
  | @instruction construct owner start current front back instruction value instructions before =>
      have calm := Setup.runInstructions_completes placed calls instructions before
      have member : instruction ∈ (setup.program.exemplar owner).instructions := by
        rw [instructions]
        exact List.mem_append_right _ List.mem_cons_self
      refine precedes_of_stage ?_ (Exemplar.depth_le member) (Nat.lt_succ_self 2)
      exact congrArg (setup.config.maxCallDepth - ·) calm.callDepth
  | set | shared => exact precedes_of_stage rfl (Nat.le_refl _) (Nat.lt_succ_self 1)
  | argument before =>
      have quiet := (Setup.evalSources_keeps calls _ _).of_ok before
      refine precedes_of_stage ?_ (Source.depth_le_depthAll (by simp)) (Nat.lt_succ_self 1)
      exact congrArg (setup.config.maxCallDepth - ·) quiet.calm.callDepth
  | call before =>
      have quiet := (Setup.evalSources_keeps calls _ _).of_ok before
      refine precedes_of_stage ?_ (Nat.zero_le _) (Nat.zero_lt_succ 1)
      exact congrArg (setup.config.maxCallDepth - ·) quiet.calm.callDepth
  | inline construct id callee arguments start =>
      refine precedes_of_depth rfl ?_
      have only : (setup.program.exemplar id).instructions = [.call callee arguments] :=
        sound.fits.2
      change (setup.program.exemplar id).depth < Source.depthAll arguments + 1
      unfold Exemplar.depth
      rw [only]
      exact Nat.lt_succ_self _
  | @body callee arguments function start found arity room =>
      apply precedes_of_budget
      change setup.config.maxCallDepth - (start.inst.callDepth + 1)
        < setup.config.maxCallDepth - start.inst.callDepth
      omega

/-- Nothing goes on forever inside a part of a run. -/
theorem Sound.ends (placed : setup.program.Placed) (tree : setup.program.IsTree)
    (sound : point.Sound setup) :
    Acc (fun inner outer => Point.Begins setup outer inner) point := by
  have ordered : WellFounded Precedes :=
    (Prod.lex Nat.lt_wfRel (Prod.lex Nat.lt_wfRel Nat.lt_wfRel)).wf
  have byMeasure := InvImage.wf (fun point : Point => point.measure setup) ordered
  revert sound
  apply byMeasure.induction point
  intro point inductionHypothesis sound
  exact Acc.intro point fun inner begins =>
    inductionHypothesis inner (begins.precedes placed sound) (sound.begins placed tree begins)

end Point

/-! ## The count of open calls -/

/-- The frames on the stack of an instance. -/
def Instance.frameCount (inst : Instance) : Nat :=
  inst.contexts.countP Context.isFrame

/-- An instance that runs counts its frames. -/
theorem Instance.Stands.frameCount_eq {inst : Instance} {program : Program}
    (stands : inst.Stands program) : inst.frameCount = inst.callDepth := by
  obtain ⟨frames, states, layered, length⟩ := stands
  have all : frames.countP Context.isFrame = frames.length :=
    List.countP_eq_length.mpr fun frame member => (layered.functions frame member).1
  have noOther : states.countP Context.isFrame = 0 := by
    apply List.countP_eq_zero.mpr
    intro context member
    rw [layered.lexical.isFrame_eq_false context member]
    exact Bool.false_ne_true
  unfold frameCount
  rw [layered.contexts, List.countP_append, all, noOther, length, Nat.add_zero]

namespace Setup

variable {setup : Setup} {name : String} {arguments : List Value} {function : ExemplarId}
  {start : Activation}

/-- A call of a function with as many arguments as it has parameters. -/
structure Calls (setup : Setup) (start : Activation) (name : String) (arguments : List Value)
    (function : ExemplarId) : Prop where
  found : setup.findFunction start.inst name = some function
  arity : arguments.length = (setup.program.exemplar function).parameters.length

/-- At the limit a call is refused. -/
theorem Calls.refused (placed : setup.program.Placed)
    (calls : setup.Calls start name arguments function)
    (full : setup.config.maxCallDepth ≤ start.inst.callDepth) :
    setup.callAtDepth name arguments start
      = .error (.recursionLimit setup.config.maxCallDepth) start := by
  rw [callAtDepth_eq placed]
  simp only [callWithin, Run.bind_get, calls.found, calls.arity, ne_eq, not_true_eq_false,
    if_false, full, if_true]
  rfl

/-- Below the limit its body runs in a frame. -/
theorem Calls.opened (placed : setup.program.Placed)
    (calls : setup.Calls start name arguments function)
    (room : start.inst.callDepth < setup.config.maxCallDepth) :
    setup.callAtDepth name arguments start
      = inFrame (setup.frameOf function arguments)
        (setup.runExemplarWith setup.callAtDepth function) start := by
  have body : setup.callAtDepth name arguments start
      = setup.callWithin setup.callAtDepth name arguments start := by
    rw [← callAtDepth_eq placed]
  rw [body]
  simp only [callWithin, Run.bind_get, calls.found, calls.arity, ne_eq, not_true_eq_false,
    if_false, Nat.not_le_of_lt room]
  rfl

end Setup

/-! ## Reachable engines -/

namespace Engine

variable {engine : Engine}

/-- However the functions of a program call one another, the runs of the next tick end. The calls of
the engine are the only ones that look at nothing but the count of open calls; what begins in the
course of a part of a run is smaller than that part; and every round of a poll is nearer to its end
than the one before. -/
structure RunsEnd (engine : Engine) : Prop where
  calls : ∀ caller, caller = engine.setup.callWithin caller ↔ caller = engine.setup.callAtDepth
  runs : ∀ id start, start.inst.callDepth = 0 → engine.setup.runExemplar id start
    = engine.setup.runExemplarWith engine.setup.callAtDepth id start
  precedes : ∀ point next, engine.Passes point → point.Begins engine.setup next →
    Point.Precedes (next.measure engine.setup) (point.measure engine.setup)
  ends : ∀ point, engine.Passes point →
    Acc (fun inner outer => Point.Begins engine.setup outer inner) point
  polls : ∀ start head, engine.Passes ⟨.errand .poll, start⟩ → engine.setup.PollsAt start head →
    engine.setup.pollHandlers start
        = engine.setup.pollFrom head.level head.index head.activation
      ∧ ∀ next, head.Next engine.setup next →
        Prod.Lex (· < ·) (· < ·) next.distance head.distance

/-- At every point of the next tick the count of open calls is that of the frames on the stack, and
within the limit. A call leaves the count as it was, also if it fails; it is refused if the limit
has been reached, and else its body runs. -/
structure CountsCalls (engine : Engine) : Prop where
  frames : ∀ point, engine.Passes point →
    point.activation.inst.callDepth = point.activation.inst.frameCount
      ∧ point.activation.inst.frameCount ≤ engine.setup.config.maxCallDepth
  restores : ∀ name arguments start, (engine.setup.callAtDepth name arguments).Ends start
    (fun _ left => left.inst.callDepth = start.inst.callDepth)
    (fun left => left.inst.callDepth = start.inst.callDepth)
  refused : ∀ name arguments function start, engine.Passes ⟨.call name arguments, start⟩ →
    engine.setup.Calls start name arguments function →
    start.inst.frameCount = engine.setup.config.maxCallDepth →
    engine.setup.callAtDepth name arguments start
      = .error (.recursionLimit engine.setup.config.maxCallDepth) start
  opened : ∀ name arguments function start, engine.Passes ⟨.call name arguments, start⟩ →
    engine.setup.Calls start name arguments function →
    start.inst.frameCount ≠ engine.setup.config.maxCallDepth →
    engine.setup.callAtDepth name arguments start
      = Setup.inFrame (engine.setup.frameOf function arguments)
        (engine.setup.runExemplarWith engine.setup.callAtDepth function) start

/-- Whatever a host does with a compiled program, and however the program recurses, all runs end
within the limit on nested calls. -/
theorem Reaches.ends_runs {options : CompileOptions} {tape : Tape}
    {compilation : Compilation} (compiled : tape.compile options = .ok compilation)
    {registry : Registry} {config : EngineConfig} {printer : Printer}
    (reached : (build compilation.program registry config printer).Reaches engine) :
    engine.RunsEnd ∧ engine.CountsCalls := by
  obtain ⟨placed, tree⟩ := reached.wellFormed compiled
  have sound : ∀ {point}, engine.Passes point → point.Sound engine.setup := reached.sound compiled
  have counts : ∀ {point}, engine.Passes point →
      point.activation.inst.frameCount = point.activation.inst.callDepth :=
    fun passes => (sound passes).runs.stands.frameCount_eq
  constructor
  · refine ⟨fun _ => Setup.eq_callAtDepth_iff placed, fun id _ => Setup.runExemplar_eq placed id,
      ?_, ?_, ?_⟩
    · exact fun point next passes begins => begins.precedes placed (sound passes)
    · intro point passes
      exact (sound passes).ends placed tree
    · intro start head passes polls
      have waits := (sound passes).runs.handlers
      refine ⟨polls.pollHandlers_eq placed waits, fun next follows => ?_⟩
      exact follows.distance_lt placed ((polls.still placed waits).1.handlers waits)
  · refine ⟨?_, ?_, ?_, ?_⟩
    · intro point passes
      rw [counts passes]
      exact ⟨rfl, (sound passes).limited⟩
    · intro name arguments start
      exact (Setup.callAtDepth_keeps placed name arguments start).mono
        (fun _ _ quiet => quiet.calm.callDepth) fun _ quiet => quiet.calm.callDepth
    · intro name arguments function start passes calls full
      rw [counts passes] at full
      exact calls.refused placed (Nat.le_of_eq full.symm)
    · intro name arguments function start passes calls below
      rw [counts passes] at below
      exact calls.opened placed (Nat.lt_of_le_of_ne (sound passes).limited below)

open Token in
/-- The tape of `(defun f () (g (f))) (defun g (x) (set y x)) (f)`. -/
def endlessCalls : Tape :=
  Tape.ofTokens .empty
    (bracketed 0
        ([word "defun" 1, word "f" 7] ++ bracketed 9 [] 10
          ++ bracketed 12 (word "g" 13 :: bracketed 15 [word "f" 16] 17) 18)
        19
      ++ bracketed 21
        ([word "defun" 22, word "g" 28] ++ bracketed 30 [word "x" 31] 32
          ++ bracketed 34 [word "set" 35, word "y" 39, word "x" 41] 42)
        43
      ++ bracketed 45 [word "f" 46] 47)

/-- With at most one call open, the function is refused where it calls itself. -/
theorem ends_runs_endlessCalls :
    ∃ compilation engine, endlessCalls.compile {} = .ok compilation
      ∧ build compilation.program .empty { maxCallDepth := 1 } .empty = engine
      ∧ (∃ start, engine.Passes ⟨.call "f" [], start⟩ ∧ start.inst.frameCount = 1
        ∧ engine.setup.Calls start "f" [] 1)
      ∧ engine.runTick.1.faults.map InstanceFault.error = [.recursionLimit 1]
      ∧ engine.RunsEnd ∧ engine.CountsCalls := by
  refine ⟨_, _, rfl, rfl, ?_, by decide +kernel, ?_⟩
  · exact ⟨_, ⟨_, .root rfl rfl, .head (@Point.Begins.instruction _ _ _ _ _ [] _ _ _ rfl rfl)
      (.head (.call rfl)
        (.head (@Point.Begins.body _ _ _ 1 _ (by decide +kernel) rfl (by decide +kernel))
          (.head (@Point.Begins.instruction _ _ _ _ _ [] _ _ _ rfl rfl)
            (.head (@Point.Begins.argument _ _ [] _ _ _ _ _ rfl)
              (.head (.inline _ _ _ _ _)
                (.head (@Point.Begins.instruction _ _ _ _ _ [] _ _ _ rfl rfl)
                  (.head (.call rfl) .refl)))))))⟩, rfl, by decide +kernel, rfl⟩
  · have compiled : endlessCalls.compile {} = .ok _ := rfl
    exact Reaches.ends_runs compiled ⟨[], rfl⟩

end Engine

end MachineScript
