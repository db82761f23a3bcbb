import Mathlib.Logic.Relation
import MachineScript.Proofs.Lowering
import MachineScript.Proofs.Run.Quiet

/-!
Contract: what a call of a pure function may change.

Owns:
- which functions may run in the course of a call, by the names that bodies call;
- that the body of a pure function only sets variables and calls functions;
- that a call in whose course only pure functions run leaves the instance and
  the world as they were, but for the output and the count of instructions;
- that a function with side effects has them inside a pure function as well.

Only the innermost frame is asked whether it is pure. So the guarantee is one of
the whole course of a call, and not of the function that is called first.
-/

namespace MachineScript

open Grammar
open Form (Owner)
open Token (word bracketed)

/-! ## The course of a call -/

mutual

/-- The names that are called for a value. -/
def Source.callees : Source → List String
  | .constant _ => []
  | .nested _ callee arguments => callee :: Source.calleesAll arguments

def Source.calleesAll : List Source → List String
  | [] => []
  | source :: rest => source.callees ++ Source.calleesAll rest

end

/-- The names that an instruction calls. -/
def Instruction.callees : Instruction → List String
  | .launch _ => []
  | .goto _ => []
  | .set _ value => value.callees
  | .shared _ value => value.callees
  | .call callee arguments => callee :: Source.calleesAll arguments

namespace Program

/-- The body of an exemplar may call a function. A name means what it means where the call is
made, so every function that is filed under the name somewhere counts. -/
def MayCall (program : Program) (caller function : ExemplarId) : Prop :=
  ∃ instruction ∈ (program.exemplar caller).instructions, ∃ name ∈ instruction.callees,
    ∃ scope, (program.exemplar scope).functions.find? name = some function

/-- A function is pure, and so is every function that may run in the course of its calls. -/
def StaysPure (program : Program) (function : ExemplarId) : Prop :=
  ∀ callee, Relation.ReflTransGen program.MayCall function callee →
    (program.exemplar callee).isPure = true

variable {program : Program} {function : ExemplarId}

theorem StaysPure.of_mayCall (pure : program.StaysPure function) {callee : ExemplarId}
    (called : program.MayCall function callee) : program.StaysPure callee :=
  fun other further => pure other (Relation.ReflTransGen.head called further)

/-- Where all functions of a program are pure, they stay so. -/
theorem staysPure_of_all (isPure : (program.exemplar function).isPure = true)
    (all : ∀ exemplar ∈ program.exemplars, ∀ entry ∈ exemplar.functions,
      (program.exemplar entry.2).isPure = true) : program.StaysPure function := by
  intro callee path
  cases path with
  | refl => exact isPure
  | tail _ called =>
      obtain ⟨_, _, name, _, scope, found⟩ := called
      have entry := Bindings.mem_of_find? found
      by_cases inside : scope < program.exemplars.size
      · have stored : program.exemplar scope = program.exemplars[scope] := by
          simp [Program.exemplar, inside]
        rw [stored] at entry
        exact all _ (Array.getElem_mem inside) _ entry
      · have blank : program.exemplar scope = Exemplar.blank := by
          simp [Program.exemplar, inside]
        rw [blank] at entry
        cases entry

end Program

/-! ## The bodies of pure functions -/

/-- An instruction that sets a variable or calls a function. -/
def Instruction.isLocal : Instruction → Bool
  | .set _ _ => true
  | .call _ _ => true
  | _ => false

/-- Pure functions run to their end, and only set variables and call functions. -/
def Program.PureBodies (program : Program) : Prop :=
  ∀ id, (program.exemplar id).isPure = true →
    (program.exemplar id).construct.suspends = false
      ∧ ∀ instruction ∈ (program.exemplar id).instructions, instruction.isLocal = true

theorem Grammar.DerivesForms.of_mem {libraries : List String} {owner : Owner} {form : Form} :
    ∀ {forms : List Form} {tokens : List Token}, DerivesForms libraries owner forms tokens →
      form ∈ forms → ∃ spelling, DerivesForm libraries owner form spelling
  | _, _, .more head tail, member => by
      rcases List.mem_cons.mp member with rfl | others
      · exact ⟨_, head⟩
      · exact tail.of_mem others

/-- No form of a pure function launches, transfers or shares. -/
theorem Grammar.DerivesForm.isLocal {libraries : List String} {offset : Nat} {action : Step}
    {tokens : List Token}
    (derived : DerivesForm libraries ⟨.function, true⟩ (.step offset action) tokens)
    (number : Nat → ExemplarId) (position : Nat) :
    (action.instruction number position).isLocal = true := by
  cases derived with
  | call => rfl
  | set => rfl
  | launch _ _ _ _ container => simp at container
  | goto _ _ _ _ container => simp at container
  | shared _ _ _ _ container => cases container

theorem Form.mem_of_mem_placed {place : Nat} {form : Form} :
    ∀ {forms : List Form} {position : Nat}, (place, form) ∈ Form.placed position forms →
      form ∈ forms
  | _ :: _, _, member => by
      rcases List.mem_cons.mp member with same | others
      · cases same
        exact List.mem_cons_self
      · exact List.mem_cons_of_mem _ (mem_of_mem_placed others)

theorem Form.step_of_mem_contents {number : Nat → ExemplarId} {position : Nat} {body : List Form}
    {instruction : Instruction}
    (member : instruction ∈ (Form.contents number position body).instructions) :
    ∃ offset action place, .step offset action ∈ body
      ∧ instruction = action.instruction number place := by
  obtain ⟨⟨place, form⟩, placed, chosen⟩ := List.mem_filterMap.mp member
  cases form with
  | step offset action =>
      cases chosen
      exact ⟨offset, action, place, mem_of_mem_placed placed, rfl⟩
  | empty | require | define => cases chosen

theorem Tape.compile_pureBodies {options : CompileOptions} {tape : Tape}
    {compilation : Compilation} (compiled : tape.compile options = .ok compilation) :
    compilation.program.PureBodies := by
  obtain ⟨forms, read, rfl⟩ := Tape.compile_eq_ok_iff.mp compiled
  have derived := (Tape.forms_eq_ok_iff.mp read).2
  intro id isPure
  rcases Program.exemplar_ofForms tape.interner forms id with blank | ⟨site, listed, same⟩
  · simp only [blank] at isPure
    cases isPure
  · obtain ⟨tokens, rest, _, spelt⟩ := Form.programSites_standOn derived site listed
    simp only [same] at isPure ⊢
    obtain ⟨position, around, part⟩ := site
    cases part with
    | program | call => cases isPure
    | definition offset head body =>
        cases head with
        | machine | state | handler => cases isPure
        | function pure name parameters =>
            obtain rfl : pure = true := isPure
            refine ⟨rfl, ?_⟩
            intro instruction member
            obtain ⟨offset, action, place, inBody, rfl⟩ := Form.step_of_mem_contents member
            obtain ⟨owner, definition⟩ := spelt
            cases definition with
            | define _ _ _ _ _ _ inner =>
                obtain ⟨_, step⟩ := inner.of_mem inBody
                exact step.isLocal _ _

/-! ## What is left alone -/

/-- Two worlds differ in the output and the count of instructions at most. -/
structure World.Untouched (before after : World) : Prop where
  globals : after.globals = before.globals
  shared : after.shared = before.shared
  launches : after.launches = before.launches
  transitions : after.transitions = before.transitions
  now : after.now = before.now
  fired : after.fired = before.fired

theorem World.Untouched.refl (world : World) : world.Untouched world :=
  ⟨rfl, rfl, rfl, rfl, rfl, rfl⟩

theorem World.Untouched.trans {before middle after : World} (first : before.Untouched middle)
    (second : middle.Untouched after) : before.Untouched after where
  globals := second.globals.trans first.globals
  shared := second.shared.trans first.shared
  launches := second.launches.trans first.launches
  transitions := second.transitions.trans first.transitions
  now := second.now.trans first.now
  fired := second.fired.trans first.fired

namespace Activation

/-- The instance is as it was, with its variables, contexts and handlers, and so is the world. -/
structure Untouched (before after : Activation) : Prop where
  world : before.world.Untouched after.world
  inst : after.inst = before.inst

theorem Untouched.lasts : Run.Lasts Untouched where
  refl start := ⟨.refl start.world, rfl⟩
  trans first second := ⟨first.world.trans second.world, second.inst.trans first.inst⟩

/-- The innermost context is the frame of a pure function. -/
def inPureFrame (activation : Activation) : Bool :=
  activation.inst.contexts.head?.any Context.isPureFrame

/-- What starts in a pure frame stays in it, and changes no more than its variables. -/
structure Confined (before after : Activation) : Prop where
  world : before.world.Untouched after.world
  outer : after.inst.popContext = before.inst.popContext
  frame : after.inPureFrame = true

def ConfinedFrom (before after : Activation) : Prop :=
  before.inPureFrame = true → before.Confined after

theorem ConfinedFrom.lasts : Run.Lasts ConfinedFrom where
  refl start inFrame := ⟨.refl start.world, rfl, inFrame⟩
  trans first second inFrame := by
    have before := first inFrame
    have after := second before.frame
    exact ⟨before.world.trans after.world, after.outer.trans before.outer, after.frame⟩

theorem Untouched.confinedFrom {before after : Activation} (untouched : before.Untouched after) :
    before.ConfinedFrom after := by
  intro inFrame
  refine ⟨untouched.world, congrArg Instance.popContext untouched.inst, ?_⟩
  unfold inPureFrame at inFrame ⊢
  rw [untouched.inst]
  exact inFrame

/-- A pure frame sets its own variables. -/
theorem confinedFrom_set (setup : Setup) (activation : Activation) (name : String)
    (value : Value) : activation.ConfinedFrom (activation.set setup name value) := by
  intro inFrame
  obtain ⟨world, inst⟩ := activation
  obtain ⟨id, machine, parent, status, contexts, bindings, refs, queued, parked, depth⟩ := inst
  cases contexts with
  | nil => cases inFrame
  | cons innermost outer =>
      have isPure : innermost.isPureFrame = true := inFrame
      simp only [Activation.set, isPure, if_true]
      exact ⟨.refl world, rfl, isPure⟩

/-- With its frame closed, a confined run has left nothing behind. -/
theorem Confined.closeFrame {start left : Activation} {frame : Context}
    (confined : (start.openFrame frame).Confined left) : start.Untouched left.closeFrame where
  world := confined.world
  inst := by
    have same : left.closeFrame.inst
        = { left.inst.popContext with callDepth := left.inst.popContext.callDepth - 1 } := rfl
    rw [same, confined.outer]
    rfl

end Activation

theorem Context.isPureFrame_bind (frame : Context) (parameters : List String)
    (arguments : List Value) :
    (frame.bind parameters arguments).isPureFrame = frame.isPureFrame := by
  unfold Context.bind
  induction parameters.zip arguments generalizing frame with
  | nil => rfl
  | cons entry rest inductionHypothesis =>
      rw [List.foldl_cons, inductionHypothesis]
      rfl

/-! ## Runs in a pure frame -/

namespace Setup

open Activation (Untouched ConfinedFrom)

variable {setup : Setup} {caller : Caller}

theorem callLibrary_untouched (setup : Setup) (name : String) (arguments : List Value) :
    (setup.callLibrary name arguments).Keeps Untouched := by
  have lasts := Untouched.lasts
  unfold callLibrary
  split
  · exact lasts.throw _
  · split
    · exact lasts.throw _
    · split
      · exact lasts.throw _
      · split
        · apply lasts.bind
          · exact Run.keeps_modifyWorld fun _ => ⟨⟨rfl, rfl, rfl, rfl, rfl, rfl⟩, rfl⟩
          · exact fun _ => lasts.pure _
        · exact lasts.throw _

theorem countInstruction_confined : Run.countInstruction.Keeps ConfinedFrom :=
  Run.keeps_modifyWorld fun _ inFrame => ⟨⟨rfl, rfl, rfl, rfl, rfl, rfl⟩, rfl, inFrame⟩

theorem evalConstant_confined (constant : Constant) :
    (setup.evalConstant constant).Keeps ConfinedFrom := by
  intro start
  apply (evalConstant_ends constant start).mono
  · rintro _ _ rfl
    exact ConfinedFrom.lasts.refl _
  · rintro _ rfl
    exact ConfinedFrom.lasts.refl _

mutual

theorem evalSource_confined (source : Source)
    (calls : ∀ name ∈ source.callees, ∀ arguments, (caller name arguments).Keeps ConfinedFrom) :
    (setup.evalSource caller source).Keeps ConfinedFrom := by
  cases source with
  | constant constant =>
      rw [evalSource]
      exact evalConstant_confined constant
  | nested id callee arguments =>
      obtain ⟨outer, inner⟩ := List.forall_mem_cons.mp calls
      rw [evalSource]
      apply ConfinedFrom.lasts.bind countInstruction_confined
      intro _
      exact ConfinedFrom.lasts.bind (evalSources_confined arguments inner) outer

theorem evalSources_confined (sources : List Source)
    (calls : ∀ name ∈ Source.calleesAll sources,
      ∀ arguments, (caller name arguments).Keeps ConfinedFrom) :
    (setup.evalSources caller sources).Keeps ConfinedFrom := by
  cases sources with
  | nil =>
      rw [evalSources]
      exact ConfinedFrom.lasts.pure _
  | cons source rest =>
      obtain ⟨first, others⟩ := List.forall_mem_append.mp calls
      rw [evalSources]
      apply ConfinedFrom.lasts.bind (evalSource_confined source first)
      intro value
      apply ConfinedFrom.lasts.bind (evalSources_confined rest others)
      intro values
      exact ConfinedFrom.lasts.pure _

end

theorem execute_confined {instruction : Instruction} (isLocal : instruction.isLocal = true)
    (calls : ∀ name ∈ instruction.callees,
      ∀ arguments, (caller name arguments).Keeps ConfinedFrom) :
    (setup.execute caller instruction).Keeps ConfinedFrom := by
  have lasts := ConfinedFrom.lasts
  cases instruction with
  | launch | goto | shared => cases isLocal
  | set name source =>
      apply lasts.bind (evalSource_confined source calls)
      intro value
      apply lasts.bind
      · exact Run.keeps_modify fun start => Activation.confinedFrom_set setup start name value
      · exact fun _ => lasts.pure _
  | call callee arguments =>
      obtain ⟨outer, inner⟩ := List.forall_mem_cons.mp calls
      exact lasts.bind (evalSources_confined arguments inner) outer

theorem runInstructions_confined (last : Value) {instructions : List Instruction}
    (isLocal : ∀ instruction ∈ instructions, instruction.isLocal = true)
    (calls : ∀ instruction ∈ instructions, ∀ name ∈ instruction.callees,
      ∀ arguments, (caller name arguments).Keeps ConfinedFrom) :
    (setup.runInstructions caller false last instructions).Keeps ConfinedFrom := by
  have lasts := ConfinedFrom.lasts
  induction instructions generalizing last with
  | nil => exact lasts.pure _
  | cons instruction rest inductionHypothesis =>
      obtain ⟨first, others⟩ := List.forall_mem_cons.mp isLocal
      obtain ⟨firstCalls, otherCalls⟩ := List.forall_mem_cons.mp calls
      rw [runInstructions]
      apply lasts.bind countInstruction_confined
      intro _
      apply lasts.bind (execute_confined first firstCalls)
      intro value
      exact inductionHypothesis value others otherCalls

/-- The body of a pure function is confined if its calls are. -/
theorem runExemplarWith_confined (bodies : setup.program.PureBodies) {function : ExemplarId}
    (isPure : (setup.program.exemplar function).isPure = true)
    (calls : ∀ instruction ∈ (setup.program.exemplar function).instructions,
      ∀ name ∈ instruction.callees, ∀ arguments, (caller name arguments).Keeps ConfinedFrom) :
    (setup.runExemplarWith caller function).Keeps ConfinedFrom := by
  obtain ⟨runsOn, isLocal⟩ := bodies function isPure
  unfold runExemplarWith
  simp only [runsOn]
  exact runInstructions_confined .nil isLocal calls

/-- What runs confined inside a pure frame has touched nothing once the frame is closed. -/
theorem inFrame_untouched {frame : Context} (isPure : frame.isPureFrame = true)
    {body : Run (Flow × Value)} (confined : body.Keeps ConfinedFrom) :
    (inFrame frame body).Keeps Untouched := by
  intro start
  rw [ends_inFrame]
  have entered : (start.openFrame frame).inPureFrame = true := isPure
  exact (confined _).mono (fun _ _ kept => (kept entered).closeFrame)
    fun _ kept => (kept entered).closeFrame

/-- A call of this kind leaves everything as it was, if what it may find stays pure. -/
def LeavesUntouched (setup : Setup) (caller : Caller) : Prop :=
  ∀ (name : String) (arguments : List Value) (start : Activation),
    (∀ function, setup.findFunction start.inst name = some function →
      setup.program.StaysPure function) →
    (caller name arguments).Ends start (fun _ left => start.Untouched left) start.Untouched

/-- What a function calls that stays pure is confined to the frame of the function. -/
theorem LeavesUntouched.confined (untouched : setup.LeavesUntouched caller)
    {function : ExemplarId} (pure : setup.program.StaysPure function) :
    ∀ instruction ∈ (setup.program.exemplar function).instructions,
      ∀ name ∈ instruction.callees, ∀ arguments, (caller name arguments).Keeps ConfinedFrom := by
  intro instruction member name named arguments start
  have further : ∀ callee, setup.findFunction start.inst name = some callee →
      setup.program.StaysPure callee := by
    intro callee found
    obtain ⟨scope, _, bound⟩ := List.exists_of_findSome?_eq_some found
    exact pure.of_mayCall ⟨instruction, member, name, named, scope, bound⟩
  exact (untouched name arguments start further).mono (fun _ _ same => same.confinedFrom)
    fun _ same => same.confinedFrom

/-- A call leaves everything as it was if only pure functions run in its course. The induction is
on the calls that may still be nested, over all callees at once. -/
theorem call_untouched (bodies : setup.program.PureBodies) (remaining : Nat) :
    setup.LeavesUntouched (setup.call remaining) := by
  have lasts := Untouched.lasts
  induction remaining with
  | zero =>
      intro name arguments start _
      simp only [call, Run.ends_bind, Run.ends_get]
      split
      · exact setup.callLibrary_untouched name arguments start
      · split
        · exact lasts.throw _ start
        · exact lasts.throw _ start
  | succ remaining inductionHypothesis =>
      intro name arguments start stays
      simp only [call, Run.ends_bind, Run.ends_get]
      split
      · exact setup.callLibrary_untouched name arguments start
      · next function found =>
          have pure := stays function found
          have isPure := pure function .refl
          split
          · exact lasts.throw _ start
          · apply inFrame_untouched
            · rw [Context.isPureFrame_bind, isPure]
              rfl
            · exact runExemplarWith_confined bodies isPure (inductionHypothesis.confined pure)

end Setup

/-! ## Compiled programs -/

/-- What a run leaves, whether it returns or fails. -/
def Run.left {α : Type} (run : Run α) (start : Activation) : Activation :=
  match run start with
  | .ok _ left => left
  | .error _ left => left

theorem Run.Ends.left {α : Type} {run : Run α} {start : Activation}
    {known : Activation → Prop} (ends : run.Ends start (fun _ left => known left) known) :
    known (run.left start) := by
  unfold Run.Ends at ends
  unfold Run.left
  cases ended : run start with
  | ok value left | error cause left =>
      rw [ended] at ends
      exact ends

/-- Whatever state a compiled program is in, a call of a function that stays pure leaves the
instance and the world as they were. -/
theorem Tape.compile_confines_calls {options : CompileOptions} {tape : Tape}
    {compilation : Compilation} (compiled : tape.compile options = .ok compilation)
    (setup : Setup) (runs : setup.program = compilation.program) (remaining : Nat)
    (name : String) (arguments : List Value) (start : Activation) (function : ExemplarId)
    (found : setup.findFunction start.inst name = some function)
    (pure : setup.program.StaysPure function) :
    start.Untouched ((setup.call remaining name arguments).left start) := by
  have bodies := Tape.compile_pureBodies compiled
  rw [← runs] at bodies
  apply Run.Ends.left
  apply Setup.call_untouched bodies
  intro other there
  rw [found] at there
  cases there
  exact pure

/-- The tape of `(set g 1) (defun keep (g) (set g 7)) (defun pure () (set h (keep 2))) (pure)`. -/
def Tape.pureInPure : Tape :=
  Tape.ofTokens .empty
    (bracketed 0 [word "set" 1, word "g" 5, ⟨.constant (.int 1), 7⟩] 8
      ++ bracketed 10
        ([word "defun" 11, word "keep" 17] ++ bracketed 22 [word "g" 23] 24
          ++ bracketed 26 [word "set" 27, word "g" 31, ⟨.constant (.int 7), 33⟩] 34)
        35
      ++ bracketed 37
        ([word "defun" 38, word "pure" 44] ++ bracketed 49 [] 50
          ++ bracketed 52
            ([word "set" 53, word "h" 57]
              ++ bracketed 59 [word "keep" 60, ⟨.constant (.int 2), 65⟩] 66)
            67)
        68
      ++ bracketed 70 [word "pure" 71] 75)

/-- Where such a program stands once the global has been set. -/
def Activation.withGlobal (name : String) (value : Value) : Activation :=
  ⟨{ globals := [(name, value)], executed := 1 }, .create rootInstance Program.root none⟩

theorem Tape.compile_confines_calls_pureInPure :
    ∃ compilation, Tape.pureInPure.compile {} = .ok compilation
      ∧ ∃ function,
        Setup.findFunction ⟨compilation.program, .empty, {}⟩
            (Activation.withGlobal "g" (.int 1)).inst "pure" = some function
          ∧ compilation.program.StaysPure function
          ∧ (Activation.withGlobal "g" (.int 1)).Untouched
            ((Setup.call ⟨compilation.program, .empty, {}⟩ 256 "pure" []).left
              (Activation.withGlobal "g" (.int 1))) := by
  have compiled : Tape.pureInPure.compile {} = .ok _ := rfl
  refine ⟨_, compiled, 2, rfl, ?_, ?_⟩
  · exact Program.staysPure_of_all rfl (by decide)
  · exact Tape.compile_confines_calls compiled _ rfl 256 "pure" [] _ 2 rfl
      (Program.staysPure_of_all rfl (by decide))

/-- The tape of `(set g 1) (defum bump () (set g 5)) (defun pure () (bump)) (pure)`. -/
def Tape.impureInPure : Tape :=
  Tape.ofTokens .empty
    (bracketed 0 [word "set" 1, word "g" 5, ⟨.constant (.int 1), 7⟩] 8
      ++ bracketed 10
        ([word "defum" 11, word "bump" 17] ++ bracketed 22 [] 23
          ++ bracketed 25 [word "set" 26, word "g" 30, ⟨.constant (.int 5), 32⟩] 33)
        34
      ++ bracketed 36
        ([word "defun" 37, word "pure" 43] ++ bracketed 48 [] 49
          ++ bracketed 51 [word "bump" 52] 56)
        57
      ++ bracketed 59 [word "pure" 60] 64)

/-- The first half of this program sets a global. The call of a pure function that makes up its
second half sets that global again. -/
theorem Tape.compile_impureInPure_touches :
    ∃ compilation, Tape.impureInPure.compile {} = .ok compilation
      ∧ let setup : Setup := ⟨compilation.program, .empty, {}⟩
        ∃ (first : Instruction) (function : ExemplarId),
          (setup.program.exemplar Program.root).instructions = [first, .call "pure" []]
            ∧ (setup.runInstructions (setup.call setup.config.maxCallDepth) false .nil [first]).left
                ⟨{}, .create rootInstance Program.root none⟩ = Activation.withGlobal "g" (.int 1)
            ∧ setup.findFunction (Activation.withGlobal "g" (.int 1)).inst "pure" = some function
            ∧ (setup.program.exemplar function).isPure = true
            ∧ ((setup.call setup.config.maxCallDepth "pure" []).left
                (Activation.withGlobal "g" (.int 1))).world.globals = [("g", .int 5)]
            ∧ ¬ (Activation.withGlobal "g" (.int 1)).Untouched
              ((setup.call setup.config.maxCallDepth "pure" []).left
                (Activation.withGlobal "g" (.int 1))) := by
  refine ⟨_, rfl, _, 2, rfl, by decide +kernel, rfl, rfl, by decide +kernel, ?_⟩
  intro untouched
  exact absurd untouched.world.globals (by decide +kernel)

end MachineScript
