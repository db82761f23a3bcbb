import MachineScript.Proofs.Points

/-!
Contract: what a name means to an instance, told from the text of the program.

Owns:
- the scopes around a place of a program, nearest first, and the definition of
  a name that is found first in them;
- that functions, machines and states are found like that at every point of a
  run, from the state in which the instance stands or from its machine;
- that the frames of calls make no difference.

Does not own: variables, which live in frames as well.
-/

namespace MachineScript

/-! ## Scopes -/

namespace Program

/-- A place of a program and the exemplars around it, nearest first. -/
def scopes (program : Program) (id : ExemplarId) : List ExemplarId :=
  id :: program.ancestors id

/-- The answer to the search for a name through scopes: the one definition that the first scope has
which has any, or none if no scope has any. -/
def Resolves (program : Program) (scopes : List ExemplarId) (name : String)
    (construct : Construct) : Option ExemplarId → Prop
  | some id => ∃ inner scope outer, scopes = inner ++ scope :: outer
      ∧ (∀ other, program.Declares scope name construct other ↔ other = id)
      ∧ ∀ nearer ∈ inner, ∀ other, ¬program.Declares nearer name construct other
  | none => ∀ scope ∈ scopes, ∀ other, ¬program.Declares scope name construct other

variable {program : Program} {machine : ExemplarId}

/-- Where a search finds the definitions inside an exemplar, the search through scopes finds the
nearest one. -/
theorem resolves_findSome? {search : ExemplarId → Option ExemplarId} {name : String}
    {construct : Construct}
    (finds : ∀ scope id, search scope = some id ↔ program.Declares scope name construct id)
    (scopes : List ExemplarId) :
    program.Resolves scopes name construct (scopes.findSome? search) := by
  have declaresNothing : ∀ scope, search scope = none →
      ∀ other, ¬program.Declares scope name construct other := by
    intro scope absent other declares
    cases absent.symm.trans ((finds scope other).mpr declares)
  cases found : scopes.findSome? search with
  | none =>
      intro scope member
      exact declaresNothing scope (List.findSome?_eq_none_iff.mp found scope member)
  | some id =>
      obtain ⟨inner, scope, outer, same, here, before⟩ := List.findSome?_eq_some_iff.mp found
      refine ⟨inner, scope, outer, same, fun other => ?_, fun nearer member =>
        declaresNothing nearer (before nearer member)⟩
      rw [← finds, here, Option.some.injEq]
      exact eq_comm

/-- The scopes of an exemplar are itself and the scopes of its parent. -/
theorem scopes_of_parent (placed : program.Placed) {id owner : ExemplarId}
    (parent : (program.exemplar id).parent = some owner) :
    program.scopes id = id :: program.scopes owner :=
  congrArg (id :: ·) (ancestors_of_parent placed parent)

/-- From the innermost state of a lexical stack the scopes go through the stack to the machine. -/
theorem Lexical.scopes_holder (placed : program.Placed) {states : List Context}
    (lexical : program.Lexical machine states) :
    program.scopes (Instance.holder machine states)
      = states.map Context.exemplar ++ program.scopes machine := by
  induction states with
  | nil => rfl
  | cons context outer inductionHypothesis =>
      obtain ⟨_, _, parent, rest⟩ := lexical
      exact (scopes_of_parent placed parent).trans
        (congrArg (context.exemplar :: ·) (inductionHypothesis rest))

/-- Every state of a lexical stack is numbered behind the machine. -/
theorem Lexical.machine_lt (placed : program.Placed) {states : List Context}
    (lexical : program.Lexical machine states) :
    ∀ context ∈ states, machine < context.exemplar := by
  induction states with
  | nil => exact List.forall_mem_nil _
  | cons context outer inductionHypothesis =>
      obtain ⟨_, _, parent, rest⟩ := lexical
      have others := inductionHypothesis rest
      refine List.forall_mem_cons.mpr ⟨?_, others⟩
      have above := placed.parent _ _ parent
      cases outer with
      | nil => exact above
      | cons below further => exact Nat.lt_trans (others below List.mem_cons_self) above

end Program

/-- The scopes up to the first occurrence of one, with that. -/
def cutAfter (last : ExemplarId) : List ExemplarId → List ExemplarId
  | [] => []
  | scope :: outer => if scope = last then [scope] else scope :: cutAfter last outer

theorem cutAfter_append {last : ExemplarId} {inner : List ExemplarId} (outer : List ExemplarId)
    (absent : last ∉ inner) : cutAfter last (inner ++ last :: outer) = inner ++ [last] := by
  induction inner with
  | nil => exact if_pos rfl
  | cons scope rest inductionHypothesis =>
      rw [List.mem_cons, not_or] at absent
      rw [List.cons_append, cutAfter, if_neg (Ne.symm absent.1), inductionHypothesis absent.2]
      rfl

/-! ## Where an instance stands -/

namespace Instance

/-- The innermost active state of an instance, or its machine if it is in no state. -/
def place (inst : Instance) : ExemplarId :=
  inst.currentState.getD inst.machine

/-- An instance as if no function had been called. -/
def withoutFrames (inst : Instance) : Instance :=
  { inst with contexts := inst.contexts.filter fun context => !context.isFrame }

variable {program : Program} {machine : ExemplarId} {frames states : List Context}

namespace Layered

variable {inst : Instance}

/-- Without its frames a stack is the states below them. -/
theorem filter_contexts (layered : inst.Layered program frames states) :
    inst.contexts.filter (fun context => !context.isFrame) = states := by
  have noFrame : frames.filter (fun context => !context.isFrame) = [] := by
    apply List.filter_eq_nil_iff.mpr
    intro frame member
    simp [(layered.functions frame member).1]
  have allStates : states.filter (fun context => !context.isFrame) = states := by
    apply List.filter_eq_self.mpr
    intro context member
    simp [layered.lexical.isFrame_eq_false context member]
  rw [layered.contexts, List.filter_append, noFrame, allStates, List.nil_append]

theorem withoutFrames (layered : inst.Layered program frames states) :
    inst.withoutFrames.Layered program [] states :=
  ⟨layered.filter_contexts, List.forall_mem_nil _, layered.lexical⟩

/-- The innermost state below the frames is where the instance stands. -/
theorem place_eq (layered : inst.Layered program frames states) :
    inst.place = holder inst.machine states := by
  unfold place currentState
  rw [← List.head?_filter, layered.filter_contexts]
  cases states <;> rfl

/-- The scopes of that place go through the stack, and then through those of the machine. -/
theorem scopes_place (placed : program.Placed) (layered : inst.Layered program frames states) :
    program.scopes inst.place = states.map Context.exemplar ++ program.scopes inst.machine := by
  rw [layered.place_eq, layered.lexical.scopes_holder placed]

theorem cutAfter_scopes (placed : program.Placed) (layered : inst.Layered program frames states) :
    cutAfter inst.machine (program.scopes inst.place)
      = states.map Context.exemplar ++ [inst.machine] := by
  have absent : inst.machine ∉ states.map Context.exemplar := by
    intro member
    obtain ⟨context, there, same⟩ := List.mem_map.mp member
    exact absurd (layered.lexical.machine_lt placed context there) (same ▸ Nat.lt_irrefl _)
  rw [layered.scopes_place placed]
  exact cutAfter_append _ absent

end Layered

end Instance

/-! ## The searches -/

namespace Setup

variable {setup : Setup} {inst : Instance} {frames states : List Context}

/-- A search that finds nothing in functions may pass the frames over. -/
theorem findSome?_lexicalScopes (placed : setup.program.Placed)
    (layered : inst.Layered setup.program frames states) {search : ExemplarId → Option ExemplarId}
    (silent : ∀ scope, (setup.program.exemplar scope).construct = .function →
      search scope = none) :
    (setup.lexicalScopes inst).findSome? search
      = (setup.program.scopes inst.place).findSome? search := by
  have inFrames : (frames.map Context.exemplar).findSome? search = none := by
    apply List.findSome?_eq_none_iff.mpr
    intro scope member
    obtain ⟨frame, there, rfl⟩ := List.mem_map.mp member
    exact silent frame.exemplar (layered.functions frame there).2
  have scopes : setup.lexicalScopes inst
      = frames.map Context.exemplar ++ setup.program.scopes inst.place := by
    unfold lexicalScopes
    rw [layered.scopes_place placed, layered.contexts, List.map_append, List.append_assoc]
    rfl
  rw [scopes, List.findSome?_append, inFrames, Option.none_or]

theorem findFunction_eq (placed : setup.program.Placed) (tree : setup.program.IsTree)
    (layered : inst.Layered setup.program frames states) (name : String) :
    setup.findFunction inst name
      = (setup.program.scopes inst.place).findSome? fun scope =>
        (setup.program.exemplar scope).functions.find? name := by
  apply findSome?_lexicalScopes placed layered
  intro scope isFunction
  rw [(tree.tables_of_function isFunction).2]
  rfl

theorem findMachine_eq (placed : setup.program.Placed) (tree : setup.program.IsTree)
    (layered : inst.Layered setup.program frames states) (name : String) :
    setup.findMachine inst name
      = (setup.program.scopes inst.place).findSome? fun scope =>
        setup.program.nested? scope name .machine := by
  apply findSome?_lexicalScopes placed layered
  intro scope isFunction
  unfold Program.nested?
  rw [(tree.tables_of_function isFunction).1]
  rfl

theorem findState_eq (placed : setup.program.Placed)
    (layered : inst.Layered setup.program frames states) (name : String) :
    setup.findState inst name
      = (cutAfter inst.machine (setup.program.scopes inst.place)).findSome? fun scope =>
        setup.program.nested? scope name .state := by
  unfold findState
  rw [layered.filter_contexts, layered.cutAfter_scopes placed]

/-- Names mean to an instance what the text of the program says about the place where it stands, and
its frames make no difference. -/
structure ScopesStatically (setup : Setup) (inst : Instance) : Prop where
  functions : ∀ name, setup.program.Resolves (setup.program.scopes inst.place) name .function
    (setup.findFunction inst name)
  machines : ∀ name, setup.program.Resolves (setup.program.scopes inst.place) name .machine
    (setup.findMachine inst name)
  states : ∀ name, setup.program.Resolves
    (cutAfter inst.machine (setup.program.scopes inst.place)) name .state
    (setup.findState inst name)
  frames : ∀ name, setup.findFunction inst.withoutFrames name = setup.findFunction inst name
    ∧ setup.findMachine inst.withoutFrames name = setup.findMachine inst name
    ∧ setup.findState inst.withoutFrames name = setup.findState inst name

theorem scopesStatically (placed : setup.program.Placed) (tree : setup.program.IsTree)
    (stands : inst.Stands setup.program) : setup.ScopesStatically inst := by
  obtain ⟨frames, states, layered, _⟩ := stands
  have below := layered.withoutFrames
  have place : inst.withoutFrames.place = inst.place :=
    below.place_eq.trans layered.place_eq.symm
  refine ⟨?_, ?_, ?_, ?_⟩
  · intro name
    rw [findFunction_eq placed tree layered]
    exact Program.resolves_findSome? (fun _ _ => tree.function_eq_some_iff) _
  · intro name
    rw [findMachine_eq placed tree layered]
    exact Program.resolves_findSome? (fun _ _ => tree.nested?_eq_some_iff (.inl rfl)) _
  · intro name
    rw [findState_eq placed layered]
    exact Program.resolves_findSome? (fun _ _ => tree.nested?_eq_some_iff (.inr rfl)) _
  · intro name
    refine ⟨?_, ?_, ?_⟩
    · rw [findFunction_eq placed tree layered, findFunction_eq placed tree below, place]
    · rw [findMachine_eq placed tree layered, findMachine_eq placed tree below, place]
    · rw [findState_eq placed layered, findState_eq placed below, place]
      rfl

end Setup

/-! ## Reachable engines -/

namespace Engine

variable {engine : Engine}

/-- Whatever a host does with a compiled program, at every point of every run names mean what the
text of the program says about the place where the instance stands. -/
theorem Reaches.scopes_statically {options : CompileOptions} {tape : Tape}
    {compilation : Compilation} (compiled : tape.compile options = .ok compilation)
    {registry : Registry} {config : EngineConfig} {printer : Printer}
    (reached : (build compilation.program registry config printer).Reaches engine) :
    (∀ entry ∈ engine.instances, engine.setup.ScopesStatically entry.2)
      ∧ ∀ point, engine.Passes point → engine.setup.ScopesStatically point.activation.inst := by
  obtain ⟨placed, tree⟩ := Tape.wellFormed_of_compile compiled
  have coherent := reached.coherent_of_compiled compiled
  rw [coherent.same]
  constructor
  · intro entry there
    have rests := coherent.rests entry there
    exact Setup.scopesStatically placed tree
      (Instance.stands_of_lexical rests.callDepth rests.lexical)
  · intro point passes
    exact Setup.scopesStatically placed tree (reached.sound_of_passes compiled passes).runs.stands

open Token in
/-- The tape of `(defun f () (set x 1)) (machine m (state main (defun f () (set x 2)) (f)
(state inner (goto main)) (goto inner))) (launch m)`. -/
def shadowedFunction : Tape :=
  Tape.ofTokens .empty
    (bracketed 0
        ([word "defun" 1, word "f" 7] ++ bracketed 9 [] 10
          ++ bracketed 12 [word "set" 13, word "x" 17, ⟨.constant (.int 1), 19⟩] 20)
        21
      ++ bracketed 23
        ([word "machine" 24, word "m" 32]
          ++ bracketed 34
            ([word "state" 35, word "main" 41]
              ++ bracketed 46
                ([word "defun" 47, word "f" 53] ++ bracketed 55 [] 56
                  ++ bracketed 58 [word "set" 59, word "x" 63, ⟨.constant (.int 2), 65⟩] 66)
                67
              ++ bracketed 69 [word "f" 70] 71
              ++ bracketed 73
                ([word "state" 74, word "inner" 80]
                  ++ bracketed 86 [word "goto" 87, word "main" 92] 96)
                97
              ++ bracketed 99 [word "goto" 100, word "inner" 105] 110)
            111)
        112
      ++ bracketed 114 [word "launch" 115, word "m" 122] 123)

/-- The first tick calls the function of the state, and in its frame finds that function again. -/
theorem scopes_statically_shadowedFunction :
    ∃ compilation engine, shadowedFunction.compile {} = .ok compilation
      ∧ build compilation.program .empty {} .empty = engine
      ∧ compilation.program.scopes 5 = [5, 3, 2, Program.root]
      ∧ (∃ point, engine.Passes point ∧ point.activation.inst.callDepth = 1
        ∧ point.activation.inst.place = 3
        ∧ engine.setup.findFunction point.activation.inst "f" = some 4)
      ∧ (∀ entry ∈ engine.instances, engine.setup.ScopesStatically entry.2)
      ∧ ∀ point, engine.Passes point → engine.setup.ScopesStatically point.activation.inst := by
  refine ⟨_, _, rfl, rfl, by decide +kernel, ?_, ?_⟩
  · exact ⟨_, ⟨_, .turn (List.mem_of_getElem? (i := 0) rfl), .head (.state rfl rfl)
      (.head (@Point.Begins.instruction _ _ _ _ _ [] _ _ _ rfl rfl) (.head (.call rfl)
        (.head (@Point.Begins.body _ _ _ 4 _ (by decide +kernel) rfl (by decide +kernel)) .refl)))⟩,
      rfl, by decide +kernel, by decide +kernel⟩
  · have compiled : shadowedFunction.compile {} = .ok _ := rfl
    exact Reaches.scopes_statically compiled ⟨[], rfl⟩

end Engine

end MachineScript
