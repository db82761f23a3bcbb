import MachineScript.Proofs.Points
import MachineScript.Proofs.Variables

/-!
Contract: what the instruction `set` binds.

Owns:
- the location that `set` binds, by the place in the program where it stands and by what the name
  means there;
- that it binds this location and leaves everything else, and that the name is read back, at every
  point of every run of a reachable engine.

Does not own: what the host assigns.
-/

namespace MachineScript

namespace Setup

variable {setup : Setup} {start activation : Activation} {name : String} {value : Value}

/-! ## The location -/

/-- The location that `set` binds. At the top of the program that is a global, and at the top of a
machine a variable of the instance. A pure frame binds a variable of its own. Anywhere else it is
where the value of the name is kept, or the innermost context if it is kept nowhere. -/
def target (setup : Setup) (start : Activation) (name : String) : Location :=
  match start.inst.contexts with
  | [] => if start.inst.isRoot then .global name else .inst name
  | innermost :: _ =>
      if innermost.isPureFrame then .context 0 name
      else (setup.locationOf? start name).getD (.context 0 name)

/-- Outside of pure frames `set` writes where the value is kept. -/
theorem binds_found (opened : start.inst.contexts ≠ []) :
    start.Binds
      (match setup.resolve start.world start.inst name with
        | .ok .module => start.setLocal name value
        | .ok slot => (start.writeSlot? name slot value).getD start
        | .error _ => start.setLocal name value)
      ((setup.locationOf? start name).getD (.context 0 name)) value := by
  cases found : setup.resolve start.world start.inst name with
  | error =>
      have unlocated : setup.locationOf? start name = none := by
        unfold locationOf?
        rw [found]
        rfl
      rw [unlocated]
      exact Activation.binds_setLocal opened
  | ok slot =>
      rw [locationOf?_of_resolve found]
      cases located : slot.location? name with
      | none =>
          cases slot with
          | module => exact Activation.binds_setLocal opened
          | context | inst | shared | global => cases located
      | some location =>
          have kept := locationOf?_eq_some_iff.mpr ⟨slot, found, located⟩
          obtain ⟨written, assigned, binds⟩ :=
            Activation.writeSlot?_of_location located (present_of_locationOf? kept).2 value
          cases slot with
          | module => cases located
          | context | inst | shared | global =>
              simp only [assigned]
              exact binds

theorem set_binds (setup : Setup) (start : Activation) (name : String) (value : Value) :
    start.Binds (start.set setup name value) (setup.target start name) value := by
  unfold Activation.set target
  simp only
  cases contexts : start.inst.contexts with
  | nil =>
      simp only
      split
      · exact start.binds_global name value
      · simpa only [contexts] using start.binds_inst name value
  | cons innermost outer =>
      have opened : start.inst.contexts ≠ [] := by
        rw [contexts]
        exact List.cons_ne_nil _ _
      simp only
      split
      · exact Activation.binds_setLocal opened
      · exact binds_found opened

/-! ## What the name means afterwards -/

/-- A variable of the innermost context hides all others. -/
theorem locationOf?_innermost
    (present : (activation.valueAt? (.context 0 name)).isSome = true) :
    setup.locationOf? activation name = some (.context 0 name) := by
  apply locationOf?_eq_some_iff.mpr
  refine ⟨.context 0, ?_, rfl⟩
  cases contexts : activation.inst.contexts with
  | nil =>
      simp only [Activation.valueAt?, contexts, List.getElem?_nil, Option.bind_none,
        Option.isSome_none, Bool.false_eq_true] at present
  | cons innermost outer =>
      simp only [Activation.valueAt?, contexts, List.getElem?_cons_zero, Option.bind_some]
        at present
      have has : innermost.bindings.has name = true := present
      unfold resolve
      rw [contexts, List.findIdx?_cons, has]
      rfl

/-- Outside of all contexts a variable of the instance hides all others. -/
theorem locationOf?_inst (top : activation.inst.contexts = [])
    (notRoot : activation.inst.isRoot = false)
    (present : (activation.valueAt? (.inst name)).isSome = true) :
    setup.locationOf? activation name = some (.inst name) := by
  apply locationOf?_eq_some_iff.mpr
  have has : activation.inst.bindings.has name = true := present
  refine ⟨.inst, ?_, rfl⟩
  unfold resolve
  rw [top, notRoot, has]
  rfl

/-- At the top of the program there are only values of modules and globals. -/
theorem resolve_root (setup : Setup) (top : activation.inst.contexts = [])
    (isRoot : activation.inst.isRoot = true)
    (alone : setup.machineLineage activation.inst.machine = [])
    (present : (activation.valueAt? (.global name)).isSome = true) :
    setup.resolve activation.world activation.inst name
      = .ok (if setup.isModuleValue name then .module else .global) := by
  have has : activation.world.globals.has name = true := present
  unfold resolve
  simp only [top, List.findIdx?_nil, isRoot, Bool.not_true, Bool.false_and, Bool.false_eq_true,
    if_false, alone, List.map_nil, List.find?_nil, has, if_true]
  split <;> rfl

/-- What `set` has bound is what the name means. -/
theorem locationOf?_set
    (alone : start.inst.isRoot = true → setup.machineLineage start.inst.machine = [])
    (visible : start.inst.contexts = [] → start.inst.isRoot = true →
      setup.isModuleValue name = false) :
    setup.locationOf? (start.set setup name value) name = some (setup.target start name) := by
  have binds := setup.set_binds start name value
  have present : ((start.set setup name value).valueAt? (setup.target start name)).isSome := by
    rw [binds.bound]
    rfl
  generalize start.set setup name value = after at binds present
  unfold target at binds present ⊢
  cases contexts : start.inst.contexts with
  | nil =>
      have top : after.inst.contexts = [] := by
        rw [← List.length_eq_zero_iff, binds.depth, contexts]
        rfl
      simp only [contexts] at binds present ⊢
      cases isRoot : start.inst.isRoot with
      | true =>
          rw [isRoot] at present
          have resolved := resolve_root setup top (binds.isRoot.trans isRoot)
            (binds.machine.symm ▸ alone isRoot) present
          rw [visible contexts isRoot] at resolved
          rw [locationOf?_of_resolve resolved]
          rfl
      | false =>
          rw [isRoot] at present
          exact locationOf?_inst top (binds.isRoot.trans isRoot) present
  | cons innermost outer =>
      simp only [contexts] at binds present ⊢
      cases pure : innermost.isPureFrame with
      | true =>
          rw [pure] at present
          exact locationOf?_innermost present
      | false =>
          simp only [pure, Bool.false_eq_true, if_false] at binds present ⊢
          cases located : setup.locationOf? start name with
          | none =>
              rw [located] at present
              exact locationOf?_innermost present
          | some location =>
              rw [located] at binds
              rw [(binds.alike (present_of_locationOf? located).2).locationOf?, located]
              rfl

/-! ## Sets -/

/-- A set binds one location and leaves everything else. Where the value of the name is kept there
was one before. Afterwards the name is read back, unless a module has a value of that name and the
set stands at the top of the program. -/
structure SetsOne (setup : Setup) (start : Activation) (name : String) (value : Value)
    (left : Activation) : Prop where
  binds : start.Binds left (setup.target start name) value
  present : ∀ location, setup.locationOf? start name = some location →
    (start.valueAt? location).isSome = true
  read : (start.inst.contexts = [] → start.inst.isRoot = true →
      setup.isModuleValue name = false) →
    setup.readVariable left.world left.inst name = .ok value
  hidden : start.inst.contexts = [] → start.inst.isRoot = true →
    setup.isModuleValue name = true → setup.resolve left.world left.inst name = .ok .module

/-- No machine is around the forms at the top of the program. -/
theorem machineLineage_root (tree : setup.program.IsTree) :
    setup.machineLineage Program.root = [] := by
  have isRoot := tree.top.2.1
  have around : setup.program.ancestors Program.root = [] := rfl
  unfold machineLineage
  rw [around, List.filter_singleton, isRoot]
  rfl

theorem setsOne (tree : setup.program.IsTree)
    (root : start.inst.isRoot = true → start.inst.machine = Program.root) (name : String)
    (value : Value) : setup.SetsOne start name value (start.set setup name value) := by
  have binds := setup.set_binds start name value
  have alone : start.inst.isRoot = true → setup.machineLineage start.inst.machine = [] := by
    intro isRoot
    rw [root isRoot, machineLineage_root tree]
  refine ⟨binds, ?_, ?_, ?_⟩
  · exact fun location located => (present_of_locationOf? located).2
  · intro visible
    exact readVariable_of_locationOf? (locationOf?_set alone visible) binds.bound
  · intro contexts isRoot isValue
    have top : (start.set setup name value).inst.contexts = [] := by
      rw [← List.length_eq_zero_iff, binds.depth, contexts]
      rfl
    have isGlobal : setup.target start name = .global name := by
      unfold target
      simp only [contexts, isRoot, if_true]
    have bound := binds.bound
    rw [isGlobal] at bound
    have resolved := resolve_root setup top (binds.isRoot.trans isRoot)
      (binds.machine.symm ▸ alone isRoot) (Option.isSome_of_eq_some bound)
    rw [isValue] at resolved
    exact resolved

/-- The instruction sets what its value is. -/
theorem execute_set {caller : Caller} {source : Source} {left : Activation}
    (evaluated : setup.evalSource caller source start = .ok value left) :
    setup.execute caller (.set name source) start = .ok value (left.set setup name value) := by
  simp only [execute, bind, EStateM.bind, evaluated]
  rfl

end Setup

/-! ## Reachable engines -/

namespace Engine

variable {engine : Engine}

/-- Whatever a host does with a compiled program, a set binds one location and leaves everything
else: for every instance as it rests, at every point of every run, and where a run executes the
instruction, once its value has been evaluated. -/
theorem Reaches.set_binds_one {options : CompileOptions} {tape : Tape}
    {compilation : Compilation} (compiled : tape.compile options = .ok compilation)
    {registry : Registry} {config : EngineConfig} {printer : Printer}
    (reached : (build compilation.program registry config printer).Reaches engine) :
    (∀ entry ∈ engine.instances, ∀ name value,
        engine.setup.SetsOne ⟨engine.world, entry.2⟩ name value
          (Activation.set engine.setup ⟨engine.world, entry.2⟩ name value))
      ∧ (∀ point, engine.Passes point → ∀ name value,
        engine.setup.SetsOne point.activation name value
          (point.activation.set engine.setup name value))
      ∧ ∀ name source start value left,
        engine.Passes ⟨.instruction (.set name source), start⟩ →
        engine.setup.evalSource engine.setup.callAtDepth source start = .ok value left →
        ∃ after, engine.setup.execute engine.setup.callAtDepth (.set name source) start
            = .ok value after
          ∧ engine.setup.SetsOne left name value after := by
  obtain ⟨placed, tree⟩ := Tape.wellFormed_of_compile compiled
  have coherent := reached.coherent_of_compiled compiled
  rw [coherent.same]
  refine ⟨?_, ?_, ?_⟩
  · intro entry there name value
    apply Setup.setsOne tree
    intro isRoot
    have isFirst : entry.1 = rootInstance :=
      (coherent.ids entry there).1.symm.trans (of_decide_eq_true isRoot)
    apply reached.runsRoot placed
    rw [Bindings.find?_eq_some_iff coherent.distinct, ← isFirst]
    exact there
  · intro point passes name value
    exact Setup.setsOne tree (reached.sound_of_passes compiled passes).runs.root name value
  · intro name source start value left passes evaluated
    have runs := (reached.sound_of_passes compiled passes).runs
    have quiet := (Setup.evalSource_keeps (Setup.callAtDepth_keeps placed) source start).of_ok
      evaluated
    exact ⟨_, Setup.execute_set evaluated,
      Setup.setsOne tree (runs.of_calm quiet.calm).root name value⟩

open Token in
/-- The tape of `(set v 1) (machine m (set v 2) (defun f () (set v 3)) (state main (set v 4) (f)))
(launch m)`. -/
def setsInPlaces : Tape :=
  Tape.ofTokens .empty
    (bracketed 0 [word "set" 1, word "v" 5, ⟨.constant (.int 1), 7⟩] 8
      ++ bracketed 10
        ([word "machine" 11, word "m" 19]
          ++ bracketed 21 [word "set" 22, word "v" 26, ⟨.constant (.int 2), 28⟩] 29
          ++ bracketed 31
            ([word "defun" 32, word "f" 38] ++ bracketed 40 [] 41
              ++ bracketed 43 [word "set" 44, word "v" 48, ⟨.constant (.int 3), 50⟩] 51)
            52
          ++ bracketed 54
            ([word "state" 55, word "main" 61]
              ++ bracketed 66 [word "set" 67, word "v" 71, ⟨.constant (.int 4), 73⟩] 74
              ++ bracketed 76 [word "f" 77] 78)
            79)
        80
      ++ bracketed 82 [word "launch" 83, word "m" 90] 91)

/-- The program sets a global, the machine a variable of its instance, which the state sets again,
and the function a variable of its own. -/
theorem set_binds_one_setsInPlaces :
    ∃ compilation engine, setsInPlaces.compile {} = .ok compilation
      ∧ build compilation.program .empty {} .empty = engine
      ∧ (∃ start source, engine.Passes ⟨.instruction (.set "v" source), start⟩
        ∧ start.inst.isRoot = true ∧ engine.setup.target start "v" = .global "v")
      ∧ (∃ start source, engine.Passes ⟨.instruction (.set "v" source), start⟩
        ∧ start.inst.contexts = [] ∧ engine.setup.target start "v" = .inst "v")
      ∧ (∃ start source, engine.Passes ⟨.instruction (.set "v" source), start⟩
        ∧ start.inst.currentState = some 3 ∧ engine.setup.target start "v" = .inst "v")
      ∧ (∃ start source, engine.Passes ⟨.instruction (.set "v" source), start⟩
        ∧ start.inst.callDepth = 1 ∧ engine.setup.target start "v" = .context 0 "v")
      ∧ (∀ entry ∈ engine.instances, ∀ name value,
        engine.setup.SetsOne ⟨engine.world, entry.2⟩ name value
          (Activation.set engine.setup ⟨engine.world, entry.2⟩ name value))
      ∧ (∀ point, engine.Passes point → ∀ name value,
        engine.setup.SetsOne point.activation name value
          (point.activation.set engine.setup name value))
      ∧ ∀ name source start value left,
        engine.Passes ⟨.instruction (.set name source), start⟩ →
        engine.setup.evalSource engine.setup.callAtDepth source start = .ok value left →
        ∃ after, engine.setup.execute engine.setup.callAtDepth (.set name source) start
            = .ok value after
          ∧ engine.setup.SetsOne left name value after := by
  refine ⟨_, _, rfl, rfl, ?_, ?_, ?_, ?_, ?_⟩
  · exact ⟨_, _, ⟨_, .root rfl rfl,
      .head (@Point.Begins.instruction _ _ _ _ _ [] _ _ _ rfl rfl) .refl⟩,
      by decide +kernel, by decide +kernel⟩
  · exact ⟨_, _, ⟨_, .turn (List.mem_of_getElem? (i := 0) rfl), .head (.machine _)
      (.head (@Point.Begins.instruction _ _ _ _ _ [] _ _ _ rfl rfl) .refl)⟩,
      by decide +kernel, by decide +kernel⟩
  · exact ⟨_, _, ⟨_, .turn (List.mem_of_getElem? (i := 0) rfl), .head (.state rfl rfl)
      (.head (@Point.Begins.instruction _ _ _ _ _ [] _ _ _ rfl rfl) .refl)⟩,
      by decide +kernel, by decide +kernel⟩
  · exact ⟨_, _, ⟨_, .turn (List.mem_of_getElem? (i := 0) rfl), .head (.state rfl rfl)
      (.head (@Point.Begins.instruction _ _ _ _ _ [.set "v" _] _ _ _ rfl rfl) (.head (.call rfl)
        (.head (@Point.Begins.body _ _ _ 2 _ (by decide +kernel) rfl (by decide +kernel))
          (.head (@Point.Begins.instruction _ _ _ _ _ [] _ _ _ rfl rfl) .refl))))⟩,
      by decide +kernel, by decide +kernel⟩
  · have compiled : setsInPlaces.compile {} = .ok _ := rfl
    exact Reaches.set_binds_one compiled ⟨[], rfl⟩

end Engine

end MachineScript
