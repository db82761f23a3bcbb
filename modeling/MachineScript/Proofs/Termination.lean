import MachineScript.Proofs.Chronicle
import MachineScript.Proofs.FaultIsolation
import MachineScript.Proofs.LaunchQueue

/-!
Contract: the removal of instances by the host.

Owns:
- what a termination takes out of an engine, with the holds of the instance on
  shared variables, and that it leaves everything else as it is;
- that the order of two terminations makes no difference;
- that what has been terminated is never heard of again.

Does not own: instances that finish by themselves.
-/

namespace MachineScript

namespace Engine

variable {setup : Setup} {engine : Engine} {id : InstanceId} {inst : Instance}

/-! ## One termination -/

/-- The engine without an instance, its transition and its holds on shared variables. -/
def without (engine : Engine) (id : InstanceId) (inst : Instance) : Engine :=
  { engine with
    instances := engine.instances.erase id
    world :=
      { engine.world with
        transitions := engine.world.transitions.filter fun pending => pending.instanceId ≠ id
        shared := engine.world.shared.releaseAll inst.sharedRefs } }

theorem terminate_of_found (found : engine.instances.find? id = some inst)
    (other : id ≠ rootInstance) : engine.terminate id = (true, engine.without id inst) := by
  have present : engine.instances.has id = true := by
    unfold Bindings.has
    rw [found]
    rfl
  unfold Engine.terminate retire
  simp only [other, present, found, decide_false, Bool.not_true, Bool.or_self, Bool.false_eq_true,
    if_false]
  rfl

theorem terminate_of_refused (refused : id = rootInstance ∨ engine.instances.find? id = none) :
    engine.terminate id = (false, engine) := by
  unfold Engine.terminate Bindings.has
  rcases refused with isRoot | absent
  · simp [isRoot]
  · simp [absent]

theorem terminate_removable (engine : Engine) (id : InstanceId) :
    (id = rootInstance ∨ engine.instances.find? id = none)
      ∨ ∃ inst, engine.instances.find? id = some inst ∧ id ≠ rootInstance := by
  by_cases isRoot : id = rootInstance
  · exact .inl (.inl isRoot)
  · cases found : engine.instances.find? id with
    | none => exact .inl (.inr rfl)
    | some inst => exact .inr ⟨inst, rfl, isRoot⟩

theorem find?_terminate_other {other : InstanceId} (different : other ≠ id) :
    (engine.terminate id).2.instances.find? other = engine.instances.find? other := by
  rcases engine.terminate_removable id with refused | ⟨inst, found, isOther⟩
  · rw [terminate_of_refused refused]
  · rw [terminate_of_found found isOther]
    exact Bindings.find?_erase_other _ (Ne.symm different)

/-! ## Two terminations -/

/-- The order of two terminations makes no difference, neither to the engine nor to what the host is
told. -/
theorem terminate_comm (engine : Engine) {first second : InstanceId} (different : first ≠ second) :
    (engine.terminate first).2.terminate second
      = ((engine.terminate second).1, ((engine.terminate second).2.terminate first).2) := by
  have atSecond := engine.find?_terminate_other (Ne.symm different)
  have atFirst := engine.find?_terminate_other different
  rcases engine.terminate_removable first with refused | ⟨inst, found, isOther⟩
  · have refusedLater : first = rootInstance
        ∨ (engine.terminate second).2.instances.find? first = none :=
      refused.imp_right atFirst.trans
    rw [terminate_of_refused refused, terminate_of_refused refusedLater]
  · have foundLater := atFirst.trans found
    rcases engine.terminate_removable second with refusedToo | ⟨other, foundToo, isOtherToo⟩
    · have refusedLater : second = rootInstance
          ∨ (engine.terminate first).2.instances.find? second = none :=
        refusedToo.imp_right atSecond.trans
      rw [terminate_of_refused refusedLater, terminate_of_refused refusedToo]
    · have foundTooLater := atSecond.trans foundToo
      rw [terminate_of_found foundTooLater isOtherToo, terminate_of_found foundLater isOther,
        terminate_of_found found isOther, terminate_of_found foundToo isOtherToo]
      simp only [without, Bindings.erase_comm _ first second,
        SharedCells.releaseAll_comm _ inst.sharedRefs other.sharedRefs, List.filter_comm]

/-! ## What a termination takes -/

/-- A termination takes an instance, its transition and its holds, and nothing else. A shared
variable loses the holds of the instance and keeps its value; it goes if these were all, so that
what is left is what other instances hold. -/
structure Removes (engine : Engine) (id : InstanceId) (inst : Instance) : Prop where
  exactly : engine.terminate id = (true,
    { engine with
      instances := engine.instances.erase id
      world :=
        { engine.world with
          transitions := engine.world.transitions.filter fun pending => pending.instanceId ≠ id
          shared := (engine.terminate id).2.world.shared } })
  cells : ∀ key, (engine.terminate id).2.world.shared.find? key
    = (engine.world.shared.find? key).bind fun cell =>
        if inst.sharedRefs.count key = cell.holders then none
        else some { cell with holders := cell.holders - inst.sharedRefs.count key }
  held : ∀ key, (engine.terminate id).2.world.shared.has key = true
    ↔ ∃ other entry, engine.instances.find? other = some entry ∧ other ≠ id
      ∧ key ∈ entry.sharedRefs

theorem Coherent.removes (coherent : engine.Coherent setup [])
    (found : engine.instances.find? id = some inst) (other : id ≠ rootInstance) :
    engine.Removes id inst := by
  have removed := terminate_of_found found other
  have after := coherent.terminate id
  rw [removed] at after
  refine ⟨by rw [removed]; rfl, ?_, ?_⟩
  · intro key
    have balanced := coherent.balanced_others (Bindings.mem_of_find? found) key
    unfold SharedCells.held? at balanced
    beta_reduce at balanced
    rw [removed]
    change (engine.world.shared.releaseAll inst.sharedRefs).find? key = _
    have positive : ∀ cell, engine.world.shared.find? key = some cell →
        inst.sharedRefs.count key ≤ cell.holders ∧ 0 < cell.holders := by
      intro cell present
      rw [present] at balanced
      split at balanced
      · cases balanced
      · have same : cell.holders = _ := Option.some.inj balanced
        omega
    rw [SharedCells.find?_releaseAll fun cell present => (positive cell present).2]
    cases present : engine.world.shared.find? key with
    | none => rfl
    | some cell =>
        have bounded := (positive cell present).1
        simp only [Option.bind_some, show cell.holders ≤ inst.sharedRefs.count key
          ↔ inst.sharedRefs.count key = cell.holders by omega]
  · intro key
    rw [removed, after.balanced.has_iff, referencesIn, List.count_pos_iff, List.mem_flatMap]
    constructor
    · rintro ⟨entry, there, member⟩
      obtain ⟨known, different⟩ := Bindings.mem_erase_iff.mp there
      exact ⟨entry.1, entry.2, (Bindings.find?_eq_some_iff coherent.distinct).mpr known, different,
        member⟩
    · rintro ⟨holder, entry, known, different, member⟩
      exact ⟨(holder, entry), Bindings.mem_erase_iff.mpr ⟨Bindings.mem_of_find? known, different⟩,
        member⟩

/-! ## What is never heard of again -/

/-- Through some calls of the host an instance stays gone: it takes no turn, it is not live and
waits in no queue, no fault names it, and there is nothing to terminate. -/
structure StaysGone (engine : Engine) (id : InstanceId) (calls : List HostCall) : Prop where
  gone : (engine.performAll calls).status id = .gone
  idle : ∀ turn ∈ engine.turnsIn calls, turn.inst.id ≠ id
  dead : ∀ inst ∈ (engine.performAll calls).live, inst.id ≠ id
  unqueued : ∀ pending ∈ (engine.performAll calls).world.transitions, pending.instanceId ≠ id
  silent : ∀ fault ∈ (engine.answers calls).flatMap HostAnswer.faults, fault.instanceId ≠ id
  refused : (engine.performAll calls).terminate id = (false, engine.performAll calls)

theorem Coherent.staysGone (placed : setup.program.Placed) (coherent : engine.Coherent setup [])
    (other : id ≠ rootInstance) (below : id < engine.nextId)
    (absent : engine.instances.find? id = none) (calls : List HostCall) :
    engine.StaysGone id calls := by
  have reached : engine.Reaches (engine.performAll calls) := ⟨calls, rfl⟩
  have gone := coherent.gone placed below absent reached
  have after := (reached.coherent placed coherent).1
  have unlisted : id ∉ (engine.performAll calls).instances.map Prod.fst :=
    Bindings.find?_eq_none_iff.mp gone
  refine ⟨?_, ?_, ?_, ?_, ?_, terminate_of_refused (.inr gone)⟩
  · unfold Engine.status
    rw [gone]
  · have spent : engine.Spent id := by
      refine ⟨below, fun inst found => ?_⟩
      rw [absent] at found
      cases found
    have run := coherent.chronicle placed calls .opens
    exact (run.spent other spent).2
  · rintro inst live rfl
    unfold Engine.live at live
    obtain ⟨entry, there, rfl⟩ := List.mem_map.mp (List.mem_filter.mp live).1
    rw [(after.ids entry there).1] at unlisted
    exact unlisted (List.mem_map_of_mem there)
  · rintro pending queued rfl
    exact unlisted (after.listed _ (List.mem_map_of_mem queued))
  · rintro fault told rfl
    have might := (coherent.failsOnce placed calls).could fault told
    unfold MayFail at might
    rw [if_neg other, absent] at might
    rcases might with there | new
    · cases there
    · exact Nat.not_lt_of_le new below

/-- How an engine terminates instances. -/
structure Terminates (engine : Engine) : Prop where
  removes : ∀ id inst, engine.instances.find? id = some inst → id ≠ rootInstance →
    engine.Removes id inst
  refuses : ∀ id, id = rootInstance ∨ engine.instances.find? id = none →
    engine.terminate id = (false, engine)
  commutes : ∀ first second,
    engine.performAll [.terminate first, .terminate second]
      = engine.performAll [.terminate second, .terminate first]
  forever : ∀ id inst, engine.instances.find? id = some inst → id ≠ rootInstance →
    ∀ calls, (engine.terminate id).2.StaysGone id calls

/-- Whatever a host has done with a compiled program, a termination takes one instance with what
belongs to it, for good. -/
theorem Reaches.terminates {options : CompileOptions} {tape : Tape} {compilation : Compilation}
    (compiled : tape.compile options = .ok compilation) {registry : Registry}
    {config : EngineConfig} {printer : Printer}
    (reached : (build compilation.program registry config printer).Reaches engine) :
    engine.Terminates := by
  have placed : (Setup.mk compilation.program registry config).program.Placed :=
    Tape.compile_placed compiled
  have coherent := reached.coherent_of_compiled compiled
  refine ⟨fun id inst found other => coherent.removes found other,
    fun id refused => terminate_of_refused refused, ?_, ?_⟩
  · intro first second
    by_cases same : first = second
    · rw [same]
    · change ((engine.terminate first).2.terminate second).2 = _
      rw [engine.terminate_comm same]
      rfl
  · intro id inst found other calls
    have after := coherent.terminate id
    rw [terminate_of_found found other] at after ⊢
    exact after.staysGone placed other (coherent.lt_nextId found)
      (Bindings.find?_erase_same _ _) calls

open Token in
/-- The tape of `(machine m (shared s 1) (state main (goto main))) (launch m) (launch m)`. -/
def sharedByTwo : Tape :=
  Tape.ofTokens .empty
    (bracketed 0
        ([word "machine" 1, word "m" 9]
          ++ bracketed 11 [word "shared" 12, word "s" 19, ⟨.constant (.int 1), 21⟩] 22
          ++ bracketed 24
            ([word "state" 25, word "main" 31] ++ bracketed 36 [word "goto" 37, word "main" 42] 46)
            47)
        48
      ++ bracketed 50 [word "launch" 51, word "m" 58] 59
      ++ bracketed 61 [word "launch" 62, word "m" 69] 70)

/-- Two instances hold a variable and have their transitions queued; one of them goes with its
transition and its hold. -/
theorem terminates_sharedByTwo :
    ∃ compilation engine, sharedByTwo.compile {} = .ok compilation
      ∧ (build compilation.program .empty {} .empty).performAll [.tick] = engine
      ∧ engine.sharedHolders "m" "s" = 2
      ∧ engine.world.transitions = [⟨1, "main"⟩, ⟨2, "main"⟩]
      ∧ (engine.performAll [.terminate 1]).world.transitions = [⟨2, "main"⟩]
      ∧ (engine.performAll [.terminate 1]).sharedHolders "m" "s" = 1
      ∧ (engine.performAll [.terminate 1, .terminate 2]).world.shared = []
      ∧ engine.Terminates := by
  refine ⟨_, _, rfl, rfl, by decide +kernel, by decide +kernel, by decide +kernel,
    by decide +kernel, by decide +kernel, ?_⟩
  have compiled : sharedByTwo.compile {} = .ok _ := rfl
  exact Reaches.terminates compiled ⟨[.tick], rfl⟩

end Engine

end MachineScript
