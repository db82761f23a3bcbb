import Mathlib.Tactic.SplitIfs
import MachineScript.Proofs.Table
import MachineScript.SharedCells

/-!
Contract: the number of holds on a shared variable against the references to it.

Owns:
- the balance of the two, and what taking hold, creating and letting go do to it;
- that values outlast every hold but the last;
- that holds are let go of in any order.

Does not own: who refers to a shared variable.
-/

namespace MachineScript.SharedCells

/-- How often a shared variable is held, if it exists. -/
def held? (cells : SharedCells) (key : SharedKey) : Option Nat :=
  (cells.find? key).map SharedCell.holders

/-- Just what is referred to exists, and it is held once for each reference. -/
def Balanced (cells : SharedCells) (references : SharedKey → Nat) : Prop :=
  ∀ key, cells.held? key = if references key = 0 then none else some (references key)

variable {cells : SharedCells} {references : SharedKey → Nat}

/-! ## What balance means -/

theorem Balanced.has_iff (balanced : cells.Balanced references) (key : SharedKey) :
    cells.has key = true ↔ 0 < references key := by
  have held := balanced key
  unfold held? at held
  unfold Bindings.has
  cases found : cells.find? key with
  | none =>
      rw [found] at held
      split at held
      · simp only [Option.isSome_none, Bool.false_eq_true, false_iff]
        omega
      · cases held
  | some cell =>
      rw [found] at held
      split at held
      · cases held
      · simp only [Option.isSome_some, true_iff]
        omega

theorem Balanced.holders_eq (balanced : cells.Balanced references) (key : SharedKey) :
    cells.holders key = references key := by
  have held := balanced key
  unfold holders
  change (cells.held? key).getD 0 = references key
  rw [held]
  split
  · next none => exact none.symm
  · rfl

theorem Balanced.of_held? {other : SharedCells} (balanced : cells.Balanced references)
    (same : ∀ key, other.held? key = cells.held? key) : other.Balanced references := by
  intro key
  rw [same, balanced]

theorem Balanced.congr {others : SharedKey → Nat} (balanced : cells.Balanced references)
    (same : ∀ key, others key = references key) : cells.Balanced others := by
  intro key
  rw [same, balanced]

/-! ## What keeps it -/

theorem held?_insert_same (cells : SharedCells) (key : SharedKey) (cell : SharedCell) :
    held? (cells.insert key cell) key = some cell.holders := by
  unfold held?
  rw [Bindings.find?_insert_same]
  rfl

theorem held?_insert_other (cells : SharedCells) {key other : SharedKey} (cell : SharedCell)
    (different : key ≠ other) : held? (cells.insert key cell) other = cells.held? other := by
  unfold held?
  rw [Bindings.find?_insert_other _ _ different]

/-- One more reference to a variable changes the balance there only. -/
theorem balanced_add_iff {key : SharedKey} :
    (cells.Balanced fun other => references other + [key].count other)
      ↔ cells.held? key = some (references key + 1) ∧ ∀ other, key ≠ other →
        cells.held? other = if references other = 0 then none else some (references other) := by
  constructor
  · intro balanced
    constructor
    · have here := balanced key
      simpa using here
    · intro other different
      have there := balanced other
      simpa [different] using there
  · rintro ⟨here, elsewhere⟩ other
    by_cases same : key = other
    · subst same
      simpa using here
    · simpa [same] using elsewhere other same

theorem Balanced.retain {held : SharedCells} {key : SharedKey}
    (balanced : cells.Balanced references)
    (retained : cells.retain? key = some held) :
    held.Balanced fun other => references other + [key].count other := by
  unfold retain? at retained
  split at retained
  · next cell found =>
      cases retained
      have before := balanced key
      unfold held? at before
      rw [found] at before
      refine balanced_add_iff.mpr ⟨?_, fun other different => ?_⟩
      · rw [held?_insert_same]
        split at before
        · cases before
        · rw [Option.map_some, Option.some.injEq] at before
          rw [before]
      · rw [held?_insert_other _ _ different]
        exact balanced other
  · cases retained

theorem Balanced.create {key : SharedKey} (balanced : cells.Balanced references)
    (absent : cells.held? key = none) (value : Value) :
    (cells.create key value).Balanced fun other => references other + [key].count other := by
  have before := balanced key
  rw [absent] at before
  refine balanced_add_iff.mpr ⟨?_, fun other different => ?_⟩
  · split at before
    · next unreferenced =>
        rw [SharedCells.create, held?_insert_same, unreferenced]
    · cases before
  · rw [SharedCells.create, held?_insert_other _ _ different]
    exact balanced other

theorem Balanced.release {key : SharedKey}
    (balanced : cells.Balanced fun other => references other + [key].count other) :
    (cells.release key).Balanced references := by
  obtain ⟨here, elsewhere⟩ := balanced_add_iff.mp balanced
  unfold held? at here
  cases found : cells.find? key with
  | none =>
      rw [found] at here
      cases here
  | some cell =>
      rw [found, Option.map_some, Option.some.injEq] at here
      intro other
      unfold SharedCells.release
      simp only [found]
      by_cases same : key = other
      · subst same
        split
        · rw [if_pos (by omega)]
          unfold held?
          rw [Bindings.find?_erase_same]
          rfl
        · rw [held?_insert_same, if_neg (by omega), here, Nat.add_sub_cancel]
      · rw [← elsewhere other same]
        split
        · unfold held?
          rw [Bindings.find?_erase_other _ same]
        · exact held?_insert_other _ _ same

theorem Balanced.releaseAll {keys : List SharedKey}
    (balanced : cells.Balanced fun other => references other + keys.count other) :
    (cells.releaseAll keys).Balanced references := by
  unfold SharedCells.releaseAll
  induction keys generalizing cells with
  | nil => exact balanced
  | cons key rest inductionHypothesis =>
      rw [List.foldl_cons]
      apply inductionHypothesis
      apply Balanced.release
      apply balanced.congr
      intro other
      rw [List.count_cons, List.count_cons, List.count_nil]
      omega

/-! ## Values -/

theorem isSome_held? (cells : SharedCells) (key : SharedKey) :
    (cells.held? key).isSome = cells.has key := by
  unfold held? Bindings.has
  exact Option.isSome_map

theorem isSome_value? (cells : SharedCells) (key : SharedKey) :
    (cells.value? key).isSome = cells.has key := by
  unfold value? Bindings.has
  exact Option.isSome_map

theorem retain?_of_has {key : SharedKey} (present : cells.has key = true) :
    ∃ held, cells.retain? key = some held ∧ held.value? key = cells.value? key
      ∧ held.holders key = cells.holders key + 1 := by
  obtain ⟨cell, found⟩ := Option.isSome_iff_exists.mp present
  refine ⟨cells.insert key { cell with holders := cell.holders + 1 }, ?_, ?_, ?_⟩
  · unfold retain?
    rw [found]
  · unfold value?
    rw [Bindings.find?_insert_same, found]
    rfl
  · unfold holders
    rw [Bindings.find?_insert_same, found]
    rfl

theorem retain?_of_absent {key : SharedKey} (absent : cells.has key = false) :
    cells.retain? key = none := by
  unfold Bindings.has at absent
  rw [Option.isSome_eq_false_iff, Option.isNone_iff_eq_none] at absent
  unfold retain?
  rw [absent]

theorem value?_release {key other : SharedKey} (kept : (cells.release key).has other = true) :
    (cells.release key).value? other = cells.value? other := by
  unfold release at kept ⊢
  cases found : cells.find? key with
  | none => rfl
  | some cell =>
      simp only [found] at kept ⊢
      unfold value?
      by_cases same : key = other
      · subst same
        by_cases lone : cell.holders ≤ 1
        · simp [lone, Bindings.has] at kept
        · rw [if_neg lone, Bindings.find?_insert_same, found]
          rfl
      · split
        · rw [Bindings.find?_erase_other _ same]
        · rw [Bindings.find?_insert_other _ _ same]

theorem value?_releaseAll {keys : List SharedKey} {other : SharedKey}
    (kept : (cells.releaseAll keys).has other = true) :
    (cells.releaseAll keys).value? other = cells.value? other := by
  induction keys generalizing cells with
  | nil => rfl
  | cons key rest inductionHypothesis =>
      change ((cells.release key).releaseAll rest).has other = true at kept
      have later := inductionHypothesis kept
      change ((cells.release key).releaseAll rest).value? other = _
      rw [later]
      apply value?_release
      rw [← isSome_value?, ← later, isSome_value?]
      exact kept

/-! ## Letting go -/

theorem release_eq {key : SharedKey} {cell : SharedCell} (found : cells.find? key = some cell) :
    cells.release key = if cell.holders ≤ 1 then Bindings.erase cells key
      else cells.insert key { cell with holders := cell.holders - 1 } := by
  unfold release
  rw [found]

theorem release_of_absent {key : SharedKey} (absent : cells.find? key = none) :
    cells.release key = cells := by
  unfold release
  rw [absent]

theorem find?_release_other {key other : SharedKey} (different : key ≠ other) :
    (cells.release key).find? other = cells.find? other := by
  unfold release
  split
  · split
    · exact Bindings.find?_erase_other _ different
    · exact Bindings.find?_insert_other _ _ different
  · rfl

/-- A hold less on one variable and a hold less on another, in either order. -/
theorem release_comm (cells : SharedCells) (first second : SharedKey) :
    (cells.release first).release second = (cells.release second).release first := by
  by_cases same : first = second
  · rw [same]
  have atSecond := @find?_release_other cells _ _ same
  have atFirst := @find?_release_other cells _ _ (Ne.symm same)
  cases found : cells.find? first with
  | none => rw [release_of_absent found, release_of_absent (atFirst.trans found)]
  | some cell =>
      cases foundToo : cells.find? second with
      | none => rw [release_of_absent foundToo, release_of_absent (atSecond.trans foundToo)]
      | some other =>
          have present : Bindings.has cells first = true := by
            unfold Bindings.has
            rw [found]
            rfl
          rw [release_eq (atSecond.trans foundToo), release_eq (atFirst.trans found),
            release_eq found, release_eq foundToo]
          split_ifs
          · exact Bindings.erase_comm _ _ _
          · exact Bindings.erase_insert_other _ _ same
          · exact (Bindings.erase_insert_other _ _ (Ne.symm same)).symm
          · exact Bindings.insert_comm present same _ _

instance : RightCommutative release :=
  ⟨release_comm⟩

theorem releaseAll_comm (cells : SharedCells) (keys others : List SharedKey) :
    (cells.releaseAll keys).releaseAll others = (cells.releaseAll others).releaseAll keys := by
  unfold releaseAll
  rw [← List.foldl_append, ← List.foldl_append]
  exact List.perm_append_comm.foldl_eq cells

/-- A variable loses as many holds as are let go of, and goes with the last one. -/
theorem find?_releaseAll {keys : List SharedKey} {key : SharedKey}
    (held : ∀ cell, cells.find? key = some cell → 0 < cell.holders) :
    (cells.releaseAll keys).find? key = (cells.find? key).bind fun cell =>
      if cell.holders ≤ keys.count key then none
      else some { cell with holders := cell.holders - keys.count key } := by
  induction keys generalizing cells with
  | nil =>
      cases found : cells.find? key with
      | none => exact found
      | some cell =>
          have positive := held cell found
          rw [Option.bind_some, List.count_nil, if_neg (Nat.not_le.mpr positive)]
          exact found
  | cons first rest inductionHypothesis =>
      change ((cells.release first).releaseAll rest).find? key = _
      by_cases same : first = key
      · subst same
        cases found : cells.find? first with
        | none =>
            rw [release_of_absent found, inductionHypothesis held, found]
            rfl
        | some cell =>
            have positive := held cell found
            rw [Option.bind_some, List.count_cons_self]
            by_cases last : cell.holders ≤ 1
            · have gone : (cells.release first).find? first = none := by
                rw [release_eq found, if_pos last]
                exact Bindings.find?_erase_same _ _
              rw [inductionHypothesis (by simp [gone]), gone, if_pos (by omega)]
              rfl
            · have fewer : (cells.release first).find? first
                  = some { cell with holders := cell.holders - 1 } := by
                rw [release_eq found, if_neg last]
                exact Bindings.find?_insert_same _ _ _
              rw [inductionHypothesis (by simp only [fewer]; grind), fewer, Option.bind_some]
              simp only [show cell.holders - 1 ≤ rest.count first
                  ↔ cell.holders ≤ rest.count first + 1 by omega,
                show cell.holders - 1 - rest.count first
                  = cell.holders - (rest.count first + 1) by omega]
      · have unchanged := @find?_release_other cells _ _ same
        rw [inductionHypothesis (by rwa [unchanged]), unchanged, List.count_cons_of_ne same]

end MachineScript.SharedCells
