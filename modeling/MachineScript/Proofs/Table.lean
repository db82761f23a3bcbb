import Mathlib.Data.List.Perm.Basic
import MachineScript.Bindings

/-!
Contract: bindings whose keys are distinct, as tables.

Owns:
- an entry against the entries of all other keys, for what is found, what is
  inserted and what is removed;
- changes at two keys in either order, whether keys are distinct or not;
- a change of all values, which an insertion may not show.
-/

namespace MachineScript.Bindings

variable {κ α : Type} [DecidableEq κ] {bindings : Bindings κ α} {key : κ} {value : α}

theorem mem_erase_iff {entry : κ × α} :
    entry ∈ bindings.erase key ↔ entry ∈ bindings ∧ entry.1 ≠ key := by
  unfold erase
  rw [List.mem_filter, decide_eq_true_iff]

theorem erase_of_notMem (absent : key ∉ bindings.map Prod.fst) : bindings.erase key = bindings := by
  unfold erase
  rw [List.filter_eq_self]
  intro entry member
  rw [decide_eq_true_iff]
  intro same
  exact absent (List.mem_map.mpr ⟨entry, member, same⟩)

theorem mem_of_find? (found : bindings.find? key = some value) : (key, value) ∈ bindings := by
  induction bindings with
  | nil => simp at found
  | cons entry rest inductionHypothesis =>
      obtain ⟨bound, old⟩ := entry
      simp only [find?] at found
      split at found
      · next same =>
          cases found
          rw [same]
          exact List.mem_cons_self
      · exact List.mem_cons_of_mem _ (inductionHypothesis found)

theorem find?_eq_none_iff : bindings.find? key = none ↔ key ∉ bindings.map Prod.fst := by
  induction bindings with
  | nil => simp
  | cons entry rest inductionHypothesis =>
      obtain ⟨bound, old⟩ := entry
      by_cases same : bound = key
      · simp [find?, same]
      · simp [find?, same, inductionHypothesis, Ne.symm same]

/-- Where keys are distinct, the entry of a key and the entries of the others are all. -/
theorem perm_of_mem (distinct : (bindings.map Prod.fst).Nodup) (member : (key, value) ∈ bindings) :
    bindings.Perm ((key, value) :: bindings.erase key) := by
  induction bindings with
  | nil => cases member
  | cons entry rest inductionHypothesis =>
      obtain ⟨absent, distinct⟩ := List.nodup_cons.mp distinct
      rcases List.mem_cons.mp member with rfl | isRest
      · have others := erase_of_notMem absent
        unfold erase at others ⊢
        rw [List.filter_cons_of_neg (by simp), others]
      · have different : entry.1 ≠ key := by
          intro same
          exact absent (List.mem_map.mpr ⟨(key, value), isRest, same.symm⟩)
        have others := (inductionHypothesis distinct isRest).cons entry
        unfold erase at others ⊢
        rw [List.filter_cons_of_pos (by simpa using different)]
        exact others.trans (List.Perm.swap _ _ _)

theorem length_erase (distinct : (bindings.map Prod.fst).Nodup)
    (found : bindings.find? key = some value) : (bindings.erase key).length + 1 = bindings.length :=
  (perm_of_mem distinct (mem_of_find? found)).length_eq.symm

theorem length_insert (bindings : Bindings κ α) (key : κ) (value : α) :
    (bindings.insert key value).length
      = bindings.length + if (bindings.find? key).isSome then 0 else 1 := by
  induction bindings with
  | nil => rfl
  | cons entry rest inductionHypothesis =>
      obtain ⟨bound, old⟩ := entry
      by_cases same : bound = key
      · simp [insert, find?, same]
      · simp only [insert, find?, same, if_false, List.length_cons, inductionHypothesis]
        omega

theorem find?_eq_some_iff (distinct : (bindings.map Prod.fst).Nodup) :
    bindings.find? key = some value ↔ (key, value) ∈ bindings := by
  constructor
  · exact mem_of_find?
  · intro member
    induction bindings with
    | nil => cases member
    | cons entry rest inductionHypothesis =>
        obtain ⟨bound, old⟩ := entry
        obtain ⟨absent, distinct⟩ := List.nodup_cons.mp distinct
        rcases List.mem_cons.mp member with same | isRest
        · cases same
          simp [find?]
        · have different : bound ≠ key := by
            intro same
            exact absent (List.mem_map.mpr ⟨(key, value), isRest, same.symm⟩)
          simp only [find?, different, if_false]
          exact inductionHypothesis distinct isRest

theorem perm_insert (distinct : (bindings.map Prod.fst).Nodup) (key : κ) (value : α) :
    (bindings.insert key value).Perm ((key, value) :: bindings.erase key) := by
  induction bindings with
  | nil => exact List.Perm.refl _
  | cons entry rest inductionHypothesis =>
      obtain ⟨bound, old⟩ := entry
      obtain ⟨absent, distinct⟩ := List.nodup_cons.mp distinct
      by_cases same : bound = key
      · subst same
        have others := erase_of_notMem absent
        unfold erase at others ⊢
        rw [List.filter_cons_of_neg (by simp), others]
        simp [insert]
      · have others := (inductionHypothesis distinct).cons (bound, old)
        unfold erase at others ⊢
        rw [List.filter_cons_of_pos (by simpa using same)]
        simp only [insert, same, if_false]
        exact others.trans (List.Perm.swap _ _ _)

theorem insert_insert (bindings : Bindings κ α) (key : κ) (first second : α) :
    (bindings.insert key first).insert key second = bindings.insert key second := by
  induction bindings with
  | nil => simp [insert]
  | cons entry rest inductionHypothesis =>
      obtain ⟨bound, old⟩ := entry
      by_cases same : bound = key
      · simp [insert, same]
      · simp [insert, same, inductionHypothesis]

theorem insert_of_find? (found : bindings.find? key = some value) :
    bindings.insert key value = bindings := by
  induction bindings with
  | nil => cases found
  | cons entry rest inductionHypothesis =>
      obtain ⟨bound, old⟩ := entry
      by_cases same : bound = key
      · simp only [find?, same, if_true, Option.some.injEq] at found
        simp only [insert, same, if_true, found]
      · simp only [find?, same, if_false] at found
        simp only [insert, same, if_false, inductionHypothesis found]

theorem nodup_erase (distinct : (bindings.map Prod.fst).Nodup) (key : κ) :
    ((bindings.erase key).map Prod.fst).Nodup :=
  distinct.sublist (List.filter_sublist.map Prod.fst)

theorem nodup_insert (distinct : (bindings.map Prod.fst).Nodup) (key : κ) (value : α) :
    ((bindings.insert key value).map Prod.fst).Nodup := by
  have order := (perm_insert distinct key value).map Prod.fst
  rw [order.nodup_iff, List.map_cons, List.nodup_cons]
  refine ⟨?_, nodup_erase distinct key⟩
  intro member
  obtain ⟨entry, there, same⟩ := List.mem_map.mp member
  exact (mem_erase_iff.mp there).2 same

theorem mem_insert_iff (distinct : (bindings.map Prod.fst).Nodup) {entry : κ × α} :
    entry ∈ bindings.insert key value
      ↔ entry = (key, value) ∨ entry ∈ bindings ∧ entry.1 ≠ key := by
  rw [(perm_insert distinct key value).mem_iff, List.mem_cons, mem_erase_iff]

theorem mem_keys_insert_iff (distinct : (bindings.map Prod.fst).Nodup) {other : κ} :
    other ∈ (bindings.insert key value).map Prod.fst
      ↔ other = key ∨ other ∈ bindings.map Prod.fst := by
  rw [((perm_insert distinct key value).map Prod.fst).mem_iff, List.map_cons, List.mem_cons]
  constructor
  · rintro (same | member)
    · exact .inl same
    · obtain ⟨entry, there, rfl⟩ := List.mem_map.mp member
      exact .inr (List.mem_map_of_mem (mem_erase_iff.mp there).1)
  · intro either
    by_cases same : other = key
    · exact .inl same
    · obtain ⟨entry, there, rfl⟩ := List.mem_map.mp (either.resolve_left same)
      exact .inr (List.mem_map_of_mem (mem_erase_iff.mpr ⟨there, same⟩))

/-! ## Changes at two keys -/

variable {first second : κ}

theorem erase_comm (bindings : Bindings κ α) (first second : κ) :
    (bindings.erase first).erase second = (bindings.erase second).erase first :=
  List.filter_comm _ _ _

theorem erase_cons (key bound : κ) (value : α) (rest : Bindings κ α) :
    erase ((bound, value) :: rest) key
      = if bound = key then rest.erase key else (bound, value) :: rest.erase key := by
  by_cases same : bound = key <;> simp [erase, same]

theorem erase_insert_same (bindings : Bindings κ α) (key : κ) (value : α) :
    (bindings.insert key value).erase key = bindings.erase key := by
  induction bindings with
  | nil => simp [insert, erase]
  | cons entry rest inductionHypothesis =>
      obtain ⟨bound, old⟩ := entry
      by_cases same : bound = key
      · simp [insert, erase_cons, same]
      · simp [insert, erase_cons, same, inductionHypothesis]

theorem erase_insert_other (bindings : Bindings κ α) (value : α) (different : first ≠ second) :
    (bindings.insert first value).erase second = (bindings.erase second).insert first value := by
  induction bindings with
  | nil => simp [insert, erase, different]
  | cons entry rest inductionHypothesis =>
      obtain ⟨bound, old⟩ := entry
      by_cases atFirst : bound = first
      · simp [insert, erase_cons, atFirst, different]
      · by_cases atSecond : bound = second
        · simp [insert, erase_cons, atSecond, Ne.symm different, inductionHypothesis]
        · simp [insert, erase_cons, atFirst, atSecond, inductionHypothesis]

/-- A key that is there keeps its place, so it does not matter which key is written first. -/
theorem insert_comm {bindings : Bindings κ α} (present : bindings.has first = true)
    (different : first ≠ second) (value other : α) :
    (bindings.insert first value).insert second other
      = (bindings.insert second other).insert first value := by
  induction bindings with
  | nil => cases present
  | cons entry rest inductionHypothesis =>
      obtain ⟨bound, old⟩ := entry
      by_cases atFirst : bound = first
      · simp [insert, atFirst, different]
      · by_cases atSecond : bound = second
        · simp [insert, atSecond, Ne.symm different]
        · have presentLater : Bindings.has rest first = true := by
            simpa [has, find?, atFirst] using present
          simp [insert, atFirst, atSecond, inductionHypothesis presentLater]

/-! ## Changes of all values -/

variable {β : Type}

def mapValues (bindings : Bindings κ α) (change : α → β) : Bindings κ β :=
  bindings.map fun entry => (entry.1, change entry.2)

theorem find?_mapValues (bindings : Bindings κ α) (change : α → β) (key : κ) :
    (bindings.mapValues change).find? key = (bindings.find? key).map change := by
  induction bindings with
  | nil => rfl
  | cons entry rest inductionHypothesis =>
      obtain ⟨bound, old⟩ := entry
      by_cases same : bound = key
      · simp [mapValues, find?, same]
      · simpa [mapValues, find?, same] using inductionHypothesis

theorem mapValues_insert (bindings : Bindings κ α) (change : α → β) (key : κ) (value : α) :
    (bindings.insert key value).mapValues change
      = (bindings.mapValues change).insert key (change value) := by
  induction bindings with
  | nil => rfl
  | cons entry rest inductionHypothesis =>
      obtain ⟨bound, old⟩ := entry
      by_cases same : bound = key
      · simp [mapValues, insert, same]
      · simpa [mapValues, insert, same] using inductionHypothesis

/-- A value is replaced by one that looks the same. -/
theorem mapValues_insert_of_find? {change : α → β} {old : α} (found : bindings.find? key = some old)
    (same : change value = change old) :
    (bindings.insert key value).mapValues change = bindings.mapValues change := by
  rw [mapValues_insert, same]
  apply insert_of_find?
  rw [find?_mapValues, found]
  rfl

end MachineScript.Bindings
