/-!
Contract: finite maps in the order of first insertion.

Owns: look-up, insertion, which replaces a value in place, removal, and the
laws that say what each look-up gives afterwards. A key occurs once as long as
entries are added by insertion only.
-/

namespace MachineScript

/-- Keys with their values, oldest key first. -/
abbrev Bindings (κ : Type) (α : Type) := List (κ × α)

namespace Bindings

variable {κ α : Type} [DecidableEq κ]

def find? (bindings : Bindings κ α) (key : κ) : Option α :=
  match bindings with
  | [] => none
  | (bound, value) :: rest => if bound = key then some value else find? rest key

/-- A key with a value, in the place of the key's old value if it had one. -/
def insert (bindings : Bindings κ α) (key : κ) (value : α) : Bindings κ α :=
  match bindings with
  | [] => [(key, value)]
  | (bound, old) :: rest =>
      if bound = key then (key, value) :: rest else (bound, old) :: insert rest key value

def erase (bindings : Bindings κ α) (key : κ) : Bindings κ α :=
  bindings.filter fun entry => entry.1 ≠ key

def has (bindings : Bindings κ α) (key : κ) : Bool :=
  (find? bindings key).isSome

@[simp] theorem find?_nil (key : κ) : find? ([] : Bindings κ α) key = none := rfl

@[simp] theorem find?_insert_same (bindings : Bindings κ α) (key : κ) (value : α) :
    find? (insert bindings key value) key = some value := by
  induction bindings with
  | nil => simp [insert, find?]
  | cons entry rest inductionHypothesis =>
      obtain ⟨bound, old⟩ := entry
      by_cases same : bound = key <;> simp [insert, find?, same, inductionHypothesis]

theorem find?_insert_other (bindings : Bindings κ α) {key other : κ} (value : α)
    (different : key ≠ other) :
    find? (insert bindings key value) other = find? bindings other := by
  induction bindings with
  | nil => simp [insert, find?, different]
  | cons entry rest inductionHypothesis =>
      obtain ⟨bound, old⟩ := entry
      by_cases same : bound = key
      · simp [insert, find?, same, different]
      · simp [insert, find?, same, inductionHypothesis]

@[simp] theorem find?_erase_same (bindings : Bindings κ α) (key : κ) :
    find? (erase bindings key) key = none := by
  induction bindings with
  | nil => rfl
  | cons entry rest inductionHypothesis =>
      obtain ⟨bound, old⟩ := entry
      by_cases same : bound = key
      · simpa [erase, same] using inductionHypothesis
      · simpa [erase, find?, same] using inductionHypothesis

theorem find?_erase_other (bindings : Bindings κ α) {key other : κ}
    (different : key ≠ other) :
    find? (erase bindings key) other = find? bindings other := by
  induction bindings with
  | nil => rfl
  | cons entry rest inductionHypothesis =>
      obtain ⟨bound, old⟩ := entry
      by_cases same : bound = key
      · simpa [erase, find?, same, different] using inductionHypothesis
      · simpa [erase, find?, same] using congrArg (fun found => if bound = other then some old
          else found) inductionHypothesis

end Bindings

end MachineScript
