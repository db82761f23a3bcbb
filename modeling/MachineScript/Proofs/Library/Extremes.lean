import MachineScript.Library.Standard
import MachineScript.Proofs.Number.Integers

/-!
Contract: which of several integers the least and the greatest of them is.

Owns:
- the argument that is picked from a list of integers: the first of those that
  are least, or greatest, when each is rounded to 53 places;
- that it is the least, or the greatest, when no argument has more places.

Does not own: arguments that are floats.
-/

namespace MachineScript

namespace Library

variable (function : String) {prefers : Float → Float → Bool} {key : Int64 → Int}
  {ints : List Int64} {best : Int64}

/-- The first of the integers whose key is least: those before it have a greater one, and those
behind it no smaller one. -/
def IsFirstLeast (key : Int64 → Int) (ints : List Int64) (picked : Int64) : Prop :=
  ∃ front back, ints = front ++ picked :: back
    ∧ (∀ other ∈ front, key picked < key other) ∧ ∀ other ∈ back, key picked ≤ key other

/-- One preference is made by the keys. -/
def Ranks (key : Int64 → Int) (prefers : Float → Float → Bool) : Prop :=
  ∀ best candidate : Int64,
    prefers (Float.ofInt best.toInt) (Float.ofInt candidate.toInt) = true
      ↔ key candidate < key best

/-- The comparison that the search makes with each further argument. -/
def challenge (function : String) (prefers : Float → Float → Bool) (best : Float × Value)
    (argument : Value) : Except LibraryError (Float × Value) := do
  let candidate ← expectNumber function argument
  .ok (if prefers best.1 candidate then (candidate, argument) else best)

def withView (number : Int64) : Float × Value :=
  (Float.ofInt number.toInt, .int number)

theorem challenge_int (ranks : Ranks key prefers) (best candidate : Int64) :
    challenge function prefers (withView best) (.int candidate)
      = .ok (withView (if key candidate < key best then candidate else best)) := by
  change Except.ok (if prefers (Float.ofInt best.toInt) (Float.ofInt candidate.toInt) then _
    else _) = _
  by_cases preferred : key candidate < key best
  · rw [if_pos ((ranks best candidate).mpr preferred), if_pos preferred]
    rfl
  · rw [if_neg (mt (ranks best candidate).mp preferred), if_neg preferred]

/-- What the search has picked stays the first least one when another argument follows. -/
theorem IsFirstLeast.snoc (isFirst : IsFirstLeast key ints best) (candidate : Int64) :
    IsFirstLeast key (ints ++ [candidate])
      (if key candidate < key best then candidate else best) := by
  obtain ⟨front, back, rfl, before, behind⟩ := isFirst
  split
  · rename_i preferred
    refine ⟨front ++ best :: back, [], by simp, fun other member => ?_, nofun⟩
    rcases List.mem_append.mp member with inFront | rest
    · exact preferred.trans (before other inFront)
    · rcases List.mem_cons.mp rest with rfl | inBack
      · exact preferred
      · exact preferred.trans_le (behind other inBack)
  · rename_i kept
    refine ⟨front, back ++ [candidate], by simp, before, fun other member => ?_⟩
    rcases List.mem_append.mp member with inBack | last
    · exact behind other inBack
    · rw [List.mem_singleton.mp last]
      exact not_lt.mp kept

/-- The induction is on the arguments still to come, behind those already seen. -/
theorem foldlM_challenge (ranks : Ranks key prefers) (seen others : List Int64)
    (isFirst : IsFirstLeast key seen best) :
    ∃ picked, (others.map Value.int).foldlM (challenge function prefers) (withView best)
        = .ok (withView picked)
      ∧ IsFirstLeast key (seen ++ others) picked := by
  induction others generalizing seen best with
  | nil => exact ⟨best, rfl, by rwa [List.append_nil]⟩
  | cons candidate others inductionHypothesis =>
      rw [List.map_cons, List.foldlM_cons, challenge_int function ranks]
      obtain ⟨picked, taken, first⟩ := inductionHypothesis _ (isFirst.snoc candidate)
      exact ⟨picked, taken, by rwa [List.append_assoc] at first⟩

theorem pickNumber_ints (ranks : Ranks key prefers) (nonempty : ints ≠ []) :
    ∃ picked, pickNumber function prefers (ints.map .int) = .ok (.int picked)
      ∧ IsFirstLeast key ints picked := by
  obtain ⟨first, others, rfl⟩ := List.exists_cons_of_ne_nil nonempty
  obtain ⟨picked, taken, isFirst⟩ := foldlM_challenge function ranks [first] others
    ⟨[], [], rfl, nofun, nofun⟩
  refine ⟨picked, ?_, isFirst⟩
  change ((others.map Value.int).foldlM (challenge function prefers) (withView first)
    >>= fun best => .ok best.2) = _
  rw [taken]
  rfl

/-! ## Least and greatest -/

/-- What an integer is when it is compared. -/
def view (number : Int64) : Int :=
  Number.rounded number.toInt

theorem ofInt_lt_ofInt_iff (left right : Int64) :
    Float.ofInt left.toInt < Float.ofInt right.toInt ↔ view left < view right := by
  have range (number : Int64) : number.toInt.natAbs < 2 ^ 64 := by
    have := number.minValue_le_toInt
    have := number.toInt_le
    rw [Int64.toInt_minValue] at *
    rw [Int64.toInt_maxValue] at *
    omega
  exact Number.ofInt_lt_iff (range left) (range right)

theorem least_ints (nonempty : ints ≠ []) :
    ∃ picked, least (ints.map .int) = .ok ⟨.int picked, []⟩ ∧ IsFirstLeast view ints picked := by
  have ranks : Ranks view fun best candidate => candidate < best := by
    intro best candidate
    rw [decide_eq_true_iff, ofInt_lt_ofInt_iff]
  obtain ⟨picked, taken, isFirst⟩ := pickNumber_ints "math.min" ranks nonempty
  exact ⟨picked, by rw [least, taken]; rfl, isFirst⟩

theorem greatest_ints (nonempty : ints ≠ []) :
    ∃ picked, greatest (ints.map .int) = .ok ⟨.int picked, []⟩
      ∧ IsFirstLeast (-view ·) ints picked := by
  have ranks : Ranks (-view ·) fun best candidate => best < candidate := by
    intro best candidate
    rw [decide_eq_true_iff, ofInt_lt_ofInt_iff, neg_lt_neg_iff]
  obtain ⟨picked, taken, isFirst⟩ := pickNumber_ints "math.max" ranks nonempty
  exact ⟨picked, by rw [greatest, taken]; rfl, isFirst⟩

theorem IsFirstLeast.le {picked other : Int64} (isFirst : IsFirstLeast key ints picked)
    (member : other ∈ ints) : key picked ≤ key other := by
  obtain ⟨front, back, rfl, before, behind⟩ := isFirst
  rcases List.mem_append.mp member with inFront | rest
  · exact (before other inFront).le
  · rcases List.mem_cons.mp rest with rfl | inBack
    · exact le_rfl
    · exact behind other inBack

theorem IsFirstLeast.mem {picked : Int64} (isFirst : IsFirstLeast key ints picked) :
    picked ∈ ints := by
  obtain ⟨front, back, rfl, -, -⟩ := isFirst
  exact List.mem_append_right front List.mem_cons_self

end Library

namespace Registry

open Library

/-- The least and the greatest integer are told by their views. An integer of at most 53 places is
its own view, so among such integers the pick is the least, or the greatest, indeed. -/
theorem standard_picks (ints : List Int64) (nonempty : ints ≠ []) :
    standard.function? "math.min" = some least ∧ standard.function? "math.max" = some greatest
      ∧ ∃ lowest highest,
        least (ints.map .int) = .ok ⟨.int lowest, []⟩ ∧ IsFirstLeast view ints lowest
        ∧ greatest (ints.map .int) = .ok ⟨.int highest, []⟩
        ∧ IsFirstLeast (-view ·) ints highest
        ∧ ((∀ number ∈ ints, number.toInt.natAbs ≤ 2 ^ 53) →
          ∀ number ∈ ints, lowest.toInt ≤ number.toInt ∧ number.toInt ≤ highest.toInt) := by
  obtain ⟨lowest, least_taken, isLeast⟩ := least_ints nonempty
  obtain ⟨highest, greatest_taken, isGreatest⟩ := greatest_ints nonempty
  refine ⟨rfl, rfl, lowest, highest, least_taken, isLeast, greatest_taken, isGreatest, ?_⟩
  intro small number member
  have exact (other : Int64) (there : other ∈ ints) : view other = other.toInt :=
    Number.rounded_of_le (small other there)
  have below := isLeast.le member
  have above := neg_le_neg_iff.mp (isGreatest.le member)
  rw [exact number member] at below above
  rw [exact lowest isLeast.mem] at below
  rw [exact highest isGreatest.mem] at above
  exact ⟨below, above⟩

/-- Three integers of which no two have the same view. -/
theorem standard_picks_threeSmall :
    [3, -7, 5] ≠ ([] : List Int64) ∧ ∃ lowest highest,
      least [.int 3, .int (-7), .int 5] = .ok ⟨.int lowest, []⟩
        ∧ greatest [.int 3, .int (-7), .int 5] = .ok ⟨.int highest, []⟩
        ∧ ∀ number ∈ ([3, -7, 5] : List Int64),
          lowest.toInt ≤ number.toInt ∧ number.toInt ≤ highest.toInt := by
  have nonempty : [3, -7, 5] ≠ ([] : List Int64) := List.cons_ne_nil _ _
  obtain ⟨-, -, lowest, highest, least_taken, -, greatest_taken, -, all⟩ :=
    standard_picks [3, -7, 5] nonempty
  have small : ∀ number ∈ ([3, -7, 5] : List Int64), number.toInt.natAbs ≤ 2 ^ 53 := by
    simp only [List.forall_mem_cons]
    exact ⟨by decide, by decide, by decide, nofun⟩
  exact ⟨nonempty, lowest, highest, least_taken, greatest_taken, all small⟩

/-- Two neighbours beyond 53 places have one view, and the first of them is picked although the
second is less. -/
theorem standard_min_neighbours :
    standard.function? "math.min" = some least
      ∧ least [.int 9007199254740993, .int 9007199254740992]
        = .ok ⟨.int 9007199254740993, []⟩
      ∧ (9007199254740992 : Int64) < 9007199254740993 :=
  ⟨rfl, rfl, by decide⟩

end Registry

end MachineScript
