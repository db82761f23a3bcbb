import MachineScript.Engine.Lifecycle

/-!
Contract: what a run does between its start and its end or its failure.

Owns: the two ways in which a run ends, how they compose, and the relations
between a start and an end that every part of a run keeps.

Does not own: any particular relation.
-/

namespace MachineScript.Run

variable {α β : Type} {start : Activation} {returned : α → Activation → Prop}
  {failed : Activation → Prop}

/-- From a start a run returns with a value, or it fails; either way it leaves an activation. -/
def Ends (run : Run α) (start : Activation) (returned : α → Activation → Prop)
    (failed : Activation → Prop) : Prop :=
  match run start with
  | .ok value left => returned value left
  | .error _ left => failed left

/-! ## The parts of a run -/

@[simp] theorem ends_get {returned : Activation → Activation → Prop} :
    Ends get start returned failed ↔ returned start start := Iff.rfl

@[simp] theorem ends_modifyInstance {change : Instance → Instance}
    {returned : Unit → Activation → Prop} :
    Ends (modifyInstance change) start returned failed
      ↔ returned () { start with inst := change start.inst } := Iff.rfl

@[simp] theorem ends_modifyWorld {change : World → World}
    {returned : Unit → Activation → Prop} :
    Ends (modifyWorld change) start returned failed
      ↔ returned () { start with world := change start.world } := Iff.rfl

/-- The second part of a run starts where the first one has returned. -/
theorem ends_bind {first : Run α} {next : α → Run β} {returned : β → Activation → Prop} :
    Ends (first >>= next) start returned failed
      ↔ Ends first start (fun value left => Ends (next value) left returned failed) failed := by
  unfold Ends
  change (match EStateM.bind first next start with
    | .ok value left => returned value left
    | .error _ left => failed left) ↔ _
  unfold EStateM.bind
  cases first start <;> rfl

theorem bind_get (next : Activation → Run β) (start : Activation) :
    (get >>= next) start = next start start := rfl

theorem bind_of_ok {first : Run α} {next : α → Run β} {value : α} {left : Activation}
    (ended : first start = .ok value left) : (first >>= next) start = next value left := by
  change EStateM.bind first next start = _
  unfold EStateM.bind
  rw [ended]

theorem bind_of_error {first : Run α} {next : α → Run β} {cause : RuntimeError}
    {left : Activation} (ended : first start = .error cause left) :
    (first >>= next) start = .error cause left := by
  change EStateM.bind first next start = _
  unfold EStateM.bind
  rw [ended]

/-- What is known of an end may be weakened. -/
theorem Ends.mono {run : Run α} {returned' : α → Activation → Prop}
    {failed' : Activation → Prop} (ends : run.Ends start returned failed)
    (onReturn : ∀ value left, returned value left → returned' value left)
    (onFailure : ∀ left, failed left → failed' left) : run.Ends start returned' failed' := by
  unfold Ends at ends ⊢
  cases ended : run start with
  | ok value left =>
      rw [ended] at ends
      exact onReturn value left ends
  | error cause left =>
      rw [ended] at ends
      exact onFailure left ends

theorem ends_of_forall (run : Run α) (onReturn : ∀ value left, returned value left)
    (onFailure : ∀ left, failed left) : run.Ends start returned failed := by
  unfold Ends
  cases run start with
  | ok value left => exact onReturn value left
  | error cause left => exact onFailure left

/-- What is known of every end is known of the one that is reached. -/
theorem Ends.of_ok {run : Run α} {value : α} {left : Activation}
    (ends : run.Ends start returned failed) (ended : run start = .ok value left) :
    returned value left := by
  unfold Ends at ends
  rwa [ended] at ends

theorem Ends.of_error {run : Run α} {error : RuntimeError} {left : Activation}
    (ends : run.Ends start returned failed) (ended : run start = .error error left) :
    failed left := by
  unfold Ends at ends
  rwa [ended] at ends

/-- Two runs that begin alike end alike, if they go on alike from all that is known of the first
part's end. -/
theorem bind_eq_of_ends {first second : Run α} {next others : α → Run β}
    {known : Activation → Prop} (begins : first start = second start)
    (ends : first.Ends start (fun _ left => known left) fun _ => True)
    (follows : ∀ value left, known left → next value left = others value left) :
    (first >>= next) start = (second >>= others) start := by
  cases ended : first start with
  | ok value left =>
      rw [bind_of_ok ended, bind_of_ok (begins.symm.trans ended)]
      exact follows value left (ends.of_ok ended)
  | error cause left => rw [bind_of_error ended, bind_of_error (begins.symm.trans ended)]

/-! ## Relations that runs keep -/

/-- A relation holds between the start of a run and whatever the run leaves. -/
def Keeps (relation : Activation → Activation → Prop) (run : Run α) : Prop :=
  ∀ start, run.Ends start (fun _ left => relation start left) (relation start)

/-- A relation that lasts from one part of a run to the next. -/
structure Lasts (relation : Activation → Activation → Prop) : Prop where
  refl : ∀ start, relation start start
  trans : ∀ {start middle left}, relation start middle → relation middle left →
    relation start left

section

variable {relation : Activation → Activation → Prop}

theorem keeps_modify {change : Activation → Activation}
    (kept : ∀ start, relation start (change start)) : Keeps relation (modify change) :=
  fun start => kept start

theorem keeps_modifyWorld {change : World → World}
    (kept : ∀ start : Activation, relation start { start with world := change start.world }) :
    Keeps relation (modifyWorld change) :=
  fun start => kept start

namespace Lasts

theorem pure (lasts : Lasts relation) (value : α) : Keeps relation (pure value : Run α) :=
  fun start => lasts.refl start

theorem throw (lasts : Lasts relation) (error : RuntimeError) :
    Keeps relation (throw error : Run α) :=
  fun start => lasts.refl start

theorem ends_of_keeps (lasts : Lasts relation) {run : Run α} {middle : Activation}
    (before : relation start middle) (kept : Keeps relation run) :
    run.Ends middle (fun _ left => relation start left) (relation start) :=
  (kept middle).mono (fun _ _ after => lasts.trans before after)
    (fun _ after => lasts.trans before after)

theorem bind (lasts : Lasts relation) {first : Run α} {next : α → Run β}
    (firstKept : Keeps relation first) (nextKept : ∀ value, Keeps relation (next value)) :
    Keeps relation (first >>= next) := by
  intro start
  rw [ends_bind]
  exact (firstKept start).mono
    (fun value _ before => lasts.ends_of_keeps before (nextKept value)) (fun _ before => before)

end Lasts

end

end MachineScript.Run
