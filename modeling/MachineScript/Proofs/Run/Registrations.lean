import MachineScript.Proofs.Run.Polls
import MachineScript.Proofs.Tick

/-!
Contract: how handlers come to wait, and what goes on around them.

Owns:
- that lists of instructions, also those of handlers, and calls leave all
  callbacks where they are and fire none;
- that a state that is entered lets its handlers wait, in their order and from
  the time of the tick on, and leaves what waits outside of it;
- that what waits inside the context that holds the state is dropped.

Does not own: which of the handlers fire.
-/

namespace MachineScript

/-! ## Runs that leave the callbacks alone -/

/-- A run that leaves the callbacks that wait in every context as they are, and fires none. -/
structure Spares (before after : Activation) : Prop where
  watch : after.inst.watch = before.inst.watch
  fired : after.world.fired = before.world.fired
  now : after.world.now = before.world.now

namespace Spares

theorem lasts : Run.Lasts Spares where
  refl _ := ⟨rfl, rfl, rfl⟩
  trans first second := ⟨second.watch.trans first.watch, second.fired.trans first.fired,
    second.now.trans first.now⟩

theorem of_skeleton {before after : Activation} (same : after.skeleton = before.skeleton) :
    Spares before after where
  watch := by
    have skeleton : after.inst.skeleton = before.inst.skeleton := congrArg Activation.inst same
    rw [← Instance.watch_skeleton, skeleton, Instance.watch_skeleton]
  fired := congrArg (fun activation => activation.world.fired) same
  now := congrArg (fun activation => activation.world.now) same

/-- A frame takes no callbacks away with it. -/
theorem closeFrame {start left : Activation} {frame : Context}
    (spares : Spares (start.openFrame frame) left) : Spares start left.closeFrame where
  watch := by
    have watch := congrArg List.tail spares.watch
    unfold Instance.watch at watch ⊢
    rw [← List.map_tail] at watch
    exact watch
  fired := spares.fired
  now := spares.now

/-- Lists of instructions and calls leave the callbacks alone: no function waits for anything. -/
theorem keptByRuns : KeptByRuns Spares where
  lasts := lasts
  count _ := ⟨rfl, rfl, rfl⟩
  print _ _ := ⟨rfl, rfl, rfl⟩
  frame := closeFrame
  values := of_skeleton
  launch _ _ := ⟨rfl, rfl, rfl⟩
  queue _ _ := ⟨rfl, rfl, rfl⟩
  refer _ _ _ := ⟨rfl, rfl, rfl⟩
  park _ := ⟨rfl, rfl, rfl⟩

end Spares

theorem Setup.runExemplar_spares (setup : Setup) (id : ExemplarId) :
    (setup.runExemplar id).Keeps Spares :=
  Spares.keptByRuns.runExemplar id

/-! ## Registration -/

/-- Callbacks of handlers from some time on, under the names of their conditions. -/
structure Registered (program : Program) (now : Duration) (handlers : List ExemplarId)
    (callbacks : List Callback) : Prop where
  handlers : callbacks.map Callback.handler = handlers
  since : ∀ callback ∈ callbacks, callback.registeredAt = now
    ∧ callback.condition = (program.exemplar callback.handler).name

namespace Registered

variable {program : Program} {now : Duration}

theorem nil (program : Program) (now : Duration) : Registered program now [] [] :=
  ⟨rfl, List.forall_mem_nil _⟩

theorem cons {handler : ExemplarId} {handlers : List ExemplarId} {callbacks : List Callback}
    (argument : Value) (others : Registered program now handlers callbacks) :
    Registered program now (handler :: handlers)
      (⟨handler, (program.exemplar handler).name, argument, now⟩ :: callbacks) :=
  ⟨congrArg (handler :: ·) others.handlers, List.forall_mem_cons.mpr ⟨⟨rfl, rfl⟩, others.since⟩⟩

end Registered

theorem Instance.watch_addCallback {inst : Instance} {state : ExemplarId}
    {callbacks : List Callback} {outer : List (ExemplarId × List Callback)}
    (watch : inst.watch = (state, callbacks) :: outer) (callback : Callback) :
    (inst.addCallback callback).watch = (state, callbacks ++ [callback]) :: outer := by
  unfold Instance.watch at watch ⊢
  obtain ⟨context, rest, contexts, same, others⟩ := List.map_eq_cons_iff.mp watch
  cases same
  simp only [addCallback, modifyContext, contexts, List.modify_zero_cons, List.map_cons, others]

namespace Setup

variable {setup : Setup}

/-- Handlers wait in the innermost context behind those that waited there. -/
theorem registerHandlers_watch (handlers : List ExemplarId) {start : Activation}
    {state : ExemplarId} {callbacks : List Callback} {outer : List (ExemplarId × List Callback)}
    (watch : start.inst.watch = (state, callbacks) :: outer) :
    (setup.registerHandlers handlers).Ends start
      (fun _ left => ∃ added, Registered setup.program start.world.now handlers added
        ∧ left.inst.watch = (state, callbacks ++ added) :: outer) fun _ => True := by
  induction handlers generalizing start callbacks with
  | nil => exact ⟨[], .nil _ _, by rw [List.append_nil, watch]⟩
  | cons handler rest inductionHypothesis =>
      rw [registerHandlers, Run.ends_bind]
      apply (registerHandler_ends handler start).mono _ fun _ _ => trivial
      rintro _ _ ⟨argument, rfl⟩
      have awaits : (start.await setup handler argument).inst.watch = _ :=
        Instance.watch_addCallback watch _
      apply (inductionHypothesis awaits).mono _ fun _ _ => trivial
      rintro _ left ⟨added, registered, after⟩
      refine ⟨_, registered.cons argument, ?_⟩
      rw [after, List.append_assoc]
      rfl

/-- Nothing fires while handlers are registered. -/
theorem registerHandlers_fired (setup : Setup) (handlers : List ExemplarId) :
    (setup.registerHandlers handlers).Keeps
      fun before after => after.world.fired = before.world.fired := by
  have lasts : Run.Lasts fun before after : Activation =>
      after.world.fired = before.world.fired :=
    ⟨fun _ => rfl, fun first second => second.trans first⟩
  induction handlers with
  | nil => exact lasts.pure _
  | cons handler rest inductionHypothesis =>
      apply lasts.bind _ fun _ => inductionHypothesis
      intro start
      apply (registerHandler_ends handler start).mono
      · rintro _ _ ⟨argument, rfl⟩
        rfl
      · rintro _ rfl
        rfl

/-- The handlers of a state wait as soon as it has been entered, and while it runs. -/
theorem enterState_watch (setup : Setup) (state : ExemplarId) (start : Activation) :
    (setup.enterState state).Ends start
      (fun _ left => ∃ callbacks,
        Registered setup.program start.world.now (setup.program.exemplar state).handlers callbacks
          ∧ left.inst.watch = (state, callbacks) :: start.inst.watch) fun _ => True := by
  unfold enterState
  simp only [Run.ends_bind, Run.ends_modifyInstance]
  have entered : (start.enter state).inst.watch = (state, []) :: start.inst.watch := rfl
  apply (registerHandlers_watch _ entered).mono _ fun _ _ => trivial
  rintro _ middle ⟨callbacks, registered, watch⟩
  apply (setup.runExemplar_spares state middle).mono _ fun _ _ => trivial
  exact fun _ left spares => ⟨callbacks, registered, spares.watch.trans watch⟩

theorem enterState_fired (setup : Setup) (state : ExemplarId) :
    (setup.enterState state).Keeps fun before after => after.world.fired = before.world.fired := by
  intro start
  unfold enterState
  simp only [Run.ends_bind, Run.ends_modifyInstance]
  apply (setup.registerHandlers_fired _ (start.enter state)).mono _ fun _ same => same
  intro _ middle same
  apply (setup.runExemplar_spares state middle).mono
  · exact fun _ _ spares => spares.fired.trans same
  · exact fun _ spares => spares.fired.trans same

end Setup

/-- On the way to a state, the contexts inside the one that holds it are closed, with what waits
there; what waits further out is left alone. -/
theorem Errand.destination_watch (setup : Setup) {errand : Errand} {start : Activation}
    (fresh : errand = .launch → start.inst.contexts = []) :
    (errand.destination setup).Ends start
      (fun destination left => ∀ state, destination = some state →
        left.inst.watch = start.inst.watch.dropWhile
            (fun entry => some entry.1 ≠ (setup.program.exemplar state).parent)
          ∧ left.world.now = start.world.now) fun _ => True := by
  cases errand with
  | launch =>
      simp only [destination, Run.ends_bind, Run.ends_get]
      apply (setup.runExemplar_spares start.inst.machine start).mono _ fun _ _ => trivial
      intro _ left spares
      have empty : start.inst.watch = [] := by
        unfold Instance.watch
        rw [fresh rfl]
        rfl
      split
      · rintro state ⟨⟩
        rw [spares.watch, empty]
        exact ⟨rfl, spares.now⟩
      · trivial
  | transition target =>
      simp only [destination, Run.ends_bind, Run.ends_get, Run.ends_modifyInstance]
      split
      · trivial
      · rintro state ⟨⟩
        refine ⟨?_, rfl⟩
        unfold Instance.watch
        rw [List.dropWhile_map]
        rfl
  | poll =>
      simp only [destination, Run.ends_bind]
      refine Run.ends_of_forall _ (fun _ _ => ?_) fun _ => trivial
      rintro state ⟨⟩

end MachineScript
