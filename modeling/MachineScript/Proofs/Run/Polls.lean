import Mathlib.Logic.Relation
import MachineScript.Proofs.Run.Errands

/-!
Contract: a poll as the loops that it is made of.

Owns:
- the heads of these loops: a level and an index, and the instance as it is when
  the callback there is looked at;
- that a poll goes on from every head as the loops say, with no rounds counted,
  and that fewer rounds are left at each head than at the one before;
- that a head is at a context that is there, though handlers have run since the
  poll began.

Does not own: which handlers are ready.
-/

namespace MachineScript

/-! ## The callbacks of an instance -/

/-- The exemplars of the contexts of an instance, with the callbacks that wait there. -/
def Instance.watch (inst : Instance) : List (ExemplarId × List Callback) :=
  inst.contexts.map fun context => (context.exemplar, context.callbacks)

/-- How many callbacks wait in the context at a level. -/
def Instance.waiting (inst : Instance) (level : Nat) : Nat :=
  match inst.contexts[level]? with
  | some context => context.callbacks.length
  | none => 0

namespace Instance

variable {inst other : Instance} {level index : Nat} {callback : Callback}

theorem watch_skeleton (inst : Instance) : inst.skeleton.watch = inst.watch := by
  simp only [watch, skeleton, List.map_map]
  rfl

theorem waiting_eq_watch (inst : Instance) (level : Nat) :
    inst.waiting level = ((inst.watch[level]?).map fun entry => entry.2.length).getD 0 := by
  unfold waiting watch
  rw [List.getElem?_map]
  cases inst.contexts[level]? <;> rfl

theorem waiting_of_watch (same : other.watch = inst.watch) (level : Nat) :
    other.waiting level = inst.waiting level := by
  rw [waiting_eq_watch, waiting_eq_watch, same]

/-- A callback is found at an index exactly if so many wait in the context. -/
theorem callback?_isSome_iff :
    (inst.callback? level index).isSome = true ↔ index < inst.waiting level := by
  unfold callback? waiting
  cases inst.contexts[level]? with
  | none => simp
  | some context => simp

theorem lt_waiting_of_callback? (found : inst.callback? level index = some callback) :
    index < inst.waiting level :=
  callback?_isSome_iff.mp (found ▸ rfl)

theorem waiting_le_of_callback? (absent : inst.callback? level index = none) :
    inst.waiting level ≤ index := by
  apply Nat.le_of_not_lt
  rw [← callback?_isSome_iff, absent]
  exact Bool.false_ne_true

/-- What waits at a level waits in a context that is there. -/
theorem exists_context_of_callback? (found : inst.callback? level index = some callback) :
    ∃ context, inst.contexts[level]? = some context
      ∧ context.callbacks[index]? = some callback := by
  unfold callback? at found
  split at found
  · next context there => exact ⟨context, there, found⟩
  · cases found

theorem watch_removeCallback (inst : Instance) (level index : Nat) :
    (inst.removeCallback level index).watch
      = inst.watch.modify level fun entry => (entry.1, entry.2.eraseIdx index) := by
  unfold removeCallback modifyContext watch
  apply List.ext_getElem?
  intro place
  simp only [List.getElem?_map, List.getElem?_modify]
  cases inst.contexts[place]? with
  | none => rfl
  | some context => by_cases here : level = place <;> simp [here]

theorem waiting_removeCallback (found : inst.callback? level index = some callback) :
    (inst.removeCallback level index).waiting level + 1 = inst.waiting level := by
  obtain ⟨context, there, present⟩ := exists_context_of_callback? found
  have inside : index < context.callbacks.length := (List.getElem?_eq_some_iff.mp present).1
  simp only [waiting, removeCallback, modifyContext, List.getElem?_modify, there, if_true,
    Option.map_eq_map, Option.map_some, List.length_eraseIdx, if_pos inside]
  exact Nat.sub_add_cancel (Nat.one_le_of_lt inside)

end Instance

theorem Quiet.watch {program : Program} {before after : Activation}
    (quiet : Quiet program before after) : after.inst.watch = before.inst.watch :=
  quiet.same Instance.watch_skeleton

/-- A handler or a state that has run leaves all callbacks where they are. -/
theorem Suspends.watch {program : Program} {start left : Activation} {flow : Flow}
    (suspends : Suspends program start flow left) : left.inst.watch = start.inst.watch := by
  cases suspends with
  | completed quiet => exact quiet.watch
  | parked quiet => exact quiet.watch
  | queued quiet target => exact quiet.watch

/-! ## The rounds of a poll -/

/-- An activation with a callback taken away and counted as fired. -/
def Activation.fire (activation : Activation) (level index : Nat) : Activation :=
  { world := { activation.world with fired := activation.world.fired + 1 }
    inst := activation.inst.removeCallback level index }

/-- Where a callback has fired, and all others are still there, one callback fewer waits. -/
theorem Instance.waiting_of_fired {start left : Activation} {level index : Nat}
    {callback : Callback} (found : start.inst.callback? level index = some callback)
    (same : left.inst.watch = (start.fire level index).inst.watch) :
    left.inst.waiting level + 1 = start.inst.waiting level := by
  rw [waiting_of_watch same level]
  exact waiting_removeCallback found

theorem Still.fire {program : Program} (activation : Activation) (level index : Nat) :
    Still program activation (activation.fire level index) := by
  have counted : Quiet program ⟨activation.world, activation.inst.removeCallback level index⟩
      (activation.fire level index) := ⟨rfl, rfl, rfl, fun _ => rfl, .refl _ _ _⟩
  exact (Still.lasts program).trans (Still.removeCallback activation.world activation.inst level
    index) counted.still

namespace Setup

variable {setup : Setup} {start : Activation} {level index : Nat} {callback : Callback}

/-- Whether the condition of a callback holds, if it exists and does not fail. -/
def satisfaction (setup : Setup) (activation : Activation) (callback : Callback) :
    Option (Except LibraryError Bool) :=
  setup.registry.isSatisfied callback.condition callback.argument
    (callback.waited activation.world.now)

/-- What is left of a poll at an index of a level. -/
def pollFrom (setup : Setup) (level index : Nat) : Run Unit := do
  let activation ← get
  let goesOn ← setup.pollContext level (activation.inst.waiting level - index) index
  if goesOn then setup.pollContexts level else pure ()

theorem pollContexts_succ (setup : Setup) (level : Nat) :
    setup.pollContexts (level + 1) = setup.pollFrom level 0 := rfl

/-- The run of a handler that has just fired. -/
theorem handler_ends (placed : setup.program.Placed)
    (waits : start.inst.WaitsForHandlers setup.program)
    (found : start.inst.callback? level index = some callback) :
    (setup.runExemplar callback.handler).Ends (start.fire level index)
      (fun result left => Suspends setup.program (start.fire level index) result.1 left)
      (Quiet setup.program (start.fire level index)) := by
  apply runExemplar_suspends placed
  rw [isHandler_of_callback? waits found]
  rfl

theorem pollFrom_of_absent (absent : start.inst.callback? level index = none) :
    setup.pollFrom level index start = setup.pollContexts level start := by
  have seen : start.inst.waiting level - index = 0 :=
    Nat.sub_eq_zero_of_le (Instance.waiting_le_of_callback? absent)
  unfold pollFrom
  rw [Run.bind_get, seen]
  rfl

theorem pollContext_of_found (unseen : Nat)
    (found : start.inst.callback? level index = some callback) :
    setup.pollContext level (unseen + 1) index start
      = match setup.satisfaction start callback with
        | none => .error (.undefined .condition callback.condition) start
        | some (.error error) => .error (.library error) start
        | some (.ok false) => setup.pollContext level unseen (index + 1) start
        | some (.ok true) =>
            match setup.runExemplar callback.handler (start.fire level index) with
            | .ok (flow, _) left =>
                if flow = .suspended && left.inst.transitionQueued then .ok false left
                else setup.pollContext level unseen index left
            | .error cause left => .error cause left := by
  rw [pollContext, Run.bind_get]
  simp only [found]
  unfold satisfaction
  cases setup.registry.isSatisfied callback.condition callback.argument
    (callback.waited start.world.now) with
  | none => rfl
  | some answer =>
      cases answer with
      | error error => rfl
      | ok satisfied =>
          cases satisfied with
          | false => rfl
          | true =>
              change (setup.runExemplar callback.handler >>= fun result => do
                let after ← get
                if result.1 = .suspended && after.inst.transitionQueued then pure false
                else setup.pollContext level unseen index) (start.fire level index) = _
              simp only
              cases ended : setup.runExemplar callback.handler (start.fire level index) with
              | error cause left => exact Run.bind_of_error ended
              | ok result left =>
                  rw [Run.bind_of_ok ended, Run.bind_get]
                  simp only
                  split <;> rfl

/-- The rest of a poll behind the context of a level. -/
theorem pollFrom_eq (level index : Nat) (start : Activation) :
    setup.pollFrom level index start
      = match setup.pollContext level (start.inst.waiting level - index) index start with
        | .ok true left => setup.pollContexts level left
        | .ok false left => .ok () left
        | .error cause left => .error cause left := by
  unfold pollFrom
  rw [Run.bind_get]
  cases ended : setup.pollContext level (start.inst.waiting level - index) index start with
  | error cause left => exact Run.bind_of_error ended
  | ok goesOn left =>
      rw [Run.bind_of_ok ended]
      cases goesOn <;> rfl

/-- A round that finds a callback: its condition fails, or it is skipped or fired. -/
theorem pollFrom_of_found (placed : setup.program.Placed)
    (waits : start.inst.WaitsForHandlers setup.program)
    (found : start.inst.callback? level index = some callback) :
    setup.pollFrom level index start
      = match setup.satisfaction start callback with
        | none => .error (.undefined .condition callback.condition) start
        | some (.error error) => .error (.library error) start
        | some (.ok false) => setup.pollFrom level (index + 1) start
        | some (.ok true) =>
            match setup.runExemplar callback.handler (start.fire level index) with
            | .ok (flow, _) left =>
                if flow = .suspended && left.inst.transitionQueued then .ok () left
                else setup.pollFrom level index left
            | .error cause left => .error cause left := by
  have inside := Instance.lt_waiting_of_callback? found
  obtain ⟨unseen, rounds⟩ : ∃ unseen, start.inst.waiting level = index + unseen + 1 :=
    Nat.exists_eq_add_of_lt inside
  rw [pollFrom_eq, show start.inst.waiting level - index = unseen + 1 by omega,
    pollContext_of_found unseen found]
  cases setup.satisfaction start callback with
  | none => rfl
  | some answer =>
      cases answer with
      | error error => rfl
      | ok satisfied =>
          cases satisfied with
          | false =>
              have fewer : start.inst.waiting level - (index + 1) = unseen := by omega
              rw [pollFrom_eq, fewer]
          | true =>
              simp only
              cases ended : setup.runExemplar callback.handler (start.fire level index) with
              | error cause left => rfl
              | ok result left =>
                  have ran := (handler_ends placed waits found).of_ok ended
                  have fewer : left.inst.waiting level - index = unseen := by
                    have removed := Instance.waiting_of_fired found ran.watch
                    omega
                  simp only
                  rw [pollFrom_eq level index left, fewer]
                  cases decide (result.1 = .suspended) && left.inst.transitionQueued <;> rfl

end Setup

/-! ## The heads of the loops -/

/-- A poll that is about to look at the callback at an index of a level. -/
structure PollHead where
  level : Nat
  index : Nat
  activation : Activation

namespace PollHead

/-- The callback at a head, unless the context there has been seen to its end. -/
def callback? (head : PollHead) : Option Callback :=
  head.activation.inst.callback? head.level head.index

/-- The activation in which the handler of the callback runs, if that fires. -/
def fire (head : PollHead) : Activation :=
  head.activation.fire head.level head.index

/-- One head follows another: the callback is skipped, or its handler runs and queues no
transition, or the context is done with and the one inside it is next. -/
inductive Next (setup : Setup) : PollHead → PollHead → Prop where
  | skips {head : PollHead} {callback : Callback} (found : head.callback? = some callback)
      (unsatisfied : setup.satisfaction head.activation callback = some (.ok false)) :
      Next setup head { head with index := head.index + 1 }
  | fires {head : PollHead} {callback : Callback} {flow : Flow} {value : Value}
      {left : Activation} (found : head.callback? = some callback)
      (satisfied : setup.satisfaction head.activation callback = some (.ok true))
      (ran : setup.runExemplar callback.handler head.fire = .ok (flow, value) left)
      (goesOn : (flow = .suspended && left.inst.transitionQueued) = false) :
      Next setup head { head with activation := left }
  | inward {level index : Nat} {activation : Activation}
      (absent : activation.inst.callback? (level + 1) index = none) :
      Next setup ⟨level + 1, index, activation⟩ ⟨level, 0, activation⟩

variable {setup : Setup} {head next : PollHead}

/-- While a poll goes on the instance stays where it stands. -/
theorem Next.still (placed : setup.program.Placed)
    (waits : head.activation.inst.WaitsForHandlers setup.program) (follows : Next setup head next) :
    Still setup.program head.activation next.activation := by
  have lasts := Still.lasts setup.program
  cases follows with
  | skips => exact lasts.refl _
  | inward => exact lasts.refl _
  | @fires _ _ flow _ left found _ ran goesOn =>
      have ended := (Setup.handler_ends placed waits found).of_ok ran
      apply lasts.trans (Still.fire head.activation head.level head.index)
      cases ended with
      | completed quiet => exact quiet.still
      | parked quiet => exact lasts.trans quiet.still (Still.park _)
      | queued quiet target => cases goesOn

/-- What is left of a poll is the same at one head and at the next. -/
theorem Next.pollFrom_eq (placed : setup.program.Placed)
    (waits : head.activation.inst.WaitsForHandlers setup.program) (follows : Next setup head next) :
    setup.pollFrom head.level head.index head.activation
      = setup.pollFrom next.level next.index next.activation := by
  cases follows with
  | skips found unsatisfied =>
      rw [Setup.pollFrom_of_found placed waits found, unsatisfied]
  | fires found satisfied ran goesOn =>
      rw [Setup.pollFrom_of_found placed waits found, satisfied]
      unfold PollHead.fire at ran
      rw [ran]
      simp only [goesOn, Bool.false_eq_true, if_false]
  | inward absent =>
      rw [Setup.pollFrom_of_absent absent, Setup.pollContexts_succ]

/-- How far a poll is from its end: the contexts inside, and the callbacks not looked at here. -/
def distance (head : PollHead) : Nat × Nat :=
  (head.level, head.activation.inst.waiting head.level - head.index)

/-- Every round brings a poll nearer to its end. -/
theorem Next.distance_lt (placed : setup.program.Placed)
    (waits : head.activation.inst.WaitsForHandlers setup.program) (follows : Next setup head next) :
    Prod.Lex (· < ·) (· < ·) next.distance head.distance := by
  cases follows with
  | skips found =>
      have inside := Instance.lt_waiting_of_callback? found
      exact Prod.Lex.right _ (Nat.sub_lt_sub_left inside (Nat.lt_succ_self _))
  | @fires _ callback flow _ left found _ ran =>
      have inside := Instance.lt_waiting_of_callback? found
      have ended := (Setup.handler_ends placed waits found).of_ok ran
      have removed := Instance.waiting_of_fired found ended.watch
      apply Prod.Lex.right
      change left.inst.waiting head.level - head.index < _ - head.index
      omega
  | inward => exact Prod.Lex.left _ _ (Nat.lt_succ_self _)

end PollHead

/-- The heads that a poll comes to, from the outermost context on. -/
def Setup.PollsAt (setup : Setup) (start : Activation) (head : PollHead) : Prop :=
  ∃ level, start.inst.contexts.length = level + 1
    ∧ Relation.ReflTransGen (PollHead.Next setup) ⟨level, 0, start⟩ head

theorem Still.length_contexts {program : Program} {before after : Activation}
    (still : Still program before after) :
    after.inst.contexts.length = before.inst.contexts.length := by
  have same := congrArg List.length still.stack
  simpa only [Instance.stack, List.length_map] using same

namespace Setup.PollsAt

variable {setup : Setup} {start : Activation} {head : PollHead}

/-- At every head of a poll the instance stands where it stood, and the level is one of its
contexts. -/
theorem still (placed : setup.program.Placed) (waits : start.inst.WaitsForHandlers setup.program)
    (polls : setup.PollsAt start head) :
    Still setup.program start head.activation
      ∧ head.level < head.activation.inst.contexts.length := by
  obtain ⟨level, deep, path⟩ := polls
  induction path with
  | refl => exact ⟨(Still.lasts _).refl start, deep ▸ Nat.lt_succ_self level⟩
  | tail _ follows inductionHypothesis =>
      obtain ⟨still, inside⟩ := inductionHypothesis
      have stays := follows.still placed (still.handlers waits)
      refine ⟨(Still.lasts _).trans still stays, ?_⟩
      rw [stays.length_contexts]
      cases follows with
      | skips | fires => exact inside
      | inward => exact Nat.lt_of_succ_lt inside

/-- From every head that it comes to, a poll goes on as the loops say. -/
theorem pollHandlers_eq (placed : setup.program.Placed)
    (waits : start.inst.WaitsForHandlers setup.program) (polls : setup.PollsAt start head) :
    setup.pollHandlers start = setup.pollFrom head.level head.index head.activation := by
  obtain ⟨level, deep, path⟩ := polls
  induction path with
  | refl =>
      unfold pollHandlers
      rw [Run.bind_get, deep]
      rfl
  | @tail middle _ earlier follows inductionHypothesis =>
      have before : setup.PollsAt start middle := ⟨level, deep, earlier⟩
      rw [inductionHypothesis, follows.pollFrom_eq placed ((before.still placed waits).1.handlers
        waits)]

end Setup.PollsAt

end MachineScript
