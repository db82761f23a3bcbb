import MachineScript.Proofs.Run.Pending

/-!
Contract: a poll as one pass over what waits when it begins.

Owns:
- the pass over a list of callbacks, which runs what it fires with all others in
  their places, and stops at the first error and at the first transition;
- that the loops of a poll, which take callbacks away while they walk, make this
  pass, and look at what it tests and at nothing else.

Does not own: which instances are polled.
-/

namespace MachineScript

/-! ## The pass -/

/-- A pass over what waits: the callbacks that it tests and those that it fires, in order, what it
does not come to, and how it ends. -/
structure Sweep where
  tested : List (Nat × Callback)
  fired : List (Nat × Callback)
  untested : List (Nat × Callback)
  ended : EStateM.Result RuntimeError Activation Unit

namespace Sweep

/-- A pass with a callback in front that is tested and goes on waiting. -/
def skip (entry : Nat × Callback) (later : Sweep) : Sweep :=
  { later with tested := entry :: later.tested }

/-- A pass with a callback in front that is tested and fires. -/
def fire (entry : Nat × Callback) (later : Sweep) : Sweep :=
  { later with tested := entry :: later.tested, fired := entry :: later.fired }

end Sweep

/-- An activation with a callback counted as fired, while those of a list wait. -/
def Activation.hold (activation : Activation) (entries : List (Nat × Callback)) : Activation :=
  { world := { activation.world with fired := activation.world.fired + 1 }
    inst := activation.inst.holding entries }

/-- A callback may fire: its condition exists, does not fail, and holds. -/
def Setup.isReady (setup : Setup) (activation : Activation) (callback : Callback) : Bool :=
  match setup.satisfaction activation callback with
  | some (.ok satisfied) => satisfied
  | _ => false

/-- One pass over callbacks, behind those in `stay`, which have been tested and go on waiting. A
callback whose condition holds does not wait any more when its handler runs. The pass stops where
a condition or a handler fails, and where a handler has queued a transition. -/
def Setup.sweep (setup : Setup) (stay : List (Nat × Callback)) :
    List (Nat × Callback) → Activation → Sweep
  | [], current => ⟨[], [], [], .ok () current⟩
  | entry :: rest, current =>
      match setup.satisfaction current entry.2 with
      | none => ⟨[entry], [], rest, .error (.undefined .condition entry.2.condition) current⟩
      | some (.error error) => ⟨[entry], [], rest, .error (.library error) current⟩
      | some (.ok false) => (setup.sweep (stay ++ [entry]) rest current).skip entry
      | some (.ok true) =>
          match setup.runExemplar entry.2.handler (current.hold (stay ++ rest)) with
          | .error cause left => ⟨[entry], [entry], rest, .error cause left⟩
          | .ok _ left =>
              if left.inst.transitionQueued then ⟨[entry], [entry], rest, .ok () left⟩
              else (setup.sweep stay rest left).fire entry

namespace Setup

variable {setup : Setup} {stay rest : List (Nat × Callback)} {current : Activation}

/-- A pass tests a front part of what it is given. -/
theorem sweep_tested (stay rest : List (Nat × Callback)) (current : Activation) :
    (setup.sweep stay rest current).tested ++ (setup.sweep stay rest current).untested = rest := by
  fun_induction sweep with
  | case1 | case2 | case3 | case5 | case6 => rfl
  | case4 stay entry rest current unsatisfied inductionHypothesis =>
      exact congrArg (entry :: ·) inductionHypothesis
  | case7 stay entry rest current satisfied result left ran goesOn inductionHypothesis =>
      exact congrArg (entry :: ·) inductionHypothesis

theorem isReady_of_satisfaction {activation : Activation} {callback : Callback} {satisfied : Bool}
    (answer : setup.satisfaction activation callback = some (.ok satisfied)) :
    setup.isReady activation callback = satisfied := by
  unfold isReady
  rw [answer]

theorem isReady_of_now {activation other : Activation}
    (same : other.world.now = activation.world.now) (callback : Callback) :
    setup.isReady other callback = setup.isReady activation callback := by
  unfold isReady satisfaction
  rw [same]

/-- A pass fires what it tests and finds ready. Conditions depend on the time only, which is the
same throughout the pass. -/
theorem sweep_fired (stay rest : List (Nat × Callback)) (current : Activation) :
    (setup.sweep stay rest current).fired
      = (setup.sweep stay rest current).tested.filter fun entry =>
        setup.isReady current entry.2 := by
  fun_induction sweep with
  | case1 => rfl
  | case2 stay entry rest current missing => simp [isReady, missing]
  | case3 stay entry rest current error failed => simp [isReady, failed]
  | case4 stay entry rest current unsatisfied inductionHypothesis =>
      have waits := isReady_of_satisfaction unsatisfied
      simp only [Sweep.skip, List.filter_cons, waits, Bool.false_eq_true, if_false]
      exact inductionHypothesis
  | case5 stay entry rest current satisfied => simp [isReady, satisfied]
  | case6 stay entry rest current satisfied => simp [isReady, satisfied]
  | case7 stay entry rest current satisfied result left ran goesOn inductionHypothesis =>
      have fires := isReady_of_satisfaction satisfied
      have now := ((setup.runExemplar_spares entry.2.handler _).of_ok ran).now
      simp only [Sweep.fire, List.filter_cons, fires, if_true, inductionHypothesis]
      simp only [isReady_of_now now]
      rfl

/-- A pass comes to everything, unless it fails or its last handler has queued a transition. -/
theorem sweep_stops (stay rest : List (Nat × Callback)) (current : Activation) :
    (setup.sweep stay rest current).untested = []
      ∨ (∃ cause left, (setup.sweep stay rest current).ended = .error cause left)
      ∨ ∃ left, (setup.sweep stay rest current).ended = .ok () left
        ∧ left.inst.transitionQueued = true := by
  fun_induction sweep with
  | case1 => exact .inl rfl
  | case2 | case3 | case5 => exact .inr (.inl ⟨_, _, rfl⟩)
  | case4 stay entry rest current unsatisfied inductionHypothesis => exact inductionHypothesis
  | case6 stay entry rest current satisfied result left ran queued =>
      exact .inr (.inr ⟨left, rfl, queued⟩)
  | case7 stay entry rest current satisfied result left ran goesOn inductionHypothesis =>
      exact inductionHypothesis

/-- Behind a handler that has queued a transition a pass tests nothing. -/
theorem sweep_queued {left : Activation} (unqueued : current.inst.transitionQueued = false)
    (ended : (setup.sweep stay rest current).ended = .ok () left)
    (queued : left.inst.transitionQueued = true) :
    ∃ front last, (setup.sweep stay rest current).tested = front ++ [last]
      ∧ setup.isReady current last.2 = true := by
  fun_induction sweep with
  | case1 stay current =>
      cases ended
      cases unqueued.symm.trans queued
  | case2 | case3 | case5 => cases ended
  | case4 stay entry rest current unsatisfied inductionHypothesis =>
      obtain ⟨front, last, tested, ready⟩ := inductionHypothesis unqueued ended
      exact ⟨entry :: front, last, congrArg (entry :: ·) tested, ready⟩
  | case6 stay entry rest current satisfied =>
      exact ⟨[], entry, rfl, isReady_of_satisfaction satisfied⟩
  | case7 stay entry rest current satisfied result middle ran goesOn inductionHypothesis =>
      obtain ⟨front, last, tested, ready⟩ :=
        inductionHypothesis (Bool.eq_false_iff.mpr goesOn) ended
      have now : middle.world.now = current.world.now :=
        ((setup.runExemplar_spares entry.2.handler _).of_ok ran).now
      rw [isReady_of_now now] at ready
      exact ⟨entry :: front, last, congrArg (entry :: ·) tested, ready⟩

end Setup

/-- The activation that a pass leaves, whether it returns or fails. -/
def Sweep.left (sweep : Sweep) : Activation :=
  match sweep.ended with
  | .ok _ left | .error _ left => left

@[simp] theorem Sweep.left_skip (entry : Nat × Callback) (later : Sweep) :
    (later.skip entry).left = later.left := rfl

@[simp] theorem Sweep.left_fire (entry : Nat × Callback) (later : Sweep) :
    (later.fire entry).left = later.left := rfl

/-! ## The loops make the pass -/

/-- A handler that has run behind no queued transition suspends if it has queued one. -/
theorem Suspends.queues {program : Program} {start left : Activation} {flow : Flow}
    (suspends : Suspends program start flow left)
    (unqueued : start.inst.transitionQueued = false) :
    (flow = .suspended && left.inst.transitionQueued) = left.inst.transitionQueued := by
  cases suspends with
  | completed quiet =>
      have same : left.inst.transitionQueued = start.inst.transitionQueued :=
        quiet.same fun _ => rfl
      rw [same, unqueued]
      rfl
  | parked quiet => rfl
  | queued quiet target => rfl

namespace PollHead

/-- What a poll looks at first at a head. -/
def entry? (head : PollHead) : Option (Nat × Callback) :=
  head.callback?.map fun callback => (head.level, callback)

/-- What a poll has not looked at when it comes to a head. -/
def rest (head : PollHead) : List (Nat × Callback) :=
  ((head.activation.inst.callbacksAt head.level).drop head.index).map
      (fun callback => (head.level, callback))
    ++ head.activation.inst.pendingWithin head.level

/-- The callbacks that a poll looks at from a head on, once for each time it does. -/
inductive Looks (setup : Setup) : PollHead → List (Nat × Callback) → Prop where
  | ends {head : PollHead} (last : ∀ next, ¬Next setup head next) :
      Looks setup head head.entry?.toList
  | goesOn {head next : PollHead} {entries : List (Nat × Callback)}
      (follows : Next setup head next) (later : Looks setup next entries) :
      Looks setup head (head.entry?.toList ++ entries)

/-- A poll that is at a context which is there, with no transition queued, while what it has
looked at and left alone goes on waiting in front of the rest. -/
structure Stands (setup : Setup) (stay : List (Nat × Callback)) (head : PollHead) : Prop where
  waits : head.activation.inst.WaitsForHandlers setup.program
  unqueued : head.activation.inst.transitionQueued = false
  inside : head.level < head.activation.inst.contexts.length
  pending : head.activation.inst.pending = stay ++ head.rest

/-- What is left of a poll at a head is a pass over the rest. -/
structure Makes (setup : Setup) (stay : List (Nat × Callback)) (head : PollHead) (sweep : Sweep) :
    Prop where
  ended : setup.pollFrom head.level head.index head.activation = sweep.ended
  looks : Looks setup head sweep.tested
  firings : setup.firingsFrom head.level head.index head.activation = sweep.fired.map Prod.snd
  left : sweep.left.inst.pending = stay
    ++ (sweep.tested.filter fun entry => !setup.isReady head.activation entry.2) ++ sweep.untested

variable {setup : Setup} {stay : List (Nat × Callback)} {head next : PollHead}
  {callback : Callback} {flow : Flow} {value : Value} {left : Activation} {sweep : Sweep}

/-! ### What is in front of a head -/

theorem drop_of_found (found : head.callback? = some callback) :
    (head.activation.inst.callbacksAt head.level).drop head.index
      = callback :: (head.activation.inst.callbacksAt head.level).drop (head.index + 1) := by
  unfold callback? at found
  rw [Instance.callback?_eq] at found
  obtain ⟨inside, rfl⟩ := List.getElem?_eq_some_iff.mp found
  exact List.drop_eq_getElem_cons inside

theorem rest_of_found (found : head.callback? = some callback) :
    head.rest = (head.level, callback) :: { head with index := head.index + 1 }.rest := by
  unfold rest
  rw [drop_of_found found]
  rfl

theorem rest_of_absent (absent : head.callback? = none) :
    head.rest = head.activation.inst.pendingWithin head.level := by
  unfold callback? at absent
  rw [Instance.callback?_eq, List.getElem?_eq_none_iff] at absent
  unfold rest
  rw [List.drop_eq_nil_of_le absent]
  rfl

/-- A poll that goes on behind a handler comes to what was next before it. -/
theorem rest_of_fired (found : head.callback? = some callback)
    (same : left.inst.watch = head.fire.inst.watch) :
    { head with activation := left }.rest = { head with index := head.index + 1 }.rest := by
  have at_level : ∀ level, left.inst.callbacksAt level
      = (head.activation.inst.removeCallback head.level head.index).callbacksAt level :=
    Instance.callbacksAt_of_watch same
  have here : (left.inst.callbacksAt head.level).drop head.index
      = (head.activation.inst.callbacksAt head.level).drop (head.index + 1) := by
    have before : ((head.activation.inst.callbacksAt head.level).take head.index).length
        = head.index := by
      unfold callback? at found
      rw [Instance.callback?_eq] at found
      exact List.length_take_of_le (Nat.le_of_lt (List.getElem?_eq_some_iff.mp found).1)
    rw [at_level, Instance.callbacksAt_removeCallback, if_pos rfl,
      List.eraseIdx_eq_take_drop_succ, List.drop_left' before]
  have inner : left.inst.pendingWithin head.level
      = head.activation.inst.pendingWithin head.level := by
    apply Instance.pendingWithin_congr
    intro level below
    rw [at_level, Instance.callbacksAt_removeCallback, if_neg (Nat.ne_of_gt below)]
  unfold rest
  rw [here, inner]

namespace Stands

theorem pending_of_fired (stands : head.Stands setup stay) (found : head.callback? = some callback)
    (same : left.inst.watch = head.fire.inst.watch) :
    left.inst.pending = stay ++ { head with index := head.index + 1 }.rest := by
  rw [Instance.pending_of_watch same]
  apply Instance.pending_removeCallback stands.inside (drop_of_found found) _ rfl
  rw [stands.pending, rest_of_found found]
  rfl

/-- The handler that fires runs while what is not tested waits, and what has been left alone. -/
theorem fire_eq (stands : head.Stands setup stay) (found : head.callback? = some callback) :
    head.fire = head.activation.hold (stay ++ { head with index := head.index + 1 }.rest) := by
  have removed := head.fire.inst.holding_pending
  rw [stands.pending_of_fired found rfl] at removed
  change (head.activation.inst.removeCallback head.level head.index).holding _
    = head.activation.inst.removeCallback head.level head.index at removed
  rw [Instance.holding_removeCallback] at removed
  unfold Activation.hold
  rw [removed]
  rfl

theorem skips (stands : head.Stands setup stay) (found : head.callback? = some callback) :
    { head with index := head.index + 1 }.Stands setup (stay ++ [(head.level, callback)]) where
  waits := stands.waits
  unqueued := stands.unqueued
  inside := stands.inside
  pending := by
    rw [List.append_assoc, List.singleton_append, ← rest_of_found found]
    exact stands.pending

theorem suspends (placed : setup.program.Placed) (stands : head.Stands setup stay)
    (found : head.callback? = some callback)
    (ran : setup.runExemplar callback.handler head.fire = .ok (flow, value) left) :
    Suspends setup.program head.fire flow left :=
  (Setup.handler_ends placed stands.waits found).of_ok ran

theorem queues (placed : setup.program.Placed) (stands : head.Stands setup stay)
    (found : head.callback? = some callback)
    (ran : setup.runExemplar callback.handler head.fire = .ok (flow, value) left) :
    (flow = .suspended && left.inst.transitionQueued) = left.inst.transitionQueued :=
  (stands.suspends placed found ran).queues stands.unqueued

theorem fires (placed : setup.program.Placed) (stands : head.Stands setup stay)
    (found : head.callback? = some callback)
    (satisfied : setup.satisfaction head.activation callback = some (.ok true))
    (ran : setup.runExemplar callback.handler head.fire = .ok (flow, value) left)
    (goesOn : left.inst.transitionQueued = false) :
    Next setup head { head with activation := left }
      ∧ { head with activation := left }.Stands setup stay := by
  have follows : Next setup head { head with activation := left } :=
    .fires found satisfied ran ((stands.queues placed found ran).trans goesOn)
  have still := follows.still placed stands.waits
  have same := (stands.suspends placed found ran).watch
  refine ⟨follows, still.handlers stands.waits, goesOn, ?_, ?_⟩
  · rw [still.length_contexts]
    exact stands.inside
  · rw [rest_of_fired found same]
    exact stands.pending_of_fired found same

theorem inward {level index : Nat} {activation : Activation}
    (stands : Stands setup stay ⟨level + 1, index, activation⟩)
    (absent : activation.inst.callback? (level + 1) index = none) :
    Stands setup stay ⟨level, 0, activation⟩ where
  waits := stands.waits
  unqueued := stands.unqueued
  inside := Nat.lt_of_succ_lt stands.inside
  pending := by
    have rest := @rest_of_absent ⟨level + 1, index, activation⟩ absent
    exact stands.pending.trans (congrArg (stay ++ ·) rest)

end Stands

/-! ### One round -/

theorem entry?_of_found (found : head.callback? = some callback) :
    head.entry? = some (head.level, callback) := by
  unfold entry?
  rw [found]
  rfl

theorem last_of_failing (found : head.callback? = some callback)
    (failing : ∀ satisfied, setup.satisfaction head.activation callback ≠ some (.ok satisfied)) :
    ∀ next, ¬Next setup head next := by
  intro next follows
  cases follows with
  | skips other unsatisfied =>
      cases found.symm.trans other
      exact failing _ unsatisfied
  | fires other satisfied =>
      cases found.symm.trans other
      exact failing _ satisfied
  | inward absent => cases found.symm.trans absent

theorem last_of_stopping (found : head.callback? = some callback)
    (satisfied : setup.satisfaction head.activation callback = some (.ok true))
    (stops : ∀ flow value left, setup.runExemplar callback.handler head.fire
      = .ok (flow, value) left → (flow = .suspended && left.inst.transitionQueued) = true) :
    ∀ next, ¬Next setup head next := by
  intro next follows
  cases follows with
  | skips other unsatisfied =>
      cases found.symm.trans other
      cases satisfied.symm.trans unsatisfied
  | fires other _ ran goesOn =>
      cases found.symm.trans other
      cases (stops _ _ _ ran).symm.trans goesOn
  | inward absent => cases found.symm.trans absent

theorem looks_of_last (found : head.callback? = some callback)
    (last : ∀ next, ¬Next setup head next) : Looks setup head [(head.level, callback)] := by
  have looks := Looks.ends last
  rwa [entry?_of_found found] at looks

namespace Makes

/-- A condition that does not exist or fails ends a poll, and the pass with it. -/
theorem of_failing (placed : setup.program.Placed) (stands : head.Stands setup stay)
    (found : head.callback? = some callback)
    (failing : ∀ satisfied, setup.satisfaction head.activation callback ≠ some (.ok satisfied)) :
    Makes setup stay head (setup.sweep stay head.rest head.activation) := by
  have runs := Setup.pollFrom_of_found placed stands.waits found
  have fires : setup.firingsFrom head.level head.index head.activation = _ :=
    Setup.firingsFrom_of_found found
  have looks := looks_of_last found (last_of_failing found failing)
  have waits : setup.isReady head.activation callback = false := by
    unfold Setup.isReady
    split
    · next satisfied answer => exact absurd answer (failing satisfied)
    · rfl
  have pending := stands.pending
  rw [rest_of_found found] at pending ⊢
  rw [Setup.sweep]
  cases answer : setup.satisfaction head.activation callback with
  | none =>
      rw [answer] at runs fires
      refine ⟨runs, looks, fires, ?_⟩
      simpa [Sweep.left, waits] using pending
  | some answered =>
      cases answered with
      | error error =>
          rw [answer] at runs fires
          refine ⟨runs, looks, fires, ?_⟩
          simpa [Sweep.left, waits] using pending
      | ok satisfied => exact absurd answer (failing satisfied)

/-- A handler that fails or queues a transition ends a poll, and the pass with it. -/
theorem of_stopping (placed : setup.program.Placed) (stands : head.Stands setup stay)
    (found : head.callback? = some callback)
    (satisfied : setup.satisfaction head.activation callback = some (.ok true))
    (stops : ∀ flow value left, setup.runExemplar callback.handler head.fire
      = .ok (flow, value) left → left.inst.transitionQueued = true) :
    Makes setup stay head (setup.sweep stay head.rest head.activation) := by
  have runs := Setup.pollFrom_of_found placed stands.waits found
  have fires : setup.firingsFrom head.level head.index head.activation = _ :=
    Setup.firingsFrom_of_found found
  have spares := setup.runExemplar_spares callback.handler head.fire
  have looks : Looks setup head [(head.level, callback)] := by
    apply looks_of_last found (last_of_stopping found satisfied _)
    intro flow value left ran
    exact (stands.queues placed found ran).trans (stops flow value left ran)
  have ready := Setup.isReady_of_satisfaction satisfied
  have pending : ∀ left : Activation, left.inst.watch = head.fire.inst.watch →
      left.inst.pending = stay ++ { head with index := head.index + 1 }.rest :=
    fun _ => stands.pending_of_fired found
  rw [satisfied] at runs fires
  rw [rest_of_found found, Setup.sweep]
  simp only [satisfied, ← stands.fire_eq found]
  cases ran : setup.runExemplar callback.handler head.fire with
  | error cause left =>
      unfold PollHead.fire at ran
      simp only [ran] at runs fires
      refine ⟨runs, looks, fires, ?_⟩
      simpa [Sweep.left, ready] using pending left (spares.of_error ran).watch
  | ok result left =>
      have queued := stops result.1 result.2 left ran
      have suspended := (stands.queues placed found ran).trans queued
      unfold PollHead.fire at ran
      simp only [ran, suspended, if_true] at runs fires
      simp only [queued, if_true]
      refine ⟨runs, looks, fires, ?_⟩
      simpa [Sweep.left, ready] using pending left (spares.of_ok ran).watch

/-- A callback that goes on waiting. -/
theorem skip (placed : setup.program.Placed) (stands : head.Stands setup stay)
    (found : head.callback? = some callback)
    (unsatisfied : setup.satisfaction head.activation callback = some (.ok false))
    (makes : Makes setup (stay ++ [(head.level, callback)])
      { head with index := head.index + 1 } sweep) :
    Makes setup stay head (sweep.skip (head.level, callback)) := by
  have follows : Next setup head { head with index := head.index + 1 } := .skips found unsatisfied
  have waits := Setup.isReady_of_satisfaction unsatisfied
  refine ⟨?_, ?_, ?_, ?_⟩
  · exact (follows.pollFrom_eq placed stands.waits).trans makes.ended
  · have looks := Looks.goesOn follows makes.looks
    rwa [entry?_of_found found] at looks
  · rw [Setup.firingsFrom_of_found found, unsatisfied]
    exact makes.firings
  · rw [Sweep.left_skip]
    simpa [Sweep.skip, waits] using makes.left

/-- A callback that fires, with a handler that queues no transition. -/
theorem fire (placed : setup.program.Placed) (stands : head.Stands setup stay)
    (found : head.callback? = some callback)
    (satisfied : setup.satisfaction head.activation callback = some (.ok true))
    (ran : setup.runExemplar callback.handler head.fire = .ok (flow, value) left)
    (goesOn : left.inst.transitionQueued = false)
    (makes : Makes setup stay { head with activation := left } sweep) :
    Makes setup stay head (sweep.fire (head.level, callback)) := by
  obtain ⟨follows, _⟩ := stands.fires placed found satisfied ran goesOn
  have now : left.world.now = head.activation.world.now :=
    ((setup.runExemplar_spares callback.handler head.fire).of_ok ran).now
  have ready := Setup.isReady_of_satisfaction satisfied
  refine ⟨?_, ?_, ?_, ?_⟩
  · exact (follows.pollFrom_eq placed stands.waits).trans makes.ended
  · have looks := Looks.goesOn follows makes.looks
    rwa [entry?_of_found found] at looks
  · rw [Setup.firingsFrom_of_found found, satisfied]
    unfold PollHead.fire at ran
    simp only [ran, goesOn, Bool.and_false, Bool.false_eq_true, if_false]
    exact congrArg (callback :: ·) makes.firings
  · have pending := makes.left
    simp only [Setup.isReady_of_now now] at pending
    rw [Sweep.left_fire]
    simpa [Sweep.fire, ready] using pending

/-- A callback that is ready, if the poll makes a pass from behind its handler on. -/
theorem of_ready (placed : setup.program.Placed) (stands : head.Stands setup stay)
    (found : head.callback? = some callback)
    (satisfied : setup.satisfaction head.activation callback = some (.ok true))
    (later : ∀ flow value left, setup.runExemplar callback.handler head.fire
        = .ok (flow, value) left → left.inst.transitionQueued = false →
      Makes setup stay { head with activation := left }
        (setup.sweep stay { head with activation := left }.rest left)) :
    Makes setup stay head (setup.sweep stay head.rest head.activation) := by
  by_cases stops : ∀ flow value left, setup.runExemplar callback.handler head.fire
      = .ok (flow, value) left → left.inst.transitionQueued = true
  · exact of_stopping placed stands found satisfied stops
  · obtain ⟨flow, value, left, ran, goesOn⟩ : ∃ flow value left,
        setup.runExemplar callback.handler head.fire = .ok (flow, value) left
          ∧ left.inst.transitionQueued = false := by
      simpa using stops
    have makes := later flow value left ran goesOn
    rw [rest_of_fired found (stands.suspends placed found ran).watch] at makes
    rw [rest_of_found found, Setup.sweep]
    simp only [satisfied, ← stands.fire_eq found, ran, goesOn, Bool.false_eq_true, if_false]
    exact fire placed stands found satisfied ran goesOn makes

/-- A context that has been seen to its end, with another inside it. -/
theorem inward {level index : Nat} {activation : Activation}
    (absent : activation.inst.callback? (level + 1) index = none)
    (makes : Makes setup stay ⟨level, 0, activation⟩ sweep) :
    Makes setup stay ⟨level + 1, index, activation⟩ sweep where
  ended := by
    rw [Setup.pollFrom_of_absent absent, Setup.pollContexts_succ]
    exact makes.ended
  looks := by
    have looks := Looks.goesOn (.inward absent) makes.looks
    unfold entry? callback? at looks
    rwa [absent] at looks
  firings := (Setup.firingsFrom_of_absent absent).trans makes.firings
  left := makes.left

/-- The innermost context that has been seen to its end. -/
theorem of_seen {index : Nat} {activation : Activation}
    (stands : Stands setup stay ⟨0, index, activation⟩)
    (absent : activation.inst.callback? 0 index = none) :
    Makes setup stay ⟨0, index, activation⟩ (setup.sweep stay [] activation) where
  ended := Setup.pollFrom_of_absent absent
  looks := by
    have last : ∀ next, ¬Next setup ⟨0, index, activation⟩ next := by
      intro next follows
      cases follows with
      | skips found => cases absent.symm.trans found
      | fires found => cases absent.symm.trans found
    have looks := Looks.ends last
    unfold entry? callback? at looks
    rwa [absent] at looks
  firings := by
    have seen : activation.inst.waiting 0 - index = 0 :=
      Nat.sub_eq_zero_of_le (Instance.waiting_le_of_callback? absent)
    unfold Setup.firingsFrom
    rw [seen]
    rfl
  left := by
    have pending := stands.pending
    rw [@rest_of_absent ⟨0, index, activation⟩ absent] at pending
    simpa [Setup.sweep, Sweep.left, Instance.pendingWithin] using pending

end Makes

/-- From every head on a poll makes one pass over what it has not looked at. The induction is on
the rounds that are left. -/
theorem Stands.makes (placed : setup.program.Placed) (stands : head.Stands setup stay) :
    Makes setup stay head (setup.sweep stay head.rest head.activation) := by
  induction measured : head.distance using (Prod.lex Nat.lt_wfRel Nat.lt_wfRel).wf.induction
    generalizing head stay with
  | _ _ inductionHypothesis =>
  subst measured
  cases found : head.callback? with
  | none =>
      obtain ⟨level, index, activation⟩ := head
      rw [rest_of_absent found]
      cases level with
      | zero => exact .of_seen stands found
      | succ level =>
          have follows : Next setup ⟨level + 1, index, activation⟩ ⟨level, 0, activation⟩ :=
            .inward found
          apply Makes.inward found
          exact inductionHypothesis _ (follows.distance_lt placed stands.waits)
            (stands.inward found) rfl
  | some callback =>
      by_cases failing : ∀ satisfied,
          setup.satisfaction head.activation callback ≠ some (.ok satisfied)
      · exact .of_failing placed stands found failing
      · obtain ⟨satisfied, answer⟩ : ∃ satisfied,
            setup.satisfaction head.activation callback = some (.ok satisfied) := by
          simpa only [not_forall, not_not] using failing
        cases satisfied with
        | false =>
            have follows : Next setup head { head with index := head.index + 1 } :=
              .skips found answer
            have makes := inductionHypothesis _ (follows.distance_lt placed stands.waits)
              (stands.skips found) rfl
            rw [rest_of_found found, Setup.sweep]
            simp only [answer]
            exact .skip placed stands found answer makes
        | true =>
            apply Makes.of_ready placed stands found answer
            intro flow value left ran goesOn
            obtain ⟨follows, next⟩ := stands.fires placed found answer ran goesOn
            exact inductionHypothesis _ (follows.distance_lt placed stands.waits) next rfl

end PollHead

/-- A poll that begins with no transition queued makes one pass over what waits. -/
theorem Setup.pollHandlers_makes {setup : Setup} {start : Activation} {level : Nat}
    (placed : setup.program.Placed) (waits : start.inst.WaitsForHandlers setup.program)
    (unqueued : start.inst.transitionQueued = false)
    (deep : start.inst.contexts.length = level + 1) :
    PollHead.Makes setup [] ⟨level, 0, start⟩ (setup.sweep [] start.inst.pending start) := by
  have all : start.inst.pending = PollHead.rest ⟨level, 0, start⟩ := by
    unfold Instance.pending
    rw [deep]
    rfl
  have stands : PollHead.Stands setup [] ⟨level, 0, start⟩ :=
    ⟨waits, unqueued, deep ▸ Nat.lt_succ_self level, all⟩
  rw [all]
  exact stands.makes placed

end MachineScript
