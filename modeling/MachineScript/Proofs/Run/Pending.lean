import MachineScript.Proofs.Run.Firings

/-!
Contract: the callbacks of an instance as one list.

Owns:
- what waits, outermost context first and in the order of the registrations, each
  callback with the level of its context;
- that a callback which is taken away leaves the others where they are;
- the instance with another such list in its place.

Does not own: which callbacks are taken away.
-/

namespace MachineScript.Instance

/-- The callbacks that wait in the context at a level. -/
def callbacksAt (inst : Instance) (level : Nat) : List Callback :=
  match inst.contexts[level]? with
  | some context => context.callbacks
  | none => []

/-- The callbacks of the innermost `levels` contexts, those of the outermost of these first, each
with the level of its context. -/
def pendingWithin (inst : Instance) : (levels : Nat) → List (Nat × Callback)
  | 0 => []
  | level + 1 => (inst.callbacksAt level).map (fun callback => (level, callback))
      ++ inst.pendingWithin level

/-- The callbacks that wait, outermost context first, and in their order within each. -/
def pending (inst : Instance) : List (Nat × Callback) :=
  inst.pendingWithin inst.contexts.length

/-- The callbacks of `count` contexts outside of a level, outermost first. -/
def pendingOutside (inst : Instance) (level : Nat) : (count : Nat) → List (Nat × Callback)
  | 0 => []
  | count + 1 =>
      (inst.callbacksAt (level + count + 1)).map
          (fun callback => (level + count + 1, callback))
        ++ inst.pendingOutside level count

/-- The callbacks of a list that wait at a level. -/
def callbacksOf (level : Nat) (entries : List (Nat × Callback)) : List Callback :=
  (entries.filter fun entry => entry.1 = level).map Prod.snd

/-- An instance in whose contexts the callbacks of a list wait, and no others. -/
def holding (inst : Instance) (entries : List (Nat × Callback)) : Instance :=
  { inst with
    contexts := inst.contexts.mapIdx fun level context =>
      { context with callbacks := callbacksOf level entries } }

variable {inst other : Instance} {level index : Nat} {callback : Callback}

theorem callback?_eq (inst : Instance) (level index : Nat) :
    inst.callback? level index = (inst.callbacksAt level)[index]? := by
  unfold callback? callbacksAt
  cases inst.contexts[level]? <;> rfl

theorem callbacksAt_eq_watch (inst : Instance) (level : Nat) :
    inst.callbacksAt level = (inst.watch[level]?.map Prod.snd).getD [] := by
  unfold callbacksAt watch
  rw [List.getElem?_map]
  cases inst.contexts[level]? <;> rfl

theorem callbacksAt_of_watch (same : other.watch = inst.watch) (level : Nat) :
    other.callbacksAt level = inst.callbacksAt level := by
  rw [callbacksAt_eq_watch, callbacksAt_eq_watch, same]

theorem pendingWithin_congr {levels : Nat}
    (same : ∀ level < levels, other.callbacksAt level = inst.callbacksAt level) :
    other.pendingWithin levels = inst.pendingWithin levels := by
  induction levels with
  | zero => rfl
  | succ level inductionHypothesis =>
      rw [pendingWithin, pendingWithin, same level (Nat.lt_succ_self level),
        inductionHypothesis fun inner below => same inner (Nat.lt_succ_of_lt below)]

theorem pendingOutside_congr {count : Nat}
    (same : ∀ outer, level < outer → other.callbacksAt outer = inst.callbacksAt outer) :
    other.pendingOutside level count = inst.pendingOutside level count := by
  induction count with
  | zero => rfl
  | succ count inductionHypothesis =>
      rw [pendingOutside, pendingOutside, same _ (by omega), inductionHypothesis]

theorem pending_of_watch (same : other.watch = inst.watch) : other.pending = inst.pending := by
  have deep : other.contexts.length = inst.contexts.length := by
    simpa only [watch, List.length_map] using congrArg List.length same
  unfold pending
  rw [deep]
  exact pendingWithin_congr fun level _ => callbacksAt_of_watch same level

/-- What waits, told apart by a level. -/
theorem pendingWithin_split (inst : Instance) (level count : Nat) :
    inst.pendingWithin (level + 1 + count)
      = inst.pendingOutside level count
        ++ ((inst.callbacksAt level).map (fun callback => (level, callback))
          ++ inst.pendingWithin level) := by
  induction count with
  | zero => rfl
  | succ count inductionHypothesis =>
      rw [← Nat.add_assoc, pendingWithin, inductionHypothesis, pendingOutside, List.append_assoc,
        Nat.add_right_comm level 1 count]

theorem pending_split {level : Nat} (inside : level < inst.contexts.length) :
    inst.pending
      = inst.pendingOutside level (inst.contexts.length - level - 1)
        ++ ((inst.callbacksAt level).map (fun callback => (level, callback))
          ++ inst.pendingWithin level) := by
  rw [← pendingWithin_split, pending]
  congr 1
  omega

/-- The handlers that wait, outermost context first, are those of the contexts. -/
theorem handlers_pendingWithin (inst : Instance) (levels : Nat) :
    ((inst.pendingWithin levels).map fun entry => entry.2.handler).Perm
      (handlersIn (inst.watch.take levels)) := by
  induction levels with
  | zero => exact .refl _
  | succ level inductionHypothesis =>
      have here : handlersIn inst.watch[level]?.toList
          = (inst.callbacksAt level).map Callback.handler := by
        rw [callbacksAt_eq_watch]
        cases inst.watch[level]? with
        | none => rfl
        | some entry => exact List.flatMap_singleton _ _
      have split : handlersIn (inst.watch.take (level + 1))
          = handlersIn (inst.watch.take level)
            ++ (inst.callbacksAt level).map Callback.handler := by
        rw [← here, List.take_add_one]
        exact List.flatMap_append
      rw [split, pendingWithin, List.map_append, List.map_map]
      exact List.perm_append_comm.trans (inductionHypothesis.append_right _)

theorem nodup_pending (once : (handlersIn inst.watch).Nodup) :
    (inst.pending.map fun entry => entry.2.handler).Nodup := by
  have same := inst.handlers_pendingWithin inst.contexts.length
  have all : inst.watch.take inst.contexts.length = inst.watch :=
    List.take_of_length_le (Nat.le_of_eq (List.length_map _))
  rw [all] at same
  exact same.nodup_iff.mpr once

/-! ### Taking callbacks away -/

theorem callbacksAt_removeCallback (inst : Instance) (level index outer : Nat) :
    (inst.removeCallback level index).callbacksAt outer
      = if level = outer then (inst.callbacksAt outer).eraseIdx index
        else inst.callbacksAt outer := by
  unfold callbacksAt removeCallback modifyContext
  simp only [List.getElem?_modify]
  cases inst.contexts[outer]? with
  | none => simp
  | some context => by_cases here : level = outer <;> simp [here]

/-- A callback that is taken away leaves the others where they are. -/
theorem pending_removeCallback {stay rest : List (Nat × Callback)} {unseen : List Callback}
    (inside : level < inst.contexts.length)
    (there : (inst.callbacksAt level).drop index = callback :: unseen)
    (pending : inst.pending = stay ++ (level, callback) :: rest)
    (behind : rest = unseen.map (fun callback => (level, callback)) ++ inst.pendingWithin level) :
    (inst.removeCallback level index).pending = stay ++ rest := by
  have deep : (inst.removeCallback level index).contexts.length = inst.contexts.length :=
    List.length_modify _ _ _
  have before : stay = inst.pendingOutside level (inst.contexts.length - level - 1)
      ++ ((inst.callbacksAt level).take index).map fun callback => (level, callback) := by
    rw [pending_split inside, ← List.take_append_drop index (inst.callbacksAt level), there,
      List.map_append, List.append_assoc, ← List.append_assoc, List.map_cons, List.cons_append,
      ← behind] at pending
    exact (List.append_cancel_right pending).symm
  have here : (inst.removeCallback level index).callbacksAt level
      = (inst.callbacksAt level).take index ++ unseen := by
    rw [callbacksAt_removeCallback, if_pos rfl, List.eraseIdx_eq_take_drop_succ,
      ← List.tail_drop, there, List.tail_cons]
  have inner : (inst.removeCallback level index).pendingWithin level
      = inst.pendingWithin level := by
    apply pendingWithin_congr
    intro inner below
    rw [callbacksAt_removeCallback, if_neg (Nat.ne_of_gt below)]
  have outer : (inst.removeCallback level index).pendingOutside level
        (inst.contexts.length - level - 1)
      = inst.pendingOutside level (inst.contexts.length - level - 1) := by
    apply pendingOutside_congr
    intro outer above
    rw [callbacksAt_removeCallback, if_neg (Nat.ne_of_lt above)]
  rw [pending_split (deep ▸ inside), deep, outer, here, inner, before, behind, List.map_append,
    List.append_assoc, List.append_assoc]

/-! ### Putting callbacks in place -/

theorem holding_removeCallback (inst : Instance) (level index : Nat)
    (entries : List (Nat × Callback)) :
    (inst.removeCallback level index).holding entries = inst.holding entries := by
  have contexts : ((inst.removeCallback level index).contexts.mapIdx fun level context =>
        { context with callbacks := callbacksOf level entries })
      = inst.contexts.mapIdx fun level context =>
        { context with callbacks := callbacksOf level entries } := by
    apply List.ext_getElem?
    intro place
    simp only [removeCallback, modifyContext, List.getElem?_mapIdx, List.getElem?_modify]
    cases inst.contexts[place]? with
    | none => rfl
    | some context => by_cases here : level = place <;> simp [here]
  unfold holding
  rw [contexts]
  rfl

theorem callbacksOf_append (level : Nat) (front back : List (Nat × Callback)) :
    callbacksOf level (front ++ back) = callbacksOf level front ++ callbacksOf level back := by
  unfold callbacksOf
  rw [List.filter_append, List.map_append]

theorem callbacksOf_map (level place : Nat) (callbacks : List Callback) :
    callbacksOf level (callbacks.map fun callback => (place, callback))
      = if place = level then callbacks else [] := by
  unfold callbacksOf
  by_cases here : place = level <;> simp [List.filter_map, Function.comp_def, here]

theorem callbacksOf_pendingWithin (inst : Instance) (level levels : Nat) :
    callbacksOf level (inst.pendingWithin levels)
      = if level < levels then inst.callbacksAt level else [] := by
  induction levels with
  | zero => rfl
  | succ outer inductionHypothesis =>
      rw [pendingWithin, callbacksOf_append, callbacksOf_map, inductionHypothesis]
      by_cases here : outer = level
      · simp [here]
      · have same : level < outer + 1 ↔ level < outer := by omega
        simp [here, same]

/-- An instance holds what waits. -/
theorem holding_pending (inst : Instance) : inst.holding inst.pending = inst := by
  have contexts : (inst.contexts.mapIdx fun level context =>
      { context with callbacks := callbacksOf level inst.pending }) = inst.contexts := by
    apply List.ext_getElem?
    intro level
    rw [List.getElem?_mapIdx]
    cases there : inst.contexts[level]? with
    | none => rfl
    | some context =>
        have inside : level < inst.contexts.length := (List.getElem?_eq_some_iff.mp there).1
        rw [Option.map_some, pending, callbacksOf_pendingWithin, if_pos inside, callbacksAt, there]
  unfold holding
  rw [contexts]

end MachineScript.Instance
