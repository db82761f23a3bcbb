import MachineScript.Proofs.Run.Registrations

/-!
Contract: the callbacks that fire.

Owns:
- contexts without the handlers that have fired;
- the callbacks that a poll fires, in order: each of them waited, is taken away
  and is counted, and what it does not fire goes on waiting;
- that a poll which comes to a callback while its condition holds fires it.

Does not own: instances between their runs.
-/

namespace MachineScript

/-! ## Firing -/

/-- The handlers that wait in some contexts. -/
def handlersIn (watch : List (ExemplarId × List Callback)) : List ExemplarId :=
  watch.flatMap fun entry => entry.2.map Callback.handler

/-- What waits in some contexts if certain handlers do not wait any more. -/
def dismiss (fired : List ExemplarId) (watch : List (ExemplarId × List Callback)) :
    List (ExemplarId × List Callback) :=
  watch.map fun entry => (entry.1, entry.2.filter fun callback => callback.handler ∉ fired)

section

variable {watch : List (ExemplarId × List Callback)} {fired others : List ExemplarId}
  {callback : Callback}

theorem mem_handlersIn_iff {handler : ExemplarId} :
    handler ∈ handlersIn watch
      ↔ ∃ entry ∈ watch, ∃ callback ∈ entry.2, callback.handler = handler := by
  simp only [handlersIn, List.mem_flatMap, List.mem_map]

theorem dismiss_append (fired others : List ExemplarId)
    (watch : List (ExemplarId × List Callback)) :
    dismiss (fired ++ others) watch = dismiss others (dismiss fired watch) := by
  unfold dismiss
  rw [List.map_map]
  apply List.map_congr_left
  intro entry _
  simp only [Function.comp_apply, List.filter_filter, List.mem_append, not_or, Bool.decide_and,
    Bool.and_comm]

/-- Handlers that do not wait need not be dismissed. -/
theorem dismiss_of_disjoint (absent : ∀ handler ∈ handlersIn watch, handler ∉ fired) :
    dismiss fired watch = watch := by
  unfold dismiss
  apply (List.map_congr_left _).trans (List.map_id watch)
  intro entry member
  have all : entry.2.filter (fun callback => callback.handler ∉ fired) = entry.2 := by
    apply List.filter_eq_self.mpr
    intro callback there
    exact decide_eq_true (absent _ (mem_handlersIn_iff.mpr ⟨entry, member, callback, there, rfl⟩))
  rw [all]
  rfl

theorem handlersIn_dismiss (fired : List ExemplarId) (watch : List (ExemplarId × List Callback)) :
    handlersIn (dismiss fired watch)
      = (handlersIn watch).filter fun handler => handler ∉ fired := by
  unfold handlersIn dismiss
  rw [List.flatMap_map, List.filter_flatMap]
  congr 1
  funext entry
  rw [List.filter_map]
  rfl

/-- In a list of callbacks whose handlers differ, one is taken away with its handler. -/
theorem eraseIdx_eq_filter {callbacks : List Callback} {index : Nat}
    (once : (callbacks.map Callback.handler).Nodup) (found : callbacks[index]? = some callback) :
    callbacks.eraseIdx index
      = callbacks.filter fun other => other.handler ∉ [callback.handler] := by
  induction callbacks generalizing index with
  | nil => cases found
  | cons first rest inductionHypothesis =>
      obtain ⟨absent, others⟩ := List.nodup_cons.mp once
      cases index with
      | zero =>
          cases found
          rw [List.eraseIdx_cons_zero, List.filter_cons_of_neg (by simp)]
          symm
          apply List.filter_eq_self.mpr
          intro other member
          have different : other.handler ≠ callback.handler :=
            fun same => absent (same ▸ List.mem_map_of_mem member)
          simpa using different
      | succ index =>
          have different : first.handler ≠ callback.handler :=
            fun same => absent (same ▸ List.mem_map_of_mem (List.mem_of_getElem? found))
          rw [List.eraseIdx_cons_succ, inductionHypothesis others found,
            List.filter_cons_of_pos (by simpa using different)]

/-- So it is in contexts whose handlers differ. -/
theorem modify_eraseIdx_eq_dismiss {level index : Nat} {entry : ExemplarId × List Callback}
    (once : (handlersIn watch).Nodup) (there : watch[level]? = some entry)
    (found : entry.2[index]? = some callback) :
    watch.modify level (fun entry => (entry.1, entry.2.eraseIdx index))
      = dismiss [callback.handler] watch := by
  induction watch generalizing level with
  | nil => cases there
  | cons first rest inductionHypothesis =>
      unfold handlersIn at once
      rw [List.flatMap_cons, List.nodup_append] at once
      obtain ⟨here, others, apart⟩ := once
      cases level with
      | zero =>
          cases there
          have outside : dismiss [callback.handler] rest = rest := by
            apply dismiss_of_disjoint
            intro handler member same
            rw [List.mem_singleton] at same
            exact apart _ (List.mem_map_of_mem (List.mem_of_getElem? found)) _ member same.symm
          rw [List.modify_zero_cons, eraseIdx_eq_filter here found]
          exact congrArg (_ :: ·) outside.symm
      | succ level =>
          have inside : dismiss [callback.handler] [first] = [first] := by
            apply dismiss_of_disjoint
            intro handler member same
            rw [List.mem_singleton] at same
            unfold handlersIn at member
            rw [List.flatMap_singleton] at member
            have waits : callback.handler ∈ handlersIn rest := mem_handlersIn_iff.mpr
              ⟨entry, List.mem_of_getElem? there, callback, List.mem_of_getElem? found, rfl⟩
            exact apart handler member _ waits same
          rw [List.modify_succ_cons, inductionHypothesis others there]
          exact congrArg (· ++ dismiss [callback.handler] rest) inside.symm

end

/-- Some callbacks have fired. Each of them waited, once, and does not wait any more; all others
wait as they did. -/
structure Fires (before after : Activation) (fired : List Callback) : Prop where
  watch : after.inst.watch = dismiss (fired.map Callback.handler) before.inst.watch
  waited : ∀ callback ∈ fired, ∃ entry ∈ before.inst.watch, callback ∈ entry.2
  once : (fired.map Callback.handler).Nodup
  counted : after.world.fired = before.world.fired + fired.length

namespace Fires

variable {before middle after : Activation} {fired others : List Callback}

theorem of_spares (spares : Spares before after) : Fires before after [] where
  watch := by
    rw [spares.watch]
    exact (dismiss_of_disjoint fun _ _ => List.not_mem_nil).symm
  waited := List.forall_mem_nil _
  once := List.nodup_nil
  counted := spares.fired

theorem trans (first : Fires before middle fired) (second : Fires middle after others) :
    Fires before after (fired ++ others) where
  watch := by rw [second.watch, first.watch, List.map_append, dismiss_append]
  waited := by
    apply List.forall_mem_append.mpr ⟨first.waited, ?_⟩
    intro callback member
    obtain ⟨entry, there, waits⟩ := second.waited callback member
    rw [first.watch] at there
    obtain ⟨earlier, known, rfl⟩ := List.mem_map.mp there
    exact ⟨earlier, known, (List.mem_filter.mp waits).1⟩
  once := by
    rw [List.map_append, List.nodup_append]
    refine ⟨first.once, second.once, ?_⟩
    intro handler early other late same
    subst same
    obtain ⟨callback, member, rfl⟩ := List.mem_map.mp late
    obtain ⟨entry, there, waits⟩ := second.waited callback member
    rw [first.watch] at there
    obtain ⟨_, _, rfl⟩ := List.mem_map.mp there
    exact of_decide_eq_true (List.mem_filter.mp waits).2 early
  counted := by rw [second.counted, first.counted, List.length_append, Nat.add_assoc]

/-- No handler comes to wait where some have fired. -/
theorem nodup (fires : Fires before after fired) (once : (handlersIn before.inst.watch).Nodup) :
    (handlersIn after.inst.watch).Nodup := by
  rw [fires.watch, handlersIn_dismiss]
  exact once.filter _

/-- A callback that is found may fire. -/
theorem fire {start : Activation} {level index : Nat} {callback : Callback}
    (once : (handlersIn start.inst.watch).Nodup)
    (found : start.inst.callback? level index = some callback) :
    Fires start (start.fire level index) [callback] := by
  obtain ⟨context, there, waits⟩ := Instance.exists_context_of_callback? found
  have entry : start.inst.watch[level]? = some (context.exemplar, context.callbacks) := by
    unfold Instance.watch
    rw [List.getElem?_map, there]
    rfl
  refine ⟨?_, ?_, List.pairwise_singleton _ _, rfl⟩
  · exact (Instance.watch_removeCallback _ _ _).trans (modify_eraseIdx_eq_dismiss once entry waits)
  · exact List.forall_mem_singleton.mpr
      ⟨_, List.mem_of_getElem? entry, List.mem_of_getElem? waits⟩

end Fires

/-! ## What a poll fires -/

namespace Setup

/-- The callbacks that the poll of a context fires from an index on, in order. -/
def contextFirings (setup : Setup) (level : Nat) :
    (unseen : Nat) → (index : Nat) → Activation → List Callback
  | 0, _, _ => []
  | unseen + 1, index, start =>
      match start.inst.callback? level index with
      | none => []
      | some callback =>
          match setup.satisfaction start callback with
          | some (.ok true) =>
              callback :: match setup.runExemplar callback.handler (start.fire level index) with
                | .ok (flow, _) left =>
                    if flow = .suspended && left.inst.transitionQueued then []
                    else setup.contextFirings level unseen index left
                | .error _ _ => []
          | some (.ok false) => setup.contextFirings level unseen (index + 1) start
          | _ => []

/-- The callbacks that the poll of the innermost contexts fires. -/
def levelFirings (setup : Setup) : (levels : Nat) → Activation → List Callback
  | 0, _ => []
  | level + 1, start =>
      setup.contextFirings level (start.inst.waiting level) 0 start
        ++ match setup.pollContext level (start.inst.waiting level) 0 start with
          | .ok true left => setup.levelFirings level left
          | _ => []

/-- The callbacks that a poll fires, in order. -/
def firings (setup : Setup) (start : Activation) : List Callback :=
  setup.levelFirings start.inst.contexts.length start

variable {setup : Setup} {start : Activation}

theorem pollContext_fires (level unseen index : Nat) (once : (handlersIn start.inst.watch).Nodup) :
    (setup.pollContext level unseen index).Ends start
      (fun _ left => Fires start left (setup.contextFirings level unseen index start))
      (fun left => Fires start left (setup.contextFirings level unseen index start)) := by
  induction unseen generalizing index start with
  | zero => exact .of_spares (Spares.lasts.refl start)
  | succ unseen inductionHypothesis =>
      unfold Run.Ends
      cases found : start.inst.callback? level index with
      | none =>
          rw [pollContext, Run.bind_get]
          simp only [found, contextFirings]
          exact .of_spares (Spares.lasts.refl start)
      | some callback =>
          rw [pollContext_of_found unseen found]
          simp only [contextFirings, found]
          cases setup.satisfaction start callback with
          | none => exact .of_spares (Spares.lasts.refl start)
          | some answer =>
              cases answer with
              | error error => exact .of_spares (Spares.lasts.refl start)
              | ok satisfied =>
                  cases satisfied with
                  | false => exact inductionHypothesis (index + 1) once
                  | true =>
                      have fires := Fires.fire once found
                      have spares := setup.runExemplar_spares callback.handler
                        (start.fire level index)
                      simp only
                      cases ended : setup.runExemplar callback.handler (start.fire level index) with
                      | error cause left =>
                          exact fires.trans (.of_spares (spares.of_error ended))
                      | ok result left =>
                          have after := fires.trans (.of_spares (spares.of_ok ended))
                          by_cases stops : (decide (result.1 = .suspended)
                              && left.inst.transitionQueued) = true
                          · simp only [stops, if_true]
                            exact after
                          · simp only [stops, Bool.false_eq_true, if_false]
                            have rest := inductionHypothesis index (after.nodup once)
                            exact rest.mono (fun _ _ => after.trans) fun _ => after.trans

theorem pollContexts_fires (levels : Nat) (once : (handlersIn start.inst.watch).Nodup) :
    (setup.pollContexts levels).Ends start
      (fun _ left => Fires start left (setup.levelFirings levels start))
      (fun left => Fires start left (setup.levelFirings levels start)) := by
  induction levels generalizing start with
  | zero => exact .of_spares (Spares.lasts.refl start)
  | succ level inductionHypothesis =>
      have here : (setup.pollContext level (start.inst.waiting level) 0).Ends start _ _ :=
        pollContext_fires level (start.inst.waiting level) 0 once
      unfold Run.Ends
      rw [pollContexts_succ, pollFrom_eq, Nat.sub_zero, levelFirings]
      cases ended : setup.pollContext level (start.inst.waiting level) 0 start with
      | error cause left =>
          simp only [List.append_nil]
          exact here.of_error ended
      | ok goesOn left =>
          have fires := here.of_ok ended
          cases goesOn with
          | false =>
              simp only [List.append_nil]
              exact fires
          | true =>
              have inner := inductionHypothesis (fires.nodup once)
              exact inner.mono (fun _ _ => fires.trans) fun _ => fires.trans

/-- A poll fires its callbacks, whether it returns or fails. -/
theorem pollHandlers_fires (once : (handlersIn start.inst.watch).Nodup) :
    setup.pollHandlers.Ends start (fun _ left => Fires start left (setup.firings start))
      (fun left => Fires start left (setup.firings start)) :=
  pollContexts_fires _ once

/-! ### Firing at the heads of the loops -/

/-- The callbacks that a poll still fires at an index of a level. -/
def firingsFrom (setup : Setup) (level index : Nat) (start : Activation) : List Callback :=
  setup.contextFirings level (start.inst.waiting level - index) index start
    ++ match setup.pollContext level (start.inst.waiting level - index) index start with
      | .ok true left => setup.levelFirings level left
      | _ => []

theorem levelFirings_succ (setup : Setup) (level : Nat) (start : Activation) :
    setup.levelFirings (level + 1) start = setup.firingsFrom level 0 start := rfl

theorem firingsFrom_of_absent {level index : Nat}
    (absent : start.inst.callback? (level + 1) index = none) :
    setup.firingsFrom (level + 1) index start = setup.firingsFrom level 0 start := by
  have seen : start.inst.waiting (level + 1) - index = 0 :=
    Nat.sub_eq_zero_of_le (Instance.waiting_le_of_callback? absent)
  unfold firingsFrom
  rw [seen]
  rfl

/-- A round that finds a callback fires it exactly if its condition holds. -/
theorem firingsFrom_of_found {level index : Nat} {callback : Callback}
    (found : start.inst.callback? level index = some callback) :
    setup.firingsFrom level index start
      = match setup.satisfaction start callback with
        | some (.ok true) =>
            callback :: match setup.runExemplar callback.handler (start.fire level index) with
              | .ok (flow, _) left =>
                  if flow = .suspended && left.inst.transitionQueued then []
                  else setup.firingsFrom level index left
              | .error _ _ => []
        | some (.ok false) => setup.firingsFrom level (index + 1) start
        | _ => [] := by
  have inside := Instance.lt_waiting_of_callback? found
  obtain ⟨unseen, rounds⟩ : ∃ unseen, start.inst.waiting level = index + unseen + 1 :=
    Nat.exists_eq_add_of_lt inside
  unfold firingsFrom
  rw [show start.inst.waiting level - index = unseen + 1 by omega,
    pollContext_of_found unseen found]
  simp only [contextFirings, found]
  cases setup.satisfaction start callback with
  | none => rfl
  | some answer =>
      cases answer with
      | error error => rfl
      | ok satisfied =>
          cases satisfied with
          | false =>
              have fewer : start.inst.waiting level - (index + 1) = unseen := by omega
              rw [fewer]
          | true =>
              simp only
              cases ended : setup.runExemplar callback.handler (start.fire level index) with
              | error cause left => rfl
              | ok result left =>
                  have spares := (setup.runExemplar_spares callback.handler _).of_ok ended
                  have fewer : left.inst.waiting level - index = unseen := by
                    have removed := Instance.waiting_of_fired found spares.watch
                    omega
                  simp only [fewer]
                  cases decide (result.1 = .suspended) && left.inst.transitionQueued <;> rfl

end Setup

/-- What a poll fires from one of its heads on, it fires from the head before on. -/
theorem PollHead.Next.firings {setup : Setup} {head next : PollHead}
    (follows : PollHead.Next setup head next) :
    setup.firingsFrom next.level next.index next.activation
      <:+ setup.firingsFrom head.level head.index head.activation := by
  cases follows with
  | skips found unsatisfied =>
      have same : setup.firingsFrom head.level head.index head.activation = _ :=
        Setup.firingsFrom_of_found found
      rw [unsatisfied] at same
      exact same ▸ List.suffix_rfl
  | fires found satisfied ran goesOn =>
      rw [Setup.firingsFrom_of_found found, satisfied]
      unfold PollHead.fire at ran
      simp only [ran, goesOn, Bool.false_eq_true, if_false]
      exact List.suffix_cons _ _
  | inward absent => exact Setup.firingsFrom_of_absent absent ▸ List.suffix_rfl

namespace Setup.PollsAt

variable {setup : Setup} {start : Activation} {head : PollHead} {callback : Callback}

theorem firings (polls : setup.PollsAt start head) :
    setup.firingsFrom head.level head.index head.activation <:+ setup.firings start := by
  obtain ⟨level, deep, path⟩ := polls
  induction path with
  | refl =>
      have all : setup.firings start = setup.firingsFrom level 0 start := by
        unfold Setup.firings
        rw [deep, levelFirings_succ]
      exact all ▸ List.suffix_rfl
  | tail _ follows inductionHypothesis => exact follows.firings.trans inductionHypothesis

/-- A callback that a poll comes to while its condition holds is one that the poll fires. -/
theorem mem_firings (polls : setup.PollsAt start head) (found : head.callback? = some callback)
    (satisfied : setup.satisfaction head.activation callback = some (.ok true)) :
    callback ∈ setup.firings start := by
  apply polls.firings.subset
  rw [firingsFrom_of_found found, satisfied]
  exact List.mem_cons_self

end Setup.PollsAt

/-- The callbacks that an errand fires, in order. -/
def Errand.firings (setup : Setup) (start : Activation) : Errand → List Callback
  | .poll => setup.firings start
  | _ => []

/-- However an errand ends, the world has counted what it fires. -/
theorem Errand.run_fired {setup : Setup} {start : Activation} (errand : Errand)
    (once : (handlersIn start.inst.watch).Nodup) :
    (errand.run setup).Ends start
      (fun _ left => left.world.fired = start.world.fired + (errand.firings setup start).length)
      (fun left => left.world.fired = start.world.fired + (errand.firings setup start).length) := by
  cases errand with
  | launch =>
      simp only [run, Setup.initializeInstance, Run.ends_bind, Run.ends_get]
      apply (setup.runExemplar_spares start.inst.machine start).mono _ fun _ spares => spares.fired
      intro _ left spares
      split
      · next main _ =>
          apply (setup.enterState_fired main left).mono
          · exact fun _ _ same => same.trans spares.fired
          · exact fun _ same => same.trans spares.fired
      · exact spares.fired
  | transition target =>
      simp only [run, Setup.transition, Run.ends_bind, Run.ends_get, Run.ends_modifyInstance]
      split
      · rfl
      · next state _ =>
          simp only [Run.ends_bind, Run.ends_modifyInstance]
          exact setup.enterState_fired state _
  | poll =>
      exact (Setup.pollHandlers_fires once).mono (fun _ _ fires => fires.counted)
        fun _ fires => fires.counted

end MachineScript
