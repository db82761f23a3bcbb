import MachineScript.Proofs.OneShot
import MachineScript.Proofs.Run.Sweeps

/-!
Contract: what a tick does with an instance that it polls.

Owns:
- that the turn of a poll is one pass over what waits for the instance before
  the turn, in the order of the contexts and of the registrations;
- that the pass tests nothing twice, which callbacks it fires, and what it leaves
  waiting.

Does not own: what has been registered, and what becomes of the instance behind
its turn.
-/

namespace MachineScript.Engine

variable {setup : Setup} {engine : Engine} {turn : Turn}

/-! ## The turn of a poll -/

/-- The pass over what waits for the instance of a turn before the turn. -/
def Turn.pass (turn : Turn) : Sweep :=
  turn.engine.setup.sweep [] turn.inst.pending (turn.engine.starting turn.inst)

/-- The condition of a callback holds when a turn begins. -/
def Turn.isReady (turn : Turn) (callback : Callback) : Bool :=
  turn.engine.setup.isReady (turn.engine.starting turn.inst) callback

/-- The turn of a poll is one pass over what waits for the instance before the turn.

From the outermost context on, the turn looks at the callbacks of a front part of what waits, at
each of them once and in order, and at nothing else. It fires those that are ready. The others wait
on in their places, and behind them what it has not come to. It comes to everything, unless it fails
or a handler has queued a transition; behind that handler it tests nothing. -/
structure Turn.PollsOnce (turn : Turn) : Prop where
  run : turn.run = turn.pass.ended
  looks : ∃ level, turn.inst.contexts.length = level + 1
    ∧ PollHead.Looks turn.engine.setup ⟨level, 0, turn.engine.starting turn.inst⟩ turn.pass.tested
  tested : turn.pass.tested ++ turn.pass.untested = turn.inst.pending
  distinct : (turn.inst.pending.map fun entry => entry.2.handler).Nodup
  fired : turn.pass.fired = turn.pass.tested.filter fun entry => turn.isReady entry.2
  firings : turn.firings = turn.pass.fired.map Prod.snd
  left : turn.pass.left.inst.pending
    = (turn.pass.tested.filter fun entry => !turn.isReady entry.2) ++ turn.pass.untested
  stops : turn.pass.untested = []
    ∨ (∃ cause left, turn.run = .error cause left)
    ∨ ∃ left, turn.run = .ok () left ∧ left.inst.transitionQueued = true
  queued : ∀ left, turn.run = .ok () left → left.inst.transitionQueued = true →
    ∃ front last, turn.pass.tested = front ++ [last] ∧ turn.isReady last.2 = true

/-- An instance that is polled waits in a context, with no transition queued. -/
theorem isPolled_of_mem_pollTurns (member : turn ∈ engine.pollTurns) :
    Progress.isPolled turn.inst = true ∧ turn.errand = .poll := by
  obtain ⟨front, id, back, _, taken⟩ := mem_turnsOf member
  unfold Progress.pollTurn? at taken
  split at taken
  · cases taken
  · split at taken
    · next polled =>
        cases taken
        exact ⟨polled, rfl⟩
    · cases taken

theorem Turn.pollsOnce (placed : setup.program.Placed) (same : turn.engine.setup = setup)
    (waits : turn.inst.WaitsForHandlers setup.program) (once : (handlersIn turn.inst.watch).Nodup)
    (isPoll : turn.errand = .poll) (polled : Progress.isPolled turn.inst = true) :
    turn.PollsOnce := by
  subst same
  simp only [Progress.isPolled, Bool.and_eq_true, Bool.not_eq_true', decide_eq_true_iff] at polled
  obtain ⟨⟨_, unqueued⟩, waiting⟩ := polled
  obtain ⟨level, deep⟩ : ∃ level, turn.inst.contexts.length = level + 1 := by
    apply Nat.exists_eq_succ_of_ne_zero
    intro empty
    unfold Instance.hasPendingCallbacks at waiting
    rw [List.length_eq_zero_iff.mp empty] at waiting
    cases waiting
  let start := turn.engine.starting turn.inst
  have snapshot : start.inst.pending = turn.inst.pending := Instance.pending_of_watch rfl
  have makes : PollHead.Makes turn.engine.setup [] ⟨level, 0, start⟩ turn.pass := by
    unfold Turn.pass
    rw [← snapshot]
    exact Setup.pollHandlers_makes placed waits unqueued deep
  have polls : turn.engine.setup.PollsAt start ⟨level, 0, start⟩ := ⟨level, deep, .refl⟩
  have run : turn.run = turn.pass.ended := by
    unfold Turn.run
    rw [isPoll]
    exact (polls.pollHandlers_eq placed waits).trans makes.ended
  refine ⟨run, ⟨level, deep, makes.looks⟩, Setup.sweep_tested _ _ _, Instance.nodup_pending once,
    Setup.sweep_fired _ _ _, ?_, makes.left, ?_, ?_⟩
  · unfold Turn.firings
    rw [isPoll]
    change turn.engine.setup.levelFirings turn.inst.contexts.length start = _
    rw [deep, Setup.levelFirings_succ]
    exact makes.firings
  · rw [run]
    exact Setup.sweep_stops _ _ _
  · intro left ended
    exact Setup.sweep_queued unqueued (run.symm.trans ended)

/-! ## Reachable engines -/

/-- Whatever a host does with a compiled program, each instance that a tick polls has one pass made
over what waits for it. -/
theorem Reaches.polls_once {options : CompileOptions} {tape : Tape}
    {compilation : Compilation} (compiled : tape.compile options = .ok compilation)
    {registry : Registry} {config : EngineConfig} {printer : Printer}
    (reached : (build compilation.program registry config printer).Reaches engine) :
    ∀ turn ∈ engine.pollTurns, turn.PollsOnce := by
  obtain ⟨placed, tree⟩ : (Setup.mk compilation.program registry config).program.WellFormed :=
    Tape.wellFormed_of_compile compiled
  have coherent := reached.coherent_of_compiled compiled
  obtain ⟨calls, rfl⟩ := reached
  have ledger := ((build_coherent compilation.program registry config printer).handlesOnce placed
    tree (build_ledger compilation.program registry config printer) calls).waits
  intro turn member
  obtain ⟨polled, isPoll⟩ := isPolled_of_mem_pollTurns member
  obtain ⟨_, inst, rfl, _, here, there⟩ := coherent.of_mem_pollTurns placed member
  have once : (handlersIn inst.watch).Nodup := by
    obtain ⟨_, _, _, _, waits, before, begins, _⟩ :=
      ledger.of_mem_turns placed tree coherent (List.mem_append_right _ member)
    exact waits.once placed tree before begins
  exact Turn.pollsOnce placed here.same (here.rests _ there).handlers once isPoll polled

open Token in
/-- The tape of `(machine w (state main ())) (machine m (state main (on always 0 (launch w))
(on never 0 (set x 1)) (state inner (on always 0 (set y 1)) (on always 0 (goto main))
(on always 0 (set z 1))) (goto inner))) (launch m)`. -/
def readyInTwoStates : Tape :=
  Tape.ofTokens .empty
    (bracketed 0
        ([word "machine" 1, word "w" 9]
          ++ bracketed 11 ([word "state" 12, word "main" 18] ++ bracketed 23 [] 24) 25)
        26
      ++ bracketed 28
        ([word "machine" 29, word "m" 37]
          ++ bracketed 39
            ([word "state" 40, word "main" 46]
              ++ bracketed 51
                ([word "on" 52, word "always" 55, ⟨.constant (.int 0), 62⟩]
                  ++ bracketed 64 [word "launch" 65, word "w" 72] 73)
                74
              ++ bracketed 76
                ([word "on" 77, word "never" 80, ⟨.constant (.int 0), 86⟩]
                  ++ bracketed 88 [word "set" 89, word "x" 93, ⟨.constant (.int 1), 95⟩] 96)
                97
              ++ bracketed 99
                ([word "state" 100, word "inner" 106]
                  ++ bracketed 112
                    ([word "on" 113, word "always" 116, ⟨.constant (.int 0), 123⟩]
                      ++ bracketed 125 [word "set" 126, word "y" 130, ⟨.constant (.int 1), 132⟩] 133)
                    134
                  ++ bracketed 136
                    ([word "on" 137, word "always" 140, ⟨.constant (.int 0), 147⟩]
                      ++ bracketed 149 [word "goto" 150, word "main" 155] 159)
                    160
                  ++ bracketed 162
                    ([word "on" 163, word "always" 166, ⟨.constant (.int 0), 173⟩]
                      ++ bracketed 175 [word "set" 176, word "z" 180, ⟨.constant (.int 1), 182⟩] 183)
                    184)
                185
              ++ bracketed 187 [word "goto" 188, word "inner" 193] 198)
            199)
        200
      ++ bracketed 202 [word "launch" 203, word "m" 210] 211)

/-- One pass goes through the handlers of both states. That of a launch does not end it; the last
handler, behind that of the transition, is not tested. -/
theorem polls_once_readyInTwoStates :
    ∃ compilation engine, readyInTwoStates.compile {} = .ok compilation
      ∧ (build compilation.program ((Registry.empty.withCondition "always" fun _ _ => .ok true)
          |>.withCondition "never" fun _ _ => .ok false) {} .empty).performAll [.tick] = engine
      ∧ engine.pollTurns.map
          (fun turn => turn.inst.pending.map fun entry => (entry.1, entry.2.handler))
        = [[(1, 5), (1, 6), (0, 8), (0, 9), (0, 10)]]
      ∧ engine.pollTurns.map (fun turn => turn.pass.fired.map fun entry => entry.2.handler)
        = [[5, 8, 9]]
      ∧ engine.pollTurns.map (fun turn => turn.pass.untested.map fun entry => entry.2.handler)
        = [[10]]
      ∧ ∀ turn ∈ engine.pollTurns, turn.PollsOnce := by
  refine ⟨_, _, rfl, rfl, by decide +kernel, by decide +kernel, by decide +kernel, ?_⟩
  have compiled : readyInTwoStates.compile {} = .ok _ := rfl
  exact Reaches.polls_once compiled ⟨[.tick], rfl⟩

end MachineScript.Engine
