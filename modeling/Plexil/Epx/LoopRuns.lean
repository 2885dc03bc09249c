import Plexil.Epx.ForLoops
import Plexil.Epx.WhileRuns
import Plexil.Epx.SequenceOrdering

/-!
# Loops are carried out as they are written

A `While` without an end condition of its own is carried out as it is written in every run in
which its skip and pre conditions do not keep it from another iteration; a `While` in a wrapper in
every run.  The loop variable of a `For` is always updated once in each iteration.
-/

namespace Plexil.Epx

open StateMachine (Always Meets)
open Family

/-- A `While` which has no end condition is carried out as it is written in every run in which
nothing keeps it from another iteration, and a wrapped one in every run which is not cut short. The
repeat condition of the plan repeats the wrapper.  A `For` updates its variable once in each
iteration. -/
theorem loops_asWritten (t : WhileElement) (f : ForElement) :
  (t.loop.condition .end = none → ∀ es : t.UnhinderedRun, t.LoopsAsWritten es.1) ∧
    (t.isWrapped = true → ∀ es : t.UncutRun, t.LoopsAsWritten es.1) ∧
    (t.isWrapped = true → t.translate.condition .end = none → ∀ es : t.UncutWrapperRun,
      t.RepeatsWhole es.1) ∧
    ∀ es : f.UncutRun, f.UpdatesOnce es.1
  := by
  refine ⟨WhileElement.loopsAsWritten_of_unhindered, ?_, WhileElement.repeatsWhole_of_wrapped,
    ForElement.updatesOnce_of_uncut⟩
  intro hwrapped es
  have hend : t.loop.condition .end = none :=
    WhileElement.condition_loop_of_wrapped hwrapped (by decide)
  apply WhileElement.loopsAsWritten_of_unhindered hend ⟨es.1, ?_⟩
  apply es.2.mono
  intro s e hcut
  apply WhileElement.unhindered_of_wrapped hwrapped hcut

/-! ### A loop with a skip condition -/

/-- A loop with a skip condition, and an empty action. -/
def skippableLoop : WhileElement where
  action := ⟨"While", false, [(.skip, .user 1)]⟩
  declares := false
  condition := 0
  body := ⟨⟨"A", .empty, false, [], []⟩, by decide +kernel⟩
  distinct := by decide

/-- The condition of the loop is true, and its skip condition has a value. -/
def loopSurroundings (skip : Bool) : Surroundings :=
  { quietSurroundings with
    base := fun _ => ⟨fun index => some (index = 0 ∨ skip), fun _ => none, fun _ => false,
      fun _ => none, fun _ => false, fun _ => false⟩ }

/-- The loop is skipped after its first iteration, in which the test has passed. -/
theorem loops_not_asWritten :
  ¬ ∀ (t : WhileElement) (es : t.UncutRun), t.LoopsAsWritten es.1
  := by
  intro h
  have huncut : Meets (Logged.machine skippableLoop.loop)
      (fun l e => l.family.NotCutShort skippableLoop.loop e)
      (List.replicate 12 (loopSurroundings false) ++ [loopSurroundings true]) .initial := by
    apply Meets.of_forall
    intro e he s
    rcases List.mem_append.mp he with he | he
    · rw [(List.mem_replicate.mp he).2]
      exact ⟨rfl, rfl, rfl, rfl, rfl⟩
    · rw [List.mem_singleton.mp he]
      exact ⟨rfl, rfl, rfl, rfl, rfl⟩
  have hrun : (StateMachine.run (Logged.machine skippableLoop.loop)
      (List.replicate 12 (loopSurroundings false)) .initial).map (fun l =>
        (l.family.list.state, l.family.child 0,
          (l.family.step skippableLoop.loop (loopSurroundings true)).list.state)) =
      some (NodeState.waiting, ⟨.finished, .success, .noFailure⟩, NodeState.finished) := by
    decide +kernel
  obtain ⟨l, hl, hstates⟩ := Option.map_eq_some_iff.mp hrun
  obtain ⟨hwaiting, hrest⟩ := Prod.mk.inj hstates
  obtain ⟨htest, hnext⟩ := Prod.mk.inj hrest
  have hdecides := (h skippableLoop ⟨_, huncut⟩).repeats.of_run hl
  have hexecuting := hdecides.2 hwaiting (by
    rw [htest]
    exact ⟨.inr rfl, rfl, rfl⟩)
  rw [hnext] at hexecuting
  contradiction

end Plexil.Epx
