import Plexil.Epx.Iterations

/-!
# Generated command nodes

The command nodes which the translator generates have no conditions but start, end and post
conditions.  What such a node does in a batch is one of the steps below.  As it does not repeat,
it is at rest whenever the list node does not execute its body, whatever its siblings do.
-/

namespace Plexil

/-- What a command node consults when it has no conditions but start, end and post conditions. -/
structure NodeView.IsCommand (v : NodeView) : Prop where
  command : v.nodeType = .command
  skip : v.skip = none
  pre : v.pre = none
  exit : v.exit = none
  invariant : v.invariant = none
  «repeat» : v.repeat = none

/-- What a command node with no skip, pre, exit, invariant or repeat condition does in a batch. -/
inductive CommandStep (v : NodeView) (x : NodeStatus) : NodeStatus → Prop where
  | stays : CommandStep v x x
  | wakes (h : x.state = .inactive) (hout : ¬ v.AncestorOut) :
    CommandStep v x { x with state := .waiting }
  | skips (h : x.state = .inactive ∨ x.state = .waiting)
      (hout : v.AncestorOut ∨ (x.state = .inactive ∧ v.parentState = some .finished)) :
    CommandStep v x { x with state := .finished, outcome := .skipped }
  | starts (h : x.state = .waiting) (hstart : v.start.isNotTrue = false) :
    CommandStep v x { x with state := .executing }
  | ends (h : x.state = .executing) (hend : v.end.isNotTrue = false) :
    CommandStep v x { x with state := .finishing }
  | succeeds (h : x.state = .finishing) (hcomplete : v.actionComplete.isTrue = true)
      (hpost : v.post.isNotTrue = false) :
    CommandStep v x { x with state := .iterationEnded, outcome := .success }
  | fails (h : x.state = .finishing) (hcomplete : v.actionComplete.isTrue = true)
      (hpost : v.post.isNotTrue = true) :
    CommandStep v x ⟨.iterationEnded, .failure, .postConditionFailed⟩
  | parentExits (next : NodeState) (h : x.state.isRunning = true)
      (hnext : next = .failing ∨ next = .finished) (hexit : v.ancestorExit.isTrue = true) :
    CommandStep v x ⟨next, .interrupted, .parentExited⟩
  | parentFails (next : NodeState) (h : x.state.isRunning = true)
      (hnext : next = .failing ∨ next = .finished)
      (hinvariant : v.ancestorInvariant.isFalse = true) :
    CommandStep v x ⟨next, .failure, .parentFailed⟩
  | aborted (next : NodeState) (h : x.state = .failing)
      (hnext : next = .finished ∨ next = .iterationEnded) :
    CommandStep v x { x with state := next }
  | finishes (h : x.state = .iterationEnded) :
    CommandStep v x { x with state := .finished }
  | resets (h : x.state = .finished) (hparent : v.parentState = some .waiting) :
    CommandStep v x ⟨.inactive, .noOutcome, .noFailure⟩

theorem NodeStatus.leave_of_ne {x : NodeStatus} (hfinished : x.state ≠ .finished)
    (hended : x.state ≠ .iterationEnded) (next : NodeState) :
  x.leave next = x
  := by
  unfold leave
  rw [if_neg]
  rintro (h | ⟨h, -⟩)
  · apply hfinished h
  · apply hended h

/-- The status after a transition from a state other than FINISHED and ITERATION_ENDED. -/
theorem NodeStatus.transition_of_ne {x : NodeStatus} (hfinished : x.state ≠ .finished)
    (hended : x.state ≠ .iterationEnded) (d : Dest) :
  x.transition d =
    match d.outcome with
    | none => { x with state := d.state }
    | some outcome => ⟨d.state, outcome, d.failureType.getD x.failureType⟩
  := by
  cases houtcome : d.outcome <;> simp only [transition, leave_of_ne hfinished hended, houtcome]

namespace CommandStep

variable {v : NodeView} {x : NodeStatus} {d : Dest}

/-- An interruption of a node without exit and invariant conditions. -/
theorem of_interruption (hv : v.IsCommand) (hstate : x.state = .executing ∨ x.state = .finishing)
    (hdest : interruption .failing .failing v = some d) :
  CommandStep v x (x.transition d)
  := by
  have hrunning : x.state.isRunning = true := by
    rcases hstate with h | h <;>
      · rw [h]
        rfl
  unfold interruption at hdest
  rw [hv.exit, hv.invariant] at hdest
  split at hdest
  · rename_i hout
    cases hdest
    exact .parentExits .failing hrunning (.inl rfl) hout
  · split at hdest
    · contradiction
    · split at hdest
      · rename_i hout
        cases hdest
        exact .parentFails .failing hrunning (.inl rfl) hout
      · contradiction

theorem of_inactive (hparent : v.parentState ≠ none) (hstate : x.state = .inactive)
    (hdest : getDestStateFromInactive v = some d) :
  CommandStep v x (x.transition d)
  := by
  have hfinished : x.state ≠ .finished := by
    rw [hstate]
    decide
  have hended : x.state ≠ .iterationEnded := by
    rw [hstate]
    decide
  rw [NodeStatus.transition_of_ne hfinished hended]
  have hskips : v.AncestorOut ∨ v.parentState = some .finished →
      CommandStep v x { x with state := .finished, outcome := .skipped } := by
    intro hout
    apply CommandStep.skips (.inl hstate)
    exact hout.imp_right fun h => ⟨hstate, h⟩
  unfold getDestStateFromInactive at hdest
  split at hdest
  · rename_i hparent
    cases hdest
    apply hskips (.inr hparent)
  · split at hdest
    · rename_i hout
      cases hdest
      apply hskips (.inl (.inl hout))
    · rename_i hexit
      split at hdest
      · rename_i hout
        cases hdest
        apply hskips (.inl (.inr (.inl hout)))
      · rename_i hinvariant
        split at hdest
        · rename_i hout
          cases hdest
          apply hskips (.inl (.inr (.inr hout)))
        · rename_i hend
          cases hdest
          apply CommandStep.wakes hstate
          rintro (h | h | h) <;> contradiction
  · contradiction
  · contradiction

theorem of_waiting (hv : v.IsCommand) (hstate : x.state = .waiting)
    (hdest : getDestStateFromWaiting v = some d) :
  CommandStep v x (x.transition d)
  := by
  have hfinished : x.state ≠ .finished := by
    rw [hstate]
    decide
  have hended : x.state ≠ .iterationEnded := by
    rw [hstate]
    decide
  rw [NodeStatus.transition_of_ne hfinished hended]
  have hskips :
      v.AncestorOut → CommandStep v x { x with state := .finished, outcome := .skipped } :=
    fun hout => .skips (.inr hstate) (.inl hout)
  have hnone : v.exit.isTrue = false ∧ v.skip.isTrue = false ∧ v.pre.isNotTrue = false := by
    rw [hv.exit, hv.skip, hv.pre]
    exact ⟨rfl, rfl, rfl⟩
  unfold getDestStateFromWaiting at hdest
  rw [hnone.1, hnone.2.1, hnone.2.2] at hdest
  simp only [Bool.false_eq_true, if_false] at hdest
  split at hdest
  · rename_i hout
    cases hdest
    apply hskips (.inl hout)
  · split at hdest
    · rename_i hout
      cases hdest
      apply hskips (.inr (.inl hout))
    · split at hdest
      · rename_i hout
        cases hdest
        apply hskips (.inr (.inr hout))
      · split at hdest
        · contradiction
        · rename_i hstart
          cases hdest
          apply CommandStep.starts hstate
          rw [← Bool.not_eq_true]
          exact hstart

theorem of_executing (hv : v.IsCommand) (hstate : x.state = .executing)
    (hdest : CommandNode.getDestStateFromExecuting v = some d) :
  CommandStep v x (x.transition d)
  := by
  unfold CommandNode.getDestStateFromExecuting at hdest
  rcases Option.or_eq_some_iff.mp hdest with hdest | ⟨-, hdest⟩
  · apply of_interruption hv (.inl hstate) hdest
  · split at hdest
    · contradiction
    · rename_i hend
      cases hdest
      rw [NodeStatus.transition_of_ne (by rw [hstate]; decide) (by rw [hstate]; decide)]
      apply CommandStep.ends hstate
      rw [← Bool.not_eq_true]
      exact hend

theorem of_finishing (hv : v.IsCommand) (hstate : x.state = .finishing)
    (hdest : CommandNode.getDestStateFromFinishing v = some d) :
  CommandStep v x (x.transition d)
  := by
  unfold CommandNode.getDestStateFromFinishing at hdest
  rcases Option.or_eq_some_iff.mp hdest with hdest | ⟨-, hdest⟩
  · apply of_interruption hv (.inr hstate) hdest
  · split at hdest
    · rename_i hcomplete
      cases hdest
      rw [NodeStatus.transition_of_ne (by rw [hstate]; decide) (by rw [hstate]; decide)]
      unfold iterationEnded
      cases hpost : v.post.isNotTrue with
      | true => apply CommandStep.fails hstate hcomplete hpost
      | false => apply CommandStep.succeeds hstate hcomplete hpost
    · contradiction

theorem of_failing (hstate : x.state = .failing)
    (hdest : CommandNode.getDestStateFromFailing v = some d) :
  CommandStep v x (x.transition d)
  := by
  unfold CommandNode.getDestStateFromFailing at hdest
  split at hdest
  · cases hdest
    rw [NodeStatus.transition_of_ne (by rw [hstate]; decide) (by rw [hstate]; decide)]
    have hnext : failed v = { state := .finished } ∨ failed v = { state := .iterationEnded } := by
      unfold failed
      grind
    rcases hnext with heq | heq
    · rw [heq]
      apply CommandStep.aborted .finished hstate (.inl rfl)
    · rw [heq]
      apply CommandStep.aborted .iterationEnded hstate (.inr rfl)
  · contradiction

/-- The status of a node which ended an iteration and is not to repeat. -/
theorem leave_of_iterationEnded (hstate : x.state = .iterationEnded) {next : NodeState}
    (hnext : next ≠ .waiting) :
  x.leave next = x
  := by
  unfold NodeStatus.leave
  rw [if_neg]
  rintro (h | ⟨-, h⟩)
  · rw [hstate] at h
    contradiction
  · apply hnext h

theorem of_iterationEnded (hv : v.IsCommand) (hstate : x.state = .iterationEnded)
    (hdest : getDestStateFromIterationEnded v = some d) :
  CommandStep v x (x.transition d)
  := by
  have hrunning : x.state.isRunning = true := by
    rw [hstate]
    rfl
  have hleave := leave_of_iterationEnded hstate (show NodeState.finished ≠ .waiting by decide)
  have hfinishes : CommandStep v x (x.transition { state := .finished }) := by
    unfold NodeStatus.transition
    rw [hleave]
    apply CommandStep.finishes hstate
  unfold getDestStateFromIterationEnded at hdest
  rw [hv.repeat] at hdest
  split at hdest
  · rename_i hout
    cases hdest
    exact .parentExits .finished hrunning (.inr rfl) hout
  · split at hdest
    · rename_i hout
      cases hdest
      exact .parentFails .finished hrunning (.inr rfl) hout
    · split at hdest
      · cases hdest
        exact hfinishes
      · cases hdest
        exact hfinishes

theorem of_finished (hstate : x.state = .finished)
    (hdest : getDestStateFromFinished v = some d) :
  CommandStep v x (x.transition d)
  := by
  unfold getDestStateFromFinished at hdest
  split at hdest
  · rename_i hparent
    cases hdest
    unfold NodeStatus.transition NodeStatus.leave
    rw [if_pos (.inl hstate)]
    apply CommandStep.resets hstate hparent
  · contradiction

theorem of_destState (hv : v.IsCommand) (hparent : v.parentState ≠ none)
    (hstate : v.state = x.state) (hdest : destState v = some d) :
  CommandStep v x (x.transition d)
  := by
  unfold destState at hdest
  rw [hstate] at hdest
  split at hdest
  · rename_i h
    apply of_inactive hparent h hdest
  · rename_i h
    apply of_waiting hv h hdest
  · rename_i h
    unfold getDestStateFromExecuting at hdest
    rw [hv.command] at hdest
    apply of_executing hv h hdest
  · rename_i h
    unfold getDestStateFromFinishing at hdest
    rw [hv.command] at hdest
    apply of_finishing hv h hdest
  · rename_i h
    apply of_finished h hdest
  · rename_i h
    unfold getDestStateFromFailing at hdest
    rw [hv.command] at hdest
    apply of_failing h hdest
  · rename_i h
    apply of_iterationEnded hv h hdest
  · contradiction

end CommandStep

namespace Epx

/-- A command node with no conditions but start, end and post conditions. -/
structure CoreNode.IsCommand (c : CoreNode) : Prop where
  command : c.nodeType = .command
  mutex : c.usingMutex = false
  skip : c.condition .skip = none
  pre : c.condition .pre = none
  exit : c.condition .exit = none
  invariant : c.condition .invariant = none
  «repeat» : c.condition .repeat = none

namespace Family

variable {node c : CoreNode} {e : Surroundings} {s : Family} {i : Nat}

theorem isCommand_childView (hcommand : c.IsCommand) :
  (s.childView node e i c).IsCommand
  where
  command := hcommand.command
  skip := congrArg (Option.map _) hcommand.skip
  pre := congrArg (Option.map _) hcommand.pre
  exit := congrArg (Option.map _) hcommand.exit
  invariant := congrArg (Option.map _) hcommand.invariant
  «repeat» := congrArg (Option.map _) hcommand.repeat

/-- What a generated command node does in a batch. -/
theorem step_command (hc : node.children[i]? = some c) (hcommand : c.IsCommand) :
  CommandStep (s.childView node e i c) (s.child i) ((s.step node e).child i)
  := by
  have hacquires : c.acquiresResources = false := by
    unfold CoreNode.acquiresResources
    rw [hcommand.command, hcommand.mutex]
    rfl
  rw [step_child hc]
  unfold CoreNode.move
  split
  · exact .stays
  · rename_i d hdest
    rw [hacquires]
    simp only [Bool.false_eq_true, false_and, and_false, if_false]
    apply CommandStep.of_destState (isCommand_childView hcommand) _ rfl hdest
    intro h
    contradiction

/-! ### Nodes at rest -/

/-- A child is at rest when the list node does not execute its body, and it does not wait when
the list node is about to finish. -/
structure AtRest (s : Family) (i : Nat) : Prop where
  valid : (s.child i).state ≠ .noNodeState
  rest : s.list.state ≠ .executing → s.list.state.isClosing = false →
    (s.child i).state = .inactive ∨ (s.child i).state = .finished
  closing : s.list.state.isClosing = true →
    (s.child i).state ≠ .inactive ∧ (s.child i).state ≠ .waiting

section

variable (hlist : node.nodeType = .nodeList) (hc : node.children[i]? = some c)
variable (hrepeat : c.condition .repeat = none)

include hc hrepeat

theorem step_ne_waiting_of_ended (hended : (s.child i).state = .iterationEnded) :
  ((s.step node e).child i).state ≠ .waiting
  := by
  intro hwaiting
  have hnone : (s.childView node e i c).repeat = none := congrArg (Option.map _) hrepeat
  rcases step_eq_waiting hc hwaiting with h | ⟨-, h | ⟨-, h⟩⟩
  · rw [hended] at h
    contradiction
  · rw [hended] at h
    contradiction
  · rw [hnone] at h
    contradiction

omit hrepeat in
/-- A child at rest, of a list node which does not execute its body, stays so. -/
theorem AtRest.step_rest (h : s.AtRest i) (hexecuting : s.list.state ≠ .executing)
    (hclosing : s.list.state.isClosing = false) :
  ((s.step node e).child i).state = .inactive ∨
    (((s.step node e).child i).state = .finished ∧ s.list.state ≠ .waiting)
  := by
  rcases h.rest hexecuting hclosing with hinactive | hfinished
  · by_cases hparent : s.list.state = .finished
    · right
      rw [hparent]
      exact ⟨step_inactive_finished hc hinactive hparent, by decide⟩
    · left
      rw [step_inactive_idle hc hinactive hexecuting hparent]
      exact hinactive
  · by_cases hwaiting : s.list.state = .waiting
    · left
      apply step_finished_waiting hc hfinished hwaiting
    · right
      rw [step_finished hc hfinished hwaiting]
      exact ⟨hfinished, hwaiting⟩

omit hrepeat in
/-- A child of a list node which starts to execute its body is inactive. -/
theorem AtRest.step_opens (h : s.AtRest i) (hexecuting : s.list.state ≠ .executing)
    (hopens : (s.step node e).list.state = .executing) (hclosing : s.list.state.isClosing = false) :
  s.list.state = .waiting ∧ ((s.step node e).child i).state = .inactive
  := by
  rcases @step_list_rest node e s hexecuting hclosing with ⟨hwaiting, -⟩ | ⟨hnot, -⟩
  · rcases @AtRest.step_rest node c e s i hc h hexecuting hclosing with hinactive | ⟨-, hnot⟩
    · exact ⟨hwaiting, hinactive⟩
    · contradiction
  · contradiction

include hlist

omit hc hrepeat in
/-- A list node which starts to execute its body has been waiting. -/
theorem waiting_of_opens (hexecuting : s.list.state ≠ .executing)
    (hopens : (s.step node e).list.state = .executing) :
  s.list.state = .waiting
  := by
  cases hclosing : s.list.state.isClosing with
  | false =>
    rcases @step_list_rest node e s hexecuting hclosing with ⟨hwaiting, -⟩ | ⟨hnot, -⟩
    · exact hwaiting
    · contradiction
  | true =>
    rcases @step_list_closing node e s hlist hclosing with h | ⟨-, h | h⟩
    · rw [hopens] at h
      contradiction
    · rw [hopens] at h
      contradiction
    · rw [hopens] at h
      contradiction

theorem AtRest.step_closing (h : s.AtRest i)
    (hclosing : (s.step node e).list.state.isClosing = true) :
  ((s.step node e).child i).state ≠ .inactive ∧ ((s.step node e).child i).state ≠ .waiting
  := by
  by_cases hexecuting : s.list.state = .executing
  · have hnotWaiting : s.list.state ≠ .waiting := by
      rw [hexecuting]
      decide
    have hactive : ((s.step node e).child i).state ≠ .inactive := by
      intro hinactive'
      rcases step_eq_inactive hc hinactive' with hinactive | ⟨-, hwaiting⟩
      · rcases step_inactive_executing hc hinactive hexecuting with ⟨-, heq⟩ | ⟨-, heq⟩ <;>
          · rw [heq] at hinactive'
            contradiction
      · contradiction
    refine ⟨hactive, fun hwaiting' => ?_⟩
    rcases step_list_executing hlist hexecuting with heq | ⟨-, hout | hall⟩
    · rw [heq] at hclosing
      contradiction
    · rcases step_eq_waiting hc hwaiting' with hinactive | ⟨hnot, -⟩
      · rcases step_inactive_executing hc hinactive hexecuting with ⟨-, heq⟩ | ⟨hnot, -⟩
        · rw [heq] at hwaiting'
          contradiction
        · contradiction
      · contradiction
    · have hfinished : (s.child i).state = .finished :=
        of_decide_eq_true hall i (List.getElem?_eq_some_iff.mp hc).1
      rw [step_finished hc hfinished hnotWaiting, hfinished] at hwaiting'
      contradiction
  · cases hclosing' : s.list.state.isClosing with
    | false =>
      rcases @step_list_rest node e s hexecuting hclosing' with ⟨-, heq⟩ | ⟨-, hnot⟩
      · rw [heq] at hclosing
        contradiction
      · rw [hnot] at hclosing
        contradiction
    | true =>
      obtain ⟨hinactive, hwaiting⟩ := h.closing hclosing'
      constructor
      · intro hinactive'
        rcases step_eq_inactive hc hinactive' with heq | ⟨-, heq⟩
        · contradiction
        · rw [heq] at hclosing'
          contradiction
      · intro hwaiting'
        rcases step_eq_waiting hc hwaiting' with heq | ⟨-, heq | ⟨hended, -⟩⟩
        · contradiction
        · contradiction
        · apply step_ne_waiting_of_ended hc hrepeat hended hwaiting'

/-- A child which does not repeat stays at rest. -/
theorem AtRest.step (h : s.AtRest i) :
  (s.step node e).AtRest i
  where
  valid := step_ne_noNodeState hc h.valid
  closing := h.step_closing hlist hc hrepeat
  rest hexecuting' hclosing' := by
    by_cases hexecuting : s.list.state = .executing
    · rcases step_list_executing hlist hexecuting with heq | ⟨heq, -⟩
      · contradiction
      · rw [heq] at hclosing'
        contradiction
    · cases hclosing : s.list.state.isClosing with
      | false => exact (h.step_rest hc hexecuting hclosing).imp_right And.left
      | true =>
        rcases step_list_closing hlist hclosing with heq | ⟨hall, -⟩
        · rw [heq] at hclosing'
          contradiction
        · right
          have hi := (List.getElem?_eq_some_iff.mp hc).1
          have hfinished : (s.child i).state = .finished :=
            (of_decide_eq_true hall i hi).resolve_left (h.closing hclosing).2
          rw [step_finished hc hfinished]
          · exact hfinished
          · intro hwaiting
            rw [hwaiting] at hclosing
            contradiction

end

end Family

end Epx

end Plexil
