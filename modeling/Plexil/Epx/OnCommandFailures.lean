import Plexil.Epx.OnCommandDelivery

/-!
# The causes of a failure

The post condition of a receiving node is looked at when the node is FINISHING and its command has
a handle.  It fails when the handle is one which only reports the progress of the command, and when
the command has been refused.  The other generated nodes fail only after a sibling has failed.
-/

namespace Plexil.Epx

open StateMachine (Always Meets)

namespace Reception

variable {t : OnCommandElement} {s : Reception}

/-- The invariant conditions of the plan are not false, neither those of the ancestors nor the one
of the `OnCommand`. -/
def InvariantsKept (t : OnCommandElement) (s : Reception) (e : Surroundings) : Prop :=
  e.ancestor.invariant.isFalse = false ∧
    ∀ own ∈ select t.action.conditions .invariant,
      CoreExpr.eval (s.family.listValuation t.node (s.surroundings t e)) own ≠ some false

/-- The children which are generated, the receiving nodes and the one which sends a return
value. -/
def Generated (t : OnCommandElement) (i : Nat) : Prop :=
  i ≤ t.nParams ∨ (t.sends = false ∧ i = t.nParams + 2)

/-- A receiving node has failed, or the action has. -/
def Blamed (t : OnCommandElement) (s : Reception) : Prop :=
  (∃ i ≤ t.nParams, (s.family.child i).state = .finished ∧
    (s.family.child i).failureType = .postConditionFailed) ∨
    (s.family.child (t.nParams + 1)).failed = true

/-- What holds of a generated node.  The post condition of the node which sends a return value
cannot fail. -/
structure Accounted (t : OnCommandElement) (s : Reception) (i : Nat) : Prop where
  atRest : s.family.AtRest i
  refused : (s.family.child i).failureType = .postConditionFailed → i ≤ t.nParams ∧ s.Refused i
  ended : (s.family.child i).failureType = .postConditionFailed →
    (s.family.child i).state = .iterationEnded ∨ (s.family.child i).state = .finished
  outcome : (s.family.child i).outcome = .failure →
    (s.family.child i).failureType = .parentFailed ∨
      (s.family.child i).failureType = .postConditionFailed
  caused : s.family.list.state.isRunning = true →
    (s.family.child i).failureType = .parentFailed → s.Blamed t

structure Accountable (t : OnCommandElement) (s : Reception) : Prop where
  fresh : ∀ i, (s.family.child i).Fresh
  accounted : ∀ i, Generated t i → s.Accounted t i

theorem Accountable.receive (arrivals : List Arrival) (h : s.Accountable t) :
  (s.receive arrivals).Accountable t
  where
  fresh := by
    rw [family_receive]
    exact h.fresh
  accounted i hi := by
    have ha := h.accounted i hi
    have hfamily : (s.receive arrivals).family = s.family := family_receive arrivals
    constructor
    · rw [hfamily]
      exact ha.atRest
    · rw [hfamily]
      intro hfailed
      have hidle : (s.family.child i).state.isActive = false := by
        rcases ha.ended hfailed with h | h <;>
          · rw [h]
            rfl
      unfold Refused
      rw [(receive_idle arrivals hidle).1]
      exact ha.refused hfailed
    · rw [hfamily]
      exact ha.ended
    · rw [hfamily]
      exact ha.outcome
    · unfold Blamed
      rw [hfamily]
      exact ha.caused

/-! ### The invariant condition -/

theorem condition_invariant (t : OnCommandElement) :
  t.node.condition .invariant =
    some (successInvariantCondition (select t.action.conditions .invariant)).2
  := by
  have hnone : (t.action.conditions.filter fun element =>
      element.1 ≠ .invariant).lookup .invariant = none := by
    rw [List.lookup_eq_none_iff]
    intro element helement
    have := (List.mem_filter.mp helement).2
    simpa using Ne.symm (of_decide_eq_true this)
  change ((t.action.conditions.filter fun element => element.1 ≠ .invariant) ++
    [successInvariantCondition (select t.action.conditions .invariant)]).lookup .invariant = _
  rw [List.lookup_append, hnone]
  rfl

/-- The invariant condition of the translation is false only when one of the plan is, or when a
child has failed. -/
theorem childFailed_of_invariant {e : Surroundings} (hkept : s.InvariantsKept t e)
    (hfalse : (s.family.childAncestors t.node (s.surroundings t e)).invariant.isFalse = true) :
  s.family.childFailed t.node = true
  := by
  have hown : (t.node.value (s.family.listValuation t.node (s.surroundings t e))
      .invariant).isFalse = true := by
    rcases (Family.combine_and_isFalse _ _).mp hfalse with h | h
    · exact h
    · have hancestor : e.ancestor.invariant.isFalse = true := h
      rw [hkept.1] at hancestor
      contradiction
  have hself : CoreExpr.eval (s.family.listValuation t.node (s.surroundings t e))
      (.noChildFailed .self) = some !(s.family.childFailed t.node) := rfl
  have hno : CoreExpr.eval (s.family.listValuation t.node (s.surroundings t e))
      (.noChildFailed .self) = some false := by
    unfold CoreNode.value at hown
    rw [condition_invariant] at hown
    unfold Condition.isFalse at hown
    rw [Option.map_some, decide_eq_true_iff, Option.some_inj] at hown
    unfold successInvariantCondition at hown
    dsimp only at hown
    split at hown
    · exact hown
    · rw [CoreExpr.eval, CoreExpr.evalAnd_eq_false] at hown
      obtain ⟨own, hmem, hfalse⟩ := hown
      rcases List.mem_append.mp hmem with hmem | hmem
      · exact absurd hfalse (hkept.2 own hmem)
      · rw [List.mem_singleton.mp hmem] at hfalse
        exact hfalse
  rw [hself] at hno
  simpa using hno

/-! ### A batch -/

section

variable {e : Surroundings} {returns : Nat} {i : Nat}

/-- What a generated node does in a batch. -/
theorem generated_commandStep (hi : Generated t i) :
  ∃ c, c.IsCommand ∧ t.node.children[i]? = some c ∧
    (t.nParams < i → c.condition .post = none) ∧
    CommandStep (s.family.childView t.node (s.surroundings t e) i c) (s.family.child i)
      ((s.batch t e returns).family.child i)
  := by
  rcases hi with hi | ⟨hsends, rfl⟩
  · obtain ⟨c, tested, hreceives, hc, hstep⟩ := @commandStep t s e returns i hi
    exact ⟨c, hreceives.toIsCommand, hc, fun h => absurd hi (Nat.not_le_of_lt h), hstep⟩
  · refine ⟨_, t.isCommand_returnNode, t.getElem?_return hsends, fun _ => rfl, ?_⟩
    rw [family_batch]
    apply Family.step_command (t.getElem?_return hsends) t.isCommand_returnNode

/-- Who is to blame stays so while the list node runs. -/
theorem Blamed.batch (h : s.Blamed t) (hrunning : s.family.list.state.isRunning = true) :
  (s.batch t e returns).Blamed t
  := by
  have hwaiting : s.family.list.state ≠ .waiting := by
    intro heq
    rw [heq] at hrunning
    contradiction
  rcases h with ⟨i, hi, hfinished, hfailed⟩ | haction
  · left
    obtain ⟨c, tested, hc, -⟩ := t.exists_receives hi
    refine ⟨i, hi, ?_⟩
    rw [family_batch, Family.step_finished hc hfinished hwaiting]
    exact ⟨hfinished, hfailed⟩
  · right
    have hfinished : (s.family.child (t.nParams + 1)).state = .finished := by
      unfold NodeStatus.failed at haction
      exact (of_decide_eq_true haction).1
    rw [family_batch, Family.step_finished t.getElem?_action hfinished hwaiting]
    exact haction

namespace Accountable

variable (h : s.Accountable t)

include h

/-- When a child of the running node has failed, somebody is to blame. -/
theorem blamed (hrunning : s.family.list.state.isRunning = true)
    (hfailed : s.family.childFailed t.node = true) :
  s.Blamed t
  := by
  obtain ⟨i, hi, hfailed⟩ := of_decide_eq_true hfailed
  unfold NodeStatus.failed at hfailed
  obtain ⟨hfinished, hfailure⟩ := of_decide_eq_true hfailed
  by_cases haction : i = t.nParams + 1
  · right
    rw [← haction]
    exact decide_eq_true ⟨hfinished, hfailure⟩
  · have hgenerated : Generated t i := by
      rw [t.length_children] at hi
      cases hsends : t.sends with
      | true =>
        rw [hsends, if_pos rfl] at hi
        left
        omega
      | false =>
        rw [hsends, if_neg Bool.false_ne_true] at hi
        by_cases hle : i ≤ t.nParams
        · left
          exact hle
        · right
          exact ⟨hsends, by omega⟩
    have ha := h.accounted i hgenerated
    rcases ha.outcome hfailure with hparent | hpost
    · apply ha.caused hrunning hparent
    · left
      exact ⟨i, (ha.refused hpost).1, hfinished, hpost⟩

theorem fresh_batch (j : Nat) :
  ((s.batch t e returns).family.child j).Fresh
  := by
  rw [family_batch]
  apply Family.fresh_step h.fresh

variable (hi : Generated t i)

include hi

/-- Where a failure of the post condition comes from. -/
theorem postFailed_batch
    (hfailed : ((s.batch t e returns).family.child i).failureType = .postConditionFailed) :
  (((s.batch t e returns).family.child i).state = .iterationEnded ∨
      ((s.batch t e returns).family.child i).state = .finished) ∧
    ((s.family.child i).failureType = .postConditionFailed ∨
      (i ≤ t.nParams ∧ (s.family.child i).state = .finishing ∧
        s.handle i ≠ .noCommandHandle ∧ s.handle i ≠ .success))
  := by
  obtain ⟨c, hcommand, hc, hpost, hstep⟩ := @generated_commandStep t s e returns i hi
  have ha := h.accounted i hi
  have hold : ∀ {state : NodeState}, (s.family.child i).state = state →
      (s.family.child i).failureType = .postConditionFailed →
      state = .iterationEnded ∨ state = .finished := by
    intro state hstate hfailed
    rw [← hstate]
    apply ha.ended hfailed
  generalize (s.batch t e returns).family.child i = x' at hstep hfailed
  cases hstep with
  | stays => exact ⟨ha.ended hfailed, .inl hfailed⟩
  | wakes hstate | starts hstate | ends hstate | succeeds hstate =>
    rcases hold hstate hfailed with heq | heq <;> contradiction
  | aborted next hstate => rcases hold hstate hfailed with heq | heq <;> contradiction
  | skips _ => exact ⟨.inr rfl, .inl hfailed⟩
  | finishes _ => exact ⟨.inr rfl, .inl hfailed⟩
  | fails hfinishing hcomplete hfalse =>
    refine ⟨.inl rfl, ?_⟩
    right
    rcases hi with hi | ⟨-, rfl⟩
    · obtain ⟨c', tested, hc', hreceives⟩ := t.exists_receives hi
      rw [hc] at hc'
      cases hc'
      refine ⟨hi, hfinishing, (complete_iff hreceives hi).mp hcomplete, ?_⟩
      intro hsuccess
      rw [(post_iff hreceives hi).mpr hsuccess] at hfalse
      contradiction
    · have hnone := hpost (by omega)
      dsimp only [Family.childView, CoreNode.view, CoreNode.value] at hfalse
      rw [hnone] at hfalse
      contradiction
  | parentExits | parentFails | resets => contradiction

theorem outcome_batch
    (hfailure : ((s.batch t e returns).family.child i).outcome = .failure) :
  ((s.batch t e returns).family.child i).failureType = .parentFailed ∨
    ((s.batch t e returns).family.child i).failureType = .postConditionFailed
  := by
  obtain ⟨c, hcommand, hc, hpost, hstep⟩ := @generated_commandStep t s e returns i hi
  have ha := h.accounted i hi
  generalize (s.batch t e returns).family.child i = x' at hstep hfailure
  cases hstep with
  | stays | wakes | starts | ends | finishes => apply ha.outcome hfailure
  | aborted => apply ha.outcome hfailure
  | fails => exact .inr rfl
  | parentFails => exact .inl rfl
  | skips | succeeds | parentExits | resets => contradiction

theorem refused_batch
    (hprogress : i ≤ t.nParams → (s.family.child i).state = .finishing →
      s.handle i = .noCommandHandle ∨ s.handle i = .success ∨ s.Refused i)
    (hfailed : ((s.batch t e returns).family.child i).failureType = .postConditionFailed) :
  i ≤ t.nParams ∧ (s.batch t e returns).Refused i
  := by
  obtain ⟨hstate, hbefore⟩ := h.postFailed_batch hi hfailed
  have hne : ((s.batch t e returns).family.child i).state ≠ .executing := by
    rcases hstate with heq | heq <;>
      · rw [heq]
        decide
  unfold Refused
  rw [(Coherent.batch_of_ne hne).2]
  rcases hbefore with hbefore | ⟨hle, hfinishing, hnone, hsuccess⟩
  · apply (h.accounted i hi).refused hbefore
  · refine ⟨hle, ?_⟩
    rcases hprogress hle hfinishing with heq | heq | hrefused
    · contradiction
    · contradiction
    · exact hrefused

theorem caused_batch (hkept : s.InvariantsKept t e)
    (hrunning : (s.batch t e returns).family.list.state.isRunning = true)
    (hparent : ((s.batch t e returns).family.child i).failureType = .parentFailed) :
  (s.batch t e returns).Blamed t
  := by
  obtain ⟨c, hcommand, hc, hpost, hstep⟩ := @generated_commandStep t s e returns i hi
  have ha := h.accounted i hi
  cases hbefore : s.family.list.state.isRunning with
  | false =>
    have hwaiting : s.family.list.state = .waiting :=
      Logged.waiting_of_running hbefore hrunning
    have hinactive : ((s.batch t e returns).family.child i).state = .inactive := by
      rcases ha.atRest.step_rest hc (by rw [hwaiting]; decide) (by rw [hwaiting]; rfl) with
        heq | ⟨-, hnot⟩
      · exact heq
      · contradiction
    rw [(@fresh_batch t s e returns h i (by rw [hinactive]; rfl)).2] at hparent
    contradiction
  | true =>
    have hblamed : s.Blamed t := by
      generalize (s.batch t e returns).family.child i = x' at hstep hparent
      cases hstep with
      | parentFails next _ _ hinvariant =>
        apply h.blamed hbefore (childFailed_of_invariant hkept hinvariant)
      | stays | wakes | skips | starts | ends | succeeds | finishes =>
        apply ha.caused hbefore hparent
      | aborted => apply ha.caused hbefore hparent
      | fails | parentExits | resets => contradiction
    apply hblamed.batch hbefore

omit hi in
theorem batch (hkept : s.InvariantsKept t e)
    (hprogress : ∀ i ≤ t.nParams, (s.family.child i).state = .finishing →
      s.handle i = .noCommandHandle ∨ s.handle i = .success ∨ s.Refused i) :
  (s.batch t e returns).Accountable t
  where
  fresh := h.fresh_batch
  accounted i hi :=
    { atRest := by
        obtain ⟨c, hcommand, hc, -⟩ := @generated_commandStep t s e returns i hi
        rw [family_batch]
        apply (h.accounted i hi).atRest.step t.nodeType_node hc hcommand.repeat
      refused := h.refused_batch hi (hprogress i)
      ended := fun hfailed => (h.postFailed_batch hi hfailed).1
      outcome := h.outcome_batch hi
      caused := h.caused_batch hi hkept }

end Accountable

end

end Reception

end Plexil.Epx
