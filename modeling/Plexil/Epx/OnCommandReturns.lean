import Plexil.Epx.OnCommandFailures
import Plexil.Epx.SequenceOrdering

/-!
# One return value for every command

The node which is added when the action sends no return value starts once in every iteration which
is not cut short, after the action.  An action which sends return values itself has to send one.
-/

namespace Plexil.Epx

open StateMachine (Always Meets)

namespace Reception

variable {t : OnCommandElement} {s : Reception}

/-- An action which sends return values has sent one when it is finished. -/
def SendsOnce (t : OnCommandElement) (s : Reception) : Prop :=
  t.sends = true → s.family.list.state.isRunning = true →
    (s.family.child (t.nParams + 1)).state = .finished → s.returned = 1

/-- The node is not cut short, and the action sends one return value if it sends any. -/
def Unhindered (t : OnCommandElement) (s : Reception) (e : Surroundings) : Prop :=
  s.family.NotCutShort t.node (s.surroundings t e) ∧ s.SendsOnce t

/-- What holds of the return values.  While the node runs, the one which is added has been sent
when its node has started. -/
structure Returning (t : OnCommandElement) (s : Reception) : Prop where
  orderly : s.logged.Orderly t.node
  opened : t.sends = false →
    s.family.list.state = .executing ∨ s.family.list.state = .finishing →
    s.returned = if (s.family.child (t.nParams + 2)).state = .inactive ∨
      (s.family.child (t.nParams + 2)).state = .waiting then 0 else 1
  rested : s.family.list.state ≠ .executing → s.family.list.state ≠ .finishing →
    s.assigned 0 = true → s.returned = 1

namespace Returning

variable (h : s.Returning t)

include h

/-- A node which neither executes nor is about to finish is at rest. -/
theorem not_closing (hfinishing : s.family.list.state ≠ .finishing) :
  s.family.list.state.isClosing = false
  := by
  rw [← Bool.not_eq_true]
  intro hclosing
  apply hfinishing (h.orderly.finishing_of_closing hclosing)

theorem receive (arrivals : List Arrival) :
  (s.receive arrivals).Returning t
  := by
  have hreturned : (s.receive arrivals).returned = s.returned := by
    apply receive_invariant (P := fun r => r.returned = s.returned) arrivals _ rfl
    intro r a _ hr
    unfold arrive
    split <;> split <;> exact hr
  have hfamily : (s.receive arrivals).family = s.family := family_receive arrivals
  constructor
  · rw [logged_receive]
    exact h.orderly
  · rw [hfamily, hreturned]
    exact h.opened
  · rw [hfamily, hreturned]
    intro hexecuting hfinishing hassigned
    apply h.rested hexecuting hfinishing
    have hidle : (s.family.child 0).state.isActive = false := by
      have hlength : 0 < t.node.children.length := by
        rw [t.length_children]
        omega
      rcases h.orderly.rest hexecuting (h.not_closing hfinishing) 0 hlength with heq | heq <;>
        · rw [show (s.family.child 0).state = _ from heq]
          rfl
    rw [← (receive_idle arrivals hidle).2.1]
    exact hassigned

section

variable {e : Surroundings} {returns : Nat}
variable (hend : t.node.condition .end = none)
variable (hhindered : s.Unhindered t e)

omit h in
theorem returned_batch :
  (s.batch t e returns).returned =
    if begins s.family.list (s.batch t e returns).family.list then 0
    else
      s.returned +
        (if !t.sends && begins (s.family.child (t.nParams + 2))
          ((s.batch t e returns).family.child (t.nParams + 2)) then 1 else 0) +
        if t.actionSends && (s.family.child (t.nParams + 1)).state.isRunning then returns else 0
  := rfl

omit h in
/-- When the node has been executing, the added return value is counted when its node starts. -/
theorem returned_batch_executing (hsends : t.sends = false) (hnone : t.actionSends = false)
    (hexecuting : s.family.list.state = .executing) :
  (s.batch t e returns).returned = s.returned +
    if begins (s.family.child (t.nParams + 2))
      ((s.batch t e returns).family.child (t.nParams + 2)) then 1 else 0
  := by
  have hopens : begins s.family.list (s.batch t e returns).family.list = false := by
    rw [← Bool.not_eq_true, begins_iff]
    exact fun hopens => hopens.1 hexecuting
  rw [returned_batch, hopens, hsends, hnone]
  simp

include hend hhindered

/-- The node which sends the return value while the list node executes. -/
theorem opened_batch_executing (hsends : t.sends = false) (hnone : t.actionSends = false)
    (hexecuting : s.family.list.state = .executing) :
  (s.batch t e returns).returned =
    if ((s.batch t e returns).family.child (t.nParams + 2)).state = .inactive ∨
      ((s.batch t e returns).family.child (t.nParams + 2)).state = .waiting then 0 else 1
  := by
  have hout : ¬ s.family.ChildrenOut t.node (s.surroundings t e) :=
    Logged.not_childrenOut (t := s.logged) hend hhindered.1
  have hbefore := h.opened hsends (.inl hexecuting)
  rw [returned_batch_executing hsends hnone hexecuting]
  have hstep : CommandStep (s.family.childView t.node (s.surroundings t e) (t.nParams + 2)
      t.returnNode.core) (s.family.child (t.nParams + 2))
      ((s.batch t e returns).family.child (t.nParams + 2)) := by
    rw [family_batch]
    apply Family.step_command (t.getElem?_return hsends) t.isCommand_returnNode
  generalize (s.batch t e returns).family.child (t.nParams + 2) = x' at hstep
  have hparent : (s.family.childView t.node (s.surroundings t e) (t.nParams + 2)
      t.returnNode.core).parentState = some .executing := congrArg some hexecuting
  generalize s.family.child (t.nParams + 2) = x at hstep hbefore
  have hrunning : x.state.isRunning = true → s.returned = 1 := by
    intro hrunning
    rw [hbefore, if_neg]
    rintro (heq | heq) <;>
      · rw [heq] at hrunning
        contradiction
  cases hstep with
  | stays =>
    rw [hbefore]
    simp [begins]
  | wakes hstate | starts hstate =>
    rw [hbefore, hstate]
    simp [begins, hstate]
  | skips _ hskips =>
    rcases hskips with hskips | ⟨-, hfinished⟩
    · contradiction
    · rw [hparent] at hfinished
      contradiction
  | ends hstate | succeeds hstate | fails hstate | finishes hstate =>
    rw [hrunning (by rw [hstate]; rfl)]
    simp [begins]
  | parentExits next hruns hnext | parentFails next hruns hnext =>
    rw [hrunning hruns]
    rcases hnext with rfl | rfl <;> simp [begins]
  | aborted next hstate hnext =>
    rw [hrunning (by rw [hstate]; rfl)]
    rcases hnext with rfl | rfl <;> simp [begins]
  | resets _ hwaiting =>
    rw [hparent] at hwaiting
    contradiction

omit hend hhindered in
/-- The node which sends the return value when the list node starts to execute. -/
theorem opened_batch_opens (hsends : t.sends = false)
    (hexecuting : s.family.list.state ≠ .executing)
    (hopens : (s.batch t e returns).family.list.state = .executing) :
  (s.batch t e returns).returned = 0 ∧
    ((s.batch t e returns).family.child (t.nParams + 2)).state = .inactive
  := by
  have hbegins : begins s.family.list (s.batch t e returns).family.list = true :=
    begins_iff.mpr ⟨hexecuting, hopens⟩
  have hlength : t.nParams + 2 < t.node.children.length := by
    rw [t.length_children, hsends, if_neg Bool.false_ne_true]
    omega
  have hwaiting := Family.waiting_of_opens t.nodeType_node hexecuting hopens
  refine ⟨?_, ?_⟩
  · rw [returned_batch, hbegins, if_pos rfl]
  · rw [family_batch]
    apply h.orderly.step_started hexecuting _ hopens _ hlength
    rw [show s.logged.family.list.state = .waiting from hwaiting]
    rfl

theorem opened_batch (hsends : t.sends = false) (hnone : t.actionSends = false)
    (hopened : (s.batch t e returns).family.list.state = .executing ∨
      (s.batch t e returns).family.list.state = .finishing) :
  (s.batch t e returns).returned =
    if ((s.batch t e returns).family.child (t.nParams + 2)).state = .inactive ∨
      ((s.batch t e returns).family.child (t.nParams + 2)).state = .waiting then 0 else 1
  := by
  by_cases hexecuting : s.family.list.state = .executing
  · apply h.opened_batch_executing hend hhindered hsends hnone hexecuting
  · have hopens : (s.batch t e returns).family.list.state = .executing := by
      apply hopened.resolve_right
      intro hfinishing
      apply hexecuting
      exact ((h.orderly.list_step t.nodeType_node hend hhindered.1).1 hfinishing).1
    obtain ⟨hzero, hinactive⟩ := h.opened_batch_opens hsends hexecuting hopens
    rw [hzero, hinactive, if_pos (.inl rfl)]

omit hend in
/-- When the node ends the iteration, the return value has been sent. -/
theorem returned_of_finishing (hfinishing : s.family.list.state = .finishing) :
  s.returned = 1
  := by
  have hall := h.orderly.finishing hfinishing
  have hlength := t.length_children
  cases hown : t.sends with
  | true =>
    apply hhindered.2 hown
    · rw [hfinishing]
      rfl
    · apply hall
      omega
  | false =>
    have hfinished : (s.family.child (t.nParams + 2)).state = .finished := by
      apply hall
      rw [hlength, hown, if_neg Bool.false_ne_true]
      omega
    rw [h.opened hown (.inr hfinishing), hfinished]
    rfl

omit h hend hhindered in
/-- While all children are inactive or finished no return value is sent. -/
theorem returned_batch_of_quiet (hopens : (s.batch t e returns).family.list.state ≠ .executing)
    (hquiet : ∀ i < t.node.children.length, (s.family.child i).state = .inactive ∨
      (s.family.child i).state = .finished) :
  (s.batch t e returns).returned = s.returned
  := by
  have hlength := t.length_children
  have hlist : begins s.family.list (s.batch t e returns).family.list = false := by
    rw [← Bool.not_eq_true, begins_iff]
    exact fun hbegins => hopens hbegins.2
  have hreturn : (!t.sends && begins (s.family.child (t.nParams + 2))
      ((s.batch t e returns).family.child (t.nParams + 2))) = false := by
    cases hsends : t.sends with
    | true => rfl
    | false =>
      rw [hsends, if_neg Bool.false_ne_true] at hlength
      rw [Bool.not_false, Bool.true_and, ← Bool.not_eq_true, begins_iff]
      rintro ⟨hidle, hexecuting⟩
      have hwaiting : (s.family.child (t.nParams + 2)).state = .waiting :=
        Family.step_eq_executing (t.getElem?_return hsends) hexecuting hidle
      rcases hquiet (t.nParams + 2) (by omega) with heq | heq <;>
        · rw [hwaiting] at heq
          contradiction
  have haction : (s.family.child (t.nParams + 1)).state.isRunning = false := by
    rcases hquiet (t.nParams + 1) (by omega) with heq | heq <;>
      · rw [heq]
        rfl
  rw [returned_batch, hlist, hreturn, haction, Bool.and_false]
  rfl

theorem rested_batch (hexecuting' : (s.batch t e returns).family.list.state ≠ .executing)
    (hfinishing' : (s.batch t e returns).family.list.state ≠ .finishing)
    (hassigned : (s.batch t e returns).assigned 0 = true) :
  (s.batch t e returns).returned = 1
  := by
  by_cases hexecuting : s.family.list.state = .executing
  · have hnext : (s.batch t e returns).family.list.state =
        if s.family.allFinished t.node = true then .finishing else .executing :=
      Logged.step_executing t.nodeType_node hend hhindered.1 hexecuting
    split at hnext
    · contradiction
    · contradiction
  · by_cases hfinishing : s.family.list.state = .finishing
    · rw [returned_batch_of_quiet hexecuting']
      · apply h.returned_of_finishing hhindered hfinishing
      · exact fun i hi => .inr (h.orderly.finishing hfinishing i hi)
    · rw [returned_batch_of_quiet hexecuting']
      · apply h.rested hexecuting hfinishing
        rw [assigned_batch] at hassigned
        split at hassigned
        · contradiction
        · exact hassigned
      · exact h.orderly.rest hexecuting (h.not_closing hfinishing)

theorem batch (hnone : t.sends = false → t.actionSends = false) :
  (s.batch t e returns).Returning t
  where
  orderly := h.orderly.step t.nodeType_node hend hhindered.1
  opened hsends := h.opened_batch hend hhindered hsends (hnone hsends)
  rested := h.rested_batch hend hhindered

end

end Returning

end Reception

/-! ### An OnCommand delivers -/

end Plexil.Epx
