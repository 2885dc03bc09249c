import Plexil.Epx.OnCommandRuns

/-!
# The action starts after the delivery

A receiving node finishes successfully only when its value has been returned, unless its command
is first refused and then acknowledged with success.  The nodes which get the parameters start
when the handle of the command is known, and the action starts when they have succeeded.
-/

namespace Plexil.Epx

open StateMachine (Always Meets)

/-- No parameter has an initial value. -/
def OnCommandElement.NoInitialValues (t : OnCommandElement) : Prop :=
  ∀ p ∈ t.parameters, p.initialValue = false

theorem OnCommandElement.NoInitialValues.initiallyKnown {t : OnCommandElement}
    (h : t.NoInitialValues) (i : Nat) :
  t.initiallyKnown i = false
  := by
  cases i with
  | zero => rfl
  | succ i =>
    unfold OnCommandElement.initiallyKnown
    rw [← Bool.not_eq_true, Option.any_eq_true]
    rintro ⟨p, hp, hknown⟩
    rw [h p (List.mem_of_getElem? hp)] at hknown
    contradiction

namespace Reception

variable {t : OnCommandElement} {s : Reception}

/-- A command which has been refused stays refused. -/
def RefusalsFinal (t : OnCommandElement) (s : Reception) (e : Round) : Prop :=
  ∀ i ≤ t.nParams, s.Refused i → (s.receive e.arrivals).Refused i

/-! ### Arrivals -/

section

variable (arrivals : List Arrival) {i : Nat}

theorem logged_arrive (s : Reception) (a : Arrival) :
  (s.arrive a).logged = s.logged
  := by
  unfold arrive
  split <;> split <;> rfl

/-- What every arrival preserves. -/
theorem receive_invariant {P : Reception → Prop}
    (preserved : ∀ r a, r.logged = s.logged → P r → P (r.arrive a)) (h : P s) :
  P (s.receive arrivals)
  := by
  have hall : ∀ r : Reception, r.logged = s.logged → P r → P (r.receive arrivals) := by
    induction arrivals with
    | nil => exact fun r _ hr => hr
    | cons a arrivals ih =>
      intro r hlogged hr
      apply ih
      · rw [logged_arrive, hlogged]
      · apply preserved r a hlogged hr
  apply hall s rfl h

theorem logged_receive :
  (s.receive arrivals).logged = s.logged
  := by
  apply receive_invariant (P := fun r => r.logged = s.logged) arrivals _ rfl
  intro r a _ hr
  rw [logged_arrive, hr]

theorem family_receive :
  (s.receive arrivals).family = s.family
  := congrArg Logged.family (logged_receive arrivals)

theorem receive_assigned (h : s.assigned i = true) :
  (s.receive arrivals).assigned i = true
  := by
  apply receive_invariant (P := fun r => r.assigned i = true) arrivals _ h
  intro r a _ hr
  unfold arrive
  split
  · split <;> exact hr
  · rename_i j isKnown
    split
    · dsimp only
      rw [Function.update_apply]
      split
      · rfl
      · exact hr
    · exact hr

/-- A variable is known when its value has been assigned. -/
theorem receive_known (h : s.known i = true → s.assigned i = true) :
  (s.receive arrivals).known i = true → (s.receive arrivals).assigned i = true
  := by
  apply receive_invariant (P := fun r => r.known i = true → r.assigned i = true) arrivals _ h
  intro r a _ hr
  unfold arrive
  split
  · split <;> exact hr
  · rename_i j isKnown
    split
    · dsimp only
      rw [Function.update_apply, Function.update_apply]
      split
      · exact fun _ => rfl
      · exact hr
    · exact hr

/-- A command which is not active takes neither an acknowledgement nor a value. -/
theorem receive_idle (hidle : (s.family.child i).state.isActive = false) :
  (s.receive arrivals).handle i = s.handle i ∧ (s.receive arrivals).assigned i = s.assigned i ∧
    (s.receive arrivals).known i = s.known i
  := by
  apply receive_invariant (P := fun r => r.handle i = s.handle i ∧ r.assigned i = s.assigned i ∧
    r.known i = s.known i) arrivals _ ⟨rfl, rfl, rfl⟩
  intro r a hlogged hr
  have hsame : (r.family.child i).state.isActive = false := by
    unfold family
    rw [hlogged]
    exact hidle
  unfold arrive
  split
  · rename_i j value
    split
    · rename_i hactive
      have hne : i ≠ j := by
        rintro rfl
        rw [hsame] at hactive
        exact absurd hactive.1 Bool.false_ne_true
      dsimp only
      rw [Function.update_of_ne hne]
      exact hr
    · exact hr
  · rename_i j isKnown
    split
    · rename_i hactive
      have hne : i ≠ j := by
        rintro rfl
        rw [hsame] at hactive
        contradiction
      dsimp only
      rw [Function.update_of_ne hne, Function.update_of_ne hne]
      exact hr
    · exact hr

end

/-! ### The receiving nodes -/

/-- What holds of a receiving node.  The variable is unknown before the command is sent. -/
structure Receiving (t : OnCommandElement) (s : Reception) (i : Nat) : Prop where
  atRest : s.family.AtRest i
  idle : s.family.list.state = .executing →
    (s.family.child i).state = .inactive ∨ (s.family.child i).state = .waiting →
    s.known i = false
  assigned : s.known i = true → s.assigned i = true
  finishing : (s.family.child i).state = .finishing → s.assigned i = true ∨ s.Refused i
  success : (s.family.child i).outcome = .success → s.assigned i = true
  handled : 0 < i →
    (s.family.child i).state.isRunning = true ∨ (s.family.child i).outcome = .success →
    s.assigned 0 = true
  unsent : 0 < i → s.family.list.state = .executing →
    (s.family.child 0).state = .inactive ∨ (s.family.child 0).state = .waiting →
    (s.family.child i).state.isRunning = false ∧ (s.family.child i).outcome ≠ .success

/-- What holds of the receiving nodes. -/
structure Coherent (t : OnCommandElement) (s : Reception) : Prop where
  fresh : ∀ i, (s.family.child i).Fresh
  receiving : ∀ i ≤ t.nParams, s.Receiving t i

/-- What arrives keeps the receiving nodes coherent, when refusals are final. -/
theorem Coherent.receive {e : Round} (h : s.Coherent t) (hfinal : s.RefusalsFinal t e) :
  (s.receive e.arrivals).Coherent t
  where
  fresh := by
    rw [family_receive]
    exact h.fresh
  receiving i hi := by
    have hr := h.receiving i hi
    have hfamily : (s.receive e.arrivals).family = s.family := family_receive e.arrivals
    constructor
    · rw [hfamily]
      exact hr.atRest
    · rw [hfamily]
      intro hexecuting hidle
      have hnot : (s.family.child i).state.isActive = false := by
        rcases hidle with h | h <;>
          · rw [h]
            rfl
      rw [(receive_idle e.arrivals hnot).2.2]
      exact hr.idle hexecuting hidle
    · exact receive_known e.arrivals hr.assigned
    · rw [hfamily]
      intro hfinishing
      exact (hr.finishing hfinishing).imp (receive_assigned e.arrivals) (hfinal i hi)
    · rw [hfamily]
      intro hsuccess
      exact receive_assigned e.arrivals (hr.success hsuccess)
    · rw [hfamily]
      intro hpos hrunning
      exact receive_assigned e.arrivals (hr.handled hpos hrunning)
    · rw [hfamily]
      exact hr.unsent

/-! ### A batch -/

section

variable {e : Surroundings} {returns : Nat}

theorem family_batch :
  (s.batch t e returns).family = s.family.step t.node (s.surroundings t e)
  := rfl

theorem begins_iff {x x' : NodeStatus} :
  begins x x' = true ↔ x.state ≠ .executing ∧ x'.state = .executing
  := by
  unfold begins
  rw [decide_eq_true_iff]

theorem assigned_batch (i : Nat) :
  (s.batch t e returns).assigned i =
    if begins (s.family.child i) ((s.batch t e returns).family.child i) then false
    else s.assigned i
  := rfl

theorem handle_batch (i : Nat) :
  (s.batch t e returns).handle i =
    if begins (s.family.child i) ((s.batch t e returns).family.child i) then .noCommandHandle
    else s.handle i
  := rfl

theorem known_batch (i : Nat) :
  (s.batch t e returns).known i =
    if begins s.family.list (s.batch t e returns).family.list then t.initiallyKnown i
    else s.known i
  := rfl

/-- What a receiving node does in a batch. -/
theorem commandStep {i : Nat} (hi : i ≤ t.nParams) :
  ∃ c tested, t.Receives c i tested ∧ t.node.children[i]? = some c ∧
    CommandStep (s.family.childView t.node (s.surroundings t e) i c) (s.family.child i)
      ((s.batch t e returns).family.child i)
  := by
  obtain ⟨c, tested, hc, hreceives⟩ := t.exists_receives hi
  refine ⟨c, tested, hreceives, hc, ?_⟩
  rw [family_batch]
  apply Family.step_command hc hreceives.toIsCommand

namespace Coherent

variable (h : s.Coherent t) {i : Nat} (hi : i ≤ t.nParams)

include h hi

/-- A waiting receiver belongs to a list node which executes. -/
theorem executing_of_waiting (hwaiting : (s.family.child i).state = .waiting) :
  s.family.list.state = .executing
  := by
  have hrest := (h.receiving i hi).atRest
  by_contra hnot
  cases hclosing : s.family.list.state.isClosing with
  | true => apply (hrest.closing hclosing).2 hwaiting
  | false =>
    rcases hrest.rest hnot hclosing with heq | heq <;>
      · rw [hwaiting] at heq
        contradiction

/-- The variable of a command is unknown when the command is sent. -/
theorem unknown_of_begins
    (hbegins : begins (s.family.child i) ((s.batch t e returns).family.child i) = true) :
  s.family.list.state = .executing ∧ (s.family.child i).state = .waiting ∧ s.known i = false
  := by
  obtain ⟨c, tested, -, hc, -⟩ := @commandStep t s e returns i hi
  obtain ⟨hidle, hexecuting⟩ := begins_iff.mp hbegins
  have hwaiting := Family.step_eq_executing hc hexecuting hidle
  have hlist := h.executing_of_waiting hi hwaiting
  exact ⟨hlist, hwaiting, (h.receiving i hi).idle hlist (.inr hwaiting)⟩

omit hi in
theorem fresh_batch (j : Nat) :
  ((s.batch t e returns).family.child j).Fresh
  := by
  rw [family_batch]
  apply Family.fresh_step h.fresh

omit h in
theorem atRest_batch (hrest : s.family.AtRest i) :
  (s.batch t e returns).family.AtRest i
  := by
  obtain ⟨c, tested, hreceives, hc, -⟩ := @commandStep t s e returns i hi
  rw [family_batch]
  apply hrest.step t.nodeType_node hc hreceives.repeat

omit h in
/-- While the list node executes, a receiver which has not started has not been started before. -/
theorem idle_of_batch (hexecuting : s.family.list.state = .executing)
    (hidle : ((s.batch t e returns).family.child i).state = .inactive ∨
      ((s.batch t e returns).family.child i).state = .waiting) :
  (s.family.child i).state = .inactive ∨ (s.family.child i).state = .waiting
  := by
  obtain ⟨c, tested, hreceives, hc, -⟩ := @commandStep t s e returns i hi
  rcases hidle with hinactive | hwaiting
  · rcases Family.step_eq_inactive hc hinactive with heq | ⟨-, heq⟩
    · left
      exact heq
    · rw [show s.family.list.state = .waiting from heq] at hexecuting
      contradiction
  · rcases Family.step_eq_waiting hc hwaiting with heq | ⟨-, heq | ⟨hended, -⟩⟩
    · left
      exact heq
    · right
      exact heq
    · exact absurd hwaiting (Family.step_ne_waiting_of_ended hc hreceives.repeat hended)

theorem idle_batch (hinitial : t.NoInitialValues)
    (hexecuting : (s.batch t e returns).family.list.state = .executing)
    (hidle : ((s.batch t e returns).family.child i).state = .inactive ∨
      ((s.batch t e returns).family.child i).state = .waiting) :
  (s.batch t e returns).known i = false
  := by
  rw [known_batch]
  split
  · apply hinitial.initiallyKnown
  · rename_i hnot
    have hbefore : s.family.list.state = .executing := by
      by_contra hne
      apply hnot
      rw [begins_iff]
      exact ⟨hne, hexecuting⟩
    apply (h.receiving i hi).idle hbefore
    apply idle_of_batch hi hbefore hidle

theorem assigned_batch_of_known (hinitial : t.NoInitialValues)
    (hknown : (s.batch t e returns).known i = true) :
  (s.batch t e returns).assigned i = true
  := by
  rw [known_batch] at hknown
  split at hknown
  · rw [hinitial.initiallyKnown] at hknown
    contradiction
  · rw [assigned_batch]
    split
    · rename_i hbegins
      rw [(h.unknown_of_begins hi hbegins).2.2] at hknown
      contradiction
    · apply (h.receiving i hi).assigned hknown

omit h hi in
/-- The handle and the value of a command are kept unless it is sent. -/
theorem batch_of_ne (hne : ((s.batch t e returns).family.child i).state ≠ .executing) :
  (s.batch t e returns).assigned i = s.assigned i ∧
    (s.batch t e returns).handle i = s.handle i
  := by
  have hnot : ¬ begins (s.family.child i) ((s.batch t e returns).family.child i) = true := by
    rw [begins_iff]
    exact fun hbegins => hne hbegins.2
  rw [assigned_batch, handle_batch, if_neg hnot, if_neg hnot]
  exact ⟨rfl, rfl⟩

theorem finishing_batch
    (hfinishing : ((s.batch t e returns).family.child i).state = .finishing) :
  (s.batch t e returns).assigned i = true ∨ (s.batch t e returns).Refused i
  := by
  obtain ⟨c, tested, hreceives, hc, hstep⟩ := @commandStep t s e returns i hi
  have hr := h.receiving i hi
  obtain ⟨hassigned, hhandle⟩ := @batch_of_ne t s e returns i (by rw [hfinishing]; decide)
  unfold Refused
  rw [hassigned, hhandle]
  generalize (s.batch t e returns).family.child i = x' at hstep hfinishing
  cases hstep with
  | stays => apply hr.finishing hfinishing
  | ends _ hend =>
    rcases (end_iff hreceives hi).mp hend with hrefused | hknown
    · right
      exact hrefused
    · left
      apply hr.assigned hknown
  | wakes | skips | starts | succeeds | fails | finishes | resets => contradiction
  | parentExits next _ hnext => rcases hnext with rfl | rfl <;> contradiction
  | parentFails next _ hnext => rcases hnext with rfl | rfl <;> contradiction
  | aborted next _ hnext => rcases hnext with rfl | rfl <;> contradiction

omit hi in
/-- A child with an outcome is not idle. -/
theorem not_idle_of_success
    (hsuccess : ((s.batch t e returns).family.child i).outcome = .success) :
  ((s.batch t e returns).family.child i).state.isIdle = false
  := by
  rw [← Bool.not_eq_true]
  intro hidle
  rw [(@fresh_batch t s e returns h i hidle).1] at hsuccess
  contradiction

omit hi in
/-- An idle child has not succeeded. -/
theorem not_success_of_idle (hidle : (s.family.child i).state.isIdle = true) :
  (s.family.child i).outcome ≠ .success
  := by
  rw [(h.fresh i hidle).1]
  decide

theorem success_batch
    (hsuccess : ((s.batch t e returns).family.child i).outcome = .success) :
  (s.batch t e returns).assigned i = true
  := by
  obtain ⟨c, tested, hreceives, hc, hstep⟩ := @commandStep t s e returns i hi
  have hr := h.receiving i hi
  have hstate := h.not_idle_of_success hsuccess
  rw [(@batch_of_ne t s e returns i (fun heq => by rw [heq] at hstate; contradiction)).1]
  generalize (s.batch t e returns).family.child i = x' at hstep hsuccess
  cases hstep with
  | stays | finishes => apply hr.success hsuccess
  | aborted next _ _ => apply hr.success hsuccess
  | wakes hinactive =>
    exact absurd hsuccess (h.not_success_of_idle (by rw [hinactive]; rfl))
  | starts hwaiting =>
    exact absurd hsuccess (h.not_success_of_idle (by rw [hwaiting]; rfl))
  | ends hexecuting =>
    exact absurd hsuccess (h.not_success_of_idle (by rw [hexecuting]; rfl))
  | succeeds hfinishing _ hpost =>
    apply (hr.finishing hfinishing).resolve_right
    intro hrefused
    unfold Refused at hrefused
    rw [(post_iff hreceives hi).mp hpost] at hrefused
    contradiction
  | skips | fails | parentExits | parentFails | resets => contradiction

/-- A receiver which runs or has succeeded after a batch did so before, or its start condition is
true. -/
theorem running_before (hpos : 0 < i)
    (hruns : ((s.batch t e returns).family.child i).state.isRunning = true ∨
      ((s.batch t e returns).family.child i).outcome = .success) :
  ((s.family.child i).state.isRunning = true ∨ (s.family.child i).outcome = .success) ∨
    s.known 0 = true
  := by
  obtain ⟨c, tested, hreceives, hc, hstep⟩ := @commandStep t s e returns i hi
  have hidle : ∀ {state : NodeState}, (s.family.child i).state = state → state.isIdle = true →
      (s.family.child i).outcome ≠ .success :=
    fun hstate htrue => h.not_success_of_idle (by rw [hstate]; exact htrue)
  generalize (s.batch t e returns).family.child i = x' at hstep hruns
  cases hstep with
  | stays => exact .inl hruns
  | wakes hinactive =>
    rcases hruns with hruns | hruns
    · contradiction
    · exact absurd hruns (hidle hinactive rfl)
  | skips => rcases hruns with hruns | hruns <;> contradiction
  | starts _ hstart => exact .inr ((start_iff hreceives hpos).mp hstart)
  | ends hstate | succeeds hstate | fails hstate | finishes hstate =>
    left; left
    rw [hstate]
    rfl
  | parentExits _ hrunning | parentFails _ hrunning => exact .inl (.inl hrunning)
  | aborted _ hstate =>
    left; left
    rw [hstate]
    rfl
  | resets => rcases hruns with hruns | hruns <;> contradiction

theorem handled_batch (hpos : 0 < i)
    (hruns : ((s.batch t e returns).family.child i).state.isRunning = true ∨
      ((s.batch t e returns).family.child i).outcome = .success) :
  (s.batch t e returns).assigned 0 = true
  := by
  have hr := h.receiving i hi
  have hbefore := h.running_before hi hpos hruns
  rw [assigned_batch]
  split
  · rename_i hbegins
    obtain ⟨hexecuting, hwaiting, hunknown⟩ := h.unknown_of_begins (Nat.zero_le _) hbegins
    obtain ⟨hnot, hne⟩ := hr.unsent hpos hexecuting (.inr hwaiting)
    rcases hbefore with (hrunning | hsuccess) | hknown
    · rw [hnot] at hrunning
      contradiction
    · contradiction
    · rw [hunknown] at hknown
      contradiction
  · rcases hbefore with hbefore | hknown
    · apply hr.handled hpos hbefore
    · apply (h.receiving 0 (Nat.zero_le _)).assigned hknown

theorem unsent_batch (hpos : 0 < i)
    (hexecuting : (s.batch t e returns).family.list.state = .executing)
    (hidle : ((s.batch t e returns).family.child 0).state = .inactive ∨
      ((s.batch t e returns).family.child 0).state = .waiting) :
  ((s.batch t e returns).family.child i).state.isRunning = false ∧
    ((s.batch t e returns).family.child i).outcome ≠ .success
  := by
  have hr := h.receiving i hi
  by_cases hbefore : s.family.list.state = .executing
  · have hwait := idle_of_batch (Nat.zero_le _) hbefore hidle
    obtain ⟨hnot, hne⟩ := hr.unsent hpos hbefore hwait
    have hunknown := (h.receiving 0 (Nat.zero_le _)).idle hbefore hwait
    have hall : ¬ (((s.batch t e returns).family.child i).state.isRunning = true ∨
        ((s.batch t e returns).family.child i).outcome = .success) := by
      intro hruns
      rcases h.running_before hi hpos hruns with (hrunning | hsuccess) | hknown
      · rw [hnot] at hrunning
        contradiction
      · contradiction
      · rw [hunknown] at hknown
        contradiction
    rw [not_or, Bool.not_eq_true] at hall
    exact hall
  · obtain ⟨c, tested, hreceives, hc, -⟩ := @commandStep t s e returns i hi
    have hwaiting := Family.waiting_of_opens t.nodeType_node hbefore hexecuting
    have hinactive := (hr.atRest.step_opens hc hbefore hexecuting (by
      rw [hwaiting]
      rfl)).2
    have hfresh := @fresh_batch t s e returns h i
    rw [family_batch] at hfresh ⊢
    have hidle' : ((s.family.step t.node (s.surroundings t e)).child i).state.isIdle = true := by
      rw [hinactive]
      rfl
    constructor
    · rw [hinactive]
      rfl
    · rw [(hfresh hidle').1]
      decide

omit hi in
theorem batch (hinitial : t.NoInitialValues) :
  (s.batch t e returns).Coherent t
  where
  fresh := h.fresh_batch
  receiving i hi :=
    { atRest := atRest_batch hi (h.receiving i hi).atRest
      idle := h.idle_batch hi hinitial
      assigned := h.assigned_batch_of_known hi hinitial
      finishing := h.finishing_batch hi
      success := h.success_batch hi
      handled := h.handled_batch hi
      unsent := h.unsent_batch hi }

end Coherent

end

end Reception

end Plexil.Epx
