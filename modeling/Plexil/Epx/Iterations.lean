import Plexil.Epx.Uncut
import Mathlib.Data.Finset.Card
import Mathlib.Data.Finset.Range

/-!
# The iterations of a list node

A list node without an end condition of its own, which is not cut short, executes until all
its children are finished.  The children which start in an iteration are logged, in the order
in which they start.  A child which has not started in an iteration is still to start, or it
has been skipped.
-/

namespace Plexil

/-! ### Nodes which have no outcome yet -/

/-- The states in which a node has no outcome. -/
def NodeState.isIdle : NodeState → Bool
  | inactive | waiting | executing => true
  | _ => false

namespace NodeStatus

/-- A node has no outcome before it ends. -/
def Fresh (x : NodeStatus) : Prop :=
  x.state.isIdle = true → x.outcome = .noOutcome ∧ x.failureType = .noFailure

/-- A node which did not start. -/
def skippedStatus : NodeStatus := ⟨.finished, .skipped, .noFailure⟩

end NodeStatus

/-- A node comes to an idle state from an idle one, or it loses its outcome. -/
theorem destState_idle {v : NodeView} {d : Dest} (hdest : destState v = some d)
    (hidle : d.state.isIdle = true) :
  d.outcome = none ∧ (v.state.isIdle = true ∨ v.state = .finished ∨
    (v.state = .iterationEnded ∧ d.state = .waiting))
  := by
  have hlegal := destState_legal hdest
  unfold destState at hdest
  cases hstate : v.state with
  | inactive =>
    rw [hstate] at hdest
    unfold getDestStateFromInactive at hdest
    refine ⟨?_, .inl rfl⟩
    grind [Dest.skipped, NodeState.isIdle]
  | waiting =>
    rw [hstate] at hdest
    unfold getDestStateFromWaiting at hdest
    refine ⟨?_, .inl rfl⟩
    grind [Dest.skipped, NodeState.isIdle]
  | iterationEnded =>
    rw [hstate] at hdest
    unfold getDestStateFromIterationEnded at hdest
    grind [NodeState.isIdle]
  | finished =>
    rw [hstate] at hdest
    unfold getDestStateFromFinished at hdest
    refine ⟨?_, .inr (.inl rfl)⟩
    grind
  | executing | finishing | failing | noNodeState =>
    rw [hstate] at hlegal
    revert hlegal hidle
    cases v.nodeType <;> cases d.state <;> simp [legalSuccessor, NodeState.isIdle]

theorem NodeStatus.Fresh.transition {x : NodeStatus} {v : NodeView} {d : Dest} (h : x.Fresh)
    (hstate : v.state = x.state) (hdest : destState v = some d) :
  (x.transition d).Fresh
  := by
  intro hidle
  rw [NodeStatus.transition_state] at hidle
  obtain ⟨hnone, hfrom⟩ := destState_idle hdest hidle
  unfold NodeStatus.transition
  rw [hnone]
  unfold NodeStatus.leave
  rw [hstate] at hfrom
  split
  · exact ⟨rfl, rfl⟩
  · rename_i hnot
    rcases hfrom with hfrom | hfrom | hfrom
    · apply h hfrom
    · exact absurd (.inl hfrom) hnot
    · exact absurd (.inr hfrom) hnot

/-- An idle node which is skipped. -/
theorem NodeStatus.Fresh.skip {x : NodeStatus} (h : x.Fresh) (hidle : x.state.isIdle = true) :
  x.transition .skipped = skippedStatus
  := by
  have hstate : ¬ (x.state = .finished ∨
      (x.state = .iterationEnded ∧ Dest.skipped.state = .waiting)) := by
    rintro (heq | ⟨heq, -⟩) <;>
      · rw [heq] at hidle
        contradiction
  unfold NodeStatus.transition NodeStatus.leave
  rw [if_neg hstate]
  dsimp only [Dest.skipped, Option.getD]
  rw [(h hidle).2]
  rfl

namespace Epx

namespace Family

variable {node : CoreNode} {e : Surroundings} {s : Family}

theorem fresh_step (h : ∀ i, (s.child i).Fresh) (i : Nat) :
  ((s.step node e).child i).Fresh
  := by
  cases hc : node.children[i]? with
  | none =>
    unfold step
    dsimp only
    rw [hc]
    apply h i
  | some c =>
    rw [step_child hc]
    rcases c.move_cases (e.blocked (.child i)) (s.childView node e i c) (s.child i) with
      heq | ⟨d, hdest, heq⟩
    · rw [heq]
      apply h i
    · rw [heq]
      apply (h i).transition rfl hdest

section

variable {i : Nat} {c : CoreNode} (hc : node.children[i]? = some c)

include hc

/-- A waiting child which finishes is skipped. -/
theorem step_waiting_finished (hfresh : (s.child i).Fresh) (hstate : (s.child i).state = .waiting)
    (hfinished : ((s.step node e).child i).state = .finished) :
  (s.step node e).child i = NodeStatus.skippedStatus
  := by
  rw [step_child hc] at hfinished ⊢
  obtain ⟨d, hdest, hd, heq⟩ := CoreNode.move_state hfinished (by rw [hstate]; decide)
  have hskipped : d = .skipped := by
    by_cases hout : (s.childView node e i c).AncestorOut
    · rw [NodeView.destState_waiting_out hstate hout] at hdest
      exact (Option.some_inj.mp hdest).symm
    · rcases NodeView.destState_waiting hstate hout hdest with ⟨heq, -⟩ | ⟨-, -, h | h⟩
      · exact heq
      · rw [hd] at h
        contradiction
      · rw [hd] at h
        contradiction
  rw [heq, hskipped]
  apply hfresh.skip
  rw [hstate]
  rfl

/-- An inactive child which finishes is skipped. -/
theorem step_inactive_skipped (hfresh : (s.child i).Fresh) (hstate : (s.child i).state = .inactive)
    (hfinished : ((s.step node e).child i).state = .finished) :
  (s.step node e).child i = NodeStatus.skippedStatus
  := by
  rw [step_child hc] at hfinished ⊢
  obtain ⟨d, hdest, hd, heq⟩ := CoreNode.move_state hfinished (by rw [hstate]; decide)
  have hskipped : d = .skipped := by
    unfold destState at hdest
    rw [show (s.childView node e i c).state = .inactive from hstate] at hdest
    unfold getDestStateFromInactive at hdest
    grind
  rw [heq, hskipped]
  apply hfresh.skip
  rw [hstate]
  rfl

end

/-- The children which start in a batch. -/
def starts (node : CoreNode) (e : Surroundings) (s : Family) : List Nat :=
  (List.range node.children.length).filter fun i =>
    (s.child i).state = .waiting && ((s.step node e).child i).state.isRunning

theorem mem_starts {i : Nat} :
  i ∈ s.starts node e ↔ i < node.children.length ∧ (s.child i).state = .waiting ∧
    ((s.step node e).child i).state.isRunning = true
  := by
  unfold starts
  rw [List.mem_filter, List.mem_range, Bool.and_eq_true, decide_eq_true_iff]

/-- The starts of a list node with two children. -/
theorem starts_pair (hlength : node.children.length = 2) :
  s.starts node e =
    (if 0 ∈ s.starts node e then [0] else []) ++ (if 1 ∈ s.starts node e then [1] else [])
  := by
  have hrange : List.range node.children.length = [0, 1] := by
    rw [hlength]
    rfl
  unfold starts
  rw [hrange]
  generalize (fun i => decide ((s.child i).state = .waiting) &&
    ((s.step node e).child i).state.isRunning) = p
  cases hzero : p 0 <;> cases hone : p 1 <;> simp [hzero, hone]

/-- A child which starts has its start condition, and not its skip condition. -/
theorem starts_conditions {i : Nat} (h : i ∈ s.starts node e) :
  ¬ s.ChildrenOut node e ∧ ∃ c, node.children[i]? = some c ∧
    (s.childView node e i c).skip.isTrue = false ∧
    (s.childView node e i c).start.isNotTrue = false
  := by
  obtain ⟨hi, hwaiting, hrunning⟩ := mem_starts.mp h
  obtain ⟨c, hc⟩ := exists_child hi
  have hout : ¬ s.ChildrenOut node e := by
    intro hout
    rw [step_waiting_out hc hwaiting hout] at hrunning
    contradiction
  refine ⟨hout, c, hc, ?_⟩
  rcases step_waiting hc hwaiting hout with heq | ⟨heq, -⟩ | ⟨-, hskip, hstart⟩
  · rw [heq] at hrunning
    contradiction
  · rw [heq] at hrunning
    contradiction
  · exact ⟨hskip, hstart⟩

end Family

/-! ### Unfinished children -/

namespace Family

variable {node : CoreNode} {e : Surroundings} {s : Family}

/-- The number of children which are not finished. -/
def unfinished (node : CoreNode) (s : Family) : Nat :=
  ((Finset.range node.children.length).filter fun i => (s.child i).state ≠ .finished).card

/-- The children are finished one by one. -/
theorem unfinished_step_lt (hwaiting : s.list.state ≠ .waiting)
    {i : Nat} (hi : i < node.children.length) (hbefore : (s.child i).state ≠ .finished)
    (hafter : ((s.step node e).child i).state = .finished) :
  (s.step node e).unfinished node < s.unfinished node
  := by
  apply Finset.card_lt_card
  rw [Finset.ssubset_iff_of_subset]
  · refine ⟨i, ?_, ?_⟩
    · rw [Finset.mem_filter, Finset.mem_range]
      exact ⟨hi, hbefore⟩
    · rw [Finset.mem_filter]
      rintro ⟨-, hnot⟩
      exact hnot hafter
  · intro j hj
    rw [Finset.mem_filter, Finset.mem_range] at hj ⊢
    refine ⟨hj.1, fun hfinished => hj.2 ?_⟩
    obtain ⟨c, hc⟩ := exists_child hj.1
    rw [step_finished hc hfinished hwaiting]
    exact hfinished

/-- A waiting child whose skip condition is true is skipped. -/
theorem step_waiting_skip {i : Nat} {c : CoreNode} (hc : node.children[i]? = some c)
    (hwaiting : (s.child i).state = .waiting) (hout : ¬ s.ChildrenOut node e)
    (hskip : (s.childView node e i c).skip.isTrue = true) :
  ((s.step node e).child i).state = .finished
  := by
  have hdest : destState (s.childView node e i c) = some .skipped := by
    have hancestors := (ancestorOut_childView i c).not.mpr hout
    unfold NodeView.AncestorOut at hancestors
    rw [not_or, not_or, Bool.not_eq_true, Bool.not_eq_true, Bool.not_eq_true] at hancestors
    unfold destState
    rw [show (s.childView node e i c).state = .waiting from hwaiting]
    unfold getDestStateFromWaiting
    rw [hancestors.1, hancestors.2.1, hancestors.2.2, hskip]
    cases (s.childView node e i c).exit.isTrue <;> rfl
  rw [step_child hc, CoreNode.move_some hdest (by decide), NodeStatus.transition_state]
  rfl

end Family

/-! ### The log of an iteration -/

/-- A list node and its children, with the children which have started in the iteration. -/
structure Logged where
  family : Family
  started : List Nat

namespace Logged

variable {node : CoreNode} {e : Surroundings} {t : Logged}

def initial : Logged := ⟨.initial, []⟩

/-- A batch. -/
def step (node : CoreNode) (e : Surroundings) (t : Logged) : Logged where
  family := t.family.step node e
  started := if t.family.list.state.isRunning then t.started ++ t.family.starts node e else []

/-- The batches as a state machine. -/
def machine (node : CoreNode) : Logged → Surroundings → Option Logged :=
  fun t e => some (t.step node e)

theorem mem_step_started {i : Nat} (hrunning : t.family.list.state.isRunning = true) :
  i ∈ (t.step node e).started ↔ i ∈ t.started ∨ i ∈ t.family.starts node e
  := by
  unfold step
  dsimp only
  rw [if_pos hrunning, List.mem_append]

theorem step_started_of_idle (hidle : t.family.list.state.isRunning = false) :
  (t.step node e).started = []
  := by
  unfold step
  dsimp only
  rw [hidle, if_neg Bool.false_ne_true]

/-- The invariant of a list node which is not cut short. -/
structure Orderly (node : CoreNode) (t : Logged) : Prop extends t.family.Settled node where
  finishing : t.family.list.state = .finishing →
    ∀ i < node.children.length, (t.family.child i).state = .finished
  failing : t.family.list.state ≠ .failing
  fresh : ∀ i, (t.family.child i).Fresh
  unstarted : t.family.list.state.isRunning = true → ∀ i < node.children.length, i ∉ t.started →
    (t.family.child i).state = .inactive ∨ (t.family.child i).state = .waiting ∨
      t.family.child i = NodeStatus.skippedStatus
  logged : ∀ i ∈ t.started, i < node.children.length ∧ (t.family.list.state.isRunning = true →
    (t.family.child i).state ≠ .inactive)

theorem orderly_initial (node : CoreNode) :
  initial.Orderly node
  where
  toSettled := Family.settled_initial node
  finishing h := by contradiction
  failing h := by contradiction
  fresh _ _ := ⟨rfl, rfl⟩
  unstarted h := by contradiction
  logged _ h := by contradiction

/-! ### A batch of an uncut list node -/

theorem Orderly.finishing_of_closing (h : t.Orderly node)
    (hclosing : t.family.list.state.isClosing = true) :
  t.family.list.state = .finishing
  := by
  have hfailing := h.failing
  revert hclosing hfailing
  cases t.family.list.state <;> simp [NodeState.isClosing]

theorem Orderly.noLateRepeat (h : t.Orderly node) :
  t.family.NoLateRepeat node e
  := by
  intro hclosing i c hc hended
  have hi := (List.getElem?_eq_some_iff.mp hc).1
  rw [h.finishing (h.finishing_of_closing hclosing) i hi] at hended
  contradiction

/-- A child waits only while the list node executes. -/
theorem Orderly.executing_of_waiting (h : t.Orderly node) {i : Nat}
    (hi : i < node.children.length) (hwaiting : (t.family.child i).state = .waiting) :
  t.family.list.state = .executing
  := by
  by_contra hnot
  cases hclosing : t.family.list.state.isClosing with
  | true => apply (h.closing hclosing i hi).2 hwaiting
  | false =>
    rcases h.rest hnot hclosing i hi with hstate | hstate <;>
      · rw [hstate] at hwaiting
        contradiction

/-- A list node which starts to run has been waiting. -/
theorem waiting_of_running (hidle : t.family.list.state.isRunning = false)
    (hrunning : (t.step node e).family.list.state.isRunning = true) :
  t.family.list.state = .waiting
  := by
  rcases t.family.step_list node e with heq | ⟨d, hdest, heq⟩
  · change (t.family.step node e).list.state.isRunning = true at hrunning
    rw [heq, hidle] at hrunning
    contradiction
  · change (t.family.step node e).list.state.isRunning = true at hrunning
    rw [heq, NodeStatus.transition_state] at hrunning
    have hlegal : legalSuccessor node.nodeType t.family.list.state d.state = true :=
      destState_legal hdest
    revert hlegal hrunning hidle
    cases node.nodeType <;> cases t.family.list.state <;> cases d.state <;>
      simp [legalSuccessor, NodeState.isRunning]

/-- A child which has not started is still to start after the batch, or skipped. -/
theorem Orderly.unstarted_step (h : t.Orderly node)
    (hrunning : t.family.list.state.isRunning = true) {i : Nat} (hi : i < node.children.length)
    (hnot : i ∉ (t.step node e).started) :
  ((t.step node e).family.child i).state = .inactive ∨
    ((t.step node e).family.child i).state = .waiting ∨
    (t.step node e).family.child i = NodeStatus.skippedStatus
  := by
  rw [mem_step_started hrunning, not_or] at hnot
  obtain ⟨c, hc⟩ := Family.exists_child hi
  have hlist : t.family.list.state ≠ .waiting := by
    intro heq
    rw [heq] at hrunning
    contradiction
  change ((t.family.step node e).child i).state = .inactive ∨
    ((t.family.step node e).child i).state = .waiting ∨
    (t.family.step node e).child i = NodeStatus.skippedStatus
  rcases h.unstarted hrunning i hi hnot.1 with hinactive | hwaiting | hskipped
  · by_cases hexecuting : t.family.list.state = .executing
    · rcases Family.step_inactive_executing hc hinactive hexecuting with ⟨-, heq⟩ | ⟨-, heq⟩
      · right; right
        apply Family.step_inactive_skipped hc (h.fresh i) hinactive heq
      · right; left
        exact heq
    · left
      rw [Family.step_inactive_idle hc hinactive hexecuting]
      · exact hinactive
      · intro heq
        rw [heq] at hrunning
        contradiction
  · by_cases hout : t.family.ChildrenOut node e
    · right; right
      apply Family.step_waiting_finished hc (h.fresh i) hwaiting
      apply Family.step_waiting_out hc hwaiting hout
    · rcases Family.step_waiting hc hwaiting hout with heq | ⟨heq, -⟩ | ⟨hruns, -⟩
      · right; left
        exact heq
      · right; right
        apply Family.step_waiting_finished hc (h.fresh i) hwaiting heq
      · exact absurd (Family.mem_starts.mpr ⟨hi, hwaiting, hruns⟩) hnot.2
  · right; right
    have hfinished : (t.family.child i).state = .finished := by
      rw [hskipped]
      rfl
    rw [Family.step_finished hc hfinished hlist]
    exact hskipped

theorem Orderly.logged_step (h : t.Orderly node) :
  ∀ i ∈ (t.step node e).started, i < node.children.length ∧
    ((t.step node e).family.list.state.isRunning = true →
      ((t.step node e).family.child i).state ≠ .inactive)
  := by
  intro i hi
  cases hrunning : t.family.list.state.isRunning with
  | false =>
    rw [step_started_of_idle hrunning] at hi
    contradiction
  | true =>
    rcases (mem_step_started hrunning).mp hi with hi | hi
    · obtain ⟨hlength, hactive⟩ := h.logged i hi
      refine ⟨hlength, fun _ hinactive => ?_⟩
      obtain ⟨c, hc⟩ := Family.exists_child hlength
      rcases Family.step_eq_inactive hc hinactive with heq | ⟨-, heq⟩
      · apply hactive hrunning heq
      · rw [heq] at hrunning
        contradiction
    · obtain ⟨hlength, -, hruns⟩ := Family.mem_starts.mp hi
      refine ⟨hlength, fun _ hinactive => ?_⟩
      change ((t.family.step node e).child i).state = .inactive at hinactive
      rw [hinactive] at hruns
      contradiction

section

variable (hlist : node.nodeType = .nodeList) (hend : node.condition .end = none)
variable (hcut : t.family.NotCutShort node e)

include hend hcut

omit hcut in
theorem not_ends :
  ¬ t.family.Ends node e
  := by
  unfold Family.Ends CoreNode.value
  rw [hend]
  simp [Condition.isTrue]

theorem not_childrenOut :
  ¬ t.family.ChildrenOut node e
  := by
  rw [hcut.childrenOut]
  apply not_ends hend

include hlist

/-- A list node executes until all children are finished. -/
theorem step_executing (hexecuting : t.family.list.state = .executing) :
  (t.step node e).family.list.state =
    if t.family.allFinished node = true then .finishing else .executing
  := by
  have hiff : (t.family.listView node e).end.isNotTrue = false ↔
      t.family.allFinished node = true := by
    rw [Family.end_isNotTrue hlist]
    constructor
    · rintro (hends | ⟨-, hall⟩)
      · exact absurd hends (not_ends hend)
      · exact hall
    · intro hall
      exact .inr ⟨hend, hall⟩
  change (t.family.step node e).list.state = _
  rw [Family.step_list_executing_uncut hlist hcut hexecuting]
  by_cases hall : t.family.allFinished node = true
  · rw [if_pos (hiff.mpr hall), if_pos hall, NodeStatus.transition_state]
  · rw [if_neg (mt hiff.mp hall), if_neg hall]
    exact hexecuting

omit hend in
/-- A list node whose children are finished ends the iteration. -/
theorem Orderly.step_finishing (h : t.Orderly node) (hfinishing : t.family.list.state = .finishing) :
  (t.step node e).family.list = t.family.list.transition (iterationEnded (t.family.listView node e))
  := by
  have hall : t.family.allWaitingOrFinished node = true := by
    apply decide_eq_true
    intro i hi
    right
    apply h.finishing hfinishing i hi
  change (t.family.step node e).list = _
  rw [Family.step_list_finishing_uncut hlist hcut hfinishing, if_pos hall]

/-- The list node of the next state, as far as the invariant tells. -/
theorem Orderly.list_step (h : t.Orderly node) :
  ((t.step node e).family.list.state = .finishing →
      t.family.list.state = .executing ∧ t.family.allFinished node = true) ∧
    (t.step node e).family.list.state ≠ .failing
  := by
  by_cases hexecuting : t.family.list.state = .executing
  · rw [step_executing hlist hend hcut hexecuting]
    split
    · rename_i hall
      exact ⟨fun _ => ⟨hexecuting, hall⟩, by decide⟩
    · exact ⟨fun heq => by contradiction, by decide⟩
  · by_cases hfinishing : t.family.list.state = .finishing
    · rw [h.step_finishing hlist hcut hfinishing, NodeStatus.transition_state, iterationEnded_state]
      exact ⟨fun heq => by contradiction, by decide⟩
    · have hclosing : t.family.list.state.isClosing = false := by
        rw [← Bool.not_eq_true]
        intro hclosing
        apply hfinishing (h.finishing_of_closing hclosing)
      rcases @Family.step_list_rest node e t.family hexecuting hclosing with
        ⟨-, heq⟩ | ⟨-, hnot⟩
      · constructor
        · intro heq'
          rw [show (t.step node e).family.list.state = .executing from heq] at heq'
          contradiction
        · intro heq'
          rw [show (t.step node e).family.list.state = .executing from heq] at heq'
          contradiction
      · constructor
        · intro heq
          change (t.family.step node e).list.state = _ at heq
          rw [heq] at hnot
          contradiction
        · intro heq
          change (t.family.step node e).list.state = _ at heq
          rw [heq] at hnot
          contradiction

theorem Orderly.step (h : t.Orderly node) :
  (t.step node e).Orderly node
  where
  toSettled := h.toSettled.step hlist h.noLateRepeat
  finishing hfinishing i hi := by
    obtain ⟨hexecuting, hall⟩ := (h.list_step hlist hend hcut).1 hfinishing
    obtain ⟨c, hc⟩ := Family.exists_child hi
    have hfinished : (t.family.child i).state = .finished := of_decide_eq_true hall i hi
    change ((t.family.step node e).child i).state = _
    rw [Family.step_finished hc hfinished]
    · exact hfinished
    · rw [hexecuting]
      decide
  failing := (h.list_step hlist hend hcut).2
  fresh := Family.fresh_step h.fresh
  unstarted hrunning' i hi hnot := by
    cases hrunning : t.family.list.state.isRunning with
    | true => apply h.unstarted_step hrunning hi hnot
    | false =>
      have hwaiting := waiting_of_running hrunning hrunning'
      left
      have hexecuting : t.family.list.state ≠ .executing := by
        rw [hwaiting]
        decide
      have hclosing : t.family.list.state.isClosing = false := by
        rw [hwaiting]
        rfl
      exact (h.step_child_rest hexecuting hclosing hi).resolve_right fun hfinished =>
        hfinished.2 hwaiting
  logged := h.logged_step

end

end Logged

end Epx

end Plexil
