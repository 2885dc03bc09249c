import Plexil.Epx.Try

/-!
# The order and the outcome of a Try

While a `Try` executes, a child which is not waiting has before it only children which are
finished without success.  So when the end condition becomes true no child is running, and all
children are finished in the next batch.
-/

namespace Plexil.Epx

open StateMachine (Always Meets)

namespace Family

variable {node : CoreNode} {e : Surroundings} {s : Family}

/-! ### Success at rest -/

theorem succeeded_iff (x : NodeStatus) :
  x.succeeded = true ↔ x.state = .finished ∧ x.outcome = .success
  := by
  unfold NodeStatus.succeeded
  apply decide_eq_true_iff

theorem succeeded_of_state {x : NodeStatus} (hstate : x.state ≠ .finished) :
  x.succeeded = false
  := by
  rw [← Bool.not_eq_true, succeeded_iff]
  exact fun h => hstate h.1

/-- No child succeeds while the list node is at rest, and none loses its success before the
list node is waiting. -/
theorem succeeded_step (h : s.Settled node) (hexecuting : s.list.state ≠ .executing)
    (hclosing : s.list.state.isClosing = false) (hwaiting : s.list.state ≠ .waiting) {i : Nat}
    (hi : i < node.children.length) :
  ((s.step node e).child i).succeeded = (s.child i).succeeded
  := by
  obtain ⟨c, hc⟩ := exists_child hi
  rcases h.rest hexecuting hclosing i hi with hinactive | hfinished
  · by_cases hlist : s.list.state = .finished
    · have hdest : destState (s.childView node e i c) = some .skipped :=
        NodeView.destState_inactive_finished hinactive (congrArg some hlist)
      have hbefore : (s.child i).succeeded = false := by
        apply succeeded_of_state
        rw [hinactive]
        decide
      rw [step_child hc, CoreNode.move_some hdest (by decide), hbefore]
      rfl
    · rw [step_inactive_idle hc hinactive hexecuting hlist]
  · rw [step_finished hc hfinished hwaiting]

/-! ### A run of a Try -/

/-- The batch starts a child only when all children before it are finished. -/
def StartsInOrder (node : CoreNode) (s : Family) (e : Surroundings) : Prop :=
  ∀ j k, j < k → k < node.children.length → (s.child k).state = .waiting →
    ((s.step node e).child k).state.isRunning = true → (s.child j).state = .finished

/-- The batch starts no later child after a child has succeeded. -/
def NoStartAfterSuccess (node : CoreNode) (s : Family) (e : Surroundings) : Prop :=
  ∀ i k, i < k → k < node.children.length → (s.child i).succeeded = true →
    (s.child k).state ≠ .executing → ((s.step node e).child k).state ≠ .executing

/-- After a child has succeeded the list node finishes, batch by batch, unless it repeats. -/
def FinishesAfterSuccess (node : CoreNode) (s : Family) (e : Surroundings) : Prop :=
  ∀ i < node.children.length, (s.child i).succeeded = true →
    (s.list.state = .executing → (s.step node e).list.state = .finishing) ∧
    (s.list.state = .finishing → (s.step node e).list.state = .iterationEnded) ∧
    (s.list.state = .iterationEnded → (s.step node e).list.state = .finished ∨
      (s.listView node e).repeat = some none ∨ (s.listView node e).repeat.isTrue = true)

/-- The outcome of an iteration tells whether a child has succeeded. -/
def OutcomeOfChildren (node : CoreNode) (s : Family) : Prop :=
  s.list.state = .iterationEnded ∨ s.list.state = .finished → s.list.outcome ≠ .skipped →
    s.list.outcome =
      if ∃ i < node.children.length, (s.child i).succeeded = true then .success else .failure

/-- The invariant of the runs of a `Try`. -/
structure Tried (node : CoreNode) (s : Family) : Prop extends s.Settled node where
  front : s.list.state = .executing → ∀ j k, j < k → k < node.children.length →
    (s.child k).state = .inactive ∨ (s.child k).state = .waiting ∨
      ((s.child j).state = .finished ∧ (s.child j).succeeded = false)
  finishing : s.list.state = .finishing →
    ∀ i < node.children.length, (s.child i).state = .finished
  failing : s.list.state ≠ .failing
  outcome : s.OutcomeOfChildren node

theorem tried_initial (node : CoreNode) :
  initial.Tried node
  where
  toSettled := settled_initial node
  front h := by contradiction
  finishing h := by contradiction
  failing h := by contradiction
  outcome h := by rcases h with h | h <;> contradiction

/-- All children of a `Try` which finishes its iteration are finished, so none repeats. -/
theorem Tried.noLateRepeat (h : s.Tried node) :
  s.NoLateRepeat node e
  := by
  intro hclosing i c hc hended
  have hfinishing : s.list.state = .finishing := by
    have hfailing := h.failing
    revert hclosing hfailing
    cases s.list.state <;> simp [NodeState.isClosing]
  have hi := (List.getElem?_eq_some_iff.mp hc).1
  rw [h.finishing hfinishing i hi] at hended
  contradiction

/-- While no ancestor takes out the children, a child leaves WAITING only when the children
before it are finished. -/
theorem Tried.before (h : s.Tried node) (hlinked : Linked node) (hexit : s.NoEarlyExit node e)
    (hexecuting : s.list.state = .executing) (hout : ¬ s.ChildrenOut node e) {j k : Nat}
    (hjk : j < k) (hk : k < node.children.length) (hwaiting : (s.child k).state = .waiting)
    (hleaves : ((s.step node e).child k).state ≠ .waiting) :
  (s.child j).state = .finished
  := by
  obtain ⟨k, rfl⟩ : ∃ k', k = k' + 1 := ⟨k - 1, by omega⟩
  obtain ⟨c, hc⟩ := exists_child hk
  have hturn := leavesInTurn_of_linked hlinked hexit
  have hbefore := (hturn k c hc hwaiting hleaves).resolve_left hout
  by_cases heq : j = k
  · rw [heq]
    exact hbefore
  · rcases h.front hexecuting j k (by omega) (by omega) with hstate | hstate | hdone
    · rw [hstate] at hbefore
      contradiction
    · rw [hstate] at hbefore
      contradiction
    · exact hdone.1

/-- A child which runs after a batch was not taken out. -/
theorem not_childrenOut_of_running {k : Nat} (hk : k < node.children.length)
    (hwaiting : (s.child k).state = .waiting)
    (hrunning : ((s.step node e).child k).state.isRunning = true) :
  ¬ s.ChildrenOut node e
  := by
  obtain ⟨c, hc⟩ := exists_child hk
  intro hout
  rw [step_waiting_out hc hwaiting hout] at hrunning
  contradiction

theorem Tried.startsInOrder (h : s.Tried node) (hlinked : Linked node)
    (hexit : s.NoEarlyExit node e) :
  s.StartsInOrder node e
  := by
  intro j k hjk hk hwaiting hrunning
  have hexecuting : s.list.state = .executing := by
    by_contra hnot
    cases hclosing : s.list.state.isClosing with
    | true => apply (h.closing hclosing k hk).2 hwaiting
    | false =>
      rcases h.rest hnot hclosing k hk with hstate | hstate <;>
        · rw [hstate] at hwaiting
          contradiction
  apply h.before hlinked hexit hexecuting (not_childrenOut_of_running hk hwaiting hrunning) hjk
    hk hwaiting
  intro heq
  rw [heq] at hrunning
  contradiction

end Family

namespace TryElement

open Family

variable (t : TryElement) {s : Family} {e : Surroundings}

/-- A child which has succeeded ends the `Try` when there is a child after it. -/
theorem ends_of_succeeded {i : Nat} (hi : i + 1 < t.translate.children.length)
    (hsucceeded : (s.child i).succeeded = true) :
  s.Ends t.translate e
  := by
  rw [length_children] at hi
  rw [ends_iff]
  refine ⟨by omega, i, by omega, ?_⟩
  rw [if_pos hi]
  exact hsucceeded

/-- A child which is finished is needed for the end. -/
theorem exists_finished_of_ends (h : s.Ends t.translate e) :
  ∃ i < t.translate.children.length, (s.child i).state = .finished ∧
    (i + 1 < t.translate.children.length → (s.child i).succeeded = true)
  := by
  rw [ends_iff] at h
  obtain ⟨-, i, hi, htrue⟩ := h
  rw [length_children]
  refine ⟨i, hi, ?_⟩
  split at htrue
  · exact ⟨((succeeded_iff _).mp htrue).1, fun _ => htrue⟩
  · rename_i hlast
    exact ⟨of_decide_eq_true htrue, fun hnext => absurd hnext hlast⟩

theorem noStartAfterSuccess (hcut : s.NotCutShort t.translate e) :
  s.NoStartAfterSuccess t.translate e
  := by
  intro i k hik hk hsucceeded hidle hstarted
  have hout : s.ChildrenOut t.translate e := by
    rw [hcut.childrenOut]
    apply t.ends_of_succeeded (by omega) hsucceeded
  obtain ⟨c, hc⟩ := exists_child hk
  have hwaiting : (s.child k).state = .waiting := step_eq_executing hc hstarted hidle
  rw [step_waiting_out hc hwaiting hout] at hstarted
  contradiction

/-! ### What a batch preserves -/

section

variable (hcut : s.NotCutShort t.translate e) (h : s.Tried t.translate)

include hcut h

/-- When the `Try` ends, all its children are finished after the batch. -/
theorem finished_of_ends (hexecuting : s.list.state = .executing) (hends : s.Ends t.translate e) :
  ∀ k < t.translate.children.length, ((s.step t.translate e).child k).state = .finished
  := by
  intro k hk
  have hwaiting : s.list.state ≠ .waiting := by
    rw [hexecuting]
    decide
  obtain ⟨i, hi, hfinished, hsucceeded⟩ := t.exists_finished_of_ends hends
  have hactive : ∀ j < t.translate.children.length, (s.child j).state ≠ .inactive := by
    apply (h.start hexecuting).resolve_left
    intro hinactive
    rw [hinactive i hi] at hfinished
    contradiction
  obtain ⟨c, hc⟩ := exists_child hk
  rcases state_cases (h.valid k hk) (hactive k hk) with hstate | hstate | hrunning
  · apply step_waiting_out hc hstate (hcut.childrenOut.mpr hends)
  · apply finished_step hwaiting hk hstate
  · -- No child is running: the finished one is neither before, nor at, nor after it.
    exfalso
    rcases Nat.lt_trichotomy i k with hlt | rfl | hlt
    · rcases h.front hexecuting i k hlt hk with hk' | hk' | ⟨-, hnot⟩
      · apply hactive k hk hk'
      · rw [hk'] at hrunning
        contradiction
      · rw [hsucceeded (by omega)] at hnot
        contradiction
    · rw [hfinished] at hrunning
      contradiction
    · rcases h.front hexecuting k i hlt hi with hi' | hi' | ⟨hfinished', -⟩
      · apply hactive i hi hi'
      · rw [hi'] at hfinished
        contradiction
      · rw [hfinished'] at hrunning
        contradiction

/-- The `Try` stops executing when all its children are finished. -/
theorem finished_of_finishing (hexecuting : s.list.state = .executing)
    (hend : (s.listView t.translate e).end.isNotTrue = false) :
  ∀ k < t.translate.children.length, ((s.step t.translate e).child k).state = .finished
  := by
  rcases (end_isNotTrue rfl).mp hend with hends | ⟨-, hall⟩
  · apply t.finished_of_ends hcut h hexecuting hends
  · intro k hk
    apply finished_step _ hk (of_decide_eq_true hall k hk)
    rw [hexecuting]
    decide

/-- The front moves on while the `Try` executes. -/
theorem front_step (hexit : s.NoEarlyExit t.translate e) (hexecuting : s.list.state = .executing)
    (hnot : ¬ s.Ends t.translate e) :
  ∀ j k, j < k → k < t.translate.children.length →
    ((s.step t.translate e).child k).state = .inactive ∨
      ((s.step t.translate e).child k).state = .waiting ∨
      (((s.step t.translate e).child j).state = .finished ∧
        ((s.step t.translate e).child j).succeeded = false)
  := by
  intro j k hjk hk
  have hout : ¬ s.ChildrenOut t.translate e := hcut.childrenOut.not.mpr hnot
  obtain ⟨c, hc⟩ := exists_child hk
  obtain ⟨b, hb⟩ := exists_child (show j < t.translate.children.length by omega)
  have hsame : (s.child j).state = .finished →
      (s.step t.translate e).child j = s.child j := by
    intro hfinished
    apply step_finished hb hfinished
    rw [hexecuting]
    decide
  have hkeep : (s.child j).state = .finished ∧ (s.child j).succeeded = false →
      ((s.step t.translate e).child j).state = .finished ∧
        ((s.step t.translate e).child j).succeeded = false := by
    intro hdone
    rw [hsame hdone.1]
    exact hdone
  by_cases hinactive : (s.child k).state = .inactive
  · rcases step_inactive_executing hc hinactive hexecuting with ⟨hout', -⟩ | ⟨-, heq⟩
    · contradiction
    · right; left
      exact heq
  · by_cases hwaiting : (s.child k).state = .waiting
    · by_cases hstays : ((s.step t.translate e).child k).state = .waiting
      · right; left
        exact hstays
      · right; right
        have hbefore := h.before t.linked hexit hexecuting hout hjk hk hwaiting hstays
        apply hkeep
        use hbefore
        rw [← Bool.not_eq_true]
        intro hsucceeded
        apply hnot (t.ends_of_succeeded (by omega) hsucceeded)
    · right; right
      apply hkeep
      rcases h.front hexecuting j k hjk hk with hk' | hk' | hdone
      · contradiction
      · contradiction
      · exact hdone

/-- The outcome of an iteration which ends. -/
theorem outcome_finishing (hfinishing : s.list.state = .finishing) :
  (s.step t.translate e).list.state = .iterationEnded ∧
    (s.step t.translate e).OutcomeOfChildren t.translate
  := by
  have hall : s.allWaitingOrFinished t.translate = true := by
    apply decide_eq_true
    intro i hi
    right
    apply h.finishing hfinishing i hi
  have hsame : ∀ i < t.translate.children.length,
      (s.step t.translate e).child i = s.child i := by
    intro i hi
    obtain ⟨c, hc⟩ := exists_child hi
    apply step_finished hc (h.finishing hfinishing i hi)
    rw [hfinishing]
    decide
  have hchildren : (∃ i < t.translate.children.length,
      ((s.step t.translate e).child i).succeeded = true) ↔
      (s.listView t.translate e).post.isNotTrue = false := by
    rw [post_isNotTrue, length_children]
    apply exists_congr
    intro i
    apply and_congr_right
    intro hi
    rw [hsame i (by rwa [length_children])]
  have hlist := step_list_finishing_uncut rfl hcut hfinishing
  rw [if_pos hall] at hlist
  unfold OutcomeOfChildren
  simp only [hchildren]
  rw [hlist, NodeStatus.transition_state, iterationEnded_state]
  use rfl
  intro _ _
  cases hpost : (s.listView t.translate e).post.isNotTrue <;>
    simp [iterationEnded, hpost, NodeStatus.transition]

/-- The outcome of an iteration which has ended, and of one which did not start. -/
theorem outcome_rest (hexecuting : s.list.state ≠ .executing) (hfinishing : s.list.state ≠ .finishing) :
  (s.step t.translate e).OutcomeOfChildren t.translate
  := by
  have hclosing : s.list.state.isClosing = false := by
    have hfailing := h.failing
    revert hfinishing hfailing
    cases s.list.state <;> simp [NodeState.isClosing]
  by_cases hwaiting : s.list.state = .waiting
  · -- The children are reset.
    have hnone : ¬ ∃ i < t.translate.children.length,
        ((s.step t.translate e).child i).succeeded = true := by
      rintro ⟨i, hi, hsucceeded⟩
      rcases h.step_child_rest (e := e) hexecuting hclosing hi with hinactive | ⟨-, hnot⟩
      · rw [succeeded_iff, hinactive] at hsucceeded
        exact absurd hsucceeded.1 (by decide)
      · contradiction
    intro hended hskipped
    rw [if_neg hnone]
    apply outcome_of_waiting hwaiting hended hskipped
  · have hchildren : (∃ i < t.translate.children.length,
        ((s.step t.translate e).child i).succeeded = true) ↔
        ∃ i < t.translate.children.length, (s.child i).succeeded = true := by
      apply exists_congr
      intro i
      apply and_congr_right
      intro hi
      rw [succeeded_step h.toSettled hexecuting hclosing hwaiting hi]
    intro hended hskipped
    simp only [hchildren]
    obtain ⟨hwas, hsame⟩ := list_of_ended hcut hexecuting hclosing hwaiting hended hskipped
    rw [hsame]
    apply h.outcome hwas
    rw [← hsame]
    exact hskipped

/-- A batch in which the `Try` is not cut short and no child exits early. -/
theorem tried_step (hexit : s.NoEarlyExit t.translate e) :
  (s.step t.translate e).Tried t.translate
  := by
  have hsettled : (s.step t.translate e).Settled t.translate :=
    h.toSettled.step rfl h.noLateRepeat
  by_cases hexecuting : s.list.state = .executing
  · have hlist := step_list_executing_uncut rfl hcut hexecuting
    cases hend : (s.listView t.translate e).end.isNotTrue with
    | true =>
      rw [hend, if_neg (by decide)] at hlist
      have hstays : (s.step t.translate e).list.state = .executing := by
        rw [hlist]
        exact hexecuting
      use hsettled
      · intro _
        apply t.front_step hcut h hexit hexecuting
        intro hends
        rw [(end_isNotTrue rfl).mpr (.inl hends)] at hend
        contradiction
      · rw [hstays]
        intro hfinishing
        contradiction
      · rw [hstays]
        decide
      · intro hended
        rw [hstays] at hended
        rcases hended with hended | hended <;> contradiction
    | false =>
      rw [hend, if_pos rfl] at hlist
      have hfinishing : (s.step t.translate e).list.state = .finishing := by
        rw [hlist, NodeStatus.transition_state]
      use hsettled
      · rw [hfinishing]
        intro hexecuting'
        contradiction
      · intro _
        apply t.finished_of_finishing hcut h hexecuting hend
      · rw [hfinishing]
        decide
      · intro hended
        rw [hfinishing] at hended
        rcases hended with hended | hended <;> contradiction
  · by_cases hfinishing : s.list.state = .finishing
    · obtain ⟨hended, houtcome⟩ := t.outcome_finishing hcut h hfinishing
      use hsettled
      · rw [hended]
        intro hexecuting'
        contradiction
      · rw [hended]
        intro hfinishing'
        contradiction
      · rw [hended]
        decide
    · have hclosing : s.list.state.isClosing = false := by
        have hfailing := h.failing
        revert hfinishing hfailing
        cases s.list.state <;> simp [NodeState.isClosing]
      have hlist := @step_list_rest t.translate e s hexecuting hclosing
      use hsettled
      · intro hstarted j k _ hk
        left
        apply h.step_started hexecuting hclosing hstarted k hk
      · intro hfinishing'
        rcases hlist with ⟨-, hlist⟩ | ⟨-, hlist⟩ <;>
          · rw [hfinishing'] at hlist
            contradiction
      · intro hfailing'
        rcases hlist with ⟨-, hlist⟩ | ⟨-, hlist⟩ <;>
          · rw [hfailing'] at hlist
            contradiction
      · apply t.outcome_rest hcut h hexecuting hfinishing

theorem finishesAfterSuccess :
  s.FinishesAfterSuccess t.translate e
  := by
  intro i hi hsucceeded
  refine ⟨?_, fun hfinishing => (t.outcome_finishing hcut h hfinishing).1, ?_⟩
  · intro hexecuting
    have hend : (s.listView t.translate e).end.isNotTrue = false := by
      rw [end_isNotTrue rfl]
      rw [length_children] at hi
      by_cases hlength : t.children.nodes.length < 2
      · right
        rw [condition_end, tryEndCondition, if_pos hlength]
        use rfl
        apply decide_eq_true
        intro j hj
        rw [length_children] at hj
        obtain rfl : j = i := by omega
        exact ((succeeded_iff _).mp hsucceeded).1
      · left
        rw [ends_iff]
        refine ⟨by omega, i, hi, ?_⟩
        split
        · exact hsucceeded
        · apply decide_eq_true ((succeeded_iff _).mp hsucceeded).1
    rw [step_list_executing_uncut rfl hcut hexecuting, if_pos hend, NodeStatus.transition_state]
  · intro hended
    rcases step_list_iterationEnded_uncut hcut hended with ⟨-, hrepeat⟩ | ⟨-, hrepeat⟩ | heq
    · right; left
      exact hrepeat
    · right; right
      exact hrepeat
    · left
      rw [heq]

end

end TryElement

/-! ### Runs -/

open Family

/-- In the run of these batches the children are tried in order. -/
structure TriedInOrder (node : CoreNode) (es : List Surroundings) : Prop where
  inOrder : Meets (machine node) (StartsInOrder node) es initial
  afterSuccess : Meets (machine node) (NoStartAfterSuccess node) es initial
  finishes : Meets (machine node) (FinishesAfterSuccess node) es initial
  outcome : Always (machine node) (OutcomeOfChildren node) es initial

/-- The batches of a run which is not cut short. -/
def UncutRun (node : CoreNode) : Type :=
  { es : List Surroundings // Meets (machine node) (NotCutShort node) es initial }

/-- The batches of a run which is not cut short and in which no child exits early. -/
def OrderlyUncutRun (node : CoreNode) : Type :=
  { es : List Surroundings // Meets (machine node)
    (fun s e => s.NotCutShort node e ∧ s.NoEarlyExit node e) es initial }

/-- A `Try` tries its children in order until one succeeds. -/
theorem try_triedInOrder (t : TryElement) (es : OrderlyUncutRun t.translate) :
  TriedInOrder t.translate es.1
  := by
  have hinitial := tried_initial t.translate
  have hstep : ∀ s e s', s.Tried t.translate →
      s.NotCutShort t.translate e ∧ s.NoEarlyExit t.translate e →
      machine t.translate s e = some s' → s'.Tried t.translate := by
    rintro s e s' h ⟨hcut, hexit⟩ ⟨⟩
    apply t.tried_step hcut h hexit
  constructor
  · apply es.2.meets hstep _ hinitial
    rintro s e h ⟨-, hexit⟩
    apply h.startsInOrder t.linked hexit
  · apply es.2.meets hstep _ hinitial
    rintro s e - ⟨hcut, -⟩
    apply t.noStartAfterSuccess hcut
  · apply es.2.meets hstep _ hinitial
    rintro s e h ⟨hcut, -⟩
    apply t.finishesAfterSuccess hcut h
  · apply es.2.always _ hinitial hinitial.outcome
    intro s e s' h _ hallowed hs'
    have h' := hstep s e s' h hallowed hs'
    exact ⟨h', h'.outcome⟩

/-! ### A child which exits early -/

/-- A `Try` of three actions, the second of which has a true exit condition. -/
def tryEarlyExit : TryElement where
  action := ⟨"Try", false, []⟩
  children := earlyExit
  nonempty := by decide
  noEndOrPost element helement := by contradiction

/-- The third action starts while the first one is executing. -/
theorem try_not_triedInOrder :
  ¬ ∀ (t : TryElement) (es : UncutRun t.translate), TriedInOrder t.translate es.1
  := by
  intro h
  have huncut : Meets (machine tryEarlyExit.translate) (NotCutShort tryEarlyExit.translate)
      (List.replicate 4 quietSurroundings ++ [quietSurroundings]) initial := by
    apply Meets.of_forall
    intro e he s
    obtain rfl : e = quietSurroundings := by
      simpa [List.replicate] using he
    exact ⟨rfl, rfl, rfl, rfl, rfl⟩
  have hrun : (StateMachine.run (machine tryEarlyExit.translate)
      (List.replicate 4 quietSurroundings) initial).map (fun s => ((s.child 0).state,
        (s.child 2).state, ((s.step tryEarlyExit.translate quietSurroundings).child 2).state)) =
      some (NodeState.executing, NodeState.waiting, NodeState.executing) := by
    decide +kernel
  obtain ⟨s, hs, hstates⟩ := Option.map_eq_some_iff.mp hrun
  obtain ⟨hfirst, hthird⟩ := Prod.mk.inj hstates
  obtain ⟨hwaiting, hstarts⟩ := Prod.mk.inj hthird
  have horder := (h tryEarlyExit ⟨_, huncut⟩).inOrder.of_run hs
  have hfinished := horder 0 2 (by decide) (by decide) hwaiting (by rw [hstarts]; rfl)
  rw [hfirst] at hfinished
  contradiction

end Plexil.Epx
