import Plexil.Epx.Loops
import Plexil.Epx.TestNodes

/-!
# The iterations of a For

In an iteration the action starts first, and the updater of the loop variable after the action is
finished.  The updater is never skipped and does not repeat, so that the log of a complete
iteration is that of the starts of the action, followed by one start of the updater.
-/

namespace Plexil.Epx

open StateMachine (Always Meets)
open Family

namespace ForElement

variable {t : ForElement} {l : Logged} {e : Surroundings}

theorem length_children (t : ForElement) :
  t.loop.children.length = 2
  := rfl

theorem one_lt_length (t : ForElement) :
  1 < t.loop.children.length
  := by
  rw [t.length_children]
  decide

theorem child_updater (t : ForElement) :
  t.loop.children[1]? = some t.updater
  := rfl

theorem nodeIds_loop (t : ForElement) :
  (t.loop.children.map CoreNode.nodeId).Nodup
  := by
  change [t.body.node.nodeId, t.updater.nodeId].Nodup
  rw [List.nodup_cons, List.mem_singleton]
  exact ⟨t.distinct, List.nodup_singleton _⟩

/-! ### The updater -/

/-- The loop variable has been updated. -/
def Updated (x : NodeStatus) : Prop :=
  (x.state = .iterationEnded ∨ x.state = .finished) ∧ x.outcome = .success ∧
    x.failureType = .noFailure

/-- What the updater does in a batch while the loop runs. -/
inductive UpdaterStep (finished : Bool) (x x' : NodeStatus) : Prop where
  | inactive (h : x.state = .inactive) (h' : x'.state = .inactive ∨ x'.state = .waiting)
  | waits (h : x.state = .waiting) (h' : x'.state = .waiting)
  | starts (h : x.state = .waiting) (hfinished : finished = true) (h' : x'.state = .executing)
  | executes (h : x.state = .executing) (h' : x'.state = .executing)
  | updates (h : x.state = .executing) (h' : Updated x')
  | updated (h : Updated x) (h' : Updated x') (hfinished : x'.state = .finished)

section

variable (s : Family)

theorem updater_start :
  (s.childView t.loop e 1 t.updater).start.isNotTrue = false ↔ (s.child 0).state = .finished
  := by
  have hfind : s.find t.loop t.body.node.nodeId = some (s.child 0) :=
    find_nodeId t.nodeIds_loop s (show t.loop.children[0]? = some t.body.node from rfl)
  have hstart : (s.childView t.loop e 1 t.updater).start =
      some (CoreExpr.eval (s.childValuation t.loop e 1)
        (.finished (.sibling t.body.node.nodeId))) := rfl
  rw [hstart, Condition.isNotTrue_some, CoreExpr.eval]
  dsimp only [childValuation]
  rw [hfind, Option.map_some, Option.some_inj]
  unfold NodeStatus.finished
  rw [decide_eq_true_iff]

variable {s}

section

variable (hout : ¬ s.ChildrenOut t.loop e)

include hout

/-- Where the updater goes, while no ancestor takes it out. -/
theorem destState_updater :
  ((s.child 1).state = .waiting → destState (s.childView t.loop e 1 t.updater) =
    if (s.child 0).state = .finished then some { state := .executing } else none) ∧
  ((s.child 1).state = .executing → destState (s.childView t.loop e 1 t.updater) =
    if (e.body 1).ack then some ⟨.iterationEnded, some .success, none⟩ else none) ∧
  ((s.child 1).state = .iterationEnded → destState (s.childView t.loop e 1 t.updater) =
    some { state := .finished })
  := by
  have hancestors : ¬ (s.childView t.loop e 1 t.updater).AncestorOut := hout
  unfold NodeView.AncestorOut at hancestors
  rw [not_or, not_or, Bool.not_eq_true, Bool.not_eq_true, Bool.not_eq_true] at hancestors
  obtain ⟨hancestorExit, hancestorInvariant, hancestorEnd⟩ := hancestors
  have hexit : (s.childView t.loop e 1 t.updater).exit = none := rfl
  have hskip : (s.childView t.loop e 1 t.updater).skip = none := rfl
  have hpre : (s.childView t.loop e 1 t.updater).pre = none := rfl
  have hinvariant : (s.childView t.loop e 1 t.updater).invariant = none := rfl
  have hend : (s.childView t.loop e 1 t.updater).end = none := rfl
  have hpost : (s.childView t.loop e 1 t.updater).post = none := rfl
  have hrepeat : (s.childView t.loop e 1 t.updater).repeat = none := rfl
  refine ⟨?_, ?_, ?_⟩
  · intro hwaiting
    unfold destState
    rw [show (s.childView t.loop e 1 t.updater).state = .waiting from hwaiting]
    unfold getDestStateFromWaiting
    rw [hancestorExit, hancestorInvariant, hancestorEnd, hexit, hskip, hpre]
    by_cases hfinished : (s.child 0).state = .finished
    · rw [(updater_start s).mpr hfinished, if_pos hfinished]
      rfl
    · rw [if_neg hfinished, Bool.eq_true_of_not_eq_false (mt (updater_start s).mp hfinished)]
      rfl
  · intro hexecuting
    unfold destState
    rw [show (s.childView t.loop e 1 t.updater).state = .executing from hexecuting]
    unfold getDestStateFromExecuting
    rw [show (s.childView t.loop e 1 t.updater).nodeType = .assignment from rfl]
    dsimp only
    unfold AssignmentNode.getDestStateFromExecuting iterationEnded
    rw [interruption_none hancestorExit (by rw [hexit]; rfl) hancestorInvariant
      (by rw [hinvariant]; rfl), hend, hpost,
      show (s.childView t.loop e 1 t.updater).actionComplete = some (some (e.body 1).ack) from rfl]
    cases (e.body 1).ack <;> rfl
  · intro hended
    unfold destState
    rw [show (s.childView t.loop e 1 t.updater).state = .iterationEnded from hended]
    unfold getDestStateFromIterationEnded
    rw [hancestorExit, hancestorInvariant, hancestorEnd, hrepeat]
    rfl

/-- What the updater does in a batch. -/
theorem step_updater (hrunning : s.list.state.isRunning = true) (hfresh : (s.child 1).Fresh)
    (h : (s.child 1).state = .inactive ∨ (s.child 1).state = .waiting ∨
      (s.child 1).state = .executing ∨ Updated (s.child 1)) :
  UpdaterStep ((s.child 0).state = .finished) (s.child 1) ((s.step t.loop e).child 1)
  := by
  have hlist : s.list.state ≠ .waiting := by
    intro heq
    rw [heq] at hrunning
    contradiction
  obtain ⟨hwaits, hexecutes, hends⟩ := destState_updater hout
  rcases h with h | h | h | h
  · apply UpdaterStep.inactive h
    by_cases hexecuting : s.list.state = .executing
    · rcases step_inactive_executing t.child_updater h hexecuting with ⟨hout', -⟩ | ⟨-, heq⟩
      · contradiction
      · right
        exact heq
    · left
      rw [step_inactive_idle t.child_updater h hexecuting]
      · exact h
      · intro heq
        rw [heq] at hrunning
        contradiction
  · rcases t.updater.move_cases (e.blocked (.child 1)) (s.childView t.loop e 1 t.updater)
      (s.child 1) with heq | ⟨d, hdest, heq⟩
    · apply UpdaterStep.waits h
      rw [step_child t.child_updater, heq]
      exact h
    · rw [hwaits h] at hdest
      split at hdest
      · rename_i hfinished
        apply UpdaterStep.starts h (decide_eq_true hfinished)
        rw [step_child t.child_updater, heq, NodeStatus.transition_state, ← Option.some_inj.mp hdest]
      · contradiction
  · rw [step_child t.child_updater]
    have hdest := hexecutes h
    cases hack : (e.body 1).ack with
    | true =>
      rw [hack, if_pos rfl] at hdest
      apply UpdaterStep.updates h
      rw [CoreNode.move_some hdest (by decide)]
      unfold NodeStatus.transition NodeStatus.leave
      rw [h]
      exact ⟨.inl rfl, rfl, (hfresh (by rw [h]; rfl)).2⟩
    | false =>
      rw [hack, if_neg Bool.false_ne_true] at hdest
      apply UpdaterStep.executes h
      rw [CoreNode.move_none hdest]
      exact h
  · rcases h.1 with hended | hfinished
    · have heq : (s.step t.loop e).child 1 = { s.child 1 with state := .finished } := by
        rw [step_child t.child_updater, CoreNode.move_some (hends hended) (by decide)]
        unfold NodeStatus.transition NodeStatus.leave
        rw [hended]
        rfl
      rw [heq]
      exact UpdaterStep.updated h ⟨.inr rfl, h.2⟩ rfl
    · rw [step_finished t.child_updater hfinished hlist]
      exact UpdaterStep.updated h h hfinished

end

end

/-! ### The log of an iteration -/

/-- The invariant of the runs of the loop. -/
structure Updating (t : ForElement) (l : Logged) : Prop extends l.Orderly t.loop where
  updater : l.family.list.state.isRunning = true → (l.family.child 1).state = .inactive ∨
    (l.family.child 1).state = .waiting ∨ (l.family.child 1).state = .executing ∨
    Updated (l.family.child 1)
  ran : l.family.list.state.isRunning = true → 1 ∈ l.started →
    (l.family.child 0).state = .finished ∧ (l.family.child 1).state ≠ .waiting
  log : ∃ n, l.started = List.replicate n 0 ∨ l.started = List.replicate n 0 ++ [1]

theorem updating_initial (t : ForElement) :
  t.Updating .initial
  where
  toOrderly := Logged.orderly_initial t.loop
  updater h := by contradiction
  ran h := by contradiction
  log := ⟨0, .inl rfl⟩

/-- The updater starts when the action is finished. -/
theorem finished_of_starts (h : 1 ∈ l.family.starts t.loop e) :
  (l.family.child 0).state = .finished
  := by
  obtain ⟨-, c, hc, -, hstart⟩ := starts_conditions h
  rw [t.child_updater] at hc
  cases hc
  apply (updater_start l.family).mp hstart

/-- When the loop starts to execute, the updater is inactive. -/
theorem Updating.inactive_of_started (h : t.Updating l)
    (hidle : l.family.list.state.isRunning = false)
    (hrunning : (l.step t.loop e).family.list.state.isRunning = true) :
  ((l.family.step t.loop e).child 1).state = .inactive
  := by
  have hwaiting := Logged.waiting_of_running hidle hrunning
  apply (h.step_child_rest _ _ t.one_lt_length).resolve_right
  · intro hfinished
    apply hfinished.2 hwaiting
  · rw [hwaiting]
    decide
  · rw [hwaiting]
    rfl

section

variable (h : t.Updating l) (hcut : l.family.NotCutShort t.loop e)

include h

/-- Nothing starts any more when the updater has started. -/
theorem Updating.starts_nil (hrunning : l.family.list.state.isRunning = true)
    (hmem : 1 ∈ l.started) :
  l.family.starts t.loop e = []
  := by
  obtain ⟨hfinished, hnotWaiting⟩ := h.ran hrunning hmem
  have hstarts : l.family.starts t.loop e =
      (if 0 ∈ l.family.starts t.loop e then [0] else []) ++
        (if 1 ∈ l.family.starts t.loop e then [1] else []) := starts_pair t.length_children
  rw [hstarts, if_neg, if_neg]
  · rfl
  · intro hone
    exact hnotWaiting (mem_starts.mp hone).2.1
  · intro hzero
    rw [(mem_starts.mp hzero).2.1] at hfinished
    contradiction

theorem Updating.log_step :
  ∃ n, (l.step t.loop e).started = List.replicate n 0 ∨
    (l.step t.loop e).started = List.replicate n 0 ++ [1]
  := by
  cases hrunning : l.family.list.state.isRunning with
  | false =>
    use 0
    left
    apply Logged.step_started_of_idle hrunning
  | true =>
    have hstarted : (l.step t.loop e).started = l.started ++ l.family.starts t.loop e := by
      unfold Logged.step
      dsimp only
      rw [if_pos hrunning]
    rw [hstarted]
    obtain ⟨n, hn | hn⟩ := h.log
    · have hstarts : l.family.starts t.loop e =
          (if 0 ∈ l.family.starts t.loop e then [0] else []) ++
            (if 1 ∈ l.family.starts t.loop e then [1] else []) := starts_pair t.length_children
      by_cases hone : 1 ∈ l.family.starts t.loop e
      · have hzero : 0 ∉ l.family.starts t.loop e := by
          intro hzero
          have hfinished := finished_of_starts hone
          rw [(mem_starts.mp hzero).2.1] at hfinished
          contradiction
        rw [if_neg hzero, if_pos hone] at hstarts
        use n
        right
        rw [hn, hstarts]
        rfl
      · rw [if_neg hone, List.append_nil] at hstarts
        split at hstarts
        · use n + 1
          left
          rw [hn, hstarts, List.replicate_succ']
        · use n
          left
          rw [hn, hstarts, List.append_nil]
    · use n
      right
      rw [h.starts_nil hrunning (by rw [hn]; simp), List.append_nil]
      exact hn

include hcut

/-- What the updater does in a batch while the loop runs. -/
theorem Updating.updater_step (hrunning : l.family.list.state.isRunning = true) :
  UpdaterStep ((l.family.child 0).state = .finished) (l.family.child 1)
    ((l.family.step t.loop e).child 1)
  := by
  apply step_updater _ hrunning (h.fresh 1) (h.updater hrunning)
  apply Logged.not_childrenOut rfl hcut

theorem Updating.step :
  t.Updating (l.step t.loop e)
  where
  toOrderly := h.toOrderly.step rfl rfl hcut
  updater hrunning' := by
    cases hrunning : l.family.list.state.isRunning with
    | true =>
      cases h.updater_step hcut hrunning with
      | inactive _ h' =>
        rcases h' with h' | h'
        · exact .inl h'
        · exact .inr (.inl h')
      | waits _ h' => exact .inr (.inl h')
      | starts _ _ h' => exact .inr (.inr (.inl h'))
      | executes _ h' => exact .inr (.inr (.inl h'))
      | updates _ h' => exact .inr (.inr (.inr h'))
      | updated _ h' _ => exact .inr (.inr (.inr h'))
    | false =>
      left
      apply h.inactive_of_started hrunning hrunning'
  ran hrunning' hmem := by
    cases hrunning : l.family.list.state.isRunning with
    | false =>
      rw [Logged.step_started_of_idle hrunning] at hmem
      contradiction
    | true =>
      have hlist : l.family.list.state ≠ .waiting := by
        intro heq
        rw [heq] at hrunning
        contradiction
      have hbefore : (l.family.child 0).state = .finished := by
        rcases (Logged.mem_step_started hrunning).mp hmem with hmem | hmem
        · exact (h.ran hrunning hmem).1
        · apply finished_of_starts hmem
      constructor
      · change ((l.family.step t.loop e).child 0).state = .finished
        rw [step_finished (show t.loop.children[0]? = some t.body.node from rfl) hbefore hlist]
        exact hbefore
      · intro hwaiting
        rcases (Logged.mem_step_started hrunning).mp hmem with hmem | hmem
        · obtain ⟨-, hnotWaiting⟩ := h.ran hrunning hmem
          have hnotInactive := (h.logged 1 hmem).2 hrunning
          rcases step_eq_waiting t.child_updater hwaiting with heq | ⟨-, heq | ⟨-, hrepeat⟩⟩
          · contradiction
          · contradiction
          · contradiction
        · obtain ⟨-, -, hruns⟩ := mem_starts.mp hmem
          change ((l.family.step t.loop e).child 1).state = _ at hwaiting
          rw [hwaiting] at hruns
          contradiction
  log := h.log_step

end

/-! ### Runs -/

/-- A complete iteration. -/
def Complete (l : Logged) : Prop :=
  (∃ n, l.started = List.replicate n 0 ++ [1]) ∧ (l.family.child 0).state = .finished ∧
    Updated (l.family.child 1)

/-- The condition is tested before each iteration, which is skipped when it is false. -/
def TestsCondition (t : ForElement) (s : Family) (e : Surroundings) : Prop :=
  (s.list.state = .waiting → (s.step t.loop e).list.state =
    if (e.base .list).user t.condition = some false then .finished else .executing) ∧
  (s.list.state = .iterationEnded → (s.step t.loop e).list.state = .waiting)

/-- In the run of these batches the loop variable is updated once in each iteration, after the
action and before the next test. -/
structure UpdatesOnce (t : ForElement) (es : List Surroundings) : Prop where
  complete : Always (Logged.machine t.loop) (fun l => l.family.list.state = .finishing →
    Complete l) es .initial
  after : Meets (Logged.machine t.loop) (fun l e => 1 ∈ l.family.starts t.loop e →
    (l.family.child 0).state = .finished) es .initial
  tested : Meets (Logged.machine t.loop) (fun l e => t.TestsCondition l.family e) es .initial
  ends : Meets (Logged.machine t.loop) (fun l e =>
    (l.family.list.state = .executing → (l.family.step t.loop e).list.state =
      if l.family.allFinished t.loop = true then .finishing else .executing) ∧
    (l.family.list.state = .finishing → (l.family.step t.loop e).list.state = .iterationEnded))
      es .initial

/-- A run of the loop which is not cut short. -/
def UncutRun (t : ForElement) : Type :=
  { es : List Surroundings // Meets (Logged.machine t.loop)
    (fun l e => l.family.NotCutShort t.loop e) es .initial }

theorem Updating.complete (h : t.Updating l) (hfinishing : l.family.list.state = .finishing) :
  Complete l
  := by
  have hrunning : l.family.list.state.isRunning = true := by
    rw [hfinishing]
    rfl
  have hfinished := h.finishing hfinishing 1 t.one_lt_length
  have hupdated : Updated (l.family.child 1) := by
    rcases h.updater hrunning with heq | heq | heq | hupdated
    · rw [heq] at hfinished
      contradiction
    · rw [heq] at hfinished
      contradiction
    · rw [heq] at hfinished
      contradiction
    · exact hupdated
  refine ⟨?_, h.finishing hfinishing 0 (Nat.zero_lt_of_lt t.one_lt_length), hupdated⟩
  obtain ⟨n, hn | hn⟩ := h.log
  · have hnot : 1 ∉ l.started := by
      rw [hn, List.mem_replicate]
      simp
    rcases h.unstarted hrunning 1 t.one_lt_length hnot with
      heq | heq | heq
    · rw [heq] at hfinished
      contradiction
    · rw [heq] at hfinished
      contradiction
    · have houtcome := hupdated.2.1
      rw [heq] at houtcome
      contradiction
  · use n

theorem testsCondition (t : ForElement) {s : Family} (hcut : s.NotCutShort t.loop e) :
  t.TestsCondition s e
  := by
  have hskip : (s.listView t.loop e).skip = some (((e.base .list).user t.condition).map (!·)) := rfl
  constructor
  · intro hwaiting
    split
    · rename_i hfalse
      have hdest : destState (s.listView t.loop e) = some .skipped := by
        unfold destState
        rw [show (s.listView t.loop e).state = .waiting from hwaiting]
        unfold getDestStateFromWaiting
        rw [show (s.listView t.loop e).ancestorExit.isTrue = false from hcut.ancestorExit,
          show (s.listView t.loop e).exit.isTrue = false from hcut.exit,
          show (s.listView t.loop e).ancestorInvariant.isFalse = false from hcut.ancestorInvariant,
          show (s.listView t.loop e).ancestorEnd.isTrue = false from hcut.ancestorEnd, hskip,
          hfalse]
        rfl
      change (t.loop.move (e.blocked .list) (s.listView t.loop e) s.list).state = _
      rw [CoreNode.move_some hdest (by decide), NodeStatus.transition_state]
      rfl
    · rename_i hnot
      apply step_list_waiting_free hcut hwaiting rfl rfl _ rfl
      rw [hskip]
      revert hnot
      rcases (e.base .list).user t.condition with - | - | - <;> decide
  · intro hended
    have hrepeat : (s.listView t.loop e).repeat = some (some true) := rfl
    rw [step_list_iterationEnded_known hcut hended hrepeat, if_pos rfl]

theorem updatesOnce_of_uncut (es : t.UncutRun) :
  t.UpdatesOnce es.1
  := by
  have hstep : ∀ l e l', t.Updating l → l.family.NotCutShort t.loop e →
      Logged.machine t.loop l e = some l' → t.Updating l' := by
    rintro l e l' h hcut ⟨⟩
    apply h.step hcut
  have hinitial := updating_initial t
  constructor
  · apply es.2.always _ hinitial (fun hfinishing => by contradiction)
    intro l e l' h _ hcut hl'
    have h' := hstep l e l' h hcut hl'
    exact ⟨h', h'.complete⟩
  · apply es.2.meets hstep _ hinitial
    intro l e h hcut hmem
    apply finished_of_starts hmem
  · apply es.2.meets hstep _ hinitial
    intro l e h hcut
    apply t.testsCondition hcut
  · apply es.2.meets hstep _ hinitial
    intro l e h hcut
    constructor
    · intro hexecuting
      apply Logged.step_executing rfl rfl hcut hexecuting
    · intro hfinishing
      change (l.step t.loop e).family.list.state = _
      rw [h.step_finishing rfl hcut hfinishing, NodeStatus.transition_state]
      apply iterationEnded_state

end ForElement

end Plexil.Epx
