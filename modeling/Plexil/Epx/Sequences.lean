import Plexil.Epx.FamilySpec

/-!
# Sequences

The children of a sequence are translated first, and then linked: every child but the first
starts, and is skipped, only when the child before it is finished.  A checked sequence has
besides the invariant condition that no child failed.

The linkage says nothing of the exit conditions of the children.  A child whose own exit
condition is true finishes when it has not been its turn, and then the child after it starts
while an earlier one is running.
-/

namespace Plexil.Epx

/-- What the translator copies of an action into the node it builds. -/
structure ActionElement where
  nodeId : String
  usingMutex : Bool
  conditions : List (ConditionName × CoreExpr)

/-! ### The translation -/

/-- The expressions of the condition elements with a name. -/
def select (conditions : List (ConditionName × CoreExpr)) (c : ConditionName) : List CoreExpr :=
  (conditions.filter fun element => element.1 = c).map Prod.snd

/-- `ordered-start-condition`. -/
def orderedStartCondition (preceding : Option CoreNode) (node : CoreNode) :
    List (ConditionName × CoreExpr) :=
  let user := select node.conditions .start
  match preceding with
  | some sibling =>
    let startTest := CoreExpr.finished (.sibling sibling.nodeId)
    [(.start, if user.isEmpty then startTest else .and (startTest :: user))]
  | none => user.map fun e => (.start, e)

/-- `ordered-skip-condition`. -/
def orderedSkipCondition (preceding : Option CoreNode) (node : CoreNode) :
    List (ConditionName × CoreExpr) :=
  let user := select node.conditions .skip
  if user.isEmpty then []
  else
    match preceding with
    | some sibling => [(.skip, .and (.finished (.sibling sibling.nodeId) :: user))]
    | none => user.map fun e => (.skip, e)

/-- `sequence-linkage`. -/
def sequenceLinkage (preceding : Option CoreNode) (node : CoreNode) : CoreNode :=
  { node with
    conditions := orderedStartCondition preceding node ++ orderedSkipCondition preceding node ++
      node.conditions.filter fun element => element.1 ≠ .start ∧ element.1 ≠ .skip }

/-- The loop of `link-sequence-children`, where `preceding` is the child before. -/
def linkFrom : Option CoreNode → List CoreNode → List CoreNode
  | _, [] => []
  | preceding, node :: rest => sequenceLinkage preceding node :: linkFrom (some node) rest

/-- `link-sequence-children`. -/
def linkSequenceChildren (children : List CoreNode) : List CoreNode := linkFrom none children

/-- `UncheckedSequence`. -/
def uncheckedSequence (action : ActionElement) (children : List CoreNode) : CoreNode where
  nodeId := action.nodeId
  nodeType := .nodeList
  usingMutex := action.usingMutex
  conditions := action.conditions
  children := linkSequenceChildren children

/-- `success-invariant-condition`. -/
def successInvariantCondition (expandedInvariant : List CoreExpr) : ConditionName × CoreExpr :=
  (.invariant,
    if expandedInvariant.isEmpty then .noChildFailed .self
    else .and (expandedInvariant ++ [.noChildFailed .self]))

/-- `CheckedSequence`. -/
def checkedSequence (action : ActionElement) (children : List CoreNode) : CoreNode where
  nodeId := action.nodeId
  nodeType := .nodeList
  usingMutex := action.usingMutex
  conditions := (action.conditions.filter fun element => element.1 ≠ .invariant) ++
    [successInvariantCondition (select action.conditions .invariant)]
  children := linkSequenceChildren children

/-- The nodes of a list whose node ids are different, as they are checked to be. -/
structure Siblings where
  nodes : List CoreNode
  distinct : (nodes.map CoreNode.nodeId).Nodup

/-! ### Linked children -/

theorem length_linkFrom (preceding : Option CoreNode) (children : List CoreNode) :
  (linkFrom preceding children).length = children.length
  := by
  induction children generalizing preceding with
  | nil => rfl
  | cons node rest ih => rw [linkFrom, List.length_cons, List.length_cons, ih]

theorem nodeId_linkFrom (preceding : Option CoreNode) (children : List CoreNode) :
  (linkFrom preceding children).map CoreNode.nodeId = children.map CoreNode.nodeId
  := by
  induction children generalizing preceding with
  | nil => rfl
  | cons node rest ih =>
    rw [linkFrom, List.map_cons, List.map_cons, ih]
    rfl

/-- A child but the first is linked with the child before it. -/
theorem linkFrom_succ (preceding : Option CoreNode) (children : List CoreNode) (i : Nat) :
  (linkFrom preceding children)[i + 1]? =
    children[i + 1]?.map (sequenceLinkage children[i]?)
  := by
  induction children generalizing preceding i with
  | nil => rfl
  | cons node rest ih =>
    cases i with
    | zero =>
      cases rest with
      | nil => rfl
      | cons node' rest => rfl
    | succ i =>
      rw [linkFrom, List.getElem?_cons_succ, ih, List.getElem?_cons_succ,
        List.getElem?_cons_succ]

/-- The conditions of a linked child read the state of the child before it. -/
structure Linked (node : CoreNode) : Prop where
  start : ∀ (e : Surroundings) (s : Family) (i : Nat) (c : CoreNode),
    node.children[i + 1]? = some c → (s.childView node e (i + 1) c).start.isNotTrue = false →
    (s.child i).state = .finished
  skip : ∀ (e : Surroundings) (s : Family) (i : Nat) (c : CoreNode),
    node.children[i + 1]? = some c → (s.childView node e (i + 1) c).skip.isTrue = true →
    (s.child i).state = .finished

/-- A child is found by its node id. -/
theorem find_nodeId {node : CoreNode} (hdistinct : (node.children.map CoreNode.nodeId).Nodup)
    (s : Family) {i : Nat} {c : CoreNode} (hc : node.children[i]? = some c) :
  s.find node c.nodeId = some (s.child i)
  := by
  obtain ⟨hi, rfl⟩ := List.getElem?_eq_some_iff.mp hc
  unfold Family.find
  rw [Option.map_eq_some_iff]
  refine ⟨i, List.findIdx?_eq_some_iff_getElem.mpr ⟨hi, ?_, ?_⟩, rfl⟩
  · simp
  · intro j hj
    have hne := List.pairwise_iff_getElem.mp hdistinct j i (by simp; omega) (by simpa) hj
    simpa using hne

theorem condition_start (sibling node : CoreNode) :
  (sequenceLinkage (some sibling) node).condition .start =
    some (if (select node.conditions .start).isEmpty then .finished (.sibling sibling.nodeId)
      else .and (.finished (.sibling sibling.nodeId) :: select node.conditions .start))
  := by
  simp [CoreNode.condition, sequenceLinkage, orderedStartCondition]

theorem condition_skip (sibling node : CoreNode) :
  (sequenceLinkage (some sibling) node).condition .skip =
    if (select node.conditions .skip).isEmpty then none
    else some (.and (.finished (.sibling sibling.nodeId) :: select node.conditions .skip))
  := by
  have hnone : (node.conditions.filter fun element =>
      element.1 ≠ .start ∧ element.1 ≠ .skip).lookup .skip = none := by
    rw [List.lookup_eq_none_iff]
    intro element helement
    have := (List.mem_filter.mp helement).2
    simp only [decide_eq_true_eq] at this
    simpa using Ne.symm this.2
  unfold CoreNode.condition sequenceLinkage orderedStartCondition orderedSkipCondition
  dsimp only
  rw [List.lookup_append, List.lookup_append, hnone, Option.or_none]
  by_cases hempty : (select node.conditions .skip).isEmpty = true
  · rw [if_pos hempty, if_pos hempty]
    rfl
  · rw [if_neg hempty, if_neg hempty]
    rfl

/-- A linked child is found by the node id which it had before it was linked. -/
theorem find_linked {node : CoreNode} (children : Siblings)
    (hchildren : node.children = linkSequenceChildren children.nodes) (s : Family) {i : Nat}
    {action : CoreNode} (haction : children.nodes[i]? = some action) :
  s.find node action.nodeId = some (s.child i)
  := by
  have hids : node.children.map CoreNode.nodeId = children.nodes.map CoreNode.nodeId := by
    rw [hchildren]
    apply nodeId_linkFrom
  have hdistinct : (node.children.map CoreNode.nodeId).Nodup := by
    rw [hids]
    exact children.distinct
  have hid : node.children[i]?.map CoreNode.nodeId = some action.nodeId := by
    rw [← List.getElem?_map, hids, List.getElem?_map, haction]
    rfl
  obtain ⟨c, hc, hsame⟩ := Option.map_eq_some_iff.mp hid
  rw [← hsame]
  apply find_nodeId hdistinct s hc

/-- The child before a linked child is found by the node id in the conditions. -/
theorem exists_linkage {node : CoreNode} (children : Siblings)
    (hchildren : node.children = linkSequenceChildren children.nodes) {i : Nat} {c : CoreNode}
    (hc : node.children[i + 1]? = some c) :
  ∃ sibling action, c = sequenceLinkage (some sibling) action ∧
    ∀ s : Family, s.find node sibling.nodeId = some (s.child i)
  := by
  have hlinkage : children.nodes[i + 1]?.map (sequenceLinkage children.nodes[i]?) = some c := by
    rw [← linkFrom_succ none, ← hc, hchildren]
    rfl
  obtain ⟨action, haction, rfl⟩ := Option.map_eq_some_iff.mp hlinkage
  have hi : i < children.nodes.length := by
    have := (List.getElem?_eq_some_iff.mp haction).1
    omega
  have hsibling := List.getElem?_eq_getElem hi
  rw [hsibling]
  refine ⟨children.nodes[i], action, rfl, ?_⟩
  intro s
  apply find_linked children hchildren s hsibling

/-- `Finished` of a sibling, alone or in a conjunction, is true only of a finished sibling. -/
theorem finished_of_eval {node : CoreNode} {e : Surroundings} {s : Family} {i j : Nat}
    {nodeId : String} {user : List CoreExpr} (hfind : s.find node nodeId = some (s.child i))
    (h : CoreExpr.eval (s.childValuation node e j)
      (if user.isEmpty then .finished (.sibling nodeId)
        else .and (.finished (.sibling nodeId) :: user)) = some true) :
  (s.child i).state = .finished
  := by
  have hfinished : CoreExpr.eval (s.childValuation node e j) (.finished (.sibling nodeId)) =
      some true := by
    split at h
    · exact h
    · rw [CoreExpr.eval, CoreExpr.evalAnd_eq_true] at h
      apply h _ List.mem_cons_self
  rw [CoreExpr.eval] at hfinished
  dsimp only [Family.childValuation] at hfinished
  rw [hfind] at hfinished
  simpa [NodeStatus.finished] using hfinished

theorem linked_linkSequenceChildren (node : CoreNode) (children : Siblings)
    (hchildren : node.children = linkSequenceChildren children.nodes) :
  Linked node
  where
  start e s i c hc hstart := by
    obtain ⟨sibling, action, rfl, hfind⟩ := exists_linkage children hchildren hc
    apply finished_of_eval (hfind s)
    dsimp only [Family.childView, CoreNode.view, CoreNode.value] at hstart
    rw [condition_start, Option.map_some, Condition.isNotTrue_some] at hstart
    exact hstart
  skip e s i c hc hskip := by
    obtain ⟨sibling, action, rfl, hfind⟩ := exists_linkage children hchildren hc
    dsimp only [Family.childView, CoreNode.view, CoreNode.value] at hskip
    rw [condition_skip] at hskip
    split at hskip
    · contradiction
    · rename_i hempty
      apply @finished_of_eval node e s i (i + 1) sibling.nodeId (select action.conditions .skip)
        (hfind s)
      rw [if_neg hempty]
      rw [Option.map_some, Condition.isTrue_some] at hskip
      exact hskip

/-! ### Runs -/

namespace Family

variable {node : CoreNode} {e : Surroundings} {s : Family}

/-- No child but the first is taken out of WAITING by its own exit condition before it is its
turn. -/
def NoEarlyExit (node : CoreNode) (s : Family) (e : Surroundings) : Prop :=
  ∀ i c, node.children[i + 1]? = some c → (s.child (i + 1)).state = .waiting →
    (s.childView node e (i + 1) c).exit.isTrue = true →
    s.ChildrenOut node e ∨ (s.child i).state = .finished

/-- A child leaves WAITING when the child before it is finished, or when an ancestor takes it
out. -/
def LeavesInTurn (node : CoreNode) (s : Family) (e : Surroundings) : Prop :=
  ∀ i c, node.children[i + 1]? = some c → (s.child (i + 1)).state = .waiting →
    ((s.step node e).child (i + 1)).state ≠ .waiting →
    s.ChildrenOut node e ∨ (s.child i).state = .finished

theorem leavesInTurn_of_linked (hlinked : Linked node) (hexit : s.NoEarlyExit node e) :
  s.LeavesInTurn node e
  := by
  intro i c hc hwaiting hleaves
  by_cases hout : s.ChildrenOut node e
  · left
    exact hout
  · rcases step_waiting hc hwaiting hout with h | ⟨-, h | h⟩ | ⟨-, -, h⟩
    · contradiction
    · apply hexit i c hc hwaiting h
    · right
      apply hlinked.skip e s i c hc h
    · right
      apply hlinked.start e s i c hc h

/-- The children which run do so one after the other.  When a child is taken out before a
child in front of it is finished, all later children are taken out with it. -/
structure OneAfterAnother (node : CoreNode) (s : Family) : Prop where
  running : ∀ j k, j < k → k < node.children.length → (s.child k).state.isRunning = true →
    (s.child j).state = .finished
  finished : ∀ j k l, j < k → k < node.children.length → (s.child j).state ≠ .finished →
    (s.child k).state = .finished → j < l → l < node.children.length →
    (s.child l).state = .finished

/-- At most one child is carrying out an iteration. -/
def AtMostOneRuns (node : CoreNode) (s : Family) : Prop :=
  ∀ j k, j < node.children.length → k < node.children.length →
    (s.child j).state.isRunning = true → (s.child k).state.isRunning = true → j = k

/-- The invariant of the runs of a sequence. -/
structure InSequence (node : CoreNode) (s : Family) : Prop extends s.Settled node where
  order : s.list.state = .executing ∨ s.list.state.isClosing = true → s.OneAfterAnother node

/-- A node which is not inactive. -/
theorem state_cases {x : NodeState} (hvalid : x ≠ .noNodeState) (hinactive : x ≠ .inactive) :
  x = .waiting ∨ x = .finished ∨ x.isRunning = true
  := by
  cases x <;> simp_all [NodeState.isRunning]

section

variable (hwaiting : s.list.state ≠ .waiting)
variable (hvalid : ∀ i < node.children.length, (s.child i).state ≠ .noNodeState)
variable (hactive : ∀ i < node.children.length, (s.child i).state ≠ .inactive)
variable (hturn : s.LeavesInTurn node e)

include hwaiting hvalid hactive hturn

/-- A child but the first runs after a batch when it ran before, or when it was its turn. -/
theorem running_of_step {k : Nat} (hk : k + 1 < node.children.length)
    (h : ((s.step node e).child (k + 1)).state.isRunning = true) :
  (s.child (k + 1)).state.isRunning = true ∨
    ((s.child (k + 1)).state = .waiting ∧ (s.child k).state = .finished)
  := by
  obtain ⟨c, hc⟩ := exists_child hk
  rcases state_cases (hvalid _ hk) (hactive _ hk) with hstate | hstate | hstate
  · right
    use hstate
    by_cases hout : s.ChildrenOut node e
    · rw [step_waiting_out hc hstate hout] at h
      contradiction
    · apply (hturn k c hc hstate _).resolve_left hout
      intro heq
      rw [heq] at h
      contradiction
  · rw [step_finished hc hstate hwaiting, hstate] at h
    contradiction
  · left
    exact hstate

omit hwaiting in
/-- A child but the first is finished after a batch when it was finished or ran before, or
when it was its turn, unless an ancestor has taken it out. -/
theorem finished_of_step {k : Nat} (hk : k + 1 < node.children.length)
    (h : ((s.step node e).child (k + 1)).state = .finished) :
  (s.child (k + 1)).state = .finished ∨ (s.child (k + 1)).state.isRunning = true ∨
    ((s.child (k + 1)).state = .waiting ∧
      (s.ChildrenOut node e ∨ (s.child k).state = .finished))
  := by
  obtain ⟨c, hc⟩ := exists_child hk
  rcases state_cases (hvalid _ hk) (hactive _ hk) with hstate | hstate | hstate
  · right
    right
    use hstate
    apply hturn k c hc hstate
    rw [h]
    decide
  · left
    exact hstate
  · right
    left
    exact hstate

omit hactive hvalid hturn in
theorem finished_step {k : Nat} (hk : k < node.children.length)
    (h : (s.child k).state = .finished) :
  ((s.step node e).child k).state = .finished
  := by
  obtain ⟨c, hc⟩ := exists_child hk
  rw [step_finished hc h hwaiting, h]

omit hwaiting hvalid hactive hturn in
/-- A child whose turn it is has only finished children before it. -/
theorem OneAfterAnother.turn (h : s.OneAfterAnother node) {j k : Nat} (hjk : j < k + 1)
    (hk : k + 1 < node.children.length) (hstate : (s.child (k + 1)).state ≠ .finished)
    (hbefore : (s.child k).state = .finished) :
  (s.child j).state = .finished
  := by
  by_contra hj
  have hne : j ≠ k := by
    rintro rfl
    contradiction
  apply hstate
  apply h.finished j k (k + 1) (by omega) (by omega) hj hbefore (by omega) hk

theorem OneAfterAnother.step (h : s.OneAfterAnother node) :
  (s.step node e).OneAfterAnother node
  where
  running j k hjk hk hrunning := by
    obtain ⟨k, rfl⟩ : ∃ k', k = k' + 1 := ⟨k - 1, by omega⟩
    apply finished_step hwaiting (by omega)
    rcases running_of_step hwaiting hvalid hactive hturn hk hrunning with hran | ⟨hstate, hbefore⟩
    · apply h.running j (k + 1) hjk hk hran
    · apply h.turn hjk hk _ hbefore
      rw [hstate]
      decide
  finished j k l hjk hk hj hfinished hjl hl := by
    obtain ⟨k, rfl⟩ : ∃ k', k = k' + 1 := ⟨k - 1, by omega⟩
    have hj' : (s.child j).state ≠ .finished := fun heq =>
      hj (finished_step hwaiting (by omega) heq)
    rcases finished_of_step hvalid hactive hturn hk hfinished with
      hstate | hstate | ⟨hstate, hout | hbefore⟩
    · apply finished_step hwaiting hl
      apply h.finished j (k + 1) l hjk hk hj' hstate hjl hl
    · apply absurd (h.running j (k + 1) hjk hk hstate) hj'
    · -- An ancestor takes out all children which are waiting, and the later ones do not run.
      obtain ⟨c, hc⟩ := exists_child hl
      rcases state_cases (hvalid l hl) (hactive l hl) with hstate' | hstate' | hstate'
      · apply step_waiting_out hc hstate' hout
      · apply finished_step hwaiting hl hstate'
      · apply absurd (h.running j l hjl hl hstate') hj'
    · apply absurd _ hj'
      apply h.turn hjk hk _ hbefore
      rw [hstate]
      decide

end

/-- All children leave INACTIVE in one batch. -/
theorem oneAfterAnother_of_inactive (hexecuting : s.list.state = .executing)
    (h : ∀ i < node.children.length, (s.child i).state = .inactive) :
  (s.step node e).OneAfterAnother node
  where
  running j k hjk hk hrunning := by
    obtain ⟨c, hc⟩ := exists_child hk
    rcases step_inactive_executing hc (h k hk) hexecuting with ⟨-, heq⟩ | ⟨-, heq⟩ <;>
      · rw [heq] at hrunning
        contradiction
  finished j k l hjk hk hj hfinished hjl hl := by
    obtain ⟨c, hc⟩ := exists_child hk
    obtain ⟨c', hc'⟩ := exists_child hl
    rcases step_inactive_executing hc (h k hk) hexecuting with ⟨hout, -⟩ | ⟨-, heq⟩
    · rcases step_inactive_executing hc' (h l hl) hexecuting with ⟨-, heq⟩ | ⟨hnot, -⟩
      · exact heq
      · contradiction
    · rw [heq] at hfinished
      contradiction

theorem inSequence_initial (node : CoreNode) :
  initial.InSequence node
  where
  toSettled := settled_initial node
  order h := by rcases h with h | h <;> contradiction

/-- A batch in which no child exits early or repeats late. -/
theorem InSequence.step (hlist : node.nodeType = .nodeList) (hlinked : Linked node)
    (h : s.InSequence node) (hexit : s.NoEarlyExit node e) (hlate : s.NoLateRepeat node e) :
  (s.step node e).InSequence node
  where
  toSettled := h.toSettled.step hlist hlate
  order horder := by
    have hturn := leavesInTurn_of_linked hlinked hexit
    by_cases hexecuting : s.list.state = .executing
    · rcases h.start hexecuting with hinactive | hactive
      · apply oneAfterAnother_of_inactive hexecuting hinactive
      · apply (h.order (.inl hexecuting)).step _ h.valid hactive hturn
        rw [hexecuting]
        decide
    · cases hclosing : s.list.state.isClosing with
      | true =>
        apply (h.order (.inr hclosing)).step _ h.valid (fun i hi => (h.closing hclosing i hi).1)
          hturn
        rintro heq
        rw [heq] at hclosing
        contradiction
      | false =>
        have hstarted : (s.step node e).list.state = .executing := by
          rcases horder with horder | horder
          · exact horder
          · rcases @step_list_rest node e s hexecuting hclosing with ⟨-, heq⟩ | ⟨-, hnot⟩
            · exact heq
            · rw [horder] at hnot
              contradiction
        have hinactive := h.step_started hexecuting hclosing hstarted
        constructor
        · intro j k hjk hk hrunning
          rw [hinactive k hk] at hrunning
          contradiction
        · intro j k l hjk hk hj hfinished hjl hl
          rw [hinactive k hk] at hfinished
          contradiction

theorem InSequence.atMostOneRuns (h : s.InSequence node) :
  s.AtMostOneRuns node
  := by
  intro j k hj hk hjruns hkruns
  have horder : s.OneAfterAnother node := by
    apply h.order
    by_contra hrest
    rw [not_or, Bool.not_eq_true] at hrest
    rcases h.rest hrest.1 hrest.2 j hj with heq | heq <;>
      · rw [heq] at hjruns
        contradiction
  rcases Nat.lt_trichotomy j k with hlt | heq | hlt
  · rw [horder.running j k hlt hk hkruns] at hjruns
    contradiction
  · exact heq
  · rw [horder.running k j hlt hj hjruns] at hkruns
    contradiction

end Family

end Plexil.Epx
