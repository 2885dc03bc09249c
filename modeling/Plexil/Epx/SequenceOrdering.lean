import Plexil.Epx.Sequences

/-!
# The order of a sequence

In every run in which no child exits early or repeats late, the children of a sequence are
carried out one at a time and in order, and after a failure no child of a checked sequence
starts.
-/

namespace Plexil.Epx

open StateMachine (Always Meets)

/-- The elements which are translated to a sequence. -/
inductive SequenceElement where
  | sequence | checkedSequence | uncheckedSequence
  deriving DecidableEq

namespace SequenceElement

/-- `Sequence` is a checked sequence. -/
def translate : SequenceElement → ActionElement → List CoreNode → CoreNode
  | sequence | checkedSequence => Epx.checkedSequence
  | uncheckedSequence => Epx.uncheckedSequence

def isChecked : SequenceElement → Bool
  | sequence | checkedSequence => true
  | uncheckedSequence => false

theorem nodeType_translate (element : SequenceElement) (action : ActionElement)
    (children : List CoreNode) :
  (element.translate action children).nodeType = .nodeList
  := by
  cases element <;> rfl

theorem linked_translate (element : SequenceElement) (action : ActionElement)
    (children : Siblings) :
  Linked (element.translate action children.nodes)
  := by
  apply linked_linkSequenceChildren _ children
  cases element <;> rfl

end SequenceElement

namespace Family

variable {node : CoreNode} {e : Surroundings} {s : Family}

/-! ### After a failure -/

/-- The batch starts no child after a child has failed. -/
def NoStartAfterFailure (node : CoreNode) (s : Family) (e : Surroundings) : Prop :=
  ∀ i k, i < node.children.length → (s.child i).failed = true → k < node.children.length →
    (s.child k).state ≠ .executing → ((s.step node e).child k).state ≠ .executing

/-- The invariant condition of a checked sequence is false once a child has failed. -/
theorem invariant_checkedSequence (action : ActionElement) (children : List CoreNode)
    (σ : Valuation) (hfailed : σ.childFailed .self = true) :
  ((checkedSequence action children).value σ .invariant).isFalse = true
  := by
  have hnone : (action.conditions.filter fun element =>
      element.1 ≠ .invariant).lookup .invariant = none := by
    rw [List.lookup_eq_none_iff]
    intro element helement
    have := (List.mem_filter.mp helement).2
    simpa using Ne.symm (of_decide_eq_true this)
  have hno : CoreExpr.eval σ (.noChildFailed .self) = some false := by
    rw [CoreExpr.eval, hfailed]
    rfl
  unfold CoreNode.value CoreNode.condition checkedSequence
  dsimp only
  rw [List.lookup_append, hnone, Option.none_or]
  simp only [successInvariantCondition, List.lookup_cons_self, Option.map_some,
    Condition.isFalse, decide_eq_true_eq, Option.some.injEq]
  split
  · exact hno
  · rw [CoreExpr.eval, CoreExpr.evalAnd_eq_false]
    use .noChildFailed .self
    rw [List.mem_append, List.mem_singleton]
    exact ⟨.inr rfl, hno⟩

theorem noStartAfterFailure_checkedSequence (action : ActionElement) (children : List CoreNode)
    (s : Family) (e : Surroundings) :
  s.NoStartAfterFailure (checkedSequence action children) e
  := by
  intro i k hi hfailed hk hidle hstarted
  have hout : s.ChildrenOut (checkedSequence action children) e := by
    rw [childrenOut_iff]
    right; right; right; left
    apply invariant_checkedSequence
    apply decide_eq_true
    use i, hi
  obtain ⟨c, hc⟩ := exists_child hk
  have hwaiting : (s.child k).state = .waiting := step_eq_executing hc hstarted hidle
  rw [step_waiting_out hc hwaiting hout] at hstarted
  contradiction

/-! ### Runs -/

/-- In the run of these batches the children are carried out in order. -/
structure CarriedOutInOrder (node : CoreNode) (checked : Bool) (es : List Surroundings) :
    Prop where
  atMostOne : Always (machine node) (AtMostOneRuns node) es initial
  inTurn : Meets (machine node) (LeavesInTurn node) es initial
  afterFailure : checked = true → Meets (machine node) (NoStartAfterFailure node) es initial

/-- The batches of a run in which no child exits early or repeats late. -/
def OrderlyRun (node : CoreNode) : Type :=
  { es : List Surroundings // Meets (machine node)
    (fun s e => s.NoEarlyExit node e ∧ s.NoLateRepeat node e) es initial }

theorem OrderlyRun.atMostOneRuns (hlist : node.nodeType = .nodeList) (hlinked : Linked node)
    (es : OrderlyRun node) :
  Always (machine node) (AtMostOneRuns node) es.1 initial
  := by
  have hinitial := inSequence_initial node
  apply es.2.always _ hinitial hinitial.atMostOneRuns
  rintro s e s' h - ⟨hexit, hlate⟩ ⟨⟩
  have h' := h.step hlist hlinked hexit hlate
  exact ⟨h', h'.atMostOneRuns⟩

theorem OrderlyRun.leavesInTurn (hlist : node.nodeType = .nodeList) (hlinked : Linked node)
    (es : OrderlyRun node) :
  Meets (machine node) (LeavesInTurn node) es.1 initial
  := by
  apply es.2.meets _ _ (inSequence_initial node)
  · rintro s e s' h ⟨hexit, hlate⟩ ⟨⟩
    apply h.step hlist hlinked hexit hlate
  · rintro s e - ⟨hexit, -⟩
    apply leavesInTurn_of_linked hlinked hexit

end Family

open Family

/-- A sequence carries out its children in order. -/
theorem sequence_carriedOutInOrder (element : SequenceElement) (action : ActionElement)
    (children : Siblings) (es : OrderlyRun (element.translate action children.nodes)) :
  CarriedOutInOrder (element.translate action children.nodes) element.isChecked es.1
  where
  atMostOne := es.atMostOneRuns (element.nodeType_translate action children.nodes)
    (element.linked_translate action children)
  inTurn := es.leavesInTurn (element.nodeType_translate action children.nodes)
    (element.linked_translate action children)
  afterFailure hchecked := by
    apply Meets.of_forall
    intro e _ s
    cases element
    case uncheckedSequence => contradiction
    all_goals apply noStartAfterFailure_checkedSequence

/-! ### A child which exits early -/

/-- Three actions, the second of which has a true exit condition. -/
def earlyExit : Siblings where
  nodes :=
    [⟨"A", .empty, false, [(.end, .boolean false)], []⟩,
      ⟨"B", .empty, false, [(.exit, .boolean true)], []⟩,
      ⟨"C", .empty, false, [(.end, .boolean false)], []⟩]
  distinct := by decide

/-- A root node in whose surroundings nothing happens. -/
def quietSurroundings : Surroundings where
  ancestor := ⟨none, none, none⟩
  grandparent := none
  body _ := ⟨false, false, .noCommandHandle, false, false⟩
  base _ := ⟨fun _ => none, fun _ => none, fun _ => false, fun _ => none, fun _ => false,
    fun _ => false⟩
  blocked _ := false

/-- The third action starts while the first one is executing. -/
theorem sequence_not_carriedOutInOrder :
  ¬ ∀ (element : SequenceElement) (action : ActionElement) (children : Siblings)
      (es : List Surroundings),
    CarriedOutInOrder (element.translate action children.nodes) element.isChecked es
  := by
  intro h
  have hrun : (StateMachine.run
      (machine (SequenceElement.sequence.translate ⟨"Seq", false, []⟩ earlyExit.nodes))
      (List.replicate 5 quietSurroundings) initial).map
        (fun s => ((s.child 0).state, (s.child 2).state)) =
      some (NodeState.executing, NodeState.executing) := by
    decide +kernel
  obtain ⟨s, hs, hstates⟩ := Option.map_eq_some_iff.mp hrun
  obtain ⟨hfirst, hthird⟩ := Prod.mk.inj hstates
  have honce := (h .sequence ⟨"Seq", false, []⟩ earlyExit
    (List.replicate 5 quietSurroundings)).atMostOne.of_run hs
  have heq : 0 = 2 := honce 0 2 (by decide) (by decide) (by rw [hfirst]; rfl)
    (by rw [hthird]; rfl)
  contradiction

end Plexil.Epx
