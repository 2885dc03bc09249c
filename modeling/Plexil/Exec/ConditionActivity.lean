import Plexil.Exec.ActivationBalance

/-!
# Consulted conditions

The conditions which `getDestState` looks at, one after the other until one of them decides, and
the expressions behind them.  The ancestor conditions which a node looks at belong to its
parent: they are its own exit, invariant and end conditions, combined with those of its ancestors
where both exist.  An expression is active when a node has activated it, or an expression of
which it is an argument.
-/

namespace Plexil

/-! ### Conditions which are looked at -/

/-- A condition of the values by its index. -/
def ConditionValues.get (v : ConditionValues) : ConditionIndex → Condition
  | .ancestorExit => v.ancestorExit
  | .ancestorInvariant => v.ancestorInvariant
  | .ancestorEnd => v.ancestorEnd
  | .skip => v.skip
  | .start => v.start
  | .pre => v.pre
  | .exit => v.exit
  | .invariant => v.invariant
  | .end => v.end
  | .post => v.post
  | .repeat => v.repeat
  | .actionComplete => v.actionComplete
  | .abortComplete => v.abortComplete

/-- The conditions up to the first one that decides. -/
def lookedAt : List (ConditionIndex × Bool) → List ConditionIndex
  | [] => []
  | (c, decides) :: rest => c :: if decides then [] else lookedAt rest

namespace NodeView

open Condition

/-- The checks of an interruption, in their order. -/
def interruptionChecks (v : NodeView) : List (ConditionIndex × Bool) :=
  [(.ancestorExit, isTrue v.ancestorExit), (.exit, isTrue v.exit),
    (.ancestorInvariant, isFalse v.ancestorInvariant), (.invariant, isFalse v.invariant)]

/-- The conditions which `getDestState` looks at, each with whether it decides. -/
def checks (v : NodeView) : List (ConditionIndex × Bool) :=
  match v.state with
  | .inactive =>
    match v.parentState with
    | some .executing =>
      [(.ancestorExit, isTrue v.ancestorExit), (.ancestorInvariant, isFalse v.ancestorInvariant),
        (.ancestorEnd, isTrue v.ancestorEnd)]
    | _ => []
  | .waiting =>
    [(.ancestorExit, isTrue v.ancestorExit), (.exit, isTrue v.exit),
      (.ancestorInvariant, isFalse v.ancestorInvariant), (.ancestorEnd, isTrue v.ancestorEnd),
      (.skip, isTrue v.skip), (.start, isNotTrue v.start), (.pre, isNotTrue v.pre)]
  | .executing =>
    match v.nodeType with
    | .empty | .update => v.interruptionChecks ++ [(.end, isNotTrue v.end), (.post, isNotTrue v.post)]
    | .assignment =>
      (.actionComplete, !isTrue v.actionComplete) ::
        (v.interruptionChecks ++ [(.end, isNotTrue v.end), (.post, isNotTrue v.post)])
    | .command | .nodeList | .libraryNodeCall =>
      v.interruptionChecks ++ [(.end, isNotTrue v.end)]
  | .finishing =>
    match v.nodeType with
    | .command | .nodeList | .libraryNodeCall =>
      v.interruptionChecks ++
        [(.actionComplete, !isTrue v.actionComplete), (.post, isNotTrue v.post)]
    | _ => []
  | .failing =>
    match v.nodeType with
    | .assignment | .command => [(.abortComplete, isTrue v.abortComplete)]
    | .update | .nodeList | .libraryNodeCall => [(.actionComplete, isTrue v.actionComplete)]
    | .empty => []
  | .iterationEnded =>
    [(.ancestorExit, isTrue v.ancestorExit), (.ancestorInvariant, isFalse v.ancestorInvariant),
      (.ancestorEnd, isTrue v.ancestorEnd), (.repeat, v.repeat.isSome)]
  | .finished | .noNodeState => []

/-- The conditions which `getDestState` evaluates; conditions which the node does not have are
passed over. -/
def evaluates (v : NodeView) : List ConditionIndex :=
  (lookedAt v.checks).filter fun c => (v.get c).isSome

end NodeView

theorem mem_of_lookedAt {c : ConditionIndex} {l : List (ConditionIndex × Bool)}
    (h : c ∈ lookedAt l) :
  c ∈ l.map Prod.fst
  := by
  induction l with
  | nil => cases h
  | cons x l ih =>
    unfold lookedAt at h
    rcases List.mem_cons.mp h with rfl | h
    · exact .head _
    · apply List.mem_cons_of_mem
      split at h
      · cases h
      · exact ih h

theorem forall_lookedAt_cons {P : ConditionIndex → Prop} {c : ConditionIndex} {b : Bool}
    {l : List (ConditionIndex × Bool)} :
  (∀ c' ∈ lookedAt ((c, b) :: l), P c') ↔ P c ∧ (b = false → ∀ c' ∈ lookedAt l, P c')
  := by
  have hcons : lookedAt ((c, b) :: l) = c :: if b then [] else lookedAt l := rfl
  rw [hcons, List.forall_mem_cons]
  cases b <;> simp

/-- `getDestState` depends on nothing else. -/
theorem destState_congr {v v' : NodeView} (htype : v'.nodeType = v.nodeType)
    (hstate : v'.state = v.state) (hfailure : v'.failureType = v.failureType)
    (hparent : v'.parentState = v.parentState)
    (h : ∀ c ∈ lookedAt v.checks, v'.get c = v.get c) :
  destState v' = destState v
  := by
  unfold destState
  rw [hstate]
  unfold NodeView.checks NodeView.interruptionChecks at h
  cases hs : v.state <;> rw [hs] at h <;> dsimp only at h ⊢
  case inactive =>
    unfold getDestStateFromInactive
    rw [hparent]
    split
    · rfl
    · rename_i hp
      rw [hp] at h
      simp only [forall_lookedAt_cons, ConditionValues.get] at h
      grind
    · rfl
    · rfl
  case waiting =>
    unfold getDestStateFromWaiting
    simp only [forall_lookedAt_cons, ConditionValues.get] at h
    grind
  case iterationEnded =>
    unfold getDestStateFromIterationEnded
    simp only [forall_lookedAt_cons, ConditionValues.get] at h
    grind
  case finished =>
    unfold getDestStateFromFinished
    rw [hparent]
  case executing =>
    unfold getDestStateFromExecuting EmptyNode.getDestStateFromExecuting
      AssignmentNode.getDestStateFromExecuting CommandNode.getDestStateFromExecuting
      UpdateNode.getDestStateFromExecuting ListNode.getDestStateFromExecuting interruption
      iterationEnded
    rw [htype]
    cases hv : v.nodeType <;> rw [hv] at h <;>
      simp only [List.cons_append, List.nil_append, forall_lookedAt_cons,
        ConditionValues.get] at h ⊢ <;>
      grind
  case finishing =>
    unfold getDestStateFromFinishing CommandNode.getDestStateFromFinishing
      ListNode.getDestStateFromFinishing interruption iterationEnded
    rw [htype]
    cases hv : v.nodeType <;> rw [hv] at h <;>
      simp only [List.cons_append, List.nil_append, forall_lookedAt_cons,
        ConditionValues.get] at h ⊢ <;>
      grind
  case failing =>
    unfold getDestStateFromFailing AssignmentNode.getDestStateFromFailing
      CommandNode.getDestStateFromFailing UpdateNode.getDestStateFromFailing
      ListNode.getDestStateFromFailing failed
    rw [htype, hfailure]
    cases hv : v.nodeType <;> rw [hv] at h <;>
      simp only [forall_lookedAt_cons, ConditionValues.get] at h ⊢ <;>
      grind

/-- The conditions which belong to the parent. -/
def ConditionIndex.isAncestor : ConditionIndex → Bool
  | ancestorExit | ancestorInvariant | ancestorEnd => true
  | _ => false

/-- The states in which a node looks at the conditions of its parent. -/
def NodeState.underParent : NodeState → Bool
  | waiting | executing | finishing | iterationEnded => true
  | _ => false

/-- The node looks at those of its own conditions which are active in its state, and at the
conditions of its parent in certain states only. -/
theorem NodeView.mem_evaluates {v : NodeView} {c : ConditionIndex} (h : c ∈ v.evaluates) :
  (c.isAncestor = false ∧ c ∈ activeConditions v.nodeType v.state) ∨
    (c.isAncestor = true ∧
      (v.state.underParent = true ∨ v.state = .inactive ∧ v.parentState = some .executing))
  := by
  have hmem := mem_of_lookedAt (List.mem_filter.mp h).1
  unfold NodeView.checks at hmem
  cases hstate : v.state <;> rw [hstate] at hmem <;> dsimp only at hmem
  case inactive =>
    split at hmem
    · rename_i hparent
      right
      revert hmem
      cases c <;> simp [ConditionIndex.isAncestor, hparent]
    · cases hmem
  case noNodeState | finished => cases hmem
  all_goals
    revert hmem
    cases c <;> cases v.nodeType <;>
      simp [activeConditions, ConditionIndex.isAncestor, NodeState.underParent, interruptionChecks]

/-! ### Expressions of conditions -/

/-- The expression behind a condition: one which belongs to a single node, or the combination
made by a list node for its children. -/
inductive ConditionExpr where
  | own (n : NodePtr) (c : ConditionIndex)
  | combined (p : NodePtr) (c : ConditionIndex)
  deriving DecidableEq

/-- The condition of the list node from which a condition for the children is made. -/
def ConditionIndex.source : ConditionIndex → ConditionIndex
  | ancestorExit => exit
  | ancestorInvariant => invariant
  | ancestorEnd => «end»
  | c => c

namespace Forest

variable {F : Forest}

/-- The condition for the children of the first node of the list, whose ancestors follow. -/
def childExpression (F : Forest) (c : ConditionIndex) : List NodePtr → Option ConditionExpr
  | [] => none
  | p :: ancestors =>
    if (F.decl p).hasCondition c.source then
      match F.childExpression c ancestors with
      | some _ => some (.combined p c)
      | none => some (.own p c.source)
    else F.childExpression c ancestors

/-- The expression in `m_conditions` of the node. -/
def expression (F : Forest) (n : NodePtr) (c : ConditionIndex) : Option ConditionExpr :=
  if c.isAncestor then
    if (F.decl n).nodeType.isList then F.childExpression c (n :: F.ancestors n) else none
  else if F.hasCondition n c then some (.own n c) else none

/-- The expression which the node looks at for a condition. -/
def consulted (F : Forest) (n : NodePtr) (c : ConditionIndex) : Option ConditionExpr :=
  if c.isAncestor then (F.decl n).parent.bind fun p => F.expression p c else F.expression n c

/-- The arguments of the combination made by a list node. -/
def arguments (F : Forest) (p : NodePtr) (c : ConditionIndex) : List ConditionExpr :=
  .own p c.source :: (F.childExpression c (F.ancestors p)).toList

/-- There is a condition for the children when the node or an ancestor has one. -/
theorem isSome_childExpression (c : ConditionIndex) (ps : List NodePtr) :
  (F.childExpression c ps).isSome = ps.any fun p => (F.decl p).hasCondition c.source
  := by
  induction ps with
  | nil => rfl
  | cons p ps ih =>
    unfold childExpression
    rw [List.any_cons, ← ih]
    split
    · rename_i hown
      rw [hown, Bool.true_or]
      split <;> rfl
    · rename_i hown
      rw [Bool.eq_false_of_not_eq_true hown, Bool.false_or]

/-- A node has the conditions which have an expression. -/
theorem hasCondition_of_expression {n : NodePtr} {c : ConditionIndex} {x : ConditionExpr}
    (h : F.expression n c = some x) :
  F.hasCondition n c = true
  := by
  unfold expression at h
  split at h
  · rename_i hancestor
    split at h
    · have hsome := isSome_childExpression (F := F) c (n :: F.ancestors n)
      rw [h] at hsome
      cases c <;> first | exact hsome.symm | cases hancestor
    · cases h
  · split at h
    · rename_i hhas
      exact hhas
    · cases h

end Forest

namespace Exec

variable {F : Forest} {s : Exec} {n : NodePtr} {c : ConditionIndex} {x : ConditionExpr}

/-- An expression is active: a node has activated the condition, or the combination of which it is
an argument is active. -/
inductive IsActive (F : Forest) (s : Exec) : ConditionExpr → Prop where
  | contributed {n : NodePtr} {c : ConditionIndex} {x : ConditionExpr} :
      F.expression n c = some x → 0 < (s.node n).activations c → IsActive F s x
  | argument {p : NodePtr} {c : ConditionIndex} {x : ConditionExpr} :
      IsActive F s (.combined p c) → x ∈ F.arguments p c → IsActive F s x

/-- What is active in the state of a node has been activated. -/
theorem ActivatesEnough.isActive (h : s.ActivatesEnough F) (hx : F.expression n c = some x)
    (hactive : c ∈ activeConditions (F.decl n).nodeType (s.node n).state) :
  IsActive F s x
  := by
  apply IsActive.contributed hx
  have hexcess := h.enough n (.condition c)
  have hcount : F.activeCounts n (s.node n).state (.condition c) = 1 := by
    have hhas : F.hasActivatable n (.condition c) = true := F.hasCondition_of_expression hx
    unfold Forest.activeCounts
    rw [if_pos hhas]
    unfold Plexil.activeCounts activeIn
    rw [if_pos (decide_eq_true hactive)]
  unfold excess at hexcess
  rw [hcount] at hexcess
  change 0 ≤ (s.node n).activations c - 1 at hexcess
  omega

/-- `getDestState` is called next for the node: the node is the next candidate, or the next node of
the pending queue and marked for another check. -/
def Consulting (F : Forest) (n : NodePtr) (s : Exec) : Prop :=
  (s.phase = .evaluating ∧ s.queues.candidate.head? = some n) ∨
    (∃ acc rest, s.phase = .gathering (F.priority n) acc (n :: rest)) ∧
      (s.queues.status n = .pendingCheck ∨ s.queues.status n = .pendingTryCheck)

/-- The conditions which `getDestState` evaluates are all active. -/
def ConsultsActive (F : Forest) (s : Exec) : Prop :=
  ∀ n, s.Consulting F n → ∀ c ∈ (s.view F n).evaluates,
    ∀ x, F.consulted n c = some x → IsActive F s x

end Exec
end Plexil
