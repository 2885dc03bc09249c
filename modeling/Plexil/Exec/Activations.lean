import Plexil.Exec.TransitionSpec
import Plexil.Util.ActivationCount

/-!
# What a node activates

A node activates its conditions, its local variables and its body, and deactivates them again.
`calls` are the calls which a transition makes, in their order, and `Performs` connects them with
the transition functions.  The ancestor conditions of a list node are those it has for its
children.
-/

namespace Plexil

open ActivationCount (Call)

/-- What a node can activate. -/
inductive Activatable where
  | condition (c : ConditionIndex)
  | localVariables
  /-- The assignment, command or update. -/
  | body
  deriving DecidableEq

/-- Whether the node has an assignment, a command or an update. -/
def PlexilNodeType.hasBody : PlexilNodeType → Bool
  | assignment | command | update => true
  | _ => false

/-- Whether the node has it. -/
def Forest.hasActivatable (F : Forest) (n : NodePtr) : Activatable → Bool
  | .condition c => F.hasCondition n c
  | .localVariables => true
  | .body => (F.decl n).nodeType.hasBody

/-- What the node itself has contributed to the activation counts. -/
def NodeImpl.counts (x : NodeImpl) : Activatable → Int
  | .condition c => x.activations c
  | .localVariables => x.localVariables
  | .body => if x.bodyActive then 1 else 0

namespace NodeImpl

variable {x y : NodeImpl}

theorem activateCondition_eq (x : NodeImpl) (d : NodeDecl) (c : ConditionIndex) :
  (x.activateCondition d c).activations =
      Function.update x.activations c (x.activations c + 1) ∧
    (x.activateCondition d c).localVariables = x.localVariables ∧
    (x.activateCondition d c).bodyActive = x.bodyActive
  := by
  unfold activateCondition
  split <;> exact ⟨rfl, rfl, rfl⟩

theorem deactivateCondition_eq (x : NodeImpl) (d : NodeDecl) (c : ConditionIndex) :
  (x.deactivateCondition d c).activations =
      Function.update x.activations c (x.activations c - 1) ∧
    (x.deactivateCondition d c).localVariables = x.localVariables ∧
    (x.deactivateCondition d c).bodyActive = x.bodyActive
  := by
  unfold deactivateCondition
  split <;> exact ⟨rfl, rfl, rfl⟩

theorem bodyActive_eq_false (h : x.counts .body = 0) :
  x.bodyActive = false
  := by
  cases hactive : x.bodyActive with
  | false => rfl
  | true =>
    change (if x.bodyActive then (1 : Int) else 0) = 0 at h
    rw [hactive] at h
    cases h

/-- The counts when the count of one condition changes. -/
theorem counts_eq {c : ConditionIndex} {i : Int}
    (hactivations : y.activations = Function.update x.activations c i)
    (hvariables : y.localVariables = x.localVariables) (hbody : y.bodyActive = x.bodyActive) :
  y.counts = Function.update x.counts (.condition c) i
  := by
  funext a
  cases a with
  | condition c' =>
    change y.activations c' = _
    rw [hactivations]
    by_cases h : c' = c
    · rw [h, Function.update_self, Function.update_self]
    · rw [Function.update_of_ne h, Function.update_of_ne (by simpa using h)]
      rfl
  | localVariables => exact hvariables
  | body =>
    change (if y.bodyActive then 1 else 0) = _
    rw [hbody]
    rfl

end NodeImpl

/-! ### The calls of a transition -/

/-- The calls which activate conditions. -/
def activations (cs : List ConditionIndex) : List (Call Activatable) :=
  cs.map fun c => .activate (.condition c)

/-- The calls which deactivate conditions. -/
def deactivations (cs : List ConditionIndex) : List (Call Activatable) :=
  cs.map fun c => .deactivate (.condition c)

/-- `deactivateExecutable`. -/
def executableCalls : List (Call Activatable) := [.deactivate .body, .deactivate .localVariables]

/-- The calls on the way out of EXECUTING. -/
def leavingExecuting (type : PlexilNodeType) (next : NodeState) : List (Call Activatable) :=
  match type, next with
  | .empty, _ => deactivations [.exit, .invariant, .end, .post] ++ executableCalls
  | .assignment, .failing => deactivations [.exit, .invariant, .end, .post, .actionComplete]
  | .assignment, _ =>
    deactivations [.exit, .invariant, .end, .post, .actionComplete] ++ executableCalls
  | .command, .failing => deactivations [.exit, .invariant] ++ deactivations [.end]
  | .command, _ => deactivations [.end]
  | .update, .failing =>
    deactivations [.exit, .invariant, .end, .post] ++ activations [.actionComplete]
  | .update, _ => deactivations [.exit, .invariant, .end, .post] ++ executableCalls
  | .nodeList, .failing | .libraryNodeCall, .failing =>
    deactivations [.end] ++ (deactivations [.exit, .invariant] ++ activations [.actionComplete])
  | .nodeList, _ | .libraryNodeCall, _ => deactivations [.end] ++ activations [.actionComplete]

/-- The calls on the way out of FINISHING. -/
def leavingFinishing (type : PlexilNodeType) (next : NodeState) : List (Call Activatable) :=
  match type, next with
  | .command, .iterationEnded =>
    executableCalls ++ deactivations [.exit, .invariant, .post, .actionComplete]
  | .command, _ => deactivations [.exit, .invariant, .post, .actionComplete]
  | .nodeList, .iterationEnded | .libraryNodeCall, .iterationEnded =>
    deactivations [.exit, .invariant, .post] ++ (deactivations ListNode.childConditions ++
      (deactivations [.actionComplete] ++ executableCalls))
  | .nodeList, _ | .libraryNodeCall, _ => deactivations [.exit, .invariant, .post]
  | _, _ => []

/-- The calls on the way out of FAILING. -/
def leavingFailing : PlexilNodeType → List (Call Activatable)
  | .assignment | .command => deactivations [.abortComplete] ++ executableCalls
  | .update => deactivations [.actionComplete] ++ executableCalls
  | .nodeList | .libraryNodeCall =>
    deactivations ListNode.childConditions ++ (deactivations [.actionComplete] ++ executableCalls)
  | .empty => []

/-- The calls on the way out of a state. -/
def leavingCalls (type : PlexilNodeType) (state next : NodeState) : List (Call Activatable) :=
  match state with
  | .waiting =>
    if next = .executing then deactivations [.skip, .start, .pre]
    else deactivations [.skip, .start, .pre] ++ deactivations [.exit]
  | .executing => leavingExecuting type next
  | .finishing => leavingFinishing type next
  | .failing => leavingFailing type
  | .iterationEnded => deactivations [.repeat]
  | _ => []

/-- The calls on the way into EXECUTING. -/
def enteringExecuting : PlexilNodeType → List (Call Activatable)
  | .empty | .update => .activate .localVariables :: activations [.invariant, .end, .post]
  | .assignment =>
    .activate .localVariables ::
      (activations [.invariant, .end, .post] ++ activations [.actionComplete])
  | .command => .activate .localVariables :: activations [.invariant, .exit, .end]
  | .nodeList | .libraryNodeCall =>
    .activate .localVariables ::
      (activations [.invariant, .end] ++ activations ListNode.childConditions)

/-- The calls on the way into a state. -/
def enteringCalls (type : PlexilNodeType) (next : NodeState) : List (Call Activatable) :=
  match next with
  | .waiting => activations [.exit, .skip, .start, .pre]
  | .executing => enteringExecuting type
  | .finishing =>
    match type with
    | .command => activations [.post, .actionComplete]
    | .nodeList | .libraryNodeCall => activations [.post]
    | _ => []
  | .failing =>
    match type with
    | .assignment | .command => activations [.abortComplete]
    | _ => []
  | .iterationEnded => activations [.repeat]
  | _ => []

/-- The calls of a transition; the body is activated at the end. -/
def calls (type : PlexilNodeType) (state next : NodeState) : List (Call Activatable) :=
  leavingCalls type state next ++
    (enteringCalls type next ++ if next = .executing then [.activate .body] else [])

/-! ### The calls are made -/

namespace Exec

variable {F : Forest} {n : NodePtr} {s s' s'' : Exec} {cs cs' : List (Call Activatable)}

/-- The calls on what the node has. -/
def present (F : Forest) (n : NodePtr) (cs : List (Call Activatable)) : List (Call Activatable) :=
  cs.filter fun call => F.hasActivatable n call.target

/-- The counts of the node change by the calls. -/
def Performs (F : Forest) (n : NodePtr) (cs : List (Call Activatable)) (s s' : Exec) : Prop :=
  (s'.node n).counts = ActivationCount.run (present F n cs) (s.node n).counts

namespace Performs

theorem trans (h : Performs F n cs s s') (h' : Performs F n cs' s' s'') :
  Performs F n (cs ++ cs') s s''
  := by
  unfold Performs present at *
  rw [List.filter_append, ActivationCount.run_append, ← h]
  exact h'

/-- Nothing is activated or deactivated. -/
theorem of_counts_eq (h : (s'.node n).counts = (s.node n).counts) :
  Performs F n [] s s'
  := h

/-- A step which leaves the counts. -/
theorem then_same (h : Performs F n cs s s') (h' : (s''.node n).counts = (s'.node n).counts) :
  Performs F n cs s s''
  := h'.trans h

theorem fail {e : ExecError} (h : Performs F n cs s s') :
  Performs F n cs s (s'.fail e)
  := h

/-- A change of the node for each condition which it has, each with its call. -/
theorem of_foldl {f : NodeImpl → ConditionIndex → NodeImpl} {call : ConditionIndex → Call Activatable}
    (target : ∀ c, (call c).target = .condition c)
    (step : ∀ x c, (f x c).counts = (call c).apply x.counts) (cs : List ConditionIndex) :
  Performs F n (cs.map call) s
    (s.modifyNode n fun x => (cs.filter (F.hasCondition n)).foldl f x)
  := by
  unfold Performs
  rw [node_modifyNode_self]
  generalize s.node n = x
  induction cs generalizing x with
  | nil => rfl
  | cons c cs ih =>
    unfold present at ih ⊢
    rw [List.map_cons, List.filter_cons, List.filter_cons, target]
    by_cases hc : F.hasCondition n c = true
    · rw [if_pos hc, if_pos (show F.hasActivatable n (.condition c) = true from hc),
        List.foldl_cons, ih, step]
      rfl
    · rw [if_neg hc, if_neg (show ¬ F.hasActivatable n (.condition c) = true from hc), ih]

theorem activate (F : Forest) (n : NodePtr) (cs : List ConditionIndex) (s : Exec) :
  Performs F n (activations cs) s (s.activate F n cs)
  := by
  apply of_foldl
  · exact fun _ => rfl
  · intro x c
    obtain ⟨hactivations, hvariables, hbody⟩ := x.activateCondition_eq (F.decl n) c
    apply NodeImpl.counts_eq hactivations hvariables hbody

theorem deactivate (F : Forest) (n : NodePtr) (cs : List ConditionIndex) (s : Exec) :
  Performs F n (deactivations cs) s (s.deactivate F n cs)
  := by
  apply of_foldl
  · exact fun _ => rfl
  · intro x c
    obtain ⟨hactivations, hvariables, hbody⟩ := x.deactivateCondition_eq (F.decl n) c
    apply NodeImpl.counts_eq hactivations hvariables hbody

end Performs

theorem bodyActive_deactivate (cs : List ConditionIndex) :
  ((s.deactivate F n cs).node n).bodyActive = (s.node n).bodyActive
  := by
  unfold deactivate
  rw [node_modifyNode_self]
  generalize s.node n = x
  induction cs.filter (F.hasCondition n) generalizing x with
  | nil => rfl
  | cons c cs ih => exact (ih _).trans (x.deactivateCondition_eq (F.decl n) c).2.2

/-- The body of the node is active, if it has one. -/
def BodyActive (F : Forest) (n : NodePtr) (s : Exec) : Prop :=
  (F.decl n).nodeType.hasBody = true → (s.node n).bodyActive = true

theorem BodyActive.deactivate (h : s.BodyActive F n) (cs : List ConditionIndex) :
  (s.deactivate F n cs).BodyActive F n
  := by
  unfold BodyActive
  rw [bodyActive_deactivate]
  exact h

namespace Performs

theorem deactivateExecutable (h : s.BodyActive F n) :
  Performs F n executableCalls s (s.deactivateExecutable F n)
  := by
  have hnode : ((s.deactivateExecutable F n).node n).activations = (s.node n).activations ∧
      ((s.deactivateExecutable F n).node n).localVariables = (s.node n).localVariables - 1 ∧
      ((s.deactivateExecutable F n).node n).bodyActive =
        (!(F.decl n).nodeType.hasBody && (s.node n).bodyActive) := by
    unfold Exec.deactivateExecutable specializedDeactivateExecutable
    rw [node_modifyNode_self]
    cases htype : (F.decl n).nodeType <;> dsimp only
    case assignment =>
      rw [node_modifyNode_self]
      exact ⟨rfl, rfl, rfl⟩
    case command =>
      unfold deactivateCommand
      rw [node_modifyNode_self]
      exact ⟨rfl, rfl, rfl⟩
    case update =>
      rw [node_modifyNode_self]
      exact ⟨rfl, rfl, rfl⟩
    all_goals exact ⟨rfl, rfl, rfl⟩
  obtain ⟨hactivations, hvariables, hbody⟩ := hnode
  unfold Performs
  funext a
  rw [ActivationCount.run_eq]
  unfold present
  rw [ActivationCount.net_filter]
  cases a with
  | condition c =>
    change _ = _ + if F.hasActivatable n (.condition c) = true then 0 else 0
    rw [ite_self, Int.add_zero]
    exact congrFun hactivations c
  | localVariables => exact hvariables
  | body =>
    change (if ((s.deactivateExecutable F n).node n).bodyActive then 1 else 0) =
      (if (s.node n).bodyActive then (1 : Int) else 0) +
        if (F.decl n).nodeType.hasBody = true then -1 else 0
    rw [hbody]
    cases htype : (F.decl n).nodeType.hasBody with
    | false => rw [Bool.not_false, Bool.true_and, if_neg Bool.false_ne_true, Int.add_zero]
    | true =>
      rw [h htype]
      rfl

section

variable {next : NodeState}

theorem transitionFromWaiting (hnext : (s.node n).nextState = next)
    (hlegal : legalSuccessor (F.decl n).nodeType .waiting next = true) :
  Performs F n (leavingCalls (F.decl n).nodeType .waiting next) s (s.transitionFromWaiting F n)
  := by
  unfold Exec.transitionFromWaiting
  rw [hnext]
  have other : Performs F n (deactivations [.skip, .start, .pre] ++ deactivations [.exit]) s
      ((s.deactivate F n [.skip, .start, .pre]).deactivate F n [.exit]) :=
    (deactivate ..).trans (deactivate ..)
  cases next
  case executing => apply deactivate
  case finished => exact other
  case iterationEnded => exact other
  all_goals
    cases htype : (F.decl n).nodeType <;> rw [htype] at hlegal <;> cases hlegal

theorem transitionFromIterationEnded (hnext : (s.node n).nextState = next)
    (hlegal : legalSuccessor (F.decl n).nodeType .iterationEnded next = true) :
  Performs F n (leavingCalls (F.decl n).nodeType .iterationEnded next) s
    (s.transitionFromIterationEnded F n)
  := by
  have h := deactivate F n [.repeat] s
  unfold Exec.transitionFromIterationEnded
  rw [hnext]
  cases next
  case finished => exact h
  case waiting =>
    apply h.then_same
    dsimp only
    rw [node_modifyNode_self]
    rfl
  all_goals
    cases htype : (F.decl n).nodeType <;> rw [htype] at hlegal <;> cases hlegal

theorem transitionFromExecuting (hnext : (s.node n).nextState = next)
    (hlegal : legalSuccessor (F.decl n).nodeType .executing next = true) (hbody : s.BodyActive F n) :
  Performs F n (leavingCalls (F.decl n).nodeType .executing next) s (s.transitionFromExecuting F n)
  := by
  have ended (cs : List ConditionIndex) : Performs F n (deactivations cs ++ executableCalls) s
      ((s.deactivate F n cs).deactivateExecutable F n) :=
    (deactivate ..).trans (deactivateExecutable (hbody.deactivate cs))
  unfold Exec.transitionFromExecuting leavingCalls
  cases htype : (F.decl n).nodeType <;> rw [htype] at hlegal <;> dsimp only
  case empty =>
    unfold EmptyNode.transitionFromExecuting
    rw [hnext]
    cases next <;> cases hlegal <;> apply ended
  case assignment =>
    unfold AssignmentNode.transitionFromExecuting
    rw [hnext]
    cases next <;> cases hlegal
    case failing => apply deactivate
    case iterationEnded => apply ended
  case command =>
    unfold CommandNode.transitionFromExecuting
    rw [hnext]
    cases next <;> cases hlegal
    case failing => exact (deactivate ..).trans (deactivate ..)
    case finishing => apply deactivate
  case update =>
    unfold UpdateNode.transitionFromExecuting
    rw [hnext]
    cases next <;> cases hlegal
    case failing => exact (deactivate ..).trans (activate ..)
    case iterationEnded => apply ended
  all_goals
    unfold ListNode.transitionFromExecuting
    rw [hnext]
    cases next <;> cases hlegal
    · exact (deactivate ..).trans ((deactivate ..).trans (activate ..))
    · exact (deactivate ..).trans (activate ..)

theorem transitionFromFinishing (hnext : (s.node n).nextState = next)
    (hlegal : legalSuccessor (F.decl n).nodeType .finishing next = true) (hbody : s.BodyActive F n) :
  Performs F n (leavingCalls (F.decl n).nodeType .finishing next) s (s.transitionFromFinishing F n)
  := by
  unfold Exec.transitionFromFinishing leavingCalls
  cases htype : (F.decl n).nodeType <;> rw [htype] at hlegal <;> dsimp only
  case command =>
    unfold CommandNode.transitionFromFinishing
    rw [hnext]
    cases next <;> cases hlegal
    case failing => apply deactivate
    case iterationEnded => exact (deactivateExecutable hbody).trans (deactivate ..)
  case nodeList | libraryNodeCall =>
    unfold ListNode.transitionFromFinishing
    rw [hnext]
    cases next <;> cases hlegal
    case failing => apply deactivate
    case iterationEnded =>
      apply (deactivate ..).trans
      apply (deactivate ..).trans
      apply (deactivate ..).trans
      apply deactivateExecutable
      exact ((hbody.deactivate _).deactivate _).deactivate _
  all_goals cases next <;> cases hlegal

theorem transitionFromFailing (hnext : (s.node n).nextState = next)
    (hlegal : legalSuccessor (F.decl n).nodeType .failing next = true) (hbody : s.BodyActive F n) :
  Performs F n (leavingCalls (F.decl n).nodeType .failing next) s (s.transitionFromFailing F n)
  := by
  have ended (cs : List ConditionIndex) : Performs F n (deactivations cs ++ executableCalls) s
      ((s.deactivate F n cs).deactivateExecutable F n) :=
    (deactivate ..).trans (deactivateExecutable (hbody.deactivate cs))
  unfold Exec.transitionFromFailing leavingCalls
  cases htype : (F.decl n).nodeType <;> rw [htype] at hlegal <;> dsimp only
  case empty => cases next <;> cases hlegal
  case assignment =>
    unfold AssignmentNode.transitionFromFailing
    rw [hnext]
    cases next <;> cases hlegal <;> apply ended
  case command =>
    unfold CommandNode.transitionFromFailing
    rw [hnext]
    cases next <;> cases hlegal <;> apply ended
  case update =>
    unfold UpdateNode.transitionFromFailing
    rw [hnext]
    cases next <;> cases hlegal <;> apply ended
  all_goals
    unfold ListNode.transitionFromFailing
    rw [hnext]
    have both : Performs F n (leavingFailing .nodeList) s
        (((s.deactivate F n ListNode.childConditions).deactivate F n
          [.actionComplete]).deactivateExecutable F n) := by
      apply (deactivate ..).trans
      apply (deactivate ..).trans
      apply deactivateExecutable
      exact (hbody.deactivate _).deactivate _
    cases next <;> cases hlegal <;> exact both

/-- The calls on the way out of a state. -/
theorem transitionFrom (hnext : (s.node n).nextState = next)
    (hlegal : legalSuccessor (F.decl n).nodeType (s.node n).state next = true)
    (hbody : (s.node n).state.isActive = true → s.BodyActive F n) :
  Performs F n (leavingCalls (F.decl n).nodeType (s.node n).state next) s (s.transitionFrom F n)
  := by
  unfold Exec.transitionFrom
  cases hstate : (s.node n).state <;> rw [hstate] at hlegal <;> dsimp only
  case inactive => exact of_counts_eq rfl
  case waiting => exact transitionFromWaiting hnext hlegal
  case executing => exact transitionFromExecuting hnext hlegal (hbody (congrArg _ hstate))
  case finishing => exact transitionFromFinishing hnext hlegal (hbody (congrArg _ hstate))
  case failing => exact transitionFromFailing hnext hlegal (hbody (congrArg _ hstate))
  case iterationEnded => exact transitionFromIterationEnded hnext hlegal
  case finished =>
    apply of_counts_eq
    rw [node_modifyNode_self]
    rfl
  case noNodeState =>
    cases htype : (F.decl n).nodeType <;> rw [htype] at hlegal <;> cases next <;> cases hlegal

theorem transitionToExecuting (F : Forest) (n : NodePtr) (s : Exec) :
  Performs F n (enteringExecuting (F.decl n).nodeType) s (s.transitionToExecuting F n)
  := by
  have hvariables : Performs F n [.activate .localVariables] s
      (s.modifyNode n NodeImpl.activateLocalVariables) := by
    unfold Performs
    rw [node_modifyNode_self]
    funext a
    cases a with
    | condition c => rfl
    | localVariables => rfl
    | body => rfl
  unfold Exec.transitionToExecuting enteringExecuting
  cases (F.decl n).nodeType <;> dsimp only
  case empty | update | command => exact hvariables.trans (activate ..)
  all_goals exact hvariables.trans ((activate ..).trans (activate ..))

theorem node_release (c : Core) (r : ReservableId) : (c.release n r).node = c.node :=
  (Core.release_spec n c r).node

theorem node_releaseAll (c : Core) (rs : List ReservableId) : (c.releaseAll n rs).node = c.node :=
  (Core.releaseAll_spec n rs c).node

theorem transitionToIterationEnded (F : Forest) (n : NodePtr) (s : Exec) :
  Performs F n (activations [.repeat]) s (s.transitionToIterationEnded F n)
  := by
  have released : ∃ s₁ : Exec,
      s.transitionToIterationEnded F n = s₁.activate F n [.repeat] ∧ s₁.node = s.node := by
    refine ⟨_, rfl, ?_⟩
    cases (F.decl n).nodeType <;> dsimp only
    case assignment =>
      split
      · exact (node_releaseAll ..).trans (node_release ..)
      · rfl
    all_goals
      split
      · exact node_releaseAll ..
      · rfl
  obtain ⟨s₁, heq, hnode⟩ := released
  rw [heq]
  exact (of_counts_eq (congrArg NodeImpl.counts (congrFun hnode n))).trans (activate ..)

theorem transitionToFinished (F : Forest) (n : NodePtr) (s : Exec) :
  Performs F n [] s (s.transitionToFinished F n)
  := by
  apply of_counts_eq
  have hnode : (s.transitionToFinished F n).node = s.node := by
    unfold Exec.transitionToFinished
    cases (F.decl n).nodeType <;> dsimp only
    case assignment =>
      split <;> split
      · exact (node_releaseAll ..).trans (node_release ..)
      · exact node_releaseAll ..
      · exact node_release ..
      · rfl
    all_goals
      split
      · exact node_releaseAll ..
      · rfl
  rw [hnode]

/-- The calls on the way into a state. -/
theorem transitionTo (hnext : (s.node n).nextState = next) :
  Performs F n (enteringCalls (F.decl n).nodeType next) s (s.transitionTo F n)
  := by
  unfold Exec.transitionTo enteringCalls
  rw [hnext]
  cases next <;> dsimp only
  case waiting => apply activate
  case executing => apply transitionToExecuting
  case iterationEnded => apply transitionToIterationEnded
  case finished => apply transitionToFinished
  case finishing =>
    unfold Exec.transitionToFinishing
    cases (F.decl n).nodeType <;> dsimp only
    case command => apply activate
    case nodeList | libraryNodeCall => apply activate
    all_goals exact of_counts_eq rfl
  case failing =>
    unfold Exec.transitionToFailing
    cases (F.decl n).nodeType <;> dsimp only
    case assignment => exact (activate ..).trans (of_counts_eq rfl)
    case command => exact (activate ..).trans (of_counts_eq rfl)
    all_goals exact of_counts_eq rfl
  all_goals exact of_counts_eq rfl

/-- The body is activated when the node executes. -/
theorem execute (hbody : (s.node n).bodyActive = false) :
  Performs F n [.activate .body] s (s.execute F n)
  := by
  have present_body : present F n [.activate .body] =
      if (F.decl n).nodeType.hasBody then [.activate .body] else [] := by
    cases htype : (F.decl n).nodeType.hasBody
    · exact List.filter_cons_of_neg (by simpa [Forest.hasActivatable, Call.target] using htype)
    · exact List.filter_cons_of_pos (by simpa [Forest.hasActivatable, Call.target] using htype)
  have activated (f : NodeImpl → NodeImpl)
      (hactivations : (f (s.node n)).activations = (s.node n).activations)
      (hvariables : (f (s.node n)).localVariables = (s.node n).localVariables)
      (hf : (f (s.node n)).bodyActive = true) :
      (((s.modifyNode n f).fixValues n).node n).counts =
        (Call.activate Activatable.body).apply (s.node n).counts := by
    unfold fixValues
    rw [node_modifyNode_self, node_modifyNode_self]
    funext a
    cases a with
    | condition c => exact congrFun hactivations c
    | localVariables => exact hvariables
    | body =>
      change (if (f (s.node n)).bodyActive then (1 : Int) else 0) =
        (if (s.node n).bodyActive then 1 else 0) + 1
      rw [hf, hbody]
      rfl
  unfold Performs
  rw [present_body]
  unfold Exec.execute
  cases htype : (F.decl n).nodeType <;> dsimp only [PlexilNodeType.hasBody]
  case assignment => exact activated _ rfl rfl rfl
  case command => exact activated _ rfl rfl rfl
  case update => exact activated _ rfl rfl rfl
  all_goals rfl

theorem counts_setState (F : Forest) (n : NodePtr) (newValue : NodeState) (s : Exec) :
  ((s.setState F n newValue).node n).counts = (s.node n).counts
  := by
  unfold Exec.setState
  dsimp only
  rw [node_modifyNode_self]
  rfl

/-- A transition makes its calls. -/
theorem transition (hne : (s.node n).nextState ≠ (s.node n).state)
    (hlegal : legalSuccessor (F.decl n).nodeType (s.node n).state (s.node n).nextState = true)
    (hactive : (s.node n).state.isActive = true → s.BodyActive F n)
    (hwaiting : (s.node n).state = .waiting → (s.node n).bodyActive = false) :
  Performs F n (calls (F.decl n).nodeType (s.node n).state (s.node n).nextState) s
    (s.transition F n)
  := by
  have hleft : ((s.transitionFrom F n).node n).nextState = (s.node n).nextState := by
    rw [(Bookkeeping.transitionFrom F n s).self.nextState, node_modifyNode_self]
    apply NodeImpl.leave_nextState
  have hset : Performs F n
      (leavingCalls (F.decl n).nodeType (s.node n).state (s.node n).nextState ++
        enteringCalls (F.decl n).nodeType (s.node n).nextState) s
      ((((s.transitionFrom F n).transitionTo F n).setState F n (s.node n).nextState).modifyNode n
        NodeImpl.setOutcome) := by
    apply ((transitionFrom rfl hlegal hactive).trans (transitionTo hleft)).then_same
    rw [node_modifyNode_self, ← counts_setState F n (s.node n).nextState]
    unfold NodeImpl.setOutcome
    split <;> rfl
  have hclear (s' : Exec) :
      ((s'.modifyNode n NodeImpl.clearNext).node n).counts = (s'.node n).counts := by
    rw [node_modifyNode_self]
    rfl
  unfold Exec.transition calls
  dsimp only
  rw [if_neg hne]
  by_cases hexec : (s.node n).nextState = .executing
  · rw [if_pos hexec, if_pos hexec, ← List.append_assoc]
    refine (hset.trans (execute ?_)).then_same (hclear _)
    -- Nothing has activated the body so far.
    rw [hexec] at hlegal hset ⊢
    have hstate := legalSuccessor_executing hlegal
    rw [hstate] at hset
    apply NodeImpl.bodyActive_eq_false
    rw [hset, ActivationCount.run_eq]
    unfold present
    rw [ActivationCount.net_filter]
    change (if (s.node n).bodyActive then (1 : Int) else 0) + _ = 0
    have hnet : ActivationCount.net (leavingCalls (F.decl n).nodeType .waiting .executing ++
        enteringCalls (F.decl n).nodeType .executing) Activatable.body = 0 := by
      cases (F.decl n).nodeType <;> rfl
    rw [hwaiting hstate, hnet, ite_self]
    rfl
  · rw [if_neg hexec, if_neg hexec, List.append_nil]
    exact hset.then_same (hclear _)

end

end Performs
end Exec
end Plexil
