import Plexil.Exec.Conditions

/-!
# Core PLEXIL

The nodes which the translator of Extended PLEXIL builds.  What the plan writes as a
condition is not looked into: it is an expression `user k`, which may have any value at any
time.  The other expressions are those which the translator generates.  The value of an
expression at a node depends on the nodes it refers to and on the variables; a `Valuation`
has what can be read of them.
-/

namespace Plexil

/-! ### Nodes as they are read -/

/-- What the expressions read of a node. -/
structure NodeStatus where
  state : NodeState
  outcome : NodeOutcome
  failureType : FailureType
  deriving DecidableEq

namespace NodeStatus

/-- The status of a node which has just been constructed. -/
def initial : NodeStatus := ⟨.inactive, .noOutcome, .noFailure⟩

def finished (x : NodeStatus) : Bool := x.state = .finished

def succeeded (x : NodeStatus) : Bool := x.state = .finished ∧ x.outcome = .success

def failed (x : NodeStatus) : Bool := x.state = .finished ∧ x.outcome = .failure

def skipped (x : NodeStatus) : Bool := x.outcome = .skipped

def postconditionFailed (x : NodeStatus) : Bool := x.failureType = .postConditionFailed

end NodeStatus

namespace Epx

/-! ### Expressions -/

/-- A `NodeRef`, relative to the node at which it stands. -/
inductive NodeRef where
  | self
  | parent
  | child (nodeId : String)
  | sibling (nodeId : String)
  deriving DecidableEq

inductive CoreExpr where
  | user (index : Nat)
  | boolean (value : Bool)
  | not (argument : CoreExpr)
  | and (arguments : List CoreExpr)
  | or (arguments : List CoreExpr)
  | finished (ref : NodeRef)
  | succeeded (ref : NodeRef)
  | skipped (ref : NodeRef)
  | postconditionFailed (ref : NodeRef)
  | noChildFailed (ref : NodeRef)
  | eqInternal (ref : NodeRef) (handle : CommandHandleValue)
  | neInternal (ref : NodeRef) (handle : CommandHandleValue)
  | isKnown (name : String)
  | anyKnown (name : String)

/-- What the expressions at a node can read.  A command handle is unknown before the command
has one. -/
structure Valuation where
  user : Nat → Option Bool
  status : NodeRef → Option NodeStatus
  childFailed : NodeRef → Bool
  handle : NodeRef → Option CommandHandleValue
  isKnown : String → Bool
  anyKnown : String → Bool

namespace CoreExpr

variable (σ : Valuation)

mutual

/-- The value of an expression, `none` when it is unknown. -/
def eval : CoreExpr → Option Bool
  | user index => σ.user index
  | boolean value => some value
  | not argument => (eval argument).map (!·)
  | and arguments => evalAnd arguments
  | or arguments => evalOr arguments
  | finished ref => (σ.status ref).map NodeStatus.finished
  | succeeded ref => (σ.status ref).map NodeStatus.succeeded
  | skipped ref => (σ.status ref).map NodeStatus.skipped
  | postconditionFailed ref => (σ.status ref).map NodeStatus.postconditionFailed
  | noChildFailed ref => some !(σ.childFailed ref)
  | eqInternal ref handle => (σ.handle ref).map (· = handle)
  | neInternal ref handle => (σ.handle ref).map (· ≠ handle)
  | isKnown name => some (σ.isKnown name)
  | anyKnown name => some (σ.anyKnown name)

/-- The conjunction of expressions. -/
def evalAnd : List CoreExpr → Option Bool
  | [] => some true
  | e :: es => kleeneAnd (eval e) (evalAnd es)

/-- The disjunction of expressions. -/
def evalOr : List CoreExpr → Option Bool
  | [] => some false
  | e :: es => kleeneOr (eval e) (evalOr es)

end

end CoreExpr

/-! ### Nodes -/

/-- The condition elements of a node. -/
inductive ConditionName where
  | skip | start | pre | exit | invariant | «end» | post | «repeat»
  deriving DecidableEq

/-- A `Node` element.  `usingMutex` tells whether it uses mutexes; `children` are those of a
list node. -/
structure CoreNode where
  nodeId : String
  nodeType : PlexilNodeType
  usingMutex : Bool
  conditions : List (ConditionName × CoreExpr)
  children : List CoreNode

namespace CoreNode

/-- The condition of a node, if it has one. -/
def condition (node : CoreNode) (c : ConditionName) : Option CoreExpr := node.conditions.lookup c

/-- The value of a condition. -/
def value (node : CoreNode) (σ : Valuation) (c : ConditionName) : Condition :=
  (node.condition c).map (CoreExpr.eval σ)

/-- Whether the node has to acquire resources before it can execute. -/
def acquiresResources (node : CoreNode) : Bool :=
  node.nodeType = .assignment || node.usingMutex

end CoreNode

/-! ### Values -/

theorem kleeneAnd_eq_true (x y : Option Bool) :
  kleeneAnd x y = some true ↔ x = some true ∧ y = some true
  := by
  rcases x with - | - | - <;> rcases y with - | - | - <;> simp [kleeneAnd]

theorem kleeneAnd_eq_false (x y : Option Bool) :
  kleeneAnd x y = some false ↔ x = some false ∨ y = some false
  := by
  rcases x with - | - | - <;> rcases y with - | - | - <;> simp [kleeneAnd]

theorem kleeneOr_eq_true (x y : Option Bool) :
  kleeneOr x y = some true ↔ x = some true ∨ y = some true
  := by
  rcases x with - | - | - <;> rcases y with - | - | - <;> simp [kleeneOr]

namespace CoreExpr

variable (σ : Valuation)

theorem evalAnd_eq_true (es : List CoreExpr) :
  evalAnd σ es = some true ↔ ∀ e ∈ es, eval σ e = some true
  := by
  induction es with
  | nil => simp [evalAnd]
  | cons e es ih => rw [evalAnd, kleeneAnd_eq_true, ih, List.forall_mem_cons]

theorem evalAnd_eq_false (es : List CoreExpr) :
  evalAnd σ es = some false ↔ ∃ e ∈ es, eval σ e = some false
  := by
  induction es with
  | nil => simp [evalAnd]
  | cons e es ih => rw [evalAnd, kleeneAnd_eq_false, ih, List.exists_mem_cons_iff]

theorem evalOr_eq_true (es : List CoreExpr) :
  evalOr σ es = some true ↔ ∃ e ∈ es, eval σ e = some true
  := by
  induction es with
  | nil => simp [evalOr]
  | cons e es ih => rw [evalOr, kleeneOr_eq_true, ih, List.exists_mem_cons_iff]

end CoreExpr

end Epx

end Plexil
