import Plexil.Epx.OnCommandCheck
import Plexil.Epx.CommandNodes
import Mathlib.Logic.Function.Basic

/-!
# Runs of an OnCommand

Between the batches the interfaces acknowledge the generated commands and return their values, in
any order.  A command which is not active takes neither.  The variables of the `OnCommand` are
initialized when it starts to execute, and the handle of a command is cleared when it is sent.
-/

namespace Plexil.Epx

open StateMachine (Always Meets)

/-- What an interface tells of the command of a child: `handleCommandAck` and
`handleCommandReturn`.  Of a value which is returned, only whether the variable is then known, or
the first element of the array. -/
inductive Arrival where
  | commandHandle (i : Nat) (value : CommandHandleValue)
  | returnValue (i : Nat) (isKnown : Bool)

/-- What comes before a batch, and how many return values the nodes inside the action send in it. -/
structure Round where
  surroundings : Surroundings
  arrivals : List Arrival
  returns : Nat

/-- The nodes of an `OnCommand`, and of each command its handle, whether its value has been
returned since it was sent, and whether its variable is known.  `returned` counts the return values
which have been sent in the iteration. -/
structure Reception where
  logged : Logged
  handle : Nat → CommandHandleValue
  assigned : Nat → Bool
  known : Nat → Bool
  returned : Nat

namespace OnCommandElement

variable (t : OnCommandElement)

/-- What the end conditions of the receiving nodes test. -/
def tested : List String := hdlName :: t.parameters.map Parameter.tested

/-- Whether the variable of a command has an initial value. -/
def initiallyKnown : Nat → Bool
  | 0 => false
  | i + 1 => t.parameters[i]?.any Parameter.initialValue

/-- The action has a command which sends a return value. -/
def actionSends : Bool := t.actionBody.commands.any Command.isSendReturnValue

end OnCommandElement

namespace Reception

def initial : Reception := ⟨.initial, fun _ => .noCommandHandle, fun _ => false, fun _ => false, 0⟩

def family (s : Reception) : Family := s.logged.family

/-- `CommandImpl::setCommandHandle` and `CommandImpl::returnValue`. -/
def arrive (s : Reception) : Arrival → Reception
  | .commandHandle i value =>
    if (s.family.child i).state.isActive ∧ value ≠ .noCommandHandle then
      { s with handle := Function.update s.handle i value }
    else s
  | .returnValue i isKnown =>
    if (s.family.child i).state.isActive then
      { s with
        assigned := Function.update s.assigned i true
        known := Function.update s.known i isKnown }
    else s

def receive (s : Reception) (arrivals : List Arrival) : Reception := arrivals.foldl arrive s

variable (t : OnCommandElement)

/-- The surroundings with the handles and the variables of the `OnCommand`. -/
def surroundings (s : Reception) (e : Surroundings) : Surroundings :=
  { e with
    body := fun i => if i ≤ t.nParams then { e.body i with handle := s.handle i } else e.body i
    base := fun m =>
      { e.base m with
        handle := fun ref =>
          match m, ref with
          | .child i, .self =>
            if i ≤ t.nParams then
              if s.handle i = .noCommandHandle then none else some (s.handle i)
            else (e.base m).handle ref
          | _, _ => (e.base m).handle ref
        isKnown := fun name =>
          match t.tested.findIdx? fun tested => tested = name with
          | some i => s.known i
          | none => (e.base m).isKnown name } }

/-- A node starts to execute. -/
def begins (x x' : NodeStatus) : Bool := x.state ≠ .executing ∧ x'.state = .executing

/-- A batch, in which the last child is the node which sends a return value when the action does
not. -/
def batch (e : Surroundings) (returns : Nat) (s : Reception) : Reception :=
  let logged := s.logged.step t.node (s.surroundings t e)
  let opens := begins s.family.list logged.family.list
  let sends i := begins (s.family.child i) (logged.family.child i)
  { logged := logged
    handle := fun i => if sends i then .noCommandHandle else s.handle i
    assigned := fun i => if sends i then false else s.assigned i
    known := fun i => if opens then t.initiallyKnown i else s.known i
    returned :=
      if opens then 0
      else
        s.returned + (if !t.sends && sends (t.nParams + 2) then 1 else 0) +
          if t.actionSends && (s.family.child (t.nParams + 1)).state.isRunning then returns else 0 }

def step (e : Round) (s : Reception) : Reception :=
  (s.receive e.arrivals).batch t e.surroundings e.returns

def machine : Reception → Round → Option Reception := fun s e => some (s.step t e)

/-- The command has been received, and the values of all parameters have been returned. -/
def Delivered (s : Reception) : Prop := ∀ i ≤ t.nParams, s.assigned i = true

/-- A command has been refused. -/
def Refused (s : Reception) (i : Nat) : Prop := Exec.commandHandleInterruptible (s.handle i) = true

/-! ### The requirements -/

/-- When the action starts in a batch, everything has been delivered, and the start conditions
which the action has in the plan are true. -/
def ActsAfterDelivery (s : Reception) (e : Surroundings) : Prop :=
  t.nParams + 1 ∈ s.family.starts t.node (s.surroundings t e) →
    s.Delivered t ∧ ∀ c ∈ t.body.element.conditions, c.1 = .start →
      CoreExpr.eval (s.family.childValuation t.node (s.surroundings t e) (t.nParams + 1)) c.2 =
        some true

/-- When a child of the running node has failed, a receiving command has been refused, or the
action has failed. -/
def FailsForCause (s : Reception) : Prop :=
  s.family.list.state.isRunning = true → s.family.childFailed t.node = true →
    (∃ i ≤ t.nParams, s.Refused i) ∨ (s.family.child (t.nParams + 1)).failed = true

/-- When the node ends an iteration in which the command has been received, one return value has
been sent. -/
def ReturnsOnce (s : Reception) : Prop :=
  s.family.list.state = .iterationEnded → s.assigned 0 = true → s.returned = 1

/-- The conditions of the ancestors do not interfere. -/
def NotCutShort (e : Surroundings) : Prop :=
  e.ancestor.exit.isTrue = false ∧ e.ancestor.invariant.isFalse = false ∧
    e.ancestor.end.isTrue = false

end Reception

/-- A run of the translation of an `OnCommand`. -/
structure OnCommandElement.Delivers (t : OnCommandElement) (es : List Round) : Prop where
  accepted : t.Accepted
  handsHandle : t.HandsHandle
  acts : Meets (Reception.machine t)
    (fun s e => (s.receive e.arrivals).ActsAfterDelivery t e.surroundings) es .initial
  fails : Always (Reception.machine t) (fun s => s.FailsForCause t) es .initial
  returns : t.body.returnCount ≤ 1 →
    Always (Reception.machine t) Reception.ReturnsOnce es .initial

/-- A run which is not cut short by an ancestor. -/
def OnCommandElement.UncutRun (t : OnCommandElement) : Type :=
  { es : List Round // Meets (Reception.machine t)
    (fun _ e => Reception.NotCutShort e.surroundings) es .initial }

/-! ### The children -/

namespace OnCommandElement

variable (t : OnCommandElement)

theorem nodeType_node :
  t.node.nodeType = .nodeList
  := rfl

theorem getElem?_param {i : Nat} {p : Parameter} (hp : t.parameters[i]? = some p) :
  t.node.children[i + 1]? = some (getParamCommandNode i p).core
  := by
  rw [children_node, List.getElem?_map]
  unfold children
  rw [List.cons_append, List.getElem?_cons_succ, List.getElem?_append_left, List.getElem?_mapIdx,
    hp]
  · rfl
  · rw [List.length_mapIdx]
    exact (List.getElem?_eq_some_iff.mp hp).1

theorem getElem?_action :
  t.node.children[t.nParams + 1]? = some t.actionBody.core
  := by
  rw [children_node, List.getElem?_map]
  unfold children
  rw [List.cons_append, List.getElem?_cons_succ, List.getElem?_append_right]
  · rw [List.length_mapIdx]
    unfold nParams
    rw [Nat.sub_self]
    rfl
  · rw [List.length_mapIdx]
    exact le_refl _

theorem getElem?_return (hsends : t.sends = false) :
  t.node.children[t.nParams + 2]? = some t.returnNode.core
  := by
  rw [children_node, List.getElem?_map]
  unfold children
  rw [List.cons_append, List.getElem?_cons_succ, List.getElem?_append_right]
  · rw [List.length_mapIdx, hsends]
    unfold nParams
    rw [Nat.add_sub_cancel_left]
    rfl
  · rw [List.length_mapIdx]
    exact Nat.le_succ _

theorem length_children :
  t.node.children.length = t.nParams + 2 + if t.sends then 0 else 1
  := by
  rw [children_node, List.length_map]
  unfold children
  rw [List.cons_append, List.length_cons, List.length_append, List.length_mapIdx, List.length_cons]
  unfold nParams
  cases t.sends <;> rfl

/-- A child which receives the value of a command, and tests whether it is known. -/
structure Receives (c : CoreNode) (i : Nat) (tested : String) : Prop extends c.IsCommand where
  tests : t.tested[i]? = some tested
  «end» : c.condition .end = some (.isKnown tested)
  post : c.condition .post = some (.eqInternal .self .success)
  start : 0 < i → c.condition .start = some (.isKnown hdlName)

/-- The first children receive the command and its parameters. -/
theorem exists_receives {i : Nat} (hi : i ≤ t.nParams) :
  ∃ c tested, t.node.children[i]? = some c ∧ t.Receives c i tested
  := by
  cases i with
  | zero =>
    refine ⟨t.commandWait.core, hdlName, ?_, ?_⟩
    · rw [children_node]
      rfl
    · exact ⟨⟨rfl, rfl, rfl, rfl, rfl, rfl, rfl⟩, rfl, rfl, rfl, fun h => absurd h (lt_irrefl 0)⟩
  | succ i =>
    have hp : t.parameters[i]? = some t.parameters[i] := List.getElem?_eq_getElem hi
    refine ⟨_, t.parameters[i].tested, t.getElem?_param hp, ?_⟩
    · refine ⟨⟨rfl, rfl, rfl, rfl, rfl, rfl, rfl⟩, ?_, rfl, rfl, fun _ => rfl⟩
      unfold tested
      rw [List.getElem?_cons_succ, List.getElem?_map, hp]
      rfl

/-- The node which sends a return value. -/
theorem isCommand_returnNode :
  t.returnNode.core.IsCommand
  := ⟨rfl, rfl, rfl, rfl, rfl, rfl, rfl⟩

end OnCommandElement

namespace Reception

variable {t : OnCommandElement} {s : Reception} {e : Surroundings} {i : Nat} {c : CoreNode}
variable {tested : String}

/-! ### What the nodes read -/

theorem isKnown_surroundings (m : Member) (htested : t.tested[i]? = some tested) :
  ((s.surroundings t e).base m).isKnown tested = s.known i
  := by
  have hfind : (t.tested.findIdx? fun name => name = tested) = some i := by
    obtain ⟨hi, rfl⟩ := List.getElem?_eq_some_iff.mp htested
    have hdistinct : t.tested.Nodup := t.declared
    rw [List.findIdx?_eq_some_iff_getElem]
    refine ⟨hi, by simp, fun j hj => ?_⟩
    have hne := List.pairwise_iff_getElem.mp hdistinct j i (Nat.lt_trans hj hi) hi hj
    simpa using hne
  unfold surroundings
  dsimp only
  rw [hfind]

section

variable (hreceives : t.Receives c i tested) (hi : i ≤ t.nParams)

include hreceives

theorem start_iff (hpos : 0 < i) :
  (s.family.childView t.node (s.surroundings t e) i c).start.isNotTrue = false ↔ s.known 0 = true
  := by
  have hhdl : t.tested[0]? = some OnCommandElement.hdlName := rfl
  dsimp only [Family.childView, CoreNode.view, CoreNode.value]
  rw [hreceives.start hpos, Option.map_some, Condition.isNotTrue_some, CoreExpr.eval,
    Option.some_inj]
  dsimp only [Family.childValuation]
  rw [isKnown_surroundings _ hhdl]

include hi

/-- A receiving node ends when its command is refused, or its variable is known. -/
theorem end_iff :
  (s.family.childView t.node (s.surroundings t e) i c).end.isNotTrue = false ↔
    s.Refused i ∨ s.known i = true
  := by
  have hbody : ((s.surroundings t e).body i).handle = s.handle i := by
    unfold surroundings
    dsimp only
    rw [if_pos hi]
  dsimp only [Family.childView, CoreNode.view, CoreNode.endCondition, CoreNode.value]
  rw [hreceives.command, hreceives.end]
  dsimp only [Option.map]
  rw [Condition.isNotTrue_some, kleeneOr_eq_true, hbody, CoreExpr.eval, Option.some_inj,
    Option.some_inj]
  dsimp only [Family.childValuation]
  rw [isKnown_surroundings _ hreceives.tests]
  rfl

theorem complete_iff :
  (s.family.childView t.node (s.surroundings t e) i c).actionComplete.isTrue = true ↔
    s.handle i ≠ .noCommandHandle
  := by
  have hbody : ((s.surroundings t e).body i).handle = s.handle i := by
    unfold surroundings
    dsimp only
    rw [if_pos hi]
  dsimp only [Family.childView, CoreNode.view, CoreNode.actionCompleteCondition]
  rw [hreceives.command, hbody]
  simp [Condition.isTrue]

theorem post_iff :
  (s.family.childView t.node (s.surroundings t e) i c).post.isNotTrue = false ↔
    s.handle i = .success
  := by
  dsimp only [Family.childView, CoreNode.view, CoreNode.value]
  rw [hreceives.post, Option.map_some, Condition.isNotTrue_some, CoreExpr.eval]
  dsimp only [Family.childValuation, surroundings]
  rw [if_pos hi]
  by_cases hnone : s.handle i = .noCommandHandle
  · rw [if_pos hnone, hnone]
    simp
  · rw [if_neg hnone]
    simp

end

end Reception

end Plexil.Epx
