import Plexil.Epx.OnCommand
import Plexil.Epx.IfCheck

/-!
# The check of a translated OnCommand

The commands inside the action are given the handle at every depth.  An action which is itself a
`SendReturnValue` command is rebuilt from the body of the `OnCommand` element, which has none: its
command loses its name and its arguments, and is rejected.  An action with a start condition of
its own gets two, and is rejected as well.
-/

namespace Plexil.Epx

/-- The command with the handle before its own arguments, when it sends a return value. -/
def Command.withHandle (hdlRef : Argument) (c : Command) : Command :=
  if c.isSendReturnValue then { c with arguments := hdlRef :: c.arguments } else c

namespace PlanNode

variable {hdlRef : Argument}

mutual

/-- A node which is the context item for its own body. -/
theorem commands_amendSendReturn :
  ∀ node : PlanNode, (amendSendReturn hdlRef node.bodyCommand node).commands =
    node.commands.map (Command.withHandle hdlRef)
  | .list _ children => commandsAll_amendChildren children
  | .command _ _ => rfl
  | .plain _ _ => rfl

theorem commandsAll_amendChildren :
  ∀ children : List PlanNode, commandsAll (amendChildren hdlRef children) =
    (commandsAll children).map (Command.withHandle hdlRef)
  | [] => rfl
  | child :: rest => by
    rw [amendChildren, commandsAll, commands_amendSendReturn child, commandsAll_amendChildren rest,
      commandsAll, List.map_append]

end

mutual

/-- Only commands are amended. -/
theorem core_amendSendReturn (context : Option Command) :
  ∀ node : PlanNode, (amendSendReturn hdlRef context node).core = node.core
  | .list x children => by
    rw [amendSendReturn, core, core, coreAll_amendChildren children]
  | .command _ _ => rfl
  | .plain _ _ => rfl

theorem coreAll_amendChildren :
  ∀ children : List PlanNode, coreAll (amendChildren hdlRef children) = coreAll children
  | [] => rfl
  | child :: rest => by
    rw [amendChildren, coreAll, coreAll, core_amendSendReturn _ child, coreAll_amendChildren rest]

end

theorem coreAll_eq_map (children : List PlanNode) :
  coreAll children = children.map core
  := by
  induction children with
  | nil => rfl
  | cons child rest ih => rw [coreAll, ih, List.map_cons]

end PlanNode

namespace OnCommandElement

variable (t : OnCommandElement)

/-! ### The commands of the action -/

/-- The commands of the action which send a return value have the handle as their first argument,
followed by their own; the other commands are unchanged. -/
def HandsHandle : Prop :=
  t.actionBody.commands = t.body.commands.map (Command.withHandle hdlRef)

/-- The plan parser accepts the translation: the node is checked, and every command has a name. -/
def Accepted : Prop :=
  checkNode none t.node = true ∧ ∀ c ∈ t.staging.commands, c.name.isSome = true

end OnCommandElement

/-! ### The NodeIds of the children -/

namespace OnCommandElement

variable (t : OnCommandElement)

/-- The NodeIds of the children. -/
def childIds : List String :=
  generatedId "CmdWait" :: (List.range t.nParams).map paramNodeId ++
    t.body.element.nodeId :: if t.sends then [] else [returnNodeId t.cmdName]

theorem mem_children {child : PlanNode} :
  child ∈ t.children ↔ child = t.commandWait ∨
    (∃ i p, t.parameters[i]? = some p ∧ child = getParamCommandNode i p) ∨
    child = t.actionBody ∨ (t.sends = false ∧ child = t.returnNode)
  := by
  have hparam : child ∈ t.parameters.mapIdx getParamCommandNode ↔
      ∃ i p, t.parameters[i]? = some p ∧ child = getParamCommandNode i p := by
    rw [List.mem_mapIdx]
    constructor
    · rintro ⟨i, hi, rfl⟩
      exact ⟨i, _, List.getElem?_eq_getElem hi, rfl⟩
    · rintro ⟨i, p, hp, rfl⟩
      obtain ⟨hi, rfl⟩ := List.getElem?_eq_some_iff.mp hp
      exact ⟨i, hi, rfl⟩
  unfold children
  rw [List.cons_append, List.mem_cons, List.mem_append, List.mem_cons, hparam]
  cases t.sends <;> simp

theorem children_node :
  t.node.children = t.children.map PlanNode.core
  := PlanNode.coreAll_eq_map _

end OnCommandElement

end Plexil.Epx
