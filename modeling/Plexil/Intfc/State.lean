import Plexil.Value.Serialize

/-!
# States

A state is the name of a lookup or of a command, with the values of its parameters.  The
state cache has an entry for each state, in a map which is ordered by `operator<`.
-/

namespace Plexil.Intfc

structure State where
  name : StringValue
  parameters : List Value
  deriving DecidableEq

namespace State

/-- `operator==`. -/
def equals (sta stb : State) : Bool :=
  sta.name = stb.name && Lexicographic.equal Value.equals sta.parameters stb.parameters

/-- `operator<`. -/
def lessThan (sta stb : State) : Bool :=
  if sta.name < stb.name then true
  else if sta.name > stb.name then false
  else if sta.parameters.length < stb.parameters.length then true
  else if sta.parameters.length > stb.parameters.length then false
  else Lexicographic.less Value.lessThan sta.parameters stb.parameters

/-! ### Serialization -/

def serialize (s : State) : Option (List Byte) := do
  let name ← serializeString s.name
  let parameters ← serializeElements Value.serialize s.parameters
  some (ValueType.state.code :: (name ++ (sizeBytes s.parameters.length ++ parameters)))

def deserialize : Reader State := do
  checkType .state
  let name ← deserializeString
  let siz ← deserializeSize
  let parameters ← Value.deserialize.many siz
  pure ⟨name, parameters⟩

end State
end Plexil.Intfc
