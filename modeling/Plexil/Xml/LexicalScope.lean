import Plexil.Xml.Scopes

/-!
# The scope of a library

The variables and nodes which a called library names are bound in the document of the library,
to the declarations which its check has found, or to the aliases of the call.  So are the
mutexes, unless a caller has a local mutex with the name of a global one.
-/

namespace Plexil.Xml

namespace FinalizedNode

end FinalizedNode

/-! ### Variables -/

section

variable {headers : List Header} {parameters : List String} {maps : List VariableMap}
variable {name : String}

/-- A variable which a containing node declares is found there or further out. -/
theorem Aligned.found (h : Aligned headers parameters maps) {j : Nat} {header : Header}
    (hheader : headers[j]? = some header) (hdeclares : header.declares name = true) :
  (findIn (maps.drop j) name).isSome = true
  := by
  obtain ⟨map, hmap⟩ := h.covers j header hheader
  rcases h.bound j header map name hheader hmap hdeclares with ⟨-, houter⟩ | ⟨e, he, -⟩
  · rw [← List.drop_drop] at houter
    apply findIn_isSome_of_drop houter
  · apply @findIn_isSome_of_getElem? _ _ e 0 map _ he
    rw [List.getElem?_drop]
    exact hmap

end

namespace FinalizedNode

variable {node : FinalizedNode}

end FinalizedNode

/-! ### Mutexes and nodes -/

section

variable {nodes callers : List NodeInfo} {name : String}

end

/-! ### Plans -/

namespace AcceptedPlan

end AcceptedPlan

end Plexil.Xml
