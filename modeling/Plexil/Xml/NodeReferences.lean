import Plexil.Xml.Plan
import Plexil.Xml.PlanLibrary

/-!
# References to nodes

The check pass looks for the node of a reference among the elements of the document, and the parser
among the nodes of the run time.  Both look at a node and its children, then at the node which
contains it, and so on.

A place in a document or in a tree is a path of indices, with the innermost first.  The node which
is constructed from an element has the path of the element, continued with the path of the node
which is constructed from the root of the document.
-/

namespace Plexil

namespace Xml

/-! ### Places -/

namespace NodeXml

/-- A child which is checked and constructed. -/
def kid? : NodeXml → Nat → Option NodeXml
  | nodeList _ _ kids _, i => kids[i]?
  | leaf _, _ | libraryNodeCall _ _, _ => none

def at? (root : NodeXml) : List Nat → Option NodeXml
  | [] => some root
  | i :: path => (root.at? path).bind fun node => node.kid? i

end NodeXml

namespace NodeImpl

def at? (root : NodeImpl) : List Nat → Option NodeImpl
  | [] => some root
  | i :: path => (root.at? path).bind fun node => node.children[i]?

/-- The places in a tree which is part of another. -/
theorem at?_append {tree part : NodeImpl} {base : List Nat} (h : tree.at? base = some part)
    (path : List Nat) :
  tree.at? (path ++ base) = part.at? path
  := by
  induction path with
  | nil => exact h
  | cons i path ih =>
    rw [List.cons_append, at?, at?, ih]

end NodeImpl

/-! ### The check pass -/

/-- An element which the check pass finds: a node, the `LibraryNodeCall` element of a node, or a
node in a further list of the body of a node. -/
inductive Element where
  | node (path : List Nat)
  | libraryNodeCall (caller : List Nat)
  | further (parent : List Nat)
  deriving DecidableEq

/-- The place of the node which is constructed from an element, when the root of its document is
at `base`.  Only the first list of a body is constructed. -/
def Element.place (base : List Nat) : Element → Option (List Nat)
  | node path => some (path ++ base)
  | libraryNodeCall caller => some (0 :: (caller ++ base))
  | further _ => none

/-- The name is that of a node in a further list of a body. -/
def inFurtherList (further : List (String × List String)) (name : String) : Bool :=
  further.any fun list => list.1 = "NodeList" ∧ name ∈ list.2

namespace NodeXml

variable (doc : NodeXml) (name : String)

/-- The children of a list are the nodes in all elements `NodeList` of its body; the child of a
call is the call itself. -/
def getNodeChild (path : List Nat) : Option Element :=
  match doc.at? path with
  | some (nodeList _ tag kids further) =>
    match if tag = "NodeList" then (kids.map nodeId).idxOf? name else none with
    | some i => some (.node (i :: path))
    | none => if inFurtherList further name then some (.further path) else none
  | some (libraryNodeCall _ callee) =>
    if callee = name then some (.libraryNodeCall path) else none
  | some (leaf _) | none => none

/-- The node has the name. -/
def isNamed (path : List Nat) : Bool := (doc.at? path).any fun node => node.nodeId = name

/-- Looks at a node and its children, then at the nodes which contain it. -/
def checkNodeId : List Nat → Option Element
  | [] => if doc.isNamed name [] then some (.node []) else doc.getNodeChild name []
  | i :: path =>
    if doc.isNamed name (i :: path) then some (.node (i :: path))
    else
      match doc.getNodeChild name (i :: path) with
      | some element => some element
      | none => checkNodeId path

/-- The element which the check pass finds for a reference in a node, when it accepts the
reference. -/
def checkNodeReference (path : List Nat) : NodeReference → Option Element
  | .self => some (.node path)
  | .parent =>
    match path with
    | [] => none
    | _ :: parent => some (.node parent)
  | .child name => if name = "" then none else doc.getNodeChild name path
  | .sibling name =>
    match path with
    | [] => none
    | _ :: parent => if name = "" then none else doc.getNodeChild name parent
  | .nodeId name => if name = "" then none else doc.checkNodeId name path

end NodeXml

/-! ### The parser -/

namespace NodeImpl

variable (tree : NodeImpl) (name : String)

def findChild (path : List Nat) : Option (List Nat) :=
  (tree.at? path).bind fun node =>
    ((node.children.map nodeId).idxOf? name).map fun i => i :: path

def findLocalNodeId (path : List Nat) : Option (List Nat) :=
  if (tree.at? path).any fun node => node.nodeId = name then some path
  else tree.findChild name path

def parseNodeId : List Nat → Option (List Nat)
  | [] => tree.findLocalNodeId name []
  | i :: path =>
    match tree.findLocalNodeId name (i :: path) with
    | some place => some place
    | none => parseNodeId path

/-- The place of the node which the parser finds for a reference in a node. -/
def parseNodeReference (path : List Nat) : NodeReference → Option (List Nat)
  | .self => some path
  | .parent =>
    match path with
    | [] => none
    | _ :: parent => some parent
  | .child name => tree.findChild name path
  | .sibling name =>
    match path with
    | [] => none
    | _ :: parent => tree.findChild name parent
  | .nodeId name => tree.parseNodeId name path

end NodeImpl

/-! ### When both find the same node -/

/-- The parser finds the node which is constructed from the element. -/
def Element.IsFound (element : Element) (base : List Nat) (found : Option (List Nat)) : Prop :=
  ∃ place, found = some place ∧ element.place base = some place

/-- Under a name, the node which is constructed from an element has the child which the element
has.  In a list this is so when its body begins with a `NodeList` and the name is not only in
further lists; in a call when the root of the library has the name by which it is called. -/
def NodeXml.sameChild (node : NodeXml) (constructed : NodeImpl) (name : String) : Bool :=
  match node with
  | leaf _ => true
  | nodeList _ tag kids further =>
    if tag = "NodeList" then name ∈ kids.map nodeId || !inFurtherList further name
    else name ∉ kids.map nodeId && !inFurtherList further name
  | libraryNodeCall _ callee =>
    decide (callee = name) == decide (name ∈ constructed.children.map NodeImpl.nodeId)

section

variable (doc : NodeXml) (tree : NodeImpl) (base : List Nat) (name : String)

/-- The element and the node at a place have the same child under a name. -/
def sameChildAt (path : List Nat) : Bool :=
  match doc.at? path, tree.at? (path ++ base) with
  | some node, some constructed => node.sameChild constructed name
  | _, _ => false

/-- The same child wherever the check pass looks at the children of a node, up to the node where
it finds the name. -/
def sameNodeId : List Nat → Bool
  | [] => doc.isNamed name [] || sameChildAt doc tree base name []
  | i :: path =>
    doc.isNamed name (i :: path) ||
      (sameChildAt doc tree base name (i :: path) &&
        ((doc.getNodeChild name (i :: path)).isSome || sameNodeId path))

def sameReference (path : List Nat) : NodeReference → Bool
  | .self | .parent => true
  | .child name => sameChildAt doc tree base name path
  | .sibling name => sameChildAt doc tree base name path.tail
  | .nodeId name => sameNodeId doc tree base name path

end

/-! ### The constructed tree -/

/-- The node has the id of the element, and children with the ids of its children. -/
def Mirrors (node : NodeXml) (constructed : NodeImpl) : Prop :=
  constructed.nodeId = node.nodeId ∧
    match node with
    | .leaf _ => constructed.children = []
    | .nodeList _ _ kids _ => constructed.children.map NodeImpl.nodeId = kids.map NodeXml.nodeId
    | .libraryNodeCall _ _ => ∃ root, constructed.children = [root]

variable {documents : List NodeXml}

theorem Construction.map_eq_ok {α β : Type} {f : α → β} {c : Construction documents α} {b : β}
    {loaded : LibraryMap documents} (h : c.map f = some (.ok (b, loaded))) :
  ∃ a, c = some (.ok (a, loaded)) ∧ b = f a
  := by
  rcases c with _ | _ | ⟨a, loaded'⟩
  · contradiction
  · cases h
  · cases h
    exact ⟨a, rfl, rfl⟩

section

variable {construct : LibraryMap documents → LibraryCall → Construction documents NodeImpl}
  {loaded loaded' : LibraryMap documents}

/-- The children are constructed from the kids, one from each. -/
theorem forall₂_of_constructChildNodes {kids : List NodeXml} {children : List NodeImpl}
    (h : constructChildNodes construct loaded kids = some (.ok (children, loaded'))) :
  List.Forall₂ (fun kid child => ∃ l l', constructNode construct l kid = some (.ok (child, l')))
    kids children
  := by
  induction kids generalizing loaded children with
  | nil =>
    cases h
    exact .nil
  | cons kid rest ih =>
    rw [constructChildNodes] at h
    split at h
    · contradiction
    · cases h
    · rename_i child l hkid
      obtain ⟨others, hrest, rfl⟩ := Construction.map_eq_ok h
      exact .cons ⟨_, _, hkid⟩ (ih hrest)

theorem nodeId_of_constructNode {node : NodeXml} {constructed : NodeImpl}
    (h : constructNode construct loaded node = some (.ok (constructed, loaded'))) :
  constructed.nodeId = node.nodeId
  := by
  cases node with
  | leaf nodeId =>
    rw [constructNode] at h
    cases h
    rfl
  | nodeList nodeId tag kids further =>
    rw [constructNode] at h
    obtain ⟨children, -, rfl⟩ := Construction.map_eq_ok h
    rfl
  | libraryNodeCall nodeId callee =>
    rw [constructNode] at h
    obtain ⟨root, -, rfl⟩ := Construction.map_eq_ok h
    rfl

theorem mirrors_of_constructNode {node : NodeXml} {constructed : NodeImpl}
    (h : constructNode construct loaded node = some (.ok (constructed, loaded'))) :
  Mirrors node constructed
  := by
  refine ⟨nodeId_of_constructNode h, ?_⟩
  cases node with
  | leaf nodeId =>
    rw [constructNode] at h
    cases h
    rfl
  | nodeList nodeId tag kids further =>
    rw [constructNode] at h
    obtain ⟨children, hkids, rfl⟩ := Construction.map_eq_ok h
    dsimp only [NodeImpl.children]
    rw [← List.forall₂_eq_eq_eq, List.forall₂_map_left_iff, List.forall₂_map_right_iff]
    apply (forall₂_of_constructChildNodes hkids).flip.imp
    rintro child kid ⟨l, l', hkid⟩
    exact nodeId_of_constructNode hkid
  | libraryNodeCall nodeId callee =>
    rw [constructNode] at h
    obtain ⟨root, -, rfl⟩ := Construction.map_eq_ok h
    exact ⟨root, rfl⟩

/-- A kid has been constructed as the child with its index. -/
theorem exists_child_of_kid {node kid : NodeXml} {constructed : NodeImpl} {i : Nat}
    (h : constructNode construct loaded node = some (.ok (constructed, loaded')))
    (hkid : node.kid? i = some kid) :
  ∃ child l l', constructed.children[i]? = some child ∧
    constructNode construct l kid = some (.ok (child, l'))
  := by
  cases node with
  | leaf nodeId => contradiction
  | libraryNodeCall nodeId callee => contradiction
  | nodeList nodeId tag kids further =>
    rw [constructNode] at h
    obtain ⟨children, hkids, rfl⟩ := Construction.map_eq_ok h
    have hall := forall₂_of_constructChildNodes hkids
    obtain ⟨hi, hget⟩ := List.getElem?_eq_some_iff.mp hkid
    have hi' : i < children.length := hall.length_eq ▸ hi
    obtain ⟨l, l', hchild⟩ := hall.get hi hi'
    refine ⟨children[i], l, l', ?_, ?_⟩
    · exact List.getElem?_eq_getElem hi'
    · rw [← hget]
      exact hchild

/-- Each element of a document has been constructed at its place. -/
theorem exists_constructed_at {doc node : NodeXml} {tree : NodeImpl} {path : List Nat}
    (h : constructNode construct loaded doc = some (.ok (tree, loaded')))
    (hnode : doc.at? path = some node) :
  ∃ constructed l l', tree.at? path = some constructed ∧
    constructNode construct l node = some (.ok (constructed, l'))
  := by
  induction path generalizing node with
  | nil =>
    cases hnode
    exact ⟨tree, _, _, rfl, h⟩
  | cons i path ih =>
    obtain ⟨parent, hparent, hkid⟩ := Option.bind_eq_some_iff.mp hnode
    obtain ⟨constructed, l, l', hat, hconstruct⟩ := ih hparent
    obtain ⟨child, l, l', hchild, hconstruct⟩ := exists_child_of_kid hconstruct hkid
    refine ⟨child, l, l', ?_, hconstruct⟩
    rw [NodeImpl.at?, hat]
    exact hchild

end

/-! ### One node and its children -/

section

variable {doc node : NodeXml} {tree constructed : NodeImpl} {base path : List Nat} {name : String}
  {element : Element}

theorem isNamed_eq (hnode : doc.at? path = some node) :
  doc.isNamed name path = decide (node.nodeId = name)
  := by
  unfold NodeXml.isNamed
  rw [hnode]
  rfl

theorem findChild_eq (hat : tree.at? path = some constructed) :
  tree.findChild name path =
    ((constructed.children.map NodeImpl.nodeId).idxOf? name).map fun i => i :: path
  := by
  unfold NodeImpl.findChild
  rw [hat]
  rfl

theorem findChild_eq_none_iff (hat : tree.at? path = some constructed) :
  tree.findChild name path = none ↔ name ∉ constructed.children.map NodeImpl.nodeId
  := by
  rw [findChild_eq hat, Option.map_eq_none_iff, List.idxOf?_eq_none_iff]

theorem isSome_findChild_iff (hat : tree.at? path = some constructed) :
  (tree.findChild name path).isSome ↔ name ∈ constructed.children.map NodeImpl.nodeId
  := by
  rw [← Option.ne_none_iff_isSome, Ne, findChild_eq_none_iff hat, not_not]

theorem sameChildAt_eq (hnode : doc.at? path = some node)
    (hat : tree.at? (path ++ base) = some constructed) :
  sameChildAt doc tree base name path = node.sameChild constructed name
  := by
  unfold sameChildAt
  rw [hnode, hat]

theorem getNodeChild_nodeList {nodeId tag : String} {kids : List NodeXml}
    {further : List (String × List String)}
    (hnode : doc.at? path = some (.nodeList nodeId tag kids further)) :
  doc.getNodeChild name path =
    match if tag = "NodeList" then (kids.map NodeXml.nodeId).idxOf? name else none with
    | some i => some (.node (i :: path))
    | none => if inFurtherList further name then some (.further path) else none
  := by
  unfold NodeXml.getNodeChild
  rw [hnode]

theorem getNodeChild_libraryNodeCall {nodeId callee : String}
    (hnode : doc.at? path = some (.libraryNodeCall nodeId callee)) :
  doc.getNodeChild name path = if callee = name then some (.libraryNodeCall path) else none
  := by
  unfold NodeXml.getNodeChild
  rw [hnode]

theorem getNodeChild_leaf {nodeId : String} (hnode : doc.at? path = some (.leaf nodeId)) :
  doc.getNodeChild name path = none
  := by
  unfold NodeXml.getNodeChild
  rw [hnode]

/-- Where the child is the same, the parser finds it if the check pass does. -/
theorem findChild_of_sameChildAt (hnode : doc.at? path = some node)
    (hat : tree.at? (path ++ base) = some constructed) (hmirrors : Mirrors node constructed)
    (h : sameChildAt doc tree base name path = true) :
  match doc.getNodeChild name path with
  | some element => element.IsFound base (tree.findChild name (path ++ base))
  | none => tree.findChild name (path ++ base) = none
  := by
  rw [sameChildAt_eq hnode hat] at h
  cases node with
  | leaf nodeId =>
    rw [getNodeChild_leaf hnode]
    dsimp only
    rw [findChild_eq_none_iff hat, hmirrors.2]
    exact List.not_mem_nil
  | nodeList nodeId tag kids further =>
    have hids : constructed.children.map NodeImpl.nodeId = kids.map NodeXml.nodeId := hmirrors.2
    rw [getNodeChild_nodeList hnode, findChild_eq hat, hids]
    unfold NodeXml.sameChild at h
    dsimp only at h
    cases hidx : (kids.map NodeXml.nodeId).idxOf? name with
    | none =>
      have hmem : name ∉ kids.map NodeXml.nodeId := List.idxOf?_eq_none_iff.mp hidx
      have hfurther : inFurtherList further name = false := by
        split at h <;> simpa [hmem] using h
      rw [ite_self, hfurther]
      rfl
    | some i =>
      have hmem : name ∈ kids.map NodeXml.nodeId := by
        by_contra hmem
        rw [List.idxOf?_eq_none_iff.mpr hmem] at hidx
        contradiction
      have htag : tag = "NodeList" := by
        by_contra htag
        simp [htag, hmem] at h
      rw [if_pos htag]
      exact ⟨_, rfl, rfl⟩
  | libraryNodeCall nodeId callee =>
    obtain ⟨root, hroot⟩ := hmirrors.2
    unfold NodeXml.sameChild at h
    rw [hroot, beq_iff_eq, decide_eq_decide, List.map_singleton, List.mem_singleton] at h
    rw [getNodeChild_libraryNodeCall hnode]
    by_cases hcallee : callee = name
    · rw [if_pos hcallee, findChild_eq hat, hroot, h.mp hcallee]
      exact ⟨0 :: (path ++ base), by simp, rfl⟩
    · rw [if_neg hcallee]
      dsimp only
      rw [findChild_eq_none_iff hat, hroot, List.map_singleton, List.mem_singleton, ← h]
      exact hcallee

/-- Where the child is not the same, the parser finds one which the check pass does not find, or
it finds none, or none is constructed from what the check pass finds. -/
theorem findChild_of_not_sameChildAt (hnode : doc.at? path = some node)
    (hat : tree.at? (path ++ base) = some constructed) (hmirrors : Mirrors node constructed)
    (h : sameChildAt doc tree base name path = false) :
  match doc.getNodeChild name path with
  | some element => tree.findChild name (path ++ base) = none ∨ element.place base = none
  | none => (tree.findChild name (path ++ base)).isSome
  := by
  rw [sameChildAt_eq hnode hat] at h
  rw [isSome_findChild_iff hat, findChild_eq_none_iff hat]
  cases node with
  | leaf nodeId => contradiction
  | nodeList nodeId tag kids further =>
    have hids : constructed.children.map NodeImpl.nodeId = kids.map NodeXml.nodeId := hmirrors.2
    rw [getNodeChild_nodeList hnode, hids]
    unfold NodeXml.sameChild at h
    dsimp only at h
    by_cases htag : tag = "NodeList"
    · rw [if_pos htag, Bool.or_eq_false_iff, decide_eq_false_iff_not, Bool.not_eq_false'] at h
      rw [if_pos htag, List.idxOf?_eq_none_iff.mpr h.1, h.2]
      exact .inr rfl
    · rw [if_neg htag, Bool.and_eq_false_iff, decide_eq_false_iff_not, not_not,
        Bool.not_eq_false'] at h
      rw [if_neg htag]
      cases hfurther : inFurtherList further name with
      | true => exact .inr rfl
      | false => exact h.resolve_right (by simp [hfurther])
  | libraryNodeCall nodeId callee =>
    unfold NodeXml.sameChild at h
    rw [beq_eq_false_iff_ne, Ne, decide_eq_decide] at h
    rw [getNodeChild_libraryNodeCall hnode]
    by_cases hcallee : callee = name
    · rw [if_pos hcallee]
      exact .inl fun hmem => h ⟨fun _ => hmem, fun _ => hcallee⟩
    · rw [if_neg hcallee]
      by_contra hmem
      exact h ⟨fun heq => absurd heq hcallee, fun heq => absurd heq hmem⟩

/-! ### How far a search has come -/

theorem length_of_findChild {place : List Nat} (h : tree.findChild name path = some place) :
  place.length = path.length + 1
  := by
  obtain ⟨node, -, h⟩ := Option.bind_eq_some_iff.mp h
  obtain ⟨i, -, rfl⟩ := Option.map_eq_some_iff.mp h
  rfl

theorem length_of_getNodeChild (h : doc.getNodeChild name path = some element) {place : List Nat}
    (hplace : element.place base = some place) :
  place.length = (path ++ base).length + 1
  := by
  unfold NodeXml.getNodeChild at h
  split at h
  · split at h
    · cases h
      cases hplace
      rfl
    · split at h
      · cases h
        contradiction
      · contradiction
  · split at h
    · cases h
      cases hplace
      rfl
    · contradiction
  · contradiction
  · contradiction

theorem length_of_findLocalNodeId {place : List Nat}
    (h : tree.findLocalNodeId name path = some place) :
  place.length ≤ path.length + 1
  := by
  unfold NodeImpl.findLocalNodeId at h
  split at h
  · cases h
    exact Nat.le_succ _
  · exact (length_of_findChild h).le

theorem length_of_parseNodeId {place : List Nat} (h : tree.parseNodeId name path = some place) :
  place.length ≤ path.length + 1
  := by
  induction path with
  | nil => exact length_of_findLocalNodeId h
  | cons i path ih =>
    unfold NodeImpl.parseNodeId at h
    split at h
    · rename_i hlocal
      cases h
      exact length_of_findLocalNodeId hlocal
    · have := ih h
      simp only [List.length_cons]
      omega

theorem length_of_checkNodeId (h : doc.checkNodeId name path = some element) {place : List Nat}
    (hplace : element.place base = some place) :
  place.length ≤ (path ++ base).length + 1
  := by
  induction path with
  | nil =>
    unfold NodeXml.checkNodeId at h
    split at h
    · cases h
      cases hplace
      exact Nat.le_succ _
    · exact (length_of_getNodeChild h hplace).le
  | cons i path ih =>
    unfold NodeXml.checkNodeId at h
    split at h
    · cases h
      cases hplace
      exact Nat.le_succ _
    · split at h
      · rename_i hchild
        cases h
        exact (length_of_getNodeChild hchild hplace).le
      · have := ih h
        simp only [List.cons_append, List.length_cons]
        omega

/-! ### Searching from a node outwards -/

theorem parseNodeId_of_local {place : List Nat}
    (h : tree.findLocalNodeId name path = some place) :
  tree.parseNodeId name path = some place
  := by
  cases path with
  | nil => exact h
  | cons i path =>
    unfold NodeImpl.parseNodeId
    rw [h]

/-- A node which is not found among a node and its children is not found further in. -/
theorem length_of_not_local {place : List Nat} (h : tree.findLocalNodeId name path = none)
    (hplace : tree.parseNodeId name path = some place) :
  place.length ≤ path.length
  := by
  cases path with
  | nil =>
    rw [NodeImpl.parseNodeId, h] at hplace
    contradiction
  | cons i path =>
    rw [NodeImpl.parseNodeId, h] at hplace
    exact length_of_parseNodeId hplace

theorem findLocalNodeId_eq (hat : tree.at? path = some constructed) :
  tree.findLocalNodeId name path =
    if constructed.nodeId = name then some path else tree.findChild name path
  := by
  unfold NodeImpl.findLocalNodeId
  rw [hat]
  simp

/-- The search ends at a node which the check pass finds by its own name. -/
theorem isFound_of_isNamed (hat : tree.at? (path ++ base) = some constructed)
    (hname : constructed.nodeId = name) :
  (Element.node path).IsFound base (tree.parseNodeId name (path ++ base))
  := by
  refine ⟨path ++ base, ?_, rfl⟩
  apply parseNodeId_of_local
  rw [findLocalNodeId_eq hat, if_pos hname]

/-- The search ends at a node among whose children the check pass finds the name. -/
theorem isFound_child_iff (hnode : doc.at? path = some node)
    (hat : tree.at? (path ++ base) = some constructed) (hmirrors : Mirrors node constructed)
    (hname : node.nodeId ≠ name) (hchild : doc.getNodeChild name path = some element) :
  element.IsFound base (tree.parseNodeId name (path ++ base)) ↔
    sameChildAt doc tree base name path = true
  := by
  have hlocal : tree.findLocalNodeId name (path ++ base) =
      tree.findChild name (path ++ base) := by
    rw [findLocalNodeId_eq hat, hmirrors.1, if_neg hname]
  constructor
  · rintro ⟨place, hparse, hplace⟩
    by_contra hsame
    have hnot := findChild_of_not_sameChildAt hnode hat hmirrors (Bool.not_eq_true _ ▸ hsame)
    rw [hchild] at hnot
    rcases hnot with hnone | hplace'
    · -- What is found further out is not among the children.
      have hle := length_of_not_local (hlocal.trans hnone) hparse
      rw [length_of_getNodeChild hchild hplace] at hle
      omega
    · rw [hplace'] at hplace
      contradiction
  · intro hsame
    have hfound := findChild_of_sameChildAt hnode hat hmirrors hsame
    rw [hchild] at hfound
    obtain ⟨place, hfind, hplace⟩ := hfound
    exact ⟨place, parseNodeId_of_local (hlocal.trans hfind), hplace⟩

end

/-- The nodes of a tree from `base` on are constructed from the elements of a document. -/
def IsConstructedAt (doc : NodeXml) (tree : NodeImpl) (base : List Nat) : Prop :=
  ∀ path node, doc.at? path = some node →
    ∃ constructed, tree.at? (path ++ base) = some constructed ∧ Mirrors node constructed

section

variable {doc node : NodeXml} {tree : NodeImpl} {base path : List Nat} {name : String}
  {element : Element}

theorem isFound_nodeId_iff (hconstructed : IsConstructedAt doc tree base)
    (hnode : doc.at? path = some node) (h : doc.checkNodeId name path = some element) :
  element.IsFound base (tree.parseNodeId name (path ++ base)) ↔
    sameNodeId doc tree base name path = true
  := by
  induction path generalizing node with
  | nil =>
    obtain ⟨constructed, hat, hmirrors⟩ := hconstructed _ _ hnode
    unfold NodeXml.checkNodeId at h
    unfold sameNodeId
    rw [isNamed_eq hnode] at h ⊢
    by_cases hname : node.nodeId = name
    · rw [if_pos (decide_eq_true hname)] at h
      cases h
      rw [decide_eq_true hname, Bool.true_or]
      exact iff_of_true (isFound_of_isNamed hat (hmirrors.1.trans hname)) rfl
    · rw [decide_eq_false hname, if_neg Bool.false_ne_true] at h
      rw [decide_eq_false hname, Bool.false_or]
      exact isFound_child_iff hnode hat hmirrors hname h
  | cons i path ih =>
    obtain ⟨constructed, hat, hmirrors⟩ := hconstructed _ _ hnode
    unfold NodeXml.checkNodeId at h
    unfold sameNodeId
    rw [isNamed_eq hnode] at h ⊢
    by_cases hname : node.nodeId = name
    · rw [if_pos (decide_eq_true hname)] at h
      cases h
      rw [decide_eq_true hname, Bool.true_or]
      exact iff_of_true (isFound_of_isNamed hat (hmirrors.1.trans hname)) rfl
    · rw [decide_eq_false hname, if_neg Bool.false_ne_true] at h
      rw [decide_eq_false hname, Bool.false_or, Bool.and_eq_true]
      cases hchild : doc.getNodeChild name (i :: path) with
      | some element' =>
        rw [hchild] at h
        cases h
        rw [isFound_child_iff hnode hat hmirrors hname hchild]
        simp
      | none =>
        rw [hchild] at h
        obtain ⟨parent, hparent, -⟩ := Option.bind_eq_some_iff.mp hnode
        rw [Option.isSome_none, Bool.false_or, ← ih hparent h]
        have hlocal : tree.findLocalNodeId name (i :: path ++ base) =
            tree.findChild name (i :: path ++ base) := by
          rw [findLocalNodeId_eq hat, hmirrors.1, if_neg hname]
        cases hsame : sameChildAt doc tree base name (i :: path) with
        | true =>
          have hnone := findChild_of_sameChildAt hnode hat hmirrors hsame
          rw [hchild] at hnone
          have hparse : tree.parseNodeId name (i :: path ++ base) =
              tree.parseNodeId name (path ++ base) := by
            rw [List.cons_append, NodeImpl.parseNodeId]
            rw [List.cons_append] at hlocal hnone
            rw [hlocal, hnone]
          rw [hparse]
          simp
        | false =>
          have hsome := findChild_of_not_sameChildAt hnode hat hmirrors hsame
          rw [hchild] at hsome
          obtain ⟨child, hfind⟩ := Option.isSome_iff_exists.mp hsome
          simp only [Bool.false_eq_true, false_and, iff_false]
          -- The parser finds a child, and the check pass something further out.
          rintro ⟨place, hparse, hplace⟩
          rw [parseNodeId_of_local (hlocal.trans hfind)] at hparse
          cases hparse
          have hle := length_of_checkNodeId h hplace
          rw [length_of_findChild hfind, List.cons_append, List.length_cons] at hle
          omega

/-- The parser finds the child which the check pass has found. -/
theorem isFound_getNodeChild_iff (hconstructed : IsConstructedAt doc tree base)
    (hnode : doc.at? path = some node) (h : doc.getNodeChild name path = some element) :
  element.IsFound base (tree.findChild name (path ++ base)) ↔
    sameChildAt doc tree base name path = true
  := by
  obtain ⟨constructed, hat, hmirrors⟩ := hconstructed _ _ hnode
  cases hsame : sameChildAt doc tree base name path with
  | true =>
    have hfound := findChild_of_sameChildAt hnode hat hmirrors hsame
    rw [h] at hfound
    exact iff_of_true hfound rfl
  | false =>
    have hnot := findChild_of_not_sameChildAt hnode hat hmirrors hsame
    rw [h] at hnot
    apply iff_of_false _ Bool.false_ne_true
    rintro ⟨place, hfind, hplace⟩
    rcases hnot with hnone | hplace'
    · rw [hnone] at hfind
      contradiction
    · rw [hplace'] at hplace
      contradiction

theorem isFound_reference_iff {ref : NodeReference} (hconstructed : IsConstructedAt doc tree base)
    (hnode : doc.at? path = some node) (h : doc.checkNodeReference path ref = some element) :
  element.IsFound base (tree.parseNodeReference (path ++ base) ref) ↔
    sameReference doc tree base path ref = true
  := by
  cases ref with
  | self =>
    cases h
    exact iff_of_true ⟨path ++ base, rfl, rfl⟩ rfl
  | parent =>
    cases path with
    | nil => contradiction
    | cons i path =>
      cases h
      exact iff_of_true ⟨path ++ base, rfl, rfl⟩ rfl
  | child name =>
    simp only [NodeXml.checkNodeReference, Option.ite_none_left_eq_some] at h
    exact isFound_getNodeChild_iff hconstructed hnode h.2
  | sibling name =>
    cases path with
    | nil => contradiction
    | cons i path =>
      simp only [NodeXml.checkNodeReference, Option.ite_none_left_eq_some] at h
      obtain ⟨parent, hparent, -⟩ := Option.bind_eq_some_iff.mp hnode
      exact isFound_getNodeChild_iff hconstructed hparent h.2
  | nodeId name =>
    simp only [NodeXml.checkNodeReference, Option.ite_none_left_eq_some] at h
    exact isFound_nodeId_iff hconstructed hnode h.2

end

/-! ### References in constructed trees -/

variable {files : LibraryFiles documents} {fuel : Nat} {loaded loaded' : LibraryMap documents}
  {doc : NodeXml} {tree part : NodeImpl} {base : List Nat}

/-- A document is constructed as part of a tree. -/
theorem isConstructedAt_of_constructPlan
    (h : constructPlan files fuel loaded doc = some (.ok (part, loaded')))
    (hpart : tree.at? base = some part) :
  IsConstructedAt doc tree base
  := by
  intro path node hnode
  obtain ⟨constructed, l, l', hat, hconstruct⟩ := exists_constructed_at h hnode
  refine ⟨constructed, ?_, mirrors_of_constructNode hconstruct⟩
  rw [NodeImpl.at?_append hpart]
  exact hat

/-- Each node of a constructed tree is constructed from an element, in the plan or in the document
of a library. -/
theorem exists_document {place : List Nat} {constructed : NodeImpl}
    (h : constructPlan files fuel loaded doc = some (.ok (tree, loaded')))
    (hat : tree.at? place = some constructed) :
  ∃ (doc' : NodeXml) (base path : List Nat) (node : NodeXml) (part : NodeImpl) (fuel' : Nat)
      (l l' m m' : LibraryMap documents),
    place = path ++ base ∧ tree.at? base = some part ∧
      constructPlan files fuel' l doc' = some (.ok (part, l')) ∧ doc'.at? path = some node ∧
      constructNode (constructLibraryCall files fuel') m node = some (.ok (constructed, m'))
  := by
  induction place generalizing constructed with
  | nil =>
    cases hat
    exact ⟨doc, [], [], doc, tree, fuel, _, _, _, _, rfl, rfl, h, rfl, h⟩
  | cons i place ih =>
    obtain ⟨parent, hparent, hchild⟩ := Option.bind_eq_some_iff.mp hat
    obtain ⟨doc', base, path, node, part, fuel', l, l', m, m', rfl, hpart, hplan, hnode,
      hconstruct⟩ := ih hparent
    cases node with
    | leaf nodeId =>
      rw [constructNode] at hconstruct
      cases hconstruct
      contradiction
    | nodeList nodeId tag kids further =>
      rw [constructNode] at hconstruct
      obtain ⟨children, hkids, rfl⟩ := Construction.map_eq_ok hconstruct
      have hall := forall₂_of_constructChildNodes hkids
      obtain ⟨hi, rfl⟩ := List.getElem?_eq_some_iff.mp hchild
      have hi' : i < kids.length := hall.length_eq ▸ hi
      obtain ⟨n, n', hkid⟩ := hall.get hi' hi
      refine ⟨doc', base, i :: path, kids[i], part, fuel', l, l', n, n', rfl, hpart, hplan, ?_,
        hkid⟩
      rw [NodeXml.at?, hnode]
      exact List.getElem?_eq_getElem hi'
    | libraryNodeCall nodeId callee =>
      rw [constructNode] at hconstruct
      obtain ⟨root, hroot, rfl⟩ := Construction.map_eq_ok hconstruct
      -- The root of the library begins a new document.
      obtain ⟨rfl, rfl⟩ : i = 0 ∧ root = constructed := by
        cases i with
        | zero => exact ⟨rfl, Option.some.inj hchild⟩
        | succ i => contradiction
      cases fuel' with
      | zero => contradiction
      | succ fuel' =>
        rw [constructLibraryCall] at hroot
        split at hroot
        · cases hroot
        · rename_i library n _
          exact ⟨library.1, 0 :: (path ++ base), [], library.1, root, fuel', n, m', n, m', rfl,
            hat, hroot, rfl, hroot⟩

/-- The parser finds for an accepted reference the node which is constructed from the element that
the check pass has found, exactly when the document and the tree have the same children under the
name wherever the check pass looks. -/
theorem references_agree_iff {path : List Nat} {node : NodeXml} {ref : NodeReference}
    {element : Element} (h : constructPlan files fuel loaded doc = some (.ok (part, loaded')))
    (hpart : tree.at? base = some part) (hnode : doc.at? path = some node)
    (hchecked : doc.checkNodeReference path ref = some element) :
  element.IsFound base (tree.parseNodeReference (path ++ base) ref) ↔
    sameReference doc tree base path ref = true
  := isFound_reference_iff (isConstructedAt_of_constructPlan h hpart) hnode hchecked

/-- The library `A`, in a directory `lib` which can also be searched. -/
def libraryA : LibraryFiles [.leaf "A"] where
  loadLibraryFile file :=
    if file = "A.plx" ∨ file = "lib/A.plx" then some ⟨_, List.mem_singleton_self _⟩ else none

/-- No library has been loaded. -/
def LibraryMap.empty : LibraryMap documents where
  find _ := none
  nodeId_eq _ _ h := by contradiction

/-- From the call of a library its root is found by its name. -/
theorem references_agree_iff_libraryA :
  (Element.libraryNodeCall [0]).IsFound []
    ((NodeImpl.node "Main" [.node "Call" [.node "A" []]]).parseNodeReference [0] (.nodeId "A"))
  := (@references_agree_iff _ libraryA 1 .empty _
    (.nodeList "Main" "NodeList" [.libraryNodeCall "Call" "A"] []) _ _ [] [0] _ _ _
    rfl rfl rfl rfl).mpr rfl

/-- The root of a library which is called by the name of its file is not found. -/
theorem not_references_agree :
  ¬ ∀ (documents : List NodeXml) (files : LibraryFiles documents) (fuel : Nat)
      (loaded loaded' : LibraryMap documents) (doc : NodeXml) (tree : NodeImpl) (path : List Nat)
      (node : NodeXml) (ref : NodeReference) (element : Element),
      constructPlan files fuel loaded doc = some (.ok (tree, loaded')) →
        doc.at? path = some node → doc.checkNodeReference path ref = some element →
          element.IsFound [] (tree.parseNodeReference path ref)
  := by
  intro h
  obtain ⟨place, hfind, -⟩ := h _ libraryA 1 .empty _ (.libraryNodeCall "Main" "lib/A.plx")
    (.node "Main" [.node "A" []]) [] _ (.child "lib/A.plx") _ rfl rfl rfl
  contradiction

end Xml

end Plexil
