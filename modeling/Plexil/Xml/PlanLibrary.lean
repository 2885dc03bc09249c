import Mathlib.Data.Finite.Prod
import Mathlib.Data.Fintype.Powerset
import Mathlib.Data.List.DropRight
import Mathlib.Data.Set.Finite.List
import Plexil.Util.CallExpansion

/-!
# Plan libraries

A plan calls library nodes by name.  A library which has not been loaded is looked for in a file,
and is kept by the id of its root node.  To construct a plan is to construct its nodes in the order
of the document, and to construct in the place of a call the plan of the library which it calls.

Only the parts of a document count which decide what is constructed.  They have been checked by
`checkPlan`, and so a library which is not found is the only error.
-/

namespace Plexil

namespace Xml

/-- A `Node` element.  A leaf is an assignment, a command, an update or an empty node.  The
children of a list stand in the first element of its body, whose tag is not checked; `further` has
the other elements of the body, each with its tag and the ids of the nodes in it.  A call names its
library. -/
inductive NodeXml where
  | leaf (nodeId : String)
  | nodeList (nodeId tag : String) (kids : List NodeXml) (further : List (String × List String))
  | libraryNodeCall (nodeId callee : String)

/-- A node of the run time. -/
inductive NodeImpl where
  | node (nodeId : String) (children : List NodeImpl)

namespace NodeImpl

def nodeId : NodeImpl → String
  | node nodeId _ => nodeId

def children : NodeImpl → List NodeImpl
  | node _ children => children

end NodeImpl

/-- A call, with the id of the node which makes it. -/
structure LibraryCall where
  nodeId : String
  callee : String
  deriving DecidableEq

namespace NodeXml

def nodeId : NodeXml → String
  | leaf nodeId | nodeList nodeId _ _ _ | libraryNodeCall nodeId _ => nodeId

mutual

/-- The calls in a document, in its order. -/
def calls : NodeXml → List LibraryCall
  | leaf _ => []
  | nodeList _ _ kids _ => callsOfList kids
  | libraryNodeCall nodeId callee => [⟨nodeId, callee⟩]

def callsOfList : List NodeXml → List LibraryCall
  | [] => []
  | kid :: rest => kid.calls ++ callsOfList rest

end

end NodeXml

/-! ### Libraries -/

/-- The text before the last occurrence of a pattern. -/
def beforeLast (pattern : List Char) : List Char → Option (List Char)
  | [] => none
  | c :: cs =>
    match beforeLast pattern cs with
    | some before => some (c :: before)
    | none => if pattern.isPrefixOf (c :: cs) then some [] else none

/-- The text before the last `.plx`. -/
def withoutExtension (name : String) : Option (List Char) :=
  beforeLast [ '.', 'p', 'l', 'x'] name.toList

/-- The file in which a library is looked for.  The name of the library may be that of a file. -/
def fileName (name : String) : String :=
  match withoutExtension name with
  | none => name ++ ".plx"
  | some _ => name

/-- The id which the root node of that file must have: the name without directories and without
what begins with the last `.plx`. -/
def nodeName (name : String) : String :=
  String.ofList (((withoutExtension name).getD name.toList).rtakeWhile fun c => c ≠ '/' ∧ c ≠ '\\')

/-- The libraries which have been loaded, by the ids of their root nodes. -/
structure LibraryMap (documents : List NodeXml) where
  find : String → Option { doc // doc ∈ documents }
  nodeId_eq : ∀ name doc, find name = some doc → doc.1.nodeId = name

/-- The documents in the library files which `checkPlan` accepts, by the names of the files. -/
structure LibraryFiles (documents : List NodeXml) where
  loadLibraryFile : String → Option { doc // doc ∈ documents }

variable {documents : List NodeXml} (files : LibraryFiles documents)

/-- The document replaces an earlier one with the same root node. -/
def loadLibraryDocument (loaded : LibraryMap documents) (doc : { doc // doc ∈ documents }) :
    LibraryMap documents where
  find name := if doc.1.nodeId = name then some doc else loaded.find name
  nodeId_eq name doc' h := by
    split at h
    · rename_i hname
      rw [← Option.some.inj h, hname]
    · exact loaded.nodeId_eq name doc' h

def loadLibraryNode (loaded : LibraryMap documents) (name : String) :
    Option ({ doc // doc ∈ documents } × LibraryMap documents) :=
  match files.loadLibraryFile (fileName name) with
  | none => none
  | some doc =>
    -- The file must contain the named plan.
    if doc.1.nodeId = nodeName name then some (doc, loadLibraryDocument loaded doc) else none

def getLibraryNode (loaded : LibraryMap documents) (name : String) :
    Option ({ doc // doc ∈ documents } × LibraryMap documents) :=
  match loaded.find name with
  | some doc => some (doc, loaded)
  | none => loadLibraryNode files loaded name

/-! ### Construction -/

/-- What construction comes to: nodes and the libraries which are then loaded, or an error; `none`
when more calls are open at a time than there is fuel. -/
abbrev Construction (documents : List NodeXml) (α : Type) :=
  Option (Except String (α × LibraryMap documents))

/-- What is constructed is put into another node. -/
def Construction.map {α β : Type} (f : α → β) (c : Construction documents α) :
    Construction documents β :=
  Option.map (Except.map fun r => (f r.1, r.2)) c

mutual

/-- Constructs a node; `construct` constructs the library of a call. -/
def constructNode (construct : LibraryMap documents → LibraryCall → Construction documents NodeImpl)
    (loaded : LibraryMap documents) : NodeXml → Construction documents NodeImpl
  | .leaf nodeId => some (.ok (.node nodeId [], loaded))
  | .nodeList nodeId _ kids _ =>
    (constructChildNodes construct loaded kids).map fun children => .node nodeId children
  | .libraryNodeCall nodeId callee =>
    (construct loaded ⟨nodeId, callee⟩).map fun root => .node nodeId [root]

def constructChildNodes
    (construct : LibraryMap documents → LibraryCall → Construction documents NodeImpl)
    (loaded : LibraryMap documents) : List NodeXml → Construction documents (List NodeImpl)
  | [] => some (.ok ([], loaded))
  | kid :: rest =>
    match constructNode construct loaded kid with
    | none => none
    | some (.error e) => some (.error e)
    | some (.ok (child, loaded')) =>
      (constructChildNodes construct loaded' rest).map fun children => child :: children

end

def libraryNotFound (call : LibraryCall) : String :=
  "Library node " ++ call.callee ++ " not found while expanding LibraryNodeCall node " ++
    call.nodeId

/-- Constructs the library of a call, with as many calls open at a time as there is fuel. -/
def constructLibraryCall :
    Nat → LibraryMap documents → LibraryCall → Construction documents NodeImpl
  | 0, _, _ => none
  | fuel + 1, loaded, call =>
    match getLibraryNode files loaded call.callee with
    | none => some (.error (libraryNotFound call))
    | some (doc, loaded') => constructNode (constructLibraryCall fuel) loaded' doc

/-- Constructs the plan of a document, given by its root node. -/
def constructPlan (fuel : Nat) (loaded : LibraryMap documents) (root : NodeXml) :
    Construction documents NodeImpl :=
  constructNode (constructLibraryCall files fuel) loaded root

/-! ### Termination -/

/-- The libraries which are loaded after construction. -/
def Construction.loaded {α : Type} (c : Construction documents α) :
    Option (Except String (LibraryMap documents)) :=
  Option.map (Except.map Prod.snd) c

@[simp] theorem Construction.isSome_loaded {α : Type} (c : Construction documents α) :
  c.loaded.isSome = c.isSome
  := Option.isSome_map ..

@[simp] theorem Construction.loaded_map {α β : Type} (f : α → β) (c : Construction documents α) :
  (c.map f).loaded = c.loaded
  := by
  rcases c with _ | _ | _ <;> rfl

/-- A call has the calls in the document of its library. -/
def callBody (loaded : LibraryMap documents) (call : LibraryCall) :
    Except String (LibraryMap documents × List LibraryCall) :=
  match getLibraryNode files loaded call.callee with
  | none => .error (libraryNotFound call)
  | some (doc, loaded') => .ok (loaded', doc.1.calls)

open CallExpansion

section

variable (construct : LibraryMap documents → LibraryCall → Construction documents NodeImpl)

mutual

theorem loaded_constructNode (loaded : LibraryMap documents) (node : NodeXml) :
  (constructNode construct loaded node).loaded =
    expandAll (fun loaded call => (construct loaded call).loaded) loaded node.calls
  := by
  cases node with
  | leaf nodeId => rfl
  | nodeList nodeId tag kids further =>
    rw [constructNode, Construction.loaded_map, NodeXml.calls]
    exact loaded_constructChildNodes loaded kids
  | libraryNodeCall nodeId callee =>
    rw [constructNode, Construction.loaded_map, NodeXml.calls, expandAll_singleton]

theorem loaded_constructChildNodes (loaded : LibraryMap documents) (kids : List NodeXml) :
  (constructChildNodes construct loaded kids).loaded =
    expandAll (fun loaded call => (construct loaded call).loaded) loaded
      (NodeXml.callsOfList kids)
  := by
  cases kids with
  | nil => rfl
  | cons kid rest =>
    rw [constructChildNodes, NodeXml.callsOfList, expandAll_append,
      ← loaded_constructNode loaded kid]
    rcases constructNode construct loaded kid with _ | _ | ⟨child, loaded'⟩
    · rfl
    · rfl
    · dsimp only
      rw [Construction.loaded_map]
      exact loaded_constructChildNodes loaded' rest

end

end

theorem loaded_constructLibraryCall (fuel : Nat) (loaded : LibraryMap documents)
    (call : LibraryCall) :
  (constructLibraryCall files fuel loaded call).loaded =
    expand (callBody files) fuel loaded call
  := by
  induction fuel generalizing loaded call with
  | zero => rfl
  | succ fuel ih =>
    unfold constructLibraryCall expand callBody
    rcases getLibraryNode files loaded call.callee with _ | ⟨doc, loaded'⟩
    · rfl
    · dsimp only
      rw [loaded_constructNode]
      congr 1
      funext loaded call
      exact ih loaded call

/-- The libraries are loaded as the calls of the document are expanded. -/
theorem loaded_constructPlan (fuel : Nat) (loaded : LibraryMap documents) (root : NodeXml) :
  (constructPlan files fuel loaded root).loaded =
    expandAll (expand (callBody files) fuel) loaded root.calls
  := by
  unfold constructPlan
  rw [loaded_constructNode]
  congr 1
  funext loaded call
  exact loaded_constructLibraryCall files fuel loaded call

/-- The libraries which are loaded are given by the documents among them. -/
instance : Finite (LibraryMap documents) := by
  let loadedDocuments (loaded : LibraryMap documents) : Set { doc // doc ∈ documents } :=
    { doc | loaded.find doc.1.nodeId = some doc }
  have : Finite { doc // doc ∈ documents } := List.finite_toSet documents
  apply Finite.of_injective loadedDocuments
  intro loaded loaded' h
  have hfind : ∀ (l : LibraryMap documents) name doc,
      l.find name = some doc ↔ doc.1.nodeId = name ∧ doc ∈ loadedDocuments l := by
    intro l name doc
    constructor
    · intro hname
      have hid := l.nodeId_eq name doc hname
      exact ⟨hid, by rwa [← hid] at hname⟩
    · rintro ⟨rfl, hdoc⟩
      exact hdoc
  have heq : loaded.find = loaded'.find := by
    funext name
    apply Option.ext
    intro doc
    rw [hfind, hfind, h]
  cases loaded
  cases loaded'
  cases heq
  rfl

/-- Only finitely many calls are made inside others. -/
theorem finite_enters : {d | ∃ c, Enters (callBody files) c d}.Finite
  := by
  have hcalls : {call | ∃ doc ∈ documents, call ∈ doc.calls}.Finite := by
    have h : {call | ∃ doc ∈ documents, call ∈ doc.calls} =
        {call | call ∈ documents.flatMap NodeXml.calls} := by
      ext call
      simp
    rw [h]
    exact List.finite_toSet _
  apply (Set.finite_univ.prod hcalls).subset
  rintro ⟨loaded, call⟩ ⟨c, t, calls, hbody, done, rest, hcalls, -⟩
  unfold callBody at hbody
  split at hbody
  · contradiction
  · rename_i doc loaded' _
    cases hbody
    refine ⟨Set.mem_univ _, doc.1, doc.2, ?_⟩
    rw [hcalls]
    simp

/-- A plan is constructed, or an error is reported, exactly when no call which construction comes
to is come to again, with the same libraries loaded, while its own library is constructed. -/
theorem constructPlan_terminates_iff (loaded : LibraryMap documents) (plan : NodeXml) :
  (∃ fuel, (constructPlan files fuel loaded plan).isSome) ↔
    ∀ d, Reaches (callBody files) loaded plan.calls d →
      Descent.NoCycle (Enters (callBody files)) d
  := by
  rw [← terminates_iff_noCycle (finite_enters files)]
  apply exists_congr
  intro fuel
  rw [← loaded_constructPlan, Construction.isSome_loaded]

/-- The library `A` calls itself. -/
theorem not_constructPlan_terminates :
  ¬ ∀ (documents : List NodeXml) (files : LibraryFiles documents)
      (loaded : LibraryMap documents) (plan : NodeXml),
      ∃ fuel, (constructPlan files fuel loaded plan).isSome
  := by
  intro h
  let documents : List NodeXml := [.libraryNodeCall "A" "A"]
  let files : LibraryFiles documents :=
    ⟨fun name => if name = "A.plx" then some ⟨_, List.mem_singleton_self _⟩ else none⟩
  let loaded : LibraryMap documents :=
    loadLibraryDocument ⟨fun _ => none, by simp⟩ ⟨_, List.mem_singleton_self _⟩
  obtain ⟨fuel, hfuel⟩ := h documents files loaded (.libraryNodeCall "Main" "A")
  have hnone : ∀ fuel call, call.callee = "A" →
      constructLibraryCall files fuel loaded call = none := by
    intro fuel
    induction fuel with
    | zero => exact fun _ _ => rfl
    | succ fuel ih =>
      intro call hcall
      have hget : getLibraryNode files loaded "A" =
          some (⟨.libraryNodeCall "A" "A", List.mem_singleton_self _⟩, loaded) := rfl
      unfold constructLibraryCall
      rw [hcall, hget]
      dsimp only
      rw [constructNode, ih _ rfl]
      rfl
  rw [constructPlan, constructNode, hnone fuel _ rfl] at hfuel
  contradiction

end Xml

end Plexil
