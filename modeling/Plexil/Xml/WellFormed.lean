import Mathlib.Data.List.Nodup
import Plexil.Xml.CheckNode

/-!
# Well-formed nodes

A node is well formed when the names which it declares are distinct, it uses no mutex twice, the
nodes of a list have ids which are distinct and not that of the list, and a resource has one name,
one priority, and not more than one upper bound and one release flag.

The check pass ensures most of this.  It does not compare the id of a child with that of its
parent, nor the names in an `In` or `InOut` element which is not the first one, and it does not
count upper bounds and release flags.
-/

namespace Plexil

namespace Xml

namespace Document

/-! ### What is well formed -/

/-- The names in all elements with a tag. -/
def allNames (tag : String) (elements : List InterfaceElement) : List String :=
  (elements.filter fun element => element.tag = tag).flatMap fun element =>
    element.decls.map DeclarationElement.name

/-- The names in the elements with a tag other than the first one. -/
def furtherNames (tag : String) (elements : List InterfaceElement) : List String :=
  (elements.filter fun element => element.tag = tag).tail.flatMap fun element =>
    element.decls.map DeclarationElement.name

/-- The number of children of a resource which have a tag. -/
def countFields (tag : String) (fields : List ResourceField) : Nat :=
  fields.countP fun field => field.tag = tag

structure ResourceWellFormed (fields : List ResourceField) : Prop where
  name : countFields "ResourceName" fields = 1
  priority : countFields "ResourcePriority" fields = 1
  upperBound : countFields "ResourceUpperBound" fields ≤ 1
  releaseAtTermination : countFields "ResourceReleaseAtTermination" fields ≤ 1

/-- All that stands in the children of a kind. -/
def inChildren {α : Type} (kind : NodeChild → Option (List α)) (children : List NodeChild) :
    List α :=
  children.flatMap fun child => (kind child).getD []

/-- The names of the In variables, the InOut variables, the local variables and the mutexes are
distinct, and so are the mutexes which are used. -/
structure ChildrenWellFormed (children : List NodeChild) : Prop where
  names : (allNames "In" (inChildren NodeChild.interface? children) ++
    allNames "InOut" (inChildren NodeChild.interface? children) ++
      (inChildren NodeChild.declarations? children).map DeclarationElement.name).Nodup
  mutexes : ((inChildren NodeChild.usingMutex? children).map Prod.snd).Nodup

mutual

/-- A node is well formed, and the nodes in it are. -/
def NodeElement.WellFormed : NodeElement → Prop
  | .empty children | .assignment children _ _ | .update children _
  | .libraryNodeCall children _ _ _ _ => ChildrenWellFormed children
  | .command children command =>
    ChildrenWellFormed children ∧ ∀ fields ∈ command.resources, ResourceWellFormed fields
  | .nodeList children kids =>
    ChildrenWellFormed children ∧
      (∀ kid ∈ kids, kid.nodeId ≠ (NodeChild.findNodeId children).getD "") ∧
        (kids.map NodeElement.nodeId).Nodup ∧ allWellFormed kids

def allWellFormed : List NodeElement → Prop
  | [] => True
  | kid :: rest => kid.WellFormed ∧ allWellFormed rest

end

/-! ### What is not checked -/

/-- The names in further elements of the interface are distinct, and different from the names which
are compared with each other. -/
def FurtherNamesDistinct (children : List NodeChild) : Prop :=
  (furtherNames "In" (NodeChild.findInterface children) ++
    furtherNames "InOut" (NodeChild.findInterface children)).Nodup ∧
  ∀ name ∈ furtherNames "In" (NodeChild.findInterface children) ++
      furtherNames "InOut" (NodeChild.findInterface children),
    name ∉ (firstDecls "In" (NodeChild.findInterface children) ++
      firstDecls "InOut" (NodeChild.findInterface children) ++
        NodeChild.findDeclarations children).map DeclarationElement.name

mutual

/-- In a node and in the nodes in it, what is not checked is as it should be. -/
def NodeElement.UncheckedHolds : NodeElement → Prop
  | .empty children | .assignment children _ _ | .update children _
  | .libraryNodeCall children _ _ _ _ => FurtherNamesDistinct children
  | .command children command =>
    FurtherNamesDistinct children ∧ ∀ fields ∈ command.resources,
      countFields "ResourceUpperBound" fields ≤ 1 ∧
        countFields "ResourceReleaseAtTermination" fields ≤ 1
  | .nodeList children kids =>
    FurtherNamesDistinct children ∧
      (∀ kid ∈ kids, kid.nodeId ≠ (NodeChild.findNodeId children).getD "") ∧
        allUncheckedHold kids

def allUncheckedHold : List NodeElement → Prop
  | [] => True
  | kid :: rest => kid.UncheckedHolds ∧ allUncheckedHold rest

end

/-! ### Names -/

section

variable {factories : Factories} {table : SymbolTable}

/-- Gathered names are distinct, and none of them is among the others. -/
theorem gatherNames_eq_ok {others names result : List String} {decls : List DeclarationElement}
    (h : gatherNames others names decls = .ok result) :
  result = names ++ decls.map DeclarationElement.name ∧
    (∀ decl ∈ decls, decl.name ∉ others) ∧ (names.Nodup → result.Nodup)
  := by
  induction decls generalizing names with
  | nil =>
    cases h
    simp
  | cons decl rest ih =>
    rw [gatherNames] at h
    obtain ⟨_, hcheck, hrest⟩ := Except.bind_eq_ok.mp h
    rw [checkThat_eq_ok, Bool.and_eq_true, decide_eq_true_iff, decide_eq_true_iff] at hcheck
    obtain ⟨rfl, hothers, hnodup⟩ := ih hrest
    refine ⟨?_, ?_, ?_⟩
    · simp
    · exact List.forall_mem_cons.mpr ⟨hcheck.1, hothers⟩
    · intro hnames
      apply hnodup
      rw [List.nodup_append]
      refine ⟨hnames, List.nodup_singleton _, ?_⟩
      intro name hname name' hname' heq
      rw [List.mem_singleton.mp hname'] at heq
      exact hcheck.2 (heq ▸ hname)

/-- The names which are compared with each other are distinct. -/
theorem nodup_of_checkVariableNameConflicts {decls : List DeclarationElement}
    {elements : List InterfaceElement}
    (h : checkVariableNameConflicts decls elements = .ok ()) :
  ((firstDecls "In" elements ++ firstDecls "InOut" elements ++ decls).map
    DeclarationElement.name).Nodup
  := by
  unfold checkVariableNameConflicts at h
  obtain ⟨inNames, hin, h⟩ := Except.bind_eq_ok.mp h
  obtain ⟨inOutNames, hinOut, h⟩ := Except.bind_eq_ok.mp h
  obtain ⟨varNames, hvar, -⟩ := Except.bind_eq_ok.mp h
  obtain ⟨rfl, -, hin⟩ := gatherNames_eq_ok hin
  obtain ⟨rfl, hinOutIn, hinOut⟩ := gatherNames_eq_ok hinOut
  obtain ⟨rfl, hvarOthers, hvar⟩ := gatherNames_eq_ok hvar
  simp only [List.nil_append, List.nodup_nil, forall_const] at hin hinOut hvar hinOutIn hvarOthers
  rw [List.map_append, List.map_append, List.nodup_append, List.nodup_append]
  refine ⟨⟨hin, hinOut, ?_⟩, hvar, ?_⟩
  · rintro name hname name' hname' rfl
    obtain ⟨decl, hdecl, rfl⟩ := List.mem_map.mp hname'
    exact hinOutIn decl hdecl hname
  · rintro name hname name' hname' rfl
    obtain ⟨decl, hdecl, rfl⟩ := List.mem_map.mp hname'
    exact hvarOthers decl hdecl hname

theorem allNames_eq (tag : String) (elements : List InterfaceElement) :
  allNames tag elements =
    (firstDecls tag elements).map DeclarationElement.name ++ furtherNames tag elements
  := by
  unfold allNames furtherNames firstDecls
  rw [← List.head?_filter]
  cases elements.filter fun element => element.tag = tag with
  | nil => rfl
  | cons element rest => rfl

/-- All names are distinct when those which are not compared are. -/
theorem nodup_names_iff {children : List NodeChild}
    (h : checkVariableNameConflicts (NodeChild.findDeclarations children)
      (NodeChild.findInterface children) = .ok ()) :
  (allNames "In" (NodeChild.findInterface children) ++
    allNames "InOut" (NodeChild.findInterface children) ++
      (NodeChild.findDeclarations children).map DeclarationElement.name).Nodup ↔
    FurtherNamesDistinct children
  := by
  have hchecked := nodup_of_checkVariableNameConflicts h
  rw [List.map_append, List.map_append] at hchecked
  unfold FurtherNamesDistinct
  rw [allNames_eq, allNames_eq, List.map_append, List.map_append]
  generalize (firstDecls "In" (NodeChild.findInterface children)).map
    DeclarationElement.name = ins at hchecked ⊢
  generalize (firstDecls "InOut" (NodeChild.findInterface children)).map
    DeclarationElement.name = inOuts at hchecked ⊢
  generalize (NodeChild.findDeclarations children).map DeclarationElement.name = vars
    at hchecked ⊢
  generalize furtherNames "In" (NodeChild.findInterface children) = ins'
  generalize furtherNames "InOut" (NodeChild.findInterface children) = inOuts'
  have hperm : (ins ++ ins' ++ (inOuts ++ inOuts') ++ vars).Perm
      ((ins' ++ inOuts') ++ (ins ++ inOuts ++ vars)) := by
    rw [List.perm_iff_count]
    intro name
    simp only [List.count_append]
    omega
  rw [hperm.nodup_iff, List.nodup_append]
  constructor
  · rintro ⟨hfurther, -, hdisjoint⟩
    exact ⟨hfurther, fun name hname hname' => hdisjoint name hname name hname' rfl⟩
  · rintro ⟨hfurther, hdisjoint⟩
    refine ⟨hfurther, hchecked, ?_⟩
    rintro name hname name' hname' rfl
    exact hdisjoint name hname hname'

theorem furtherNamesDistinct_of_noInterface {children : List NodeChild}
    (h : NodeChild.findInterface children = []) :
  FurtherNamesDistinct children
  := by
  unfold FurtherNamesDistinct
  rw [h]
  simp [furtherNames]

/-- The mutexes which are used are distinct. -/
theorem nodup_of_checkUsingMutex {scope names : List String} {uses : List (String × String)}
    (hnames : names.Nodup) (h : checkUsingMutex scope names uses = .ok ()) :
  (names ++ uses.map Prod.snd).Nodup
  := by
  induction uses generalizing names with
  | nil => simpa using hnames
  | cons used rest ih =>
    obtain ⟨tag, name⟩ := used
    rw [checkUsingMutex] at h
    obtain ⟨_, -, h⟩ := Except.bind_eq_ok.mp h
    obtain ⟨_, -, h⟩ := Except.bind_eq_ok.mp h
    obtain ⟨_, hnew, h⟩ := Except.bind_eq_ok.mp h
    obtain ⟨_, -, h⟩ := Except.bind_eq_ok.mp h
    rw [checkThat_eq_ok, decide_eq_true_iff] at hnew
    have hnodup : (names ++ [name]).Nodup := by
      rw [List.nodup_append]
      refine ⟨hnames, List.nodup_singleton _, ?_⟩
      rintro name' hname' other hother rfl
      exact hnew (List.mem_singleton.mp hother ▸ hname')
    simpa using ih hnodup h

/-- Where a kind of child stands at most once, the first child of the kind has all that stands in
children of the kind. -/
theorem inChildren_eq_findSome? {α : Type} {kind : NodeChild → Option (List α)} {tag : String}
    (htag : ∀ child, (kind child).isSome → child.tag = tag)
    (hunique : ∀ isAssignment seen child, (kind child).isSome →
      scanChild factories table isAssignment seen child = .ok () → tag ∉ seen)
    {isAssignment : Bool} {seen : List String} {children : List NodeChild}
    (h : scanChildren factories table isAssignment seen children = .ok ()) :
  inChildren kind children = (children.findSome? kind).getD [] ∧
    (tag ∈ seen → inChildren kind children = [])
  := by
  induction children generalizing seen with
  | nil => exact ⟨rfl, fun _ => rfl⟩
  | cons child rest ih =>
    rw [scanChildren] at h
    obtain ⟨_, hchild, hrest⟩ := Except.bind_eq_ok.mp h
    obtain ⟨heq, hnil⟩ := ih hrest
    unfold inChildren at heq hnil ⊢
    rw [List.flatMap_cons, List.findSome?_cons]
    cases hkind : kind child with
    | none => exact ⟨heq, fun hseen => hnil (List.mem_cons_of_mem _ hseen)⟩
    | some elements =>
      have hsome : (kind child).isSome := by rw [hkind, Option.isSome_some]
      rw [hnil (List.mem_cons.mpr (.inl (htag child hsome).symm))]
      constructor
      · simp
      · intro hseen
        exact absurd hseen (hunique _ _ _ hsome hchild)

section

variable {isAssignment : Bool} {children : List NodeChild}

theorem inChildren_interface
    (h : scanChildren factories table isAssignment [] children = .ok ()) :
  inChildren NodeChild.interface? children = NodeChild.findInterface children
  := by
  apply (inChildren_eq_findSome? _ _ h).1
  · exact "Interface"
  · intro child hchild
    cases child <;> first | rfl | contradiction
  · intro isAssignment seen child hchild hscan
    cases child with
    | interface elements => exact of_decide_eq_true (checkThat_eq_ok.mp hscan)
    | _ => contradiction

theorem inChildren_declarations
    (h : scanChildren factories table isAssignment [] children = .ok ()) :
  inChildren NodeChild.declarations? children = NodeChild.findDeclarations children
  := by
  apply (inChildren_eq_findSome? _ _ h).1
  · exact "VariableDeclarations"
  · intro child hchild
    cases child <;> first | rfl | contradiction
  · intro isAssignment seen child hchild hscan
    cases child with
    | variableDeclarations decls => exact of_decide_eq_true (checkThat_eq_ok.mp hscan)
    | _ => contradiction

theorem inChildren_usingMutex
    (h : scanChildren factories table isAssignment [] children = .ok ()) :
  inChildren NodeChild.usingMutex? children = NodeChild.findUsingMutex children
  := by
  apply (inChildren_eq_findSome? _ _ h).1
  · exact "UsingMutex"
  · intro child hchild
    cases child <;> first | rfl | contradiction
  · intro isAssignment seen child hchild hscan
    cases child with
    | usingMutex names => exact of_decide_eq_true (checkThat_eq_ok.mp hscan)
    | _ => contradiction

end

theorem childrenWellFormed_iff {scope : List String} {isAssignment needsBody : Bool}
    {children : List NodeChild}
    (h : checkChildren factories table scope isAssignment needsBody children = .ok ()) :
  ChildrenWellFormed children ↔ FurtherNamesDistinct children
  := by
  unfold checkChildren at h
  obtain ⟨_, hscan, h⟩ := Except.bind_eq_ok.mp h
  obtain ⟨_, -, h⟩ := Except.bind_eq_ok.mp h
  obtain ⟨_, -, h⟩ := Except.bind_eq_ok.mp h
  obtain ⟨_, -, h⟩ := Except.bind_eq_ok.mp h
  obtain ⟨_, hconflicts, h⟩ := Except.bind_eq_ok.mp h
  obtain ⟨_, -, h⟩ := Except.bind_eq_ok.mp h
  obtain ⟨_, husing, -⟩ := Except.bind_eq_ok.mp h
  have hnames := nodup_names_iff hconflicts
  rw [← inChildren_interface hscan, ← inChildren_declarations hscan] at hnames
  constructor
  · exact fun h => hnames.mp h.names
  · intro h
    refine ⟨hnames.mpr h, ?_⟩
    rw [inChildren_usingMutex hscan]
    exact nodup_of_checkUsingMutex List.nodup_nil husing

/-! ### Resources -/

/-- There are as many names and priorities as the flags say, which count those in front. -/
theorem count_of_checkResourceFields {name prio : Bool} {fields : List ResourceField}
    {seen : Bool × Bool} (h : checkResourceFields factories table name prio fields = .ok seen) :
  name.toNat + countFields "ResourceName" fields = seen.1.toNat ∧
    prio.toNat + countFields "ResourcePriority" fields = seen.2.toNat
  := by
  induction fields generalizing name prio with
  | nil =>
    cases h
    exact ⟨rfl, rfl⟩
  | cons field rest ih =>
    rw [checkResourceFields] at h
    unfold countFields at ih ⊢
    rw [List.countP_cons, List.countP_cons]
    split at h
    · rename_i htag
      obtain ⟨_, hnew, h⟩ := Except.bind_eq_ok.mp h
      obtain ⟨_, -, h⟩ := Except.bind_eq_ok.mp h
      rw [checkThat_eq_ok, Bool.not_eq_true'] at hnew
      have hrest := ih h
      simpa [htag, hnew, Nat.add_comm] using hrest
    · split at h
      · rename_i hname htag
        obtain ⟨_, hnew, h⟩ := Except.bind_eq_ok.mp h
        obtain ⟨_, -, h⟩ := Except.bind_eq_ok.mp h
        rw [checkThat_eq_ok, Bool.not_eq_true'] at hnew
        have hrest := ih h
        simpa [htag, hnew, Nat.add_comm] using hrest
      · rename_i hname hprio
        have hnone : checkResourceFields factories table name prio rest = .ok seen := by
          split at h
          · exact (Except.bind_eq_ok.mp h).choose_spec.2
          · split at h
            · exact (Except.bind_eq_ok.mp h).choose_spec.2
            · contradiction
        have hrest := ih hnone
        simpa [hname, hprio] using hrest

/-- A resource which is accepted has one name and one priority. -/
theorem resourceWellFormed_iff {fields : List ResourceField}
    (h : checkResource factories table fields = .ok ()) :
  ResourceWellFormed fields ↔
    countFields "ResourceUpperBound" fields ≤ 1 ∧
      countFields "ResourceReleaseAtTermination" fields ≤ 1
  := by
  unfold checkResource at h
  obtain ⟨seen, hseen, h⟩ := Except.bind_eq_ok.mp h
  obtain ⟨_, hname, hprio⟩ := Except.bind_eq_ok.mp h
  rw [checkThat_eq_ok] at hname hprio
  obtain ⟨hnames, hprios⟩ := count_of_checkResourceFields hseen
  rw [hname] at hnames
  rw [hprio] at hprios
  constructor
  · exact fun h => ⟨h.upperBound, h.releaseAtTermination⟩
  · rintro ⟨hupper, hrelease⟩
    exact ⟨by simpa using hnames, by simpa using hprios, hupper, hrelease⟩

theorem resources_of_checkCommandBody {command : CommandElement}
    (h : checkCommandBody factories table command = .ok ()) :
  ∀ fields ∈ command.resources, checkResource factories table fields = .ok ()
  := by
  unfold checkCommandBody at h
  obtain ⟨_, hresources, -⟩ := Except.bind_eq_ok.mp h
  unfold checkResourceList at hresources
  obtain ⟨_, hresources, -⟩ := Except.bind_eq_ok.mp hresources
  exact Except.forM_ok hresources

/-! ### Nodes -/

/-- The ids of children are distinct. -/
theorem nodup_of_checkChildNodes {scope nodeIds : List String} {kids : List NodeElement}
    (hids : nodeIds.Nodup) (h : checkChildNodes factories table scope nodeIds kids = .ok ()) :
  (nodeIds ++ kids.map NodeElement.nodeId).Nodup
  := by
  induction kids generalizing nodeIds with
  | nil => simpa using hids
  | cons kid rest ih =>
    rw [checkChildNodes] at h
    obtain ⟨_, -, h⟩ := Except.bind_eq_ok.mp h
    obtain ⟨_, hnew, h⟩ := Except.bind_eq_ok.mp h
    rw [checkThat_eq_ok, decide_eq_true_iff] at hnew
    have hnodup : (nodeIds ++ [kid.nodeId]).Nodup := by
      rw [List.nodup_append]
      refine ⟨hids, List.nodup_singleton _, ?_⟩
      rintro nodeId hnodeId other hother rfl
      exact hnew (List.mem_singleton.mp hother ▸ hnodeId)
    simpa using ih hnodup h

mutual

theorem wellFormed_iff {scope : List String} {node : NodeElement}
    (h : checkNode factories table scope node = .ok ()) :
  node.WellFormed ↔ node.UncheckedHolds
  := by
  cases node with
  | empty children =>
    rw [checkNode] at h
    unfold NodeElement.WellFormed NodeElement.UncheckedHolds
    exact childrenWellFormed_iff h
  | assignment children target rhs =>
    rw [checkNode] at h
    obtain ⟨_, hchildren, -⟩ := Except.bind_eq_ok.mp h
    unfold NodeElement.WellFormed NodeElement.UncheckedHolds
    exact childrenWellFormed_iff hchildren
  | update children pairs =>
    rw [checkNode] at h
    obtain ⟨_, hchildren, -⟩ := Except.bind_eq_ok.mp h
    unfold NodeElement.WellFormed NodeElement.UncheckedHolds
    exact childrenWellFormed_iff hchildren
  | libraryNodeCall children callee aliases declarations root =>
    rw [checkNode] at h
    obtain ⟨_, hchildren, -⟩ := Except.bind_eq_ok.mp h
    unfold NodeElement.WellFormed NodeElement.UncheckedHolds
    exact childrenWellFormed_iff hchildren
  | command children command =>
    rw [checkNode] at h
    obtain ⟨_, hchildren, hbody⟩ := Except.bind_eq_ok.mp h
    unfold NodeElement.WellFormed NodeElement.UncheckedHolds
    rw [childrenWellFormed_iff hchildren]
    apply and_congr_right'
    apply forall₂_congr
    intro fields hfields
    exact resourceWellFormed_iff (resources_of_checkCommandBody hbody fields hfields)
  | nodeList children kids =>
    rw [checkNode] at h
    obtain ⟨_, hchildren, hkids⟩ := Except.bind_eq_ok.mp h
    have hnodup : (kids.map NodeElement.nodeId).Nodup :=
      nodup_of_checkChildNodes List.nodup_nil hkids
    unfold NodeElement.WellFormed NodeElement.UncheckedHolds
    rw [childrenWellFormed_iff hchildren, allWellFormed_iff hkids]
    simp [hnodup]

theorem allWellFormed_iff {scope nodeIds : List String} {kids : List NodeElement}
    (h : checkChildNodes factories table scope nodeIds kids = .ok ()) :
  allWellFormed kids ↔ allUncheckedHold kids
  := by
  cases kids with
  | nil => exact Iff.rfl
  | cons kid rest =>
    rw [checkChildNodes] at h
    obtain ⟨_, hkid, h⟩ := Except.bind_eq_ok.mp h
    obtain ⟨_, -, hrest⟩ := Except.bind_eq_ok.mp h
    unfold allWellFormed allUncheckedHold
    rw [wellFormed_iff hkid, allWellFormed_iff hrest]

end

/-- An accepted node is well formed exactly when what is not checked is as it should be. -/
theorem checkNode_wellFormed_iff {scope : List String} {node : NodeElement}
    (h : checkNode factories table scope node = .ok ()) :
  node.WellFormed ↔ node.UncheckedHolds
  := wellFormed_iff h

end

/-- All that is not a literal is an integer. -/
def integerFactories : Factories where
  checkDeclaration _ := .ok .integer
  check _ _ _ _ := .ok .integer
  allocate _ _ _ _ _ := .ok ⟨.integer, false, none⟩
  createAssignable _ _ _ _ := .ok ⟨.integer, false, none⟩

/-- A list with a command which needs a resource. -/
def resourceList : NodeElement :=
  .nodeList [.nodeId "List", .nodeBody]
    [.command [.nodeId "Command", .nodeBody]
      { resources := [[⟨"ResourceName", some (.stringValue "arm")⟩,
          ⟨"ResourcePriority", some (.other "IntegerValue" "1" [])⟩]],
        name := .stringValue "move" }]

theorem checkNode_wellFormed_iff_resourceList :
  resourceList.WellFormed
  := by
  have h : checkNode integerFactories {} [] resourceList = .ok () := rfl
  apply (checkNode_wellFormed_iff h).mpr
  refine ⟨furtherNamesDistinct_of_noInterface rfl, ?_,
    ⟨furtherNamesDistinct_of_noInterface rfl, ?_⟩, trivial⟩
  · decide
  · decide

/-- A child with the id of its parent is accepted. -/
theorem not_checkNode_wellFormed :
  ¬ ∀ (factories : Factories) (table : SymbolTable) (scope : List String) (node : NodeElement),
      checkNode factories table scope node = .ok () → node.WellFormed
  := by
  intro h
  have hlist := h integerFactories {} []
    (.nodeList [.nodeId "List", .nodeBody] [.empty [.nodeId "List"]]) rfl
  unfold NodeElement.WellFormed at hlist
  exact hlist.2.1 _ (List.mem_singleton_self _) rfl

end Document

end Xml

end Plexil
