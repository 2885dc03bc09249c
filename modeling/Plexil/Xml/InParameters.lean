import Plexil.Util.Exceptions
import Plexil.Xml.Finalize

/-!
# In parameters

The scope of a node has, for each In parameter which is the nearest declaration of its name, an
expression which is not assignable.  This is so for all nodes of an accepted plan, at every
depth of lists and library calls.  So an assignment to a variable or a whole array which names
an In parameter is rejected.  An assignment to an element of an array is not.
-/

namespace Plexil.Xml

/-! ### Scopes -/

namespace Scope

variable {scope scope' : Scope} {name : String}

theorem findVariable_eq (scope : Scope) (name : String) :
  scope.findVariable name =
    (scope.own.lookup name).or (scope.outer.findSome? fun map => map.lookup name)
  := by
  unfold findVariable maps
  rw [List.findSome?_cons]
  cases scope.own.lookup name <;> rfl

theorem findVariable_addLocalVariable {var : Expression}
    (h : scope.addLocalVariable name var = .ok scope') (n : String) :
  scope'.findVariable n = if n = name then some var else scope.findVariable n
  := by
  unfold addLocalVariable at h
  split at h
  · contradiction
  · cases h
    rw [findVariable_eq, findVariable_eq]
    dsimp only
    rw [List.lookup_cons]
    split
    · rename_i heq
      rw [if_pos (by simpa using heq)]
      rfl
    · rename_i hne
      rw [if_neg (by simpa using hne)]

/-- The name is that of an expression which is not assignable. -/
def ReadOnly (scope : Scope) (name : String) : Prop :=
  ∃ e, scope.findVariable name = some e ∧ e.isAssignable = false

end Scope

/-! ### Interface variables -/

section

variable {scope scope' : Scope} {path : List Nat} {d : InterfaceVar} {name : String}

/-- Linking an interface variable adds a variable of this name, or nothing. -/
theorem linkInterfaceVar_cases (h : linkInterfaceVar scope path d = .ok scope') :
  (scope' = scope ∧ ∃ e, scope.findVariable d.2.name = some e ∧ d.2.type = e.valueType ∧
      (d.1 = .in → e.isAssignable = false)) ∨
    (∃ var, scope.addLocalVariable d.2.name var = .ok scope' ∧
      (∀ e, scope.findVariable d.2.name = some e → d.1 = .in ∧ d.2.type = var.valueType) ∧
      (d.1 = .in → var.isAssignable = false))
  := by
  unfold linkInterfaceVar at h
  split at h
  · rename_i hin
    unfold linkInVar at h
    split at h
    · rename_i inVar hfound
      split at h
      · contradiction
      · rename_i htype
        split at h
        · right
          refine ⟨_, h, fun _ _ => ⟨hin, not_not.mp htype⟩, fun _ => rfl⟩
        · rename_i hassignable
          cases h
          left
          exact ⟨rfl, inVar, hfound, not_not.mp htype, fun _ => by simpa using hassignable⟩
    · rename_i hnone
      split at h
      · contradiction
      · obtain ⟨inVar, -, hadd⟩ := Except.bind_eq_ok.mp h
        right
        refine ⟨_, hadd, fun e he => ?_, fun _ => ?_⟩
        · rw [hnone] at he
          contradiction
        split
        · rfl
        · rename_i hnot
          simpa using (not_or.mp hnot).1
  · rename_i hinOut
    have hnotIn : d.1 ≠ .in := by
      rw [hinOut]
      decide
    unfold linkInOutVar at h
    split at h
    · rename_i var hfound
      split at h
      · contradiction
      · rename_i htype
        split at h
        · cases h
          left
          exact ⟨rfl, var, hfound, not_not.mp htype, fun hin => absurd hin hnotIn⟩
        · contradiction
    · rename_i hnone
      split at h
      · contradiction
      · obtain ⟨-, -, hrest⟩ := Except.bind_eq_ok.mp h
        split at hrest
        · contradiction
        · right
          refine ⟨_, hrest, fun e he => ?_, fun hin => absurd hin hnotIn⟩
          rw [hnone] at he
          contradiction

theorem findVariable_linkInterfaceVar (h : linkInterfaceVar scope path d = .ok scope')
    (hname : d.2.name ≠ name) :
  scope'.findVariable name = scope.findVariable name
  := by
  rcases linkInterfaceVar_cases h with ⟨rfl, -⟩ | ⟨var, hadd, -⟩
  · rfl
  · rw [Scope.findVariable_addLocalVariable hadd, if_neg (Ne.symm hname)]

theorem readOnly_linkInterfaceVar (h : linkInterfaceVar scope path d = .ok scope')
    (hread : scope.ReadOnly name) :
  scope'.ReadOnly name
  := by
  rcases linkInterfaceVar_cases h with ⟨rfl, -⟩ | ⟨var, hadd, hfound, hin⟩
  · exact hread
  · obtain ⟨e, he, hnot⟩ := hread
    by_cases heq : name = d.2.name
    · subst heq
      use var
      rw [Scope.findVariable_addLocalVariable hadd, if_pos rfl]
      exact ⟨rfl, hin (hfound e he).1⟩
    · use e
      rw [Scope.findVariable_addLocalVariable hadd, if_neg heq]
      exact ⟨he, hnot⟩

/-- An In parameter is read-only once it is linked. -/
theorem readOnly_of_in (h : linkInterfaceVar scope path d = .ok scope') (hin : d.1 = .in) :
  scope'.ReadOnly d.2.name
  := by
  rcases linkInterfaceVar_cases h with ⟨rfl, e, he, -, hnot⟩ | ⟨var, hadd, -, hnot⟩
  · exact ⟨e, he, hnot hin⟩
  · use var
    rw [Scope.findVariable_addLocalVariable hadd, if_pos rfl]
    exact ⟨rfl, hnot hin⟩

end

section

variable {path : List Nat} {linked ds : List InterfaceVar} {scope scope' : Scope}
variable {created : List Created} {name : String}

theorem findVariable_linkInterface (h : linkInterface path linked ds scope = .ok (scope', created))
    (hname : ∀ d ∈ ds, d.2.name ≠ name) :
  scope'.findVariable name = scope.findVariable name
  := by
  induction ds generalizing scope linked created with
  | nil =>
    cases h
    rfl
  | cons d rest ih =>
    obtain ⟨next, hd, hlast⟩ := Except.bind_eq_ok.mp h
    obtain ⟨⟨last, created'⟩, hrest, heq⟩ := Except.bind_eq_ok.mp hlast
    cases heq
    rw [List.forall_mem_cons] at hname
    rw [ih hrest hname.2, findVariable_linkInterfaceVar hd hname.1]

theorem readOnly_linkInterface (h : linkInterface path linked ds scope = .ok (scope', created))
    (hread : scope.ReadOnly name) :
  scope'.ReadOnly name
  := by
  induction ds generalizing scope linked created with
  | nil =>
    cases h
    exact hread
  | cons d rest ih =>
    obtain ⟨next, hd, hlast⟩ := Except.bind_eq_ok.mp h
    obtain ⟨⟨last, created'⟩, hrest, heq⟩ := Except.bind_eq_ok.mp hlast
    cases heq
    apply ih hrest (readOnly_linkInterfaceVar hd hread)

theorem readOnly_of_mem (h : linkInterface path linked ds scope = .ok (scope', created))
    {d : InterfaceVar} (hd : d ∈ ds) (hin : d.1 = .in) :
  scope'.ReadOnly d.2.name
  := by
  induction ds generalizing scope linked created with
  | nil => contradiction
  | cons d' rest ih =>
    obtain ⟨next, hd', hlast⟩ := Except.bind_eq_ok.mp h
    obtain ⟨⟨last, created'⟩, hrest, heq⟩ := Except.bind_eq_ok.mp hlast
    cases heq
    rcases List.mem_cons.mp hd with rfl | hd
    · apply readOnly_linkInterface hrest (readOnly_of_in hd' hin)
    · apply ih hrest hd

end

/-! ### Nodes -/

/-- The In parameters of the containing nodes are read-only in these maps. -/
def ParametersReadOnly (containing : List Header) (maps : List VariableMap) : Prop :=
  ∀ name header, findDeclaring containing name = some header → header.declaresIn name = true →
    ∃ e, maps.findSome? (fun map => map.lookup name) = some e ∧ e.isAssignable = false

theorem parametersReadOnly_nil (maps : List VariableMap) :
  ParametersReadOnly [] maps
  := by
  intro name header h
  contradiction

/-- A variable or a whole array which can be assigned is not an In parameter. -/
theorem not_namesParameter {containing : List Header} {scope : Scope} {expr : Expr}
    {result : Expression} (hparameters : ParametersReadOnly containing scope.maps)
    (h : createAssignable scope expr = .ok result) (helement : expr.isArrayElement = false) :
  ¬ NamesParameter containing expr
  := by
  rintro ⟨name, header, hnamed, hdeclaring, hin⟩
  obtain ⟨e, he, hnot⟩ := hparameters name header hdeclaring hin
  have hfind : scope.findVariable name = some e := he
  obtain ⟨found, hfound, hassignable⟩ := Except.bind_eq_ok.mp h
  split at hassignable
  · rename_i htrue
    have hsame : found = e := by
      cases expr with
      | «variable» type n =>
        cases hnamed
        rw [createTarget, createExpression, hfind] at hfound
        dsimp only at hfound
        split at hfound
        · cases hfound
          rfl
        · contradiction
      | arrayVariable n =>
        cases hnamed
        rw [createTarget, createExpression, findArray, hfind] at hfound
        dsimp only at hfound
        split at hfound
        · cases hfound
          rfl
        · contradiction
      | elementOf n index => contradiction
      | element array index => contradiction
      | other type created => contradiction
    rw [hsame, hnot] at htrue
    contradiction
  · contradiction

section

variable {around : Surroundings} {outer : List VariableMap} {path : List Nat} {node : Node}
variable {result : FinalizedNode} {header : Header}

theorem declares_eq_false {name : String} :
  header.declares name = false ↔
    (∀ decl ∈ header.declarations, decl.name ≠ name) ∧
      ∀ d ∈ header.interface, d.2.name ≠ name
  := by
  unfold Header.declares Header.variables
  rw [List.any_append, List.any_map, Bool.or_eq_false_iff, List.any_eq_false, List.any_eq_false]
  simp

theorem lookup_localVariables {name : String}
    (hdeclares : ∀ decl ∈ header.declarations, decl.name ≠ name) :
  (localVariables path header).lookup name = none
  := by
  rw [List.lookup_eq_none_iff]
  intro p hp
  obtain ⟨decl, hdecl, rfl⟩ := List.mem_map.mp hp
  simpa using Ne.symm (hdeclares decl hdecl)

/-- What has been done when a header is finalized. -/
theorem finalizeHeader_cases (h : finalizeHeader around outer path node = .ok result) :
  ∃ defaults,
    linkInterface path [] node.header.interface ⟨localVariables path node.header, outer⟩ =
      .ok (result.scope, defaults) ∧
    (∀ expr ∈ node.header.declarations.filterMap Declaration.initialValue ++ node.header.references,
      ∃ e, createExpression result.scope expr = .ok e) ∧
    finalizeTarget result.scope node.header.target = .ok result.target ∧
    result.toSurroundings =
      { around with containing := ⟨path, node.header, node.childIds⟩ :: around.containing } ∧
    result.header = node.header ∧
    result.created = defaults ++
      (node.header.declarations.filterMap Declaration.initialValue ++ node.header.references ++
        node.header.target.toList).map (fun expr => ⟨node.header.interface, result.scope, expr⟩) ∧
    result.aliases = node.aliases.map fun a => ⟨node.header.interface, result.scope, a.2⟩
  := by
  obtain ⟨⟨scope, defaults⟩, hlink, hrest⟩ := Except.bind_eq_ok.mp h
  obtain ⟨values, hvalues, hrest⟩ := Except.bind_eq_ok.mp hrest
  obtain ⟨target, htarget, hrest⟩ := Except.bind_eq_ok.mp hrest
  cases hrest
  refine ⟨defaults, hlink, ?_, htarget, rfl, rfl, rfl, rfl⟩
  apply Except.mapM_ok hvalues

theorem headers_finalizeHeader (h : finalizeHeader around outer path node = .ok result) :
  result.headers = node.header :: around.headers
  := by
  obtain ⟨-, -, -, -, haround, -⟩ := finalizeHeader_cases h
  rw [haround]
  rfl

/-- The scope of a node has its In parameters read-only. -/
theorem parametersReadOnly_header (h : finalizeHeader around outer path node = .ok result)
    (houter : ParametersReadOnly around.headers outer) :
  ParametersReadOnly result.headers result.scope.maps
  := by
  obtain ⟨defaults, hlink, -⟩ := finalizeHeader_cases h
  rw [headers_finalizeHeader h]
  intro name nearest hdeclaring hin
  unfold findDeclaring at hdeclaring
  rw [List.find?_cons] at hdeclaring
  cases hdeclares : node.header.declares name with
  | true =>
    rw [hdeclares] at hdeclaring
    cases hdeclaring
    obtain ⟨d, hd, hboth⟩ := List.any_eq_true.mp hin
    simp only [Bool.and_eq_true, decide_eq_true_eq] at hboth
    have hread := readOnly_of_mem hlink hd hboth.1
    rw [hboth.2] at hread
    exact hread
  | false =>
    rw [hdeclares] at hdeclaring
    obtain ⟨hlocal, hinterface⟩ := declares_eq_false.mp hdeclares
    have hsame := findVariable_linkInterface hlink hinterface
    rw [Scope.findVariable_eq ⟨localVariables path node.header, outer⟩,
      lookup_localVariables hlocal, Option.none_or] at hsame
    obtain ⟨e, he, hnot⟩ := houter name nearest hdeclaring hin
    refine ⟨e, ?_, hnot⟩
    rw [← he]
    exact hsame

end

/-- The target of a node does not name an In parameter, unless it is an array element. -/
def FinalizedNode.TargetChecked (node : FinalizedNode) : Prop :=
  ∀ expr, node.header.target = some expr → expr.isArrayElement = false →
    ¬ NamesParameter node.headers expr

theorem targetChecked_header {around : Surroundings} {outer : List VariableMap}
    {path : List Nat} {node : Node} {result : FinalizedNode}
    (h : finalizeHeader around outer path node = .ok result)
    (houter : ParametersReadOnly around.headers outer) :
  result.TargetChecked
  := by
  obtain ⟨-, -, -, htarget, -, hheader, -⟩ := finalizeHeader_cases h
  intro expr hexpr helement
  rw [hheader] at hexpr
  rw [hexpr] at htarget
  obtain ⟨e, hcreate, -⟩ := Except.bind_eq_ok.mp htarget
  apply not_namesParameter (parametersReadOnly_header h houter) hcreate helement

/-- The targets of nodes, with the nodes which contain them. -/
def targetsOf (nodes : List FinalizedNode) : List (List Header × Expr) :=
  nodes.flatMap fun node => node.header.target.toList.map fun expr => (node.headers, expr)

/-- The targets are those of the document, and they are checked. -/
structure TargetsChecked (nodes : List FinalizedNode) (document : List (List Header × Expr)) :
    Prop where
  same : targetsOf nodes = document
  checked : ∀ node ∈ nodes, node.TargetChecked

theorem TargetsChecked.append {nodes nodes' : List FinalizedNode}
    {document document' : List (List Header × Expr)} (h : TargetsChecked nodes document)
    (h' : TargetsChecked nodes' document') :
  TargetsChecked (nodes ++ nodes') (document ++ document')
  where
  same := by
    unfold targetsOf
    rw [List.flatMap_append]
    exact congrArg₂ _ h.same h'.same
  checked node hnode := by
    rcases List.mem_append.mp hnode with hnode | hnode
    · apply h.checked node hnode
    · apply h'.checked node hnode

theorem targetsChecked_header {around : Surroundings} {outer : List VariableMap}
    {path : List Nat} {node : Node} {result : FinalizedNode}
    (h : finalizeHeader around outer path node = .ok result)
    (houter : ParametersReadOnly around.headers outer) :
  TargetsChecked [result] (node.header.targets (around.headers))
  where
  same := by
    obtain ⟨-, -, -, -, -, hheader, -⟩ := finalizeHeader_cases h
    unfold targetsOf Header.targets
    rw [List.flatMap_singleton, hheader, headers_finalizeHeader h]
  checked node hnode := by
    obtain rfl := List.mem_singleton.mp hnode
    apply targetChecked_header h houter

mutual

theorem targetsChecked_node (around : Surroundings) (outer : List VariableMap) (path : List Nat) (node : Node)
    (nodes : List FinalizedNode) (h : finalizeNode around outer path node = .ok nodes)
    (houter : ParametersReadOnly around.headers outer) :
  TargetsChecked nodes (node.targets (around.headers))
  := by
  cases node with
  | leaf header =>
    rw [finalizeNode] at h
    obtain ⟨own, hheader, hrest⟩ := Except.bind_eq_ok.mp h
    cases hrest
    rw [Node.targets]
    apply targetsChecked_header hheader houter
  | nodeList header children =>
    rw [finalizeNode] at h
    obtain ⟨own, hheader, hrest⟩ := Except.bind_eq_ok.mp h
    obtain ⟨rest, hchildren, hrest⟩ := Except.bind_eq_ok.mp hrest
    cases hrest
    rw [Node.targets]
    apply (targetsChecked_header hheader houter).append
    have hinner := parametersReadOnly_header hheader houter
    have hrest := targetsChecked_list _ _ path 0 children rest hchildren hinner
    rw [headers_finalizeHeader hheader] at hrest
    exact hrest
  | libraryNodeCall header aliases globalMutexes root =>
    rw [finalizeNode] at h
    obtain ⟨own, hheader, hrest⟩ := Except.bind_eq_ok.mp h
    obtain ⟨aliasMap, -, hrest⟩ := Except.bind_eq_ok.mp hrest
    obtain ⟨rest, hroot, hrest⟩ := Except.bind_eq_ok.mp hrest
    cases hrest
    rw [Node.targets]
    apply (targetsChecked_header hheader houter).append
    apply targetsChecked_node _ _ (0 :: path) root rest hroot
    apply parametersReadOnly_nil

theorem targetsChecked_list (around : Surroundings) (outer : List VariableMap) (path : List Nat) (i : Nat) (list : List Node)
    (nodes : List FinalizedNode) (h : finalizeListNode around outer path i list = .ok nodes)
    (houter : ParametersReadOnly around.headers outer) :
  TargetsChecked nodes (targetsOfList (around.headers) list)
  := by
  cases list with
  | nil =>
    rw [finalizeListNode] at h
    cases h
    rw [targetsOfList]
    use rfl
    intro node hnode
    contradiction
  | cons child rest =>
    rw [finalizeListNode] at h
    obtain ⟨first, hchild, hrest⟩ := Except.bind_eq_ok.mp h
    obtain ⟨others, hothers, hrest⟩ := Except.bind_eq_ok.mp hrest
    cases hrest
    rw [targetsOfList]
    apply TargetsChecked.append
    · apply targetsChecked_node around outer (i :: path) child first hchild houter
    · apply targetsChecked_list around outer path (i + 1) rest others hothers houter

end

end Plexil.Xml
