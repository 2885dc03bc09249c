import Plexil.Xml.InParameters
import Plexil.Xml.Check

/-!
# Scopes and declarations

The maps of a scope correspond to the containing nodes: a map has only names which its node
declares, and when it lacks a name which its node declares, then the name is that of an
interface variable, which is found further out with the declared type.  The map behind those
of the nodes has the aliases of the call.
-/

namespace Plexil.Xml

/-! ### Lists of maps -/

section

variable {maps : List VariableMap} {name : String} {e : Expression}

def findIn (maps : List VariableMap) (name : String) : Option Expression :=
  maps.findSome? fun map => map.lookup name

theorem findIn_isSome_of_drop {n : Nat} (h : (findIn (maps.drop n) name).isSome = true) :
  (findIn maps name).isSome = true
  := by
  rw [findIn, List.findSome?_isSome_iff] at h ⊢
  obtain ⟨map, hmap, hlookup⟩ := h
  exact ⟨map, List.mem_of_mem_drop hmap, hlookup⟩

theorem findIn_isSome_of_getElem? {n : Nat} {map : VariableMap} (hmap : maps[n]? = some map)
    (hlookup : map.lookup name = some e) :
  (findIn maps name).isSome = true
  := by
  rw [findIn, List.findSome?_isSome_iff]
  refine ⟨map, List.mem_of_getElem? hmap, ?_⟩
  rw [hlookup]
  rfl

end

/-! ### Names which are found -/

/-- The type is one which a use can have. -/
def UseKind.admits (kind : UseKind) (type : ValueType) : Prop :=
  match kind with
  | .scalar tag => tag = type ∨ (tag = .real ∧ type = .integer)
  | .array => type.isArrayType = true

section

variable {scope : Scope} {e : Expression}

/-- What is assigned has been created. -/
theorem createAssignable_created {expr : Expr} (h : createAssignable scope expr = .ok e) :
  ∃ e', createExpression scope expr = .ok e'
  := by
  obtain ⟨found, hfound, -⟩ := Except.bind_eq_ok.mp h
  cases expr with
  | «variable» type n => exact ⟨found, hfound⟩
  | arrayVariable n => exact ⟨found, hfound⟩
  | elementOf n index =>
    obtain ⟨e', he', -⟩ := Except.bind_eq_ok.mp hfound
    exact ⟨e', he'⟩
  | element array index =>
    obtain ⟨e', he', -⟩ := Except.bind_eq_ok.mp hfound
    exact ⟨e', he'⟩
  | other type created => contradiction

end

/-! ### Maps and containing nodes -/

/-- The node has a variable of the name: one of its own, which is an array exactly when it is
declared as one, unless it stands for the default of a parameter; or the variable is one further
out. -/
def Bound (header : Header) (map : VariableMap) (outer : List VariableMap) (name : String) : Prop :=
  (map.lookup name = none ∧ (findIn outer name).isSome = true) ∨
    ∃ e, map.lookup name = some e ∧ (findIn outer name = none ∨
      ∃ decl ∈ header.variables, decl.name = name ∧
        decl.type.isArrayType = e.valueType.isArrayType)

/-- The maps are those of the containing nodes, and then that of the aliases. -/
structure Aligned (headers : List Header) (parameters : List String) (maps : List VariableMap) :
    Prop where
  covers : ∀ (i : Nat) (header : Header), headers[i]? = some header → ∃ map, maps[i]? = some map
  declared : ∀ (i : Nat) (map : VariableMap) (name : String), maps[i]? = some map →
    (map.lookup name).isSome = true →
    (∃ header, headers[i]? = some header ∧ header.declares name = true) ∨
      (i = headers.length ∧ name ∈ parameters)
  bound : ∀ (i : Nat) (header : Header) (map : VariableMap) (name : String),
    headers[i]? = some header → maps[i]? = some map → header.declares name = true →
    Bound header map (maps.drop (i + 1)) name

/-- The node with the interface variables which have been linked. -/
def Header.withLinked (header : Header) (linked : List InterfaceVar) : Header :=
  { header with interface := linked }

theorem declares_iff {header : Header} {name : String} :
  header.declares name = true ↔ ∃ decl ∈ header.variables, decl.name = name
  := by
  unfold Header.declares
  simp

theorem variables_withLinked (header : Header) (linked : List InterfaceVar) :
  (header.withLinked linked).variables = header.declarations ++ linked.map Prod.snd
  := rfl

theorem lookup_localVariables_eq {path : List Nat} {declarations : List Declaration}
    {name : String} {e : Expression}
    (h : (declarations.map fun decl => (decl.name, newVariable path decl)).lookup name = some e) :
  ∃ decl ∈ declarations, decl.name = name ∧ e = newVariable path decl
  := by
  induction declarations with
  | nil => contradiction
  | cons decl rest ih =>
    rw [List.map_cons, List.lookup_cons] at h
    split at h
    · rename_i heq
      cases h
      exact ⟨decl, List.mem_cons_self, (beq_iff_eq.mp heq).symm, rfl⟩
    · obtain ⟨decl', hdecl, hname⟩ := ih h
      exact ⟨decl', List.mem_cons_of_mem _ hdecl, hname⟩

/-- Dates and durations are no arrays. -/
theorem isArrayType_newVariable (path : List Nat) (decl : Declaration) :
  (newVariable path decl).valueType.isArrayType = decl.type.isArrayType
  := by
  unfold newVariable Expression.valueType
  split
  · rename_i htype
    rcases htype with htype | htype
    · rw [htype]
      rfl
    · rw [htype]
      rfl
  · rfl

section

variable {headers : List Header} {parameters : List String} {outer : List VariableMap}
variable {header : Header} {scope scope' : Scope} {path : List Nat} {d : InterfaceVar}
variable {linked : List InterfaceVar}

/-- What the map of an inner node has to do. -/
theorem Aligned.cons {own : VariableMap} (h : Aligned headers parameters outer)
    (hdeclared : ∀ name, (own.lookup name).isSome = true → header.declares name = true)
    (hbound : ∀ name, header.declares name = true → Bound header own outer name) :
  Aligned (header :: headers) parameters (own :: outer)
  where
  covers i header' hheader := by
    cases i with
    | zero => exact ⟨own, rfl⟩
    | succ i => apply h.covers i header' hheader
  declared i map name hmap hlookup := by
    cases i with
    | zero =>
      cases hmap
      left
      exact ⟨header, rfl, hdeclared name hlookup⟩
    | succ i =>
      rcases h.declared i map name hmap hlookup with ⟨header', hheader, hdeclares⟩ | ⟨rfl, hname⟩
      · left
        exact ⟨header', hheader, hdeclares⟩
      · right
        exact ⟨rfl, hname⟩
  bound i header' map name hheader hmap hdeclares := by
    cases i with
    | zero =>
      cases hheader
      cases hmap
      apply hbound name hdeclares
    | succ i => apply h.bound i header' map name hheader hmap hdeclares

/-- The own map of a scope in which some interface variables have been linked. -/
structure Linked (header : Header) (linked : List InterfaceVar) (scope : Scope) : Prop where
  declared : ∀ name, (scope.own.lookup name).isSome = true →
    (header.withLinked linked).declares name = true
  bound : ∀ name, (header.withLinked linked).declares name = true →
    Bound (header.withLinked linked) scope.own scope.outer name

theorem linked_nil (path : List Nat) (header : Header) (outer : List VariableMap) :
  Linked header [] ⟨localVariables path header, outer⟩
  where
  declared name hlookup := by
    obtain ⟨e, he⟩ := Option.isSome_iff_exists.mp hlookup
    obtain ⟨decl, hdecl, hname, -⟩ := lookup_localVariables_eq he
    rw [declares_iff, variables_withLinked]
    exact ⟨decl, List.mem_append_left _ hdecl, hname⟩
  bound name hdeclares := by
    obtain ⟨decl, hdecl, hname⟩ := declares_iff.mp hdeclares
    rw [variables_withLinked, List.map_nil, List.append_nil] at hdecl
    right
    cases hlookup : (localVariables path header).lookup name with
    | none =>
      rw [List.lookup_eq_none_iff] at hlookup
      have hne := hlookup _ (List.mem_map_of_mem hdecl)
      rw [hname, bne_self_eq_false] at hne
      contradiction
    | some e =>
      obtain ⟨decl', hdecl', hname', rfl⟩ := lookup_localVariables_eq hlookup
      refine ⟨_, rfl, .inr ⟨decl', ?_, hname', ?_⟩⟩
      · rw [variables_withLinked]
        apply List.mem_append_left _ hdecl'
      · rw [isArrayType_newVariable]

theorem outer_addLocalVariable {name : String} {var : Expression}
    (h : scope.addLocalVariable name var = .ok scope') :
  scope'.own = (name, var) :: scope.own ∧ scope'.outer = scope.outer
  := by
  unfold Scope.addLocalVariable at h
  split at h
  · contradiction
  · cases h
    exact ⟨rfl, rfl⟩

theorem Bound.mono {map : VariableMap} {maps : List VariableMap} {name : String}
    {header' : Header} (h : Bound header map maps name)
    (hvariables : ∀ decl ∈ header.variables, decl ∈ header'.variables) :
  Bound header' map maps name
  := by
  rcases h with h | ⟨e, he, houter⟩
  · exact .inl h
  · refine .inr ⟨e, he, ?_⟩
    rcases houter with houter | ⟨decl, hdecl, hboth⟩
    · exact .inl houter
    · exact .inr ⟨decl, hvariables decl hdecl, hboth⟩

theorem variables_append_linked :
  (header.withLinked (linked ++ [d])).variables = (header.withLinked linked).variables ++ [d.2]
  := by
  rw [variables_withLinked, variables_withLinked, List.map_append, List.append_assoc]
  rfl

theorem declares_append_linked {name : String} :
  (header.withLinked (linked ++ [d])).declares name = true ↔
    (header.withLinked linked).declares name = true ∨ d.2.name = name
  := by
  unfold Header.declares
  rw [variables_append_linked, List.any_append, Bool.or_eq_true]
  simp

theorem Linked.step (h : Linked header linked scope)
    (hlink : linkInterfaceVar scope path d = .ok scope') :
  Linked header (linked ++ [d]) scope' ∧ scope'.outer = scope.outer
  := by
  have hvariables : ∀ decl ∈ (header.withLinked linked).variables,
      decl ∈ (header.withLinked (linked ++ [d])).variables := by
    intro decl hdecl
    rw [variables_append_linked]
    apply List.mem_append_left _ hdecl
  rcases linkInterfaceVar_cases hlink with ⟨rfl, e, he, htype, -⟩ | ⟨var, hadd, hfound, -⟩
  · refine ⟨⟨?_, ?_⟩, rfl⟩
    · intro name hlookup
      rw [declares_append_linked]
      left
      apply h.declared name hlookup
    · intro name hdeclares
      rcases declares_append_linked.mp hdeclares with hdeclares | rfl
      · apply (h.bound name hdeclares).mono hvariables
      · rw [Scope.findVariable_eq] at he
        cases hown : scope'.own.lookup d.2.name with
        | none =>
          left
          rw [hown, Option.none_or] at he
          exact ⟨hown, Option.isSome_of_eq_some he⟩
        | some e' =>
          apply (h.bound d.2.name _).mono hvariables
          apply h.declared
          rw [hown]
          rfl
  · obtain ⟨hown, houter⟩ := outer_addLocalVariable hadd
    refine ⟨⟨?_, ?_⟩, houter⟩
    · intro name hlookup
      rw [declares_append_linked]
      rw [hown, List.lookup_cons] at hlookup
      split at hlookup
      · rename_i heq
        right
        apply (beq_iff_eq.mp heq).symm
      · left
        apply h.declared name hlookup
    · intro name hdeclares
      rw [hown, houter]
      by_cases heq : d.2.name = name
      · subst heq
        refine .inr ⟨var, ?_, ?_⟩
        · rw [List.lookup_cons, beq_self_eq_true]
        · cases houterFound : findIn scope.outer d.2.name with
          | none => exact .inl rfl
          | some e =>
            right
            have hsome := Scope.findVariable_eq scope d.2.name
            rw [show scope.outer.findSome? (fun map => map.lookup d.2.name) = some e from houterFound]
              at hsome
            refine ⟨d.2, ?_, rfl, ?_⟩
            · rw [variables_append_linked]
              apply List.mem_append_right _ (List.mem_singleton_self _)
            · cases hlookup : scope.own.lookup d.2.name with
              | none =>
                rw [hlookup, Option.none_or] at hsome
                rw [(hfound e hsome).2]
              | some e' =>
                rw [hlookup, Option.some_or] at hsome
                rw [(hfound e' hsome).2]
      · have hbound : Bound (header.withLinked linked) scope.own scope.outer name := by
          apply h.bound
          rcases declares_append_linked.mp hdeclares with hdeclares | hname
          · exact hdeclares
          · contradiction
        have hlookup : ((d.2.name, var) :: scope.own).lookup name = scope.own.lookup name := by
          rw [List.lookup_cons, beq_false_of_ne (Ne.symm heq)]
        have hstep := hbound.mono hvariables
        unfold Bound at hstep ⊢
        rw [hlookup]
        exact hstep

/-- The expression of a default is created in a scope in which the variables before it have
been linked. -/
structure Created.Sound (header : Header) (headers : List Header) (parameters : List String)
    (created : Created) : Prop where
  made : ∃ e, createExpression created.scope created.expr = .ok e
  prior : created.linked <+: header.interface
  aligned : Aligned (header.withLinked created.linked :: headers) parameters created.scope.maps

/-- A default is created for an interface variable which is not found. -/
theorem createdDefault_made (hlink : linkInterfaceVar scope path d = .ok scope') :
  ∀ created ∈ createdDefault scope linked d, created.linked = linked ∧ created.scope = scope ∧
    ∃ e, createExpression created.scope created.expr = .ok e
  := by
  intro created hcreated
  unfold createdDefault at hcreated
  split at hcreated
  · contradiction
  · rename_i hfound
    have hnone : scope.findVariable d.2.name = none := by simpa using hfound
    obtain ⟨init, hinit, rfl⟩ := List.mem_map.mp hcreated
    have hsome : d.2.initialValue = some init := by simpa using hinit
    refine ⟨rfl, rfl, ?_⟩
    unfold linkInterfaceVar at hlink
    split at hlink
    · rw [linkInVar, hnone, hsome] at hlink
      obtain ⟨e, he, -⟩ := Except.bind_eq_ok.mp hlink
      exact ⟨e, he⟩
    · rw [linkInOutVar, hnone, hsome] at hlink
      obtain ⟨e, he, -⟩ := Except.bind_eq_ok.mp hlink
      exact ⟨e, he⟩

theorem Linked.aligned (h : Linked header linked scope)
    (houter : Aligned headers parameters scope.outer) :
  Aligned (header.withLinked linked :: headers) parameters scope.maps
  := houter.cons h.declared h.bound

theorem Linked.linkInterface {ds : List InterfaceVar} {defaults : List Created}
    (h : Linked header linked scope) (houter : Aligned headers parameters scope.outer)
    (hinterface : linked ++ ds = header.interface)
    (hlink : linkInterface path linked ds scope = .ok (scope', defaults)) :
  Linked header header.interface scope' ∧ scope'.outer = scope.outer ∧
    ∀ created ∈ defaults, created.Sound header headers parameters
  := by
  induction ds generalizing scope linked defaults with
  | nil =>
    cases hlink
    rw [List.append_nil] at hinterface
    rw [hinterface] at h
    refine ⟨h, rfl, ?_⟩
    intro created hcreated
    contradiction
  | cons d rest ih =>
    obtain ⟨next, hd, hlast⟩ := Except.bind_eq_ok.mp hlink
    obtain ⟨⟨last, defaults'⟩, hrest, heq⟩ := Except.bind_eq_ok.mp hlast
    cases heq
    obtain ⟨hnext, hsame⟩ := h.step hd
    rw [← hsame] at houter
    have hinterface' : linked ++ [d] ++ rest = header.interface := by
      rw [← hinterface, List.append_assoc]
      rfl
    obtain ⟨hlinked, hlastOuter, hsound⟩ := ih hnext houter hinterface' hrest
    refine ⟨hlinked, hlastOuter.trans hsame, ?_⟩
    intro created hcreated
    rcases List.mem_append.mp hcreated with hcreated | hcreated
    · obtain ⟨hlinks, hscope, hmade⟩ := createdDefault_made hd created hcreated
      refine ⟨hmade, ?_, ?_⟩
      · rw [hlinks, ← hinterface]
        apply List.prefix_append
      · rw [hlinks, hscope]
        apply h.aligned
        rw [← hsame]
        exact houter
    · apply hsound created hcreated

end

/-! ### Nodes -/

/-- What is created for a node has its names in the document of the node. -/
structure FinalizedNode.Sound (node : FinalizedNode) : Prop where
  created : ∀ c ∈ node.created ++ node.aliases,
    (∃ e, createExpression c.scope c.expr = .ok e) ∧ c.linked <+: node.header.interface ∧
      Aligned (node.header.withLinked c.linked :: node.headers.tail) node.parameters c.scope.maps
  headed : node.headers = node.header :: node.headers.tail

/-- The map of a call has the names of the aliases. -/
theorem finalizeAliases_names {scope : Scope} {aliases : List (String × Expr)}
    {aliasMap : VariableMap} (h : finalizeAliases scope aliases = .ok aliasMap) :
  ∀ name, (aliasMap.lookup name).isSome = true → name ∈ aliases.map Prod.fst
  := by
  induction aliases generalizing aliasMap with
  | nil =>
    cases h
    intro name hname
    contradiction
  | cons a rest ih =>
    unfold finalizeAliases at h ih
    rw [List.mapM_cons] at h
    obtain ⟨pair, hpair, hrest⟩ := Except.bind_eq_ok.mp h
    obtain ⟨e, -, hsame⟩ := Except.bind_eq_ok.mp hpair
    cases hsame
    obtain ⟨others, hothers, hsame⟩ := Except.bind_eq_ok.mp hrest
    cases hsame
    intro name hname
    rw [List.lookup_cons] at hname
    split at hname
    · rename_i heq
      rw [beq_iff_eq.mp heq]
      apply List.mem_cons_self
    · apply List.mem_cons_of_mem
      apply ih hothers name hname

/-- Each alias is an expression which is created. -/
theorem finalizeAliases_created {scope : Scope} {aliases : List (String × Expr)}
    {aliasMap : VariableMap} (h : finalizeAliases scope aliases = .ok aliasMap) :
  ∀ a ∈ aliases, ∃ e, createExpression scope a.2 = .ok e
  := by
  intro a ha
  obtain ⟨pair, hpair⟩ := Except.mapM_ok h a ha
  obtain ⟨e, he, -⟩ := Except.bind_eq_ok.mp hpair
  exact ⟨e, he⟩

theorem aligned_aliases {scope : Scope} {aliases : List (String × Expr)}
    {aliasMap : VariableMap} (h : finalizeAliases scope aliases = .ok aliasMap) :
  Aligned [] (aliases.map Prod.fst) [aliasMap]
  where
  covers i header hheader := by contradiction
  declared i map name hmap hlookup := by
    right
    cases i with
    | zero =>
      cases hmap
      exact ⟨rfl, finalizeAliases_names h name hlookup⟩
    | succ i => contradiction
  bound i header map name hheader := by contradiction

section

variable {around : Surroundings} {outer : List VariableMap} {path : List Nat} {node : Node}
variable {result : FinalizedNode}

theorem linked_header (h : finalizeHeader around outer path node = .ok result)
    (houter : Aligned around.headers around.parameters outer) :
  Linked node.header node.header.interface result.scope ∧ result.scope.outer = outer
  := by
  obtain ⟨defaults, hlink, -⟩ := finalizeHeader_cases h
  obtain ⟨hlinked, hsame, -⟩ :=
    (linked_nil path node.header outer).linkInterface houter (List.nil_append _) hlink
  exact ⟨hlinked, hsame⟩

theorem aligned_header (h : finalizeHeader around outer path node = .ok result)
    (houter : Aligned around.headers around.parameters outer) :
  Aligned result.headers result.parameters result.scope.maps
  := by
  obtain ⟨hlinked, hsame⟩ := linked_header h houter
  obtain ⟨-, -, -, -, haround, -⟩ := finalizeHeader_cases h
  rw [headers_finalizeHeader h, haround]
  rw [← hsame] at houter
  apply hlinked.aligned houter

theorem sound_header (h : finalizeHeader around outer path node = .ok result)
    (houter : Aligned around.headers around.parameters outer)
    (haliases : ∀ a ∈ node.aliases, ∃ e, createExpression result.scope a.2 = .ok e) :
  result.Sound
  := by
  have hinner := aligned_header h houter
  obtain ⟨defaults, hlink, hexprs, htarget, haround, hheader, hcreated, haliased⟩ :=
    finalizeHeader_cases h
  obtain ⟨-, -, hdefaults⟩ :=
    (linked_nil path node.header outer).linkInterface houter (List.nil_append _) hlink
  have hheaders := headers_finalizeHeader h
  have hparameters : result.parameters = around.parameters := by rw [haround]
  refine ⟨?_, ?_⟩
  · rw [hheaders, List.tail_cons, hheader, hparameters]
    have hown : ∀ expr e, createExpression result.scope expr = .ok e →
        (∃ e, createExpression result.scope expr = .ok e) ∧
          node.header.interface <+: node.header.interface ∧
          Aligned (node.header.withLinked node.header.interface :: around.headers)
            around.parameters result.scope.maps := by
      intro expr e he
      rw [hheaders, hparameters] at hinner
      exact ⟨⟨e, he⟩, List.prefix_rfl, hinner⟩
    intro c hc
    rw [hcreated, haliased, List.mem_append, List.mem_append, List.mem_map, List.mem_map] at hc
    rcases hc with (hc | ⟨expr, hexpr, rfl⟩) | ⟨a, ha, rfl⟩
    · have hsound := hdefaults c hc
      exact ⟨hsound.made, hsound.prior, hsound.aligned⟩
    · rcases List.mem_append.mp hexpr with hexpr | hexpr
      · obtain ⟨e, he⟩ := hexprs expr hexpr
        apply hown expr e he
      · rw [Option.mem_toList] at hexpr
        rw [hexpr] at htarget
        obtain ⟨result', hassignable, -⟩ := Except.bind_eq_ok.mp htarget
        obtain ⟨e, he⟩ := createAssignable_created hassignable
        apply hown expr e he
    · obtain ⟨e, he⟩ := haliases a ha
      apply hown a.2 e he
  · rw [hheaders, hheader, List.tail_cons]

end

mutual

theorem sound_node (around : Surroundings) (outer : List VariableMap) (path : List Nat)
    (node : Node) (nodes : List FinalizedNode) (h : finalizeNode around outer path node = .ok nodes)
    (houter : Aligned around.headers around.parameters outer) :
  ∀ node ∈ nodes, node.Sound
  := by
  cases node with
  | leaf header =>
    rw [finalizeNode] at h
    obtain ⟨own, hheader, hrest⟩ := Except.bind_eq_ok.mp h
    cases hrest
    rw [List.forall_mem_singleton]
    apply sound_header hheader houter
    intro a ha
    contradiction
  | nodeList header children =>
    rw [finalizeNode] at h
    obtain ⟨own, hheader, hrest⟩ := Except.bind_eq_ok.mp h
    obtain ⟨others, hchildren, hlast⟩ := Except.bind_eq_ok.mp hrest
    cases hlast
    rw [List.forall_mem_cons]
    constructor
    · apply sound_header hheader houter
      intro a ha
      contradiction
    · apply sound_list _ _ path 0 children others hchildren
      apply aligned_header hheader houter
  | libraryNodeCall header aliases globalMutexes root =>
    rw [finalizeNode] at h
    obtain ⟨own, hheader, hrest⟩ := Except.bind_eq_ok.mp h
    obtain ⟨aliasMap, haliases, hcall⟩ := Except.bind_eq_ok.mp hrest
    obtain ⟨others, hroot, hlast⟩ := Except.bind_eq_ok.mp hcall
    cases hlast
    rw [List.forall_mem_cons]
    constructor
    · apply sound_header hheader houter
      apply finalizeAliases_created haliases
    · apply sound_node _ _ (0 :: path) root others hroot
      apply aligned_aliases haliases

theorem sound_list (around : Surroundings) (outer : List VariableMap) (path : List Nat) (i : Nat)
    (list : List Node) (nodes : List FinalizedNode)
    (h : finalizeListNode around outer path i list = .ok nodes)
    (houter : Aligned around.headers around.parameters outer) :
  ∀ node ∈ nodes, node.Sound
  := by
  cases list with
  | nil =>
    rw [finalizeListNode] at h
    cases h
    intro node hnode
    contradiction
  | cons child rest =>
    rw [finalizeListNode] at h
    obtain ⟨first, hchild, hrest⟩ := Except.bind_eq_ok.mp h
    obtain ⟨others, hothers, hlast⟩ := Except.bind_eq_ok.mp hrest
    cases hlast
    rw [List.forall_mem_append]
    constructor
    · apply sound_node around outer (i :: path) child first hchild houter
    · apply sound_list around outer path (i + 1) rest others hothers houter

end

end Plexil.Xml
