import Plexil.Xml.InParameters

/-!
# Called nodes

The root node of a library is finalized with the aliases of the call and nothing else of the
caller.  An alias which cannot be assigned is the In parameter of its name, if it has the declared
type; otherwise the call is rejected.
-/

namespace Plexil.Xml

section

variable {around : Surroundings} {outer : List VariableMap} {path : List Nat} {node : Node}
variable {result : FinalizedNode} {nodes : List FinalizedNode}

/-! ### What is around a node -/

theorem finalizeHeader_surroundings (around' : Surroundings)
    (h : finalizeHeader around outer path node = .ok result) :
  ∃ result', finalizeHeader around' outer path node = .ok result' ∧ result'.scope = result.scope
  := by
  obtain ⟨⟨scope, defaults⟩, hlink, hrest⟩ := Except.bind_eq_ok.mp h
  obtain ⟨values, hvalues, hrest⟩ := Except.bind_eq_ok.mp hrest
  obtain ⟨target, htarget, hrest⟩ := Except.bind_eq_ok.mp hrest
  cases hrest
  refine ⟨_, Except.bind_eq_ok.mpr ⟨_, hlink, Except.bind_eq_ok.mpr ⟨_, hvalues,
    Except.bind_eq_ok.mpr ⟨_, htarget, rfl⟩⟩⟩, rfl⟩

mutual

/-- Whether a node is accepted does not depend on what is around it, but for the variables. -/
theorem finalizeNode_surroundings (around around' : Surroundings) (outer : List VariableMap)
    (path : List Nat) (node : Node) (nodes : List FinalizedNode)
    (h : finalizeNode around outer path node = .ok nodes) :
  ∃ nodes', finalizeNode around' outer path node = .ok nodes'
  := by
  cases node with
  | leaf header =>
    rw [finalizeNode] at h ⊢
    obtain ⟨own, hheader, -⟩ := Except.bind_eq_ok.mp h
    obtain ⟨own', hheader', -⟩ := finalizeHeader_surroundings around' hheader
    exact ⟨_, Except.bind_eq_ok.mpr ⟨own', hheader', rfl⟩⟩
  | nodeList header children =>
    rw [finalizeNode] at h ⊢
    obtain ⟨own, hheader, hrest⟩ := Except.bind_eq_ok.mp h
    obtain ⟨others, hchildren, -⟩ := Except.bind_eq_ok.mp hrest
    obtain ⟨own', hheader', hscope⟩ := finalizeHeader_surroundings around' hheader
    obtain ⟨others', hchildren'⟩ := finalizeListNode_surroundings own.toSurroundings
      own'.toSurroundings own.scope.maps path 0 children others hchildren
    rw [← hscope] at hchildren'
    exact ⟨_, Except.bind_eq_ok.mpr ⟨own', hheader', Except.bind_eq_ok.mpr ⟨_, hchildren', rfl⟩⟩⟩
  | libraryNodeCall header aliases globalMutexes root =>
    rw [finalizeNode] at h ⊢
    obtain ⟨own, hheader, hrest⟩ := Except.bind_eq_ok.mp h
    obtain ⟨aliasMap, haliases, hcall⟩ := Except.bind_eq_ok.mp hrest
    obtain ⟨others, hroot, -⟩ := Except.bind_eq_ok.mp hcall
    obtain ⟨own', hheader', hscope⟩ := finalizeHeader_surroundings around' hheader
    rw [← hscope] at haliases
    obtain ⟨others', hroot'⟩ := finalizeNode_surroundings _
      ⟨[], own'.containing ++ own'.callers, aliases.map Prod.fst, globalMutexes⟩
      [aliasMap] (0 :: path) root others hroot
    exact ⟨_, Except.bind_eq_ok.mpr ⟨own', hheader', Except.bind_eq_ok.mpr ⟨aliasMap, haliases,
      Except.bind_eq_ok.mpr ⟨_, hroot', rfl⟩⟩⟩⟩

theorem finalizeListNode_surroundings (around around' : Surroundings) (outer : List VariableMap)
    (path : List Nat) (i : Nat) (children : List Node) (nodes : List FinalizedNode)
    (h : finalizeListNode around outer path i children = .ok nodes) :
  ∃ nodes', finalizeListNode around' outer path i children = .ok nodes'
  := by
  cases children with
  | nil => exact ⟨[], by rw [finalizeListNode]; rfl⟩
  | cons child rest =>
    rw [finalizeListNode] at h ⊢
    obtain ⟨first, hchild, hrest⟩ := Except.bind_eq_ok.mp h
    obtain ⟨others, hothers, -⟩ := Except.bind_eq_ok.mp hrest
    obtain ⟨first', hchild'⟩ :=
      finalizeNode_surroundings around around' outer (i :: path) child first hchild
    obtain ⟨others', hothers'⟩ :=
      finalizeListNode_surroundings around around' outer path (i + 1) rest others hothers
    exact ⟨_, Except.bind_eq_ok.mpr ⟨_, hchild', Except.bind_eq_ok.mpr ⟨_, hothers', rfl⟩⟩⟩

end

/-- The node itself comes first. -/
theorem finalizeNode_head (h : finalizeNode around outer path node = .ok nodes) :
  ∃ result rest, finalizeHeader around outer path node = .ok result ∧ nodes = result :: rest
  := by
  cases node with
  | leaf header =>
    rw [finalizeNode] at h
    obtain ⟨own, hheader, hrest⟩ := Except.bind_eq_ok.mp h
    cases hrest
    exact ⟨own, _, hheader, rfl⟩
  | nodeList header children =>
    rw [finalizeNode] at h
    obtain ⟨own, hheader, hrest⟩ := Except.bind_eq_ok.mp h
    obtain ⟨others, -, hlast⟩ := Except.bind_eq_ok.mp hrest
    cases hlast
    exact ⟨own, _, hheader, rfl⟩
  | libraryNodeCall header aliases globalMutexes root =>
    rw [finalizeNode] at h
    obtain ⟨own, hheader, hrest⟩ := Except.bind_eq_ok.mp h
    obtain ⟨aliasMap, -, hcall⟩ := Except.bind_eq_ok.mp hrest
    obtain ⟨others, -, hlast⟩ := Except.bind_eq_ok.mp hcall
    cases hlast
    exact ⟨own, _, hheader, rfl⟩

end

/-! ### Parameters -/

section

variable {path : List Nat} {linked ds : List InterfaceVar} {scope scope' : Scope}
variable {created : List Created} {name : String} {e : Expression} {d : InterfaceVar}

/-- An In variable which is found and cannot be assigned is left as it is. -/
theorem linkInterfaceVar_readOnly (h : linkInterfaceVar scope path d = .ok scope')
    (hin : d.1 = .in) (hfound : scope.findVariable d.2.name = some e)
    (hread : e.isAssignable = false) :
  scope' = scope ∧ d.2.type = e.valueType
  := by
  unfold linkInterfaceVar linkInVar at h
  rw [hin] at h
  dsimp only at h
  rw [hfound] at h
  dsimp only at h
  rw [hread] at h
  split at h
  · contradiction
  · rename_i htype
    cases h
    exact ⟨rfl, not_not.mp htype⟩

theorem own_linkInterfaceVar (h : linkInterfaceVar scope path d = .ok scope')
    (hname : d.2.name ≠ name) :
  scope'.findLocalVariable name = scope.findLocalVariable name
  := by
  rcases linkInterfaceVar_cases h with ⟨rfl, -⟩ | ⟨var, hadd, -⟩
  · rfl
  · unfold Scope.addLocalVariable at hadd
    split at hadd
    · contradiction
    · cases hadd
      unfold Scope.findLocalVariable
      rw [List.lookup_cons, beq_false_of_ne (Ne.symm hname)]

theorem own_linkInterface (h : linkInterface path linked ds scope = .ok (scope', created))
    (hname : ∀ d ∈ ds, d.2.name ≠ name) :
  scope'.findLocalVariable name = scope.findLocalVariable name
  := by
  induction ds generalizing scope linked created with
  | nil =>
    cases h
    rfl
  | cons d rest ih =>
    obtain ⟨next, hd, hlast⟩ := Except.bind_eq_ok.mp h
    obtain ⟨⟨last, created'⟩, hrest, heq⟩ := Except.bind_eq_ok.mp hlast
    cases heq
    rw [List.forall_mem_cons] at hname
    rw [ih hrest hname.2, own_linkInterfaceVar hd hname.1]

/-- The read-only expression which is found for an In parameter is still found when all interface
variables have been linked, and has the declared type. -/
theorem linkInterface_parameter (h : linkInterface path linked ds scope = .ok (scope', created))
    (hd : d ∈ ds) (hin : d.1 = .in) (hdistinct : (ds.map fun d => d.2.name).Nodup)
    (hfound : scope.findVariable d.2.name = some e) (hread : e.isAssignable = false) :
  d.2.type = e.valueType ∧
    scope'.findLocalVariable d.2.name = scope.findLocalVariable d.2.name
  := by
  induction ds generalizing scope linked created with
  | nil => contradiction
  | cons first rest ih =>
    obtain ⟨next, hfirst, hlast⟩ := Except.bind_eq_ok.mp h
    obtain ⟨⟨last, created'⟩, hrest, heq⟩ := Except.bind_eq_ok.mp hlast
    cases heq
    rw [List.map_cons, List.nodup_cons] at hdistinct
    rcases List.mem_cons.mp hd with rfl | hd
    · obtain ⟨rfl, htype⟩ := linkInterfaceVar_readOnly hfirst hin hfound hread
      refine ⟨htype, ?_⟩
      apply own_linkInterface hrest
      intro d' hd' heq
      apply hdistinct.1
      rw [← heq]
      apply List.mem_map_of_mem hd'
    · have hne : first.2.name ≠ d.2.name := by
        intro heq
        apply hdistinct.1
        rw [heq]
        apply List.mem_map_of_mem hd
      rw [← own_linkInterfaceVar hfirst hne]
      apply ih hrest hd hdistinct.2
      rw [findVariable_linkInterfaceVar hfirst hne, hfound]

end

end Plexil.Xml
