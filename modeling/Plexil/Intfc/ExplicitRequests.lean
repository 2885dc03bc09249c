import Plexil.Intfc.ArbitrationOrder

/-!
# Explicit and implied requests

A command reserves for each resource what the first request that mentions it asks for:
the insertion into a set does not replace.  So an explicit request for a resource is
overridden by an earlier request for a resource of which it is a descendant.  The bounds
of a request which the source keeps are the upper bound and the release flag.
-/

namespace Plexil

namespace ResourceSet

/-- The resource of a name in a set. -/
def find (s : ResourceSet) (r : ResourceName) : Option ChildResourceNode :=
  s.entries.find? fun x => x.name = r

theorem contains_eq (s : ResourceSet) (res : ChildResourceNode) :
  s.contains res = (s.find res.name).isSome
  := by
  rw [contains, find, List.isSome_find?]

theorem find?_eq_none_of_lt {r : ResourceName} {l : List ChildResourceNode}
    (h : ∀ x ∈ l, r < x.name) :
  (l.find? fun x => x.name = r) = none
  := by
  apply List.find?_eq_none.mpr
  intro x hx
  simpa using (h x hx).ne'

/-- The element inserted is found where no element of its name was. -/
theorem find?_insertEntry {l : List ChildResourceNode}
    (hl : l.Pairwise fun x y => x.name < y.name) (res : ChildResourceNode) (r : ResourceName) :
  ((insertEntry res l).find? fun x => x.name = r)
    = (l.find? fun x => x.name = r).or ([res].find? fun x => x.name = r)
  := by
  fun_induction insertEntry res l with
  | case1 => simp
  | case2 x xs hlt =>
    obtain ⟨hx, -⟩ := List.pairwise_cons.mp hl
    by_cases hname : res.name = r
    · have hnone : ((x :: xs).find? fun y => y.name = r) = none := by
        apply find?_eq_none_of_lt
        intro y hy
        rw [← hname]
        obtain rfl | hy := List.mem_cons.mp hy
        · exact hlt
        · exact hlt.trans (hx y hy)
      rw [hnone, Option.none_or, List.find?_cons_of_pos (by simpa using hname),
        List.find?_cons_of_pos (by simpa using hname)]
    · rw [List.find?_cons_of_neg (by simpa using hname)]
      rw [List.find?_cons_of_neg (a := res) (by simpa using hname), List.find?_nil, Option.or_none]
  | case3 x xs _ hlt ih =>
    obtain ⟨-, hl⟩ := List.pairwise_cons.mp hl
    by_cases hname : x.name = r
    · rw [List.find?_cons_of_pos (by simpa using hname),
        List.find?_cons_of_pos (by simpa using hname), Option.some_or]
    · rw [List.find?_cons_of_neg (by simpa using hname),
        List.find?_cons_of_neg (a := x) (by simpa using hname), ih hl]
  | case4 x xs hge hle =>
    have hname : x.name = res.name := le_antisymm (not_lt.mp hge) (not_lt.mp hle)
    by_cases hr : res.name = r
    · rw [List.find?_cons_of_pos (by simpa [hname] using hr), Option.some_or]
    · rw [List.find?_cons_of_neg (a := res) (by simpa using hr), List.find?_nil, Option.or_none]

theorem find_insert (res : ChildResourceNode) (s : ResourceSet) (r : ResourceName) :
  (s.insert res).find r = (s.find r).or ([res].find? fun x => x.name = r)
  := find?_insertEntry s.sorted res r

/-- A set has one resource of a name at most. -/
theorem filter_eq_find (s : ResourceSet) (r : ResourceName) :
  (s.entries.filter fun x => x.name = r) = (s.find r).toList
  := by
  obtain ⟨l, hl⟩ := s
  rw [find]
  induction l with
  | nil => rfl
  | cons x l ih =>
    obtain ⟨hx, hl⟩ := List.pairwise_cons.mp hl
    by_cases hname : x.name = r
    · rw [List.filter_cons_of_pos (by simpa using hname),
        List.find?_cons_of_pos (by simpa using hname), Option.toList_some]
      congr 1
      apply List.filter_eq_nil_iff.mpr
      intro y hy
      simpa [← hname] using (hx y hy).ne'
    · rw [List.filter_cons_of_neg (by simpa using hname),
        List.find?_cons_of_neg (by simpa using hname)]
      apply ih hl

end ResourceSet

/-! ### Mentions -/

/-- The resources which a request mentions: the one requested and its descendants. -/
def flattenRequest (resourceHierarchy : ResourceHierarchyMap) (depth : Nat)
    (request : ResourceValue) : Option (List ChildResourceNode) :=
  (determineChildResources resourceHierarchy depth request.name
    request.releaseAtTermination).map fun descendants =>
      ⟨request.name, request.upperBound, request.releaseAtTermination⟩ :: descendants

/-- The resources which requests mention, in order. -/
def mentions (resourceHierarchy : ResourceHierarchyMap) (depth : Nat) :
    List ResourceValue → Option (List ChildResourceNode)
  | [] => some []
  | request :: requests =>
    (flattenRequest resourceHierarchy depth request).bind fun first =>
      (mentions resourceHierarchy depth requests).map fun rest => first ++ rest

/-- A mention of a resource which is present changes nothing, be the resource the requested
one or not. -/
theorem find_addFlattened (request : ResourceValue) (s : ResourceSet) (res : ChildResourceNode)
    (r : ResourceName) :
  (addFlattened request s res).find r = (s.find r).or ([res].find? fun x => x.name = r)
  := by
  rw [addFlattened, ResourceSet.contains_eq]
  split
  · apply ResourceSet.find_insert
  split
  · apply ResourceSet.find_insert
  · rename_i hcontains _
    by_cases hname : res.name = r
    · subst hname
      cases hfind : s.find res.name with
      | none => simp [hfind] at hcontains
      | some x => rfl
    · simp [hname]

theorem find_foldl_addFlattened (request : ResourceValue) (flattenedRes : List ChildResourceNode)
    (s : ResourceSet) (r : ResourceName) :
  (flattenedRes.foldl (addFlattened request) s).find r
    = (s.find r).or (flattenedRes.find? fun x => x.name = r)
  := by
  induction flattenedRes generalizing s with
  | nil => rw [List.foldl_nil, List.find?_nil, Option.or_none]
  | cons res flattenedRes ih =>
    rw [List.foldl_cons, ih, find_addFlattened, Option.or_assoc, ← List.find?_append]
    rfl

/-- The resources of a command have for each name the first mention of it. -/
theorem find_resourcesNeeded {resourceHierarchy : ResourceHierarchyMap} {depth : Nat}
    {requests : List ResourceValue} {resources : ResourceSet}
    (h : resourcesNeeded resourceHierarchy depth requests = some resources) :
  ∃ mentioned, mentions resourceHierarchy depth requests = some mentioned ∧
    ∀ r, resources.find r = mentioned.find? fun x => x.name = r
  := by
  have hstart : ∀ r, (∅ : ResourceSet).find r = none := fun _ => rfl
  suffices hgeneral : ∀ s, requests.foldlM (determineAllChildResources resourceHierarchy depth) s
      = some resources → ∃ mentioned, mentions resourceHierarchy depth requests = some mentioned ∧
        ∀ r, resources.find r = (s.find r).or (mentioned.find? fun x => x.name = r) by
    obtain ⟨mentioned, hmentioned, hfind⟩ := hgeneral ∅ h
    use mentioned, hmentioned
    intro r
    rw [hfind, hstart, Option.none_or]
  clear h
  induction requests with
  | nil =>
    intro s h
    obtain rfl := Option.some.inj h
    use [], rfl
    intro r
    rw [List.find?_nil, Option.or_none]
  | cons request requests ih =>
    intro s h
    rw [List.foldlM_cons] at h
    obtain ⟨next, hnext, h⟩ := Option.bind_eq_some_iff.mp h
    obtain ⟨descendants, hdescendants, rfl⟩ := Option.map_eq_some_iff.mp hnext
    obtain ⟨rest, hrest, hfind⟩ := ih _ h
    have hfirst : flattenRequest resourceHierarchy depth request
        = some (⟨request.name, request.upperBound, request.releaseAtTermination⟩ :: descendants) :=
      congrArg _ hdescendants
    use ⟨request.name, request.upperBound, request.releaseAtTermination⟩ :: descendants ++ rest
    constructor
    · rw [mentions, hfirst, hrest]
      rfl
    · intro r
      rw [hfind, find_foldl_addFlattened, Option.or_assoc, ← List.find?_append]

theorem mentions_append {resourceHierarchy : ResourceHierarchyMap} {depth : Nat}
    {before after : List ResourceValue} {mentioned : List ChildResourceNode}
    (h : mentions resourceHierarchy depth (before ++ after) = some mentioned) :
  ∃ first rest, mentions resourceHierarchy depth before = some first ∧
    mentions resourceHierarchy depth after = some rest ∧ mentioned = first ++ rest
  := by
  induction before generalizing mentioned with
  | nil => exact ⟨[], mentioned, rfl, h, rfl⟩
  | cons request before ih =>
    rw [List.cons_append, mentions] at h
    obtain ⟨flattened, hflattened, h⟩ := Option.bind_eq_some_iff.mp h
    obtain ⟨mentioned, hmentioned, rfl⟩ := Option.map_eq_some_iff.mp h
    obtain ⟨first, rest, hfirst, hrest, rfl⟩ := ih hmentioned
    refine ⟨flattened ++ first, rest, ?_, hrest, ?_⟩
    · rw [mentions, hflattened, hfirst]
      rfl
    · rw [List.append_assoc]

/-! ### Explicit requests -/

/-- What a request asks for the resource which it names. -/
def ResourceValue.explicit (request : ResourceValue) : ChildResourceNode :=
  ⟨request.name, request.upperBound, request.releaseAtTermination⟩

/-- A set reserves the resource which a request names as the request asks, and once. -/
def ReservesExplicitly (resources : ResourceSet) (request : ResourceValue) : Prop :=
  (resources.entries.filter fun x => x.name = request.name) = [request.explicit]

/-- No request before mentions the resource first with other values. -/
def NotShadowed (resourceHierarchy : ResourceHierarchyMap) (depth : Nat)
    (before : List ResourceValue) (request : ResourceValue) : Prop :=
  ∀ mentioned, mentions resourceHierarchy depth before = some mentioned →
    ∀ x, (mentioned.find? fun x => x.name = request.name) = some x → x = request.explicit

/-- The resources of a command reserve what a request names as it asks, exactly when no
request before it mentions the resource first with other values. -/
theorem reservesExplicitly_iff {resourceHierarchy : ResourceHierarchyMap} {depth : Nat}
    {before after : List ResourceValue} {request : ResourceValue} {resources : ResourceSet}
    (h : resourcesNeeded resourceHierarchy depth (before ++ request :: after) = some resources) :
  ReservesExplicitly resources request ↔ NotShadowed resourceHierarchy depth before request
  := by
  obtain ⟨mentioned, hmentioned, hfind⟩ := find_resourcesNeeded h
  obtain ⟨first, rest, hfirst, hrest, rfl⟩ := mentions_append hmentioned
  rw [mentions] at hrest
  obtain ⟨flattened, hflattened, hrest⟩ := Option.bind_eq_some_iff.mp hrest
  obtain ⟨last, -, rfl⟩ := Option.map_eq_some_iff.mp hrest
  obtain ⟨descendants, -, rfl⟩ := Option.map_eq_some_iff.mp hflattened
  have hself : (request.explicit :: descendants ++ last).find? (fun x => x.name = request.name)
      = some request.explicit := List.find?_cons_of_pos (by simp [ResourceValue.explicit])
  have hexplicit : resources.find request.name
      = (first.find? fun x => x.name = request.name).or (some request.explicit) := by
    rw [hfind, List.find?_append]
    exact congrArg _ hself
  rw [ReservesExplicitly, ResourceSet.filter_eq_find, hexplicit]
  unfold NotShadowed
  simp only [hfirst, Option.some.injEq, forall_eq']
  cases first.find? fun x => x.name = request.name with
  | none => simp
  | some x => simp

/-! ### Reservations -/

namespace ResourceArbiter

variable {C : Type} [DecidableEq C]

omit [DecidableEq C] in
/-- A resource which is reserved once is charged once. -/
theorem weightOn_of_filter {r : ResourceName} {resources : List ChildResourceNode}
    {res : ChildResourceNode} (h : (resources.filter fun x => x.name = r) = [res]) :
  weightOn r resources = res.weight
  := by
  have hsum : weightOn r resources
      = ((resources.filter fun x => x.name = r).map ChildResourceNode.weight).sum := by
    clear h
    induction resources with
    | nil => rfl
    | cons x resources ih =>
      rw [weightOn, List.map_cons, List.sum_cons, ← weightOn, ih]
      by_cases hname : x.name = r
      · simp [hname]
      · simp [hname]
  rw [hsum, h, List.map_singleton, List.sum_singleton]

/-- The loop keeps the reservation of a command whose entries all ask for it. -/
theorem arbitrateEntries_lookup_kept {entries : List (CommandPriorityEntry C)}
    {estimates : EstimateMap} {a : ResourceArbiter C} {cmd : C} {resources : ResourceSet}
    (hentries : ∀ entry ∈ entries, entry.command = cmd → entry.resources = resources)
    (h : a.cmdResMap.lookup cmd = some resources) :
  (arbitrateEntries entries estimates a).1.cmdResMap.lookup cmd = some resources
  := by
  induction entries generalizing estimates a with
  | nil => exact h
  | cons entry entries ih =>
    rw [List.forall_mem_cons] at hentries
    cases hconsider : a.considerRequests entry.resources.entries estimates with
    | none =>
      rw [arbitrateEntries_reject hconsider]
      apply ih hentries.2 h
    | some estimates' =>
      rw [arbitrateEntries_accept hconsider]
      apply ih hentries.2
      rw [accept]
      by_cases hcmd : entry.command = cmd
      · rw [← hcmd, AList.lookup_insert, hentries.1 hcmd]
      · rw [AList.lookup_insert_ne (Ne.symm hcmd), h]

/-- The loop reserves for a command which it accepts the resources of its entries. -/
theorem arbitrateEntries_lookup {entries : List (CommandPriorityEntry C)}
    {estimates : EstimateMap} {a : ResourceArbiter C} {cmd : C} {resources : ResourceSet}
    (hentries : ∀ entry ∈ entries, entry.command = cmd → entry.resources = resources)
    (h : cmd ∈ (arbitrateEntries entries estimates a).2.1) :
  (arbitrateEntries entries estimates a).1.cmdResMap.lookup cmd = some resources
  := by
  induction entries generalizing estimates a with
  | nil => cases h
  | cons entry entries ih =>
    rw [List.forall_mem_cons] at hentries
    cases hconsider : a.considerRequests entry.resources.entries estimates with
    | none =>
      rw [arbitrateEntries_reject hconsider] at h ⊢
      apply ih hentries.2 h
    | some estimates' =>
      rw [arbitrateEntries_accept hconsider] at h ⊢
      obtain heq | h := List.mem_cons.mp h
      · apply arbitrateEntries_lookup_kept hentries.2
        rw [accept, heq, AList.lookup_insert, hentries.1 heq.symm]
      · apply ih hentries.2 h

/-- An accepted command with requests has reserved the resources which it needs. -/
theorem arbitrateCommands_lookup {a a' : ResourceArbiter C} {depth : Nat}
    {resourceValues : C → List ResourceValue} {cmds accepted rejected : List C}
    (h : a.arbitrateCommands depth resourceValues cmds = some (a', accepted, rejected)) {cmd : C}
    (hcmd : cmd ∈ accepted) (hvalues : resourceValues cmd ≠ []) :
  ∃ resources, a'.cmdResMap.lookup cmd = some resources ∧
    resourcesNeeded a.resourceHierarchy depth (resourceValues cmd) = some resources
  := by
  have hmem : cmd ∈ cmds :=
    (arbitrateCommands_perm h).mem_iff.mp (List.mem_append_left rejected hcmd)
  have hsome := (a.arbitrateCommands_isSome_iff depth resourceValues cmds).mp
    (Option.isSome_iff_exists.mpr ⟨_, h⟩) cmd hmem
  obtain ⟨resources, hresources⟩ := Option.isSome_iff_exists.mp hsome
  obtain ⟨sorted, -, -, hentries, rfl, rfl, -⟩ := arbitrateCommands_spec h
  rw [mem_free_append_iff (mem_considered.mpr ⟨hmem, hvalues⟩)] at hcmd
  refine ⟨resources, ?_, hresources⟩
  apply arbitrateEntries_lookup _ hcmd
  rintro entry hentry rfl
  have hneeded := (hentries entry hentry).resources
  rw [hresources] at hneeded
  exact (Option.some.inj hneeded).symm

/-- The reservation of an accepted command for a resource which a request names is the one
which the request asks for, and is charged once, exactly when no earlier request of the
command mentions the resource first with other values. -/
theorem reservation_explicit_iff {a a' : ResourceArbiter C} {depth : Nat}
    {resourceValues : C → List ResourceValue} {cmds accepted rejected : List C}
    (h : a.arbitrateCommands depth resourceValues cmds = some (a', accepted, rejected)) {cmd : C}
    (hcmd : cmd ∈ accepted) {before after : List ResourceValue} {request : ResourceValue}
    (hvalues : resourceValues cmd = before ++ request :: after) :
  (∃ resources, a'.cmdResMap.lookup cmd = some resources ∧
      ReservesExplicitly resources request ∧
      ∀ allocated, allocate resources.entries allocated request.name
        = allocated request.name + request.upperBound)
    ↔ NotShadowed a.resourceHierarchy depth before request
  := by
  obtain ⟨resources, hlookup, hneeded⟩ :=
    arbitrateCommands_lookup h hcmd (by simp [hvalues])
  rw [hvalues] at hneeded
  rw [← reservesExplicitly_iff hneeded]
  constructor
  · rintro ⟨resources', hlookup', hreserves, -⟩
    rw [hlookup] at hlookup'
    obtain rfl := Option.some.inj hlookup'
    exact hreserves
  · intro hreserves
    refine ⟨resources, hlookup, hreserves, fun allocated => ?_⟩
    rw [allocate_eq, weightOn_of_filter hreserves]
    rfl

/-! ### A resource with a child -/

/-- The resource B is a child of the resource A. -/
def pairHierarchy : ResourceHierarchyMap :=
  (∅ : ResourceHierarchyMap).insert "A" ⟨[⟨"B", 1, true⟩], 1⟩

/-- A request for A and a request for half of B which is not released. -/
def pairValues (_ : Nat) : List ResourceValue := [⟨"A", 1, 0, true⟩, ⟨"B", 1/2, 0, false⟩]

theorem pairValues_accepted :
  ∃ a' rejected, (start pairHierarchy).arbitrateCommands 3 pairValues [0] = some (a', [0], rejected)
  := by
  have hrun : ((start pairHierarchy).arbitrateCommands 3 pairValues [0]).map (fun r => r.2.1)
      = some [0] := by
    decide +kernel
  obtain ⟨⟨a', accepted, rejected⟩, h, rfl⟩ := Option.map_eq_some_iff.mp hrun
  exact ⟨a', rejected, h⟩

/-- The first request of the command is reserved as it asks. -/
theorem reservation_explicit_first :
  ∃ a' rejected,
    (start pairHierarchy).arbitrateCommands 3 pairValues [0] = some (a', [0], rejected) ∧
    ((∃ resources, a'.cmdResMap.lookup 0 = some resources ∧
        ReservesExplicitly resources ⟨"A", 1, 0, true⟩ ∧
        ∀ allocated, allocate resources.entries allocated "A" = allocated "A" + 1)
      ↔ NotShadowed pairHierarchy 3 [] ⟨"A", 1, 0, true⟩)
  := by
  obtain ⟨a', rejected, h⟩ := pairValues_accepted
  have hvalues : pairValues 0 = [] ++ ⟨"A", 1, 0, true⟩ :: [⟨"B", 1/2, 0, false⟩] := rfl
  exact ⟨a', rejected, h, reservation_explicit_iff h (by simp) hvalues⟩

/-- The reservation for B is the one which A implies. -/
theorem pairValues_not_explicit :
  ¬ ∀ (a a' : ResourceArbiter Nat) (depth : Nat) (resourceValues : Nat → List ResourceValue)
      (cmds accepted rejected : List Nat) (cmd : Nat) (request : ResourceValue),
    a.arbitrateCommands depth resourceValues cmds = some (a', accepted, rejected) →
    cmd ∈ accepted → request ∈ resourceValues cmd →
    ∃ resources, a'.cmdResMap.lookup cmd = some resources ∧ ReservesExplicitly resources request
  := by
  intro hall
  obtain ⟨a', rejected, h⟩ := pairValues_accepted
  obtain ⟨resources, hlookup, hreserves⟩ := hall _ _ _ _ _ _ _ 0 ⟨"B", 1/2, 0, false⟩ h
    (by simp) (by simp [pairValues])
  have hne : pairValues 0 ≠ [] := by simp [pairValues]
  obtain ⟨resources', hlookup', hneeded⟩ := arbitrateCommands_lookup h (by simp) hne
  rw [hlookup] at hlookup'
  obtain rfl := Option.some.inj hlookup'
  have hvalues : pairValues 0 = [⟨"A", 1, 0, true⟩] ++ ⟨"B", 1/2, 0, false⟩ :: [] := rfl
  rw [hvalues] at hneeded
  have hshadow := (reservesExplicitly_iff hneeded).mp hreserves
  have hmentions : (mentions pairHierarchy 3 [⟨"A", 1, 0, true⟩]).map
      (fun l => (l.find? fun x => x.name = "B").map ChildResourceNode.weight)
        = some (some 1) := by
    decide +kernel
  obtain ⟨mentioned, hmentioned, hfind⟩ := Option.map_eq_some_iff.mp hmentions
  obtain ⟨x, hx, hweight⟩ := Option.map_eq_some_iff.mp hfind
  rw [hshadow mentioned hmentioned x hx] at hweight
  norm_num [ResourceValue.explicit] at hweight

end ResourceArbiter

end Plexil
