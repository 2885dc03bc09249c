import Plexil.Intfc.ArbiterBounds
import Plexil.Intfc.HierarchyReader
import Plexil.Util.StableSort

/-!
# The order of arbitration

The commands with requests are considered in the order of their priorities, and of their
arrival within a priority.  What becomes of a command depends on the hierarchy, on the
amounts allocated and on the commands considered before it; a command which is rejected
has no effect on the other commands.
-/

namespace Plexil

variable {C : Type}

/-- The priority of a command, that of its first request. -/
def commandPriority (resourceValues : C → List ResourceValue) (cmd : C) : Int :=
  ((resourceValues cmd).head?.map ResourceValue.priority).getD 0

/-- The commands with requests, in the order in which they are considered. -/
def considered (resourceValues : C → List ResourceValue) (cmds : List C) : List C :=
  (cmds.filter fun cmd => !(resourceValues cmd).isEmpty).insertionSort
    fun x y => commandPriority resourceValues x ≤ commandPriority resourceValues y

/-! ### The entries of the commands -/

/-- The entry which a command with requests gets within a recursion depth. -/
structure IsEntry (resourceHierarchy : ResourceHierarchyMap) (depth : Nat)
    (resourceValues : C → List ResourceValue) (entry : CommandPriorityEntry C) : Prop where
  resources : resourcesNeeded resourceHierarchy depth (resourceValues entry.command)
    = some entry.resources
  priority : entry.priority = commandPriority resourceValues entry.command

variable {resourceHierarchy : ResourceHierarchyMap} {depth : Nat}
  {resourceValues : C → List ResourceValue}

theorem collectCommands_isSome_iff (cmds : List C) :
  (collectCommands resourceHierarchy depth resourceValues cmds).isSome
    ↔ ∀ cmd ∈ cmds, (resourcesNeeded resourceHierarchy depth (resourceValues cmd)).isSome
  := by
  induction cmds with
  | nil => simp [collectCommands]
  | cons cmd cmds ih =>
    rw [collectCommands, List.forall_mem_cons, ← ih]
    split
    · rename_i hvalues
      have hneeded : (resourcesNeeded resourceHierarchy depth []).isSome := rfl
      rw [hvalues, Option.isSome_map, and_iff_right hneeded]
    · rename_i request requests hvalues
      rw [hvalues]
      cases resourcesNeeded resourceHierarchy depth (request :: requests) <;> simp

theorem collectCommands_spec {cmds acceptCmds : List C}
    {entries : List (CommandPriorityEntry C)}
    (h : collectCommands resourceHierarchy depth resourceValues cmds = some (acceptCmds, entries)) :
  acceptCmds = cmds.filter (fun cmd => (resourceValues cmd).isEmpty) ∧
    entries.map CommandPriorityEntry.command
      = cmds.filter (fun cmd => !(resourceValues cmd).isEmpty) ∧
    ∀ entry ∈ entries, IsEntry resourceHierarchy depth resourceValues entry
  := by
  induction cmds generalizing acceptCmds entries with
  | nil =>
    cases h
    simp
  | cons cmd cmds ih =>
    rw [collectCommands] at h
    split at h
    · rename_i hvalues
      obtain ⟨⟨acceptCmds, entries⟩, hrest, heq⟩ := Option.map_eq_some_iff.mp h
      cases heq
      obtain ⟨rfl, hcommands, hentries⟩ := ih hrest
      refine ⟨?_, ?_, hentries⟩
      · rw [List.filter_cons_of_pos (by simp [hvalues])]
      · rw [List.filter_cons_of_neg (by simp [hvalues]), hcommands]
    · rename_i request requests hvalues
      obtain ⟨resources, hresources, h⟩ := Option.bind_eq_some_iff.mp h
      obtain ⟨⟨acceptCmds, entries⟩, hrest, heq⟩ := Option.map_eq_some_iff.mp h
      cases heq
      obtain ⟨rfl, hcommands, hentries⟩ := ih hrest
      refine ⟨?_, ?_, ?_⟩
      · rw [List.filter_cons_of_neg (by simp [hvalues])]
      · rw [List.filter_cons_of_pos (by simp [hvalues]), List.map_cons, hcommands]
      · rw [List.forall_mem_cons]
        refine ⟨⟨?_, ?_⟩, hentries⟩
        · rw [hvalues]
          exact hresources
        · simp [commandPriority, hvalues]

/-- The commands without requests, and entries for the others in their order. -/
theorem partitionCommands_spec {cmds acceptCmds : List C}
    {sortedCommands : List (CommandPriorityEntry C)}
    (h : partitionCommands resourceHierarchy depth resourceValues cmds
      = some (acceptCmds, sortedCommands)) :
  acceptCmds = cmds.filter (fun cmd => (resourceValues cmd).isEmpty) ∧
    sortedCommands.map CommandPriorityEntry.command = considered resourceValues cmds ∧
    ∀ entry ∈ sortedCommands, IsEntry resourceHierarchy depth resourceValues entry
  := by
  obtain ⟨⟨acceptCmds, entries⟩, hcollect, heq⟩ := Option.map_eq_some_iff.mp h
  cases heq
  obtain ⟨rfl, hcommands, hentries⟩ := collectCommands_spec hcollect
  refine ⟨rfl, ?_, fun entry hentry => hentries entry ((List.mem_insertionSort _).mp hentry)⟩
  rw [considered, ← hcommands]
  apply List.map_insertionSort
  intro x hx y hy
  rw [(hentries x hx).priority, (hentries y hy).priority]

theorem collectCommands_free {cmd : C} (hvalues : resourceValues cmd = [])
    {cmds acceptCmds : List C} {entries : List (CommandPriorityEntry C)}
    (h : collectCommands resourceHierarchy depth resourceValues cmds = some (acceptCmds, entries)) :
  collectCommands resourceHierarchy depth resourceValues (cmd :: cmds)
    = some (cmd :: acceptCmds, entries)
  := by
  rw [collectCommands, hvalues, h]
  rfl

theorem collectCommands_entry {cmd : C} {request : ResourceValue} {requests : List ResourceValue}
    (hvalues : resourceValues cmd = request :: requests) {resources : ResourceSet}
    (hresources : resourcesNeeded resourceHierarchy depth (request :: requests) = some resources)
    {cmds acceptCmds : List C} {entries : List (CommandPriorityEntry C)}
    (h : collectCommands resourceHierarchy depth resourceValues cmds = some (acceptCmds, entries)) :
  collectCommands resourceHierarchy depth resourceValues (cmd :: cmds)
    = some (acceptCmds, ⟨resources, cmd, request.priority⟩ :: entries)
  := by
  rw [collectCommands, hvalues]
  simp only [hresources, h, Option.bind_some, Option.map_some]

theorem collectCommands_filter [DecidableEq C] (cmd : C) {cmds acceptCmds : List C}
    {entries : List (CommandPriorityEntry C)}
    (h : collectCommands resourceHierarchy depth resourceValues cmds = some (acceptCmds, entries)) :
  collectCommands resourceHierarchy depth resourceValues (cmds.filter fun c => c ≠ cmd)
    = some (acceptCmds.filter fun c => c ≠ cmd, entries.filter fun entry => entry.command ≠ cmd)
  := by
  induction cmds generalizing acceptCmds entries with
  | nil =>
    cases h
    rfl
  | cons c cmds ih =>
    rw [collectCommands] at h
    split at h
    · rename_i hvalues
      obtain ⟨⟨acceptCmds, entries⟩, hrest, heq⟩ := Option.map_eq_some_iff.mp h
      cases heq
      by_cases hc : c = cmd
      · simpa [hc] using ih hrest
      · rw [List.filter_cons_of_pos (by simp [hc]), List.filter_cons_of_pos (by simp [hc])]
        apply collectCommands_free hvalues (ih hrest)
    · rename_i request requests hvalues
      obtain ⟨resources, hresources, h⟩ := Option.bind_eq_some_iff.mp h
      obtain ⟨⟨acceptCmds, entries⟩, hrest, heq⟩ := Option.map_eq_some_iff.mp h
      cases heq
      by_cases hc : c = cmd
      · simpa [hc] using ih hrest
      · rw [List.filter_cons_of_pos (by simp [hc]), List.filter_cons_of_pos (by simp [hc])]
        apply collectCommands_entry hvalues hresources (ih hrest)

/-- The partition of the other commands, when one is left out. -/
theorem partitionCommands_filter [DecidableEq C] (cmd : C) {cmds acceptCmds : List C}
    {sortedCommands : List (CommandPriorityEntry C)}
    (h : partitionCommands resourceHierarchy depth resourceValues cmds
      = some (acceptCmds, sortedCommands)) :
  partitionCommands resourceHierarchy depth resourceValues (cmds.filter fun c => c ≠ cmd)
    = some (acceptCmds.filter fun c => c ≠ cmd,
      sortedCommands.filter fun entry => entry.command ≠ cmd)
  := by
  obtain ⟨⟨acceptCmds, entries⟩, hcollect, heq⟩ := Option.map_eq_some_iff.mp h
  cases heq
  rw [partitionCommands, collectCommands_filter cmd hcollect, StableSort.filter_insertionSort]
  rfl

/-- The resources needed do not depend on the depth within which they are found. -/
theorem resourcesNeeded_mono {depth' : Nat} (hdepth : depth ≤ depth')
    {requests : List ResourceValue} {resources : ResourceSet}
    (h : resourcesNeeded resourceHierarchy depth requests = some resources) :
  resourcesNeeded resourceHierarchy depth' requests = some resources
  := by
  revert h
  unfold resourcesNeeded
  generalize (∅ : ResourceSet) = start
  induction requests generalizing start with
  | nil => exact id
  | cons request requests ih =>
    rw [List.foldlM_cons, List.foldlM_cons]
    intro h
    obtain ⟨next, hnext, h⟩ := Option.bind_eq_some_iff.mp h
    obtain ⟨descendants, hdescendants, heq⟩ := Option.map_eq_some_iff.mp hnext
    apply Option.bind_eq_some_iff.mpr
    use next
    refine ⟨?_, ih next h⟩
    rw [determineAllChildResources, determineChildResources_mono hdepth hdescendants]
    exact congrArg some heq

theorem resourcesNeeded_unique {depth' : Nat} {requests : List ResourceValue}
    {resources resources' : ResourceSet}
    (h : resourcesNeeded resourceHierarchy depth requests = some resources)
    (h' : resourcesNeeded resourceHierarchy depth' requests = some resources') :
  resources = resources'
  := by
  have hmax := resourcesNeeded_mono (le_max_left depth depth') h
  rw [resourcesNeeded_mono (le_max_right depth depth') h'] at hmax
  exact (Option.some.inj hmax).symm

/-- The entry of a command is determined by the requests of the command. -/
theorem IsEntry.unique {depth' : Nat} {resourceValues' : C → List ResourceValue}
    {entry entry' : CommandPriorityEntry C}
    (h : IsEntry resourceHierarchy depth resourceValues entry)
    (h' : IsEntry resourceHierarchy depth' resourceValues' entry')
    (hcommand : entry.command = entry'.command)
    (hvalues : resourceValues entry.command = resourceValues' entry.command) :
  entry = entry'
  := by
  obtain ⟨resources, command, priority⟩ := entry
  obtain ⟨resources', command', priority'⟩ := entry'
  obtain ⟨hresources, hpriority⟩ := h
  obtain ⟨hresources', hpriority'⟩ := h'
  dsimp only at *
  subst hcommand
  rw [← hvalues] at hresources'
  obtain rfl := resourcesNeeded_unique hresources hresources'
  rw [hpriority, hpriority', commandPriority, commandPriority, hvalues]

theorem IsEntry.unique_list {depth' : Nat} {resourceValues' : C → List ResourceValue}
    {entries entries' : List (CommandPriorityEntry C)}
    (h : ∀ entry ∈ entries, IsEntry resourceHierarchy depth resourceValues entry)
    (h' : ∀ entry ∈ entries', IsEntry resourceHierarchy depth' resourceValues' entry)
    (hcommands : entries.map CommandPriorityEntry.command
      = entries'.map CommandPriorityEntry.command)
    (hvalues : ∀ cmd ∈ entries.map CommandPriorityEntry.command,
      resourceValues cmd = resourceValues' cmd) :
  entries = entries'
  := by
  induction entries generalizing entries' with
  | nil => exact (List.map_eq_nil_iff.mp hcommands.symm).symm
  | cons entry entries ih =>
    obtain _ | ⟨entry', entries'⟩ := entries'
    · cases hcommands
    · rw [List.map_cons, List.map_cons, List.cons.injEq] at hcommands
      rw [List.map_cons, List.forall_mem_cons] at hvalues
      rw [List.forall_mem_cons] at h h'
      rw [h.1.unique h'.1 hcommands.1 hvalues.1]
      rw [ih h.2 h'.2 hcommands.2 hvalues.2]

theorem mem_considered {cmds : List C} {cmd : C} :
  cmd ∈ considered resourceValues cmds ↔ cmd ∈ cmds ∧ resourceValues cmd ≠ []
  := by
  rw [considered, List.mem_insertionSort, List.mem_filter]
  simp

theorem considered_nodup (resourceValues : C → List ResourceValue) {cmds : List C}
    (h : cmds.Nodup) :
  (considered resourceValues cmds).Nodup
  := (List.perm_insertionSort ..).nodup_iff.mpr (h.filter _)

namespace ResourceArbiter

/-! ### Estimates of the resources which are requested -/

/-- The resources which the entries request. -/
def requested (entries : List (CommandPriorityEntry C)) : Set ResourceName :=
  {r | ∃ entry ∈ entries, ∃ res ∈ entry.resources.entries, res.name = r}

theorem mem_requested (entries : List (CommandPriorityEntry C)) :
  ∀ entry ∈ entries, ∀ res ∈ entry.resources.entries, res.name ∈ requested entries
  := fun entry hentry res hres => ⟨entry, hentry, res, hres, rfl⟩

theorem addRequest_eqOn {estimates estimates' : EstimateMap} {s : Set ResourceName}
    (h : Set.EqOn estimates estimates' s) (r : ResourceName) (est : ResourceEstimate) :
  Set.EqOn (Function.update estimates r est) (Function.update estimates' r est) s
  := by
  intro x hx
  rcases eq_or_ne x r with rfl | hne
  · simp
  · simpa [hne] using h hx

/-- Requests are considered alike by two arbiters with one hierarchy, from estimates which
agree on the requested resources. -/
theorem considerRequests_congr {a b : ResourceArbiter C}
    (hhierarchy : a.resourceHierarchy = b.resourceHierarchy) {s : Set ResourceName}
    {requests : List ChildResourceNode} (hs : ∀ res ∈ requests, res.name ∈ s)
    {estimates estimates' : EstimateMap} (h : Set.EqOn estimates estimates' s) :
  (a.considerRequests requests estimates = none ∧ b.considerRequests requests estimates' = none) ∨
    ∃ x y, a.considerRequests requests estimates = some x ∧
      b.considerRequests requests estimates' = some y ∧ Set.EqOn x y s
  := by
  induction requests generalizing estimates estimates' with
  | nil => exact .inr ⟨estimates, estimates', rfl, rfl, h⟩
  | cons res requests ih =>
    obtain ⟨hres, hrequests⟩ := List.forall_mem_cons.mp hs
    have hmax : a.maxConsumableResourceValue res.name = b.maxConsumableResourceValue res.name := by
      rw [maxConsumableResourceValue, maxConsumableResourceValue, hhierarchy]
    rw [considerRequests, considerRequests, h hres, hmax]
    split
    · exact .inl ⟨rfl, rfl⟩
    split
    · exact .inl ⟨rfl, rfl⟩
    · apply ih hrequests
      apply addRequest_eqOn h

variable [DecidableEq C]

theorem arbitrateEntries_reject {entry : CommandPriorityEntry C} {estimates : EstimateMap}
    {a : ResourceArbiter C} (h : a.considerRequests entry.resources.entries estimates = none)
    (entries : List (CommandPriorityEntry C)) :
  arbitrateEntries (entry :: entries) estimates a
    = ((arbitrateEntries entries estimates a).1, (arbitrateEntries entries estimates a).2.1,
      entry.command :: (arbitrateEntries entries estimates a).2.2)
  := by
  rw [arbitrateEntries, h]

theorem arbitrateEntries_accept {entry : CommandPriorityEntry C}
    {estimates estimates' : EstimateMap} {a : ResourceArbiter C}
    (h : a.considerRequests entry.resources.entries estimates = some estimates')
    (entries : List (CommandPriorityEntry C)) :
  arbitrateEntries (entry :: entries) estimates a
    = ((arbitrateEntries entries estimates' (a.accept entry)).1,
      entry.command :: (arbitrateEntries entries estimates' (a.accept entry)).2.1,
      (arbitrateEntries entries estimates' (a.accept entry)).2.2)
  := by
  rw [arbitrateEntries, h]

theorem mem_of_mem_accepted {entries : List (CommandPriorityEntry C)} {estimates : EstimateMap}
    {a : ResourceArbiter C} {cmd : C} (h : cmd ∈ (arbitrateEntries entries estimates a).2.1) :
  cmd ∈ entries.map CommandPriorityEntry.command
  := (arbitrateEntries_perm entries estimates a).mem_iff.mp (List.mem_append_left _ h)

/-- The loop over the entries depends only on the estimates of the requested resources. -/
theorem arbitrateEntries_congr {s : Set ResourceName}
    {entries : List (CommandPriorityEntry C)}
    (hs : ∀ entry ∈ entries, ∀ res ∈ entry.resources.entries, res.name ∈ s)
    {estimates estimates' : EstimateMap} (h : Set.EqOn estimates estimates' s)
    (a : ResourceArbiter C) :
  arbitrateEntries entries estimates a = arbitrateEntries entries estimates' a
  := by
  induction entries generalizing estimates estimates' a with
  | nil => rfl
  | cons entry entries ih =>
    rw [List.forall_mem_cons] at hs
    obtain ⟨hx, hy⟩ | ⟨x, y, hx, hy, hxy⟩ := considerRequests_congr (a := a) (b := a) rfl hs.1 h
    · rw [arbitrateEntries_reject hx, arbitrateEntries_reject hy, ih hs.2 h]
    · rw [arbitrateEntries_accept hx, arbitrateEntries_accept hy, ih hs.2 hxy]

/-- Two loops which start from the same amounts agree on an entry when they agree on the
entries before it. -/
theorem arbitrateEntries_fate {s : Set ResourceName}
    {before after after' : List (CommandPriorityEntry C)} {entry : CommandPriorityEntry C}
    (hs : ∀ e ∈ before ++ [entry], ∀ res ∈ e.resources.entries, res.name ∈ s)
    (hnodup : ((before ++ entry :: after).map CommandPriorityEntry.command).Nodup)
    (hnodup' : ((before ++ entry :: after').map CommandPriorityEntry.command).Nodup)
    {a b : ResourceArbiter C} (hhierarchy : a.resourceHierarchy = b.resourceHierarchy)
    {estimates estimates' : EstimateMap} (h : Set.EqOn estimates estimates' s) :
  entry.command ∈ (arbitrateEntries (before ++ entry :: after) estimates a).2.1
    ↔ entry.command ∈ (arbitrateEntries (before ++ entry :: after') estimates' b).2.1
  := by
  induction before generalizing estimates estimates' a b with
  | nil =>
    rw [List.nil_append, List.map_cons, List.nodup_cons] at hnodup hnodup'
    rw [List.nil_append, List.nil_append]
    have hentry := hs entry (by simp)
    obtain ⟨hx, hy⟩ | ⟨x, y, hx, hy, -⟩ := considerRequests_congr hhierarchy hentry h
    · rw [arbitrateEntries_reject hx, arbitrateEntries_reject hy]
      apply iff_of_false
      · exact fun hmem => hnodup.1 (mem_of_mem_accepted hmem)
      · exact fun hmem => hnodup'.1 (mem_of_mem_accepted hmem)
    · rw [arbitrateEntries_accept hx, arbitrateEntries_accept hy]
      simp
  | cons first before ih =>
    rw [List.cons_append, List.map_cons, List.nodup_cons] at hnodup hnodup'
    rw [List.cons_append, List.forall_mem_cons] at hs
    rw [List.cons_append, List.cons_append]
    have hne : entry.command ≠ first.command := by
      rintro heq
      apply hnodup.1
      simp [heq]
    obtain ⟨hx, hy⟩ | ⟨x, y, hx, hy, hxy⟩ := considerRequests_congr hhierarchy hs.1 h
    · rw [arbitrateEntries_reject hx, arbitrateEntries_reject hy]
      apply ih hs.2 hnodup.2 hnodup'.2 hhierarchy h
    · rw [arbitrateEntries_accept hx, arbitrateEntries_accept hy]
      rw [List.mem_cons, List.mem_cons, or_iff_right hne, or_iff_right hne]
      apply ih hs.2 hnodup.2 hnodup'.2 _ hxy
      apply hhierarchy

/-- An entry which is not accepted has no effect on the arbiter and on the other
entries. -/
theorem arbitrateEntries_filter (cmd : C) {entries : List (CommandPriorityEntry C)}
    {estimates : EstimateMap} {a : ResourceArbiter C}
    (h : cmd ∉ (arbitrateEntries entries estimates a).2.1) :
  arbitrateEntries (entries.filter fun entry => entry.command ≠ cmd) estimates a
    = ((arbitrateEntries entries estimates a).1, (arbitrateEntries entries estimates a).2.1,
      (arbitrateEntries entries estimates a).2.2.filter fun c => c ≠ cmd)
  := by
  induction entries generalizing estimates a with
  | nil => rfl
  | cons entry entries ih =>
    cases hconsider : a.considerRequests entry.resources.entries estimates with
    | none =>
      rw [arbitrateEntries_reject hconsider] at h ⊢
      by_cases hcmd : entry.command = cmd
      · rw [List.filter_cons_of_neg (by simp [hcmd]), ih h]
        simp [hcmd]
      · rw [List.filter_cons_of_pos (by simp [hcmd])]
        rw [arbitrateEntries_reject hconsider, ih h]
        simp [hcmd]
    | some estimates' =>
      rw [arbitrateEntries_accept hconsider] at h ⊢
      obtain ⟨hcmd, h⟩ := not_or.mp (mt List.mem_cons.mpr h)
      rw [List.filter_cons_of_pos (by simp [Ne.symm hcmd])]
      rw [arbitrateEntries_accept hconsider, ih h]

/-! ### Arbitration of commands -/

/-- The entries and the outcome of an arbitration which returns. -/
theorem arbitrateCommands_spec {a a' : ResourceArbiter C} {depth : Nat}
    {resourceValues : C → List ResourceValue} {cmds accepted rejected : List C}
    (h : a.arbitrateCommands depth resourceValues cmds = some (a', accepted, rejected)) :
  ∃ sortedCommands,
    partitionCommands a.resourceHierarchy depth resourceValues cmds
      = some (cmds.filter (fun cmd => (resourceValues cmd).isEmpty), sortedCommands) ∧
    sortedCommands.map CommandPriorityEntry.command = considered resourceValues cmds ∧
    (∀ entry ∈ sortedCommands, IsEntry a.resourceHierarchy depth resourceValues entry) ∧
    a' = (a.optimalResourceArbitration sortedCommands).1 ∧
    accepted = cmds.filter (fun cmd => (resourceValues cmd).isEmpty) ++
      (a.optimalResourceArbitration sortedCommands).2.1 ∧
    rejected = (a.optimalResourceArbitration sortedCommands).2.2
  := by
  obtain ⟨⟨acceptCmds, sortedCommands⟩, hpartition, heq⟩ := Option.map_eq_some_iff.mp h
  cases heq
  obtain ⟨rfl, hcommands, hentries⟩ := partitionCommands_spec hpartition
  exact ⟨sortedCommands, hpartition, hcommands, hentries, rfl, rfl, rfl⟩

theorem arbitrateCommands_isSome_iff (a : ResourceArbiter C) (depth : Nat)
    (resourceValues : C → List ResourceValue) (cmds : List C) :
  (a.arbitrateCommands depth resourceValues cmds).isSome
    ↔ ∀ cmd ∈ cmds,
      (resourcesNeeded a.resourceHierarchy depth (resourceValues cmd)).isSome
  := by
  rw [arbitrateCommands, Option.isSome_map, partitionCommands, Option.isSome_map]
  apply collectCommands_isSome_iff

omit [DecidableEq C] in
/-- A command with requests is accepted when the loop over the entries accepts it. -/
theorem mem_free_append_iff {cmds accepted : List C} {cmd : C}
    {resourceValues : C → List ResourceValue} (hcmd : cmd ∈ considered resourceValues cmds) :
  cmd ∈ cmds.filter (fun cmd => (resourceValues cmd).isEmpty) ++ accepted ↔ cmd ∈ accepted
  := by
  rw [List.mem_append]
  apply or_iff_right
  intro hfree
  apply (mem_considered.mp hcmd).2
  simpa using (List.mem_filter.mp hfree).2

omit [DecidableEq C] in
/-- The initial estimates of two arbitrations agree on the resources which both request. -/
theorem initialEstimates_eqOn {a b : ResourceArbiter C} (hallocated : a.allocated = b.allocated)
    {sortedCommands sortedCommands' : List (CommandPriorityEntry C)}
    (entries : List (CommandPriorityEntry C)) (h : ∀ entry ∈ entries, entry ∈ sortedCommands)
    (h' : ∀ entry ∈ entries, entry ∈ sortedCommands') :
  Set.EqOn (a.initialEstimates sortedCommands) (b.initialEstimates sortedCommands')
    (requested entries)
  := by
  rintro r ⟨entry, hentry, res, hres, rfl⟩
  rw [initialEstimates_of_mem a (h entry hentry) hres]
  rw [initialEstimates_of_mem b (h' entry hentry) hres, hallocated]

/-- Two arbitrations from one hierarchy and the same amounts agree on a command, when the
same commands with the same requests are considered before it. -/
theorem arbitrateCommands_fate {a b a' b' : ResourceArbiter C}
    (hhierarchy : a.resourceHierarchy = b.resourceHierarchy)
    (hallocated : a.allocated = b.allocated)
    {depth depth' : Nat} {resourceValues resourceValues' : C → List ResourceValue}
    {cmds cmds' accepted accepted' rejected rejected' : List C}
    (hnodup : cmds.Nodup) (hnodup' : cmds'.Nodup)
    (h : a.arbitrateCommands depth resourceValues cmds = some (a', accepted, rejected))
    (h' : b.arbitrateCommands depth' resourceValues' cmds' = some (b', accepted', rejected'))
    {before after after' : List C} {cmd : C}
    (horder : considered resourceValues cmds = before ++ cmd :: after)
    (horder' : considered resourceValues' cmds' = before ++ cmd :: after')
    (hvalues : ∀ c ∈ before ++ [cmd], resourceValues c = resourceValues' c) :
  cmd ∈ accepted ↔ cmd ∈ accepted'
  := by
  have hcmd : cmd ∈ considered resourceValues cmds := by simp [horder]
  have hcmd' : cmd ∈ considered resourceValues' cmds' := by simp [horder']
  obtain ⟨sorted, -, hcommands, hentries, -, rfl, -⟩ := arbitrateCommands_spec h
  obtain ⟨sorted', -, hcommands', hentries', -, rfl, -⟩ := arbitrateCommands_spec h'
  rw [mem_free_append_iff hcmd, mem_free_append_iff hcmd']
  have hsorted := considered_nodup resourceValues hnodup
  have hsorted' := considered_nodup resourceValues' hnodup'
  rw [← hcommands] at hsorted
  rw [← hcommands'] at hsorted'
  rw [horder] at hcommands
  rw [horder'] at hcommands'
  obtain ⟨first, rest, rfl, hfirst, hrest⟩ := List.map_eq_append_iff.mp hcommands
  obtain ⟨entry, last, rfl, rfl, -⟩ := List.map_eq_cons_iff.mp hrest
  obtain ⟨first', rest', rfl, hfirst', hrest'⟩ := List.map_eq_append_iff.mp hcommands'
  obtain ⟨entry', last', rfl, hentry', -⟩ := List.map_eq_cons_iff.mp hrest'
  have hmem : ∀ e ∈ first ++ [entry], e ∈ first ++ entry :: last := by
    intro e he
    rw [List.append_cons]
    apply List.mem_append_left _ he
  have hmem' : ∀ e ∈ first' ++ [entry'], e ∈ first' ++ entry' :: last' := by
    intro e he
    rw [List.append_cons]
    apply List.mem_append_left _ he
  have hentry₁ : ∀ e ∈ first ++ [entry], IsEntry a.resourceHierarchy depth resourceValues e :=
    fun e he => hentries e (hmem e he)
  have hentry₂ : ∀ e ∈ first' ++ [entry'],
      IsEntry a.resourceHierarchy depth' resourceValues' e := by
    intro e he
    rw [hhierarchy]
    apply hentries' e (hmem' e he)
  have hsame : first ++ [entry] = first' ++ [entry'] := by
    apply IsEntry.unique_list hentry₁ hentry₂
    · simp [hfirst, hfirst', hentry']
    · simpa [hfirst] using hvalues
  obtain ⟨rfl, hlast⟩ := List.append_inj' hsame rfl
  obtain rfl : entry = entry' := by simpa using hlast
  apply arbitrateEntries_fate (mem_requested (first ++ [entry])) hsorted hsorted' hhierarchy
  apply initialEstimates_eqOn hallocated _ hmem hmem'

/-- Without a command which is rejected, the arbitration has the same outcome for the
others. -/
theorem arbitrateCommands_filter {a a' : ResourceArbiter C} {depth : Nat}
    {resourceValues : C → List ResourceValue} {cmds accepted rejected : List C}
    (h : a.arbitrateCommands depth resourceValues cmds = some (a', accepted, rejected))
    {cmd : C} (hcmd : cmd ∉ accepted) :
  a.arbitrateCommands depth resourceValues (cmds.filter fun c => c ≠ cmd)
    = some (a', accepted, rejected.filter fun c => c ≠ cmd)
  := by
  obtain ⟨sorted, hpartition, -, -, rfl, rfl, rfl⟩ := arbitrateCommands_spec h
  obtain ⟨hfree, hloop⟩ := not_or.mp (mt List.mem_append.mpr hcmd)
  have hsame : (cmds.filter fun c => (resourceValues c).isEmpty).filter (fun c => c ≠ cmd)
      = cmds.filter fun c => (resourceValues c).isEmpty := by
    apply List.filter_eq_self.mpr
    intro c hc
    simp only [ne_eq, decide_eq_true_eq]
    rintro rfl
    apply hfree hc
  have hmem : ∀ entry ∈ sorted.filter fun entry => entry.command ≠ cmd, entry ∈ sorted :=
    fun entry hentry => List.mem_of_mem_filter hentry
  have hloops := arbitrateEntries_congr (mem_requested _)
    (initialEstimates_eqOn (a := a) (b := a) rfl _ (fun _ hentry => hentry) hmem) a
  rw [arbitrateCommands, partitionCommands_filter cmd hpartition, hsame, Option.map_some]
  simp only [optimalResourceArbitration]
  rw [hloops, arbitrateEntries_filter cmd hloop]

/-! ### The outcome of an arbitration -/

/-- An arbitration within a recursion depth returns and partitions the commands; the
commands without requests are accepted; what becomes of a command is the same in every
arbitration from the same hierarchy and amounts in which the same commands with the same
requests are considered before it; and without a rejected command the arbitration has the
same outcome. -/
structure FairOutcome (a : ResourceArbiter C) (resourceValues : C → List ResourceValue)
    (cmds : List C) (depth : Nat) (a' : ResourceArbiter C) (accepted rejected : List C) :
    Prop where
  returns : a.arbitrateCommands depth resourceValues cmds = some (a', accepted, rejected)
  partition : (accepted ++ rejected).Perm cmds
  disjoint : accepted.Disjoint rejected
  free : ∀ cmd ∈ cmds, resourceValues cmd = [] → cmd ∈ accepted
  noninterference : ∀ (b b' : ResourceArbiter C) (depth' : Nat)
    (resourceValues' : C → List ResourceValue) (cmds' accepted' rejected' : List C),
    a.resourceHierarchy = b.resourceHierarchy → a.allocated = b.allocated → cmds'.Nodup →
    b.arbitrateCommands depth' resourceValues' cmds' = some (b', accepted', rejected') →
    ∀ (before after after' : List C) (cmd : C),
    considered resourceValues cmds = before ++ cmd :: after →
    considered resourceValues' cmds' = before ++ cmd :: after' →
    (∀ c ∈ before ++ [cmd], resourceValues c = resourceValues' c) →
    (cmd ∈ accepted ↔ cmd ∈ accepted')
  noTrace : ∀ cmd ∈ rejected,
    a.arbitrateCommands depth resourceValues (cmds.filter fun c => c ≠ cmd)
      = some (a', accepted, rejected.filter fun c => c ≠ cmd)

/-- An arbitration of different commands which returns is fair. -/
theorem fairOutcome_of_returns {a a' : ResourceArbiter C} {depth : Nat}
    {resourceValues : C → List ResourceValue} {cmds accepted rejected : List C}
    (hnodup : cmds.Nodup)
    (h : a.arbitrateCommands depth resourceValues cmds = some (a', accepted, rejected)) :
  a.FairOutcome resourceValues cmds depth a' accepted rejected
  := by
  have hperm := arbitrateCommands_perm h
  have hdisjoint := (List.nodup_append'.mp (hperm.nodup_iff.mpr hnodup)).2.2
  constructor
  · exact h
  · exact hperm
  · exact hdisjoint
  · intro cmd hcmd hfree
    obtain ⟨sorted, -, -, -, -, rfl, -⟩ := arbitrateCommands_spec h
    apply List.mem_append_left
    rw [List.mem_filter, hfree]
    exact ⟨hcmd, rfl⟩
  · intro b b' depth' resourceValues' cmds' accepted' rejected' hhierarchy hallocated hnodup' h'
      before after after' cmd horder horder' hvalues
    exact arbitrateCommands_fate hhierarchy hallocated hnodup hnodup' h h' horder horder' hvalues
  · intro cmd hcmd
    apply arbitrateCommands_filter h
    exact fun hmem => hdisjoint hmem hcmd

/-- The arbitration of different commands has a fair outcome exactly when no cycle of the
hierarchy can be reached from a requested resource. -/
theorem fairOutcome_iff (a : ResourceArbiter C) (resourceValues : C → List ResourceValue)
    {cmds : List C} (hnodup : cmds.Nodup) :
  (∃ depth a' accepted rejected, a.FairOutcome resourceValues cmds depth a' accepted rejected)
    ↔ ∀ cmd ∈ cmds, ∀ request ∈ resourceValues cmd,
      Descent.NoCycle (IsChild a.resourceHierarchy) request.name
  := by
  constructor
  · rintro ⟨depth, a', accepted, rejected, h⟩ cmd hcmd
    have hsome := (a.arbitrateCommands_isSome_iff depth resourceValues cmds).mp
      (Option.isSome_iff_exists.mpr ⟨_, h.returns⟩) cmd hcmd
    rw [← resourcesNeeded_returns_iff]
    obtain ⟨resources, hresources⟩ := Option.isSome_iff_exists.mp hsome
    exact ⟨depth, resources, hresources⟩
  · intro h
    have hdepths : ∀ cmd ∈ cmds, ∃ depth,
        (resourcesNeeded a.resourceHierarchy depth (resourceValues cmd)).isSome := by
      intro cmd hcmd
      obtain ⟨depth, resources, hresources⟩ := (resourcesNeeded_returns_iff _ _).mpr (h cmd hcmd)
      exact ⟨depth, Option.isSome_iff_exists.mpr ⟨resources, hresources⟩⟩
    obtain ⟨depth, hdepth⟩ := Descent.exists_depth (fun cmd depth depth' hle hsome => by
      obtain ⟨resources, hresources⟩ := Option.isSome_iff_exists.mp hsome
      exact Option.isSome_iff_exists.mpr ⟨resources, resourcesNeeded_mono hle hresources⟩) hdepths
    obtain ⟨⟨a', accepted, rejected⟩, hreturns⟩ := Option.isSome_iff_exists.mp
      ((a.arbitrateCommands_isSome_iff depth resourceValues cmds).mpr hdepth)
    exact ⟨depth, a', accepted, rejected, fairOutcome_of_returns hnodup hreturns⟩

/-- Two commands which both request all of the memory. -/
theorem fairOutcome_iff_two :
  [0, 1].Nodup ∧
    ((∃ depth a' accepted rejected, (start ∅ : ResourceArbiter Nat).FairOutcome
        (fun _ => [⟨"memory", 1, 0, true⟩]) [0, 1] depth a' accepted rejected)
      ↔ ∀ cmd ∈ [0, 1], ∀ request ∈ (fun _ : Nat => [(⟨"memory", 1, 0, true⟩ : ResourceValue)]) cmd,
        Descent.NoCycle (IsChild (start ∅ : ResourceArbiter Nat).resourceHierarchy) request.name)
  := ⟨by decide, fairOutcome_iff _ _ (by decide)⟩

/-- The arbitration of a request for a resource which is its own child has no outcome. -/
theorem cyclicHierarchy_not_fair :
  ¬ ∀ (a : ResourceArbiter Nat) (resourceValues : Nat → List ResourceValue) (cmds : List Nat),
    cmds.Nodup →
    ∃ depth a' accepted rejected, a.FairOutcome resourceValues cmds depth a' accepted rejected
  := by
  intro h
  obtain ⟨depth, a', accepted, rejected, hfair⟩ :=
    h (start cyclicHierarchy) (fun _ => [⟨"A", 1, 0, true⟩]) [0] (by decide)
  have hsome := ((start cyclicHierarchy).arbitrateCommands_isSome_iff depth _ [0]).mp
    (Option.isSome_iff_exists.mpr ⟨_, hfair.returns⟩) 0 List.mem_cons_self
  obtain ⟨resources, hresources⟩ := Option.isSome_iff_exists.mp hsome
  have hcycle := (resourcesNeeded_returns_iff _ _).mp ⟨depth, resources, hresources⟩
  apply hcycle _ List.mem_cons_self "A" Relation.ReflTransGen.refl
  apply Relation.TransGen.single
  apply cyclicHierarchy_self

/-! ### The choice among the commands -/

/-- What a command requires of a resource. -/
def need (a : ResourceArbiter C) (depth : Nat) (resourceValues : C → List ResourceValue)
    (r : ResourceName) (cmd : C) : ℚ :=
  match resourcesNeeded a.resourceHierarchy depth (resourceValues cmd) with
  | some resources => weightOn r resources.entries
  | none => 0

/-- Whatever part of the chosen commands runs, every resource is in bounds. -/
def Safe (a : ResourceArbiter C) (need : ResourceName → C → ℚ) (choice : List C) : Prop :=
  ∀ part : List C, part.Sublist choice → ∀ r,
    0 ≤ a.allocated r + (part.map (need r)).sum ∧
      a.allocated r + (part.map (need r)).sum ≤ a.maxConsumableResourceValue r

section

omit [DecidableEq C]

end

end ResourceArbiter

end Plexil
