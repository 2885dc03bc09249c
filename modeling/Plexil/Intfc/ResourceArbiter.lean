import Mathlib.Data.List.AList
import Mathlib.Data.List.Sort
import Mathlib.Data.Rat.Defs
import Mathlib.Algebra.Order.Ring.Rat
import Mathlib.Data.String.Basic

/-!
# The resource arbiter

The command resource arbiter, `ResourceArbiterImpl`.  Amounts are exact rationals in
place of the `double`s of the source.  A command is an element of a type `C` which
stands for the `CommandImpl` pointers; the resource values fixed for it are given by a
function of the command.  The expansion of a request through the resource hierarchy
recurses without bound when the hierarchy has a cycle, so it takes a recursion depth as
its first argument and has no result when the depth is exceeded.
-/

namespace Plexil

abbrev ResourceName := String

/-- A resource request fixed for a command. -/
structure ResourceValue where
  name : ResourceName
  upperBound : ℚ
  priority : Int
  releaseAtTermination : Bool

/-- A resource with its weight: a child in the hierarchy, or a requirement of a command. -/
structure ChildResourceNode where
  name : ResourceName
  weight : ℚ
  release : Bool

/-- A resource of the hierarchy. -/
structure ResourceNode where
  children : List ChildResourceNode
  maxConsumableValue : ℚ

/-- The known resources, by name. -/
abbrev ResourceHierarchyMap := AList fun _ : ResourceName => ResourceNode

/-! ### Resource sets -/

/-- A `std::set` of resources, which is ordered by the names. -/
structure ResourceSet where
  entries : List ChildResourceNode
  sorted : entries.Pairwise fun x y => x.name < y.name

namespace ResourceSet

instance : EmptyCollection ResourceSet := ⟨⟨[], .nil⟩⟩

/-- The names in a list of resources. -/
def names (l : List ChildResourceNode) : List ResourceName :=
  l.map ChildResourceNode.name

/-- Insertion in order; a resource of a name which is present is not inserted. -/
def insertEntry (res : ChildResourceNode) : List ChildResourceNode → List ChildResourceNode
  | [] => [res]
  | r :: rs =>
    if res.name < r.name then res :: r :: rs
    else if r.name < res.name then r :: insertEntry res rs
    else r :: rs

theorem mem_insertEntry {res x : ChildResourceNode} {l : List ChildResourceNode}
    (h : x ∈ insertEntry res l) :
  x = res ∨ x ∈ l
  := by
  fun_induction insertEntry res l with
  | case1 => simpa using h
  | case2 r rs _ => simpa using h
  | case3 r rs _ _ ih =>
    obtain rfl | h := List.mem_cons.mp h
    · simp
    · have := ih h
      simp only [List.mem_cons]
      tauto
  | case4 r rs _ _ => exact .inr h

theorem insertEntry_sorted {res : ChildResourceNode} {l : List ChildResourceNode}
    (h : l.Pairwise fun x y => x.name < y.name) :
  (insertEntry res l).Pairwise fun x y => x.name < y.name
  := by
  fun_induction insertEntry res l with
  | case1 => simp
  | case2 r rs hlt =>
    refine List.pairwise_cons.mpr ⟨fun x hx => ?_, h⟩
    obtain rfl | hx := List.mem_cons.mp hx
    · exact hlt
    · exact hlt.trans ((List.pairwise_cons.mp h).1 x hx)
  | case3 r rs _ hlt ih =>
    obtain ⟨hr, hrs⟩ := List.pairwise_cons.mp h
    refine List.pairwise_cons.mpr ⟨fun x hx => ?_, ih hrs⟩
    obtain rfl | hx := mem_insertEntry hx
    · exact hlt
    · exact hr x hx
  | case4 r rs _ _ => exact h

/-- Insertion in a set. -/
def insert (res : ChildResourceNode) (s : ResourceSet) : ResourceSet :=
  ⟨insertEntry res s.entries, insertEntry_sorted s.sorted⟩

/-- Whether a set has an element equivalent to `res`, that is, of the same name. -/
def contains (s : ResourceSet) (res : ChildResourceNode) : Bool :=
  s.entries.any fun r => r.name = res.name

end ResourceSet

/-! ### Requests of a command -/

/-- The descendants of a resource and their weights, in the order of a depth-first
walk.  There is none when the walk goes deeper than the first argument. -/
def determineChildResources (resourceHierarchy : ResourceHierarchyMap) :
    Nat → ResourceName → Bool → Option (List ChildResourceNode)
  | 0, _, _ => none
  | depth + 1, resName, release =>
    match resourceHierarchy.lookup resName with
    | none => some []
    | some node =>
      (node.children.mapM fun child =>
        (determineChildResources resourceHierarchy depth child.name release).map
          fun descendants => ⟨child.name, child.weight, release⟩ :: descendants).map
            List.flatten

/-- Adds a resource of the flattened structure to the resources needed. -/
def addFlattened (request : ResourceValue) (resourcesNeeded : ResourceSet)
    (fres : ChildResourceNode) : ResourceSet :=
  if resourcesNeeded.contains fres = false then resourcesNeeded.insert fres
  else if fres.name = request.name then resourcesNeeded.insert fres
  else resourcesNeeded

/-- Adds a request and the descendants of the requested resource to the resources
needed by a command. -/
def determineAllChildResources (resourceHierarchy : ResourceHierarchyMap) (depth : Nat)
    (resourcesNeeded : ResourceSet) (request : ResourceValue) : Option ResourceSet :=
  (determineChildResources resourceHierarchy depth request.name
    request.releaseAtTermination).map fun descendants =>
      let flattenedRes :=
        ⟨request.name, request.upperBound, request.releaseAtTermination⟩ :: descendants
      flattenedRes.foldl (addFlattened request) resourcesNeeded

/-- A command in contention: its priority and the resources it requires. -/
structure CommandPriorityEntry (C : Type) where
  resources : ResourceSet
  command : C
  priority : Int

variable {C : Type}

/-- The resources needed by a command with the requests `resList`. -/
def resourcesNeeded (resourceHierarchy : ResourceHierarchyMap) (depth : Nat)
    (resList : List ResourceValue) : Option ResourceSet :=
  resList.foldlM (determineAllChildResources resourceHierarchy depth) ∅

/-- The commands without requests, and the entries of those with requests, in the order
of the queue. -/
def collectCommands (resourceHierarchy : ResourceHierarchyMap) (depth : Nat)
    (resourceValues : C → List ResourceValue) :
    List C → Option (List C × List (CommandPriorityEntry C))
  | [] => some ([], [])
  | cmd :: cmds =>
    match resourceValues cmd with
    | [] =>
      (collectCommands resourceHierarchy depth resourceValues cmds).map
        fun (acceptCmds, entries) => (cmd :: acceptCmds, entries)
    | request :: requests =>
      (resourcesNeeded resourceHierarchy depth (request :: requests)).bind fun resources =>
        (collectCommands resourceHierarchy depth resourceValues cmds).map
          fun (acceptCmds, entries) =>
            (acceptCmds, ⟨resources, cmd, request.priority⟩ :: entries)

/-- Partition of the commands into those without requests and those with requests,
the latter sorted by their priority; entries of one priority stay in order. -/
def partitionCommands (resourceHierarchy : ResourceHierarchyMap) (depth : Nat)
    (resourceValues : C → List ResourceValue) (cmds : List C) :
    Option (List C × List (CommandPriorityEntry C)) :=
  (collectCommands resourceHierarchy depth resourceValues cmds).map
    fun (acceptCmds, entries) =>
      (acceptCmds, entries.insertionSort fun x y => x.priority ≤ y.priority)

/-! ### The arbiter -/

/-- The state of the arbiter.  A resource without an entry in `m_allocated` has the
amount 0 here. -/
structure ResourceArbiter (C : Type) where
  resourceHierarchy : ResourceHierarchyMap
  allocated : ResourceName → ℚ
  cmdResMap : AList fun _ : C => ResourceSet

/-- The estimated usage of a resource. -/
structure ResourceEstimate where
  renewable : ℚ
  consumable : ℚ

/-- Estimates by resource name; the entry of a new name is `ResourceEstimate()`. -/
abbrev EstimateMap := ResourceName → ResourceEstimate

namespace ResourceArbiter

/-- An arbiter which has not arbitrated yet. -/
def start (resourceHierarchy : ResourceHierarchyMap) : ResourceArbiter C :=
  ⟨resourceHierarchy, fun _ => 0, ∅⟩

/-- The available amount of a resource. -/
def maxConsumableResourceValue (a : ResourceArbiter C) (resName : ResourceName) : ℚ :=
  match a.resourceHierarchy.lookup resName with
  | some node => node.maxConsumableValue
  | none => 1

/-- The estimates before arbitration: what is allocated of each requested resource. -/
def initialEstimates (a : ResourceArbiter C)
    (sortedCommands : List (CommandPriorityEntry C)) : EstimateMap :=
  (sortedCommands.flatMap fun entry => entry.resources.entries).foldl
    (fun estimates res =>
      Function.update estimates res.name ⟨a.allocated res.name, a.allocated res.name⟩)
    fun _ => ⟨0, 0⟩

/-- The estimate of a resource once the request `res` for it is added. -/
def addRequest (res : ChildResourceNode) (est : ResourceEstimate) : ResourceEstimate :=
  if res.weight < 0 then { est with renewable := est.renewable + res.weight }
  else { est with consumable := est.consumable + res.weight }

/-- Adds requests to the estimates.  There is no result when a request takes an estimate
out of its limits. -/
def considerRequests (a : ResourceArbiter C) :
    List ChildResourceNode → EstimateMap → Option EstimateMap
  | [], estimates => some estimates
  | res :: requests, estimates =>
    let est := addRequest res (estimates res.name)
    let resMax := a.maxConsumableResourceValue res.name
    if est.renewable < 0 ∨ est.renewable > resMax then none
    else if est.consumable < 0 ∨ est.consumable > resMax then none
    else a.considerRequests requests (Function.update estimates res.name est)

/-- The amounts allocated once the requests are added. -/
def allocate (requests : List ChildResourceNode) (allocated : ResourceName → ℚ) :
    ResourceName → ℚ :=
  requests.foldl
    (fun allocated res => Function.update allocated res.name (allocated res.name + res.weight))
    allocated

/-- The arbiter after it has accepted the command of an entry. -/
def accept [DecidableEq C] (a : ResourceArbiter C) (entry : CommandPriorityEntry C) :
    ResourceArbiter C :=
  { a with
    allocated := allocate entry.resources.entries a.allocated
    cmdResMap := a.cmdResMap.insert entry.command entry.resources }

/-- Evaluates the entries in order; gives the commands accepted and rejected. -/
def arbitrateEntries [DecidableEq C] :
    List (CommandPriorityEntry C) → EstimateMap → ResourceArbiter C →
    ResourceArbiter C × List C × List C
  | [], _, a => (a, [], [])
  | entry :: entries, estimates, a =>
    match a.considerRequests entry.resources.entries estimates with
    | none =>
      let (a', acceptCmds, rejectCmds) := arbitrateEntries entries estimates a
      (a', acceptCmds, entry.command :: rejectCmds)
    | some estimates' =>
      let (a', acceptCmds, rejectCmds) := arbitrateEntries entries estimates' (a.accept entry)
      (a', entry.command :: acceptCmds, rejectCmds)

/-- Arbitration among commands with requests, sorted by priority. -/
def optimalResourceArbitration [DecidableEq C] (a : ResourceArbiter C)
    (sortedCommands : List (CommandPriorityEntry C)) :
    ResourceArbiter C × List C × List C :=
  arbitrateEntries sortedCommands (a.initialEstimates sortedCommands) a

/-- Partitions the commands into accepted and rejected ones. -/
def arbitrateCommands [DecidableEq C] (a : ResourceArbiter C) (depth : Nat)
    (resourceValues : C → List ResourceValue) (cmds : List C) :
    Option (ResourceArbiter C × List C × List C) :=
  (partitionCommands a.resourceHierarchy depth resourceValues cmds).map
    fun (acceptCmds, sortedCommands) =>
      let (a', accepted, rejectCmds) := a.optimalResourceArbitration sortedCommands
      (a', acceptCmds ++ accepted, rejectCmds)

/-- The amounts allocated once the releasable ones of the resources are given back. -/
def deallocate (resources : List ChildResourceNode) (allocated : ResourceName → ℚ) :
    ResourceName → ℚ :=
  resources.foldl
    (fun allocated res =>
      if res.release then
        Function.update allocated res.name (allocated res.name - res.weight)
      else allocated)
    allocated

/-- Releases the resources reserved by a command, if any. -/
def releaseResourcesForCommand [DecidableEq C] (a : ResourceArbiter C) (cmd : C) :
    ResourceArbiter C :=
  match a.cmdResMap.lookup cmd with
  | none => a
  | some resources =>
    { a with
      allocated := deallocate resources.entries a.allocated
      cmdResMap := a.cmdResMap.erase cmd }

end ResourceArbiter

/-! ### Calls of the arbiter -/

/-- A call of the arbiter; the resource values are those fixed for the commands at the
time of the call. -/
inductive ArbiterCall (C : Type) where
  | arbitrateCommands (resourceValues : C → List ResourceValue) (cmds : List C)
  | releaseResourcesForCommand (cmd : C)

/-- The arbiter after a call, when the call returns within the recursion depth. -/
def ResourceArbiter.call [DecidableEq C] (depth : Nat) (a : ResourceArbiter C) :
    ArbiterCall C → Option (ResourceArbiter C)
  | .arbitrateCommands resourceValues cmds =>
    (a.arbitrateCommands depth resourceValues cmds).map Prod.fst
  | .releaseResourcesForCommand cmd => some (a.releaseResourcesForCommand cmd)

/-! ### Each command is accepted or rejected -/

/-- The commands with and without requests are all commands. -/
theorem collectCommands_perm {resourceHierarchy : ResourceHierarchyMap} {depth : Nat}
    {resourceValues : C → List ResourceValue} {cmds acceptCmds : List C}
    {entries : List (CommandPriorityEntry C)}
    (h : collectCommands resourceHierarchy depth resourceValues cmds = some (acceptCmds, entries)) :
  (acceptCmds ++ entries.map CommandPriorityEntry.command).Perm cmds
  := by
  induction cmds generalizing acceptCmds entries with
  | nil =>
    cases h
    exact .refl _
  | cons cmd cmds ih =>
    unfold collectCommands at h
    split at h
    · obtain ⟨⟨acceptCmds, entries⟩, hrest, heq⟩ := Option.map_eq_some_iff.mp h
      cases heq
      exact (ih hrest).cons cmd
    · obtain ⟨resources, -, h⟩ := Option.bind_eq_some_iff.mp h
      obtain ⟨⟨acceptCmds, entries⟩, hrest, heq⟩ := Option.map_eq_some_iff.mp h
      cases heq
      rw [List.map_cons]
      exact List.perm_middle.trans ((ih hrest).cons cmd)

theorem partitionCommands_perm {resourceHierarchy : ResourceHierarchyMap} {depth : Nat}
    {resourceValues : C → List ResourceValue} {cmds acceptCmds : List C}
    {entries : List (CommandPriorityEntry C)}
    (h : partitionCommands resourceHierarchy depth resourceValues cmds
      = some (acceptCmds, entries)) :
  (acceptCmds ++ entries.map CommandPriorityEntry.command).Perm cmds
  := by
  obtain ⟨⟨acceptCmds', collected⟩, hcollect, heq⟩ := Option.map_eq_some_iff.mp h
  cases heq
  apply List.Perm.trans _ (collectCommands_perm hcollect)
  apply List.Perm.append_left
  apply List.Perm.map
  apply List.perm_insertionSort

namespace ResourceArbiter

variable [DecidableEq C]

/-- Each entry is accepted or rejected. -/
theorem arbitrateEntries_perm (entries : List (CommandPriorityEntry C)) (estimates : EstimateMap)
    (a : ResourceArbiter C) :
  ((arbitrateEntries entries estimates a).2.1 ++ (arbitrateEntries entries estimates a).2.2).Perm
    (entries.map CommandPriorityEntry.command)
  := by
  induction entries generalizing estimates a with
  | nil => exact .refl _
  | cons entry entries ih =>
    unfold arbitrateEntries
    split
    · exact List.perm_middle.trans ((ih estimates a).cons entry.command)
    · rename_i estimates' _
      exact (ih estimates' (a.accept entry)).cons entry.command

/-- Arbitration partitions the commands into accepted and rejected ones. -/
theorem arbitrateCommands_perm {a a' : ResourceArbiter C} {depth : Nat}
    {resourceValues : C → List ResourceValue} {cmds accepted rejected : List C}
    (h : a.arbitrateCommands depth resourceValues cmds = some (a', accepted, rejected)) :
  (accepted ++ rejected).Perm cmds
  := by
  obtain ⟨⟨acceptCmds, sortedCommands⟩, hpartition, heq⟩ := Option.map_eq_some_iff.mp h
  cases heq
  rw [List.append_assoc]
  apply List.Perm.trans _ (partitionCommands_perm hpartition)
  apply List.Perm.append_left
  apply arbitrateEntries_perm

end ResourceArbiter

end Plexil
