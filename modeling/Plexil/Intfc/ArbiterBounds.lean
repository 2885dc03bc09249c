import Plexil.Intfc.ResourceArbiter
import Plexil.Util.StateMachine
import Mathlib.Algebra.Order.BigOperators.Group.List
import Mathlib.Tactic.Linarith
import Mathlib.Tactic.Ring

/-!
# The bounds of the resource arbiter

A resource is in bounds when the amount allocated of it is between 0 and its maximum.
Arbitration keeps every resource in bounds: the renewable estimate of a resource is at
most the amount allocated and the consumable estimate is at least that amount, and a
command is accepted only when both estimates are in bounds.  A release keeps the bounds
exactly when what is given back fits; this is not checked by the source.
-/

namespace Plexil

variable {C : Type}

namespace ResourceArbiter

/-- Every resource is in bounds. -/
def InBounds (a : ResourceArbiter C) : Prop :=
  ∀ r, 0 ≤ a.allocated r ∧ a.allocated r ≤ a.maxConsumableResourceValue r

/-! ### Requests and reservations -/

/-- The amount `amount` is between the two estimates of a resource. -/
def Brackets (est : ResourceEstimate) (amount : ℚ) : Prop :=
  est.renewable ≤ amount ∧ amount ≤ est.consumable

theorem addRequest_brackets {est : ResourceEstimate} {amount : ℚ} (res : ChildResourceNode)
    (h : Brackets est amount) :
  Brackets (addRequest res est) (amount + res.weight)
  := by
  obtain ⟨hlow, hhigh⟩ := h
  unfold addRequest Brackets
  split
  · exact ⟨by simpa using hlow, by linarith⟩
  · exact ⟨by linarith, by simpa using hhigh⟩

/-- The requests which are accepted keep the estimates of the prepared resources around
the allocated amounts, and all resources in bounds. -/
theorem considerRequests_spec (a : ResourceArbiter C) (prepared : ResourceName → Prop)
    {requests : List ChildResourceNode} {estimates estimates' : EstimateMap}
    {allocated : ResourceName → ℚ}
    (hrequests : ∀ res ∈ requests, prepared res.name)
    (hbrackets : ∀ r, prepared r → Brackets (estimates r) (allocated r))
    (hbounds : ∀ r, 0 ≤ allocated r ∧ allocated r ≤ a.maxConsumableResourceValue r)
    (h : a.considerRequests requests estimates = some estimates') :
  (∀ r, prepared r → Brackets (estimates' r) (allocate requests allocated r)) ∧
    ∀ r, 0 ≤ allocate requests allocated r ∧
      allocate requests allocated r ≤ a.maxConsumableResourceValue r
  := by
  induction requests generalizing estimates allocated with
  | nil =>
    cases h
    exact ⟨hbrackets, hbounds⟩
  | cons res requests ih =>
    simp only [considerRequests] at h
    have hres := addRequest_brackets res (hbrackets res.name (hrequests res (by simp)))
    split at h
    · cases h
    split at h
    · cases h
    rename_i hrenewable hconsumable
    push Not at hrenewable hconsumable
    refine ih (fun x hx => hrequests x (by simp [hx])) (fun r hr => ?_) (fun r => ?_) h
    · by_cases hname : r = res.name
      · subst hname
        simpa using hres
      · simpa [hname] using hbrackets r hr
    · by_cases hname : r = res.name
      · subst hname
        simp only [Function.update_self]
        exact ⟨hrenewable.1.trans hres.1, hres.2.trans hconsumable.2⟩
      · simpa [hname] using hbounds r

theorem foldl_update_of_mem {β : Type} (f : ResourceName → β) {r : ResourceName}
    (l : List ChildResourceNode) (g : ResourceName → β)
    (h : r ∈ ResourceSet.names l ∨ g r = f r) :
  l.foldl (fun g res => Function.update g res.name (f res.name)) g r = f r
  := by
  induction l generalizing g with
  | nil => simpa [ResourceSet.names] using h
  | cons res l ih =>
    apply ih
    by_cases hname : r = res.name
    · subst hname
      simp
    · simpa [ResourceSet.names, hname] using h

/-- The estimates of the requested resources start at the allocated amounts. -/
theorem initialEstimates_of_mem (a : ResourceArbiter C)
    {sortedCommands : List (CommandPriorityEntry C)} {entry : CommandPriorityEntry C}
    (hentry : entry ∈ sortedCommands) {res : ChildResourceNode}
    (hres : res ∈ entry.resources.entries) :
  a.initialEstimates sortedCommands res.name
    = ⟨a.allocated res.name, a.allocated res.name⟩
  := by
  have hname : res.name ∈ ResourceSet.names
      (sortedCommands.flatMap fun entry => entry.resources.entries) :=
    List.mem_map.mpr ⟨res, List.mem_flatMap.mpr ⟨entry, hentry, hres⟩, rfl⟩
  exact foldl_update_of_mem (fun r => (⟨a.allocated r, a.allocated r⟩ : ResourceEstimate))
    _ _ (.inl hname)

theorem deallocate_of_notMem {resources : List ChildResourceNode}
    {allocated : ResourceName → ℚ} {r : ResourceName}
    (h : ∀ res ∈ resources, res.release = true → res.name ≠ r) :
  deallocate resources allocated r = allocated r
  := by
  induction resources generalizing allocated with
  | nil => rfl
  | cons res resources ih =>
    rw [deallocate, List.foldl_cons, ← deallocate]
    rw [ih fun x hx => h x (by simp [hx])]
    split
    · rename_i hrelease
      exact Function.update_of_ne (h res (by simp) hrelease).symm ..
    · rfl

/-- Each releasable resource of a set is given back once. -/
theorem deallocate_of_mem {resources : List ChildResourceNode}
    (hsorted : resources.Pairwise fun x y => x.name < y.name)
    {allocated : ResourceName → ℚ} {res : ChildResourceNode}
    (hres : res ∈ resources) (hrelease : res.release = true) :
  deallocate resources allocated res.name = allocated res.name - res.weight
  := by
  induction resources generalizing allocated with
  | nil => cases hres
  | cons x resources ih =>
    obtain ⟨hx, hsorted⟩ := List.pairwise_cons.mp hsorted
    rw [deallocate, List.foldl_cons, ← deallocate]
    obtain rfl | hres := List.mem_cons.mp hres
    · rw [deallocate_of_notMem fun y hy _ => (hx y hy).ne', if_pos hrelease]
      simp
    · rw [ih hsorted hres]
      split
      · rw [Function.update_of_ne (hx res hres).ne']
      · rfl

/-- What is left after a release is in bounds exactly when what is given back fits. -/
theorem deallocate_inBounds_iff {a : ResourceArbiter C} (h : a.InBounds)
    (resources : ResourceSet) :
  (∀ r, 0 ≤ deallocate resources.entries a.allocated r ∧
      deallocate resources.entries a.allocated r ≤ a.maxConsumableResourceValue r)
    ↔ ∀ res ∈ resources.entries, res.release = true →
      (0 ≤ res.weight → res.weight ≤ a.allocated res.name) ∧
      (res.weight < 0 →
        a.allocated res.name + |res.weight| ≤ a.maxConsumableResourceValue res.name)
  := by
  constructor
  · intro hbounds res hres hrelease
    have hres' := hbounds res.name
    rw [deallocate_of_mem resources.sorted hres hrelease] at hres'
    refine ⟨fun _ => by linarith [hres'.1], fun hneg => ?_⟩
    rw [abs_of_neg hneg]
    linarith [hres'.2]
  · intro hfits r
    by_cases hr : ∃ res ∈ resources.entries, res.release = true ∧ res.name = r
    · obtain ⟨res, hres, hrelease, rfl⟩ := hr
      obtain ⟨hpos, hneg⟩ := hfits res hres hrelease
      obtain ⟨hlow, hhigh⟩ := h res.name
      rw [deallocate_of_mem resources.sorted hres hrelease]
      rcases le_or_gt 0 res.weight with hw | hw
      · exact ⟨by linarith [hpos hw], by linarith⟩
      · have := hneg hw
        rw [abs_of_neg hw] at this
        exact ⟨by linarith, by linarith⟩
    · push Not at hr
      rw [deallocate_of_notMem hr]
      exact h r

variable [DecidableEq C]

/-! ### Arbitration -/

/-- The loop over the entries keeps every resource in bounds. -/
theorem arbitrateEntries_inBounds (prepared : ResourceName → Prop)
    {entries : List (CommandPriorityEntry C)} {estimates : EstimateMap}
    {a : ResourceArbiter C}
    (hentries : ∀ entry ∈ entries, ∀ res ∈ entry.resources.entries, prepared res.name)
    (hbrackets : ∀ r, prepared r → Brackets (estimates r) (a.allocated r))
    (hbounds : a.InBounds) :
  (arbitrateEntries entries estimates a).1.InBounds
  := by
  induction entries generalizing estimates a with
  | nil => exact hbounds
  | cons entry entries ih =>
    have hrest : ∀ e ∈ entries, ∀ res ∈ e.resources.entries, prepared res.name :=
      fun e he => hentries e (by simp [he])
    simp only [arbitrateEntries]
    split
    · exact ih hrest hbrackets hbounds
    · rename_i estimates' h
      obtain ⟨hbrackets', hbounds'⟩ := considerRequests_spec a prepared
        (hentries entry (by simp)) hbrackets hbounds h
      exact ih hrest hbrackets' hbounds'

theorem arbitrateCommands_inBounds {a : ResourceArbiter C} (h : a.InBounds) {depth : Nat}
    {resourceValues : C → List ResourceValue} {cmds : List C}
    {result : ResourceArbiter C × List C × List C}
    (hresult : a.arbitrateCommands depth resourceValues cmds = some result) :
  result.1.InBounds
  := by
  obtain ⟨⟨acceptCmds, sortedCommands⟩, -, rfl⟩ := Option.map_eq_some_iff.mp hresult
  let prepared := fun r => ∃ entry ∈ sortedCommands, ∃ res ∈ entry.resources.entries, res.name = r
  apply arbitrateEntries_inBounds prepared
  · exact fun entry hentry res hres => ⟨entry, hentry, res, hres, rfl⟩
  · rintro r ⟨entry, hentry, res, hres, rfl⟩
    rw [initialEstimates_of_mem a hentry hres]
    exact ⟨le_rfl, le_rfl⟩
  · exact h

/-! ### Release -/

/-- What a command gives back fits: a positive amount is still allocated, and giving
back a negative amount does not take the allocation over the maximum. -/
def ReleaseFits (a : ResourceArbiter C) (cmd : C) : Prop :=
  ∀ resources, a.cmdResMap.lookup cmd = some resources →
    ∀ res ∈ resources.entries, res.release = true →
      (0 ≤ res.weight → res.weight ≤ a.allocated res.name) ∧
      (res.weight < 0 →
        a.allocated res.name + |res.weight| ≤ a.maxConsumableResourceValue res.name)

/-- A release keeps the bounds exactly when what is given back fits. -/
theorem releaseResourcesForCommand_inBounds_iff {a : ResourceArbiter C} (h : a.InBounds)
    (cmd : C) :
  (a.releaseResourcesForCommand cmd).InBounds ↔ a.ReleaseFits cmd
  := by
  unfold releaseResourcesForCommand ReleaseFits
  cases a.cmdResMap.lookup cmd with
  | none => exact iff_of_true h (by simp)
  | some resources =>
    simp only [Option.some.injEq, forall_eq']
    exact deallocate_inBounds_iff h resources

/-! ### Requests which renew nothing -/

/-- The sum of the weights of the resource `r` in a list. -/
def weightOn (r : ResourceName) (resources : List ChildResourceNode) : ℚ :=
  (resources.map fun res => if res.name = r then res.weight else 0).sum

/-- The sum of all reservations of the resource `r`. -/
def reserved (r : ResourceName) (cmdResMap : AList fun _ : C => ResourceSet) : ℚ :=
  (cmdResMap.entries.map fun entry => weightOn r entry.2.entries).sum

/-- No weight of the set is negative. -/
def Nonrenewing (resources : ResourceSet) : Prop :=
  ∀ res ∈ resources.entries, 0 ≤ res.weight

/-- The reservations are nonnegative, and what is reserved of a resource is allocated. -/
structure Covers (a : ResourceArbiter C) : Prop where
  nonrenewing : ∀ entry ∈ a.cmdResMap.entries, Nonrenewing entry.2
  reserved_le : ∀ r, reserved r a.cmdResMap ≤ a.allocated r

omit [DecidableEq C] in
theorem Nonrenewing.weightOn_nonneg {resources : List ChildResourceNode}
    (h : ∀ res ∈ resources, 0 ≤ res.weight) (r : ResourceName) :
  0 ≤ weightOn r resources
  := by
  apply List.sum_nonneg
  intro x hx
  obtain ⟨res, hres, rfl⟩ := List.mem_map.mp hx
  split
  · exact h res hres
  · exact le_rfl

theorem allocate_eq (r : ResourceName) (requests : List ChildResourceNode)
    (allocated : ResourceName → ℚ) :
  allocate requests allocated r = allocated r + weightOn r requests
  := by
  induction requests generalizing allocated with
  | nil => simp [allocate, weightOn]
  | cons res requests ih =>
    rw [allocate, List.foldl_cons, ← allocate, ih]
    by_cases hname : r = res.name
    · subst hname
      simp [weightOn, add_assoc]
    · simp [weightOn, hname, Ne.symm hname]

/-- A release takes away at most the weights of the set. -/
theorem le_deallocate {resources : List ChildResourceNode}
    (h : ∀ res ∈ resources, 0 ≤ res.weight) (r : ResourceName)
    (allocated : ResourceName → ℚ) :
  allocated r - weightOn r resources ≤ deallocate resources allocated r
  := by
  induction resources generalizing allocated with
  | nil => simp [deallocate, weightOn]
  | cons res resources ih =>
    rw [deallocate, List.foldl_cons, ← deallocate]
    refine le_trans ?_ (ih (fun x hx => h x (by simp [hx])) _)
    have hres := h res (by simp)
    by_cases hname : r = res.name
    · subst hname
      split
      · simp [weightOn]
      · simp [weightOn]
        linarith
    · split <;> simp [weightOn, hname, Ne.symm hname]

theorem reserved_insert_le {cmdResMap : AList fun _ : C => ResourceSet}
    (h : ∀ entry ∈ cmdResMap.entries, Nonrenewing entry.2) (cmd : C)
    (resources : ResourceSet) (r : ResourceName) :
  reserved r (cmdResMap.insert cmd resources) ≤ weightOn r resources.entries + reserved r cmdResMap
  := by
  simp only [reserved, AList.entries_insert, List.map_cons, List.sum_cons]
  gcongr
  apply ((List.kerase_sublist cmd cmdResMap.entries).map _).sum_le_sum
  intro x hx
  obtain ⟨entry, hentry, rfl⟩ := List.mem_map.mp hx
  exact Nonrenewing.weightOn_nonneg (h entry hentry) r

theorem reserved_erase {cmdResMap : AList fun _ : C => ResourceSet} {cmd : C}
    {resources : ResourceSet} (h : cmdResMap.lookup cmd = some resources) (r : ResourceName) :
  reserved r cmdResMap = weightOn r resources.entries + reserved r (cmdResMap.erase cmd)
  := by
  have hmem : ⟨cmd, resources⟩ ∈ cmdResMap.entries := List.of_mem_dlookup h
  obtain ⟨b, l₁, l₂, hnotMem, hentries, hkerase⟩ :=
    List.exists_of_kerase (List.mem_keys_of_mem hmem)
  have hb : b = resources := by
    have : ⟨cmd, b⟩ ∈ cmdResMap.entries := by simp [hentries]
    exact cmdResMap.nodupKeys.eq_of_mk_mem this hmem
  subst hb
  have herase : (cmdResMap.erase cmd).entries = l₁ ++ l₂ := hkerase
  simp only [reserved, hentries, herase, List.map_append, List.map_cons, List.sum_append,
    List.sum_cons]
  ring

theorem accept_covers {a : ResourceArbiter C} (h : a.Covers)
    {entry : CommandPriorityEntry C} (hentry : Nonrenewing entry.resources) :
  (a.accept entry).Covers where
  nonrenewing := by
    intro e he
    simp only [accept, AList.entries_insert] at he
    obtain rfl | he := List.mem_cons.mp he
    · exact hentry
    · exact h.nonrenewing e ((List.kerase_sublist ..).mem he)
  reserved_le r := by
    have := reserved_insert_le h.nonrenewing entry.command entry.resources r
    have := h.reserved_le r
    simp only [accept, allocate_eq]
    linarith

theorem arbitrateEntries_covers {entries : List (CommandPriorityEntry C)}
    {estimates : EstimateMap} {a : ResourceArbiter C} (h : a.Covers)
    (hentries : ∀ entry ∈ entries, Nonrenewing entry.resources) :
  (arbitrateEntries entries estimates a).1.Covers
  := by
  induction entries generalizing estimates a with
  | nil => exact h
  | cons entry entries ih =>
    have hrest : ∀ e ∈ entries, Nonrenewing e.resources := fun e he => hentries e (by simp [he])
    simp only [arbitrateEntries]
    split
    · exact ih h hrest
    · exact ih (accept_covers h (hentries entry (by simp))) hrest

theorem releaseResourcesForCommand_covers {a : ResourceArbiter C} (h : a.Covers) (cmd : C) :
  (a.releaseResourcesForCommand cmd).Covers
  := by
  unfold releaseResourcesForCommand
  cases hlookup : a.cmdResMap.lookup cmd with
  | none => exact h
  | some resources =>
    have hresources : Nonrenewing resources :=
      h.nonrenewing ⟨cmd, resources⟩ (List.of_mem_dlookup hlookup)
    refine ⟨fun e he => h.nonrenewing e ((List.kerase_sublist ..).mem he), fun r => ?_⟩
    have := reserved_erase hlookup r
    have := h.reserved_le r
    have := le_deallocate hresources r a.allocated
    simp only
    linarith

/-- A release of nonnegative reservations which are all allocated fits. -/
theorem Covers.releaseFits {a : ResourceArbiter C} (h : a.Covers) (cmd : C) :
  a.ReleaseFits cmd
  := by
  intro resources hlookup res hres _
  have hresources := h.nonrenewing ⟨cmd, resources⟩ (List.of_mem_dlookup hlookup)
  refine ⟨fun _ => ?_, fun hneg => absurd (hresources res hres) (not_le.mpr hneg)⟩
  have hweight : res.weight ≤ weightOn res.name resources.entries := by
    apply List.single_le_sum
    · intro x hx
      obtain ⟨y, hy, rfl⟩ := List.mem_map.mp hx
      split
      · exact hresources y hy
      · exact le_rfl
    · exact List.mem_map.mpr ⟨res, hres, by simp⟩
  have hrest : 0 ≤ reserved res.name (a.cmdResMap.erase cmd) := by
    apply List.sum_nonneg
    intro x hx
    obtain ⟨entry, hentry, rfl⟩ := List.mem_map.mp hx
    exact Nonrenewing.weightOn_nonneg
      (h.nonrenewing entry ((List.kerase_sublist ..).mem hentry)) _
  have := reserved_erase hlookup res.name
  have := h.reserved_le res.name
  linarith

omit [DecidableEq C] in
theorem collectCommands_mem {resourceHierarchy : ResourceHierarchyMap} {depth : Nat}
    {resourceValues : C → List ResourceValue} {cmds acceptCmds : List C}
    {entries : List (CommandPriorityEntry C)}
    (h : collectCommands resourceHierarchy depth resourceValues cmds = some (acceptCmds, entries))
    {entry : CommandPriorityEntry C} (hentry : entry ∈ entries) :
  entry.command ∈ cmds ∧
    resourcesNeeded resourceHierarchy depth (resourceValues entry.command)
      = some entry.resources
  := by
  induction cmds generalizing acceptCmds entries with
  | nil =>
    cases h
    cases hentry
  | cons cmd cmds ih =>
    simp only [collectCommands] at h
    split at h
    · obtain ⟨⟨accept', entries'⟩, hrec, heq⟩ := Option.map_eq_some_iff.mp h
      cases heq
      obtain ⟨hmem, hneeded⟩ := ih hrec hentry
      exact ⟨List.mem_cons_of_mem _ hmem, hneeded⟩
    · rename_i request requests hvalues
      obtain ⟨resources, hresources, hrest⟩ := Option.bind_eq_some_iff.mp h
      obtain ⟨⟨accept', entries'⟩, hrec, heq⟩ := Option.map_eq_some_iff.mp hrest
      cases heq
      obtain rfl | hentry := List.mem_cons.mp hentry
      · exact ⟨by simp, hvalues ▸ hresources⟩
      · obtain ⟨hmem, hneeded⟩ := ih hrec hentry
        exact ⟨List.mem_cons_of_mem _ hmem, hneeded⟩

/-- No command of an arbitration requires a negative amount of a resource, be it by
itself or through the children of what it requests. -/
def NoneRenewing (depth : Nat) (a : ResourceArbiter C) : ArbiterCall C → Prop
  | .arbitrateCommands resourceValues cmds =>
    ∀ cmd ∈ cmds, ∀ resources,
      resourcesNeeded a.resourceHierarchy depth (resourceValues cmd) = some resources →
      Nonrenewing resources
  | .releaseResourcesForCommand _ => True

theorem arbitrateCommands_covers {a : ResourceArbiter C} (h : a.Covers) {depth : Nat}
    {resourceValues : C → List ResourceValue} {cmds : List C}
    (hcmds : NoneRenewing depth a (.arbitrateCommands resourceValues cmds))
    {result : ResourceArbiter C × List C × List C}
    (hresult : a.arbitrateCommands depth resourceValues cmds = some result) :
  result.1.Covers
  := by
  obtain ⟨⟨acceptCmds, sortedCommands⟩, hpartition, rfl⟩ := Option.map_eq_some_iff.mp hresult
  obtain ⟨⟨accept', entries⟩, hcollect, heq⟩ := Option.map_eq_some_iff.mp hpartition
  cases heq
  apply arbitrateEntries_covers h
  intro entry hentry
  obtain ⟨hmem, hneeded⟩ := collectCommands_mem hcollect ((List.mem_insertionSort _).mp hentry)
  exact hcmds entry.command hmem entry.resources hneeded

/-! ### Runs of calls -/

/-- A call which releases only what fits. -/
def CallFits (a : ResourceArbiter C) : ArbiterCall C → Prop
  | .arbitrateCommands _ _ => True
  | .releaseResourcesForCommand cmd => a.ReleaseFits cmd

/-- A call keeps the bounds exactly when it releases only what fits. -/
theorem call_inBounds_iff {a : ResourceArbiter C} (h : a.InBounds) (depth : Nat)
    (c : ArbiterCall C) :
  a.CallFits c ↔ ∀ a', a.call depth c = some a' → a'.InBounds
  := by
  cases c with
  | arbitrateCommands resourceValues cmds =>
    refine iff_of_true trivial fun a' ha' => ?_
    obtain ⟨result, hresult, rfl⟩ := Option.map_eq_some_iff.mp ha'
    exact arbitrateCommands_inBounds h hresult
  | releaseResourcesForCommand cmd =>
    simp only [call, Option.some.injEq, forall_eq']
    exact (releaseResourcesForCommand_inBounds_iff h cmd).symm

theorem call_covers {a a' : ResourceArbiter C} (h : a.Covers) {depth : Nat}
    {c : ArbiterCall C} (hc : NoneRenewing depth a c) (hcall : a.call depth c = some a') :
  a'.Covers
  := by
  cases c with
  | arbitrateCommands resourceValues cmds =>
    obtain ⟨result, hresult, rfl⟩ := Option.map_eq_some_iff.mp hcall
    exact arbitrateCommands_covers h hc hresult
  | releaseResourcesForCommand cmd =>
    cases hcall
    exact releaseResourcesForCommand_covers h cmd

/-- Throughout a sequence of calls, every resource stays in bounds exactly when every
release gives back only what fits; this is so when no command requires a negative
amount. -/
theorem calls_inBounds_iff (depth : Nat) (resourceHierarchy : ResourceHierarchyMap)
    (calls : List (ArbiterCall C))
    (hstart : (start resourceHierarchy : ResourceArbiter C).InBounds) :
  (StateMachine.Always (call depth) InBounds calls (start resourceHierarchy)
    ↔ StateMachine.Meets (call depth) CallFits calls (start resourceHierarchy)) ∧
  (StateMachine.Meets (call depth) (NoneRenewing depth) calls (start resourceHierarchy)
    → StateMachine.Always (call depth) InBounds calls (start resourceHierarchy))
  := by
  constructor
  · exact StateMachine.always_iff_meets (fun _ _ _ _ _ => trivial)
      (fun a c _ h => call_inBounds_iff h depth c) calls trivial hstart
  · intro h
    refine h.always (I := Covers) (fun a c a' hcovers hbounds hc hcall => ?_) ?_ hstart
    · have hfits : a.CallFits c := by
        cases c with
        | arbitrateCommands => trivial
        | releaseResourcesForCommand cmd => exact hcovers.releaseFits cmd
      exact ⟨call_covers hcovers hc hcall, (call_inBounds_iff hbounds depth c).mp hfits a' hcall⟩
    · exact ⟨by simp [start], fun r => by simp [start, reserved]⟩

omit [DecidableEq C] in
theorem start_inBounds :
  (start ∅ : ResourceArbiter C).InBounds
  := by
  intro r
  refine ⟨le_rfl, ?_⟩
  change (0 : ℚ) ≤ 1
  norm_num

/-- The command 0 requests one unit of memory, every other command renews one unit. -/
def renewingValues (cmd : Nat) : List ResourceValue :=
  [⟨"memory", if cmd = 0 then 1 else -1, 0, true⟩]

/-- The command 1 renews what the command 0 has reserved, before the command 0 ends. -/
def renewingCalls : List (ArbiterCall Nat) :=
  [.arbitrateCommands renewingValues [0], .arbitrateCommands renewingValues [1],
    .releaseResourcesForCommand 0]

/-- The allocation of memory becomes negative in the calls `renewingCalls`. -/
theorem renewingCalls_not_inBounds :
  (start ∅ : ResourceArbiter Nat).InBounds ∧
    ¬ StateMachine.Always (call 1) InBounds renewingCalls (start ∅ : ResourceArbiter Nat)
  := by
  refine ⟨start_inBounds, fun h => ?_⟩
  have hrun : ((((start ∅ : ResourceArbiter Nat).call 1 renewingCalls[0]).bind
      (call 1 · renewingCalls[1])).bind (call 1 · renewingCalls[2])).map
        (fun a => a.allocated "memory") = some (-1) := by
    decide +kernel
  obtain ⟨a₃, h₃, hmemory⟩ := Option.map_eq_some_iff.mp hrun
  obtain ⟨a₂, h₂, h₃⟩ := Option.bind_eq_some_iff.mp h₃
  obtain ⟨a₁, h₁, h₂⟩ := Option.bind_eq_some_iff.mp h₂
  have hbounds := h.2 a₁ h₁ |>.2 a₂ h₂ |>.2 a₃ h₃
  have := (hbounds "memory").1
  rw [hmemory] at this
  norm_num at this

/-- Without the renewing command the same calls keep the bounds. -/
theorem calls_inBounds_iff_single :
  (start ∅ : ResourceArbiter Nat).InBounds ∧
    (StateMachine.Always (call 1) InBounds
        [.arbitrateCommands renewingValues [0], .releaseResourcesForCommand 0]
        (start ∅ : ResourceArbiter Nat)
      ↔ StateMachine.Meets (call 1) CallFits
        [.arbitrateCommands renewingValues [0], .releaseResourcesForCommand 0]
        (start ∅ : ResourceArbiter Nat))
  := ⟨start_inBounds, (calls_inBounds_iff 1 ∅ _ start_inBounds).1⟩

end ResourceArbiter
end Plexil
