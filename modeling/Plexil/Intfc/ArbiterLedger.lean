import Plexil.Intfc.ArbiterBounds

/-!
# The ledger of the resource arbiter

What is allocated of a resource is what is reserved of it by the commands in
`m_cmdResMap`, together with what the commands which have been released did not give
back.  A command which is arbitrated must not hold reservations, as a new reservation
replaces the old one in `m_cmdResMap` but not in `m_allocated`.
-/

namespace Plexil

variable {C : Type}

namespace ResourceArbiter

/-- The sum of the weights of the resource `r` which a release does not give back. -/
def keptOn (r : ResourceName) (resources : List ChildResourceNode) : ℚ :=
  weightOn r (resources.filter fun res => res.release = false)

/-- The sum of what the released reservations of the resource `r` did not give back. -/
def kept (r : ResourceName) (released : List ResourceSet) : ℚ :=
  (released.map fun resources => keptOn r resources.entries).sum

/-- A release takes away all weights but those which are kept. -/
theorem deallocate_eq (r : ResourceName) (resources : List ChildResourceNode)
    (allocated : ResourceName → ℚ) :
  deallocate resources allocated r = allocated r - weightOn r resources + keptOn r resources
  := by
  induction resources generalizing allocated with
  | nil => simp [deallocate, weightOn, keptOn]
  | cons res resources ih =>
    rw [deallocate, List.foldl_cons, ← deallocate, ih]
    unfold keptOn weightOn
    rw [List.filter_cons, List.map_cons, List.sum_cons]
    obtain rfl | hname := eq_or_ne r res.name
    · obtain hrelease | hrelease := Bool.eq_false_or_eq_true res.release
      · simp [hrelease]
        ring
      · simp [hrelease]
        ring
    · obtain hrelease | hrelease := Bool.eq_false_or_eq_true res.release
      · simp [hrelease, hname, hname.symm]
      · simp [hrelease, hname.symm]

variable [DecidableEq C]

/-! ### Reservations -/

/-- A reservation of a command which held none. -/
theorem reserved_insert {cmdResMap : AList fun _ : C => ResourceSet} {cmd : C}
    (h : cmd ∉ cmdResMap) (resources : ResourceSet) (r : ResourceName) :
  reserved r (cmdResMap.insert cmd resources) = weightOn r resources.entries + reserved r cmdResMap
  := by
  rw [reserved, AList.entries_insert_of_notMem h, List.map_cons, List.sum_cons, reserved]

/-- The loop over the entries allocates what it reserves. -/
theorem arbitrateEntries_reserved (r : ResourceName) {entries : List (CommandPriorityEntry C)}
    {estimates : EstimateMap} {a : ResourceArbiter C}
    (hnodup : (entries.map CommandPriorityEntry.command).Nodup)
    (hfresh : ∀ entry ∈ entries, entry.command ∉ a.cmdResMap) :
  (arbitrateEntries entries estimates a).1.allocated r - a.allocated r
    = reserved r (arbitrateEntries entries estimates a).1.cmdResMap - reserved r a.cmdResMap
  := by
  induction entries generalizing estimates a with
  | nil => simp [arbitrateEntries]
  | cons entry entries ih =>
    rw [List.map_cons, List.nodup_cons] at hnodup
    obtain ⟨hnotMem, hnodup⟩ := hnodup
    have hrest : ∀ e ∈ entries, e.command ∉ a.cmdResMap := fun e he => hfresh e (by simp [he])
    simp only [arbitrateEntries]
    split
    · apply ih hnodup hrest
    · rename_i estimates' _
      have hentry := reserved_insert (hfresh entry (by simp)) entry.resources r
      have haccept : ∀ e ∈ entries, e.command ∉ (a.accept entry).cmdResMap := by
        intro e he hmem
        obtain heq | hmem := (AList.mem_insert _).mp hmem
        · apply hnotMem
          rw [← heq]
          exact List.mem_map_of_mem he
        · exact hrest e he hmem
      have hloop := @ih estimates' (a.accept entry) hnodup haccept
      have hallocated : (a.accept entry).allocated r
          = a.allocated r + weightOn r entry.resources.entries := allocate_eq ..
      have hreserved : reserved r (a.accept entry).cmdResMap
          = weightOn r entry.resources.entries + reserved r a.cmdResMap := hentry
      linarith

/-- The loop over the entries leaves the reservations of other commands as they are. -/
theorem arbitrateEntries_mem {entries : List (CommandPriorityEntry C)} {estimates : EstimateMap}
    {a : ResourceArbiter C} {cmd : C} :
  cmd ∈ (arbitrateEntries entries estimates a).1.cmdResMap
    ↔ cmd ∈ (arbitrateEntries entries estimates a).2.1 ∨ cmd ∈ a.cmdResMap
  := by
  induction entries generalizing estimates a with
  | nil => simp [arbitrateEntries]
  | cons entry entries ih =>
    simp only [arbitrateEntries]
    split
    · apply ih
    · rw [ih, List.mem_cons]
      have haccept : cmd ∈ (a.accept entry).cmdResMap ↔ cmd = entry.command ∨ cmd ∈ a.cmdResMap :=
        AList.mem_insert _
      rw [haccept]
      tauto

/-- A command which holds no reservations. -/
def Fresh (a : ResourceArbiter C) : ArbiterCall C → Prop
  | .arbitrateCommands _ cmds => cmds.Nodup ∧ ∀ cmd ∈ cmds, cmd ∉ a.cmdResMap
  | .releaseResourcesForCommand _ => True

instance (a : ResourceArbiter C) (c : ArbiterCall C) : Decidable (a.Fresh c) := by
  cases c with
  | arbitrateCommands resourceValues cmds =>
    exact inferInstanceAs (Decidable (cmds.Nodup ∧ ∀ cmd ∈ cmds, cmd ∉ a.cmdResMap))
  | releaseResourcesForCommand cmd => exact .isTrue trivial

/-- Arbitration allocates what it reserves, and it reserves nothing for the commands which it
rejects. -/
theorem arbitrateCommands_reserved {a a' : ResourceArbiter C} {depth : Nat}
    {resourceValues : C → List ResourceValue} {cmds accepted rejected : List C}
    (hfresh : a.Fresh (.arbitrateCommands resourceValues cmds))
    (h : a.arbitrateCommands depth resourceValues cmds = some (a', accepted, rejected)) :
  (∀ r, a'.allocated r - a.allocated r = reserved r a'.cmdResMap - reserved r a.cmdResMap) ∧
    ∀ cmd ∈ rejected, cmd ∉ a'.cmdResMap
  := by
  obtain ⟨hnodup, hfresh⟩ := hfresh
  have hresults := (arbitrateCommands_perm h).nodup_iff.mpr hnodup
  have hrejected : ∀ cmd ∈ rejected, cmd ∉ a.cmdResMap := by
    intro cmd hcmd
    apply hfresh
    apply (arbitrateCommands_perm h).mem_iff.mp
    exact List.mem_append_right _ hcmd
  obtain ⟨⟨acceptCmds, sortedCommands⟩, hpartition, heq⟩ := Option.map_eq_some_iff.mp h
  have hperm := partitionCommands_perm hpartition
  cases heq
  constructor
  · intro r
    apply arbitrateEntries_reserved
    · exact (List.nodup_append.mp (hperm.nodup_iff.mpr hnodup)).2.1
    · intro entry hentry
      apply hfresh
      apply hperm.mem_iff.mp
      exact List.mem_append_right _ (List.mem_map_of_mem hentry)
  · intro cmd hcmd hmem
    obtain haccepted | hmem := arbitrateEntries_mem.mp hmem
    · rw [List.append_assoc] at hresults
      have hdisjoint := (List.nodup_append.mp (List.nodup_append.mp hresults).2.1).2.2
      exact hdisjoint cmd haccepted cmd hcmd rfl
    · exact hrejected cmd hcmd hmem

/-! ### Runs of calls -/

/-- The arbiter with the reservations of the commands which have been released. -/
structure Ledger (C : Type) where
  arbiter : ResourceArbiter C
  released : List ResourceSet

namespace Ledger

/-- The ledger of an arbiter which has not arbitrated yet. -/
def start (resourceHierarchy : ResourceHierarchyMap) : Ledger C :=
  ⟨.start resourceHierarchy, []⟩

/-- The reservations which a call releases. -/
def releasedBy (a : ResourceArbiter C) : ArbiterCall C → List ResourceSet
  | .arbitrateCommands _ _ => []
  | .releaseResourcesForCommand cmd => (a.cmdResMap.lookup cmd).toList

/-- The ledger after a call. -/
def call (depth : Nat) (l : Ledger C) (c : ArbiterCall C) : Option (Ledger C) :=
  (l.arbiter.call depth c).map fun a => ⟨a, l.released ++ releasedBy l.arbiter c⟩

/-- What is allocated is reserved or has been kept. -/
def Balanced (l : Ledger C) : Prop :=
  ∀ r, l.arbiter.allocated r = reserved r l.arbiter.cmdResMap + kept r l.released

theorem Balanced.release {l : Ledger C} (h : l.Balanced) (cmd : C) :
  Balanced ⟨l.arbiter.releaseResourcesForCommand cmd,
    l.released ++ releasedBy l.arbiter (.releaseResourcesForCommand cmd)⟩
  := by
  intro r
  unfold releaseResourcesForCommand releasedBy
  obtain hlookup | ⟨resources, hlookup⟩ := (l.arbiter.cmdResMap.lookup cmd).eq_none_or_eq_some
  · simpa only [hlookup, Option.toList_none, List.append_nil] using h r
  · have herase := reserved_erase hlookup r
    have hbalance := h r
    simp only [hlookup, Option.toList_some, kept, List.map_append, List.sum_append,
      List.map_singleton, List.sum_singleton, deallocate_eq]
    rw [kept] at hbalance
    linarith

theorem Balanced.call {l l' : Ledger C} (h : l.Balanced) {depth : Nat} {c : ArbiterCall C}
    (hfresh : l.arbiter.Fresh c) (hcall : l.call depth c = some l') :
  l'.Balanced
  := by
  obtain ⟨a, ha, rfl⟩ := Option.map_eq_some_iff.mp hcall
  cases c with
  | arbitrateCommands resourceValues cmds =>
    obtain ⟨⟨a', accepted, rejected⟩, hresult, rfl⟩ := Option.map_eq_some_iff.mp ha
    intro r
    have hreserved := (arbitrateCommands_reserved hfresh hresult).1 r
    have hbalance := h r
    simp only [releasedBy, List.append_nil]
    linarith
  | releaseResourcesForCommand cmd =>
    cases ha
    apply h.release

end Ledger

/-- After any sequence of calls in which no command is arbitrated while it holds
reservations, what is allocated of each resource is what the commands in `cmdResMap`
reserve of it and what the released commands have kept of it; a rejected command
reserves nothing. -/
theorem ledger_balanced (depth : Nat) (resourceHierarchy : ResourceHierarchyMap) {l : Ledger C}
    (h : StateMachine.Reachable (Ledger.call depth) (fun l => l = .start resourceHierarchy)
      (fun l c => l.arbiter.Fresh c) l) :
  (∀ r, l.arbiter.allocated r = reserved r l.arbiter.cmdResMap + kept r l.released) ∧
    ∀ resourceValues cmds a' accepted rejected,
      l.arbiter.Fresh (.arbitrateCommands resourceValues cmds) →
      l.arbiter.arbitrateCommands depth resourceValues cmds = some (a', accepted, rejected) →
      ∀ cmd ∈ rejected, cmd ∉ a'.cmdResMap
  := by
  constructor
  · apply h.invariant (P := Ledger.Balanced)
    · rintro l rfl r
      simp [Ledger.start, ResourceArbiter.start, reserved, kept]
    · intro l c l' hl hfresh hcall
      exact hl.call hfresh hcall
  · intro resourceValues cmds a' accepted rejected hfresh hresult
    exact (arbitrateCommands_reserved hfresh hresult).2

/-- Requests of a unit of memory, which is given back, and of a unit of power, which is not. -/
def keepingValues (_ : Nat) : List ResourceValue :=
  [⟨"memory", 1, 0, true⟩, ⟨"power", 1 / 2, 0, false⟩]

/-- The command 0 is released, then the command 1 is accepted and the command 2 rejected. -/
theorem ledger_balanced_keeping :
  ∃ l, StateMachine.checkedRun (Ledger.call 1) (fun l c => l.arbiter.Fresh c)
      [.arbitrateCommands keepingValues [0], .releaseResourcesForCommand 0,
        .arbitrateCommands keepingValues [1, 2]] (.start ∅) = some l ∧
    l.arbiter.allocated "power" = reserved "power" l.arbiter.cmdResMap + kept "power" l.released ∧
    l.arbiter.allocated "power" = 1
  := by
  have hrun : (StateMachine.checkedRun (Ledger.call 1) (fun l c => l.arbiter.Fresh c)
      [.arbitrateCommands keepingValues [0], .releaseResourcesForCommand 0,
        .arbitrateCommands keepingValues [1, 2]] (.start ∅)).map
      (fun l => l.arbiter.allocated "power") = some 1 := by
    decide +kernel
  obtain ⟨l, hl, hpower⟩ := Option.map_eq_some_iff.mp hrun
  use l, hl
  constructor
  · exact (ledger_balanced 1 ∅ (.of_checkedRun (.init rfl) hl)).1 "power"
  · exact hpower

end ResourceArbiter
end Plexil
