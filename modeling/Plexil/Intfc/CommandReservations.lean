import Plexil.Intfc.ArbiterLedger
import Plexil.Intfc.ExplicitRequests
import Plexil.Expr.Variable
import Plexil.Node.Types

/-!
# Reservations of commands

A command is activated, arbitrated, and deactivated; in between the interfaces report its
handles, its return value and its abort.  The deactivation releases the reservations of the
command unless its handle is COMMAND_DENIED, which is the handle of a command rejected by
the arbiter, and which an interface may report as well.
-/

namespace Plexil

variable {C α : Type}

/-! ### Commands -/

/-- A command, as far as what is reported for it goes. -/
structure CommandImpl (α : Type) where
  active : Bool
  commandHandle : CommandHandleValue
  abortComplete : SimpleBooleanVariable
  dest : Option (Variable α)

namespace CommandImpl

/-- The command is reset at its activation; it must not be active. -/
def activate (cmd : CommandImpl α) : Option (CommandImpl α) :=
  if cmd.active then none
  else some { cmd with
    active := true
    commandHandle := .noCommandHandle
    abortComplete := cmd.abortComplete.activate }

/-- Sets the handle of an active command; COMMAND_NO_HANDLE is an interface error. -/
def setCommandHandle (cmd : CommandImpl α) (handle : CommandHandleValue) :
    Option (CommandImpl α) :=
  if cmd.active then
    if handle = .noCommandHandle then none else some { cmd with commandHandle := handle }
  else some cmd

def returnValue (cmd : CommandImpl α) (val : Value α) : Option (CommandImpl α) :=
  if cmd.active then
    match cmd.dest with
    | none => some cmd
    | some x => (x.setValue val).map fun x' => { cmd with dest := some x' }
  else some cmd

def acknowledgeAbort (cmd : CommandImpl α) (ack : Bool) : CommandImpl α :=
  if cmd.active then { cmd with abortComplete := cmd.abortComplete.setValue ack } else cmd

/-! What the reports change of a command. -/

variable {cmd cmd' : CommandImpl α}

theorem setCommandHandle_spec {handle : CommandHandleValue}
    (h : cmd.setCommandHandle handle = some cmd') :
  cmd'.active = cmd.active ∧ (cmd.active = true → cmd'.commandHandle = handle)
  := by
  rw [setCommandHandle] at h
  split at h
  · split at h
    · cases h
    · cases h
      exact ⟨rfl, fun _ => rfl⟩
  · rename_i hinactive
    cases h
    exact ⟨rfl, fun hactive => absurd hactive hinactive⟩

theorem returnValue_spec {val : Value α} (h : cmd.returnValue val = some cmd') :
  cmd'.active = cmd.active ∧ cmd'.commandHandle = cmd.commandHandle
  := by
  rw [returnValue] at h
  split at h
  · split at h
    · cases h
      exact ⟨rfl, rfl⟩
    · obtain ⟨x, -, rfl⟩ := Option.map_eq_some_iff.mp h
      exact ⟨rfl, rfl⟩
  · cases h
    exact ⟨rfl, rfl⟩

theorem acknowledgeAbort_spec (cmd : CommandImpl α) (ack : Bool) :
  (cmd.acknowledgeAbort ack).active = cmd.active ∧
    (cmd.acknowledgeAbort ack).commandHandle = cmd.commandHandle
  := by
  rw [acknowledgeAbort]
  split
  · exact ⟨rfl, rfl⟩
  · exact ⟨rfl, rfl⟩

end CommandImpl

/-! ### Commands and the arbiter -/

/-- The arbiter and the commands, with the reservations which have been released. -/
structure Commanding (C α : Type) where
  arbiter : ResourceArbiter C
  command : C → CommandImpl α
  releases : List (C × ResourceSet)

/-- What happens to the commands. -/
inductive CommandEvent (C α : Type) where
  | activate (cmd : C)
  | executeOutboundQueue (resourceValues : C → List ResourceValue) (cmds : List C)
  | commandHandleReturn (cmd : C) (handle : CommandHandleValue)
  | commandReturn (cmd : C) (val : Value α)
  | commandAbortAcknowledge (cmd : C) (ack : Bool)
  | deactivate (cmd : C)

namespace ResourceArbiter

variable [DecidableEq C]

/-- The arbitration of other commands leaves a reservation as it is. -/
theorem arbitrateEntries_lookup_of_ne {entries : List (CommandPriorityEntry C)}
    {estimates : EstimateMap} {a : ResourceArbiter C} {cmd : C}
    (hne : ∀ entry ∈ entries, entry.command ≠ cmd) :
  (arbitrateEntries entries estimates a).1.cmdResMap.lookup cmd = a.cmdResMap.lookup cmd
  := by
  induction entries generalizing estimates a with
  | nil => rfl
  | cons entry entries ih =>
    rw [List.forall_mem_cons] at hne
    cases hconsider : a.considerRequests entry.resources.entries estimates with
    | none =>
      rw [arbitrateEntries_reject hconsider]
      apply ih hne.2
    | some estimates' =>
      rw [arbitrateEntries_accept hconsider]
      rw [ih hne.2, accept]
      apply AList.lookup_insert_ne hne.1.symm

theorem arbitrateCommands_lookup_of_notMem {a a' : ResourceArbiter C} {depth : Nat}
    {resourceValues : C → List ResourceValue} {cmds accepted rejected : List C}
    (h : a.arbitrateCommands depth resourceValues cmds = some (a', accepted, rejected)) {cmd : C}
    (hcmd : cmd ∉ cmds) :
  a'.cmdResMap.lookup cmd = a.cmdResMap.lookup cmd
  := by
  obtain ⟨⟨acceptCmds, sortedCommands⟩, hpartition, heq⟩ := Option.map_eq_some_iff.mp h
  cases heq
  apply arbitrateEntries_lookup_of_ne
  rintro entry hentry rfl
  apply hcmd
  rw [← (partitionCommands_perm hpartition).mem_iff]
  apply List.mem_append_right
  apply List.mem_map_of_mem hentry

/-- The release of another command leaves a reservation as it is. -/
theorem lookup_releaseResourcesForCommand_of_ne (a : ResourceArbiter C) {cmd c : C}
    (hne : cmd ≠ c) :
  (a.releaseResourcesForCommand c).cmdResMap.lookup cmd = a.cmdResMap.lookup cmd
  := by
  rw [releaseResourcesForCommand]
  split
  · rfl
  · apply AList.lookup_erase_ne hne

/-- A release removes the reservation of the command. -/
theorem notMem_releaseResourcesForCommand (a : ResourceArbiter C) (cmd : C) :
  cmd ∉ (a.releaseResourcesForCommand cmd).cmdResMap
  := by
  rw [releaseResourcesForCommand]
  split
  · rename_i hnone
    exact AList.lookup_eq_none.mp hnone
  · rw [AList.mem_erase]
    tauto

end ResourceArbiter

namespace Commanding

variable [DecidableEq C]

/-- The commands with a changed one. -/
def setCommand (s : Commanding C α) (cmd : C) (x : CommandImpl α) : Commanding C α :=
  { s with command := Function.update s.command cmd x }

def commandHandleReturn (cmd : C) (handle : CommandHandleValue) (s : Commanding C α) :
    Option (Commanding C α) :=
  ((s.command cmd).setCommandHandle handle).map (s.setCommand cmd)

/-- Releases the reservations of a command. -/
def releaseResourcesForCommand (cmd : C) (s : Commanding C α) : Commanding C α :=
  { s with
    arbiter := s.arbiter.releaseResourcesForCommand cmd
    releases := s.releases ++ (s.arbiter.cmdResMap.lookup cmd).toList.map fun resources =>
      (cmd, resources) }

/-- Deactivates a command, which must be active. -/
def deactivate (cmd : C) (s : Commanding C α) : Option (Commanding C α) :=
  if (s.command cmd).active then
    let released :=
      if (s.command cmd).commandHandle ≠ .denied then s.releaseResourcesForCommand cmd else s
    some (released.setCommand cmd { s.command cmd with
      active := false
      abortComplete := (s.command cmd).abortComplete.deactivate })
  else none

/-- Arbitrates the commands in the queue; those rejected are reported as denied. -/
def executeOutboundQueue (depth : Nat) (resourceValues : C → List ResourceValue)
    (cmds : List C) (s : Commanding C α) : Option (Commanding C α) :=
  (s.arbiter.arbitrateCommands depth resourceValues cmds).bind fun (a, _, rejected) =>
    rejected.foldlM (fun s cmd => s.commandHandleReturn cmd .denied) { s with arbiter := a }

def step (depth : Nat) (s : Commanding C α) : CommandEvent C α → Option (Commanding C α)
  | .activate cmd => (s.command cmd).activate.map (s.setCommand cmd)
  | .executeOutboundQueue resourceValues cmds => s.executeOutboundQueue depth resourceValues cmds
  | .commandHandleReturn cmd handle => s.commandHandleReturn cmd handle
  | .commandReturn cmd val => ((s.command cmd).returnValue val).map (s.setCommand cmd)
  | .commandAbortAcknowledge cmd ack =>
    some (s.setCommand cmd ((s.command cmd).acknowledgeAbort ack))
  | .deactivate cmd => s.deactivate cmd

/-- Commands which have not been activated. -/
def start (resourceHierarchy : ResourceHierarchyMap) (dest : C → Option (Variable α)) :
    Commanding C α :=
  ⟨.start resourceHierarchy, fun cmd => ⟨false, .noCommandHandle, .initial, dest cmd⟩, []⟩

/-- The releases of a command. -/
def releasesOf (s : Commanding C α) (cmd : C) : List ResourceSet :=
  (s.releases.filter fun entry => entry.1 = cmd).map Prod.snd

/-- The arbiter accepts the command. -/
def Accepts (depth : Nat) (s : Commanding C α) (resourceValues : C → List ResourceValue)
    (cmds : List C) (cmd : C) : Prop :=
  ∃ a accepted rejected,
    s.arbiter.arbitrateCommands depth resourceValues cmds = some (a, accepted, rejected) ∧
      cmd ∈ accepted

/-- What may happen before the deactivation of an active command which has been
arbitrated: it is neither put into the queue again nor deactivated. -/
def During (cmd : C) : CommandEvent C α → Prop
  | .executeOutboundQueue _ cmds => cmd ∉ cmds
  | .deactivate c => c ≠ cmd
  | _ => True

/-- The last handle reported for a command, or `handle` if there is none. -/
def lastHandle (cmd : C) (handle : CommandHandleValue) :
    List (CommandEvent C α) → CommandHandleValue
  | [] => handle
  | .commandHandleReturn c h :: es => lastHandle cmd (if c = cmd then h else handle) es
  | _ :: es => lastHandle cmd handle es

/-- What is given back of a resource at the release of a reservation. -/
def givenBack (r : ResourceName) (held : Option ResourceSet) : ℚ :=
  (held.map fun resources =>
    ResourceArbiter.weightOn r (resources.entries.filter fun res => res.release)).getD 0

/-- The reservation of a command in the state `s₀` has ended with its deactivation, which
leads from `s` to `s'`: it is not in `m_cmdResMap`, it has been released once since
`s₀`, and what was reserved to be released has been given back. -/
structure Ended (cmd : C) (s₀ s s' : Commanding C α) : Prop where
  removed : cmd ∉ s'.arbiter.cmdResMap
  once : s'.releasesOf cmd = s₀.releasesOf cmd ++ (s₀.arbiter.cmdResMap.lookup cmd).toList
  returned : ∀ r, s'.arbiter.allocated r
    = s.arbiter.allocated r - givenBack r (s₀.arbiter.cmdResMap.lookup cmd)

/-! ### What leaves a reservation as it is -/

/-- The command remains active with the handle `handle`, and its reservation is neither
changed nor released. -/
structure Undisturbed (cmd : C) (handle : CommandHandleValue) (s s' : Commanding C α) : Prop where
  active : (s'.command cmd).active = true
  handle : (s'.command cmd).commandHandle = handle
  held : s'.arbiter.cmdResMap.lookup cmd = s.arbiter.cmdResMap.lookup cmd
  releases : s'.releasesOf cmd = s.releasesOf cmd

variable {cmd : C} {s s' : Commanding C α}

theorem Undisturbed.trans {handle handle' : CommandHandleValue} {s'' : Commanding C α}
    (h : Undisturbed cmd handle s s') (h' : Undisturbed cmd handle' s' s'') :
  Undisturbed cmd handle' s s''
  := ⟨h'.active, h'.handle, h'.held.trans h.held, h'.releases.trans h.releases⟩

/-- A change of another command. -/
theorem undisturbed_setCommand_of_ne {c : C} (hne : cmd ≠ c) (x : CommandImpl α)
    (hactive : (s.command cmd).active = true) :
  Undisturbed cmd (s.command cmd).commandHandle s (s.setCommand c x)
  := by
  have hsame : (s.setCommand c x).command cmd = s.command cmd := by
    apply Function.update_of_ne hne
  constructor
  · rw [hsame, hactive]
  · rw [hsame]
  · rfl
  · rfl

/-- A change of the command itself, which leaves it active. -/
theorem undisturbed_setCommand {x : CommandImpl α} (hactive : x.active = true) :
  Undisturbed cmd x.commandHandle s (s.setCommand cmd x)
  := by
  have hchanged : (s.setCommand cmd x).command cmd = x := Function.update_self ..
  constructor
  · rw [hchanged, hactive]
  · rw [hchanged]
  · rfl
  · rfl

theorem undisturbed_commandHandleReturn {c : C} {handle : CommandHandleValue}
    (hactive : (s.command cmd).active = true) (h : s.commandHandleReturn c handle = some s') :
  Undisturbed cmd (if c = cmd then handle else (s.command cmd).commandHandle) s s'
  := by
  obtain ⟨x, hx, rfl⟩ := Option.map_eq_some_iff.mp h
  obtain ⟨hsame, hhandle⟩ := CommandImpl.setCommandHandle_spec hx
  split
  · rename_i heq
    subst heq
    rw [← hhandle hactive]
    apply undisturbed_setCommand
    rw [hsame, hactive]
  · rename_i hne
    apply undisturbed_setCommand_of_ne (Ne.symm hne) x hactive

/-- The denial of other commands. -/
theorem undisturbed_denials {rejected : List C} (hcmd : cmd ∉ rejected)
    (hactive : (s.command cmd).active = true)
    (h : rejected.foldlM (fun s cmd => s.commandHandleReturn cmd .denied) s = some s') :
  Undisturbed cmd (s.command cmd).commandHandle s s'
  := by
  induction rejected generalizing s with
  | nil =>
    cases h
    exact ⟨hactive, rfl, rfl, rfl⟩
  | cons c rejected ih =>
    rw [List.mem_cons, not_or] at hcmd
    rw [List.foldlM_cons] at h
    obtain ⟨middle, hmiddle, h⟩ := Option.bind_eq_some_iff.mp h
    have hfirst := undisturbed_commandHandleReturn hactive hmiddle
    rw [if_neg (Ne.symm hcmd.1)] at hfirst
    apply hfirst.trans
    rw [← hfirst.handle]
    apply ih hcmd.2 hfirst.active h

theorem undisturbed_deactivate {c : C} (hne : cmd ≠ c) (hactive : (s.command cmd).active = true)
    (h : s.deactivate c = some s') :
  Undisturbed cmd (s.command cmd).commandHandle s s'
  := by
  have hrelease : Undisturbed cmd (s.command cmd).commandHandle s
      (s.releaseResourcesForCommand c) := by
    constructor
    · exact hactive
    · rfl
    · apply s.arbiter.lookup_releaseResourcesForCommand_of_ne hne
    · rw [releasesOf, releaseResourcesForCommand, List.filter_append, List.map_append]
      cases s.arbiter.cmdResMap.lookup c <;> simp [releasesOf, hne.symm]
  rw [deactivate] at h
  split at h
  · cases h
    dsimp only
    split
    · apply hrelease.trans
      exact undisturbed_setCommand_of_ne hne _ hrelease.active
    · apply undisturbed_setCommand_of_ne hne _ hactive
  · cases h

/-- The events before the deactivation leave the reservation as it is. -/
theorem Undisturbed.of_during {depth : Nat} {e : CommandEvent C α} (hduring : During cmd e)
    (hactive : (s.command cmd).active = true) (h : s.step depth e = some s') :
  Undisturbed cmd (lastHandle cmd (s.command cmd).commandHandle [e]) s s'
  := by
  cases e with
  | activate c =>
    obtain ⟨x, hx, rfl⟩ := Option.map_eq_some_iff.mp h
    apply undisturbed_setCommand_of_ne _ x hactive
    rintro rfl
    rw [CommandImpl.activate, if_pos hactive] at hx
    cases hx
  | executeOutboundQueue resourceValues cmds =>
    obtain ⟨⟨a, accepted, rejected⟩, harbitrate, hdeny⟩ := Option.bind_eq_some_iff.mp h
    have hcmd : cmd ∉ rejected := by
      intro hmem
      apply hduring
      rw [← (ResourceArbiter.arbitrateCommands_perm harbitrate).mem_iff]
      apply List.mem_append_right _ hmem
    have harbitrated : Undisturbed cmd (s.command cmd).commandHandle s { s with arbiter := a } := by
      refine ⟨hactive, rfl, ?_, rfl⟩
      apply ResourceArbiter.arbitrateCommands_lookup_of_notMem harbitrate hduring
    apply harbitrated.trans (undisturbed_denials hcmd hactive hdeny)
  | commandHandleReturn c handle => apply undisturbed_commandHandleReturn hactive h
  | commandReturn c val =>
    obtain ⟨x, hx, rfl⟩ := Option.map_eq_some_iff.mp h
    obtain ⟨hsame, hhandle⟩ := CommandImpl.returnValue_spec hx
    obtain rfl | hne := eq_or_ne cmd c
    · change Undisturbed cmd (s.command cmd).commandHandle s _
      rw [← hhandle]
      apply undisturbed_setCommand
      rw [hsame, hactive]
    · apply undisturbed_setCommand_of_ne hne x hactive
  | commandAbortAcknowledge c ack =>
    cases h
    obtain rfl | hne := eq_or_ne cmd c
    · obtain ⟨hsame, hhandle⟩ := (s.command cmd).acknowledgeAbort_spec ack
      change Undisturbed cmd (s.command cmd).commandHandle s _
      rw [← hhandle]
      apply undisturbed_setCommand
      rw [hsame, hactive]
    · apply undisturbed_setCommand_of_ne hne _ hactive
  | deactivate c => apply undisturbed_deactivate (Ne.symm hduring) hactive h

/-- A run of such events. -/
theorem Undisturbed.of_run {depth : Nat} {es : List (CommandEvent C α)}
    (hduring : ∀ e ∈ es, During cmd e) (hactive : (s.command cmd).active = true)
    (hrun : StateMachine.run (step depth) es s = some s') :
  Undisturbed cmd (lastHandle cmd (s.command cmd).commandHandle es) s s'
  := by
  induction es generalizing s with
  | nil =>
    cases hrun
    exact ⟨hactive, rfl, rfl, rfl⟩
  | cons e es ih =>
    rw [List.forall_mem_cons] at hduring
    obtain ⟨middle, hstep, hrest⟩ := Option.bind_eq_some_iff.mp hrun
    have hfirst := Undisturbed.of_during hduring.1 hactive hstep
    have hlast := ih hduring.2 hfirst.active hrest
    rw [hfirst.handle] at hlast
    have happend : lastHandle cmd (s.command cmd).commandHandle (e :: es)
        = lastHandle cmd (lastHandle cmd (s.command cmd).commandHandle [e]) es := by
      cases e <;> rfl
    rw [happend]
    apply hfirst.trans hlast

/-! ### The deactivation -/

/-- The weights which are released and those which are kept are all weights. -/
theorem weightOn_filter_add_keptOn (r : ResourceName) (resources : List ChildResourceNode) :
  ResourceArbiter.weightOn r (resources.filter fun res => res.release)
      + ResourceArbiter.keptOn r resources
    = ResourceArbiter.weightOn r resources
  := by
  induction resources with
  | nil => simp [ResourceArbiter.weightOn, ResourceArbiter.keptOn]
  | cons res resources ih =>
    simp only [ResourceArbiter.weightOn, ResourceArbiter.keptOn] at ih ⊢
    cases hrelease : res.release
    · simp only [List.filter_cons, hrelease, List.map_cons, List.sum_cons, decide_true,
        Bool.false_eq_true, if_false, if_true]
      linarith
    · simp only [List.filter_cons, hrelease, List.map_cons, List.sum_cons, Bool.true_eq_false,
        decide_false, Bool.false_eq_true, if_false, if_true]
      linarith

/-- A release gives back the weights which are to be released. -/
theorem allocated_releaseResourcesForCommand (a : ResourceArbiter C) (cmd : C)
    (r : ResourceName) :
  (a.releaseResourcesForCommand cmd).allocated r
    = a.allocated r - givenBack r (a.cmdResMap.lookup cmd)
  := by
  rw [ResourceArbiter.releaseResourcesForCommand]
  cases hlookup : a.cmdResMap.lookup cmd with
  | none =>
    simp [givenBack]
  | some resources =>
    have hweights := weightOn_filter_add_keptOn r resources.entries
    simp only [ResourceArbiter.deallocate_eq, givenBack, Option.map_some, Option.getD_some]
    linarith

/-- What the deactivation of an active command does. -/
theorem deactivate_spec {cmd : C} {s s' : Commanding C α} (h : s.deactivate cmd = some s') :
  if (s.command cmd).commandHandle ≠ .denied then
    s'.arbiter = s.arbiter.releaseResourcesForCommand cmd ∧
      s'.releasesOf cmd = s.releasesOf cmd ++ (s.arbiter.cmdResMap.lookup cmd).toList
  else s'.arbiter = s.arbiter ∧ s'.releasesOf cmd = s.releasesOf cmd
  := by
  rw [deactivate] at h
  split at h
  · cases h
    dsimp only
    split
    · refine ⟨rfl, ?_⟩
      change ((s.releases ++ _).filter _).map _ = _
      rw [List.filter_append, List.map_append]
      cases s.arbiter.cmdResMap.lookup cmd <;> simp [releasesOf]
    · exact ⟨rfl, rfl⟩
  · cases h

/-- The reservation of an active command ends with its deactivation exactly when the command
holds none, or the last handle is not COMMAND_DENIED.  The command has been arbitrated in
the state `s₀`; until the deactivation anything may be reported for it, and anything may
happen to the other commands. -/
theorem reservation_ended_iff {depth : Nat} {s₀ s s' : Commanding C α} {cmd : C}
    {es : List (CommandEvent C α)} (hactive : (s₀.command cmd).active = true)
    (hduring : ∀ e ∈ es, During cmd e) (hrun : StateMachine.run (step depth) es s₀ = some s)
    (hdeactivate : s.step depth (.deactivate cmd) = some s') :
  Ended cmd s₀ s s' ↔ s₀.arbiter.cmdResMap.lookup cmd = none ∨
    lastHandle cmd (s₀.command cmd).commandHandle es ≠ .denied
  := by
  obtain ⟨-, hhandle, hheld, hreleases⟩ := Undisturbed.of_run hduring hactive hrun
  have hspec := deactivate_spec hdeactivate
  rw [hhandle, hheld, hreleases] at hspec
  split at hspec
  · rename_i hnotDenied
    obtain ⟨harbiter, honce⟩ := hspec
    apply iff_of_true
    · constructor
      · rw [harbiter]
        apply s.arbiter.notMem_releaseResourcesForCommand
      · exact honce
      · intro r
        rw [harbiter, allocated_releaseResourcesForCommand, hheld]
    · exact .inr hnotDenied
  · rename_i hdenied
    obtain ⟨harbiter, honce⟩ := hspec
    constructor
    · rintro ⟨hremoved, -, -⟩
      left
      rw [harbiter] at hremoved
      rw [← hheld]
      apply AList.lookup_eq_none.mpr hremoved
    · rintro (hnone | hnotDenied)
      · constructor
        · rw [harbiter, ← AList.lookup_eq_none, hheld, hnone]
        · rw [honce, hnone, Option.toList_none, List.append_nil]
        · intro r
          rw [harbiter, hnone]
          simp [givenBack]
      · exact absurd hnotDenied hdenied

/-- The command 0 without a destination, activated and accepted with a reservation of
memory. -/
def acceptedCommand : Option (Commanding Nat Int) :=
  StateMachine.run (step 1) [.activate 0, .executeOutboundQueue ResourceArbiter.keepingValues [0]]
    (start ∅ fun _ => none)

/-- The reservation of the command 0 after a success. -/
theorem reservation_ended_iff_success :
  ∃ s₀ s s', acceptedCommand = some s₀ ∧
    StateMachine.run (step 1) [.commandHandleReturn 0 .success] s₀ = some s ∧
    s.step 1 (.deactivate 0) = some s' ∧
    (Ended 0 s₀ s s' ↔ s₀.arbiter.cmdResMap.lookup 0 = none ∨
      lastHandle 0 (s₀.command 0).commandHandle
        [(.commandHandleReturn 0 .success : CommandEvent Nat Int)] ≠ .denied)
  := by
  have hrun : (acceptedCommand.bind fun s₀ =>
      (StateMachine.run (step 1) [.commandHandleReturn 0 .success] s₀).bind fun s =>
        (s.step 1 (.deactivate 0)).map fun _ => (s₀.command 0).active) = some true := by
    decide +kernel
  obtain ⟨s₀, hs₀, hrun⟩ := Option.bind_eq_some_iff.mp hrun
  obtain ⟨s, hs, hrun⟩ := Option.bind_eq_some_iff.mp hrun
  obtain ⟨s', hs', hactive⟩ := Option.map_eq_some_iff.mp hrun
  refine ⟨s₀, s, s', hs₀, hs, hs', ?_⟩
  refine reservation_ended_iff hactive ?_ hs hs'
  intro e he
  rw [List.mem_singleton.mp he]
  trivial

/-- A command which has been accepted and for which an interface reports COMMAND_DENIED
keeps its reservation. -/
theorem not_reservation_ended :
  ¬ ∀ (resourceValues : Nat → List ResourceValue) (cmds : List Nat) (cmd : Nat)
      (before s₀ s s' : Commanding Nat Int) (es : List (CommandEvent Nat Int)),
    (before.command cmd).active = true → Accepts 1 before resourceValues cmds cmd →
    before.step 1 (.executeOutboundQueue resourceValues cmds) = some s₀ →
    (∀ e ∈ es, During cmd e) → StateMachine.run (step 1) es s₀ = some s →
    s.step 1 (.deactivate cmd) = some s' → Ended cmd s₀ s s'
  := by
  intro h
  have hrun : (((start ∅ fun _ => none : Commanding Nat Int).step 1 (.activate 0)).bind fun before =>
      (before.arbiter.arbitrateCommands 1 ResourceArbiter.keepingValues [0]).bind fun result =>
        (before.step 1 (.executeOutboundQueue ResourceArbiter.keepingValues [0])).bind fun s₀ =>
          (StateMachine.run (step 1) [.commandHandleReturn 0 .denied] s₀).bind fun s =>
            (s.step 1 (.deactivate 0)).map fun s' =>
              ((before.command 0).active, result.2.1, s'.arbiter.cmdResMap.keys))
      = some (true, [0], [0]) := by
    decide +kernel
  obtain ⟨before, -, hrun⟩ := Option.bind_eq_some_iff.mp hrun
  obtain ⟨⟨a, accepted, rejected⟩, harbitrate, hrun⟩ := Option.bind_eq_some_iff.mp hrun
  obtain ⟨s₀, hs₀, hrun⟩ := Option.bind_eq_some_iff.mp hrun
  obtain ⟨s, hs, hrun⟩ := Option.bind_eq_some_iff.mp hrun
  obtain ⟨s', hs', hresult⟩ := Option.map_eq_some_iff.mp hrun
  obtain ⟨hactive, hresult⟩ := Prod.mk.inj hresult
  obtain ⟨haccepted, hkeys⟩ := Prod.mk.inj hresult
  change accepted = [0] at haccepted
  have haccepts : Accepts 1 before ResourceArbiter.keepingValues [0] 0 := by
    refine ⟨a, accepted, rejected, harbitrate, ?_⟩
    rw [haccepted]
    exact List.mem_singleton_self 0
  have hduring : ∀ e ∈ [(.commandHandleReturn 0 .denied : CommandEvent Nat Int)], During 0 e := by
    intro e he
    rw [List.mem_singleton.mp he]
    trivial
  have hended := h _ _ 0 before s₀ s s' _ hactive haccepts hs₀ hduring hs hs'
  apply hended.removed
  change 0 ∈ s'.arbiter.cmdResMap.keys
  rw [hkeys]
  exact List.mem_singleton_self 0

end Commanding

end Plexil
