import Plexil.Intfc.CommandReservations
import Plexil.Util.StateMachine

/-!
# Late reports

What the interfaces report for a command waits in the input queue until `processQueue` hands
it over.  An entry of the queue has a pointer to the command and does not say for which of its
executions the report is.  Here each report is marked with the execution it was made for, by
the number of activations of the command; no step depends on the mark.
-/

namespace Plexil

variable {C α : Type} [DecidableEq C]

/-- What an interface reports for a command. -/
inductive Report (α : Type) where
  | ack (handle : CommandHandleValue)
  | returnValue (val : Value α)
  | abortAck (ack : Bool)

/-- What is put in the queue: `handleCommandAck` replaces an invalid handle. -/
def Report.queued : Report α → Report α
  | .ack .noCommandHandle => .ack .interfaceError
  | report => report

/-- `commandHandleReturn`, `commandReturn` or `commandAbortAcknowledge`. -/
def Report.event (cmd : C) : Report α → CommandEvent C α
  | .ack handle => .commandHandleReturn cmd handle
  | .returnValue val => .commandReturn cmd val
  | .abortAck value => .commandAbortAcknowledge cmd value

/-- An entry of the input queue. -/
structure PostedReport (C α : Type) where
  command : C
  execution : Nat
  report : Report α

/-- A report which has been handed over in the execution `during`, with the command before and
after. -/
structure DeliveredReport (C α : Type) where
  posted : PostedReport C α
  during : Nat
  before : CommandImpl α
  after : CommandImpl α

structure Reporting (C α : Type) where
  commands : Commanding C α
  /-- The number of activations of a command. -/
  execution : C → Nat
  queue : List (PostedReport C α)
  delivered : List (DeliveredReport C α)

namespace Reporting

/-- The steps of the executive, the calls of the interface manager by the interfaces, and one
round of the loop of `processQueue`. -/
inductive Event (C α : Type) where
  | activate (cmd : C)
  | executeOutboundQueue (resourceValues : C → List ResourceValue) (cmds : List C)
  | deactivate (cmd : C)
  | post (report : PostedReport C α)
  | deliver

def deliver (depth : Nat) (s : Reporting C α) : Option (Reporting C α) :=
  match s.queue with
  | [] => none
  | p :: rest =>
    (s.commands.step depth (p.report.event p.command)).map fun commands =>
      { s with
        commands := commands
        queue := rest
        delivered := s.delivered ++ [⟨p, s.execution p.command, s.commands.command p.command,
          commands.command p.command⟩] }

/-- A report is made for an execution which has begun. -/
def post (report : PostedReport C α) (s : Reporting C α) : Option (Reporting C α) :=
  if 1 ≤ report.execution ∧ report.execution ≤ s.execution report.command then
    some { s with queue := s.queue ++ [{ report with report := report.report.queued }] }
  else none

def step (depth : Nat) (s : Reporting C α) : Event C α → Option (Reporting C α)
  | .activate cmd =>
    (s.commands.step depth (.activate cmd)).map fun commands =>
      { s with
        commands := commands
        execution := Function.update s.execution cmd (s.execution cmd + 1) }
  | .executeOutboundQueue resourceValues cmds =>
    (s.commands.step depth (.executeOutboundQueue resourceValues cmds)).map fun commands =>
      { s with commands := commands }
  | .deactivate cmd =>
    (s.commands.step depth (.deactivate cmd)).map fun commands => { s with commands := commands }
  | .post report => s.post report
  | .deliver => s.deliver depth

/-- Commands which have not been activated, and an empty queue. -/
def start (resourceHierarchy : ResourceHierarchyMap) (dest : C → Option (Variable α)) :
    Reporting C α :=
  ⟨.start resourceHierarchy dest, fun _ => 0, [], []⟩

/-- The reports of one execution do not change a later one. -/
def IgnoresLateReports (s : Reporting C α) : Prop :=
  ∀ d ∈ s.delivered, d.posted.execution < d.during → d.after = d.before

/-- A report which is made for an earlier execution is not handed over while the command is
active. -/
def InTime (s : Reporting C α) : Event C α → Prop
  | .deliver => ∀ p, s.queue.head? = some p → p.execution < s.execution p.command →
      (s.commands.command p.command).active = false
  | _ => True

instance (s : Reporting C α) (e : Event C α) : Decidable (s.InTime e) := by
  unfold InTime
  split
  · exact decidable_of_iff (∀ p ∈ s.queue.head?, p.execution < s.execution p.command →
      (s.commands.command p.command).active = false) Iff.rfl
  · infer_instance

/-- A command is activated when no reports for it wait in the queue, and reports are made for
the last execution of their command only. -/
def Drained (s : Reporting C α) : Event C α → Prop
  | .activate cmd => ∀ p ∈ s.queue, p.command ≠ cmd
  | .post report => report.execution = s.execution report.command
  | _ => True

variable {depth : Nat} {s s' : Reporting C α} {e : Event C α}

/-- A command which is not active takes no reports. -/
theorem step_report_of_inactive {commands commands' : Commanding C α} {cmd : C}
    {report : Report α} (hinactive : (commands.command cmd).active = false)
    (h : commands.step depth (report.event cmd) = some commands') :
  commands'.command cmd = commands.command cmd
  := by
  cases report with
  | ack handle =>
    obtain ⟨x, hx, rfl⟩ := Option.map_eq_some_iff.mp h
    rw [CommandImpl.setCommandHandle, hinactive] at hx
    cases hx
    apply Function.update_self
  | returnValue val =>
    obtain ⟨x, hx, rfl⟩ := Option.map_eq_some_iff.mp h
    rw [CommandImpl.returnValue, hinactive] at hx
    cases hx
    apply Function.update_self
  | abortAck ack =>
    cases h
    have hsame : (commands.command cmd).acknowledgeAbort ack = commands.command cmd := by
      rw [CommandImpl.acknowledgeAbort, hinactive]
      rfl
    rw [hsame]
    apply Function.update_self

/-- The step lemma. -/
theorem IgnoresLateReports.step (hs : s.IgnoresLateReports) (hintime : s.InTime e)
    (h : s.step depth e = some s') :
  s'.IgnoresLateReports
  := by
  cases e with
  | activate cmd =>
    obtain ⟨commands, -, rfl⟩ := Option.map_eq_some_iff.mp h
    exact hs
  | executeOutboundQueue resourceValues cmds =>
    obtain ⟨commands, -, rfl⟩ := Option.map_eq_some_iff.mp h
    exact hs
  | deactivate cmd =>
    obtain ⟨commands, -, rfl⟩ := Option.map_eq_some_iff.mp h
    exact hs
  | post report =>
    change s.post report = some s' at h
    unfold post at h
    split at h
    · cases h
      exact hs
    · cases h
  | deliver =>
    change s.deliver depth = some s' at h
    unfold deliver at h
    split at h
    · cases h
    · rename_i p rest hqueue
      obtain ⟨commands, hcommands, rfl⟩ := Option.map_eq_some_iff.mp h
      intro d hd hlate
      obtain hd | hd := List.mem_append.mp hd
      · exact hs d hd hlate
      · rw [List.mem_singleton.mp hd] at hlate ⊢
        apply step_report_of_inactive _ hcommands
        exact hintime p (by rw [hqueue]; rfl) hlate

/-- When no report of an earlier execution is handed over to an active command, then in every
run no report changes a later execution. -/
theorem ignoresLateReports (resourceHierarchy : ResourceHierarchyMap)
    (dest : C → Option (Variable α))
    (h : StateMachine.Reachable (step depth) (· = start resourceHierarchy dest) InTime s) :
  s.IgnoresLateReports
  := by
  apply h.invariant
  · rintro _ rfl d hd
    cases hd
  · intro s e s' hs hintime hstep
    exact hs.step hintime hstep

/-- A command which is deactivated takes no report of the execution which has ended. -/
theorem ignoresLateReports_deactivated :
  ∃ s : Reporting Unit Nat, StateMachine.checkedRun (step 1) InTime
      [.activate (), .post ⟨(), 1, .ack .accepted⟩, .deactivate (), .deliver]
      (start ∅ fun _ => none) = some s ∧ s.IgnoresLateReports
  := by
  have hrun : (StateMachine.checkedRun (step 1) InTime
      [.activate (), .post ⟨(), 1, .ack .accepted⟩, .deactivate (), .deliver]
      (start ∅ fun _ => none : Reporting Unit Nat)).isSome = true := by
    decide +kernel
  obtain ⟨s, hs⟩ := Option.isSome_iff_exists.mp hrun
  use s, hs
  have hreach : StateMachine.Reachable (step 1) (· = start ∅ fun _ => none) InTime s :=
    .of_checkedRun (.init rfl) hs
  exact ignoresLateReports ∅ (fun _ => none) hreach

/-- The success of the first execution is taken for one of the second. -/
theorem not_ignoresLateReports :
  ¬ ∀ s : Reporting Unit Nat,
    StateMachine.Reachable (step 1) (· = start ∅ fun _ => none) (fun _ _ => True) s →
      s.IgnoresLateReports
  := by
  intro h
  have hrun : (StateMachine.run (step 1)
      [.activate (), .post ⟨(), 1, .ack .success⟩, .deactivate (), .activate (), .deliver]
      (start ∅ fun _ => none : Reporting Unit Nat)).map (fun s => s.delivered.map fun d =>
        (d.posted.execution, d.during, d.before.commandHandle, d.after.commandHandle))
      = some [(1, 2, .noCommandHandle, .success)] := by
    decide +kernel
  obtain ⟨s, hs, hdelivered⟩ := Option.map_eq_some_iff.mp hrun
  have hreports := h s (.of_run (.init rfl) hs)
  obtain ⟨d, hd, hreport⟩ := List.map_eq_singleton_iff.mp hdelivered
  obtain ⟨hexecution, hduring, hbefore, hafter⟩ : d.posted.execution = 1 ∧ d.during = 2 ∧
      d.before.commandHandle = .noCommandHandle ∧ d.after.commandHandle = .success := by
    simpa only [Prod.mk.injEq] using hreport
  have hsame : d.after = d.before := by
    apply hreports d
    · rw [hd]
      exact List.mem_singleton_self d
    · omega
  rw [hsame, hbefore] at hafter
  cases hafter

/-! ### Draining the queue -/

/-- Each report in the queue is for the last execution of its command. -/
def Current (s : Reporting C α) : Prop :=
  ∀ p ∈ s.queue, p.execution = s.execution p.command

omit [DecidableEq C] in
theorem Current.inTime (h : s.Current) (e : Event C α) :
  s.InTime e
  := by
  cases e with
  | deliver =>
    intro p hp hlate
    have := h p (List.mem_of_mem_head? hp)
    omega
  | _ => trivial

theorem Current.step (hs : s.Current) (hdrained : s.Drained e) (h : s.step depth e = some s') :
  s'.Current
  := by
  cases e with
  | activate cmd =>
    obtain ⟨commands, -, rfl⟩ := Option.map_eq_some_iff.mp h
    intro p hp
    change p.execution = Function.update s.execution cmd (s.execution cmd + 1) p.command
    rw [Function.update_of_ne (hdrained p hp)]
    exact hs p hp
  | executeOutboundQueue resourceValues cmds =>
    obtain ⟨commands, -, rfl⟩ := Option.map_eq_some_iff.mp h
    exact hs
  | deactivate cmd =>
    obtain ⟨commands, -, rfl⟩ := Option.map_eq_some_iff.mp h
    exact hs
  | post report =>
    change s.post report = some s' at h
    unfold post at h
    split at h
    · cases h
      intro p hp
      obtain hp | hp := List.mem_append.mp hp
      · exact hs p hp
      · rw [List.mem_singleton.mp hp]
        exact hdrained
    · cases h
  | deliver =>
    change s.deliver depth = some s' at h
    unfold deliver at h
    split at h
    · cases h
    · rename_i p rest hqueue
      obtain ⟨commands, -, rfl⟩ := Option.map_eq_some_iff.mp h
      intro p' hp'
      apply hs
      rw [hqueue]
      exact List.mem_cons_of_mem p hp'

/-- It is enough that the queue is drained before a command is activated again. -/
theorem reachable_inTime_of_drained {resourceHierarchy : ResourceHierarchyMap}
    {dest : C → Option (Variable α)}
    (h : StateMachine.Reachable (step depth) (· = start resourceHierarchy dest) Drained s) :
  StateMachine.Reachable (step depth) (· = start resourceHierarchy dest) InTime s
  := by
  have hcurrent : ∀ s, StateMachine.Reachable (step depth) (· = start resourceHierarchy dest)
      Drained s → s.Current := by
    intro s hs
    apply hs.invariant
    · rintro _ rfl p hp
      cases hp
    · intro s e s' hs hdrained hstep
      exact hs.step hdrained hstep
  induction h with
  | init hinit => exact .init hinit
  | step hs _ hstep ih => exact .step ih ((hcurrent _ hs).inTime _) hstep

end Reporting

end Plexil
