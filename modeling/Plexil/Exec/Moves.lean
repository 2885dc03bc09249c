import Plexil.Exec.Step
import Plexil.Exec.TransitionSpec
import Plexil.Util.StateMachine

/-!
# The moves of the executive

`Move` has one rule for each thing that an event can do, with the condition under which
it happens.  It is the inversion of `perform`.
-/

namespace Plexil

/-- What one event does to the executive. -/
inductive Move (F : Forest) (s : Exec) : Event → Exec → Prop where
  | addPlan {root : NodePtr} :
      s.phase = .idle → (F.decl root).parent = none → root ∉ s.added →
      Move F s (.addPlan root) (s.addPlan root)
  | notify {n : NodePtr} :
      s.exists F n → Move F s (.notify n) (s.onCore (Core.withQueues (Queues.notify n)))
  | notifyResourceAvailable {n : NodePtr} :
      s.exists F n →
      Move F s (.notifyResourceAvailable n)
        (s.onCore (Core.withQueues (Queues.notifyResourceAvailable n)))
  | change {w : World} {ns : List NodePtr} :
      s.phase = .idle → s.allExist F ns → Move F s (.change w ns) (s.changeWorld w ns)
  | commandHandle {n : NodePtr} {h : CommandHandleValue} {w : World} {ns : List NodePtr} :
      s.phase = .idle → (F.decl n).nodeType = .command → h ≠ .noCommandHandle →
      s.allExist F (n :: ns) →
      Move F s (.commandHandle n h w ns) ((s.setCommandHandle n h).changeWorld w ns)
  | commandAbortAck {n : NodePtr} {ack : Bool} {w : World} {ns : List NodePtr} :
      s.phase = .idle → (F.decl n).nodeType = .command → s.allExist F (n :: ns) →
      Move F s (.commandAbortAck n ack w ns) ((s.acknowledgeAbort n ack).changeWorld w ns)
  | updateAck {n : NodePtr} {ack : Bool} {w : World} {ns : List NodePtr} :
      s.phase = .idle → (F.decl n).nodeType = .update → s.allExist F (n :: ns) →
      Move F s (.updateAck n ack w ns) ((s.acknowledgeUpdate n ack).changeWorld w ns)
  | step {startTime : Time} :
      s.phase = .idle → s.queues.stateChange = [] →
      Move F s (.step startTime) { s with time := startTime, phase := .evaluating }
  | deleteFinishedPlans :
      s.phase = .idle → Move F s .deleteFinishedPlans s.deleteFinishedPlans
  | evaluate {w : World} {ns rest : List NodePtr} {n : NodePtr} :
      s.phase = .evaluating → s.queues.candidate = n :: rest →
      Move F s (.next w ns) (s.evaluateCandidate F n rest)
  | resolve {w : World} {ns : List NodePtr} :
      s.phase = .evaluating → s.queues.candidate = [] →
      Move F s (.next w ns) (s.beginGathering F s.queues.pending)
  | gather {w : World} {ns acc rest : List NodePtr} {thisPriority : Int} {temp : NodePtr} :
      s.phase = .gathering thisPriority acc (temp :: rest) → F.priority temp = thisPriority →
      Move F s (.next w ns) (s.gather F thisPriority acc temp rest)
  | gathered {w : World} {ns acc chain : List NodePtr} {thisPriority : Int} :
      s.phase = .gathering thisPriority acc chain →
      (∀ temp ∈ chain.head?, F.priority temp ≠ thisPriority) →
      Move F s (.next w ns) { s with phase := .acquiring acc chain }
  | acquire {w : World} {ns rest chain : List NodePtr} {n : NodePtr} :
      s.phase = .acquiring (n :: rest) chain →
      Move F s (.next w ns) (s.acquireNode F n rest chain)
  | acquired {w : World} {ns chain : List NodePtr} :
      s.phase = .acquiring [] chain → Move F s (.next w ns) (s.beginGathering F chain)
  | transition {w : World} {ns rest : List NodePtr} {n : NodePtr} :
      s.phase = .transitioning → s.queues.stateChange = n :: rest → s.allExist F ns →
      Move F s (.next w ns) ((s.transitionNode F n rest).changeWorld w ns)
  | continueLoop {w : World} {ns : List NodePtr} :
      s.phase = .transitioning → s.queues.stateChange = [] → s.continuesLoop = true →
      Move F s (.next w ns) { s with phase := .evaluating }
  | leaveLoop {w : World} {ns : List NodePtr} :
      s.phase = .transitioning → s.queues.stateChange = [] → s.continuesLoop = false →
      Move F s (.next w ns) s.leaveLoop
  | executeAssignment {w : World} {ns rest : List NodePtr} {n : NodePtr} :
      s.phase = .executingAssignments (n :: rest) → s.allExist F ns →
      Move F s (.next w ns)
        ({ s.executeAssignment n with phase := .executingAssignments rest }.changeWorld w ns)
  | assignmentsExecuted {w : World} {ns : List NodePtr} :
      s.phase = .executingAssignments [] →
      Move F s (.next w ns)
        { s with
          output := { s.output with assignmentsToExecute := [] }
          phase := .retractingAssignments s.output.assignmentsToRetract }
  | retractAssignment {w : World} {ns rest : List NodePtr} {n : NodePtr} :
      s.phase = .retractingAssignments (n :: rest) → s.allExist F ns →
      Move F s (.next w ns)
        ({ s.retractAssignment n with phase := .retractingAssignments rest }.changeWorld w ns)
  | arbitrate {w : World} {ns : List NodePtr} {s' : Exec} :
      s.phase = .retractingAssignments [] →
      ({ s with output := { s.output with assignmentsToRetract := [] } }).arbitrate = some s' →
      Move F s (.next w ns) s'
  | executeCommand {w : World} {ns accepted rejected : List NodePtr} {n : NodePtr} :
      s.phase = .executingCommands (n :: accepted) rejected → s.allExist F ns →
      Move F s (.next w ns) ((s.executeCommand n accepted rejected).changeWorld w ns)
  | reportFailure {w : World} {ns rejected : List NodePtr} {n : NodePtr} :
      s.phase = .executingCommands [] (n :: rejected) → s.allExist F ns →
      Move F s (.next w ns) ((s.reportCommandArbitrationFailure n rejected).changeWorld w ns)
  | commandsExecuted {w : World} {ns : List NodePtr} :
      s.phase = .executingCommands [] [] →
      Move F s (.next w ns) { s with phase := .abortingCommands }
  | invokeAbort {w : World} {ns rest : List NodePtr} {n : NodePtr} :
      s.phase = .abortingCommands → s.output.commandsToAbort = n :: rest → s.allExist F ns →
      Move F s (.next w ns) ((s.invokeAbort n rest).changeWorld w ns)
  | abortsInvoked {w : World} {ns : List NodePtr} :
      s.phase = .abortingCommands → s.output.commandsToAbort = [] →
      Move F s (.next w ns) { s with phase := .executingUpdates }
  | executeUpdate {w : World} {ns rest : List NodePtr} {n : NodePtr} :
      s.phase = .executingUpdates → s.output.updatesToExecute = n :: rest → s.allExist F ns →
      Move F s (.next w ns) ((s.executeUpdate n rest).changeWorld w ns)
  | updatesExecuted {w : World} {ns : List NodePtr} :
      s.phase = .executingUpdates → s.output.updatesToExecute = [] →
      Move F s (.next w ns) { s with phase := .idle }

namespace Move

variable {F : Forest} {s s' : Exec} {e : Event}

theorem of_advance {w : World} {ns : List NodePtr} (hns : s.allExist F ns)
    (h : s.advance F w ns = some s') :
  Move F s (.next w ns) s'
  := by
  unfold Exec.advance at h
  cases hphase : s.phase <;> simp only [hphase] at h
  case idle => cases h
  case evaluating =>
    split at h
    · rename_i n rest hcandidate
      cases h
      exact .evaluate hphase hcandidate
    · rename_i hcandidate
      cases h
      exact .resolve hphase hcandidate
  case gathering thisPriority acc chain =>
    split at h
    · cases h
      exact .gathered hphase (by simp)
    · rename_i temp rest
      split at h
      · rename_i hpriority
        cases h
        exact .gather hphase hpriority
      · rename_i hpriority
        cases h
        exact .gathered hphase (by simpa using hpriority)
  case acquiring nodes chain =>
    split at h
    · cases h
      exact .acquire hphase
    · cases h
      exact .acquired hphase
  case transitioning =>
    split at h
    · rename_i n rest hstateChange
      cases h
      exact .transition hphase hstateChange hns
    · rename_i hstateChange
      cases hcontinue : s.continuesLoop <;> rw [hcontinue] at h <;> cases h
      · exact .leaveLoop hphase hstateChange hcontinue
      · exact .continueLoop hphase hstateChange hcontinue
  case executingAssignments rest =>
    cases rest with
    | nil =>
      cases h
      exact .assignmentsExecuted hphase
    | cons n rest =>
      cases h
      exact .executeAssignment hphase hns
  case retractingAssignments rest =>
    cases rest with
    | nil => exact .arbitrate hphase h
    | cons n rest =>
      cases h
      exact .retractAssignment hphase hns
  case executingCommands accepted rejected =>
    cases accepted with
    | cons n accepted =>
      cases h
      exact .executeCommand hphase hns
    | nil =>
      cases rejected with
      | nil =>
        cases h
        exact .commandsExecuted hphase
      | cons n rejected =>
        cases h
        exact .reportFailure hphase hns
  case abortingCommands =>
    split at h
    · rename_i n rest houtput
      cases h
      exact .invokeAbort hphase houtput hns
    · rename_i houtput
      cases h
      exact .abortsInvoked hphase houtput
  case executingUpdates =>
    split at h
    · rename_i n rest houtput
      cases h
      exact .executeUpdate hphase houtput hns
    · rename_i houtput
      cases h
      exact .updatesExecuted hphase houtput

theorem of_perform (h : s.perform F e = some s') : Move F s e s'
  := by
  cases e <;> simp only [Exec.perform, Option.ite_none_right_eq_some, Option.some.injEq] at h
  case addPlan root =>
    obtain ⟨⟨hphase, hroot, hadded⟩, rfl⟩ := h
    exact .addPlan hphase hroot hadded
  case notify n =>
    obtain ⟨hexists, rfl⟩ := h
    exact .notify hexists
  case notifyResourceAvailable n =>
    obtain ⟨hexists, rfl⟩ := h
    exact .notifyResourceAvailable hexists
  case change w ns =>
    obtain ⟨⟨hphase, hns⟩, rfl⟩ := h
    exact .change hphase hns
  case commandHandle n handle w ns =>
    obtain ⟨⟨hphase, htype, hhandle, hns⟩, rfl⟩ := h
    exact .commandHandle hphase htype hhandle hns
  case commandAbortAck n ack w ns =>
    obtain ⟨⟨hphase, htype, hns⟩, rfl⟩ := h
    exact .commandAbortAck hphase htype hns
  case updateAck n ack w ns =>
    obtain ⟨⟨hphase, htype, hns⟩, rfl⟩ := h
    exact .updateAck hphase htype hns
  case step startTime =>
    obtain ⟨⟨hphase, hstateChange⟩, rfl⟩ := h
    exact .step hphase hstateChange
  case next w ns =>
    obtain ⟨hns, h⟩ := h
    exact .of_advance hns h
  case deleteFinishedPlans =>
    obtain ⟨hphase, rfl⟩ := h
    exact .deleteFinishedPlans hphase

theorem of_apply (h : s.apply F e = some s') : Move F s e s'
  := of_perform (Option.filter_eq_some_iff.mp h).1

end Move
end Plexil
