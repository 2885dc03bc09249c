import Mathlib.Data.Prod.Lex
import Mathlib.Order.OrderIsoNat
import Plexil.Exec.CoreStep

/-!
# The phases of a step

The quiescence loop leaves the state change queue empty, and each loop over an output queue
leaves that queue empty.  In particular all of these queues are empty outside of `step`.
-/

namespace Plexil

/-- How far a call of `step` has come. -/
def Phase.stage : Phase → Nat
  | .evaluating | .gathering _ _ _ | .acquiring _ _ => 0
  | .transitioning => 1
  | .executingAssignments _ => 2
  | .retractingAssignments _ => 3
  | .executingCommands _ _ => 4
  | .abortingCommands => 5
  | .executingUpdates => 6
  | .idle => 7

namespace Exec

/-- The queues which are empty in the current phase. -/
structure InPhase (s : Exec) : Prop where
  stateChange : 2 ≤ s.phase.stage → s.queues.stateChange = []
  assignmentsToExecute : s.phase.stage = 0 ∨ 3 ≤ s.phase.stage → s.output.assignmentsToExecute = []
  assignmentsToRetract : s.phase.stage = 0 ∨ 4 ≤ s.phase.stage → s.output.assignmentsToRetract = []
  commandsToExecute : s.phase.stage = 0 ∨ 4 ≤ s.phase.stage → s.output.commandsToExecute = []
  commandsToAbort : s.phase.stage = 0 ∨ 6 ≤ s.phase.stage → s.output.commandsToAbort = []
  updatesToExecute : 7 ≤ s.phase.stage → s.output.updatesToExecute = []

variable {F : Forest} {s s' : Exec} {e : Event}

/-- Nothing changes but what the phases do not speak of. -/
theorem InPhase.congr (h : s.InPhase) (hphase : s'.phase.stage = s.phase.stage)
    (houtput : s'.output = s.output) (hstateChange : s'.queues.stateChange = s.queues.stateChange) :
  s'.InPhase
  := by
  constructor
  case stateChange =>
    rw [hphase, hstateChange]
    exact h.stateChange
  all_goals rw [hphase, houtput]
  case assignmentsToExecute => exact h.assignmentsToExecute
  case assignmentsToRetract => exact h.assignmentsToRetract
  case commandsToExecute => exact h.commandsToExecute
  case commandsToAbort => exact h.commandsToAbort
  case updatesToExecute => exact h.updatesToExecute

/-- In the first phases only updates can be in an output queue. -/
theorem InPhase.of_stage_zero (hstage : s.phase.stage = 0)
    (hexecute : s.output.assignmentsToExecute = []) (hretract : s.output.assignmentsToRetract = [])
    (hcommands : s.output.commandsToExecute = []) (habort : s.output.commandsToAbort = []) :
  s.InPhase
  := by
  constructor
  case stateChange => omega
  case assignmentsToExecute => exact fun _ => hexecute
  case assignmentsToRetract => exact fun _ => hretract
  case commandsToExecute => exact fun _ => hcommands
  case commandsToAbort => exact fun _ => habort
  case updatesToExecute => omega

theorem InPhase.beginGathering (h : s.InPhase) (hstage : s.phase.stage = 0)
    (chain : List NodePtr) :
  (s.beginGathering F chain).InPhase
  := by
  unfold Exec.beginGathering beginTransitions
  split
  · split
    · rename_i hstateChange
      constructor
      case stateChange => exact fun _ => hstateChange
      all_goals simp [leaveLoop, Phase.stage]
    · constructor <;> simp [Phase.stage]
  · exact .of_stage_zero rfl (h.assignmentsToExecute (.inl hstage))
      (h.assignmentsToRetract (.inl hstage)) (h.commandsToExecute (.inl hstage))
      (h.commandsToAbort (.inl hstage))

end Exec

theorem Move.inPhase {F : Forest} {s s' : Exec} {e : Event} (h : Move F s e s') (hs : s.InPhase) :
  s'.InPhase
  := by
  have early (hstage : s.phase.stage = 0) (hstage' : s'.phase.stage = 0)
      (houtput : s'.output = s.output) : s'.InPhase := by
    apply Exec.InPhase.of_stage_zero hstage' <;> rw [houtput]
    · exact hs.assignmentsToExecute (.inl hstage)
    · exact hs.assignmentsToRetract (.inl hstage)
    · exact hs.commandsToExecute (.inl hstage)
    · exact hs.commandsToAbort (.inl hstage)
  cases h
  case addPlan root hphase hroot hadded => exact hs.congr rfl rfl Queues.stateChange_notify
  case notify n hexists => exact hs.congr rfl rfl Queues.stateChange_notify
  case notifyResourceAvailable n hexists =>
    exact hs.congr rfl rfl Queues.stateChange_notifyResourceAvailable
  case change w ns hphase hns =>
    exact hs.congr rfl rfl (Queues.stateChange_notifyAll ns)
  case commandHandle n handle w ns hphase htype hhandle hns =>
    exact hs.congr rfl rfl (Queues.stateChange_notifyAll ns)
  case commandAbortAck n ack w ns hphase htype hns =>
    exact hs.congr rfl rfl (Queues.stateChange_notifyAll ns)
  case updateAck n ack w ns hphase htype hns =>
    exact hs.congr rfl rfl (Queues.stateChange_notifyAll ns)
  case deleteFinishedPlans hphase => exact hs.congr rfl rfl rfl
  case step startTime hphase hstateChange =>
    have hstage : s.phase.stage = 7 := congrArg Phase.stage hphase
    exact .of_stage_zero rfl (hs.assignmentsToExecute (by omega))
      (hs.assignmentsToRetract (by omega)) (hs.commandsToExecute (by omega))
      (hs.commandsToAbort (by omega))
  case evaluate w ns rest n hphase hcandidate =>
    exact early (congrArg Phase.stage hphase) (congrArg Phase.stage hphase) rfl
  case resolve w ns hphase hcandidate =>
    exact hs.beginGathering (by rw [hphase]; rfl) _
  case gather w ns acc rest thisPriority temp hphase hpriority =>
    exact early (by rw [hphase]; rfl) rfl rfl
  case gathered w ns acc chain thisPriority hphase hpriority =>
    exact early (by rw [hphase]; rfl) rfl rfl
  case acquire w ns rest chain n hphase =>
    exact early (by rw [hphase]; rfl) rfl rfl
  case acquired w ns chain hphase =>
    exact hs.beginGathering (by rw [hphase]; rfl) _
  case transition w ns rest n hphase hstateChange hns =>
    have hstage' : ((s.transitionNode F n rest).changeWorld w ns).phase.stage = 1 := by
      change (s.transitionNode F n rest).phase.stage = 1
      rw [Exec.phase_transitionNode, hphase]
      rfl
    constructor <;> omega
  case continueLoop w ns hphase hstateChange hcontinue =>
    unfold Exec.continuesLoop at hcontinue
    simp only [Bool.and_eq_true, List.isEmpty_iff] at hcontinue
    obtain ⟨⟨⟨⟨hexecute, hretract⟩, hcommands⟩, habort⟩, -⟩ := hcontinue
    exact .of_stage_zero rfl hexecute hretract hcommands habort
  case leaveLoop w ns hphase hstateChange hcontinue =>
    constructor
    case stateChange => exact fun _ => hstateChange
    all_goals simp [Exec.leaveLoop, Phase.stage]
  case executeAssignment w ns rest n hphase hns =>
    exact hs.congr (by rw [hphase]; rfl) rfl (Queues.stateChange_notifyAll ns)
  case assignmentsExecuted w ns hphase =>
    have hstateChange := hs.stateChange (by rw [hphase]; decide)
    constructor
    case stateChange => exact fun _ => hstateChange
    all_goals simp [Phase.stage]
  case retractAssignment w ns rest n hphase hns =>
    exact hs.congr (by rw [hphase]; rfl) rfl (Queues.stateChange_notifyAll ns)
  case arbitrate w ns hphase harbitrate =>
    have hstateChange := hs.stateChange (by rw [hphase]; decide)
    have hexecute := hs.assignmentsToExecute (by rw [hphase]; decide)
    unfold Exec.arbitrate at harbitrate
    split at harbitrate
    · rename_i hcommands
      cases harbitrate
      constructor
      case stateChange => exact fun _ => hstateChange
      case assignmentsToExecute => exact fun _ => hexecute
      case commandsToExecute => exact fun _ => hcommands
      all_goals simp [Phase.stage]
    · obtain ⟨⟨arbiter, accepted, rejected⟩, -, rfl⟩ := Option.map_eq_some_iff.mp harbitrate
      constructor
      case stateChange => exact fun _ => hstateChange
      case assignmentsToExecute => exact fun _ => hexecute
      all_goals simp [Phase.stage]
  case executeCommand w ns accepted rejected n hphase hns =>
    exact hs.congr (by rw [hphase]; rfl) rfl (Queues.stateChange_notifyAll ns)
  case reportFailure w ns rejected n hphase hns =>
    exact hs.congr (by rw [hphase]; rfl) rfl (Queues.stateChange_notifyAll ns)
  case commandsExecuted w ns hphase =>
    have hstage : s.phase.stage = 4 := congrArg Phase.stage hphase
    constructor
    case stateChange => exact fun _ => hs.stateChange (by omega)
    case assignmentsToExecute => exact fun _ => hs.assignmentsToExecute (by omega)
    case assignmentsToRetract => exact fun _ => hs.assignmentsToRetract (by omega)
    case commandsToExecute => exact fun _ => hs.commandsToExecute (by omega)
    all_goals simp [Phase.stage]
  case invokeAbort w ns rest n hphase houtput hns =>
    have hstage : s.phase.stage = 5 := congrArg Phase.stage hphase
    have hstage' : ((s.invokeAbort n rest).changeWorld w ns).phase.stage = 5 := hstage
    constructor
    case stateChange =>
      exact fun _ => (Queues.stateChange_notifyAll ns).trans (hs.stateChange (by omega))
    case assignmentsToExecute => exact fun _ => hs.assignmentsToExecute (by omega)
    case assignmentsToRetract => exact fun _ => hs.assignmentsToRetract (by omega)
    case commandsToExecute => exact fun _ => hs.commandsToExecute (by omega)
    all_goals omega
  case abortsInvoked w ns hphase houtput =>
    have hstage : s.phase.stage = 5 := congrArg Phase.stage hphase
    constructor
    case stateChange => exact fun _ => hs.stateChange (by omega)
    case assignmentsToExecute => exact fun _ => hs.assignmentsToExecute (by omega)
    case assignmentsToRetract => exact fun _ => hs.assignmentsToRetract (by omega)
    case commandsToExecute => exact fun _ => hs.commandsToExecute (by omega)
    case commandsToAbort => exact fun _ => houtput
    case updatesToExecute => simp [Phase.stage]
  case executeUpdate w ns rest n hphase houtput hns =>
    have hstage : s.phase.stage = 6 := congrArg Phase.stage hphase
    have hstage' : ((s.executeUpdate n rest).changeWorld w ns).phase.stage = 6 := hstage
    constructor
    case stateChange =>
      exact fun _ => (Queues.stateChange_notifyAll ns).trans (hs.stateChange (by omega))
    case assignmentsToExecute => exact fun _ => hs.assignmentsToExecute (by omega)
    case assignmentsToRetract => exact fun _ => hs.assignmentsToRetract (by omega)
    case commandsToExecute => exact fun _ => hs.commandsToExecute (by omega)
    case commandsToAbort => exact fun _ => hs.commandsToAbort (by omega)
    case updatesToExecute => omega
  case updatesExecuted w ns hphase houtput =>
    have hstage : s.phase.stage = 6 := congrArg Phase.stage hphase
    constructor
    case stateChange => exact fun _ => hs.stateChange (by omega)
    case assignmentsToExecute => exact fun _ => hs.assignmentsToExecute (by omega)
    case assignmentsToRetract => exact fun _ => hs.assignmentsToRetract (by omega)
    case commandsToExecute => exact fun _ => hs.commandsToExecute (by omega)
    case commandsToAbort => exact fun _ => hs.commandsToAbort (by omega)
    case updatesToExecute => exact fun _ => houtput

namespace Exec

theorem Reachable.inPhase {F : Forest} {Allowed : Exec → Event → Prop} {s : Exec}
    (h : Reachable F Allowed s) :
  s.InPhase
  := by
  apply h.invariant (P := InPhase)
  · rintro s ⟨hierarchy, w, rfl⟩
    constructor <;> exact fun _ => rfl
  · exact fun s e s' hs _ hstep => (Move.of_apply hstep).inPhase hs

/-- Outside of `step` no node is queued for a transition. -/
theorem Reachable.stateChange_of_idle {F : Forest} {Allowed : Exec → Event → Prop} {s : Exec}
    (h : Reachable F Allowed s) (hphase : s.phase = .idle) :
  s.queues.stateChange = []
  := h.inPhase.stateChange (by rw [hphase]; decide)

/-! ### A step which does not end -/

/-- The next small step is the transition of a node. -/
def MakesTransition (s : Exec) : Prop := s.phase = .transitioning ∧ s.queues.stateChange ≠ []

/-- The loop which is running and how much of it remains, without the transitions. -/
def remaining (F : Forest) (s : Exec) : ℕ ×ₗ ℕ :=
  match s.phase with
  | .transitioning => if s.queues.stateChange = [] then toLex (8, 0) else toLex (5, 0)
  | .evaluating => toLex (7, s.queues.candidate.length)
  | .gathering thisPriority priorityNodes chain =>
    toLex (6, 4 * chain.length + priorityNodes.length +
      if chain.head?.map F.priority = some thisPriority then 0 else 2)
  | .acquiring priorityNodes chain => toLex (6, 4 * chain.length + priorityNodes.length + 1)
  | .executingAssignments rest => toLex (4, rest.length + 1)
  | .retractingAssignments rest => toLex (3, rest.length + 1)
  | .executingCommands accepted rejected => toLex (2, accepted.length + rejected.length + 1)
  | .abortingCommands => toLex (1, s.output.commandsToAbort.length + 1)
  | .executingUpdates => toLex (0, s.output.updatesToExecute.length + 1)
  | .idle => toLex (0, 0)

variable {F : Forest} {s s' : Exec}

theorem candidate_evaluateCandidate (n : NodePtr) (rest : List NodePtr) :
  (s.evaluateCandidate F n rest).queues.candidate = rest
  := by
  have hdest (d : Option Dest) (c : Core) :
      (c.getDestState F n d).queues.candidate = c.queues.candidate := by
    unfold Core.getDestState
    split <;> rfl
  unfold evaluateCandidate onCore Core.evaluateCandidate
  dsimp only
  split
  · exact hdest _ _
  · split
    · exact hdest _ _
    · change (Queues.addStateChangeNode n _).candidate = rest
      unfold Queues.addStateChangeNode
      split <;> exact hdest _ _

theorem loop_lt {i j k l : ℕ} (h : i < j) : (toLex (i, k) : ℕ ×ₗ ℕ) < toLex (j, l)
  := Prod.Lex.toLex_lt_toLex.mpr (.inl h)

theorem queue_lt {i k l : ℕ} (h : k < l) : (toLex (i, k) : ℕ ×ₗ ℕ) < toLex (i, l)
  := Prod.Lex.toLex_lt_toLex.mpr (.inr ⟨rfl, h⟩)

/-- The collection starts with a node of the right priority, if there is one. -/
theorem remaining_beginGathering (chain : List NodePtr) :
  (s.beginGathering F chain).remaining F ≤ toLex (6, 4 * chain.length)
  := by
  unfold beginGathering
  split
  · unfold beginTransitions
    split
    · exact (loop_lt (by omega)).le
    · rename_i hstateChange
      rw [remaining]
      dsimp only
      rw [hstateChange, if_neg (List.cons_ne_nil _ _)]
      exact (loop_lt (by omega)).le
  · rw [remaining]
    simp

theorem remaining_arbitrate {l : ℕ} (h : s.arbitrate = some s') :
  s'.remaining F < toLex (3, l)
  := by
  unfold arbitrate at h
  split at h
  · cases h
    exact loop_lt (by omega)
  · obtain ⟨⟨arbiter, accepted, rejected⟩, -, rfl⟩ := Option.map_eq_some_iff.mp h
    exact loop_lt (by omega)

/-- A node which is collected leaves the chain shorter. -/
theorem remaining_gather {thisPriority : Int} {acc rest : List NodePtr} {temp : NodePtr} :
  (s.gather F thisPriority acc temp rest).remaining F <
    toLex (6, 4 * (temp :: rest).length + acc.length)
  := by
  unfold gather remaining
  dsimp only
  apply queue_lt
  have hacc (b : Bool) : (if b then acc ++ [temp] else acc).length ≤ acc.length + 1 := by
    cases b <;> simp
  have hrest (p : Prop) [Decidable p] : (if p then rest else []).length ≤ rest.length := by
    split <;> simp
  have hpriority (p : Prop) [Decidable p] : (if p then 0 else 2) ≤ 2 := by
    split <;> omega
  have := hacc (s.toCore.resourceCheckEligible F temp (s.dest F temp)).2
  have := hrest (temp ∈ (s.toCore.resourceCheckEligible F temp (s.dest F temp)).1.queues.pending)
  grind

/-- Every other small step leaves less to be done. -/
theorem remaining_lt {w : World} {ns : List NodePtr} (h : Move F s (.next w ns) s')
    (hs : ¬ s.MakesTransition) :
  s'.remaining F < s.remaining F
  := by
  cases h
  case evaluate rest n hphase hcandidate =>
    have hphase' : (s.evaluateCandidate F n rest).phase = .evaluating := hphase
    have hlength := congrArg List.length hcandidate
    rw [List.length_cons] at hlength
    rw [remaining, remaining, hphase, hphase']
    apply queue_lt
    rw [candidate_evaluateCandidate]
    omega
  case resolve hphase hcandidate =>
    apply (remaining_beginGathering _).trans_lt
    rw [remaining, hphase]
    exact loop_lt (by omega)
  case gather acc rest thisPriority temp hphase hpriority =>
    apply remaining_gather.trans_eq
    rw [remaining, hphase]
    simp [hpriority]
  case gathered acc chain thisPriority hphase hpriority =>
    have hne : chain.head?.map F.priority ≠ some thisPriority := by
      rw [Ne, Option.map_eq_some_iff]
      rintro ⟨temp, htemp, heq⟩
      exact hpriority temp htemp heq
    rw [remaining, remaining, hphase]
    dsimp only
    rw [if_neg hne]
    exact queue_lt (by omega)
  case acquire rest chain n hphase =>
    rw [remaining, remaining, hphase]
    apply queue_lt
    rw [List.length_cons]
    omega
  case acquired chain hphase =>
    apply (remaining_beginGathering chain).trans_lt
    rw [remaining, hphase]
    exact queue_lt (by simp)
  case transition rest n hphase hstateChange hns =>
    exact absurd ⟨hphase, hstateChange ▸ List.cons_ne_nil n rest⟩ hs
  case continueLoop hphase hstateChange hcontinue =>
    rw [remaining, remaining, hphase]
    dsimp only
    rw [if_pos hstateChange]
    exact loop_lt (by omega)
  case leaveLoop hphase hstateChange hcontinue =>
    rw [remaining, remaining, hphase]
    dsimp only
    rw [if_pos hstateChange]
    exact loop_lt (by omega)
  case executeAssignment rest n hphase hns =>
    rw [remaining, remaining, hphase]
    exact queue_lt (by simp)
  case assignmentsExecuted hphase =>
    rw [remaining, remaining, hphase]
    exact loop_lt (by omega)
  case retractAssignment rest n hphase hns =>
    rw [remaining, remaining, hphase]
    exact queue_lt (by simp)
  case arbitrate hphase harbitrate =>
    rw [remaining.eq_def F s, hphase]
    exact remaining_arbitrate harbitrate
  case executeCommand accepted rejected n hphase hns =>
    rw [remaining, remaining, hphase]
    apply queue_lt
    rw [List.length_cons]
    omega
  case reportFailure rejected n hphase hns =>
    rw [remaining, remaining, hphase]
    exact queue_lt (by simp)
  case commandsExecuted hphase =>
    rw [remaining, remaining, hphase]
    exact loop_lt (by omega)
  case invokeAbort rest n hphase houtput hns =>
    have hphase' : ((s.invokeAbort n rest).changeWorld w ns).phase = .abortingCommands := hphase
    rw [remaining, remaining, hphase, hphase']
    dsimp only
    rw [houtput]
    exact queue_lt (by simp [invokeAbort, changeWorld, onCore])
  case abortsInvoked hphase houtput =>
    rw [remaining, remaining, hphase]
    exact loop_lt (by omega)
  case executeUpdate rest n hphase houtput hns =>
    have hphase' : ((s.executeUpdate n rest).changeWorld w ns).phase = .executingUpdates := hphase
    rw [remaining, remaining, hphase, hphase']
    dsimp only
    rw [houtput]
    exact queue_lt (by simp [executeUpdate, changeWorld, onCore])
  case updatesExecuted hphase houtput =>
    rw [remaining, remaining, hphase]
    exact queue_lt (by omega)

/-- A call of `step` which does not end makes transitions without end: there is no infinite run of
small steps, whatever is notified in between, in which there is no transition from some point on. -/
theorem no_endless_step (F : Forest) :
  ¬ ∃ states : ℕ → Exec, (∀ i, ∃ w ns, (states i).apply F (.next w ns) = some (states (i + 1))) ∧
    ∃ i, ∀ j, i ≤ j → ¬ (states j).MakesTransition
  := by
  rintro ⟨states, hrun, i, hnone⟩
  apply not_strictAnti_of_wellFoundedLT fun j => (states (i + j)).remaining F
  apply strictAnti_nat_of_succ_lt
  intro j
  obtain ⟨w, ns, hstep⟩ := hrun (i + j)
  exact remaining_lt (Move.of_apply hstep) (hnone (i + j) (by omega))

end Exec
end Plexil
