import Plexil.Exec.Phases

/-!
# The output queues

An output is put into its queue by a transition, and it is handled after the quiescence
loop.  `Exec.OutputStep` says for each kind of output how a step changes what is in the
queues, what still is to be handled, and the history.
-/

namespace Plexil

/-- The kinds of outputs; each kind has a queue. -/
inductive OutputKind where
  | assignment | retraction | command | abort | update
  deriving DecidableEq

/-- All kinds. -/
def OutputKind.all : List OutputKind := [.assignment, .retraction, .command, .abort, .update]

namespace OutputEvent

/-- The output which is put into a queue. -/
def enqueued : OutputEvent → Option (OutputKind × NodePtr)
  | .enqueueAssignment n => some (.assignment, n)
  | .enqueueAssignmentForRetraction n => some (.retraction, n)
  | .enqueueCommand n => some (.command, n)
  | .enqueueAbortCommand n => some (.abort, n)
  | .enqueueUpdate n => some (.update, n)
  | _ => none

/-- The output which is handled. -/
def handled : OutputEvent → Option (OutputKind × NodePtr)
  | .executeAssignment n => some (.assignment, n)
  | .retractAssignment n => some (.retraction, n)
  | .executeCommand n | .reportCommandArbitrationFailure n => some (.command, n)
  | .invokeAbort n => some (.abort, n)
  | .executeUpdate n => some (.update, n)
  | _ => none

end OutputEvent

/-- The commands which have been arbitrated and not yet been handled. -/
def Phase.arbitrated : Phase → List NodePtr
  | .executingCommands accepted rejected => accepted ++ rejected
  | _ => []

/-! ### The kinds of outputs -/

namespace Exec

/-- The nodes whose outputs of the kind are in a queue.  The commands go on to the queues
of the accepted and the rejected ones. -/
def outputs (s : Exec) : OutputKind → List NodePtr
  | .assignment => s.output.assignmentsToExecute
  | .retraction => s.output.assignmentsToRetract
  | .command => s.output.commandsToExecute ++ s.phase.arbitrated
  | .abort => s.output.commandsToAbort
  | .update => s.output.updatesToExecute

/-- The nodes whose outputs of the kind are still to be handled.  Assignments stay in their
queue until all of them are handled. -/
def unhandled (s : Exec) (k : OutputKind) : List NodePtr :=
  match k, s.phase with
  | .assignment, .executingAssignments rest => rest
  | .retraction, .retractingAssignments rest => rest
  | k, _ => s.outputs k

/-- All output queues together. -/
def inOutput (s : Exec) : List NodePtr := OutputKind.all.flatMap s.outputs

/-- Whether the event is the one which puts the output into its queue. -/
def enqueues (e : Option OutputEvent) (k : OutputKind) (n : NodePtr) : Nat :=
  if e.bind OutputEvent.enqueued = some (k, n) then 1 else 0

/-- Whether the event is the one which handles the output. -/
def handles (e : Option OutputEvent) (k : OutputKind) (n : NodePtr) : Nat :=
  if e.bind OutputEvent.handled = some (k, n) then 1 else 0

/-- A step in which the event `e`, if any, happens to the outputs. -/
structure OutputStep (e : Option OutputEvent) (s s' : Exec) : Prop where
  log : s'.log = s.log ++ e.toList
  outputs : ∀ k n, (s'.outputs k).count n ≤ (s.outputs k).count n + enqueues e k n
  unhandled : ∀ k n, (s'.unhandled k).count n + handles e k n =
    (s.unhandled k).count n + enqueues e k n

namespace OutputStep

variable {s s' : Exec} {e : Option OutputEvent}

/-- Nothing happens to the outputs. -/
theorem quiet (hlog : s'.log = s.log) (houtputs : s'.outputs = s.outputs)
    (hunhandled : s'.unhandled = s.unhandled) :
  OutputStep none s s'
  := by
  constructor
  case log =>
    rw [hlog]
    simp
  case outputs =>
    rw [houtputs]
    simp
  case unhandled =>
    rw [hunhandled]
    simp [handles, enqueues]

/-- The queues and the phase are the same. -/
theorem of_eq (hlog : s'.log = s.log) (houtput : s'.output = s.output)
    (hphase : s'.phase = s.phase) :
  OutputStep none s s'
  := by
  have houtputs : s'.outputs = s.outputs := by
    funext k
    unfold Exec.outputs
    rw [houtput, hphase]
  apply quiet hlog houtputs
  funext k
  unfold Exec.unhandled
  rw [houtputs, hphase]

/-- A step between phases in which no outputs are handled. -/
theorem of_early (hlog : s'.log = s.log) (houtput : s'.output = s.output)
    (hstage : s.phase.stage ≤ 1 ∨ s.phase.stage = 7) (hstage' : s'.phase.stage ≤ 1) :
  OutputStep none s s'
  := by
  have houtputs : s'.outputs = s.outputs := by
    funext k
    unfold Exec.outputs
    rw [houtput]
    cases k
    case command =>
      revert hstage hstage'
      cases s.phase <;> cases s'.phase <;> simp [Phase.stage, Phase.arbitrated]
    all_goals rfl
  apply quiet hlog houtputs
  funext k
  unfold Exec.unhandled
  rw [houtputs]
  revert hstage hstage'
  cases k <;> cases s.phase <;> cases s'.phase <;> simp [Phase.stage]

/-- The outputs of the state after something is put into a queue. -/
theorem of_enqueue (he : ∀ x ∈ e, x.handled = none) (hphase : s.phase = .transitioning)
    (hphase' : s'.phase = .transitioning) (houtput : s'.output = (s.enqueue e).output)
    (hlog : s'.log = (s.enqueue e).log) :
  OutputStep e s s'
  := by
  have hunhandled (t : Exec) (ht : t.phase = .transitioning) : t.unhandled = t.outputs := by
    funext k
    unfold Exec.unhandled
    rw [ht]
    cases k <;> rfl
  have hcount (k : OutputKind) (n : NodePtr) :
      (s'.outputs k).count n = (s.outputs k).count n + enqueues e k n := by
    unfold Exec.outputs
    rw [houtput, hphase, hphase']
    cases e with
    | none => cases k <;> rfl
    | some x =>
      cases k <;> cases x <;>
        simp [Exec.enqueue, OutputQueues.push, enqueues, OutputEvent.enqueued, Phase.arbitrated,
          List.count_singleton]
  have hhandles (k : OutputKind) (n : NodePtr) : handles e k n = 0 := by
    unfold handles
    cases e with
    | none => rfl
    | some x => simp [he x rfl]
  constructor
  case log =>
    rw [hlog]
    cases e <;> simp [Exec.enqueue]
  case outputs => exact fun k n => (hcount k n).le
  case unhandled =>
    intro k n
    rw [hunhandled s hphase, hunhandled s' hphase', hcount, hhandles, Nat.add_zero]

/-- An output is handled. -/
theorem of_handle {k : OutputKind} {n : NodePtr} {x : OutputEvent}
    (hhandled : x.handled = some (k, n)) (henqueued : x.enqueued = none)
    (hlog : s'.log = s.log ++ [x]) (houtputs : ∀ j, (s'.outputs j).Sublist (s.outputs j))
    (hself : (s.unhandled k).Perm (n :: s'.unhandled k))
    (hothers : ∀ j, j ≠ k → s'.unhandled j = s.unhandled j) :
  OutputStep (some x) s s'
  := by
  have henqueues (j : OutputKind) (m : NodePtr) : enqueues (some x) j m = 0 := by
    simp [enqueues, henqueued]
  constructor
  case log => exact hlog
  case outputs =>
    intro j m
    rw [henqueues]
    exact (houtputs j).count_le m
  case unhandled =>
    intro j m
    unfold handles
    rw [henqueues, Option.bind_some, hhandled]
    by_cases hj : j = k
    · subst hj
      rw [hself.count_eq, List.count_cons]
      simp
    · have hne : (some (k, n) : Option (OutputKind × NodePtr)) ≠ some (j, m) := by
        intro heq
        cases heq
        exact hj rfl
      rw [hothers j hj, if_neg hne]

end OutputStep

theorem handled_outputOn {type : PlexilNodeType} {next : NodeState} {n : NodePtr}
    {x : OutputEvent} (h : outputOn type next n = some x) :
  x.handled = none
  := by
  unfold outputOn at h
  split at h <;> cases h <;> rfl

variable {F : Forest} {s s' : Exec}

/-- All assignments are to be handled when the quiescence loop ends. -/
theorem outputStep_leaveLoop (hstage : s.phase.stage ≤ 1) : OutputStep none s s.leaveLoop
  := by
  have hlog : s.leaveLoop.log = s.log := rfl
  apply OutputStep.quiet hlog
  · funext k
    unfold outputs leaveLoop
    revert hstage
    cases k <;> cases s.phase <;> simp [Phase.stage, Phase.arbitrated]
  · funext k
    unfold unhandled outputs leaveLoop
    revert hstage
    cases k <;> cases s.phase <;> simp [Phase.stage, Phase.arbitrated]

/-- The loop over the pending queue ends with the transitions, or with the assignments. -/
theorem outputStep_beginGathering (hstage : s.phase.stage = 0) (chain : List NodePtr) :
  OutputStep none s (s.beginGathering F chain)
  := by
  unfold beginGathering beginTransitions
  split
  · split
    · exact outputStep_leaveLoop (by omega)
    · exact .of_early rfl rfl (by omega) (Nat.le_refl 1)
  · exact .of_early rfl rfl (by omega) (Nat.zero_le 1)

/-- The command queue is split by arbitration. -/
theorem outputStep_arbitrate (hphase : s.phase = .retractingAssignments [])
    (h : ({ s with output := { s.output with assignmentsToRetract := [] } }).arbitrate = some s') :
  OutputStep none s s'
  := by
  -- The commands go on in another order, and no retraction was left.
  have split_commands (hlog : s'.log = s.log) (accepted rejected : List NodePtr)
      (hphase' : s'.phase = .executingCommands accepted rejected)
      (houtput : s'.output =
        { s.output with assignmentsToRetract := [], commandsToExecute := [] })
      (hperm : (accepted ++ rejected).Perm s.output.commandsToExecute) : OutputStep none s s' := by
    constructor
    case log => simp [hlog]
    case outputs =>
      intro k n
      unfold outputs
      rw [hphase, hphase', houtput]
      cases k <;> simp [Phase.arbitrated, hperm.count_eq]
    case unhandled =>
      intro k n
      unfold unhandled outputs
      rw [hphase, hphase', houtput]
      cases k <;> simp [Phase.arbitrated, hperm.count_eq, handles, enqueues]
  unfold arbitrate at h
  dsimp only at h
  cases hcommands : s.output.commandsToExecute with
  | nil =>
    rw [hcommands] at h
    cases h
    apply split_commands rfl [] [] rfl rfl
    rw [hcommands]
    exact .refl _
  | cons cmd cmds =>
    rw [hcommands] at h
    obtain ⟨⟨arbiter, accepted, rejected⟩, harbitrate, rfl⟩ := Option.map_eq_some_iff.mp h
    apply split_commands rfl accepted rejected rfl rfl
    rw [hcommands]
    exact ResourceArbiter.arbitrateCommands_perm harbitrate

/-- A transition puts the output of the node into its queue. -/
theorem outputStep_transition (n : NodePtr) (rest : List NodePtr)
    (hphase : s.phase = .transitioning) :
  ∃ x, OutputStep x s (s.transitionNode F n rest) ∧
    (x = none ∨ x = outputOn (F.decl n).nodeType (s.node n).nextState n)
  := by
  rcases transitionNode_cases F n rest s with ⟨-, heq⟩ | ⟨-, h⟩
  · refine ⟨none, ?_, .inl rfl⟩
    rw [heq]
    exact .of_eq rfl rfl rfl
  · refine ⟨_, ?_, .inr rfl⟩
    apply OutputStep.of_enqueue
    · exact fun x hx => handled_outputOn hx
    · exact hphase
    · exact h.phase.trans hphase
    · rw [h.output]
      change (enqueue (outputOn (F.decl n).nodeType (s.node n).nextState n) _).output = _
      cases outputOn (F.decl n).nodeType (s.node n).nextState n <;> rfl
    · rw [h.log]
      change (enqueue (outputOn (F.decl n).nodeType (s.node n).nextState n) _).log = _
      cases outputOn (F.decl n).nodeType (s.node n).nextState n <;> rfl

end Exec

/-- Every move is a step of the outputs.  Only the transition of a node puts its output into
a queue. -/
theorem Move.outputStep {F : Forest} {s s' : Exec} {e : Event} (h : Move F s e s') :
  ∃ x, Exec.OutputStep x s s' ∧ ((∃ y ∈ x, y.enqueued.isSome = true) →
    ∃ n, s.coreEvent F e = .transition n ∧
      x = outputOn (F.decl n).nodeType (s.node n).nextState n)
  := by
  have silently (h : Exec.OutputStep none s s') :
      ∃ x, Exec.OutputStep x s s' ∧ ((∃ y ∈ x, y.enqueued.isSome = true) →
        ∃ n, s.coreEvent F e = .transition n ∧
          x = outputOn (F.decl n).nodeType (s.node n).nextState n) :=
    ⟨none, h, fun ⟨y, hy, _⟩ => nomatch hy⟩
  have handling {y : OutputEvent} (hy : y.enqueued = none)
      (h : Exec.OutputStep (some y) s s') :
      ∃ x, Exec.OutputStep x s s' ∧ ((∃ y ∈ x, y.enqueued.isSome = true) →
        ∃ n, s.coreEvent F e = .transition n ∧
          x = outputOn (F.decl n).nodeType (s.node n).nextState n) := by
    refine ⟨some y, h, ?_⟩
    rintro ⟨z, hz, hsome⟩
    cases hz
    simp [hy] at hsome
  cases h
  case addPlan root hphase hroot hadded => exact silently (.of_eq rfl rfl rfl)
  case notify n hexists => exact silently (.of_eq rfl rfl rfl)
  case notifyResourceAvailable n hexists => exact silently (.of_eq rfl rfl rfl)
  case change w ns hphase hns => exact silently (.of_eq rfl rfl rfl)
  case commandHandle n handle w ns hphase htype hhandle hns => exact silently (.of_eq rfl rfl rfl)
  case commandAbortAck n ack w ns hphase htype hns => exact silently (.of_eq rfl rfl rfl)
  case updateAck n ack w ns hphase htype hns => exact silently (.of_eq rfl rfl rfl)
  case deleteFinishedPlans hphase => exact silently (.of_eq rfl rfl rfl)
  case step startTime hphase hstateChange =>
    apply silently (.of_early rfl rfl (.inr _) _)
    · rw [hphase]
      rfl
    · exact Nat.zero_le 1
  case evaluate w ns rest n hphase hcandidate => exact silently (.of_eq rfl rfl rfl)
  case resolve w ns hphase hcandidate =>
    exact silently (Exec.outputStep_beginGathering (by rw [hphase]; rfl) _)
  case gather w ns acc rest thisPriority temp hphase hpriority =>
    exact silently (.of_early rfl rfl (by rw [hphase]; exact .inl (Nat.zero_le 1)) (Nat.zero_le 1))
  case gathered w ns acc chain thisPriority hphase hpriority =>
    exact silently (.of_early rfl rfl (by rw [hphase]; exact .inl (Nat.zero_le 1)) (Nat.zero_le 1))
  case acquire w ns rest chain n hphase =>
    exact silently (.of_early rfl rfl (by rw [hphase]; exact .inl (Nat.zero_le 1)) (Nat.zero_le 1))
  case acquired w ns chain hphase =>
    exact silently (Exec.outputStep_beginGathering (by rw [hphase]; rfl) _)
  case transition w ns rest n hphase hstateChange hns =>
    obtain ⟨x, hx, houtput⟩ := Exec.outputStep_transition n rest hphase
    refine ⟨x, ⟨hx.log, hx.outputs, hx.unhandled⟩, ?_⟩
    rintro ⟨y, hy, -⟩
    use n
    constructor
    · rw [Exec.coreEvent_next, hphase, hstateChange]
    · apply houtput.resolve_left
      rintro rfl
      cases hy
  case continueLoop w ns hphase hstateChange hcontinue =>
    exact silently (.of_early rfl rfl (by rw [hphase]; exact .inl (Nat.le_refl 1)) (Nat.zero_le 1))
  case leaveLoop w ns hphase hstateChange hcontinue =>
    exact silently (Exec.outputStep_leaveLoop (by rw [hphase]; exact Nat.le_refl 1))
  case executeAssignment w ns rest n hphase hns =>
    apply handling (y := .executeAssignment n) rfl
    apply Exec.OutputStep.of_handle (k := .assignment) rfl rfl rfl
    · intro j
      unfold Exec.outputs
      rw [hphase]
      cases j <;> exact .refl _
    · unfold Exec.unhandled
      rw [hphase]
      exact .refl _
    · intro j hj
      unfold Exec.unhandled Exec.outputs
      rw [hphase]
      cases j <;> first | contradiction | rfl
  case assignmentsExecuted w ns hphase =>
    apply silently
    constructor
    case log => simp
    case outputs =>
      intro k n
      unfold Exec.outputs
      rw [hphase]
      cases k <;> simp [Phase.arbitrated]
    case unhandled =>
      intro k n
      unfold Exec.unhandled Exec.outputs
      rw [hphase]
      cases k <;> simp [Phase.arbitrated, Exec.handles, Exec.enqueues]
  case retractAssignment w ns rest n hphase hns =>
    apply handling (y := .retractAssignment n) rfl
    apply Exec.OutputStep.of_handle (k := .retraction) rfl rfl rfl
    · intro j
      unfold Exec.outputs
      rw [hphase]
      cases j <;> exact .refl _
    · unfold Exec.unhandled
      rw [hphase]
      exact .refl _
    · intro j hj
      unfold Exec.unhandled Exec.outputs
      rw [hphase]
      cases j <;> first | contradiction | rfl
  case arbitrate w ns hphase harbitrate =>
    exact silently (Exec.outputStep_arbitrate hphase harbitrate)
  case executeCommand w ns accepted rejected n hphase hns =>
    apply handling (y := .executeCommand n) rfl
    apply Exec.OutputStep.of_handle (k := .command) rfl rfl rfl
    · intro j
      unfold Exec.outputs
      rw [hphase]
      cases j
      case command => exact (List.sublist_cons_self n _).append_left _
      all_goals exact .refl _
    · unfold Exec.unhandled Exec.outputs
      rw [hphase]
      exact List.perm_middle
    · intro j hj
      unfold Exec.unhandled Exec.outputs
      rw [hphase]
      cases j <;> first | contradiction | rfl
  case reportFailure w ns rejected n hphase hns =>
    apply handling (y := .reportCommandArbitrationFailure n) rfl
    apply Exec.OutputStep.of_handle (k := .command) rfl rfl rfl
    · intro j
      unfold Exec.outputs
      rw [hphase]
      cases j
      case command => exact (List.sublist_cons_self n _).append_left _
      all_goals exact .refl _
    · unfold Exec.unhandled Exec.outputs
      rw [hphase]
      exact List.perm_middle
    · intro j hj
      unfold Exec.unhandled Exec.outputs
      rw [hphase]
      cases j <;> first | contradiction | rfl
  case commandsExecuted w ns hphase =>
    apply silently (.quiet rfl _ _)
    · funext k
      unfold Exec.outputs
      rw [hphase]
      cases k <;> rfl
    · funext k
      unfold Exec.unhandled Exec.outputs
      rw [hphase]
      cases k <;> rfl
  case invokeAbort w ns rest n hphase houtput hns =>
    have hphase' : ((s.invokeAbort n rest).changeWorld w ns).phase = .abortingCommands := hphase
    apply handling (y := .invokeAbort n) rfl
    apply Exec.OutputStep.of_handle (k := .abort) rfl rfl rfl
    · intro j
      unfold Exec.outputs
      cases j
      case abort =>
        rw [houtput]
        exact List.sublist_cons_self n rest
      all_goals exact .refl _
    · unfold Exec.unhandled Exec.outputs
      rw [houtput]
      exact .refl _
    · intro j hj
      unfold Exec.unhandled Exec.outputs
      rw [hphase, hphase']
      cases j <;> first | contradiction | rfl
  case abortsInvoked w ns hphase houtput =>
    apply silently (.quiet rfl _ _)
    · funext k
      unfold Exec.outputs
      rw [hphase]
      cases k <;> rfl
    · funext k
      unfold Exec.unhandled Exec.outputs
      rw [hphase]
      cases k <;> rfl
  case executeUpdate w ns rest n hphase houtput hns =>
    have hphase' : ((s.executeUpdate n rest).changeWorld w ns).phase = .executingUpdates := hphase
    apply handling (y := .executeUpdate n) rfl
    apply Exec.OutputStep.of_handle (k := .update) rfl rfl rfl
    · intro j
      unfold Exec.outputs
      cases j
      case update =>
        rw [houtput]
        exact List.sublist_cons_self n rest
      all_goals exact .refl _
    · unfold Exec.unhandled Exec.outputs
      rw [houtput]
      exact .refl _
    · intro j hj
      unfold Exec.unhandled Exec.outputs
      rw [hphase, hphase']
      cases j <;> first | contradiction | rfl
  case updatesExecuted w ns hphase houtput =>
    apply silently (.quiet rfl _ _)
    · funext k
      unfold Exec.outputs
      rw [hphase]
      cases k <;> rfl
    · funext k
      unfold Exec.unhandled Exec.outputs
      rw [hphase]
      cases k <;> rfl

end Plexil
