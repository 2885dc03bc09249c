import Plexil.AppFramework.InterfaceManager
import Plexil.Util.StateMachine

/-!
# The fidelity of events

The entries of the input queue hold the events which have been posted, except that the handle
of an accepted message is lost, and that an invalid command handle value is replaced.
-/

namespace Plexil.Intfc

/-- What the entry of an event makes `processQueue` hand over. -/
def ExternalEvent.sent : ExternalEvent → Option ExternalEvent
  | acceptMessage _ _ => none
  | commandAck cmd .noCommandHandle => some (commandAck cmd .interfaceError)
  | event => some event

/-- Whether an event is not the acceptance of a message, nor a command handle value which is
invalid. -/
def ExternalEvent.IsKept : ExternalEvent → Bool
  | acceptMessage _ _ => false
  | commandAck _ handle => handle ≠ .noCommandHandle
  | _ => true

theorem ExternalEvent.sent_eq_some_iff (event : ExternalEvent) :
  event.sent = some event ↔ event.IsKept = true
  := by
  cases event with
  | commandAck cmd handle => cases handle <;> simp [sent, IsKept]
  | _ => simp [sent, IsKept]

/-- The event of a call with its payload as it is given, where `sequence` is the number of a
mark.  Calls with a null pointer or an empty message handle are rejected. -/
def Call.given (sequence : BitVec 32) : Call → Option ExternalEvent
  | handleValueChange state value => some (.lookup state value)
  | handleCommandAck cmd value => cmd.map (.commandAck · value)
  | handleCommandReturn cmd value => cmd.map (.commandReturn · value)
  | handleCommandAbortAck cmd ack => cmd.map (.commandAbort · ack)
  | handleUpdateAck upd ack => upd.map (.updateAck · ack)
  | notifyMessageReceived message => message.map .receiveMessage
  | notifyMessageQueueEmpty => some .messageQueueEmpty
  | notifyMessageAccepted message handle =>
    if handle.isEmpty then none else message.map (.acceptMessage · handle)
  | notifyMessageHandleReleased handle =>
    if handle.isEmpty then none else some (.releaseMessageHandle handle)
  | handleAddPlan root => some (.addPlan root)
  | markQueue => some (.mark sequence)

/-- Whether the event of a call, if any, is kept. -/
def Call.IsKept (c : Call) : Bool := (c.given 0).all ExternalEvent.IsKept

/-- The calls which are made while `pending` entries, and the ones which these calls post, are
handled. -/
def reacting (pending : Nat) : List (List Call) → List Call
  | [] => []
  | calls :: reactions =>
    match pending with
    | 0 => []
    | n + 1 => calls ++ reacting (n + (calls.filterMap (Call.given 0)).length) reactions

namespace InterfaceManager

/-! ### The entries -/

/-- The lists of the queue, where the entries `hands` are in use, and what the waiting entries
hold. -/
structure Holds (m : InterfaceManager) (waiting free hands : List Nat) : Prop where
  represents : m.inputQueue.Represents waiting free hands
  blank : ∀ p ∈ free, (m.inputQueue.heap p).IsBlank
  pending : waiting.map (fun p => processEntry (m.inputQueue.heap p)) =
    (m.posted.drop m.delivered.length).map ExternalEvent.sent
  length_le : m.delivered.length ≤ m.posted.length

theorem processEntry_contents (e : QueueEntry) :
  processEntry e.contents = processEntry e
  := rfl

theorem enqueue_holds {m : InterfaceManager} {waiting free hands : List Nat}
    {given : ExternalEvent} {init : QueueEntry → QueueEntry} (h : m.Holds waiting free hands)
    (hinit : ∀ next, processEntry (init ⟨next, .null, .unknown .unknown, .uninited⟩) = given.sent) :
  ∃ waiting' free', (m.enqueue given init).Holds waiting' free' hands
  := by
  obtain ⟨free', hallocate, hsame, hsub, hblank⟩ := SimpleInputQueue.allocate_spec h.represents
  have hp := hblank h.blank
  unfold enqueue
  dsimp only
  generalize m.inputQueue.allocate.1 = q at hallocate hsame hp
  generalize m.inputQueue.allocate.2 = p at hallocate hsame hp
  obtain ⟨hwaiting, hfree, -⟩ := hallocate.notMem
  obtain ⟨hput, hcontents⟩ :=
    SimpleInputQueue.put_spec (SimpleInputQueue.modify_spec hallocate init)
  have hother : ∀ r, r ≠ p →
      (((q.modify p init).put p).heap r).contents = (m.inputQueue.heap r).contents := by
    intro r hr
    rw [hcontents, ← hsame r hr]
    simp [SimpleInputQueue.modify, hr]
  refine ⟨waiting ++ [p], free', hput, ?_, ?_, ?_⟩
  · intro r hr
    have hne : r ≠ p := by
      rintro rfl
      contradiction
    rw [QueueEntry.IsBlank, hother r hne]
    apply h.blank r (hsub r hr)
  · dsimp only
    rw [List.drop_append_of_le_length h.length_le, List.map_append, List.map_append, ← h.pending]
    congr 1
    · apply List.map_congr_left
      intro r hr
      have hne : r ≠ p := by
        rintro rfl
        contradiction
      rw [← processEntry_contents, hother r hne, processEntry_contents]
    · have hheap : (q.modify p init).heap p = init (q.heap p) := by
        simp [SimpleInputQueue.modify]
      rw [List.map_singleton, List.map_singleton, ← processEntry_contents, hcontents, hheap,
        processEntry_contents]
      congr 1
      generalize q.heap p = e at hp
      obtain ⟨next, member, value, type⟩ := e
      cases hp
      apply hinit
  · rw [List.length_append]
    exact h.length_le.trans (Nat.le_add_right _ _)

/-! ### Calls -/

/-- What a call does: it posts its event, if any. -/
structure Posts (m m' : InterfaceManager) (events : List ExternalEvent) (hands : List Nat) :
    Prop where
  holds : ∃ waiting free, m'.Holds waiting free hands
  posted : m'.posted = m.posted ++ events
  delivered : m'.delivered = m.delivered
  failed : m'.failed = m.failed

theorem enqueue_posts {m : InterfaceManager} {waiting free hands : List Nat}
    {given : ExternalEvent} {init : QueueEntry → QueueEntry} (h : m.Holds waiting free hands)
    (hinit : ∀ next, processEntry (init ⟨next, .null, .unknown .unknown, .uninited⟩) = given.sent) :
  Posts m (m.enqueue given init) [given] hands
  := ⟨enqueue_holds h hinit, rfl, rfl, rfl⟩

theorem posts_nil {m : InterfaceManager} {waiting free hands : List Nat}
    (h : m.Holds waiting free hands) :
  Posts m m [] hands
  := ⟨⟨waiting, free, h⟩, (List.append_nil _).symm, rfl, rfl⟩

theorem call_posts {m : InterfaceManager} {waiting free hands : List Nat} (c : Call)
    (h : m.Holds waiting free hands) :
  Posts m (m.call c) (c.given (m.markCount + 1)).toList hands
  := by
  cases c with
  | handleValueChange state value => apply enqueue_posts h fun _ => rfl
  | handleCommandAck cmd value =>
    cases cmd with
    | none => apply posts_nil h
    | some cmd =>
      apply enqueue_posts h
      intro next
      cases value <;> rfl
  | handleCommandReturn cmd value =>
    cases cmd with
    | none => apply posts_nil h
    | some cmd => apply enqueue_posts h fun _ => rfl
  | handleCommandAbortAck cmd ack =>
    cases cmd with
    | none => apply posts_nil h
    | some cmd => apply enqueue_posts h fun _ => rfl
  | handleUpdateAck upd ack =>
    cases upd with
    | none => apply posts_nil h
    | some upd => apply enqueue_posts h fun _ => rfl
  | notifyMessageReceived message =>
    cases message with
    | none => apply posts_nil h
    | some message => apply enqueue_posts h fun _ => rfl
  | notifyMessageQueueEmpty => apply enqueue_posts h fun _ => rfl
  | notifyMessageAccepted message handle =>
    cases message with
    | none =>
      have hnone : (Call.notifyMessageAccepted none handle).given (m.markCount + 1) = none := by
        simp [Call.given]
      rw [hnone]
      apply posts_nil h
    | some message =>
      unfold call notifyMessageAccepted Call.given
      dsimp only
      split
      · apply posts_nil h
      · apply enqueue_posts h fun _ => rfl
  | notifyMessageHandleReleased handle =>
    unfold call notifyMessageHandleReleased Call.given
    dsimp only
    split
    · apply posts_nil h
    · apply enqueue_posts h fun _ => rfl
  | handleAddPlan root => apply enqueue_posts h fun _ => rfl
  | markQueue =>
    have h' : { m with markCount := m.markCount + 1 }.Holds waiting free hands :=
      ⟨h.represents, h.blank, h.pending, h.length_le⟩
    have hposts : Posts { m with markCount := m.markCount + 1 } m.markQueue
        [.mark (m.markCount + 1)] hands := enqueue_posts h' fun _ => rfl
    obtain ⟨hholds, hposted, hdelivered, hfailed⟩ := hposts
    exact ⟨hholds, hposted, hdelivered, hfailed⟩

/-- Whether the event of a call is kept does not depend on the number of a mark. -/
theorem given_isKept (c : Call) (sequence : BitVec 32) :
  (∀ event ∈ (c.given sequence).toList, event.IsKept = true) ↔ c.IsKept = true
  := by
  have hsame : (c.given sequence).all ExternalEvent.IsKept =
      (c.given 0).all ExternalEvent.IsKept := by
    cases c <;> rfl
  rw [Call.IsKept, ← hsame]
  cases c.given sequence <;> simp

theorem given_length (c : Call) (sequence : BitVec 32) :
  (c.given sequence).toList.length = (c.given 0).toList.length
  := by
  cases c <;> rfl

theorem calls_post {m : InterfaceManager} {waiting free hands : List Nat} (calls : List Call)
    (h : m.Holds waiting free hands) :
  ∃ events, Posts m (calls.foldl call m) events hands ∧
    events.length = (calls.filterMap (Call.given 0)).length ∧
    ((∀ event ∈ events, event.IsKept = true) ↔ ∀ c ∈ calls, c.IsKept = true)
  := by
  induction calls generalizing m waiting free with
  | nil => exact ⟨[], posts_nil h, rfl, by simp⟩
  | cons c calls ih =>
    obtain ⟨⟨waiting', free', hholds⟩, hposted, hdelivered, hfailed⟩ := call_posts c h
    obtain ⟨events, hposts, hlength, hkept⟩ := ih hholds
    use (c.given (m.markCount + 1)).toList ++ events
    rw [List.foldl_cons]
    refine ⟨⟨hposts.holds, ?_, ?_, ?_⟩, ?_, ?_⟩
    · rw [hposts.posted, hposted, List.append_assoc]
    · rw [hposts.delivered, hdelivered]
    · rw [hposts.failed, hfailed]
    · rw [List.length_append, given_length, hlength, List.filterMap_cons]
      cases c.given 0 with
      | none => simp
      | some event => simp [Nat.add_comm]
    · rw [List.forall_mem_append, List.forall_mem_cons, given_isKept, hkept]

/-! ### The loop -/

/-- An event is handed over in its place exactly when it is kept and those before it were. -/
theorem append_prefix_iff {delivered posted events rest : List ExternalEvent}
    {event event' : ExternalEvent} (hdrop : posted.drop delivered.length = event :: rest)
    (hsent : event.sent = some event') :
  delivered ++ [event'] <+: posted ++ events ↔ delivered <+: posted ∧ event.IsKept = true
  := by
  have hposted : posted = posted.take delivered.length ++ event :: rest := by
    rw [← hdrop, List.take_append_drop]
  have hlength : (posted.take delivered.length).length = delivered.length := by
    rw [List.length_take, min_eq_left]
    by_contra hlt
    rw [List.drop_eq_nil_of_le (by omega)] at hdrop
    cases hdrop
  have hkept : event' = event ↔ event.IsKept = true := by
    rw [← ExternalEvent.sent_eq_some_iff, hsent, Option.some.injEq]
  have htake : delivered <+: posted ↔ delivered = posted.take delivered.length :=
    List.prefix_iff_eq_take
  rw [htake, ← hkept]
  generalize posted.take delivered.length = taken at hposted hlength
  subst hposted
  constructor
  · rintro ⟨suffix, h⟩
    rw [List.append_assoc, List.append_assoc] at h
    obtain ⟨hdelivered, hrest⟩ := List.append_inj h hlength.symm
    exact ⟨hdelivered, (List.cons.inj hrest).1⟩
  · rintro ⟨rfl, rfl⟩
    use rest ++ events
    simp

theorem reacting_succ (pending : Nat) (reactions : List (List Call)) :
  reacting (pending + 1) reactions = reactions.headD [] ++
    reacting (pending + ((reactions.headD []).filterMap (Call.given 0)).length) reactions.tail
  := by
  cases reactions <;> rfl

theorem release_holds {m : InterfaceManager} {waiting free : List Nat} {p : Nat}
    (h : m.Holds waiting free [p]) :
  { m with inputQueue := m.inputQueue.release p }.Holds waiting (p :: free) []
  := by
  obtain ⟨hwaiting, hfree, -⟩ := h.represents.notMem
  obtain ⟨hrelease, hblank, hother⟩ := SimpleInputQueue.release_spec h.represents
  have hne : ∀ {r : Nat} {xs : List Nat}, p ∉ xs → r ∈ xs → r ≠ p := by
    rintro r xs hp hr rfl
    contradiction
  refine ⟨hrelease, ?_, ?_, h.length_le⟩
  · intro r hr
    obtain rfl | hr := List.mem_cons.mp hr
    · exact hblank
    · dsimp only
      rw [hother r (hne hfree hr)]
      apply h.blank r hr
  · dsimp only
    rw [← h.pending]
    apply List.map_congr_left
    intro r hr
    rw [hother r (hne hwaiting hr)]

/-- The event at the head of the queue is handed over. -/
theorem deliver_holds {m : InterfaceManager} {q : SimpleInputQueue} {waiting free : List Nat}
    {p : Nat} {event : ExternalEvent} {rest : List ExternalEvent} (event' : ExternalEvent)
    (needsStep : Bool) (h : m.Holds (p :: waiting) free []) (hq : q.Represents waiting free [p])
    (hheap : q.heap = m.inputQueue.heap)
    (hpending : m.posted.drop m.delivered.length = event :: rest) :
  { m with inputQueue := q, delivered := m.delivered ++ [event'], needsStep := needsStep }.Holds
    waiting free [p] ∧ m.posted.drop (m.delivered ++ [event']).length = rest
  := by
  have hrest : m.posted.drop (m.delivered ++ [event']).length = rest := by
    rw [List.length_append, ← List.drop_drop, hpending]
    rfl
  refine ⟨⟨hq, ?_, ?_, ?_⟩, hrest⟩
  · intro r hr
    dsimp only
    rw [hheap]
    apply h.blank r hr
  · have hheld := h.pending
    rw [hpending, List.map_cons, List.map_cons] at hheld
    dsimp only
    rw [hheap, hrest]
    apply (List.cons.inj hheld).2
  · have hlength := congrArg List.length hpending
    rw [List.length_drop, List.length_cons] at hlength
    dsimp only
    rw [List.length_append, List.length_singleton]
    omega

/-- The loop ends with an empty queue or with an error, and everything is delivered as it was
posted exactly when all events which are handed over are kept. -/
theorem processLoop_spec {m : InterfaceManager} {waiting free : List Nat} {fuel : Nat}
    {reactions : List (List Call)} (h : m.Holds waiting free []) (hfailed : m.failed = false)
    (hfuel : (m.posted.drop m.delivered.length).length + reactions.flatten.length < fuel) :
  ((m.processLoop fuel reactions).failed = false →
    ∃ free', (m.processLoop fuel reactions).Holds [] free' []) ∧
  ((m.processLoop fuel reactions).failed = false ∧
      (m.processLoop fuel reactions).delivered = (m.processLoop fuel reactions).posted ↔
    m.delivered <+: m.posted ∧
      (∀ event ∈ m.posted.drop m.delivered.length, event.IsKept = true) ∧
      ∀ c ∈ reacting (m.posted.drop m.delivered.length).length reactions, c.IsKept = true)
  := by
  induction fuel generalizing m waiting free reactions with
  | zero => cases hfuel
  | succ fuel ih =>
    have hlengths := congrArg List.length h.pending
    rw [List.length_map, List.length_map] at hlengths
    unfold processLoop
    cases hpending : m.posted.drop m.delivered.length with
    | nil =>
      rw [hpending] at hlengths
      obtain rfl := List.length_eq_zero_iff.mp hlengths
      rw [SimpleInputQueue.get_spec_nil h.represents]
      dsimp only
      constructor
      · intro _
        use free
      · have hlength : m.posted.length = m.delivered.length := by
          apply le_antisymm _ h.length_le
          rw [List.drop_eq_nil_iff] at hpending
          exact hpending
        have hahead : m.delivered <+: m.posted ↔ m.delivered = m.posted := by
          constructor
          · intro hahead
            apply hahead.eq_of_length hlength.symm
          · intro heq
            rw [heq]
        have hnone : reacting 0 reactions = [] := by
          cases reactions <;> rfl
        simp [hfailed, hahead, hnone]
    | cons event rest =>
      cases waiting with
      | nil =>
        rw [hpending] at hlengths
        cases hlengths
      | cons p waiting =>
        have hheld := h.pending
        rw [hpending, List.map_cons, List.map_cons] at hheld
        obtain ⟨hsent, hheld⟩ := List.cons.inj hheld
        obtain ⟨q, hget, hrepresents, hheap⟩ := SimpleInputQueue.get_spec_cons h.represents
        rw [hget]
        dsimp only
        rw [hheap, hsent]
        cases hevent : event.sent with
        | none =>
          have hnot : ¬ event.IsKept = true := by
            rw [← ExternalEvent.sent_eq_some_iff, hevent]
            rintro ⟨⟩
          dsimp only
          constructor
          · rintro ⟨⟩
          · apply iff_of_false
            · rintro ⟨⟨⟩, -⟩
            · rintro ⟨-, hall, -⟩
              apply hnot (hall event List.mem_cons_self)
        | some event' =>
          obtain ⟨hholds, hrest⟩ := deliver_holds event'
            (m.needsStep || !event'.isMark) h hrepresents hheap hpending
          obtain ⟨events, ⟨⟨waiting', free', hcalls⟩, hposted, hdelivered, hfailed'⟩, hlength,
            hkept⟩ := calls_post (reactions.headD []) hholds
          dsimp only
          generalize (reactions.headD []).foldl call _ = m' at hcalls hposted hdelivered hfailed'
          have hnext := release_holds hcalls
          have hdrop : m'.posted.drop m'.delivered.length = rest ++ events := by
            rw [hposted, hdelivered, List.drop_append_of_le_length hholds.length_le, hrest]
          have hreactions : events.length + reactions.tail.flatten.length ≤
              reactions.flatten.length := by
            rw [hlength]
            cases reactions with
            | nil => exact le_refl 0
            | cons calls reactions =>
              rw [List.flatten_cons, List.length_append]
              apply Nat.add_le_add_right
              apply List.length_filterMap_le
          rw [hpending, List.length_cons] at hfuel
          have hfuel' : (m'.posted.drop m'.delivered.length).length +
              reactions.tail.flatten.length < fuel := by
            rw [hdrop, List.length_append]
            omega
          obtain ⟨hends, hiff⟩ := ih hnext (hfailed'.trans hfailed) hfuel'
          use hends
          apply hiff.trans
          dsimp only
          rw [hdrop, hposted, hdelivered, append_prefix_iff hpending hevent,
            List.forall_mem_append, hkept, List.length_append, hlength, List.forall_mem_cons,
            List.length_cons, reacting_succ, List.forall_mem_append]
          tauto

/-! ### Runs -/

/-- No assertion fails, the events are handed over in the order in which they are posted and
with the payload given by the caller, and `processQueue` ends with all of them handed over. -/
structure Delivers (s : InterfaceManager × Bool) : Prop where
  noError : s.1.failed = false
  inOrder : s.1.delivered <+: s.1.posted
  complete : s.2 = true → s.1.inputQueue.isEmpty = true ∧ s.1.delivered = s.1.posted

/-- When `processQueue` is called, no acceptance of a message and no invalid command handle
value waits, and none is posted while the entries are handled. -/
def Deliverable (s : InterfaceManager × Bool) : Event → Prop
  | .call _ => True
  | .processQueue reactions =>
    (∀ event ∈ s.1.posted.drop s.1.delivered.length, event.IsKept = true) ∧
      ∀ c ∈ reacting s.1.pendingCount reactions, c.IsKept = true

/-- The invariant of the queue between the events. -/
def Intact (m : InterfaceManager) : Prop :=
  m.failed = false → ∃ waiting free, m.Holds waiting free []

theorem length_drop_eq_pendingCount (m : InterfaceManager) :
  (m.posted.drop m.delivered.length).length = m.pendingCount
  := List.length_drop

theorem processQueue_spec {m : InterfaceManager} (reactions : List (List Call))
    (h : m.Intact) (hfailed : m.failed = false) :
  (m.processQueue reactions).Intact ∧
    (Deliverable (m, false) (.processQueue reactions) ∧ m.delivered <+: m.posted ↔
      Delivers (m.processQueue reactions, true))
  := by
  obtain ⟨waiting, free, hholds⟩ := h hfailed
  have hholds' : { m with needsStep := false }.Holds waiting free [] :=
    ⟨hholds.represents, hholds.blank, hholds.pending, hholds.length_le⟩
  have hfuel : (m.posted.drop m.delivered.length).length + reactions.flatten.length <
      m.pendingCount + reactions.flatten.length + 1 := by
    rw [length_drop_eq_pendingCount]
    apply Nat.lt_succ_self
  obtain ⟨hends, hiff⟩ := processLoop_spec hholds' hfailed hfuel
  constructor
  · intro hfailed'
    obtain ⟨free', hholds'⟩ := hends hfailed'
    use [], free'
    exact hholds'
  · dsimp only at hiff
    rw [length_drop_eq_pendingCount] at hiff
    constructor
    · rintro ⟨⟨hpending, hreactions⟩, hahead⟩
      obtain ⟨hfailed', hdelivered⟩ := hiff.mpr ⟨hahead, hpending, hreactions⟩
      obtain ⟨free', hholds'⟩ := hends hfailed'
      refine ⟨hfailed', ?_, fun _ => ⟨?_, hdelivered⟩⟩
      · unfold processQueue
        dsimp only
        rw [hdelivered]
      · have hnone := hholds'.represents.waitingChain.start_eq
        unfold processQueue SimpleInputQueue.isEmpty
        dsimp only
        rw [hnone]
        rfl
    · rintro ⟨hfailed', -, hcomplete⟩
      obtain ⟨hahead, hpending, hreactions⟩ := hiff.mp ⟨hfailed', (hcomplete rfl).2⟩
      exact ⟨⟨hpending, hreactions⟩, hahead⟩

/-- In a run of a new interface manager, all events are handed over as they were posted exactly
when those which `processQueue` comes to are neither acceptances of messages nor invalid
command handle values. -/
theorem delivers_iff (events : List Event) :
  StateMachine.Always step Delivers events (new, false) ↔
    StateMachine.Meets step Deliverable events (new, false)
  := by
  apply StateMachine.always_iff_meets (I := fun s => s.1.Intact)
  · rintro ⟨m, processed⟩ event s' hintact hstep
    unfold step at hstep
    split at hstep
    · cases hstep
    · rename_i hfailed
      have hfailed : m.failed = false := by simpa using hfailed
      cases event with
      | call c =>
        cases hstep
        obtain ⟨waiting, free, hholds⟩ := hintact hfailed
        intro _
        apply (call_posts c hholds).holds
      | processQueue reactions =>
        cases hstep
        apply (processQueue_spec reactions hintact hfailed).1
  · rintro ⟨m, processed⟩ event hintact hdelivers
    have hfailed : m.failed = false := hdelivers.noError
    cases event with
    | call c =>
      obtain ⟨waiting, free, hholds⟩ := hintact hfailed
      obtain ⟨-, hposted, hdelivered, hfailed'⟩ := call_posts c hholds
      apply iff_of_true trivial
      intro s' hstep
      rw [step, if_neg (by simp [hfailed])] at hstep
      cases hstep
      refine ⟨hfailed'.trans hfailed, ?_, nofun⟩
      dsimp only
      rw [hposted, hdelivered]
      apply List.prefix_append_of_prefix hdelivers.inOrder
    | processQueue reactions =>
      have hspec := (processQueue_spec reactions hintact hfailed).2
      constructor
      · intro hdeliverable s' hstep
        rw [step, if_neg (by simp [hfailed])] at hstep
        cases hstep
        apply hspec.mp ⟨hdeliverable, hdelivers.inOrder⟩
      · intro hall
        apply (hspec.mpr (hall _ _)).1
        rw [step, if_neg (by simp [hfailed])]
  · intro _
    use [], []
    exact ⟨SimpleInputQueue.new_represents, by simp, rfl, le_refl _⟩
  · exact ⟨rfl, List.prefix_refl _, nofun⟩

/-- A message is accepted under a handle. -/
theorem delivers_fails :
  ¬ ∀ events : List Event, StateMachine.Always step Delivers events (new, false)
  := by
  intro h
  have hrun : (StateMachine.run step [.call (.notifyMessageAccepted (some 0) [109]),
        .processQueue []] (new, false)).map (fun s => s.1.failed) = some true := by
    decide +kernel
  obtain ⟨s, hs, hfailed⟩ := Option.map_eq_some_iff.mp hrun
  have hdelivers : Delivers s := StateMachine.Always.of_run (h _) hs
  rw [hdelivers.noError] at hfailed
  cases hfailed

end InterfaceManager
end Plexil.Intfc
