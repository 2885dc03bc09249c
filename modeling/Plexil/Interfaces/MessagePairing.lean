import Plexil.Interfaces.MessageQueueMap

/-!
# Message queues serve their purpose

Each operation keeps the queues of a name as they should be, when it is heeded.  So do all
operations of a run, and only then.
-/

namespace Plexil.Udp

open Intfc

variable {Command : Type}

/-! ### The queues of a name -/

@[simp]
theorem pairUp_nil (rq : List (Recipient Command)) :
  pairUp rq [] = ([], rq, [])
  := by
  cases rq <;> rfl

namespace PairingQueue.Serves

variable {queue : PairingQueue Command} {p : Pairing Command Intfc.Value}
variable {cmd : Command} {param : Intfc.Value}

theorem addRecipient (h : queue.Serves p) :
  (queue.pushRecipient cmd).pairedUp.Serves (p.addReceiver cmd)
  := by
  obtain ⟨rq, mq, returned⟩ := queue
  obtain ⟨hnever, hreturned, hqueued, hwaiting⟩ := h
  dsimp only at hnever hreturned hqueued hwaiting
  cases mq with
  | nil =>
    obtain ⟨hpairs', hwaiting', hqueued'⟩ := Pairing.addReceiver_of_queued_nil hqueued.symm
    unfold PairingQueue.pairedUp PairingQueue.pushRecipient
    dsimp only
    rw [pairUp_nil]
    refine ⟨.inr rfl, ?_, ?_, ?_⟩
    · rw [hpairs', ← hreturned, List.append_nil]
    · rw [hqueued']
    · rw [hwaiting', ← hwaiting]
      simp [surviving]
  | cons message rest =>
    obtain rfl : rq = [] := hnever.resolve_right (by simp)
    obtain ⟨hpairs', hwaiting', hqueued'⟩ := Pairing.addReceiver_of_queued hqueued.symm
    refine ⟨.inl rfl, ?_, ?_, ?_⟩
    · rw [hpairs', List.map_append, ← hreturned]
      rfl
    · rw [hqueued']
      rfl
    · rw [hwaiting']
      rfl

/-- A message is returned to the right recipient exactly when the recipient in front has not
been aborted. -/
theorem addMessage_iff (h : queue.Serves p) :
  (queue.pushMessage param).pairedUp.Serves (p.addItem param) ↔
    ∀ recipient ∈ queue.recipientQueue.head?, recipient.aborted = false
  := by
  obtain ⟨rq, mq, returned⟩ := queue
  obtain ⟨hnever, hreturned, hqueued, hwaiting⟩ := h
  dsimp only at hnever hreturned hqueued hwaiting
  cases rq with
  | nil =>
    obtain ⟨hpairs', hwaiting', hqueued'⟩ :=
      Pairing.addItem_of_waiting_nil (b := param) hwaiting.symm
    refine iff_of_true ⟨.inl rfl, ?_, ?_, ?_⟩ (fun _ h => nomatch h)
    · rw [hpairs', ← hreturned]
      apply List.append_nil
    · rw [hqueued', ← hqueued]
      rfl
    · rw [hwaiting']
      rfl
  | cons recipient rest =>
    obtain rfl : mq = [] := hnever.resolve_left (by simp)
    have hpaired : (PairingQueue.pushMessage param ⟨recipient :: rest, [], returned⟩).pairedUp =
        ⟨rest, [], returned ++ [(recipient, param)]⟩ := by
      simp [PairingQueue.pairedUp, PairingQueue.pushMessage, pairUp]
    rw [hpaired]
    constructor
    · -- The calls so far are for recipients without a mark.
      rintro ⟨-, hreturned', -, -⟩ _ ⟨⟩
      have hmem : (recipient, param) ∈ returned ++ [(recipient, param)] := by simp
      dsimp only at hreturned'
      rw [hreturned'] at hmem
      obtain ⟨pair, -, hpair⟩ := List.mem_map.mp hmem
      cases hpair
      rfl
    · intro haborted
      obtain ⟨command, aborted⟩ := recipient
      obtain rfl : aborted = false := haborted _ rfl
      obtain ⟨hpairs', hwaiting', hqueued'⟩ :=
        Pairing.addItem_of_waiting (b := param) hwaiting.symm
      refine ⟨.inr rfl, ?_, ?_, ?_⟩
      · rw [hpairs', List.map_append, ← hreturned]
        rfl
      · rw [hqueued']
      · rw [hwaiting']
        rfl

/-- The queued messages are taken away. -/
theorem clear (h : queue.Serves p) :
  queue.clearMessages.Serves (p.requeue [])
  := by
  obtain ⟨hpairs, hwaiting, hqueued⟩ := @Pairing.requeue_parts _ _ p [] (.inr rfl)
  refine ⟨.inr rfl, ?_, ?_, ?_⟩
  · rw [hpairs]
    exact h.returned
  · rw [hqueued]
    rfl
  · rw [hwaiting]
    exact h.waiting

/-- The newest message alone is queued exactly when there is at most one. -/
theorem keepNewest_iff (h : queue.Serves p) :
  queue.Serves (p.requeue p.queued.getLast?.toList) ↔ queue.messageQueue.length ≤ 1
  := by
  have hor : p.waiting = [] ∨ p.queued.getLast?.toList = [] := by
    rcases p.waiting_or_queued with h | h
    · exact .inl h
    · right
      rw [h]
      rfl
  obtain ⟨hpairs, hwaiting, hqueued⟩ := p.requeue_parts hor
  constructor
  · intro h'
    rw [h'.queued, hqueued]
    cases p.queued.getLast? <;> simp
  · intro hlength
    refine ⟨h.neverBoth, ?_, ?_, ?_⟩
    · rw [hpairs]
      exact h.returned
    · rw [hqueued, ← h.queued]
      match hmq : queue.messageQueue with
      | [] => rfl
      | [message] => rfl
      | _ :: _ :: _ =>
        rw [hmq] at hlength
        simp at hlength
    · rw [hwaiting]
      exact h.waiting

variable [DecidableEq Command]

theorem surviving_abort (rq : List (Recipient Command)) :
  surviving (rq.map fun recipient =>
      if recipient.command = cmd then { recipient with aborted := true } else recipient) =
    (surviving rq).filter fun c => c ≠ cmd
  := by
  induction rq with
  | nil => rfl
  | cons recipient rest ih =>
    unfold surviving at ih ⊢
    rw [List.map_cons]
    by_cases hcommand : recipient.command = cmd
    · rw [if_pos hcommand, List.filter_cons_of_neg (by simp), ih]
      by_cases haborted : recipient.aborted = true
      · rw [List.filter_cons_of_neg (by simpa using haborted)]
      · rw [List.filter_cons_of_pos (by simpa using haborted), List.map_cons,
          List.filter_cons_of_neg (by simpa using hcommand)]
    · rw [if_neg hcommand]
      by_cases haborted : recipient.aborted = true
      · rw [List.filter_cons_of_neg (by simpa using haborted),
          List.filter_cons_of_neg (by simpa using haborted), ih]
      · rw [List.filter_cons_of_pos (by simpa using haborted),
          List.filter_cons_of_pos (by simpa using haborted), List.map_cons, List.map_cons,
          List.filter_cons_of_pos (by simpa using hcommand), ih]

theorem abort (h : queue.Serves p) :
  (queue.markAborted cmd).Serves (p.withdraw fun c => c ≠ cmd)
  := by
  obtain ⟨hpairs, hwaiting, hqueued⟩ := p.withdraw_parts fun c => decide (c ≠ cmd)
  refine ⟨?_, ?_, ?_, ?_⟩
  · unfold PairingQueue.markAborted
    rw [List.map_eq_nil_iff]
    exact h.neverBoth
  · rw [hpairs]
    exact h.returned
  · rw [hqueued]
    exact h.queued
  · rw [hwaiting, ← h.waiting]
    apply surviving_abort

end PairingQueue.Serves

/-! ### All names -/

theorem length_pairUp (rq : List (Recipient Command)) (mq : List Intfc.Value) :
  (pairUp rq mq).2.2.length ≤ mq.length
  := by
  induction rq generalizing mq with
  | nil => exact le_rfl
  | cons recipient rq ih =>
    cases mq with
    | nil => exact le_rfl
    | cons message mq => exact Nat.le_succ_of_le (ih mq)

namespace PairedQueues

section

variable {queues : StringValue → PairingQueue Command}
variable {pairings : StringValue → Pairing Command Intfc.Value}
variable {message : StringValue} {queue : PairingQueue Command} {p : Pairing Command Intfc.Value}

/-- When the queues of one name change, those of the others are as they should be still. -/
theorem serves_update_iff (h : ∀ n, (queues n).Serves (pairings n)) :
  (∀ n, (Function.update queues message queue n).Serves (Function.update pairings message p n)) ↔
    queue.Serves p
  := by
  constructor
  · intro h'
    have hmessage := h' message
    rw [Function.update_self, Function.update_self] at hmessage
    exact hmessage
  · intro hqueue n
    by_cases hn : n = message
    · subst hn
      rw [Function.update_self, Function.update_self]
      exact hqueue
    · rw [Function.update_of_ne hn, Function.update_of_ne hn]
      exact h n

theorem newest_update (h : ∀ n, (queues n).messageQueue.length ≤ 1)
    (hqueue : queue.messageQueue.length ≤ 1) (n : StringValue) :
  (Function.update queues message queue n).messageQueue.length ≤ 1
  := by
  by_cases hn : n = message
  · subst hn
    rw [Function.update_self]
    exact hqueue
  · rw [Function.update_of_ne hn]
    exact h n

end

variable {s : PairedQueues Command}

/-- A message serves the queues of all names exactly when the recipient in front has not been
aborted. -/
theorem serves_addMessage_iff
    (hqueues : ∀ n, (s.map.queues n).Serves (s.pairings.ofName n))
    (hflag : s.map.allowDuplicateMessages = s.pairings.allowDuplicates)
    (message : StringValue) (param : Intfc.Value) :
  (∀ n, ((s.map.addMessage message param).queues n).Serves
    ((s.pairings.addMessage message param).ofName n)) ↔
      ∀ recipient ∈ (s.map.queues message).recipientQueue.head?, recipient.aborted = false
  := by
  unfold MessageQueueMap.addMessage Pairings.addMessage
  rw [← hflag]
  cases s.map.allowDuplicateMessages with
  | true => exact (serves_update_iff hqueues).trans (hqueues message).addMessage_iff
  | false => exact (serves_update_iff hqueues).trans (hqueues message).clear.addMessage_iff

/-- Without duplicates, a message replaces the queued ones. -/
theorem newest_addMessage (hnewest : ∀ n, (s.map.queues n).messageQueue.length ≤ 1)
    (hallow : s.map.allowDuplicateMessages = false) (message : StringValue) (param : Intfc.Value)
    (n : StringValue) :
  ((s.map.addMessage message param).queues n).messageQueue.length ≤ 1
  := by
  unfold MessageQueueMap.addMessage
  rw [hallow]
  apply newest_update hnewest
  exact length_pairUp _ _

variable [DecidableEq Command] {e : QueueEvent Command}

/-- The queues stay as they should be exactly when the event is heeded. -/
theorem Serve.step_iff (h : s.Serve)
    (hflag : s.map.allowDuplicateMessages = s.pairings.allowDuplicates) :
  s.Heeded e ↔ (⟨s.map.apply e, s.pairings.apply e⟩ : PairedQueues Command).Serve
  := by
  obtain ⟨hqueues, hnewest⟩ := h
  cases e with
  | addRecipient message cmd =>
    refine iff_of_true trivial ⟨?_, fun hdisallowed => ?_⟩
    · exact (serves_update_iff hqueues).mpr (hqueues message).addRecipient
    · apply newest_update (hnewest hdisallowed)
      exact (length_pairUp _ _).trans (hnewest hdisallowed message)
  | addMessage message param =>
    constructor
    · intro heeded
      refine ⟨(serves_addMessage_iff hqueues hflag message param).mpr heeded, fun hallow => ?_⟩
      exact newest_addMessage (hnewest hallow) hallow message param
    · rintro ⟨hqueues', -⟩
      exact (serves_addMessage_iff hqueues hflag message param).mp hqueues'
  | setAllowDuplicateMessages flag =>
    cases flag with
    | true =>
      refine iff_of_true (fun h => nomatch h) ⟨hqueues, fun h => nomatch h⟩
    | false =>
      constructor
      · intro heeded
        refine ⟨fun message => ?_, fun _ => heeded rfl⟩
        exact (hqueues message).keepNewest_iff.mpr (heeded rfl message)
      · rintro ⟨-, hnewest'⟩ _
        exact hnewest' rfl
  | abort message cmd =>
    refine iff_of_true trivial ⟨?_, fun hdisallowed => ?_⟩
    · exact (serves_update_iff hqueues).mpr (hqueues message).abort
    · apply newest_update (hnewest hdisallowed)
      exact hnewest hdisallowed message

theorem allowDuplicates_step
    (hflag : s.map.allowDuplicateMessages = s.pairings.allowDuplicates) :
  (s.map.apply e).allowDuplicateMessages = (s.pairings.apply e).allowDuplicates
  := by
  cases e with
  | setAllowDuplicateMessages flag => rfl
  | _ => exact hflag

/-- Throughout a run, recipients and messages are paired in their order, no message is taken by
an aborted recipient or lost, and at most one is queued when duplicates are disallowed, exactly
when all events are heeded. -/
theorem serve_iff (allow : Bool) (es : List (QueueEvent Command)) :
  StateMachine.Always step Serve es (initial allow) ↔
    StateMachine.Meets step Heeded es (initial allow)
  := by
  apply StateMachine.always_iff_meets
    (I := fun s => s.map.allowDuplicateMessages = s.pairings.allowDuplicates)
  · rintro s e _ hflag ⟨⟩
    exact allowDuplicates_step hflag
  · intro s e hflag h
    rw [h.step_iff hflag]
    unfold step
    constructor
    · rintro h _ ⟨⟩
      exact h
    · intro h
      exact h _ rfl
  · rfl
  · refine ⟨fun message => ⟨.inl rfl, rfl, rfl, rfl⟩, fun _ message => Nat.zero_le _⟩

/-- A receive command is aborted while it waits, and another one takes its place: the first
message goes to the aborted one. -/
theorem not_serve :
  ¬ ∀ es : List (QueueEvent Nat), StateMachine.Always step Serve es (initial true)
  := by
  intro h
  have hall := h
    [.addRecipient [] 1, .abort [] 1, .addRecipient [] 2, .addMessage [] (.boolean true)]
  have hreturned := ((hall.of_run rfl).queues []).returned
  exact absurd hreturned (by decide)

end PairedQueues

end Plexil.Udp
