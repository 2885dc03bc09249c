import Plexil.Interfaces.IpcFacade
import Plexil.Util.Interleaving

/-!
# What the receiver does with a message

The receiver handles the packets of different senders separately.  From a leader and the
packets which follow it with the same identifier it makes one message, of as many parameters
as the leader counts.
-/

namespace Plexil.Ipc

/-- The content of the leader of a message. -/
inductive Content.IsLeader : Content → Prop where
  | command (name) : IsLeader (.command name)
  | lookupNow (name) : IsLeader (.lookupNow name)
  | telemetryValues (name) : IsLeader (.telemetryValues name)
  | plannerUpdate (name) : IsLeader (.plannerUpdate name)

/-- The content of a parameter. -/
def Content.IsTrailer : Content → Prop
  | .unknownValue | .booleanValue _ | .integerValue _ | .realValue _ | .stringValue _
  | .booleanArray _ | .integerArray _ | .realArray _ | .stringArray _
  | .pairBoolean _ _ | .pairInteger _ _ | .pairReal _ _ | .pairString _
  | .commandHandleValue _ => True
  | .notifyExec | .command _ | .message _ | .lookupNow _ | .telemetryValues _
  | .returnValues _ _ | .addPlan _ | .addPlanFile _ | .addLibrary _ | .addLibraryFile _
  | .plannerUpdate _ => False

/-- The packet is a parameter of the message with the identifier. -/
structure Packet.Follows (id : Uid × Serial) (packet : Packet) : Prop where
  content : packet.content.IsTrailer
  id : packet.id = id

namespace Receiver

variable {myUID : Uid} {r r' : Receiver}

/-! ### Packets -/

/-- What is done with a leader: it is delivered at once, or cached, or an error is raised. -/
theorem handleMessage_leader {packet : Packet} (hleader : packet.content.IsLeader) :
  (packet.count.toNat = 0 ∧ r.handleMessage myUID packet = some (r.deliverMessages packet [])) ∨
    r.handleMessage myUID packet = r.cacheMessageLeader packet
  := by
  unfold handleMessage
  generalize packet.content = content at hleader
  cases hleader with
  | command name =>
    dsimp only
    split
    · right
      rfl
    · left
      exact ⟨not_not.mp ‹_›, rfl⟩
  | lookupNow name =>
    dsimp only
    split
    · right
      rfl
    · left
      exact ⟨not_not.mp ‹_›, rfl⟩
  | telemetryValues name =>
    right
    rfl
  | plannerUpdate name =>
    right
    rfl

theorem handleMessage_trailer {packet : Packet} (htrailer : packet.content.IsTrailer) :
  r.handleMessage myUID packet = some (r.cacheMessageTrailer packet)
  := by
  unfold handleMessage
  generalize packet.content = content at htrailer
  cases content <;> first | rfl | contradiction

/-- The leader of an identifier without an incomplete message. -/
theorem handleMessage_first {packet : Packet} (hleader : packet.content.IsLeader)
    (hnone : r.incompletes packet.id = none) :
  r.handleMessage myUID packet =
    if h : packet.count.toNat = 0 then some (r.deliverMessages packet [])
    else some { r with
      incompletes := Function.update r.incompletes packet.id
        (some ⟨packet, [], rfl, Nat.pos_of_ne_zero h⟩) }
  := by
  rcases @handleMessage_leader myUID r packet hleader with ⟨hcount, heq⟩ | heq
  · rw [heq, dif_pos hcount]
  · rw [heq, cacheMessageLeader, hnone]
    rfl

theorem cacheMessageTrailer_of_none {packet : Packet}
    (hnone : r.incompletes packet.id = none) :
  r.cacheMessageTrailer packet = r
  := by
  unfold cacheMessageTrailer
  rw [hnone]

theorem cacheMessageTrailer_last {packet : Packet} {message : IncompleteMessage packet.id}
    (hsome : r.incompletes packet.id = some message)
    (hlast : message.trailers.length + 2 > message.leader.count.toNat) :
  r.cacheMessageTrailer packet =
    { delivered := r.delivered ++ [⟨message.leader, message.trailers ++ [packet]⟩]
      incompletes := Function.update r.incompletes packet.id none }
  := by
  unfold cacheMessageTrailer
  rw [hsome]
  dsimp only
  rw [dif_pos hlast]
  rfl

theorem cacheMessageTrailer_more {packet : Packet} {message : IncompleteMessage packet.id}
    (hsome : r.incompletes packet.id = some message)
    (hmore : ¬ message.trailers.length + 2 > message.leader.count.toNat) :
  ∃ message' : IncompleteMessage packet.id,
    message'.leader = message.leader ∧ message'.trailers = message.trailers ++ [packet] ∧
    r.cacheMessageTrailer packet =
      { r with incompletes := Function.update r.incompletes packet.id (some message') }
  := by
  unfold cacheMessageTrailer
  rw [hsome]
  dsimp only
  rw [dif_neg hmore]
  refine ⟨_, ?_, ?_, rfl⟩ <;> rfl

/-! ### Messages -/

/-- Trailers of no incomplete message are ignored. -/
theorem receive_ignored {id : Uid × Serial} {trailers : List Packet}
    (hfollow : ∀ packet ∈ trailers, packet.Follows id) (hnone : r.incompletes id = none) :
  r.receive myUID trailers = some r
  := by
  induction trailers with
  | nil => rfl
  | cons packet rest ih =>
    obtain ⟨hpacket, hrest⟩ := List.forall_mem_cons.mp hfollow
    obtain ⟨hcontent, rfl⟩ := hpacket
    unfold receive
    rw [StateMachine.run, handleMessage_trailer hcontent, cacheMessageTrailer_of_none hnone]
    apply ih hrest

/-- The trailers of an incomplete message: they are cached while more of them are counted,
and the message is delivered with as many as are counted. -/
theorem receive_trailers {id : Uid × Serial} {trailers : List Packet}
    (hfollow : ∀ packet ∈ trailers, packet.Follows id) {message : IncompleteMessage id}
    (hsome : r.incompletes id = some message) :
  ∃ r', r.receive myUID trailers = some r' ∧
    ((message.trailers.length + trailers.length < message.leader.count.toNat ∧
        r'.delivered = r.delivered ∧ (r'.incompletes id).isSome) ∨
      (message.leader.count.toNat ≤ message.trailers.length + trailers.length ∧
        r'.delivered = r.delivered ++
          [⟨message.leader, (message.trailers ++ trailers).take message.leader.count.toNat⟩] ∧
        r'.incompletes = Function.update r.incompletes id none))
  := by
  induction trailers generalizing r message with
  | nil =>
    have := message.awaiting
    refine ⟨r, rfl, .inl ⟨?_, rfl, ?_⟩⟩
    · rw [List.length_nil]
      omega
    · rw [hsome]
      rfl
  | cons packet rest ih =>
    obtain ⟨hpacket, hrest⟩ := List.forall_mem_cons.mp hfollow
    obtain ⟨hcontent, rfl⟩ := hpacket
    have hawaiting := message.awaiting
    unfold receive
    rw [StateMachine.run, handleMessage_trailer hcontent]
    by_cases hlast : message.trailers.length + 2 > message.leader.count.toNat
    · rw [cacheMessageTrailer_last hsome hlast]
      refine ⟨_, receive_ignored hrest (Function.update_self _ _ _), .inr ⟨?_, ?_, rfl⟩⟩
      · rw [List.length_cons]
        omega
      · have hcount : message.leader.count.toNat = (message.trailers ++ [packet]).length := by
          rw [List.length_append, List.length_singleton]
          omega
        rw [List.append_cons message.trailers packet rest, hcount, List.take_left]
    · obtain ⟨message', hleader, htrailers, heq⟩ := cacheMessageTrailer_more hsome hlast
      rw [heq]
      obtain ⟨r', hr', h⟩ := @ih
        { r with incompletes := Function.update r.incompletes packet.id (some message') }
        hrest message' (Function.update_self _ _ _)
      refine ⟨r', hr', ?_⟩
      rw [hleader, htrailers, List.length_append, List.length_singleton, List.append_assoc,
        List.singleton_append, Function.update_idem] at h
      rw [List.length_cons]
      refine Or.imp ?_ ?_ h
      · rintro ⟨hlength, h⟩
        exact ⟨by omega, h⟩
      · rintro ⟨hlength, h⟩
        exact ⟨by omega, h⟩

/-- A leader and its trailers, when no message with the identifier is incomplete.  The
message is delivered with as many trailers as are counted, or stays incomplete. -/
theorem receive_message {packet : Packet} {trailers : List Packet}
    (hleader : packet.content.IsLeader) (hnone : r.incompletes packet.id = none)
    (hfollow : ∀ trailer ∈ trailers, trailer.Follows packet.id) :
  ∃ r', r.receive myUID (packet :: trailers) = some r' ∧
    ((trailers.length < packet.count.toNat ∧
        r'.delivered = r.delivered ∧ (r'.incompletes packet.id).isSome) ∨
      (packet.count.toNat ≤ trailers.length ∧
        r'.delivered = r.delivered ++ [⟨packet, trailers.take packet.count.toNat⟩] ∧
        r'.incompletes = r.incompletes))
  := by
  unfold receive
  rw [StateMachine.run, handleMessage_first hleader hnone]
  by_cases hcount : packet.count.toNat = 0
  · rw [dif_pos hcount, hcount]
    use r.deliverMessages packet []
    constructor
    · apply receive_ignored hfollow
      apply hnone
    · right
      use Nat.zero_le _
      exact ⟨rfl, rfl⟩
  · rw [dif_neg hcount]
    let message : IncompleteMessage packet.id := ⟨packet, [], rfl, Nat.pos_of_ne_zero hcount⟩
    obtain ⟨r', hr', h⟩ := @receive_trailers myUID
      { r with incompletes := Function.update r.incompletes packet.id (some message) }
      packet.id trailers hfollow message (Function.update_self _ _ _)
    use r', hr'
    rw [List.length_nil, Nat.zero_add, List.nil_append, Function.update_idem] at h
    have hself : Function.update r.incompletes packet.id none = r.incompletes := by
      rw [← hnone]
      apply Function.update_eq_self
    rw [hself] at h
    exact h

/-! ### Senders -/

/-- What the receiver has of a sender. -/
def only (u : Uid) (r : Receiver) : Receiver where
  incompletes id := if id.1 = u then r.incompletes id else none
  delivered := r.delivered.filter fun delivery => delivery.leader.senderUID = u

@[simp]
theorem only_initial (u : Uid) : only u initial = initial
  := by
  simp [only, initial]

theorem only_deliverMessages_self (packet : Packet) (trailers : List Packet) :
  only packet.senderUID (r.deliverMessages packet trailers) =
    (only packet.senderUID r).deliverMessages packet trailers
  := by
  simp [only, deliverMessages]

theorem only_deliverMessages_of_ne {u : Uid} {packet : Packet} (h : packet.senderUID ≠ u)
    (trailers : List Packet) :
  only u (r.deliverMessages packet trailers) = only u r
  := by
  simp [only, deliverMessages, h]

theorem only_update_self {id : Uid × Serial} (message : Option (IncompleteMessage id)) :
  only id.1 { r with incompletes := Function.update r.incompletes id message } =
    { only id.1 r with incompletes := Function.update (only id.1 r).incompletes id message }
  := by
  unfold only
  congr 1
  funext id'
  dsimp only
  by_cases h : id' = id
  · subst h
    rw [if_pos rfl, Function.update_self, Function.update_self]
  · rw [Function.update_of_ne h, Function.update_of_ne h]

theorem only_update_of_ne {u : Uid} {id : Uid × Serial} (h : id.1 ≠ u)
    (message : Option (IncompleteMessage id)) :
  only u { r with incompletes := Function.update r.incompletes id message } = only u r
  := by
  unfold only
  congr 1
  funext id'
  split
  · rename_i heq
    apply Function.update_of_ne
    rintro rfl
    apply h heq
  · rfl

theorem only_incompletes (id : Uid × Serial) :
  (only id.1 r).incompletes id = r.incompletes id
  := if_pos rfl

theorem only_cacheMessageLeader_self (packet : Packet) :
  (r.cacheMessageLeader packet).map (only packet.senderUID) =
    (only packet.senderUID r).cacheMessageLeader packet
  := by
  have hincompletes : (only packet.senderUID r).incompletes packet.id = r.incompletes packet.id :=
    only_incompletes packet.id
  unfold cacheMessageLeader
  rw [hincompletes]
  split
  · rfl
  · split
    · rw [Option.map_some, only_deliverMessages_self]
    · rw [Option.map_some]
      congr 1
      apply @only_update_self r packet.id

theorem only_cacheMessageLeader_of_ne {u : Uid} {packet : Packet} (h : packet.senderUID ≠ u)
    (hstep : r.cacheMessageLeader packet = some r') :
  only u r' = only u r
  := by
  unfold cacheMessageLeader at hstep
  split at hstep
  · contradiction
  · split at hstep
    · cases hstep
      apply only_deliverMessages_of_ne h
    · cases hstep
      apply @only_update_of_ne r u packet.id h

theorem only_cacheMessageTrailer_self (packet : Packet) :
  only packet.senderUID (r.cacheMessageTrailer packet) =
    (only packet.senderUID r).cacheMessageTrailer packet
  := by
  have hincompletes : (only packet.senderUID r).incompletes packet.id = r.incompletes packet.id :=
    only_incompletes packet.id
  unfold cacheMessageTrailer
  rw [hincompletes]
  cases hmessage : r.incompletes packet.id with
  | none => rfl
  | some message =>
    have hsender : message.leader.senderUID = packet.senderUID := congrArg Prod.fst message.sender
    dsimp only
    split
    · rw [← hsender, ← only_deliverMessages_self, hsender]
      apply @only_update_self _ packet.id
    · apply @only_update_self r packet.id

theorem only_cacheMessageTrailer_of_ne {u : Uid} {packet : Packet} (h : packet.senderUID ≠ u) :
  only u (r.cacheMessageTrailer packet) = only u r
  := by
  unfold cacheMessageTrailer
  split
  · rfl
  · rename_i message _
    have hsender : message.leader.senderUID ≠ u := by
      rw [show message.leader.senderUID = packet.senderUID from congrArg Prod.fst message.sender]
      exact h
    split
    · apply Eq.trans _ (only_deliverMessages_of_ne hsender (message.trailers ++ [packet]))
      apply @only_update_of_ne _ u packet.id h
    · apply @only_update_of_ne r u packet.id h

/-- The receiver handles the packets of each sender separately. -/
theorem separated (myUID : Uid) :
  StateMachine.Separated (handleMessage myUID) Packet.senderUID only (handleMessage myUID)
  where
  own r packet := by
    unfold handleMessage
    cases packet.content with
    | command | lookupNow =>
      dsimp only
      split
      · apply only_cacheMessageLeader_self
      · rw [Option.map_some, only_deliverMessages_self]
    | plannerUpdate | telemetryValues => apply only_cacheMessageLeader_self
    | returnValues =>
      dsimp only
      split
      · apply only_cacheMessageLeader_self
      · rfl
    | message | notifyExec | addPlan | addPlanFile | addLibrary | addLibraryFile =>
      rw [Option.map_some, only_deliverMessages_self]
    | _ => rw [Option.map_some, only_cacheMessageTrailer_self]
  other {r r' packet u} hstep h := by
    unfold handleMessage at hstep
    cases hcontent : packet.content <;> rw [hcontent] at hstep
    case command | lookupNow =>
      dsimp only at hstep
      split at hstep
      · apply only_cacheMessageLeader_of_ne h hstep
      · cases hstep
        apply only_deliverMessages_of_ne h
    case plannerUpdate | telemetryValues => apply only_cacheMessageLeader_of_ne h hstep
    case returnValues =>
      dsimp only at hstep
      split at hstep
      · apply only_cacheMessageLeader_of_ne h hstep
      · cases hstep
        rfl
    case message | notifyExec | addPlan | addPlanFile | addLibrary | addLibraryFile =>
      cases hstep
      apply only_deliverMessages_of_ne h
    all_goals
      cases hstep
      apply only_cacheMessageTrailer_of_ne h

/-! ### Deliveries -/

/-- A packet only adds to what has been delivered. -/
theorem handleMessage_delivered {packet : Packet}
    (hstep : r.handleMessage myUID packet = some r') :
  r.delivered <+: r'.delivered
  := by
  have hdeliver : ∀ leader trailers, r.delivered <+: (r.deliverMessages leader trailers).delivered :=
    fun leader trailers => List.prefix_append _ _
  have hleader : ∀ r', r.cacheMessageLeader packet = some r' → r.delivered <+: r'.delivered := by
    intro r' h
    unfold cacheMessageLeader at h
    split at h
    · contradiction
    · split at h <;> cases h
      · apply hdeliver
      · apply List.prefix_rfl
  have htrailer : r.delivered <+: (r.cacheMessageTrailer packet).delivered := by
    unfold cacheMessageTrailer
    split
    · apply List.prefix_rfl
    · split
      · apply hdeliver
      · apply List.prefix_rfl
  unfold handleMessage at hstep
  cases hcontent : packet.content <;> rw [hcontent] at hstep
  case command | lookupNow =>
    dsimp only at hstep
    split at hstep
    · apply hleader _ hstep
    · cases hstep
      apply hdeliver
  case plannerUpdate | telemetryValues => apply hleader _ hstep
  case returnValues =>
    dsimp only at hstep
    split at hstep
    · apply hleader _ hstep
    · cases hstep
      apply List.prefix_rfl
  case message | notifyExec | addPlan | addPlanFile | addLibrary | addLibraryFile =>
    cases hstep
    apply hdeliver
  all_goals
    cases hstep
    apply htrailer

theorem receive_delivered {packets : List Packet} (hrun : r.receive myUID packets = some r') :
  r.delivered <+: r'.delivered
  := by
  unfold receive at hrun
  induction packets generalizing r with
  | nil =>
    cases hrun
    apply List.prefix_rfl
  | cons packet rest ih =>
    obtain ⟨t, ht, hrest⟩ := Option.bind_eq_some_iff.mp hrun
    apply (handleMessage_delivered ht).trans (ih hrest)

end Receiver

end Plexil.Ipc
