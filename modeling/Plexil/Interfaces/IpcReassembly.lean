import Plexil.Interfaces.IpcReceiver

/-!
# Reassembled messages

The messages of a sender are read by the listeners: the content of the leader, and the
value of each parameter by `getPlexilMsgValue`.  The receiver reassembles the messages of
all senders when each message is read once, in the order in which its sender published
them, as it was published, and no message stays incomplete.

That depends on the messages alone.  A message which is not faithful is read as another
message or stays incomplete; what its sender publishes later does not make up for it, also
when its serial number is used again.
-/

namespace Plexil.Ipc

open Intfc

/-! ### What is read -/

structure Parameter where
  id : Uid × Serial
  pairName : Option StringValue
  value : Option Intfc.Value

structure Reading where
  leader : Content
  id : Uid × Serial
  parameters : List Parameter

def Packet.parameter (packet : Packet) : Parameter :=
  ⟨packet.id, packet.content.pairName, getPlexilMsgValue packet.content⟩

def Delivery.read (delivery : Delivery) : Reading :=
  ⟨delivery.leader.content, delivery.leader.id, delivery.trailers.map Packet.parameter⟩

namespace Request

/-- The content of the leader for a name. -/
def leader : Request → Content
  | command name _ => .command name
  | lookupNow name _ => .lookupNow name
  | telemetry name _ => .telemetryValues name
  | update name _ => .plannerUpdate name

/-- The parameters as they were published. -/
def parameters (id : Uid × Serial) : Request → List Parameter
  | command _ args | lookupNow _ args | telemetry _ args =>
    args.map fun value => ⟨id, none, some value⟩
  | update _ pairs => pairs.map fun (name, value) => ⟨id, some name, some value⟩

/-- The message as it was published. -/
def reading (id : Uid × Serial) (request : Request) : Reading :=
  ⟨request.leader, id, request.parameters id⟩

def name : Request → StringValue
  | command name _ | lookupNow name _ | telemetry name _ | update name _ => name

def size : Request → Nat
  | command _ args | lookupNow _ args | telemetry _ args => args.length
  | update _ pairs => pairs.length

/-- The parameters are published, and can be read. -/
def Intact : Request → Prop
  | command _ args | lookupNow _ args | telemetry _ args => ∀ value ∈ args, Transmissible value
  | update _ pairs => pairs = []

/-- The requests whose message is read as it was published. -/
structure Faithful (request : Request) : Prop where
  name : NulFree request.name
  size : request.size < 2 ^ 16
  intact : request.Intact

end Request

/-- The messages of a sender as they were published, where `serial` is its `m_nextSerial`. -/
def readings (senderUID : Uid) : Serial → List Request → List Reading
  | _, [] => []
  | serial, request :: rest =>
    request.reading (senderUID, serial) :: readings senderUID (serial + 1) rest

/-- The messages of all senders are reassembled from the packets, in their order of
arrival. -/
def Reassembled (myUID : Uid) (requests : Uid → List Request) (arrivals : List Packet) : Prop :=
  ∃ r, Receiver.initial.receive myUID arrivals = some r ∧
    (∀ id, r.incompletes id = none) ∧
    ∀ u, (r.delivered.filter fun delivery => delivery.leader.senderUID = u).map Delivery.read =
      readings u 1 (requests u)

/-- The orders of arrival in which the packets of each sender arrive in the order in which
they are sent. -/
def Interleaving (requests : Uid → List Request) :=
  { arrivals : List Packet // ∀ u,
    StateMachine.eventsOf Packet.senderUID u arrivals = sent u (requests u) }

/-! ### Parameters -/

theorem mapM_eq_some {α β : Type} {f : α → Option β} {xs : List α} {ys : List β}
    (h : xs.mapM f = some ys) :
  List.Forall₂ (fun x y => f x = some y) xs ys
  := by
  induction xs generalizing ys with
  | nil =>
    cases h
    exact .nil
  | cons x xs ih =>
    rw [List.mapM_cons] at h
    obtain ⟨y, hy, h⟩ := Option.bind_eq_some_iff.mp h
    obtain ⟨ys', hys', h⟩ := Option.bind_eq_some_iff.mp h
    cases h
    exact .cons hy (ih hys')

theorem exists_of_mem_mapM {α β : Type} {f : α → Option β} {xs : List α} {ys : List β}
    (h : List.Forall₂ (fun x y => f x = some y) xs ys) {y : β} (hy : y ∈ ys) :
  ∃ x, f x = some y
  := by
  induction h with
  | nil => contradiction
  | @cons x _ _ _ hx _ ih =>
    obtain rfl | hy := List.mem_cons.mp hy
    · use x
    · apply ih hy

theorem mapM_ne_none {α β : Type} {f : α → Option β} {xs : List α}
    (h : ∀ x ∈ xs, ∃ y, f x = some y) :
  xs.mapM f ≠ none
  := by
  induction xs with
  | nil => exact Option.some_ne_none _
  | cons x xs ih =>
    obtain ⟨⟨y, hy⟩, hxs⟩ := List.forall_mem_cons.mp h
    obtain ⟨ys, hys⟩ := Option.ne_none_iff_exists'.mp (ih hxs)
    rw [List.mapM_cons, hy, hys]
    exact Option.some_ne_none _

theorem isTrailer_of_constructPlexilValueMsg {value : Intfc.Value} {content : Content}
    (h : constructPlexilValueMsg value = some content) :
  content.IsTrailer ∧ content.pairName = none
  := by
  cases value <;> simp only [constructPlexilValueMsg, Option.map_eq_some_iff, Option.some.injEq,
    reduceCtorEq] at h
  case booleanArray | integerArray | realArray | stringArray =>
    obtain ⟨-, -, rfl⟩ := h
    exact ⟨trivial, rfl⟩
  all_goals
    subst h
    exact ⟨trivial, rfl⟩

theorem isTrailer_of_constructPlexilPairMsg {name : StringValue} {value : Intfc.Value}
    {content : Content} (h : constructPlexilPairMsg name value = some content) :
  content.IsTrailer ∧ getPlexilMsgValue content = none
  := by
  cases value <;> cases h
  all_goals exact ⟨trivial, rfl⟩

/-- A published value is read exactly if it is transmissible. -/
theorem transmissible_iff_of_constructPlexilValueMsg {value : Intfc.Value} {content : Content}
    (h : constructPlexilValueMsg value = some content) :
  Transmissible value ↔
    (msgFormatForType content).isSome ∧ getPlexilMsgValue content = some value
  := by
  rw [← transmissible_iff, Option.isSome_iff_ne_none]
  constructor
  · rintro ⟨content', h', hread⟩
    obtain rfl := Option.some.inj (h.symm.trans h')
    exact hread
  · intro hread
    use content

section Parameters

variable {senderUID : Uid} {serial : Serial}

/-- What is read of the packets of arguments. -/
theorem parameters_iff {args : List Intfc.Value} {contents : List Content}
    (h : List.Forall₂ (fun value content => constructPlexilValueMsg value = some content)
      args contents) (i : Nat) :
  (((contents.zipIdx i).map fun (content, i) =>
      (⟨content, BitVec.ofNat 16 i, serial, senderUID⟩ : Packet)).takeWhile
        Packet.isPublished).map Packet.parameter =
    args.map (fun value => ⟨(senderUID, serial), none, some value⟩) ↔
    ∀ value ∈ args, Transmissible value
  := by
  induction h generalizing i with
  | nil => simp
  | @cons value content args contents hcontent _ ih =>
    obtain ⟨-, hname⟩ := isTrailer_of_constructPlexilValueMsg hcontent
    rw [List.zipIdx_cons, List.map_cons, List.takeWhile_cons, List.forall_mem_cons,
      transmissible_iff_of_constructPlexilValueMsg hcontent, ← ih (i + 1)]
    dsimp only [Packet.isPublished]
    by_cases hpublished : (msgFormatForType content).isSome = true
    · simp [hpublished, Packet.parameter, Packet.id, hname]
    · simp [hpublished]

theorem sendParameters_parameters (args : List Intfc.Value) :
  (sendParameters senderUID serial args).packets.map Packet.parameter =
    args.map (fun value => ⟨(senderUID, serial), none, some value⟩) ↔
    ∀ value ∈ args, Transmissible value
  := by
  unfold sendParameters
  split
  · rename_i hnone
    constructor
    · intro h
      obtain rfl := List.map_eq_nil_iff.mp h.symm
      simp
    · intro h
      apply absurd hnone (mapM_ne_none _)
      intro value hvalue
      obtain ⟨content, hcontent, -⟩ := (transmissible_iff value).mpr (h value hvalue)
      use content
  · rename_i contents hcontents
    apply parameters_iff (mapM_eq_some hcontents)

theorem sendParameters_raised {args : List Intfc.Value}
    (h : ∀ value ∈ args, Transmissible value) :
  (sendParameters senderUID serial args).raised = false
  := by
  unfold sendParameters
  split
  · rename_i hnone
    apply absurd hnone (mapM_ne_none _)
    intro value hvalue
    obtain ⟨content, hcontent, -⟩ := (transmissible_iff value).mpr (h value hvalue)
    use content
  · rfl

theorem sendParameters_follows (args : List Intfc.Value) :
  (sendParameters senderUID serial args).packets.length ≤ args.length ∧
    ∀ packet ∈ (sendParameters senderUID serial args).packets,
      packet.Follows (senderUID, serial)
  := by
  unfold sendParameters
  split
  · simp
  · rename_i contents hcontents
    have h := mapM_eq_some hcontents
    constructor
    · apply (List.takeWhile_sublist _).length_le.trans
      rw [List.length_map, List.length_zipIdx, h.length_eq]
    · intro packet hpacket
      obtain ⟨⟨content, i⟩, hmem, rfl⟩ := List.mem_map.mp ((List.takeWhile_sublist _).mem hpacket)
      obtain ⟨value, hvalue⟩ := exists_of_mem_mapM h (List.fst_mem_of_mem_zipIdx hmem)
      exact ⟨(isTrailer_of_constructPlexilValueMsg hvalue).1, rfl⟩

theorem sendPairsFrom_follows (i : Nat) (pairs : List (StringValue × Intfc.Value)) :
  (sendPairsFrom senderUID serial i pairs).packets.length ≤ pairs.length ∧
    ∀ packet ∈ (sendPairsFrom senderUID serial i pairs).packets,
      packet.Follows (senderUID, serial)
  := by
  induction pairs generalizing i with
  | nil => simp [sendPairsFrom]
  | cons pair rest ih =>
    obtain ⟨name, value⟩ := pair
    unfold sendPairsFrom
    split
    · simp
    · rename_i content hcontent
      dsimp only
      split
      · obtain ⟨hlength, hfollow⟩ := ih (i + 1)
        constructor
        · rw [List.length_cons, List.length_cons]
          omega
        · rw [List.forall_mem_cons]
          constructor
          · exact ⟨(isTrailer_of_constructPlexilPairMsg hcontent).1, rfl⟩
          · apply hfollow
      · simp

/-- No pair is read. -/
theorem sendPairs_parameters (pairs : List (StringValue × Intfc.Value)) :
  (sendPairs senderUID serial pairs).packets.map Packet.parameter =
    pairs.map (fun (name, value) => ⟨(senderUID, serial), some name, some value⟩) ↔ pairs = []
  := by
  cases pairs with
  | nil => simp [sendPairs, sendPairsFrom]
  | cons pair rest =>
    obtain ⟨name, value⟩ := pair
    unfold sendPairs sendPairsFrom
    split
    · simp
    · rename_i content hcontent
      obtain ⟨-, hvalue⟩ := isTrailer_of_constructPlexilPairMsg hcontent
      dsimp only
      split
      · simp [Packet.parameter, hvalue]
      · simp

end Parameters

/-! ### Messages -/

variable {myUID : Uid} {senderUID : Uid} {serial : Serial} {request : Request} {r r' : Receiver}

/-- The content of the leader which is published. -/
def Request.sentLeader : Request → Content
  | command name _ => .command (cString name)
  | lookupNow name _ => .lookupNow (cString name)
  | telemetry name _ => .telemetryValues (cString name)
  | update name _ => .plannerUpdate (cString name)

theorem Request.sentLeader_eq_leader (request : Request) :
  request.sentLeader = request.leader ↔ NulFree request.name
  := by
  cases request <;> simp [sentLeader, leader, name, cString_eq_self]

theorem Request.isLeader_sentLeader (request : Request) :
  request.sentLeader.IsLeader
  := by
  cases request <;> constructor

/-- The packets of the parameters of a request. -/
structure Trails (senderUID : Uid) (serial : Serial) (request : Request) (p : Publication) :
    Prop where
  length : p.packets.length ≤ request.size
  follows : ∀ packet ∈ p.packets, packet.Follows (senderUID, serial)
  parameters : p.packets.map Packet.parameter = request.parameters (senderUID, serial) ↔
    request.Intact
  raised : request.Intact → p.raised = false

theorem trails_sendParameters {args : List Intfc.Value} (hsize : request.size = args.length)
    (hparameters : request.parameters (senderUID, serial) =
      args.map fun value => ⟨(senderUID, serial), none, some value⟩)
    (hintact : request.Intact ↔ ∀ value ∈ args, Transmissible value) :
  Trails senderUID serial request (sendParameters senderUID serial args)
  where
  length := by
    rw [hsize]
    apply (sendParameters_follows args).1
  follows := (sendParameters_follows args).2
  parameters := by
    rw [hparameters, hintact]
    apply sendParameters_parameters
  raised h := sendParameters_raised (hintact.mp h)

/-- A request publishes a leader and then its parameters. -/
theorem publish_spec (senderUID : Uid) (serial : Serial) (request : Request) :
  ∃ p, publish senderUID serial request =
    publishLeader senderUID serial request.sentLeader request.size p ∧
    Trails senderUID serial request p
  := by
  have guarded : ∀ args : List Intfc.Value,
      (if args.isEmpty then ⟨[], false⟩ else sendParameters senderUID serial args) =
        sendParameters senderUID serial args := by
    intro args
    cases args <;> rfl
  cases request with
  | command name args =>
    use sendParameters senderUID serial args, rfl
    apply trails_sendParameters rfl rfl Iff.rfl
  | lookupNow name args =>
    use sendParameters senderUID serial args
    constructor
    · rw [← guarded]
      rfl
    · apply trails_sendParameters rfl rfl Iff.rfl
  | telemetry name values =>
    use sendParameters senderUID serial values
    constructor
    · rw [← guarded]
      rfl
    · apply trails_sendParameters rfl rfl Iff.rfl
  | update name pairs =>
    use sendPairs senderUID serial pairs, rfl
    exact {
      length := (sendPairsFrom_follows 0 pairs).1
      follows := (sendPairsFrom_follows 0 pairs).2
      parameters := sendPairs_parameters pairs
      raised := by
        rintro rfl
        rfl }

theorem Request.length_parameters (id : Uid × Serial) (request : Request) :
  (request.parameters id).length = request.size
  := by
  cases request <;> apply List.length_map

/-- As many trailers as the leader counts are read as the parameters of the request exactly
when all parameters were counted and published. -/
theorem Trails.take_iff {p : Publication} (h : Trails senderUID serial request p)
    (hcount : (BitVec.ofNat 16 request.size).toNat ≤ p.packets.length) :
  (p.packets.take (BitVec.ofNat 16 request.size).toNat).map Packet.parameter =
    request.parameters (senderUID, serial) ↔ request.size < 2 ^ 16 ∧ request.Intact
  := by
  rw [BitVec.toNat_ofNat] at hcount ⊢
  have hlength := h.length
  have hmod := Nat.mod_lt request.size (Nat.two_pow_pos 16)
  constructor
  · intro heq
    have hsize := congrArg List.length heq
    rw [List.length_map, List.length_take, Request.length_parameters] at hsize
    have hall : p.packets.length ≤ request.size % 2 ^ 16 := by omega
    rw [List.take_of_length_le hall] at heq
    exact ⟨by omega, h.parameters.mp heq⟩
  · rintro ⟨hsize, hintact⟩
    rw [Nat.mod_eq_of_lt hsize, List.take_of_length_le hlength]
    apply h.parameters.mpr hintact

/-- The packets of a request, when no message with its identifier is incomplete: a message is
delivered, which is read as published exactly if the request is faithful, or a message stays
incomplete. -/
theorem receive_publish (request : Request) (hnone : r.incompletes (senderUID, serial) = none) :
  ∃ r', r.receive myUID (publish senderUID serial request).packets = some r' ∧
    ((∃ delivery, r'.delivered = r.delivered ++ [delivery] ∧ r'.incompletes = r.incompletes ∧
        (delivery.read = request.reading (senderUID, serial) ↔ request.Faithful)) ∨
      (¬ request.Faithful ∧ request.parameters (senderUID, serial) ≠ [] ∧
        r'.delivered = r.delivered ∧ (r'.incompletes (senderUID, serial)).isSome))
  := by
  obtain ⟨p, hp, htrails⟩ := publish_spec senderUID serial request
  rw [hp]
  obtain ⟨r', hr', h⟩ := @Receiver.receive_message myUID r
    ⟨request.sentLeader, BitVec.ofNat 16 request.size, serial, senderUID⟩ p.packets
    request.isLeader_sentLeader hnone htrails.follows
  use r', hr'
  rcases h with ⟨hmore, hdelivered, hincomplete⟩ | ⟨hall, hdelivered, hincompletes⟩
  · right
    refine ⟨?_, ?_, hdelivered, hincomplete⟩
    · rintro ⟨-, hsize, hintact⟩
      have hlength := congrArg List.length (htrails.parameters.mpr hintact)
      rw [List.length_map, Request.length_parameters] at hlength
      have := Nat.mod_le request.size (2 ^ 16)
      rw [BitVec.toNat_ofNat] at hmore
      omega
    · intro hnil
      have hlength := request.length_parameters (senderUID, serial)
      rw [hnil] at hlength
      rw [← hlength] at hmore
      exact Nat.not_lt_zero _ hmore
  · left
    refine ⟨_, hdelivered, hincompletes, ?_⟩
    have htake := htrails.take_iff hall
    constructor
    · intro hread
      obtain ⟨hleader, -, hparameters⟩ := Reading.mk.inj hread
      obtain ⟨hsize, hintact⟩ := htake.mp hparameters
      exact ⟨request.sentLeader_eq_leader.mp hleader, hsize, hintact⟩
    · rintro ⟨hname, hsize, hintact⟩
      apply Reading.mk.injEq .. |>.mpr
      exact ⟨request.sentLeader_eq_leader.mpr hname, rfl, htake.mpr ⟨hsize, hintact⟩⟩

/-! ### Messages which are not read as published -/

namespace Receiver

variable {before : List Delivery} {reading : Reading}

/-- What is delivered after `before` is not read as `reading`. -/
def Misread (before : List Delivery) (reading : Reading) (r : Receiver) : Prop :=
  ∃ delivery, delivery.read ≠ reading ∧ before ++ [delivery] <+: r.delivered

/-- Nothing is delivered after `before`, and the message which is published as `reading` stays
incomplete, or what is delivered is not read as `reading`. -/
def Spoiled (before : List Delivery) (reading : Reading) (r : Receiver) : Prop :=
  (r.delivered = before ∧ (r.incompletes reading.id).isSome ∧ reading.parameters ≠ []) ∨
    r.Misread before reading

theorem Misread.receive {packets : List Packet} (h : r.Misread before reading)
    (hrun : r.receive myUID packets = some r') :
  r'.Misread before reading
  := by
  obtain ⟨delivery, hread, hdelivered⟩ := h
  use delivery, hread
  apply hdelivered.trans (receive_delivered hrun)

theorem misread_deliverMessages {leader : Packet} {trailers : List Packet}
    (h : (Delivery.mk leader trailers).read ≠ reading) :
  (r.deliverMessages leader trailers).Misread r.delivered reading
  := by
  use ⟨leader, trailers⟩, h
  apply List.prefix_rfl

/-- A leader with the identifier of the incomplete message makes no message complete. -/
theorem Spoiled.leader {packet : Packet} (hleader : packet.content.IsLeader)
    (h : r.Spoiled before reading) (hstep : r.handleMessage myUID packet = some r') :
  r'.Misread before reading ∨ (packet.id ≠ reading.id ∧ r'.Spoiled before reading)
  := by
  rcases h with ⟨rfl, hsome, hparameters⟩ | hmisread
  · have hempty : (r.deliverMessages packet []).Misread r.delivered reading := by
      apply misread_deliverMessages
      rintro rfl
      exact hparameters rfl
    rcases @handleMessage_leader myUID r packet hleader with ⟨-, heq⟩ | heq
    · rw [heq] at hstep
      cases hstep
      exact .inl hempty
    · rw [heq] at hstep
      unfold cacheMessageLeader at hstep
      split at hstep
      · contradiction
      · rename_i hnone
        have hid : packet.id ≠ reading.id := by
          intro hid
          rw [hid] at hnone
          contradiction
        split at hstep <;> cases hstep
        · exact .inl hempty
        · refine .inr ⟨hid, .inl ⟨rfl, ?_, hparameters⟩⟩
          dsimp only
          rw [Function.update_of_ne hid.symm]
          exact hsome
  · left
    obtain ⟨delivery, hread, hdelivered⟩ := hmisread
    use delivery, hread
    apply hdelivered.trans (handleMessage_delivered hstep)

theorem Spoiled.trailer {packet : Packet} (hid : packet.id ≠ reading.id)
    (h : r.Spoiled before reading) :
  (r.cacheMessageTrailer packet).Spoiled before reading
  := by
  unfold cacheMessageTrailer
  split
  · exact h
  · rename_i message _
    rcases h with ⟨rfl, hsome, hparameters⟩ | ⟨delivery, hread, hdelivered⟩
    · split
      · right
        apply @misread_deliverMessages r
        rintro rfl
        exact hid message.sender.symm
      · refine .inl ⟨rfl, ?_, hparameters⟩
        dsimp only
        rw [Function.update_of_ne hid.symm]
        exact hsome
    · right
      use delivery, hread
      split
      · apply hdelivered.trans (List.prefix_append _ _)
      · exact hdelivered

theorem Spoiled.receive_trailers {id : Uid × Serial} {trailers : List Packet}
    (hid : id ≠ reading.id) (hfollow : ∀ packet ∈ trailers, packet.Follows id)
    (h : r.Spoiled before reading) (hrun : r.receive myUID trailers = some r') :
  r'.Spoiled before reading
  := by
  unfold receive at hrun
  induction trailers generalizing r with
  | nil =>
    cases hrun
    exact h
  | cons packet rest ih =>
    obtain ⟨⟨hcontent, rfl⟩, hrest⟩ := List.forall_mem_cons.mp hfollow
    rw [StateMachine.run, handleMessage_trailer hcontent] at hrun
    apply ih hrest (h.trailer hid) hrun

/-- A request does not make up for a message which was not read as published. -/
theorem Spoiled.receive_publish (request : Request) (h : r.Spoiled before reading)
    (hrun : r.receive myUID (publish senderUID serial request).packets = some r') :
  r'.Spoiled before reading
  := by
  obtain ⟨p, hp, htrails⟩ := publish_spec senderUID serial request
  rw [hp] at hrun
  obtain ⟨t, ht, hrest⟩ := Option.bind_eq_some_iff.mp hrun
  rcases h.leader request.isLeader_sentLeader ht with hmisread | ⟨hid, hspoiled⟩
  · exact .inr (hmisread.receive hrest)
  · apply hspoiled.receive_trailers hid htrails.follows hrest

theorem Spoiled.receive_sentFrom (requests : List Request) (h : r.Spoiled before reading)
    (hrun : r.receive myUID (sentFrom senderUID serial requests) = some r') :
  r'.Spoiled before reading
  := by
  induction requests generalizing r serial with
  | nil =>
    cases hrun
    exact h
  | cons request rest ih =>
    unfold sentFrom receive at hrun
    dsimp only at hrun
    rw [StateMachine.run_append] at hrun
    obtain ⟨t, ht, hrest⟩ := Option.bind_eq_some_iff.mp hrun
    have hspoiled := h.receive_publish request ht
    split at hrest
    · cases hrest
      exact hspoiled
    · apply ih hspoiled hrest

end Receiver

/-! ### Senders -/

theorem Request.Faithful.not_raised (h : request.Faithful) :
  (publish senderUID serial request).raised = false
  := by
  obtain ⟨p, hp, htrails⟩ := publish_spec senderUID serial request
  rw [hp]
  apply htrails.raised h.intact

/-- The messages of one sender are reassembled exactly when they are faithful. -/
theorem receive_sentFrom_iff (requests : List Request) (hclean : ∀ id, r.incompletes id = none) :
  (∃ r', r.receive myUID (sentFrom senderUID serial requests) = some r' ∧
    (∀ id, r'.incompletes id = none) ∧
    r'.delivered.map Delivery.read =
      r.delivered.map Delivery.read ++ readings senderUID serial requests) ↔
    ∀ request ∈ requests, request.Faithful
  := by
  induction requests generalizing r serial with
  | nil =>
    refine iff_of_true ⟨r, rfl, hclean, ?_⟩ (by simp)
    rw [readings, List.append_nil]
  | cons request rest ih =>
    obtain ⟨r₁, hr₁, h⟩ := @receive_publish myUID senderUID serial r request (hclean _)
    have hrun : r.receive myUID (sentFrom senderUID serial (request :: rest)) =
        r₁.receive myUID (if (publish senderUID serial request).raised then []
          else sentFrom senderUID (serial + 1) rest) := by
      unfold Receiver.receive at hr₁ ⊢
      rw [sentFrom, StateMachine.run_append, hr₁]
      rfl
    by_cases hfaithful : request.Faithful
    · rcases h with ⟨delivery, hdelivered, hincompletes, hread⟩ | ⟨hnot, -⟩
      · rw [List.forall_mem_cons, hrun, hfaithful.not_raised, and_iff_right hfaithful,
          ← @ih (serial + 1) r₁ (by rw [hincompletes]; exact hclean), hdelivered, readings,
          List.map_append, List.map_singleton, hread.mpr hfaithful, List.append_assoc]
        rfl
      · contradiction
    · refine iff_of_false ?_ fun hall => hfaithful (hall request List.mem_cons_self)
      rintro ⟨r', hr', hclean', hreadings⟩
      have hspoiled : r₁.Spoiled r.delivered (request.reading (senderUID, serial)) := by
        rcases h with ⟨delivery, hdelivered, -, hread⟩ | ⟨-, hparameters, hdelivered, hsome⟩
        · right
          use delivery, mt hread.mp hfaithful
          rw [hdelivered]
        · left
          exact ⟨hdelivered, hsome, hparameters⟩
      have hspoiled' : r'.Spoiled r.delivered (request.reading (senderUID, serial)) := by
        rw [hrun] at hr'
        split at hr'
        · cases hr'
          exact hspoiled
        · apply hspoiled.receive_sentFrom rest hr'
      rcases hspoiled' with ⟨-, hsome, -⟩ | ⟨delivery, hread, others, hdelivered⟩
      · rw [hclean'] at hsome
        contradiction
      · rw [← hdelivered, List.append_assoc, List.map_append, List.append_cancel_left_eq] at hreadings
        exact hread (List.cons.inj hreadings).1

/-! ### All senders -/

/-- The messages of all senders are reassembled, in whichever order their packets arrive,
exactly when every one of them is faithful. -/
theorem reassembled_iff (myUID : Uid) (requests : Uid → List Request)
    (arrivals : Interleaving requests) :
  Reassembled myUID requests arrivals.1 ↔ ∀ u, ∀ request ∈ requests u, request.Faithful
  := by
  obtain ⟨arrivals, harrivals⟩ := arrivals
  have hseparated := Receiver.separated myUID
  have hsender := fun u => @receive_sentFrom_iff myUID u 1 Receiver.initial (requests u)
    fun _ => rfl
  constructor
  · rintro ⟨r, hr, hclean, hreadings⟩ u
    have hview := hseparated.run_view hr u
    rw [harrivals u, Receiver.only_initial] at hview
    apply (hsender u).mp
    use r.only u, hview
    constructor
    · intro id
      dsimp only [Receiver.only]
      split
      · apply hclean
      · rfl
    · apply hreadings u
  · intro hfaithful
    have hruns := fun u => (hsender u).mpr (hfaithful u)
    obtain ⟨r, hr⟩ := @StateMachine.Separated.run_exists _ _ _ _ _ _ _ _ _ hseparated arrivals
      Receiver.initial (by
        intro u
        obtain ⟨t, ht, -⟩ := hruns u
        use t
        rw [harrivals u, Receiver.only_initial]
        exact ht)
    have honly : ∀ u, (∀ id, (r.only u).incompletes id = none) ∧
        (r.only u).delivered.map Delivery.read = readings u 1 (requests u) := by
      intro u
      have hview := hseparated.run_view hr u
      rw [harrivals u, Receiver.only_initial] at hview
      obtain ⟨t, ht, hclean, hreadings⟩ := hruns u
      obtain rfl := Option.some.inj (hview.symm.trans ht)
      exact ⟨hclean, hreadings⟩
    refine ⟨r, hr, ?_, fun u => (honly u).2⟩
    intro id
    rw [← Receiver.only_incompletes id]
    apply (honly id.1).1

/-- A command with a command handle is published without its parameter: the message stays
incomplete. -/
theorem reassembled_fails :
  ¬ ∀ (myUID : Uid) (requests : Uid → List Request) (arrivals : Interleaving requests),
    Reassembled myUID requests arrivals.1
  := by
  intro h
  have hleader : sent [1] [.command [2] [.commandHandle .success]] =
      [⟨.command [2], 1, 1, [1]⟩] := by
    decide
  obtain ⟨r, hr, hclean, -⟩ := h [] (fun u => if u = [1] then
      [.command [2] [.commandHandle .success]] else [])
    ⟨[⟨.command [2], 1, 1, [1]⟩], by
      intro u
      dsimp only
      by_cases hu : u = [1]
      · subst hu
        rw [if_pos rfl, hleader]
        rfl
      · have hother : (⟨.command [2], 1, 1, [1]⟩ : Packet).senderUID ≠ u := Ne.symm hu
        rw [if_neg hu, StateMachine.eventsOf_cons_of_ne hother]
        rfl⟩
  cases hr
  have := hclean ([1], 1)
  contradiction

end Plexil.Ipc
