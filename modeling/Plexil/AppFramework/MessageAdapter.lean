import Plexil.Intfc.StateCache

/-!
# The message adapter

The handlers of the message commands.  A handler works on the queue of the messages which
have arrived, and calls the interface to the executive; the calls are listed in their order.
-/

namespace Plexil.AppFramework

open Intfc

/-- A call of the interface, all of them for the command at hand, or a warning. -/
inductive InterfaceCall where
  | warn (msg : String)
  | handleCommandReturn (value : Intfc.Value)
  | handleCommandAck (handle : CommandHandleValue)
  | notifyMessageReceived (message : Message)
  | notifyMessageQueueEmpty
  | notifyMessageAccepted (message : Message) (handle : StringValue)
  | notifyMessageHandleReleased (handle : StringValue)
  | notifyOfExternalEvent
  deriving DecidableEq

/-- Whether a call changes the handles of messages or the messages which are shown. -/
def InterfaceCall.changesMessages : InterfaceCall → Bool
  | notifyMessageReceived _ | notifyMessageQueueEmpty => true
  | notifyMessageAccepted _ _ | notifyMessageHandleReleased _ => true
  | warn _ | handleCommandReturn _ | handleCommandAck _ | notifyOfExternalEvent => false

namespace MessageAdapter

/-- The type of a parameter of a command, which is `UNKNOWN_TYPE` where there is none. -/
def parameterType (params : List Intfc.Value) (n : Nat) : ValueType :=
  (params[n]?.map Intfc.Value.valueType).getD .unknown

/-- A parameter of a command, which is unknown where there is none. -/
def parameter (params : List Intfc.Value) (n : Nat) : Intfc.Value :=
  params[n]?.getD (.unknown .unknown)

/-! ### The implementations -/

/-- No handle is generated yet. -/
def newHandle : StringValue := []

def acceptMessage (queue : List Message) : List Message × List InterfaceCall :=
  let done := [.handleCommandAck .success, .notifyOfExternalEvent]
  match queue with
  | [] => ([], .handleCommandReturn (.unknown .unknown) :: done)
  | msg :: rest =>
    let posted :=
      match rest with
      | [] => .notifyMessageQueueEmpty
      | next :: _ => .notifyMessageReceived next
    (rest, .notifyMessageAccepted msg newHandle :: .handleCommandReturn (.string newHandle) ::
      posted :: done)

/-- `releaseMessageHandle`, where `print` is `valueToString`. -/
def releaseMessageHandle (print : Intfc.Value → StringValue) (params : List Intfc.Value) :
    List InterfaceCall :=
  [.notifyMessageHandleReleased (print (parameter params 0)), .handleCommandAck .success,
    .notifyOfExternalEvent]

def publishMessage : List InterfaceCall := [.handleCommandAck .success, .notifyOfExternalEvent]

def sendMessage : List InterfaceCall := [.handleCommandAck .success, .notifyOfExternalEvent]

/-! ### The handlers -/

/-- A check of the parameters of a command, with what is reported when it fails. -/
structure Check where
  passes : Bool
  warnings : List String
  handle : CommandHandleValue

def Check.calls (check : Check) : List InterfaceCall :=
  if check.passes then []
  else check.warnings.map .warn ++ [.handleCommandAck check.handle, .notifyOfExternalEvent]

/-- The checks are made one after another; a handler goes on when one of them fails. -/
def runChecks (checks : List Check) : List InterfaceCall := checks.flatMap Check.calls

inductive MessageCommand where
  | getMessageHandle
  | releaseMessageHandle
  | publishMessage
  | sendMessage
  deriving DecidableEq

def getMessageHandleHandler (queue : List Message) : List Message × List InterfaceCall :=
  acceptMessage queue

def releaseMessageHandleChecks (params : List Intfc.Value) : List Check :=
  [⟨1 ≤ params.length,
      ["ReleaseMessageHandle command requires exactly one argument"], .failed⟩,
    ⟨parameterType params 0 = .string,
      ["ReleaseMessageHandle command: first argument must be a String"], .failed⟩,
    ⟨(parameter params 0).isKnown, [], .success⟩]

def releaseMessageHandleHandler (print : Intfc.Value → StringValue) (params : List Intfc.Value) :
    List InterfaceCall :=
  runChecks (releaseMessageHandleChecks params) ++ releaseMessageHandle print params

def publishMessageChecks (params : List Intfc.Value) : List Check :=
  [⟨1 ≤ params.length, ["PublishMessage command requires exactly one argument"], .failed⟩,
    ⟨parameterType params 0 = .string,
      ["PublishMessage command: first argument must be a String"], .failed⟩,
    ⟨(parameter params 0).isKnown,
      ["PublishMessage command: first argument, message, is unknown"], .failed⟩]

def publishMessageHandler (params : List Intfc.Value) : List InterfaceCall :=
  runChecks (publishMessageChecks params) ++ publishMessage

def sendMessageChecks (params : List Intfc.Value) : List Check :=
  [⟨1 ≤ params.length, ["SendMessage command requires at least two arguments"], .failed⟩,
    ⟨parameterType params 0 = .string,
      ["SendMessage command: first argument, recipient, must be a String"], .failed⟩,
    ⟨(parameter params 0).isKnown,
      ["SendMessage command: first argument, recipient, is unknown"], .failed⟩,
    ⟨parameterType params 1 = .string,
      ["SendMessage command: second argument, message, must be a String"], .failed⟩,
    ⟨(parameter params 1).isKnown,
      ["SendMessage command: second argument, message, is unknown"], .failed⟩]

def sendMessageHandler (params : List Intfc.Value) : List InterfaceCall :=
  runChecks (sendMessageChecks params) ++ sendMessage

/-- The queue of messages and the calls after a command. -/
def handle (print : Intfc.Value → StringValue) (queue : List Message)
    (params : List Intfc.Value) :
    MessageCommand → List Message × List InterfaceCall
  | .getMessageHandle => getMessageHandleHandler queue
  | .releaseMessageHandle => (queue, releaseMessageHandleHandler print params)
  | .publishMessage => (queue, publishMessageHandler params)
  | .sendMessage => (queue, sendMessageHandler params)

/-! ### Acknowledgements -/

/-- The acknowledgements among the calls. -/
def acknowledgements (calls : List InterfaceCall) : List CommandHandleValue :=
  calls.filterMap fun
    | .handleCommandAck handle => some handle
    | _ => none

/-- The parameter is a known String. -/
def IsKnownString (v : Intfc.Value) : Prop := ∃ s, v = .string s

/-- The parameters which a command accepts. -/
def Accepts (params : List Intfc.Value) : MessageCommand → Prop
  | .getMessageHandle => True
  | .releaseMessageHandle | .publishMessage => IsKnownString (parameter params 0)
  | .sendMessage => IsKnownString (parameter params 0) ∧ IsKnownString (parameter params 1)

/-- Whether the parameters of a command are bad; an unknown handle is not. -/
def bad (params : List Intfc.Value) : MessageCommand → Bool
  | .getMessageHandle => false
  | .releaseMessageHandle => parameterType params 0 ≠ .string
  | .publishMessage => parameterType params 0 ≠ .string || !(parameter params 0).isKnown
  | .sendMessage =>
    parameterType params 0 ≠ .string || !(parameter params 0).isKnown ||
      parameterType params 1 ≠ .string || !(parameter params 1).isKnown

/-- One acknowledgement, and a failure changes nothing. -/
structure AcknowledgesOnce (print : Intfc.Value → StringValue) (queue : List Message)
    (params : List Intfc.Value) (cmd : MessageCommand) : Prop where
  one : acknowledgements (handle print queue params cmd).2
    = [if bad params cmd then .failed else .success]
  unchanged : bad params cmd = true → (handle print queue params cmd).1 = queue ∧
    ∀ call ∈ (handle print queue params cmd).2, call.changesMessages = false

theorem acknowledgements_append (calls calls' : List InterfaceCall) :
  acknowledgements (calls ++ calls') = acknowledgements calls ++ acknowledgements calls'
  := List.filterMap_append

theorem acknowledgements_calls (check : Check) :
  acknowledgements check.calls = if check.passes then [] else [check.handle]
  := by
  obtain ⟨passes, warnings, handle⟩ := check
  cases passes with
  | true => rfl
  | false =>
    induction warnings with
    | nil => rfl
    | cons msg warnings ih => exact ih

/-- Each check which fails is acknowledged. -/
theorem acknowledgements_runChecks (checks : List Check) :
  acknowledgements (runChecks checks)
    = (checks.filter fun check => !check.passes).map Check.handle
  := by
  induction checks with
  | nil => rfl
  | cons check checks ih =>
    have hcons : runChecks (check :: checks) = check.calls ++ runChecks checks := rfl
    rw [hcons, acknowledgements_append, acknowledgements_calls, ih, List.filter_cons]
    cases check.passes <;> rfl

/-- The checks and the one acknowledgement of the implementation give one acknowledgement
exactly when all checks pass. -/
theorem runChecks_iff {checks : List Check} {done : List InterfaceCall}
    (hdone : acknowledgements done = [.success]) {handle : CommandHandleValue} :
  acknowledgements (runChecks checks ++ done) = [handle]
    ↔ handle = .success ∧ ∀ check ∈ checks, check.passes = true
  := by
  rw [acknowledgements_append, acknowledgements_runChecks, hdone]
  cases hfail : checks.filter fun check => !check.passes with
  | nil =>
    have hall : ∀ check ∈ checks, check.passes = true := by
      intro check hcheck
      have := List.filter_eq_nil_iff.mp hfail check hcheck
      simpa using this
    rw [List.map_nil, List.nil_append, List.cons.injEq, and_iff_left rfl, and_iff_left hall]
    exact eq_comm
  | cons check rest =>
    have hcheck : check ∈ checks.filter fun check => !check.passes := by
      rw [hfail]
      exact List.mem_cons_self
    apply iff_of_false
    · simp
    · rintro ⟨-, hall⟩
      obtain ⟨hmem, hfails⟩ := List.mem_filter.mp hcheck
      rw [hall check hmem] at hfails
      cases hfails

theorem acknowledgements_acceptMessage (queue : List Message) :
  acknowledgements (acceptMessage queue).2 = [.success]
  := by
  obtain _ | ⟨msg, _ | ⟨next, rest⟩⟩ := queue <;> rfl

/-- A known String among the parameters is one of them. -/
theorem isKnownString_iff (params : List Intfc.Value) (n : Nat) :
  IsKnownString (parameter params n)
    ↔ parameterType params n = .string ∧ (parameter params n).isKnown = true
  := by
  unfold IsKnownString parameterType parameter
  cases params[n]? with
  | none => simp [Intfc.Value.isKnown]
  | some v => cases v <;> simp [Intfc.Value.valueType, Intfc.Value.isKnown]

theorem length_of_isKnownString {params : List Intfc.Value} {n : Nat}
    (h : IsKnownString (parameter params n)) :
  n < params.length
  := by
  obtain ⟨s, h⟩ := h
  by_contra hlength
  rw [parameter, List.getElem?_eq_none (Nat.le_of_not_lt hlength)] at h
  cases h

theorem releaseMessageHandleChecks_iff (params : List Intfc.Value) :
  (∀ check ∈ releaseMessageHandleChecks params, check.passes = true)
    ↔ IsKnownString (parameter params 0)
  := by
  have hlength : IsKnownString (parameter params 0) → 0 < params.length :=
    length_of_isKnownString
  rw [isKnownString_iff] at hlength ⊢
  simp only [releaseMessageHandleChecks, List.forall_mem_cons, decide_eq_true_eq,
    List.not_mem_nil, false_implies, implies_true, and_true]
  exact and_iff_right_of_imp hlength

theorem publishMessageChecks_iff (params : List Intfc.Value) :
  (∀ check ∈ publishMessageChecks params, check.passes = true)
    ↔ IsKnownString (parameter params 0)
  := by
  have hlength : IsKnownString (parameter params 0) → 0 < params.length :=
    length_of_isKnownString
  rw [isKnownString_iff] at hlength ⊢
  simp only [publishMessageChecks, List.forall_mem_cons, decide_eq_true_eq,
    List.not_mem_nil, false_implies, implies_true, and_true]
  exact and_iff_right_of_imp hlength

theorem sendMessageChecks_iff (params : List Intfc.Value) :
  (∀ check ∈ sendMessageChecks params, check.passes = true)
    ↔ IsKnownString (parameter params 0) ∧ IsKnownString (parameter params 1)
  := by
  have hlength : IsKnownString (parameter params 0) → 0 < params.length :=
    length_of_isKnownString
  rw [isKnownString_iff] at hlength
  rw [isKnownString_iff, isKnownString_iff]
  simp only [sendMessageChecks, List.forall_mem_cons, decide_eq_true_eq,
    List.not_mem_nil, false_implies, implies_true, and_true, and_assoc]
  exact and_iff_right_of_imp fun h => hlength ⟨h.1, h.2.1⟩

/-- Known Strings are not bad. -/
theorem bad_eq_false {params : List Intfc.Value} {cmd : MessageCommand} (h : Accepts params cmd) :
  bad params cmd = false
  := by
  cases cmd with
  | getMessageHandle => rfl
  | releaseMessageHandle =>
    have h := (isKnownString_iff params 0).mp h
    simp [bad, h]
  | publishMessage =>
    have h := (isKnownString_iff params 0).mp h
    simp [bad, h]
  | sendMessage =>
    have h₀ := (isKnownString_iff params 0).mp h.1
    have h₁ := (isKnownString_iff params 1).mp h.2
    simp [bad, h₀, h₁]

/-- There is one acknowledgement exactly when the parameters are accepted, and then it is a
success. -/
theorem acknowledgements_handle_iff (print : Intfc.Value → StringValue) (queue : List Message)
    (params : List Intfc.Value) (cmd : MessageCommand) (ack : CommandHandleValue) :
  acknowledgements (handle print queue params cmd).2 = [ack]
    ↔ ack = .success ∧ Accepts params cmd
  := by
  cases cmd with
  | getMessageHandle =>
    have hack := acknowledgements_acceptMessage queue
    rw [handle, getMessageHandleHandler, hack, List.cons.injEq, and_iff_left rfl, eq_comm]
    exact (and_iff_left trivial).symm
  | releaseMessageHandle =>
    apply (runChecks_iff rfl).trans
    rw [releaseMessageHandleChecks_iff]
    rfl
  | publishMessage =>
    apply (runChecks_iff rfl).trans
    rw [publishMessageChecks_iff]
    rfl
  | sendMessage =>
    apply (runChecks_iff rfl).trans
    rw [sendMessageChecks_iff]
    rfl

/-- Exactly the parameters which pass all checks are acknowledged once. -/
theorem acknowledgesOnce_iff (print : Intfc.Value → StringValue) (queue : List Message)
    (params : List Intfc.Value) (cmd : MessageCommand) :
  AcknowledgesOnce print queue params cmd ↔ Accepts params cmd
  := by
  constructor
  · intro h
    exact ((acknowledgements_handle_iff print queue params cmd _).mp h.one).2
  · intro h
    have hbad := bad_eq_false h
    constructor
    · rw [hbad]
      exact (acknowledgements_handle_iff print queue params cmd _).mpr ⟨rfl, h⟩
    · rw [hbad]
      intro hfalse
      cases hfalse

/-- Without parameters the release of a handle is acknowledged four times, with a success at
the end, and a handle is released. -/
theorem not_acknowledgesOnce :
  acknowledgements (handle (fun _ => []) [] [] .releaseMessageHandle).2
    = [.failed, .failed, .success, .success] ∧
  ¬ AcknowledgesOnce (fun _ => []) [] [] .releaseMessageHandle
  := by
  refine ⟨rfl, ?_⟩
  rw [acknowledgesOnce_iff]
  rintro ⟨s, h⟩
  cases h

end MessageAdapter

end Plexil.AppFramework
