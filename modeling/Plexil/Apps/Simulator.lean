import Plexil.Util.PriorityOrder
import Plexil.Util.StateMachine
import Plexil.Value.Value

/-!
# The stand-alone simulator

The simulator sends the responses of a script at their times.  Those which have not been sent are
kept in the agenda, in the order of their times, and the timer is set for the next one.

The functions of the simulator read the clock several times and end with a call of another one.
So a call in progress is given by what is to be called next, and an event is what happens up to
the next reading of the clock.
-/

namespace Plexil

namespace Simulator

/-! Times are normalised, so that a `timeval` is given by its number of microseconds. -/

def tvSec (t : Int) : Int := t.tdiv 1000000

def tvUsec (t : Int) : Int := t.tmod 1000000

/-! ### The timing service -/

/-- The one-shot timer with the time for which it is set, and the signal of a wakeup which has not
been waited for. -/
structure TimingService where
  timer : Option Int := none
  signal : Bool := false

namespace TimingService

/-- The timer fires at its time and then reads as unset. -/
def expire (now : Int) (service : TimingService) : TimingService :=
  match service.timer with
  | some time => if time ≤ now then ⟨none, true⟩ else service
  | none => service

/-- A timer which is not set is read as zero. -/
def getTimer (now : Int) (service : TimingService) : Int :=
  (service.expire now).timer.getD 0

/-- An interval of zero disarms the timer. -/
def setTimer (time now : Int) (service : TimingService) : TimingService × Bool :=
  let value := time - now
  let service := service.expire now
  if tvSec value < 0 ∨ tvUsec value < 0 then (service, false)
  else ({ service with timer := if value = 0 then none else some time }, true)

/-- `wait` returns for a signal, which is the last one of all before it. -/
def wait (now : Int) (service : TimingService) : Option TimingService :=
  let service := service.expire now
  if service.signal then some { service with signal := false } else none

end TimingService

/-! ### Responses -/

inductive MsgType where
  | command
  | telemetry
  deriving DecidableEq

structure ResponseMessage where
  name : String
  value : Intfc.Value
  messageType : MsgType
  id : Option Nat := none
  deriving DecidableEq

structure GenericResponse where
  name : String
  value : Intfc.Value
  delay : Int
  numberOfResponses : Nat

/-- The responses to a command by the number of its call. -/
structure CommandResponseManager where
  responses : Nat → Option GenericResponse
  defaultResponse : Option GenericResponse
  counter : Nat := 1

namespace CommandResponseManager

/-- It is an error when there is no response, not even a default one. -/
def getResponses (manager : CommandResponseManager) :
    Option (Option GenericResponse × CommandResponseManager) :=
  ((manager.responses manager.counter).or manager.defaultResponse).map fun response =>
    (if response.numberOfResponses > 0 then some response else none,
      { manager with counter := manager.counter + 1 })

end CommandResponseManager

/-! ### The agenda -/

structure AgendaEntry where
  time : Int
  response : ResponseMessage
  deriving DecidableEq

/-- Inserts a response in earliest-first order, in front of those for the same time. -/
def scheduleResponse (entry : AgendaEntry) : List AgendaEntry → List AgendaEntry
  | [] => [entry]
  | e :: rest => if e.time < entry.time then e :: scheduleResponse entry rest else entry :: e :: rest

def nextResponseTime (agenda : List AgendaEntry) : Int :=
  (agenda.head?.map AgendaEntry.time).getD 0

def AgendaEntry.delayed (time : Int) (entry : AgendaEntry) : AgendaEntry :=
  { entry with time := entry.time + time }

/-! ### The simulator -/

/-- What is to be called next. -/
inductive Call where
  | idle
  | scheduleNextResponse (time : Int)
  | setTimer (time : Int)
  | handleWakeUp

/-- The simulator with the last reading of the clock.  The responses which have been scheduled and
sent so far are kept in their order, with the time at which the last wakeup was handled. -/
structure State where
  agenda : List AgendaEntry := []
  timing : TimingService := {}
  managers : String → Option CommandResponseManager
  lookupNowValues : String → Option Intfc.Value := fun _ => none
  started : Bool := false
  call : Call := .idle
  clock : Int := 0
  scheduled : List AgendaEntry := []
  sent : List AgendaEntry := []
  wokenAt : Option Int := none

namespace State

/-- The response to a command with the manager after it, or nothing when there is none. -/
def constructNextResponse (command : String) (uniqueId : Nat) (now : Int) (s : State) :
    Option (Option AgendaEntry × State) :=
  match s.managers command with
  | none => some (none, s)
  | some manager =>
    manager.getResponses.map fun (response, manager) =>
      (response.map fun r => ⟨now + r.delay, ⟨r.name, r.value, .command, some uniqueId⟩⟩,
        { s with managers := Function.update s.managers command (some manager) })

def schedule (entry : AgendaEntry) (s : State) : State :=
  { s with
    agenda := scheduleResponse entry s.agenda
    scheduled := s.scheduled ++ [entry] }

/-- `time` and `now` are what the clock reads at the beginning and when the response is
scheduled.  The next response is scheduled for the first of them. -/
def scheduleResponseForCommand (command : String) (uniqueId : Nat) (time now : Int) (s : State) :
    Option State :=
  (s.constructNextResponse command uniqueId now).map fun
    | (none, s) => s
    | (some entry, s) => { s.schedule entry with call := .scheduleNextResponse time }

/-- The timer is set unless it is set for an earlier time. -/
def scheduleNextResponse (time now : Int) (s : State) : State :=
  let nextEvent := s.timing.getTimer now
  { s with
    timing := s.timing.expire now
    call := if nextEvent = 0 ∨ time < nextEvent then .setTimer time else .idle }

/-- A time in the past is responded to immediately. -/
def setTimer (time now : Int) (s : State) : State :=
  let (timing, timeIsFuture) := s.timing.setTimer time now
  { s with timing := timing, call := if timeIsFuture then .idle else .handleWakeUp }

/-- The value of a telemetry message is stored for lookups. -/
def sendResponse (values : String → Option Intfc.Value) (resp : ResponseMessage) :
    String → Option Intfc.Value :=
  if resp.messageType = .telemetry then Function.update values resp.name (some resp.value)
  else values

/-- Sends the responses which are due and schedules the next wakeup. -/
def handleWakeUp (now : Int) (s : State) : State :=
  let due := s.agenda.takeWhile fun e => e.time ≤ now
  let agenda := s.agenda.dropWhile fun e => e.time ≤ now
  let nextWakeup := nextResponseTime agenda
  { s with
    agenda := agenda
    lookupNowValues := due.foldl (fun values e => sendResponse values e.response) s.lookupNowValues
    sent := s.sent ++ due
    wokenAt := some now
    call :=
      if tvSec nextWakeup ≠ 0 ∧ tvUsec nextWakeup ≠ 0 then .scheduleNextResponse nextWakeup
      else .idle }

/-- The delays of the script are counted from the start. -/
def simulatorTopLevel (now : Int) (s : State) : State :=
  let agenda := s.agenda.map (AgendaEntry.delayed now)
  let firstWakeup := nextResponseTime agenda
  { s with
    agenda := agenda
    scheduled := s.scheduled.map (AgendaEntry.delayed now)
    started := true
    call :=
      if tvSec firstWakeup ≠ 0 ∨ tvUsec firstWakeup ≠ 0 then .scheduleNextResponse firstWakeup
      else .idle }

end State

/-- What happens to the simulator, with what the clock reads then. -/
inductive Event where
  | telemetry (delay : Int) (name : String) (value : Intfc.Value)
  | start (now : Int)
  | command (command : String) (uniqueId : Nat) (time now : Int)
  | wakeUp (now : Int)
  | proceed (now : Int)

/-- An entry for a line of a script. -/
def telemetryEntry (delay : Int) (name : String) (value : Intfc.Value) : AgendaEntry :=
  ⟨delay, ⟨name, value, .telemetry, none⟩⟩

/-- The script is read before the start; afterwards a command or a wakeup comes when no call is in
progress. -/
def step (s : State) : Event → Option State
  | .telemetry delay name value =>
    if s.started then none else some (s.schedule (telemetryEntry delay name value))
  | .start now =>
    if s.started ∨ now < s.clock then none
    else some ({ s with clock := now }.simulatorTopLevel now)
  | .command command uniqueId time now =>
    match s.call with
    | .idle =>
      if !s.started ∨ time < s.clock ∨ now < time then none
      else { s with clock := now }.scheduleResponseForCommand command uniqueId time now
    | _ => none
  | .wakeUp now =>
    match s.call with
    | .idle =>
      if !s.started ∨ now < s.clock then none
      else (s.timing.wait now).map fun timing =>
        { s with clock := now, timing := timing, call := .handleWakeUp }
    | _ => none
  | .proceed now =>
    if now < s.clock then none
    else
      match s.call with
      | .idle => none
      | .scheduleNextResponse time => some ({ s with clock := now }.scheduleNextResponse time now)
      | .setTimer time => some ({ s with clock := now }.setTimer time now)
      | .handleWakeUp => some ({ s with clock := now }.handleWakeUp now)

/-- Before the script is read. -/
def initial (managers : String → Option CommandResponseManager) : State := { managers := managers }

end Simulator

end Plexil
