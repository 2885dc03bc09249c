import Plexil.Util.StateMachine
import Plexil.Utils.TimeArithmetic
import Mathlib.Data.Rat.Floor

/-!
# Timebases

The Posix and the Itimer timebase in deadline mode, from their start on, with the handler of the
`time` state and the adapter which the timebase wakes up.

`setTimer` and `timeout` call each other and read the clock on their way.  So the calls in progress
are kept as a list, the innermost first, and an event `proceed` performs the first one from its
reading of the clock up to the next one.  Doubles are exact at the resolution of the clock, and are
given by rational numbers.
-/

namespace Plexil

namespace Timebase

open Utils (TimeUnit)

inductive Kind where
  | posix
  | itimer
  deriving DecidableEq

/-- The Posix timer is set with a `timespec`, the interval timer with a `timeval`. -/
def Kind.unit : Kind → TimeUnit
  | posix => .nsec
  | itimer => .usec

/-! ### Times -/

/-- The conversion of a double to an integer type. -/
def truncate (dbl : ℚ) : Int := dbl.num.tdiv dbl.den

/-- The range of `time_t`. -/
def InRange (dbl : ℚ) : Prop := -9223372036854775808 ≤ dbl ∧ dbl ≤ 9223372036854775807

instance (dbl : ℚ) : Decidable (InRange dbl) := inferInstanceAs (Decidable (_ ∧ _))

/-- `doubleToTimespec` and `doubleToTimeval`, as a number of units. -/
def doubleToTime (u : TimeUnit) (dbl : ℚ) : Int :=
  let sec := truncate dbl
  sec * u.perSecond + truncate (u.perSecond * (dbl - sec))

/-- `timespecToDouble` and `timevalToDouble`. -/
def timeToDouble (u : TimeUnit) (time : Int) : ℚ := time / u.perSecond

/-- The nanoseconds of a unit. -/
def nsecs : TimeUnit → Int
  | .nsec => 1
  | .usec => 1000

/-- `clock_gettime` and `gettimeofday` at a time in nanoseconds. -/
def readClock (u : TimeUnit) (clock : Int) : Int := clock / nsecs u

/-- `getPosixTime`, which reads a `timespec` or a `timeval` depending on the platform. -/
def getTime (u : TimeUnit) (clock : Int) : ℚ := timeToDouble u (readClock u clock)

/-! ### The state -/

/-- What is to be done after the next reading of the clock. -/
inductive Call where
  | setTimer (d : ℚ)
  | timeout
  | notifyOfExternalEvent
  deriving DecidableEq

/-- `timer` is the time for which the timer of the operating system is set.  The last fields keep
what has been requested, the time of the last notification and of the last one since the request,
and whether a call of `setTimer` or `timeout` has just returned. -/
structure State where
  timer : Option Int := none
  nextWakeup : ℚ := 0
  calls : List Call := []
  undelivered : Nat := 0
  clock : Int
  requested : Option ℚ := none
  notified : Option Int := none
  notifiedSince : Option Int := none
  returned : Bool := false

namespace State

/-- What is written into `it_value`: the deadline itself or the interval up to it. -/
def timerValue : Kind → Int → Int → Int
  | .posix, deadline, _ => deadline
  | .itimer, deadline, now => deadline - now

/-- A time in the past wakes up at once, and a value of zero disarms the timer. -/
def setTimer (kind : Kind) (d : ℚ) (s : State) : State :=
  let deadline := doubleToTime kind.unit d
  let now := readClock kind.unit s.clock
  if deadline < now then { s with nextWakeup := 0, calls := .timeout :: s.calls }
  else
    { s with
      timer := if timerValue kind deadline now = 0 then none else some deadline
      nextWakeup := timeToDouble kind.unit deadline
      returned := true }

/-- An early wakeup sets the timer anew.  The Exec is notified in any case. -/
def timeout (clockUnit : TimeUnit) (s : State) : State :=
  let next := s.nextWakeup
  if next ≠ 0 ∧ getTime clockUnit s.clock < next then
    { s with calls := .setTimer next :: .notifyOfExternalEvent :: s.calls }
  else { s with calls := .notifyOfExternalEvent :: s.calls }

/-- With the notification, the call of `timeout` returns. -/
def notifyOfExternalEvent (s : State) : State :=
  { s with notified := some s.clock, notifiedSince := some s.clock, returned := true }

def perform (kind : Kind) (clockUnit : TimeUnit) (s : State) : Call → State
  | .setTimer d => s.setTimer kind d
  | .timeout => s.timeout clockUnit
  | .notifyOfExternalEvent => s.notifyOfExternalEvent

/-- The handler of the `time` state calls `setTimer` with the high threshold. -/
def setThresholds (hi : ℚ) (s : State) : State :=
  { s with
    calls := [.setTimer hi]
    requested := some hi
    notifiedSince := none
    returned := false }

end State

/-- An expiration of the timer calls `timeout`.  If it is overtaken by a call of `setThresholds`, the
call of `timeout` is delivered later. -/
inductive Event where
  | setThresholds (hi : ℚ)
  | expire
  | overtake (hi : ℚ)
  | deliver
  | proceed (now : Int)

/-- The timer may expire early or late.  A new call begins only when none is in progress. -/
def step (kind : Kind) (clockUnit : TimeUnit) (s : State) : Event → Option State
  | .setThresholds hi =>
    if s.calls = [] ∧ InRange hi then some (s.setThresholds hi) else none
  | .expire =>
    if s.calls = [] ∧ s.timer.isSome then
      some { s with timer := none, calls := [.timeout], returned := false }
    else none
  | .overtake hi =>
    if s.calls = [] ∧ s.timer.isSome ∧ InRange hi then
      some ({ s with timer := none, undelivered := s.undelivered + 1 }.setThresholds hi)
    else none
  | .deliver =>
    if s.calls = [] ∧ 0 < s.undelivered then
      some { s with undelivered := s.undelivered - 1, calls := [.timeout], returned := false }
    else none
  | .proceed now =>
    if now < s.clock then none
    else
      match s.calls with
      | [] => none
      | call :: calls =>
        some ({ s with clock := now, calls := calls, returned := false }.perform kind clockUnit call)

/-- After the start.  The clock counts from the epoch. -/
def initial (clock : Nat) : State := { clock := clock }

end Timebase

end Plexil
