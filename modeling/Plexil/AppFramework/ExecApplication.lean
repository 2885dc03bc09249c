import Plexil.AppFramework.InterfaceManager
import Plexil.Util.CallStacks
import Plexil.Util.StateMachine

/-!
# The application

`ExecApplicationImpl` runs the executive in a worker thread, and other threads put events in the
input queue and call `notifyExec`.  Each step of a thread reads or writes one member; semaphores are
counters, and the mutex has the thread which holds it.

The events which have been put in the input queue are kept after they have been taken, so that the
queue is what follows the first `taken` of `posted`.  Of the executive there is whether it needs
to be stepped.  Its handlers are called while it processes an event or is stepped, and may put
events and make calls themselves.  `stop` and the waiting for plans and shutdown are left out.
-/

namespace Plexil.App

open Intfc

abbrev Thread := Nat

/-- The worker thread. -/
def workerThread : Thread := 0

/-! ### Frames -/

/-- A place in `runExec` or `step`. -/
inductive RunPlace where
  /-- `oldMark = m_lastMark` -/
  | readMark
  /-- The guard of `m_execMutex`. -/
  | lock
  /-- In `processQueue`, for the first time or not, with its `needsStep`. -/
  | processQueue (first needsStep : Bool)
  /-- In `PlexilExec::step`. -/
  | step
  /-- The end of the scope of the guard. -/
  | unlock
  /-- The comparison of the marks. -/
  | postMark
  deriving DecidableEq

inductive NotifyPlace where
  /-- `!m_runExecInBkgndOnly && m_execMutex.try_lock()` -/
  | tryLock
  /-- After `runExec`. -/
  | unlock
  | post
  deriving DecidableEq

inductive WaitPlace where
  /-- `++m_markCount` -/
  | count
  /-- The mark is put in the input queue. -/
  | put
  | notify
  | wait
  | post
  /-- `m_lastMark < sequence` -/
  | check
  deriving DecidableEq

inductive ResumePlace where
  | test | clear
  deriving DecidableEq

inductive WorkerPlace where
  /-- Before the first step. -/
  | start
  /-- `m_sem.wait()` -/
  | wait
  /-- The test of `m_suspended`. -/
  | check
  deriving DecidableEq

/-- A call in progress.  `run` is `step` or `runExec`, with its `oldMark`.  `begun` is the number
of events which had been put in the input queue when the call began. -/
inductive Frame where
  | run (once : Bool) (oldMark : BitVec 32) (place : RunPlace)
  | notifyExec (begun : Nat) (place : NotifyPlace)
  | notifyAndWait (begun : Nat) (sequence : BitVec 32) (place : WaitPlace)
  | suspend
  | resume (place : ResumePlace)
  | worker (place : WorkerPlace)
  deriving DecidableEq

namespace Frame

/-- The start of `ExecApplication::step`. -/
def step : Frame := .run true 0 .readMark

/-- The start of `runExec`. -/
def runExec : Frame := .run false 0 .readMark

end Frame

/-! ### Members -/

/-- The members of the application, the input queue, and the state of the executive.  `announced`
is how many events had been put in the queue when some call of `notifyExec` began which has
returned. -/
structure ExecApplication where
  posted : List ExternalEvent
  taken : Nat
  markCount : BitVec 32
  lastMark : BitVec 32
  sem : Nat
  markSem : Nat
  execMutex : Option Thread
  runExecInBkgndOnly : Bool
  suspended : Bool
  needsStep : Bool
  announced : Nat

/-- The application with its threads. -/
abbrev Threads := CallStacks Thread ExecApplication Frame

namespace ExecApplication

variable (g : ExecApplication) (t : Thread) (result : Bool)

/-- `runExec`, or `step` if it runs `once`.  The `result` is whether the executive needs to be
stepped because of an event, or after a step. -/
def run (once : Bool) (oldMark : BitVec 32) :
    RunPlace → Option (ExecApplication × List Frame)
  | .readMark => some (g, [.run once g.lastMark .lock])
  | .lock =>
    if g.execMutex = none then
      some ({ g with execMutex := some t }, [.run once oldMark (.processQueue true false)])
    else none
  | .processQueue first needsStep =>
    match g.posted[g.taken]? with
    | none => some (g, [.run once oldMark (if first || needsStep then .step else .unlock)])
    | some (.mark sequence) =>
      some ({ g with taken := g.taken + 1, lastMark := sequence },
        [.run once oldMark (.processQueue first needsStep)])
    | some _ =>
      some ({ g with taken := g.taken + 1, needsStep := g.needsStep || result },
        [.run once oldMark (.processQueue first true)])
  | .step =>
    some ({ g with needsStep := result },
      [.run once oldMark
        (if once then .unlock else if result then .step else .processQueue false false)])
  | .unlock => some ({ g with execMutex := none }, [.run once oldMark .postMark])
  | .postMark => some (if oldMark < g.lastMark then { g with markSem := g.markSem + 1 } else g, [])

/-- `notifyExec`.  To try the mutex fails when the thread holds it already. -/
def notifyExec (begun : Nat) : NotifyPlace → ExecApplication × List Frame
  | .tryLock =>
    if !g.runExecInBkgndOnly && g.execMutex = none then
      ({ g with execMutex := some t }, [.runExec, .notifyExec begun .unlock])
    else (g, [.notifyExec begun .post])
  | .unlock => ({ g with execMutex := none, announced := max g.announced begun }, [])
  | .post => ({ g with sem := g.sem + 1, announced := max g.announced begun }, [])

/-- `notifyAndWaitForCompletion`. -/
def notifyAndWait (begun : Nat) (sequence : BitVec 32) :
    WaitPlace → Option (ExecApplication × List Frame)
  | .count =>
    some ({ g with markCount := g.markCount + 1 }, [.notifyAndWait begun (g.markCount + 1) .put])
  | .put =>
    some ({ g with posted := g.posted ++ [.mark sequence] }, [.notifyAndWait begun sequence .notify])
  | .notify =>
    some (g, [.notifyExec g.posted.length .tryLock, .notifyAndWait begun sequence .wait])
  | .wait =>
    if g.markSem = 0 then none
    else some ({ g with markSem := g.markSem - 1 }, [.notifyAndWait begun sequence .post])
  | .post => some ({ g with markSem := g.markSem + 1 }, [.notifyAndWait begun sequence .check])
  | .check => some (g, if g.lastMark < sequence then [.notifyAndWait begun sequence .wait] else [])

/-- `resume`. -/
def resume : ResumePlace → ExecApplication × List Frame
  | .test => (g, if g.suspended then [.resume .clear] else [])
  | .clear => ({ g with suspended := false }, [.notifyExec g.posted.length .tryLock])

/-- `worker` and `waitForExternalEvent`. -/
def worker : WorkerPlace → Option (ExecApplication × List Frame)
  | .start => some (g, [.step, .worker .wait])
  | .wait => if g.sem = 0 then none else some ({ g with sem := g.sem - 1 }, [.worker .check])
  | .check => some (g, if g.suspended then [.worker .wait] else [.runExec, .worker .wait])

/-- The next action of a call. -/
def act (f : Frame) : Option (ExecApplication × List Frame) :=
  match f with
  | .run once oldMark place => g.run t result once oldMark place
  | .notifyExec begun place => some (g.notifyExec t begun place)
  | .notifyAndWait begun sequence place => g.notifyAndWait begun sequence place
  | .suspend => some ({ g with suspended := true }, [])
  | .resume place => some (g.resume place)
  | .worker place => g.worker place

end ExecApplication

/-! ### Threads -/

/-- The calls which a thread or a handler makes. -/
inductive Call where
  | notifyExec | notifyAndWaitForCompletion | suspend | resume | runExec | step
  deriving DecidableEq

/-- The frame of a call, when `begun` events have been put in the input queue. -/
def Call.frame (begun : Nat) : Call → Frame
  | .notifyExec => .notifyExec begun .tryLock
  | .notifyAndWaitForCompletion => .notifyAndWait begun 0 .count
  | .suspend => .suspend
  | .resume => .resume .test
  | .runExec => .runExec
  | .step => .step

/-- What a thread does next. -/
inductive Action where
  /-- An event is put in the input queue. -/
  | put (event : ExternalEvent)
  | call (call : Call)
  /-- The innermost call goes on. -/
  | next (result : Bool)

abbrev Event := Thread × Action

namespace Threads

/-- A thread does what the application does not: it has called nothing, or a handler of the
executive is called. -/
def outside (s : Threads) (t : Thread) : Bool :=
  match s.frames t with
  | [] => true
  | .run _ _ (.processQueue _ _) :: _ => true
  | .run _ _ .step :: _ => true
  | _ => false

def apply (s : Threads) : Event → Option Threads
  | (t, .put event) =>
    if s.outside t && !event.isMark then
      some { s with shared := { s.shared with posted := s.shared.posted ++ [event] } }
    else none
  | (t, .call call) =>
    if s.outside t then some (s.push t (call.frame s.shared.posted.length)) else none
  | (t, .next result) => s.advance (fun f g => g.act t result f) t

/-- The application after `run`: the worker thread has been spawned. -/
def initial (runExecInBkgndOnly : Bool) : Threads where
  shared :=
    { posted := []
      taken := 0
      markCount := 0
      lastMark := 0
      sem := 0
      markSem := 0
      execMutex := none
      runExecInBkgndOnly
      suspended := false
      needsStep := false
      announced := 0 }
  frames t := if t = workerThread then [.worker .start] else []

end Threads

end Plexil.App
