import Plexil.Exec.State

/-!
# Acquisition and release of resources

The mutexes and the assignment variable of a node are acquired all together or not at
all.  A release tells the nodes which wait for the resource.
-/

namespace Plexil

namespace Reservables

def addWaitingNode (n : NodePtr) (res : Reservables) (r : ReservableId) : Reservables :=
  Function.update res r ((res r).addWaitingNode n)

def removeWaitingNode (n : NodePtr) (res : Reservables) (r : ReservableId) : Reservables :=
  Function.update res r ((res r).removeWaitingNode n)

def acquire (n : NodePtr) (res : Reservables) (r : ReservableId) : Reservables :=
  Function.update res r ((res r).acquire n).1

/-- Acquires resources in order, up to the first one which is held; gives that one. -/
def acquireInOrder (n : NodePtr) :
    List ReservableId → Reservables → Reservables × Option ReservableId
  | [], res => (res, none)
  | r :: rs, res =>
    if ((res r).acquire n).2 then acquireInOrder n rs (res.acquire n r)
    else (res.acquire n r, some r)

end Reservables

namespace Core

/-- Releases a resource, if the node holds it, and tells the waiting nodes. -/
def release (n : NodePtr) (c : Core) (r : ReservableId) : Core :=
  if (c.reservable r).holder = some n then
    { c with
      reservable := Function.update c.reservable r { c.reservable r with holder := none }
      queues := c.queues.notifyAllResourceAvailable (c.reservable r).waiters }
  else c

/-- Releases resources in order. -/
def releaseAll (n : NodePtr) (rs : List ReservableId) (c : Core) : Core :=
  rs.foldl (release n) c

/-- Releases a resource, if the node holds it, and puts the node on its waiting list. -/
def backOut (n : NodePtr) (c : Core) (r : ReservableId) : Core :=
  let c' := release n c r
  { c' with reservable := c'.reservable.addWaitingNode n r }

/-- Attempts to acquire the assignment variable, after the attempt at the mutexes. -/
def acquireVariable (n : NodePtr) (r : ReservableId) (success : Bool) (c : Core) :
    Core × Bool :=
  if success then
    ({ c with reservable := c.reservable.acquire n r }, ((c.reservable r).acquire n).2)
  else ({ c with reservable := c.reservable.addWaitingNode n r }, false)

/-- The attempt at the mutexes of a node. -/
def acquireMutexes (F : Forest) (n : NodePtr) (c : Core) : Core × Bool :=
  let (res, failed) := Reservables.acquireInOrder n (F.decl n).mutexes c.reservable
  let c' := { c with reservable := res }
  match failed with
  | none => (c', true)
  | some r =>
    -- A mutex held by an ancestor is a plan error.
    if (F.ancestors n).any fun a => (res r).holder = some a then
      (c'.fail .recursiveAcquisition, false)
    else (c', false)

/-- `tryResourceAcquisition`. -/
def tryResourceAcquisition (F : Forest) (n : NodePtr) (c : Core) : Core × Bool :=
  let (c₁, mutexesAcquired) := c.acquireMutexes F n
  let (c₂, success) :=
    match (F.decl n).nodeType with
    | .assignment => c₁.acquireVariable n (.variable (F.decl n).baseVariable) mutexesAcquired
    | _ => (c₁, mutexesAcquired)
  if success then (c₂, true)
  else ((F.decl n).mutexes.foldl (backOut n) c₂, false)

/-- `releaseResourceReservations`: removes the node from the waiting lists of the
resources it needs. -/
def releaseResourceReservations (F : Forest) (n : NodePtr) (c : Core) : Core :=
  let res :=
    match (F.decl n).nodeType with
    | .assignment => c.reservable.removeWaitingNode n (.variable (F.decl n).baseVariable)
    | _ => c.reservable
  { c with reservable := (F.decl n).mutexes.foldl (Reservables.removeWaitingNode n) res }

/-- `removePendingNode`. -/
def removePendingNode (F : Forest) (n : NodePtr) (c : Core) : Core :=
  ({ c with queues := c.queues.removePending n }).releaseResourceReservations F n

end Core
end Plexil
