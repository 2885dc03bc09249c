import Plexil.Util.LinkedList
import Plexil.Util.LinkedQueue
import Mathlib.Data.List.GetD

/-!
# Intrusive queues

`LinkedQueue<T>` and `PriorityQueue<T, Compare>` with their pointers.  The `next` pointers
belong to the items, so that all queues of one type of items share them.
-/

namespace Plexil.Utils

/-- The pointers of the items and those of one queue. -/
structure LinkedQueue (α : Type) where
  next : α → Option α
  head : Option α
  tail : Option α
  count : Nat

namespace LinkedQueue

variable {α : Type} [DecidableEq α]

/-- A place where a pointer to an item is stored: the head of the queue, or the `next`
pointer of an item. -/
inductive Place (α : Type) where
  | head
  | nextPtr (item : α)

def setNext (item : α) (p : Option α) (q : LinkedQueue α) : LinkedQueue α :=
  { q with next := Function.update q.next item p }

def write (p : Option α) (q : LinkedQueue α) : Place α → LinkedQueue α
  | .head => { q with head := p }
  | .nextPtr item => q.setNext item p

/-- `none` where the assertion fails that the queue has another item. -/
def pop (q : LinkedQueue α) : Option (LinkedQueue α) :=
  match q.head with
  | none => some q
  | some oldHead =>
    if q.head = q.tail then
      let q' := { q with head := none, tail := none }
      some { q'.setNext oldHead none with count := q.count - 1 }
    else
      match q.next oldHead with
      | none => none
      | some newHead =>
        let q' := { q with head := some newHead }
        some { q'.setNext oldHead none with count := q.count - 1 }

/-- `none` where the assertion fails that the item has no next one, and where the queue has
items but no tail. -/
def push (item : α) (q : LinkedQueue α) : Option (LinkedQueue α) :=
  if (q.next item).isSome then none
  else
    let q' := q.setNext item none
    match q.head with
    | none => some { q' with head := some item, tail := some item, count := q.count + 1 }
    | some _ =>
      match q.tail with
      | none => none
      | some last =>
        some { q'.setNext last (some item) with tail := some item, count := q.count + 1 }

def insertAfter (it : Option α) (item : α) (q : LinkedQueue α) : Option (LinkedQueue α) :=
  match it with
  | none => q.push item
  | some x =>
    let nxt := q.next x
    let q' := (q.setNext x (some item)).setNext item nxt
    some { q' with tail := if nxt = none then nxt else q.tail, count := q.count + 1 }

/-- The loops of `remove` and `remove_if`, with the item which is removed. -/
def unlink (pred : α → Bool) (q : LinkedQueue α) :
    Nat → Option α → Place α → Option α → Option (Option α × LinkedQueue α)
  | 0, _, _, _ => none
  | _ + 1, _, _, none => some (none, q)
  | fuel + 1, prev, prevNextPtr, some cur =>
    if pred cur then
      let q' := q.write (q.next cur) prevNextPtr
      let q' := { q' with tail := if q.tail = some cur then prev else q.tail }
      some (some cur, { q'.setNext cur none with count := q.count - 1 })
    else unlink pred q fuel (some cur) (.nextPtr cur) (q.next cur)

def remove (fuel : Nat) (item : α) (q : LinkedQueue α) : Option (LinkedQueue α) :=
  if q.head = none then some q
  else (q.unlink (· = item) fuel none .head q.head).map (·.2)

def removeIf (fuel : Nat) (pred : α → Bool) (q : LinkedQueue α) : Option (LinkedQueue α) :=
  (q.unlink pred fuel none .head q.head).map (·.2)

/-- The loop of `clear`. -/
def clearFrom (q : LinkedQueue α) : Nat → Option α → Option (LinkedQueue α)
  | 0, _ => none
  | _ + 1, none => some q
  | fuel + 1, some cur => clearFrom (q.setNext cur none) fuel (q.next cur)

def clear (fuel : Nat) (q : LinkedQueue α) : Option (LinkedQueue α) :=
  (q.clearFrom fuel q.head).map fun q' => { q' with head := none, tail := none, count := 0 }

/-! ### Priority queues -/

variable {β : Type} [LinearOrder β]

/-- The loop of `insert`, which finds the first item of a greater priority value. -/
def insertionPoint (priority : α → β) (q : LinkedQueue α) (item : α) :
    Nat → Place α → Option α → Option (Place α × Option α)
  | 0, _, _ => none
  | _ + 1, prevNextPtr, none => some (prevNextPtr, none)
  | fuel + 1, prevNextPtr, some cur =>
    if priority item < priority cur then some (prevNextPtr, some cur)
    else insertionPoint priority q item fuel (.nextPtr cur) (q.next cur)

def insert (priority : α → β) (fuel : Nat) (item : α) (q : LinkedQueue α) :
    Option (LinkedQueue α) :=
  match q.head with
  | none => q.push item
  | some _ =>
    match q.insertionPoint priority item fuel .head q.head with
    | none => none
    | some (prevNextPtr, some cur) =>
      some { (q.setNext item (some cur)).write (some item) prevNextPtr with
        count := q.count + 1 }
    | some (_, none) =>
      match q.tail with
      | none => none
      | some last =>
        some { (q.setNext item none).setNext last (some item) with
          tail := some item, count := q.count + 1 }

/-- The loop of `front_count`. -/
def countFrom (priority : α → β) (q : LinkedQueue α) :
    Nat → (result : Nat) → (cur : α) → (nxt : Option α) → Option Nat
  | 0, _, _, _ => none
  | _ + 1, result, _, none => some result
  | fuel + 1, result, cur, some nxt =>
    if priority cur < priority nxt then some result
    else countFrom priority q fuel (result + 1) nxt (q.next nxt)

def frontCount (priority : α → β) (fuel : Nat) (q : LinkedQueue α) : Option Nat :=
  if q.count ≤ 1 then some q.count
  else
    match q.head with
    | none => none
    | some cur => q.countFrom priority fuel 1 cur (q.next cur)

end LinkedQueue

end Plexil.Utils
