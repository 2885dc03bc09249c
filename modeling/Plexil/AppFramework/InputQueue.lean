import Plexil.AppFramework.SimpleInputQueue
import Plexil.Util.StateMachine

/-!
# The classes of the input queue

`SerializedInputQueue` does what `SimpleInputQueue` does, with a mutex which every operation holds
from its beginning to its end.  `flush` calls `release` while it holds the mutex.

A caller has in hand the entries which it was given by `allocate` and by `get`, and puts and
releases only these.
-/

namespace Plexil.Intfc

open StateMachine (Always Meets)

/-- What can go wrong: an assertion fails, a thread tries to take a mutex which it holds, or a loop
does not end. -/
inductive InputQueueFault where
  | assertion | relock | endless
  deriving DecidableEq

/-- The virtual functions of an input queue, with what may go wrong.  `write` is what a caller
writes to an entry it has in hand. -/
structure InputQueue (σ : Type) where
  new : σ
  isEmpty : σ → Except InputQueueFault Bool
  allocate : σ → Except InputQueueFault (σ × Nat)
  write : σ → Nat → (QueueEntry → QueueEntry) → σ
  put : σ → Nat → Except InputQueueFault σ
  get : σ → Except InputQueueFault (σ × Option Nat)
  release : σ → Nat → Except InputQueueFault σ
  flush : σ → Except InputQueueFault σ

/-! ### The two classes -/

namespace SimpleInputQueue

/-- The loop of `flush`, of at most `n` rounds. -/
def flushLoop : Nat → SimpleInputQueue → Except InputQueueFault SimpleInputQueue
  | 0, _ => .error .endless
  | n + 1, q =>
    match q.queueGet with
    | none => .ok { q with queuePut := none }
    | some p => flushLoop n ({ q with queueGet := (q.heap p).next }.release p)

/-- Every round releases another entry, so that the loop ends when all entries are free. -/
def flush (q : SimpleInputQueue) : Except InputQueueFault SimpleInputQueue :=
  flushLoop (q.created + 1) q

def inputQueue : InputQueue SimpleInputQueue where
  new := new
  isEmpty q := .ok q.isEmpty
  allocate q := .ok q.allocate
  write := modify
  put q p := .ok (q.put p)
  get q :=
    match q.get with
    | some result => .ok result
    | none => .error .assertion
  release q p := .ok (q.release p)
  flush := flush

end SimpleInputQueue

/-- The entries and pointers, and whether the mutex is held. -/
structure SerializedInputQueue where
  queue : SimpleInputQueue
  locked : Bool

namespace SerializedInputQueue

def new : SerializedInputQueue := ⟨.new, false⟩

-- `threads` is `PLEXIL_WITH_THREADS`; there is no mutex without it.
variable (threads : Bool) (q : SerializedInputQueue)

/-- `std::lock_guard` around the body of an operation. -/
def lockGuard {α : Type} (body : SerializedInputQueue →
    Except InputQueueFault (SerializedInputQueue × α)) :
    Except InputQueueFault (SerializedInputQueue × α) :=
  if threads then
    if q.locked then .error .relock
    else do
      let (q', result) ← body { q with locked := true }
      .ok ({ q' with locked := false }, result)
  else body q

def isEmpty : Except InputQueueFault Bool :=
  (q.lockGuard threads fun q => .ok (q, q.queue.isEmpty)).map Prod.snd

def allocate : Except InputQueueFault (SerializedInputQueue × Nat) :=
  q.lockGuard threads fun q =>
    let (queue, p) := q.queue.allocate
    .ok ({ q with queue := queue }, p)

def release (p : Nat) : Except InputQueueFault SerializedInputQueue :=
  (q.lockGuard threads fun q => .ok ({ q with queue := q.queue.release p }, ())).map Prod.fst

def put (p : Nat) : Except InputQueueFault SerializedInputQueue :=
  (q.lockGuard threads fun q => .ok ({ q with queue := q.queue.put p }, ())).map Prod.fst

def get : Except InputQueueFault (SerializedInputQueue × Option Nat) :=
  q.lockGuard threads fun q =>
    match q.queue.get with
    | some (queue, result) => .ok ({ q with queue := queue }, result)
    | none => .error .assertion

/-- The loop of `flush`, of at most `n` rounds. -/
def flushLoop : Nat → SerializedInputQueue → Except InputQueueFault SerializedInputQueue
  | 0, _ => .error .endless
  | n + 1, q =>
    match q.queue.queueGet with
    | none => .ok { q with queue := { q.queue with queuePut := none } }
    | some p => do
      let temp := { q with queue := { q.queue with queueGet := (q.queue.heap p).next } }
      let q ← temp.release threads p
      flushLoop n q

def flush : Except InputQueueFault SerializedInputQueue :=
  (q.lockGuard threads fun q =>
    (flushLoop threads (q.queue.created + 1) q).map fun q => (q, ())).map Prod.fst

def inputQueue : InputQueue SerializedInputQueue where
  new := new
  isEmpty := isEmpty threads
  allocate := allocate threads
  write q p f := { q with queue := q.queue.modify p f }
  put := put threads
  get := get threads
  release := release threads
  flush := flush threads

end SerializedInputQueue

/-! ### Callers -/

inductive InputQueueOperation where
  | isEmpty
  | allocate
  | write (p : Nat) (f : QueueEntry → QueueEntry)
  | put (p : Nat)
  | get
  | release (p : Nat)
  | flush

/-- A queue with the entries which its callers have in hand, those which have been put and got
since the queue was flushed, and what has gone wrong. -/
structure InputQueueClient (σ : Type) where
  queue : σ
  hands : List Nat
  put : List Nat
  got : List Nat
  fault : Option InputQueueFault

namespace InputQueueClient

variable {σ : Type} (I : InputQueue σ)

def initial : InputQueueClient σ := ⟨I.new, [], [], [], none⟩

/-- The next state, unless something goes wrong. -/
def after {α : Type} (s : InputQueueClient σ) (result : Except InputQueueFault α)
    (next : α → InputQueueClient σ) : InputQueueClient σ :=
  match result with
  | .ok result => next result
  | .error fault => { s with fault := some fault }

/-- An operation, which is possible when nothing has gone wrong and its entry is in hand. -/
def step (s : InputQueueClient σ) (op : InputQueueOperation) : Option (InputQueueClient σ) :=
  if s.fault.isSome then none
  else
    match op with
    | .isEmpty => some (s.after (I.isEmpty s.queue) fun _ => s)
    | .allocate =>
      some (s.after (I.allocate s.queue) fun (q, p) => { s with queue := q, hands := p :: s.hands })
    | .write p f => if p ∈ s.hands then some { s with queue := I.write s.queue p f } else none
    | .put p =>
      if p ∈ s.hands then
        some (s.after (I.put s.queue p) fun q =>
          { s with queue := q, hands := s.hands.erase p, put := s.put ++ [p] })
      else none
    | .get =>
      some (s.after (I.get s.queue) fun
        | (q, some p) => { s with queue := q, hands := p :: s.hands, got := s.got ++ [p] }
        | (q, none) => { s with queue := q })
    | .release p =>
      if p ∈ s.hands then
        some (s.after (I.release s.queue p) fun q =>
          { s with queue := q, hands := s.hands.erase p })
      else none
    | .flush =>
      some (s.after (I.flush s.queue) fun q => { s with queue := q, put := [], got := [] })

/-- Nothing has gone wrong; every entry which has been created is in exactly one of the queue, the
free list and the hands of callers, and the two lists end; the entries which were put have been
got in their order, as far as they do not wait; and `isEmpty` tells whether none waits. -/
structure Kept (contents : σ → SimpleInputQueue) (s : InputQueueClient σ) : Prop where
  noFault : s.fault = none
  lists : ∃ waiting free, (contents s.queue).Represents waiting free s.hands ∧
    s.put = s.got ++ waiting ∧ I.isEmpty s.queue = .ok waiting.isEmpty

end InputQueueClient

/-! ### Flushing -/

namespace SimpleInputQueue

variable {q : SimpleInputQueue} {waiting free hands : List Nat} {p : Nat}

/-- The entry at the head is taken, and the last entry is that of the others. -/
theorem Represents.tail (h : q.Represents (p :: waiting) free hands) :
  { q with queueGet := (q.heap p).next, queuePut := waiting.getLast? }.Represents waiting free
    (p :: hands)
  := by
  obtain ⟨-, hchain⟩ := h.waitingChain
  constructor
  · exact hchain
  · rfl
  · exact h.freeChain
  · apply List.Perm.trans _ h.created
    rw [← List.append_assoc, ← List.append_assoc]
    apply List.perm_middle

/-- The entries which wait are released one after the other.  The pointer to the last entry is not
read until it is cleared. -/
theorem flushLoop_spec (h : { q with queuePut := waiting.getLast? }.Represents waiting free hands)
    {n : Nat} (hn : waiting.length < n) :
  ∃ q', flushLoop n q = .ok q' ∧ q'.Represents [] (waiting.reverse ++ free) hands
  := by
  induction waiting generalizing q free n with
  | nil =>
    obtain ⟨n, rfl⟩ : ∃ m, n = m + 1 := ⟨n - 1, (Nat.sub_add_cancel hn).symm⟩
    have hnone : q.queueGet = none := h.waitingChain
    refine ⟨{ q with queuePut := none }, ?_, h⟩
    rw [flushLoop, hnone]
  | cons p waiting ih =>
    obtain ⟨n, rfl⟩ : ∃ m, n = m + 1 := ⟨n - 1, by omega⟩
    have hsome : q.queueGet = some p := h.waitingChain.1
    have hreleased := (release_spec h.tail).1
    obtain ⟨q', hq', hrepresents⟩ :=
      ih (q := { q with queueGet := (q.heap p).next }.release p) hreleased
        (Nat.lt_of_succ_lt_succ hn)
    refine ⟨q', ?_, ?_⟩
    · rw [flushLoop, hsome]
      exact hq'
    · rw [List.reverse_cons, List.append_assoc]
      exact hrepresents

theorem Represents.length_le (h : q.Represents waiting free hands) :
  waiting.length ≤ q.created
  := by
  have hlength := h.created.length_eq
  rw [List.length_append, List.length_range] at hlength
  omega

theorem flush_spec (h : q.Represents waiting free hands) :
  ∃ q', q.flush = .ok q' ∧ q'.Represents [] (waiting.reverse ++ free) hands
  := by
  apply flushLoop_spec
  · rw [← h.last]
    exact h
  · have hle := h.length_le
    omega

end SimpleInputQueue

/-! ### What the operations do to the lists -/

/-- The operations of a class but `flush` do to the entries and pointers what those of
`SimpleInputQueue` do, when nothing is under way. -/
structure InputQueue.Follows {σ : Type} (I : InputQueue σ) (contents : σ → SimpleInputQueue)
    (idle : σ → Prop) : Prop where
  new : idle I.new ∧ contents I.new = .new
  isEmpty : ∀ q, idle q → I.isEmpty q = .ok (contents q).isEmpty
  allocate : ∀ q, idle q → ∃ q', I.allocate q = .ok (q', (contents q).allocate.2) ∧ idle q' ∧
    contents q' = (contents q).allocate.1
  write : ∀ q p f, idle q → idle (I.write q p f) ∧
    contents (I.write q p f) = (contents q).modify p f
  put : ∀ q p, idle q → ∃ q', I.put q p = .ok q' ∧ idle q' ∧ contents q' = (contents q).put p
  get : ∀ q c result, idle q → (contents q).get = some (c, result) →
    ∃ q', I.get q = .ok (q', result) ∧ idle q' ∧ contents q' = c
  release : ∀ q p, idle q → ∃ q', I.release q p = .ok q' ∧ idle q' ∧
    contents q' = (contents q).release p

theorem SimpleInputQueue.follows :
  SimpleInputQueue.inputQueue.Follows id fun _ => True
  where
  new := ⟨trivial, rfl⟩
  isEmpty _ _ := rfl
  allocate q _ := ⟨q.allocate.1, rfl, trivial, rfl⟩
  write _ _ _ _ := ⟨trivial, rfl⟩
  put q p _ := ⟨q.put p, rfl, trivial, rfl⟩
  get q c result _ hget := by
    use c
    unfold inputQueue
    dsimp only
    rw [show q.get = some (c, result) from hget]
    exact ⟨rfl, trivial, rfl⟩
  release q p _ := ⟨q.release p, rfl, trivial, rfl⟩

namespace SerializedInputQueue

variable {threads : Bool} {q : SerializedInputQueue}

/-- The mutex is held by the body, and free before and after it. -/
theorem lockGuard_of_free {α : Type} {body : SerializedInputQueue →
    Except InputQueueFault (SerializedInputQueue × α)} (hfree : q.locked = false)
    {queue : SimpleInputQueue} {result : α}
    (hbody : ∀ locked, body ⟨q.queue, locked⟩ = .ok (⟨queue, locked⟩, result)) :
  q.lockGuard threads body = .ok (⟨queue, false⟩, result)
  := by
  obtain ⟨contents, locked⟩ := q
  cases hfree
  unfold lockGuard
  cases threads with
  | true =>
    rw [if_pos rfl, if_neg Bool.false_ne_true]
    dsimp only
    rw [hbody]
    rfl
  | false =>
    rw [if_neg Bool.false_ne_true]
    apply hbody

theorem lockGuard_of_locked {α : Type} {body : SerializedInputQueue →
    Except InputQueueFault (SerializedInputQueue × α)} (hlocked : q.locked = true) :
  q.lockGuard true body = .error .relock
  := by
  unfold lockGuard
  rw [if_pos rfl, if_pos hlocked]

theorem follows (threads : Bool) :
  (inputQueue threads).Follows queue fun q => q.locked = false
  where
  new := ⟨rfl, rfl⟩
  isEmpty q hfree := by
    have hguard : q.lockGuard threads (fun q => .ok (q, q.queue.isEmpty)) =
        .ok (⟨q.queue, false⟩, q.queue.isEmpty) := lockGuard_of_free hfree fun locked => rfl
    dsimp only [inputQueue, isEmpty]
    rw [hguard]
    rfl
  allocate q hfree := by
    refine ⟨⟨q.queue.allocate.1, false⟩, ?_, rfl, rfl⟩
    apply lockGuard_of_free hfree
    intro locked
    rfl
  write q p f hfree := ⟨hfree, rfl⟩
  put q p hfree := by
    have hguard : q.lockGuard threads (fun q => .ok ({ q with queue := q.queue.put p }, ())) =
        .ok (⟨q.queue.put p, false⟩, ()) := lockGuard_of_free hfree fun locked => rfl
    refine ⟨⟨q.queue.put p, false⟩, ?_, rfl, rfl⟩
    dsimp only [inputQueue, put]
    rw [hguard]
    rfl
  get q c result hfree hget := by
    refine ⟨⟨c, false⟩, ?_, rfl, rfl⟩
    apply lockGuard_of_free hfree
    intro locked
    dsimp only
    rw [hget]
  release q p hfree := by
    have hguard : q.lockGuard threads (fun q => .ok ({ q with queue := q.queue.release p }, ())) =
        .ok (⟨q.queue.release p, false⟩, ()) := lockGuard_of_free hfree fun locked => rfl
    refine ⟨⟨q.queue.release p, false⟩, ?_, rfl, rfl⟩
    dsimp only [inputQueue, release]
    rw [hguard]
    rfl

/-- Without a mutex the loop is that of `SimpleInputQueue`. -/
theorem flushLoop_false (n : Nat) (contents : SimpleInputQueue) (locked : Bool) :
  flushLoop false n ⟨contents, locked⟩ =
    (SimpleInputQueue.flushLoop n contents).map fun contents => ⟨contents, locked⟩
  := by
  induction n generalizing contents with
  | zero => rfl
  | succ n ih =>
    unfold flushLoop SimpleInputQueue.flushLoop
    dsimp only
    cases contents.queueGet with
    | none => rfl
    | some p => apply ih

theorem flush_false :
  q.flush false = q.queue.flush.map fun contents => ⟨contents, q.locked⟩
  := by
  obtain ⟨contents, locked⟩ := q
  unfold flush lockGuard SimpleInputQueue.flush
  rw [if_neg Bool.false_ne_true]
  dsimp only
  rw [flushLoop_false]
  cases SimpleInputQueue.flushLoop (contents.created + 1) contents <;> rfl

/-- `release` cannot take the mutex which `flush` holds. -/
theorem flush_true (hfree : q.locked = false) :
  q.flush true =
    if q.queue.isEmpty then .ok ⟨{ q.queue with queuePut := none }, false⟩ else .error .relock
  := by
  unfold flush lockGuard
  rw [if_pos rfl, if_neg (by simp [hfree])]
  unfold flushLoop SimpleInputQueue.isEmpty
  dsimp only
  cases hget : q.queue.queueGet with
  | none => rfl
  | some p =>
    dsimp only [release]
    rw [lockGuard_of_locked rfl]
    rfl

end SerializedInputQueue

/-! ### Runs -/

theorem SimpleInputQueue.Represents.isEmpty_eq {q : SimpleInputQueue}
    {waiting free hands : List Nat} (h : q.Represents waiting free hands) :
  q.isEmpty = waiting.isEmpty
  := by
  unfold isEmpty
  rw [h.waitingChain.start_eq]
  cases waiting <;> rfl

theorem SimpleInputQueue.Represents.perm {q : SimpleInputQueue}
    {waiting free hands hands' : List Nat} (h : q.Represents waiting free hands)
    (hperm : hands'.Perm hands) :
  q.Represents waiting free hands'
  where
  waitingChain := h.waitingChain
  last := h.last
  freeChain := h.freeChain
  created := by
    apply List.Perm.trans _ h.created
    apply List.Perm.append_left
    apply List.Perm.append_left
    exact hperm

namespace InputQueueClient

variable {σ : Type} {I : InputQueue σ} {contents : σ → SimpleInputQueue} {idle : σ → Prop}
variable {s s' : InputQueueClient σ} {op : InputQueueOperation}

/-- The flush of this state empties the queue. -/
def Flushes (I : InputQueue σ) (contents : σ → SimpleInputQueue) (idle : σ → Prop) (q : σ) : Prop :=
  ∃ q', I.flush q = .ok q' ∧ idle q' ∧ (contents q).flush = .ok (contents q')

/-- Every operation keeps the entries, as far as `flush` does. -/
theorem Kept.step (hI : I.Follows contents idle) (h : s.Kept I contents) (hidle : idle s.queue)
    (hflush : op = .flush → Flushes I contents idle s.queue) (hstep : s.step I op = some s') :
  s'.Kept I contents ∧ idle s'.queue
  := by
  obtain ⟨q, hands, put, got, fault⟩ := s
  obtain ⟨hfault, waiting, free, hrepresents, hput, hempty⟩ := h
  cases hfault
  dsimp only at hidle hflush hrepresents hput hempty
  have hisEmpty : ∀ q' waiting free hands, idle q' →
      (contents q').Represents waiting free hands → I.isEmpty q' = .ok waiting.isEmpty := by
    intro q' waiting free hands hidle' hrepresents'
    rw [hI.isEmpty q' hidle', hrepresents'.isEmpty_eq]
  unfold InputQueueClient.step after at hstep
  dsimp only [Option.isSome_none] at hstep
  rw [if_neg Bool.false_ne_true] at hstep
  cases op with
  | isEmpty =>
    dsimp only at hstep
    rw [hempty] at hstep
    cases hstep
    exact ⟨⟨rfl, waiting, free, hrepresents, hput, hempty⟩, hidle⟩
  | allocate =>
    obtain ⟨q', hq', hidle', hcontents⟩ := hI.allocate q hidle
    dsimp only at hstep
    rw [hq'] at hstep
    cases hstep
    obtain ⟨free', hrepresents', -⟩ := SimpleInputQueue.allocate_spec hrepresents
    rw [← hcontents] at hrepresents'
    exact ⟨⟨rfl, waiting, free', hrepresents', hput, hisEmpty _ _ _ _ hidle' hrepresents'⟩, hidle'⟩
  | write p f =>
    obtain ⟨hidle', hcontents⟩ := hI.write q p f hidle
    dsimp only at hstep
    split at hstep
    · rename_i hp
      cases hstep
      have hrepresents' := SimpleInputQueue.modify_spec
        (hrepresents.perm (List.perm_cons_erase hp).symm) f
      rw [← hcontents] at hrepresents'
      have hback := hrepresents'.perm (List.perm_cons_erase hp)
      exact ⟨⟨rfl, waiting, free, hback, hput, hisEmpty _ _ _ _ hidle' hback⟩, hidle'⟩
    · contradiction
  | put p =>
    obtain ⟨q', hq', hidle', hcontents⟩ := hI.put q p hidle
    dsimp only at hstep
    split at hstep
    · rename_i hp
      rw [hq'] at hstep
      cases hstep
      have hrepresents' := (SimpleInputQueue.put_spec
        (hrepresents.perm (List.perm_cons_erase hp).symm)).1
      rw [← hcontents] at hrepresents'
      refine ⟨⟨rfl, waiting ++ [p], free, hrepresents', ?_, hisEmpty _ _ _ _ hidle' hrepresents'⟩,
        hidle'⟩
      dsimp only
      rw [hput, List.append_assoc]
    · contradiction
  | get =>
    dsimp only at hstep
    cases waiting with
    | nil =>
      obtain ⟨q', hq', hidle', hcontents⟩ :=
        hI.get q _ _ hidle (SimpleInputQueue.get_spec_nil hrepresents)
      rw [hq'] at hstep
      cases hstep
      rw [← hcontents] at hrepresents
      exact ⟨⟨rfl, [], free, hrepresents, hput, hisEmpty _ _ _ _ hidle' hrepresents⟩, hidle'⟩
    | cons p waiting =>
      obtain ⟨c, hget, hrepresents', -⟩ := SimpleInputQueue.get_spec_cons hrepresents
      obtain ⟨q', hq', hidle', hcontents⟩ := hI.get q _ _ hidle hget
      rw [hq'] at hstep
      cases hstep
      rw [← hcontents] at hrepresents'
      refine ⟨⟨rfl, waiting, free, hrepresents', ?_, hisEmpty _ _ _ _ hidle' hrepresents'⟩,
        hidle'⟩
      dsimp only
      rw [hput, List.append_assoc]
      rfl
  | release p =>
    obtain ⟨q', hq', hidle', hcontents⟩ := hI.release q p hidle
    dsimp only at hstep
    split at hstep
    · rename_i hp
      rw [hq'] at hstep
      cases hstep
      have hrepresents' := (SimpleInputQueue.release_spec
        (hrepresents.perm (List.perm_cons_erase hp).symm)).1
      rw [← hcontents] at hrepresents'
      exact ⟨⟨rfl, waiting, p :: free, hrepresents', hput,
        hisEmpty _ _ _ _ hidle' hrepresents'⟩, hidle'⟩
    · contradiction
  | flush =>
    obtain ⟨q', hq', hidle', hcontents⟩ := hflush rfl
    dsimp only at hstep
    rw [hq'] at hstep
    cases hstep
    obtain ⟨c, hc, hrepresents'⟩ := SimpleInputQueue.flush_spec hrepresents
    rw [hcontents] at hc
    cases hc
    exact ⟨⟨rfl, [], _, hrepresents', rfl, hisEmpty _ _ _ _ hidle' hrepresents'⟩, hidle'⟩

theorem kept_initial (hI : I.Follows contents idle) :
  (initial I).Kept I contents
  := by
  have hrepresents : (contents I.new).Represents [] [] [] := by
    rw [hI.new.2]
    exact SimpleInputQueue.new_represents
  refine ⟨rfl, [], [], hrepresents, rfl, ?_⟩
  dsimp only [initial]
  rw [hI.isEmpty _ hI.new.1, hrepresents.isEmpty_eq]

/-- A class whose `flush` empties the queue keeps the entries in every run. -/
theorem always_kept (hI : I.Follows contents idle)
    (hflush : ∀ q waiting free hands, idle q → (contents q).Represents waiting free hands →
      Flushes I contents idle q) (ops : List InputQueueOperation) :
  Always (step I) (Kept I contents) ops (initial I)
  := by
  have hinitial := kept_initial hI
  apply StateMachine.always_of_invariant (I := fun s => s.Kept I contents ∧ idle s.queue) _ ops
    ⟨hinitial, hI.new.1⟩ hinitial
  rintro s op s' ⟨hkept, hidle⟩ hstep
  obtain ⟨waiting, free, hrepresents, -⟩ := hkept.lists
  have hkept' := hkept.step hI hidle (fun _ => hflush _ _ _ _ hidle hrepresents) hstep
  exact ⟨hkept', hkept'.1⟩

end InputQueueClient

open InputQueueClient

theorem SimpleInputQueue.always_kept (ops : List InputQueueOperation) :
  Always (step inputQueue) (Kept inputQueue id) ops (initial inputQueue)
  := by
  apply InputQueueClient.always_kept follows
  intro q waiting free hands _ hrepresents
  obtain ⟨q', hq', -⟩ := flush_spec hrepresents
  exact ⟨q', hq', trivial, hq'⟩

namespace SerializedInputQueue

theorem always_kept_false (ops : List InputQueueOperation) :
  Always (step (inputQueue false)) (Kept (inputQueue false) queue) ops
    (initial (inputQueue false))
  := by
  apply InputQueueClient.always_kept (follows false)
  intro q waiting free hands hfree hrepresents
  obtain ⟨c, hc, -⟩ := SimpleInputQueue.flush_spec hrepresents
  refine ⟨⟨c, false⟩, ?_, rfl, hc⟩
  dsimp only [inputQueue]
  rw [flush_false, hc, hfree]
  rfl

/-- A queue in which no entry waits is flushed. -/
theorem flushes_of_isEmpty {q : SerializedInputQueue} (hfree : q.locked = false)
    (hempty : q.queue.isEmpty = true) :
  Flushes (inputQueue true) queue (fun q => q.locked = false) q
  := by
  refine ⟨⟨{ q.queue with queuePut := none }, false⟩, ?_, rfl, ?_⟩
  · dsimp only [inputQueue]
    rw [flush_true hfree, if_pos hempty]
  · have hnone : q.queue.queueGet = none := Option.isNone_iff_eq_none.mp hempty
    obtain ⟨⟨heap, created, queueGet, queuePut, freeList⟩, locked⟩ := q
    cases hnone
    rfl

variable {s s' : InputQueueClient SerializedInputQueue}

/-- Flushing a queue in which an entry waits stops the thread. -/
theorem step_flush_fails (hfault : s.fault = none) (hfree : s.queue.locked = false)
    (hempty : s.queue.queue.isEmpty = false) :
  s.step (inputQueue true) .flush = some { s with fault := some .relock }
  := by
  have hflush : (inputQueue true).flush s.queue = .error .relock := by
    dsimp only [inputQueue]
    rw [flush_true hfree, hempty]
    rfl
  unfold step after
  rw [hfault, if_neg (by simp)]
  dsimp only
  rw [hflush]

theorem always_kept_true_iff (ops : List InputQueueOperation) :
  Always (step (inputQueue true)) (Kept (inputQueue true) queue) ops (initial (inputQueue true)) ↔
    Meets (step (inputQueue true)) (fun s op => op = .flush → s.queue.queue.isEmpty = true) ops
      (initial (inputQueue true))
  := by
  have hkept : ∀ {s s' : InputQueueClient SerializedInputQueue} {op}, s.queue.locked = false →
      s.Kept (inputQueue true) queue → (op = .flush → s.queue.queue.isEmpty = true) →
      s.step (inputQueue true) op = some s' →
      s'.Kept (inputQueue true) queue ∧ s'.queue.locked = false := by
    intro s s' op hfree hkept hempty hstep
    apply hkept.step (follows true) hfree _ hstep
    intro hop
    apply flushes_of_isEmpty hfree (hempty hop)
  apply StateMachine.always_iff_meets_of_always (I := fun s => s.queue.locked = false)
  · intro s op s' hfree hs hstep
    by_cases hempty : op = .flush → s.queue.queue.isEmpty = true
    · exact (hkept hfree hs hempty hstep).2
    · obtain ⟨rfl, hwaits⟩ := Classical.not_imp.mp hempty
      rw [step_flush_fails hs.noFault hfree (Bool.not_eq_true _ ▸ hwaits)] at hstep
      cases hstep
      exact hfree
  · intro s op hfree hs
    constructor
    · intro hempty s' hstep
      exact (hkept hfree hs hempty hstep).1
    · rintro h rfl
      by_contra hwaits
      rw [Bool.not_eq_true] at hwaits
      have hfault := (h _ (step_flush_fails hs.noFault hfree hwaits)).noFault
      contradiction
  · rfl
  · exact kept_initial (follows true)

end SerializedInputQueue

/-! ### The input queues -/

/-- The entries are kept in every run of `SimpleInputQueue`, and of `SerializedInputQueue` where
there are no threads.  With threads they are kept exactly in the runs in which no entry waits when
the queue is flushed. -/
theorem inputQueues_kept (ops : List InputQueueOperation) :
  Always (step SimpleInputQueue.inputQueue) (Kept SimpleInputQueue.inputQueue id) ops
    (initial SimpleInputQueue.inputQueue) ∧
  Always (step (SerializedInputQueue.inputQueue false))
    (Kept (SerializedInputQueue.inputQueue false) SerializedInputQueue.queue) ops
    (initial (SerializedInputQueue.inputQueue false)) ∧
  (Always (step (SerializedInputQueue.inputQueue true))
    (Kept (SerializedInputQueue.inputQueue true) SerializedInputQueue.queue) ops
    (initial (SerializedInputQueue.inputQueue true)) ↔
    Meets (step (SerializedInputQueue.inputQueue true))
      (fun s op => op = .flush → s.queue.queue.isEmpty = true) ops
      (initial (SerializedInputQueue.inputQueue true)))
  := by
  refine ⟨?_, ?_, ?_⟩
  · apply SimpleInputQueue.always_kept
  · apply SerializedInputQueue.always_kept_false
  · apply SerializedInputQueue.always_kept_true_iff

/-- An entry is put, and the queue is flushed. -/
theorem not_inputQueues_kept :
  ¬ ((∀ ops, Always (step SimpleInputQueue.inputQueue) (Kept SimpleInputQueue.inputQueue id) ops
      (initial SimpleInputQueue.inputQueue)) ∧
    ∀ threads ops, Always (step (SerializedInputQueue.inputQueue threads))
      (Kept (SerializedInputQueue.inputQueue threads) SerializedInputQueue.queue) ops
      (initial (SerializedInputQueue.inputQueue threads)))
  := by
  rintro ⟨-, h⟩
  have hrun : (StateMachine.run (step (SerializedInputQueue.inputQueue true))
      [.allocate, .put 0, .flush] (initial (SerializedInputQueue.inputQueue true))).map
      InputQueueClient.fault = some (some .relock) := rfl
  obtain ⟨s, hs, hfault⟩ := Option.map_eq_some_iff.mp hrun
  rw [((h true _).of_run hs).noFault] at hfault
  contradiction

end Plexil.Intfc
