import Plexil.Intfc.QueueEntry
import Plexil.Util.LinkedList
import Mathlib.Data.List.Perm.Basic

/-!
# The input queue

`SimpleInputQueue` is a linked list of the entries which wait and another one of the entries
which are free.  `SerializedInputQueue` has the same operations behind a lock.
-/

namespace Plexil.Intfc

/-- The entries which have been created, by their addresses, and the pointers of the queue. -/
structure SimpleInputQueue where
  heap : Nat → QueueEntry
  created : Nat
  queueGet : Option Nat
  queuePut : Option Nat
  freeList : Option Nat

namespace SimpleInputQueue

def new : SimpleInputQueue := ⟨fun _ => .new, 0, none, none, none⟩

def isEmpty (q : SimpleInputQueue) : Bool := q.queueGet.isNone

def modify (q : SimpleInputQueue) (p : Nat) (f : QueueEntry → QueueEntry) : SimpleInputQueue :=
  { q with heap := Function.update q.heap p (f (q.heap p)) }

def setNext (q : SimpleInputQueue) (p : Nat) (next : Option Nat) : SimpleInputQueue :=
  q.modify p fun e => { e with next := next }

def allocate (q : SimpleInputQueue) : SimpleInputQueue × Nat :=
  match q.freeList with
  | some p => ({ q with freeList := (q.heap p).next }, p)
  | none =>
    ({ q with heap := Function.update q.heap q.created .new, created := q.created + 1 }, q.created)

def release (q : SimpleInputQueue) (p : Nat) : SimpleInputQueue :=
  let q := (q.modify p QueueEntry.reset).setNext p q.freeList
  { q with freeList := some p }

def put (q : SimpleInputQueue) (p : Nat) : SimpleInputQueue :=
  let q := q.setNext p none
  let q :=
    match q.queuePut with
    | some last => q.setNext last (some p)
    | none => q
  { q with queuePut := some p, queueGet := q.queueGet.or (some p) }

/-- The entry at the head, if any.  It is an error when the last entry is not the one which
was put last. -/
def get (q : SimpleInputQueue) : Option (SimpleInputQueue × Option Nat) :=
  match q.queueGet with
  | none => some (q, none)
  | some p =>
    match (q.heap p).next with
    | some next => some ({ q with queueGet := some next }, some p)
    | none =>
      if q.queuePut = some p then some ({ q with queueGet := none, queuePut := none }, some p)
      else none

/-! ### The lists -/

/-- The entries which wait, the free ones and those in the hands of callers are all entries
which have been created, each once. -/
structure Represents (q : SimpleInputQueue) (waiting free hands : List Nat) : Prop where
  waitingChain : LinkedList.Chain (fun p => (q.heap p).next) q.queueGet waiting
  last : q.queuePut = waiting.getLast?
  freeChain : LinkedList.Chain (fun p => (q.heap p).next) q.freeList free
  created : (waiting ++ (free ++ hands)).Perm (List.range q.created)

variable {q : SimpleInputQueue} {waiting free hands : List Nat} {p r : Nat}

theorem new_represents :
  new.Represents [] [] []
  := ⟨rfl, rfl, rfl, .refl _⟩

theorem Represents.nodup (h : q.Represents waiting free hands) :
  (waiting ++ (free ++ hands)).Nodup
  := h.created.nodup_iff.mpr List.nodup_range

theorem Represents.notMem (h : q.Represents waiting free (p :: hands)) :
  p ∉ waiting ∧ p ∉ free ∧ p ∉ hands
  := by
  have hperm : (p :: (waiting ++ (free ++ hands))).Nodup := by
    apply h.nodup.perm
    rw [← List.append_assoc, ← List.append_assoc]
    exact List.perm_middle
  have := (List.nodup_cons.mp hperm).1
  simpa [not_or] using this

theorem next_setNext (q : SimpleInputQueue) (p r : Nat) (next : Option Nat) :
  ((q.setNext p next).heap r).next = if r = p then next else (q.heap r).next
  := by
  unfold setNext modify
  obtain rfl | hne := eq_or_ne r p
  · simp
  · simp [hne]

theorem contents_setNext (q : SimpleInputQueue) (p r : Nat) (next : Option Nat) :
  ((q.setNext p next).heap r).contents = (q.heap r).contents
  := by
  unfold setNext modify
  obtain rfl | hne := eq_or_ne r p
  · simp [QueueEntry.contents]
  · simp [hne]

/-- The entry which is allocated is blank if all free entries are. -/
theorem allocate_spec (h : q.Represents waiting free hands) :
  ∃ free', q.allocate.1.Represents waiting free' (q.allocate.2 :: hands) ∧
    (∀ r, r ≠ q.allocate.2 → q.allocate.1.heap r = q.heap r) ∧
    (∀ r, r ∈ free' → r ∈ free) ∧
    ((∀ r, r ∈ free → (q.heap r).IsBlank) → (q.allocate.1.heap q.allocate.2).IsBlank)
  := by
  unfold allocate
  cases free with
  | nil =>
    have hnone : q.freeList = none := h.freeChain
    have hfresh : ∀ r, r ∈ waiting → r ≠ q.created := by
      rintro r hr rfl
      have := h.created.mem_iff.mp (List.mem_append_left _ hr)
      simp at this
    rw [hnone]
    dsimp only
    refine ⟨[], ⟨?_, h.last, rfl, ?_⟩, ?_, by simp, ?_⟩
    · apply h.waitingChain.congr
      intro r hr
      dsimp only
      rw [Function.update_of_ne (hfresh r hr)]
    · rw [List.range_succ]
      apply List.Perm.trans _ (h.created.append_right _)
      simp only [List.nil_append, List.append_assoc]
      apply List.Perm.append_left
      apply List.perm_append_singleton _ _ |>.symm
    · intro r hr
      apply Function.update_of_ne hr
    · intro _
      rw [Function.update_self]
      rfl
  | cons p free =>
    obtain ⟨hsome, hfree⟩ := h.freeChain
    rw [hsome]
    refine ⟨free, ⟨h.waitingChain, h.last, hfree, ?_⟩, ?_, ?_, ?_⟩
    · apply List.Perm.trans _ h.created
      apply List.Perm.append_left
      apply List.perm_middle
    · intro r _
      rfl
    · intro r hr
      apply List.mem_cons_of_mem p hr
    · intro hblank
      apply hblank p List.mem_cons_self

/-- Writing to an entry in the hands of a caller does not change the lists. -/
theorem modify_spec (h : q.Represents waiting free (p :: hands)) (f : QueueEntry → QueueEntry) :
  (q.modify p f).Represents waiting free (p :: hands)
  := by
  obtain ⟨hwaiting, hfree, -⟩ := h.notMem
  refine ⟨?_, h.last, ?_, h.created⟩
  · apply h.waitingChain.congr
    intro r hr
    have hne : r ≠ p := by
      rintro rfl
      contradiction
    simp [modify, hne]
  · apply h.freeChain.congr
    intro r hr
    have hne : r ≠ p := by
      rintro rfl
      contradiction
    simp [modify, hne]

theorem put_fields (q : SimpleInputQueue) (p : Nat) :
  (q.put p).queueGet = q.queueGet.or (some p) ∧ (q.put p).queuePut = some p ∧
    (q.put p).freeList = q.freeList ∧ (q.put p).created = q.created
  := by
  unfold put
  dsimp only
  split <;> exact ⟨rfl, rfl, rfl, rfl⟩

theorem put_spec (h : q.Represents waiting free (p :: hands)) :
  (q.put p).Represents (waiting ++ [p]) free hands ∧
    ∀ r, ((q.put p).heap r).contents = (q.heap r).contents
  := by
  obtain ⟨hwaiting, hfree, -⟩ := h.notMem
  have hnodup := (List.nodup_append.mp h.nodup).1
  -- the pointers of the entries once `p` is last
  have hnext : ∀ r, ((q.put p).heap r).next =
      if q.queuePut = some r then some p else if r = p then none else (q.heap r).next := by
    intro r
    unfold put
    dsimp only
    split
    · rename_i last hlast
      have hlast : q.queuePut = some last := hlast
      rw [next_setNext, next_setNext, hlast]
      simp only [Option.some.injEq, eq_comm]
    · rename_i hnone
      have hnone : q.queuePut = none := hnone
      rw [next_setNext, hnone]
      rfl
  have hheap : ∀ r, r ≠ p → q.queuePut ≠ some r → ((q.put p).heap r).next = (q.heap r).next := by
    intro r hr hlast
    rw [hnext, if_neg hlast, if_neg hr]
  have hne : ∀ {r : Nat} {xs : List Nat}, p ∉ xs → r ∈ xs → r ≠ p := by
    rintro r xs hp hr rfl
    contradiction
  obtain ⟨hget, hput, hfreeList, hcreated⟩ := put_fields q p
  constructor
  constructor
  · rw [hget]
    apply h.waitingChain.concat hnodup
    · rw [hnext, if_neg, if_pos rfl]
      rw [h.last]
      intro hlast
      apply hwaiting (List.mem_of_getLast? hlast)
    · intro r hr
      rw [hnext, h.last, if_pos hr]
    · intro r hr hlast
      apply hheap r (hne hwaiting hr)
      rw [h.last]
      exact hlast
  · rw [List.getLast?_concat, hput]
  · rw [hfreeList]
    apply h.freeChain.congr
    intro r hr
    apply hheap r (hne hfree hr)
    rw [h.last]
    intro hlast
    have := (List.nodup_append.mp h.nodup).2.2 r (List.mem_of_getLast? hlast) r
      (List.mem_append_left _ hr)
    contradiction
  · rw [hcreated]
    apply List.Perm.trans _ h.created
    rw [List.append_assoc]
    apply List.Perm.append_left
    exact (List.perm_middle : (free ++ p :: hands).Perm (p :: (free ++ hands))).symm
  · intro r
    unfold put
    dsimp only
    split
    · rw [contents_setNext, contents_setNext]
    · rw [contents_setNext]

theorem get_spec_nil (h : q.Represents [] free hands) :
  q.get = some (q, none)
  := by
  have hnone : q.queueGet = none := h.waitingChain
  rw [get, hnone]

/-- The entry at the head of the queue is handed over. -/
theorem get_spec_cons (h : q.Represents (p :: waiting) free hands) :
  ∃ q', q.get = some (q', some p) ∧ q'.Represents waiting free (p :: hands) ∧ q'.heap = q.heap
  := by
  obtain ⟨hsome, hchain⟩ := h.waitingChain
  have hperm : (waiting ++ (free ++ p :: hands)).Perm (p :: waiting ++ (free ++ hands)) := by
    rw [← List.append_assoc, ← List.append_assoc]
    apply List.perm_middle
  unfold get
  rw [hsome]
  dsimp only
  cases waiting with
  | nil =>
    have hnext : (q.heap p).next = none := hchain
    have hlast : q.queuePut = some p := h.last
    rw [hnext, hlast]
    dsimp only
    rw [if_pos rfl]
    refine ⟨_, rfl, ⟨rfl, rfl, h.freeChain, hperm.trans h.created⟩, rfl⟩
  | cons r waiting =>
    have hnext : (q.heap p).next = some r := hchain.1
    rw [hnext]
    refine ⟨_, rfl, ⟨?_, ?_, h.freeChain, hperm.trans h.created⟩, rfl⟩
    · use rfl
      exact hchain.2
    · rw [← List.getLast?_cons_cons (a := p)]
      apply h.last

theorem release_spec (h : q.Represents waiting free (p :: hands)) :
  (q.release p).Represents waiting (p :: free) hands ∧
    ((q.release p).heap p).IsBlank ∧
    ∀ r, r ≠ p → (q.release p).heap r = q.heap r
  := by
  obtain ⟨hwaiting, hfree, -⟩ := h.notMem
  have hheap : ∀ r, r ≠ p → (q.release p).heap r = q.heap r := by
    intro r hr
    simp [release, setNext, modify, hr]
  have hne : ∀ {r : Nat} {xs : List Nat}, p ∉ xs → r ∈ xs → r ≠ p := by
    rintro r xs hp hr rfl
    contradiction
  refine ⟨⟨?_, h.last, ?_, ?_⟩, ?_, hheap⟩
  · apply h.waitingChain.congr
    intro r hr
    rw [hheap r (hne hwaiting hr)]
  · apply h.freeChain.cons
    · simp [release, setNext, modify]
    · intro r hr
      rw [hheap r (hne hfree hr)]
  · apply List.Perm.trans _ h.created
    apply List.Perm.append_left
    apply List.perm_middle.symm
  · simp [release, setNext, modify, QueueEntry.IsBlank, QueueEntry.contents, QueueEntry.reset,
      QueueEntry.new]

end SimpleInputQueue
end Plexil.Intfc
