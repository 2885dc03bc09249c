import Plexil.Utils.QueueSpec
import Plexil.Util.PriorityOrder
import Plexil.Util.StateMachine
import Mathlib.Data.List.Basic

/-!
# Runs of the queues of one type of items

The queues share the `next` pointers of the items.  In every run the pointers represent
lists which are disjoint, and an item which is in no queue has no next one.
-/

namespace Plexil.Utils

open LinkedQueue

/-- The pointers of all queues. -/
structure Queues (ι α : Type) where
  next : α → Option α
  head : ι → Option α
  tail : ι → Option α
  count : ι → Nat

namespace Queues

variable {ι α β : Type} [DecidableEq ι] [DecidableEq α] [LinearOrder β]

def new : Queues ι α := ⟨fun _ => none, fun _ => none, fun _ => none, fun _ => 0⟩

def queue (s : Queues ι α) (i : ι) : LinkedQueue α := ⟨s.next, s.head i, s.tail i, s.count i⟩

def setQueue (s : Queues ι α) (i : ι) (q : LinkedQueue α) : Queues ι α where
  next := q.next
  head := Function.update s.head i q.head
  tail := Function.update s.tail i q.tail
  count := Function.update s.count i q.count

/-- The operations of `LinkedQueue` and, with `insert`, of `PriorityQueue`. -/
inductive Op (α : Type) where
  | push (item : α)
  | pop
  | insertAfter (it : Option α) (item : α)
  | remove (item : α)
  | removeIf (pred : α → Bool)
  | clear
  | insert (item : α)

def Op.exec (priority : α → β) (fuel : Nat) : Op α → LinkedQueue α → Option (LinkedQueue α)
  | push item => LinkedQueue.push item
  | pop => LinkedQueue.pop
  | insertAfter it item => LinkedQueue.insertAfter it item
  | remove item => LinkedQueue.remove fuel item
  | removeIf pred => LinkedQueue.removeIf fuel pred
  | clear => LinkedQueue.clear fuel
  | insert item => LinkedQueue.insert priority fuel item

def step (priority : α → β) (fuel : Nat) (s : Queues ι α) (e : ι × Op α) :
    Option (Queues ι α) :=
  (e.2.exec priority fuel (s.queue e.1)).map (s.setQueue e.1)

/-! ### The lists -/

/-- The operations on lists, where `removal` says what `remove_if` does. -/
def Op.onList (priority : α → β) (removal : (α → Bool) → List α → List α) :
    Op α → List α → List α
  | push item, xs => xs ++ [item]
  | pop, xs => xs.tail
  | insertAfter none item, xs => xs ++ [item]
  | insertAfter (some x) item, xs => insertBehind x item xs
  | remove item, xs => xs.erase item
  | removeIf pred, xs => removal pred xs
  | clear, _ => []
  | insert item, xs => PriorityQueue.insert priority item xs

def listStep (priority : α → β) (removal : (α → Bool) → List α → List α)
    (lists : ι → List α) (e : ι × Op α) : ι → List α :=
  Function.update lists e.1 (e.2.onList priority removal (lists e.1))

/-- The item which is put in a queue, if any. -/
def Op.item? : Op α → Option α
  | push item | insertAfter _ item | insert item => some item
  | pop | remove _ | removeIf _ | clear => none

/-- Items are put in a queue when they are in none, and behind items of the queue. -/
def Proper (lists : ι → List α) (e : ι × Op α) : Prop :=
  (∀ item, e.2.item? = some item → ∀ i, item ∉ lists i) ∧
    ∀ x item, e.2 = .insertAfter (some x) item → x ∈ lists e.1

/-- No item is put behind the last one by means of an iterator. -/
def NotAtEnd (lists : ι → List α) (e : ι × Op α) : Prop :=
  ∀ x item, e.2 = .insertAfter (some x) item → (lists e.1).getLast? ≠ some x

/-- Each operation of a run is as `P` says, on the lists it works on. -/
def Throughout (next : (ι → List α) → ι × Op α → ι → List α)
    (P : (ι → List α) → ι × Op α → Prop) : (ι → List α) → List (ι × Op α) → Prop
  | _, [] => True
  | lists, e :: es => P lists e ∧ Throughout next P (next lists e) es

/-- The lists of the items of all queues. -/
structure Represents (s : Queues ι α) (lists : ι → List α) : Prop where
  queue : ∀ i, (s.queue i).Represents (lists i)
  disjoint : ∀ i j, i ≠ j → (lists i).Disjoint (lists j)
  free : ∀ x, (∀ i, x ∉ lists i) → s.next x = none

variable {priority : α → β} {removal : (α → Bool) → List α → List α} {fuel : Nat}
variable {s s' : Queues ι α} {lists : ι → List α} {e : ι × Op α} {es : List (ι × Op α)}

omit [DecidableEq ι] [DecidableEq α] [LinearOrder β] in
theorem new_represents :
  (new : Queues ι α).Represents fun _ => []
  where
  queue _ := ⟨rfl, rfl, rfl, List.nodup_nil⟩
  disjoint _ _ _ := List.disjoint_nil_left _
  free _ _ := rfl

omit [DecidableEq α] [LinearOrder β] in
@[simp]
theorem queue_setQueue_self (s : Queues ι α) (i : ι) (q : LinkedQueue α) :
  (s.setQueue i q).queue i = q
  := by
  unfold Queues.queue Queues.setQueue
  simp only [Function.update_self]

omit [DecidableEq α] [LinearOrder β] in
theorem queue_setQueue_of_ne (s : Queues ι α) {i j : ι} (hj : j ≠ i) (q : LinkedQueue α) :
  (s.setQueue i q).queue j = { s.queue j with next := q.next }
  := by
  unfold Queues.queue Queues.setQueue
  simp only [Function.update_of_ne hj]

/-- One queue becomes that of another list, whose new items were in no queue. -/
theorem Represents.setQueue (h : s.Represents lists) {i : ι} {q' : LinkedQueue α} {ys : List α}
    (hq : (s.queue i).Becomes (lists i) q' ys)
    (hnew : ∀ y ∈ ys, y ∈ lists i ∨ ∀ j, y ∉ lists j) :
  (s.setQueue i q').Represents (Function.update lists i ys)
  := by
  have hother : ∀ j, j ≠ i → ∀ y ∈ lists j, y ∉ ys ∧ y ∉ lists i := by
    intro j hj y hy
    have hnot : y ∉ lists i := fun hy' => h.disjoint j i hj hy hy'
    refine ⟨fun hmem => ?_, hnot⟩
    obtain hold | hnew := hnew y hmem
    · apply hnot hold
    · apply hnew j hy
  constructor
  · intro j
    obtain rfl | hj := eq_or_ne j i
    · rw [queue_setQueue_self, Function.update_self]
      exact hq.represents
    · rw [queue_setQueue_of_ne s hj, Function.update_of_ne hj]
      have hrep := h.queue j
      refine ⟨?_, hrep.tail, hrep.count, hrep.nodup⟩
      apply hrep.chain.congr
      intro y hy
      obtain ⟨hys, hxs⟩ := hother j hj y hy
      rw [hq.next y hys, if_neg hxs]
      rfl
  · intro j k hjk
    obtain rfl | hj := eq_or_ne j i
    · rw [Function.update_self, Function.update_of_ne hjk.symm]
      intro y hy hy'
      apply (hother k hjk.symm y hy').1 hy
    · rw [Function.update_of_ne hj]
      obtain rfl | hk := eq_or_ne k i
      · rw [Function.update_self]
        intro y hy hy'
        apply (hother j hj y hy).1 hy'
      · rw [Function.update_of_ne hk]
        exact h.disjoint j k hjk
  · intro x hx
    have hys : x ∉ ys := by simpa using hx i
    change q'.next x = none
    rw [hq.next x hys]
    split
    · rfl
    · rename_i hxs
      apply h.free x
      intro j
      obtain rfl | hj := eq_or_ne j i
      · exact hxs
      · simpa [Function.update_of_ne hj] using hx j

omit [DecidableEq ι] in
/-- The items of a queue after an operation are old ones and the item of the operation. -/
theorem Op.mem_onList {op : Op α} {xs : List α} {y : α}
    (hy : y ∈ op.onList priority List.eraseP xs) :
  y ∈ xs ∨ op.item? = some y
  := by
  cases op with
  | push item => simpa [Op.onList, Op.item?, eq_comm] using hy
  | pop => exact .inl (List.mem_of_mem_tail hy)
  | insertAfter it item =>
    cases it with
    | none => simpa [Op.onList, Op.item?, eq_comm] using hy
    | some x =>
      obtain hy | rfl := mem_insertBehind hy
      · exact .inl hy
      · exact .inr rfl
  | remove item => exact .inl (List.mem_of_mem_erase hy)
  | removeIf pred => exact .inl (List.mem_of_mem_eraseP hy)
  | clear => cases hy
  | insert item =>
    obtain rfl | hy := PriorityQueue.mem_insert.mp hy
    · exact .inr rfl
    · exact .inl hy

omit [DecidableEq ι] in
theorem Op.length_onList (op : Op α) (xs : List α) :
  (op.onList priority List.eraseP xs).length ≤ xs.length + 1
  := by
  cases op with
  | push item => simp [Op.onList]
  | pop => simp [Op.onList]; omega
  | insertAfter it item =>
    cases it with
    | none => simp [Op.onList]
    | some x => exact length_insertBehind_le x item xs
  | remove item => exact (List.erase_sublist.length_le).trans (Nat.le_succ _)
  | removeIf pred => exact (List.eraseP_sublist.length_le).trans (Nat.le_succ _)
  | clear => simp [Op.onList]
  | insert item => exact (PriorityQueue.insert_perm priority item xs).length_eq.le

variable (priority) in
theorem length_foldl_listStep (es : List (ι × Op α)) (lists : ι → List α) (i : ι) :
  (es.foldl (listStep priority List.eraseP) lists i).length ≤ (lists i).length + es.length
  := by
  induction es generalizing lists with
  | nil => rfl
  | cons e es ih =>
    have hstep : (listStep priority List.eraseP lists e i).length ≤ (lists i).length + 1 := by
      unfold listStep
      obtain rfl | hne := eq_or_ne i e.1
      · rw [Function.update_self]
        apply Op.length_onList
      · rw [Function.update_of_ne hne]
        omega
    have hrest := ih (listStep priority List.eraseP lists e)
    rw [List.foldl_cons, List.length_cons]
    omega

variable (priority) in
omit [DecidableEq ι] in
/-- Each operation on the pointers is the operation on the list. -/
theorem Op.exec_spec {op : Op α} {q : LinkedQueue α} {xs : List α} (h : q.Represents xs)
    (hitem : ∀ item, op.item? = some item → item ∉ xs ∧ q.next item = none)
    (hmem : ∀ x item, op = .insertAfter (some x) item → x ∈ xs)
    (hend : ∀ x item, op = .insertAfter (some x) item → xs.getLast? ≠ some x)
    (hfuel : xs.length < fuel) :
  ∃ q', op.exec priority fuel q = some q' ∧
    q.Becomes xs q' (op.onList priority List.eraseP xs)
  := by
  cases op with
  | push item =>
    obtain ⟨hnot, hnext⟩ := hitem item rfl
    exact push_spec h hnot hnext
  | pop => exact pop_spec h
  | insertAfter it item =>
    obtain ⟨hnot, hnext⟩ := hitem item rfl
    cases it with
    | none => exact push_spec h hnot hnext
    | some x => exact insertAfter_spec h hnot (hmem x item rfl) (hend x item rfl)
  | remove item => exact remove_spec h item hfuel
  | removeIf pred => exact removeIf_spec h pred hfuel
  | clear => exact clear_spec h hfuel
  | insert item =>
    obtain ⟨hnot, hnext⟩ := hitem item rfl
    exact insert_spec h hnot hnext hfuel

/-- The step lemma. -/
theorem Represents.step (priority : α → β) (h : s.Represents lists) (hproper : Proper lists e)
    (hend : NotAtEnd lists e) (hfuel : (lists e.1).length < fuel) :
  ∃ s', step priority fuel s e = some s' ∧
    s'.Represents (listStep priority List.eraseP lists e)
  := by
  have hitem : ∀ item, e.2.item? = some item →
      item ∉ lists e.1 ∧ (s.queue e.1).next item = none := by
    intro item hop
    have hnot := hproper.1 item hop
    exact ⟨hnot e.1, h.free item hnot⟩
  obtain ⟨q', hexec, hq⟩ :=
    Op.exec_spec priority (h.queue e.1) hitem hproper.2 hend hfuel
  refine ⟨s.setQueue e.1 q', ?_, ?_⟩
  · unfold Queues.step
    rw [hexec, Option.map_some]
  · apply h.setQueue hq
    intro y hy
    obtain hy | hop := Op.mem_onList hy
    · exact .inl hy
    · exact .inr (hproper.1 y hop)

/-- The run lemma. -/
theorem Represents.run (h : s.Represents lists)
    (hproper : Throughout (listStep priority List.eraseP) Proper lists es)
    (hend : Throughout (listStep priority List.eraseP) NotAtEnd lists es)
    (hfuel : ∀ i, (lists i).length + es.length < fuel) :
  ∃ s', StateMachine.run (Queues.step priority fuel) es s = some s' ∧
    s'.Represents (es.foldl (listStep priority List.eraseP) lists)
  := by
  induction es generalizing s lists with
  | nil => exact ⟨s, rfl, h⟩
  | cons e es ih =>
    have hlength : (lists e.1).length < fuel := by
      have := hfuel e.1
      omega
    obtain ⟨t, ht, hrep⟩ := h.step priority hproper.1 hend.1 hlength
    have hfuel' : ∀ i, (listStep priority List.eraseP lists e i).length + es.length < fuel := by
      intro i
      have hi := hfuel i
      have hstep := length_foldl_listStep priority [e] lists i
      rw [List.foldl_cons, List.foldl_nil] at hstep
      simp only [List.length_cons, List.length_nil] at hi hstep
      omega
    obtain ⟨s', hs', hrep'⟩ := ih hrep hproper.2 hend.2 hfuel'
    refine ⟨s', ?_, hrep'⟩
    unfold StateMachine.run
    rw [ht]
    exact hs'

/-! ### Queues -/

/-- From empty queues every sequence of operations goes through, and the pointers represent
the lists of the same operations. -/
theorem queueRun_represents (priority : α → β) (es : List (ι × Op α)) (fuel : Nat)
    (hproper : Throughout (listStep priority List.eraseP) Proper (fun _ => []) es)
    (hend : Throughout (listStep priority List.eraseP) NotAtEnd (fun _ => []) es)
    (hfuel : es.length < fuel) :
  ∃ s', StateMachine.run (step priority fuel) es (new : Queues ι α) = some s' ∧
    s'.Represents (es.foldl (listStep priority List.eraseP) fun _ => [])
  := by
  apply new_represents.run hproper hend
  intro i
  rw [List.length_nil]
  omega

theorem queueRun_represents_three :
  ∃ s', StateMachine.run (step (id : Nat → Nat) 5)
      [((), .push 0), ((), .push 1), ((), .insertAfter (some 0) 2), ((), .removeIf (0 < ·))] new
        = some s' ∧
    s'.Represents ([((), .push 0), ((), .push 1), ((), .insertAfter (some 0) 2),
      ((), .removeIf (0 < ·))].foldl (listStep id List.eraseP) fun _ => [])
  := by
  apply queueRun_represents id
  · simp [Throughout, Proper, Op.item?, listStep, Op.onList]
  · simp [Throughout, NotAtEnd, listStep, Op.onList]
  · decide

/-- `remove_if` removes only the first item of those which satisfy the predicate, and after
an item has been put behind the last one by means of an iterator the queue has no tail. -/
theorem queueRun_diverges :
  (∃ s, StateMachine.run (step (id : Nat → Nat) 5)
      [((), .push 0), ((), .push 1), ((), .removeIf fun _ => true)] new = some s ∧
    ¬ s.Represents ([((), .push 0), ((), .push 1), ((), .removeIf fun _ => true)].foldl
      (listStep id fun pred xs => xs.filter fun x => ¬ pred x) fun _ => [])) ∧
  (∃ s, StateMachine.run (step (id : Nat → Nat) 5)
      [((), .push 0), ((), .insertAfter (some 0) 1)] new = some s ∧
    ¬ s.Represents ([((), .push 0), ((), .insertAfter (some 0) 1)].foldl
      (listStep id fun pred xs => xs.filter fun x => ¬ pred x) fun _ => []))
  := by
  constructor
  · refine ⟨_, rfl, fun h => ?_⟩
    have hcount := (h.queue ()).count
    revert hcount
    decide
  · refine ⟨_, rfl, fun h => ?_⟩
    have htail := (h.queue ()).tail
    revert htail
    decide

/-! ### Priority queues -/

/-- The items of a queue in the order in which they came: `pop` takes the first one of the
least priority value. -/
def Op.arrive (priority : α → β) : Op α → List α → List α
  | insert item, arrived => arrived ++ [item]
  | pop, arrived =>
    match arrived.argmin priority with
    | none => arrived
    | some x => arrived.erase x
  | remove item, arrived => arrived.erase item
  | op, arrived => op.onList priority List.eraseP arrived

def arriveStep (priority : α → β) (arrived : ι → List α) (e : ι × Op α) : ι → List α :=
  Function.update arrived e.1 (e.2.arrive priority (arrived e.1))

/-- The operations of `PriorityQueue`. -/
def Op.OfPriorityQueue : Op α → Prop
  | insert _ | pop | remove _ => True
  | push _ | insertAfter _ _ | removeIf _ | clear => False

omit [DecidableEq ι] in
/-- Each operation of a priority queue keeps the items in order. -/
theorem Op.inOrder {op : Op α} (hop : op.OfPriorityQueue) {xs arrived : List α}
    (h : PriorityQueue.InOrder priority xs arrived) :
  PriorityQueue.InOrder priority (op.onList priority List.eraseP xs) (op.arrive priority arrived)
  := by
  cases op with
  | insert item => exact h.insert item
  | pop =>
    cases xs with
    | nil =>
      obtain rfl : arrived = [] := List.nil_perm.mp h.perm
      exact h
    | cons x xs =>
      have herase := h.erase x
      rw [List.erase_cons_head] at herase
      have hargmin : Op.pop.arrive priority arrived = arrived.erase x := by
        unfold Op.arrive
        simp only [h.argmin]
      rw [hargmin]
      exact herase
  | remove item => exact h.erase item
  | push item => cases hop
  | insertAfter it item => cases hop
  | removeIf pred => cases hop
  | clear => cases hop

theorem foldl_inOrder (hops : ∀ e ∈ es, e.2.OfPriorityQueue) {arrived : ι → List α}
    (h : ∀ i, PriorityQueue.InOrder priority (lists i) (arrived i)) (i : ι) :
  PriorityQueue.InOrder priority (es.foldl (listStep priority List.eraseP) lists i)
    (es.foldl (arriveStep priority) arrived i)
  := by
  induction es generalizing lists arrived with
  | nil => exact h i
  | cons e es ih =>
    apply ih
    · intro e' he'
      apply hops e' (List.mem_cons_of_mem e he')
    · intro j
      unfold listStep arriveStep
      obtain rfl | hne := eq_or_ne j e.1
      · rw [Function.update_self, Function.update_self]
        exact Op.inOrder (hops e List.mem_cons_self) (h e.1)
      · rw [Function.update_of_ne hne, Function.update_of_ne hne]
        exact h j

theorem notAtEnd_of_ofPriorityQueue (hops : ∀ e ∈ es, e.2.OfPriorityQueue) :
  Throughout (listStep priority List.eraseP) NotAtEnd lists es
  := by
  induction es generalizing lists with
  | nil => trivial
  | cons e es ih =>
    constructor
    · intro x item hop
      have hpriority := hops e List.mem_cons_self
      rw [hop] at hpriority
      cases hpriority
    · apply ih
      intro e' he'
      apply hops e' (List.mem_cons_of_mem e he')

/-- In every sequence of insertions and removals each priority queue is in the order of the
priority values, with the items of one value in the order of insertion, and holds each item
once; `front_count` is the number of items at the front of the first one's value. -/
theorem priorityQueue_inOrder (priority : α → β) (es : List (ι × Op α)) (fuel : Nat)
    (hops : ∀ e ∈ es, e.2.OfPriorityQueue)
    (hproper : Throughout (listStep priority List.eraseP) Proper (fun _ => []) es)
    (hfuel : es.length < fuel) (i : ι) :
  ∃ s' xs, StateMachine.run (step priority fuel) es (new : Queues ι α) = some s' ∧
    (s'.queue i).Represents xs ∧
    (xs.Pairwise fun x y => priority x ≤ priority y) ∧
    (∀ p, xs.filter (priority · = p)
      = (es.foldl (arriveStep priority) (fun _ => []) i).filter (priority · = p)) ∧
    xs.Perm (es.foldl (arriveStep priority) (fun _ => []) i) ∧ xs.Nodup ∧
    (s'.queue i).frontCount priority fuel
      = some (xs.takeWhile fun x => xs.head?.map priority = some (priority x)).length
  := by
  have hempty : ∀ _ : ι, ([] : List α).length + es.length < fuel := by
    intro _
    rw [List.length_nil]
    omega
  obtain ⟨s', hrun, hrep⟩ :=
    new_represents.run hproper (notAtEnd_of_ofPriorityQueue hops) hempty
  have horder : PriorityQueue.InOrder priority
      (es.foldl (listStep priority List.eraseP) (fun _ => []) i)
      (es.foldl (arriveStep priority) (fun _ => []) i) :=
    foldl_inOrder hops (fun _ => ⟨List.Pairwise.nil, fun _ => rfl⟩) i
  have hlength :
      (es.foldl (listStep priority List.eraseP) (fun _ => []) i).length < fuel := by
    have hle := length_foldl_listStep priority es (fun _ => []) i
    rw [List.length_nil] at hle
    omega
  have hcount := frontCount_spec (hrep.queue i) horder.ordered hlength
  refine ⟨s', _, hrun, hrep.queue i, horder.ordered, horder.filter_eq, horder.perm,
    (hrep.queue i).nodup, ?_⟩
  rw [hcount]
  generalize es.foldl (listStep priority List.eraseP) (fun _ => []) i = xs
  cases xs with
  | nil => rfl
  | cons x xs =>
    unfold PriorityQueue.frontCount
    simp only [List.head?_cons, Option.map_some, Option.some.injEq, eq_comm]

theorem priorityQueue_inOrder_two :
  ∃ s' xs, StateMachine.run (step (fun x : Nat => x / 10) 5)
      [((), .insert 20), ((), .insert 10), ((), .insert 11), ((), .pop)] new = some s' ∧
    (s'.queue ()).Represents xs ∧
    (xs.Pairwise fun x y => x / 10 ≤ y / 10) ∧
    (∀ p, xs.filter (fun x => decide (x / 10 = p))
      = ([((), Op.insert 20), ((), .insert 10), ((), .insert 11), ((), .pop)].foldl
        (arriveStep fun x => x / 10) (fun _ => []) ()).filter fun x => decide (x / 10 = p)) ∧
    xs.Perm ([((), Op.insert 20), ((), .insert 10), ((), .insert 11), ((), .pop)].foldl
        (arriveStep fun x => x / 10) (fun _ => []) ()) ∧ xs.Nodup ∧
    (s'.queue ()).frontCount (fun x => x / 10) 5
      = some (xs.takeWhile fun x => xs.head?.map (· / 10) = some (x / 10)).length
  := by
  apply priorityQueue_inOrder (fun x => x / 10)
  · simp [Op.OfPriorityQueue]
  · simp [Throughout, Proper, Op.item?, listStep, Op.onList, PriorityQueue.insert]
  · decide

end Queues

end Plexil.Utils
