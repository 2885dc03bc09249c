import Plexil.Utils.LinkedQueue

/-!
# The operations of a queue as operations on lists

A queue represents the list of the items on its chain.  Each operation on the pointers is
an operation on that list; the items which are taken off the list have no next one, and the
pointers of all items outside the list stay as they are.
-/

namespace Plexil.Utils.LinkedQueue

open LinkedList

variable {α : Type} [DecidableEq α] {q q' : LinkedQueue α} {xs ys front rest : List α}
variable {x item : α} {stop v : Option α}

structure Represents (q : LinkedQueue α) (xs : List α) : Prop where
  chain : Chain q.next q.head xs
  tail : q.tail = xs.getLast?
  count : q.count = xs.length
  nodup : xs.Nodup

/-- The queue of the list `xs` becomes one of the list `ys`. -/
structure Becomes (q : LinkedQueue α) (xs : List α) (q' : LinkedQueue α) (ys : List α) :
    Prop where
  represents : q'.Represents ys
  next : ∀ y, y ∉ ys → q'.next y = if y ∈ xs then none else q.next y

omit [DecidableEq α] in
theorem Represents.head_eq (h : q.Represents xs) :
  q.head = xs.head?
  := h.chain.start_eq

@[simp]
theorem setNext_next (q : LinkedQueue α) (item : α) (p : Option α) :
  (q.setNext item p).next = Function.update q.next item p
  := rfl

@[simp]
theorem setNext_head (q : LinkedQueue α) (item : α) (p : Option α) :
  (q.setNext item p).head = q.head
  := rfl

@[simp]
theorem setNext_tail (q : LinkedQueue α) (item : α) (p : Option α) :
  (q.setNext item p).tail = q.tail
  := rfl

@[simp]
theorem setNext_count (q : LinkedQueue α) (item : α) (p : Option α) :
  (q.setNext item p).count = q.count
  := rfl

/-! ### Writing behind a part of the list -/

/-- The place behind the items `front` at the head of the queue. -/
def Place.after (front : List α) : Place α :=
  match front.getLast? with
  | none => .head
  | some x => .nextPtr x

omit [DecidableEq α] in
@[simp]
theorem Place.after_concat (front : List α) (x : α) :
  Place.after (front ++ [x]) = .nextPtr x
  := by
  simp [Place.after]

@[simp]
theorem write_tail (p : Option α) (q : LinkedQueue α) (place : Place α) :
  (q.write p place).tail = q.tail
  := by
  cases place <;> rfl

@[simp]
theorem write_count (p : Option α) (q : LinkedQueue α) (place : Place α) :
  (q.write p place).count = q.count
  := by
  cases place <;> rfl

theorem write_segment (h : Segment q.next q.head front stop) (hnodup : front.Nodup)
    (v : Option α) :
  Segment (q.write v (.after front)).next (q.write v (.after front)).head front v
  := by
  obtain rfl | ⟨init, last, rfl⟩ := front.eq_nil_or_concat'
  · rfl
  · have hlast : last ∉ init := by
      rw [List.nodup_append_comm] at hnodup
      exact (List.nodup_cons.mp hnodup).1
    rw [Place.after_concat]
    exact h.write_last hlast v

theorem write_next (hx : x ∉ front) (v : Option α) :
  (q.write v (.after front)).next x = q.next x
  := by
  obtain rfl | ⟨init, last, rfl⟩ := front.eq_nil_or_concat'
  · rfl
  · rw [Place.after_concat]
    apply Function.update_of_ne
    rintro rfl
    simp at hx

/-- An item is put between two parts of the list. -/
theorem splice_in (hbefore : Segment q.next q.head front stop) (hafter : Chain q.next stop rest)
    (hnodup : (front ++ rest).Nodup) (hitem : item ∉ front ++ rest) :
  Chain ((q.setNext item stop).write (some item) (.after front)).next
      ((q.setNext item stop).write (some item) (.after front)).head (front ++ item :: rest) ∧
    ∀ y, y ∉ front ++ item :: rest →
      ((q.setNext item stop).write (some item) (.after front)).next y = q.next y
  := by
  obtain ⟨hfront, -, hdisjoint⟩ := List.nodup_append.mp hnodup
  obtain ⟨hnotBefore, hnotAfter⟩ := List.mem_append.not.mp hitem |> not_or.mp
  constructor
  · rw [chain_append]
    use some item
    constructor
    · have hset : Segment (q.setNext item stop).next (q.setNext item stop).head front stop :=
        hbefore.update hnotBefore stop
      exact write_segment hset hfront (some item)
    · rw [chain_cons]
      refine ⟨rfl, ?_⟩
      rw [write_next hnotBefore, setNext_next, Function.update_self]
      apply hafter.congr
      intro y hy
      have hne : y ≠ item := by
        rintro rfl
        apply hnotAfter hy
      rw [write_next (fun hy' => hdisjoint y hy' y hy rfl), setNext_next,
        Function.update_of_ne hne]
  · intro y hy
    simp only [List.mem_append, List.mem_cons, not_or] at hy
    rw [write_next hy.1, setNext_next, Function.update_of_ne hy.2.1]

/-- The item between two parts of the list is taken out. -/
theorem splice_out (hbefore : Segment q.next q.head front stop)
    (hafter : Chain q.next stop (item :: rest)) (hnodup : (front ++ item :: rest).Nodup) :
  Chain ((q.write (q.next item) (.after front)).setNext item none).next
      ((q.write (q.next item) (.after front)).setNext item none).head (front ++ rest) ∧
    ∀ y, y ∉ front ++ rest →
      ((q.write (q.next item) (.after front)).setNext item none).next y
        = if y ∈ front ++ item :: rest then none else q.next y
  := by
  obtain ⟨hfront, hback, hdisjoint⟩ := List.nodup_append.mp hnodup
  obtain ⟨hnotAfter, hback⟩ := List.nodup_cons.mp hback
  have hnotBefore : item ∉ front := by
    intro hitem
    apply hdisjoint item hitem item List.mem_cons_self rfl
  constructor
  · rw [chain_append]
    use q.next item
    rw [setNext_next]
    constructor
    · apply Segment.update _ hnotBefore
      apply write_segment hbefore hfront
    · apply Chain.update _ hnotAfter
      apply hafter.2.congr
      intro y hy
      apply write_next
      intro hy'
      apply hdisjoint y hy' y (List.mem_cons_of_mem item hy) rfl
  · intro y hy
    rw [setNext_next]
    obtain rfl | hne := eq_or_ne y item
    · rw [Function.update_self, if_pos]
      simp
    · simp only [List.mem_append, not_or] at hy
      rw [Function.update_of_ne hne, write_next hy.1, if_neg]
      simp [hy, hne]

/-! ### The operations -/

/-- `insert_after` on lists: the item is put directly behind `x`. -/
def insertBehind (x item : α) : List α → List α
  | [] => []
  | y :: ys => if y = x then y :: item :: ys else y :: insertBehind x item ys

theorem insertBehind_append (hx : x ∉ front) :
  insertBehind x item (front ++ x :: rest) = front ++ x :: item :: rest
  := by
  induction front with
  | nil => simp [insertBehind]
  | cons y ys ih =>
    obtain ⟨hne, hx⟩ := List.mem_cons.not.mp hx |> not_or.mp
    rw [List.cons_append, insertBehind, if_neg (Ne.symm hne), ih hx, List.cons_append]

theorem mem_insertBehind {y : α} (hy : y ∈ insertBehind x item xs) :
  y ∈ xs ∨ y = item
  := by
  induction xs with
  | nil => cases hy
  | cons z zs ih =>
    unfold insertBehind at hy
    split at hy
    · simp only [List.mem_cons] at hy ⊢
      tauto
    · obtain rfl | hy := List.mem_cons.mp hy
      · simp
      · have := ih hy
        simp only [List.mem_cons]
        tauto

theorem length_insertBehind_le (x item : α) (xs : List α) :
  (insertBehind x item xs).length ≤ xs.length + 1
  := by
  induction xs with
  | nil => simp [insertBehind]
  | cons y ys ih =>
    unfold insertBehind
    split
    · rfl
    · exact Nat.succ_le_succ ih

/-- The item is put at the place behind `front`, and the tail is the last item again. -/
theorem Represents.splice_in (h : q.Represents (front ++ rest))
    (hbefore : Segment q.next q.head front stop) (hafter : Chain q.next stop rest)
    (hitem : item ∉ front ++ rest) :
  q.Becomes (front ++ rest)
    { (q.setNext item stop).write (some item) (.after front) with
      tail := (front ++ item :: rest).getLast?, count := q.count + 1 } (front ++ item :: rest)
  := by
  obtain ⟨hchain, hnext⟩ := LinkedQueue.splice_in hbefore hafter h.nodup hitem
  constructor
  · refine ⟨hchain, rfl, ?_, ?_⟩
    · simp [h.count, Nat.add_assoc]
    · apply List.nodup_middle.mpr
      exact List.nodup_cons.mpr ⟨hitem, h.nodup⟩
  · intro y hy
    rw [if_neg]
    · exact hnext y hy
    · intro hmem
      apply hy
      simp only [List.mem_append, List.mem_cons] at hmem ⊢
      tauto

/-- The item behind `front` is taken out, and the tail is the last item again. -/
theorem Represents.splice_out (h : q.Represents (front ++ item :: rest))
    (hbefore : Segment q.next q.head front stop) (hafter : Chain q.next stop (item :: rest)) :
  q.Becomes (front ++ item :: rest)
    { (q.write (q.next item) (.after front)).setNext item none with
      tail := (front ++ rest).getLast?, count := q.count - 1 } (front ++ rest)
  := by
  obtain ⟨hchain, hnext⟩ := LinkedQueue.splice_out hbefore hafter h.nodup
  constructor
  · refine ⟨hchain, rfl, ?_, ?_⟩
    · simp [h.count]
    · exact (List.nodup_cons.mp (List.nodup_middle.mp h.nodup)).2
  · exact hnext

/-- The tail is corrected by the comparison with the item which is taken out. -/
theorem Represents.tail_splice_out (h : q.Represents (front ++ item :: rest)) :
  (if q.tail = some item then front.getLast? else q.tail) = (front ++ rest).getLast?
  := by
  rw [h.tail]
  cases rest with
  | nil => simp
  | cons y ys =>
    have hlast : (front ++ item :: y :: ys).getLast? = (y :: ys).getLast? := by
      simp [List.getLast?_append, List.getLast?_cons]
    have hne : (y :: ys).getLast? ≠ some item := by
      intro heq
      have hnodup := (List.nodup_cons.mp (List.nodup_middle.mp h.nodup)).1
      apply hnodup
      exact List.mem_append_right front (List.mem_of_getLast? heq)
    rw [hlast, if_neg hne]
    simp [List.getLast?_append, List.getLast?_cons]

theorem push_spec (h : q.Represents xs) (hitem : item ∉ xs) (hnext : q.next item = none) :
  ∃ q', q.push item = some q' ∧ q.Becomes xs q' (xs ++ [item])
  := by
  obtain ⟨stop, hbefore, hafter⟩ :=
    chain_append.mp (by rw [List.append_nil]; exact h.chain : Chain q.next q.head (xs ++ []))
  have hstop : stop = none := hafter
  subst hstop
  rw [← List.append_nil xs] at h hitem
  have hbecomes := h.splice_in hbefore hafter hitem
  rw [List.append_nil] at h hbecomes
  unfold push
  rw [hnext]
  obtain rfl | ⟨init, last, rfl⟩ := xs.eq_nil_or_concat'
  · rw [h.head_eq]
    exact ⟨_, rfl, hbecomes⟩
  · have hhead : ∃ y, q.head = some y := by
      rw [h.head_eq]
      cases init <;> simp
    obtain ⟨y, hhead⟩ := hhead
    rw [hhead, h.tail, List.getLast?_concat]
    refine ⟨_, rfl, ?_⟩
    rw [Place.after_concat, List.getLast?_concat] at hbecomes
    exact hbecomes

theorem pop_spec (h : q.Represents xs) :
  ∃ q', q.pop = some q' ∧ q.Becomes xs q' xs.tail
  := by
  unfold pop
  cases xs with
  | nil =>
    rw [h.head_eq]
    exact ⟨q, rfl, h, fun y _ => by simp⟩
  | cons x xs =>
    have hhead : q.head = some x := h.chain.1
    have hfront : q.Represents ([] ++ x :: xs) := h
    have hbecomes := hfront.splice_out rfl h.chain
    have hnext : q.next x = xs.head? := h.chain.2.start_eq
    cases xs with
    | nil =>
      have htail : q.tail = some x := h.tail
      rw [hhead, htail]
      dsimp only
      rw [if_pos rfl]
      rw [hnext] at hbecomes
      exact ⟨_, rfl, hbecomes⟩
    | cons y ys =>
      have htail : q.tail = (y :: ys).getLast? := by rw [h.tail, List.getLast?_cons_cons]
      have hne : some x ≠ q.tail := by
        intro heq
        apply (List.nodup_cons.mp h.nodup).1
        rw [htail] at heq
        exact List.mem_of_getLast? heq.symm
      rw [hhead]
      dsimp only
      rw [if_neg hne, hnext]
      refine ⟨_, rfl, ?_⟩
      rw [hnext] at hbecomes
      simp only [List.nil_append, ← htail] at hbecomes
      exact hbecomes

/-- The item behind which another one is put must not be the last one. -/
theorem insertAfter_spec (h : q.Represents xs) (hitem : item ∉ xs) (hx : x ∈ xs)
    (hlast : xs.getLast? ≠ some x) :
  ∃ q', q.insertAfter (some x) item = some q' ∧ q.Becomes xs q' (insertBehind x item xs)
  := by
  obtain ⟨front, rest, rfl⟩ := List.append_of_mem hx
  have hfront : x ∉ front := by
    intro hmem
    apply (List.nodup_append.mp h.nodup).2.2 x hmem x List.mem_cons_self rfl
  have hchain := h.chain
  rw [List.append_cons, chain_append] at hchain
  obtain ⟨stop, hbefore, hafter⟩ := hchain
  have hstop : q.next x = stop := (segment_concat.mp hbefore).2
  have hrep : q.Represents ((front ++ [x]) ++ rest) := by rwa [← List.append_cons]
  have hbecomes := hrep.splice_in hbefore hafter (by rwa [← List.append_cons])
  rw [insertBehind_append hfront]
  rw [List.append_assoc, List.singleton_append, List.append_assoc, List.singleton_append,
    Place.after_concat] at hbecomes
  refine ⟨_, rfl, ?_⟩
  have hrest : ∃ y ys, rest = y :: ys := by
    cases rest with
    | nil => simp at hlast
    | cons y ys => exact ⟨y, ys, rfl⟩
  obtain ⟨y, ys, rfl⟩ := hrest
  obtain ⟨rfl, -⟩ := hafter
  have hne : item ≠ x := by
    rintro rfl
    apply hitem hx
  have htail : q.tail = (front ++ x :: item :: y :: ys).getLast? := by
    rw [h.tail]
    simp [List.getLast?_append, List.getLast?_cons_cons]
  rw [hstop, if_neg (by simp), htail]
  have hcomm : (q.setNext x (some item)).setNext item (some y)
      = (q.setNext item (some y)).setNext x (some item) := by
    simp only [setNext, Function.update_comm hne]
  rw [hcomm]
  exact hbecomes

/-- The loop of `remove` and `remove_if`, behind the items `front`. -/
theorem unlink_spec (h : q.Represents (front ++ rest)) {pred : α → Bool}
    (hbefore : Segment q.next q.head front stop) (hafter : Chain q.next stop rest)
    (hpred : ∀ y ∈ front, pred y = false) {fuel : Nat} (hfuel : rest.length < fuel) :
  ∃ q', q.unlink pred fuel front.getLast? (.after front) stop = some (rest.find? pred, q') ∧
    q.Becomes (front ++ rest) q' ((front ++ rest).eraseP pred)
  := by
  induction rest generalizing front stop fuel with
  | nil =>
    have hstop : stop = none := hafter
    subst hstop
    obtain _ | fuel := fuel
    · cases hfuel
    have hall : (front ++ []).eraseP pred = front ++ [] := by
      apply List.eraseP_of_forall_not
      intro y hy
      rw [List.append_nil] at hy
      rw [hpred y hy]
      simp
    rw [hall]
    exact ⟨q, rfl, h, fun y hy => by rw [if_neg hy]⟩
  | cons cur rest ih =>
    obtain ⟨rfl, hcur⟩ := hafter
    obtain _ | fuel := fuel
    · cases hfuel
    unfold unlink
    cases hp : pred cur with
    | true =>
      have hbecomes := h.splice_out hbefore ⟨rfl, hcur⟩
      have herase : (front ++ cur :: rest).eraseP pred = front ++ rest := by
        rw [List.eraseP_append_right _ (by simpa using hpred), List.eraseP_cons_of_pos hp]
      have htail : (if q.tail = some cur then front.getLast? else q.tail)
          = (front ++ rest).getLast? := by
        apply h.tail_splice_out
      rw [herase, List.find?_cons_of_pos hp]
      simp only [if_true, htail]
      exact ⟨_, rfl, hbecomes⟩
    | false =>
      have happend : front ++ cur :: rest = (front ++ [cur]) ++ rest := List.append_cons ..
      have hfind : (cur :: rest).find? pred = rest.find? pred :=
        List.find?_cons_of_neg (by simp [hp])
      rw [happend] at h ⊢
      have hrest := ih h (segment_concat.mpr ⟨hbefore, rfl⟩) hcur
        (by simpa [or_imp, forall_and, hp] using hpred) (Nat.lt_of_succ_lt_succ hfuel)
      rw [List.getLast?_concat, Place.after_concat] at hrest
      rw [hfind]
      exact hrest

theorem removeIf_spec (h : q.Represents xs) (pred : α → Bool) {fuel : Nat}
    (hfuel : xs.length < fuel) :
  ∃ q', q.removeIf fuel pred = some q' ∧ q.Becomes xs q' (xs.eraseP pred)
  := by
  have hfront : q.Represents ([] ++ xs) := h
  obtain ⟨q', heq, hbecomes⟩ :=
    unlink_spec hfront rfl h.chain (fun _ hy => absurd hy List.not_mem_nil) hfuel
  refine ⟨q', ?_, hbecomes⟩
  unfold removeIf
  exact congrArg (Option.map (·.2)) heq

theorem remove_spec (h : q.Represents xs) (item : α) {fuel : Nat} (hfuel : xs.length < fuel) :
  ∃ q', q.remove fuel item = some q' ∧ q.Becomes xs q' (xs.erase item)
  := by
  obtain ⟨q', heq, hbecomes⟩ := removeIf_spec h (· = item) hfuel
  have herase : xs.eraseP (· = item) = xs.erase item := (List.erase_eq_eraseP' item xs).symm
  rw [herase] at hbecomes
  unfold remove
  split
  · rename_i hnone
    rw [h.head_eq, List.head?_eq_none_iff] at hnone
    subst hnone
    exact ⟨q, rfl, h, fun y _ => by rw [if_neg List.not_mem_nil]⟩
  · exact ⟨q', heq, hbecomes⟩

theorem clearFrom_spec {start : Option α} (h : Chain q.next start xs) (hnodup : xs.Nodup)
    {fuel : Nat} (hfuel : xs.length < fuel) :
  ∃ q', q.clearFrom fuel start = some q' ∧ ∀ y, q'.next y = if y ∈ xs then none else q.next y
  := by
  induction xs generalizing q start fuel with
  | nil =>
    have hstart : start = none := h
    subst hstart
    obtain _ | fuel := fuel
    · cases hfuel
    exact ⟨q, rfl, fun y => by rw [if_neg List.not_mem_nil]⟩
  | cons x xs ih =>
    obtain ⟨rfl, h⟩ := h
    obtain ⟨hx, hnodup⟩ := List.nodup_cons.mp hnodup
    obtain _ | fuel := fuel
    · cases hfuel
    obtain ⟨q', heq, hnext⟩ :=
      ih (q := q.setNext x none) (h.update hx none) hnodup (Nat.lt_of_succ_lt_succ hfuel)
    refine ⟨q', heq, fun y => ?_⟩
    rw [hnext y, setNext_next]
    obtain rfl | hne := eq_or_ne y x
    · simp
    · rw [Function.update_of_ne hne]
      simp [hne]

theorem clear_spec (h : q.Represents xs) {fuel : Nat} (hfuel : xs.length < fuel) :
  ∃ q', q.clear fuel = some q' ∧ q.Becomes xs q' []
  := by
  obtain ⟨q', heq, hnext⟩ := clearFrom_spec h.chain h.nodup hfuel
  unfold clear
  rw [heq]
  exact ⟨_, rfl, ⟨rfl, rfl, rfl, List.nodup_nil⟩, fun y _ => hnext y⟩

/-! ### Priority queues -/

variable {β : Type} [LinearOrder β] {priority : α → β}

variable (item priority) in
omit [DecidableEq α] in
/-- The loop of `insert`, behind the items `front`. -/
theorem insertionPoint_spec (hbefore : Segment q.next q.head front stop)
    (hafter : Chain q.next stop rest) {fuel : Nat} (hfuel : rest.length < fuel) :
  ∃ front' rest' stop', rest = front' ++ rest' ∧
    PriorityQueue.insert priority item rest = front' ++ item :: rest' ∧
    Segment q.next q.head (front ++ front') stop' ∧ Chain q.next stop' rest' ∧
    q.insertionPoint priority item fuel (.after front) stop
      = some (.after (front ++ front'), stop')
  := by
  induction rest generalizing front stop fuel with
  | nil =>
    have hstop : stop = none := hafter
    subst hstop
    obtain _ | fuel := fuel
    · cases hfuel
    refine ⟨[], [], none, rfl, rfl, ?_, rfl, ?_⟩
    · rwa [List.append_nil]
    · rw [List.append_nil]
      rfl
  | cons cur rest ih =>
    obtain _ | fuel := fuel
    · cases hfuel
    obtain ⟨rfl, hcur⟩ := hafter
    unfold PriorityQueue.insert insertionPoint
    split
    · refine ⟨[], cur :: rest, some cur, rfl, rfl, ?_, ⟨rfl, hcur⟩, ?_⟩
      · rwa [List.append_nil]
      · rw [List.append_nil]
    · obtain ⟨front', rest', stop', hrest, hinsert, hseg, hchain, hpoint⟩ :=
        ih (segment_concat.mpr ⟨hbefore, rfl⟩) hcur (Nat.lt_of_succ_lt_succ hfuel)
      rw [Place.after_concat] at hpoint
      rw [← List.append_cons] at hseg hpoint
      refine ⟨cur :: front', rest', stop', ?_, ?_, hseg, hchain, hpoint⟩
      · rw [hrest, List.cons_append]
      · rw [hinsert, List.cons_append]

theorem insert_spec (h : q.Represents xs) (hitem : item ∉ xs) (hnext : q.next item = none)
    {fuel : Nat} (hfuel : xs.length < fuel) :
  ∃ q', q.insert priority fuel item = some q' ∧
    q.Becomes xs q' (PriorityQueue.insert priority item xs)
  := by
  have hstart : Segment q.next q.head [] q.head := rfl
  obtain ⟨front, rest, stop, rfl, hinsert, hbefore, hafter, hpoint⟩ :=
    insertionPoint_spec item priority hstart h.chain hfuel
  have hbecomes := h.splice_in hbefore hafter hitem
  rw [hinsert]
  unfold insert
  cases hhead : q.head with
  | none =>
    rw [h.head_eq, List.head?_eq_none_iff, List.append_eq_nil_iff] at hhead
    obtain ⟨rfl, rfl⟩ := hhead
    exact push_spec h hitem hnext
  | some y =>
    have hpoint' : q.insertionPoint priority item fuel .head (some y)
        = some (.after front, stop) := by
      rw [← hhead]
      exact hpoint
    dsimp only
    rw [hpoint']
    cases stop with
    | some cur =>
      refine ⟨_, rfl, ?_⟩
      have htail : (front ++ item :: rest).getLast?
          = ((q.setNext item (some cur)).write (some item) (.after front)).tail := by
        rw [write_tail, setNext_tail, h.tail]
        cases rest with
        | nil => cases hafter
        | cons z zs => simp [List.getLast?_append, List.getLast?_cons]
      rw [htail] at hbecomes
      exact hbecomes
    | none =>
      obtain rfl : rest = [] := List.head?_eq_none_iff.mp hafter.start_eq.symm
      obtain rfl | ⟨init, last, rfl⟩ := front.eq_nil_or_concat'
      · rw [h.head_eq] at hhead
        cases hhead
      have htail : q.tail = some last := by
        rw [h.tail, List.append_nil, List.getLast?_concat]
      rw [htail]
      refine ⟨_, rfl, ?_⟩
      rw [Place.after_concat, List.getLast?_concat] at hbecomes
      exact hbecomes

omit [DecidableEq α] in
/-- The loop of `front_count`, at an item `cur` of a sorted queue. -/
theorem countFrom_spec {cur : α} (h : Chain q.next (q.next cur) xs)
    (hsorted : xs.Pairwise fun y z => priority y ≤ priority z)
    (hcur : ∀ y ∈ xs, priority cur ≤ priority y) {fuel : Nat} (hfuel : xs.length < fuel)
    (result : Nat) :
  q.countFrom priority fuel result cur (q.next cur)
    = some (result + (xs.takeWhile fun y => priority y = priority cur).length)
  := by
  induction xs generalizing cur result fuel with
  | nil =>
    have hnone : q.next cur = none := h
    obtain _ | fuel := fuel
    · cases hfuel
    rw [hnone]
    rfl
  | cons y xs ih =>
    obtain ⟨hy, h⟩ := h
    obtain _ | fuel := fuel
    · cases hfuel
    rw [hy]
    unfold countFrom
    obtain ⟨hall, hsorted⟩ := List.pairwise_cons.mp hsorted
    split
    · rename_i hlt
      rw [List.takeWhile_cons_of_neg (by simpa using hlt.ne')]
      rfl
    · rename_i hge
      have heq : priority y = priority cur :=
        le_antisymm (not_lt.mp hge) (hcur y List.mem_cons_self)
      rw [ih h hsorted hall (Nat.lt_of_succ_lt_succ hfuel), heq,
        List.takeWhile_cons_of_pos (by simpa using heq), List.length_cons]
      congr 1
      omega

omit [DecidableEq α] in
theorem frontCount_spec (h : q.Represents xs)
    (hsorted : xs.Pairwise fun y z => priority y ≤ priority z) {fuel : Nat}
    (hfuel : xs.length < fuel) :
  q.frontCount priority fuel = some (PriorityQueue.frontCount priority xs)
  := by
  unfold frontCount
  rw [h.count]
  cases xs with
  | nil => rfl
  | cons x rest =>
    have hhead : q.head = some x := h.chain.1
    obtain ⟨hall, hsorted⟩ := List.pairwise_cons.mp hsorted
    rw [PriorityQueue.frontCount_cons, hhead]
    split
    · rename_i hle
      obtain rfl : rest = [] := by
        rw [List.length_cons] at hle
        apply List.eq_nil_of_length_eq_zero
        omega
      rfl
    · apply countFrom_spec h.chain.2 hsorted hall
      rw [List.length_cons] at hfuel
      omega

end Plexil.Utils.LinkedQueue
