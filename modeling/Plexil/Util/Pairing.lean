import Mathlib.Data.List.Basic

/-!
# Pairing receivers with items

Receivers and items arrive one by one; the first receiver gets the first item, the second one
the second item, and so on.  A `Pairing` has the receivers and the items in the order in which
they have arrived.  So either all receivers have got an item, and items may be queued, or all
items have been received, and receivers may be waiting.

A receiver which waits may withdraw, and the queued items may be replaced by others.
-/

structure Pairing (α β : Type*) where
  receivers : List α := []
  items : List β := []

namespace Pairing

variable {α β : Type*} {p : Pairing α β} {a : α} {b : β}

/-- Who has received what. -/
def pairs (p : Pairing α β) : List (α × β) := p.receivers.zip p.items

def waiting (p : Pairing α β) : List α := p.receivers.drop p.items.length

def queued (p : Pairing α β) : List β := p.items.drop p.receivers.length

def addReceiver (a : α) (p : Pairing α β) : Pairing α β :=
  { p with receivers := p.receivers ++ [a] }

def addItem (b : β) (p : Pairing α β) : Pairing α β :=
  { p with items := p.items ++ [b] }

/-- The receivers which wait stay only where `keep` says so. -/
def withdraw (keep : α → Bool) (p : Pairing α β) : Pairing α β :=
  { p with receivers := p.receivers.take p.items.length ++ p.waiting.filter keep }

/-- The queued items are replaced. -/
def requeue (items : List β) (p : Pairing α β) : Pairing α β :=
  { p with items := p.items.take p.receivers.length ++ items }

/-! ### The parts of a pairing -/

/-- Either nobody is waiting or nothing is queued. -/
theorem waiting_or_queued (p : Pairing α β) : p.waiting = [] ∨ p.queued = []
  := by
  unfold waiting queued
  rw [List.drop_eq_nil_iff, List.drop_eq_nil_iff]
  apply Nat.le_total

theorem receivers_eq (p : Pairing α β) :
  p.receivers = p.pairs.map Prod.fst ++ p.waiting
  := by
  obtain ⟨receivers, items⟩ := p
  unfold pairs waiting
  dsimp only
  induction receivers generalizing items with
  | nil => simp
  | cons a receivers ih =>
    cases items with
    | nil => rfl
    | cons b items => simpa using ih items

theorem items_eq (p : Pairing α β) :
  p.items = p.pairs.map Prod.snd ++ p.queued
  := by
  obtain ⟨receivers, items⟩ := p
  unfold pairs queued
  dsimp only
  induction items generalizing receivers with
  | nil => simp
  | cons b items ih =>
    cases receivers with
    | nil => rfl
    | cons a receivers => simpa using ih receivers

/-- A pairing is given by its parts. -/
theorem parts {pairs' : List (α × β)} {waiting' : List α} {queued' : List β}
    (hreceivers : p.receivers = pairs'.map Prod.fst ++ waiting')
    (hitems : p.items = pairs'.map Prod.snd ++ queued') (h : waiting' = [] ∨ queued' = []) :
  p.pairs = pairs' ∧ p.waiting = waiting' ∧ p.queued = queued'
  := by
  obtain ⟨receivers, items⟩ := p
  dsimp only at hreceivers hitems
  subst hreceivers hitems
  unfold pairs waiting queued
  dsimp only
  induction pairs' with
  | nil => rcases h with rfl | rfl <;> simp
  | cons pair rest ih =>
    obtain ⟨hpairs, hwaiting, hqueued⟩ := ih
    refine ⟨?_, ?_, ?_⟩
    · simpa using hpairs
    · simpa using hwaiting
    · simpa using hqueued

/-! ### The operations -/

/-- A receiver gets the first of the queued items. -/
theorem addReceiver_of_queued {rest : List β} (h : p.queued = b :: rest) :
  (p.addReceiver a).pairs = p.pairs ++ [(a, b)] ∧ (p.addReceiver a).waiting = [] ∧
    (p.addReceiver a).queued = rest
  := by
  have hwaiting : p.waiting = [] := p.waiting_or_queued.resolve_right (by simp [h])
  apply parts
  · unfold addReceiver
    rw [p.receivers_eq, hwaiting]
    simp
  · unfold addReceiver
    dsimp only
    rw [p.items_eq, h]
    simp
  · exact .inl rfl

/-- A receiver waits when nothing is queued. -/
theorem addReceiver_of_queued_nil (h : p.queued = []) :
  (p.addReceiver a).pairs = p.pairs ∧ (p.addReceiver a).waiting = p.waiting ++ [a] ∧
    (p.addReceiver a).queued = []
  := by
  apply parts
  · unfold addReceiver
    rw [p.receivers_eq]
    simp
  · unfold addReceiver
    dsimp only
    rw [p.items_eq, h]
  · exact .inr rfl

/-- An item goes to the first of the receivers which wait. -/
theorem addItem_of_waiting {rest : List α} (h : p.waiting = a :: rest) :
  (p.addItem b).pairs = p.pairs ++ [(a, b)] ∧ (p.addItem b).waiting = rest ∧
    (p.addItem b).queued = []
  := by
  have hqueued : p.queued = [] := p.waiting_or_queued.resolve_left (by simp [h])
  apply parts
  · unfold addItem
    dsimp only
    rw [p.receivers_eq, h]
    simp
  · unfold addItem
    rw [p.items_eq, hqueued]
    simp
  · exact .inr rfl

/-- An item is queued when nobody waits. -/
theorem addItem_of_waiting_nil (h : p.waiting = []) :
  (p.addItem b).pairs = p.pairs ∧ (p.addItem b).waiting = [] ∧
    (p.addItem b).queued = p.queued ++ [b]
  := by
  apply parts
  · unfold addItem
    dsimp only
    rw [p.receivers_eq, h]
  · unfold addItem
    rw [p.items_eq]
    simp
  · exact .inl rfl

theorem withdraw_parts (keep : α → Bool) :
  (p.withdraw keep).pairs = p.pairs ∧ (p.withdraw keep).waiting = p.waiting.filter keep ∧
    (p.withdraw keep).queued = p.queued
  := by
  apply parts
  · unfold withdraw
    dsimp only
    congr 1
    rcases p.waiting_or_queued with h | h
    · rw [List.take_of_length_le (List.drop_eq_nil_iff.mp h)]
      conv_lhs => rw [p.receivers_eq, h, List.append_nil]
    · have hlength : p.items.length = (p.pairs.map Prod.fst).length := by
        rw [p.items_eq, h]
        simp
      conv_lhs => rw [p.receivers_eq, hlength, List.take_left]
  · exact p.items_eq
  · rcases p.waiting_or_queued with h | h
    · left
      rw [h, List.filter_nil]
    · exact .inr h

/-- Items are queued in place of others only when nobody waits. -/
theorem requeue_parts {items' : List β} (h : p.waiting = [] ∨ items' = []) :
  (p.requeue items').pairs = p.pairs ∧ (p.requeue items').waiting = p.waiting ∧
    (p.requeue items').queued = items'
  := by
  apply parts
  · exact p.receivers_eq
  · unfold requeue
    dsimp only
    congr 1
    rcases p.waiting_or_queued with h | h
    · have hlength : p.receivers.length = (p.pairs.map Prod.snd).length := by
        rw [p.receivers_eq, h]
        simp
      conv_lhs => rw [p.items_eq, hlength, List.take_left]
    · rw [List.take_of_length_le (List.drop_eq_nil_iff.mp h)]
      conv_lhs => rw [p.items_eq, h, List.append_nil]
  · exact h

end Pairing
