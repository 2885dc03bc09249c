import Mathlib.Algebra.Ring.Int.Defs
import Mathlib.Data.List.Basic
import Mathlib.Logic.Function.Basic

/-!
# Activation counts

An owner activates and deactivates things, and what it has contributed to the activation count
of each thing is an integer.  `run` performs calls in order, `net` is what the calls contribute
in sum, and `Covered` says that no call deactivates a thing which the owner has not activated.
-/

namespace ActivationCount

variable {α : Type*}

/-- A call of `activate` or `deactivate`. -/
inductive Call (α : Type*) where
  | activate (a : α)
  | deactivate (a : α)

/-- The thing which is activated or deactivated. -/
def Call.target : Call α → α
  | .activate a | .deactivate a => a

variable [DecidableEq α]

/-- The counts after a call. -/
def Call.apply (k : α → Int) : Call α → α → Int
  | .activate a => Function.update k a (k a + 1)
  | .deactivate a => Function.update k a (k a - 1)

/-- The counts after the calls. -/
def run (calls : List (Call α)) (k : α → Int) : α → Int := calls.foldl Call.apply k

/-- What a call contributes to the count of a thing. -/
def Call.weight (a : α) : Call α → Int
  | .activate b => if b = a then 1 else 0
  | .deactivate b => if b = a then -1 else 0

/-- What the calls contribute to the count of a thing. -/
def net (calls : List (Call α)) (a : α) : Int := (calls.map (Call.weight a)).sum

/-- Whatever is deactivated has been activated before. -/
def Covered : List (Call α) → (α → Int) → Prop
  | [], _ => True
  | .activate a :: calls, k => Covered calls (Call.apply k (.activate a))
  | .deactivate a :: calls, k => 0 < k a ∧ Covered calls (Call.apply k (.deactivate a))

/-- Whether the calls are covered. -/
def Covered.decide : (calls : List (Call α)) → (k : α → Int) → Decidable (Covered calls k)
  | [], _ => .isTrue trivial
  | .activate a :: calls, k => Covered.decide calls (Call.apply k (.activate a))
  | .deactivate a :: calls, k =>
    @instDecidableAnd _ _ _ (Covered.decide calls (Call.apply k (.deactivate a)))

instance (calls : List (Call α)) (k : α → Int) : Decidable (Covered calls k) :=
  Covered.decide calls k

variable {calls calls' : List (Call α)} {k k' : α → Int} {a : α}

theorem apply_eq (k : α → Int) (call : Call α) (a : α) :
  call.apply k a = k a + call.weight a
  := by
  cases call with
  | activate b =>
    dsimp only [Call.apply, Call.weight]
    by_cases h : b = a
    · rw [if_pos h, h, Function.update_self]
    · rw [if_neg h, Function.update_of_ne (Ne.symm h), Int.add_zero]
  | deactivate b =>
    dsimp only [Call.apply, Call.weight]
    by_cases h : b = a
    · rw [if_pos h, h, Function.update_self]
      rfl
    · rw [if_neg h, Function.update_of_ne (Ne.symm h), Int.add_zero]

theorem run_append (calls calls' : List (Call α)) (k : α → Int) :
  run (calls ++ calls') k = run calls' (run calls k)
  := List.foldl_append

/-- The calls change each count by what they contribute in sum. -/
theorem run_eq (calls : List (Call α)) (k : α → Int) (a : α) :
  run calls k a = k a + net calls a
  := by
  induction calls generalizing k with
  | nil => exact (Int.add_zero _).symm
  | cons call calls ih =>
    change run calls (call.apply k) a = k a + (call.weight a + net calls a)
    rw [ih, apply_eq, Int.add_assoc]

/-- The calls on some of the things contribute to these only. -/
theorem net_filter (p : α → Bool) (calls : List (Call α)) (a : α) :
  net (calls.filter fun call => p call.target) a = if p a then net calls a else 0
  := by
  have weight (call : Call α) : call.weight a ≠ 0 → call.target = a := by
    cases call <;> simp [Call.weight, Call.target]
  induction calls with
  | nil => exact (ite_self _).symm
  | cons call calls ih =>
    have hcons : net (call :: calls) a = call.weight a + net calls a := rfl
    rw [List.filter_cons, hcons]
    by_cases hw : call.weight a = 0
    · rw [hw, Int.zero_add]
      split
      · change call.weight a + net (calls.filter fun call => p call.target) a = _
        rw [hw, ih, Int.zero_add]
      · exact ih
    · rw [weight call hw]
      split
      · rename_i hp
        change call.weight a + net (calls.filter fun call => p call.target) a = _
        rw [ih, if_pos hp]
      · rename_i hp
        rw [ih, if_neg hp]

/-- Only the counts of what is deactivated matter. -/
theorem Covered.filter {p : α → Bool} (h : Covered calls k) (hk : ∀ a, p a = true → k' a = k a) :
  Covered (calls.filter fun call => p call.target) k'
  := by
  have step (call : Call α) {k k' : α → Int} (hk : ∀ a, p a = true → k' a = k a) (a : α)
      (ha : p a = true) : call.apply k' a = call.apply k a := by
    rw [apply_eq, apply_eq, hk a ha]
  have skip (call : Call α) {k k' : α → Int} (hk : ∀ a, p a = true → k' a = k a)
      (hcall : ¬ p call.target = true) (a : α) (ha : p a = true) : k' a = call.apply k a := by
    have hne : call.target ≠ a := by
      rintro rfl
      exact hcall ha
    rw [hk a ha]
    cases call <;> exact (Function.update_of_ne (Ne.symm hne) ..).symm
  induction calls generalizing k k' with
  | nil => trivial
  | cons call calls ih =>
    rw [List.filter_cons]
    split
    · rename_i hp
      cases call with
      | activate a =>
        apply ih (k := Call.apply k (.activate a)) h
        exact step (.activate a) hk
      | deactivate a =>
        constructor
        · rw [hk a hp]
          exact h.1
        · apply ih h.2
          exact step (.deactivate a) hk
    · rename_i hp
      cases call with
      | activate a =>
        apply ih (k := Call.apply k (.activate a)) h
        exact skip (.activate a) hk hp
      | deactivate a =>
        apply ih h.2
        exact skip (.deactivate a) hk hp

end ActivationCount
