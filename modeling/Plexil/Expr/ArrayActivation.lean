import Plexil.Expr.Variable
import Plexil.Util.StateMachine

/-!
# Activation of array variables

The activation of an array variable evaluates the size expression and the initializer.
An array which is stored from an earlier activation is reused: it is extended to the
declared size, and never cut.  The operations on the variable are the events of a state
machine; the state records where the variable was activated, which the program does not.
An operation which ends in a plan error or in a failed assertion has no result.
-/

namespace Plexil

variable {E α : Type}

/-! ### Declarations -/

/-- The size expression of an array variable, by its values in the states of a plan. -/
structure SizeExpression (E : Type) where
  getValue : E → Option Int
  isConstant : Bool
  constant : isConstant = true → ∀ e e', getValue e = getValue e'

/-- An array variable as it is declared. -/
structure ArrayDeclaration (E α : Type) where
  convert : α → Option α
  isTyped : List (Option α) → Bool
  size : Option (SizeExpression E)
  initializer : Option (E → Value α)

/-- An array variable and its activation. -/
structure ActiveArray (E α : Type) where
  ary : ArrayVariable α
  sizeIsConstant : Bool
  activeCount : Nat
  activatedAt : Option E

namespace ActiveArray

def isActive (s : ActiveArray E α) : Bool := s.activeCount > 0

def isKnown (s : ActiveArray E α) : Bool := s.isActive && s.ary.known

/-- The element at an index, as a reference reads it.  Beyond the array this is a plan
error. -/
def readElement (s : ActiveArray E α) (idx : Nat) : Option (Option α) :=
  if s.isKnown then
    if idx < s.ary.value.length then some (s.ary.getElement idx) else none
  else some none

/-- Sets an element, as a reference does. -/
def setElement (s : ActiveArray E α) (idx : Nat) (val : Value α) : Option (ActiveArray E α) :=
  if s.isKnown then (s.ary.setElement idx val).map fun ary => { s with ary := ary }
  else some s

end ActiveArray

namespace ArrayDeclaration

/-- The variable before its first activation. -/
def initial (decl : ArrayDeclaration E α) : ActiveArray E α where
  ary := ⟨decl.convert, decl.isTyped, decl.size.map fun _ => 0, false, [], false, []⟩
  sizeIsConstant := false
  activeCount := 0
  activatedAt := none

/-- The size which the declaration specifies. -/
def specSize (decl : ArrayDeclaration E α) (e : E) : Option Int :=
  decl.size.bind fun size => size.getValue e

/-! ### Activation -/

/-- Evaluates the size expression, unless it is constant and has been evaluated. -/
def evaluateSize (decl : ArrayDeclaration E α) (e : E) (s : ActiveArray E α) :
    Option (ActiveArray E α) :=
  match decl.size with
  | none => some s
  | some size =>
    if s.sizeIsConstant then some s
    else
      match size.getValue e with
      | none => some s
      | some specSize =>
        if 0 ≤ specSize then
          some { s with
            ary := { s.ary with maxSize := some specSize.toNat }
            sizeIsConstant := size.isConstant }
        else none

/-- Gives the variable its initial value. -/
def setInitialValue (decl : ArrayDeclaration E α) (e : E) (ary : ArrayVariable α) :
    Option (ArrayVariable α) :=
  match decl.initializer with
  | some initializer =>
    match (initializer e).getValuePointer ary.isTyped with
    | none => none
    | some none => some { ary with known := false }
    | some (some value) =>
      if ary.maxSize.all (value.length ≤ ·) then
        ArrayVariable.setValueImpl { ary with known := false } value
      else none
  | none =>
    if ary.maxSize.any (0 < ·) then
      -- the stored array is cleared, and extended if it is too short
      some { ary with known := true, value := ary.resized (ary.value.map fun _ => none) }
    else some { ary with known := false }

def handleActivate (decl : ArrayDeclaration E α) (e : E) (s : ActiveArray E α) :
    Option (ActiveArray E α) :=
  (decl.evaluateSize e s).bind fun s' =>
    (decl.setInitialValue e s'.ary).map fun ary => { s' with ary := ary, activatedAt := some e }

end ArrayDeclaration

/-! ### The operations -/

/-- The operations on an array variable. -/
inductive ArrayOperation (E α : Type) where
  | activate (e : E)
  | deactivate
  | setValue (val : Value α)
  | setUnknown
  | setElement (idx : Nat) (val : Value α)
  | saveCurrentValue
  | restoreSavedValue

namespace ArrayDeclaration

def activate (decl : ArrayDeclaration E α) (e : E) (s : ActiveArray E α) :
    Option (ActiveArray E α) :=
  if s.activeCount = 0 then decl.handleActivate e { s with activeCount := 1 }
  else some { s with activeCount := s.activeCount + 1 }

def step (decl : ArrayDeclaration E α) (s : ActiveArray E α) :
    ArrayOperation E α → Option (ActiveArray E α)
  | .activate e => decl.activate e s
  | .deactivate =>
    if s.activeCount = 0 then none else some { s with activeCount := s.activeCount - 1 }
  | .setValue val => (s.ary.setValue val).map fun ary => { s with ary := ary }
  | .setUnknown => some { s with ary := s.ary.setUnknown }
  | .setElement idx val => s.setElement idx val
  | .saveCurrentValue => some { s with ary := s.ary.saveCurrentValue }
  | .restoreSavedValue => some { s with ary := s.ary.restoreSavedValue }

/-- The size declared for the current activation. -/
def declaredSize (decl : ArrayDeclaration E α) (s : ActiveArray E α) : Option Int :=
  if s.isActive then s.activatedAt.bind decl.specSize else none

/-! ### The size of the array -/

/-- The array has the indices below `n`: these and no others are read, and these and no
others are written. -/
structure HasIndices (s : ActiveArray E α) (n : Int) : Prop where
  length : s.ary.value.length = n
  read : ∀ idx : Nat, (s.readElement idx).isSome ↔ idx < n
  written : ∀ (idx : Nat) (a : α), idx < n → s.ary.convert a = some a →
    ∃ s', s.setElement idx (.scalar a) = some s' ∧ s'.readElement idx = some (some a)
  ignored : ∀ (idx : Nat) (val : Value α) (s' : ActiveArray E α), n ≤ idx →
    s.setElement idx val = some s' → s' = s

/-- While the variable is active and known, its array has the indices below the size
declared for this activation. -/
def SizeKept (decl : ArrayDeclaration E α) (s : ActiveArray E α) : Prop :=
  ∀ n, decl.declaredSize s = some n → s.isKnown = true → HasIndices s n

/-- The operation finds no array of another size.  An activation without an initializer and
with a size which is not 0 finds no longer array stored.  A restoration of a known value
finds a saved array of the declared size when the variable is known, and a stored array of
the declared size when it is not. -/
def Fits (decl : ArrayDeclaration E α) (s : ActiveArray E α) : ArrayOperation E α → Prop
  | .activate e => s.activeCount = 0 → decl.initializer = none →
    ∀ n, decl.specSize e = some n → 0 < n → s.ary.value.length ≤ n
  | .restoreSavedValue => s.ary.savedKnown = true →
    ∀ n, decl.declaredSize s = some n →
      (if s.ary.known then s.ary.savedValue else s.ary.value).length = n
  | _ => True

end ArrayDeclaration

/-! ### What the operations do to the size -/

namespace ArrayVariable

theorem length_resized (x : ArrayVariable α) (ary : List (Option α)) :
  (x.resized ary).length = max ary.length (x.maxSize.getD 0)
  := by
  rw [resized, List.length_append, List.length_replicate]
  omega

theorem setValueImpl_size {x x' : ArrayVariable α} {ary : List (Option α)}
    (h : x.setValueImpl ary = some x') :
  x'.maxSize = x.maxSize ∧ ∀ m, x.maxSize = some m → x'.value.length = m
  := by
  rw [setValueImpl] at h
  split at h
  · rename_i hfits
    cases h
    refine ⟨rfl, ?_⟩
    intro m hm
    rw [hm] at hfits
    have hlength : ary.length ≤ m := by simpa using hfits
    rw [length_resized, hm, Option.getD_some, Nat.max_eq_right hlength]
  · cases h

/-- An assignment makes the variable unknown and keeps its array, or gives the array the
maximum size. -/
theorem setValue_size {x x' : ArrayVariable α} {val : Value α} (h : x.setValue val = some x') :
  x'.maxSize = x.maxSize ∧ ((x'.known = false ∧ x'.value = x.value) ∨
    ∀ m, x.maxSize = some m → x'.value.length = m)
  := by
  rw [setValue] at h
  split at h
  · cases h
  · cases h
    exact ⟨rfl, .inl ⟨rfl, rfl⟩⟩
  · obtain ⟨hmax, hlength⟩ := setValueImpl_size h
    exact ⟨hmax, .inr hlength⟩

theorem setElement_size {x x' : ArrayVariable α} {idx : Nat} {val : Value α}
    (h : x.setElement idx val = some x') :
  x'.maxSize = x.maxSize ∧ x'.known = x.known ∧ x'.value.length = x.value.length
  := by
  rw [setElement] at h
  split at h
  · cases h
  · cases h
    exact ⟨rfl, rfl, List.length_set⟩
  · split at h
    · cases h
      exact ⟨rfl, rfl, List.length_set⟩
    · cases h
      exact ⟨rfl, rfl, rfl⟩

theorem saveCurrentValue_size (x : ArrayVariable α) :
  x.saveCurrentValue.maxSize = x.maxSize ∧ x.saveCurrentValue.known = x.known ∧
    x.saveCurrentValue.value = x.value
  := by
  rw [saveCurrentValue]
  split
  · exact ⟨rfl, rfl, rfl⟩
  · exact ⟨rfl, rfl, rfl⟩

theorem restoreSavedValue_size (x : ArrayVariable α) :
  x.restoreSavedValue.maxSize = x.maxSize ∧ x.restoreSavedValue.known = x.savedKnown ∧
    (x.savedKnown = true →
      x.restoreSavedValue.value = if x.known then x.savedValue else x.value)
  := by
  rw [restoreSavedValue]
  cases hknown : x.known <;> cases hsaved : x.savedKnown <;> exact ⟨rfl, rfl, by simp⟩

/-- What was saved is changed by saving only. -/
theorem setValue_saved {x x' : ArrayVariable α} {val : Value α} (h : x.setValue val = some x') :
  x'.savedKnown = x.savedKnown ∧ x'.savedValue = x.savedValue
  := by
  rw [setValue] at h
  split at h
  · cases h
  · cases h
    exact ⟨rfl, rfl⟩
  · rw [setValueImpl] at h
    split at h
    · cases h
      exact ⟨rfl, rfl⟩
    · cases h

theorem setElement_saved {x x' : ArrayVariable α} {idx : Nat} {val : Value α}
    (h : x.setElement idx val = some x') :
  x'.savedKnown = x.savedKnown ∧ x'.savedValue = x.savedValue
  := by
  rw [setElement] at h
  split at h
  · cases h
  · cases h
    exact ⟨rfl, rfl⟩
  · split at h
    · cases h
      exact ⟨rfl, rfl⟩
    · cases h
      exact ⟨rfl, rfl⟩

theorem restoreSavedValue_saved (x : ArrayVariable α) :
  x.restoreSavedValue.savedKnown = x.savedKnown ∧
    x.restoreSavedValue.savedValue = x.savedValue
  := by
  rw [restoreSavedValue]
  split
  · exact ⟨rfl, rfl⟩
  · exact ⟨rfl, rfl⟩

end ArrayVariable

/-! ### The indices of an array of known size -/

namespace ArrayDeclaration

/-- The size of a known array determines the indices. -/
theorem hasIndices_iff {s : ActiveArray E α} (hknown : s.isKnown = true) (n : Int) :
  HasIndices s n ↔ s.ary.value.length = n
  := by
  constructor
  · intro h
    apply h.length
  · intro hlength
    constructor
    · exact hlength
    · intro idx
      rw [ActiveArray.readElement, if_pos hknown]
      split
      · apply iff_of_true rfl
        omega
      · apply iff_of_false Bool.false_ne_true
        omega
    · intro idx a hidx ha
      have hlt : idx < s.ary.value.length := by omega
      have hset : s.setElement idx (.scalar a)
          = some { s with ary := { s.ary with value := s.ary.value.set idx (some a) } } := by
        rw [ActiveArray.setElement, if_pos hknown, ArrayVariable.setElement, Value.getValue, ha]
        rfl
      refine ⟨_, hset, ?_⟩
      have hknown' : ActiveArray.isKnown
          { s with ary := { s.ary with value := s.ary.value.set idx (some a) } } = true := hknown
      rw [ActiveArray.readElement, if_pos hknown', ArrayVariable.getElement]
      simp [hlt]
    · intro idx val s' hidx hset
      rw [ActiveArray.setElement, if_pos hknown] at hset
      obtain ⟨ary, hary, rfl⟩ := Option.map_eq_some_iff.mp hset
      have hout : s.ary.value.length ≤ idx := by omega
      rw [ArrayVariable.setElement] at hary
      split at hary
      · cases hary
      · cases hary
        rw [List.set_eq_of_length_le hout]
      · rw [ArrayVariable.getElement, List.getElem?_eq_none hout] at hary
        cases hary
        rfl

/-! ### The declared size -/

/-- A constant size which has been evaluated is the maximum size of the variable. -/
def ConstantEvaluated (decl : ArrayDeclaration E α) (s : ActiveArray E α) : Prop :=
  s.sizeIsConstant = true →
    ∃ m : Nat, s.ary.maxSize = some m ∧ ∀ e, decl.specSize e = some (m : Int)

/-- A constant size, and the size of the current activation, is the maximum size of the
variable. -/
structure SizeEvaluated (decl : ArrayDeclaration E α) (s : ActiveArray E α) : Prop where
  constant : ConstantEvaluated decl s
  current : ∀ n, decl.declaredSize s = some n → ∃ m : Nat, n = m ∧ s.ary.maxSize = some m

variable {decl : ArrayDeclaration E α} {s s' : ActiveArray E α}

theorem sizeEvaluated_initial (decl : ArrayDeclaration E α) : SizeEvaluated decl decl.initial := by
  constructor
  · rintro ⟨⟩
  · rintro n ⟨⟩

theorem SizeEvaluated.of_ary (h : SizeEvaluated decl s) {ary : ArrayVariable α}
    (hmax : ary.maxSize = s.ary.maxSize) :
  SizeEvaluated decl { s with ary := ary }
  := by
  constructor
  · intro hconstant
    rw [hmax]
    apply h.constant hconstant
  · intro n hn
    rw [hmax]
    apply h.current n hn

theorem evaluateSize_spec (h : ConstantEvaluated decl s) {e : E}
    (hsize : decl.evaluateSize e s = some s') :
  s'.activeCount = s.activeCount ∧ s'.ary.value = s.ary.value ∧ ConstantEvaluated decl s' ∧
    ∀ n, decl.specSize e = some n → ∃ m : Nat, n = m ∧ s'.ary.maxSize = some m
  := by
  rw [evaluateSize] at hsize
  cases hdecl : decl.size with
  | none =>
    rw [hdecl] at hsize
    cases hsize
    refine ⟨rfl, rfl, h, ?_⟩
    intro n hn
    rw [specSize, hdecl] at hn
    cases hn
  | some size =>
    rw [hdecl] at hsize
    dsimp only at hsize
    have hspec : ∀ e, decl.specSize e = size.getValue e := fun e => by rw [specSize, hdecl]; rfl
    split at hsize
    · rename_i hconstant
      cases hsize
      obtain ⟨m, hm, hall⟩ := h hconstant
      refine ⟨rfl, rfl, h, ?_⟩
      intro n hn
      rw [hall] at hn
      cases hn
      exact ⟨m, rfl, hm⟩
    · rename_i hcomputed
      split at hsize
      · rename_i hunknown
        cases hsize
        refine ⟨rfl, rfl, h, ?_⟩
        intro n hn
        rw [hspec, hunknown] at hn
        cases hn
      · rename_i n hn
        split at hsize
        · rename_i hpos
          cases hsize
          have hcast : (n.toNat : Int) = n := Int.toNat_of_nonneg hpos
          refine ⟨rfl, rfl, ?_, ?_⟩
          · intro hconstant
            refine ⟨n.toNat, rfl, ?_⟩
            intro e'
            rw [hspec, size.constant hconstant e' e, hn, hcast]
          · intro n' hn'
            rw [hspec, hn] at hn'
            cases hn'
            exact ⟨n.toNat, hcast.symm, rfl⟩
        · cases hsize

/-- The initial value has the maximum size, unless an array is stored which is longer. -/
theorem setInitialValue_spec {e : E} {x x' : ArrayVariable α}
    (h : decl.setInitialValue e x = some x') :
  x'.maxSize = x.maxSize ∧ ∀ m, x.maxSize = some m → (decl.initializer = none → 0 < m →
      x'.known = true ∧ x'.value.length = max x.value.length m) ∧
    (¬ (decl.initializer = none ∧ 0 < m) → x'.known = true → x'.value.length = m)
  := by
  rw [setInitialValue] at h
  split at h
  · rename_i initializer hinitializer
    have hnone : decl.initializer ≠ none := by rw [hinitializer]; exact Option.some_ne_none _
    split at h
    · cases h
    · cases h
      refine ⟨rfl, fun m _ => ⟨fun h => absurd h hnone, ?_⟩⟩
      rintro - ⟨⟩
    · split at h
      · obtain ⟨hmax, hlength⟩ := ArrayVariable.setValueImpl_size h
        exact ⟨hmax, fun m hm => ⟨fun h => absurd h hnone, fun _ _ => hlength m hm⟩⟩
      · cases h
  · rename_i hinitializer
    split at h
    · rename_i hpos
      cases h
      refine ⟨rfl, ?_⟩
      intro m hm
      rw [hm] at hpos
      constructor
      · intro _ _
        refine ⟨rfl, ?_⟩
        rw [ArrayVariable.length_resized, hm, List.length_map, Option.getD_some]
      · intro hnot
        apply absurd ⟨hinitializer, _⟩ hnot
        simpa using hpos
    · rename_i hpos
      cases h
      refine ⟨rfl, ?_⟩
      intro m hm
      rw [hm] at hpos
      constructor
      · intro _ hm'
        simp [hm'] at hpos
      · rintro - ⟨⟩

/-! ### The operations keep the size -/

theorem handleActivate_spec (h : ConstantEvaluated decl s) {e : E}
    (hactivate : decl.handleActivate e s = some s') :
  s'.activeCount = s.activeCount ∧ s'.activatedAt = some e ∧ ConstantEvaluated decl s' ∧
    ∀ n, decl.specSize e = some n → ∃ m : Nat, n = m ∧ s'.ary.maxSize = some m ∧
      (decl.initializer = none → 0 < m →
        s'.ary.known = true ∧ s'.ary.value.length = max s.ary.value.length m) ∧
      (¬ (decl.initializer = none ∧ 0 < m) → s'.ary.known = true → s'.ary.value.length = m)
  := by
  obtain ⟨middle, hsize, hinit⟩ := Option.bind_eq_some_iff.mp hactivate
  obtain ⟨ary, hary, rfl⟩ := Option.map_eq_some_iff.mp hinit
  obtain ⟨hcount, hvalue, hconstant, hspec⟩ := evaluateSize_spec h hsize
  obtain ⟨hmax, hlength⟩ := setInitialValue_spec hary
  refine ⟨hcount, rfl, ?_, ?_⟩
  · intro hc
    obtain ⟨m, hm, hall⟩ := hconstant hc
    exact ⟨m, hmax.trans hm, hall⟩
  · intro n hn
    obtain ⟨m, hnm, hm⟩ := hspec n hn
    rw [← hvalue]
    exact ⟨m, hnm, hmax.trans hm, hlength m hm⟩

/-- A change of the count which keeps the variable active. -/
theorem declaredSize_of_active {count : Nat} {n : Int} (hactive : 0 < s.activeCount)
    (h : decl.declaredSize { s with activeCount := count } = some n) :
  decl.declaredSize s = some n
  := by
  have hs : s.isActive = true := by simpa [ActiveArray.isActive] using hactive
  rw [declaredSize] at h ⊢
  split at h
  · rw [if_pos hs]
    exact h
  · cases h

/-- The size of an activation which begins. -/
theorem declaredSize_of_activated {e : E} (hcount : s.activeCount = 1)
    (hactivated : s.activatedAt = some e) :
  decl.declaredSize s = decl.specSize e
  := by
  have hactive : s.isActive = true := by simp [ActiveArray.isActive, hcount]
  rw [declaredSize, if_pos hactive, hactivated]
  rfl

theorem SizeEvaluated.step (h : SizeEvaluated decl s) {op : ArrayOperation E α}
    (hstep : decl.step s op = some s') :
  SizeEvaluated decl s'
  := by
  cases op with
  | activate e =>
    change decl.activate e s = some s' at hstep
    rw [activate] at hstep
    split at hstep
    · rename_i hinactive
      have hconstant : ConstantEvaluated decl { s with activeCount := 1 } := h.constant
      obtain ⟨hcount, hactivated, hconstant, hcurrent⟩ := handleActivate_spec hconstant hstep
      constructor
      · exact hconstant
      · intro n hn
        rw [declaredSize_of_activated hcount hactivated] at hn
        obtain ⟨m, hnm, hm, -⟩ := hcurrent n hn
        exact ⟨m, hnm, hm⟩
    · rename_i hactive
      cases hstep
      constructor
      · exact h.constant
      · intro n hn
        apply h.current n (declaredSize_of_active (Nat.pos_of_ne_zero hactive) hn)
  | deactivate =>
    change (if s.activeCount = 0 then none else _) = some s' at hstep
    split at hstep
    · cases hstep
    · rename_i hactive
      cases hstep
      constructor
      · exact h.constant
      · intro n hn
        apply h.current n (declaredSize_of_active (Nat.pos_of_ne_zero hactive) hn)
  | setValue val =>
    obtain ⟨ary, hary, rfl⟩ := Option.map_eq_some_iff.mp hstep
    apply h.of_ary (ArrayVariable.setValue_size hary).1
  | setUnknown =>
    cases hstep
    have hmax : s.ary.setUnknown.maxSize = s.ary.maxSize := rfl
    apply h.of_ary hmax
  | setElement idx val =>
    change s.setElement idx val = some s' at hstep
    rw [ActiveArray.setElement] at hstep
    split at hstep
    · obtain ⟨ary, hary, rfl⟩ := Option.map_eq_some_iff.mp hstep
      apply h.of_ary (ArrayVariable.setElement_size hary).1
    · cases hstep
      exact h
  | saveCurrentValue =>
    cases hstep
    apply h.of_ary (ArrayVariable.saveCurrentValue_size _).1
  | restoreSavedValue =>
    cases hstep
    apply h.of_ary (ArrayVariable.restoreSavedValue_size _).1

/-- The array after an operation on the value which leaves a known array with the declared
size. -/
theorem sizeKept_with_ary {ary : ArrayVariable α}
    (h : ∀ n, decl.declaredSize s = some n → ary.known = true → ary.value.length = n) :
  SizeKept decl { s with ary := ary }
  := by
  intro n hn hknown
  rw [hasIndices_iff hknown]
  rw [ActiveArray.isKnown, Bool.and_eq_true] at hknown
  apply h n hn hknown.2

/-- A variable with a declared size is active. -/
theorem isKnown_of_declaredSize {n : Int} (hn : decl.declaredSize s = some n)
    (hknown : s.ary.known = true) :
  s.isKnown = true
  := by
  rw [declaredSize] at hn
  split at hn
  · rename_i hactive
    rw [ActiveArray.isKnown, hactive, hknown]
    rfl
  · cases hn

/-- The size of a known array under the invariant. -/
theorem SizeKept.length (h : SizeKept decl s) {n : Int} (hn : decl.declaredSize s = some n)
    (hknown : s.ary.known = true) :
  s.ary.value.length = n
  := (h n hn (isKnown_of_declaredSize hn hknown)).length

/-- An activation without an initializer has a result when the size is not negative. -/
theorem handleActivate_isSome (hnone : decl.initializer = none) {e : E} {n : Int}
    (hn : decl.specSize e = some n) (hpos : 0 < n) (s : ActiveArray E α) :
  ∃ s', decl.handleActivate e s = some s'
  := by
  have hsize : ∃ middle, decl.evaluateSize e s = some middle := by
    obtain ⟨size, hdecl, hvalue⟩ := Option.bind_eq_some_iff.mp hn
    rw [evaluateSize, hdecl]
    dsimp only
    split
    · exact ⟨s, rfl⟩
    · rw [hvalue]
      dsimp only
      rw [if_pos (Int.le_of_lt hpos)]
      exact ⟨_, rfl⟩
  have hinit : ∀ x, ∃ x', decl.setInitialValue e x = some x' := by
    intro x
    rw [setInitialValue, hnone]
    dsimp only
    split
    · exact ⟨_, rfl⟩
    · exact ⟨_, rfl⟩
  obtain ⟨middle, hmiddle⟩ := hsize
  obtain ⟨ary, hary⟩ := hinit middle.ary
  rw [handleActivate, hmiddle, Option.bind_some, hary]
  exact ⟨_, rfl⟩

/-- An activation keeps the size exactly when it finds no longer array. -/
theorem sizeKept_activate_iff (h : SizeEvaluated decl s) (hkept : SizeKept decl s) (e : E) :
  Fits decl s (.activate e) ↔ ∀ s', decl.step s (.activate e) = some s' → SizeKept decl s'
  := by
  change Fits decl s (.activate e) ↔ ∀ s', decl.activate e s = some s' → SizeKept decl s'
  rw [activate]
  have hconstant : ConstantEvaluated decl { s with activeCount := 1 } := h.constant
  split
  · rename_i hinactive
    constructor
    · intro hfits s' hstep
      obtain ⟨hcount, hactivated, -, hcurrent⟩ := handleActivate_spec hconstant hstep
      intro n hn hknown
      rw [declaredSize_of_activated hcount hactivated] at hn
      rw [hasIndices_iff hknown]
      rw [ActiveArray.isKnown, Bool.and_eq_true] at hknown
      obtain ⟨m, rfl, -, hstored, hother⟩ := hcurrent n hn
      by_cases hreused : decl.initializer = none ∧ 0 < m
      · obtain ⟨hnone, hpos⟩ := hreused
        have hshort : s.ary.value.length ≤ m := by
          have := hfits hinactive hnone m hn (by omega)
          omega
        rw [(hstored hnone hpos).2, Nat.max_eq_right hshort]
      · rw [hother hreused hknown.2]
    · intro hall _ hnone n hn hpos
      obtain ⟨s', hstep⟩ := handleActivate_isSome hnone hn hpos { s with activeCount := 1 }
      obtain ⟨hcount, hactivated, -, hcurrent⟩ := handleActivate_spec hconstant hstep
      obtain ⟨m, rfl, -, hstored, -⟩ := hcurrent n hn
      obtain ⟨hknown, hlength⟩ := hstored hnone (by omega)
      rw [← declaredSize_of_activated hcount hactivated] at hn
      have hsize := (hall s' hstep).length hn hknown
      change _ = max s.ary.value.length m at hlength
      omega
  · rename_i hactive
    apply iff_of_true
    · intro hinactive
      exact absurd hinactive hactive
    · rintro _ ⟨⟩ n hn hknown
      have hn' := declaredSize_of_active (Nat.pos_of_ne_zero hactive) hn
      rw [hasIndices_iff hknown]
      rw [ActiveArray.isKnown, Bool.and_eq_true] at hknown
      apply hkept.length hn' hknown.2

/-- A restoration keeps the size exactly when it finds an array of this size. -/
theorem sizeKept_restore_iff (s : ActiveArray E α) :
  Fits decl s .restoreSavedValue
    ↔ ∀ s', decl.step s .restoreSavedValue = some s' → SizeKept decl s'
  := by
  obtain ⟨-, hknown, hvalue⟩ := ArrayVariable.restoreSavedValue_size s.ary
  constructor
  · rintro hfits _ ⟨⟩
    apply sizeKept_with_ary
    intro n hn hsaved
    rw [hknown] at hsaved
    rw [hvalue hsaved]
    apply hfits hsaved n hn
  · intro h hsaved n hn
    rw [← hvalue hsaved]
    apply (h _ rfl).length hn
    rw [← hsaved]
    exact hknown

/-- The other operations keep the size. -/
theorem SizeKept.step (h : SizeEvaluated decl s) (hkept : SizeKept decl s)
    {op : ArrayOperation E α} (hactivate : ∀ e, op ≠ .activate e)
    (hrestore : op ≠ .restoreSavedValue) (hstep : decl.step s op = some s') :
  SizeKept decl s'
  := by
  cases op with
  | activate e => exact absurd rfl (hactivate e)
  | deactivate =>
    change (if s.activeCount = 0 then none else _) = some s' at hstep
    split at hstep
    · cases hstep
    · rename_i hactive
      cases hstep
      intro n hn hknown
      have hn' := declaredSize_of_active (Nat.pos_of_ne_zero hactive) hn
      rw [hasIndices_iff hknown]
      rw [ActiveArray.isKnown, Bool.and_eq_true] at hknown
      apply hkept.length hn' hknown.2
  | setValue val =>
    obtain ⟨ary, hary, rfl⟩ := Option.map_eq_some_iff.mp hstep
    apply sizeKept_with_ary
    intro n hn hknown
    obtain ⟨m, rfl, hm⟩ := h.current n hn
    obtain ⟨-, ⟨hunknown, -⟩ | hlength⟩ := ArrayVariable.setValue_size hary
    · rw [hknown] at hunknown
      cases hunknown
    · rw [hlength m hm]
  | setUnknown =>
    cases hstep
    apply sizeKept_with_ary
    rintro n hn ⟨⟩
  | setElement idx val =>
    change s.setElement idx val = some s' at hstep
    rw [ActiveArray.setElement] at hstep
    split at hstep
    · obtain ⟨ary, hary, rfl⟩ := Option.map_eq_some_iff.mp hstep
      obtain ⟨-, hsame, hlength⟩ := ArrayVariable.setElement_size hary
      apply sizeKept_with_ary
      intro n hn hknown
      rw [hlength]
      apply hkept.length hn
      rw [← hsame, hknown]
    · cases hstep
      exact hkept
  | saveCurrentValue =>
    cases hstep
    obtain ⟨-, hsame, hvalue⟩ := ArrayVariable.saveCurrentValue_size s.ary
    apply sizeKept_with_ary
    intro n hn hknown
    rw [hvalue]
    apply hkept.length hn
    rw [← hsame, hknown]
  | restoreSavedValue => exact absurd rfl hrestore

/-- An operation keeps the size exactly when it fits. -/
theorem fits_iff (h : SizeEvaluated decl s) (hkept : SizeKept decl s) (op : ArrayOperation E α) :
  Fits decl s op ↔ ∀ s', decl.step s op = some s' → SizeKept decl s'
  := by
  cases op with
  | activate e => apply sizeKept_activate_iff h hkept e
  | restoreSavedValue => apply sizeKept_restore_iff
  | _ =>
    apply iff_of_true trivial
    intro s' hstep
    apply hkept.step h (by simp) (by simp) hstep

/-! ### Restorations in the activation of the save -/

/-- A saved value and the stored one have the declared size. -/
def SavedFits (decl : ArrayDeclaration E α) (s : ActiveArray E α) : Prop :=
  s.ary.savedKnown = true → ∀ n, decl.declaredSize s = some n →
    s.ary.savedValue.length = n ∧ s.ary.value.length = n

/-- The operation does not begin another activation. -/
def Nested (s : ActiveArray E α) : ArrayOperation E α → Prop
  | .activate _ => s.activeCount ≠ 0
  | _ => True

theorem SavedFits.fits (h : SavedFits decl s) : Fits decl s .restoreSavedValue := by
  intro hsaved n hn
  obtain ⟨hvalue, hstored⟩ := h hsaved n hn
  split
  · exact hvalue
  · exact hstored

theorem SizeKept.savedFits (hkept : SizeKept decl s) :
  SavedFits decl { s with ary := s.ary.saveCurrentValue }
  := by
  intro hsaved n hn
  rw [ArrayVariable.saveCurrentValue] at hsaved ⊢
  split at hsaved
  · rename_i hknown
    rw [if_pos hknown]
    have hlength := hkept.length hn hknown
    exact ⟨hlength, hlength⟩
  · cases hsaved

/-- A saved value fits as long as the activation lasts. -/
theorem SavedFits.step (h : SizeEvaluated decl s) (hkept : SizeKept decl s)
    (hsaved : SavedFits decl s) {op : ArrayOperation E α} (hnested : Nested s op)
    (hstep : decl.step s op = some s') :
  SavedFits decl s'
  := by
  cases op with
  | activate e =>
    change decl.activate e s = some s' at hstep
    rw [activate, if_neg hnested] at hstep
    cases hstep
    intro hs n hn
    apply hsaved hs n (declaredSize_of_active (Nat.pos_of_ne_zero hnested) hn)
  | deactivate =>
    change (if s.activeCount = 0 then none else _) = some s' at hstep
    split at hstep
    · cases hstep
    · rename_i hactive
      cases hstep
      intro hs n hn
      apply hsaved hs n (declaredSize_of_active (Nat.pos_of_ne_zero hactive) hn)
  | setValue val =>
    obtain ⟨ary, hary, rfl⟩ := Option.map_eq_some_iff.mp hstep
    obtain ⟨hsame, hvalue⟩ := ArrayVariable.setValue_saved hary
    intro hs n hn
    change ary.savedKnown = true at hs
    change (ary.savedValue.length : Int) = n ∧ (ary.value.length : Int) = n
    rw [hsame] at hs
    obtain ⟨hlength, hstored⟩ := hsaved hs n hn
    rw [hvalue]
    refine ⟨hlength, ?_⟩
    obtain ⟨m, rfl, hm⟩ := h.current n hn
    obtain ⟨-, ⟨-, hkeeps⟩ | hassigned⟩ := ArrayVariable.setValue_size hary
    · rw [hkeeps]
      exact hstored
    · rw [hassigned m hm]
  | setUnknown =>
    cases hstep
    exact hsaved
  | setElement idx val =>
    change s.setElement idx val = some s' at hstep
    rw [ActiveArray.setElement] at hstep
    split at hstep
    · obtain ⟨ary, hary, rfl⟩ := Option.map_eq_some_iff.mp hstep
      obtain ⟨hsame, hvalue⟩ := ArrayVariable.setElement_saved hary
      obtain ⟨-, -, hlength⟩ := ArrayVariable.setElement_size hary
      intro hs n hn
      change ary.savedKnown = true at hs
      change (ary.savedValue.length : Int) = n ∧ (ary.value.length : Int) = n
      rw [hsame] at hs
      rw [hvalue, hlength]
      apply hsaved hs n hn
    · cases hstep
      exact hsaved
  | saveCurrentValue =>
    cases hstep
    apply hkept.savedFits
  | restoreSavedValue =>
    cases hstep
    obtain ⟨hsame, hvalue⟩ := ArrayVariable.restoreSavedValue_saved s.ary
    obtain ⟨-, -, hrestored⟩ := ArrayVariable.restoreSavedValue_size s.ary
    intro hs n hn
    change s.ary.restoreSavedValue.savedKnown = true at hs
    change (s.ary.restoreSavedValue.savedValue.length : Int) = n ∧
      (s.ary.restoreSavedValue.value.length : Int) = n
    rw [hsame] at hs
    rw [hvalue, hrestored hs]
    refine ⟨(hsaved hs n hn).1, hsaved.fits hs n hn⟩

end ArrayDeclaration

/-! ### Runs -/

open StateMachine

/-- Throughout a run of operations the array of an active and known variable has the size
declared for the activation, and these indices, exactly when every operation fits. -/
theorem ArrayDeclaration.sizeKept_iff (decl : ArrayDeclaration E α)
    (ops : List (ArrayOperation E α)) :
  Always decl.step decl.SizeKept ops decl.initial ↔ Meets decl.step decl.Fits ops decl.initial
  := by
  apply always_iff_meets (I := decl.SizeEvaluated)
  · intro s op s' h hstep
    apply h.step hstep
  · intro s op h hkept
    apply fits_iff h hkept op
  · apply sizeEvaluated_initial
  · rintro n ⟨⟩

/-- The restoration of a value which was saved in the same activation fits. -/
theorem ArrayDeclaration.restoration_fits {decl : ArrayDeclaration E α} {s s' : ActiveArray E α}
    (h : decl.SizeEvaluated s) (hkept : decl.SizeKept s) {ops : List (ArrayOperation E α)}
    (hnested : Meets decl.step ArrayDeclaration.Nested ops
      { s with ary := s.ary.saveCurrentValue })
    (hrun : run decl.step ops { s with ary := s.ary.saveCurrentValue } = some s') :
  decl.Fits s' .restoreSavedValue
  := by
  have hinvariant : decl.SizeEvaluated s' ∧ decl.SizeKept s' ∧ decl.SavedFits s' := by
    rw [← List.append_nil ops] at hnested
    apply hnested.invariant (I := fun s => decl.SizeEvaluated s ∧ decl.SizeKept s ∧
      decl.SavedFits s) _ _ hrun
    · rintro s op s' ⟨h, hkept, hsaved⟩ hop hstep
      refine ⟨h.step hstep, ?_, hsaved.step h hkept hop hstep⟩
      apply (fits_iff h hkept op).mp _ s' hstep
      cases op with
      | activate e => exact fun hinactive => absurd hinactive hop
      | restoreSavedValue => exact hsaved.fits
      | _ => trivial
    · refine ⟨?_, ?_, hkept.savedFits⟩
      · apply h.of_ary (ArrayVariable.saveCurrentValue_size _).1
      · have hsave : decl.step s .saveCurrentValue
            = some { s with ary := s.ary.saveCurrentValue } := rfl
        apply hkept.step h (by simp) (by simp) hsave
  exact hinvariant.2.2.fits

/-- An array whose size is the state of the plan. -/
def computedSize : ArrayDeclaration Int Int where
  convert := some
  isTyped := fun _ => true
  size := some ⟨some, false, by simp⟩
  initializer := none

/-- An activation with size 3 after one with size 5 leaves an array of 5 elements. -/
theorem not_sizeKept :
  ¬ ∀ (decl : ArrayDeclaration Int Int) (ops : List (ArrayOperation Int Int)),
    Always decl.step decl.SizeKept ops decl.initial
  := by
  intro h
  have hrun : (run computedSize.step [.activate 5, .deactivate, .activate 3]
      computedSize.initial).map (fun s => (computedSize.declaredSize s, s.ary.known,
        s.ary.value.length)) = some (some 3, true, 5) := by decide
  obtain ⟨s, hs, hresult⟩ := Option.map_eq_some_iff.mp hrun
  obtain ⟨hsize, hresult⟩ := Prod.mk.inj hresult
  obtain ⟨hknown, hlength⟩ := Prod.mk.inj hresult
  have hkept := ((h computedSize _).of_run hs).length hsize hknown
  rw [hlength] at hkept
  cases hkept

end Plexil
