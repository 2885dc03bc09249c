import Plexil.Exec.SimultaneousAssignment
import Mathlib.Logic.Relation

/-!
# Retraction

An assignment saves the value of its destination when its value is fixed, writes the
destination when it is executed, and restores what was saved when it is retracted.  A
variable is restored.  An element of an array evaluates its index at each of the three
steps, so that other assignments which change the index in between leave the array
changed.
-/

namespace Plexil

variable {V α : Type}

/-- The observable value of a variable. -/
def Variable.observed : Variable α → Value α
  | .scalar x => (x.value.map Value.scalar).getD .unknown
  | .array x => if x.known then .array x.value else .unknown

/-! ### Writes to a list of elements -/

/-- A write changes nothing when the element has the value already, or is not there. -/
theorem set_eq_self_iff (l : List (Option α)) (j : Nat) (w : Option α) :
  l.set j w = l ↔ (j < l.length → l[j]?.join = w)
  := by
  constructor
  · intro h hj
    rw [← h, List.getElem?_set_self hj]
    rfl
  · intro h
    apply List.ext_getElem?
    intro i
    rw [List.getElem?_set]
    split
    · rename_i hij
      subst hij
      split
      · rename_i hj
        have hw := h hj
        rw [List.getElem?_eq_getElem hj] at hw ⊢
        rw [← hw]
        rfl
      · rename_i hj
        rw [List.getElem?_eq_none (Nat.not_lt.mp hj)]
    · rfl

/-- Two writes leave a list as it was: the second one undoes the first, or neither changes
anything. -/
theorem set_set_eq_self_iff [DecidableEq α] (l : List (Option α)) (j k : Nat) (w e : Option α) :
  (l.set j w).set k e = l
    ↔ if j < l.length ∧ l[j]?.join ≠ w then k = j ∧ l[j]?.join = e
      else k < l.length → l[k]?.join = e
  := by
  split
  · rename_i hchanged
    obtain ⟨hj, hw⟩ := hchanged
    rcases eq_or_ne k j with rfl | hkj
    · rw [List.set_set, set_eq_self_iff]
      simp [hj]
    · apply iff_of_false
      · intro h
        apply hw
        rw [← h, List.getElem?_set_ne hkj, List.getElem?_set_self hj]
        rfl
      · exact fun h => hkj h.1
  · rename_i hsame
    have hset : l.set j w = l := by
      rw [set_eq_self_iff]
      intro hj
      by_contra hw
      exact hsame ⟨hj, hw⟩
    rw [hset, set_eq_self_iff]

namespace ArrayVariable

/-- The stored elements are of the type of the array. -/
def WellTyped (x : ArrayVariable α) : Prop :=
  ∀ a, some a ∈ x.value → x.convert a = some a

/-- Setting an element writes the value at the type of the array. -/
theorem setElement_eq (x : ArrayVariable α) (idx : Nat) (val : Value α) :
  x.setElement idx val
    = (val.getValue x.convert).map fun w => { x with value := x.value.set idx w }
  := by
  rw [setElement]
  cases hval : val.getValue x.convert with
  | none => rfl
  | some w =>
    cases w with
    | some v => rfl
    | none =>
      dsimp only
      split
      · rfl
      · rename_i hnone
        have hset : x.value.set idx none = x.value := by
          rw [set_eq_self_iff]
          intro _
          simpa [getElement] using hnone
        rw [Option.map_some, hset]

/-- An element which is saved is of the type of the array. -/
theorem WellTyped.getValue_elementValue {x : ArrayVariable α} (h : x.WellTyped) (idx : Nat) :
  (Destination.elementValue x idx).getValue x.convert = some (x.getElement idx)
  := by
  rw [Destination.elementValue]
  cases helement : x.getElement idx with
  | none => rfl
  | some a =>
    have hmem : some a ∈ x.value := by
      apply List.mem_of_getElem? (i := idx)
      rw [getElement] at helement
      exact Option.join_eq_some_iff.mp helement
    show (Value.scalar a).getValue x.convert = _
    rw [Value.getValue, h a hmem]
    rfl

end ArrayVariable

/-! ### Other assignments -/

section

variable [DecidableEq V] [DecidableEq α]

/-- A step of an assignment to another base variable. -/
def OtherStep (base : V) (store store' : Store V α) : Prop :=
  ∃ other other' : Assignment V α, other.base ≠ base ∧
    (other.fixValue store = some (other', store') ∨ other.execute store = some (other', store') ∨
      other.retract store = some (other', store'))

/-- Any number of steps of assignments to other base variables. -/
def Elsewhere (base : V) : Store V α → Store V α → Prop := Relation.ReflTransGen (OtherStep base)

/-- A destination changes its base variable only. -/
theorem OtherStep.frame {base : V} {store store' : Store V α} (h : OtherStep base store store') :
  store' base = store base
  := by
  obtain ⟨⟨dest, rhs, value, ack, abortComplete⟩, other', hbase, hstep⟩ := h
  change dest.getBaseVariable ≠ base at hbase
  have hupdate : ∀ x, Function.update store dest.getBaseVariable x base = store base :=
    fun x => Function.update_of_ne hbase.symm x store
  obtain hfix | hexecute | hretract := hstep
  · obtain ⟨⟨dest', middle⟩, hsave, heq⟩ := Option.map_eq_some_iff.mp hfix
    cases heq
    cases dest with
    | «variable» v =>
      cases hsave
      apply hupdate
    | element v index savedValue =>
      obtain ⟨checked, -, heq⟩ := Option.map_eq_some_iff.mp hsave
      cases heq
      rfl
  · obtain ⟨middle, hset, heq⟩ := Option.map_eq_some_iff.mp hexecute
    cases heq
    cases dest with
    | «variable» v =>
      obtain ⟨x, -, rfl⟩ := Option.map_eq_some_iff.mp hset
      apply hupdate
    | element v index savedValue =>
      obtain ⟨x, -, rfl⟩ := Option.map_eq_some_iff.mp hset
      apply hupdate
  · obtain ⟨⟨dest', middle⟩, hrestore, heq⟩ := Option.map_eq_some_iff.mp hretract
    cases heq
    cases dest with
    | «variable» v =>
      cases hrestore
      apply hupdate
    | element v index savedValue =>
      unfold Destination.restoreSavedValue at hrestore
      dsimp only at hrestore
      split at hrestore
      · cases hrestore
      · cases hrestore
        rfl
      · cases hrestore
        rfl
      · split at hrestore
        · cases hrestore
          rfl
        · obtain ⟨ary, -, heq⟩ := Option.map_eq_some_iff.mp hrestore
          cases heq
          apply hupdate

theorem Elsewhere.frame {base : V} {store store' : Store V α} (h : Elsewhere base store store') :
  store' base = store base
  := by
  induction h with
  | refl => rfl
  | tail _ hstep ih => rw [hstep.frame, ih]

/-! ### Retraction -/

/-- The assignment, retracted, leaves its base variable with the observable value `before`. -/
def Restores (assign : Assignment V α) (store : Store V α) (before : Value α) : Prop :=
  ∃ retracted store', assign.retract store = some (retracted, store') ∧
    (store' assign.base).observed = before

/-- The execution changes an element of `ary`, to which `val` is assigned at the index
`i₁`. -/
def ChangesElement (ary : ArrayVariable α) (val : Value α) (i₁ : Option Int) : Prop :=
  ∃ j w, i₁ = some j ∧ val.getValue ary.convert = some w ∧ j.toNat < ary.value.length ∧
    ary.getElement j.toNat ≠ w

/-- What an assignment of `val` to an element of `ary` needs for its retraction, where the
index has the values `i₀`, `i₁` and `i₂` when the value is fixed, when the assignment is
executed and when it is retracted.  The last one is no plan error.  If the execution changes
an element, then this element is restored and had the value of the one saved; if not, the
element restored had the value of the one saved. -/
structure IndexKept (ary : ArrayVariable α) (val : Value α) (i₀ i₁ i₂ : Option Int) : Prop where
  valid : ∀ k, i₂ = some k → 0 ≤ k
  changed : ChangesElement ary val i₁ → i₂ = i₁ ∧ ∃ i, i₀ = some i ∧
    ∀ j, i₁ = some j → ary.getElement j.toNat = ary.getElement i.toNat
  unchanged : ¬ ChangesElement ary val i₁ → ∀ i k, i₀ = some i → i₂ = some k →
    k.toNat < ary.value.length → ary.getElement k.toNat = ary.getElement i.toNat

omit [DecidableEq α] in
/-- An index which has the same value at the three steps is kept. -/
theorem indexKept_of_eq (ary : ArrayVariable α) (val : Value α) {index : Option Int}
    (hvalid : ∀ k, index = some k → 0 ≤ k) :
  IndexKept ary val index index index
  := by
  constructor
  · exact hvalid
  · rintro ⟨j, w, rfl, -⟩
    refine ⟨rfl, j, rfl, ?_⟩
    rintro _ ⟨⟩
    rfl
  · rintro - i k rfl ⟨⟩ -
    rfl

/-- When the retraction undoes the assignment: the destination is a variable, or the array
is unknown when the value is fixed, or the index is kept. -/
def Undoable (assign : Assignment V α) (store executed retracted : Store V α) : Prop :=
  ∀ base index savedValue ary, assign.dest = .element base index savedValue →
    store base = .array ary → ary.known = true →
    IndexKept ary (assign.rhs store) (index store) (index executed) (index retracted)

/-! ### Variables -/

omit [DecidableEq V] [DecidableEq α] in
/-- A variable is restored. -/
theorem restores_variable {x x' : Variable α} {val : Value α}
    (h : x.saveCurrentValue.setValue val = some x') :
  x'.restoreSavedValue.observed = x.observed
  := by
  cases x with
  | scalar x =>
    obtain ⟨y, hy, rfl⟩ := Option.map_eq_some_iff.mp h
    obtain ⟨value, -, rfl⟩ := Option.map_eq_some_iff.mp hy
    rfl
  | array x =>
    obtain ⟨y, hy, rfl⟩ := Option.map_eq_some_iff.mp h
    obtain ⟨convert, isTyped, maxSize, known, value, savedKnown, savedValue⟩ := x
    rw [ArrayVariable.setValue] at hy
    split at hy
    · cases hy
    · cases hy
      cases known <;> rfl
    · rw [ArrayVariable.setValueImpl] at hy
      split at hy
      · cases hy
        cases known <;> rfl
      · cases hy

/-! ### Elements -/

omit [DecidableEq V] [DecidableEq α] in
theorem elementValue_injective {x y : ArrayVariable α} {i j : Nat}
    (h : Destination.elementValue x i = Destination.elementValue y j) :
  x.getElement i = y.getElement j
  := by
  unfold Destination.elementValue at h
  cases hx : x.getElement i <;> cases hy : y.getElement j <;> simp_all

/-- The value saved for an element of `ary` at an index. -/
def savedAt (ary : ArrayVariable α) (index : Option Int) : Option (Value α) :=
  if ary.known then index.map fun i => Destination.elementValue ary i.toNat else none

omit [DecidableEq V] [DecidableEq α] in
theorem mutableSelfCheck_eq_some {ary : ArrayVariable α} {index : Option Int}
    {checked : Option (ArrayVariable α × Nat)}
    (h : Destination.mutableSelfCheck (.array ary) index = some checked) :
  (ary.known = true → ∀ i, index = some i → 0 ≤ i) ∧
    checked = if ary.known then index.map fun i => (ary, i.toNat) else none
  := by
  simp only [Destination.mutableSelfCheck] at h
  split at h
  · rename_i hknown
    rw [if_pos hknown]
    split at h
    · cases h
      simp
    · split at h
      · rename_i i hi
        cases h
        exact ⟨fun _ j hj => Option.some.inj hj ▸ hi, rfl⟩
      · cases h
  · rename_i hknown
    cases h
    simp [hknown]

omit [DecidableEq α] in
theorem fixValue_element {assign assign' : Assignment V α} {store store' : Store V α}
    (h : assign.fixValue store = some (assign', store')) {base : V}
    {index : Store V α → Option Int} {savedValue : Option (Value α)}
    (hdest : assign.dest = .element base index savedValue) {ary : ArrayVariable α}
    (hary : store base = .array ary) :
  assign'.dest = .element base index (savedAt ary (index store)) ∧
    assign'.value = assign.rhs store ∧ store' = store ∧
    (ary.known = true → ∀ i, index store = some i → 0 ≤ i)
  := by
  obtain ⟨⟨dest, middle⟩, hsave, heq⟩ := Option.map_eq_some_iff.mp h
  cases heq
  rw [hdest] at hsave
  obtain ⟨checked, hchecked, heq⟩ := Option.map_eq_some_iff.mp hsave
  rw [hary] at hchecked
  obtain ⟨hvalid, rfl⟩ := mutableSelfCheck_eq_some hchecked
  cases heq
  refine ⟨?_, rfl, rfl, hvalid⟩
  rw [savedAt]
  split
  · cases index store <;> rfl
  · rfl

omit [DecidableEq V] [DecidableEq α] in
/-- A write to an element of a known array, if the index is known. -/
theorem setElement_known {ary : ArrayVariable α} (hknown : ary.known = true)
    {index : Option Int} {val : Value α} {x : Variable α}
    (h : Destination.setElement (.array ary) index val = some x) :
  (index = none ∧ x = .array ary) ∨
    ∃ j w, index = some j ∧ 0 ≤ j ∧ val.getValue ary.convert = some w ∧
      x = .array { ary with value := ary.value.set j.toNat w }
  := by
  rw [Destination.setElement] at h
  cases hchecked : Destination.mutableSelfCheck (.array ary) index with
  | none =>
    rw [hchecked] at h
    cases h
  | some checked =>
    rw [hchecked] at h
    obtain ⟨hvalid, rfl⟩ := mutableSelfCheck_eq_some hchecked
    rw [if_pos hknown] at h
    cases index with
    | none =>
      cases h
      exact .inl ⟨rfl, rfl⟩
    | some j =>
      obtain ⟨ary', hset, rfl⟩ := Option.map_eq_some_iff.mp h
      rw [ArrayVariable.setElement_eq] at hset
      obtain ⟨w, hw, rfl⟩ := Option.map_eq_some_iff.mp hset
      exact .inr ⟨j, w, rfl, hvalid hknown j rfl, hw, rfl⟩

/-- The elements after a retraction: the saved element of `ary` is written, if the index
is known now and was when it was saved. -/
def restoredElements (ary : ArrayVariable α) (value : List (Option α)) :
    Option Int → Option Int → List (Option α)
  | some i, some k => value.set k.toNat (ary.getElement i.toNat)
  | _, _ => value

/-- What is restored of an element of a known array. -/
theorem restoreSavedValue_element {store : Store V α} {base : V}
    {index : Store V α → Option Int} {ary : ArrayVariable α} {i₀ : Option Int}
    (htyped : ary.WellTyped) (hknown : ary.known = true) {value : List (Option α)}
    (hvalue : store base = .array { ary with value := value })
    (hvalid : ∀ k, index store = some k → 0 ≤ k) :
  ∃ dest store', Destination.restoreSavedValue (.element base index (savedAt ary i₀)) store
      = some (dest, store') ∧
    store' base = .array { ary with value := restoredElements ary value i₀ (index store) }
  := by
  cases hindex : index store with
  | none =>
    have hcheck : Destination.mutableSelfCheck (store base) (index store) = some none := by
      rw [hvalue, hindex]
      simp [Destination.mutableSelfCheck]
    use .element base index (savedAt ary i₀), store
    constructor
    · simp only [Destination.restoreSavedValue, hcheck]
    · rw [hvalue]
      cases i₀ <;> rfl
  | some k =>
    have hcheck : Destination.mutableSelfCheck (store base) (index store)
        = some (some ({ ary with value := value }, k.toNat)) := by
      rw [hvalue, hindex]
      simp [Destination.mutableSelfCheck, hknown, hvalid k hindex]
    cases i₀ with
    | none =>
      have hsaved : savedAt ary none = none := by simp [savedAt]
      use .element base index none, store
      constructor
      · simp only [Destination.restoreSavedValue, hcheck, hsaved]
      · exact hvalue
    | some i =>
      have hsaved : savedAt ary (some i) = some (Destination.elementValue ary i.toNat) := by
        simp [savedAt, hknown]
      by_cases hsame : Destination.elementValue ary i.toNat
          = Destination.elementValue { ary with value := value } k.toNat
      · use .element base index none, store
        constructor
        · simp only [Destination.restoreSavedValue, hcheck, hsaved, if_pos hsame]
        · have helement := elementValue_injective hsame
          rw [hvalue, restoredElements, (set_eq_self_iff _ _ _).mpr fun _ => helement.symm]
      · use .element base index none, Function.update store base
          (.array { ary with value := value.set k.toNat (ary.getElement i.toNat) })
        constructor
        · simp only [Destination.restoreSavedValue, hcheck, hsaved, if_neg hsame,
            ArrayVariable.setElement_eq, htyped.getValue_elementValue, Option.map_some]
        · apply Function.update_self

/-- A negative index is a plan error. -/
theorem restoreSavedValue_negative {store : Store V α} {base : V}
    {index : Store V α → Option Int} {ary : ArrayVariable α} (hary : store base = .array ary)
    (hknown : ary.known = true) {k : Int} (hindex : index store = some k) (hk : ¬ 0 ≤ k)
    (savedValue : Option (Value α)) :
  Destination.restoreSavedValue (.element base index savedValue) store = none
  := by
  have hcheck : Destination.mutableSelfCheck (store base) (index store) = none := by
    rw [hary, hindex]
    simp [Destination.mutableSelfCheck, hknown, hk]
  simp only [Destination.restoreSavedValue, hcheck]

/-- An unknown array is left as it is. -/
theorem restoreSavedValue_unknown {store : Store V α} {base : V}
    {index : Store V α → Option Int} {ary : ArrayVariable α} (hary : store base = .array ary)
    (hunknown : ary.known = false) (savedValue : Option (Value α)) :
  Destination.restoreSavedValue (.element base index savedValue) store
    = some (.element base index savedValue, store)
  := by
  have hcheck : Destination.mutableSelfCheck (store base) (index store) = some none := by
    rw [hary]
    simp [Destination.mutableSelfCheck, hunknown]
  simp only [Destination.restoreSavedValue, hcheck]

/-- A retraction restores what its destination does. -/
theorem restores_iff (assign : Assignment V α) (store : Store V α) (before : Value α) :
  Restores assign store before
    ↔ ∃ dest store', assign.dest.restoreSavedValue store = some (dest, store') ∧
      (store' assign.base).observed = before
  := by
  rw [Restores, Assignment.retract]
  constructor
  · rintro ⟨retracted, store', hretract, hbefore⟩
    obtain ⟨⟨dest, middle⟩, hrestore, heq⟩ := Option.map_eq_some_iff.mp hretract
    cases heq
    exact ⟨dest, store', hrestore, hbefore⟩
  · rintro ⟨dest, store', hrestore, hbefore⟩
    use { assign with dest := dest, abortComplete := assign.abortComplete.setValue true }, store'
    constructor
    · rw [hrestore]
      rfl
    · exact hbefore

omit [DecidableEq V] [DecidableEq α] in
/-- Without a change the index matters only where an element is restored. -/
theorem indexKept_iff_of_unchanged {ary : ArrayVariable α} {val : Value α}
    {i₀ i₁ i₂ : Option Int} (hvalid : ∀ k, i₂ = some k → 0 ≤ k)
    (hunchanged : ¬ ChangesElement ary val i₁) :
  restoredElements ary ary.value i₀ i₂ = ary.value ↔ IndexKept ary val i₀ i₁ i₂
  := by
  have hkept : IndexKept ary val i₀ i₁ i₂ ↔ ∀ i k, i₀ = some i → i₂ = some k →
      k.toNat < ary.value.length → ary.getElement k.toNat = ary.getElement i.toNat :=
    ⟨fun h => h.unchanged hunchanged, fun h => ⟨hvalid, fun hc => absurd hc hunchanged, fun _ => h⟩⟩
  rw [hkept]
  cases i₀ with
  | none => simp [restoredElements]
  | some i =>
    cases i₂ with
    | none => simp [restoredElements]
    | some k =>
      rw [restoredElements, set_eq_self_iff]
      simp [ArrayVariable.getElement]

/-- A change is undone exactly when the element is restored to what it was. -/
theorem indexKept_iff_of_changed {ary : ArrayVariable α} {val : Value α}
    {i₀ i₂ : Option Int} (hvalid : ∀ k, i₂ = some k → 0 ≤ k) {j : Int} (hj : 0 ≤ j)
    {w : Option α} (hw : val.getValue ary.convert = some w)
    (hchanged : j.toNat < ary.value.length ∧ ary.getElement j.toNat ≠ w) :
  restoredElements ary (ary.value.set j.toNat w) i₀ i₂ = ary.value
    ↔ IndexKept ary val i₀ (some j) i₂
  := by
  have hchanges : ChangesElement ary val (some j) := ⟨j, w, rfl, hw, hchanged⟩
  have hkept : IndexKept ary val i₀ (some j) i₂ ↔ i₂ = some j ∧ ∃ i, i₀ = some i ∧
      ary.getElement j.toNat = ary.getElement i.toNat := by
    constructor
    · intro h
      obtain ⟨hsame, i, hi, helement⟩ := h.changed hchanges
      exact ⟨hsame, i, hi, helement j rfl⟩
    · rintro ⟨hsame, i, hi, helement⟩
      refine ⟨hvalid, fun _ => ⟨hsame, i, hi, ?_⟩, fun h => absurd hchanges h⟩
      rintro _ ⟨⟩
      exact helement
  have hset : ary.value.set j.toNat w ≠ ary.value := by
    rw [Ne, set_eq_self_iff]
    exact fun h => hchanged.2 (h hchanged.1)
  rw [hkept]
  cases i₀ with
  | none => simpa [restoredElements] using hset
  | some i =>
    cases i₂ with
    | none => simpa [restoredElements] using hset
    | some k =>
      have hkj : k.toNat = j.toNat ↔ k = j := by
        have hk := hvalid k rfl
        omega
      have hwritten : j.toNat < ary.value.length ∧ ary.value[j.toNat]?.join ≠ w := hchanged
      rw [restoredElements, set_set_eq_self_iff, if_pos hwritten, hkj]
      simp [ArrayVariable.getElement]

/-- The elements are those before the assignment exactly when the index was kept. -/
theorem restoredElements_eq_iff {ary : ArrayVariable α} {val : Value α}
    {i₀ i₁ i₂ : Option Int} {value : List (Option α)}
    (hvalue : (i₁ = none ∧ value = ary.value) ∨ ∃ j w, i₁ = some j ∧ 0 ≤ j ∧
      val.getValue ary.convert = some w ∧ value = ary.value.set j.toNat w)
    (hvalid : ∀ k, i₂ = some k → 0 ≤ k) :
  restoredElements ary value i₀ i₂ = ary.value ↔ IndexKept ary val i₀ i₁ i₂
  := by
  obtain ⟨rfl, rfl⟩ | ⟨j, w, rfl, hj, hw, rfl⟩ := hvalue
  · apply indexKept_iff_of_unchanged hvalid
    rintro ⟨j, w, ⟨⟩, -⟩
  · by_cases hchanged : j.toNat < ary.value.length ∧ ary.getElement j.toNat ≠ w
    · apply indexKept_iff_of_changed hvalid hj hw hchanged
    · have hset : ary.value.set j.toNat w = ary.value := by
        rw [set_eq_self_iff]
        intro hlength
        by_contra hne
        exact hchanged ⟨hlength, hne⟩
      rw [hset]
      apply indexKept_iff_of_unchanged hvalid
      rintro ⟨_, w', ⟨⟩, hw', hchange⟩
      rw [hw] at hw'
      obtain rfl := Option.some.inj hw'
      exact hchanged hchange

omit [DecidableEq α] in
/-- The observable value of a known array determines its elements. -/
theorem observed_array_iff {ary : ArrayVariable α} (hknown : ary.known = true)
    (value : List (Option α)) :
  (Variable.array { ary with value := value }).observed = (Variable.array ary).observed
    ↔ value = ary.value
  := by
  simp [Variable.observed, hknown]

/-- The restored element leaves the array with its value exactly when the index was
kept. -/
theorem restores_element_iff {assign : Assignment V α} {store : Store V α} {base : V}
    {index : Store V α → Option Int} {ary : ArrayVariable α} {val : Value α}
    {i₀ i₁ : Option Int} {value : List (Option α)}
    (hdest : assign.dest = .element base index (savedAt ary i₀))
    (htyped : ary.WellTyped) (hknown : ary.known = true)
    (hvalue : (i₁ = none ∧ value = ary.value) ∨ ∃ j w, i₁ = some j ∧ 0 ≤ j ∧
      val.getValue ary.convert = some w ∧ value = ary.value.set j.toNat w)
    (hstore : store base = .array { ary with value := value }) :
  Restores assign store (Variable.array ary).observed ↔ IndexKept ary val i₀ i₁ (index store)
  := by
  have hbase : assign.base = base := by rw [Assignment.base, hdest]; rfl
  rw [restores_iff, hdest, hbase]
  by_cases hvalid : ∀ k, index store = some k → 0 ≤ k
  · rw [← restoredElements_eq_iff hvalue hvalid, ← observed_array_iff hknown]
    obtain ⟨dest, store', hrestore, hresult⟩ :
        ∃ dest store', Destination.restoreSavedValue (.element base index (savedAt ary i₀)) store
          = some (dest, store') ∧
        store' base = .array { ary with value := restoredElements ary value i₀ (index store) } := by
      apply restoreSavedValue_element htyped hknown hstore hvalid
    rw [hrestore, ← hresult]
    constructor
    · rintro ⟨_, _, ⟨⟩, hbefore⟩
      exact hbefore
    · intro hbefore
      exact ⟨dest, store', rfl, hbefore⟩
  · apply iff_of_false
    · have hfails : ∃ k, index store = some k ∧ ¬ 0 ≤ k := by
        by_contra hnone
        apply hvalid
        intro k hk
        by_contra hnegative
        exact hnone ⟨k, hk, hnegative⟩
      obtain ⟨k, hk, hnegative⟩ := hfails
      rw [restoreSavedValue_negative hstore hknown hk hnegative]
      rintro ⟨_, _, ⟨⟩, -⟩
    · intro h
      apply hvalid h.valid

omit [DecidableEq α] in
/-- Fixing a value for an element needs an array. -/
theorem array_of_fixValue {assign assign' : Assignment V α} {store store' : Store V α}
    (h : assign.fixValue store = some (assign', store')) {base : V}
    {index : Store V α → Option Int} {savedValue : Option (Value α)}
    (hdest : assign.dest = .element base index savedValue) :
  ∃ ary, store base = .array ary
  := by
  obtain ⟨⟨dest, middle⟩, hsave, -⟩ := Option.map_eq_some_iff.mp h
  rw [hdest] at hsave
  obtain ⟨checked, hchecked, -⟩ := Option.map_eq_some_iff.mp hsave
  cases hbase : store base with
  | scalar x =>
    rw [hbase] at hchecked
    cases hchecked
  | array ary => exact ⟨ary, rfl⟩

omit [DecidableEq V] [DecidableEq α] in
/-- An element of an unknown array is not written. -/
theorem setElement_unknown {ary : ArrayVariable α} (hunknown : ary.known = false)
    (index : Option Int) (val : Value α) :
  Destination.setElement (.array ary) index val = some (.array ary)
  := by
  simp [Destination.setElement, Destination.mutableSelfCheck, hunknown]

omit [DecidableEq α] in
/-- The execution writes the destination and does not change it otherwise. -/
theorem execute_dest {assign executed : Assignment V α} {store store' : Store V α}
    (h : assign.execute store = some (executed, store')) :
  executed.dest = assign.dest ∧ assign.dest.setValue assign.value store = some store'
  := by
  obtain ⟨middle, hset, heq⟩ := Option.map_eq_some_iff.mp h
  cases heq
  exact ⟨rfl, hset⟩

/-- The retraction of an assignment to a variable undoes it. -/
theorem restores_of_variable {assign fixed executed : Assignment V α}
    {store store₀ store₁ store₂ store₃ : Store V α} {v : V} (hdest : assign.dest = .variable v)
    (hfix : assign.fixValue store = some (fixed, store₀))
    (hbefore : Elsewhere v store₀ store₁)
    (hexecute : fixed.execute store₁ = some (executed, store₂))
    (hafter : Elsewhere v store₂ store₃) :
  Restores executed store₃ (store₁ v).observed
  := by
  obtain ⟨hexecuted, hset⟩ := execute_dest hexecute
  obtain ⟨⟨dest, saved⟩, hsave, heq⟩ := Option.map_eq_some_iff.mp hfix
  cases heq
  rw [hdest] at hsave
  cases hsave
  have hbase : executed.base = v := by rw [Assignment.base, hexecuted]; rfl
  obtain ⟨x, hx, rfl⟩ := Option.map_eq_some_iff.mp hset
  have hsaved : store₁ v = (store v).saveCurrentValue := by
    rw [hbefore.frame, Function.update_self]
  have hwritten : store₃ v = x := by
    rw [hafter.frame, Function.update_self]
  rw [restores_iff, hexecuted, hbase]
  refine ⟨_, _, rfl, ?_⟩
  rw [Function.update_self, hwritten]
  rw [hsaved] at hx ⊢
  rw [restores_variable hx]
  cases store v with
  | scalar y => rfl
  | array y =>
    cases hknown : y.known <;>
      simp [Variable.observed, Variable.saveCurrentValue, ArrayVariable.saveCurrentValue,
        hknown]

omit [DecidableEq V] [DecidableEq α] in
/-- An assignment to an element is undone when the index of a known array is kept. -/
theorem undoable_element_iff {assign : Assignment V α} {store executed retracted : Store V α}
    {base : V} {index : Store V α → Option Int} {savedValue : Option (Value α)}
    {ary : ArrayVariable α} (hdest : assign.dest = .element base index savedValue)
    (hary : store base = .array ary) :
  Undoable assign store executed retracted ↔ (ary.known = true →
    IndexKept ary (assign.rhs store) (index store) (index executed) (index retracted))
  := by
  constructor
  · intro h
    apply h base index savedValue ary hdest hary
  · rintro h base' index' savedValue' ary' helement hary'
    rw [hdest] at helement
    cases helement
    rw [hary] at hary'
    cases hary'
    exact h

/-- An assignment which has been executed and is retracted, with assignments to other base
variables in between, leaves its base variable with the observable value which it had
before the execution, exactly when its index is kept. -/
theorem retract_restores_iff {assign fixed executed : Assignment V α}
    {store store₀ store₁ store₂ store₃ : Store V α}
    (htyped : ∀ ary, store assign.base = .array ary → ary.WellTyped)
    (hfix : assign.fixValue store = some (fixed, store₀))
    (hbefore : Elsewhere assign.base store₀ store₁)
    (hexecute : fixed.execute store₁ = some (executed, store₂))
    (hafter : Elsewhere assign.base store₂ store₃) :
  Restores executed store₃ (store₁ assign.base).observed ↔ Undoable assign store store₁ store₃
  := by
  cases hdest : assign.dest with
  | «variable» v =>
    have hv : assign.base = v := by rw [Assignment.base, hdest]; rfl
    rw [hv] at hbefore hafter ⊢
    apply iff_of_true (restores_of_variable hdest hfix hbefore hexecute hafter)
    rintro base index savedValue ary helement
    rw [hdest] at helement
    cases helement
  | element base index savedValue =>
    have hbase : assign.base = base := by rw [Assignment.base, hdest]; rfl
    rw [hbase] at htyped hbefore hafter ⊢
    obtain ⟨ary, hary⟩ := array_of_fixValue hfix hdest
    rw [undoable_element_iff hdest hary]
    obtain ⟨hexecuted, hset⟩ := execute_dest hexecute
    obtain ⟨hfixed, hvalue, rfl, -⟩ := fixValue_element hfix hdest hary
    have hunchanged : store₁ base = .array ary := by rw [hbefore.frame, hary]
    rw [hfixed] at hexecuted hset
    obtain ⟨x, hx, rfl⟩ := Option.map_eq_some_iff.mp hset
    rw [hunchanged, hvalue] at hx
    have hwritten : store₃ base = x := by
      rw [hafter.frame, Function.update_self]
    rw [hunchanged]
    cases hknown : ary.known with
    | false =>
      rw [setElement_unknown hknown] at hx
      cases hx
      apply iff_of_true _ nofun
      have hbase' : executed.base = base := by rw [Assignment.base, hexecuted]; rfl
      rw [restores_iff, hexecuted, hbase']
      refine ⟨_, _, restoreSavedValue_unknown hwritten hknown _, ?_⟩
      rw [hwritten]
    | true =>
      rw [forall_prop_of_true rfl]
      obtain ⟨hindex, rfl⟩ | ⟨j, w, hindex, hj, hw, rfl⟩ := setElement_known hknown hx
      · apply restores_element_iff hexecuted (htyped ary hary) hknown (.inl ⟨hindex, rfl⟩) hwritten
      · apply restores_element_iff hexecuted (htyped ary hary) hknown
          (.inr ⟨j, w, hindex, hj, hw, rfl⟩) hwritten

/-- The exact condition for `a[i] = 5` without steps of other assignments. -/
theorem retract_restores_iff_indexed :
  ∃ fixed executed store₀ store₁, assignElement.fixValue indexedStore = some (fixed, store₀) ∧
    fixed.execute store₀ = some (executed, store₁) ∧
    (Restores executed store₁ (store₀ assignElement.base).observed
      ↔ Undoable assignElement indexedStore store₀ store₁)
  := by
  obtain ⟨⟨fixed, store₀⟩, hfix⟩ := Option.isSome_iff_exists.mp
    (by decide : (assignElement.fixValue indexedStore).isSome = true)
  have hrun : ((assignElement.fixValue indexedStore).bind fun result =>
      result.1.execute result.2).isSome = true := by decide
  rw [hfix] at hrun
  obtain ⟨⟨executed, store₁⟩, hexecute⟩ := Option.isSome_iff_exists.mp hrun
  refine ⟨fixed, executed, store₀, store₁, hfix, hexecute, ?_⟩
  refine retract_restores_iff ?_ hfix .refl hexecute .refl
  rintro ary ⟨⟩ a -
  rfl

/-- The assignment of unknown to `i`. -/
def clearIndex : Assignment String Int :=
  ⟨.variable "i", fun _ => .unknown, .unknown, .initial, .initial⟩

/-- `a[i] = 5` is executed where `i` is 0, `i` is set to unknown, and `a[i] = 5` is
retracted: the values of `a` before and after it. -/
def retractedAfterClear : Option (Value Int × Value Int) :=
  (assignElement.fixValue indexedStore).bind fun (fixed, store₀) =>
    (fixed.execute store₀).bind fun (executed, store₁) =>
      (clearIndex.execute store₁).bind fun (_, store₂) =>
        (executed.retract store₂).map fun (_, store₃) =>
          ((store₀ assignElement.base).observed, (store₃ executed.base).observed)

/-- The value 5 stays in the array when its assignment is retracted while `i` is unknown. -/
theorem not_retract_restores :
  ¬ ∀ (assign fixed executed : Assignment String Int)
      (store store₀ store₁ store₂ store₃ : Store String Int),
    (∀ ary, store assign.base = .array ary → ary.WellTyped) →
    assign.fixValue store = some (fixed, store₀) → Elsewhere assign.base store₀ store₁ →
    fixed.execute store₁ = some (executed, store₂) → Elsewhere assign.base store₂ store₃ →
    Restores executed store₃ (store₁ assign.base).observed
  := by
  intro h
  have hrun : retractedAfterClear
      = some (.array [some 10, some 20], .array [some 5, some 20]) := by decide
  obtain ⟨⟨fixed, store₀⟩, hfix, hrun⟩ := Option.bind_eq_some_iff.mp hrun
  obtain ⟨⟨executed, store₁⟩, hexecute, hrun⟩ := Option.bind_eq_some_iff.mp hrun
  obtain ⟨⟨cleared, store₂⟩, hclear, hrun⟩ := Option.bind_eq_some_iff.mp hrun
  obtain ⟨⟨retracted, store₃⟩, hretract, hresult⟩ := Option.map_eq_some_iff.mp hrun
  obtain ⟨hinitial, hfinal⟩ := Prod.mk.inj hresult
  have hclears : OtherStep "a" store₁ store₂ :=
    ⟨clearIndex, cleared, by decide, .inr (.inl hclear)⟩
  have htyped : ∀ ary, indexedStore assignElement.base = .array ary → ary.WellTyped := by
    rintro ary ⟨⟩ a -
    rfl
  obtain ⟨_, store', hretract', hrestored⟩ :=
    h assignElement fixed executed indexedStore store₀ store₀ store₁ store₂ htyped hfix .refl
      hexecute (.single hclears)
  rw [hretract] at hretract'
  cases hretract'
  rw [hinitial, hfinal] at hrestored
  cases hrestored

end

end Plexil
