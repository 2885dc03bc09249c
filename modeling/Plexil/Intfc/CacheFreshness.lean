import Plexil.Intfc.CachedValue
import Plexil.Util.StateMachine

/-!
# Cache freshness

A cached value has the cycle count at which it was last modified.  When a lookup is registered
on an entry without a value of the current cycle, the interface is asked for one.  What the
interface then delivers is an event of its own, as is what the lookups do when they are
notified.
-/

namespace Plexil.Intfc

/-- A cached value with its `m_timestamp`. -/
structure StampedValue where
  value : CachedValue
  timestamp : BitVec 32
  deriving DecidableEq

namespace StampedValue

/-- The new value, and whether it was known before. -/
def setUnknown (c : StampedValue) (timestamp : BitVec 32) : StampedValue × Bool :=
  -- a `VoidCachedValue` keeps its time stamp
  if c.value.valueType = .unknown then (c, false)
  else (⟨c.value.setUnknown, timestamp⟩, c.value.isKnown)

/-- The new value, and whether the lookups are to be notified. -/
def update (c : StampedValue) (timestamp : BitVec 32) (val : Value) :
    Option (StampedValue × Bool) :=
  if c.value.valueType = .unknown then
    if val.isKnown then none else some (⟨c.value, timestamp⟩, true)
  else
    match h : CachedValue.nativeValue c.value.valueType val with
    | none => none
    | some none => some (c.setUnknown timestamp)
    | some (some native) =>
      some (if c.value.toValue.equals native then (c, false)
        else (⟨⟨native, CachedValue.valueType_of_nativeValue h ▸ c.value.cached⟩, timestamp⟩, true))

/-- `ensureCachedValue`; a new cached value has the time stamp 0. -/
def ensure (m_value : Option StampedValue) (typ : ValueType) : Option (StampedValue × Bool) :=
  match m_value with
  | none => (CachedValueFactory typ).map fun c => (⟨c, 0⟩, true)
  | some c =>
    let ctyp := c.value.valueType
    if ctyp = typ || typ = .unknown then some (c, true)
    else if ctyp = .unknown then (CachedValueFactory typ).map fun c => (⟨c, 0⟩, true)
    else if typ = .integer && ctyp.isNumericType then some (c, true)
    else if typ = .real && (ctyp = .date || ctyp = .duration) then some (c, true)
    else some (c, false)

end StampedValue

/-- What is called of a `LookupReceiver`; the methods for native values and for arrays are
`update` of the value. -/
inductive Delivery where
  | update (val : Value)
  | setUnknown
  deriving DecidableEq

/-- The `m_value` of an entry after a delivery, and whether the lookups are notified. -/
def deliver (m_value : Option StampedValue) (timestamp : BitVec 32) :
    Delivery → Option (Option StampedValue × Bool)
  | .update val => do
    let (c, compatible) ← StampedValue.ensure m_value val.valueType
    if compatible then
      let (c, changed) ← c.update timestamp val
      some (some c, changed)
    else some (some c, false)
  | .setUnknown =>
    match m_value with
    | none => some (none, false)
    | some c =>
      let (c, changed) := c.setUnknown timestamp
      some (some c, changed)

/-- Whether `registerLookup` finds the value stale. -/
def isStale (m_value : Option StampedValue) (cycleCount : BitVec 32) : Bool :=
  match m_value with
  | none => true
  | some c => c.timestamp < cycleCount

/-- When a delivery is given the time stamp: a value fits the type of the cached value and is
not equal to it, and `setUnknown` finds a typed cached value. -/
def Refreshes (m_value : Option StampedValue) : Delivery → Prop
  | .update val => ∀ c ∈ m_value, Fits c.value.valueType val.valueType ∧
      (val.isKnown = true → c.value.toValue.equals val = false)
  | .setUnknown => ∃ c ∈ m_value, c.value.valueType ≠ .unknown

instance (m_value : Option StampedValue) (d : Delivery) : Decidable (Refreshes m_value d) := by
  unfold Refreshes
  cases d <;> infer_instance

/-! ### Values -/

theorem equals_of_not_isKnown {shown given : Value} (hshown : shown.isKnown = false)
    (hgiven : given.isKnown = true) :
  shown.equals given = false
  := by
  cases shown with
  | unknown type =>
    cases given with
    | unknown type' => cases hgiven
    | _ => cases type <;> rfl
  | _ => cases hshown

/-- A value is compared as the native value which is written for it. -/
theorem equals_nativeValue {shown val native : Value}
    (h : CachedValue.nativeValue shown.valueType val = some (some native)) :
  shown.equals native = shown.equals val
  := by
  unfold CachedValue.nativeValue at h
  split at h
  · cases h
  · split at h
    · cases h
      rfl
    · split at h
      · have hreal : shown.valueType = .real := by assumption
        cases h
        cases shown with
        | unknown type =>
          obtain rfl : type = .real := hreal
          rfl
        | real x => rfl
        | _ => cases hreal
      · cases h

namespace StampedValue

variable {c c' : StampedValue} {m_value : Option StampedValue} {timestamp : BitVec 32}
  {val : Value} {typ : ValueType} {changed compatible : Bool}

theorem update_none (htyped : c.value.valueType ≠ .unknown)
    (h : CachedValue.nativeValue c.value.valueType val = none) :
  c.update timestamp val = none
  := by
  rw [update, if_neg htyped]
  split <;> simp_all

theorem update_unknown (htyped : c.value.valueType ≠ .unknown)
    (h : CachedValue.nativeValue c.value.valueType val = some none) :
  c.update timestamp val = some (c.setUnknown timestamp)
  := by
  rw [update, if_neg htyped]
  split <;> simp_all

variable (timestamp) in
theorem update_native {native : Value} (htyped : c.value.valueType ≠ .unknown)
    (h : CachedValue.nativeValue c.value.valueType val = some (some native)) :
  ∃ hcached, c.update timestamp val = some (if c.value.toValue.equals native then (c, false)
    else (⟨⟨native, hcached⟩, timestamp⟩, true))
  := by
  use CachedValue.valueType_of_nativeValue h ▸ c.value.cached
  rw [update, if_neg htyped]
  split
  · rename_i h'
    cases h.symm.trans h'
  · rename_i h'
    cases h.symm.trans h'
  · rename_i h'
    cases h.symm.trans h'
    rfl

/-- Only unknown values have no native value. -/
theorem isKnown_of_nativeValue {native : Option Value}
    (h : CachedValue.nativeValue typ val = some native) :
  val.isKnown = native.isSome
  := by
  unfold CachedValue.nativeValue at h
  split at h
  · rename_i hunknown
    cases h
    simpa using hunknown
  · rename_i hknown
    have hval : val.isKnown = true := by simpa using hknown
    rw [hval]
    split at h
    · cases h
      rfl
    · split at h <;> cases h
      rfl

/-- A cached value is stamped unless it is equal to the value already. -/
theorem update_cases (h : c.update timestamp val = some (c', changed)) :
  (c'.timestamp = timestamp ∧ (val.isKnown = true → c.value.toValue.equals val = false)) ∨
    (c' = c ∧ val.isKnown = true ∧ c.value.toValue.equals val = true)
  := by
  by_cases htyped : c.value.valueType = .unknown
  · rw [update, if_pos htyped] at h
    split at h
    · cases h
    · cases h
      left
      refine ⟨rfl, fun hknown => ?_⟩
      contradiction
  · cases hnative : CachedValue.nativeValue c.value.valueType val with
    | none =>
      rw [update_none htyped hnative] at h
      cases h
    | some native =>
      have hknown := isKnown_of_nativeValue hnative
      cases native with
      | none =>
        rw [update_unknown htyped hnative, setUnknown, if_neg htyped] at h
        cases h
        left
        refine ⟨rfl, fun hval => ?_⟩
        cases hknown.symm.trans hval
      | some native =>
        obtain ⟨hcached, hupdate⟩ := update_native timestamp htyped hnative
        rw [hupdate, equals_nativeValue hnative] at h
        split at h
        · rename_i hequals
          cases h
          right
          exact ⟨rfl, hknown, hequals⟩
        · rename_i hequals
          cases h
          left
          exact ⟨rfl, fun _ => Bool.eq_false_iff.mpr hequals⟩

/-- `ensure` does to the cached value what `ensureCachedValue` does. -/
theorem ensure_value (m_value : Option StampedValue) (typ : ValueType) :
  (ensure m_value typ).map (fun x => (x.1.value, x.2)) =
    ensureCachedValue (m_value.map value) typ
  := by
  unfold ensure ensureCachedValue
  cases m_value with
  | none =>
    simp only [Option.map_none, Option.map_map]
    rfl
  | some c =>
    simp only [Option.map_some]
    split
    · rfl
    · split
      · rw [Option.map_map]
        rfl
      · split
        · rfl
        · split <;> rfl

variable (typ) in
/-- Only a placeholder is replaced. -/
theorem ensure_of_typed (htyped : c.value.valueType ≠ .unknown) :
  ∃ compatible, ensure (some c) typ = some (c, compatible)
  := by
  unfold ensure
  dsimp only
  rw [if_neg htyped]
  split
  · exact ⟨_, rfl⟩
  · split
    · exact ⟨_, rfl⟩
    · split <;> exact ⟨_, rfl⟩

/-- A new cached value is not known. -/
theorem new_cases
    (h : (CachedValueFactory typ).map (fun v => (StampedValue.mk v 0, true)) =
      some (c, compatible)) :
  compatible = true ∧ c.value.isKnown = false
  := by
  obtain ⟨v, hv, hc⟩ := Option.map_eq_some_iff.mp h
  cases hc
  refine ⟨rfl, ?_⟩
  cases typ <;> cases hv <;> rfl

/-- The cached value is kept, or it is new, in the place of none or of a placeholder. -/
theorem ensure_cases (h : ensure m_value typ = some (c, compatible)) :
  (m_value = some c ∧ (compatible = true ↔ Fits c.value.valueType typ)) ∨
    (compatible = true ∧ c.value.isKnown = false ∧
      ∀ c₀ ∈ m_value, c₀.value.valueType = .unknown ∧ Fits .unknown typ)
  := by
  cases m_value with
  | none =>
    obtain ⟨hcompatible, hknown⟩ := new_cases h
    right
    refine ⟨hcompatible, hknown, fun c₀ hc₀ => ?_⟩
    cases hc₀
  | some c₀ =>
    have hvalue := ensure_value (some c₀) typ
    rw [h] at hvalue
    obtain ⟨hfits, htyped, h'⟩ | ⟨hvoid, rfl, h'⟩ | ⟨hvoid, htyp, h'⟩ | ⟨hfits, htyped, h'⟩ :=
      ensureCachedValue_cases c₀.value typ
    · obtain ⟨b, hb⟩ := ensure_of_typed typ htyped
      rw [h] at hb
      cases hb
      rw [Option.map_some, Option.map_some, h'] at hvalue
      cases hvalue
      left
      exact ⟨rfl, iff_of_true rfl hfits⟩
    · have hkept : ensure (some c₀) .unknown = some (c₀, true) := by
        unfold ensure
        simp
      rw [h] at hkept
      cases hkept
      left
      refine ⟨rfl, iff_of_true rfl ?_⟩
      right
      left
      rfl
    · have hnew : ensure (some c₀) typ = (CachedValueFactory typ).map fun v => (⟨v, 0⟩, true) := by
        unfold ensure
        simp [hvoid, htyp, Ne.symm htyp]
      rw [hnew] at h
      obtain ⟨hcompatible, hknown⟩ := new_cases h
      right
      refine ⟨hcompatible, hknown, fun c₁ hc₁ => ?_⟩
      cases hc₁
      refine ⟨hvoid, ?_⟩
      right
      right
      left
      obtain ⟨v, hv, -⟩ := Option.map_eq_some_iff.mp h
      exact ⟨rfl, by rw [hv]; rfl⟩
    · obtain ⟨b, hb⟩ := ensure_of_typed typ htyped
      rw [h] at hb
      cases hb
      rw [Option.map_some, Option.map_some, h'] at hvalue
      cases hvalue
      left
      refine ⟨rfl, iff_of_false ?_ hfits⟩
      apply Bool.false_ne_true

end StampedValue

/-! ### Deliveries -/

variable {m_value m_value' : Option StampedValue} {timestamp : BitVec 32} {d : Delivery}
  {changed : Bool}

/-- The spec of a delivery: the cached value has the time stamp, or nothing is changed. -/
theorem deliver_cases (h : deliver m_value timestamp d = some (m_value', changed)) :
  (Refreshes m_value d ∧ ∃ c ∈ m_value', c.timestamp = timestamp) ∨
    (¬ Refreshes m_value d ∧ m_value' = m_value)
  := by
  cases d with
  | update val =>
    obtain ⟨⟨c, compatible⟩, hensure, h⟩ := Option.bind_eq_some_iff.mp h
    dsimp only at h
    split at h
    · rename_i hcompatible
      obtain ⟨⟨c', changed⟩, hupdate, h⟩ := Option.bind_eq_some_iff.mp h
      cases h
      obtain ⟨rfl, hfits⟩ | ⟨-, hknown, hvoid⟩ := StampedValue.ensure_cases hensure
      · obtain ⟨hstamp, hdiffers⟩ | ⟨rfl, hval, hequals⟩ := StampedValue.update_cases hupdate
        · left
          refine ⟨fun c₁ hc₁ => ?_, c', rfl, hstamp⟩
          cases hc₁
          exact ⟨hfits.mp hcompatible, hdiffers⟩
        · right
          refine ⟨fun hrefreshes => ?_, rfl⟩
          rw [(hrefreshes c' rfl).2 hval] at hequals
          cases hequals
      · left
        refine ⟨fun c₀ hc₀ => ?_, c', rfl, ?_⟩
        · obtain ⟨hvoid, hfits⟩ := hvoid c₀ hc₀
          rw [hvoid]
          exact ⟨hfits, equals_of_not_isKnown (not_isKnown_of_valueType hvoid)⟩
        · obtain ⟨hstamp, -⟩ | ⟨-, hval, hequals⟩ := StampedValue.update_cases hupdate
          · exact hstamp
          · rw [equals_of_not_isKnown hknown hval] at hequals
            cases hequals
    · rename_i hcompatible
      cases h
      obtain ⟨rfl, hfits⟩ | ⟨htrue, -⟩ := StampedValue.ensure_cases hensure
      · right
        refine ⟨fun hrefreshes => hcompatible ?_, rfl⟩
        exact hfits.mpr (hrefreshes c rfl).1
      · contradiction
  | setUnknown =>
    cases m_value with
    | none =>
      cases h
      right
      refine ⟨?_, rfl⟩
      rintro ⟨c, hc, -⟩
      cases hc
    | some c =>
      unfold deliver StampedValue.setUnknown at h
      dsimp only at h
      split at h
      · rename_i hvoid
        cases h
        right
        refine ⟨?_, rfl⟩
        rintro ⟨c', hc', htyped⟩
        cases hc'
        contradiction
      · rename_i htyped
        cases h
        left
        exact ⟨⟨c, rfl, htyped⟩, _, rfl, rfl⟩

/-- A delivery does to the cached value what `updateValue` does. -/
theorem deliver_value (m_value : Option StampedValue) (timestamp : BitVec 32) (val : Value) :
  (deliver m_value timestamp (.update val)).map (fun x => x.1.map StampedValue.value) =
    (updateValue (m_value.map StampedValue.value) val).map some
  := by
  have update_value : ∀ c : StampedValue,
      (c.update timestamp val).map (fun x => x.1.value) = c.value.update val := by
    intro c
    unfold CachedValue.update
    split
    · rename_i hvoid
      rw [StampedValue.update, if_pos hvoid]
      split <;> rfl
    · rename_i htyped
      split
      · rename_i hnative
        rw [StampedValue.update_none htyped hnative]
        rfl
      · rename_i hnative
        rw [StampedValue.update_unknown htyped hnative, StampedValue.setUnknown, if_neg htyped]
        rfl
      · rename_i hnative
        obtain ⟨hcached, h⟩ := StampedValue.update_native timestamp htyped hnative
        rw [h]
        split <;> rfl
  have hensure := StampedValue.ensure_value m_value val.valueType
  unfold updateValue
  cases h : StampedValue.ensure m_value val.valueType with
  | none =>
    rw [h] at hensure
    rw [← hensure]
    simp only [deliver, h]
    rfl
  | some x =>
    obtain ⟨c, compatible⟩ := x
    rw [h] at hensure
    rw [← hensure]
    simp only [deliver, h]
    cases compatible with
    | false => rfl
    | true =>
      change _ = (c.value.update val).map some
      rw [← update_value]
      change Option.map _ ((c.update timestamp val).bind _) = _
      cases c.update timestamp val <;> rfl

theorem isStale_stamped {c : StampedValue} (hc : c ∈ m_value) (hstamp : c.timestamp = timestamp) :
  isStale m_value timestamp = false
  := by
  cases hc
  rw [isStale, hstamp]
  simp

/-- The exact condition under which a value which has been delivered is not stale. -/
theorem isStale_deliver_iff (h : deliver m_value timestamp d = some (m_value', changed)) :
  isStale m_value' timestamp = false ↔ Refreshes m_value d ∨ isStale m_value timestamp = false
  := by
  obtain ⟨hrefreshes, c, hc, hstamp⟩ | ⟨hrefreshes, rfl⟩ := deliver_cases h
  · apply iff_of_true
    · exact isStale_stamped hc hstamp
    · left
      exact hrefreshes
  · simp [hrefreshes]

/-! ### The machine -/

structure StampedCache (S : Type) where
  /-- The `m_value` of the entry of a state, which is null too when there is no entry yet. -/
  value : S → Option StampedValue
  cycleCount : BitVec 32
  /-- The number of calls of `lookupNow` for a state in this cycle. -/
  requests : S → Nat
  /-- Whether a value has been delivered for a state in this cycle. -/
  delivered : S → Bool

namespace StampedCache

variable {S : Type} [DecidableEq S]

inductive Event (S : Type) where
  | registerLookup (state : S)
  | deliver (state : S) (d : Delivery)
  | incrementCycleCount

/-- The interface is asked for the value when it is stale. -/
def registerLookup (s : StampedCache S) (state : S) : StampedCache S :=
  if isStale (s.value state) s.cycleCount then
    { s with requests := Function.update s.requests state (s.requests state + 1) }
  else s

def step (s : StampedCache S) : Event S → Option (StampedCache S)
  | .registerLookup state => some (s.registerLookup state)
  | .deliver state d =>
    (Intfc.deliver (s.value state) s.cycleCount d).map fun x =>
      { s with
        value := Function.update s.value state x.1
        delivered := Function.update s.delivered state true }
  | .incrementCycleCount =>
    some { s with
      cycleCount := s.cycleCount + 1
      requests := fun _ => 0
      delivered := fun _ => false }

def start (S : Type) : StampedCache S := ⟨fun _ => none, 1, fun _ => 0, fun _ => false⟩

/-- What has been delivered in this cycle is not stale, at most one request is made in it, and
no time stamp decreases in the runs of events which are `Allowed`. -/
structure Fresh (Allowed : StampedCache S → Event S → Prop) (s : StampedCache S) : Prop where
  not_stale : ∀ state, s.delivered state = true → isStale (s.value state) s.cycleCount = false
  requests_le : ∀ state, s.requests state ≤ 1
  timestamp_le : ∀ s', StateMachine.Reachable step (· = s) Allowed s' →
    ∀ state, ∀ c ∈ s.value state, ∃ c' ∈ s'.value state, c.timestamp ≤ c'.timestamp

/-- A delivery is given the time stamp unless the value has it, a lookup is registered when the
requests of the cycle have been answered, and the cycle count does not overflow. -/
def Refreshing (s : StampedCache S) : Event S → Prop
  | .registerLookup state => s.requests state = 0 ∨ s.delivered state = true
  | .deliver state d => Refreshes (s.value state) d ∨ isStale (s.value state) s.cycleCount = false
  | .incrementCycleCount => s.cycleCount ≠ BitVec.allOnes 32

instance (s : StampedCache S) (e : Event S) : Decidable (s.Refreshing e) := by
  unfold Refreshing
  cases e <;> infer_instance

/-- The invariant of the entries. -/
structure Stamped (s : StampedCache S) : Prop where
  not_stale : ∀ state, s.delivered state = true → isStale (s.value state) s.cycleCount = false
  requests_le : ∀ state, s.requests state ≤ 1
  le_cycleCount : ∀ state, ∀ c ∈ s.value state, c.timestamp ≤ s.cycleCount

/-- The time stamps have not decreased from `s` to `s'`. -/
def Precedes (s s' : StampedCache S) : Prop :=
  ∀ state, ∀ c ∈ s.value state, ∃ c' ∈ s'.value state, c.timestamp ≤ c'.timestamp

variable {s s' : StampedCache S} {e : Event S}

/-- The step lemma. -/
theorem Stamped.step (hs : s.Stamped) (hrefreshing : s.Refreshing e) (h : s.step e = some s') :
  s'.Stamped ∧ s.Precedes s'
  := by
  cases e with
  | registerLookup state =>
    cases h
    unfold registerLookup
    split
    · rename_i hstale
      have hdelivered : s.delivered state ≠ true := by
        intro hdelivered
        rw [hs.not_stale state hdelivered] at hstale
        cases hstale
      obtain hnone | hdelivered' := hrefreshing
      · refine ⟨⟨hs.not_stale, fun state' => ?_, hs.le_cycleCount⟩, fun _ c hc => ⟨c, hc, BitVec.le_refl _⟩⟩
        dsimp only
        rw [Function.update_apply]
        split
        · omega
        · exact hs.requests_le state'
      · contradiction
    · exact ⟨hs, fun _ c hc => ⟨c, hc, BitVec.le_refl _⟩⟩
  | deliver state d =>
    obtain ⟨⟨m_value, changed⟩, hdeliver, rfl⟩ := Option.map_eq_some_iff.mp h
    have hfresh := (isStale_deliver_iff hdeliver).mpr hrefreshing
    have hcases := deliver_cases hdeliver
    refine ⟨⟨fun state' => ?_, hs.requests_le, fun state' => ?_⟩, fun state' => ?_⟩
    all_goals
      dsimp only
      rw [Function.update_apply]
    · rw [Function.update_apply]
      split
      · intro _
        exact hfresh
      · exact hs.not_stale state'
    · split
      · obtain ⟨-, c, hc, hstamp⟩ | ⟨-, rfl⟩ := hcases
        · intro c' hc'
          cases hc.symm.trans hc'
          rw [hstamp]
          exact BitVec.le_refl _
        · exact hs.le_cycleCount state
      · exact hs.le_cycleCount state'
    · intro c hc
      split
      · rename_i heq
        subst heq
        obtain ⟨-, c', hc', hstamp⟩ | ⟨-, rfl⟩ := hcases
        · refine ⟨c', hc', ?_⟩
          rw [hstamp]
          exact hs.le_cycleCount state' c hc
        · exact ⟨c, hc, BitVec.le_refl _⟩
      · exact ⟨c, hc, BitVec.le_refl _⟩
  | incrementCycleCount =>
    cases h
    refine ⟨⟨fun _ h => ?_, fun _ => Nat.zero_le 1, fun state c hc => ?_⟩,
      fun _ c hc => ⟨c, hc, BitVec.le_refl _⟩⟩
    · cases h
    · have hle := hs.le_cycleCount state c hc
      have hmax : s.cycleCount ≠ 4294967295 := hrefreshing
      change c.timestamp ≤ s.cycleCount + 1
      bv_omega

omit [DecidableEq S] in
theorem stamped_start :
  (start S).Stamped
  := by
  refine ⟨fun _ h => ?_, fun _ => Nat.zero_le 1, fun _ _ h => ?_⟩
  · cases h
  · cases h

theorem stamped_of_reachable {s₀ : StampedCache S} (hs₀ : s₀.Stamped)
    (h : StateMachine.Reachable step (· = s₀) Refreshing s) :
  s.Stamped ∧ s₀.Precedes s
  := by
  apply h.invariant
  · rintro _ rfl
    exact ⟨hs₀, fun _ c hc => ⟨c, hc, BitVec.le_refl _⟩⟩
  · rintro s e s' ⟨hs, hprecedes⟩ hrefreshing hstep
    obtain ⟨hs', hprecedes'⟩ := hs.step hrefreshing hstep
    refine ⟨hs', fun state c hc => ?_⟩
    obtain ⟨c', hc', hle⟩ := hprecedes state c hc
    obtain ⟨c'', hc'', hle'⟩ := hprecedes' state c' hc'
    exact ⟨c'', hc'', BitVec.le_trans hle hle'⟩

/-- In the runs whose deliveries refresh what is stale, the cache is fresh. -/
theorem cacheFresh (h : StateMachine.Reachable step (· = start S) Refreshing s) :
  s.Fresh Refreshing
  := by
  obtain ⟨hs, -⟩ := stamped_of_reachable stamped_start h
  refine ⟨hs.not_stale, hs.requests_le, fun s' hs' => ?_⟩
  exact (stamped_of_reachable hs hs').2

/-- Two cycles with one request each, which are answered with different values. -/
theorem cacheFresh_changed :
  ∃ s : StampedCache Unit, StateMachine.checkedRun step Refreshing
      [.registerLookup (), .deliver () (.update (.integer 5)), .registerLookup (),
        .incrementCycleCount, .registerLookup (), .deliver () (.update (.integer 6)),
        .registerLookup ()] (start Unit) = some s ∧ s.Fresh Refreshing
  := by
  have hrun : (StateMachine.checkedRun step Refreshing
      [.registerLookup (), .deliver () (.update (.integer 5)), .registerLookup (),
        .incrementCycleCount, .registerLookup (), .deliver () (.update (.integer 6)),
        .registerLookup ()] (start Unit)).isSome = true := by
    decide +kernel
  obtain ⟨s, hs⟩ := Option.isSome_iff_exists.mp hrun
  use s, hs
  exact cacheFresh (.of_checkedRun (.init rfl) hs)

/-- A value which is delivered in the next cycle without a change stays stale, and the interface
is asked for it again. -/
theorem not_cacheFresh :
  ¬ ∀ s : StampedCache Unit, StateMachine.Reachable step (· = start Unit) (fun _ _ => True) s →
    s.Fresh fun _ _ => True
  := by
  intro h
  have hrun : (StateMachine.run step
      [.deliver () (.update (.integer 5)), .incrementCycleCount, .registerLookup (),
        .deliver () (.update (.integer 5)), .registerLookup ()] (start Unit)).map
        (fun s => (s.delivered (), s.requests ())) = some (true, 2) := by
    decide +kernel
  obtain ⟨s, hs, hhistory⟩ := Option.map_eq_some_iff.mp hrun
  have hle := (h s (.of_run (.init rfl) hs)).requests_le ()
  have hrequests : s.requests () = 2 := congrArg Prod.snd hhistory
  omega

end StampedCache

end Plexil.Intfc
