import Plexil.Intfc.ThresholdCache
import Plexil.Util.StateMachine

/-!
# Change lookups

An entry of the state cache keeps the value of a state, whose type is Integer or Real, and
the lookups which are registered on it.  A change lookup, `LookupOnChange`, has a tolerance:
it keeps the last value which it has propagated and the thresholds around it.  The entry
passes the tightest thresholds of its lookups on to the dispatcher.

The tolerance of a lookup is an expression; `tolerance` is its value as the lookup sees it.
The lookup is notified of a change of its tolerance only when it has listeners itself.
-/

namespace Plexil.Intfc

variable {NUM : Type} [ThresholdNumber NUM]

open ThresholdNumber

/-! ### Lookups -/

/-- A lookup of the state: a `LookupOnChange` or a `LookupImpl`, which has no tolerance. -/
structure Lookup (NUM : Type) where
  activeCount : Nat
  onChange : Bool
  hasListeners : Bool
  tolerance : Option NUM
  /-- `m_thresholds`, which may be null. -/
  thresholds : Option (ThresholdCache NUM)
  /-- `m_cachedValue`, which may be null, of a value which may be unknown. -/
  cachedValue : Option (Option NUM)
  deriving DecidableEq

namespace Lookup

def isActive (l : Lookup NUM) : Bool := 0 < l.activeCount

/-- `isKnown`, which `LookupOnChange` inherits, where `value` is the value of the entry. -/
def isKnown (l : Lookup NUM) (value : Option NUM) : Bool := l.isActive && value.isSome

/-- `getValue` prefers the value which is cached locally. -/
def getValue (l : Lookup NUM) (value : Option NUM) : Option NUM :=
  if l.isActive then
    match l.cachedValue with
    | some cached => cached
    | none => value
  else none

/-- `updateInternal`: the lookup afterwards, whether it has called `updateThresholds` of the
entry last, and the result. -/
def updateInternal (l : Lookup NUM) (value : Option NUM) (valueChanged : Bool) :
    Lookup NUM × Bool × Bool :=
  match l.thresholds with
  | some t =>
    if l.tolerance.isSome then
      let t :=
        if t.toleranceChanged l.tolerance then t.setThresholds l.cachedValue.join l.tolerance
        else t
      if thresholdsExceeded t value then
        ({ l with
            cachedValue := some value
            thresholds := some (t.setThresholds value l.tolerance) }, true, true)
      else
        -- the thresholds may have been set anew, but the entry is not told
        ({ l with thresholds := some t }, false, false)
    else ({ l with thresholds := none, cachedValue := none }, true, valueChanged)
  | none =>
    if value.isSome && l.tolerance.isSome then
      ({ l with
          cachedValue := some value
          thresholds := some (ThresholdCache.new.setThresholds value l.tolerance) }, true,
        valueChanged)
    else (l, false, valueChanged)

/-- What `handleDeactivate` does to the lookup itself. -/
def clearThresholds (l : Lookup NUM) : Lookup NUM :=
  if l.thresholds.isSome then { l with thresholds := none, cachedValue := none } else l

end Lookup

/-! ### The entry -/

/-- The entry of a state with its lookups, the thresholds which the dispatcher was sent last
and the lookups which have published a change, the latest first. -/
structure StateCacheEntry (NUM : Type) where
  value : Option NUM
  /-- `m_lookups`, the registered lookups. -/
  lookups : List Nat
  /-- `m_highThreshold` and `m_lowThreshold`, which may be null. -/
  thresholds : Option (NUM × NUM)
  lookup : Nat → Lookup NUM
  sent : Option (NUM × NUM)
  published : List Nat

namespace StateCacheEntry

def setLookup (s : StateCacheEntry NUM) (i : Nat) (l : Lookup NUM) : StateCacheEntry NUM :=
  { s with lookup := Function.update s.lookup i l }

/-- `publishChange` of the lookup `i`. -/
def publishChange (s : StateCacheEntry NUM) (i : Nat) : StateCacheEntry NUM :=
  if (s.lookup i).isActive then { s with published := i :: s.published } else s

/-- `getThresholds` of the lookup `i`. -/
def getThresholds (s : StateCacheEntry NUM) (i : Nat) : Option (NUM × NUM) :=
  let l := s.lookup i
  if l.onChange && l.isActive then l.thresholds.map fun t => (t.high, t.low) else none

/-- One round of the loop over the lookups which have thresholds. -/
def tighten : Option (NUM × NUM) → NUM × NUM → Option (NUM × NUM)
  | some (ihi, ilo), (newihi, newilo) =>
    some (if lt newihi ihi then newihi else ihi, if lt ilo newilo then newilo else ilo)
  | none, thresholds => some thresholds

/-- `integerUpdateThresholds` and `realUpdateThresholds`, and what `updateThresholds` does
afterwards.  It is called when the value has been known, so it has its type. -/
def updateThresholds (s : StateCacheEntry NUM) : StateCacheEntry NUM :=
  match (s.lookups.filterMap s.getThresholds).foldl tighten none with
  | some thresholds => { s with thresholds := some thresholds, sent := some thresholds }
  | none =>
    if s.thresholds.isSome then { s with thresholds := none, sent := none }
    else { s with thresholds := none }

/-- `updateInternal` of the lookup `i`. -/
def updateInternal (s : StateCacheEntry NUM) (i : Nat) (valueChanged : Bool) :
    StateCacheEntry NUM × Bool :=
  let (l, updated, result) := (s.lookup i).updateInternal s.value valueChanged
  let s := s.setLookup i l
  (if updated then s.updateThresholds else s, result)

/-- `valueChanged` of the lookup `i`. -/
def valueChanged (s : StateCacheEntry NUM) (i : Nat) : StateCacheEntry NUM :=
  let l := s.lookup i
  if l.onChange then
    if l.isActive then
      let (s, result) := s.updateInternal i true
      if result then s.publishChange i else s
    else s
  else s.publishChange i

/-- `handleChange` of the lookup `i` when its tolerance has changed but not its state. -/
def handleChange (s : StateCacheEntry NUM) (i : Nat) : StateCacheEntry NUM :=
  let (s, result) := s.updateInternal i false
  if result then s.publishChange i else s

/-! ### Values -/

/-- Whether `update` or `setUnknown` of the cached value says that it has changed. -/
def differs : (old new : Option NUM) → Bool
  | old, none => old.isSome
  | none, some _ => true
  | some old, some new => !eq old new

def notify (s : StateCacheEntry NUM) : StateCacheEntry NUM :=
  s.lookups.foldl valueChanged s

/-- `update` or `setUnknown`. -/
def update (s : StateCacheEntry NUM) (value : Option NUM) : StateCacheEntry NUM :=
  if differs s.value value then { s with value := value }.notify else s

/-! ### Activation -/

/-- `registerLookup`, where `responses` are the values which the interface returns while
`lookupNow` is called, if it is. -/
def registerLookup (s : StateCacheEntry NUM) (i : Nat) (responses : List (Option NUM)) :
    StateCacheEntry NUM :=
  responses.foldl update { s with lookups := s.lookups ++ [i] }

/-- The list of lookups without `i`, which is looked for at the end first. -/
def removeLookup (lookups : List Nat) (i : Nat) : List Nat :=
  if lookups.getLast? = some i then lookups.dropLast else lookups.erase i

def unregisterLookup (s : StateCacheEntry NUM) (i : Nat) : StateCacheEntry NUM :=
  let s := { s with lookups := removeLookup s.lookups i }
  if s.lookups.isEmpty then
    -- the dispatcher is not told
    { s with thresholds := none }
  else if s.thresholds.isSome then s.updateThresholds
  else s

/-- The value of the tolerance of the lookup `i` becomes `tolerance`. -/
def setTolerance (s : StateCacheEntry NUM) (i : Nat) (tolerance : Option NUM) :
    StateCacheEntry NUM :=
  s.setLookup i { s.lookup i with tolerance := tolerance }

/-- What `LookupOnChange::handleActivate` does once the tolerance is active, where `changed`
says whether the tolerance has notified its listeners. -/
def toleranceActivated (s : StateCacheEntry NUM) (i : Nat) (changed : Bool) :
    StateCacheEntry NUM :=
  let s := if changed && (s.lookup i).hasListeners then s.handleChange i else s
  let s := (s.updateInternal i true).1
  if (s.lookup i).isKnown s.value then s.publishChange i else s

/-- `handleActivate`, where `tolerance` is the value of the tolerance when it is active. -/
def handleActivate (s : StateCacheEntry NUM) (i : Nat) (responses : List (Option NUM))
    (tolerance : Option NUM) (changed : Bool) : StateCacheEntry NUM :=
  let s := s.registerLookup i responses
  if (s.lookup i).onChange then (s.setTolerance i tolerance).toleranceActivated i changed else s

def activate (s : StateCacheEntry NUM) (i : Nat) (responses : List (Option NUM))
    (tolerance : Option NUM) (changed : Bool) : StateCacheEntry NUM :=
  let l := s.lookup i
  let s' := s.setLookup i { l with activeCount := l.activeCount + 1 }
  if l.activeCount = 0 then s'.handleActivate i responses tolerance changed else s'

def handleDeactivate (s : StateCacheEntry NUM) (i : Nat) : StateCacheEntry NUM :=
  let s := s.unregisterLookup i
  s.setLookup i (s.lookup i).clearThresholds

/-- `deactivate`, which is an error when the lookup is not active. -/
def deactivate (s : StateCacheEntry NUM) (i : Nat) : Option (StateCacheEntry NUM) :=
  let l := s.lookup i
  if l.activeCount = 0 then none
  else
    let s := s.setLookup i { l with activeCount := l.activeCount - 1 }
    some (if l.activeCount = 1 then s.handleDeactivate i else s)

/-- The tolerance of the lookup `i` changes, and it notifies the lookup when it listens. -/
def changeTolerance (s : StateCacheEntry NUM) (i : Nat) (tolerance : Option NUM) :
    StateCacheEntry NUM :=
  let s := s.setTolerance i tolerance
  let l := s.lookup i
  if l.onChange && l.isActive && l.hasListeners then s.handleChange i else s

/-! ### The machine -/

/-- What happens to an entry and its lookups. -/
inductive Event (NUM : Type) where
  | activate (i : Nat) (responses : List (Option NUM)) (tolerance : Option NUM) (changed : Bool)
  | deactivate (i : Nat)
  | update (value : Option NUM)
  | changeTolerance (i : Nat) (tolerance : Option NUM)
  /-- The first listener of the lookup `i` is added, or its last one is removed. -/
  | setListening (i : Nat) (hasListeners : Bool)

def step (s : StateCacheEntry NUM) : Event NUM → Option (StateCacheEntry NUM)
  | .activate i responses tolerance changed => some (s.activate i responses tolerance changed)
  | .deactivate i => s.deactivate i
  | .update value => some (s.update value)
  | .changeTolerance i tolerance => some (s.changeTolerance i tolerance)
  | .setListening i hasListeners =>
    some (s.setLookup i { s.lookup i with hasListeners := hasListeners })

/-- An entry without active lookups. -/
def Init (s : StateCacheEntry NUM) : Prop :=
  s.lookups = [] ∧ s.thresholds = none ∧ s.sent = none ∧
    ∀ i, (s.lookup i).activeCount = 0 ∧ (s.lookup i).thresholds = none ∧
      (s.lookup i).cachedValue = none

end StateCacheEntry

/-- An entry without a value, whose lookups have listeners but are not active. -/
def idleEntry : StateCacheEntry Integer where
  value := none
  lookups := []
  thresholds := none
  lookup _ := ⟨0, true, true, none, none, none⟩
  sent := none
  published := []

theorem idleEntry_init :
  idleEntry.Init
  := ⟨rfl, rfl, rfl, fun _ => ⟨rfl, rfl, rfl⟩⟩

end Plexil.Intfc
