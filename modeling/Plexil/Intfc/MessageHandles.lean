import Plexil.Intfc.StateCache
import Mathlib.Data.List.Nodup

/-!
# Message handles

The data of a message is written to the state cache when the message gets a handle, and it
is erased when the handle is released.  An entry whose type does not fit keeps its value, and
the release stops at entries on which lookups are registered; so what an earlier message has
left under the handle may be taken for data of the next one.
-/

namespace Plexil.Intfc.StateCache

variable {S : Type} [DecidableEq S] {c c' : StateCache S} {s t : S}

/-- The cached value of the entry of a state, if any. -/
def cached (c : StateCache S) (s : S) : Option CachedValue := (c.map s).bind (·.value)

omit [DecidableEq S] in
theorem value_eq (c : StateCache S) (s : S) :
  c.value s = cachedValue (c.cached s)
  := by
  unfold value cached
  cases c.map s <;> rfl

theorem cached_setEntry (c : StateCache S) (s t : S) (e : StateCacheEntryImpl) :
  (c.setEntry s e).cached t = if t = s then e.value else c.cached t
  := by
  unfold cached setEntry
  obtain rfl | hne := eq_or_ne t s
  · simp
  · simp [hne]

theorem cached_ensureStateCacheEntry (c : StateCache S) (s t : S) :
  (c.ensureStateCacheEntry s).cached t = c.cached t
  := by
  unfold ensureStateCacheEntry
  split
  · rfl
  · rename_i hsome
    have hnone : c.cached s = none := by
      rw [cached, Option.not_isSome_iff_eq_none.mp hsome]
      rfl
    change (c.setEntry s _).cached t = _
    rw [cached_setEntry]
    split
    · rename_i heq
      rw [heq, hnone]
    · rfl

/-- What is written is the update of the cached value of the state. -/
theorem lookupReturn_eq (c : StateCache S) (s : S) (val : Value) :
  ∃ e, (c.ensureStateCacheEntry s).map s = some e ∧
    c.lookupReturn s val = (updateValue (c.cached s) val).map fun value =>
      (c.ensureStateCacheEntry s).setEntry s { e with value := some value }
  := by
  have hsome : ((c.ensureStateCacheEntry s).map s).isSome = true := by
    unfold ensureStateCacheEntry
    split
    · assumption
    · simp [setEntry]
  obtain ⟨e, he⟩ := Option.isSome_iff_exists.mp hsome
  use e, he
  have hvalue : c.cached s = e.value := by
    rw [← cached_ensureStateCacheEntry c s, cached, he]
    rfl
  unfold lookupReturn
  simp only [he, hvalue, Option.bind_eq_bind, Option.bind_some]
  cases updateValue e.value val <;> rfl

theorem lookupReturn_spec {val : Value} (h : c.lookupReturn s val = some c') :
  ∃ value, updateValue (c.cached s) val = some value ∧ c'.cached s = some value ∧
    ∀ t, t ≠ s → c'.cached t = c.cached t
  := by
  obtain ⟨e, -, heq⟩ := lookupReturn_eq c s val
  rw [heq] at h
  obtain ⟨value, hvalue, rfl⟩ := Option.map_eq_some_iff.mp h
  use value, hvalue
  constructor
  · rw [cached_setEntry, if_pos rfl]
  · intro t hne
    rw [cached_setEntry, if_neg hne, cached_ensureStateCacheEntry]

theorem lookupReturn_isSome {val : Value} {value : CachedValue}
    (h : updateValue (c.cached s) val = some value) :
  ∃ c', c.lookupReturn s val = some c'
  := by
  obtain ⟨e, -, heq⟩ := lookupReturn_eq c s val
  rw [heq, h]
  exact ⟨_, rfl⟩

/-! ### Writing several values -/

/-- Writes values to the entries of states. -/
def writeAll (c : StateCache S) (values : List (S × Value)) : Option (StateCache S) :=
  values.foldlM (fun c entry => c.lookupReturn entry.1 entry.2) c

theorem writeAll_cons (c : StateCache S) (entry : S × Value) (values : List (S × Value)) :
  c.writeAll (entry :: values) =
    (c.lookupReturn entry.1 entry.2).bind fun c => c.writeAll values
  := rfl

/-- Only the entries of the states which are written to change. -/
theorem cached_writeAll {values : List (S × Value)} (h : c.writeAll values = some c')
    (hs : s ∉ values.map Prod.fst) :
  c'.cached s = c.cached s
  := by
  induction values generalizing c with
  | nil =>
    cases h
    rfl
  | cons entry values ih =>
    rw [writeAll_cons] at h
    obtain ⟨c₁, h₁, h⟩ := Option.bind_eq_some_iff.mp h
    rw [List.map_cons, List.mem_cons, not_or] at hs
    obtain ⟨-, -, -, hother⟩ := lookupReturn_spec h₁
    rw [ih h hs.2, hother s hs.1]

/-- The values which are written to different states are shown afterwards exactly when each
entry accepts its value beforehand. -/
theorem writeAll_iff {values : List (S × Value)} (hnodup : (values.map Prod.fst).Nodup) :
  (∃ c', c.writeAll values = some c' ∧ ∀ entry ∈ values, Shows (c'.value entry.1) entry.2)
  ↔ ∀ entry ∈ values, Accepts (c.cached entry.1) entry.2
  := by
  induction values generalizing c with
  | nil => simp [writeAll]
  | cons entry values ih =>
    obtain ⟨hnot, hnodup⟩ := List.nodup_cons.mp hnodup
    rw [List.forall_mem_cons]
    constructor
    · rintro ⟨c', h, hshows⟩
      obtain ⟨hhead, htail⟩ := List.forall_mem_cons.mp hshows
      obtain ⟨c₁, h₁, h⟩ := Option.bind_eq_some_iff.mp h
      obtain ⟨value, hvalue, hwritten, hother⟩ := lookupReturn_spec h₁
      constructor
      · apply (updateValue_iff _ _).mp
        use value, hvalue
        rw [value_eq, cached_writeAll h hnot, hwritten] at hhead
        exact hhead
      · have haccepts := (ih hnodup).mp ⟨c', h, htail⟩
        intro entry' hentry'
        rw [← hother entry'.1]
        · apply haccepts entry' hentry'
        · rintro heq
          apply hnot
          rw [← heq]
          apply List.mem_map_of_mem hentry'
    · rintro ⟨hhead, htail⟩
      obtain ⟨value, hvalue, hshown⟩ := (updateValue_iff _ _).mpr hhead
      obtain ⟨c₁, h₁⟩ := lookupReturn_isSome hvalue
      obtain ⟨value', hvalue', hwritten, hother⟩ := lookupReturn_spec h₁
      obtain rfl : value = value' := Option.some.inj (hvalue.symm.trans hvalue')
      obtain ⟨c', h, hshows⟩ := (@ih c₁ hnodup).mpr (by
        intro entry' hentry'
        rw [hother entry'.1]
        · apply htail entry' hentry'
        · rintro heq
          apply hnot
          rw [← heq]
          apply List.mem_map_of_mem hentry')
      use c'
      rw [writeAll_cons, h₁]
      use h
      apply List.forall_mem_cons.mpr ⟨_, hshows⟩
      rw [value_eq, cached_writeAll h hnot, hwritten]
      exact hshown

/-! ### Messages -/

variable [MessageStates S]

open MessageStates

/-- The data of the message are shown under the handle, and no parameters beyond its own. -/
structure Carries (c : StateCache S) (handle : StringValue) (msg : Message) : Prop where
  text : Shows (c.value (state (.text handle))) (.string msg.message.name)
  sender : Shows (c.value (state (.sender handle))) (.string msg.sender)
  arrived : Shows (c.value (state (.arrived handle))) (.real msg.timestamp)
  parameterCount : ∃ count : Integer, count.toInt = msg.message.parameters.length ∧
    Shows (c.value (state (.parameterCount handle))) (.integer count)
  parameter : ∀ (i : Nat) (val : Value), msg.message.parameters[i]? = some val →
    ∀ index : Integer, index.toInt = i → Shows (c.value (state (.parameter handle index))) val
  beyond : ∀ index : Integer, (msg.message.parameters.length : Int) ≤ index.toInt →
    (c.value (state (.parameter handle index))).isKnown = false

/-- No data is known under the handle. -/
def Cleared (c : StateCache S) (handle : StringValue) : Prop :=
  ∀ k : MessageState, k.handle = handle → (c.value (state k)).isKnown = false

/-- When a message may be assigned a handle: the number of its parameters is an Integer, the
entries accept their values, and no parameters beyond its own are known. -/
structure Assignable (c : StateCache S) (handle : StringValue) (msg : Message) : Prop where
  length_lt : msg.message.parameters.length < 2 ^ 31
  accepts : ∀ entry ∈ messageValues msg handle, Accepts (c.cached (state entry.1)) entry.2
  beyond : ∀ index : Integer, (msg.message.parameters.length : Int) ≤ index.toInt →
    (c.value (state (.parameter handle index))).isKnown = false

/-- When a handle may be released: the entry of the count of parameters, if any, holds an
Integer, and the entries which are known are the ones which the release erases. -/
structure Releasable (c : StateCache S) (handle : StringValue) : Prop where
  readable : ∀ e, c.map (state (.parameterCount handle)) = some e →
    ∃ value, e.value = some value ∧ value.getInteger.isSome = true
  erased : ∀ k : MessageState, k.handle = handle → (c.value (state k)).isKnown = true →
    c.erases handle (state k) = true

/-! ### Assigning a handle -/

/-- The states of the values of a message, with their entries. -/
def messageEntries (msg : Message) (handle : StringValue) : List (S × Value) :=
  (messageValues msg handle).map fun entry => (state entry.1, entry.2)

theorem assignMessageHandle_eq (c : StateCache S) (msg : Message) (handle : StringValue) :
  c.assignMessageHandle msg handle = c.writeAll (messageEntries msg handle)
  := by
  rw [writeAll, messageEntries, List.foldlM_map]
  rfl

theorem map_fst_messageValues (msg : Message) (handle : StringValue) :
  (messageValues msg handle).map Prod.fst =
    [.text handle, .parameterCount handle] ++
    (List.range msg.message.parameters.length).map
      (fun i => .parameter handle (BitVec.ofNat 32 i)) ++
    [.sender handle, .arrived handle]
  := by
  rw [messageValues, List.map_append, List.map_append]
  congr 2
  apply List.ext_getElem
  · simp
  · simp

/-- The Integer of a value is the one of the natural number. -/
theorem eq_ofNat_of_toInt {n : Integer} {i : Nat} (h : n.toInt = i) :
  n = BitVec.ofNat 32 i
  := by
  rw [← BitVec.ofInt_natCast, ← h, BitVec.ofInt_toInt]

theorem toInt_ofNat_of_lt {i : Nat} (h : i < 2 ^ 31) :
  (BitVec.ofNat 32 i : Integer).toInt = i
  := by
  rw [BitVec.toInt_eq_toNat_of_lt]
  · rw [BitVec.toNat_ofNat, Nat.mod_eq_of_lt (by omega)]
  · rw [BitVec.toNat_ofNat, Nat.mod_eq_of_lt (by omega)]
    omega

omit [DecidableEq S] in
theorem nodup_messageEntries {msg : Message} {handle : StringValue}
    (h : msg.message.parameters.length < 2 ^ 31) :
  ((messageEntries (S := S) msg handle).map Prod.fst).Nodup
  := by
  have hvalues : ((messageValues msg handle).map Prod.fst).Nodup := by
    have hparameters : ((List.range msg.message.parameters.length).map
        (fun i => MessageState.parameter handle (BitVec.ofNat 32 i))).Nodup := by
      apply List.Nodup.map_on _ List.nodup_range
      intro i hi j hj heq
      rw [List.mem_range] at hi hj
      have hindex := congrArg BitVec.toInt (MessageState.parameter.inj heq).2
      rw [toInt_ofNat_of_lt (hi.trans h), toInt_ofNat_of_lt (hj.trans h)] at hindex
      exact Int.ofNat.inj hindex
    rw [map_fst_messageValues]
    simp [List.nodup_append, hparameters]
  have heq : (messageEntries (S := S) msg handle).map Prod.fst =
      ((messageValues msg handle).map Prod.fst).map state := by
    rw [messageEntries, List.map_map, List.map_map]
    rfl
  rw [heq]
  apply hvalues.map MessageStates.injective

omit [DecidableEq S] in
/-- A message is carried when its number of parameters is an Integer and the values of its
entries are shown. -/
theorem carries_iff {msg : Message} {handle : StringValue} :
  c.Carries handle msg ↔
    msg.message.parameters.length < 2 ^ 31 ∧
    (∀ entry ∈ messageEntries msg handle, Shows (c.value entry.1) entry.2) ∧
    ∀ index : Integer, (msg.message.parameters.length : Int) ≤ index.toInt →
      (c.value (state (.parameter handle index))).isKnown = false
  := by
  have hforall : (∀ entry ∈ messageEntries msg handle, Shows (c.value entry.1) entry.2) ↔
      ∀ entry ∈ messageValues msg handle, Shows (c.value (state entry.1)) entry.2 := by
    rw [messageEntries, List.forall_mem_map]
  rw [hforall]
  constructor
  · intro h
    obtain ⟨count, hcount, hshows⟩ := h.parameterCount
    have hlt : msg.message.parameters.length < 2 ^ 31 := by
      have := BitVec.toInt_lt (x := count)
      omega
    refine ⟨hlt, ?_, h.beyond⟩
    rw [eq_ofNat_of_toInt hcount] at hshows
    unfold messageValues
    simp only [List.forall_mem_append, List.forall_mem_cons, List.mem_mapIdx]
    refine ⟨⟨⟨h.text, hshows, by simp⟩, ?_⟩, h.sender, h.arrived, by simp⟩
    rintro _ ⟨i, hi, rfl⟩
    apply h.parameter i _ (List.getElem?_eq_getElem hi)
    apply toInt_ofNat_of_lt (hi.trans hlt)
  · rintro ⟨hlt, hshows, hbeyond⟩
    unfold messageValues at hshows
    simp only [List.forall_mem_append, List.forall_mem_cons, List.mem_mapIdx] at hshows
    obtain ⟨⟨⟨htext, hcount, -⟩, hparameters⟩, hsender, harrived, -⟩ := hshows
    constructor
    · exact htext
    · exact hsender
    · exact harrived
    · exact ⟨_, toInt_ofNat_of_lt hlt, hcount⟩
    · intro i val hval index hindex
      obtain ⟨hi, rfl⟩ := List.getElem?_eq_some_iff.mp hval
      rw [eq_ofNat_of_toInt hindex]
      apply hparameters _ ⟨i, hi, rfl⟩
    · exact hbeyond

omit [DecidableEq S] in
/-- The entries of a message are not those of parameters beyond its own. -/
theorem beyond_notMem {msg : Message} {handle : StringValue} {index : Integer}
    (h : msg.message.parameters.length < 2 ^ 31)
    (hindex : (msg.message.parameters.length : Int) ≤ index.toInt) :
  state (.parameter handle index) ∉ (messageEntries (S := S) msg handle).map Prod.fst
  := by
  have heq : (messageEntries (S := S) msg handle).map Prod.fst =
      ((messageValues msg handle).map Prod.fst).map state := by
    rw [messageEntries, List.map_map, List.map_map]
    rfl
  rw [heq, map_fst_messageValues, List.mem_map_of_injective MessageStates.injective]
  simp only [List.mem_append, List.mem_cons, List.mem_map, List.mem_range, not_or]
  refine ⟨⟨by simp, ?_⟩, by simp⟩
  rintro ⟨i, hi, heq⟩
  obtain ⟨-, rfl⟩ := MessageState.parameter.inj heq
  rw [toInt_ofNat_of_lt (hi.trans h)] at hindex
  omega

/-- Exactly the messages which may be assigned a handle are carried afterwards. -/
theorem assignMessageHandle_iff (c : StateCache S) (msg : Message) (handle : StringValue) :
  (∃ c', c.assignMessageHandle msg handle = some c' ∧ c'.Carries handle msg) ↔
    c.Assignable handle msg
  := by
  rw [assignMessageHandle_eq]
  have haccepts : (∀ entry ∈ messageEntries msg handle, Accepts (c.cached entry.1) entry.2) ↔
      ∀ entry ∈ messageValues msg handle, Accepts (c.cached (state entry.1)) entry.2 := by
    rw [messageEntries, List.forall_mem_map]
  have hbeyond : ∀ c' : StateCache S, msg.message.parameters.length < 2 ^ 31 →
      c.writeAll (messageEntries msg handle) = some c' → ∀ index : Integer,
      (msg.message.parameters.length : Int) ≤ index.toInt →
      c'.value (state (.parameter handle index)) = c.value (state (.parameter handle index)) := by
    intro c' hlt h index hindex
    rw [value_eq, value_eq, cached_writeAll h (beyond_notMem hlt hindex)]
  constructor
  · rintro ⟨c', h, hcarries⟩
    obtain ⟨hlt, hshows, hbeyond'⟩ := carries_iff.mp hcarries
    constructor
    · exact hlt
    · apply haccepts.mp
      apply (writeAll_iff (nodup_messageEntries hlt)).mp ⟨c', h, hshows⟩
    · intro index hindex
      rw [← hbeyond c' hlt h index hindex]
      apply hbeyond' index hindex
  · rintro ⟨hlt, hall, hbeyond'⟩
    obtain ⟨c', h, hshows⟩ := (writeAll_iff (nodup_messageEntries hlt)).mpr (haccepts.mpr hall)
    use c', h
    apply carries_iff.mpr ⟨hlt, hshows, ?_⟩
    intro index hindex
    rw [hbeyond c' hlt h index hindex]
    apply hbeyond' index hindex

/-! ### Releasing a handle -/

theorem releaseMessageHandle_isSome_iff (c : StateCache S) (handle : StringValue) :
  (c.releaseMessageHandle handle).isSome = true ↔
    ∀ e, c.map (state (.parameterCount handle)) = some e →
      ∃ value, e.value = some value ∧ value.getInteger.isSome = true
  := by
  unfold releaseMessageHandle
  split
  · rename_i hnone
    simp [hnone]
  · rename_i e he
    simp only [he, Option.some.injEq, forall_eq']
    cases hvalue : e.value with
    | none => simp
    | some value =>
      cases hcount : value.getInteger with
      | none => simp [hcount]
      | some count =>
        simp only [Option.bind_eq_bind, Option.bind_some, hcount]
        cases count with
        | none => simp [hcount]
        | some count =>
          apply iff_of_true
          · dsimp only
            split <;> rfl
          · exact ⟨value, rfl, by rw [hcount]; rfl⟩

/-- Exactly the handles which may be released are cleared afterwards. -/
theorem releaseMessageHandle_iff_releasable (c : StateCache S) (handle : StringValue) :
  (∃ c', c.releaseMessageHandle handle = some c' ∧ c'.Cleared handle) ↔ c.Releasable handle
  := by
  have hvalue : ∀ c', c.releaseMessageHandle handle = some c' → ∀ s : S,
      (c'.value s).isKnown = (!c.erases handle s && (c.value s).isKnown) := by
    intro c' h s
    obtain ⟨-, hmap⟩ := releaseMessageHandle_spec h
    unfold value
    rw [hmap]
    cases herases : c.erases handle s with
    | true => rfl
    | false => rfl
  constructor
  · rintro ⟨c', h, hcleared⟩
    constructor
    · apply (releaseMessageHandle_isSome_iff c handle).mp
      rw [h]
      rfl
    · intro k hk hknown
      have hnot := hcleared k hk
      rw [hvalue c' h, hknown] at hnot
      simpa using hnot
  · rintro ⟨hreadable, herased⟩
    obtain ⟨c', h⟩ := Option.isSome_iff_exists.mp
      ((releaseMessageHandle_isSome_iff c handle).mpr hreadable)
    use c', h
    intro k hk
    rw [hvalue c' h]
    cases hknown : (c.value (state k)).isKnown with
    | true => rw [herased k hk hknown]; rfl
    | false => apply Bool.and_false

/-! ### Runs -/

/-- What the last event was, and how it ended. -/
inductive LastCall where
  | other
  | assigned (msg : Message) (handle : StringValue)
  | released (handle : StringValue)
  | failed
  deriving DecidableEq

/-- An event of the cache, where the end of a call on a message handle is recorded.  Nothing
follows a call which has failed. -/
def call (s : StateCache S × LastCall) (ev : Event S) : Option (StateCache S × LastCall) :=
  match s, ev with
  | (_, .failed), _ => none
  | (c, _), .assignMessageHandle msg handle =>
    match c.assignMessageHandle msg handle with
    | some c' => some (c', .assigned msg handle)
    | none => some (c, .failed)
  | (c, _), .releaseMessageHandle handle =>
    match c.releaseMessageHandle handle with
    | some c' => some (c', .released handle)
    | none => some (c, .failed)
  | (c, _), ev => (c.step ev).map (·, .other)

/-- A message which has been assigned a handle is carried by it; a handle which has been
released is cleared. -/
def HandleLaw : StateCache S × LastCall → Prop
  | (_, .other) => True
  | (c, .assigned msg handle) => c.Carries handle msg
  | (c, .released handle) => c.Cleared handle
  | (_, .failed) => False

/-- The messages which are assigned and the handles which are released may be so. -/
def Orderly (s : StateCache S × LastCall) : Event S → Prop
  | .assignMessageHandle msg handle => s.1.Assignable handle msg
  | .releaseMessageHandle handle => s.1.Releasable handle
  | _ => True

theorem orderly_iff {s : StateCache S × LastCall} {ev : Event S} (h : HandleLaw s) :
  Orderly s ev ↔ ∀ s', call s ev = some s' → HandleLaw s'
  := by
  obtain ⟨c, last⟩ := s
  have hlast : last ≠ .failed := by
    rintro rfl
    exact h
  cases ev with
  | assignMessageHandle msg handle =>
    apply (assignMessageHandle_iff c msg handle).symm.trans
    cases hassign : c.assignMessageHandle msg handle with
    | none => cases last <;> simp_all [call, HandleLaw]
    | some c' => cases last <;> simp_all [call, HandleLaw]
  | releaseMessageHandle handle =>
    apply (releaseMessageHandle_iff_releasable c handle).symm.trans
    cases hrelease : c.releaseMessageHandle handle with
    | none => cases last <;> simp_all [call, HandleLaw]
    | some c' => cases last <;> simp_all [call, HandleLaw]
  | _ =>
    apply iff_of_true trivial
    intro s' hs'
    cases last with
    | failed => exact absurd rfl hlast
    | _ =>
      obtain ⟨c', -, rfl⟩ := Option.map_eq_some_iff.mp hs'
      trivial

/-- In a run from any cache, messages are carried after they are assigned and handles are
cleared after they are released exactly when all these calls are orderly. -/
theorem handleLaw_iff (c : StateCache S) (events : List (Event S)) :
  StateMachine.Always call HandleLaw events (c, .other) ↔
    StateMachine.Meets call Orderly events (c, .other)
  := by
  apply StateMachine.always_iff_meets (I := fun _ => True)
  · intro s ev s' _ _
    trivial
  · intro s ev _ h
    apply orderly_iff h
  · trivial
  · trivial

/-- A message without parameters gets the handle of a message which had one. -/
theorem handleLaw_fails :
  ¬ ∀ events : List (Event State),
    StateMachine.Always call HandleLaw events (newCache, .other)
  := by
  intro h
  have hrun : (StateMachine.run call [.assignMessageHandle ⟨⟨[], [.boolean true]⟩, [], 0⟩ [109],
        .assignMessageHandle ⟨⟨[], []⟩, [], 0⟩ [109]] (newCache, .other)).map
      (fun s => (s.2, s.1.value (state (.parameter [109] 0)))) =
        some (.assigned ⟨⟨[], []⟩, [], 0⟩ [109], .boolean true) := by
    decide +kernel
  obtain ⟨⟨c, last⟩, hc, heq⟩ := Option.map_eq_some_iff.mp hrun
  obtain ⟨rfl, hvalue⟩ := Prod.mk.inj heq
  have hlaw : HandleLaw (c, .assigned ⟨⟨[], []⟩, [], 0⟩ [109]) :=
    StateMachine.Always.of_run (h _) hc
  have hcarries : c.Carries [109] ⟨⟨[], []⟩, [], 0⟩ := hlaw
  have hunknown := hcarries.beyond 0 (le_refl _)
  dsimp only at hvalue
  rw [hvalue] at hunknown
  cases hunknown

end Plexil.Intfc.StateCache
