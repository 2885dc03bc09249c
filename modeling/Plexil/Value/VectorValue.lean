import Plexil.Value.Value
import Mathlib.Data.List.Perm.Basic

/-!
# Arrays from lists of values

The constructor of `Value` from a vector of values finds the type of the elements in one
pass and then converts each element.  An error is the text of the plan error which is
reported.
-/

namespace Plexil

def ValueType.name : ValueType → String
  | boolean => "Boolean"
  | integer => "Integer"
  | real => "Real"
  | string => "String"
  | date => "Date"
  | duration => "Duration"
  | booleanArray => "BooleanArray"
  | integerArray => "IntegerArray"
  | realArray => "RealArray"
  | stringArray => "StringArray"
  | state => "State"
  | nodeState => "NodeState"
  | outcome => "NodeOutcome"
  | failure => "NodeFailure"
  | commandHandle => "NodeCommandHandle"
  | unknown | scalarMax | array | arrayMax | internalOffset | max => "UNKNOWN"

namespace Intfc.Value

def getBoolean : Value → Except String (Option Boolean)
  | unknown _ => .ok none
  | boolean x => .ok (some x)
  | v => .error ("Attempt to get Boolean value of a " ++ v.valueType.name ++ " Value")

def getInteger : Value → Except String (Option Integer)
  | unknown _ => .ok none
  | integer x => .ok (some x)
  | v => .error ("Attempt to get an Integer value from a " ++ v.valueType.name ++ " Value")

def getReal : Value → Except String (Option Real)
  | unknown _ => .ok none
  | real x => .ok (some x)
  | integer x => .ok (some x.toReal)
  | v => .error ("Attempt to get a Real value from a " ++ v.valueType.name ++ " Value")

def getString : Value → Except String (Option StringValue)
  | unknown _ => .ok none
  | string x => .ok (some x)
  | v => .error ("Attempt to get a String value from a " ++ v.valueType.name ++ " Value")

/-- The loop which finds the type of the elements from their types; `eltType` is the type
so far. -/
def elementType (eltType : ValueType) : List ValueType → Except String ValueType
  | [] => .ok eltType
  | itype :: types =>
    if eltType = .unknown then elementType itype types
    else if eltType = .integer ∧ itype = .real then elementType itype types
    else if eltType ≠ itype then
      .error "Value constructor: Inconsistent value types in vector"
    else elementType eltType types

/-- The loops which fill an array, where `get` reads an element and `blank` is what a new
array contains. -/
def fill {α : Type} (blank : α) (get : Value → Except String (Option α)) :
    List Value → Except String (ArrayImpl α)
  | [] => .ok []
  | v :: vals =>
    match get v with
    | .error e => .error e
    | .ok x => (fill blank get vals).map (⟨x.isSome, x.getD blank⟩ :: ·)

def ofVector (vals : List Value) : Except String Value :=
  match elementType .unknown (vals.map valueType) with
  | .error e => .error e
  | .ok eltType =>
    if eltType = .unknown then .error "Value constructor: Can't make array of all unknowns"
    else if ¬ eltType.code < ValueType.scalarMax.code then
      .error "Value constructor: Can't make array of arrays"
    else
      match eltType with
      | .boolean => (fill false getBoolean vals).map booleanArray
      | .integer => (fill 0 getInteger vals).map integerArray
      | .date | .duration | .real => (fill 0 getReal vals).map realArray
      | .string => (fill [] getString vals).map stringArray
      | _ => .error "Value constructor: Unknown or unimplemented element type"

/-! ### The elements -/

/-- An element of an array as a value, where `f` makes a value of the contents. -/
def ofElement {α : Type} (type : ValueType) (f : α → Value) (e : ArrayElement α) : Value :=
  if e.known then f e.contents else unknown type

/-- The elements of an array. -/
def elements : Value → List Value
  | booleanArray ary => ary.map (ofElement .boolean boolean)
  | integerArray ary => ary.map (ofElement .integer integer)
  | realArray ary => ary.map (ofElement .real real)
  | stringArray ary => ary.map (ofElement .string string)
  | _ => []

/-- The type of the elements of an array of the type. -/
def arrayElementType : ValueType → ValueType
  | .booleanArray => .boolean
  | .integerArray => .integer
  | .realArray => .real
  | .stringArray => .string
  | _ => .unknown

def convertTo (type : ValueType) : Value → Value
  | unknown _ => unknown type
  | integer x => if type = .real then real x.toReal else integer x
  | v => v

theorem fill_elements {α : Type} {blank : α} {get : Value → Except String (Option α)}
    {type : ValueType} {f : α → Value} {vals : List Value} {ary : ArrayImpl α}
    (hget : ∀ v x, get v = .ok x → x.elim (unknown type) f = convertTo type v)
    (h : fill blank get vals = .ok ary) :
  ary.map (ofElement type f) = vals.map (convertTo type)
  := by
  induction vals generalizing ary with
  | nil =>
    cases h
    rfl
  | cons v vals ih =>
    unfold fill at h
    split at h
    · cases h
    · rename_i x hx
      cases hrest : fill blank get vals with
      | error e =>
        rw [hrest] at h
        cases h
      | ok rest =>
        rw [hrest] at h
        cases h
        rw [List.map_cons, List.map_cons, ih hrest, ← hget v x hx]
        cases x <;> rfl

theorem fill_ok {α : Type} (blank : α) {get : Value → Except String (Option α)}
    {vals : List Value} (h : ∀ v ∈ vals, ∃ x, get v = .ok x) :
  ∃ ary, fill blank get vals = .ok ary
  := by
  induction vals with
  | nil => exact ⟨[], rfl⟩
  | cons v vals ih =>
    obtain ⟨x, hx⟩ := h v List.mem_cons_self
    obtain ⟨ary, hary⟩ := ih fun w hw => h w (List.mem_cons_of_mem v hw)
    refine ⟨⟨x.isSome, x.getD blank⟩ :: ary, ?_⟩
    unfold fill
    rw [hx]
    dsimp only
    rw [hary]
    rfl

theorem getBoolean_convert (v : Value) (x : Option Boolean) (h : getBoolean v = .ok x) :
  x.elim (unknown .boolean) boolean = convertTo .boolean v
  := by
  cases v <;> cases h <;> rfl

theorem getInteger_convert (v : Value) (x : Option Integer) (h : getInteger v = .ok x) :
  x.elim (unknown .integer) integer = convertTo .integer v
  := by
  cases v <;> cases h <;> rfl

theorem getReal_convert (v : Value) (x : Option Real) (h : getReal v = .ok x) :
  x.elim (unknown .real) real = convertTo .real v
  := by
  cases v <;> cases h <;> rfl

theorem getString_convert (v : Value) (x : Option StringValue) (h : getString v = .ok x) :
  x.elim (unknown .string) string = convertTo .string v
  := by
  cases v <;> cases h <;> rfl

/-- The type of the array of elements of a type, if there is one. -/
def arrayTypeOf : ValueType → Option ValueType
  | .boolean => some .booleanArray
  | .integer => some .integerArray
  | .date | .duration | .real => some .realArray
  | .string => some .stringArray
  | _ => none

/-- What the loop says about the types. -/
theorem elementType_ok {eltType type : ValueType} {types : List ValueType}
    (h : elementType eltType types = .ok type) :
  (eltType = .unknown ∨ eltType = type ∨ eltType = .integer ∧ type = .real) ∧
    ∀ t ∈ types, t = .unknown ∨ t = type ∨ t = .integer ∧ type = .real
  := by
  induction types generalizing eltType with
  | nil =>
    cases h
    exact ⟨.inr (.inl rfl), fun t ht => absurd ht List.not_mem_nil⟩
  | cons itype types ih =>
    unfold elementType at h
    split at h
    · rename_i hunknown
      obtain ⟨hitype, htypes⟩ := ih h
      refine ⟨.inl hunknown, ?_⟩
      intro t ht
      obtain rfl | ht := List.mem_cons.mp ht
      · exact hitype
      · exact htypes t ht
    · split at h
      · rename_i hpromote
        obtain ⟨rfl, rfl⟩ := hpromote
        obtain ⟨hitype, htypes⟩ := ih h
        have hreal : type = .real := by
          obtain h | h | h := hitype
          · cases h
          · exact h.symm
          · exact h.2
        refine ⟨.inr (.inr ⟨rfl, hreal⟩), ?_⟩
        intro t ht
        obtain rfl | ht := List.mem_cons.mp ht
        · exact .inr (.inl hreal.symm)
        · exact htypes t ht
      · split at h
        · cases h
        · rename_i hsame
          obtain rfl := not_ne_iff.mp hsame
          obtain ⟨hitype, htypes⟩ := ih h
          refine ⟨hitype, ?_⟩
          intro t ht
          obtain rfl | ht := List.mem_cons.mp ht
          · exact hitype
          · exact htypes t ht

/-- A value of a type which the loop accepts can be read as one of the type it found. -/
theorem get_ok {type : ValueType} {v : Value}
    (h : v.valueType = .unknown ∨ v.valueType = type ∨ v.valueType = .integer ∧ type = .real) :
  (type = .boolean → ∃ x, getBoolean v = .ok x) ∧ (type = .integer → ∃ x, getInteger v = .ok x) ∧
    (type = .real ∨ type = .date ∨ type = .duration → ∃ x, getReal v = .ok x) ∧
    (type = .string → ∃ x, getString v = .ok x)
  := by
  obtain h | rfl | ⟨h, rfl⟩ := h <;>
    cases v <;> simp_all [valueType, getBoolean, getInteger, getReal, getString]

theorem fill_map_type {α : Type} {blank : α} {get : Value → Except String (Option α)}
    {f : ArrayImpl α → Value} {type : ValueType} {vals : List Value}
    (hf : ∀ ary, (f ary).valueType = type) (h : ∀ v ∈ vals, ∃ x, get v = .ok x) :
  ((fill blank get vals).map f).toOption.map valueType = some type
  := by
  obtain ⟨ary, hary⟩ := fill_ok blank h
  rw [hary]
  exact congrArg some (hf ary)

theorem fill_map_elements {α : Type} {blank : α} {get : Value → Except String (Option α)}
    {f : ArrayImpl α → Value} {g : α → Value} {type : ValueType} {vals : List Value} {r : Value}
    (hget : ∀ v x, get v = .ok x → x.elim (unknown type) g = convertTo type v)
    (hf : ∀ ary, (f ary).elements = ary.map (ofElement type g))
    (htype : ∀ ary, arrayElementType (f ary).valueType = type)
    (h : (fill blank get vals).map f = .ok r) :
  r.elements = vals.map (convertTo (arrayElementType r.valueType))
  := by
  cases hfill : fill blank get vals with
  | error e =>
    rw [hfill] at h
    cases h
  | ok ary =>
    rw [hfill] at h
    cases h
    rw [htype, hf]
    exact fill_elements hget hfill

/-- The type of the array which is made, if one is made. -/
def arrayType (vals : List Value) : Option ValueType := (ofVector vals).toOption.map valueType

theorem arrayType_eq (vals : List Value) :
  arrayType vals
    = (elementType .unknown (vals.map valueType)).toOption.bind arrayTypeOf
  := by
  unfold arrayType ofVector
  cases hscan : elementType .unknown (vals.map valueType) with
  | error e => rfl
  | ok type =>
    have hget : ∀ v ∈ vals, _ := fun v hv =>
      get_ok ((elementType_ok hscan).2 v.valueType (List.mem_map_of_mem hv))
    cases type
    case boolean => exact fill_map_type (fun _ => rfl) fun v hv => (hget v hv).1 rfl
    case integer => exact fill_map_type (fun _ => rfl) fun v hv => (hget v hv).2.1 rfl
    case real => exact fill_map_type (fun _ => rfl) fun v hv => (hget v hv).2.2.1 (.inl rfl)
    case date =>
      exact fill_map_type (fun _ => rfl) fun v hv => (hget v hv).2.2.1 (.inr (.inl rfl))
    case duration =>
      exact fill_map_type (fun _ => rfl) fun v hv => (hget v hv).2.2.1 (.inr (.inr rfl))
    case string => exact fill_map_type (fun _ => rfl) fun v hv => (hget v hv).2.2.2 rfl
    all_goals rfl

/-- Whatever the order, the elements of the array are the given ones, converted. -/
theorem ofVector_elements {vals : List Value} {r : Value} (h : ofVector vals = .ok r) :
  r.elements = vals.map (convertTo (arrayElementType r.valueType))
  := by
  unfold ofVector at h
  cases hscan : elementType .unknown (vals.map valueType) with
  | error e =>
    rw [hscan] at h
    cases h
  | ok type =>
    rw [hscan] at h
    dsimp only at h
    split at h
    · cases h
    · split at h
      · cases h
      · split at h
        · exact fill_map_elements getBoolean_convert (fun _ => rfl) (fun _ => rfl) h
        · exact fill_map_elements getInteger_convert (fun _ => rfl) (fun _ => rfl) h
        · exact fill_map_elements getReal_convert (fun _ => rfl) (fun _ => rfl) h
        · exact fill_map_elements getReal_convert (fun _ => rfl) (fun _ => rfl) h
        · exact fill_map_elements getReal_convert (fun _ => rfl) (fun _ => rfl) h
        · exact fill_map_elements getString_convert (fun _ => rfl) (fun _ => rfl) h
        · cases h

/-! ### The order of the elements -/

/-- All types are the same. -/
theorem elementType_same {eltType type : ValueType} {types : List ValueType}
    (heltType : eltType = .unknown ∧ types ≠ [] ∨ eltType = type) (h : ∀ t ∈ types, t = type) :
  elementType eltType types = .ok type
  := by
  induction types generalizing eltType with
  | nil =>
    obtain ⟨-, hne⟩ | rfl := heltType
    · exact absurd rfl hne
    · rfl
  | cons itype types ih =>
    obtain ⟨rfl, htypes⟩ := List.forall_mem_cons.mp h
    have hrest := ih (.inr rfl) htypes
    unfold elementType
    split
    · exact hrest
    · split
      · exact hrest
      · rename_i hunknown _
        have heq : eltType = itype := by
          obtain ⟨h, -⟩ | h := heltType
          · exact absurd h hunknown
          · exact h
        subst heq
        rw [if_neg (by simp)]
        exact hrest

theorem elementType_first {s t : ValueType} {types : List ValueType} {type : ValueType}
    (h : elementType .unknown (s :: t :: types) = .ok type) :
  s = .unknown ∨ s = t ∨ s = .integer ∧ t = .real
  := by
  unfold elementType at h
  rw [if_pos rfl] at h
  unfold elementType at h
  split at h
  · exact .inl ‹_›
  · split at h
    · exact .inr (.inr ‹_›)
    · split at h
      · cases h
      · exact .inr (.inl (not_ne_iff.mp ‹_›))

/-- If every order of the values makes an array, all have the same type. -/
theorem same_of_forall_perm {vals : List Value}
    (h : ∀ vals' : List Value, vals'.Perm vals → (arrayType vals').isSome) :
  ∀ v ∈ vals, ∀ w ∈ vals, v.valueType = w.valueType
  := by
  intro v hv w hw
  by_contra hne
  have hvw : v ≠ w := by
    rintro rfl
    apply hne rfl
  have hscan : ∀ vals' : List Value, vals'.Perm vals →
      ∃ type, elementType .unknown (vals'.map valueType) = .ok type := by
    intro vals' hperm
    have := h vals' hperm
    rw [arrayType_eq] at this
    cases hscan : elementType .unknown (vals'.map valueType) with
    | error e =>
      rw [hscan] at this
      cases this
    | ok type => exact ⟨type, rfl⟩
  obtain ⟨rest, hrest⟩ : ∃ rest, vals.Perm (v :: w :: rest) := by
    have hw' : w ∈ vals.erase v := (List.mem_erase_of_ne hvw.symm).mpr hw
    refine ⟨(vals.erase v).erase w, ?_⟩
    exact (List.perm_cons_erase hv).trans ((List.perm_cons_erase hw').cons v)
  obtain ⟨_, hfirst⟩ := hscan (v :: w :: rest) hrest.symm
  obtain ⟨_, hsecond⟩ := hscan (w :: v :: rest) ((List.Perm.swap v w rest).trans hrest.symm)
  have hfirst := elementType_first hfirst
  have hsecond := elementType_first hsecond
  obtain h₁ | h₁ | ⟨h₁, h₁'⟩ := hfirst
  · obtain h₂ | h₂ | ⟨h₂, h₂'⟩ := hsecond
    · exact hne (h₁.trans h₂.symm)
    · exact hne h₂.symm
    · rw [h₁] at h₂'
      cases h₂'
  · exact hne h₁
  · obtain h₂ | h₂ | ⟨h₂, h₂'⟩ := hsecond
    · rw [h₁'] at h₂
      cases h₂
    · exact hne h₂.symm
    · rw [h₁'] at h₂
      cases h₂

/-! ### Types which do not go together -/

def Numeric (type : ValueType) : Prop := type = .integer ∨ type = .real

/-- A type which is not that of an element, or two types neither of which is `UNKNOWN_TYPE`
and which are not `Integer` and `Real`. -/
def Clash (types : List ValueType) : Prop :=
  (∃ t ∈ types, t ≠ .unknown ∧ arrayTypeOf t = none) ∨
    ∃ s ∈ types, ∃ t ∈ types, s ≠ t ∧ s ≠ .unknown ∧ t ≠ .unknown ∧ ¬ (Numeric s ∧ Numeric t)

theorem Clash.mono {types types' : List ValueType} (h : Clash types) (hsub : types ⊆ types') :
  Clash types'
  := by
  obtain ⟨t, ht, h⟩ | ⟨s, hs, t, ht, h⟩ := h
  · exact .inl ⟨t, hsub ht, h⟩
  · exact .inr ⟨s, hsub hs, t, hsub ht, h⟩

/-- No order of types which clash makes an array. -/
theorem Clash.arrayType_eq_none {vals : List Value} (h : Clash (vals.map valueType)) :
  arrayType vals = none
  := by
  rw [arrayType_eq]
  cases hscan : elementType .unknown (vals.map valueType) with
  | error e => rfl
  | ok type =>
    change arrayTypeOf type = none
    obtain ⟨-, htypes⟩ := elementType_ok hscan
    obtain ⟨t, ht, hunknown, hnone⟩ | ⟨s, hs, t, ht, hne, hs', ht', hnumeric⟩ := h
    · obtain h | rfl | ⟨rfl, -⟩ := htypes t ht
      · exact absurd h hunknown
      · exact hnone
      · cases hnone
    · exfalso
      have hs := (htypes s hs).resolve_left hs'
      have ht := (htypes t ht).resolve_left ht'
      unfold Numeric at hnumeric
      grind

theorem elementType_append (eltType : ValueType) (types types' : List ValueType) :
  elementType eltType (types ++ types')
    = (elementType eltType types).bind fun type => elementType type types'
  := by
  induction types generalizing eltType with
  | nil => rfl
  | cons itype types ih =>
    simp only [List.cons_append, elementType]
    split_ifs
    · apply ih
    · apply ih
    · rfl
    · apply ih

/-- `Integer`s are promoted by `Real`s behind them. -/
theorem elementType_promote {types : List ValueType} (hne : types ≠ [])
    (h : ∀ t ∈ types, t = .real) :
  elementType .integer types = .ok .real
  := by
  cases types with
  | nil => exact absurd rfl hne
  | cons itype types =>
    obtain ⟨rfl, htypes⟩ := List.forall_mem_cons.mp h
    unfold elementType
    rw [if_neg (by decide), if_pos ⟨rfl, rfl⟩]
    exact elementType_same (.inr rfl) htypes

/-- Types which go together, the `Integer`s first, give one of them. -/
theorem elementType_integersFirst {ints others : List ValueType} (hne : ints ++ others ≠ [])
    (hints : ∀ t ∈ ints, t = .integer) (hothers : ∀ t ∈ others, t ≠ .integer)
    (hpair : ∀ s ∈ ints ++ others, ∀ t ∈ ints ++ others, s = t ∨ Numeric s ∧ Numeric t) :
  ∃ t ∈ ints ++ others, elementType .unknown (ints ++ others) = .ok t
  := by
  cases ints with
  | nil =>
    obtain ⟨t, ht⟩ := List.exists_mem_of_ne_nil others hne
    use t, ht
    apply elementType_same (.inl ⟨rfl, hne⟩)
    intro s hs
    obtain heq | ⟨h₁, h₂⟩ := hpair s hs t ht
    · exact heq
    · rw [h₁.resolve_left (hothers s hs), h₂.resolve_left (hothers t ht)]
  | cons i is =>
    have hscan : elementType .unknown (i :: is) = .ok .integer :=
      elementType_same (.inl ⟨rfl, List.cons_ne_nil i is⟩) hints
    have hi : i = .integer := hints i List.mem_cons_self
    rw [elementType_append, hscan]
    cases others with
    | nil =>
      use i, List.mem_cons_self
      rw [hi]
      rfl
    | cons o os =>
      have hreal : ∀ t ∈ o :: os, t = .real := by
        intro t ht
        obtain heq | ⟨hnumeric, -⟩ := hpair t (List.mem_append_right _ ht) i List.mem_cons_self
        · exact absurd (heq.trans hi) (hothers t ht)
        · exact hnumeric.resolve_left (hothers t ht)
      use o, List.mem_append_right _ List.mem_cons_self
      have ho : o = .real := hreal o List.mem_cons_self
      rw [ho] at hreal ⊢
      exact elementType_promote (List.cons_ne_nil _ os) hreal

/-- Types which do not clash make an array in some order: the unknown ones first, then the
`Integer`s. -/
theorem exists_perm_arrayType {vals : List Value} (h : ¬ Clash (vals.map valueType))
    {v : Value} (hv : v ∈ vals) (hunknown : v.valueType ≠ .unknown) :
  ∃ vals' : List Value, vals'.Perm vals ∧ (arrayType vals').isSome
  := by
  let isUnknown : Value → Bool := fun v => v.valueType = .unknown
  let isInteger : Value → Bool := fun v => v.valueType = .integer
  let typed := vals.filter fun v => !isUnknown v
  let ints := typed.filter isInteger
  let others := typed.filter fun v => !isInteger v
  have hordered : (ints ++ others).Perm typed := List.filter_append_perm isInteger typed
  have hperm : (vals.filter isUnknown ++ (ints ++ others)).Perm vals :=
    (hordered.append_left _).trans (List.filter_append_perm isUnknown vals)
  have hmem : ∀ t ∈ ints.map valueType ++ others.map valueType,
      t ∈ vals.map valueType ∧ t ≠ .unknown := by
    intro t ht
    rw [← List.map_append] at ht
    obtain ⟨w, hw, rfl⟩ := List.mem_map.mp ht
    have hw : w ∈ vals ∧ w.valueType ≠ .unknown := by
      simpa [typed, isUnknown] using hordered.mem_iff.mp hw
    exact ⟨List.mem_map_of_mem hw.1, hw.2⟩
  have hne : ints.map valueType ++ others.map valueType ≠ [] := by
    rw [← List.map_append]
    apply List.ne_nil_of_mem (List.mem_map_of_mem (hordered.mem_iff.mpr _))
    · exact v
    · simpa [typed, isUnknown] using ⟨hv, hunknown⟩
  have hints : ∀ t ∈ ints.map valueType, t = .integer := by
    intro t ht
    obtain ⟨w, hw, rfl⟩ := List.mem_map.mp ht
    simpa [isInteger] using (List.mem_filter.mp hw).2
  have hothers : ∀ t ∈ others.map valueType, t ≠ .integer := by
    intro t ht
    obtain ⟨w, hw, rfl⟩ := List.mem_map.mp ht
    simpa [isInteger] using (List.mem_filter.mp hw).2
  have hpair : ∀ s ∈ ints.map valueType ++ others.map valueType,
      ∀ t ∈ ints.map valueType ++ others.map valueType, s = t ∨ Numeric s ∧ Numeric t := by
    intro s hs t ht
    by_contra hnot
    rw [not_or] at hnot
    apply h
    right
    exact ⟨s, (hmem s hs).1, t, (hmem t ht).1, hnot.1, (hmem s hs).2, (hmem t ht).2, hnot.2⟩
  have hunknowns : elementType .unknown ((vals.filter isUnknown).map valueType) = .ok .unknown := by
    apply elementType_same (.inr rfl)
    intro t ht
    obtain ⟨w, hw, rfl⟩ := List.mem_map.mp ht
    simpa [isUnknown] using (List.mem_filter.mp hw).2
  obtain ⟨t, ht, hscan⟩ := elementType_integersFirst hne hints hothers hpair
  refine ⟨_, hperm, ?_⟩
  rw [arrayType_eq, List.map_append, List.map_append, elementType_append, hunknowns]
  change ((elementType .unknown (ints.map valueType ++ others.map valueType)).toOption.bind
    arrayTypeOf).isSome
  rw [hscan]
  change (arrayTypeOf t).isSome
  by_contra hnone
  apply h
  left
  exact ⟨t, (hmem t ht).1, (hmem t ht).2, by simpa using hnone⟩

/-! ### The law -/

/-- What the constructor is to do with the values `vals`. -/
structure OrderIndependent (vals : List Value) : Prop where
  /-- Success and the element type depend on the multiset of the values. -/
  perm : ∀ vals' : List Value, vals'.Perm vals → arrayType vals' = arrayType vals
  /-- Unknown values take the element type of the known ones. -/
  unknowns : (∃ v ∈ vals, v.isKnown = true) →
    arrayType vals = arrayType (vals.filter fun v => v.isKnown)
  /-- Known `Integer`s and `Real`s make an array of `Real`s. -/
  mixed : (∃ x, integer x ∈ vals) → (∃ y, real y ∈ vals) →
    (∀ v ∈ vals, v.isKnown = true → Numeric v.valueType) → arrayType vals = some .realArray
  elements : ∀ r, ofVector vals = .ok r →
    r.elements = vals.map (convertTo (arrayElementType r.valueType))

/-- The values which say what the element type is. -/
def deciding (vals : List Value) : List Value :=
  if vals.any isKnown then vals.filter fun v => v.isKnown else vals

theorem deciding_subset (vals : List Value) :
  deciding vals ⊆ vals
  := by
  unfold deciding
  split
  · exact List.filter_subset_self _
  · exact List.Subset.refl vals

theorem valueType_ne_unknown {v : Value} (h : v.isKnown = true) :
  v.valueType ≠ .unknown
  := by
  cases v <;> simp_all [isKnown, valueType]

/-- Values of one type make an array of this type, if any. -/
theorem arrayType_same {vals : List Value} {v : Value} (hv : v ∈ vals)
    (h : ∀ w ∈ vals, w.valueType = v.valueType) :
  arrayType vals = arrayTypeOf v.valueType
  := by
  have hscan : elementType .unknown (vals.map valueType) = .ok v.valueType := by
    apply elementType_same (.inl ⟨rfl, List.ne_nil_of_mem (List.mem_map_of_mem hv)⟩)
    intro t ht
    obtain ⟨w, hw, rfl⟩ := List.mem_map.mp ht
    exact h w hw
  rw [arrayType_eq, hscan]
  rfl

theorem not_clash_of_numeric {types : List ValueType} (h : ∀ t ∈ types, Numeric t) :
  ¬ Clash types
  := by
  rintro (⟨t, ht, -, hnone⟩ | ⟨s, hs, t, ht, -, -, -, hnot⟩)
  · obtain rfl | rfl := h t ht <;> cases hnone
  · exact hnot ⟨h s hs, h t ht⟩

/-- Known values of different types which do not clash are `Integer`s and `Real`s. -/
theorem mixed_of_not_clash {vals : List Value} (hclash : ¬ Clash (vals.map valueType))
    (hknown : ∀ v ∈ vals, v.isKnown = true) {v w : Value} (hv : v ∈ vals) (hw : w ∈ vals)
    (hne : v.valueType ≠ w.valueType) :
  (∃ x, integer x ∈ vals) ∧ (∃ y, real y ∈ vals) ∧ ∀ u ∈ vals, Numeric u.valueType
  := by
  have hpair : ∀ u ∈ vals, ∀ u' ∈ vals, u.valueType ≠ u'.valueType →
      Numeric u.valueType ∧ Numeric u'.valueType := by
    intro u hu u' hu' hne
    by_contra hnot
    apply hclash
    exact .inr ⟨_, List.mem_map_of_mem hu, _, List.mem_map_of_mem hu', hne,
      valueType_ne_unknown (hknown u hu), valueType_ne_unknown (hknown u' hu'), hnot⟩
  have hinteger : ∀ u ∈ vals, u.valueType = .integer → ∃ x, integer x ∈ vals := by
    intro u hu htype
    have hu' := hknown u hu
    cases u <;> simp_all [valueType, isKnown]
    exact ⟨_, hu⟩
  have hreal : ∀ u ∈ vals, u.valueType = .real → ∃ y, real y ∈ vals := by
    intro u hu htype
    have hu' := hknown u hu
    cases u <;> simp_all [valueType, isKnown]
    exact ⟨_, hu⟩
  have hall : ∀ u ∈ vals, Numeric u.valueType := by
    intro u hu
    by_cases h : u.valueType = v.valueType
    · rw [h]
      exact (hpair v hv w hw hne).1
    · exact (hpair u hu v hv h).1
  obtain ⟨hv' | hv', hw' | hw'⟩ := hpair v hv w hw hne
  · exact absurd (hv'.trans hw'.symm) hne
  · exact ⟨hinteger v hv hv', hreal w hw hw', hall⟩
  · exact ⟨hinteger w hw hw', hreal v hv hv', hall⟩
  · exact absurd (hv'.trans hw'.symm) hne

/-- Where the law holds of values which do not clash, an array is made. -/
theorem OrderIndependent.isSome {vals : List Value} (h : OrderIndependent vals)
    (hclash : ¬ Clash ((deciding vals).map valueType)) {v : Value} (hv : v ∈ vals)
    (hunknown : v.valueType ≠ .unknown) :
  (arrayType vals).isSome
  := by
  by_cases hany : vals.any isKnown = true
  · have hexists : ∃ u ∈ vals, u.isKnown = true := List.any_eq_true.mp hany
    have hknown : ∀ u ∈ vals.filter fun u => u.isKnown, u.isKnown = true :=
      fun u hu => (List.mem_filter.mp hu).2
    rw [deciding, if_pos hany] at hclash
    obtain ⟨u, hu, huknown⟩ := hexists
    have hu' : u ∈ vals.filter fun u => u.isKnown := List.mem_filter.mpr ⟨hu, huknown⟩
    by_cases hsame : ∀ w ∈ vals.filter fun u => u.isKnown, w.valueType = u.valueType
    · rw [h.unknowns ⟨u, hu, huknown⟩, arrayType_same hu' hsame]
      by_contra hnone
      apply hclash
      exact .inl ⟨_, List.mem_map_of_mem hu', valueType_ne_unknown huknown, by simpa using hnone⟩
    · push Not at hsame
      obtain ⟨w, hw, hne⟩ := hsame
      obtain ⟨⟨x, hx⟩, ⟨y, hy⟩, hall⟩ := mixed_of_not_clash hclash hknown hw hu' hne
      have hmixed := h.mixed ⟨x, (List.mem_filter.mp hx).1⟩ ⟨y, (List.mem_filter.mp hy).1⟩
        fun w hw hwknown => hall w (List.mem_filter.mpr ⟨hw, hwknown⟩)
      rw [hmixed]
      rfl
  · rw [deciding, if_neg hany] at hclash
    obtain ⟨vals', hperm, hsome⟩ := exists_perm_arrayType hclash hv hunknown
    rwa [← h.perm vals' hperm]

/-- The law holds exactly of the values of one type and of values whose types clash. -/
theorem orderIndependent_iff (vals : List Value) :
  OrderIndependent vals ↔ (∀ v ∈ vals, ∀ w ∈ vals, v.valueType = w.valueType) ∨
    Clash ((deciding vals).map valueType)
  := by
  constructor
  · intro h
    by_contra hnot
    obtain ⟨hsame, hclash⟩ := not_or.mp hnot
    apply hsame
    have htyped : ∃ v ∈ vals, v.valueType ≠ .unknown := by
      by_contra hall
      push Not at hall
      apply hsame
      intro v hv w hw
      rw [hall v hv, hall w hw]
    obtain ⟨v, hv, hunknown⟩ := htyped
    apply same_of_forall_perm
    intro vals' hperm
    rw [h.perm vals' hperm]
    exact h.isSome hclash hv hunknown
  · rintro (hsame | hclash)
    · refine ⟨?_, ?_, ?_, fun r => ofVector_elements⟩
      · intro vals' hperm
        cases vals with
        | nil => rw [List.perm_nil.mp hperm]
        | cons v vals =>
          have hv : v ∈ v :: vals := List.mem_cons_self
          rw [arrayType_same hv fun w hw => hsame w hw v hv]
          apply arrayType_same (hperm.mem_iff.mpr hv)
          intro w hw
          exact hsame w (hperm.mem_iff.mp hw) v hv
      · rintro ⟨v, hv, hknown⟩
        rw [arrayType_same hv fun w hw => hsame w hw v hv]
        symm
        apply arrayType_same (List.mem_filter.mpr ⟨hv, hknown⟩)
        intro w hw
        exact hsame w (List.mem_filter.mp hw).1 v hv
      · rintro ⟨x, hx⟩ ⟨y, hy⟩ -
        cases hsame _ hx _ hy
    · have hmono : ∀ vals' : List Value, deciding vals ⊆ vals' → arrayType vals' = none := by
        intro vals' hsub
        apply Clash.arrayType_eq_none
        apply hclash.mono
        exact List.map_subset valueType hsub
      have hnone := hmono vals (deciding_subset vals)
      refine ⟨?_, ?_, ?_, fun r => ofVector_elements⟩
      · intro vals' hperm
        rw [hnone]
        apply hmono
        intro v hv
        exact hperm.mem_iff.mpr (deciding_subset vals hv)
      · rintro ⟨v, hv, hknown⟩
        rw [hnone]
        symm
        apply hmono
        unfold deciding
        rw [if_pos (List.any_eq_true.mpr ⟨v, hv, hknown⟩)]
        exact List.Subset.refl _
      · rintro ⟨x, hx⟩ - hall
        exfalso
        apply not_clash_of_numeric _ hclash
        intro t ht
        obtain ⟨w, hw, rfl⟩ := List.mem_map.mp ht
        unfold deciding at hw
        rw [if_pos (List.any_eq_true.mpr ⟨_, hx, rfl⟩)] at hw
        obtain ⟨hw, hknown⟩ := List.mem_filter.mp hw
        exact hall w hw hknown

/-- An unknown value in front of a known one is accepted, but not behind it. -/
theorem not_orderIndependent :
  ¬ ∀ vals : List Value, vals ≠ [] → OrderIndependent vals
  := by
  intro h
  have hperm := (h [unknown .unknown, integer 1] (by simp)).perm [integer 1, unknown .unknown]
    (List.Perm.swap _ _ _)
  revert hperm
  decide

end Intfc.Value

end Plexil
