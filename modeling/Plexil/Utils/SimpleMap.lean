import Plexil.Util.LowerBound
import Mathlib.Order.Defs.Unbundled
import Mathlib.Data.List.InsertIdx
import Mathlib.Data.List.Induction

/-!
# SimpleMap

A map is a vector of entries, which is sorted by their keys.  The elements are found by binary
search, and the comparator of the keys has one function for their order and another one for their
equality.  An iterator is a position in the vector, the last one being its end.
-/

namespace Plexil

/-- A comparator of keys: a strict weak order, and the equality which belongs to it. -/
structure KeyComparator (κ : Type*) where
  less : κ → κ → Bool
  equal : κ → κ → Bool
  isStrictWeakOrder : IsStrictWeakOrder κ fun a b => less a b = true
  equal_iff (a b : κ) : equal a b = true ↔ less a b = false ∧ less b a = false

/-- `m_store`. -/
abbrev SimpleMap (κ α : Type*) := List (κ × α)

namespace SimpleMap

variable {κ α : Type*} (comp : KeyComparator κ) (m : SimpleMap κ α)

/-- `std::lower_bound` with the entry comparator. -/
def lowerBound (index : κ) : Nat :=
  LowerBound.lowerBound (fun entry : κ × α => comp.less entry.1 index) m

/-- Whether the iterator is not at the end, and its entry has the key. -/
def hasKey (it : Nat) (index : κ) : Bool := m[it]?.any fun entry => comp.equal entry.1 index

def insertEntry (it : Nat) (k : κ) (v : α) : SimpleMap κ α := m.insertIdx it (k, v)

/-- Whether the entry is new, and the map with it. -/
def insert (index : κ) (val : α) : Bool × SimpleMap κ α :=
  let it := lowerBound comp m index
  if hasKey comp m it index then (false, m) else (true, m.insertEntry it index val)

def find (index : κ) : Nat :=
  let it := lowerBound comp m index
  if it = m.length ∨ hasKey comp m it index then it else m.length

/-- `operator[]`: the entry which is referred to, and the map, where a key which is new has got
the value `empty`. -/
def entryAt (empty : α) (index : κ) : Nat × SimpleMap κ α :=
  let it := lowerBound comp m index
  if hasKey comp m it index then (it, m) else (it, m.insertEntry it index empty)

/-- An assignment to the value which is referred to. -/
def assign (it : Nat) (val : α) : SimpleMap κ α :=
  m.modify it fun entry => (entry.1, val)

/-- The value at an iterator, if it is not the end. -/
def value (it : Nat) : Option α := m[it]?.map Prod.snd

/-! ### Operations -/

/-- What can be done with a map.  A reference which `operator[]` returns is read or assigned to. -/
inductive Operation (κ α : Type*) where
  | insert (key : κ) (val : α)
  | read (key : κ)
  | assign (key : κ) (val : α)
  | find (key : κ)

def Operation.key : Operation κ α → κ
  | insert key _ | read key | assign key _ | find key => key

def perform (empty : α) : Operation κ α → SimpleMap κ α
  | .insert key val => (insert comp m key val).2
  | .read key => (entryAt comp m empty key).2
  | .assign key val =>
    let (it, m) := entryAt comp m empty key
    m.assign it val
  | .find _ => m

def run (empty : α) (ops : List (Operation κ α)) : SimpleMap κ α :=
  ops.foldl (fun m op => perform comp m empty op) []

end SimpleMap

/-! ### What has been stored -/

/-- The values which have been stored, each with its key, the last one first. -/
abbrev History (κ α : Type*) := List (κ × α)

namespace History

open SimpleMap (Operation)

variable {κ α : Type*} (comp : KeyComparator κ) (h : History κ α)

/-- The value most recently stored under a key. -/
def lastStored (key : κ) : Option α :=
  (h.find? fun entry => comp.equal entry.1 key).map Prod.snd

/-- A value is stored under a key which has none. -/
def storeNew (key : κ) (val : α) : History κ α :=
  if (h.lastStored comp key).isSome then h else (key, val) :: h

/-- What an operation stores: `insert` stores a value under a new key only, and `operator[]`
stores the value `empty` under a new key. -/
def store (empty : α) : Operation κ α → History κ α
  | .insert key val => h.storeNew comp key val
  | .read key => h.storeNew comp key empty
  | .assign key val => (key, val) :: h.storeNew comp key empty
  | .find _ => h

def record (empty : α) (ops : List (Operation κ α)) : History κ α :=
  ops.foldl (fun h op => store comp h empty op) []

end History

/-! ### Keys -/

namespace KeyComparator

variable {κ : Type*} (comp : KeyComparator κ) {a b c : κ}

theorem less_trans (hab : comp.less a b = true) (hbc : comp.less b c = true) :
  comp.less a c = true
  := comp.isStrictWeakOrder.trans a b c hab hbc

theorem less_irrefl (a : κ) :
  comp.less a a = false
  := Bool.eq_false_iff.mpr (comp.isStrictWeakOrder.irrefl a)

theorem equal_refl (a : κ) :
  comp.equal a a = true
  := by
  rw [equal_iff]
  exact ⟨comp.less_irrefl a, comp.less_irrefl a⟩

theorem equal_comm (a b : κ) :
  comp.equal a b = comp.equal b a
  := by
  rw [Bool.eq_iff_iff, equal_iff, equal_iff, and_comm]

theorem less_asymm (h : comp.less a b = true) :
  comp.less b a = false
  := by
  rw [← Bool.not_eq_true]
  intro hba
  have haa := comp.less_trans h hba
  rw [comp.less_irrefl] at haa
  contradiction

theorem equal_trans (hab : comp.equal a b = true) (hbc : comp.equal b c = true) :
  comp.equal a c = true
  := by
  rw [equal_iff, ← Bool.not_eq_true, ← Bool.not_eq_true] at *
  apply comp.isStrictWeakOrder.incomp_trans a b c hab hbc

theorem equal_congr (h : comp.equal a b = true) (c : κ) :
  comp.equal c a = comp.equal c b
  := by
  rw [Bool.eq_iff_iff]
  constructor
  · intro hca
    apply comp.equal_trans hca h
  · intro hcb
    apply comp.equal_trans hcb
    rw [equal_comm, h]

/-- Keys which are not before an index, and not equal to it, are behind it. -/
theorem less_of_not_equal (hless : comp.less a b = false) (hne : comp.equal a b = false) :
  comp.less b a = true
  := by
  by_contra hnot
  rw [Bool.not_eq_true] at hnot
  have heq := (comp.equal_iff a b).mpr ⟨hless, hnot⟩
  rw [hne] at heq
  contradiction

theorem not_equal_of_less (h : comp.less a b = true) :
  comp.equal a b = false
  := by
  rw [← Bool.not_eq_true, equal_iff, h]
  simp

/-- What is before the first of two keys is before the second one, or the second one is not behind
the first. -/
theorem less_of_less_of_equal (hab : comp.less a b = true) (hbc : comp.equal b c = true) :
  comp.less a c = true
  := by
  by_contra hac
  rw [Bool.not_eq_true] at hac
  cases hca : comp.less c a with
  | true =>
    have hcb := comp.less_trans hca hab
    rw [((comp.equal_iff b c).mp hbc).2] at hcb
    contradiction
  | false =>
    have heq : comp.equal a c = true := (comp.equal_iff a c).mpr ⟨hac, hca⟩
    have hba : comp.equal a b = true := by
      rw [comp.equal_congr hbc, heq]
    rw [comp.not_equal_of_less hab] at hba
    contradiction

end KeyComparator

/-! ### Sorted maps -/

namespace SimpleMap

variable {κ α : Type*} (comp : KeyComparator κ) {m ys zs : SimpleMap κ α} {entry : κ × α}

/-- The entries are sorted, and their keys are different. -/
def Sorted (m : SimpleMap κ α) : Prop := m.Pairwise fun x y => comp.less x.1 y.1 = true

theorem sorted_middle :
  Sorted comp (ys ++ entry :: zs) ↔ Sorted comp (ys ++ zs) ∧
    (∀ y ∈ ys, comp.less y.1 entry.1 = true) ∧ ∀ z ∈ zs, comp.less entry.1 z.1 = true
  := by
  unfold Sorted
  simp only [List.pairwise_append, List.pairwise_cons, List.forall_mem_cons]
  constructor
  · rintro ⟨hys, ⟨hentry, hzs⟩, hcross⟩
    exact ⟨⟨hys, hzs, fun y hy => (hcross y hy).2⟩, fun y hy => (hcross y hy).1, hentry⟩
  · rintro ⟨⟨hys, hzs, hcross⟩, hbefore, hentry⟩
    exact ⟨hys, ⟨hentry, hzs⟩, fun y hy => ⟨hbefore y hy, hcross y hy⟩⟩

/-- An entry whose key is not before it in the map is found first under this key, and is not found
under another one. -/
theorem find?_middle (hys : ∀ y ∈ ys, comp.equal y.1 entry.1 = false) (key : κ) :
  (ys ++ entry :: zs).find? (fun x => comp.equal x.1 key) =
    if comp.equal entry.1 key then some entry else (ys ++ zs).find? fun x => comp.equal x.1 key
  := by
  rw [List.find?_append, List.find?_append]
  split
  · rename_i heq
    have hnone : ys.find? (fun x => comp.equal x.1 key) = none := by
      rw [List.find?_eq_none]
      intro y hy
      rw [← comp.equal_congr heq, hys y hy]
      exact Bool.false_ne_true
    rw [hnone, Option.none_or, List.find?_cons, heq]
  · rename_i hne
    rw [Bool.not_eq_true] at hne
    rw [List.find?_cons, hne]

theorem insertEntry_append (k : κ) (v : α) :
  (ys ++ zs).insertEntry ys.length k v = ys ++ (k, v) :: zs
  := by
  unfold insertEntry
  induction ys with
  | nil => rfl
  | cons y ys ih => rw [List.cons_append, List.length_cons, List.insertIdx_succ_cons, ih,
      List.cons_append]

theorem assign_append (v : α) :
  (ys ++ entry :: zs).assign ys.length v = ys ++ (entry.1, v) :: zs
  := by
  unfold assign
  induction ys with
  | nil => rfl
  | cons y ys ih => rw [List.cons_append, List.length_cons, List.modify_succ_cons, ih,
      List.cons_append]

/-- The value of the first entry with a key. -/
def lookup (m : SimpleMap κ α) (key : κ) : Option α :=
  (m.find? fun entry => comp.equal entry.1 key).map Prod.snd

theorem lookup_middle (hys : ∀ y ∈ ys, comp.equal y.1 entry.1 = false) (key : κ) :
  lookup comp (ys ++ entry :: zs) key =
    if comp.equal entry.1 key then some entry.2 else lookup comp (ys ++ zs) key
  := by
  unfold lookup
  rw [find?_middle comp hys]
  split <;> rfl

/-- The search for a key ends at its entry, or between the entries before and behind it. -/
theorem lowerBound_cases (h : Sorted comp m) (index : κ) :
  (∃ ys entry zs, m = ys ++ entry :: zs ∧ lowerBound comp m index = ys.length ∧
    comp.equal entry.1 index = true) ∨
  ∃ ys zs, m = ys ++ zs ∧ lowerBound comp m index = ys.length ∧
    (∀ y ∈ ys, comp.less y.1 index = true) ∧ ∀ z ∈ zs, comp.less index z.1 = true
  := by
  have hpartitioned :
      LowerBound.Partitioned (fun entry : κ × α => comp.less entry.1 index) m := by
    apply h.imp
    intro x y hxy hy
    apply comp.less_trans hxy hy
  obtain ⟨ys, zs, rfl, hys, hzs⟩ := hpartitioned.exists_append
  have hbound := LowerBound.lowerBound_append hys hzs
  cases zs with
  | nil =>
    right
    exact ⟨ys, [], rfl, hbound, hys, fun z hz => absurd hz List.not_mem_nil⟩
  | cons entry zs =>
    obtain ⟨hentry, -⟩ := List.forall_mem_cons.mp hzs
    cases heq : comp.equal entry.1 index with
    | true =>
      left
      exact ⟨ys, entry, zs, rfl, hbound, heq⟩
    | false =>
      right
      have hbehind := comp.less_of_not_equal hentry heq
      refine ⟨ys, entry :: zs, rfl, hbound, hys, ?_⟩
      rw [List.forall_mem_cons]
      use hbehind
      intro z hz
      apply comp.less_trans hbehind
      apply ((sorted_middle comp).mp h).2.2 z hz

variable {index : κ}

theorem not_equal_of_sorted (h : Sorted comp (ys ++ entry :: zs)) :
  ∀ y ∈ ys, comp.equal y.1 entry.1 = false
  := by
  intro y hy
  apply comp.not_equal_of_less
  apply ((sorted_middle comp).mp h).2.1 y hy

/-- The entry of a key which is present. -/
theorem present_spec (h : Sorted comp (ys ++ entry :: zs))
    (heq : comp.equal entry.1 index = true) :
  (ys ++ entry :: zs)[ys.length]? = some entry ∧
    lookup comp (ys ++ entry :: zs) index = some entry.2 ∧
    hasKey comp (ys ++ entry :: zs) ys.length index = true
  := by
  have hentry : (ys ++ entry :: zs)[ys.length]? = some entry := by
    rw [List.getElem?_append_right (Nat.le_refl _), Nat.sub_self, List.getElem?_cons_zero]
  refine ⟨hentry, ?_, ?_⟩
  · rw [lookup_middle comp (not_equal_of_sorted comp h), if_pos heq]
  · unfold hasKey
    rw [hentry, Option.any_some, heq]

/-- A key which is absent has no entry. -/
theorem absent_spec (hys : ∀ y ∈ ys, comp.less y.1 index = true)
    (hzs : ∀ z ∈ zs, comp.less index z.1 = true) :
  lookup comp (ys ++ zs) index = none ∧ hasKey comp (ys ++ zs) ys.length index = false
  := by
  have hnone : ∀ entry ∈ ys ++ zs, comp.equal entry.1 index = false := by
    intro entry hentry
    rcases List.mem_append.mp hentry with hmem | hmem
    · apply comp.not_equal_of_less (hys entry hmem)
    · rw [comp.equal_comm]
      apply comp.not_equal_of_less (hzs entry hmem)
  constructor
  · unfold lookup
    rw [Option.map_eq_none_iff, List.find?_eq_none]
    intro entry hentry
    rw [hnone entry hentry]
    exact Bool.false_ne_true
  · unfold hasKey
    rw [← Bool.not_eq_true, Option.any_eq_true]
    rintro ⟨entry, hentry, heq⟩
    rw [hnone entry (List.mem_of_getElem? hentry)] at heq
    contradiction

/-- `find` returns the entry with the value of the key, or the end. -/
theorem find_spec (h : Sorted comp m) (index : κ) :
  (∃ entry, m[find comp m index]? = some entry ∧ comp.equal entry.1 index = true ∧
    lookup comp m index = some entry.2) ∨
    find comp m index = m.length ∧ lookup comp m index = none
  := by
  unfold find
  dsimp only
  rcases lowerBound_cases comp h index with
    ⟨ys, entry, zs, rfl, hbound, heq⟩ | ⟨ys, zs, rfl, hbound, hys, hzs⟩
  · obtain ⟨hentry, hlookup, hkey⟩ := present_spec comp h heq
    left
    rw [hbound, if_pos (.inr hkey)]
    exact ⟨entry, hentry, heq, hlookup⟩
  · obtain ⟨hlookup, hkey⟩ := absent_spec comp hys hzs
    right
    use ?_, hlookup
    rw [hbound, hkey]
    split
    · rename_i hend
      exact hend.resolve_right Bool.false_ne_true
    · rfl

/-- `insert` stores a value under a new key only. -/
theorem insert_spec (h : Sorted comp m) (index : κ) (val : α) :
  (insert comp m index val).1 = (lookup comp m index).isNone ∧
    Sorted comp (insert comp m index val).2 ∧
    ∀ key, lookup comp (insert comp m index val).2 key =
      if comp.equal index key ∧ lookup comp m index = none then some val else lookup comp m key
  := by
  unfold insert
  dsimp only
  rcases lowerBound_cases comp h index with
    ⟨ys, entry, zs, rfl, hbound, heq⟩ | ⟨ys, zs, rfl, hbound, hys, hzs⟩
  · obtain ⟨-, hlookup, hkey⟩ := present_spec comp h heq
    rw [hbound, hkey, hlookup, if_pos rfl]
    refine ⟨rfl, h, fun key => ?_⟩
    rw [if_neg (by simp)]
  · obtain ⟨hlookup, hkey⟩ := absent_spec comp hys hzs
    rw [hbound, hkey, hlookup, if_neg Bool.false_ne_true, insertEntry_append]
    refine ⟨rfl, ?_, fun key => ?_⟩
    · rw [sorted_middle]
      exact ⟨h, hys, hzs⟩
    · rw [lookup_middle]
      · simp
      · intro y hy
        apply comp.not_equal_of_less (hys y hy)

theorem entryAt_snd (empty : α) (index : κ) :
  (entryAt comp m empty index).2 = (insert comp m index empty).2
  := by
  unfold entryAt insert
  dsimp only
  split <;> rfl

/-- `operator[]` refers to the entry of the key, in the map where it has one. -/
theorem entryAt_spec (h : Sorted comp m) (empty : α) (index : κ) :
  ∃ ys entry zs, entryAt comp m empty index = (ys.length, ys ++ entry :: zs) ∧
    comp.equal entry.1 index = true ∧ entry.2 = (lookup comp m index).getD empty
  := by
  unfold entryAt
  dsimp only
  rcases lowerBound_cases comp h index with
    ⟨ys, entry, zs, rfl, hbound, heq⟩ | ⟨ys, zs, rfl, hbound, hys, hzs⟩
  · obtain ⟨-, hlookup, hkey⟩ := present_spec comp h heq
    rw [hbound, hkey, hlookup, if_pos rfl]
    exact ⟨ys, entry, zs, rfl, heq, rfl⟩
  · obtain ⟨hlookup, hkey⟩ := absent_spec comp hys hzs
    rw [hbound, hkey, hlookup, if_neg Bool.false_ne_true, insertEntry_append]
    exact ⟨ys, (index, empty), zs, rfl, comp.equal_refl index, rfl⟩

/-- An assignment through the reference replaces the value of the key. -/
theorem assign_spec (h : Sorted comp (ys ++ entry :: zs)) (val : α) :
  Sorted comp ((ys ++ entry :: zs).assign ys.length val) ∧
    ∀ key, lookup comp ((ys ++ entry :: zs).assign ys.length val) key =
      if comp.equal entry.1 key then some val else lookup comp (ys ++ entry :: zs) key
  := by
  rw [assign_append]
  constructor
  · rw [sorted_middle] at h ⊢
    exact h
  · intro key
    have hys := not_equal_of_sorted comp h
    rw [lookup_middle comp hys, lookup_middle]
    · split <;> rfl
    · exact hys

/-! ### Maps and what has been stored -/

/-- A sorted map which has the value most recently stored under every key. -/
structure Holds (m : SimpleMap κ α) (h : History κ α) : Prop where
  sorted : Sorted comp m
  stored : ∀ key, lookup comp m key = h.lastStored comp key

variable {h : History κ α}

theorem lastStored_cons (stored : κ × α) (key : κ) :
  History.lastStored comp (stored :: h) key =
    if comp.equal stored.1 key then some stored.2 else h.lastStored comp key
  := by
  unfold History.lastStored
  rw [List.find?_cons]
  cases comp.equal stored.1 key <;> rfl

theorem lastStored_storeNew (index : κ) (val : α) (key : κ) :
  (h.storeNew comp index val).lastStored comp key =
    if comp.equal index key ∧ h.lastStored comp index = none then some val
    else h.lastStored comp key
  := by
  unfold History.storeNew
  cases hstored : h.lastStored comp index with
  | some v =>
    rw [Option.isSome_some, if_pos rfl, if_neg]
    simp
  | none =>
    rw [Option.isSome_none, if_neg Bool.false_ne_true, lastStored_cons]
    simp

theorem Holds.insert (hm : Holds comp m h) (index : κ) (val : α) :
  Holds comp (insert comp m index val).2 (h.storeNew comp index val)
  := by
  obtain ⟨-, hsorted, hlookup⟩ := insert_spec comp hm.sorted index val
  constructor
  · exact hsorted
  · intro key
    rw [hlookup, lastStored_storeNew, hm.stored, hm.stored]

theorem Holds.assign (hm : Holds comp m h) (empty : α) (index : κ) (val : α) :
  Holds comp ((entryAt comp m empty index).2.assign (entryAt comp m empty index).1 val)
    ((index, val) :: h.storeNew comp index empty)
  := by
  have hnew := hm.insert comp index empty
  rw [← entryAt_snd] at hnew
  obtain ⟨ys, entry, zs, hentry, heq, -⟩ := entryAt_spec comp hm.sorted empty index
  rw [hentry] at hnew ⊢
  obtain ⟨hsorted, hlookup⟩ := assign_spec comp hnew.sorted val
  constructor
  · exact hsorted
  · intro key
    have hkey : comp.equal entry.1 key = comp.equal index key := by
      rw [comp.equal_comm, comp.equal_congr heq, comp.equal_comm]
    rw [hlookup, lastStored_cons, hnew.stored, hkey]

theorem Holds.perform (hm : Holds comp m h) (empty : α) (op : Operation κ α) :
  Holds comp (perform comp m empty op) (h.store comp empty op)
  := by
  cases op with
  | insert key val => exact hm.insert comp key val
  | read key =>
    dsimp only [SimpleMap.perform, History.store]
    rw [entryAt_snd]
    exact hm.insert comp key empty
  | assign key val => exact hm.assign comp empty key val
  | find key => exact hm

theorem holds_run (empty : α) (ops : List (Operation κ α)) :
  Holds comp (run comp empty ops) (History.record comp empty ops)
  := by
  induction ops using List.reverseRecOn with
  | nil =>
    constructor
    · exact List.Pairwise.nil
    · intro key
      rfl
  | append_singleton ops op ih =>
    unfold run History.record at ih ⊢
    rw [List.foldl_concat, List.foldl_concat]
    apply ih.perform

/-- An operation under one key does not change the value of another. -/
theorem lookup_perform (hm : Holds comp m h) (empty : α) (op : Operation κ α) {key : κ}
    (hne : comp.equal op.key key = false) :
  lookup comp (perform comp m empty op) key = lookup comp m key
  := by
  rw [(hm.perform comp empty op).stored, hm.stored]
  cases op with
  | insert index val =>
    rw [History.store, lastStored_storeNew, if_neg]
    simp_all [Operation.key]
  | read index =>
    rw [History.store, lastStored_storeNew, if_neg]
    simp_all [Operation.key]
  | assign index val =>
    rw [History.store, lastStored_cons, lastStored_storeNew, if_neg, if_neg]
    · simp_all [Operation.key]
    · simp_all [Operation.key]
  | find index => rfl

/-! ### A finite map -/

/-- After these operations the map is a finite map of the values which have been stored. -/
structure IsFiniteMap (empty : α) (ops : List (Operation κ α)) : Prop where
  sorted : Sorted comp (run comp empty ops)
  unique : (run comp empty ops).Pairwise fun x y => comp.equal x.1 y.1 = false
  find_of_stored : ∀ key v, (History.record comp empty ops).lastStored comp key = some v →
    ∃ entry, (run comp empty ops)[find comp (run comp empty ops) key]? = some entry ∧
      comp.equal entry.1 key = true ∧ entry.2 = v
  find_of_not_stored : ∀ key, (History.record comp empty ops).lastStored comp key = none →
    find comp (run comp empty ops) key = (run comp empty ops).length
  insert_isNew : ∀ key v, (insert comp (run comp empty ops) key v).1 =
    ((History.record comp empty ops).lastStored comp key).isNone
  reference : ∀ key,
    value (entryAt comp (run comp empty ops) empty key).2
      (entryAt comp (run comp empty ops) empty key).1 =
    some (((History.record comp empty ops).lastStored comp key).getD empty)
  others : ∀ op key, comp.equal op.key key = false →
    value (run comp empty (ops ++ [op])) (find comp (run comp empty (ops ++ [op])) key) =
      value (run comp empty ops) (find comp (run comp empty ops) key)

theorem value_find (h : Sorted comp m) (index : κ) :
  value m (find comp m index) = lookup comp m index
  := by
  unfold value
  rcases find_spec comp h index with ⟨entry, hentry, -, hlookup⟩ | ⟨hend, hlookup⟩
  · rw [hentry, hlookup]
    rfl
  · rw [hend, hlookup, List.getElem?_eq_none (Nat.le_refl _)]
    rfl

/-- A map is a finite map after every sequence of operations, whatever strict weak order its keys
have. -/
theorem simpleMap_isFiniteMap (empty : α) (ops : List (Operation κ α)) :
  IsFiniteMap comp empty ops
  := by
  have hm := holds_run comp empty ops
  constructor
  · exact hm.sorted
  · apply hm.sorted.imp
    intro x y hless
    apply comp.not_equal_of_less hless
  · intro key v hstored
    rw [← hm.stored] at hstored
    rcases find_spec comp hm.sorted key with ⟨entry, hentry, heq, hlookup⟩ | ⟨-, hlookup⟩
    · rw [hstored] at hlookup
      exact ⟨entry, hentry, heq, (Option.some.inj hlookup).symm⟩
    · rw [hstored] at hlookup
      contradiction
  · intro key hstored
    rw [← hm.stored] at hstored
    rcases find_spec comp hm.sorted key with ⟨entry, -, -, hlookup⟩ | ⟨hend, -⟩
    · rw [hstored] at hlookup
      contradiction
    · exact hend
  · intro key v
    rw [(insert_spec comp hm.sorted key v).1, hm.stored]
  · intro key
    obtain ⟨ys, entry, zs, hentry, -, hvalue⟩ := entryAt_spec comp hm.sorted empty key
    rw [hentry, ← hm.stored, ← hvalue]
    unfold value
    rw [List.getElem?_append_right (Nat.le_refl _), Nat.sub_self]
    rfl
  · intro op key hne
    have hm' := holds_run comp empty (ops ++ [op])
    rw [value_find comp hm'.sorted, value_find comp hm.sorted]
    unfold run
    rw [List.foldl_concat]
    apply lookup_perform comp hm empty op hne

end SimpleMap

end Plexil
