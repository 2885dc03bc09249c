import Plexil.Exec.QueueSpec
import Plexil.Exec.Resources

/-!
# What acquisition and release do

The specification of `releaseAll`, of `tryResourceAcquisition` and of
`releaseResourceReservations`, resource by resource.
-/

namespace Plexil

namespace Reservable

variable {n m : NodePtr} {r : Reservable}

@[simp]
theorem holder_addWaitingNode : (r.addWaitingNode n).holder = r.holder
  := by
  unfold addWaitingNode
  split <;> rfl

@[simp]
theorem holder_removeWaitingNode : (r.removeWaitingNode n).holder = r.holder := rfl

@[simp]
theorem mem_addWaitingNode : m ∈ (r.addWaitingNode n).waiters ↔ m ∈ r.waiters ∨ m = n
  := by
  unfold addWaitingNode
  split
  · rename_i hn
    constructor
    · exact .inl
    · rintro (hm | rfl) <;> assumption
  · simp

theorem nodup_addWaitingNode (h : r.waiters.Nodup) : (r.addWaitingNode n).waiters.Nodup
  := by
  unfold addWaitingNode
  split
  · exact h
  · rename_i hn
    exact List.nodup_append.mpr ⟨h, List.nodup_singleton n, by
      rintro a ha b hb rfl
      exact hn (List.mem_singleton.mp hb ▸ ha)⟩

theorem nodup_removeWaitingNode (h : r.waiters.Nodup) : (r.removeWaitingNode n).waiters.Nodup
  := h.erase n

theorem mem_removeWaitingNode (h : r.waiters.Nodup) :
  m ∈ (r.removeWaitingNode n).waiters ↔ m ≠ n ∧ m ∈ r.waiters
  := h.mem_erase_iff

/-- The resource after it has been released by `n`. -/
def released (n : NodePtr) (r : Reservable) : Reservable :=
  if r.holder = some n then { r with holder := none } else r

/-- The resource after it has been acquired by `n`. -/
def acquired (n : NodePtr) (r : Reservable) : Reservable :=
  { r with holder := some n }.removeWaitingNode n

theorem acquire_of_none (h : r.holder = none) : r.acquire n = (r.acquired n, true)
  := by
  unfold acquire
  rw [h]
  rfl

theorem acquire_of_ne_none (h : r.holder ≠ none) : r.acquire n = (r.addWaitingNode n, false)
  := by
  unfold acquire
  cases hr : r.holder with
  | none => contradiction
  | some a => rfl

/-- What an attempt of `n` to acquire the resource can do to it. -/
structure Attempted (n : NodePtr) (r r' : Reservable) : Prop where
  holder : r'.holder = r.holder ∨ (r.holder = none ∧ r'.holder = some n)
  waiters : ∀ m, m ≠ n → (m ∈ r'.waiters ↔ m ∈ r.waiters)
  nodup : r.waiters.Nodup → r'.waiters.Nodup

theorem Attempted.refl (n : NodePtr) (r : Reservable) : Attempted n r r
  := ⟨.inl rfl, fun _ _ => .rfl, id⟩

theorem attempted_acquired (h : r.holder = none) : Attempted n r (r.acquired n)
  := ⟨.inr ⟨h, rfl⟩, fun _ hm => List.mem_erase_of_ne hm, nodup_removeWaitingNode⟩

theorem Attempted.addWaitingNode {r' : Reservable} (h : Attempted n r r') :
  Attempted n r (r'.addWaitingNode n)
  := by
  constructor
  case holder =>
    rw [holder_addWaitingNode]
    exact h.holder
  case waiters =>
    intro m hm
    rw [mem_addWaitingNode, h.waiters m hm]
    simp [hm]
  case nodup => exact fun hr => nodup_addWaitingNode (h.nodup hr)

@[simp]
theorem waiters_released : (r.released n).waiters = r.waiters
  := by
  unfold released
  split <;> rfl

theorem holder_released : (r.released n).holder = if r.holder = some n then none else r.holder
  := by
  unfold released
  split <;> rfl

@[simp]
theorem released_released : (r.released n).released n = r.released n
  := by
  unfold released
  grind

end Reservable

namespace Core

variable {n m : NodePtr} {c : Core} {rs : List ReservableId}

/-! ### Release -/

/-- What a release of resources does: the waiting nodes of those which the node holds are
told. -/
structure Releases (n : NodePtr) (rs : List ReservableId) (c c' : Core) : Prop where
  plan : c'.plan = c.plan
  added : c'.added = c.added
  node : c'.node = c.node
  error : c'.error = c.error
  reservable : ∀ r, c'.reservable r =
    if r ∈ rs then (c.reservable r).released n else c.reservable r
  queues : ∃ told, c'.queues = c.queues.notifyAllResourceAvailable told ∧
    ∀ m, m ∈ told ↔
      ∃ r ∈ rs, (c.reservable r).holder = some n ∧ m ∈ (c.reservable r).waiters

theorem Releases.nil (n : NodePtr) (c : Core) : Releases n [] c c
  := ⟨rfl, rfl, rfl, rfl, fun _ => rfl, [], rfl, by simp⟩

theorem release_spec (n : NodePtr) (c : Core) (r : ReservableId) :
  Releases n [r] c (release n c r)
  := by
  unfold release
  split
  · rename_i hr
    constructor
    case reservable =>
      intro r'
      by_cases h : r' = r
      · subst h
        simp [Reservable.released, hr]
      · simp [h]
    case queues =>
      use (c.reservable r).waiters
      constructor
      · rfl
      · simp [hr]
    all_goals rfl
  · rename_i hr
    constructor
    case reservable =>
      intro r'
      by_cases h : r' = r
      · subst h
        simp [Reservable.released, hr]
      · simp [h]
    case queues =>
      use []
      constructor
      · rfl
      · simp [hr]
    all_goals rfl

/-- A resource which has been released is not released again. -/
theorem Releases.trans {rs' : List ReservableId} {c' c'' : Core} (h : Releases n rs c c')
    (h' : Releases n rs' c' c'') :
  Releases n (rs ++ rs') c c''
  := by
  constructor
  case plan => exact h'.plan.trans h.plan
  case added => exact h'.added.trans h.added
  case node => exact h'.node.trans h.node
  case error => exact h'.error.trans h.error
  case reservable =>
    intro r
    rw [h'.reservable, h.reservable]
    by_cases hr : r ∈ rs <;> by_cases hr' : r ∈ rs' <;> simp [hr, hr']
  case queues =>
    obtain ⟨told, heq, htold⟩ := h.queues
    obtain ⟨told', heq', htold'⟩ := h'.queues
    use told ++ told'
    constructor
    · rw [heq', heq]
      unfold Queues.notifyAllResourceAvailable
      rw [List.foldl_append]
    · have held (r : ReservableId) : (c'.reservable r).holder = some n ↔
          r ∉ rs ∧ (c.reservable r).holder = some n := by
        rw [h.reservable]
        by_cases hr : r ∈ rs
        · by_cases hh : (c.reservable r).holder = some n <;> simp [hr, hh, Reservable.released]
        · simp [hr]
      have waiting (r : ReservableId) : (c'.reservable r).waiters = (c.reservable r).waiters := by
        rw [h.reservable]
        split
        · apply Reservable.waiters_released
        · rfl
      intro m
      rw [List.mem_append, htold, htold']
      simp only [held, waiting, List.mem_append]
      constructor
      · rintro (⟨r, hr, hh, hm⟩ | ⟨r, hr, ⟨-, hh⟩, hm⟩)
        · exact ⟨r, .inl hr, hh, hm⟩
        · exact ⟨r, .inr hr, hh, hm⟩
      · rintro ⟨r, hr, hh, hm⟩
        by_cases hrs : r ∈ rs
        · exact .inl ⟨r, hrs, hh, hm⟩
        · exact .inr ⟨r, hr.resolve_left hrs, ⟨hrs, hh⟩, hm⟩

theorem releaseAll_spec (n : NodePtr) (rs : List ReservableId) (c : Core) :
  Releases n rs c (c.releaseAll n rs)
  := by
  unfold releaseAll
  induction rs generalizing c with
  | nil => exact .nil n c
  | cons r rs ih => exact (release_spec n c r).trans (ih (release n c r))

/-- A release reads and changes only the queues and the resources. -/
theorem releaseAll_congr (n : NodePtr) (rs : List ReservableId) {c c' : Core}
    (hqueues : c'.queues = c.queues)
    (hreservable : c'.reservable = c.reservable) :
  (c'.releaseAll n rs).queues = (c.releaseAll n rs).queues ∧
    (c'.releaseAll n rs).reservable = (c.releaseAll n rs).reservable
  := by
  unfold releaseAll
  induction rs generalizing c c' with
  | nil => exact ⟨hqueues, hreservable⟩
  | cons r rs ih =>
    rw [List.foldl_cons, List.foldl_cons]
    apply ih
    · unfold release
      rw [hreservable]
      split <;> simp only [hqueues]
    · unfold release
      rw [hreservable]
      split
      · rfl
      · exact hreservable

/-! ### Acquisition -/

theorem acquireInOrder_cons (n : NodePtr) (r : ReservableId) (rs : List ReservableId)
    (res : Reservables) :
  Reservables.acquireInOrder n (r :: rs) res =
    if (res r).holder = none then
      Reservables.acquireInOrder n rs (Function.update res r ((res r).acquired n))
    else (Function.update res r ((res r).addWaitingNode n), some r)
  := by
  rw [Reservables.acquireInOrder]
  unfold Reservables.acquire
  by_cases h : (res r).holder = none
  · rw [Reservable.acquire_of_none h]
    simp [h]
  · rw [Reservable.acquire_of_ne_none h]
    simp [h]

/-- All of the resources were free, and now belong to the node. -/
theorem acquireInOrder_none {res res' : Reservables} (hrs : rs.Nodup)
    (h : Reservables.acquireInOrder n rs res = (res', none)) :
  (∀ r ∈ rs, (res r).holder = none) ∧
    ∀ r, res' r = if r ∈ rs then (res r).acquired n else res r
  := by
  induction rs generalizing res with
  | nil =>
    cases h
    simp
  | cons r rs ih =>
    obtain ⟨hr, hrs⟩ := List.nodup_cons.mp hrs
    rw [acquireInOrder_cons] at h
    split at h
    · rename_i hfree
      obtain ⟨free, eq⟩ := ih hrs h
      have others : ∀ r' ∈ rs, r' ≠ r := fun r' h' => ne_of_mem_of_not_mem h' hr
      constructor
      · intro r' hr'
        rcases List.mem_cons.mp hr' with rfl | hr'
        · exact hfree
        · have := free r' hr'
          rwa [Function.update_of_ne (others r' hr')] at this
      · intro r'
        rw [eq]
        by_cases h' : r' = r
        · subst h'
          simp [hr]
        · simp [h']
    · cases h

/-- One of the resources is held by a node. -/
theorem acquireInOrder_some {res res' : Reservables} {r₀ : ReservableId} (hrs : rs.Nodup)
    (h : Reservables.acquireInOrder n rs res = (res', some r₀)) :
  (∃ r ∈ rs, (res r).holder ≠ none) ∧ (∀ r, (res r).Attempted n (res' r)) ∧
    ∀ r, r ∉ rs → res' r = res r
  := by
  induction rs generalizing res with
  | nil => cases h
  | cons r rs ih =>
    obtain ⟨hr, hrs⟩ := List.nodup_cons.mp hrs
    rw [acquireInOrder_cons] at h
    split at h
    · rename_i hfree
      obtain ⟨⟨r', hr', held⟩, attempted, others⟩ := ih hrs h
      have hne : r' ≠ r := ne_of_mem_of_not_mem hr' hr
      rw [Function.update_of_ne hne] at held
      constructor
      · exact ⟨r', .tail r hr', held⟩
      · constructor
        · intro r''
          by_cases h'' : r'' = r
          · subst h''
            rw [others r'' hr, Function.update_self]
            exact Reservable.attempted_acquired hfree
          · have := attempted r''
            rwa [Function.update_of_ne h''] at this
        · intro r'' h''
          obtain ⟨h₁, h₂⟩ := not_or.mp (mt List.mem_cons.mpr h'')
          rw [others r'' h₂, Function.update_of_ne h₁]
    · rename_i held
      obtain ⟨rfl, -⟩ := Prod.mk.inj h
      constructor
      · exact ⟨r, .head rs, held⟩
      · constructor
        · intro r''
          by_cases h'' : r'' = r
          · subst h''
            rw [Function.update_self]
            exact (Reservable.Attempted.refl n _).addWaitingNode
          · rw [Function.update_of_ne h'']
            exact .refl n _
        · intro r'' h''
          rw [Function.update_of_ne (List.ne_of_not_mem_cons h'')]

/-! ### Backing out -/

/-- What `backOut` does for a list of resources. -/
structure BacksOut (n : NodePtr) (rs : List ReservableId) (c c' : Core) : Prop where
  plan : c'.plan = c.plan
  added : c'.added = c.added
  node : c'.node = c.node
  error : c'.error = c.error
  reservable : ∀ r, c'.reservable r =
    if r ∈ rs then ((c.reservable r).released n).addWaitingNode n else c.reservable r
  queues : ∃ told, c'.queues = c.queues.notifyAllResourceAvailable told

theorem backOut_spec (n : NodePtr) (c : Core) (r : ReservableId) :
  BacksOut n [r] c (backOut n c r)
  := by
  have h := release_spec n c r
  constructor
  case plan => exact h.plan
  case added => exact h.added
  case node => exact h.node
  case error => exact h.error
  case reservable =>
    intro r'
    unfold backOut Reservables.addWaitingNode
    by_cases hr : r' = r
    · subst hr
      simp [h.reservable]
    · simp [h.reservable, hr]
  case queues =>
    obtain ⟨told, heq, -⟩ := h.queues
    exact ⟨told, heq⟩

theorem released_addWaitingNode_released (r : Reservable) :
  ((((r.released n).addWaitingNode n).released n).addWaitingNode n) =
    (r.released n).addWaitingNode n
  := by
  have notHeld : ((r.released n).addWaitingNode n).holder ≠ some n := by
    rw [Reservable.holder_addWaitingNode, Reservable.holder_released]
    split <;> simp_all
  rw [Reservable.released, if_neg notHeld]
  apply if_pos
  rw [Reservable.mem_addWaitingNode]
  exact .inr rfl

theorem backOut_foldl_spec (n : NodePtr) (rs : List ReservableId) (c : Core) :
  BacksOut n rs c (rs.foldl (backOut n) c)
  := by
  induction rs generalizing c with
  | nil => exact ⟨rfl, rfl, rfl, rfl, fun _ => rfl, [], rfl⟩
  | cons r rs ih =>
    have h := backOut_spec n c r
    have h' := ih (backOut n c r)
    rw [List.foldl_cons]
    constructor
    case plan => exact h'.plan.trans h.plan
    case added => exact h'.added.trans h.added
    case node => exact h'.node.trans h.node
    case error => exact h'.error.trans h.error
    case reservable =>
      intro r'
      rw [h'.reservable, h.reservable]
      by_cases hr : r' = r
      · simp [hr, released_addWaitingNode_released]
      · simp [hr]
    case queues =>
      obtain ⟨told, heq⟩ := h.queues
      obtain ⟨told', heq'⟩ := h'.queues
      use told ++ told'
      rw [heq', heq]
      unfold Queues.notifyAllResourceAvailable
      rw [List.foldl_append]

/-! ### The attempt of a node -/

/-- The node has acquired all resources it needs. -/
structure Acquires (F : Forest) (n : NodePtr) (c c' : Core) : Prop where
  plan : c'.plan = c.plan
  added : c'.added = c.added
  node : c'.node = c.node
  error : c'.error = c.error
  queues : c'.queues = c.queues
  free : ∀ r ∈ (F.decl n).needs, (c.reservable r).holder = none
  reservable : ∀ r, c'.reservable r =
    if r ∈ (F.decl n).needs then (c.reservable r).acquired n else c.reservable r

/-- The node has acquired nothing, and waits for all resources it needs. -/
structure Waits (F : Forest) (n : NodePtr) (c c' : Core) : Prop where
  plan : c'.plan = c.plan
  added : c'.added = c.added
  node : c'.node = c.node
  queues : ∃ told, c'.queues = c.queues.notifyAllResourceAvailable told
  held : ∃ r ∈ (F.decl n).needs, (c.reservable r).holder ≠ none
  holder : ∀ r, (c'.reservable r).holder = (c.reservable r).holder ∨
    ((c.reservable r).holder = some n ∧ (c'.reservable r).holder = none)
  waiters : ∀ r m, m ∈ (c'.reservable r).waiters ↔
    m ∈ (c.reservable r).waiters ∨ (m = n ∧ r ∈ (F.decl n).needs)
  nodup : ∀ r, (c.reservable r).waiters.Nodup → (c'.reservable r).waiters.Nodup

theorem mutexes_nodup (F : Forest) (n : NodePtr) : (F.decl n).mutexes.Nodup
  := by
  unfold NodeDecl.mutexes
  apply (F.usingMutexes_nodup n).map
  intro a b h
  exact ReservableId.mutex.inj h

theorem acquireMutexes_spec (F : Forest) (n : NodePtr) (c : Core) :
  ((c.acquireMutexes F n).2 = true ∧
    (∀ r ∈ (F.decl n).mutexes, (c.reservable r).holder = none) ∧
    (c.acquireMutexes F n).1 =
      { c with
        reservable := fun r =>
          if r ∈ (F.decl n).mutexes then (c.reservable r).acquired n else c.reservable r }) ∨
  ((c.acquireMutexes F n).2 = false ∧
    (∃ r ∈ (F.decl n).mutexes, (c.reservable r).holder ≠ none) ∧
    ∃ res error, (c.acquireMutexes F n).1 = { c with reservable := res, error } ∧
      (∀ r, (c.reservable r).Attempted n (res r)) ∧
      ∀ r, r ∉ (F.decl n).mutexes → res r = c.reservable r)
  := by
  unfold acquireMutexes
  rcases h : Reservables.acquireInOrder n (F.decl n).mutexes c.reservable with ⟨res, _ | r₀⟩
  · obtain ⟨free, heq⟩ := acquireInOrder_none (mutexes_nodup F n) h
    apply Or.inl
    refine ⟨rfl, free, ?_⟩
    dsimp only
    congr 1
    funext r
    apply heq
  · obtain ⟨held, attempted, others⟩ := acquireInOrder_some (mutexes_nodup F n) h
    apply Or.inr
    dsimp only
    split
    · exact ⟨rfl, held, res, _, rfl, attempted, others⟩
    · exact ⟨rfl, held, res, _, rfl, attempted, others⟩

/-- After an attempt which failed, the mutexes are given back. -/
theorem waits_of_backOut {F : Forest} {res : Reservables} {error : Option ExecError}
    (held : ∃ r ∈ (F.decl n).needs, (c.reservable r).holder ≠ none)
    (attempted : ∀ r, (c.reservable r).Attempted n (res r))
    (others : ∀ r, r ∉ (F.decl n).mutexes → (res r).holder = (c.reservable r).holder)
    (waiting : ∀ r, r ∉ (F.decl n).mutexes →
      (n ∈ (res r).waiters ↔ n ∈ (c.reservable r).waiters ∨ r ∈ (F.decl n).needs)) :
  Waits F n c
    ((F.decl n).mutexes.foldl (backOut n) { c with reservable := res, error })
  := by
  have h := backOut_foldl_spec n (F.decl n).mutexes { c with reservable := res, error }
  constructor
  case plan => exact h.plan
  case added => exact h.added
  case node => exact h.node
  case queues => exact h.queues
  case held => exact held
  case holder =>
    intro r
    rw [h.reservable]
    dsimp only
    split
    · rw [Reservable.holder_addWaitingNode, Reservable.holder_released]
      rcases (attempted r).holder with heq | ⟨hfree, hheld⟩
      · rw [heq]
        split
        · rename_i hn
          exact .inr ⟨hn, rfl⟩
        · exact .inl rfl
      · rw [if_pos hheld, hfree]
        exact .inl rfl
    · rename_i hr
      exact .inl (others r hr)
  case waiters =>
    intro r m
    rw [h.reservable]
    dsimp only
    by_cases hr : r ∈ (F.decl n).mutexes
    · have hneeds := NodeDecl.mem_needs_of_mem_mutexes hr
      rw [if_pos hr, Reservable.mem_addWaitingNode, Reservable.waiters_released]
      by_cases hm : m = n
      · simp [hm, hneeds]
      · simp [(attempted r).waiters m hm, hm]
    · rw [if_neg hr]
      by_cases hm : m = n
      · subst hm
        rw [waiting r hr]
        simp
      · simp [(attempted r).waiters m hm, hm]
  case nodup =>
    intro r hnodup
    rw [h.reservable]
    have := (attempted r).nodup hnodup
    split
    · apply Reservable.nodup_addWaitingNode
      rw [Reservable.waiters_released]
      exact this
    · exact this

theorem acquireVariable_of_free {r : ReservableId} (h : (c.reservable r).holder = none) :
  c.acquireVariable n r true =
    ({ c with reservable := Function.update c.reservable r ((c.reservable r).acquired n) }, true)
  := by
  unfold acquireVariable Reservables.acquire
  rw [Reservable.acquire_of_none h]
  rfl

/-- When the variable is held, or when the mutexes have not been acquired, the node waits
for the variable. -/
theorem acquireVariable_of_held {r : ReservableId} {success : Bool}
    (h : success = true → (c.reservable r).holder ≠ none) :
  c.acquireVariable n r success =
    ({ c with
      reservable := Function.update c.reservable r ((c.reservable r).addWaitingNode n) }, false)
  := by
  unfold acquireVariable Reservables.acquire Reservables.addWaitingNode
  cases success with
  | false => rfl
  | true =>
    rw [Reservable.acquire_of_ne_none (h rfl)]
    rfl

theorem tryResourceAcquisition_of_assignment {F : Forest}
    (htype : (F.decl n).nodeType = .assignment) (c : Core) :
  c.tryResourceAcquisition F n =
    let mutexesTried := c.acquireMutexes F n
    let tried := mutexesTried.1.acquireVariable n (.variable (F.decl n).baseVariable)
      mutexesTried.2
    if tried.2 then (tried.1, true) else ((F.decl n).mutexes.foldl (backOut n) tried.1, false)
  := by
  unfold tryResourceAcquisition
  rw [htype]

/-- The attempt at the mutexes and then at the variable of an assignment. -/
theorem tryResourceAcquisition_assignment {F : Forest}
    (htype : (F.decl n).nodeType = .assignment) (c : Core) :
  ((c.tryResourceAcquisition F n).2 = true ∧ Acquires F n c (c.tryResourceAcquisition F n).1) ∨
  ((c.tryResourceAcquisition F n).2 = false ∧ Waits F n c (c.tryResourceAcquisition F n).1)
  := by
  have hneeds : (F.decl n).needs =
      (F.decl n).mutexes ++ [.variable (F.decl n).baseVariable] := by
    unfold NodeDecl.needs
    rw [htype]
  have hvar := NodeDecl.variable_notMem_mutexes (F.decl n) (F.decl n).baseVariable
  rw [tryResourceAcquisition_of_assignment htype]
  dsimp only
  -- A failed attempt leaves the node on the waiting list of the variable.
  have fails {res : Reservables} (error : Option ExecError)
      (held : ∃ r ∈ (F.decl n).needs, (c.reservable r).holder ≠ none)
      (attempted : ∀ r, (c.reservable r).Attempted n (res r))
      (others : ∀ r, r ∉ (F.decl n).mutexes → res r = c.reservable r) :
      Waits F n c ((F.decl n).mutexes.foldl (backOut n)
        { c with
          reservable := Function.update res (.variable (F.decl n).baseVariable)
            ((res (.variable (F.decl n).baseVariable)).addWaitingNode n)
          error }) := by
    apply waits_of_backOut held
    · intro r
      by_cases hr : r = .variable (F.decl n).baseVariable
      · subst hr
        rw [Function.update_self]
        exact (attempted _).addWaitingNode
      · rw [Function.update_of_ne hr]
        exact attempted r
    · intro r hr
      by_cases hr' : r = .variable (F.decl n).baseVariable
      · subst hr'
        rw [Function.update_self, Reservable.holder_addWaitingNode, others _ hr]
      · rw [Function.update_of_ne hr', others r hr]
    · intro r hr
      by_cases hr' : r = .variable (F.decl n).baseVariable
      · subst hr'
        simp [hneeds]
      · rw [Function.update_of_ne hr', others r hr]
        simp [hneeds, hr, hr']
  rcases acquireMutexes_spec F n c with ⟨hok, free, heq⟩ | ⟨hok, held, res, error, heq, attempted, others⟩
  · rw [hok, heq]
    by_cases hfree : (c.reservable (.variable (F.decl n).baseVariable)).holder = none
    · rw [acquireVariable_of_free (by dsimp only; rwa [if_neg hvar])]
      apply Or.inl
      constructor
      · rfl
      · constructor
        case free =>
          intro r hr
          rw [hneeds, List.mem_append, List.mem_singleton] at hr
          rcases hr with hr | rfl
          · exact free r hr
          · exact hfree
        case reservable =>
          intro r
          rw [hneeds]
          by_cases hr : r = .variable (F.decl n).baseVariable
          · subst hr
            simp [hvar]
          · simp [hr]
        all_goals rfl
    · rw [acquireVariable_of_held (by dsimp only; rw [if_neg hvar]; exact fun _ => hfree)]
      apply Or.inr
      constructor
      · rfl
      · apply fails c.error
        · exact ⟨_, by simp [hneeds], hfree⟩
        · intro r
          dsimp only
          split
          · rename_i hm
            exact Reservable.attempted_acquired (free r hm)
          · exact .refl n _
        · intro r hr
          exact if_neg hr
  · rw [hok, heq, acquireVariable_of_held (by simp)]
    apply Or.inr
    constructor
    · rfl
    · obtain ⟨r, hr, hh⟩ := held
      exact fails _ ⟨r, NodeDecl.mem_needs_of_mem_mutexes hr, hh⟩ attempted others

theorem tryResourceAcquisition_of_ne_assignment {F : Forest}
    (htype : (F.decl n).nodeType ≠ .assignment) (c : Core) :
  c.tryResourceAcquisition F n =
    let tried := c.acquireMutexes F n
    if tried.2 then (tried.1, true) else ((F.decl n).mutexes.foldl (backOut n) tried.1, false)
  := by
  unfold tryResourceAcquisition
  cases h : (F.decl n).nodeType <;> first | contradiction | rfl

theorem tryResourceAcquisition_other {F : Forest}
    (htype : (F.decl n).nodeType ≠ .assignment) (c : Core) :
  ((c.tryResourceAcquisition F n).2 = true ∧ Acquires F n c (c.tryResourceAcquisition F n).1) ∨
  ((c.tryResourceAcquisition F n).2 = false ∧ Waits F n c (c.tryResourceAcquisition F n).1)
  := by
  have hneeds := NodeDecl.needs_of_ne_assignment htype
  rw [tryResourceAcquisition_of_ne_assignment htype]
  dsimp only
  rcases acquireMutexes_spec F n c with ⟨hok, free, heq⟩ | ⟨hok, held, res, error, heq, attempted, others⟩
  · rw [hok, heq]
    apply Or.inl
    constructor
    · rfl
    · constructor
      case free => rwa [hneeds]
      case reservable =>
        rw [hneeds]
        exact fun _ => rfl
      all_goals rfl
  · rw [hok, heq]
    apply Or.inr
    constructor
    · rfl
    · apply waits_of_backOut
      · rwa [hneeds]
      · exact attempted
      · intro r hr
        rw [others r hr]
      · intro r hr
        rw [others r hr, hneeds]
        simp [hr]

theorem tryResourceAcquisition_spec (F : Forest) (n : NodePtr) (c : Core) :
  ((c.tryResourceAcquisition F n).2 = true ∧ Acquires F n c (c.tryResourceAcquisition F n).1) ∨
  ((c.tryResourceAcquisition F n).2 = false ∧ Waits F n c (c.tryResourceAcquisition F n).1)
  := by
  by_cases htype : (F.decl n).nodeType = .assignment
  · exact tryResourceAcquisition_assignment htype c
  · exact tryResourceAcquisition_other htype c

/-! ### Leaving the waiting lists -/

theorem removeWaitingNode_foldl (n : NodePtr) (rs : List ReservableId) {res : Reservables}
    (hnodup : ∀ r, (res r).waiters.Nodup) (r : ReservableId) :
  let res' := rs.foldl (Reservables.removeWaitingNode n) res
  (res' r).holder = (res r).holder ∧ (res' r).waiters.Nodup ∧
    ∀ m, m ∈ (res' r).waiters ↔ m ∈ (res r).waiters ∧ (r ∈ rs → m ≠ n)
  := by
  dsimp only
  induction rs generalizing res with
  | nil => simp [hnodup]
  | cons r' rs ih =>
    have hfirst (r : ReservableId) : (res.removeWaitingNode n r' r).holder = (res r).holder ∧
        (res.removeWaitingNode n r' r).waiters.Nodup ∧
        ∀ m, m ∈ (res.removeWaitingNode n r' r).waiters ↔
          m ∈ (res r).waiters ∧ (r = r' → m ≠ n) := by
      unfold Reservables.removeWaitingNode
      by_cases hr : r = r'
      · subst hr
        rw [Function.update_self]
        simp [Reservable.nodup_removeWaitingNode, Reservable.mem_removeWaitingNode, hnodup,
          and_comm]
      · rw [Function.update_of_ne hr]
        simp [hnodup, hr]
    obtain ⟨holder, nodup, waiters⟩ := ih (fun r => (hfirst r).2.1)
    rw [List.foldl_cons]
    constructor
    · exact holder.trans (hfirst r).1
    · constructor
      · exact nodup
      · intro m
        rw [waiters, (hfirst r).2.2, List.mem_cons]
        tauto

/-- What `removePendingNode` does to a resource. -/
theorem removePendingNode_reservable (F : Forest) (n : NodePtr)
    (hnodup : ∀ r, (c.reservable r).waiters.Nodup) (r : ReservableId) :
  ((c.removePendingNode F n).reservable r).holder = (c.reservable r).holder ∧
    ((c.removePendingNode F n).reservable r).waiters.Nodup ∧
    ∀ m, m ∈ ((c.removePendingNode F n).reservable r).waiters ↔
      m ∈ (c.reservable r).waiters ∧ (r ∈ (F.decl n).needs → m ≠ n)
  := by
  by_cases htype : (F.decl n).nodeType = .assignment
  · -- The variable comes before the mutexes.
    have h := removeWaitingNode_foldl n
      (.variable (F.decl n).baseVariable :: (F.decl n).mutexes) hnodup r
    unfold removePendingNode releaseResourceReservations NodeDecl.needs
    rw [htype]
    simpa [or_comm] using h
  · have h := removeWaitingNode_foldl n (F.decl n).mutexes hnodup r
    rw [NodeDecl.needs_of_ne_assignment htype]
    unfold removePendingNode releaseResourceReservations
    cases htype' : (F.decl n).nodeType <;> first | contradiction | exact h

end Core
end Plexil
