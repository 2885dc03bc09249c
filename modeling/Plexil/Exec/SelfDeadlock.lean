import Plexil.Exec.MutualExclusion
import Plexil.Xml.Check

/-!
# Waiting for an ancestor

A node which waits for a mutex of one of its ancestors waits as long as the ancestor executes,
and the ancestor waits for the node.  The compiler rejects a node which uses a mutex that an
ancestor uses, as far as it sees both; the parser accepts it.  `tryResourceAcquisition` reports an
error when the first busy mutex is held by an ancestor.  When that one is held by another node,
the node is queued for all its mutexes, and nothing is reported.
-/

namespace Plexil

namespace Forest

/-- The rule of the compiler: no node uses a mutex which one of its ancestors uses. -/
def ReusesNoMutex (F : Forest) : Prop :=
  ∀ n, ∀ a ∈ F.ancestors n, ∀ mutex ∈ (F.decl n).usingMutexes, mutex ∉ (F.decl a).usingMutexes

theorem length_ancestors_lt (F : Forest) {n a : NodePtr} (h : a ∈ F.ancestors n) :
  (F.ancestors a).length < (F.ancestors n).length
  := by
  generalize hk : (F.ancestors n).length = k
  induction k generalizing n with
  | zero =>
    rw [List.length_eq_zero_iff] at hk
    rw [hk] at h
    contradiction
  | succ k ih =>
    cases hp : (F.decl n).parent with
    | none =>
      rw [F.ancestors_of_no_parent hp] at h
      contradiction
    | some p =>
      rw [F.ancestors_of_parent hp] at h hk
      rw [List.length_cons, Nat.succ.injEq] at hk
      rcases List.mem_cons.mp h with rfl | h
      · omega
      · have := ih h hk
        omega

/-- No node is its own ancestor. -/
theorem notMem_ancestors (F : Forest) (n : NodePtr) : n ∉ F.ancestors n
  := fun h => Nat.lt_irrefl _ (F.length_ancestors_lt h)

end Forest

namespace Core

variable {F : Forest} {n m : NodePtr} {c c' : Core}

/-- No node of the pending queue waits for a mutex which is held by one of its ancestors. -/
def NoSelfDeadlock (F : Forest) (c : Core) : Prop :=
  ∀ n ∈ c.queues.pending, ∀ mutex, n ∈ (c.reservable (.mutex mutex)).waiters →
    ∀ a ∈ F.ancestors n, (c.reservable (.mutex mutex)).holder ≠ some a

/-- The node uses a mutex which is held by an ancestor. -/
def AncestorHolds (F : Forest) (n : NodePtr) (c : Core) : Prop :=
  ∃ mutex ∈ (F.decl n).usingMutexes, ∃ a ∈ F.ancestors n,
    (c.reservable (.mutex mutex)).holder = some a

/-- All that the node needs is free, and a descendant waits for one of the mutexes. -/
def OvertakesDescendant (F : Forest) (n : NodePtr) (c : Core) : Prop :=
  (∀ r ∈ (F.decl n).needs, (c.reservable r).holder = none) ∧
    ∃ mutex ∈ (F.decl n).usingMutexes, ∃ m ∈ (c.reservable (.mutex mutex)).waiters,
      n ∈ F.ancestors m

/-- The condition on a step: a node which tries to acquire its mutexes does not find one of
them held by an ancestor, nor takes one for which a descendant waits. -/
def AcquiresApart (F : Forest) (c : Core) (e : CoreEvent) : Prop :=
  ∀ n, e = .acquire n → ¬ c.AncestorHolds F n ∧ ¬ c.OvertakesDescendant F n

theorem mem_needs_mutex {mutex : Nat} :
  .mutex mutex ∈ (F.decl n).needs ↔ mutex ∈ (F.decl n).usingMutexes
  := by
  rw [NodeDecl.needs_eq, NodeDecl.mutexes, List.mem_append]
  constructor
  · rintro (h | h)
    · simpa using h
    · unfold NodeDecl.assigned at h
      split at h
      · simp at h
      · contradiction
  · intro h
    left
    apply List.mem_map_of_mem h

/-- The nodes which wait are in the pending queue. -/
theorem noSelfDeadlock_iff_waiters (hw : c.WaitersPending F) :
  c.NoSelfDeadlock F ↔ ∀ mutex, ∀ n ∈ (c.reservable (.mutex mutex)).waiters,
    ∀ a ∈ F.ancestors n, (c.reservable (.mutex mutex)).holder ≠ some a
  := by
  constructor
  · intro h mutex n hn
    apply h n (hw.pending _ n hn) mutex hn
  · intro h n _ mutex hn
    apply h mutex n hn

/-- No node comes to wait, and no resource is taken. -/
theorem NoSelfDeadlock.mono (h : c.NoSelfDeadlock F) (hw : c.WaitersPending F)
    (waiters : ∀ r, ∀ n ∈ (c'.reservable r).waiters, n ∈ (c.reservable r).waiters)
    (holder : ∀ r a, (c'.reservable r).holder = some a → (c.reservable r).holder = some a) :
  c'.NoSelfDeadlock F
  := by
  intro n _ mutex hn a ha hheld
  rw [noSelfDeadlock_iff_waiters hw] at h
  apply h mutex n (waiters _ n hn) a ha (holder _ a hheld)

theorem NoSelfDeadlock.of_reservable (h : c.NoSelfDeadlock F) (hw : c.WaitersPending F)
    (hreservable : c'.reservable = c.reservable) :
  c'.NoSelfDeadlock F
  := by
  apply h.mono hw
  · rw [hreservable]
    exact fun _ _ hn => hn
  · rw [hreservable]
    exact fun _ _ ha => ha

theorem NoSelfDeadlock.removePendingNode (h : c.NoSelfDeadlock F) (hw : c.WaitersPending F)
    (hreservable : c'.reservable = (c.removePendingNode F n).reservable) :
  c'.NoSelfDeadlock F
  := by
  have hremoved := removePendingNode_reservable F n hw.nodup
  apply h.mono hw
  · intro r m hm
    rw [hreservable] at hm
    exact ((hremoved r).2.2 m).mp hm |>.1
  · intro r a ha
    rw [hreservable, (hremoved r).1] at ha
    exact ha

theorem NoSelfDeadlock.examine (h : c.NoSelfDeadlock F) (hw : c.WaitersPending F)
    (d : Option Dest) :
  (c.resourceCheckEligible F n d).1.NoSelfDeadlock F
  := by
  have recheck : (c.recheckPending F n d).1.NoSelfDeadlock F := by
    obtain ⟨error, ⟨-, heq⟩ | ⟨-, heq⟩⟩ := recheckPending_eq F n d c
    · rw [heq]
      apply h.of_reservable hw rfl
    · rw [heq]
      apply h.removePendingNode (n := n) hw
      split <;> rfl
  unfold resourceCheckEligible
  split
  · exact recheck
  · exact recheck
  · exact h
  · exact h
  · exact h

/-- An attempt has succeeded: the ancestors of the nodes which wait do not hold the mutexes
unless the node is one of them. -/
theorem NoSelfDeadlock.acquires {c₁ : Core} (h : c.NoSelfDeadlock F) (hw : c.WaitersPending F)
    (hacquires : Acquires F n c c₁) (hw' : c'.WaitersPending F)
    (hreservable : c'.reservable = (c₁.removePendingNode F n).reservable) :
  c'.NoSelfDeadlock F ↔ ¬ c.AncestorHolds F n ∧ ¬ c.OvertakesDescendant F n
  := by
  rw [noSelfDeadlock_iff_waiters hw] at h
  rw [noSelfDeadlock_iff_waiters hw', hreservable]
  have hleft := hacquires.reservable_left hw
  constructor
  · intro h'
    constructor
    · rintro ⟨mutex, hmutex, a, -, hheld⟩
      rw [hacquires.free _ (mem_needs_mutex.mpr hmutex)] at hheld
      cases hheld
    · rintro ⟨-, mutex, hmutex, m, hm, hn⟩
      obtain ⟨holder, waiters⟩ := hleft (.mutex mutex)
      rw [if_pos (mem_needs_mutex.mpr hmutex)] at holder
      apply h' mutex m _ n hn holder
      rw [waiters]
      constructor
      · exact hm
      · rintro - rfl
        exact F.notMem_ancestors m hn
  · rintro ⟨-, hovertakes⟩ mutex m hm a ha hheld
    obtain ⟨holder, waiters⟩ := hleft (.mutex mutex)
    rw [waiters] at hm
    rw [holder] at hheld
    split at hheld
    · rename_i hneeds
      cases hheld
      apply hovertakes
      exact ⟨hacquires.free, mutex, mem_needs_mutex.mp hneeds, m, hm.1, ha⟩
    · apply h mutex m hm.1 a ha hheld

/-- An attempt has failed: the node waits for all its mutexes. -/
theorem NoSelfDeadlock.waits (h : c.NoSelfDeadlock F) (hw : c.WaitersPending F)
    (hwaits : Waits F n c c') (hw' : c'.WaitersPending F) :
  c'.NoSelfDeadlock F ↔ ¬ c.AncestorHolds F n ∧ ¬ c.OvertakesDescendant F n
  := by
  rw [noSelfDeadlock_iff_waiters hw] at h
  rw [noSelfDeadlock_iff_waiters hw']
  constructor
  · intro h'
    constructor
    · rintro ⟨mutex, hmutex, a, ha, hheld⟩
      have hneeds : .mutex mutex ∈ (F.decl n).needs := mem_needs_mutex.mpr hmutex
      apply h' mutex n ((hwaits.waiters _ n).mpr (.inr ⟨rfl, hneeds⟩)) a ha
      rcases hwaits.holder (.mutex mutex) with heq | ⟨hn, -⟩
      · rw [heq, hheld]
      · -- The node gives back what it holds itself.
        rw [hheld, Option.some.injEq] at hn
        subst hn
        exact absurd ha (F.notMem_ancestors a)
    · rintro ⟨hfree, -⟩
      obtain ⟨r, hr, hheld⟩ := hwaits.held
      apply hheld (hfree r hr)
  · rintro ⟨hancestor, -⟩ mutex m hm a ha hheld
    have hheld' : (c.reservable (.mutex mutex)).holder = some a := by
      rcases hwaits.holder (.mutex mutex) with heq | ⟨-, hnone⟩
      · rw [← heq, hheld]
      · rw [hnone] at hheld
        cases hheld
    rcases (hwaits.waiters _ m).mp hm with hm | ⟨rfl, hneeds⟩
    · apply h mutex m hm a ha hheld'
    · apply hancestor
      exact ⟨mutex, mem_needs_mutex.mp hneeds, a, ha, hheld'⟩

/-- Nothing else makes a node wait for an ancestor. -/
theorem NoSelfDeadlock.other {e : CoreEvent} (h : c.NoSelfDeadlock F) (hw : c.WaitersPending F)
    (hstep : Step F c e c') (hevent : ∀ n, e ≠ .acquire n) :
  c'.NoSelfDeadlock F
  := by
  cases hstep
  case quiet hquiet => exact h.of_reservable hw hquiet.reservable
  case notify n hexists => exact h.of_reservable hw rfl
  case notifyResourceAvailable n hexists => exact h.of_reservable hw rfl
  case addPlan root hroot hadded => exact h.of_reservable hw rfl
  case deleteFinishedPlans => exact h.of_reservable hw rfl
  case evaluate n rest d hcandidate hfinds =>
    obtain ⟨error, heq⟩ := evaluateCandidate_eq F n rest d c
    rw [heq]
    exact h.of_reservable hw rfl
  case examine n d hpending hfinds => exact h.examine hw d
  case acquire n hpending => exact absurd rfl (hevent n)
  case stay n rest hstateChange hnext => exact h.of_reservable hw rfl
  case transition n rest hstateChange hnext ht =>
    apply h.mono hw
    · intro r m hm
      rw [ht.waiters_eq] at hm
      exact hm
    · intro r a ha
      exact (ht.holder_of ha).1

/-- A step keeps the nodes from waiting for their ancestors exactly when it meets the condition. -/
theorem NoSelfDeadlock.step {e : CoreEvent} (h : c.NoSelfDeadlock F) (hq : c.queues.WellFormed)
    (hx : c.Exclusive F) (hstep : Step F c e c') :
  c'.NoSelfDeadlock F ↔ c.AcquiresApart F e
  := by
  have hw := hx.waiters
  by_cases hevent : ∃ n, e = .acquire n
  · obtain ⟨n, rfl⟩ := hevent
    have hx' := hstep.exclusive hq hx
    cases hstep with
    | acquire hpending =>
    have hiff : (c.acquire F n).NoSelfDeadlock F ↔
        ¬ c.AncestorHolds F n ∧ ¬ c.OvertakesDescendant F n := by
      rcases acquire_eq F n c with ⟨c₁, hacquires, heq⟩ | ⟨c₁, hwaits, heq⟩
      · apply h.acquires hw hacquires hx'.waiters
        rw [heq]
        rfl
      · have hconsidered := considered_waits hq hw hpending (hx.next n hpending)
          (hx.legal n (.inl hpending)) hwaits
        have hwaiting := h.waits hw hwaits hconsidered.waiters
        rw [heq]
        exact hwaiting
    rw [hiff]
    constructor
    · rintro hapart m hm
      cases hm
      exact hapart
    · intro hapart
      apply hapart n rfl
  · rw [not_exists] at hevent
    apply iff_of_true (h.other hw hstep hevent)
    intro n hn
    exact absurd hn (hevent n)

/-- Who holds a resource needs it. -/
def HoldersNeed (F : Forest) (c : Core) : Prop :=
  ∀ r n, (c.reservable r).holder = some n → r ∈ (F.decl n).needs

theorem HoldersNeed.considered {k : Option QueueName} (h : c.HoldersNeed F)
    (hc : Considered F n k c c') :
  c'.HoldersNeed F
  := by
  intro r m hm
  rcases hc.holder r with heq | ⟨-, hn, hneeds, -⟩ | ⟨-, hnone, -⟩
  · rw [heq] at hm
    exact h r m hm
  · rw [hn, Option.some.injEq] at hm
    rwa [← hm]
  · rw [hnone] at hm
    cases hm

theorem HoldersNeed.step {e : CoreEvent} (h : c.HoldersNeed F) (hq : c.queues.WellFormed)
    (hx : c.Exclusive F) (hstep : Step F c e c') :
  c'.HoldersNeed F
  := by
  cases hstep
  case quiet hquiet =>
    intro r m hm
    rw [hquiet.reservable] at hm
    exact h r m hm
  case notify n hexists => exact h
  case notifyResourceAvailable n hexists => exact h
  case addPlan root hroot hadded => exact h
  case deleteFinishedPlans => exact h
  case evaluate n rest d hcandidate hfinds =>
    obtain ⟨k, hc, -⟩ := considered_evaluate hq hx.waiters hcandidate hfinds
    exact h.considered hc
  case examine n d hpending hfinds =>
    obtain ⟨k, hc, -⟩ := considered_examine hq hx.waiters hpending hfinds (hx.next n hpending)
      (hx.legal n (.inl hpending))
    exact h.considered hc
  case acquire n hpending =>
    obtain ⟨k, hc⟩ := considered_acquire hq hx.waiters hpending (hx.next n hpending)
      (hx.legal n (.inl hpending))
    exact h.considered hc
  case stay n rest hstateChange hnext => exact h
  case transition n rest hstateChange hnext ht => exact fun r m hm => h r m (ht.holder_of hm).1

end Core

/-! ### Runs -/

namespace Exec

variable {F : Forest} {Allowed : Exec → Event → Prop} {s s' : Exec} {e : Event}

theorem Reachable.holdersNeed (h : Reachable F Allowed s) : s.HoldersNeed F
  := by
  have hboth : s.Exclusive F ∧ s.HoldersNeed F := by
    apply h.core_invariant (P := fun c => c.Exclusive F ∧ c.HoldersNeed F) (fun _ _ => True)
    · exact fun _ _ _ _ _ _ => trivial
    · exact fun _ _ => trivial
    · intro hierarchy w
      constructor
      · apply exclusive_initial
      · intro r n hn
        cases hn
    · rintro c e c' hq ⟨hx, h⟩ - hstep
      exact ⟨hstep.exclusive hq hx, h.step hq hx hstep⟩
  exact hboth.2

/-- When the plans follow the rule of the compiler, no node waits for an ancestor. -/
theorem noSelfDeadlock_of_reusesNoMutex (h : Reachable F Allowed s) (hF : F.ReusesNoMutex) :
  s.NoSelfDeadlock F
  := by
  intro n _ mutex hn a ha hheld
  have hused := Core.mem_needs_mutex.mp (h.exclusive.waiters.needs _ n hn)
  have hused' := Core.mem_needs_mutex.mp (h.holdersNeed _ a hheld)
  apply hF n a ha mutex hused hused'

theorem noSelfDeadlock_step (hs : Reachable F (fun _ _ => True) s) (h : s.NoSelfDeadlock F)
    (hstep : s.apply F e = some s') :
  s'.NoSelfDeadlock F ↔ s.AcquiresApart F (s.coreEvent F e)
  := by
  obtain ⟨c₁, ns, hcore, hns, heq⟩ := (Move.of_apply hstep).core hs.walk
  -- Notifications leave the pending queue and the resources as they are.
  have hpending : (c₁.withQueues (Queues.notifyAll ns)).queues.pending = c₁.queues.pending :=
    Queues.pending_notifyAll ns
  rw [← h.step hs.wellFormed hs.exclusive hcore, heq]
  unfold Core.NoSelfDeadlock
  rw [hpending]
  rfl

/-- No node comes to wait for an ancestor throughout a run exactly when no node tries to acquire
its mutexes while an ancestor holds one of them, nor takes a mutex for which a descendant waits. -/
theorem noSelfDeadlock_iff (F : Forest) (hierarchy : ResourceHierarchyMap) (w : World)
    (es : List Event) :
  StateMachine.Always (apply F) (fun s => s.NoSelfDeadlock F) es (initial hierarchy w) ↔
    StateMachine.Meets (apply F)
      (fun s e => (s.apply F e).isSome → s.AcquiresApart F (s.coreEvent F e)) es
      (initial hierarchy w)
  := by
  apply StateMachine.always_iff_meets (I := Reachable F fun _ _ => True)
  · exact fun s e s' hs hstep => .step hs trivial hstep
  · intro s e hs h
    constructor
    · intro hallowed s' hs'
      rw [noSelfDeadlock_step hs h hs']
      apply hallowed
      rw [hs']
      rfl
    · intro h' hsome
      obtain ⟨s', hs'⟩ := Option.isSome_iff_exists.mp hsome
      rw [← noSelfDeadlock_step hs h hs']
      apply h' s' hs'
  · exact .init ⟨hierarchy, w, rfl⟩
  · intro n hn
    cases hn

end Exec

/-! ### A plan of the parser -/

namespace Xml

namespace AcceptedPlan

/-- The places of the nodes of a plan. -/
def paths (plan : AcceptedPlan) : List (List Nat) :=
  plan.nodes.flatMap fun node => node.ancestors.map NodeInfo.path

/-- The mutexes which a node uses, as `findMutex` finds them when the node is constructed. -/
def usedMutexes (plan : AcceptedPlan) (node : FinalizedNode) : List MutexDeclaration :=
  node.header.usingMutex.filterMap (findMutex plan.globalMutexes node.ancestors)

/-- The tree which the parser makes of an accepted plan, among the trees of the executive.  The
nodes and the mutexes of the plan are told apart. -/
structure Loaded (plan : AcceptedPlan) where
  forest : Forest
  node : List Nat → NodePtr
  mutex : MutexDeclaration → Nat
  node_injective : ∀ path ∈ plan.paths, ∀ path' ∈ plan.paths, node path = node path' → path = path'
  mutex_injective : ∀ n ∈ plan.nodes, ∀ d ∈ plan.usedMutexes n, ∀ n' ∈ plan.nodes,
    ∀ d' ∈ plan.usedMutexes n', mutex d = mutex d' → d = d'
  placed : ∀ n ∈ plan.nodes, ∃ p ∈ n.ancestors.map (fun info => node info.path),
    n.ancestors.map (fun info => node info.path) = p :: forest.ancestors p ∧
      (forest.decl p).usingMutexes = (plan.usedMutexes n).map mutex

end AcceptedPlan

/-- A list node which uses the mutex b, with a node which uses a, and with a call of a library
whose node uses a and b. -/
def reusingRoot : Node :=
  .nodeList { nodeId := "Parent", usingMutex := ["b"] }
    [.leaf { nodeId := "Other", usingMutex := ["a"] },
      .libraryNodeCall { nodeId := "Call" } [] ["a", "b"]
        (.leaf { nodeId := "Library", usingMutex := ["a", "b"] })]

/-- The nodes of the plan. -/
def reusingNodes : List FinalizedNode := (parsePlan ["a", "b"] reusingRoot).toOption.getD []

/-- The plan is accepted. -/
def reusingPlan : AcceptedPlan where
  root := reusingRoot
  planMutexes := ["a", "b"]
  globalMutexes := ["a", "b"]
  nodes := reusingNodes
  accepted := by rfl
  checked := by decide +kernel
  declared := by decide +kernel

/-- The tree of the plan.  The end condition of `Other` keeps it in EXECUTING. -/
def reusingForest : Forest where
  decl
    | 0 => ⟨.nodeList, none, [1, 2], 0, [1], 0, fun _ => false, false⟩
    | 1 => ⟨.empty, some 0, [], 0, [0], 0, fun c => c = .end, false⟩
    | 2 => ⟨.libraryNodeCall, some 0, [3], 0, [], 0, fun _ => false, false⟩
    | 3 => ⟨.empty, some 2, [], 0, [0, 1], 0, fun _ => false, false⟩
    | _ => ⟨.empty, none, [], 0, [], 0, fun _ => false, false⟩
  ancestors
    | 1 => [0]
    | 2 => [0]
    | 3 => [2, 0]
    | _ => []
  ancestors_eq n := by
    rcases n with _ | _ | _ | _ | n <;> rfl
  mem_children p c := by
    rcases p with _ | _ | _ | _ | p <;> rcases c with _ | _ | _ | _ | c <;> simp
  isList_of_children p h := by
    rcases p with _ | _ | _ | _ | p <;> first | rfl | exact absurd rfl h
  usingMutexes_nodup n := by
    rcases n with _ | _ | _ | _ | n <;> first | exact List.nodup_nil | decide

/-- The parser makes that tree. -/
def reusingLoaded : reusingPlan.Loaded where
  forest := reusingForest
  node path := [[], [0], [1], [0, 1]].idxOf path
  mutex d := [.global "a", .global "b"].idxOf d
  node_injective := by decide +kernel
  mutex_injective := by decide +kernel
  placed := by decide +kernel

/-- While `Other` holds a, the node of the library waits for a and for b, which the parent holds. -/
theorem noSelfDeadlock_fails :
  ¬ ∀ (plan : AcceptedPlan) (loaded : plan.Loaded) hierarchy w es,
    StateMachine.Always (Exec.apply loaded.forest) (fun s => s.NoSelfDeadlock loaded.forest) es
      (Exec.initial hierarchy w)
  := by
  intro h
  have hrun : (StateMachine.run (Exec.apply reusingLoaded.forest)
      ([.addPlan 0, .step 0] ++ Event.nexts 46 .unknown) (Exec.initial ∅ .unknown)).map
      (fun s => (s.queues.pending, (s.reservable (.mutex 1)).waiters,
        (s.reservable (.mutex 1)).holder)) = some ([3], [3], some 0) := by
    decide +kernel
  obtain ⟨s, hs, hstate⟩ := Option.map_eq_some_iff.mp hrun
  obtain ⟨hpending, hrest⟩ := Prod.mk.inj hstate
  obtain ⟨hwaiters, hholder⟩ := Prod.mk.inj hrest
  have hreached := (h reusingPlan reusingLoaded _ _ _).of_run hs
  apply hreached 3 _ 1 _ 0 _ hholder
  · rw [hpending]
    apply List.mem_singleton_self
  · rw [hwaiters]
    apply List.mem_singleton_self
  · change 0 ∈ [2, 0]
    decide

end Xml
end Plexil
