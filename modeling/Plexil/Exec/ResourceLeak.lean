import Plexil.Exec.MutualExclusion
import Plexil.Exec.Phases

/-!
# Resource leaks

A node is to hold resources only while it is active or about to be.  There are two leaks.
`transitionToFinished` releases the mutexes when the node comes from WAITING, where its
comment speaks of FAILING, so that a node which is interrupted keeps its mutexes when it
finishes.  And a plan may be deleted with nodes which are still going to acquire resources.
-/

namespace Plexil

namespace Core

variable {F : Forest} {n m : NodePtr} {d : Option Dest} {c c' : Core}

/-- The condition on a step of the core: a node which finishes from an active state uses no
mutexes, and the nodes of a deleted plan are INACTIVE or FINISHED. -/
def ReleasesAll (F : Forest) (c : Core) : CoreEvent → Prop
  | .transition n =>
    (c.node n).state.isActive = true → (c.node n).nextState = .finished →
      (F.decl n).usingMutexes = []
  | .deleteFinishedPlans =>
    c.queues.stateChange = [] ∧ ∀ n, F.root n ∈ c.queues.finishedRoot →
      (c.node n).state = .inactive ∨ (c.node n).state = .finished
  | _ => True

/-- What remains of a node which is not loaded. -/
structure Gone (F : Forest) (n : NodePtr) (c : Core) : Prop where
  state : (c.node n).state = .inactive ∨ (c.node n).state = .finished
  pending : n ∉ c.queues.pending
  stateChange : n ∈ c.queues.stateChange →
    (c.node n).state = .inactive ∧ (c.node n).nextState = .finished
  root : (F.decl n).parent = none → n ∉ c.queues.candidate ∧ n ∉ c.queues.stateChange

/-- The invariant: who holds a resource needs it, and is active or about to be. -/
structure Leakfree (F : Forest) (c : Core) : Prop where
  exclusive : c.Exclusive F
  gone : ∀ n, c.exists F n = false → c.Gone F n
  needs : ∀ r n, (c.reservable r).holder = some n → r ∈ (F.decl n).needs
  active : ∀ r n, (c.reservable r).holder = some n →
    (c.node n).state.isActive = true ∨
      n ∈ c.queues.stateChange ∧ (c.node n).nextState = .executing

/-! ### Nodes which are not loaded -/

namespace Gone

theorem congr (h : c.Gone F n) (hstate : (c'.node n).state = (c.node n).state)
    (hnext : (c'.node n).nextState = (c.node n).nextState)
    (hpending : n ∈ c'.queues.pending → n ∈ c.queues.pending)
    (hstateChange : n ∈ c'.queues.stateChange → n ∈ c.queues.stateChange)
    (hcandidate : (F.decl n).parent = none → n ∈ c'.queues.candidate → n ∈ c.queues.candidate) :
  c'.Gone F n
  := by
  constructor
  case state =>
    rw [hstate]
    exact h.state
  case pending => exact fun hn => h.pending (hpending hn)
  case stateChange =>
    rw [hstate, hnext]
    exact fun hn => h.stateChange (hstateChange hn)
  case root =>
    intro hparent
    obtain ⟨hc, hs⟩ := h.root hparent
    exact ⟨fun hn => hc (hcandidate hparent hn), fun hn => hs (hstateChange hn)⟩

/-- A node which is not loaded is skipped when its parent has finished, and does nothing
else. -/
theorem finds (h : c.Gone F n) (hparent : ∀ p, (F.decl n).parent = some p → c.Gone F p)
    (hcandidate : n ∈ c.queues.candidate) (hfinds : c.Finds F n d) :
  d = none ∨ (d = some .skipped ∧ (c.node n).state = .inactive)
  := by
  obtain ⟨v, -, hstate, -, hparentState, hd⟩ := hfinds
  cases hp : (F.decl n).parent with
  | none => exact absurd hcandidate (h.root hp).1
  | some p =>
    rw [hp] at hparentState
    unfold destState at hd
    rcases h.state with hn | hn <;> rw [hstate, hn] at hd <;> dsimp only at hd
    · unfold getDestStateFromInactive at hd
      rcases (hparent p hp).state with hp' | hp' <;> rw [hparentState, Option.map_some, hp'] at hd
      · exact .inl hd.symm
      · exact .inr ⟨hd.symm, hn⟩
    · unfold getDestStateFromFinished at hd
      apply Or.inl
      rw [← hd]
      apply if_neg
      rw [hparentState]
      rcases (hparent p hp).state with hp' | hp' <;> simp [hp']

end Gone

namespace Leakfree

theorem congr (h : c.Leakfree F) (hexclusive : c'.Exclusive F)
    (hexists : ∀ n, c'.exists F n = false → c.exists F n = false)
    (hstate : ∀ n, (c'.node n).state = (c.node n).state)
    (hnext : ∀ n, (c'.node n).nextState = (c.node n).nextState)
    (hpending : c'.queues.pending = c.queues.pending)
    (hstateChange : c'.queues.stateChange = c.queues.stateChange)
    (hcandidate : ∀ n, c'.exists F n = false → (F.decl n).parent = none →
      n ∈ c'.queues.candidate → n ∈ c.queues.candidate)
    (hreservable : c'.reservable = c.reservable) :
  c'.Leakfree F
  := by
  constructor
  case exclusive => exact hexclusive
  case gone =>
    intro n hn
    apply (h.gone n (hexists n hn)).congr (hstate n) (hnext n)
    · rw [hpending]
      exact id
    · rw [hstateChange]
      exact id
    · exact hcandidate n hn
  case needs =>
    rw [hreservable]
    exact h.needs
  case active =>
    intro r n hr
    rw [hstate, hnext, hstateChange]
    rw [hreservable] at hr
    exact h.active r n hr

/-- A node of the pending queue is loaded. -/
theorem exists_of_pending (h : c.Leakfree F) (hn : n ∈ c.queues.pending) : c.exists F n = true
  := by
  by_contra hexists
  exact (h.gone n (by simpa using hexists)).pending hn

/-- Another node is considered. -/
theorem gone_considered {k : Option QueueName} (hc : Considered F n k c c') (hm : m ≠ n)
    (h : c.Gone F m) :
  c'.Gone F m
  := by
  apply h.congr
  · rw [hc.others m hm]
  · rw [hc.others m hm]
  · exact (hc.placed.others hm .pending).mp
  · exact (hc.placed.others hm .stateChange).mp
  · exact fun _ => (hc.placed.others hm .candidate).mp

theorem considered {k : Option QueueName} (h : c.Leakfree F) (hc : Considered F n k c c')
    (hgone : c.exists F n = false → c'.Gone F n) (hn : n ∉ c.queues.stateChange) :
  c'.Leakfree F
  := by
  constructor
  case exclusive => exact h.exclusive.considered hc
  case gone =>
    intro m hm
    rw [exists_eq_of_plan hc.plan] at hm
    by_cases hmn : m = n
    · subst hmn
      exact hgone hm
    · exact gone_considered hc hmn (h.gone m hm)
  case needs =>
    intro r m hr
    rcases hc.holder r with heq | ⟨-, hn, hneeds, -⟩ | ⟨-, hnone, -⟩
    · exact h.needs r m (heq ▸ hr)
    · cases hn.symm.trans hr
      exact hneeds
    · cases hnone.symm.trans hr
  case active =>
    intro r m hr
    rcases hc.holder r with heq | ⟨-, hself, -, hk, hexec⟩ | ⟨-, hnone, -⟩
    · rcases h.active r m (heq ▸ hr) with hactive | ⟨hqueued, hexec⟩
      · apply Or.inl
        by_cases hmn : m = n
        · subst hmn
          rwa [hc.state]
        · rwa [hc.others m hmn]
      · have hmn : m ≠ n := ne_of_mem_of_not_mem hqueued hn
        apply Or.inr
        rw [hc.others m hmn]
        exact ⟨(hc.placed.others hmn .stateChange).mpr hqueued, hexec⟩
    · cases hself.symm.trans hr
      exact .inr ⟨(hc.placed n .stateChange).mpr (.inl ⟨rfl, hk⟩), hexec⟩
    · cases hnone.symm.trans hr

/-- What is deleted is gone. -/
theorem gone_deleteFinishedPlans (h : c.Leakfree F) (hq : c.queues.WellFormed)
    (hok : c.ReleasesAll F .deleteFinishedPlans) (n : NodePtr)
    (hn : Core.exists F n { c with
      plan := c.plan.filter (· ∉ c.queues.finishedRoot)
      queues := { c.queues with finishedRoot := [] } } = false) :
  Core.Gone F n { c with
    plan := c.plan.filter (· ∉ c.queues.finishedRoot)
    queues := { c.queues with finishedRoot := [] } }
  := by
  by_cases hroot : F.root n ∈ c.queues.finishedRoot
  · have hstate := hok.2 n hroot
    constructor
    case state => exact hstate
    case pending =>
      -- A node of the pending queue is to execute, so that it is WAITING.
      intro hpending
      have hlegal := h.exclusive.legal n (.inl hpending)
      unfold NextLegal at hlegal
      rw [h.exclusive.next n hpending] at hlegal
      have hwaiting := legalSuccessor_executing hlegal
      rcases hstate with hstate | hstate <;> cases hwaiting.symm.trans hstate
    case stateChange =>
      intro hmem
      rw [hok.1] at hmem
      cases hmem
    case root =>
      intro hparent
      rw [F.root_of_no_parent hparent] at hroot
      constructor
      · intro hmem
        cases hq.unique (k := .finishedRoot) (j := .candidate) hroot hmem
      · intro hmem
        cases hq.unique (k := .finishedRoot) (j := .stateChange) hroot hmem
  · have hgone : c.Gone F n := by
      apply h.gone n
      unfold Core.exists at hn ⊢
      simpa [hroot] using hn
    exact hgone.congr rfl rfl id id fun _ => id

/-- A node which is not loaded may be skipped, but does not become pending. -/
theorem gone_evaluate {k : Option QueueName} (h : c.Leakfree F)
    (hmem : n ∈ c.queues.candidate) (hfinds : c.Finds F n d) (hc : Considered F n k c c')
    (hk : k ≠ none → d ≠ none) (hdest : c'.node n = (c.node n).setDest d)
    (hn : c.exists F n = false) :
  c'.Gone F n
  := by
  have hgone := h.gone n hn
  have hparent (p : NodePtr) (hp : (F.decl n).parent = some p) : c.Gone F p := by
    apply h.gone p
    unfold Core.exists at hn ⊢
    rwa [F.root_of_parent hp] at hn
  have hd := hgone.finds hparent hmem hfinds
  have hnext (hk' : k ≠ none) :
      (c'.node n).nextState = .finished ∧ (c.node n).state = .inactive := by
    obtain ⟨rfl, hinactive⟩ := hd.resolve_left (hk hk')
    rw [hdest]
    exact ⟨rfl, hinactive⟩
  constructor
  case state =>
    rw [hc.state]
    exact hgone.state
  case pending =>
    intro hpending
    obtain ⟨-, rfl⟩ := ((hc.placed n .pending).mp hpending).resolve_right (by simp)
    have hnext := (hnext (by simp)).1
    rw [hc.next rfl] at hnext
    cases hnext
  case stateChange =>
    intro hqueued
    obtain ⟨-, rfl⟩ := ((hc.placed n .stateChange).mp hqueued).resolve_right (by simp)
    obtain ⟨hnext, hinactive⟩ := hnext (by simp)
    rw [hc.state]
    exact ⟨hinactive, hnext⟩
  case root => exact fun hparent => absurd hmem (hgone.root hparent).1

/-- What the node still holds after a transition keeps it active. -/
theorem active_transitioned {r : ReservableId} (hactive : (c.node n).state.isActive = true)
    (hlegal : c.NextLegal F n) (hneeds : r ∈ (F.decl n).needs)
    (hok : (c.node n).nextState = .finished → (F.decl n).usingMutexes = [])
    (hkept : r ∉ (F.decl n).released (c.node n).state (c.node n).nextState) :
  (c.node n).nextState.isActive = true
  := by
  have hwaiting : (c.node n).state ≠ .waiting := by
    intro hw
    rw [hw] at hactive
    cases hactive
  unfold NextLegal at hlegal
  cases hnext : (c.node n).nextState
  case executing => rfl
  case finishing => rfl
  case failing => rfl
  case iterationEnded =>
    rw [hnext] at hkept
    exact absurd (NodeDecl.mem_released_iterationEnded hneeds hwaiting) hkept
  case finished =>
    -- Without mutexes there is only the variable of an assignment, which comes from FAILING.
    rw [hnext] at hkept hlegal
    have hmutexes : (F.decl n).mutexes = [] := by
      unfold NodeDecl.mutexes
      rw [hok hnext]
      rfl
    rw [NodeDecl.needs_eq, hmutexes, List.nil_append] at hneeds
    cases htype : (F.decl n).nodeType
    case assignment =>
      rw [htype] at hlegal
      have hfailing := legalSuccessor_assignment_finished hlegal hactive
      apply absurd _ hkept
      unfold NodeDecl.released
      dsimp only
      rw [if_pos hfailing]
      exact List.mem_append_left _ hneeds
    all_goals
      unfold NodeDecl.assigned at hneeds
      rw [htype] at hneeds
      cases hneeds
  all_goals
    rw [hnext] at hlegal
    exfalso
    revert hactive hlegal
    cases (F.decl n).nodeType <;> cases (c.node n).state <;> decide

theorem transitioned {rest : List NodePtr} (h : c.Leakfree F) (hq : c.queues.WellFormed)
    (hok : c.ReleasesAll F (.transition n)) (hstateChange : c.queues.stateChange = n :: rest)
    (ht : Transitioned F n (c.withQueues (Queues.getStateChangeNode n rest)) c') :
  c'.Leakfree F
  := by
  have hmem : n ∈ c.queues.stateChange := by
    simp [hstateChange]
  have hlegal := h.exclusive.legal n (.inr hmem)
  have hpending : c'.queues.pending = c.queues.pending :=
    ht.pending_eq.trans Queues.pending_getStateChangeNode
  have hrest : c'.queues.stateChange = rest :=
    ht.stateChange_eq.trans Queues.stateChange_getStateChangeNode
  have hnodup : (n :: rest).Nodup := hstateChange ▸ hq.nodup .stateChange
  have hn : n ∉ rest := (List.nodup_cons.mp hnodup).1
  constructor
  case exclusive => exact h.exclusive.transitioned hq hstateChange ht
  case gone =>
    intro m hm
    rw [exists_eq_of_plan ht.plan] at hm
    have hgone := h.gone m hm
    by_cases hmn : m = n
    · subst hmn
      have hnext := (hgone.stateChange hmem).2
      constructor
      case state =>
        rw [ht.state]
        exact .inr hnext
      case pending =>
        rw [hpending]
        exact hgone.pending
      case stateChange =>
        rw [hrest]
        exact fun h => absurd h hn
      case root => exact fun hparent => absurd hmem (hgone.root hparent).2
    · apply hgone.congr
      · rw [ht.others m hmn]
        rfl
      · rw [ht.others m hmn]
        rfl
      · rw [hpending]
        exact id
      · rw [hrest, hstateChange]
        exact .tail n
      · intro hparent hm'
        rcases ht.mem_candidate hm' with heq | hchild | hm'
        · exact absurd heq hmn
        · rw [F.mem_children, hparent] at hchild
          cases hchild
        · exact (Queues.mem_candidate_getStateChangeNode hm').resolve_left hmn
  case needs => exact fun r m hr => h.needs r m (ht.holder_of hr).1
  case active =>
    intro r m hr
    obtain ⟨hholder, hkept⟩ := ht.holder_of hr
    by_cases hmn : m = n
    · subst hmn
      apply Or.inl
      rw [ht.state]
      rcases h.active r m hholder with hactive | ⟨-, hexec⟩
      · exact active_transitioned hactive hlegal (h.needs r m hholder) (hok hactive) (hkept rfl)
      · change (c.node m).nextState.isActive = true
        rw [hexec]
        rfl
    · rw [ht.others m hmn, hrest]
      apply (h.active r m hholder).imp id
      rintro ⟨hqueued, hexec⟩
      rw [hstateChange] at hqueued
      exact ⟨(List.mem_cons.mp hqueued).resolve_left hmn, hexec⟩

end Leakfree

theorem Step.leakfree {e : CoreEvent} (hq : c.queues.WellFormed) (h : c.Leakfree F)
    (hok : c.ReleasesAll F e) (hstep : Step F c e c') :
  c'.Leakfree F
  := by
  have hexclusive := hstep.exclusive hq h.exclusive
  cases hstep
  case quiet hquiet =>
    have hexists := exists_eq_of_plan (F := F) hquiet.plan
    apply h.congr hexclusive (fun n => by rw [hexists]; exact id)
      (fun n => (hquiet.node n).state) (fun n => (hquiet.node n).nextState) _ _ _ hquiet.reservable
    · rw [hquiet.queues]
    · rw [hquiet.queues]
    · rw [hquiet.queues]
      exact fun _ _ _ => id
  case notify n hexists =>
    apply h.congr hexclusive (fun _ => id) (fun _ => rfl) (fun _ => rfl) Queues.pending_notify
      Queues.stateChange_notify _ rfl
    intro m hm _ hmem
    apply (Queues.mem_candidate_notify hmem).resolve_left
    rintro rfl
    exact absurd (hexists.symm.trans hm) (by simp)
  case notifyResourceAvailable n hexists =>
    apply h.congr hexclusive (fun _ => id) (fun _ => rfl) (fun _ => rfl)
      Queues.pending_notifyResourceAvailable Queues.stateChange_notifyResourceAvailable _ rfl
    intro m _ _ hmem
    change m ∈ (c.queues.notifyResourceAvailable n).candidate at hmem
    rwa [Queues.candidate_notifyResourceAvailable] at hmem
  case addPlan root hroot hadded =>
    apply h.congr hexclusive _ (fun _ => rfl) (fun _ => rfl) Queues.pending_notify
      Queues.stateChange_notify _ rfl
    · intro m hm
      unfold Core.exists at hm ⊢
      simp only [List.mem_append, decide_eq_false_iff_not, not_or] at hm ⊢
      exact hm.1
    · intro m hm hparent hmem
      apply (Queues.mem_candidate_notify hmem).resolve_left
      rintro rfl
      unfold Core.exists at hm
      rw [F.root_of_no_parent hparent] at hm
      simp at hm
  case deleteFinishedPlans =>
    constructor
    case exclusive => exact hexclusive
    case gone => exact h.gone_deleteFinishedPlans hq hok
    case needs => exact h.needs
    case active => exact h.active
  case evaluate n rest d hcandidate hfinds =>
    obtain ⟨k, hc, hk⟩ := considered_evaluate hq h.exclusive.waiters hcandidate hfinds
    have hmem : n ∈ c.queues.members .candidate := by
      simp [Queues.members, hcandidate]
    apply h.considered hc
    · exact h.gone_evaluate hmem hfinds hc hk.mp (node_evaluateCandidate ..)
    · intro hn
      cases hq.unique hmem (j := .stateChange) hn
  case examine n d hpending hfinds =>
    obtain ⟨k, hc, -⟩ := considered_examine hq h.exclusive.waiters hpending hfinds
      (h.exclusive.next n hpending) (h.exclusive.legal n (.inl hpending))
    apply h.considered hc
    · intro hgone
      exact absurd (h.exists_of_pending hpending) (by simp [hgone])
    · exact hq.disjoint n hpending
  case acquire n hpending =>
    obtain ⟨k, hc⟩ := considered_acquire hq h.exclusive.waiters hpending
      (h.exclusive.next n hpending) (h.exclusive.legal n (.inl hpending))
    apply h.considered hc
    · intro hgone
      exact absurd (h.exists_of_pending hpending) (by simp [hgone])
    · exact hq.disjoint n hpending
  case stay n rest hstateChange hnext =>
    have hlegal := h.exclusive.legal n (.inr (by simp [hstateChange]))
    exact absurd hnext (legalSuccessor_ne hlegal)
  case transition n rest hstateChange hnext ht => exact h.transitioned hq hok hstateChange ht

end Core

namespace Exec

/-- The condition on a transition: a node which finishes from an active state uses no
mutexes. -/
def ReleasesMutexes (F : Forest) (s : Exec) : Prop :=
  s.phase = .transitioning → ∀ n ∈ s.queues.stateChange.head?,
    (s.node n).state.isActive = true → (s.node n).nextState = .finished →
      (F.decl n).usingMutexes = []

instance (F : Forest) : DecidablePred (ReleasesMutexes F) := fun s =>
  inferInstanceAs (Decidable (s.phase = .transitioning → ∀ n ∈ s.queues.stateChange.head?,
    (s.node n).state.isActive = true → (s.node n).nextState = .finished →
      (F.decl n).usingMutexes = []))

/-- The condition on a deletion: the nodes of the plan are INACTIVE or FINISHED. -/
def PlansAtRest (F : Forest) (s : Exec) : Prop :=
  ∀ n, F.root n ∈ s.queues.finishedRoot →
    (s.node n).state = .inactive ∨ (s.node n).state = .finished

/-- The condition on an event under which nothing leaks. -/
def ReleasesAll (F : Forest) (s : Exec) : Event → Prop
  | .next _ _ => s.ReleasesMutexes F
  | .deleteFinishedPlans => s.PlansAtRest F
  | _ => True

/-- No resource leaks: its holder exists and is active or queued for a transition to
EXECUTING, and a node which has ended holds nothing. -/
structure NoLeak (F : Forest) (s : Exec) : Prop where
  holder : ∀ r n, (s.reservable r).holder = some n → s.exists F n = true ∧
    ((n ∈ s.queues.stateChange ∧ (s.node n).nextState = .executing) ∨
      (s.node n).state.isActive = true)
  ended : ∀ n, (s.node n).state = .iterationEnded ∨ (s.node n).state = .finished →
    ∀ r, (s.reservable r).holder ≠ some n

variable {F : Forest} {s : Exec} {e : Event}

theorem leakfree_initial (hierarchy : ResourceHierarchyMap) (w : World) :
  (initial hierarchy w).Leakfree F
  := by
  constructor
  case exclusive => exact exclusive_initial hierarchy w
  case gone =>
    intro n _
    constructor
    case state => exact .inl rfl
    case pending => exact fun h => nomatch h
    case stateChange => exact fun h => nomatch h
    case root => exact fun _ => ⟨(fun h => nomatch h), fun h => nomatch h⟩
  case needs => exact fun _ _ h => nomatch h
  case active => exact fun _ _ h => nomatch h

theorem Reachable.leakfree (h : Reachable F (ReleasesAll F) s) : s.Leakfree F
  := by
  apply h.core_invariant (Core.ReleasesAll F)
  · intro s e s' hs hok hstep
    unfold Core.ReleasesAll
    split
    · rename_i n hevent
      obtain ⟨⟨w, ns, rfl⟩, hphase, rest, hstateChange⟩ := coreEvent_eq_transition hevent
      exact hok hphase n (by rw [hstateChange]; rfl)
    · rename_i hevent
      obtain rfl := coreEvent_eq_deleteFinishedPlans hevent
      cases Move.of_apply hstep
      case deleteFinishedPlans hphase => exact ⟨hs.stateChange_of_idle hphase, hok⟩
    · trivial
  · exact fun _ _ => trivial
  · exact leakfree_initial
  · exact fun _ _ _ hq hc hok hstep => hstep.leakfree hq hc hok

/-- In every run in which nodes which finish from an active state use no mutexes, and the
nodes of deleted plans are INACTIVE or FINISHED, no resource leaks. -/
theorem noLeak_of_releasesAll (h : Reachable F (ReleasesAll F) s) : s.NoLeak F
  := by
  have hleakfree := h.leakfree
  constructor
  case holder =>
    intro r n hr
    have hactive := hleakfree.active r n hr
    constructor
    · by_contra hexists
      have hgone := hleakfree.gone n (by simpa using hexists)
      rcases hactive with hactive | ⟨hqueued, hexec⟩
      · rcases hgone.state with hstate | hstate <;> rw [hstate] at hactive <;> cases hactive
      · have hnext := (hgone.stateChange hqueued).2
        cases hexec.symm.trans hnext
    · exact hactive.symm
  case ended =>
    intro n hended r hr
    rcases hleakfree.active r n hr with hactive | ⟨hqueued, hexec⟩
    · rcases hended with hstate | hstate <;> rw [hstate] at hactive <;> cases hactive
    · have hlegal := hleakfree.exclusive.legal n (.inr hqueued)
      unfold Core.NextLegal at hlegal
      rw [hexec] at hlegal
      have hwaiting := legalSuccessor_executing hlegal
      rcases hended with hstate | hstate <;> cases hwaiting.symm.trans hstate

/-- A list node with an exit condition, and a child which uses a mutex.  Their end conditions
keep them in EXECUTING. -/
def exitedParent : Forest :=
  .ofFamily
    (fun n => ⟨if n = 0 then .nodeList else .empty, if n ∈ [1] then some 0 else none,
      if n = 0 then [1] else [], 0, if n = 1 then [0] else [], 0,
      fun c => c = .end ∨ (n = 0 ∧ c = .exit), false⟩)
    [1] Forest.root_notMem_singleton (fun _ => rfl) (fun _ => rfl) rfl
    (fun n => by by_cases hn : n = 1 <;> simp [hn])

/-- The world in which the exit condition of the list node has the value `exit`. -/
def exitWorld (exit : Bool) : World :=
  { World.unknown with condition := fun _ c => if c = .exit then some exit else none }

/-- The exit condition becomes true while the child executes: the child finishes and keeps
its mutex. -/
theorem noLeak_fails :
  ¬ ∀ s, Reachable exitedParent (fun _ _ => True) s → s.NoLeak exitedParent
  := by
  intro h
  have hrun : (StateMachine.run (apply exitedParent)
      ([.addPlan 0, .step 0] ++ Event.nexts 28 (exitWorld false) ++
        [.change (exitWorld true) [0, 1], .step 0] ++ Event.nexts 20 (exitWorld true))
      (initial ∅ (exitWorld false))).map
      (fun s => ((s.node 1).state, (s.reservable (.mutex 0)).holder)) = some (.finished, some 1) := by
    decide +kernel
  obtain ⟨s, hs, hstate⟩ := Option.map_eq_some_iff.mp hrun
  obtain ⟨hfinished, hholder⟩ := Prod.mk.inj hstate
  exact (h s (StateMachine.Reachable.of_run (.init ⟨_, _, rfl⟩) hs)).ended 1 (.inr hfinished) _ hholder

/-- As long as the exit condition is false, the child executes with its mutex. -/
theorem noLeak_of_releasesAll_exitedParent :
  ∃ s, StateMachine.checkedRun (apply exitedParent)
      (fun s e => s.ReleasesMutexes exitedParent ∧ ¬ e matches .deleteFinishedPlans)
      ([.addPlan 0, .step 0] ++ Event.nexts 28 (exitWorld false)) (initial ∅ (exitWorld false)) =
        some s ∧
    (s.reservable (.mutex 0)).holder = some 1 ∧ s.NoLeak exitedParent
  := by
  have hrun : (StateMachine.checkedRun (apply exitedParent)
      (fun s e => s.ReleasesMutexes exitedParent ∧ ¬ e matches .deleteFinishedPlans)
      ([.addPlan 0, .step 0] ++ Event.nexts 28 (exitWorld false))
      (initial ∅ (exitWorld false))).map (fun s => (s.reservable (.mutex 0)).holder) =
        some (some 1) := by
    decide +kernel
  obtain ⟨s, hs, hholder⟩ := Option.map_eq_some_iff.mp hrun
  use s, hs, hholder
  apply noLeak_of_releasesAll
  apply (StateMachine.Reachable.of_checkedRun (.init ⟨_, _, rfl⟩) hs).mono
  rintro s e ⟨hreleases, hdeletion⟩
  cases e
  case next => exact hreleases
  case deleteFinishedPlans => exact absurd rfl hdeletion
  all_goals trivial

end Exec
end Plexil
