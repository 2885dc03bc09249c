import Plexil.Exec.AncestorConditions

/-!
# Parents and children between batches

The transitions of a batch are made one after another, and in the middle of a batch the states of
a parent and its children need not fit together.  Between batches an active child has an active
parent, and the children of a list node which is not active are inactive or finished, unless a
list node has left FINISHING or FAILING while a child was waiting and not to be skipped: the child
then waits, starts and repeats under a parent which has ended.
-/

namespace Plexil
namespace Exec

variable {F : Forest} {s s' : Exec} {e : Event} {m n p : NodePtr}

/-- A list node leaves FINISHING or FAILING and leaves a child behind: the child is not finished,
and it is not to be finished in the same batch. -/
def LeavesChildBehind (F : Forest) (n : NodePtr) (s : Exec) : Prop :=
  ((s.node n).state = .finishing ∨ (s.node n).state = .failing) ∧
    ((s.node n).nextState = .iterationEnded ∨ (s.node n).nextState = .finished) ∧
    ∃ m ∈ (F.decl n).children, (s.node m).state ≠ .finished ∧
      ¬ (m ∈ s.queues.stateChange ∧ (s.node m).nextState = .finished)

/-- The invariant of a batch: the parent of a child which has been started is active, or the child
is to be finished before the batch is done. -/
structure FamilyInBatch (F : Forest) (s : Exec) : Prop where
  defined : ∀ n, (s.node n).state ≠ .noNodeState
  active : ∀ m p, (F.decl m).parent = some p → (s.node m).state.isStarted = true →
    (s.node p).state.isActive = true ∨
      (m ∈ s.queues.stateChange ∧ (s.node m).nextState = .finished) ∧ s.phase = .transitioning
  starting : s.StartsUnderParent F

/-! ### Batches -/

/-- A list node which leaves no child behind stays active, or the child is to be finished. -/
theorem isActive_of_notLeavesBehind {rest : List NodePtr} (ht : Transitions F s s' n rest)
    (hleaves : ¬ s.LeavesChildBehind F n) (hparent : (F.decl m).parent = some n)
    (hactive : (s.node n).state.isActive = true) (hm : (s.node m).state ≠ .finished) :
  (s'.node n).state.isActive = true ∨
    m ∈ s.queues.stateChange ∧ (s.node m).nextState = .finished
  := by
  rw [ht.state]
  rcases isActive_of_legalSuccessor (isList_of_parent hparent) ht.legal hactive with h | ⟨h, h'⟩
  · exact .inl h
  · right
    by_contra hbehind
    exact hleaves ⟨h, h', m, (F.mem_children n m).mpr hparent, hm, hbehind⟩

theorem FamilyInBatch.transitioned {rest : List NodePtr} (h : s.FamilyInBatch F)
    (hq : s.queues.WellFormed) (ht : Transitions F s s' n rest)
    (hleaves : ¬ s.LeavesChildBehind F n) :
  s'.FamilyInBatch F
  := by
  have outstanding {m : NodePtr} (hm : m ≠ n)
      (hfinish : m ∈ s.queues.stateChange ∧ (s.node m).nextState = .finished) :
      (m ∈ s'.queues.stateChange ∧ (s'.node m).nextState = .finished) ∧
        s'.phase = .transitioning := by
    rw [ht.rest, ht.others m hm]
    refine ⟨⟨?_, hfinish.2⟩, ht.phase⟩
    have hmem := hfinish.1
    rw [ht.stateChange] at hmem
    apply List.mem_of_ne_of_mem hm hmem
  constructor
  case defined =>
    intro m
    by_cases hm : m = n
    · subst hm
      rw [ht.state]
      have hlegal : legalSuccessor (F.decl m).nodeType (s.node m).state (s.node m).nextState = true :=
        ht.legal
      intro hnone
      rw [hnone] at hlegal
      revert hlegal
      cases (F.decl m).nodeType <;> cases (s.node m).state <;> decide
    · rw [ht.others m hm]
      apply h.defined
  case active =>
    intro m p hparent hstarted
    have hpm := F.parent_ne hparent
    by_cases hm : m = n
    · subst hm
      left
      rw [ht.others p hpm]
      rw [ht.state] at hstarted
      rcases isStarted_of_legalSuccessor ht.legal hstarted with hbefore | ⟨hinactive, hwaiting⟩
      · rcases h.active m p hparent hbefore with hactive | ⟨⟨-, hfinished⟩, -⟩
        · exact hactive
        · rw [hfinished] at hstarted
          cases hstarted
      · apply h.starting.parent_isActive ht hparent hinactive hwaiting
    · rw [ht.others m hm] at hstarted
      have hunfinished : (s.node m).state ≠ .finished := by
        intro hfinished
        rw [hfinished] at hstarted
        cases hstarted
      rcases h.active m p hparent hstarted with hactive | ⟨hfinish, -⟩
      · by_cases hp : p = n
        · subst hp
          apply (isActive_of_notLeavesBehind ht hleaves hparent hactive hunfinished).imp_right
          exact outstanding hm
        · left
          rw [ht.others p hp]
          exact hactive
      · exact .inr (outstanding hm hfinish)
  case starting =>
    apply h.starting.transitioned hq ht
    intro m hparent hactive hinactive hwaiting
    have hunfinished : (s.node m).state ≠ .finished := by
      rw [hinactive]
      simp
    rcases isActive_of_notLeavesBehind ht hleaves hparent hactive hunfinished with
      hactive | ⟨-, hfinished⟩
    · exact hactive
    · rw [hwaiting] at hfinished
      cases hfinished

theorem FamilyInBatch.other (h : s.FamilyInBatch F) (hq : s.queues.WellFormed) (hwalk : s.Walk)
    (hx : s.Exclusive F) (hmove : Move F s e s')
    (hevent : ∀ n, s.coreEvent F e ≠ .transition n) :
  s'.FamilyInBatch F
  := by
  have hstate (m : NodePtr) := (hmove.counts_of_other (hevent m)).2
  constructor
  case defined =>
    intro n
    rw [hstate]
    apply h.defined
  case active =>
    intro m p hparent hstarted
    rw [hstate] at hstarted ⊢
    apply (h.active m p hparent hstarted).imp_right
    rintro ⟨⟨hm, hfinished⟩, hphase⟩
    obtain ⟨hphase', hstateChange, hnode⟩ :=
      notified_of_other hmove hphase (List.ne_nil_of_mem hm) hevent
    rw [hstateChange, hnode]
    exact ⟨⟨hm, hfinished⟩, hphase'⟩
  case starting => exact h.starting.other hq hwalk hx hmove hevent

theorem FamilyInBatch.step (h : s.FamilyInBatch F) (hs : Reachable F (fun _ _ => True) s)
    (hstep : s.apply F e = some s')
    (hleaves : ∀ n, s.coreEvent F e = .transition n → ¬ s.LeavesChildBehind F n) :
  s'.FamilyInBatch F
  := by
  by_cases hevent : ∃ n, s.coreEvent F e = .transition n
  · obtain ⟨n, hevent⟩ := hevent
    obtain ⟨-, rest, ht⟩ := Transitions.of_apply hs hstep hevent
    apply h.transitioned hs.wellFormed ht (hleaves n hevent)
  · exact h.other hs.wellFormed hs.walk hs.exclusive (Move.of_apply hstep)
      (not_exists.mp hevent)

/-! ### Between batches -/

theorem FamilyInBatch.initial (hierarchy : ResourceHierarchyMap) (w : World) :
  (Exec.initial hierarchy w).FamilyInBatch F
  := by
  constructor
  case defined =>
    rintro n ⟨⟩
  case active =>
    intro m p _ hstarted
    cases hstarted
  case starting =>
    intro m p _ hm
    cases hm

end Exec
end Plexil
