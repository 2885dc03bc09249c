import Plexil.AppFramework.Threads

/-!
# Waiting for completion

`notifyAndWaitForCompletion` puts a mark in the input queue and waits until `m_lastMark` is not
less than the number of the mark.  The number is taken in one step and the mark is put in another,
so that marks may be put in another order than that of their numbers; and `markProcessed` sets
`m_lastMark` to the number of whatever mark was processed last.  When marks are processed in the
order of their numbers, every call returns, and it returns in time.
-/

namespace Plexil.App

open Intfc

namespace ExecApplication

/-- The mark has been processed. -/
def MarkProcessed (g : ExecApplication) (sequence : BitVec 32) : Prop :=
  .mark sequence ∈ g.posted.take g.taken

/-- A call which is going to post `m_markSem`: it has the semaphore and passes it on, or it runs
the executive and has seen a mark. -/
def Posts (g : ExecApplication) : Frame → Prop
  | .notifyAndWait _ _ .post => True
  | .run _ _ .readMark | .run _ _ .lock => False
  | .run _ oldMark _ => oldMark < g.lastMark
  | _ => False

end ExecApplication

namespace Threads

/-- What is expected of the calls of `notifyAndWaitForCompletion`. -/
structure Completes (s : Threads) : Prop where
  /-- A call returns when all events have been processed which were put before it. -/
  returns : ∀ t begun sequence rest, s.frames t = .notifyAndWait begun sequence .check :: rest →
    ¬ s.shared.lastMark < sequence → begun ≤ s.shared.taken
  /-- When the mark of a call has been processed, the call has nothing to wait for. -/
  satisfied : ∀ t begun sequence place, .notifyAndWait begun sequence place ∈ s.frames t →
    s.shared.MarkProcessed sequence → ¬ s.shared.lastMark < sequence
  /-- Nor is it left waiting for the semaphore. -/
  released : ∀ t begun sequence rest, s.frames t = .notifyAndWait begun sequence .wait :: rest →
    s.shared.MarkProcessed sequence →
    0 < s.shared.markSem ∨ ∃ t, ∃ f ∈ s.frames t, s.shared.Posts f

/-- The condition on the next step: the numbers of the marks are not used up, and the mark which
is processed has no smaller number than the one before. -/
def MarksInOrder (s : Threads) (e : Event) : Prop :=
  ∀ t result, e = (t, .next result) →
    (∀ begun sequence rest, s.frames t = .notifyAndWait begun sequence .count :: rest →
      s.shared.markCount ≠ BitVec.allOnes 32) ∧
    ∀ once oldMark first needsStep rest,
      s.frames t = .run once oldMark (.processQueue first needsStep) :: rest →
      ∀ sequence, s.shared.posted[s.shared.taken]? = some (.mark sequence) →
        ¬ sequence < s.shared.lastMark

end Threads

/-! ### Marks -/

namespace ExecApplication

/-- The marks in the queue have numbers which have been taken, and the last mark is the highest of
those which have been processed. -/
structure MarksKept (g : ExecApplication) : Prop where
  bound : g.taken ≤ g.posted.length
  numbers : ∀ sequence, .mark sequence ∈ g.posted → 0 < sequence ∧ sequence ≤ g.markCount
  last : g.lastMark = 0 ∨ g.MarkProcessed g.lastMark
  highest : ∀ sequence, g.MarkProcessed sequence → sequence ≤ g.lastMark

/-- The number has been taken by a call, and marks with higher numbers were put after the call
began. -/
structure Numbered (g : ExecApplication) (begun : Nat) (sequence : BitVec 32) : Prop where
  bound : begun ≤ g.posted.length
  positive : 0 < sequence
  taken : sequence ≤ g.markCount
  later : ∀ (i : Nat) (k : BitVec 32), g.posted[i]? = some (.mark k) → sequence ≤ k → begun ≤ i

/-- What a call knows of the marks. -/
def CallKept (g : ExecApplication) : Frame → Prop
  | .notifyAndWait begun _ .count => begun ≤ g.posted.length
  | .notifyAndWait begun sequence _ => g.Numbered begun sequence
  | .run _ _ .readMark => True
  | .run _ oldMark _ => oldMark ≤ g.lastMark
  | _ => True

/-- What a step keeps of the other calls. -/
structure Grows (g g' : ExecApplication) : Prop where
  posted : g.posted <+: g'.posted
  markCount : g.markCount ≤ g'.markCount
  lastMark : g.lastMark ≤ g'.lastMark

variable {g g' : ExecApplication} {t : Thread} {f : Frame} {fs : List Frame} {begun : Nat}
  {sequence : BitVec 32}

theorem Grows.refl (g : ExecApplication) : g.Grows g
  := ⟨List.prefix_rfl, BitVec.le_refl _, BitVec.le_refl _⟩

theorem Numbered.grows (h : g.Numbered begun sequence) (hgrows : g.Grows g') :
  g'.Numbered begun sequence
  := by
  have hlength := hgrows.posted.length_le
  constructor
  · apply le_trans h.bound hlength
  · exact h.positive
  · apply BitVec.le_trans h.taken hgrows.markCount
  · intro i k hk hle
    by_cases hi : i < g.posted.length
    · apply h.later i k _ hle
      rw [← hk]
      obtain ⟨l, hl⟩ := hgrows.posted
      rw [← hl, List.getElem?_append_left hi]
    · have := h.bound
      omega

theorem CallKept.grows (h : g.CallKept f) (hgrows : g.Grows g') : g'.CallKept f
  := by
  cases f with
  | run once oldMark place =>
    cases place with
    | readMark => trivial
    | _ => exact BitVec.le_trans h hgrows.lastMark
  | notifyAndWait begun sequence place =>
    cases place with
    | count => exact le_trans h hgrows.posted.length_le
    | _ => exact Numbered.grows h hgrows
  | _ => trivial

theorem markProcessed_append {l : List ExternalEvent} (hbound : g.taken ≤ g.posted.length) :
  ({ g with posted := g.posted ++ l } : ExecApplication).MarkProcessed sequence ↔
    g.MarkProcessed sequence
  := by
  unfold MarkProcessed
  dsimp only
  rw [List.take_append_of_le_length hbound]

/-- An event is taken from the queue. -/
theorem markProcessed_succ {event : ExternalEvent} (htaken : g'.taken = g.taken + 1)
    (hposted : g'.posted = g.posted) (hevent : g.posted[g.taken]? = some event) :
  g'.MarkProcessed sequence ↔ g.MarkProcessed sequence ∨ .mark sequence = event
  := by
  unfold MarkProcessed
  rw [htaken, hposted, List.take_add_one, hevent, List.mem_append]
  simp

theorem lt_succ_of_ne {k : BitVec 32} (h : k ≠ BitVec.allOnes 32) : k < k + 1
  := by
  rw [BitVec.lt_def, BitVec.toNat_add]
  have hne : k.toNat ≠ 2 ^ 32 - 1 := by
    intro hk
    apply h
    apply BitVec.eq_of_toNat_eq
    rw [hk, BitVec.toNat_allOnes]
  have := k.isLt
  have h1 : BitVec.toNat (1 : BitVec 32) = 1 := rfl
  omega

/-! ### The marks are kept -/

/-- The condition on an action. -/
def InOrder (g : ExecApplication) : Frame → Prop
  | .notifyAndWait _ _ .count => g.markCount ≠ BitVec.allOnes 32
  | .run _ _ (.processQueue _ _) =>
    ∀ sequence, g.posted[g.taken]? = some (.mark sequence) → ¬ sequence < g.lastMark
  | _ => True

theorem MarksKept.append {l : List ExternalEvent} (h : g.MarksKept)
    (hl : ∀ sequence, .mark sequence ∈ l → 0 < sequence ∧ sequence ≤ g.markCount) :
  MarksKept { g with posted := g.posted ++ l }
  := by
  constructor
  · rw [List.length_append]
    apply Nat.le_add_right_of_le h.bound
  · intro sequence hmem
    rcases List.mem_append.mp hmem with hmem | hmem
    · apply h.numbers sequence hmem
    · apply hl sequence hmem
  · rw [markProcessed_append h.bound]
    exact h.last
  · intro sequence hprocessed
    rw [markProcessed_append h.bound] at hprocessed
    apply h.highest sequence hprocessed

theorem MarksKept.take {event : ExternalEvent} (h : g.MarksKept) (htaken : g'.taken = g.taken + 1)
    (hposted : g'.posted = g.posted) (hcount : g'.markCount = g.markCount)
    (hevent : g.posted[g.taken]? = some event)
    (hlast : (event.isMark = false ∧ g'.lastMark = g.lastMark) ∨
      (event = .mark g'.lastMark ∧ ¬ g'.lastMark < g.lastMark)) :
  g'.MarksKept
  := by
  constructor
  · rw [htaken, hposted]
    obtain ⟨hless, -⟩ := List.getElem?_eq_some_iff.mp hevent
    exact hless
  · rw [hposted, hcount]
    exact h.numbers
  · rw [markProcessed_succ htaken hposted hevent]
    rcases hlast with ⟨-, hlast⟩ | ⟨hmark, -⟩
    · rw [hlast]
      exact h.last.imp_right .inl
    · exact .inr (.inr hmark.symm)
  · intro sequence hprocessed
    rw [markProcessed_succ htaken hposted hevent] at hprocessed
    rcases hlast with ⟨hother, hlast⟩ | ⟨hmark, hless⟩
    · rw [hlast]
      apply h.highest
      apply hprocessed.resolve_right
      rintro rfl
      cases hother
    · rcases hprocessed with hprocessed | heq
      · apply BitVec.le_trans (h.highest sequence hprocessed)
        exact BitVec.not_lt.mp hless
      · rw [hmark] at heq
        cases heq
        exact BitVec.le_refl _

end ExecApplication

section

variable {g g' : ExecApplication} {t : Thread} {f : Frame} {fs : List Frame}

theorem Acts.grows (h : Acts g t f g' fs) (horder : g.InOrder f) :
  g.Grows g'
  := by
  have same {g' : ExecApplication} (hposted : g'.posted = g.posted)
      (hcount : g'.markCount = g.markCount) (hlast : g'.lastMark = g.lastMark) : g.Grows g' := by
    constructor
    · rw [hposted]
    · rw [hcount]
      exact BitVec.le_refl _
    · rw [hlast]
      exact BitVec.le_refl _
  cases h
  case processMark sequence hmark =>
    constructor
    · exact List.prefix_rfl
    · exact BitVec.le_refl _
    · exact BitVec.not_lt.mp (horder sequence hmark)
  case count =>
    constructor
    · exact List.prefix_rfl
    · exact BitVec.le_of_lt (ExecApplication.lt_succ_of_ne horder)
    · exact BitVec.le_refl _
  case putMark =>
    constructor
    · exact List.prefix_append ..
    · exact BitVec.le_refl _
    · exact BitVec.le_refl _
  all_goals exact same rfl rfl rfl

theorem Acts.marksKept (h : Acts g t f g' fs) (hmarks : g.MarksKept) (hcall : g.CallKept f)
    (horder : g.InOrder f) :
  g'.MarksKept
  := by
  cases h
  case processMark sequence hmark =>
    exact hmarks.take rfl rfl rfl hmark (.inr ⟨rfl, horder sequence hmark⟩)
  case processEvent event hevent hother =>
    exact hmarks.take rfl rfl rfl hevent (.inl ⟨hother, rfl⟩)
  case count =>
    constructor
    · exact hmarks.bound
    · intro sequence hmem
      obtain ⟨hpositive, hle⟩ := hmarks.numbers sequence hmem
      have hless := ExecApplication.lt_succ_of_ne horder
      exact ⟨hpositive, BitVec.le_trans hle (BitVec.le_of_lt hless)⟩
    · exact hmarks.last
    · exact hmarks.highest
  case putMark begun sequence =>
    apply hmarks.append
    intro k hk
    rw [List.mem_singleton] at hk
    cases hk
    exact ⟨hcall.positive, hcall.taken⟩
  all_goals exact ⟨hmarks.bound, hmarks.numbers, hmarks.last, hmarks.highest⟩

/-- A call which has taken a number. -/
theorem numbered_of_count {begun : Nat} (hmarks : g.MarksKept) (hbegun : begun ≤ g.posted.length)
    (hcount : g.markCount ≠ BitVec.allOnes 32) :
  ExecApplication.Numbered { g with markCount := g.markCount + 1 } begun (g.markCount + 1)
  := by
  have hless := ExecApplication.lt_succ_of_ne hcount
  constructor
  · exact hbegun
  · bv_omega
  · exact BitVec.le_refl _
  · intro i k hk hle
    -- The number is higher than those in the queue.
    have htaken := (hmarks.numbers k (List.mem_of_getElem? hk)).2
    bv_omega

theorem Acts.callKept (h : Acts g t f g' fs) (hmarks : g.MarksKept) (hcall : g.CallKept f)
    (horder : g.InOrder f) :
  ∀ f' ∈ fs, g'.CallKept f'
  := by
  have hgrows := h.grows horder
  cases h
  case readMark => exact List.forall_mem_singleton.mpr (BitVec.le_refl _)
  case lock => exact List.forall_mem_singleton.mpr hcall
  case emptyQueue =>
    rw [List.forall_mem_singleton]
    split <;> exact hcall
  case processMark sequence hmark =>
    exact List.forall_mem_singleton.mpr (BitVec.le_trans hcall hgrows.lastMark)
  case processEvent => exact List.forall_mem_singleton.mpr hcall
  case step =>
    rw [List.forall_mem_singleton]
    split
    · exact hcall
    · split <;> exact hcall
  case unlock => exact List.forall_mem_singleton.mpr hcall
  case tryLock => exact List.forall_mem_cons.mpr ⟨trivial, List.forall_mem_singleton.mpr trivial⟩
  case busy => exact List.forall_mem_singleton.mpr trivial
  case count => exact List.forall_mem_singleton.mpr (numbered_of_count hmarks hcall horder)
  case putMark => exact List.forall_mem_singleton.mpr (ExecApplication.Numbered.grows hcall hgrows)
  case notify => exact List.forall_mem_cons.mpr ⟨trivial, List.forall_mem_singleton.mpr hcall⟩
  case waitMark => exact List.forall_mem_singleton.mpr (ExecApplication.Numbered.grows hcall hgrows)
  case passOn => exact List.forall_mem_singleton.mpr (ExecApplication.Numbered.grows hcall hgrows)
  case waitAgain => exact List.forall_mem_singleton.mpr hcall
  case toResume => exact List.forall_mem_singleton.mpr trivial
  case clear => exact List.forall_mem_singleton.mpr trivial
  case start => exact List.forall_mem_cons.mpr ⟨trivial, List.forall_mem_singleton.mpr trivial⟩
  case wait => exact List.forall_mem_singleton.mpr trivial
  case ignore => exact List.forall_mem_singleton.mpr trivial
  case runExec => exact List.forall_mem_cons.mpr ⟨trivial, List.forall_mem_singleton.mpr trivial⟩
  all_goals exact List.forall_mem_nil _

/-! ### The semaphore -/

/-- Who is going to post the semaphore does, or goes on. -/
theorem Acts.posts (h : Acts g t f g' fs) (hgrows : g.Grows g') (hposts : g.Posts f) :
  0 < g'.markSem ∨ ∃ f' ∈ fs, g'.Posts f'
  := by
  have going {g' : ExecApplication} {f' : Frame} (hf' : g'.Posts f') :
      0 < g'.markSem ∨ ∃ f'' ∈ [f'], g'.Posts f'' := .inr ⟨f', List.mem_singleton_self f', hf'⟩
  cases h
  case readMark => exact hposts.elim
  case lock => exact hposts.elim
  case emptyQueue =>
    apply going
    split <;> exact hposts
  case processMark once oldMark first needsStep sequence hmark =>
    apply going
    have hless : oldMark < g.lastMark := hposts
    have hle : g.lastMark ≤ sequence := hgrows.lastMark
    change oldMark < sequence
    bv_omega
  case processEvent => exact going hposts
  case step =>
    apply going
    split
    · exact hposts
    · split <;> exact hposts
  case unlock => exact going hposts
  case postMark => exact .inl (Nat.succ_pos _)
  case noMark hnot => exact absurd hposts hnot
  case passOn => exact .inl (Nat.succ_pos _)
  all_goals exact hposts.elim

/-- Who takes the semaphore is going to post it. -/
theorem Acts.semaphore (h : Acts g t f g' fs) (hpositive : 0 < g.markSem) :
  0 < g'.markSem ∨ ∃ f' ∈ fs, g'.Posts f'
  := by
  cases h
  case waitMark => exact .inr ⟨_, List.mem_singleton_self _, trivial⟩
  case postMark => exact .inl (Nat.succ_pos _)
  case passOn => exact .inl (Nat.succ_pos _)
  all_goals exact .inl hpositive

/-- Who processes the first mark is going to post the semaphore. -/
theorem Acts.firstMark (h : Acts g t f g' fs) (hmarks : g.MarksKept) (hcall : g.CallKept f)
    {k : BitVec 32} (hprocessed : g'.MarkProcessed k) :
  (∃ k, g.MarkProcessed k) ∨ ∃ f' ∈ fs, g'.Posts f'
  := by
  cases h
  case processMark once oldMark first needsStep sequence hmark =>
    rcases hmarks.last with hzero | hlast
    · right
      refine ⟨_, List.mem_singleton_self _, ?_⟩
      have hle : oldMark ≤ g.lastMark := hcall
      have hpositive := (hmarks.numbers sequence (List.mem_of_getElem? hmark)).1
      change oldMark < sequence
      bv_omega
    · exact .inl ⟨_, hlast⟩
  case processEvent event hevent hother =>
    left
    use k
    apply ((ExecApplication.markProcessed_succ (by rfl) (by rfl) hevent).mp hprocessed).resolve_right
    rintro rfl
    cases hother
  case putMark =>
    left
    rw [ExecApplication.markProcessed_append hmarks.bound] at hprocessed
    exact ⟨k, hprocessed⟩
  all_goals exact .inl ⟨k, hprocessed⟩

end

/-! ### Runs -/

namespace Threads

variable {s s' : Threads} {e : Event}

/-- After a mark has been processed the semaphore is posted or going to be. -/
def Released (s : Threads) : Prop :=
  (∃ k, s.shared.MarkProcessed k) →
    0 < s.shared.markSem ∨ ∃ t, ∃ f ∈ s.frames t, s.shared.Posts f

/-- The invariant. -/
structure Kept (s : Threads) : Prop where
  marks : s.Holds ExecApplication.MarksKept ExecApplication.CallKept
  released : s.Released

theorem MarksInOrder.inOrder {t : Thread} {result : Bool} {f : Frame} {rest : List Frame}
    (h : s.MarksInOrder (t, .next result)) (hframes : s.frames t = f :: rest) :
  s.shared.InOrder f
  := by
  obtain ⟨hcount, hprocess⟩ := h t result rfl
  cases f with
  | run once oldMark place =>
    cases place with
    | processQueue first needsStep => exact hprocess _ _ _ _ _ hframes
    | _ => trivial
  | notifyAndWait begun sequence place =>
    cases place with
    | count => exact hcount _ _ _ hframes
    | _ => trivial
  | _ => trivial

theorem Posts.grows {g g' : ExecApplication} {f : Frame} (h : g.Posts f)
    (hlast : g.lastMark ≤ g'.lastMark) :
  g'.Posts f
  := by
  cases f with
  | run once oldMark place =>
    cases place with
    | readMark => exact h
    | lock => exact h
    | _ =>
      have hless : oldMark < g.lastMark := h
      change oldMark < g'.lastMark
      bv_omega
  | notifyAndWait begun sequence place => cases place <;> exact h
  | _ => exact h

theorem Kept.put (h : s.Kept) {event : ExternalEvent} (hevent : event.isMark = false) :
  Kept { s with shared := { s.shared with posted := s.shared.posted ++ [event] } }
  := by
  have hmarks := h.marks.shared
  constructor
  · constructor
    · apply hmarks.append
      intro k hk
      rw [List.mem_singleton] at hk
      rw [← hk] at hevent
      cases hevent
    · intro t f hf
      apply (h.marks.frames t f hf).grows
      exact ⟨List.prefix_append .., BitVec.le_refl _, BitVec.le_refl _⟩
  · rintro ⟨k, hk⟩
    rw [ExecApplication.markProcessed_append hmarks.bound] at hk
    exact h.released ⟨k, hk⟩

theorem Kept.call (h : s.Kept) (t : Thread) (call : Call) :
  Kept (s.push t (call.frame s.shared.posted.length))
  := by
  constructor
  · apply h.marks.push
    cases call with
    | notifyAndWaitForCompletion => exact Nat.le_refl _
    | _ => trivial
  · intro hk
    apply (h.released hk).imp_right
    rintro ⟨t', f, hf, hposts⟩
    refine ⟨t', f, ?_, hposts⟩
    rw [CallStacks.frames_push]
    split
    · rename_i heq
      subst heq
      exact List.mem_cons_of_mem _ hf
    · exact hf

theorem Kept.next (h : s.Kept) {t : Thread} {f : Frame} {rest : List Frame} {g : ExecApplication}
    {fs : List Frame} (hframes : s.frames t = f :: rest) (hacts : Acts s.shared t f g fs)
    (horder : s.shared.InOrder f) :
  Kept (s.replace t g fs)
  := by
  have hmarks := h.marks.shared
  have hcall : s.shared.CallKept f := by
    apply h.marks.frames t
    rw [hframes]
    exact List.mem_cons_self
  have hgrows := hacts.grows horder
  constructor
  · apply h.marks.replace
    · exact hacts.marksKept hmarks hcall horder
    · exact hacts.callKept hmarks hcall horder
    · exact fun f hf => hf.grows hgrows
  · rintro ⟨k, hk⟩
    have own (hown : 0 < g.markSem ∨ ∃ f' ∈ fs, g.Posts f') :
        0 < g.markSem ∨ ∃ t', ∃ f' ∈ (s.replace t g fs).frames t', g.Posts f' := by
      apply hown.imp_right
      rintro ⟨f', hf', hposts⟩
      refine ⟨t, f', ?_, hposts⟩
      rw [CallStacks.frames_replace, if_pos rfl]
      exact List.mem_append_left _ hf'
    rcases hacts.firstMark hmarks hcall hk with hprocessed | hnew
    · rcases h.released hprocessed with hpositive | ⟨t', f', hf', hposts⟩
      · exact own (hacts.semaphore hpositive)
      · by_cases hself : t' = t ∧ f' = f
        · rw [hself.2] at hposts
          exact own (hacts.posts hgrows hposts)
        · right
          refine ⟨t', f', ?_, Posts.grows hposts hgrows.lastMark⟩
          rw [CallStacks.frames_replace]
          split
          · rename_i heq
            subst heq
            rw [hframes] at hf' ⊢
            apply List.mem_append_right
            apply (List.mem_cons.mp hf').resolve_left
            exact fun hf => hself ⟨rfl, hf⟩
          · exact hf'
    · exact own (.inr hnew)

theorem Kept.step (h : s.Kept) (hstep : s.apply e = some s') (horder : s.MarksInOrder e) :
  s'.Kept
  := by
  cases Move.of_apply hstep with
  | put houtside hevent => exact h.put hevent
  | call houtside => exact h.call _ _
  | next hframes hacts => exact h.next hframes hacts (horder.inOrder hframes)

theorem Kept.completes (h : s.Kept) : s.Completes
  := by
  have hmarks := h.marks.shared
  constructor
  · intro t begun sequence rest hframes hnot
    have hcall : s.shared.CallKept (.notifyAndWait begun sequence .check) := by
      apply h.marks.frames t
      rw [hframes]
      exact List.mem_cons_self
    have hpositive := hcall.positive
    rw [BitVec.not_lt] at hnot
    rcases hmarks.last with hzero | hlast
    · bv_omega
    · -- The last mark was put after the call began, and has been processed.
      obtain ⟨i, hi⟩ := List.mem_iff_getElem?.mp hlast
      have hless : i < s.shared.taken := by
        obtain ⟨hi', -⟩ := List.getElem?_eq_some_iff.mp hi
        rw [List.length_take] at hi'
        omega
      rw [List.getElem?_take_of_lt hless] at hi
      have := hcall.later i s.shared.lastMark hi hnot
      omega
  · intro t begun sequence place hframe hprocessed
    rw [BitVec.not_lt]
    apply hmarks.highest sequence hprocessed
  · intro t begun sequence rest hframes hprocessed
    apply h.released ⟨sequence, hprocessed⟩

theorem kept_initial (runExecInBkgndOnly : Bool) : (initial runExecInBkgndOnly).Kept
  := by
  have nothing {k : BitVec 32} : ¬ (initial runExecInBkgndOnly).shared.MarkProcessed k := by
    simp [ExecApplication.MarkProcessed, initial]
  constructor
  · constructor
    · constructor
      · exact Nat.le_refl _
      · simp [initial]
      · exact .inl rfl
      · exact fun k hk => absurd hk nothing
    · intro t f hf
      unfold initial at hf
      dsimp only at hf
      split at hf
      · rw [List.mem_singleton] at hf
        rw [hf]
        trivial
      · contradiction
  · rintro ⟨k, hk⟩
    exact absurd hk nothing

/-- In every run in which the marks are processed in the order of their numbers, all calls of
`notifyAndWaitForCompletion` return in time, and none is left waiting. -/
theorem completes_of_marksInOrder (runExecInBkgndOnly : Bool)
    (es : {es : List Event // StateMachine.Meets apply MarksInOrder es
      (initial runExecInBkgndOnly)}) :
  StateMachine.Always apply Completes es.val (initial runExecInBkgndOnly)
  := by
  have hkept := kept_initial runExecInBkgndOnly
  apply StateMachine.Meets.always (I := Kept) _ es.property hkept hkept.completes
  intro s e s' h _ horder hstep
  have h' := h.step hstep horder
  exact ⟨h', h'.completes⟩

/-- Thread 1 takes the number 1 and thread 2 the number 2, but the mark 2 is put first.  The executive
processes both, and then `m_lastMark` is 1: thread 2 goes on waiting. -/
theorem completes_fails :
  ¬ ∀ runExecInBkgndOnly es, StateMachine.Always apply Completes es (initial runExecInBkgndOnly)
  := by
  intro h
  have hrun : (StateMachine.run apply
      ([(1, .call .notifyAndWaitForCompletion), (1, .next false),
        (2, .call .notifyAndWaitForCompletion), (2, .next false), (2, .next false)] ++
        List.replicate 4 (1, .next false) ++ List.replicate 3 (2, .next false) ++
        List.replicate 9 (workerThread, .next false) ++ List.replicate 3 (2, .next false))
      (initial true)).map
      (fun s => (s.frames 2, s.shared.posted.take s.shared.taken, s.shared.lastMark)) =
        some ([.notifyAndWait 0 2 .wait], [.mark 2, .mark 1], 1) := by
    decide +kernel
  obtain ⟨s, hs, hstate⟩ := Option.map_eq_some_iff.mp hrun
  obtain ⟨hframes, hrest⟩ := Prod.mk.inj hstate
  obtain ⟨hposted, hlast⟩ := Prod.mk.inj hrest
  apply ((h true _).of_run hs).satisfied 2 0 2 .wait
  · rw [hframes]
    apply List.mem_singleton_self
  · unfold ExecApplication.MarkProcessed
    rw [hposted]
    apply List.mem_cons_self
  · rw [hlast]
    decide

end Threads

end Plexil.App
