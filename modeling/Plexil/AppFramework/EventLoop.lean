import Plexil.AppFramework.Threads

/-!
# The event loop

The worker thread waits for `m_sem`, and runs the executive unless the application is suspended.
Other threads put events in the queue and call `notifyExec`, and so do the handlers of the
executive; the application is suspended and resumed.

`notifyExec` locks `m_execMutex` before it calls `runExec`, which locks it again, unless the
executive only runs in the background.  The worker makes its first step without regard to what is
left to do, and looks at `m_suspended` some time before it runs the executive.  Otherwise no event
is forgotten, and one thread at a time runs the executive.
-/

namespace Plexil.App

open Intfc

namespace Frame

/-- Between the start of queue processing and quiescence. -/
def running : Frame → Bool
  | .run _ _ (.processQueue _ _) | .run _ _ .step | .run _ _ .unlock => true
  | _ => false

/-- A call of `step`, `runExec`, `notifyExec` or `resume`. -/
def inProgress : Frame → Bool
  | .run _ _ _ | .notifyExec _ _ | .resume _ => true
  | _ => false

/-- A run of the executive which has not yet begun. -/
def starts : Frame → Bool
  | .run _ _ .readMark | .run _ _ .lock | .worker .start => true
  | _ => false

def notifies : Frame → Bool
  | .notifyExec _ _ => true
  | _ => false

/-- What is called by other threads and by handlers, and does not run the executive. -/
def isHandler : Frame → Bool
  | .notifyExec _ .tryLock | .notifyExec _ .post | .notifyAndWait _ _ _ | .suspend
  | .resume _ => true
  | _ => false

end Frame

/-- The call locks `m_execMutex` next. -/
def ExecApplication.locks (g : ExecApplication) : Frame → Bool
  | .run _ _ .lock => true
  | .notifyExec _ .tryLock => !g.runExecInBkgndOnly
  | _ => false

/-- The calls which begin or are `notifyExec` do not lock a mutex which the thread holds, or is going
to hold. -/
def ExecApplication.Notifies (g : ExecApplication) (t : Thread) : Frame → Prop
  | .notifyAndWait _ _ .notify | .resume .clear =>
    g.runExecInBkgndOnly = true ∨ g.execMutex ≠ some t
  | .notifyExec _ .tryLock => g.runExecInBkgndOnly = true ∨ g.execMutex ≠ none
  | _ => True

/-- Threads and handlers do not run the executive themselves. -/
def Action.inLoop : Action → Bool
  | .call .runExec | .call .step => false
  | _ => true

namespace Threads

/-- What is expected of the event loop. -/
structure EventLoop (s : Threads) : Prop where
  /-- One thread at a time runs the executive. -/
  exclusive : ∀ t, ∀ f ∈ s.frames t, ∀ t', ∀ f' ∈ s.frames t', f.running = true →
    f'.running = true → t = t'
  /-- No thread locks the mutex which it holds. -/
  relock : ∀ t f rest, s.frames t = f :: rest → s.shared.locks f = true →
    s.shared.execMutex ≠ some t
  /-- When the worker is blocked, all events have been processed which have been announced, and the
  executive is quiescent. -/
  idle : (s.frames workerThread).head? = some (.worker .wait) → s.shared.sem = 0 →
    s.shared.suspended = false → (∀ t, ∀ f ∈ s.frames t, f.inProgress = false) →
    s.shared.announced ≤ s.shared.taken ∧ s.shared.needsStep = false
  /-- No run can start while the application is suspended. -/
  unsuspended : ∀ t once oldMark rest, s.frames t = .run once oldMark .lock :: rest →
    s.shared.execMutex = none → s.shared.suspended = false

/-- The worker is going to be woken: `m_sem` has been posted, some thread notifies the executive, or
the application is suspended. -/
def Wakes (s : Threads) : Prop :=
  0 < s.shared.sem ∨ s.shared.suspended = true ∨ ∃ t, ∃ f ∈ s.frames t, f.notifies = true

/-- The condition on the next step.  A thread which calls `notifyExec` does not hold the mutex, nor
does it find the mutex free, unless the executive only runs in the background.  No run is about to
begin when the application is suspended.  The first step of the worker leaves nothing to do, unless
the worker is going to be woken. -/
def Orderly (s : Threads) : Event → Prop
  | (t, .call .notifyExec) => s.shared.runExecInBkgndOnly = true ∨ s.shared.execMutex ≠ some t
  | (t, .next _) =>
    ∀ f rest, s.frames t = f :: rest → s.shared.Notifies t f ∧
      (f = .suspend → ∀ t, ∀ f ∈ s.frames t, f.starts = false) ∧
      ∀ oldMark, f = .run true oldMark .unlock → s.shared.needsStep = false ∨ s.Wakes
  | _ => True

end Threads

/-! ### The worker -/

/-- What the worker thread does, apart from handlers. -/
inductive Base where
  | waiting (place : WorkerPlace)
  | running (once : Bool) (oldMark : BitVec 32) (place : RunPlace)

namespace Base

def frames : Base → List Frame
  | waiting place => [.worker place]
  | running once oldMark place => [.run once oldMark place, .worker .wait]

/-- The worker holds the mutex. -/
def holds : Base → Bool
  | running _ _ (.processQueue _ _) | running _ _ .step | running _ _ .unlock => true
  | _ => false

/-- Handlers are called. -/
def inExec : Base → Bool
  | running _ _ (.processQueue _ _) | running _ _ .step => true
  | _ => false

def starts : Base → Bool
  | waiting .start | running _ _ .readMark | running _ _ .lock => true
  | _ => false

/-- The worker is going to look at the whole queue. -/
def willProcess : Base → Bool
  | waiting .start | waiting .check | running _ _ .readMark | running _ _ .lock
  | running _ _ (.processQueue _ _) => true
  | _ => false

/-- The worker is going to step the executive, or to end the first step. -/
def willStep : Base → Bool
  | waiting .start | waiting .check | running _ _ .readMark | running _ _ .lock
  | running _ _ (.processQueue _ _) | running _ _ .step | running true _ .unlock => true
  | _ => false

/-- The queue is looked at for the last time. -/
def quiescent : Base → Bool
  | running false _ (.processQueue false false) => true
  | _ => false

end Base

namespace Threads

/-- The invariant.  The worker thread has the base `base` and the handlers `calls`. -/
structure Loop (s : Threads) (base : Base) (calls : List Frame) : Prop where
  worker : s.frames workerThread = calls ++ base.frames
  handlers : ∀ f ∈ calls, f.isHandler = true
  called : calls ≠ [] → base.inExec = true
  others : ∀ t, t ≠ workerThread → ∀ f ∈ s.frames t, f.isHandler = true
  mutex : s.shared.execMutex = if base.holds then some workerThread else none
  tries : ∀ t begun, .notifyExec begun .tryLock ∈ s.frames t →
    s.shared.runExecInBkgndOnly = true ∨ s.shared.execMutex ≠ some t
  begun : ∀ t begun place, .notifyExec begun place ∈ s.frames t → begun ≤ s.shared.posted.length
  announced : s.shared.announced ≤ s.shared.posted.length
  processed : s.shared.announced ≤ s.shared.taken ∨ s.Wakes ∨ base.willProcess = true
  stepped : s.shared.needsStep = false ∨ s.Wakes ∨ base.willStep = true
  quiescent : base.quiescent = true → s.shared.needsStep = false
  suspended : s.shared.suspended = true → base.starts = false

end Threads

/-! ### What the invariant says -/

section

variable {g g' : ExecApplication} {t : Thread} {f : Frame} {fs : List Frame} {base : Base}

theorem running_of_isHandler (h : f.isHandler = true) : f.running = false
  := by
  revert h
  cases f <;> simp [Frame.isHandler, Frame.running]

theorem mem_base (h : f ∈ base.frames) :
  (∃ place, f = .worker place) ∨
    ∃ once oldMark place, base = .running once oldMark place ∧ f = .run once oldMark place
  := by
  cases base with
  | waiting place =>
    left
    use place
    exact List.mem_singleton.mp h
  | running once oldMark place =>
    rcases List.mem_cons.mp h with rfl | h
    · right
      exact ⟨_, _, _, rfl, rfl⟩
    · left
      use .wait
      exact List.mem_singleton.mp h

end

namespace Threads

variable {s s' : Threads} {t : Thread} {f : Frame} {base : Base} {calls : List Frame}

/-- Only the worker runs the executive. -/
theorem Loop.eq_worker (h : s.Loop base calls) (hf : f ∈ s.frames t) (hother : f.isHandler = false) :
  t = workerThread
  := by
  by_contra hne
  rw [h.others t hne f hf] at hother
  cases hother

/-- A run of the worker thread is the innermost call when it does not call handlers. -/
theorem Loop.run_head {once : Bool} {oldMark : BitVec 32} {place : RunPlace} {rest : List Frame}
    (h : s.Loop base calls) (hframes : s.frames t = .run once oldMark place :: rest) :
  t = workerThread ∧ calls = [] ∧ base = .running once oldMark place
  := by
  have ht : t = workerThread := by
    apply h.eq_worker (f := .run once oldMark place)
    · rw [hframes]
      exact List.mem_cons_self
    · rfl
  subst ht
  have hcalls : calls = [] := by
    cases hc : calls with
    | nil => rfl
    | cons f' calls' =>
      rw [h.worker, hc, List.cons_append, List.cons.injEq] at hframes
      have hhandler := h.handlers f' (by rw [hc]; exact List.mem_cons_self)
      rw [hframes.1] at hhandler
      cases hhandler
  refine ⟨rfl, hcalls, ?_⟩
  rw [h.worker, hcalls, List.nil_append] at hframes
  cases base with
  | waiting place' => cases hframes
  | running once' oldMark' place' =>
    cases hframes
    rfl

theorem Loop.eventLoop (h : s.Loop base calls) : s.EventLoop
  := by
  have worker {t : Thread} {f : Frame} (hf : f ∈ s.frames t) (hrunning : f.running = true) :
      t = workerThread := by
    apply h.eq_worker hf
    by_contra hhandler
    rw [Bool.not_eq_false] at hhandler
    rw [running_of_isHandler hhandler] at hrunning
    cases hrunning
  constructor
  case exclusive =>
    intro t f hf t' f' hf' hrunning hrunning'
    rw [worker hf hrunning, worker hf' hrunning']
  case relock =>
    intro t f rest hframes hlocks
    have hf : f ∈ s.frames t := by
      rw [hframes]
      exact List.mem_cons_self
    cases f with
    | run once oldMark place =>
      cases place with
      | lock =>
        obtain ⟨rfl, -, rfl⟩ := h.run_head hframes
        rw [h.mutex]
        exact nofun
      | _ => cases hlocks
    | notifyExec begun place =>
      cases place with
      | tryLock =>
        apply (h.tries t begun hf).resolve_left
        intro hbackground
        unfold ExecApplication.locks at hlocks
        rw [hbackground] at hlocks
        cases hlocks
      | _ => cases hlocks
    | _ => cases hlocks
  case idle =>
    intro hhead hsem hsuspended hquiet
    have hsleeps : ¬ s.Wakes := by
      rintro (hpositive | hsuspended' | ⟨t, f, hf, hnotifies⟩)
      · omega
      · rw [hsuspended] at hsuspended'
        cases hsuspended'
      · have hprogress := hquiet t f hf
        cases f with
        | notifyExec begun place => cases hprogress
        | _ => cases hnotifies
    have hbase : base = .waiting .wait := by
      rw [h.worker] at hhead
      cases hc : calls with
      | nil =>
        rw [hc] at hhead
        cases base with
        | waiting place =>
          cases hhead
          rfl
        | running once oldMark place => cases hhead
      | cons f' calls' =>
        rw [hc] at hhead
        cases hhead
        have hhandler := h.handlers (.worker .wait) (by rw [hc]; exact List.mem_cons_self)
        cases hhandler
    subst hbase
    constructor
    · rcases h.processed with hprocessed | hwakes | hwill
      · exact hprocessed
      · exact absurd hwakes hsleeps
      · cases hwill
    · rcases h.stepped with hstepped | hwakes | hwill
      · exact hstepped
      · exact absurd hwakes hsleeps
      · cases hwill
  case unsuspended =>
    intro t once oldMark rest hframes _
    obtain ⟨-, -, rfl⟩ := h.run_head hframes
    by_contra hsuspended
    rw [Bool.not_eq_false] at hsuspended
    have hstarts := h.suspended hsuspended
    cases hstarts

end Threads

/-! ### Handlers and other threads -/

/-- What a call does which does not run the executive. -/
structure Served (g : ExecApplication) (t : Thread) (f : Frame) (g' : ExecApplication)
    (fs : List Frame) : Prop where
  handlers : ∀ f' ∈ fs, f'.isHandler = true
  posted : g.posted.length ≤ g'.posted.length
  taken : g'.taken = g.taken
  execMutex : g'.execMutex = g.execMutex
  background : g'.runExecInBkgndOnly = g.runExecInBkgndOnly
  needsStep : g'.needsStep = g.needsStep
  sem : g.sem ≤ g'.sem
  notifies : f.notifies = true → 0 < g'.sem ∨ ∃ f' ∈ fs, f'.notifies = true
  suspended : g.suspended = true → g'.suspended = true ∨ ∃ f' ∈ fs, f'.notifies = true
  suspends : g'.suspended = true → g.suspended = true ∨ f = .suspend
  announced : g'.announced = g.announced ∨ 0 < g'.sem
  bound : g'.announced ≤ g'.posted.length
  begun : ∀ begun place, .notifyExec begun place ∈ fs → begun ≤ g'.posted.length
  tries : ∀ begun, .notifyExec begun .tryLock ∈ fs →
    g.runExecInBkgndOnly = true ∨ g.execMutex ≠ some t

section

variable {g g' : ExecApplication} {t : Thread} {f : Frame} {fs : List Frame}

/-- Calls which neither notify nor are suspended only change the marks and their semaphore. -/
theorem Served.of_same (hfs : ∀ f' ∈ fs, f'.isHandler = true ∧ f'.notifies = false)
    (hf : f.notifies = false) (hbound : g.announced ≤ g.posted.length)
    (hposted : g.posted.length ≤ g'.posted.length)
    (h : g' = { g with
      posted := g'.posted, markCount := g'.markCount, markSem := g'.markSem }) :
  Served g t f g' fs
  := by
  have quiet {begun : Nat} {place : NotifyPlace} (hmem : .notifyExec begun place ∈ fs) : False := by
    have hnotifies := (hfs _ hmem).2
    cases hnotifies
  rw [h]
  constructor
  case handlers => exact fun f' hf' => (hfs f' hf').1
  case posted => exact hposted
  case notifies =>
    intro hnotifies
    rw [hf] at hnotifies
    cases hnotifies
  case suspended => exact .inl
  case suspends => exact .inl
  case announced => exact .inl rfl
  case bound => exact hbound.trans hposted
  case begun => exact fun _ _ hmem => (quiet hmem).elim
  case tries => exact fun _ hmem => (quiet hmem).elim
  case sem => exact Nat.le_refl _
  all_goals rfl

/-- A call of `notifyExec` begins. -/
theorem Served.of_notify {rest : List Frame}
    (hrest : ∀ f' ∈ rest, f'.isHandler = true ∧ f'.notifies = false)
    (hf : f.notifies = false) (hbound : g.announced ≤ g.posted.length)
    (htries : g.runExecInBkgndOnly = true ∨ g.execMutex ≠ some t)
    (hsuspended : g'.suspended = true → g.suspended = true)
    (h : g' = { g with suspended := g'.suspended }) :
  Served g t f g' (.notifyExec g.posted.length .tryLock :: rest)
  := by
  have quiet {begun : Nat} {place : NotifyPlace} (hmem : .notifyExec begun place ∈ rest) : False := by
    have hnotifies := (hrest _ hmem).2
    cases hnotifies
  rw [h]
  constructor
  case handlers => exact List.forall_mem_cons.mpr ⟨rfl, fun f' hf' => (hrest f' hf').1⟩
  case posted => exact Nat.le_refl _
  case notifies =>
    intro hnotifies
    rw [hf] at hnotifies
    cases hnotifies
  case suspended => exact fun _ => .inr ⟨_, List.mem_cons_self, rfl⟩
  case suspends => exact fun hs => .inl (hsuspended hs)
  case announced => exact .inl rfl
  case bound => exact hbound
  case begun =>
    intro begun place hmem
    rcases List.mem_cons.mp hmem with heq | hmem
    · cases heq
      exact Nat.le_refl _
    · exact (quiet hmem).elim
  case tries => exact fun _ _ => htries
  case sem => exact Nat.le_refl _
  all_goals rfl

theorem Acts.served (h : Acts g t f g' fs) (hf : f.isHandler = true) (hcalm : g.Notifies t f)
    (hbound : g.announced ≤ g.posted.length)
    (hbegun : ∀ begun place, f = .notifyExec begun place → begun ≤ g.posted.length) :
  Served g t f g' fs
  := by
  have one {f' : Frame} (hhandler : f'.isHandler = true) (hnotifies : f'.notifies = false) :
      ∀ f'' ∈ [f'], f''.isHandler = true ∧ f''.notifies = false :=
    List.forall_mem_singleton.mpr ⟨hhandler, hnotifies⟩
  have none' : ∀ f'' ∈ ([] : List Frame), f''.isHandler = true ∧ f''.notifies = false :=
    List.forall_mem_nil _
  cases h
  case tryLock hforeground hfree =>
    rcases hcalm with hbackground | hbusy
    · rw [hforeground] at hbackground
      cases hbackground
    · exact absurd hfree hbusy
  case busy begun hbusy =>
    constructor
    case handlers => exact List.forall_mem_singleton.mpr rfl
    case notifies => exact fun _ => .inr ⟨_, List.mem_singleton_self _, rfl⟩
    case begun =>
      intro begun' place hmem
      rw [List.mem_singleton] at hmem
      cases hmem
      exact hbegun begun .tryLock rfl
    case tries =>
      intro begun' hmem
      rw [List.mem_singleton] at hmem
      cases hmem
    case suspended => exact .inl
    case suspends => exact .inl
    case announced => exact .inl rfl
    case bound => exact hbound
    case posted => exact Nat.le_refl _
    case sem => exact Nat.le_refl _
    all_goals rfl
  case postNotify begun =>
    constructor
    case handlers => exact List.forall_mem_nil _
    case notifies => exact fun _ => .inl (Nat.succ_pos _)
    case begun => exact fun _ _ hmem => nomatch hmem
    case tries => exact fun _ hmem => nomatch hmem
    case suspended => exact .inl
    case suspends => exact .inl
    case announced => exact .inr (Nat.succ_pos _)
    case bound => exact max_le hbound (hbegun begun .post rfl)
    case posted => exact Nat.le_refl _
    case sem => exact Nat.le_succ _
    all_goals rfl
  case count => exact .of_same (one rfl rfl) rfl hbound (Nat.le_refl _) rfl
  case putMark =>
    apply Served.of_same (one rfl rfl) rfl hbound _ rfl
    dsimp only
    rw [List.length_append]
    exact Nat.le_add_right _ _
  case notify => exact .of_notify (one rfl rfl) rfl hbound hcalm id rfl
  case waitMark => exact .of_same (one rfl rfl) rfl hbound (Nat.le_refl _) rfl
  case passOn => exact .of_same (one rfl rfl) rfl hbound (Nat.le_refl _) rfl
  case waitAgain => exact .of_same (one rfl rfl) rfl hbound (Nat.le_refl _) rfl
  case completed => exact .of_same none' rfl hbound (Nat.le_refl _) rfl
  case suspend =>
    constructor
    case handlers => exact List.forall_mem_nil _
    case notifies => exact fun hnotifies => nomatch hnotifies
    case begun => exact fun _ _ hmem => nomatch hmem
    case tries => exact fun _ hmem => nomatch hmem
    case suspended => exact fun _ => .inl rfl
    case suspends => exact fun _ => .inr rfl
    case announced => exact .inl rfl
    case bound => exact hbound
    case posted => exact Nat.le_refl _
    case sem => exact Nat.le_refl _
    all_goals rfl
  case toResume => exact .of_same (one rfl rfl) rfl hbound (Nat.le_refl _) rfl
  case notSuspended => exact .of_same none' rfl hbound (Nat.le_refl _) rfl
  case clear => exact .of_notify (List.forall_mem_nil _) rfl hbound hcalm nofun rfl
  all_goals cases hf

end

namespace Threads

variable {s s' : Threads} {t : Thread} {f : Frame} {rest fs : List Frame} {g : ExecApplication}
  {base : Base} {calls : List Frame} {result : Bool}

theorem mem_replace_self (hframes : s.frames t = f :: rest) {f' : Frame} :
  f' ∈ (s.replace t g fs).frames t ↔ f' ∈ fs ∨ f' ∈ rest
  := by
  rw [CallStacks.frames_replace, if_pos rfl, hframes, List.tail_cons, List.mem_append]

theorem Wakes.served (h : s.Wakes) (hframes : s.frames t = f :: rest)
    (hserved : Served s.shared t f g fs) :
  Wakes (s.replace t g fs)
  := by
  have woken (hwoken : 0 < g.sem ∨ ∃ f' ∈ fs, f'.notifies = true) : Wakes (s.replace t g fs) := by
    rcases hwoken with hpositive | ⟨f', hf', hnotifies⟩
    · exact .inl hpositive
    · exact .inr (.inr ⟨t, f', (mem_replace_self hframes).mpr (.inl hf'), hnotifies⟩)
  rcases h with hpositive | hsuspended | ⟨t', f', hf', hnotifies⟩
  · exact .inl (Nat.lt_of_lt_of_le hpositive hserved.sem)
  · rcases hserved.suspended hsuspended with hsuspended' | hnotifies
    · exact .inr (.inl hsuspended')
    · exact woken (.inr hnotifies)
  · by_cases ht : t' = t
    · subst ht
      rw [hframes, List.mem_cons] at hf'
      rcases hf' with rfl | hf'
      · exact woken (hserved.notifies hnotifies)
      · exact .inr (.inr ⟨t', f', (mem_replace_self hframes).mpr (.inr hf'), hnotifies⟩)
    · refine .inr (.inr ⟨t', f', ?_, hnotifies⟩)
      rwa [CallStacks.frames_replace, if_neg ht]

/-- A handler or another thread goes on. -/
theorem Loop.serve (h : s.Loop base calls) (hframes : s.frames t = f :: rest)
    (hserved : Served s.shared t f g fs)
    (hcalls : t = workerThread → ∃ calls', calls = f :: calls')
    (hsuspend : f = .suspend → base.starts = false) :
  ∃ calls', Loop (s.replace t g fs) base calls'
  := by
  have hwakes (hw : s.Wakes) : Wakes (s.replace t g fs) := hw.served hframes hserved
  have frames {t' : Thread} {f' : Frame} (hf' : f' ∈ (s.replace t g fs).frames t') :
      (t' = t ∧ f' ∈ fs) ∨ f' ∈ s.frames t' := CallStacks.mem_frames_replace hf'
  have stack : ∃ calls', (s.replace t g fs).frames workerThread = calls' ++ base.frames ∧
      (∀ f ∈ calls', f.isHandler = true) ∧ (calls' ≠ [] → base.inExec = true) := by
    by_cases ht : t = workerThread
    · obtain ⟨calls', rfl⟩ := hcalls ht
      subst ht
      refine ⟨fs ++ calls', ?_, ?_, fun _ => h.called (List.cons_ne_nil _ _)⟩
      · rw [CallStacks.frames_replace, if_pos rfl, h.worker, List.cons_append, List.tail_cons,
          List.append_assoc]
      · intro f' hf'
        rcases List.mem_append.mp hf' with hf' | hf'
        · apply hserved.handlers f' hf'
        · apply h.handlers f' (List.mem_cons_of_mem f hf')
    · refine ⟨calls, ?_, h.handlers, h.called⟩
      rw [CallStacks.frames_replace, if_neg (Ne.symm ht)]
      exact h.worker
  obtain ⟨calls', hworker, hhandlers, hcalled⟩ := stack
  use calls'
  constructor
  case worker => exact hworker
  case handlers => exact hhandlers
  case called => exact hcalled
  case others =>
    intro t' ht' f' hf'
    rcases frames hf' with ⟨-, hf'⟩ | hf'
    · apply hserved.handlers f' hf'
    · apply h.others t' ht' f' hf'
  case mutex => exact hserved.execMutex.trans h.mutex
  case tries =>
    intro t' begun hf'
    change g.runExecInBkgndOnly = true ∨ g.execMutex ≠ some t'
    rw [hserved.background, hserved.execMutex]
    rcases frames hf' with ⟨rfl, hmem⟩ | hmem
    · apply hserved.tries begun hmem
    · apply h.tries t' begun hmem
  case begun =>
    intro t' begun place hf'
    rcases frames hf' with ⟨rfl, hmem⟩ | hmem
    · apply hserved.begun begun place hmem
    · exact (h.begun t' begun place hmem).trans hserved.posted
  case announced => exact hserved.bound
  case processed =>
    rcases hserved.announced with hsame | hpositive
    · change g.announced ≤ g.taken ∨ _
      rw [hsame, hserved.taken]
      exact h.processed.imp_right fun hor => hor.imp_left hwakes
    · exact .inr (.inl (.inl hpositive))
  case stepped =>
    change g.needsStep = false ∨ _
    rw [hserved.needsStep]
    exact h.stepped.imp_right fun hor => hor.imp_left hwakes
  case quiescent =>
    change base.quiescent = true → g.needsStep = false
    rw [hserved.needsStep]
    exact h.quiescent
  case suspended =>
    intro hsuspended
    rcases hserved.suspends hsuspended with hsuspended | rfl
    · apply h.suspended hsuspended
    · apply hsuspend rfl

/-! ### The worker goes on -/

/-- The worker thread goes from one base to another. -/
theorem Loop.rebase {base' : Base} (h : s.Loop base [])
    (hframes : (s.replace workerThread g fs).frames workerThread = base'.frames)
    (hposted : g.posted = s.shared.posted)
    (hannounced : g.announced = s.shared.announced)
    (hmutex : g.execMutex = if base'.holds then some workerThread else none)
    (processed : g.announced ≤ g.taken ∨ Wakes (s.replace workerThread g fs) ∨
      base'.willProcess = true)
    (stepped : g.needsStep = false ∨ Wakes (s.replace workerThread g fs) ∨ base'.willStep = true)
    (quiescent : base'.quiescent = true → g.needsStep = false)
    (suspended : g.suspended = true → base'.starts = false) :
  Loop (s.replace workerThread g fs) base' []
  := by
  have others {t : Thread} (ht : t ≠ workerThread) :
      (s.replace workerThread g fs).frames t = s.frames t := by
    rw [CallStacks.frames_replace, if_neg ht]
  have quiet {t : Thread} {begun : Nat} {place : NotifyPlace}
      (hf : .notifyExec begun place ∈ (s.replace workerThread g fs).frames t) :
      t ≠ workerThread := by
    rintro rfl
    rw [hframes] at hf
    rcases mem_base hf with ⟨place, hf⟩ | ⟨once, oldMark, place, -, hf⟩ <;> cases hf
  constructor
  case worker => exact hframes
  case handlers => exact List.forall_mem_nil _
  case called => exact fun hne => absurd rfl hne
  case others =>
    intro t ht f hf
    rw [others ht] at hf
    apply h.others t ht f hf
  case mutex => exact hmutex
  case tries =>
    intro t begun hf
    right
    change g.execMutex ≠ some t
    rw [hmutex]
    split
    · intro heq
      exact quiet hf (Option.some.inj heq).symm
    · exact nofun
  case begun =>
    intro t begun place hf
    change begun ≤ g.posted.length
    rw [hposted]
    apply h.begun t begun place
    rwa [← others (quiet hf)]
  case announced =>
    change g.announced ≤ g.posted.length
    rw [hannounced, hposted]
    exact h.announced
  case processed => exact processed
  case stepped => exact stepped
  case quiescent => exact quiescent
  case suspended => exact suspended

/-- What wakes the worker is not taken away while the worker runs the executive. -/
theorem Loop.wakes_replace (h : s.Loop base []) (hw : s.Wakes) (hsem : s.shared.sem ≤ g.sem)
    (hsuspended : g.suspended = s.shared.suspended) :
  Wakes (s.replace workerThread g fs)
  := by
  rcases hw with hpositive | hsuspended' | ⟨t, f, hf, hnotifies⟩
  · exact .inl (Nat.lt_of_lt_of_le hpositive hsem)
  · exact .inr (.inl (hsuspended.trans hsuspended'))
  · refine .inr (.inr ⟨t, f, ?_, hnotifies⟩)
    have ht : t ≠ workerThread := by
      rintro rfl
      rw [h.worker, List.nil_append] at hf
      rcases mem_base hf with ⟨place, rfl⟩ | ⟨once, oldMark, place, -, rfl⟩ <;> cases hnotifies
    rwa [CallStacks.frames_replace, if_neg ht]

theorem Loop.work_waiting {place : WorkerPlace} (h : s.Loop (.waiting place) [])
    (hacts : Acts s.shared workerThread (.worker place) g fs) :
  ∃ base', Loop (s.replace workerThread g fs) base' []
  := by
  have hframes : (s.replace workerThread g fs).frames workerThread = fs := by
    rw [CallStacks.frames_replace, if_pos rfl, h.worker]
    exact List.append_nil fs
  cases hacts
  case start =>
    use .running true 0 .readMark
    exact h.rebase hframes rfl rfl h.mutex (.inr (.inr rfl)) (.inr (.inr rfl)) nofun h.suspended
  case wait =>
    use .waiting .check
    exact h.rebase hframes rfl rfl h.mutex (.inr (.inr rfl)) (.inr (.inr rfl)) nofun
      fun _ => rfl
  case ignore hsuspended =>
    use .waiting .wait
    have hwakes : Wakes (s.replace workerThread s.shared [.worker .wait]) := .inr (.inl hsuspended)
    exact h.rebase hframes rfl rfl h.mutex (.inr (.inl hwakes)) (.inr (.inl hwakes)) nofun
      fun _ => rfl
  case runExec hsuspended =>
    use .running false 0 .readMark
    refine h.rebase hframes rfl rfl h.mutex (.inr (.inr rfl)) (.inr (.inr rfl)) nofun ?_
    intro hsuspended'
    rw [hsuspended] at hsuspended'
    cases hsuspended'

theorem Loop.work_running {once : Bool} {oldMark : BitVec 32} {place : RunPlace}
    (h : s.Loop (.running once oldMark place) [])
    (hacts : Acts s.shared workerThread (.run once oldMark place) g fs)
    (hfirst : once = true → place = .unlock → s.shared.needsStep = false ∨ s.Wakes) :
  ∃ base', Loop (s.replace workerThread g fs) base' []
  := by
  have hframes : (s.replace workerThread g fs).frames workerThread = fs ++ [.worker .wait] := by
    rw [CallStacks.frames_replace, if_pos rfl, h.worker]
    rfl
  cases hacts
  case readMark =>
    use .running once s.shared.lastMark .lock
    exact h.rebase hframes rfl rfl h.mutex (.inr (.inr rfl)) (.inr (.inr rfl))
      (by intro hq; cases once <;> cases hq) h.suspended
  case lock =>
    use .running once oldMark (.processQueue true false)
    exact h.rebase hframes rfl rfl rfl (.inr (.inr rfl)) (.inr (.inr rfl))
      (by intro hq; cases once <;> cases hq) fun _ => rfl
  case emptyQueue first needsStep hempty =>
    -- The queue has been taken to its end.
    have hprocessed : s.shared.announced ≤ s.shared.taken :=
      h.announced.trans (List.getElem?_eq_none_iff.mp hempty)
    by_cases hagain : (first || needsStep) = true
    · rw [if_pos hagain] at hframes ⊢
      use .running once oldMark .step
      exact h.rebase hframes rfl rfl h.mutex (.inl hprocessed) (.inr (.inr rfl))
        (by intro hq; cases once <;> cases hq) fun _ => rfl
    · rw [if_neg hagain] at hframes ⊢
      rw [Bool.or_eq_true, not_or, Bool.not_eq_true, Bool.not_eq_true] at hagain
      obtain ⟨rfl, rfl⟩ := hagain
      use .running once oldMark .unlock
      refine h.rebase hframes rfl rfl h.mutex (.inl hprocessed) ?_
        (by intro hq; cases once <;> cases hq) fun _ => rfl
      cases once with
      | true => exact .inr (.inr rfl)
      | false => exact .inl (h.quiescent rfl)
  case processMark first needsStep sequence hmark =>
    use .running once oldMark (.processQueue first needsStep)
    exact h.rebase hframes rfl rfl h.mutex (.inr (.inr rfl)) (.inr (.inr rfl)) h.quiescent
      fun _ => rfl
  case processEvent first needsStep result event hevent hother =>
    use .running once oldMark (.processQueue first true)
    exact h.rebase hframes rfl rfl h.mutex (.inr (.inr rfl)) (.inr (.inr rfl))
      (by intro hq; cases once <;> cases first <;> cases hq) fun _ => rfl
  case step result =>
    have hwakes (hw : s.Wakes) (fs : List Frame) :
        Wakes (s.replace workerThread { s.shared with needsStep := result } fs) :=
      h.wakes_replace hw (Nat.le_refl _) rfl
    have hprocessed (fs : List Frame) : s.shared.announced ≤ s.shared.taken ∨
        Wakes (s.replace workerThread { s.shared with needsStep := result } fs) := by
      rcases h.processed with hprocessed | hw | hwill
      · exact .inl hprocessed
      · exact .inr (hwakes hw fs)
      · cases hwill
    cases once with
    | true =>
      use .running true oldMark .unlock
      exact h.rebase hframes rfl rfl h.mutex ((hprocessed _).imp_right .inl) (.inr (.inr rfl))
        nofun fun _ => rfl
    | false =>
      cases result with
      | true =>
        use .running false oldMark .step
        exact h.rebase hframes rfl rfl h.mutex ((hprocessed _).imp_right .inl)
          (.inr (.inr rfl)) nofun fun _ => rfl
      | false =>
        use .running false oldMark (.processQueue false false)
        exact h.rebase hframes rfl rfl h.mutex (.inr (.inr rfl)) (.inr (.inr rfl))
          (fun _ => rfl) fun _ => rfl
  case unlock =>
    use .running once oldMark .postMark
    have hwakes (hw : s.Wakes) : Wakes (s.replace workerThread { s.shared with execMutex := none }
        [.run once oldMark .postMark]) := h.wakes_replace hw (Nat.le_refl _) rfl
    refine h.rebase hframes rfl rfl rfl ?_ ?_ (by intro hq; cases once <;> cases hq) fun _ => rfl
    · rcases h.processed with hprocessed | hw | hwill
      · exact .inl hprocessed
      · exact .inr (.inl (hwakes hw))
      · cases hwill
    · cases once with
      | true => exact (hfirst rfl rfl).imp_right fun hw => .inl (hwakes hw)
      | false =>
        rcases h.stepped with hstepped | hw | hwill
        · exact .inl hstepped
        · exact .inr (.inl (hwakes hw))
        · cases hwill
  all_goals
    use .waiting .wait
    have hprocessed : s.shared.announced ≤ s.shared.taken ∨ s.Wakes := by
      rcases h.processed with hprocessed | hw | hwill
      · exact .inl hprocessed
      · exact .inr hw
      · cases hwill
    have hstepped : s.shared.needsStep = false ∨ s.Wakes := by
      rcases h.stepped with hstepped | hw | hwill
      · exact .inl hstepped
      · exact .inr hw
      · cases once <;> cases hwill
    refine h.rebase hframes rfl rfl h.mutex ?_ ?_ nofun fun _ => rfl
    · exact hprocessed.imp_right fun hw => .inl (h.wakes_replace hw (Nat.le_refl _) rfl)
    · exact hstepped.imp_right fun hw => .inl (h.wakes_replace hw (Nat.le_refl _) rfl)

/-! ### Runs -/

variable {e : Event}

theorem Loop.put (h : s.Loop base calls) (event : ExternalEvent) :
  Loop { s with shared := { s.shared with posted := s.shared.posted ++ [event] } } base calls
  := by
  have hlength : s.shared.posted.length ≤ (s.shared.posted ++ [event]).length := by
    rw [List.length_append]
    apply Nat.le_add_right
  constructor
  case begun => exact fun t begun place hf => (h.begun t begun place hf).trans hlength
  case announced => exact h.announced.trans hlength
  case worker => exact h.worker
  case handlers => exact h.handlers
  case called => exact h.called
  case others => exact h.others
  case mutex => exact h.mutex
  case tries => exact h.tries
  case processed => exact h.processed
  case stepped => exact h.stepped
  case quiescent => exact h.quiescent
  case suspended => exact h.suspended

/-- The worker thread calls handlers when it runs the executive and calls none yet. -/
theorem Loop.of_outside (h : s.Loop base calls) (houtside : s.outside workerThread = true) :
  calls = [] ∧ base.inExec = true
  := by
  unfold outside at houtside
  rw [h.worker] at houtside
  cases hc : calls with
  | nil =>
    rw [hc] at houtside
    refine ⟨rfl, ?_⟩
    cases base with
    | waiting place => cases houtside
    | running once oldMark place => cases place <;> first | rfl | cases houtside
  | cons f calls' =>
    rw [hc] at houtside
    have hhandler := h.handlers f (by rw [hc]; exact List.mem_cons_self)
    cases f <;> first | cases houtside | cases hhandler

theorem isHandler_frame {call : Call} (hcall : (Action.call call).inLoop = true) (begun : Nat) :
  (call.frame begun).isHandler = true
  := by
  revert hcall
  cases call <;> simp [Action.inLoop, Call.frame, Frame.isHandler]

theorem Loop.call (h : s.Loop base calls) {call : Call} (houtside : s.outside t = true)
    (hcall : (Action.call call).inLoop = true) (horder : s.Orderly (t, .call call)) :
  ∃ calls', Loop (s.push t (call.frame s.shared.posted.length)) base calls'
  := by
  have hhandler := isHandler_frame hcall s.shared.posted.length
  have frames {t' : Thread} {f : Frame}
      (hf : f ∈ (s.push t (call.frame s.shared.posted.length)).frames t') :
      (t' = t ∧ f = call.frame s.shared.posted.length) ∨ f ∈ s.frames t' :=
    CallStacks.mem_frames_push hf
  have hwakes (hw : s.Wakes) : Wakes (s.push t (call.frame s.shared.posted.length)) := by
    refine hw.imp_right fun hor => hor.imp_right ?_
    rintro ⟨t', f, hf, hnotifies⟩
    refine ⟨t', f, ?_, hnotifies⟩
    rw [CallStacks.frames_push]
    split
    · rename_i heq
      rw [heq] at hf
      exact List.mem_cons_of_mem _ hf
    · exact hf
  have stack : ∃ calls', (s.push t (call.frame s.shared.posted.length)).frames workerThread =
      calls' ++ base.frames ∧ (∀ f ∈ calls', f.isHandler = true) ∧
        (calls' ≠ [] → base.inExec = true) := by
    by_cases ht : t = workerThread
    · subst ht
      obtain ⟨rfl, hinExec⟩ := h.of_outside houtside
      refine ⟨[call.frame s.shared.posted.length], ?_, ?_, fun _ => hinExec⟩
      · rw [CallStacks.frames_push, if_pos rfl, h.worker]
        rfl
      · exact List.forall_mem_singleton.mpr hhandler
    · refine ⟨calls, ?_, h.handlers, h.called⟩
      rw [CallStacks.frames_push, if_neg (Ne.symm ht)]
      exact h.worker
  obtain ⟨calls', hworker, hhandlers, hcalled⟩ := stack
  use calls'
  constructor
  case worker => exact hworker
  case handlers => exact hhandlers
  case called => exact hcalled
  case others =>
    intro t' ht' f hf
    rcases frames hf with ⟨-, rfl⟩ | hf
    · exact hhandler
    · apply h.others t' ht' f hf
  case tries =>
    intro t' begun hf
    rcases frames hf with ⟨rfl, heq⟩ | hf
    · cases call with
      | notifyExec => exact horder
      | _ => cases heq
    · apply h.tries t' begun hf
  case begun =>
    intro t' begun place hf
    rcases frames hf with ⟨-, heq⟩ | hf
    · cases call with
      | notifyExec =>
        cases heq
        exact Nat.le_refl _
      | _ => cases heq
    · apply h.begun t' begun place hf
  case mutex => exact h.mutex
  case announced => exact h.announced
  case processed => exact h.processed.imp_right fun hor => hor.imp_left hwakes
  case stepped => exact h.stepped.imp_right fun hor => hor.imp_left hwakes
  case quiescent => exact h.quiescent
  case suspended => exact h.suspended

/-- No run is about to begin. -/
theorem Loop.starts_false (h : s.Loop base calls)
    (hquiet : ∀ t, ∀ f ∈ s.frames t, f.starts = false) :
  base.starts = false
  := by
  have hbase : ∀ f ∈ base.frames, f.starts = false := by
    intro f hf
    apply hquiet workerThread
    rw [h.worker]
    exact List.mem_append_right calls hf
  cases base with
  | waiting place =>
    have hstarts := hbase (.worker place) (List.mem_singleton_self _)
    cases place <;> first | rfl | cases hstarts
  | running once oldMark place =>
    have hstarts := hbase (.run once oldMark place) List.mem_cons_self
    cases place <;> first | rfl | cases hstarts

theorem Loop.next (h : s.Loop base calls) (hframes : s.frames t = f :: rest)
    (hacts : Acts s.shared t f g fs) (horder : s.Orderly (t, .next result)) :
  ∃ base' calls', Loop (s.replace t g fs) base' calls'
  := by
  obtain ⟨hnotifies, hsuspend, hfirst⟩ := horder f rest hframes
  have hmem : f ∈ s.frames t := by
    rw [hframes]
    exact List.mem_cons_self
  have serve (hhandler : f.isHandler = true)
      (hcalls : t = workerThread → ∃ calls', calls = f :: calls') :
      ∃ base' calls', Loop (s.replace t g fs) base' calls' := by
    have hserved := hacts.served hhandler hnotifies h.announced fun begun place hf =>
      h.begun t begun place (hf ▸ hmem)
    exact ⟨base, h.serve hframes hserved hcalls fun hf => h.starts_false (hsuspend hf)⟩
  by_cases ht : t = workerThread
  · subst ht
    cases hc : calls with
    | cons f' calls' =>
      have heq := h.worker.symm.trans hframes
      rw [hc, List.cons_append, List.cons.injEq] at heq
      obtain ⟨rfl, -⟩ := heq
      apply serve
      · apply h.handlers f'
        rw [hc]
        exact List.mem_cons_self
      · exact fun _ => ⟨calls', hc⟩
    | nil =>
      subst hc
      have heq := h.worker.symm.trans hframes
      cases base with
      | waiting place =>
        cases heq
        obtain ⟨base', h'⟩ := h.work_waiting hacts
        exact ⟨base', [], h'⟩
      | running once oldMark place =>
        cases heq
        have hends : once = true → place = .unlock → s.shared.needsStep = false ∨ s.Wakes := by
          rintro rfl rfl
          apply hfirst oldMark rfl
        obtain ⟨base', h'⟩ := h.work_running hacts hends
        exact ⟨base', [], h'⟩
  · apply serve (h.others t ht f hmem)
    exact fun heq => absurd heq ht

theorem Loop.step (h : s.Loop base calls) (hstep : s.apply e = some s')
    (hloop : e.2.inLoop = true) (horder : s.Orderly e) :
  ∃ base' calls', s'.Loop base' calls'
  := by
  cases Move.of_apply hstep with
  | put houtside hevent => exact ⟨base, calls, h.put _⟩
  | call houtside => exact ⟨base, h.call houtside hloop horder⟩
  | next hframes hacts => exact h.next hframes hacts horder

theorem loop_initial (runExecInBkgndOnly : Bool) :
  (initial runExecInBkgndOnly).Loop (.waiting .start) []
  := by
  have frames {t : Thread} {f : Frame} (hf : f ∈ (initial runExecInBkgndOnly).frames t) :
      t = workerThread ∧ f = .worker .start := by
    unfold initial at hf
    dsimp only at hf
    split at hf
    · rename_i ht
      exact ⟨ht, List.mem_singleton.mp hf⟩
    · contradiction
  constructor
  case worker => rfl
  case handlers => exact List.forall_mem_nil _
  case called => exact fun hne => absurd rfl hne
  case others => exact fun t ht f hf => absurd (frames hf).1 ht
  case mutex => rfl
  case tries => exact fun t begun hf => nomatch (frames hf).2
  case begun => exact fun t begun place hf => nomatch (frames hf).2
  case announced => exact Nat.le_refl _
  case processed => exact .inl (Nat.le_refl _)
  case stepped => exact .inl rfl
  case quiescent => exact nofun
  case suspended => exact nofun

/-- In every run of the event loop whose steps all meet the condition, one thread at a time runs
the executive and none locks the mutex twice, no wake-up is lost, and no run starts while the
application is suspended. -/
theorem eventLoop_of_orderly (runExecInBkgndOnly : Bool)
    (es : {es : List Event // StateMachine.Meets apply
      (fun s e => e.2.inLoop = true ∧ s.Orderly e) es (initial runExecInBkgndOnly)}) :
  StateMachine.Always apply EventLoop es.val (initial runExecInBkgndOnly)
  := by
  have hinitial := loop_initial runExecInBkgndOnly
  apply StateMachine.Meets.always (I := fun s => ∃ base calls, Loop s base calls) _ es.property
    ⟨_, _, hinitial⟩ hinitial.eventLoop
  rintro s e s' ⟨base, calls, h⟩ - ⟨hloop, horder⟩ hstep
  obtain ⟨base', calls', h'⟩ := h.step hstep hloop horder
  exact ⟨⟨base', calls', h'⟩, h'.eventLoop⟩

/-- In opportunistic mode a thread which finds the mutex free locks it, and `runExec` locks it
again. -/
theorem eventLoop_fails :
  ¬ ∀ runExecInBkgndOnly,
    ∀ es : {es : List Event // ∀ e ∈ es, e.2.inLoop = true},
      StateMachine.Always apply EventLoop es.val (initial runExecInBkgndOnly)
  := by
  intro h
  have hrun : (StateMachine.run apply
      (List.replicate 7 (workerThread, .next false) ++
        [(1, .put .messageQueueEmpty), (1, .call .notifyExec), (1, .next false), (1, .next false)])
      (initial false)).map
      (fun s => (s.frames 1, s.shared.execMutex)) =
        some ([.run false 0 .lock, .notifyExec 1 .unlock], some 1) := by
    decide +kernel
  obtain ⟨s, hs, hstate⟩ := Option.map_eq_some_iff.mp hrun
  obtain ⟨hframes, hmutex⟩ := Prod.mk.inj hstate
  apply ((h false ⟨_, by decide +kernel⟩).of_run hs).relock 1 _ _ hframes rfl hmutex

end Threads

end Plexil.App
