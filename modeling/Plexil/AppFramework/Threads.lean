import Plexil.AppFramework.ExecApplication

/-!
# What the threads do

`Acts` has one case for each action of a thread, with the condition under which it is possible.
-/

namespace Plexil.App

open Intfc

/-- The actions of a thread `t` on its innermost frame, with the members and the frames after
it. -/
inductive Acts (g : ExecApplication) (t : Thread) : Frame → ExecApplication → List Frame → Prop where
  | readMark {once : Bool} {oldMark : BitVec 32} :
      Acts g t (.run once oldMark .readMark) g [.run once g.lastMark .lock]
  | lock {once : Bool} {oldMark : BitVec 32} :
      g.execMutex = none →
      Acts g t (.run once oldMark .lock) { g with execMutex := some t }
        [.run once oldMark (.processQueue true false)]
  | emptyQueue {once : Bool} {oldMark : BitVec 32} {first needsStep : Bool} :
      g.posted[g.taken]? = none →
      Acts g t (.run once oldMark (.processQueue first needsStep)) g
        [.run once oldMark (if first || needsStep then .step else .unlock)]
  | processMark {once : Bool} {oldMark : BitVec 32} {first needsStep : Bool} {sequence : BitVec 32} :
      g.posted[g.taken]? = some (.mark sequence) →
      Acts g t (.run once oldMark (.processQueue first needsStep))
        { g with taken := g.taken + 1, lastMark := sequence }
        [.run once oldMark (.processQueue first needsStep)]
  | processEvent {once : Bool} {oldMark : BitVec 32} {first needsStep result : Bool}
      {event : ExternalEvent} :
      g.posted[g.taken]? = some event → event.isMark = false →
      Acts g t (.run once oldMark (.processQueue first needsStep))
        { g with taken := g.taken + 1, needsStep := g.needsStep || result }
        [.run once oldMark (.processQueue first true)]
  | step {once : Bool} {oldMark : BitVec 32} {result : Bool} :
      Acts g t (.run once oldMark .step) { g with needsStep := result }
        [.run once oldMark
          (if once then .unlock else if result then .step else .processQueue false false)]
  | unlock {once : Bool} {oldMark : BitVec 32} :
      Acts g t (.run once oldMark .unlock) { g with execMutex := none }
        [.run once oldMark .postMark]
  | postMark {once : Bool} {oldMark : BitVec 32} :
      oldMark < g.lastMark →
      Acts g t (.run once oldMark .postMark) { g with markSem := g.markSem + 1 } []
  | noMark {once : Bool} {oldMark : BitVec 32} :
      ¬ oldMark < g.lastMark → Acts g t (.run once oldMark .postMark) g []
  | tryLock {begun : Nat} :
      g.runExecInBkgndOnly = false → g.execMutex = none →
      Acts g t (.notifyExec begun .tryLock) { g with execMutex := some t }
        [.runExec, .notifyExec begun .unlock]
  | busy {begun : Nat} :
      (g.runExecInBkgndOnly = false → g.execMutex ≠ none) →
      Acts g t (.notifyExec begun .tryLock) g [.notifyExec begun .post]
  | unlockNotify {begun : Nat} :
      Acts g t (.notifyExec begun .unlock)
        { g with execMutex := none, announced := max g.announced begun } []
  | postNotify {begun : Nat} :
      Acts g t (.notifyExec begun .post)
        { g with sem := g.sem + 1, announced := max g.announced begun } []
  | count {begun : Nat} {sequence : BitVec 32} :
      Acts g t (.notifyAndWait begun sequence .count) { g with markCount := g.markCount + 1 }
        [.notifyAndWait begun (g.markCount + 1) .put]
  | putMark {begun : Nat} {sequence : BitVec 32} :
      Acts g t (.notifyAndWait begun sequence .put)
        { g with posted := g.posted ++ [.mark sequence] } [.notifyAndWait begun sequence .notify]
  | notify {begun : Nat} {sequence : BitVec 32} :
      Acts g t (.notifyAndWait begun sequence .notify) g
        [.notifyExec g.posted.length .tryLock, .notifyAndWait begun sequence .wait]
  | waitMark {begun : Nat} {sequence : BitVec 32} :
      0 < g.markSem →
      Acts g t (.notifyAndWait begun sequence .wait) { g with markSem := g.markSem - 1 }
        [.notifyAndWait begun sequence .post]
  | passOn {begun : Nat} {sequence : BitVec 32} :
      Acts g t (.notifyAndWait begun sequence .post) { g with markSem := g.markSem + 1 }
        [.notifyAndWait begun sequence .check]
  | waitAgain {begun : Nat} {sequence : BitVec 32} :
      g.lastMark < sequence →
      Acts g t (.notifyAndWait begun sequence .check) g [.notifyAndWait begun sequence .wait]
  | completed {begun : Nat} {sequence : BitVec 32} :
      ¬ g.lastMark < sequence → Acts g t (.notifyAndWait begun sequence .check) g []
  | suspend : Acts g t .suspend { g with suspended := true } []
  | toResume : g.suspended = true → Acts g t (.resume .test) g [.resume .clear]
  | notSuspended : g.suspended = false → Acts g t (.resume .test) g []
  | clear :
      Acts g t (.resume .clear) { g with suspended := false }
        [.notifyExec g.posted.length .tryLock]
  | start : Acts g t (.worker .start) g [.step, .worker .wait]
  | wait : 0 < g.sem → Acts g t (.worker .wait) { g with sem := g.sem - 1 } [.worker .check]
  | ignore : g.suspended = true → Acts g t (.worker .check) g [.worker .wait]
  | runExec : g.suspended = false → Acts g t (.worker .check) g [.runExec, .worker .wait]

section

variable {g g' : ExecApplication} {t : Thread} {result : Bool} {f : Frame} {fs : List Frame}

theorem acts_run {once : Bool} {oldMark : BitVec 32} {place : RunPlace}
    (h : g.run t result once oldMark place = some (g', fs)) :
  Acts g t (.run once oldMark place) g' fs
  := by
  unfold ExecApplication.run at h
  cases place with
  | readMark =>
    cases h
    apply Acts.readMark
  | lock =>
    dsimp only at h
    split at h
    · rename_i hfree
      cases h
      apply Acts.lock hfree
    · cases h
  | processQueue first needsStep =>
    dsimp only at h
    split at h
    · rename_i hempty
      cases h
      apply Acts.emptyQueue hempty
    · rename_i sequence hmark
      cases h
      apply Acts.processMark hmark
    · rename_i event hnot hevent
      cases h
      apply Acts.processEvent hevent
      cases event with
      | mark sequence => exact absurd rfl (hnot sequence)
      | _ => rfl
  | step =>
    cases h
    apply Acts.step
  | unlock =>
    cases h
    apply Acts.unlock
  | postMark =>
    dsimp only at h
    split at h
    · rename_i hless
      cases h
      apply Acts.postMark hless
    · rename_i hless
      cases h
      apply Acts.noMark hless

theorem acts_notifyExec {begun : Nat} {place : NotifyPlace}
    (h : g.notifyExec t begun place = (g', fs)) :
  Acts g t (.notifyExec begun place) g' fs
  := by
  unfold ExecApplication.notifyExec at h
  cases place with
  | tryLock =>
    dsimp only at h
    split at h
    · rename_i hfree
      rw [Bool.and_eq_true, Bool.not_eq_true', decide_eq_true_eq] at hfree
      cases h
      apply Acts.tryLock hfree.1 hfree.2
    · rename_i hbusy
      cases h
      apply Acts.busy
      intro hforeground hfree
      apply hbusy
      rw [hforeground, hfree]
      rfl
  | unlock =>
    cases h
    apply Acts.unlockNotify
  | post =>
    cases h
    apply Acts.postNotify

theorem acts_notifyAndWait {begun : Nat} {sequence : BitVec 32} {place : WaitPlace}
    (h : g.notifyAndWait begun sequence place = some (g', fs)) :
  Acts g t (.notifyAndWait begun sequence place) g' fs
  := by
  unfold ExecApplication.notifyAndWait at h
  cases place with
  | count =>
    cases h
    apply Acts.count
  | put =>
    cases h
    apply Acts.putMark
  | notify =>
    cases h
    apply Acts.notify
  | wait =>
    dsimp only at h
    split at h
    · cases h
    · rename_i hpositive
      cases h
      apply Acts.waitMark (Nat.pos_of_ne_zero hpositive)
  | post =>
    cases h
    apply Acts.passOn
  | check =>
    dsimp only at h
    split at h
    · rename_i hless
      cases h
      apply Acts.waitAgain hless
    · rename_i hless
      cases h
      apply Acts.completed hless

theorem acts_resume {place : ResumePlace} (h : g.resume place = (g', fs)) :
  Acts g t (.resume place) g' fs
  := by
  unfold ExecApplication.resume at h
  cases place with
  | test =>
    dsimp only at h
    split at h
    · rename_i hsuspended
      cases h
      apply Acts.toResume hsuspended
    · rename_i hsuspended
      cases h
      apply Acts.notSuspended (Bool.eq_false_of_not_eq_true hsuspended)
  | clear =>
    cases h
    apply Acts.clear

theorem acts_worker {place : WorkerPlace} (h : g.worker place = some (g', fs)) :
  Acts g t (.worker place) g' fs
  := by
  unfold ExecApplication.worker at h
  cases place with
  | start =>
    cases h
    apply Acts.start
  | wait =>
    dsimp only at h
    split at h
    · cases h
    · rename_i hpositive
      cases h
      apply Acts.wait (Nat.pos_of_ne_zero hpositive)
  | check =>
    dsimp only at h
    split at h
    · rename_i hsuspended
      cases h
      apply Acts.ignore hsuspended
    · rename_i hsuspended
      cases h
      apply Acts.runExec (Bool.eq_false_of_not_eq_true hsuspended)

/-- Every action is one of those. -/
theorem acts_of_act (h : g.act t result f = some (g', fs)) : Acts g t f g' fs
  := by
  cases f with
  | run once oldMark place => exact acts_run h
  | notifyExec begun place => exact acts_notifyExec (Option.some.inj h)
  | notifyAndWait begun sequence place => exact acts_notifyAndWait h
  | suspend =>
    cases h
    apply Acts.suspend
  | resume place => exact acts_resume (Option.some.inj h)
  | worker place => exact acts_worker h

end

namespace Threads

variable {s s' : Threads} {t : Thread}

/-- What an event is. -/
inductive Move (s : Threads) : Event → Threads → Prop where
  | put {t : Thread} {event : ExternalEvent} :
      s.outside t = true → event.isMark = false →
      Move s (t, .put event) { s with shared := { s.shared with posted := s.shared.posted ++ [event] } }
  | call {t : Thread} {call : Call} :
      s.outside t = true → Move s (t, .call call) (s.push t (call.frame s.shared.posted.length))
  | next {t : Thread} {result : Bool} {f : Frame} {rest : List Frame} {g : ExecApplication}
      {fs : List Frame} :
      s.frames t = f :: rest → Acts s.shared t f g fs →
      Move s (t, .next result) (s.replace t g fs)

theorem Move.of_apply {e : Event} (h : s.apply e = some s') : Move s e s'
  := by
  obtain ⟨t, action⟩ := e
  cases action with
  | put event =>
    unfold apply at h
    dsimp only at h
    split at h
    · rename_i hcond
      rw [Bool.and_eq_true, Bool.not_eq_true'] at hcond
      cases h
      apply Move.put hcond.1 hcond.2
    · cases h
  | call call =>
    unfold apply at h
    dsimp only at h
    split at h
    · rename_i houtside
      cases h
      apply Move.call houtside
    · cases h
  | next result =>
    unfold apply at h
    obtain ⟨f, rest, g, fs, hframes, hact, rfl⟩ := CallStacks.advance_eq_some h
    apply Move.next hframes (acts_of_act hact)

end Threads

end Plexil.App
