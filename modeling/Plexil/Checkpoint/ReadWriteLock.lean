import Plexil.Util.CallStacks
import Plexil.Util.StateMachine

/-!
# The read-write lock

The lock of the checkpoint system, `ReadWriteLock`, which favours writers, and the operations which
threads guard with it.  Each action of a thread is one operation on a mutex or on the count of the
readers.  A mutex may be unlocked by another thread than the one which has locked it; so is
`w_lock`, when the reader who leaves last is not the one who came first.

`didCrash` calls `getIsOK` while it is guarded as a reader, and `getIsOK` is guarded as a reader
again.
-/

namespace Plexil.Checkpoint

structure ReadWriteLock where
  rCount : ℤ
  rLock : Bool
  wLock : Bool
  turnLock : Bool
  deriving DecidableEq

/-- What a guarded operation does next. -/
inductive Place where
  -- `begin_read`: lock and unlock `turn_lock`, lock `r_lock`, count, lock `w_lock`, unlock `r_lock`
  | awaitTurn | passTurn | enterCount | countReader | lockFirst | leaveCount
  | reading
  -- `end_read`, once `r_lock` is locked: count, unlock `w_lock`, unlock `r_lock`
  | uncountReader | unlockLast | endRead
  -- `begin_write`: lock `turn_lock` and `w_lock`
  | awaitWriteTurn | awaitReaders
  | writing
  -- `end_write`, once `turn_lock` is unlocked: unlock `w_lock`
  | endWrite
  deriving DecidableEq

/-- A place of a reader. -/
def Place.isRead : Place → Bool
  | .awaitWriteTurn | .awaitReaders | .writing | .endWrite => false
  | _ => true

/-- A guarded operation; a nested one has still to call `getIsOK`. -/
structure Frame where
  place : Place
  nested : Bool
  deriving DecidableEq

/-- The next action of a guarded operation. -/
def act (f : Frame) (l : ReadWriteLock) : Option (ReadWriteLock × List Frame) :=
  match f.place with
  | .awaitTurn =>
    if l.turnLock then none else some ({ l with turnLock := true }, [{ f with place := .passTurn }])
  | .passTurn => some ({ l with turnLock := false }, [{ f with place := .enterCount }])
  | .enterCount =>
    if l.rLock then none else some ({ l with rLock := true }, [{ f with place := .countReader }])
  | .countReader =>
    some ({ l with rCount := l.rCount + 1 },
      [{ f with place := if l.rCount + 1 = 1 then .lockFirst else .leaveCount }])
  | .lockFirst =>
    if l.wLock then none else some ({ l with wLock := true }, [{ f with place := .leaveCount }])
  | .leaveCount => some ({ l with rLock := false }, [{ f with place := .reading }])
  | .reading =>
    if f.nested then some (l, [⟨.awaitTurn, false⟩, ⟨.reading, false⟩])
    else if l.rLock then none
    else some ({ l with rLock := true }, [{ f with place := .uncountReader }])
  | .uncountReader =>
    some ({ l with rCount := l.rCount - 1 },
      [{ f with place := if l.rCount - 1 = 0 then .unlockLast else .endRead }])
  | .unlockLast => some ({ l with wLock := false }, [{ f with place := .endRead }])
  | .endRead => some ({ l with rLock := false }, [])
  | .awaitWriteTurn =>
    if l.turnLock then none
    else some ({ l with turnLock := true }, [{ f with place := .awaitReaders }])
  | .awaitReaders =>
    if l.wLock then none else some ({ l with wLock := true }, [{ f with place := .writing }])
  | .writing => some ({ l with turnLock := false }, [{ f with place := .endWrite }])
  | .endWrite => some ({ l with wLock := false }, [])

/-- The actions, with the conditions under which they are possible. -/
inductive Acts (l : ReadWriteLock) (nested : Bool) :
    Place → ReadWriteLock → List Frame → Prop where
  | takeTurn : l.turnLock = false →
      Acts l nested .awaitTurn { l with turnLock := true } [⟨.passTurn, nested⟩]
  | passTurn : Acts l nested .passTurn { l with turnLock := false } [⟨.enterCount, nested⟩]
  | enterCount : l.rLock = false →
      Acts l nested .enterCount { l with rLock := true } [⟨.countReader, nested⟩]
  | countFirst : l.rCount = 0 →
      Acts l nested .countReader { l with rCount := l.rCount + 1 } [⟨.lockFirst, nested⟩]
  | countFurther : l.rCount ≠ 0 →
      Acts l nested .countReader { l with rCount := l.rCount + 1 } [⟨.leaveCount, nested⟩]
  | lockFirst : l.wLock = false →
      Acts l nested .lockFirst { l with wLock := true } [⟨.leaveCount, nested⟩]
  | leaveCount : Acts l nested .leaveCount { l with rLock := false } [⟨.reading, nested⟩]
  | lookUp : nested = true → Acts l nested .reading l [⟨.awaitTurn, false⟩, ⟨.reading, false⟩]
  | stopReading : nested = false → l.rLock = false →
      Acts l nested .reading { l with rLock := true } [⟨.uncountReader, nested⟩]
  | uncountLast : l.rCount = 1 →
      Acts l nested .uncountReader { l with rCount := l.rCount - 1 } [⟨.unlockLast, nested⟩]
  | uncountOther : l.rCount ≠ 1 →
      Acts l nested .uncountReader { l with rCount := l.rCount - 1 } [⟨.endRead, nested⟩]
  | unlockLast : Acts l nested .unlockLast { l with wLock := false } [⟨.endRead, nested⟩]
  | endRead : Acts l nested .endRead { l with rLock := false } []
  | takeWriteTurn : l.turnLock = false →
      Acts l nested .awaitWriteTurn { l with turnLock := true } [⟨.awaitReaders, nested⟩]
  | lockToWrite : l.wLock = false →
      Acts l nested .awaitReaders { l with wLock := true } [⟨.writing, nested⟩]
  | stopWriting : Acts l nested .writing { l with turnLock := false } [⟨.endWrite, nested⟩]
  | endWrite : Acts l nested .endWrite { l with wLock := false } []

theorem acts_of_act {f : Frame} {l l' : ReadWriteLock} {fs : List Frame}
    (h : act f l = some (l', fs)) :
  Acts l f.nested f.place l' fs
  := by
  obtain ⟨place, nested⟩ := f
  cases place
  case countReader =>
    cases h
    split
    · exact .countFirst (by omega)
    · exact .countFurther (by omega)
  case uncountReader =>
    cases h
    split
    · exact .uncountLast (by omega)
    · exact .uncountOther (by omega)
  case reading =>
    unfold act at h
    dsimp only at h
    split at h
    · rename_i hnested
      cases h
      exact .lookUp hnested
    · rename_i hnested
      split at h
      · cases h
      · rename_i hfree
        cases h
        exact .stopReading (by simpa using hnested) (by simpa using hfree)
  case awaitTurn | enterCount | lockFirst | awaitWriteTurn | awaitReaders =>
    unfold act at h
    dsimp only at h
    split at h
    · cases h
    · rename_i hfree
      cases h
      constructor
      simpa using hfree
  all_goals
    cases h
    constructor

/-- The operations of the checkpoint system.  `lookup` stands for the other ones which read. -/
inductive Operation where
  | didCrash (firstBoot : Bool)
  | lookup
  | setCheckpoint
  | setOK
  | flush

/-- The guarded operation at its start; at the first boot, `didCrash` looks nothing up. -/
def Operation.frame : Operation → Frame
  | .didCrash firstBoot => ⟨.awaitTurn, !firstBoot⟩
  | .lookup => ⟨.awaitTurn, false⟩
  | .setCheckpoint | .setOK | .flush => ⟨.awaitWriteTurn, false⟩

/-- The threads `τ` with the lock which they share. -/
abbrev Threads (τ : Type) := CallStacks τ ReadWriteLock Frame

namespace Threads

/-- A thread which does nothing calls an operation, or a thread acts. -/
inductive Event (τ : Type) where
  | call (t : τ) (operation : Operation)
  | act (t : τ)

def Event.isAct {τ : Type} : Event τ → Bool
  | .call _ _ => false
  | .act _ => true

variable {τ : Type}

/-- The lock is new, and no thread has called an operation. -/
def start : Threads τ := ⟨⟨0, false, false, false⟩, fun _ => []⟩

variable [DecidableEq τ]

def step (s : Threads τ) : Event τ → Option (Threads τ)
  | .call t operation => if s.frames t = [] then some (s.push t operation.frame) else none
  | .act t => s.advance act t

def Reachable (s : Threads τ) : Prop :=
  StateMachine.Reachable step (fun s => s = start) (fun _ _ => True) s

/-- Some operation has not returned, and no thread can act. -/
def Stuck (s : Threads τ) : Prop := (∃ t, s.frames t ≠ []) ∧ ∀ t, s.step (.act t) = none

/-! ### How many operations are at a place -/

variable [Fintype τ]

/-- The number of operations at a place. -/
def number (s : Threads τ) (place : Place) : ℕ := s.total fun f => if f.place = place then 1 else 0

/-- What the mutexes and the count of the readers say about the operations: who has locked
`turn_lock` and `r_lock`, who is counted, that the first reader waits for `w_lock` by itself, that
nobody is counted when the last one unlocks it, and that a writer or the readers have locked it. -/
structure Counted (s : Threads τ) : Prop where
  turn : s.shared.turnLock.toNat = s.number .passTurn + s.number .awaitReaders + s.number .writing
  count : s.shared.rLock.toNat = s.number .countReader + s.number .lockFirst + s.number .leaveCount
    + s.number .uncountReader + s.number .unlockLast + s.number .endRead
  readers : s.shared.rCount = s.number .lockFirst + s.number .leaveCount + s.number .reading
    + s.number .uncountReader
  first : 0 < s.number .lockFirst → s.shared.rCount = 1
  last : 0 < s.number .unlockLast → s.shared.rCount = 0
  write : s.shared.wLock.toNat = s.number .writing + s.number .endWrite
    + if 0 < s.number .unlockLast ∨ (0 < s.shared.rCount ∧ s.number .lockFirst = 0) then 1 else 0

variable {s s' : Threads τ} {t : τ} {f : Frame} {rest fs : List Frame} {l : ReadWriteLock}

omit [DecidableEq τ] in
theorem counted_start :
  (start : Threads τ).Counted
  := by
  have hnumber (place : Place) : (start : Threads τ).number place = 0 :=
    Finset.sum_eq_zero fun _ _ => rfl
  have hshared : (start : Threads τ).shared = ⟨0, false, false, false⟩ := rfl
  constructor <;> simp [hnumber, hshared]

/-- An operation which has not begun yet is at a place which no mutex knows. -/
theorem counted_call (h : s.Counted) (operation : Operation) :
  Counted (CallStacks.push s t operation.frame)
  := by
  have hnumber (place : Place) : number (CallStacks.push s t operation.frame) place
      = s.number place + if operation.frame.place = place then 1 else 0 := CallStacks.total_push _
  have hshared : (CallStacks.push s t operation.frame).shared = s.shared := rfl
  obtain ⟨turn, count, readers, first, last, write⟩ := h
  have hplace : operation.frame.place = .awaitTurn ∨ operation.frame.place = .awaitWriteTurn := by
    cases operation <;> simp [Operation.frame]
  rcases hplace with hplace | hplace
  all_goals
    simp only [hplace] at hnumber
    constructor
    all_goals simpa [hnumber, hshared]

/-- The operation moves to another place. -/
theorem number_move (l : ReadWriteLock) (fs : List Frame) (hframes : s.frames t = f :: rest)
    (place : Place) :
  number (s.replace t l fs) place + (if f.place = place then 1 else 0)
    = s.number place + CallStacks.weigh (fun f => if f.place = place then 1 else 0) fs
  := CallStacks.total_replace _ hframes

/-- Every action keeps what the mutexes and the count say. -/
theorem counted_act (h : s.Counted) (hframes : s.frames t = f :: rest)
    (hacts : Acts s.shared f.nested f.place l fs) :
  Counted (CallStacks.replace s t l fs)
  := by
  have hshared : (CallStacks.replace s t l fs).shared = l := rfl
  have hpassTurn := number_move l fs hframes .passTurn
  have hcountReader := number_move l fs hframes .countReader
  have hlockFirst := number_move l fs hframes .lockFirst
  have hleaveCount := number_move l fs hframes .leaveCount
  have hreading := number_move l fs hframes .reading
  have huncountReader := number_move l fs hframes .uncountReader
  have hunlockLast := number_move l fs hframes .unlockLast
  have hendRead := number_move l fs hframes .endRead
  have hawaitReaders := number_move l fs hframes .awaitReaders
  have hwriting := number_move l fs hframes .writing
  have hendWrite := number_move l fs hframes .endWrite
  have hturnLock := s.shared.turnLock.toNat_le
  have hrLock := s.shared.rLock.toNat_le
  have hwLock := s.shared.wLock.toNat_le
  obtain ⟨turn, count, readers, first, last, write⟩ := h
  generalize s.replace t l fs = s' at *
  obtain ⟨place, nested⟩ := f
  cases hacts
  all_goals
    simp only [CallStacks.weigh_cons, CallStacks.weigh_nil, reduceCtorEq, if_true, if_false] at *
    simp only [*, Bool.toNat_false] at *
    constructor <;> grind

omit [Fintype τ] in
/-- What an event does. -/
theorem step_cases {e : Event τ} (h : s.step e = some s') :
  (∃ t operation, e = .call t operation ∧ s.frames t = [] ∧
      s' = CallStacks.push s t operation.frame) ∨
    ∃ t f rest l fs, e = .act t ∧ s.frames t = f :: rest ∧ Acts s.shared f.nested f.place l fs ∧
      s' = CallStacks.replace s t l fs
  := by
  cases e with
  | call t operation =>
    obtain ⟨hidle, heq⟩ := Option.ite_none_right_eq_some.mp h
    exact .inl ⟨t, operation, rfl, hidle, (Option.some.inj heq).symm⟩
  | act t =>
    obtain ⟨f, rest, l, fs, hframes, hact, rfl⟩ := CallStacks.advance_eq_some h
    exact .inr ⟨t, f, rest, l, fs, rfl, hframes, acts_of_act hact, rfl⟩

theorem Reachable.counted (h : s.Reachable) :
  s.Counted
  := by
  apply StateMachine.Reachable.invariant _ _ h
  · rintro s rfl
    exact counted_start
  · intro s e s' hs _ hstep
    obtain ⟨t, operation, -, -, rfl⟩ | ⟨t, f, rest, l, fs, -, hframes, hacts, rfl⟩ :=
      step_cases hstep
    · exact counted_call hs operation
    · exact counted_act hs hframes hacts

/-! ### The stacks of the threads -/

/-- The operations of a thread.  Only one which reads calls another one, and this one reads. -/
inductive Stack : List Frame → Prop where
  | idle : Stack []
  | read {place : Place} {nested : Bool} : place.isRead = true → Stack [⟨place, nested⟩]
  | write {place : Place} : place.isRead = false → Stack [⟨place, false⟩]
  | nested {place : Place} : place.isRead = true → Stack [⟨place, false⟩, ⟨.reading, false⟩]

theorem stack_acts {l l' : ReadWriteLock} {f : Frame} {rest fs : List Frame}
    (h : Stack (f :: rest)) (hacts : Acts l f.nested f.place l' fs) :
  Stack (fs ++ rest)
  := by
  cases h with
  | read hread =>
    cases hacts
    case lookUp => exact .nested rfl
    case endRead => exact .idle
    all_goals first | exact .read rfl | cases hread
  | write hwrite =>
    cases hacts
    case endWrite => exact .idle
    all_goals first | exact .write rfl | cases hwrite
  | nested hread =>
    cases hacts
    case lookUp hnested => cases hnested
    case endRead => exact .read rfl
    all_goals first | exact .nested rfl | cases hread

omit [Fintype τ] in
theorem Reachable.stack (h : s.Reachable) (t : τ) :
  Stack (s.frames t)
  := by
  revert t
  apply StateMachine.Reachable.invariant _ _ h
  · rintro s rfl t
    exact .idle
  · intro s e s' hs _ hstep t'
    obtain ⟨t, operation, -, hidle, rfl⟩ | ⟨t, f, rest, l, fs, -, hframes, hacts, rfl⟩ :=
      step_cases hstep
    · rw [CallStacks.frames_push]
      split
      · rw [hidle]
        cases operation with
        | didCrash | lookup => exact .read rfl
        | setCheckpoint | setOK | flush => exact .write rfl
      · exact hs t'
    · rw [CallStacks.frames_replace]
      split
      · have hstack := hs t
        rw [hframes] at hstack ⊢
        exact stack_acts hstack hacts
      · exact hs t'

/-- An operation at a place of the innermost frame's own is the innermost one. -/
theorem Stack.head_of_mem {fs : List Frame} (h : Stack fs) (hf : f ∈ fs)
    (hplace : f.place ≠ .reading) :
  ∃ rest, fs = f :: rest
  := by
  cases h with
  | idle => cases hf
  | read _ | write _ =>
    obtain rfl := List.mem_singleton.mp hf
    exact ⟨[], rfl⟩
  | nested _ =>
    obtain rfl | hf := List.mem_cons.mp hf
    · exact ⟨_, rfl⟩
    · obtain rfl := List.mem_singleton.mp hf
      exact absurd rfl hplace

/-! ### Exclusion -/

omit [DecidableEq τ] in
theorem number_pos (hf : f ∈ s.frames t) :
  0 < s.number f.place
  := by
  apply lt_of_lt_of_le _ (CallStacks.weigh_le_total _ s t)
  apply lt_of_lt_of_le _ (CallStacks.le_weigh hf)
  simp

omit [DecidableEq τ] in
theorem exists_of_number_pos {place : Place} (h : 0 < s.number place) :
  ∃ t, ∃ f ∈ s.frames t, f.place = place
  := by
  obtain ⟨t, f, hf, hpos⟩ := CallStacks.exists_of_total_pos _ s h
  refine ⟨t, f, hf, ?_⟩
  by_contra hne
  simp [hne] at hpos

theorem eq_of_number_le_one {place : Place} (h : s.number place ≤ 1) {t' : τ} {f' : Frame}
    (hf : f ∈ s.frames t) (hplace : f.place = place) (hf' : f' ∈ s.frames t')
    (hplace' : f'.place = place) :
  t' = t
  := by
  by_contra hne
  have htotal := CallStacks.add_weigh_le_total (fun f => if f.place = place then 1 else 0) s
    (Ne.symm hne)
  have hone := CallStacks.le_weigh (w := fun f => if f.place = place then 1 else 0) hf
  have hone' := CallStacks.le_weigh (w := fun f => if f.place = place then 1 else 0) hf'
  simp only [hplace, hplace', if_true] at hone hone'
  unfold number at h
  omega

/-- While an operation writes, no other one reads or writes. -/
theorem writing_exclusive (h : s.Reachable) (hf : f ∈ s.frames t) (hwriting : f.place = .writing)
    {t' : τ} {f' : Frame} (hf' : f' ∈ s.frames t')
    (hinside : f'.place = .reading ∨ f'.place = .writing) :
  t' = t ∧ f' = f
  := by
  have hpos := number_pos hf
  have hpos' := number_pos hf'
  have hwLock := s.shared.wLock.toNat_le
  obtain ⟨-, -, readers, first, -, write⟩ := h.counted
  rw [hwriting] at hpos
  rcases hinside with hinside | hinside
  · rw [hinside] at hpos'
    grind
  · obtain rfl := eq_of_number_le_one (by omega) hf hwriting hf' hinside
    refine ⟨rfl, ?_⟩
    obtain ⟨rest, hrest⟩ := (h.stack t').head_of_mem hf (by simp [hwriting])
    obtain ⟨rest', hrest'⟩ := (h.stack t').head_of_mem hf' (by simp [hinside])
    rw [hrest] at hrest'
    exact (List.cons.inj hrest').1.symm

/-! ### Deadlock -/

/-- The places at which an operation may wait for ever. -/
def Waits (f : Frame) : Prop :=
  f.place = .awaitTurn ∨ f.place = .awaitWriteTurn ∨ f.place = .awaitReaders

omit [Fintype τ] in
theorem step_act (hframes : s.frames t = f :: rest) :
  s.step (.act t) = none ↔ act f s.shared = none
  := by simp [step, CallStacks.advance, hframes]

/-- An action which is not possible waits for a mutex. -/
theorem act_eq_none (h : act f l = none) :
  ((f.place = .awaitTurn ∨ f.place = .awaitWriteTurn) ∧ l.turnLock = true) ∨
    ((f.place = .enterCount ∨ f.place = .reading) ∧ l.rLock = true) ∨
    ((f.place = .lockFirst ∨ f.place = .awaitReaders) ∧ l.wLock = true)
  := by
  obtain ⟨place, nested⟩ := f
  unfold act at h
  cases place <;> grind

/-- The innermost operation of a thread which is stuck waits for the turn, or for the readers. -/
theorem Stuck.waits (h : s.Stuck) (hs : s.Reachable) (hframes : s.frames t = f :: rest) :
  Waits f
  := by
  obtain ⟨-, count, readers, first, last, write⟩ := hs.counted
  have hblocked : ∀ place : Place, place ≠ .reading → 0 < s.number place →
      ∃ f : Frame, f.place = place ∧ act f s.shared = none := by
    intro place hne hpos
    obtain ⟨t, f, hf, rfl⟩ := exists_of_number_pos hpos
    obtain ⟨rest, hrest⟩ := (hs.stack t).head_of_mem hf hne
    exact ⟨f, rfl, (step_act hrest).mp (h.2 t)⟩
  have hnone : ∀ place ∈ [Place.countReader, .leaveCount, .uncountReader, .unlockLast, .endRead,
      .writing, .endWrite], s.number place = 0 := by
    intro place hplace
    by_contra hne
    obtain ⟨f, rfl, hact⟩ := hblocked place (by grind) (Nat.pos_of_ne_zero hne)
    have := act_eq_none hact
    grind
  simp only [List.forall_mem_cons, List.not_mem_nil, false_imp_iff, implies_true, and_true] at hnone
  -- the first reader would wait for a writer
  have hlockFirst : s.number .lockFirst = 0 := by
    by_contra hne
    obtain ⟨f, hplace, hact⟩ := hblocked .lockFirst (by decide) (Nat.pos_of_ne_zero hne)
    have := act_eq_none hact
    grind
  have hrLock : s.shared.rLock = false := by
    apply Bool.toNat_eq_zero.mp
    omega
  have hf : f ∈ s.frames t := by simp [hframes]
  have hpos := number_pos hf
  have := act_eq_none ((step_act hframes).mp (h.2 t))
  unfold Waits
  grind

/-- Once every innermost operation waits, nobody is elsewhere. -/
theorem number_eq_zero_of_waits (hs : s.Reachable)
    (h : ∀ t, ∀ f ∈ (s.frames t).head?, Waits f) (place : Place) (hreading : place ≠ .reading)
    (hplace : place ≠ .awaitTurn ∧ place ≠ .awaitWriteTurn ∧ place ≠ .awaitReaders) :
  s.number place = 0
  := by
  by_contra hne
  obtain ⟨t, f, hf, rfl⟩ := exists_of_number_pos (Nat.pos_of_ne_zero hne)
  obtain ⟨rest, hrest⟩ := (hs.stack t).head_of_mem hf hreading
  have := h t f (by simp [hrest])
  unfold Waits at this
  tauto

/-- The threads are stuck exactly when everybody waits, one for the readers, and one reader for the
turn of the lookup in it. -/
theorem stuck_iff (hs : s.Reachable) :
  s.Stuck ↔ (∃ t, s.frames t = [⟨.awaitReaders, false⟩]) ∧
    (∃ t, s.frames t = [⟨.awaitTurn, false⟩, ⟨.reading, false⟩]) ∧
    ∀ t, ∀ f ∈ (s.frames t).head?, Waits f
  := by
  obtain ⟨turn, -, readers, -, -, write⟩ := hs.counted
  constructor
  · intro h
    have hwaits : ∀ t, ∀ f ∈ (s.frames t).head?, Waits f := by
      intro t f hf
      obtain ⟨rest, hrest⟩ := List.head?_eq_some_iff.mp hf
      exact h.waits hs hrest
    have hzero := number_eq_zero_of_waits hs hwaits
    have hpassTurn := hzero .passTurn (by decide) (by decide)
    have hwriting := hzero .writing (by decide) (by decide)
    have hendWrite := hzero .endWrite (by decide) (by decide)
    have hlockFirst := hzero .lockFirst (by decide) (by decide)
    have hleaveCount := hzero .leaveCount (by decide) (by decide)
    have huncountReader := hzero .uncountReader (by decide) (by decide)
    have hunlockLast := hzero .unlockLast (by decide) (by decide)
    have hawaitReaders : 0 < s.number .awaitReaders := by
      obtain ⟨t, ht⟩ := h.1
      obtain ⟨f, rest, hframes⟩ := List.exists_cons_of_ne_nil ht
      have hpos := number_pos (s := s) (t := t) (f := f) (by simp [hframes])
      have := act_eq_none ((step_act hframes).mp (h.2 t))
      have := hwaits t f (by simp [hframes])
      unfold Waits at this
      grind
    obtain ⟨t, f, hf, hplace⟩ := exists_of_number_pos hawaitReaders
    obtain ⟨rest, hrest⟩ := (hs.stack t).head_of_mem hf (by simp [hplace])
    have hwLock := act_eq_none ((step_act hrest).mp (h.2 t))
    have hreading : 0 < s.number .reading := by grind
    obtain ⟨t', f', hf', hplace'⟩ := exists_of_number_pos hreading
    refine ⟨⟨t, ?_⟩, ⟨t', ?_⟩, hwaits⟩
    · have hstack := hs.stack t
      rw [hrest] at hstack ⊢
      cases hstack with
      | read hread | nested hread =>
        dsimp only at hplace
        subst hplace
        cases hread
      | write _ =>
        dsimp only at hplace
        rw [hplace]
    · have hstack := hs.stack t'
      have hhead := hwaits t'
      generalize s.frames t' = fs at *
      cases hstack with
      | idle => cases hf'
      | read _ | write _ =>
        obtain rfl := List.mem_singleton.mp hf'
        have := hhead _ rfl
        unfold Waits at this
        grind
      | nested hread =>
        have := hhead _ rfl
        unfold Waits at this
        grind [Place.isRead]
  · rintro ⟨⟨t, hframes⟩, ⟨t', hframes'⟩, hwaits⟩
    have hpos := number_pos (s := s) (t := t) (f := ⟨.awaitReaders, false⟩) (by simp [hframes])
    have hpos' := number_pos (s := s) (t := t') (f := ⟨.reading, false⟩) (by simp [hframes'])
    dsimp only at hpos hpos'
    have hlockFirst := number_eq_zero_of_waits hs hwaits .lockFirst (by decide) (by decide)
    have hturnLock : s.shared.turnLock = true := by
      apply Bool.toNat_eq_one.mp
      have := s.shared.turnLock.toNat_le
      omega
    have hwLock : s.shared.wLock = true := by
      apply Bool.toNat_eq_one.mp
      have := s.shared.wLock.toNat_le
      rw [if_pos (.inr ⟨by omega, hlockFirst⟩)] at write
      omega
    refine ⟨⟨t, by simp [hframes]⟩, fun t'' => ?_⟩
    cases hframes'' : s.frames t'' with
    | nil => simp [step, CallStacks.advance, hframes'']
    | cons f rest =>
      rw [step_act hframes'']
      have hwait := hwaits t'' f (by simp [hframes''])
      unfold Waits at hwait
      unfold act
      rcases hwait with hplace | hplace | hplace <;> simp [hplace, hturnLock, hwLock]

/-! ### Writers are favoured -/

/-- How many actions an operation which has entered still takes, without waiting for a turn. -/
def actionsLeft (f : Frame) : ℕ :=
  match f.place with
  | .awaitTurn | .passTurn | .awaitWriteTurn | .awaitReaders | .writing => 0
  | .enterCount => 8 + f.nested.toNat
  | .countReader => 7 + f.nested.toNat
  | .lockFirst => 6 + f.nested.toNat
  | .leaveCount => 5 + f.nested.toNat
  | .reading => 4 + f.nested.toNat
  | .uncountReader => 3
  | .unlockLast => 2
  | .endRead | .endWrite => 1

/-- While a writer waits for the readers, the actions of the others are those of operations which
have entered. -/
theorem actionsLeft_lt (hs : s.Reachable) (hwaits : ⟨.awaitReaders, false⟩ ∈ s.frames t) {t' : τ}
    (hne : t' ≠ t) (hframes : s.frames t' = f :: rest)
    (hacts : Acts s.shared f.nested f.place l fs) :
  CallStacks.weigh actionsLeft fs < actionsLeft f
  := by
  have hturnLock := s.shared.turnLock.toNat_le
  have hpos : 0 < s.number .awaitReaders := number_pos hwaits
  have hf : f ∈ s.frames t' := by simp [hframes]
  have hpos' := number_pos hf
  have turn := hs.counted.turn
  have hplace : f.place ≠ .awaitReaders := by
    intro hplace
    have hle : s.number .awaitReaders ≤ 1 := by omega
    exact hne (eq_of_number_le_one hle hwaits rfl hf hplace)
  obtain ⟨place, nested⟩ := f
  dsimp only at hpos' hplace hacts
  cases hacts <;> grind [actionsLeft, CallStacks.weigh_cons, CallStacks.weigh_nil]

theorem total_actionsLeft_step (hs : s.Reachable) (hwaits : ⟨.awaitReaders, false⟩ ∈ s.frames t)
    {e : Event τ} (hne : e ≠ .act t) (hstep : s.step e = some s') :
  ⟨.awaitReaders, false⟩ ∈ s'.frames t ∧
    (if e.isAct then 1 else 0) + s'.total actionsLeft ≤ s.total actionsLeft
  := by
  obtain ⟨t', operation, rfl, hidle, rfl⟩ | ⟨t', f, rest, l, fs, rfl, hframes, hacts, rfl⟩ :=
    step_cases hstep
  · constructor
    · rw [CallStacks.frames_push]
      split
      · rename_i heq
        rw [heq, hidle] at hwaits
        cases hwaits
      · exact hwaits
    · rw [CallStacks.total_push]
      cases operation <;> simp [Event.isAct, Operation.frame, actionsLeft]
  · have hne' : t' ≠ t := by
      rintro rfl
      exact hne rfl
    constructor
    · rw [CallStacks.frames_replace, if_neg hne'.symm]
      exact hwaits
    · have hless := actionsLeft_lt hs hwaits hne' hframes hacts
      have htotal : (CallStacks.replace s t' l fs).total actionsLeft + actionsLeft f
          = s.total actionsLeft + CallStacks.weigh actionsLeft fs :=
        CallStacks.total_replace actionsLeft hframes
      simp only [Event.isAct, if_true]
      omega

/-- When no operation which has entered is left, the writer enters. -/
theorem isSome_step_of_total_eq_zero (hs : s.Reachable)
    (hwaits : ⟨.awaitReaders, false⟩ ∈ s.frames t) (h : s.total actionsLeft = 0) :
  (s.step (.act t)).isSome
  := by
  have hzero : ∀ place ∈ [Place.lockFirst, .leaveCount, .reading, .uncountReader, .unlockLast,
      .endWrite], s.number place = 0 := by
    intro place hplace
    by_contra hne
    obtain ⟨t', f, hf, rfl⟩ := exists_of_number_pos (Nat.pos_of_ne_zero hne)
    have hle := (CallStacks.le_weigh (w := actionsLeft) hf).trans
      (CallStacks.weigh_le_total actionsLeft s t')
    rw [h, actionsLeft] at hle
    grind
  simp only [List.forall_mem_cons, List.not_mem_nil, false_imp_iff, implies_true, and_true] at hzero
  have hpos : 0 < s.number .awaitReaders := number_pos hwaits
  have hturnLock := s.shared.turnLock.toNat_le
  obtain ⟨turn, -, readers, -, -, write⟩ := hs.counted
  have hwLock : s.shared.wLock = false := by
    apply Bool.toNat_eq_zero.mp
    grind
  obtain ⟨rest, hframes⟩ := (hs.stack t).head_of_mem hwaits (by simp)
  rw [← Option.ne_none_iff_isSome, Ne, step_act hframes]
  simp [act, hwLock]

/-- While a writer waits for the readers, whatever is called, the other threads take at most the
actions of the operations which had entered before; once they have taken them, the writer enters. -/
theorem writer_waits_bounded (hs : s.Reachable) (hwaits : ⟨.awaitReaders, false⟩ ∈ s.frames t)
    {es : List (Event τ)} (hes : ∀ e ∈ es, e ≠ .act t)
    (hrun : StateMachine.run step es s = some s') :
  (es.filter Event.isAct).length + s'.total actionsLeft ≤ s.total actionsLeft ∧
    (s'.total actionsLeft = 0 → (s'.step (.act t)).isSome)
  := by
  induction es generalizing s with
  | nil =>
    cases hrun
    exact ⟨by simp, isSome_step_of_total_eq_zero hs hwaits⟩
  | cons e es ih =>
    obtain ⟨next, hstep, hrest⟩ := Option.bind_eq_some_iff.mp hrun
    obtain ⟨hne, hes⟩ := List.forall_mem_cons.mp hes
    obtain ⟨hwaits', hless⟩ := total_actionsLeft_step hs hwaits hne hstep
    obtain ⟨hbound, henters⟩ := ih (.step hs trivial hstep) hwaits' hes hrest
    refine ⟨?_, henters⟩
    rw [List.filter_cons]
    split
    · rename_i hact
      rw [if_pos hact] at hless
      rw [List.length_cons]
      omega
    · omega

/-! ### Runs of two threads -/

/-- The state after the events. -/
def after (es : List (Event (Fin 2))) : Threads (Fin 2) :=
  (StateMachine.run step es start).getD start

theorem after_reachable {es : List (Event (Fin 2))} (h : (StateMachine.run step es start).isSome) :
  (after es).Reachable
  := by
  have hstart : Reachable (start : Threads (Fin 2)) := .init rfl
  obtain ⟨s, hs⟩ := Option.isSome_iff_exists.mp h
  rw [after, hs]
  exact hstart.of_run hs

/-- The thread 0 calls an operation and reads; the thread 1 waits to write. -/
def crossing (operation : Operation) : List (Event (Fin 2)) :=
  .call 0 operation :: (List.replicate 6 (.act 0) ++ [.call 1 .setCheckpoint, .act 1])

/-- The reader leaves, and the writer writes. -/
theorem writing_exclusive_setCheckpoint :
  ∃ t, ∃ f ∈ (after (crossing .lookup ++ List.replicate 4 (.act 0) ++ [.act 1])).frames t,
    f.place = .writing ∧
      ∀ t', ∀ f' ∈ (after (crossing .lookup ++ List.replicate 4 (.act 0) ++ [.act 1])).frames t',
        f'.place = .reading ∨ f'.place = .writing → t' = t ∧ f' = f
  := by
  refine ⟨1, ⟨.writing, false⟩, List.mem_cons_self, rfl, fun t' f' hf' hinside => ?_⟩
  exact writing_exclusive (after_reachable rfl) List.mem_cons_self rfl hf' hinside

/-- `didCrash` looks up whether the last boot was in order, while a writer waits. -/
theorem stuck_iff_didCrash :
  (after (crossing (.didCrash false) ++ [.act 0])).Stuck
  := by
  apply (stuck_iff (after_reachable rfl)).mpr
  refine ⟨⟨1, rfl⟩, ⟨0, rfl⟩, fun t f hf => ?_⟩
  obtain rfl | rfl : t = 0 ∨ t = 1 := by omega
  · cases hf
    exact .inl rfl
  · cases hf
    exact .inr (.inr rfl)

/-- The reader takes its last four actions. -/
theorem writer_waits_bounded_lookup :
  4 + (after (crossing .lookup ++ List.replicate 4 (.act 0))).total actionsLeft
      ≤ (after (crossing .lookup)).total actionsLeft ∧
    ((after (crossing .lookup ++ List.replicate 4 (.act 0))).total actionsLeft = 0 →
      ((after (crossing .lookup ++ List.replicate 4 (.act 0))).step (.act 1)).isSome)
  := by
  have hothers : ∀ e ∈ List.replicate 4 (.act (0 : Fin 2)), e ≠ Event.act 1 := by
    intro e he
    obtain rfl := List.eq_of_mem_replicate he
    simp
  exact writer_waits_bounded (after_reachable rfl) List.mem_cons_self hothers rfl

end Threads

end Plexil.Checkpoint
