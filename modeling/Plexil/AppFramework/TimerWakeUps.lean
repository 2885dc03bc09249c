import Plexil.AppFramework.Timebase
import Mathlib.Tactic.Linarith

/-!
# Timer wakeups

A request for a wakeup is kept when the Exec has been notified at or after its time, or when the
timer of the operating system is set for it.  A request is lost only where the value with which the
timer is set is zero, as this disarms the timer: the Itimer timebase computes an interval of zero
when the clock reads exactly the time of the request.  For the Posix timebase, which sets an
absolute time, this happens only at the epoch.
-/

namespace Plexil

namespace Timebase

open Utils (TimeUnit)

variable {kind : Kind} {clockUnit u : TimeUnit} {s s' : State} {d hi : ℚ} {t clock : Int}

/-- Two points on which the requirement may be read in two ways: whether the calls count which
`setTimer` and `timeout` make of each other, and whether the notifications before the last request
do not count. -/
structure Reading where
  nested : Bool
  fresh : Bool

/-- The time of a request, rounded down to the resolution of the clock. -/
def requestTime (kind : Kind) (hi : ℚ) : Int := ⌊hi * kind.unit.perSecond⌋

def State.lastNotified (r : Reading) (s : State) : Option Int :=
  if r.fresh then s.notifiedSince else s.notified

/-- The Exec has been notified at the time `t` or later. -/
def Notified (kind : Kind) (r : Reading) (s : State) (t : Int) : Prop :=
  ∃ clock ∈ s.lastNotified r, t * nsecs kind.unit ≤ clock

/-- After the return of a call, the last request has been served or the timer is set for it. -/
def KeepsWakeUp (kind : Kind) (r : Reading) (s : State) : Prop :=
  s.returned = true → (r.nested = true ∨ s.calls = []) →
    ∀ hi ∈ s.requested,
      Notified kind r s (requestTime kind hi) ∨ s.timer = some (requestTime kind hi)

/-- The value with which the timer is set is zero. -/
def Disarms (kind : Kind) (d : ℚ) (now : Int) : Prop :=
  match kind with
  | .posix => doubleToTime kind.unit d = 0 ∧ readClock kind.unit now = 0
  | .itimer => doubleToTime kind.unit d = readClock kind.unit now

/-- A call of `setTimer` does not disarm the timer, unless the Exec has been notified. -/
def Heeds (kind : Kind) (r : Reading) (s : State) : Event → Prop
  | .proceed now =>
    match s.calls with
    | .setTimer d :: rest =>
      (r.nested = true ∨ rest = []) → Disarms kind d now →
        ∀ hi ∈ s.requested, Notified kind r s (requestTime kind hi)
    | _ => True
  | _ => True

/-- Every event which happens is heeded. -/
def Heeded (kind : Kind) (clockUnit : TimeUnit) (r : Reading) (s : State) (e : Event) : Prop :=
  (step kind clockUnit s e).isSome = true → Heeds kind r s e

/-! ### Times -/

theorem nsecs_pos (u : TimeUnit) :
  0 < nsecs u
  := by
  cases u <;> decide

theorem perSecond_pos (u : TimeUnit) :
  (0 : ℚ) < u.perSecond
  := by
  cases u <;> simp only [TimeUnit.perSecond] <;> norm_num

theorem truncate_eq_floor (hd : 0 ≤ d) :
  truncate d = ⌊d⌋
  := by
  rw [truncate, Int.tdiv_eq_ediv_of_nonneg (Rat.num_nonneg.mpr hd), Rat.floor_def']

theorem truncate_bounds_of_neg (hd : d < 0) :
  ⌊d⌋ ≤ truncate d ∧ d ≤ truncate d ∧ truncate d ≤ 0
  := by
  have hneg : truncate (-d) = - truncate d := by
    rw [truncate, truncate, Rat.neg_num, Rat.neg_den, Int.neg_tdiv]
  have hfloor : truncate (-d) = ⌊-d⌋ := truncate_eq_floor (by linarith)
  have hle : (⌊-d⌋ : ℚ) ≤ -d := Int.floor_le _
  have hpos : 0 ≤ ⌊-d⌋ := Int.floor_nonneg.mpr (by linarith)
  have heq : truncate d = -⌊-d⌋ := by omega
  have hd' : d ≤ truncate d := by
    rw [heq]
    push_cast
    linarith
  refine ⟨?_, hd', by omega⟩
  have hlower := le_trans (Int.floor_le d) hd'
  exact_mod_cast hlower

theorem doubleToTime_eq_floor (hd : 0 ≤ d) :
  doubleToTime u d = ⌊d * u.perSecond⌋
  := by
  have hunit := perSecond_pos u
  have hfract : 0 ≤ d - ⌊d⌋ := Int.fract_nonneg d
  rw [doubleToTime, truncate_eq_floor hd,
    truncate_eq_floor (mul_nonneg (le_of_lt hunit) hfract), ← Int.floor_intCast_add]
  congr 1
  push_cast
  ring

/-- A negative double is not rounded down but towards zero. -/
theorem doubleToTime_bounds_of_neg (hd : d < 0) :
  ⌊d * u.perSecond⌋ ≤ doubleToTime u d ∧ doubleToTime u d ≤ 0
  := by
  have hunit := perSecond_pos u
  obtain ⟨-, hsec, hsec'⟩ := truncate_bounds_of_neg hd
  have hsecs : truncate d * u.perSecond ≤ 0 := by
    apply Int.mul_nonpos_of_nonpos_of_nonneg hsec'
    exact_mod_cast le_of_lt hunit
  rcases eq_or_lt_of_le hsec with heq | hlt
  · have hzero : truncate (u.perSecond * (d - truncate d)) = 0 := by
      rw [← heq, sub_self, mul_zero]
      rfl
    have hwhole : d * u.perSecond = (truncate d * u.perSecond : Int) := by
      push_cast
      rw [← heq]
    have hfloor : ⌊d * u.perSecond⌋ = truncate d * u.perSecond := by
      rw [hwhole, Int.floor_intCast]
    rw [doubleToTime, hzero]
    omega
  · have hfrac : (u.perSecond : ℚ) * (d - truncate d) < 0 := by
      apply mul_neg_of_pos_of_neg hunit
      linarith
    obtain ⟨hfloor, -, hfrac'⟩ := truncate_bounds_of_neg hfrac
    have hsum : ⌊d * u.perSecond⌋ =
        truncate d * u.perSecond + ⌊(u.perSecond : ℚ) * (d - truncate d)⌋ := by
      rw [← Int.floor_intCast_add]
      congr 1
      push_cast
      ring
    rw [doubleToTime]
    omega

theorem doubleToTime_timeToDouble (ht : 0 ≤ t) :
  doubleToTime u (timeToDouble u t) = t
  := by
  have hunit := perSecond_pos u
  have ht' : (0 : ℚ) ≤ t := by exact_mod_cast ht
  have hnonneg : 0 ≤ timeToDouble u t := div_nonneg ht' (le_of_lt hunit)
  rw [doubleToTime_eq_floor hnonneg, timeToDouble, div_mul_cancel₀ _ (ne_of_gt hunit),
    Int.floor_intCast]

theorem timeToDouble_eq_zero_iff :
  timeToDouble u t = 0 ↔ t = 0
  := by
  have hunit := perSecond_pos u
  rw [timeToDouble, div_eq_zero_iff]
  constructor
  · rintro (h | h)
    · exact_mod_cast h
    · linarith
  · rintro rfl
    exact .inl Int.cast_zero

theorem readClock_mul_le :
  readClock u clock * nsecs u ≤ clock
  := Int.ediv_mul_le _ (ne_of_gt (nsecs_pos u))

theorem readClock_nonneg (h : 0 ≤ clock) :
  0 ≤ readClock u clock
  := Int.ediv_nonneg h (le_of_lt (nsecs_pos u))

theorem mul_nsecs_le (h : t ≤ readClock u clock) :
  t * nsecs u ≤ clock
  := le_trans (Int.mul_le_mul_of_nonneg_right h (le_of_lt (nsecs_pos u))) readClock_mul_le

/-- A time which the clock is not before has come, whatever the resolution of the clock. -/
theorem mul_nsecs_le_of_getTime (h : timeToDouble u t ≤ getTime clockUnit clock) :
  t * nsecs u ≤ clock
  := by
  have hread : (readClock clockUnit clock * nsecs clockUnit : ℚ) ≤ clock := by
    exact_mod_cast readClock_mul_le
  have hle : (t * nsecs u : ℚ) ≤ clock := by
    rw [getTime, timeToDouble, timeToDouble] at h
    cases u <;> cases clockUnit <;>
      simp only [TimeUnit.perSecond, nsecs, Int.cast_ofNat, Int.cast_one] at * <;> linarith
  exact_mod_cast hle

/-! ### The invariant -/

/-- The argument of `setTimer` is the time `t`, or both are before the epoch. -/
def Asks (kind : Kind) (d : ℚ) (t : Int) : Prop :=
  (0 ≤ t ∧ doubleToTime kind.unit d = t) ∨
    (t < 0 ∧ t ≤ doubleToTime kind.unit d ∧ doubleToTime kind.unit d ≤ 0)

/-- The next wakeup is recorded, unless its time has come. -/
def Records (kind : Kind) (s : State) (t : Int) : Prop :=
  (s.nextWakeup = 0 ∧ t * nsecs kind.unit ≤ s.clock) ∨
    (0 < t ∧ s.nextWakeup = timeToDouble kind.unit t)

/-- Where a request for the time `t` stands, by the calls in progress. -/
def Follows (kind : Kind) (s : State) (t : Int) : Prop :=
  match s.calls with
  | [] | [.timeout] => Records kind s t
  | [.setTimer d] | [.setTimer d, .notifyOfExternalEvent] => Asks kind d t
  | [.notifyOfExternalEvent] =>
    Records kind s t ∧ (t * nsecs kind.unit ≤ s.clock ∨ s.timer = some t)
  | [.timeout, .notifyOfExternalEvent] | [.notifyOfExternalEvent, .notifyOfExternalEvent] =>
    s.nextWakeup = 0 ∧ t * nsecs kind.unit ≤ s.clock
  | _ => False

structure Invariant (kind : Kind) (s : State) : Prop where
  clock : 0 ≤ s.clock
  follows : ∀ hi ∈ s.requested, Follows kind s (requestTime kind hi)

theorem asks_requestTime (kind : Kind) (hi : ℚ) :
  Asks kind hi (requestTime kind hi)
  := by
  rcases lt_or_ge hi 0 with hneg | hpos
  · right
    obtain ⟨hlower, hupper⟩ := doubleToTime_bounds_of_neg (u := kind.unit) hneg
    refine ⟨?_, hlower, hupper⟩
    rw [requestTime, Int.floor_lt, Int.cast_zero]
    exact mul_neg_of_neg_of_pos hneg (perSecond_pos _)
  · left
    refine ⟨?_, doubleToTime_eq_floor hpos⟩
    exact Int.floor_nonneg.mpr (mul_nonneg hpos (le_of_lt (perSecond_pos _)))

theorem Asks.le (h : Asks kind d t) :
  t ≤ doubleToTime kind.unit d
  := by
  rcases h with ⟨-, heq⟩ | ⟨-, hle, -⟩
  · exact ge_of_eq heq
  · exact hle

theorem Records.mono (h : Records kind s t) (hnext : s'.nextWakeup = s.nextWakeup)
    (hclock : s.clock ≤ s'.clock) :
  Records kind s' t
  := by
  rcases h with ⟨hzero, hle⟩ | ⟨hpos, hnext'⟩
  · exact .inl ⟨hnext.trans hzero, le_trans hle hclock⟩
  · exact .inr ⟨hpos, hnext.trans hnext'⟩

/-- What a call of `setTimer` for the time `t` does: it is in the past, or it is recorded and the
timer is set, unless this disarms it. -/
theorem setTimer_cases (h : Asks kind d t) (hclock : 0 ≤ s.clock) :
  (s.setTimer kind d = { s with nextWakeup := 0, calls := .timeout :: s.calls } ∧
      t * nsecs kind.unit ≤ s.clock ∧ ¬ Disarms kind d s.clock) ∨
    ∃ timer next, s.setTimer kind d =
        { s with timer := timer, nextWakeup := next, returned := true } ∧
      Records kind { s with nextWakeup := next } t ∧
      ((timer = some t ∧ ¬ Disarms kind d s.clock) ∨
        (timer = none ∧ Disarms kind d s.clock ∧ t * nsecs kind.unit ≤ s.clock))
  := by
  have hnow := readClock_nonneg (u := kind.unit) hclock
  have hle := h.le
  unfold State.setTimer
  by_cases hpast : doubleToTime kind.unit d < readClock kind.unit s.clock
  · left
    rw [if_pos hpast]
    refine ⟨rfl, mul_nsecs_le (by omega), ?_⟩
    unfold Disarms
    cases kind <;> omega
  · right
    rw [if_neg hpast]
    refine ⟨_, _, rfl, ?_, ?_⟩
    · rcases h with ⟨hnonneg, heq⟩ | ⟨hneg, -, hnonpos⟩
      · rcases eq_or_lt_of_le hnonneg with rfl | hpos
        · left
          rw [heq]
          refine ⟨timeToDouble_eq_zero_iff.mpr rfl, ?_⟩
          rw [Int.zero_mul]
          exact hclock
        · right
          rw [heq]
          exact ⟨hpos, rfl⟩
      · left
        have hzero : doubleToTime kind.unit d = 0 := by omega
        have hpassed : t ≤ readClock kind.unit s.clock := by omega
        rw [hzero]
        exact ⟨timeToDouble_eq_zero_iff.mpr rfl, mul_nsecs_le hpassed⟩
    · have hvalue : State.timerValue kind (doubleToTime kind.unit d)
          (readClock kind.unit s.clock) = 0 ↔ Disarms kind d s.clock := by
        unfold State.timerValue Disarms
        cases kind <;> simp only <;> omega
      by_cases hdisarms : Disarms kind d s.clock
      · right
        rw [if_pos (hvalue.mpr hdisarms)]
        refine ⟨rfl, hdisarms, mul_nsecs_le ?_⟩
        unfold Disarms at hdisarms
        cases kind <;> simp only at hdisarms <;> omega
      · left
        rw [if_neg (fun hzero => hdisarms (hvalue.mp hzero))]
        refine ⟨?_, hdisarms⟩
        congr 1
        unfold Disarms at hdisarms
        rcases h with ⟨-, heq⟩ | ⟨hneg, -, hnonpos⟩
        · exact heq
        · cases kind <;> simp only at hdisarms <;> omega

/-! ### Steps -/

variable {r : Reading} {rest : List Call} {now : Int} {e : Event}

/-- The state in which the first call reads the clock. -/
def State.resume (rest : List Call) (now : Int) (s : State) : State :=
  { s with clock := now, calls := rest, returned := false }

/-- The requirement for one request. -/
def Serves (kind : Kind) (r : Reading) (s : State) (t : Int) : Prop :=
  s.returned = true → (r.nested = true ∨ s.calls = []) → Notified kind r s t ∨ s.timer = some t

theorem Follows.setTimer (h : Follows kind s t) (hcalls : s.calls = .setTimer d :: rest)
    (hclock : 0 ≤ s.clock) (hnow : s.clock ≤ now) :
  Follows kind ((s.resume rest now).setTimer kind d) t ∧
    (Serves kind r ((s.resume rest now).setTimer kind d) t ↔
      ((r.nested = true ∨ rest = []) → Disarms kind d now → Notified kind r s t))
  := by
  have hasks : Asks kind d t ∧ (rest = [] ∨ rest = [.notifyOfExternalEvent]) := by
    unfold Follows at h
    rw [hcalls] at h
    split at h <;> simp_all
  obtain ⟨hasks, hrest⟩ := hasks
  rcases setTimer_cases (s := s.resume rest now) hasks (le_trans hclock hnow) with
    ⟨heq, hle, hnot⟩ | ⟨timer, next, heq, hrecords, htimer⟩
  · rw [heq]
    constructor
    · rcases hrest with rfl | rfl
      · exact .inl ⟨rfl, hle⟩
      · exact ⟨rfl, hle⟩
    · refine iff_of_true ?_ ?_
      · intro hreturned
        contradiction
      · intro _ hdisarms
        exact absurd hdisarms hnot
  · rw [heq]
    constructor
    · rcases hrest with rfl | rfl
      · exact hrecords
      · refine ⟨hrecords, ?_⟩
        rcases htimer with ⟨htimer, -⟩ | ⟨-, -, hle⟩
        · exact .inr htimer
        · exact .inl hle
    · rcases htimer with ⟨rfl, hnot⟩ | ⟨rfl, hdisarms, -⟩
      · refine iff_of_true ?_ ?_
        · intro _ _
          exact .inr rfl
        · intro _ hdisarms
          exact absurd hdisarms hnot
      · constructor
        · intro hserves houter _
          rcases hserves rfl houter with hnotified | htimer
          · exact hnotified
          · contradiction
        · intro hnotified _ houter
          exact .inl (hnotified houter hdisarms)

theorem Follows.timeout (h : Follows kind s t) (hcalls : s.calls = .timeout :: rest)
    (hnow : s.clock ≤ now) :
  Follows kind ((s.resume rest now).timeout clockUnit) t ∧
    Serves kind r ((s.resume rest now).timeout clockUnit) t
  := by
  have hcases : (rest = [] ∧ Records kind s t) ∨
      (rest = [.notifyOfExternalEvent] ∧ s.nextWakeup = 0 ∧ t * nsecs kind.unit ≤ s.clock) := by
    unfold Follows at h
    rw [hcalls] at h
    split at h <;> simp_all
  by_cases hearly : s.nextWakeup ≠ 0 ∧ getTime clockUnit now < s.nextWakeup
  · rw [State.timeout]
    erw [if_pos hearly]
    constructor
    · rcases hcases with ⟨rfl, ⟨hzero, -⟩ | ⟨hpos, hnext⟩⟩ | ⟨rfl, hzero, -⟩
      · exact absurd hzero hearly.1
      · left
        refine ⟨le_of_lt hpos, ?_⟩
        change doubleToTime kind.unit s.nextWakeup = t
        rw [hnext, doubleToTime_timeToDouble (le_of_lt hpos)]
      · exact absurd hzero hearly.1
    · intro hreturned
      contradiction
  · rw [State.timeout]
    erw [if_neg hearly]
    constructor
    · rcases hcases with ⟨rfl, hrecords⟩ | ⟨rfl, hzero, hle⟩
      · refine ⟨hrecords.mono rfl hnow, .inl ?_⟩
        rcases hrecords with ⟨-, hle⟩ | ⟨hpos, hnext⟩
        · exact le_trans hle hnow
        · refine mul_nsecs_le_of_getTime (?_ : _ ≤ getTime clockUnit now)
          rw [← hnext]
          by_contra hless
          refine hearly ⟨?_, not_le.mp hless⟩
          rw [hnext, Ne, timeToDouble_eq_zero_iff]
          omega
      · exact ⟨hzero, le_trans hle hnow⟩
    · intro hreturned
      contradiction

theorem Follows.notifyOfExternalEvent (h : Follows kind s t)
    (hcalls : s.calls = .notifyOfExternalEvent :: rest) (hnow : s.clock ≤ now) :
  Follows kind (s.resume rest now).notifyOfExternalEvent t ∧
    Serves kind r (s.resume rest now).notifyOfExternalEvent t
  := by
  have hcases : Records kind s t ∧ (t * nsecs kind.unit ≤ s.clock ∨ s.timer = some t) ∧
      (rest = [] ∨ (rest = [.notifyOfExternalEvent] ∧ t * nsecs kind.unit ≤ s.clock)) := by
    unfold Follows at h
    rw [hcalls] at h
    split at h <;> simp_all [Records]
  obtain ⟨hrecords, hkept, hrest⟩ := hcases
  have hrecords' : Records kind (s.resume rest now).notifyOfExternalEvent t :=
    hrecords.mono rfl hnow
  constructor
  · rcases hrest with rfl | ⟨rfl, hle⟩
    · exact hrecords'
    · exact ⟨hrecords', .inl (le_trans hle hnow)⟩
  · intro _ _
    rcases hkept with hle | htimer
    · left
      refine ⟨now, ?_, le_trans hle hnow⟩
      unfold State.lastNotified
      split <;> rfl
    · exact .inr htimer

theorem keepsWakeUp_iff :
  KeepsWakeUp kind r s ↔ ∀ hi ∈ s.requested, Serves kind r s (requestTime kind hi)
  := by
  constructor
  · intro h hi hhi hreturned houter
    exact h hreturned houter hi hhi
  · intro h hreturned houter hi hhi
    exact h hi hhi hreturned houter

/-- The calls in progress follow the requests, and a reading of the clock keeps the wakeup exactly
if it is heeded. -/
theorem Invariant.proceed (hI : Invariant kind s) {call : Call} (hcalls : s.calls = call :: rest)
    (hnow : s.clock ≤ now) :
  Invariant kind ((s.resume rest now).perform kind clockUnit call) ∧
    (KeepsWakeUp kind r ((s.resume rest now).perform kind clockUnit call) ↔
      Heeds kind r s (.proceed now))
  := by
  have hclock := le_trans hI.clock hnow
  rw [keepsWakeUp_iff]
  simp only [Heeds, hcalls]
  cases call with
  | setTimer d =>
    have hspec : ∀ hi ∈ s.requested, _ := fun hi hhi =>
      (hI.follows hi hhi).setTimer (r := r) hcalls hI.clock hnow
    have hrequested : ((s.resume rest now).setTimer kind d).requested = s.requested := by
      unfold State.setTimer
      dsimp only
      split <;> rfl
    have hclock' : ((s.resume rest now).setTimer kind d).clock = now := by
      unfold State.setTimer
      dsimp only
      split <;> rfl
    refine ⟨⟨?_, ?_⟩, ?_⟩
    · rw [State.perform, hclock']
      exact hclock
    · intro hi hhi
      rw [State.perform, hrequested] at hhi
      exact (hspec hi hhi).1
    · rw [State.perform, hrequested]
      constructor
      · intro h houter hdisarms hi hhi
        exact (hspec hi hhi).2.mp (h hi hhi) houter hdisarms
      · intro h hi hhi
        refine (hspec hi hhi).2.mpr fun houter hdisarms => h houter hdisarms hi hhi
  | timeout =>
    have hspec : ∀ hi ∈ s.requested,
        Follows kind ((s.resume rest now).timeout clockUnit) (requestTime kind hi) ∧
          Serves kind r ((s.resume rest now).timeout clockUnit) (requestTime kind hi) :=
      fun hi hhi => (hI.follows hi hhi).timeout hcalls hnow
    have hrequested : ((s.resume rest now).timeout clockUnit).requested = s.requested := by
      unfold State.timeout
      dsimp only
      split <;> rfl
    have hclock' : ((s.resume rest now).timeout clockUnit).clock = now := by
      unfold State.timeout
      dsimp only
      split <;> rfl
    refine ⟨⟨?_, ?_⟩, ?_⟩
    · rw [State.perform, hclock']
      exact hclock
    · intro hi hhi
      rw [State.perform, hrequested] at hhi
      exact (hspec hi hhi).1
    · rw [State.perform, hrequested]
      exact iff_of_true (fun hi hhi => (hspec hi hhi).2) trivial
  | notifyOfExternalEvent =>
    have hspec : ∀ hi ∈ s.requested, _ := fun hi hhi =>
      (hI.follows hi hhi).notifyOfExternalEvent (r := r) hcalls hnow
    refine ⟨⟨hclock, fun hi hhi => (hspec hi hhi).1⟩, ?_⟩
    exact iff_of_true (fun hi hhi => (hspec hi hhi).2) trivial

/-- A new request. -/
theorem invariant_setThresholds (hclock : 0 ≤ s.clock) :
  Invariant kind (s.setThresholds hi)
  := by
  refine ⟨hclock, ?_⟩
  rintro _ ⟨⟩
  exact asks_requestTime kind hi

/-- A call of `timeout` begins. -/
theorem Invariant.wakeUp (hI : Invariant kind s) (hcalls : s.calls = []) (timer : Option Int)
    (undelivered : Nat) :
  Invariant kind { s with
    timer := timer, undelivered := undelivered, calls := [.timeout], returned := false }
  := by
  refine ⟨hI.clock, fun hi hhi => ?_⟩
  have h := hI.follows hi hhi
  unfold Follows at h
  rw [hcalls] at h
  exact h

/-- Every step keeps the invariant, and the wakeup exactly if it is heeded. -/
theorem Invariant.step (hI : Invariant kind s) (h : step kind clockUnit s e = some s') :
  Invariant kind s' ∧ (KeepsWakeUp kind r s' ↔ Heeds kind r s e)
  := by
  have hbegins : ∀ {s'' : State}, s''.returned = false →
      (KeepsWakeUp kind r s'' ↔ True) := by
    intro s'' hreturned
    refine iff_of_true ?_ trivial
    intro hreturned'
    rw [hreturned] at hreturned'
    contradiction
  cases e with
  | setThresholds hi =>
    obtain ⟨-, heq⟩ := Option.ite_none_right_eq_some.mp h
    cases heq
    exact ⟨invariant_setThresholds hI.clock, hbegins rfl⟩
  | expire =>
    obtain ⟨⟨hcalls, -⟩, heq⟩ := Option.ite_none_right_eq_some.mp h
    cases heq
    exact ⟨hI.wakeUp hcalls _ _, hbegins rfl⟩
  | overtake hi =>
    obtain ⟨-, heq⟩ := Option.ite_none_right_eq_some.mp h
    cases heq
    exact ⟨invariant_setThresholds hI.clock, hbegins rfl⟩
  | deliver =>
    obtain ⟨⟨hcalls, -⟩, heq⟩ := Option.ite_none_right_eq_some.mp h
    cases heq
    exact ⟨hI.wakeUp hcalls _ _, hbegins rfl⟩
  | proceed now =>
    obtain ⟨hnow, heq⟩ := Option.ite_none_left_eq_some.mp h
    split at heq
    · contradiction
    · rename_i call rest hcalls
      cases heq
      exact hI.proceed hcalls (not_lt.mp hnow)

theorem Invariant.heeded_iff (hI : Invariant kind s) :
  Heeded kind clockUnit r s e ↔
    ∀ s', Timebase.step kind clockUnit s e = some s' → KeepsWakeUp kind r s'
  := by
  constructor
  · intro h s' hstep
    apply (hI.step hstep).2.mpr
    apply h
    rw [hstep]
    rfl
  · intro h hsome
    obtain ⟨s', hstep⟩ := Option.isSome_iff_exists.mp hsome
    exact (hI.step hstep).2.mp (h s' hstep)

/-! ### The result -/

/-- A run keeps every wakeup exactly if no call of `setTimer` disarms the timer. -/
theorem keepsWakeUps_iff (kind : Kind) (clockUnit : TimeUnit) (r : Reading) (clock : Nat)
    (es : List Event) :
  StateMachine.Always (step kind clockUnit) (KeepsWakeUp kind r) es (initial clock) ↔
    StateMachine.Meets (step kind clockUnit) (Heeded kind clockUnit r) es (initial clock)
  := by
  apply StateMachine.always_iff_meets (I := Invariant kind)
  · intro s e s' hI hstep
    exact (hI.step (r := r) hstep).1
  · intro s e hI _
    exact hI.heeded_iff
  · refine ⟨Int.natCast_nonneg clock, ?_⟩
    rintro _ ⟨⟩
  · intro hreturned
    contradiction

/-- The request for a wakeup at the very time which the clock reads is lost, in the weakest reading
of the requirement. -/
theorem not_keepsWakeUps :
  ¬ ∀ (kind : Kind) (clockUnit : TimeUnit) (clock : Nat) (es : List Event),
      StateMachine.Always (step kind clockUnit) (KeepsWakeUp kind ⟨false, false⟩) es
        (initial clock)
  := by
  intro h
  have hall := h .itimer .nsec 0 [.setThresholds 1, .proceed 1000000000]
  have hrun : (StateMachine.run (step .itimer .nsec) [.setThresholds 1, .proceed 1000000000]
      (initial 0)).map (fun s => (s.returned, s.calls, s.requested, s.notified, s.timer)) =
        some (true, [], some 1, none, none) := by
    decide +kernel
  obtain ⟨s, hs, heq⟩ := Option.map_eq_some_iff.mp hrun
  simp only [Prod.mk.injEq] at heq
  obtain ⟨hreturned, hcalls, hrequested, hnotified, htimer⟩ := heq
  rcases hall.of_run hs hreturned (.inr hcalls) 1 hrequested with ⟨_, hclock, -⟩ | htimer'
  · rw [State.lastNotified, if_neg (by decide), hnotified] at hclock
    contradiction
  · rw [htimer] at htimer'
    contradiction

end Timebase

end Plexil
