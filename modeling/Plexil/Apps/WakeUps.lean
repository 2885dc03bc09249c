import Plexil.Apps.Simulator
import Mathlib.Data.List.TakeWhile
import Mathlib.Data.Int.ConditionallyCompleteOrder

/-!
# Wakeups of the simulator

The simulator serves its script when the responses are sent in the order of their times, those for
one time in the order in which they were scheduled, and when it never rests with a response in the
agenda without a timer for it.  It rests in vain when the next response is for a whole second, as
the test for a time which is not zero needs both parts of it, and when the clock reads exactly the
time for which the timer is set, as an interval of zero disarms the timer.  Responses for one time
are sent in the reverse order.
-/

namespace Plexil

namespace Simulator

variable {s s' : State} {entry : AgendaEntry} {agenda sent scheduled : List AgendaEntry}

/-! ### Service -/

/-- What the simulator is for, as far as it has come. -/
structure Serves (s : State) : Prop where
  order : PriorityQueue.InOrder AgendaEntry.time (s.sent ++ s.agenda) s.scheduled
  armed : s.started = true → s.call = .idle →
    ∀ e ∈ s.agenda.head?, ∃ time ∈ s.timing.timer, time ≤ e.time
  due : s.call = .idle → ∀ time ∈ s.wokenAt, ∀ e ∈ s.agenda, time < e.time

/-- No response has been sent which is later, and none is pending for the same time. -/
def InTurn (s : State) (entry : AgendaEntry) : Prop :=
  (∀ e ∈ s.sent, e.time ≤ entry.time) ∧ ∀ e ∈ s.agenda, e.time = entry.time → e = entry

/-- The next response after `now` is not for a whole second, unless a timer is set for it. -/
def NoticesNext (s : State) (now : Int) : Prop :=
  ∀ e ∈ s.agenda.find? fun e => now < e.time,
    (tvSec e.time ≠ 0 ∧ tvUsec e.time ≠ 0) ∨ ∃ time ∈ s.timing.timer, time ≤ e.time

/-- What has to be heeded about the events. -/
def Heeds (s : State) : Event → Prop
  | .telemetry delay name value => InTurn s (telemetryEntry delay name value)
  | .start now => ∀ e ∈ s.agenda.head?, e.time + now ≠ 0
  | .command command uniqueId _ now =>
    ∀ entry ∈ (s.constructNextResponse command uniqueId now).bind Prod.fst, InTurn s entry
  | .wakeUp _ => True
  | .proceed now =>
    match s.call with
    | .setTimer time => time ≠ now
    | .handleWakeUp => NoticesNext s now
    | _ => True

/-- Every event which happens is heeded. -/
def Heeded (s : State) (e : Event) : Prop := (step s e).isSome = true → Heeds s e

/-! ### The agenda -/

theorem scheduleResponse_eq (entry : AgendaEntry) (agenda : List AgendaEntry) :
  scheduleResponse entry agenda =
    (agenda.takeWhile fun e => e.time < entry.time) ++
      entry :: agenda.dropWhile fun e => e.time < entry.time
  := by
  induction agenda with
  | nil => rfl
  | cons e rest ih =>
    unfold scheduleResponse
    by_cases he : e.time < entry.time
    · rw [if_pos he, ih]
      simp [he]
    · rw [if_neg he]
      simp [he]

/-- An element can be put behind a list as well as in front of it when there is no other one. -/
theorem cons_eq_concat_iff {α : Type*} {a : α} {l : List α} :
  a :: l = l ++ [a] ↔ ∀ b ∈ l, b = a
  := by
  induction l with
  | nil => simp
  | cons b l ih =>
    rw [List.forall_mem_cons, List.cons_append, List.cons.injEq]
    constructor
    · rintro ⟨rfl, h⟩
      exact ⟨rfl, ih.mp h⟩
    · rintro ⟨rfl, h⟩
      exact ⟨rfl, ih.mpr h⟩

theorem le_of_mem_dropWhile {t : Int} (h : PriorityQueue.Ordered AgendaEntry.time agenda) :
  ∀ e ∈ agenda.dropWhile (fun e => e.time < t), t ≤ e.time
  := by
  induction agenda with
  | nil => simp
  | cons e rest ih =>
    obtain ⟨he, hrest⟩ := List.pairwise_cons.mp h
    rw [List.dropWhile_cons]
    split
    · exact ih hrest
    · rename_i hlate
      rw [decide_eq_true_eq, not_lt] at hlate
      rw [List.forall_mem_cons]
      exact ⟨hlate, fun e' he' => hlate.trans (he e' he')⟩

theorem lt_of_mem_dropWhile {t : Int} (h : PriorityQueue.Ordered AgendaEntry.time agenda) :
  ∀ e ∈ agenda.dropWhile (fun e => e.time ≤ t), t < e.time
  := by
  have hsame : (fun e : AgendaEntry => decide (e.time ≤ t)) = fun e => decide (e.time < t + 1) := by
    funext e
    rw [decide_eq_decide]
    omega
  rw [hsame]
  intro e he
  have := le_of_mem_dropWhile h e he
  omega

/-- A response is scheduled in its turn exactly when no later one has been sent and no other one
is pending for its time. -/
theorem inOrder_scheduleResponse_iff
    (h : PriorityQueue.InOrder AgendaEntry.time (sent ++ agenda) scheduled) :
  PriorityQueue.InOrder AgendaEntry.time (sent ++ scheduleResponse entry agenda)
    (scheduled ++ [entry]) ↔
      (∀ e ∈ sent, e.time ≤ entry.time) ∧ ∀ e ∈ agenda, e.time = entry.time → e = entry
  := by
  obtain ⟨hordered, hfilter⟩ := h
  obtain ⟨hsent, hagenda, hbetween⟩ := List.pairwise_append.mp hordered
  set front := agenda.takeWhile fun e => e.time < entry.time with hfront
  set back := agenda.dropWhile fun e => e.time < entry.time with hback
  have hsplit : agenda = front ++ back := List.takeWhile_append_dropWhile.symm
  have hlt : ∀ e ∈ front, e.time < entry.time := by
    intro e he
    simpa using List.mem_takeWhile_imp he
  have hle : ∀ e ∈ back, entry.time ≤ e.time := le_of_mem_dropWhile hagenda
  have hnone : front.filter (·.time = entry.time) = [] := by
    apply List.filter_eq_nil_iff.mpr
    intro e he heq
    have := hlt e he
    rw [decide_eq_true_eq] at heq
    omega
  rw [scheduleResponse_eq, ← hfront, ← hback]
  have hsame : (∀ e ∈ agenda, e.time = entry.time → e = entry) ↔
      ∀ e ∈ back.filter (·.time = entry.time), e = entry := by
    rw [hsplit]
    constructor
    · intro h e he
      obtain ⟨he, heq⟩ := List.mem_filter.mp he
      exact h e (List.mem_append_right _ he) (of_decide_eq_true heq)
    · intro h e he heq
      rcases List.mem_append.mp he with he | he
      · have := hlt e he
        omega
      · exact h e (List.mem_filter.mpr ⟨he, decide_eq_true heq⟩)
  rw [hsame, ← cons_eq_concat_iff]
  have hbefore := hfilter entry.time
  rw [hsplit, List.filter_append, List.filter_append, hnone, List.nil_append] at hbefore
  constructor
  · rintro ⟨hordered', hfilter'⟩
    obtain ⟨-, -, hbetween'⟩ := List.pairwise_append.mp hordered'
    refine ⟨fun e he => hbetween' e he entry (by simp), ?_⟩
    have hafter := hfilter' entry.time
    rw [List.filter_append, List.filter_append, hnone, List.nil_append, List.filter_append,
      ← hbefore, List.append_assoc, List.append_cancel_left_eq] at hafter
    simpa using hafter
  · rintro ⟨hle', hconcat⟩
    constructor
    · apply List.pairwise_append.mpr
      rw [hsplit] at hagenda hbetween
      obtain ⟨hfronts, hbacks, hbetweens⟩ := List.pairwise_append.mp hagenda
      refine ⟨hsent, List.pairwise_append.mpr ⟨hfronts, List.pairwise_cons.mpr ⟨hle, hbacks⟩, ?_⟩, ?_⟩
      · intro e he e' he'
        rcases List.mem_cons.mp he' with rfl | he'
        · exact (hlt e he).le
        · exact hbetweens e he e' he'
      · intro e he e' he'
        rcases List.mem_append.mp he' with hmem | hmem
        · exact hbetween e he e' (List.mem_append_left _ hmem)
        · rcases List.mem_cons.mp hmem with rfl | hmem
          · exact hle' e he
          · exact hbetween e he e' (List.mem_append_right _ hmem)
    · intro p
      by_cases hp : entry.time = p
      · subst hp
        rw [List.filter_append, List.filter_append, hnone, List.nil_append, List.filter_append,
          ← hbefore, List.append_assoc, List.append_cancel_left_eq]
        simpa using hconcat
      · have hsame := hfilter p
        rw [hsplit] at hsame
        simpa [hp] using hsame

/-! ### Calls in progress -/

/-- A time in a call is that of the next response, with nothing due before it, or it is past. -/
structure Approaching (s : State) (time : Int) : Prop where
  pending : s.agenda ≠ []
  next : time ≤ s.clock ∨
    ((∀ e ∈ s.agenda.head?, e.time = time) ∧ ∀ t ∈ s.wokenAt, ∀ e ∈ s.agenda, t < e.time)

structure Invariant (s : State) : Prop where
  ordered : PriorityQueue.Ordered AgendaEntry.time s.agenda
  clock : 0 ≤ s.clock
  scheduling : ∀ time, s.call = .scheduleNextResponse time → Approaching s time
  setting : ∀ time, s.call = .setTimer time → Approaching s time
  unstarted : s.started = false → s.sent = [] ∧ s.wokenAt = none ∧ s.timing.timer = none ∧ s.call = .idle

theorem ordered_scheduleResponse (h : PriorityQueue.Ordered AgendaEntry.time agenda)
    (entry : AgendaEntry) :
  PriorityQueue.Ordered AgendaEntry.time (scheduleResponse entry agenda)
  := by
  rw [scheduleResponse_eq]
  have hsplit := List.takeWhile_append_dropWhile (p := fun e => e.time < entry.time) (l := agenda)
  rw [← hsplit] at h
  obtain ⟨hfront, hback, hbetween⟩ := List.pairwise_append.mp h
  have hlt : ∀ e ∈ agenda.takeWhile (fun e => e.time < entry.time), e.time < entry.time := by
    intro e he
    simpa using List.mem_takeWhile_imp he
  rw [hsplit] at h
  apply List.pairwise_append.mpr
  refine ⟨hfront, List.pairwise_cons.mpr ⟨le_of_mem_dropWhile h, hback⟩, ?_⟩
  intro e he e' he'
  rcases List.mem_cons.mp he' with rfl | he'
  · exact (hlt e he).le
  · exact hbetween e he e' he'

theorem scheduleResponse_ne_nil (entry : AgendaEntry) (agenda : List AgendaEntry) :
  scheduleResponse entry agenda ≠ []
  := by
  rw [scheduleResponse_eq]
  simp

/-- The next response time tells the next response. -/
theorem time_of_nextResponseTime {time : Int} (h : nextResponseTime agenda = time) :
  ∀ e ∈ agenda.head?, e.time = time
  := by
  intro e he
  unfold nextResponseTime at h
  rw [Option.mem_def.mp he] at h
  exact h

theorem ne_nil_of_nextResponseTime (h : nextResponseTime agenda ≠ 0) :
  agenda ≠ []
  := by
  rintro rfl
  exact h rfl

theorem tvUsec_zero : tvUsec 0 = 0 := rfl

theorem tvSec_zero : tvSec 0 = 0 := rfl

/-- A time is zero when both of its parts are. -/
theorem eq_zero_iff_parts {t : Int} :
  t = 0 ↔ tvSec t = 0 ∧ tvUsec t = 0
  := by
  constructor
  · rintro rfl
    exact ⟨rfl, rfl⟩
  · rintro ⟨hsec, husec⟩
    have := Int.mul_tdiv_add_tmod t 1000000
    unfold tvSec at hsec
    unfold tvUsec at husec
    rw [hsec, husec] at this
    omega

/-- A time is in the past when one of its parts is negative. -/
theorem neg_iff_parts {t : Int} :
  (tvSec t < 0 ∨ tvUsec t < 0) ↔ t < 0
  := by
  unfold tvSec tvUsec
  constructor
  · intro h
    by_contra hnot
    rw [not_lt] at hnot
    have hsec := Int.tdiv_nonneg hnot (by decide : (0 : Int) ≤ 1000000)
    have husec := Int.tmod_nonneg 1000000 hnot
    omega
  · intro h
    by_contra hnot
    have := Int.mul_tdiv_add_tmod t 1000000
    omega

theorem step_telemetry {delay : Int} {name : String} {value : Intfc.Value}
    (h : step s (.telemetry delay name value) = some s') :
  s.started = false ∧ s' = s.schedule (telemetryEntry delay name value)
  := by
  unfold step at h
  dsimp only at h
  split_ifs at h with hstarted
  cases h
  exact ⟨Bool.eq_false_iff.mpr hstarted, rfl⟩

theorem step_start {now : Int} (h : step s (.start now) = some s') :
  s.started = false ∧ s.clock ≤ now ∧ s' = { s with clock := now }.simulatorTopLevel now
  := by
  unfold step at h
  dsimp only at h
  split_ifs at h with hnot
  rw [not_or, not_lt] at hnot
  cases h
  exact ⟨Bool.eq_false_iff.mpr hnot.1, hnot.2, rfl⟩

theorem step_command {command : String} {uniqueId : Nat} {time now : Int}
    (h : step s (.command command uniqueId time now) = some s') :
  s.call = .idle ∧ s.started = true ∧ s.clock ≤ time ∧ time ≤ now ∧
    { s with clock := now }.scheduleResponseForCommand command uniqueId time now = some s'
  := by
  unfold step at h
  dsimp only at h
  split at h
  · rename_i hcall
    split_ifs at h with hnot
    rw [not_or, not_or, not_lt, not_lt] at hnot
    refine ⟨hcall, ?_, hnot.2.1, hnot.2.2, h⟩
    simpa using hnot.1
  · contradiction

theorem step_wakeUp {now : Int} (h : step s (.wakeUp now) = some s') :
  s.started = true ∧ s.clock ≤ now ∧
    ∃ timing, s' = { s with clock := now, timing := timing, call := .handleWakeUp }
  := by
  unfold step at h
  dsimp only at h
  split at h
  · split_ifs at h with hnot
    rw [not_or, not_lt] at hnot
    obtain ⟨timing, -, rfl⟩ := Option.map_eq_some_iff.mp h
    refine ⟨?_, hnot.2, timing, rfl⟩
    simpa using hnot.1
  · contradiction

theorem step_proceed {now : Int} (h : step s (.proceed now) = some s') :
  s.clock ≤ now ∧
    ((∃ time, s.call = .scheduleNextResponse time ∧
        s' = { s with clock := now }.scheduleNextResponse time now) ∨
      (∃ time, s.call = .setTimer time ∧ s' = { s with clock := now }.setTimer time now) ∨
      (s.call = .handleWakeUp ∧ s' = { s with clock := now }.handleWakeUp now))
  := by
  unfold step at h
  dsimp only at h
  split_ifs at h with hnot
  refine ⟨not_lt.mp hnot, ?_⟩
  cases hcall : s.call with
  | idle =>
    rw [hcall] at h
    contradiction
  | scheduleNextResponse time =>
    rw [hcall] at h
    cases h
    exact .inl ⟨time, rfl, rfl⟩
  | setTimer time =>
    rw [hcall] at h
    cases h
    exact .inr (.inl ⟨time, rfl, rfl⟩)
  | handleWakeUp =>
    rw [hcall] at h
    cases h
    exact .inr (.inr ⟨rfl, rfl⟩)

/-- A response is scheduled for a command, or the script has none for it. -/
theorem scheduleResponseForCommand_cases {command : String} {uniqueId : Nat} {time now : Int}
    (h : s.scheduleResponseForCommand command uniqueId time now = some s') :
  (∃ managers, s' = { s with managers := managers } ∧
      (s.constructNextResponse command uniqueId now).bind Prod.fst = none) ∨
    (∃ managers entry, s' = { s with
        managers := managers
        agenda := scheduleResponse entry s.agenda
        scheduled := s.scheduled ++ [entry]
        call := .scheduleNextResponse time } ∧
      (s.constructNextResponse command uniqueId now).bind Prod.fst = some entry)
  := by
  unfold State.scheduleResponseForCommand at h
  obtain ⟨⟨response, t⟩, hconstruct, hs'⟩ := Option.map_eq_some_iff.mp h
  have ht : ∃ managers, t = { s with managers := managers } := by
    unfold State.constructNextResponse at hconstruct
    cases hmanager : s.managers command with
    | none =>
      rw [hmanager] at hconstruct
      cases hconstruct
      exact ⟨s.managers, rfl⟩
    | some manager =>
      rw [hmanager] at hconstruct
      obtain ⟨_, -, heq⟩ := Option.map_eq_some_iff.mp hconstruct
      cases heq
      exact ⟨_, rfl⟩
  obtain ⟨managers, rfl⟩ := ht
  rw [hconstruct]
  cases response with
  | none => exact .inl ⟨managers, hs'.symm, rfl⟩
  | some entry => exact .inr ⟨managers, entry, hs'.symm, rfl⟩

/-! ### The invariant -/

theorem Invariant.telemetry (h : Invariant s) (entry : AgendaEntry) (hstarted : s.started = false) :
  Invariant (s.schedule entry)
  := by
  obtain ⟨hsent, hwoken, htimer, hcall⟩ := h.unstarted hstarted
  constructor
  · exact ordered_scheduleResponse h.ordered entry
  · exact h.clock
  · intro time htime
    rw [State.schedule, hcall] at htime
    contradiction
  · intro time htime
    rw [State.schedule, hcall] at htime
    contradiction
  · intro _
    exact ⟨hsent, hwoken, htimer, hcall⟩

theorem Invariant.start {now : Int} (h : Invariant s) (hstarted : s.started = false)
    (hclock : s.clock ≤ now) :
  Invariant ({ s with clock := now }.simulatorTopLevel now)
  := by
  obtain ⟨-, hwoken, -⟩ := h.unstarted hstarted
  unfold State.simulatorTopLevel
  constructor
  · apply List.Pairwise.map _ _ h.ordered
    intro e e' hle
    exact Int.add_le_add_right hle now
  · exact h.clock.trans hclock
  · intro time htime
    dsimp only at htime
    split_ifs at htime with hfirst
    cases htime
    constructor
    · apply ne_nil_of_nextResponseTime
      intro hzero
      rw [hzero] at hfirst
      exact hfirst.elim (fun h => h rfl) (fun h => h rfl)
    · right
      refine ⟨time_of_nextResponseTime rfl, ?_⟩
      dsimp only
      rw [hwoken]
      intro t ht
      contradiction
  · intro time htime
    dsimp only at htime
    split_ifs at htime
  · intro h
    contradiction

theorem Approaching.later {time now : Int} (h : Approaching s time) (hclock : s.clock ≤ now)
    {timing : TimingService} {call : Call} :
  Approaching { s with clock := now, timing := timing, call := call } time
  := ⟨h.pending, h.next.imp_left hclock.trans'⟩

theorem Invariant.handleWakeUp {now : Int} (h : Invariant s) (hclock : s.clock ≤ now)
    (hstarted : s.started = true) :
  Invariant ({ s with clock := now }.handleWakeUp now)
  := by
  unfold State.handleWakeUp
  constructor
  · exact h.ordered.sublist (List.dropWhile_sublist _)
  · exact h.clock.trans hclock
  · intro time htime
    dsimp only at htime
    split_ifs at htime with hnext
    cases htime
    constructor
    · apply ne_nil_of_nextResponseTime
      intro hzero
      rw [hzero] at hnext
      exact hnext.1 rfl
    · right
      refine ⟨time_of_nextResponseTime rfl, ?_⟩
      rintro _ ⟨⟩
      exact lt_of_mem_dropWhile h.ordered
  · intro time htime
    dsimp only at htime
    split_ifs at htime
  · intro hnot
    rw [hstarted] at hnot
    contradiction

theorem Invariant.started (h : Invariant s) (hcall : s.call ≠ .idle) : s.started = true
  := by
  by_contra hnot
  exact hcall (h.unstarted (Bool.eq_false_iff.mpr hnot)).2.2.2

theorem Invariant.step {e : Event} (h : Invariant s) (hstep : step s e = some s') :
  Invariant s'
  := by
  cases e with
  | telemetry delay name value =>
    obtain ⟨hstarted, rfl⟩ := step_telemetry hstep
    exact h.telemetry _ hstarted
  | start now =>
    obtain ⟨hstarted, hclock, rfl⟩ := step_start hstep
    exact h.start hstarted hclock
  | command command uniqueId time now =>
    obtain ⟨hcall, hstarted, hclock, htime, hresponse⟩ := step_command hstep
    have hnow := h.clock.trans (hclock.trans htime)
    have hunstarted : ∀ P, s.started = false → P := by
      intro P hnot
      rw [hstarted] at hnot
      contradiction
    rcases scheduleResponseForCommand_cases hresponse with ⟨managers, rfl, -⟩ |
      ⟨managers, entry, rfl, -⟩
    · constructor
      · exact h.ordered
      · exact hnow
      · intro time htime
        rw [hcall] at htime
        contradiction
      · intro time htime
        rw [hcall] at htime
        contradiction
      · exact hunstarted _
    · constructor
      · exact ordered_scheduleResponse h.ordered entry
      · exact hnow
      · rintro _ ⟨⟩
        exact ⟨scheduleResponse_ne_nil _ _, .inl htime⟩
      · intro time htime
        contradiction
      · exact hunstarted _
  | wakeUp now =>
    obtain ⟨hstarted, hclock, timing, rfl⟩ := step_wakeUp hstep
    constructor
    · exact h.ordered
    · exact h.clock.trans hclock
    · intro time htime
      contradiction
    · intro time htime
      contradiction
    · intro hnot
      rw [hstarted] at hnot
      contradiction
  | proceed now =>
    obtain ⟨hclock, ⟨time, hcall, rfl⟩ | ⟨time, hcall, rfl⟩ | ⟨hcall, rfl⟩⟩ := step_proceed hstep
    · have hstarted := h.started (by simp [hcall])
      constructor
      · exact h.ordered
      · exact h.clock.trans hclock
      · intro time htime
        unfold State.scheduleNextResponse at htime
        dsimp only at htime
        split_ifs at htime
      · intro time' htime
        unfold State.scheduleNextResponse at htime
        dsimp only at htime
        split_ifs at htime
        cases htime
        exact (h.scheduling time hcall).later hclock
      · intro hnot
        rw [State.scheduleNextResponse, hstarted] at hnot
        contradiction
    · have hstarted := h.started (by simp [hcall])
      constructor
      · exact h.ordered
      · exact h.clock.trans hclock
      · intro time htime
        unfold State.setTimer at htime
        dsimp only at htime
        split_ifs at htime
      · intro time' htime
        unfold State.setTimer at htime
        dsimp only at htime
        split_ifs at htime
      · intro hnot
        rw [State.setTimer, hstarted] at hnot
        contradiction
    · exact h.handleWakeUp hclock (h.started (by simp [hcall]))

/-! ### The timer -/

theorem getTimer_cases (service : TimingService) (now : Int) :
  ((service.expire now).timer = none ∧ service.getTimer now = 0) ∨
    ∃ time, (service.expire now).timer = some time ∧ now < time ∧ service.getTimer now = time
  := by
  obtain ⟨timer, signal⟩ := service
  unfold TimingService.getTimer TimingService.expire
  cases timer with
  | none => exact .inl ⟨rfl, rfl⟩
  | some time =>
    dsimp only
    split_ifs with h
    · exact .inl ⟨rfl, rfl⟩
    · exact .inr ⟨time, rfl, not_le.mp h, rfl⟩

theorem setTimer_past {service : TimingService} {time now : Int} (h : time < now) :
  service.setTimer time now = (service.expire now, false)
  := if_pos (neg_iff_parts.mpr (by omega))

/-- The timer is set for a later time, and disarmed for the time at which it is set. -/
theorem setTimer_future (service : TimingService) {time now : Int} (h : now ≤ time) :
  ∃ service', service.setTimer time now = (service', true) ∧
    service'.timer = if time = now then none else some time
  := by
  refine ⟨_, if_neg fun hneg => ?_, ?_⟩
  · have := neg_iff_parts.mp hneg
    omega
  · by_cases heq : time = now
    · rw [if_pos heq, if_pos (by omega)]
    · rw [if_neg heq, if_neg (by omega)]

/-! ### Steps -/

/-- During a call only the order matters. -/
theorem serves_iff_of_busy (h : s.call ≠ .idle) :
  Serves s ↔ PriorityQueue.InOrder AgendaEntry.time (s.sent ++ s.agenda) s.scheduled
  := ⟨Serves.order, fun horder => ⟨horder, fun _ hcall => absurd hcall h, fun hcall => absurd hcall h⟩⟩

theorem Serves.telemetry_iff (h : Serves s) (hI : Invariant s) (hstarted : s.started = false) :
  InTurn s entry ↔ Serves (s.schedule entry)
  := by
  obtain ⟨-, hwoken, -⟩ := hI.unstarted hstarted
  unfold InTurn
  rw [← inOrder_scheduleResponse_iff h.order]
  constructor
  · intro horder
    refine ⟨horder, fun hnot => ?_, fun _ t ht => ?_⟩
    · rw [State.schedule, hstarted] at hnot
      contradiction
    · rw [State.schedule, hwoken] at ht
      contradiction
  · intro h'
    exact h'.order

theorem Serves.start_iff {now : Int} (h : Serves s) (hI : Invariant s)
    (hstarted : s.started = false) :
  (∀ e ∈ s.agenda.head?, e.time + now ≠ 0) ↔
    Serves ({ s with clock := now }.simulatorTopLevel now)
  := by
  obtain ⟨hsent, hwoken, htimer, -⟩ := hI.unstarted hstarted
  have horder : PriorityQueue.InOrder AgendaEntry.time
      (s.sent ++ s.agenda.map (AgendaEntry.delayed now))
      (s.scheduled.map (AgendaEntry.delayed now)) := by
    have hordered := h.order
    rw [hsent, List.nil_append] at hordered ⊢
    exact hordered.map (g := fun t => t + now) (fun _ _ hlt => Int.add_lt_add_right hlt now)
      fun _ => rfl
  have hfirst : nextResponseTime (s.agenda.map (AgendaEntry.delayed now)) ≠ 0 ↔
      tvSec (nextResponseTime (s.agenda.map (AgendaEntry.delayed now))) ≠ 0 ∨
        tvUsec (nextResponseTime (s.agenda.map (AgendaEntry.delayed now))) ≠ 0 := by
    rw [Ne, eq_zero_iff_parts]
    tauto
  unfold State.simulatorTopLevel
  dsimp only
  cases hagenda : s.agenda with
  | nil =>
    rw [hagenda] at horder
    apply iff_of_true (fun _ h => nomatch h)
    refine ⟨horder, fun _ _ e he => ?_, fun _ t ht => ?_⟩
    · contradiction
    · dsimp only at ht
      rw [hwoken] at ht
      contradiction
  | cons e rest =>
    rw [hagenda] at horder hfirst
    have hnext : nextResponseTime ((e :: rest).map (AgendaEntry.delayed now)) = e.time + now := rfl
    rw [hnext] at hfirst ⊢
    constructor
    · intro hne
      rw [if_pos (hfirst.mp (hne e rfl))]
      exact (serves_iff_of_busy (by simp)).mpr horder
    · rintro hserves _ ⟨⟩ hzero
      obtain ⟨time, htime, -⟩ := hserves.armed rfl (if_neg fun h => hfirst.mpr h hzero) _ rfl
      rw [htimer] at htime
      contradiction

theorem Serves.command_iff {command : String} {uniqueId : Nat} {time now : Int} (h : Serves s)
    (hstep : { s with clock := now }.scheduleResponseForCommand command uniqueId time now
      = some s') :
  (∀ entry ∈ (s.constructNextResponse command uniqueId now).bind Prod.fst, InTurn s entry) ↔
    Serves s'
  := by
  have hconstruct : ({ s with clock := now }.constructNextResponse command uniqueId now).bind
      Prod.fst = (s.constructNextResponse command uniqueId now).bind Prod.fst := by
    unfold State.constructNextResponse
    dsimp only
    cases s.managers command with
    | none => rfl
    | some manager =>
      dsimp only
      cases manager.getResponses with
      | none => rfl
      | some _ => rfl
  rcases scheduleResponseForCommand_cases hstep with ⟨managers, rfl, hnone⟩ |
    ⟨managers, entry, rfl, hentry⟩
  · rw [hconstruct] at hnone
    rw [hnone]
    exact iff_of_true (fun _ h => nomatch h) ⟨h.order, h.armed, h.due⟩
  · rw [hconstruct] at hentry
    rw [hentry, serves_iff_of_busy (by simp)]
    dsimp only
    rw [inOrder_scheduleResponse_iff h.order]
    constructor
    · intro h'
      exact h' entry rfl
    · rintro h' _ ⟨⟩
      exact h'

/-- The timer is not set for a later time than that of the next response. -/
theorem Serves.scheduleNextResponse {time now : Int} (h : Serves s) (hI : Invariant s)
    (hcall : s.call = .scheduleNextResponse time) (hclock : s.clock ≤ now) :
  Serves ({ s with clock := now }.scheduleNextResponse time now)
  := by
  unfold State.scheduleNextResponse
  dsimp only
  have hnow := hI.clock.trans hclock
  rcases getTimer_cases s.timing now with ⟨-, hzero⟩ | ⟨t, htimer, hlater, ht⟩
  · rw [if_pos (.inl hzero)]
    exact (serves_iff_of_busy (by simp)).mpr h.order
  · rw [ht]
    split_ifs with hearlier
    · exact (serves_iff_of_busy (by simp)).mpr h.order
    · rw [not_or, not_lt] at hearlier
      rcases (hI.scheduling time hcall).next with hpast | ⟨hnext, hdue⟩
      · omega
      · refine ⟨h.order, fun _ _ e he => ⟨t, htimer, ?_⟩, fun _ => hdue⟩
        rw [hnext e he]
        exact hearlier.2

theorem Serves.setTimer_iff {time now : Int} (h : Serves s) (hI : Invariant s)
    (hcall : s.call = .setTimer time) (hclock : s.clock ≤ now) :
  time ≠ now ↔ Serves ({ s with clock := now }.setTimer time now)
  := by
  unfold State.setTimer
  dsimp only
  obtain ⟨hpending, hnext⟩ := hI.setting time hcall
  rcases lt_or_ge time now with hpast | hfuture
  · rw [setTimer_past hpast]
    apply iff_of_true (by omega)
    exact (serves_iff_of_busy (by simp)).mpr h.order
  · obtain ⟨service, hset, htimer⟩ := setTimer_future s.timing hfuture
    rw [hset]
    constructor
    · intro hne
      rw [if_neg hne] at htimer
      obtain ⟨hnext, hdue⟩ := hnext.resolve_left (by omega)
      refine ⟨h.order, fun _ _ e he => ⟨time, htimer, (hnext e he).ge⟩, fun _ => hdue⟩
    · rintro hserves rfl
      rw [if_pos rfl] at htimer
      obtain ⟨e, rest, hagenda⟩ := List.exists_cons_of_ne_nil hpending
      have hhead : s.agenda.head? = some e := by
        rw [hagenda]
        rfl
      obtain ⟨t, ht, -⟩ := hserves.armed (hI.started (by simp [hcall])) rfl e hhead
      dsimp only at ht
      rw [htimer] at ht
      contradiction

theorem Serves.handleWakeUp_iff {now : Int} (h : Serves s) (hI : Invariant s)
    (hcall : s.call = .handleWakeUp) :
  NoticesNext s now ↔ Serves ({ s with clock := now }.handleWakeUp now)
  := by
  have horder : PriorityQueue.InOrder AgendaEntry.time
      ((s.sent ++ s.agenda.takeWhile fun e => e.time ≤ now) ++
        s.agenda.dropWhile fun e => e.time ≤ now) s.scheduled := by
    rw [List.append_assoc, List.takeWhile_append_dropWhile]
    exact h.order
  have hfind : (s.agenda.find? fun e => now < e.time) =
      (s.agenda.dropWhile fun e => e.time ≤ now).head? := by
    rw [List.find?_eq_head?_dropWhile_not]
    congr 2
    funext e
    rw [← decide_not, decide_eq_decide]
    omega
  unfold NoticesNext State.handleWakeUp
  rw [hfind]
  dsimp only
  have hdue := lt_of_mem_dropWhile hI.ordered (t := now)
  set rest := s.agenda.dropWhile fun e => e.time ≤ now
  by_cases hnext : tvSec (nextResponseTime rest) ≠ 0 ∧ tvUsec (nextResponseTime rest) ≠ 0
  · rw [if_pos hnext]
    apply iff_of_true
    · intro e he
      left
      rw [time_of_nextResponseTime rfl e he]
      exact hnext
    · exact (serves_iff_of_busy (by simp)).mpr horder
  · rw [if_neg hnext]
    constructor
    · intro hnotices
      refine ⟨horder, fun _ _ e he => ?_, ?_⟩
      · apply (hnotices e he).resolve_left
        rw [time_of_nextResponseTime rfl e he]
        exact hnext
      · rintro _ _ ⟨⟩
        exact hdue
    · intro hserves e he
      exact .inr (hserves.armed (hI.started (by simp [hcall])) rfl e he)

/-! ### The end of a call -/

/-- More than the number of readings of the clock until a call returns.  A call for the next
response handles it, or sets the timer for it. -/
def State.callsLeft (s : State) : Nat :=
  match s.call with
  | .idle => 0
  | .handleWakeUp =>
    3 * s.agenda.length + if s.agenda.head?.any fun e => e.time ≤ s.clock then 1 else 4
  | .setTimer time =>
    3 * s.agenda.length + if s.agenda.head?.any fun e => e.time = time then 2 else 5
  | .scheduleNextResponse time =>
    3 * s.agenda.length + if s.agenda.head?.any fun e => e.time = time then 3 else 6

theorem callsLeft_scheduleNextResponse {time now : Int} (hcall : s.call = .scheduleNextResponse time) :
  ({ s with clock := now }.scheduleNextResponse time now).callsLeft < s.callsLeft
  := by
  unfold State.scheduleNextResponse State.callsLeft
  rw [hcall]
  dsimp only
  split
  · split_ifs <;> omega
  · rename_i hset
    split_ifs at hset
  · rename_i hset
    split_ifs at hset
    cases hset
    split_ifs <;> omega
  · rename_i hset
    split_ifs at hset

theorem callsLeft_setTimer {time now : Int} (hcall : s.call = .setTimer time) :
  ({ s with clock := now }.setTimer time now).callsLeft < s.callsLeft
  := by
  unfold State.setTimer
  dsimp only
  rcases lt_or_ge time now with hpast | hfuture
  · rw [setTimer_past hpast]
    unfold State.callsLeft
    rw [hcall]
    dsimp only
    have hdue : s.agenda.head?.any (fun e => e.time = time) = true →
        s.agenda.head?.any (fun e => e.time ≤ now) = true := by
      cases s.agenda.head? with
      | none => exact id
      | some e => simp only [Option.any_some, decide_eq_true_eq]; omega
    rw [if_neg Bool.false_ne_true]
    dsimp only
    split_ifs with hnow hnext hnext
    · omega
    · omega
    · exact absurd (hdue hnext) hnow
    · omega
  · obtain ⟨service, hset, -⟩ := setTimer_future s.timing hfuture
    rw [hset]
    unfold State.callsLeft
    rw [hcall]
    dsimp only
    rw [if_pos rfl]
    dsimp only
    split_ifs <;> omega

theorem callsLeft_handleWakeUp {now : Int} (hcall : s.call = .handleWakeUp) (hclock : s.clock ≤ now) :
  ({ s with clock := now }.handleWakeUp now).callsLeft < s.callsLeft
  := by
  unfold State.handleWakeUp State.callsLeft
  rw [hcall]
  dsimp only
  have hlength := (List.dropWhile_sublist (l := s.agenda) fun e => e.time ≤ now).length_le
  -- A response which was due when the call was made is sent.
  have hsent : s.agenda.head?.any (fun e => e.time ≤ s.clock) = true →
      (s.agenda.dropWhile fun e => e.time ≤ now).length < s.agenda.length := by
    cases s.agenda with
    | nil => simp
    | cons e rest =>
      intro hdue
      have he : e.time ≤ now := by
        simp only [List.head?_cons, Option.any_some, decide_eq_true_eq] at hdue
        omega
      rw [List.dropWhile_cons, if_pos (decide_eq_true he)]
      exact Nat.lt_succ_of_le (List.dropWhile_sublist _).length_le
  split
  · split_ifs <;> omega
  · rename_i h
    split_ifs at h
  · rename_i h
    split_ifs at h
  · rename_i time hnext
    split_ifs at hnext with hparts
    cases hnext
    have hne : (s.agenda.dropWhile fun e => e.time ≤ now) ≠ [] := by
      apply ne_nil_of_nextResponseTime
      intro hzero
      rw [hzero] at hparts
      exact hparts.1 rfl
    obtain ⟨e, rest, hrest⟩ := List.exists_cons_of_ne_nil hne
    have hhead : (s.agenda.dropWhile fun e => e.time ≤ now).head?.any
        (fun e => e.time = nextResponseTime (s.agenda.dropWhile fun e => e.time ≤ now)) = true := by
      rw [hrest]
      simp [nextResponseTime]
    rw [if_pos hhead]
    split_ifs with hdue
    · have := hsent hdue
      omega
    · omega

theorem step_proceed_isSome {now : Int} (hcall : s.call ≠ .idle) (hclock : s.clock ≤ now) :
  ∃ s', step s (.proceed now) = some s'
  := by
  unfold step
  dsimp only
  rw [if_neg (not_lt.mpr hclock)]
  cases hs : s.call with
  | idle => contradiction
  | scheduleNextResponse time => exact ⟨_, rfl⟩
  | setTimer time => exact ⟨_, rfl⟩
  | handleWakeUp => exact ⟨_, rfl⟩

theorem clock_proceed {now : Int} (h : step s (.proceed now) = some s') :
  s'.clock = now
  := by
  obtain ⟨-, ⟨time, -, rfl⟩ | ⟨time, -, rfl⟩ | ⟨-, rfl⟩⟩ := step_proceed h
  · rfl
  · rfl
  · rfl

theorem callsLeft_proceed {now : Int} (h : step s (.proceed now) = some s') :
  s'.callsLeft < s.callsLeft
  := by
  obtain ⟨hclock, ⟨time, hcall, rfl⟩ | ⟨time, hcall, rfl⟩ | ⟨hcall, rfl⟩⟩ := step_proceed h
  · exact callsLeft_scheduleNextResponse hcall
  · exact callsLeft_setTimer hcall
  · exact callsLeft_handleWakeUp hcall hclock

/-- Every call returns, whatever the clock reads. -/
theorem call_returns (s : State) (times : Nat → Int) (hmono : Monotone times)
    (hclock : s.clock ≤ times 0) :
  ∃ n s', StateMachine.run step ((List.range n).map fun i => .proceed (times i)) s = some s' ∧
    s'.call = .idle
  := by
  induction hn : s.callsLeft using Nat.strong_induction_on generalizing s times with
  | _ n ih =>
    by_cases hcall : s.call = .idle
    · exact ⟨0, s, rfl, hcall⟩
    · obtain ⟨t, ht⟩ := step_proceed_isSome hcall hclock
      obtain ⟨m, s', hrun, hidle⟩ := ih t.callsLeft (hn ▸ callsLeft_proceed ht) t
        (fun i => times (i + 1)) (fun i j hij => hmono (Nat.succ_le_succ hij))
        (by rw [clock_proceed ht]; exact hmono (Nat.zero_le 1)) rfl
      refine ⟨m + 1, s', ?_, hidle⟩
      rw [List.range_succ_eq_map, List.map_cons, List.map_map, StateMachine.run, ht]
      exact hrun

/-! ### Runs -/

/-- The simulator goes on to serve exactly when the event is heeded. -/
theorem Serves.step_iff {e : Event} (h : Serves s) (hI : Invariant s) :
  Heeded s e ↔ ∀ s', step s e = some s' → Serves s'
  := by
  unfold Heeded
  rw [Option.isSome_iff_exists, forall_exists_index]
  apply forall₂_congr
  intro s' hstep
  cases e with
  | telemetry delay name value =>
    obtain ⟨hstarted, rfl⟩ := step_telemetry hstep
    exact h.telemetry_iff hI hstarted
  | start now =>
    obtain ⟨hstarted, -, rfl⟩ := step_start hstep
    exact h.start_iff hI hstarted
  | command command uniqueId time now =>
    obtain ⟨hcall, -, -, -, hresponse⟩ := step_command hstep
    exact h.command_iff hresponse
  | wakeUp now =>
    obtain ⟨-, -, timing, rfl⟩ := step_wakeUp hstep
    exact iff_of_true trivial ((serves_iff_of_busy (by simp)).mpr h.order)
  | proceed now =>
    obtain ⟨hclock, ⟨time, hcall, rfl⟩ | ⟨time, hcall, rfl⟩ | ⟨hcall, rfl⟩⟩ := step_proceed hstep
    · unfold Heeds
      rw [hcall]
      exact iff_of_true trivial (h.scheduleNextResponse hI hcall hclock)
    · unfold Heeds
      rw [hcall]
      exact h.setTimer_iff hI hcall hclock
    · unfold Heeds
      rw [hcall]
      exact h.handleWakeUp_iff hI hcall

theorem invariant_initial (managers : String → Option CommandResponseManager) :
  Invariant (initial managers)
  := by
  constructor
  · exact List.Pairwise.nil
  · exact le_refl 0
  · intro time htime
    contradiction
  · intro time htime
    contradiction
  · intro _
    exact ⟨rfl, rfl, rfl, rfl⟩

theorem serves_initial (managers : String → Option CommandResponseManager) :
  Serves (initial managers)
  := by
  refine ⟨⟨List.Pairwise.nil, fun _ => rfl⟩, fun h => ?_, fun _ t ht => ?_⟩
  · contradiction
  · contradiction

/-- Throughout a run the responses are sent in their order, and whenever the simulator rests with
a response in the agenda the timer is set for it or an earlier time, exactly when all events are
heeded. -/
theorem serves_iff (managers : String → Option CommandResponseManager) (es : List Event) :
  StateMachine.Always step Serves es (initial managers) ↔
    StateMachine.Meets step Heeded es (initial managers)
  := by
  apply StateMachine.always_iff_meets (I := Invariant)
  · intro s e s' hI hstep
    exact hI.step hstep
  · intro s e hI h
    exact h.step_iff hI
  · exact invariant_initial managers
  · exact serves_initial managers

/-- A response for a whole second is never sent: the wakeup before it does not set the timer. -/
theorem not_serves :
  ¬ ∀ (managers : String → Option CommandResponseManager) (es : List Event),
      StateMachine.Always step Serves es (initial managers)
  := by
  intro h
  have hall := h (fun _ => none)
    [.telemetry 500000 "x" (.boolean true), .telemetry 1000000 "y" (.boolean true),
      .start 1000000, .proceed 1000001, .proceed 1000002, .wakeUp 1500000, .proceed 1500001]
  obtain ⟨time, htime, -⟩ := (hall.of_run rfl).armed rfl rfl _ rfl
  contradiction

end Simulator

end Plexil
