import NusaKernel.Kernel.Status
import NusaKernel.Lib.Transition
import Mathlib.Algebra.BigOperators.Group.List.Basic
import Mathlib.Data.List.Nodup

/-!
# Timers

`kernel/timer.c` on one processor. `timer_tick` is a small-step machine in the manner of its
loop: the interrupt comes, a due timer is taken off the queue and its callback is called, the
callback sets and cancels timers as it likes, it returns and a periodic timer is put back, and
the loop ends. Time may pass at any point, so that it is later in a callback than when the tick
began.

The clock of the model does not wrap, and `current_time` is its low 32 bits. Along with the
timers the state records when each was meant to run and what the tick has done so far. Insertion
keeps the queue ordered as long as its times lie in a window of half the range of the counter
(`QueueInv.insert`).
-/

namespace NusaKernel

open List Function Option

/-- `timer_t`. The argument of the callback is part of `Fn`. -/
structure Timer (Fn : Type*) where
  scheduledTime : Time
  periodicTime : Time
  callback : Option Fn

namespace Timer

/-- `insert_timer_in_queue`: before the first entry that is scheduled later. -/
def insertTimerInQueue {Id : Type*} (scheduledTime : Id → Time) (timer : Id) : List Id → List Id
  | [] => [timer]
  | entry :: rest =>
    if timeGt (scheduledTime entry) (scheduledTime timer) then timer :: entry :: rest
    else entry :: insertTimerInQueue scheduledTime timer rest

/-- Where the processor is: not in a tick, in the loop of a tick that came at `now`, or in the
callback of a timer that the tick took off the queue. -/
inductive Control (Id Fn : Type*) where
  | idle
  | tick (now : ℕ)
  | callback (now : ℕ) (timer : Id) (periodic : Bool) (fn : Fn)
  deriving DecidableEq

/-- When the tick in progress came. -/
def Control.now? {Id Fn : Type*} : Control Id Fn → Option ℕ
  | .idle => none
  | .tick now => some now
  | .callback now _ _ _ => some now

/-- The history of the timers: when each is due by its last arming, whether that was for one run,
and how often it ran since; and the history of the tick in progress: the timers that were due
when it came, those it ran with the times they were due at, those cancelled since it came, and
whether the callback has set or cancelled its own timer. -/
structure History (Id : Type*) where
  due : Id → ℕ
  oneshot : Id → Bool
  firings : Id → ℕ
  reached : List Id
  ran : List (Id × ℕ)
  cancelled : List Id
  touched : Bool

/-- The timers, the queue of the processor, the clock, and the clock time for which the platform
timer is programmed. -/
structure State (Id Fn : Type*) where
  timer : Id → Timer Fn
  queue : List Id
  clock : ℕ
  alarm : Option ℕ
  control : Control Id Fn
  history : History Id

/-- What happens next. -/
inductive Action (Id Fn : Type*) where
  | advance (ms : ℕ)
  | setOneshot (timer : Id) (delay : Time) (fn : Fn)
  | setPeriodic (timer : Id) (period : Time) (fn : Fn)
  | cancel (timer : Id)
  | tickBegin
  | tickCall
  | tickReturn
  | tickEnd

variable {Id Fn : Type*}

/-- Every timer is initialized and none is set. -/
def initial (clock : ℕ) : State Id Fn where
  timer _ := ⟨0, 0, none⟩
  queue := []
  clock := clock
  alarm := none
  control := .idle
  history := ⟨fun _ => 0, fun _ => false, fun _ => 0, [], [], [], false⟩

variable [DecidableEq Id]

variable (s : State Id Fn)

/-- `timer_set`. Setting a timer that is in the queue is a panic. -/
def timerSet (timer : Id) (delay period : Time) (fn : Fn) :
    Option (State Id Fn) :=
  if timer ∈ s.queue then none
  else
    let timers := update s.timer timer ⟨timeAt s.clock + delay, period, some fn⟩
    let queue := insertTimerInQueue (fun i => (timers i).scheduledTime) timer s.queue
    some { s with
      timer := timers, queue,
      -- a new head of the queue reprograms the platform timer
      alarm := if queue.head? = some timer then some (s.clock + delay.toNat) else s.alarm }

/-- The delay with which `timer_set_oneshot` sets a timer, and the period with which
`timer_set_periodic` does: at least one tick. -/
def atLeastOne (delay : Time) : Time := if delay = 0 then 1 else delay

/-- `timer_set_oneshot`. -/
def timerSetOneshot (timer : Id) (delay : Time) (fn : Fn) :
    Option (State Id Fn) :=
  timerSet s timer (atLeastOne delay) 0 fn

/-- `timer_set_periodic`. -/
def timerSetPeriodic (timer : Id) (period : Time) (fn : Fn) :
    Option (State Id Fn) :=
  timerSet s timer (atLeastOne period) (atLeastOne period) fn

/-- `timer_cancel`. -/
def timerCancel (timer : Id) : State Id Fn :=
  let queue := s.queue.erase timer
  { s with
    queue,
    -- keeps a periodic timer from being put back after its callback
    timer := update s.timer timer
      { s.timer timer with periodicTime := 0, callback := none },
    alarm :=
      match queue.head? with
      | none => none
      | some newhead =>
        if s.queue.head? ≠ some newhead then
          let scheduled := (s.timer newhead).scheduledTime
          let delay := if timeLt scheduled (timeAt s.clock) then 0
            else scheduled - timeAt s.clock
          some (s.clock + delay.toNat)
        else s.alarm }

/-- The part of the loop of `timer_tick` up to the call of the callback. There is none when the
queue is empty or its head is not due, and a timer without a callback is a fault. -/
def tickCall (now : ℕ) : Option (State Id Fn) :=
  match s.queue with
  | [] => none
  | timer :: rest =>
    if timeLt (timeAt now) (s.timer timer).scheduledTime then none
    else
      match (s.timer timer).callback with
      | none => none
      | some fn => some { s with
          queue := rest
          control := .callback now timer (0 < (s.timer timer).periodicTime) fn }

/-- The time for which a periodic timer is put back. -/
def rescheduled (timer : Timer Fn) (now : ℕ) : Time :=
  let scheduled := timer.scheduledTime + timer.periodicTime
  if timeLt scheduled (timeAt now) then timeAt now + timer.periodicTime else scheduled

/-- The test of `timer_tick` after the callback has returned. -/
def putsBack (timer : Id) (periodic : Bool) : Bool :=
  periodic && !decide (timer ∈ s.queue) && decide (0 < (s.timer timer).periodicTime)

/-- The part of the loop of `timer_tick` after the callback has returned: put a periodic timer
back that the callback has neither set nor cancelled. -/
def tickReturn (now : ℕ) (timer : Id) (periodic : Bool) : State Id Fn :=
  if putsBack s timer periodic then
    let timers := update s.timer timer
      { s.timer timer with scheduledTime := rescheduled (s.timer timer) now }
    { s with
      timer := timers
      queue := insertTimerInQueue (fun i => (timers i).scheduledTime) timer s.queue
      control := .tick now }
  else { s with control := .tick now }

/-- The end of `timer_tick`: nothing is due, and the platform timer is programmed for the head of
the queue. -/
def tickEnd (now : ℕ) : Option (State Id Fn) :=
  match s.queue with
  | [] => some { s with control := .idle }
  | timer :: _ =>
    if timeLt (timeAt now) (s.timer timer).scheduledTime then
      some { s with
        control := .idle
        alarm := some (s.clock + ((s.timer timer).scheduledTime - timeAt now).toNat) }
    else none

/-- The time a periodic timer is next due: one period later, or one period from now if that has
passed. -/
def nextDue (due period now : ℕ) : ℕ := if due + period < now then now + period else due + period

/-- The callback that is running is this timer's. -/
def Control.runs (control : Control Id Fn) (timer : Id) : Bool :=
  match control with
  | .callback _ running _ _ => running = timer
  | .idle | .tick _ => false

/-- Record that a timer was set. -/
def History.set (h : History Id) (control : Control Id Fn) (timer : Id) (due : ℕ)
    (oneshot : Bool) : History Id :=
  { h with
    due := update h.due timer due
    oneshot := update h.oneshot timer oneshot
    firings := update h.firings timer 0
    touched := h.touched || control.runs timer }

/-- Record that a tick took a timer off the queue to run it. -/
def History.run (h : History Id) (timer : Id) : History Id :=
  { h with
    firings := update h.firings timer (h.firings timer + 1)
    ran := h.ran ++ [(timer, h.due timer)]
    touched := false }

/-- Record that a tick put a periodic timer back. -/
def History.putBack (h : History Id) (timer : Id) (period now : ℕ) : History Id :=
  { h with due := update h.due timer (nextDue (h.due timer) period now) }

/-- Timers are set and cancelled by threads and by callbacks, never from inside the loop. -/
def Control.isTick : Control Id Fn → Bool
  | .tick _ => true
  | .idle | .callback _ _ _ _ => false

/-- One step. -/
def step : Action Id Fn → Option (State Id Fn)
  | .advance ms => some { s with clock := s.clock + ms }
  | .setOneshot timer delay fn =>
    if s.control.isTick then none
    else (timerSetOneshot s timer delay fn).map fun s' => { s' with
      history := s.history.set s.control timer (s.clock + (atLeastOne delay).toNat) true }
  | .setPeriodic timer period fn =>
    if s.control.isTick then none
    else (timerSetPeriodic s timer period fn).map fun s' => { s' with
      history := s.history.set s.control timer (s.clock + (atLeastOne period).toNat) false }
  | .cancel timer =>
    if s.control.isTick then none
    else some { timerCancel s timer with history := { s.history with
      cancelled := timer :: s.history.cancelled
      touched := s.history.touched || s.control.runs timer } }
  | .tickBegin =>
    match s.control with
    | .idle => some { s with
        control := .tick s.clock
        alarm := none
        history := { s.history with
          reached := s.queue.filter (s.history.due · ≤ s.clock), ran := [], cancelled := [] } }
    | _ => none
  | .tickCall =>
    match s.control with
    | .tick now =>
      (tickCall s now).map fun s' =>
        { s' with history := s.queue.head?.elim s.history s.history.run }
    | _ => none
  | .tickReturn =>
    match s.control with
    | .callback now timer periodic _ =>
      some { tickReturn s now timer periodic with
        history :=
          if putsBack s timer periodic then
            s.history.putBack timer (s.timer timer).periodicTime.toNat now
          else s.history }
    | _ => none
  | .tickEnd =>
    match s.control with
    | .tick now => tickEnd s now
    | _ => none

/-- The states that steps admitted by the guard reach when every timer is initialized at this
clock time. -/
def Reachable (clock : ℕ) (guard : State Id Fn → Action Id Fn → Prop) : State Id Fn → Prop :=
  Transition.Reachable step guard (· = initial clock)

/-! ## The queue -/

section Queue

variable {scheduledTime : Id → Time} {timer i : Id} {queue : List Id}

omit [DecidableEq Id] in
/-- Insertion adds the timer and keeps every entry. -/
theorem insert_timer_in_queue_perm (scheduledTime : Id → Time) (timer : Id) (queue : List Id) :
    (insertTimerInQueue scheduledTime timer queue).Perm (timer :: queue) := by
  induction queue with
  | nil => exact .refl _
  | cons entry rest ih =>
    unfold insertTimerInQueue
    split
    · exact .refl _
    · exact (ih.cons entry).trans (Perm.swap timer entry rest)

omit [DecidableEq Id] in
theorem mem_insert_timer_in_queue :
    i ∈ insertTimerInQueue scheduledTime timer queue ↔ i = timer ∨ i ∈ queue := by
  rw [(insert_timer_in_queue_perm scheduledTime timer queue).mem_iff, mem_cons]

omit [DecidableEq Id] in
/-- Where the comparison of the source is the order of the due times, insertion keeps the queue
sorted by them. -/
theorem insert_timer_in_queue_sorted {due : Id → ℕ}
    (hexact : ∀ entry ∈ queue,
      timeGt (scheduledTime entry) (scheduledTime timer) = decide (due timer < due entry))
    (hsorted : queue.Pairwise fun i j => due i ≤ due j) :
    (insertTimerInQueue scheduledTime timer queue).Pairwise fun i j => due i ≤ due j := by
  induction queue with
  | nil => exact pairwise_singleton _ _
  | cons entry rest ih =>
    obtain ⟨hentry, hrest⟩ := pairwise_cons.mp hsorted
    have hhead := hexact entry mem_cons_self
    unfold insertTimerInQueue
    split
    · next hgt =>
      have hlt : due timer < due entry := by simpa [hhead] using hgt
      exact pairwise_cons.mpr
        ⟨forall_mem_cons.mpr ⟨hlt.le, fun j hj => hlt.le.trans (hentry j hj)⟩, hsorted⟩
    next hngt =>
    have hle : due entry ≤ due timer := by simpa [hhead] using hngt
    refine pairwise_cons.mpr ⟨?_, ih (forall_mem_cons.mp hexact).2
      hrest⟩
    intro j hj
    rcases mem_insert_timer_in_queue.mp hj with rfl | hj
    · exact hle
    · exact hentry j hj

/-- A timer in the queue: its scheduled time is its due time, as far as 32 bits go, and it has a
callback. -/
structure Armed (timer : Timer Fn) (due clock : ℕ) : Prop where
  scheduled : timer.scheduledTime = timeAt due
  period_lt : timer.periodicTime.toNat < 2 ^ 31
  callback_ne : timer.callback ≠ none
  due_lt : due < clock + 2 ^ 31

/-- The queue holds armed timers in the order of their due times, which are at most half the
range of the counter apart. -/
structure QueueInv (timers : Id → Timer Fn) (queue : List Id) (due : Id → ℕ) (clock : ℕ) :
    Prop where
  nodup : queue.Nodup
  sorted : queue.Pairwise fun i j => due i ≤ due j
  window : ∀ i ∈ queue, ∀ j ∈ queue, due i ≤ due j + 2 ^ 31
  armed : ∀ i ∈ queue, Armed (timers i) (due i) clock

variable {timers : Id → Timer Fn} {due : Id → ℕ} {clock : ℕ} {now : ℕ}

theorem QueueInv.insert (hinv : QueueInv timers queue due clock) {new : Timer Fn} {newDue : ℕ}
    (hnot : timer ∉ queue) (hnew : Armed new newDue clock)
    (hlow : ∀ i ∈ queue, newDue ≤ due i + 2 ^ 31) (hhigh : ∀ i ∈ queue, due i < newDue + 2 ^ 31) :
    QueueInv (update timers timer new)
      (insertTimerInQueue (fun i => (update timers timer new i).scheduledTime) timer queue)
      (update due timer newDue) clock := by
  have hne : ∀ i ∈ queue, i ≠ timer := fun i hi heq => hnot (heq ▸ hi)
  refine ⟨?_, ?_, ?_, ?_⟩
  · rw [(insert_timer_in_queue_perm _ timer queue).nodup_iff, nodup_cons]
    exact ⟨hnot, hinv.nodup⟩
  · refine insert_timer_in_queue_sorted ?_ ?_
    · intro entry hentry
      rw [update_of_ne (hne entry hentry), update_self, update_self,
        update_of_ne (hne entry hentry), (hinv.armed entry hentry).scheduled,
        hnew.scheduled]
      exact time_gt_time_at (hlow entry hentry) (hhigh entry hentry)
    · refine hinv.sorted.imp_of_mem ?_
      intro i j hi hj hle
      rwa [update_of_ne (hne i hi), update_of_ne (hne j hj)]
  · intro i hi j hj
    rcases mem_insert_timer_in_queue.mp hi with rfl | hi' <;>
      rcases mem_insert_timer_in_queue.mp hj with rfl | hj'
    · omega
    · rw [update_self, update_of_ne (hne j hj')]
      exact hlow j hj'
    · rw [update_self, update_of_ne (hne i hi')]
      exact le_of_lt (hhigh i hi')
    · rw [update_of_ne (hne i hi'), update_of_ne (hne j hj')]
      exact hinv.window i hi' j hj'
  · intro i hi
    rcases mem_insert_timer_in_queue.mp hi with rfl | hi
    · simpa only [update_self] using hnew
    · simpa only [update_of_ne (hne i hi)] using hinv.armed i hi

theorem QueueInv.erase (hinv : QueueInv timers queue due clock) (timer : Id) (new : Timer Fn) :
    QueueInv (update timers timer new) (queue.erase timer) due clock := by
  have hmem : ∀ i ∈ queue.erase timer, i ∈ queue := fun i hi => mem_of_mem_erase hi
  refine ⟨hinv.nodup.erase timer, hinv.sorted.sublist erase_sublist, ?_, ?_⟩
  · intro i hi j hj
    exact hinv.window i (hmem i hi) j (hmem j hj)
  · intro i hi
    have hne : i ≠ timer := fun heq => hinv.nodup.not_mem_erase (heq ▸ hi)
    simpa only [update_of_ne hne] using hinv.armed i (hmem i hi)

omit [DecidableEq Id] in
theorem QueueInv.tail (hinv : QueueInv timers (timer :: queue) due clock) :
    QueueInv timers queue due clock where
  nodup := (nodup_cons.mp hinv.nodup).2
  sorted := (pairwise_cons.mp hinv.sorted).2
  window i hi j hj := hinv.window i (mem_cons_of_mem _ hi) j (mem_cons_of_mem _ hj)
  armed i hi := hinv.armed i (mem_cons_of_mem _ hi)

theorem Armed.advance {timer : Timer Fn} {due : ℕ} (h : Armed timer due clock) (ms : ℕ) :
    Armed timer due (clock + ms) :=
  { h with due_lt := by have hlt := h.due_lt; omega }

omit [DecidableEq Id] in
theorem QueueInv.advance (hinv : QueueInv timers queue due clock) (ms : ℕ) :
    QueueInv timers queue due (clock + ms) :=
  { hinv with armed := fun i hi => (hinv.armed i hi).advance ms }

/-- How often a tick that came at `now` can still run a timer: a timer due earlier may be put back
for `now` itself, once. -/
def weight (due now : ℕ) : ℕ := if due < now then 2 else if due = now then 1 else 0

/-- How many callbacks a tick that came at `now` can still call. -/
def load (due : Id → ℕ) (now : ℕ) (queue : List Id) : ℕ :=
  (queue.map fun i => weight (due i) now).sum

omit [DecidableEq Id] in
theorem load_perm {other : List Id} (h : queue.Perm other) :
    load due now queue = load due now other :=
  (h.map _).sum_eq

omit [DecidableEq Id] in
theorem load_cons :
    load due now (timer :: queue) = weight (due timer) now + load due now queue := by
  simp [load]

theorem load_update {newDue : ℕ} (hnot : timer ∉ queue) :
    load (update due timer newDue) now queue = load due now queue := by
  unfold load
  congr 1
  refine map_congr_left ?_
  intro i hi
  have hne : i ≠ timer := fun heq => hnot (heq ▸ hi)
  rw [update_of_ne hne]

theorem load_insert (scheduledTime : Id → Time) (due : Id → ℕ) (now newDue : ℕ)
    (hnot : timer ∉ queue) :
    load (update due timer newDue) now
        (insertTimerInQueue scheduledTime timer queue) =
      weight newDue now + load due now queue := by
  rw [load_perm (insert_timer_in_queue_perm scheduledTime timer queue), load_cons,
    load_update hnot, update_self]

theorem load_erase_le (due : Id → ℕ) (now : ℕ) (queue : List Id) (timer : Id) :
    load due now (queue.erase timer) ≤ load due now queue := by
  by_cases hmem : timer ∈ queue
  · rw [load_perm (perm_cons_erase hmem), load_cons]
    omega
  · rw [erase_of_not_mem hmem]

omit [DecidableEq Id] in
/-- A tick begins with at most two runs for each timer that is due. -/
theorem load_le (due : Id → ℕ) (now : ℕ) (queue : List Id) :
    load due now queue ≤ 2 * (queue.filter (due · ≤ now)).length := by
  induction queue with
  | nil => exact Nat.le_refl 0
  | cons i rest ih =>
    rw [load_cons, filter_cons]
    unfold weight
    split
    · rw [if_pos (by simp; omega), length_cons]
      omega
    split
    · rw [if_pos (by simp; omega), length_cons]
      omega
    · rw [if_neg (by simp; omega)]
      omega

end Queue

/-! ## What one step does -/

section Steps

variable {s s' : State Id Fn} {timer : Id} {fn : Fn} {delay : Time}

/-- A state in which a timer has just been set. -/
def afterSet (s : State Id Fn) (timer : Id) (delay period : Time) (fn : Fn) (oneshot : Bool)
    (alarm : Option ℕ) : State Id Fn :=
  let timers := update s.timer timer
    ⟨timeAt (s.clock + delay.toNat), period, some fn⟩
  { s with
    timer := timers
    queue := insertTimerInQueue (fun i => (timers i).scheduledTime) timer s.queue
    alarm := alarm
    history := s.history.set s.control timer (s.clock + delay.toNat) oneshot }

theorem at_least_one_pos (delay : Time) : 0 < (atLeastOne delay).toNat := by
  unfold atLeastOne
  split
  · decide
  · next hne => exact Nat.pos_of_ne_zero fun h => hne (BitVec.eq_of_toNat_eq (by simpa using h))

theorem at_least_one_lt (h : delay.toNat < 2 ^ 31) : (atLeastOne delay).toNat < 2 ^ 31 := by
  unfold atLeastOne
  split
  · decide
  · exact h

/-- A timer that is set is not queued before. -/
theorem step_set {period : Time} {oneshot : Bool}
    (hstep : (if s.control.isTick then none
      else (timerSet s timer delay period fn).map fun s' => { s' with
        history := s.history.set s.control timer (s.clock + delay.toNat) oneshot }) = some s') :
    timer ∉ s.queue ∧ ∃ alarm, s' = afterSet s timer delay period fn oneshot alarm := by
  obtain ⟨-, hstep⟩ := ite_none_left_eq_some.mp hstep
  obtain ⟨mid, hset, rfl⟩ := map_eq_some_iff.mp hstep
  obtain ⟨hnot, hset⟩ := ite_none_left_eq_some.mp hset
  cases hset
  rw [time_at_add]
  exact ⟨hnot, _, rfl⟩

/-- A cancelled timer is out of the queue and will not be put back. -/
theorem step_cancel (hstep : step s (.cancel timer) = some s') :
    s.control.isTick = false ∧ ∃ alarm, s' = { s with
      timer := update s.timer timer
        { s.timer timer with periodicTime := 0, callback := none }
      queue := s.queue.erase timer
      alarm := alarm
      history := { s.history with
        cancelled := timer :: s.history.cancelled
        touched := s.history.touched || s.control.runs timer } } := by
  obtain ⟨hcontrol, ⟨⟩⟩ := ite_none_left_eq_some.mp hstep
  exact ⟨by simpa using hcontrol, _, rfl⟩

theorem step_tick_begin (hstep : step s .tickBegin = some s') :
    s.control = .idle ∧ s' = { s with
      control := .tick s.clock
      alarm := none
      history := { s.history with
        reached := s.queue.filter (s.history.due · ≤ s.clock), ran := [], cancelled := [] } } := by
  simp only [step] at hstep
  split at hstep
  · next hidle =>
    cases hstep
    exact ⟨hidle, rfl⟩
  · cases hstep

/-- The loop calls the callback of the head of the queue if it is due. -/
theorem step_tick_call (hstep : step s .tickCall = some s') :
    ∃ now timer rest fn, s.control = .tick now ∧ s.queue = timer :: rest ∧
      timeLt (timeAt now) (s.timer timer).scheduledTime = false ∧
      s' = { s with
        queue := rest
        control := .callback now timer (0 < (s.timer timer).periodicTime) fn
        history := s.history.run timer } := by
  simp only [step] at hstep
  split at hstep
  · next now hcontrol =>
    obtain ⟨mid, hcall, rfl⟩ := map_eq_some_iff.mp hstep
    unfold tickCall at hcall
    split at hcall
    · cases hcall
    next timer rest hqueue =>
    split at hcall
    · cases hcall
    next hdue =>
    split at hcall
    · cases hcall
    next fn _ =>
    cases hcall
    refine ⟨now, timer, rest, fn, hcontrol, hqueue, by simpa using hdue, ?_⟩
    rw [hqueue]
    rfl
  · cases hstep

/-- After the callback the loop puts the timer back, or leaves the queue as it is. -/
theorem step_tick_return (hstep : step s .tickReturn = some s') :
    ∃ now timer periodic fn, s.control = .callback now timer periodic fn ∧
      ((putsBack s timer periodic = false ∧ s' = { s with control := .tick now }) ∨
      (putsBack s timer periodic = true ∧ s' = { s with
        timer := update s.timer timer
          { s.timer timer with scheduledTime := rescheduled (s.timer timer) now }
        queue := insertTimerInQueue (fun i => (update s.timer timer
          { s.timer timer with scheduledTime := rescheduled (s.timer timer) now } i).scheduledTime)
          timer s.queue
        control := .tick now
        history := s.history.putBack timer (s.timer timer).periodicTime.toNat now })) := by
  simp only [step] at hstep
  split at hstep
  · next now timer periodic fn hcontrol =>
    cases hstep
    refine ⟨now, timer, periodic, fn, hcontrol, ?_⟩
    cases hback : putsBack s timer periodic with
    | false => exact .inl ⟨rfl, by simp [tickReturn, hback]⟩
    | true => exact .inr ⟨rfl, by simp [tickReturn, hback]⟩
  · cases hstep

/-- The loop ends when the head of the queue is not due. -/
theorem step_tick_end (hstep : step s .tickEnd = some s') :
    ∃ now alarm, s.control = .tick now ∧ s' = { s with control := .idle, alarm := alarm } ∧
      ∀ timer ∈ s.queue.head?, timeLt (timeAt now) (s.timer timer).scheduledTime = true := by
  simp only [step] at hstep
  split at hstep
  · next now hcontrol =>
    unfold tickEnd at hstep
    split at hstep
    · next hempty =>
      cases hstep
      exact ⟨now, s.alarm, hcontrol, rfl, by simp [hempty]⟩
    next timer rest hqueue =>
    obtain ⟨hlt, ⟨⟩⟩ := ite_none_right_eq_some.mp hstep
    refine ⟨now, _, hcontrol, rfl, ?_⟩
    intro i hi
    rw [hqueue, head?_cons, mem_some_iff] at hi
    exact hi ▸ hlt
  · cases hstep

end Steps

end Timer

end NusaKernel
