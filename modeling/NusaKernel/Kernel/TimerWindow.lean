import NusaKernel.Kernel.Timer

/-!
# Timers inside the window

`timer_queue_correct` says that the timer queue is ordered, and that each tick runs exactly what
is due, as long as the times in the queue stay inside half the range of the counter.
`due_timer_skipped` is a run that leaves that window with delays below `2 ^ 31`.
-/

namespace NusaKernel

open List Function Transition

namespace Timer

variable {Id Fn : Type*} [DecidableEq Id]

/-! ## Staying inside the window -/

section Window

variable {s s' : State Id Fn} {timer : Id} {fn : Fn} {now due : ℕ} {delay period : Time}
  {oneshot periodic : Bool} {alarm : Option ℕ}

/-- A timer that becomes due at `newDue` fits into the queue: it is at most half the range of the
counter later than every timer there, and less than that later than the tick in progress. -/
def Fits (s : State Id Fn) (newDue : ℕ) : Prop :=
  (∀ i ∈ s.queue, newDue ≤ s.history.due i + 2 ^ 31) ∧ ∀ now ∈ s.control.now?, newDue < now + 2 ^ 31
deriving Decidable

/-- The steps that keep the times in the queue inside half the range of the counter: delays and
periods are below `2 ^ 31`, every timer fits into the queue it is put into, and no tick comes
`2 ^ 31` or more after a timer in the queue was due. -/
def InWindow (s : State Id Fn) : Action Id Fn → Prop
  | .setOneshot _ delay _ | .setPeriodic _ delay _ =>
    delay.toNat < 2 ^ 31 ∧ Fits s (s.clock + (atLeastOne delay).toNat)
  | .tickBegin => ∀ i ∈ s.queue, s.clock < s.history.due i + 2 ^ 31
  | .tickReturn =>
    match s.control with
    | .callback now timer periodic _ => putsBack s timer periodic = true →
        Fits s (nextDue (s.history.due timer) (s.timer timer).periodicTime.toNat now)
    | .idle | .tick _ => True
  | .advance _ | .cancel _ | .tickCall | .tickEnd => True

/-- `InWindow` can be checked along a run. -/
instance (s : State Id Fn) (action : Action Id Fn) : Decidable (InWindow s action) := by
  cases action <;> unfold InWindow
  case tickReturn => cases s.control <;> dsimp only <;> infer_instance
  all_goals infer_instance

/-- A timer that was set for one run has no period, has run at most once, and not yet if it is
still in the queue. -/
structure RunsOnce (s : State Id Fn) (i : Id) : Prop where
  period_eq : (s.timer i).periodicTime = 0
  firings_le : s.history.firings i ≤ 1
  unfired : i ∈ s.queue → s.history.firings i = 0

/-- How many more runs the timer in the running callback can get in this tick. -/
def comeback (due : Id → ℕ) : Control Id Fn → ℕ
  | .callback now timer _ _ => if due timer < now then 1 else 0
  | .idle | .tick _ => 0

/-- What holds in a tick that came at `now`. -/
structure TickInv (s : State Id Fn) (now : ℕ) : Prop where
  now_le : now ≤ s.clock
  near : ∀ i ∈ s.queue, s.history.due i < now + 2 ^ 31 ∧ now < s.history.due i + 2 ^ 31
  ran_le : ∀ run ∈ s.history.ran, run.2 ≤ now ∧ ∀ i ∈ s.queue, run.2 ≤ s.history.due i
  ran_sorted : s.history.ran.Pairwise fun a b => a.2 ≤ b.2
  reached : ∀ i ∈ s.history.reached, (i ∈ s.queue ∧ s.history.due i ≤ now) ∨
    i ∈ s.history.ran.map Prod.fst ∨ i ∈ s.history.cancelled
  budget : s.history.ran.length + load s.history.due now s.queue +
    comeback s.history.due s.control ≤ 2 * s.history.reached.length

/-- What holds while a callback runs that has not set or cancelled its own timer. -/
structure Untouched (s : State Id Fn) (now : ℕ) (timer : Id) (periodic : Bool) : Prop where
  not_mem : timer ∉ s.queue
  armed : Armed (s.timer timer) (s.history.due timer) s.clock
  due_le : s.history.due timer ≤ now
  lt_due : now < s.history.due timer + 2 ^ 31
  periodic_eq : periodic = decide (0 < (s.timer timer).periodicTime)

/-- What holds while a callback runs. -/
structure CallbackInv (s : State Id Fn) (now : ℕ) (timer : Id) (periodic : Bool) : Prop where
  untouched : s.history.touched = false → Untouched s now timer periodic
  touched : s.history.touched = true → putsBack s timer periodic = false

/-- The invariant of the machine. -/
structure Inv (s : State Id Fn) : Prop where
  queue : QueueInv s.timer s.queue s.history.due s.clock
  once : ∀ i, s.history.oneshot i = true → RunsOnce s i
  tick : ∀ now, s.control.now? = some now → TickInv s now
  callback : ∀ now timer periodic fn, s.control = .callback now timer periodic fn →
    CallbackInv s now timer periodic

theorem Inv.initial (clock : ℕ) : Inv (initial clock : State Id Fn) where
  queue := ⟨nodup_nil, List.Pairwise.nil, by simp [Timer.initial], by simp [Timer.initial]⟩
  once i h := by simp [Timer.initial] at h
  tick now h := by simp [Timer.initial, Control.now?] at h
  callback now timer periodic fn h := by simp [Timer.initial] at h

theorem Inv.advance (hinv : Inv s) (ms : ℕ) : Inv { s with clock := s.clock + ms } where
  queue := hinv.queue.advance ms
  once i h := { hinv.once i h with }
  tick now h :=
    have ht := hinv.tick now h
    { ht with now_le := Nat.le_add_right_of_le ht.now_le }
  callback now timer periodic fn h := by
    have hc := hinv.callback now timer periodic fn h
    refine ⟨fun htouched => ?_, hc.touched⟩
    have hu := hc.untouched htouched
    exact { hu with armed := hu.armed.advance ms }

/-- Putting a timer into the queue that is not due before the tick in progress came. -/
theorem TickInv.insert {newDue : ℕ} {scheduledTime : Id → Time} (ht : TickInv s now)
    (hnot : timer ∉ s.queue) (hlow : now ≤ newDue) (hhigh : newDue < now + 2 ^ 31)
    (hqueue : s'.queue = insertTimerInQueue scheduledTime timer s.queue)
    (hdue : s'.history.due = update s.history.due timer newDue)
    (hran : s'.history.ran = s.history.ran) (hreached : s'.history.reached = s.history.reached)
    (hcancelled : s'.history.cancelled = s.history.cancelled) (hclock : s'.clock = s.clock)
    (hcomeback : weight newDue now + comeback s'.history.due s'.control ≤
      comeback s.history.due s.control) : TickInv s' now := by
  have hne : ∀ i ∈ s.queue, i ≠ timer := fun i hi heq => hnot (heq ▸ hi)
  have hall {P : ℕ → Prop} (hnew : P newDue) (hold : ∀ i ∈ s.queue, P (s.history.due i)) :
      ∀ i ∈ s'.queue, P (s'.history.due i) := by
    intro i hi
    rw [hqueue] at hi
    rw [hdue]
    rcases mem_insert_timer_in_queue.mp hi with rfl | hi'
    · rwa [update_self]
    · rw [update_of_ne (hne i hi')]
      exact hold i hi'
  refine ⟨hclock ▸ ht.now_le, ?_, ?_, hran ▸ ht.ran_sorted, ?_, ?_⟩
  · exact hall (P := fun due => due < now + 2 ^ 31 ∧ now < due + 2 ^ 31) (by omega) ht.near
  · intro run hrun
    rw [hran] at hrun
    obtain ⟨hle, hfirst⟩ := ht.ran_le run hrun
    exact ⟨hle, hall (hle.trans hlow) hfirst⟩
  · intro i hi
    rw [hreached] at hi
    rw [hqueue, hdue, hran, hcancelled]
    rcases ht.reached i hi with ⟨hmem, hle⟩ | hdone
    · refine .inl ⟨mem_insert_timer_in_queue.mpr (.inr hmem), ?_⟩
      rwa [update_of_ne (hne i hmem)]
    · exact .inr hdone
  · have hbudget := ht.budget
    rw [hran, hreached, hqueue, hdue, load_insert scheduledTime s.history.due now newDue hnot]
    rw [hdue] at hcomeback
    omega

/-- A timer that is due after the tick came gets no more runs in it. -/
theorem comeback_update_le {control : Control Id Fn} {due : Id → ℕ} {newDue : ℕ}
    (h : ∀ now, control.now? = some now → now ≤ newDue) :
    comeback (update due timer newDue) control ≤ comeback due control := by
  cases control with
  | idle => exact Nat.le_refl _
  | tick => exact Nat.le_refl _
  | callback now running periodic f =>
    have hle := h now rfl
    by_cases heq : running = timer
    · simp only [comeback, heq, update_self]
      rw [if_neg (by omega)]
      exact Nat.zero_le _
    · simp only [comeback, update_of_ne heq]
      exact Nat.le_refl _

theorem RunsOnce.after_set {i : Id} (honce : s.history.oneshot i = true → RunsOnce s i)
    (honeshot : oneshot = true → period = 0)
    (hi : (afterSet s timer delay period fn oneshot alarm).history.oneshot i = true) :
    RunsOnce (afterSet s timer delay period fn oneshot alarm) i := by
  by_cases heq : i = timer
  · subst heq
    have hset : oneshot = true := by simpa [afterSet, History.set] using hi
    refine ⟨?_, ?_, fun _ => ?_⟩ <;> simp [afterSet, History.set, honeshot hset]
  have hi' := honce (by simpa [afterSet, History.set, heq] using hi)
  refine ⟨?_, ?_, fun hmem => ?_⟩
  · simpa [afterSet, heq] using hi'.period_eq
  · simpa [afterSet, History.set, heq] using hi'.firings_le
  · have hmem' := (mem_insert_timer_in_queue.mp hmem).resolve_left heq
    simpa [afterSet, History.set, heq] using hi'.unfired hmem'

/-- A callback that sets its own timer has touched it, and setting another timer leaves its own
as it was. -/
theorem CallbackInv.after_set {running : Id} {f : Fn}
    (hcontrol : s.control = .callback now running periodic f)
    (hcall : CallbackInv s now running periodic) :
    CallbackInv (afterSet s timer delay period fn oneshot alarm) now running periodic := by
  by_cases heq : running = timer
  · subst heq
    refine ⟨fun htouched => ?_, fun _ => ?_⟩
    · simp [afterSet, History.set, hcontrol, Control.runs] at htouched
    · simp [putsBack, afterSet, mem_insert_timer_in_queue]
  have htouched : (afterSet s timer delay period fn oneshot alarm).history.touched =
      s.history.touched := by simp [afterSet, History.set, hcontrol, Control.runs, heq]
  refine ⟨fun h => ?_, fun h => ?_⟩
  · have hu := hcall.untouched (htouched ▸ h)
    refine ⟨?_, ?_, ?_, ?_, ?_⟩
    · intro hmem
      exact hu.not_mem ((mem_insert_timer_in_queue.mp hmem).resolve_left heq)
    · simpa [afterSet, History.set, heq] using hu.armed
    · simpa [afterSet, History.set, heq] using hu.due_le
    · simpa [afterSet, History.set, heq] using hu.lt_due
    · simpa [afterSet, heq] using hu.periodic_eq
  · have hp := hcall.touched (htouched ▸ h)
    simpa [putsBack, afterSet, heq, mem_insert_timer_in_queue] using hp

/-- A timer set now is due after every tick that has come. -/
theorem Inv.after_set (hinv : Inv s) (hnot : timer ∉ s.queue) (hpos : 0 < delay.toNat)
    (hdelay : delay.toNat < 2 ^ 31) (hperiod : period.toNat < 2 ^ 31)
    (honeshot : oneshot = true → period = 0) (hfits : Fits s (s.clock + delay.toNat)) :
    Inv (afterSet s timer delay period fn oneshot alarm) := by
  have hlate : ∀ now, s.control.now? = some now → now < s.clock + delay.toNat := by
    intro now hnow
    have hclock := (hinv.tick now hnow).now_le
    omega
  refine ⟨?_, fun i hi => RunsOnce.after_set (hinv.once i) honeshot hi, ?_, ?_⟩
  · refine hinv.queue.insert hnot ⟨rfl, hperiod, nofun, ?_⟩ hfits.1 ?_
    · omega
    · intro i hi
      have hlt := (hinv.queue.armed i hi).due_lt
      omega
  · intro now hnow
    have hlt := hlate now hnow
    refine (hinv.tick now hnow).insert hnot hlt.le (hfits.2 now hnow) rfl rfl rfl rfl rfl rfl ?_
    have hweight : weight (s.clock + delay.toNat) now = 0 := by
      unfold weight
      rw [if_neg (by omega), if_neg (by omega)]
    rw [hweight, Nat.zero_add]
    exact comeback_update_le fun now hnow => (hlate now hnow).le
  · intro now running periodic f hc
    exact .after_set hc (hinv.callback now running periodic f hc)

theorem Inv.cancel (hinv : Inv s) (hstep : step s (.cancel timer) = some s') : Inv s' := by
  obtain ⟨_, alarm, rfl⟩ := step_cancel hstep
  have hmem : ∀ i ∈ s.queue.erase timer, i ∈ s.queue := fun i hi => mem_of_mem_erase hi
  refine ⟨hinv.queue.erase timer _, ?_, ?_, ?_⟩
  · intro i hi
    have hi' := hinv.once i hi
    refine ⟨?_, hi'.firings_le, fun h => hi'.unfired (hmem i h)⟩
    by_cases heq : i = timer
    · simp [heq]
    · simpa [heq] using hi'.period_eq
  · intro now hnow
    have ht := hinv.tick now hnow
    refine ⟨ht.now_le, fun i hi => ht.near i (hmem i hi), ?_, ht.ran_sorted, ?_, ?_⟩
    · intro run hrun
      exact ⟨(ht.ran_le run hrun).1, fun i hi => (ht.ran_le run hrun).2 i (hmem i hi)⟩
    · intro i hi
      by_cases heq : i = timer
      · exact .inr (.inr (heq ▸ mem_cons_self))
      · rcases ht.reached i hi with ⟨hq, hle⟩ | hran | hcancelled
        · exact .inl ⟨(mem_erase_of_ne heq).mpr hq, hle⟩
        · exact .inr (.inl hran)
        · exact .inr (.inr (mem_cons_of_mem _ hcancelled))
    have hbudget := ht.budget
    have hload := load_erase_le s.history.due now s.queue timer
    show s.history.ran.length + load s.history.due now (s.queue.erase timer) +
      comeback s.history.due s.control ≤ 2 * s.history.reached.length
    omega
  · intro now running periodic f hc
    have hc' : s.control = .callback now running periodic f := hc
    have hcall := hinv.callback now running periodic f hc'
    by_cases heq : running = timer
    · subst heq
      refine ⟨fun htouched => ?_, fun _ => ?_⟩
      · simp [hc', Control.runs] at htouched
      · simp [putsBack]
    refine ⟨fun htouched => ?_, fun htouched => ?_⟩
    · have hu := hcall.untouched (by simpa [hc', Control.runs, heq] using htouched)
      refine ⟨fun h => hu.not_mem (hmem _ h), ?_, hu.due_le, hu.lt_due, ?_⟩
      · simpa [heq] using hu.armed
      · simpa [heq] using hu.periodic_eq
    · have hp := hcall.touched (by simpa [hc', Control.runs, heq] using htouched)
      simpa [putsBack, heq, mem_erase_of_ne heq] using hp

theorem Inv.tick_begin (hinv : Inv s) (hguard : InWindow s .tickBegin)
    (hstep : step s .tickBegin = some s') : Inv s' := by
  obtain ⟨_, rfl⟩ := step_tick_begin hstep
  refine ⟨hinv.queue, fun i hi => { hinv.once i hi with }, ?_, nofun⟩
  intro now hnow
  obtain rfl : s.clock = now := by simpa [Control.now?] using hnow
  refine ⟨Nat.le_refl _, ?_, nofun, List.Pairwise.nil, ?_, ?_⟩
  · intro i hi
    exact ⟨(hinv.queue.armed i hi).due_lt, hguard i hi⟩
  · intro i hi
    obtain ⟨hq, hle⟩ := mem_filter.mp hi
    exact .inl ⟨hq, by simpa using hle⟩
  · have hload := load_le s.history.due s.clock s.queue
    simpa [comeback] using hload

/-- In the window a timer that the loop finds not later than the tick is due. -/
theorem Inv.due_le_of_not_lt (hinv : Inv s) (hnow : s.control.now? = some now)
    (hmem : timer ∈ s.queue) (hnot : timeLt (timeAt now) (s.timer timer).scheduledTime = false) :
    s.history.due timer ≤ now := by
  have hnear := (hinv.tick now hnow).near timer hmem
  rw [(hinv.queue.armed timer hmem).scheduled, time_lt_time_at (by omega) (by omega)] at hnot
  simpa using hnot

/-- Running the head of the queue takes its runs out of what the queue has left. -/
theorem TickInv.call {rest : List Id} (ht : TickInv s now) (hcontrol : s.control = .tick now)
    (hqueue : s.queue = timer :: rest) (hdue : s.history.due timer ≤ now)
    (hfirst : ∀ i ∈ rest, s.history.due timer ≤ s.history.due i) :
    TickInv { s with
      queue := rest
      control := .callback now timer periodic fn
      history := s.history.run timer } now := by
  have hhead : timer ∈ s.queue := by
    rw [hqueue]
    exact mem_cons_self
  have hrest : ∀ i ∈ rest, i ∈ s.queue := by
    intro i hi
    rw [hqueue]
    exact mem_cons_of_mem _ hi
  refine ⟨ht.now_le, fun i hi => ht.near i (hrest i hi), ?_, ?_, ?_, ?_⟩
  · refine forall_mem_append.mpr ⟨fun run hrun => ?_, forall_mem_singleton.mpr ⟨hdue, hfirst⟩⟩
    exact ⟨(ht.ran_le run hrun).1, fun i hi => (ht.ran_le run hrun).2 i (hrest i hi)⟩
  · refine pairwise_append.mpr ⟨ht.ran_sorted, pairwise_singleton _ _, ?_⟩
    intro a ha b hb
    obtain rfl := mem_singleton.mp hb
    exact (ht.ran_le a ha).2 timer hhead
  · intro i hi
    show _ ∨ i ∈ (s.history.ran ++ [(timer, s.history.due timer)]).map Prod.fst ∨ _
    rw [map_append, mem_append]
    rcases ht.reached i hi with ⟨hq, hle⟩ | hran | hcancelled
    · rw [hqueue] at hq
      rcases mem_cons.mp hq with rfl | hq'
      · exact .inr (.inl (.inr (by simp)))
      · exact .inl ⟨hq', hle⟩
    · exact .inr (.inl (.inl hran))
    · exact .inr (.inr hcancelled)
  · -- the timer weighs two if it is late, one for this run and one for coming back
    have hbudget := ht.budget
    rw [hqueue, load_cons, hcontrol] at hbudget
    show (s.history.ran ++ [(timer, s.history.due timer)]).length +
      load s.history.due now rest + (if s.history.due timer < now then 1 else 0) ≤
      2 * s.history.reached.length
    simp only [length_append, length_singleton]
    simp only [comeback, weight] at hbudget
    split at hbudget
    · next hlt =>
      rw [if_pos hlt]
      omega
    · next hnlt =>
      rw [if_pos (by omega)] at hbudget
      rw [if_neg hnlt]
      omega

theorem Inv.tick_call (hinv : Inv s) (hstep : step s .tickCall = some s') : Inv s' := by
  obtain ⟨now, timer, rest, fn, hcontrol, hqueue, hnotlt, rfl⟩ := step_tick_call hstep
  have hnow : s.control.now? = some now := by rw [hcontrol]; rfl
  have hhead : timer ∈ s.queue := by rw [hqueue]; exact mem_cons_self
  have hdue := hinv.due_le_of_not_lt hnow hhead hnotlt
  have hqinv := hinv.queue
  rw [hqueue] at hqinv
  have hnotrest : timer ∉ rest := (nodup_cons.mp hqinv.nodup).1
  have ht := hinv.tick now hnow
  refine ⟨hqinv.tail, ?_, ?_, ?_⟩
  · intro i hi
    have hi' := hinv.once i hi
    refine ⟨hi'.period_eq, ?_, fun h => ?_⟩
    · by_cases heq : i = timer
      · -- it was in the queue, so it had not run before
        have hzero := hi'.unfired (heq ▸ hhead)
        subst heq
        simp [History.run, hzero]
      · simpa [History.run, heq] using hi'.firings_le
    · have hne : i ≠ timer := fun heq => hnotrest (heq ▸ h)
      have hmem : i ∈ s.queue := by rw [hqueue]; exact mem_cons_of_mem _ h
      simpa [History.run, hne] using hi'.unfired hmem
  · intro came hcame
    obtain rfl : now = came := by simpa [Control.now?] using hcame
    exact ht.call hcontrol hqueue hdue (pairwise_cons.mp hqinv.sorted).1
  · intro came running periodic f hc
    obtain ⟨rfl, rfl, rfl, rfl⟩ : now = came ∧ timer = running ∧
        decide (0 < (s.timer timer).periodicTime) = periodic ∧ fn = f := by
      simpa using hc
    refine ⟨fun _ => ?_, nofun⟩
    exact ⟨hnotrest, hinv.queue.armed timer hhead, hdue, (ht.near timer hhead).2, rfl⟩

/-- A periodic timer is put back for the time it is next due. -/
theorem rescheduled_eq {t : Timer Fn} (hscheduled : t.scheduledTime = timeAt due)
    (hperiod : t.periodicTime.toNat < 2 ^ 31) (hle : due ≤ now) (hlt : now < due + 2 ^ 31) :
    rescheduled t now = timeAt (nextDue due t.periodicTime.toNat now) := by
  show (if timeLt (t.scheduledTime + t.periodicTime) (timeAt now) then
    timeAt now + t.periodicTime else t.scheduledTime + t.periodicTime) = _
  rw [hscheduled, time_at_add, time_at_add, time_lt_time_at (by omega) (by omega), nextDue]
  by_cases hpassed : due + t.periodicTime.toNat < now
  · simp [hpassed]
  · simp [hpassed]

theorem le_next_due {period : ℕ} : now ≤ nextDue due period now := by
  unfold nextDue
  split <;> omega

theorem next_due_le {period : ℕ} (hle : due ≤ now) :
    nextDue due period now ≤ now + period := by
  unfold nextDue
  split <;> omega

/-- The loop puts a timer back only if its callback has left it alone. -/
theorem Inv.untouched_of_puts_back (hinv : Inv s)
    (hcontrol : s.control = .callback now timer periodic fn)
    (hback : putsBack s timer periodic = true) :
    s.history.touched = false ∧ 0 < (s.timer timer).periodicTime.toNat := by
  have hcall := hinv.callback now timer periodic fn hcontrol
  constructor
  · cases htouched : s.history.touched with
    | false => rfl
    | true =>
      have hnot := hcall.touched htouched
      rw [hback] at hnot
      cases hnot
  · have hpos : 0 < (s.timer timer).periodicTime := by
      simp only [putsBack, Bool.and_eq_true, decide_eq_true_eq] at hback
      exact hback.2
    simpa [BitVec.lt_def] using hpos

theorem Inv.tick_return (hinv : Inv s) (hguard : InWindow s .tickReturn)
    (hstep : step s .tickReturn = some s') : Inv s' := by
  obtain ⟨now, timer, periodic, fn, hcontrol, hcases⟩ := step_tick_return hstep
  have hnow : s.control.now? = some now := by rw [hcontrol]; rfl
  have ht := hinv.tick now hnow
  rcases hcases with ⟨_, rfl⟩ | ⟨hback, rfl⟩
  · refine ⟨hinv.queue, fun i hi => { hinv.once i hi with }, ?_, fun _ _ _ _ hc => by cases hc⟩
    intro came hcame
    obtain rfl : now = came := by simpa [Control.now?] using hcame
    have hbudget := ht.budget
    refine { ht with budget := ?_ }
    show s.history.ran.length + load s.history.due now s.queue + 0 ≤ 2 * s.history.reached.length
    omega
  · obtain ⟨htouched, hpos⟩ := hinv.untouched_of_puts_back hcontrol hback
    have hu := (hinv.callback now timer periodic fn hcontrol).untouched htouched
    have hperiod := hu.armed.period_lt
    have hfits : Fits s (nextDue (s.history.due timer) (s.timer timer).periodicTime.toNat now) := by
      simp only [InWindow, hcontrol] at hguard
      exact hguard hback
    have hnext_ge := @le_next_due now (s.history.due timer) (s.timer timer).periodicTime.toNat
    have hnext_le := @next_due_le now (s.history.due timer) (s.timer timer).periodicTime.toNat
      hu.due_le
    have hclock := ht.now_le
    refine ⟨?_, ?_, ?_, fun _ _ _ _ hc => by cases hc⟩
    · refine hinv.queue.insert hu.not_mem ⟨?_, hperiod, hu.armed.callback_ne, ?_⟩ hfits.1 ?_
      · exact rescheduled_eq hu.armed.scheduled hperiod hu.due_le hu.lt_due
      · omega
      · intro i hi
        have hnear := (ht.near i hi).1
        omega
    · intro i hi
      have hi' := hinv.once i hi
      have hne : i ≠ timer := by
        intro heq
        have hzero := hi'.period_eq
        rw [heq] at hzero
        simp [hzero] at hpos
      refine ⟨by simpa [hne] using hi'.period_eq, hi'.firings_le, fun hmem => ?_⟩
      exact hi'.unfired ((mem_insert_timer_in_queue.mp hmem).resolve_left hne)
    · intro came hcame
      obtain rfl : now = came := by simpa [Control.now?] using hcame
      refine ht.insert hu.not_mem hnext_ge (hfits.2 now hnow) rfl rfl rfl rfl rfl rfl ?_
      -- put back for the tick itself only if it was due before it
      rw [hcontrol]
      simp only [comeback, weight, nextDue]
      split <;> split <;> split <;> omega

/-- The machine stays in its invariant. -/
theorem Inv.step {action : Action Id Fn} (hinv : Inv s) (hguard : InWindow s action)
    (hstep : step s action = some s') : Inv s' := by
  cases action with
  | advance ms =>
    cases hstep
    exact hinv.advance ms
  | setOneshot timer delay fn =>
    obtain ⟨hnot, alarm, rfl⟩ := step_set hstep
    obtain ⟨hdelay, hfits⟩ := hguard
    exact hinv.after_set hnot (at_least_one_pos delay) (at_least_one_lt hdelay) (by decide)
      (fun _ => rfl) hfits
  | setPeriodic timer period fn =>
    obtain ⟨hnot, alarm, rfl⟩ := step_set hstep
    obtain ⟨hperiod, hfits⟩ := hguard
    exact hinv.after_set hnot (at_least_one_pos period) (at_least_one_lt hperiod)
      (at_least_one_lt hperiod) nofun hfits
  | cancel timer => exact hinv.cancel hstep
  | tickBegin => exact hinv.tick_begin hguard hstep
  | tickCall => exact hinv.tick_call hstep
  | tickReturn => exact hinv.tick_return hguard hstep
  | tickEnd =>
    obtain ⟨now, alarm, _, rfl, _⟩ := step_tick_end hstep
    exact ⟨hinv.queue, fun i hi => { hinv.once i hi with }, nofun, nofun⟩

theorem reachable_inv {clock : ℕ} (h : Reachable clock InWindow s) : Inv s :=
  h.invariant_from (Inv.initial clock) fun hinv => hinv.step

/-! ## What the window gives -/

/-- In the window a queue sorted by due times is ordered by the comparison of the source. -/
theorem Inv.ordered (hinv : Inv s) : s.queue.Pairwise fun i j =>
    timeGt (s.timer i).scheduledTime (s.timer j).scheduledTime = false := by
  refine hinv.queue.sorted.imp_of_mem ?_
  intro i j hi hj hle
  have hwindow := hinv.queue.window j hj i hi
  rw [(hinv.queue.armed i hi).scheduled, (hinv.queue.armed j hj).scheduled,
    time_gt_time_at (by omega) (by omega)]
  simpa using hle

/-- The loop never stops without ending: the head of the queue is called or the tick is over. -/
theorem Inv.tick_progress (hinv : Inv s) (hcontrol : s.control = .tick now) :
    (∃ s', Timer.step s .tickCall = some s') ∨ ∃ s', Timer.step s .tickEnd = some s' := by
  simp only [Timer.step, hcontrol, Option.map_eq_some_iff]
  cases hqueue : s.queue with
  | nil => exact .inr ⟨_, by rw [tickEnd, hqueue]⟩
  | cons timer rest =>
    have hmem : timer ∈ s.queue := by rw [hqueue]; exact mem_cons_self
    cases hlt : timeLt (timeAt now) (s.timer timer).scheduledTime with
    | true => exact .inr ⟨_, by simp only [tickEnd, hqueue, hlt, if_true]; rfl⟩
    | false =>
      obtain ⟨fn, hfn⟩ := Option.ne_none_iff_exists'.mp (hinv.queue.armed timer hmem).callback_ne
      exact .inl ⟨_, _, by simp only [tickCall, hqueue, hlt, hfn]; rfl, rfl⟩

/-- A tick that is over has left nothing in the queue that was due when it came. -/
theorem Inv.lt_due_of_tick_end (hinv : Inv s) (hcontrol : s.control = .tick now)
    (hstep : Timer.step s .tickEnd = some s') : ∀ i ∈ s.queue, now < s.history.due i := by
  obtain ⟨came, _, hcame, _, hhead⟩ := step_tick_end hstep
  obtain rfl : came = now := by simpa [hcame] using hcontrol
  have hnow : s.control.now? = some came := by rw [hcame]; rfl
  intro i hi
  cases hqueue : s.queue with
  | nil => simp [hqueue] at hi
  | cons timer rest =>
    have hmem : timer ∈ s.queue := by rw [hqueue]; exact mem_cons_self
    have hlt := hhead timer (by rw [hqueue]; rfl)
    have hnear := (hinv.tick came hnow).near timer hmem
    rw [(hinv.queue.armed timer hmem).scheduled,
      time_lt_time_at (by omega) (by omega), decide_eq_true_eq] at hlt
    -- every other timer is due no earlier than the head
    have hsorted := hinv.queue.sorted
    rw [hqueue] at hi hsorted
    rcases mem_cons.mp hi with rfl | hi'
    · exact hlt
    · exact lt_of_lt_of_le hlt ((pairwise_cons.mp hsorted).1 i hi')

/-- The loop puts back exactly the periodic timers whose callback left them alone, for the time
they are next due. -/
theorem Inv.put_back (hinv : Inv s) (hcontrol : s.control = .callback now timer periodic fn)
    (hstep : Timer.step s .tickReturn = some s') :
    (periodic = true ∧ s.history.touched = false →
      timer ∈ s'.queue ∧ (s'.timer timer).scheduledTime = timeAt (s'.history.due timer) ∧
      s'.history.due timer =
        nextDue (s.history.due timer) (s.timer timer).periodicTime.toNat now) ∧
    (periodic = false ∨ s.history.touched = true → s'.queue = s.queue) := by
  obtain ⟨came, running, per, f, hc, hcases⟩ := step_tick_return hstep
  obtain ⟨rfl, rfl, rfl, rfl⟩ : now = came ∧ timer = running ∧ periodic = per ∧ fn = f := by
    simpa using hcontrol.symm.trans hc
  have hcall := hinv.callback now timer periodic fn hcontrol
  rcases hcases with ⟨hback, rfl⟩ | ⟨hback, rfl⟩
  · refine ⟨?_, fun _ => rfl⟩
    rintro ⟨hperiodic, htouched⟩
    have hu := hcall.untouched htouched
    have hpos := hu.periodic_eq
    simp only [putsBack, hperiodic, hu.not_mem, ← hpos] at hback
    cases hback
  obtain ⟨htouched, _⟩ := hinv.untouched_of_puts_back hcontrol hback
  have hu := hcall.untouched htouched
  refine ⟨fun _ => ⟨mem_insert_timer_in_queue.mpr (.inl rfl), ?_, ?_⟩, ?_⟩
  · simp only [History.putBack, update_self]
    exact rescheduled_eq hu.armed.scheduled hu.armed.period_lt hu.due_le hu.lt_due
  · simp only [History.putBack, update_self]
  · rintro (hperiodic | hset)
    · simp [putsBack, hperiodic] at hback
    · rw [hset] at htouched
      cases htouched

/-- The timer queue of one processor, in every run whose times stay in the window. The queue is
ordered by the comparison of the source. A timer set for one run runs at most once. A tick runs
timers that are due, in the order of their due times, and no more than twice as many as were due
when it came; its loop can always go on, and when it ends nothing that was due is left in the
queue, and all that was due when it came has run or was cancelled. A periodic timer is put back
for the next time it is due unless its callback has set or cancelled it. -/
theorem timer_queue_correct {clock : ℕ} (h : Reachable clock InWindow s) :
    (s.queue.Pairwise fun i j =>
      timeGt (s.timer i).scheduledTime (s.timer j).scheduledTime = false) ∧
    (∀ i, s.history.oneshot i = true → s.history.firings i ≤ 1) ∧
    (∀ now, s.control.now? = some now →
      now ≤ s.clock ∧ (∀ run ∈ s.history.ran, run.2 ≤ now) ∧
      (s.history.ran.Pairwise fun a b => a.2 ≤ b.2) ∧
      s.history.ran.length ≤ 2 * s.history.reached.length) ∧
    (∀ now, s.control = .tick now →
      (∃ s', step s .tickCall = some s') ∨ ∃ s', step s .tickEnd = some s') ∧
    (∀ now s', s.control = .tick now → step s .tickEnd = some s' →
      (∀ i ∈ s.queue, now < s.history.due i) ∧
      ∀ i ∈ s.history.reached, i ∈ s.history.ran.map Prod.fst ∨ i ∈ s.history.cancelled) ∧
    (∀ now timer periodic fn s', s.control = .callback now timer periodic fn →
      step s .tickReturn = some s' →
      (periodic = true ∧ s.history.touched = false →
        timer ∈ s'.queue ∧ (s'.timer timer).scheduledTime = timeAt (s'.history.due timer) ∧
        s'.history.due timer =
          nextDue (s.history.due timer) (s.timer timer).periodicTime.toNat now) ∧
      (periodic = false ∨ s.history.touched = true → s'.queue = s.queue)) := by
  have hinv := reachable_inv h
  refine ⟨hinv.ordered, fun i hi => (hinv.once i hi).firings_le, ?_, ?_, ?_, ?_⟩
  · intro now hnow
    have ht := hinv.tick now hnow
    have hbudget := ht.budget
    exact ⟨ht.now_le, fun run hrun => (ht.ran_le run hrun).1, ht.ran_sorted, by omega⟩
  · intro now hcontrol
    exact hinv.tick_progress hcontrol
  · intro now s' hcontrol hstep
    have hlt := hinv.lt_due_of_tick_end hcontrol hstep
    refine ⟨hlt, ?_⟩
    intro i hi
    rcases (hinv.tick now (by rw [hcontrol]; rfl)).reached i hi with ⟨hmem, hle⟩ | hdone
    · have hnot := hlt i hmem
      omega
    · exact hdone
  · intro now timer periodic fn s' hcontrol hstep
    exact hinv.put_back hcontrol hstep

/-- Two timers, one of them periodic and late, around a wrap of the counter: the tick has run both
in the order they were due. -/
theorem timer_queue_correct_wrapping :
    ∃ s : State (Fin 2) Unit, Reachable (2 ^ 32 - 5) InWindow s ∧
      s.history.ran.map Prod.fst = [1, 0] ∧
      s.queue.Pairwise fun i j =>
        timeGt (s.timer i).scheduledTime (s.timer j).scheduledTime = false := by
  obtain ⟨s, hreach, hran⟩ := exists_reachable step InWindow (initial (2 ^ 32 - 5))
    (P := fun s : State (Fin 2) Unit => s.history.ran.map Prod.fst = [1, 0])
    [.setOneshot 0 10 (), .setPeriodic 1 3 (), .advance 12, .tickBegin, .tickCall, .tickReturn,
      .tickCall, .tickReturn] (by decide) (by decide)
  exact ⟨s, hreach, hran, (timer_queue_correct hreach).1⟩

/-- Delays and periods below `2 ^ 31`, and nothing more. -/
def ShortDelays (_ : State Id Fn) : Action Id Fn → Prop
  | .setOneshot _ delay _ | .setPeriodic _ delay _ => delay.toNat < 2 ^ 31
  | _ => True

/-- `ShortDelays` can be checked along a run. -/
instance (s : State Id Fn) (action : Action Id Fn) : Decidable (ShortDelays s action) := by
  cases action <;> unfold ShortDelays <;> infer_instance

/-- A tick can leave a timer in the queue that is due: timer 0 is two milliseconds late when
timer 1 is set with the longest delay, which the comparison of the source takes for earlier. -/
theorem due_timer_skipped :
    ∃ s s' : State (Fin 2) Unit, Reachable 0 ShortDelays s ∧ s.control = .tick 3 ∧
      step s .tickEnd = some s' ∧ 0 ∈ s.history.reached ∧ s.history.due 0 ≤ 3 ∧ 0 ∈ s.queue ∧
      s.history.ran = [] ∧ s.history.cancelled = [] := by
  obtain ⟨s, hreach, hcontrol, hend, hskipped⟩ := exists_reachable step
    ShortDelays (initial 0)
    (P := fun s : State (Fin 2) Unit => s.control = .tick 3 ∧ (step s .tickEnd).isSome ∧
      0 ∈ s.history.reached ∧ s.history.due 0 ≤ 3 ∧ 0 ∈ s.queue ∧
      s.history.ran = [] ∧ s.history.cancelled = [])
    [.setOneshot 0 1 (), .advance 3, .setOneshot 1 0x7FFFFFFF#32 (), .tickBegin]
    (by decide) (by decide)
  obtain ⟨s', hs'⟩ := Option.isSome_iff_exists.mp hend
  exact ⟨s, s', hreach, hcontrol, hs', hskipped⟩

end Window

end Timer

end NusaKernel
