import NusaKernel.Kernel.Timer

/-!
# Network timers

`lib/minip/net_timer.c`: `net_timer_set` puts a timer into a queue under a lock and signals an event
when it has released the lock. The worker thread waits for the event, takes the timers that are due
off the queue under the lock, and calls their callbacks without it. When the queue is empty it
unsignals the event.

Each arming of a timer is recorded with what becomes of it. `armings_run_once`: as long as a timer
is not set between the worker's taking it off the queue and calling its callback, and times lie in a
window of half the range of the counter, an arming runs its own callback with its own argument once
and not too early, and none is forgotten. The worker reads the callback from the timer after it has
released the lock, so that a timer that is set in between runs the new callback instead
(`set_after_taken`).

The sections under the lock are one step each. A callback sets and cancels timers as any thread
does.
-/

namespace NusaKernel.NetTimers

open List Function Option

/-- `net_timer_t`. -/
structure NetTimer (Fn Arg : Type*) where
  cb : Fn
  arg : Arg
  schedTime : Time

/-- A call of `net_timer_set`, with the time it has read. -/
structure SetCall (Id Fn Arg : Type*) where
  timer : Id
  cb : Fn
  arg : Arg
  delay : Time
  now : ℕ

/-- Where the worker is: waiting for the event, in the loop with the time it has read, about to call
the callback of a timer it has taken off the queue, in a callback, or asleep. A timer it has taken
is named with its arming. -/
inductive Worker (Id : Type*) where
  | waiting
  | loop (now : ℕ)
  | taken (now : ℕ) (timer : Id) (arming : ℕ)
  | calling (now : ℕ)
  | sleeping
deriving DecidableEq

/-- The time that the worker has read. -/
def Worker.now? {Id : Type*} : Worker Id → Option ℕ
  | .loop now | .taken now _ _ | .calling now => some now
  | .waiting | .sleeping => none

/-- The timer that the worker has taken. -/
def Worker.taken? {Id : Type*} : Worker Id → Option Id
  | .taken _ timer _ => some timer
  | _ => none

/-- What has become of an arming. -/
inductive ArmState where
  | queued
  | cancelled
  | replaced
  | taken
  | done
deriving DecidableEq

/-- A timer that was set, and the callbacks that were run for it, with their times. -/
structure Arming (Id Fn Arg : Type*) where
  timer : Id
  cb : Fn
  arg : Arg
  due : ℕ
  state : ArmState
  runs : List (Fn × Arg × ℕ)
deriving DecidableEq

/-- The timers, the queue, the event and the worker; the calls of `net_timer_set` before they take
the lock, and the number of those that have still to signal the event. Along with them the armings,
the last one of each timer and when it is due, and what the calls have reported: whether a timer was
queued, and whether it has an arming that is queued. -/
structure State (Id Fn Arg : Type*) where
  timer : Id → NetTimer Fn Arg
  queue : List Id
  event : Bool
  worker : Worker Id
  started : List (SetCall Id Fn Arg)
  unsignaled : ℕ
  clock : ℕ
  armings : ℕ → Arming Id Fn Arg
  count : ℕ
  current : Id → ℕ
  due : Id → ℕ
  reports : List (Bool × Bool)

inductive Action (Id Fn Arg : Type*) where
  | advance (ms : ℕ)
  | setBegin (timer : Id) (cb : Fn) (arg : Arg) (delay : Time)
  | setInsert (n : ℕ)
  | setSignal
  | cancel (timer : Id)
  | wake
  | check
  | call
  | callbackReturn
  | sleepEnd

variable {Id Fn Arg : Type*} [DecidableEq Id]

/-- `add_to_queue`, as the queue of the kernel's timers. -/
def addToQueue (schedTime : Id → Time) (t : Id) (queue : List Id) : List Id :=
  Timer.insertTimerInQueue schedTime t queue

variable (s : State Id Fn Arg)

/-- An arming of the timer is queued. -/
def State.armed (t : Id) : Bool :=
  (range s.count).any fun k => (s.armings k).timer = t && (s.armings k).state = .queued

/-- The timer is deleted from the queue if it is in it. -/
def State.withdraw (t : Id) (state : ArmState) : State Id Fn Arg :=
  if t ∈ s.queue then
    { s with
      queue := s.queue.erase t
      armings := update s.armings (s.current t)
        { s.armings (s.current t) with state := state } }
  else s

theorem State.withdraw_eq (t : Id) (state : ArmState) :
    (s.withdraw t state).queue = s.queue.erase t ∧ (s.withdraw t state).worker = s.worker ∧
      (s.withdraw t state).clock = s.clock ∧ (s.withdraw t state).due = s.due := by
  unfold State.withdraw
  split
  · exact ⟨rfl, rfl, rfl, rfl⟩
  · next hnot => exact ⟨(erase_of_not_mem hnot).symm, rfl, rfl, rfl⟩

/-- The timer is put into the queue. -/
def State.enqueue (call : SetCall Id Fn Arg) : State Id Fn Arg :=
  let timer := update s.timer call.timer ⟨call.cb, call.arg, timeAt call.now + call.delay⟩
  let due := call.now + call.delay.toNat
  { s with
    timer := timer
    queue := addToQueue (fun i => (timer i).schedTime) call.timer s.queue
    unsignaled := s.unsignaled + 1
    armings := update s.armings s.count
      ⟨call.timer, call.cb, call.arg, due, .queued, []⟩
    current := update s.current call.timer s.count
    due := update s.due call.timer due
    count := s.count + 1 }

/-- What a call reports. -/
def State.report (reported armed : Bool) : State Id Fn Arg :=
  { s with reports := s.reports ++ [(reported, armed)] }

/-- One round of the loop in `net_timer_work_routine`, under the lock. -/
def State.check (now : ℕ) : State Id Fn Arg :=
  match s.queue with
  | [] => { s with event := false, worker := .waiting }
  | e :: rest =>
    if timeGt (s.timer e).schedTime (timeAt now) then { s with worker := .sleeping }
    else { s with
      queue := rest
      worker := .taken now e (s.current e)
      armings := update s.armings (s.current e)
        { s.armings (s.current e) with state := .taken } }

/-- The call of a callback. -/
def State.run (now : ℕ) (e : Id) (k : ℕ) : State Id Fn Arg :=
  { s with
    worker := .calling now
    armings := update s.armings k { s.armings k with
      state := .done
      runs := (s.armings k).runs ++ [((s.timer e).cb, (s.timer e).arg, s.clock)] } }

def State.step : Action Id Fn Arg → Option (State Id Fn Arg)
  | .advance ms => some { s with clock := s.clock + ms }
  | .setBegin timer cb arg delay =>
    some { s with started := s.started ++ [⟨timer, cb, arg, delay, s.clock⟩] }
  | .setInsert n =>
    (s.started[n]?).map fun call =>
      (({ s with started := s.started.eraseIdx n }.withdraw call.timer .replaced).enqueue
        call).report (!decide (call.timer ∈ s.queue)) !s.armed call.timer
  | .setSignal =>
    if s.unsignaled = 0 then none
    else some { s with event := true, unsignaled := s.unsignaled - 1 }
  | .cancel timer =>
    some ((s.withdraw timer .cancelled).report (decide (timer ∈ s.queue)) (s.armed timer))
  | .wake =>
    if s.worker = .waiting ∧ s.event then some { s with worker := .loop s.clock } else none
  | .check =>
    match s.worker with
    | .loop now => some (s.check now)
    | _ => none
  | .call =>
    match s.worker with
    | .taken now e k => some (s.run now e k)
    | _ => none
  | .callbackReturn =>
    match s.worker with
    | .calling now => some { s with worker := .loop now }
    | _ => none
  | .sleepEnd => if s.worker = .sleeping then some { s with worker := .waiting } else none

/-- No timer is set, and the worker waits. -/
structure Initial (s : State Id Fn Arg) : Prop where
  queue : s.queue = []
  worker : s.worker = .waiting
  started : s.started = []
  count : s.count = 0
  reports : s.reports = []

/-- A timer is not put into the queue when the worker has taken it and not called its callback, and
is then due less than 2^31 ms after the time that the worker has read, and at most 2^31 ms before or
after the other timers in the queue and the time it is. The worker is not 2^31 ms late. -/
def Punctual : Action Id Fn Arg → Prop
  | .advance ms => ∀ i ∈ s.queue, s.clock + ms ≤ s.due i + 2 ^ 31
  | .setInsert n => ∀ call ∈ s.started[n]?,
      (∀ i ∈ s.queue.erase call.timer, call.now + call.delay.toNat ≤ s.due i + 2 ^ 31 ∧
        s.due i < call.now + call.delay.toNat + 2 ^ 31) ∧
      call.delay.toNat < 2 ^ 31 ∧ s.clock ≤ call.now + call.delay.toNat + 2 ^ 31 ∧
      (∀ now ∈ s.worker.now?, call.now + call.delay.toNat < now + 2 ^ 31) ∧
      s.worker.taken? ≠ some call.timer
  | _ => True

/-- `Punctual` can be checked along a run. -/
instance (s : State Id Fn Arg) : DecidablePred (Punctual s) := fun action => by
  unfold Punctual
  split <;> infer_instance

/-! ## The invariant -/

/-- What has become of an arming, and what was run for it. -/
def State.Sound (k : ℕ) (a : Arming Id Fn Arg) : Prop :=
  match a.state with
  | .queued => a.timer ∈ s.queue ∧ s.current a.timer = k ∧ a.runs = []
  | .cancelled | .replaced => a.runs = []
  | .taken => (∃ now, s.worker = .taken now a.timer k) ∧ a.runs = []
  | .done => ∃ time, a.due ≤ time ∧ a.runs = [(a.cb, a.arg, time)]

omit [DecidableEq Id] in
/-- What holds of an arming depends only on the queue and the worker. -/
theorem State.Sound.mono {s s' : State Id Fn Arg} {k : ℕ} {a : Arming Id Fn Arg} (h : s.Sound k a)
    (hqueue : a.timer ∈ s.queue → s.current a.timer = k →
      a.timer ∈ s'.queue ∧ s'.current a.timer = k)
    (hworker : ∀ now, s.worker = .taken now a.timer k → s'.worker = .taken now a.timer k) :
    s'.Sound k a := by
  unfold State.Sound at h ⊢
  generalize a.state = state at h ⊢
  cases state with
  | queued => exact ⟨(hqueue h.1 h.2.1).1, (hqueue h.1 h.2.1).2, h.2.2⟩
  | cancelled => exact h
  | replaced => exact h
  | taken => exact ⟨h.1.imp hworker, h.2⟩
  | done => exact h

/-- A timer holds what it was set to. -/
def Holds (i : Id) (k : ℕ) : Prop :=
  k < s.count ∧ (s.armings k).timer = i ∧ (s.armings k).cb = (s.timer i).cb ∧
    (s.armings k).arg = (s.timer i).arg

structure State.Inv (s : State Id Fn Arg) : Prop where
  nodup : s.queue.Nodup
  sorted : s.queue.Pairwise fun i j => s.due i ≤ s.due j
  late : ∀ i ∈ s.queue, s.clock ≤ s.due i + 2 ^ 31
  early : ∀ i ∈ s.queue, s.due i < s.clock + 2 ^ 31
  now : ∀ now, s.worker.now? = some now → now ≤ s.clock ∧ ∀ i ∈ s.queue, s.due i < now + 2 ^ 31
  started : ∀ call ∈ s.started, call.now ≤ s.clock
  queued : ∀ i ∈ s.queue, Holds s i (s.current i) ∧ (s.armings (s.current i)).state = .queued ∧
    (s.armings (s.current i)).due = s.due i ∧ (s.timer i).schedTime = timeAt (s.due i)
  armings : ∀ k < s.count, s.Sound k (s.armings k)
  taken : ∀ now i k, s.worker = .taken now i k → i ∉ s.queue ∧ Holds s i k ∧
    (s.armings k).state = .taken ∧ (s.armings k).due ≤ now
  event : s.queue = [] ∨ s.event = true ∨ 0 < s.unsignaled
  reports : ∀ report ∈ s.reports, report.1 = report.2

namespace State.Inv

variable {s : State Id Fn Arg} {worker : Worker Id} {now : ℕ} {s' s'' : State Id Fn Arg} {e : Id}
  {rest : List Id}

section

variable (h : s.Inv) {state : ArmState}
include h

/-- A timer is queued if one of its armings is. -/
theorem armed_eq (t : Id) : s.armed t = decide (t ∈ s.queue) := by
  rw [State.armed, Bool.eq_iff_iff, decide_eq_true_iff, List.any_eq_true]
  constructor
  · rintro ⟨k, hk, hqueued⟩
    have hsound := h.armings k (mem_range.mp hk)
    simp only [Bool.and_eq_true, decide_eq_true_eq] at hqueued
    rw [State.Sound, hqueued.2] at hsound
    exact hqueued.1 ▸ hsound.1
  · intro ht
    obtain ⟨hholds, hstate, -⟩ := h.queued t ht
    exact ⟨s.current t, mem_range.mpr hholds.1, by simp [hholds.2.1, hstate]⟩

omit [DecidableEq Id] in
/-- The current armings of two timers in the queue differ. -/
theorem current_ne {i j : Id} (hi : i ∈ s.queue) (hj : j ∈ s.queue) (hne : i ≠ j) :
    s.current i ≠ s.current j := by
  intro heq
  have htimer := (h.queued i hi).1.2.1
  rw [heq, (h.queued j hj).1.2.1] at htimer
  exact hne htimer.symm

/-- The arming of a timer that is queued ends, and the timer is not in the queue any more. -/
theorem remove {t : Id} (ht : t ∈ s.queue)
    (hend : (state = .cancelled ∨ state = .replaced) ∧ worker = s.worker ∨
      ∃ now, state = .taken ∧ s.worker = .loop now ∧ worker = .taken now t (s.current t) ∧
        s.due t ≤ now) :
    State.Inv { s with
      queue := s.queue.erase t
      worker := worker
      armings := update s.armings (s.current t)
        { s.armings (s.current t) with state := state } } := by
  have hmem (i : Id) (hi : i ∈ s.queue.erase t) : i ∈ s.queue ∧ i ≠ t :=
    ⟨mem_of_mem_erase hi, fun heq => h.nodup.not_mem_erase (heq ▸ hi)⟩
  have hnow : worker.now? = s.worker.now? := by grind [Worker.now?]
  obtain ⟨hholds, hstate, hdue, hsched⟩ := h.queued t ht
  have hruns : (s.armings (s.current t)).runs = [] := by grind [h.armings _ hholds.1, State.Sound]
  refine ⟨h.nodup.erase t, h.sorted.sublist erase_sublist, fun i hi => h.late i (hmem i hi).1,
    fun i hi => h.early i (hmem i hi).1, fun now hn => ?_, h.started, fun i hi => ?_,
    fun k hk => ?_, fun now i k hw => ?_, ?_, h.reports⟩
  · obtain ⟨hle, hlt⟩ := h.now now (hnow ▸ hn)
    exact ⟨hle, fun i hi => hlt i (hmem i hi).1⟩
  · obtain ⟨hq, hne⟩ := hmem i hi
    obtain ⟨⟨hlt, htimer, hcb, harg⟩, hrest⟩ := h.queued i hq
    have hcur := h.current_ne hq ht hne
    exact ⟨⟨hlt, by grind, by grind, by grind⟩, by grind⟩
  · have hsound := h.armings k hk
    show State.Sound _ k (update s.armings (s.current t) _ k)
    by_cases hkt : k = s.current t
    · subst hkt
      rw [update_self]
      rcases hend with ⟨rfl | rfl, -⟩ | ⟨now, rfl, -, rfl, -⟩
      · exact hruns
      · exact hruns
      · exact ⟨⟨now, by rw [hholds.2.1]⟩, hruns⟩
    · rw [update_of_ne hkt]
      refine hsound.mono (fun hq hcur => ⟨?_, hcur⟩) fun now hw => ?_
      · exact (mem_erase_of_ne fun heq => hkt (heq ▸ hcur).symm).mpr hq
      · grind
  · rcases hend with ⟨-, rfl⟩ | ⟨now', rfl, -, rfl, hle⟩
    · obtain ⟨hnot, ⟨hlt, htimer, hcb, harg⟩, htaken, hdue'⟩ := h.taken now i k hw
      refine ⟨fun hi => hnot (hmem i hi).1, ⟨hlt, ?_, ?_, ?_⟩, ?_, ?_⟩ <;> grind
    · cases hw
      obtain ⟨hlt, htimer, hcb, harg⟩ := hholds
      refine ⟨h.nodup.not_mem_erase, ⟨hlt, ?_, ?_, ?_⟩, ?_, ?_⟩ <;> grind
  · grind [h.event]

/-- A timer that is not wanted any more leaves the queue. -/
theorem withdraw (t : Id) (hstate : state = .cancelled ∨ state = .replaced) :
    (s.withdraw t state).Inv := by
  unfold State.withdraw
  split
  · next ht => exact h.remove ht (.inl ⟨hstate, rfl⟩)
  · exact h

/-- A timer that is not queued, nor taken by the worker, enters the queue. -/
theorem enqueue {call : SetCall Id Fn Arg} (hnot : call.timer ∉ s.queue) (hnow : call.now ≤ s.clock)
    (hdelay : call.delay.toNat < 2 ^ 31) (hlate : s.clock ≤ call.now + call.delay.toNat + 2 ^ 31)
    (hwindow : ∀ i ∈ s.queue, call.now + call.delay.toNat ≤ s.due i + 2 ^ 31 ∧
      s.due i < call.now + call.delay.toNat + 2 ^ 31)
    (hworker : ∀ now ∈ s.worker.now?, call.now + call.delay.toNat < now + 2 ^ 31)
    (htaken : ∀ now k, s.worker ≠ .taken now call.timer k) : (s.enqueue call).Inv := by
  have hmem (i : Id) : i ∈ (s.enqueue call).queue ↔ i = call.timer ∨ i ∈ s.queue :=
    Timer.mem_insert_timer_in_queue
  have hne (i : Id) (hi : i ∈ s.queue) : i ≠ call.timer := fun heq => hnot (heq ▸ hi)
  have hold (k : ℕ) (hk : k < s.count) : (s.enqueue call).armings k = s.armings k :=
    update_of_ne hk.ne _ _
  have hnew : (s.enqueue call).armings s.count =
      ⟨call.timer, call.cb, call.arg, call.now + call.delay.toNat, .queued, []⟩ :=
    update_self _ _ _
  have hself : (s.enqueue call).due call.timer = call.now + call.delay.toNat ∧
      (s.enqueue call).current call.timer = s.count ∧ (s.enqueue call).timer call.timer =
        ⟨call.cb, call.arg, timeAt (call.now + call.delay.toNat)⟩ :=
    ⟨update_self _ _ _, update_self _ _ _, (update_self _ _ _).trans (by rw [time_at_add])⟩
  have hother (i : Id) (hi : i ≠ call.timer) : (s.enqueue call).due i = s.due i ∧
      (s.enqueue call).current i = s.current i ∧ (s.enqueue call).timer i = s.timer i :=
    ⟨update_of_ne hi _ _, update_of_ne hi _ _, update_of_ne hi _ _⟩
  refine ⟨?_, ?_, fun i hi => ?_, fun i hi => ?_, fun now hn => ⟨(h.now now hn).1, fun i hi => ?_⟩,
    h.started, fun i hi => ?_, fun k hk => ?_, fun now i k hw => ?_, .inr (.inr (Nat.succ_pos _)),
    h.reports⟩
  · exact (Timer.insert_timer_in_queue_perm _ _ _).nodup_iff.mpr
      (nodup_cons.mpr ⟨hnot, h.nodup⟩)
  · refine Timer.insert_timer_in_queue_sorted (fun entry hentry => ?_)
      (h.sorted.imp_of_mem fun {i j} hi hj hle => ?_)
    · show timeGt ((s.enqueue call).timer entry).schedTime
        ((s.enqueue call).timer call.timer).schedTime = _
      obtain ⟨hd, hc, ht⟩ := hother entry (hne entry hentry)
      rw [ht, hself.2.2, hd, hself.1, (h.queued entry hentry).2.2.2]
      exact time_gt_time_at (hwindow entry hentry).1 (hwindow entry hentry).2
    · rw [(hother i (hne i hi)).1, (hother j (hne j hj)).1]
      exact hle
  · rcases (hmem i).mp hi with rfl | hq
    · exact hself.1 ▸ hlate
    · exact (hother i (hne i hq)).1 ▸ h.late i hq
  · rcases (hmem i).mp hi with rfl | hq
    · show _ < s.clock + 2 ^ 31
      omega
    · exact (hother i (hne i hq)).1 ▸ h.early i hq
  · rcases (hmem i).mp hi with rfl | hq
    · exact hself.1 ▸ hworker now hn
    · exact (hother i (hne i hq)).1 ▸ (h.now now hn).2 i hq
  · rcases (hmem i).mp hi with rfl | hq
    · obtain ⟨hdue, hcur, htimer⟩ := hself
      rw [hcur, hnew, hdue, htimer]
      exact ⟨⟨Nat.lt_succ_self _, by rw [hnew], by rw [hnew, htimer], by rw [hnew, htimer]⟩,
        rfl, rfl, rfl⟩
    · obtain ⟨⟨hlt, htimer, hcb, harg⟩, hrest⟩ := h.queued i hq
      obtain ⟨hd, hc, ht⟩ := hother i (hne i hq)
      rw [hc, hold _ hlt, hd, ht]
      exact ⟨⟨Nat.lt_succ_of_lt hlt, by rw [hold _ hlt, htimer], by rw [hold _ hlt, ht, hcb],
        by rw [hold _ hlt, ht, harg]⟩, hrest⟩
  · rcases Nat.lt_succ_iff_lt_or_eq.mp hk with hlt | rfl
    · rw [hold k hlt]
      have hsound := h.armings k hlt
      exact hsound.mono (fun hq hcur => ⟨(hmem _).mpr (.inr hq),
        (hother _ (hne _ hq)).2.1.trans hcur⟩)
        fun now hw => hw
    · rw [hnew]
      exact ⟨(hmem _).mpr (.inl rfl), hself.2.1, rfl⟩
  · obtain ⟨hq, ⟨hlt, htimer, hcb, harg⟩, hrest⟩ := h.taken now i k hw
    have hi : i ≠ call.timer := fun heq => htaken now k (heq ▸ hw)
    have ht := (hother i hi).2.2
    rw [hold k hlt]
    exact ⟨fun hin => ((hmem i).mp hin).elim hi hq,
      ⟨Nat.lt_succ_of_lt hlt, by rw [hold _ hlt, htimer],
      by rw [hold _ hlt, ht, hcb], by rw [hold _ hlt, ht, harg]⟩, hrest⟩

omit [DecidableEq Id] in
/-- A call that reports whether the timer was queued. -/
theorem report {reported armed : Bool} (heq : reported = armed) : (s.report reported armed).Inv :=
  { h with reports := fun report hreport => by grind [h.reports, State.report] }

omit [DecidableEq Id] in
/-- The worker goes on, and the armings stay as they are. -/
theorem move {event : Bool} {unsignaled : ℕ} (hnot : ∀ now i k, s.worker ≠ .taken now i k)
    (hnot' : ∀ now i k, worker ≠ .taken now i k)
    (hnow : ∀ now, worker.now? = some now → s.worker.now? = some now ∨ now = s.clock)
    (hevent : s.queue = [] ∨ event = true ∨ 0 < unsignaled) :
    State.Inv { s with worker := worker, event := event, unsignaled := unsignaled } := by
  refine { h with
    now := fun now hn => ?_
    armings := fun k hk => ?_
    taken := fun now i k hw => absurd hw (hnot' now i k)
    event := hevent }
  · rcases hnow now hn with hsame | rfl
    · exact h.now now hsame
    · exact ⟨le_rfl, h.early⟩
  · exact (h.armings k hk).mono (fun hq hcur => ⟨hq, hcur⟩) fun now hw => absurd hw (hnot _ _ _)

/-- The worker looks at the head of the queue. -/
theorem check (hw : s.worker = .loop now) : (s.check now).Inv := by
  have hnot : ∀ now i k, s.worker ≠ .taken now i k := by simp [hw]
  unfold State.check
  split
  · next hqueue => exact h.move hnot (by simp) (by simp [Worker.now?]) (.inl hqueue)
  next e rest hqueue =>
  have he : e ∈ s.queue := by simp [hqueue]
  split
  · exact h.move hnot (by simp) (by simp [Worker.now?]) h.event
  next hdue =>
  obtain ⟨hle, hlt⟩ := h.now now (by rw [hw]; rfl)
  have hlate := h.late e he
  rw [(h.queued e he).2.2.2, time_gt_time_at (by omega) (hlt e he), decide_eq_true_iff,
    Nat.not_lt] at hdue
  have hrest : rest = s.queue.erase e := by rw [hqueue, erase_cons_head]
  have hinv := h.remove he (.inr ⟨now, rfl, hw, rfl, hdue⟩)
  rw [← hrest] at hinv
  exact hinv

omit [DecidableEq Id] in
/-- The worker calls the callback of the timer it has taken. -/
theorem run {k : ℕ} (hw : s.worker = .taken now e k) : (s.run now e k).Inv := by
  obtain ⟨hq, ⟨hlt, htimer, hcb, harg⟩, hstate, hdue⟩ := h.taken now e k hw
  obtain ⟨hle, hearly⟩ := h.now now (by rw [hw]; rfl)
  have hruns : (s.armings k).runs = [] := by grind [h.armings k hlt, State.Sound]
  refine { h with
    now := fun now' hn => ?_
    queued := fun i hi => ?_
    armings := fun j hj => ?_
    taken := fun _ _ _ hw' => (nomatch hw') }
  · cases hn
    exact ⟨hle, hearly⟩
  · obtain ⟨⟨hlt', htimer', hcb', harg'⟩, hstate', hrest⟩ := h.queued i hi
    have hne : s.current i ≠ k := by grind
    have hkeep : (s.run now e k).armings (s.current i) = s.armings (s.current i) :=
      update_of_ne hne _ _
    exact ⟨⟨hlt', hkeep ▸ htimer', hkeep ▸ hcb', hkeep ▸ harg'⟩, hkeep ▸ ⟨hstate', hrest⟩⟩
  have hsound := h.armings j hj
  show State.Sound _ j (update s.armings k _ j)
  by_cases hjk : j = k
  · subst hjk
    rw [update_self]
    exact ⟨s.clock, hdue.trans hle, by rw [hruns, hcb, harg]; rfl⟩
  · rw [update_of_ne hjk]
    exact hsound.mono (fun hq hcur => ⟨hq, hcur⟩) fun now' hw' => absurd hw' (by grind)

/-- Every step that is punctual keeps the invariant. -/
theorem step {action : Action Id Fn Arg} (hguard : Punctual s action)
    (hstep : s.step action = some s') : s'.Inv := by
  cases action with
  | advance ms =>
    cases hstep
    exact { h with
      late := hguard
      early := fun i hi => (h.early i hi).trans_le (by simp)
      now := fun now hn => ⟨(h.now now hn).1.trans (Nat.le_add_right _ _), (h.now now hn).2⟩
      started := fun call hcall => (h.started call hcall).trans (Nat.le_add_right _ _) }
  | setBegin timer cb arg delay =>
    cases hstep
    exact { h with
      started := forall_mem_append.mpr ⟨h.started, forall_mem_singleton.mpr (Nat.le_refl _)⟩ }
  | setInsert n =>
    obtain ⟨call, hcall, rfl⟩ := map_eq_some_iff.mp hstep
    obtain ⟨hwindow, hdelay, hlate, hworker, htaken⟩ := hguard call hcall
    have hstarted : State.Inv { s with started := s.started.eraseIdx n } :=
      { h with started := fun call hcall => h.started call (mem_of_mem_eraseIdx hcall) }
    have hsame := State.withdraw_eq { s with started := s.started.eraseIdx n } call.timer .replaced
    generalize hmid : State.withdraw { s with started := s.started.eraseIdx n } call.timer
      .replaced = mid at hsame ⊢
    obtain ⟨hqueue, hwork, hclock, hdue⟩ := hsame
    have hin : mid.Inv := hmid ▸ hstarted.withdraw call.timer (.inr rfl)
    refine (hin.enqueue ?_ ?_ hdelay ?_ ?_ ?_ fun now k hw => ?_).report ?_
    · exact hqueue ▸ h.nodup.not_mem_erase
    · exact hclock ▸ h.started call (mem_of_getElem? hcall)
    · exact hclock ▸ hlate
    · exact hqueue ▸ hdue ▸ hwindow
    · exact hwork ▸ hworker
    · exact htaken (hwork ▸ congrArg Worker.taken? hw)
    · rw [h.armed_eq]
  | setSignal =>
    obtain ⟨-, hsome⟩ := ite_none_left_eq_some.mp hstep
    cases hsome
    exact { h with event := .inr (.inl rfl) }
  | cancel timer =>
    cases hstep
    exact (h.withdraw timer (.inl rfl)).report (h.armed_eq timer).symm
  | wake =>
    obtain ⟨⟨hw, hevent⟩, hsome⟩ := ite_none_right_eq_some.mp hstep
    cases hsome
    exact h.move (by simp [hw]) (by simp) (fun now hn => .inr (some.inj hn).symm) h.event
  | check =>
    simp only [State.step] at hstep
    split at hstep
    · next now hw =>
      cases hstep
      exact h.check hw
    · cases hstep
  | call =>
    simp only [State.step] at hstep
    split at hstep
    · next now e k hw =>
      cases hstep
      exact h.run hw
    · cases hstep
  | callbackReturn =>
    simp only [State.step] at hstep
    split at hstep
    · next now hw =>
      cases hstep
      exact h.move (by simp [hw]) (by simp) (by simp [hw, Worker.now?]) h.event
    · cases hstep
  | sleepEnd =>
    obtain ⟨hw, hsome⟩ := ite_none_right_eq_some.mp hstep
    cases hsome
    exact h.move (by simp [hw]) (by simp) (by simp [Worker.now?]) h.event

end

omit [DecidableEq Id] in
theorem initial (h : Initial s) : s.Inv := by
  obtain ⟨hqueue, hworker, hstarted, hcount, hreports⟩ := h
  refine ⟨by simp [hqueue], by simp [hqueue], by simp [hqueue], by simp [hqueue],
    fun now hn => ?_, by simp [hstarted], by simp [hqueue], by simp [hcount], by simp [hworker],
    .inl hqueue, by simp [hreports]⟩
  rw [hworker] at hn
  cases hn

/-! ## Queued timers run -/

/-- The worker and time go on from `s` to `s'`, and no timer is set. -/
structure Follows (s s' : State Id Fn Arg) : Prop where
  inv : s'.Inv
  reachable : ∀ init, Transition.Reachable State.step Punctual init s →
    Transition.Reachable State.step Punctual init s'
  current : s'.current = s.current

theorem Follows.refl (h : s.Inv) : Follows s s := ⟨h, fun _ => id, rfl⟩

theorem Follows.trans (h : Follows s s') (h' : Follows s' s'') : Follows s s'' :=
  ⟨h'.inv, fun init hreach => h'.reachable init (h.reachable init hreach),
    h'.current.trans h.current⟩

theorem Follows.step (h : Follows s s') (action : Action Id Fn Arg) (hguard : Punctual s' action)
    (hstep : s'.step action = some s'') (hcurrent : s''.current = s'.current) : Follows s s'' :=
  ⟨h.inv.step hguard hstep, fun init hreach => .step (h.reachable init hreach) hguard hstep,
    hcurrent.trans h.current⟩

/-- The worker comes to look at a queue that is not empty. -/
theorem awake (h : s.Inv) (hqueue : s.queue ≠ [])
    (hw : s.worker = .waiting ∨ s.worker = .sleeping) :
    ∃ s', Follows s s' ∧ s'.queue = s.queue ∧ s'.due = s.due ∧ s'.worker = .loop s.clock := by
  have hwait : Follows s { s with worker := .waiting } := by
    rcases hw with hw | hw
    · rw [← hw]
      exact .refl h
    · exact (Follows.refl h).step .sleepEnd trivial (if_pos hw) rfl
  have hsignal : ∃ n, Follows s { s with worker := .waiting, event := true, unsignaled := n } := by
    rcases h.event with hnil | hevent | hpos
    · exact absurd hnil hqueue
    · exact ⟨s.unsignaled, hevent ▸ hwait⟩
    · exact ⟨_, hwait.step .setSignal trivial (if_neg (Nat.pos_iff_ne_zero.mp hpos)) rfl⟩
  obtain ⟨n, hsignal⟩ := hsignal
  exact ⟨{ s with worker := .loop s.clock, event := true, unsignaled := n },
    hsignal.step .wake trivial (by simp [State.step]) rfl, rfl, rfl, rfl⟩

/-- The worker runs the timer at the head of the queue when it is due, and goes on. -/
theorem fire (h : s.Inv) (hw : s.worker = .loop now)
    (hqueue : s.queue = e :: rest) (hdue : s.due e ≤ now) :
    ∃ s', Follows s s' ∧ s'.queue = rest ∧ (s'.armings (s.current e)).state = .done := by
  have he : e ∈ s.queue := by simp [hqueue]
  obtain ⟨hle, hlt⟩ := h.now now (by rw [hw]; rfl)
  have hlate := h.late e he
  have hgt : ¬ timeGt (s.timer e).schedTime (timeAt now) = true := by
    rw [(h.queued e he).2.2.2, time_gt_time_at (by omega) (hlt e he), decide_eq_true_iff]
    omega
  have hcheck : s.step .check = some (s.check now) := by simp only [State.step, hw]
  have hfirst := (Follows.refl h).step .check trivial hcheck
    (by simp only [State.check, hqueue, if_neg hgt])
  simp only [State.check, hqueue, if_neg hgt] at hfirst
  have hlast := (hfirst.step .call trivial rfl rfl).step .callbackReturn trivial rfl rfl
  exact ⟨_, hlast, rfl, by simp [State.run]⟩

/-- The worker comes to look at the queue when its head is due. -/
theorem await (h : s.Inv) (hqueue : s.queue = e :: rest) :
    ∃ s' now, Follows s s' ∧ s'.queue = s.queue ∧ s'.worker = .loop now ∧ s'.due e ≤ now := by
  have he : ∀ i ∈ s.queue, s.due e ≤ s.due i := by
    have hsorted := h.sorted
    rw [hqueue, pairwise_cons] at hsorted
    rw [hqueue]
    exact forall_mem_cons.mpr ⟨le_rfl, hsorted.1⟩
  have hidle (s' : State Id Fn Arg) (hf : Follows s s') (hsame : s'.queue = s.queue)
      (hdue : s'.due = s.due) (hw : s'.worker = .waiting ∨ s'.worker = .sleeping) :
      ∃ s' now, Follows s s' ∧ s'.queue = s.queue ∧ s'.worker = .loop now ∧ s'.due e ≤ now := by
    have hlate := hf.inv.late
    rw [hsame, hdue] at hlate
    have hadvance := hf.step (.advance (s.due e - s'.clock)) (fun i hi => ?_) rfl rfl
    · obtain ⟨s'', hf', hsame', hdue', hw'⟩ := hadvance.inv.awake (by simp [hsame, hqueue]) hw
      refine ⟨s'', _, hadvance.trans hf', hsame'.trans hsame, hw', ?_⟩
      rw [hdue', hdue]
      exact le_add_tsub
    · have := hlate i (hsame ▸ hi)
      have := he i (hsame ▸ hi)
      rw [hdue]
      omega
  have hloop (s' : State Id Fn Arg) (hf : Follows s s') (hsame : s'.queue = s.queue)
      (hdue : s'.due = s.due) (now : ℕ) (hw : s'.worker = .loop now) :
      ∃ s' now, Follows s s' ∧ s'.queue = s.queue ∧ s'.worker = .loop now ∧ s'.due e ≤ now := by
    by_cases hnow : s'.due e ≤ now
    · exact ⟨s', now, hf, hsame, hw, hnow⟩
    have hhead : e ∈ s'.queue := by simp [hsame, hqueue]
    obtain ⟨hle, hlt⟩ := hf.inv.now now (by rw [hw]; rfl)
    have hgt : timeGt (s'.timer e).schedTime (timeAt now) = true := by
      rw [(hf.inv.queued e hhead).2.2.2, time_gt_time_at (by omega) (hlt e hhead)]
      exact decide_eq_true (by omega)
    have hcheck : s'.step .check = some { s' with worker := .sleeping } := by
      simp only [State.step, hw, State.check, hsame, hqueue, if_pos hgt]
    exact hidle _ (hf.step .check trivial hcheck rfl) hsame hdue (.inr rfl)
  cases hw : s.worker with
  | waiting => exact hidle s (.refl h) rfl rfl (.inl hw)
  | sleeping => exact hidle s (.refl h) rfl rfl (.inr hw)
  | loop now => exact hloop s (.refl h) rfl rfl now hw
  | taken now t k =>
    have hcall : s.step .call = some (s.run now t k) := by simp only [State.step, hw]
    exact hloop _ (((Follows.refl h).step .call trivial hcall rfl).step .callbackReturn trivial rfl
      rfl) rfl rfl now rfl
  | calling now =>
    have hreturn : s.step .callbackReturn = some { s with worker := .loop now } := by
      simp only [State.step, hw]
    exact hloop _ ((Follows.refl h).step .callbackReturn trivial hreturn rfl) rfl rfl now rfl

theorem queue_runs (h : s.Inv) (i : Id) (hi : i ∈ s.queue) :
    ∃ s', Follows s s' ∧ (s'.armings (s.current i)).state = .done := by
  generalize hqueue : s.queue = queue at hi
  induction queue generalizing s with
  | nil => cases hi
  | cons e rest ih =>
    obtain ⟨s₁, now, h₁, hsame, hw, hdue⟩ := h.await hqueue
    obtain ⟨s₂, h₂, hrest, hdone⟩ := h₁.inv.fire hw (hsame.trans hqueue) hdue
    have hcurrent := (h₁.trans h₂).current
    rcases mem_cons.mp hi with rfl | hi
    · exact ⟨s₂, h₁.trans h₂, h₁.current ▸ hdone⟩
    · obtain ⟨s₃, h₃, hdone⟩ := ih h₂.inv hrest hi
      exact ⟨s₃, (h₁.trans h₂).trans h₃, hcurrent ▸ hdone⟩

end State.Inv

/-- In every state that punctual steps reach, the queue is in the order in which the armings of its
timers are due. An arming is queued, and can then still run; or was cancelled or replaced while it
was queued, and has not run; or is about to be run; or has run once, with its own callback and
argument and not before it was due. Calls have reported whether the timer was queued, and the worker
does not wait for an event that nobody signals while the queue is not empty. -/
theorem armings_run_once {s : State Id Fn Arg}
    (h : Transition.Reachable State.step Punctual Initial s) :
    s.queue.Nodup ∧
      (s.queue.Pairwise fun i j =>
        (s.armings (s.current i)).due ≤ (s.armings (s.current j)).due) ∧
      (∀ k < s.count, s.Sound k (s.armings k) ∧ ((s.armings k).state = .queued →
        ∃ s', Transition.Reachable State.step Punctual (· = s) s' ∧
          (s'.armings k).state = .done)) ∧
      (∀ report ∈ s.reports, report.1 = report.2) ∧
      ¬ (s.queue ≠ [] ∧ s.event = false ∧ s.worker = .waiting ∧ s.unsignaled = 0) := by
  have hinv : s.Inv := h.invariant State.Inv.initial fun hs => hs.step
  refine ⟨hinv.nodup, hinv.sorted.imp_of_mem fun hi hj hle => ?_,
    fun k hk => ⟨hinv.armings k hk, fun hqueued => ?_⟩, hinv.reports, ?_⟩
  · rw [(hinv.queued _ hi).2.2.1, (hinv.queued _ hj).2.2.1]
    exact hle
  · have hsound := hinv.armings k hk
    rw [State.Sound, hqueued] at hsound
    obtain ⟨hmem, hcurrent, -⟩ := hsound
    obtain ⟨s', hfollows, hdone⟩ := hinv.queue_runs _ hmem
    exact ⟨s', hfollows.reachable _ (.init rfl), hcurrent ▸ hdone⟩
  rintro ⟨hqueue, hevent, -, hunsignaled⟩
  rcases hinv.event with hnil | htrue | hpos
  · exact hqueue hnil
  · rw [hevent] at htrue
    cases htrue
  · omega

/-- Nothing is set, shortly before the counter wraps. -/
def idleState : State Bool ℕ ℕ where
  timer := fun _ => ⟨0, 0, 0⟩
  queue := []
  event := false
  worker := .waiting
  started := []
  unsignaled := 0
  clock := 2 ^ 32 - 10
  armings := fun _ => ⟨false, 0, 0, 0, .done, []⟩
  count := 0
  current := fun _ => 0
  due := fun _ => 0
  reports := []

/-- One timer is set, cancelled, set and set again, the other is set and run when the counter has
wrapped. -/
def wrapRun : List (Action Bool ℕ ℕ) :=
  [.setBegin true 1 10 30, .setInsert 0, .cancel true, .setBegin true 2 20 30, .setSignal,
    .setInsert 0, .wake, .setBegin false 3 30 20, .setBegin true 4 40 50, .setInsert 1,
    .setInsert 0,
    .check, .sleepEnd, .advance 25, .wake, .check, .call, .callbackReturn, .check]

theorem armings_run_once_wrap :
    ∃ s : State Bool ℕ ℕ, (s.queue = [true] ∧ s.count = 4 ∧ s.worker = .sleeping) ∧
      s.queue.Nodup ∧
      (s.queue.Pairwise fun i j =>
        (s.armings (s.current i)).due ≤ (s.armings (s.current j)).due) ∧
      (∀ k < s.count, s.Sound k (s.armings k) ∧ ((s.armings k).state = .queued →
        ∃ s', Transition.Reachable State.step Punctual (· = s) s' ∧
          (s'.armings k).state = .done)) ∧
      (∀ report ∈ s.reports, report.1 = report.2) ∧
      ¬ (s.queue ≠ [] ∧ s.event = false ∧ s.worker = .waiting ∧ s.unsignaled = 0) := by
  have hrun : (Transition.run State.step idleState wrapRun).map
      (fun s => (s.queue, s.count, s.worker)) = some ([true], 4, .sleeping) := by decide +kernel
  obtain ⟨s, hrun, hs⟩ := map_eq_some_iff.mp hrun
  simp only [Prod.mk.injEq] at hs
  exact ⟨s, hs, armings_run_once (.run (.init ⟨rfl, rfl, rfl, rfl, rfl⟩)
    (by decide +kernel : Transition.Admits _ _ idleState wrapRun) hrun)⟩

/-- The worker takes a timer off the queue, and the timer is set again before its callback is
called. The new callback is called for the old arming, before it is due. -/
theorem set_after_taken :
    (Transition.run State.step idleState
      [.setBegin true 1 10 0, .setInsert 0, .setSignal, .wake, .check, .setBegin true 2 20 50,
        .setInsert 0, .call, .setSignal, .callbackReturn, .check, .sleepEnd, .advance 50,
        .wake, .check,
        .call]).map (fun s => [s.armings 0, s.armings 1]) =
      some [⟨true, 1, 10, 2 ^ 32 - 10, .done, [(2, 20, 2 ^ 32 - 10)]⟩,
        ⟨true, 2, 20, 2 ^ 32 + 40, .done, [(2, 20, 2 ^ 32 + 40)]⟩] := by decide +kernel

end NusaKernel.NetTimers
