import NusaKernel.Kernel.Timer
import NusaKernel.Kernel.WaitQueue

/-!
# Wait timeouts on several processors

The timeout of `wait_queue_block` (`kernel/thread.c`) with the timers of `kernel/timer.c` on any
number of processors. `timer_tick` takes a timer off its queue, lets go of the timer lock, and
only then calls `wait_queue_timeout_handler`, which takes the thread lock: two steps, between
which other processors go on. The timer stands on the stack of the thread that waits, and
`timer_cancel` after the wait finds nothing to cancel when the timer is already off its queue.

The waits of each thread are numbered, and the state records what ended each of them.
`ended_by_own_timer` says when a timer ends no wait but its own, and `ended_by_stale_timer` that
the code lets the timer of an earlier wait end a later one.
-/

namespace NusaKernel.WaitTimeout

open Function Transition

/-- The timer that a wait of a thread has armed. -/
structure WaitTimer (Tid : Type*) where
  thread : Tid
  wait : ℕ
  scheduledTime : Time

/-- What ended a wait: one of the wake functions, called with a status, or the timer armed for the
given wait. -/
inductive Ender where
  | wakeOne (ret : Status)
  | wakeAll (ret : Status)
  | unblock (ret : Status)
  | timeout (armed : ℕ)
  deriving DecidableEq

/-- The status with which the wait returns. -/
def Ender.status : Ender → Status
  | .wakeOne ret | .wakeAll ret | .unblock ret => ret
  | .timeout _ => errTimedOut

/-- The wait queues, the timer queue of each processor and the timer whose callback it is about to
call, the number of waits each thread has begun, and what ended them. -/
structure State (Wid Tid Cpu : Type*) where
  waiters : Waiters Wid Tid ℕ
  timerQueue : Cpu → List (WaitTimer Tid)
  inflight : Cpu → Option (WaitTimer Tid)
  clock : ℕ
  waits : Tid → ℕ
  ended : Tid → ℕ → List Ender

/-- What a processor does next. `block`, `wakeOne`, `wakeAll` and `unblock` are
`wait_queue_block`, `wait_queue_wake_one`, `wait_queue_wake_all` and
`thread_unblock_from_wait_queue`; `expire` and `callback` are the two parts of a timer expiry;
`resume` is the return of a woken thread from `wait_queue_block`. -/
inductive Action (Wid Tid Cpu : Type*) where
  | block (cpu : Cpu) (t : Tid) (w : Wid) (timeout : Time)
  | wakeOne (w : Wid) (ret : Status)
  | wakeAll (w : Wid) (ret : Status)
  | unblock (t : Tid) (ret : Status)
  | expire (cpu : Cpu)
  | callback (cpu : Cpu)
  | resume (cpu : Cpu) (t : Tid)
  | advance (ms : ℕ)

/-- The wait a thread is blocked in. -/
def blockedIn {Wid : Type*} : Phase Wid ℕ → Option ℕ
  | .blocked _ wait _ => some wait
  | .running | .woken _ _ => none

/-- The wait a thread has not returned from. -/
def waitOf {Wid : Type*} : Phase Wid ℕ → Option ℕ
  | .blocked _ wait _ | .woken wait _ => some wait
  | .running => none

variable {Wid Tid Cpu : Type*}

/-- Nobody waits and no timer is armed. -/
def initial (clock : ℕ) : State Wid Tid Cpu :=
  ⟨.initial, fun _ => [], fun _ => none, clock, fun _ => 0, fun _ _ => []⟩

/-- Record what ended the waits that are over in `after` and were not in `before`. -/
def record (before after : Waiters Wid Tid ℕ) (ender : Ender) (ended : Tid → ℕ → List Ender) :
    Tid → ℕ → List Ender :=
  fun t wait =>
    if blockedIn (before.phase t) = some wait ∧ blockedIn (after.phase t) = none then
      ender :: ended t wait
    else ended t wait

/-- The wait queues after a wake function, with the waits it ended on record. -/
def release (s : State Wid Tid Cpu) (after : Waiters Wid Tid ℕ) (ender : Ender) :
    State Wid Tid Cpu :=
  { s with waiters := after, ended := record s.waiters after ender s.ended }

variable [DecidableEq Wid] [DecidableEq Tid] [DecidableEq Cpu]

variable (s : State Wid Tid Cpu) {w : Wid} {timeout : Time}

/-- `wait_queue_block` on a processor, up to the context switch: unless the timeout is infinite a
timer is set on the processor's queue. -/
def waitQueueBlock (cpu : Cpu) (t : Tid) (w : Wid) (timeout : Time)
    (h : s.waiters.phase t = .running) : State Wid Tid Cpu :=
  match s.waiters.waitQueueBlock w t (s.waits t) timeout h with
  | .error _ => s
  | .ok waiters =>
    let timer := ⟨t, s.waits t, timeAt s.clock + timeout⟩
    { s with
      waiters
      waits := update s.waits t (s.waits t + 1)
      timerQueue :=
        if timeout ≠ infiniteTime then
          update s.timerQueue cpu
            (Timer.insertTimerInQueue WaitTimer.scheduledTime timer (s.timerQueue cpu))
        else s.timerQueue }

/-- The part of `timer_tick` that takes a due timer off the queue. -/
def timerTick (cpu : Cpu) : Option (State Wid Tid Cpu) :=
  match s.timerQueue cpu with
  | [] => none
  | timer :: rest =>
    if timeLt (timeAt s.clock) timer.scheduledTime then none
    else some { s with
      timerQueue := update s.timerQueue cpu rest
      inflight := update s.inflight cpu (some timer) }

/-- `wait_queue_timeout_handler`: it knows the thread, and not the wait its timer was for. -/
def waitQueueTimeoutHandler (timer : WaitTimer Tid) :
    State Wid Tid Cpu :=
  release s (s.waiters.threadUnblockFromWaitQueue timer.thread errTimedOut).2
    (.timeout timer.wait)

/-- `timer_cancel` of the timer of a wait, whichever queue it is in. -/
def timerCancel (t : Tid) (wait : ℕ) : State Wid Tid Cpu :=
  { s with timerQueue := fun cpu =>
      (s.timerQueue cpu).filter fun timer => ¬ (timer.thread = t ∧ timer.wait = wait) }

/-- One step. No thread runs on a processor that is in a timer interrupt. -/
def step : Action Wid Tid Cpu → Option (State Wid Tid Cpu)
  | .block cpu t w timeout =>
    if h : s.waiters.phase t = .running then
      if (s.inflight cpu).isNone then some (waitQueueBlock s cpu t w timeout h) else none
    else none
  | .wakeOne w ret => some (release s (s.waiters.waitQueueWakeOne w ret).2 (.wakeOne ret))
  | .wakeAll w ret => some (release s (s.waiters.waitQueueWakeAll w ret).2 (.wakeAll ret))
  | .unblock t ret => some (release s (s.waiters.threadUnblockFromWaitQueue t ret).2 (.unblock ret))
  | .expire cpu => if (s.inflight cpu).isNone then timerTick s cpu else none
  | .callback cpu =>
    match s.inflight cpu with
    | none => none
    | some timer =>
      let s' := waitQueueTimeoutHandler s timer
      some { s' with inflight := update s.inflight cpu none }
  | .resume cpu t =>
    match h : s.waiters.phase t with
    | .woken wait ret =>
      if (s.inflight cpu).isNone then
        let s' := timerCancel s t wait
        some { s' with waiters := s.waiters.resume t wait ret h }
      else none
    | _ => none
  | .advance ms => some { s with clock := s.clock + ms }

/-- The states that steps admitted by the guard reach. -/
def Reachable (clock : ℕ) (guard : State Wid Tid Cpu → Action Wid Tid Cpu → Prop) :
    State Wid Tid Cpu → Prop :=
  Transition.Reachable step guard (· = initial clock)

/-- No thread begins a wait while the callback of a timer of its own is still to come. -/
def BlocksFresh : Action Wid Tid Cpu → Prop
  | .block _ t _ _ => ∀ cpu, ∀ timer ∈ s.inflight cpu, timer.thread ≠ t
  | _ => True

/-- `BlocksFresh` can be checked along a run. -/
instance [Fintype Cpu] (s : State Wid Tid Cpu) (action : Action Wid Tid Cpu) :
    Decidable (BlocksFresh s action) := by
  cases action <;> unfold BlocksFresh <;> infer_instance

/-! ## What the steps do -/

section Steps

variable {s s' : State Wid Tid Cpu} {t : Tid} {cpu : Cpu}

/-- The wake functions leave each thread alone or take it off its queue. -/
def Wakes (before after : Waiters Wid Tid ℕ) (ret : Status) : Prop :=
  ∀ t, after.phase t = before.phase t ∨ after.phase t = (before.phase t).wakeWith ret

theorem wakes_one (x : Waiters Wid Tid ℕ) (w : Wid) (ret : Status) :
    Wakes x (x.waitQueueWakeOne w ret).2 ret := by
  intro u
  rcases x.wake_one_cases w ret with ⟨_, hone⟩ | ⟨t, _, _, _, _, hone⟩
  · exact .inl (by rw [hone])
  · rw [hone, x.phase_wake_apply]
    exact (ite_eq_or_eq ..).symm

theorem wakes_all (x : Waiters Wid Tid ℕ) (w : Wid) (ret : Status) :
    Wakes x (x.waitQueueWakeAll w ret).2 ret := by
  intro u
  rw [x.phase_wake_all]
  exact (ite_eq_or_eq ..).symm

theorem wakes_unblock (x : Waiters Wid Tid ℕ) (t : Tid) (ret : Status) :
    Wakes x (x.threadUnblockFromWaitQueue t ret).2 ret := by
  intro u
  rw [x.phase_unblock_apply]
  exact (ite_eq_or_eq ..).symm

/-- A wait with a timeout of zero changes nothing; any other joins the queue, and sets a timer on
the processor unless the timeout is infinite. -/
theorem step_block (hstep : step s (.block cpu t w timeout) = some s') :
    (timeout = 0 ∧ s' = s) ∨ ∃ h : s.waiters.phase t = .running, ∃ timed queues,
      s' = { s with
        waiters := s.waiters.block w t (s.waits t) timed h
        waits := update s.waits t (s.waits t + 1)
        timerQueue := queues } ∧
      ∀ c, ∀ timer ∈ queues c, timer ∈ s.timerQueue c ∨
        timer.thread = t ∧ timer.wait = s.waits t := by
  obtain ⟨h, hstep⟩ := Option.dite_none_right_eq_some.mp hstep
  split at hstep
  · cases hstep
    by_cases hzero : timeout = 0
    · refine .inl ⟨hzero, ?_⟩
      simp [waitQueueBlock, s.waiters.wait_queue_block_of_eq h hzero]
    refine .inr ⟨h, decide (timeout ≠ infiniteTime),
      (waitQueueBlock s cpu t w timeout h).timerQueue, ?_, ?_⟩
    · simp only [waitQueueBlock, s.waiters.wait_queue_block_of_ne h hzero]
    intro c timer hmem
    simp only [waitQueueBlock, s.waiters.wait_queue_block_of_ne h hzero] at hmem
    split at hmem
    · by_cases hc : c = cpu
      · subst hc
        rw [update_self] at hmem
        rcases Timer.mem_insert_timer_in_queue.mp hmem with rfl | hmem'
        · exact .inr ⟨rfl, rfl⟩
        · exact .inl hmem'
      · rw [update_of_ne hc] at hmem
        exact .inl hmem
    · exact .inl hmem
  · cases hstep

/-- The first timer of a queue expires, and its callback is on the way. -/
theorem step_expire (hstep : step s (.expire cpu) = some s') :
    ∃ timer rest, s.timerQueue cpu = timer :: rest ∧ s' = { s with
      timerQueue := update s.timerQueue cpu rest
      inflight := update s.inflight cpu (some timer) } := by
  simp only [step, timerTick] at hstep
  split at hstep
  · split at hstep
    · cases hstep
    · next timer rest hqueue =>
      split at hstep
      · cases hstep
      · cases hstep
        exact ⟨timer, rest, hqueue, rfl⟩
  · cases hstep

/-- A callback wakes the thread of its timer if that is blocked. -/
theorem step_callback (hstep : step s (.callback cpu) = some s') :
    ∃ timer, s.inflight cpu = some timer ∧
      s' = { waitQueueTimeoutHandler s timer with
        inflight := update s.inflight cpu none } := by
  simp only [step] at hstep
  split at hstep
  · cases hstep
  · next timer hflight =>
    cases hstep
    exact ⟨timer, hflight, rfl⟩

/-- A woken thread that runs again cancels its timer. -/
theorem step_resume (hstep : step s (.resume cpu t) = some s') :
    ∃ wait ret, ∃ h : s.waiters.phase t = .woken wait ret,
      s' = { timerCancel s t wait with waiters := s.waiters.resume t wait ret h } := by
  simp only [step] at hstep
  split at hstep
  · next wait ret h =>
    split at hstep
    · cases hstep
      exact ⟨wait, ret, h, rfl⟩
    · cases hstep
  · cases hstep

end Steps

/-! ## The invariants -/

section Invariants

variable {s s' : State Wid Tid Cpu} {t : Tid} {cpu : Cpu} {ret : Status}
  {before after : Waiters Wid Tid ℕ} {wait : ℕ} {ender : Ender}
  {queues : Cpu → List (WaitTimer Tid)} {action : Action Wid Tid Cpu}
  {guard : State Wid Tid Cpu → Action Wid Tid Cpu → Prop}

section

omit [DecidableEq Wid] [DecidableEq Tid] [DecidableEq Cpu]

theorem blocked_in_wake_with (phase : Phase Wid ℕ) : blockedIn (phase.wakeWith ret) = none := by
  cases phase <;> rfl

theorem wait_of_wake_with (phase : Phase Wid ℕ) : waitOf (phase.wakeWith ret) = waitOf phase := by
  cases phase <;> rfl

theorem wait_of_blocked_in {phase : Phase Wid ℕ} (h : blockedIn phase = some wait) :
    waitOf phase = some wait := by
  cases phase with
  | running => cases h
  | blocked => exact h
  | woken => cases h

theorem Wakes.wait_of (h : Wakes before after ret) (t : Tid) :
    waitOf (after.phase t) = waitOf (before.phase t) := by
  rcases h t with hsame | hwoken
  · rw [hsame]
  · rw [hwoken, wait_of_wake_with]

theorem Wakes.blocked_in (h : Wakes before after ret)
    (hblocked : blockedIn (after.phase t) = some wait) :
    blockedIn (before.phase t) = some wait := by
  rcases h t with hsame | hwoken
  · rwa [hsame] at hblocked
  · rw [hwoken, blocked_in_wake_with] at hblocked
    cases hblocked

end

/-- How a wait stands: not begun, going on, or ended by one thing, with whose status the thread
returns. -/
structure WaitInv (s : State Wid Tid Cpu) (t : Tid) : Prop where
  numbered : ∀ wait, waitOf (s.waiters.phase t) = some wait → wait + 1 = s.waits t
  pending : ∀ wait, s.waits t ≤ wait ∨ blockedIn (s.waiters.phase t) = some wait →
    s.ended t wait = []
  finished : ∀ wait, wait < s.waits t → blockedIn (s.waiters.phase t) ≠ some wait →
    ∃ ender, s.ended t wait = [ender]
  status : ∀ wait ret, s.waiters.phase t = .woken wait ret →
    ∃ ender, s.ended t wait = [ender] ∧ ender.status = ret

/-- A timer in a queue belongs to a wait its thread has not returned from. -/
def Queued (s : State Wid Tid Cpu) : Prop :=
  ∀ cpu, ∀ timer ∈ s.timerQueue cpu, waitOf (s.waiters.phase timer.thread) = some timer.wait

omit [DecidableEq Wid] [DecidableEq Tid] [DecidableEq Cpu] in
/-- Only what concerns the thread itself matters. -/
theorem WaitInv.congr (hinv : WaitInv s t) (hphase : s'.waiters.phase t = s.waiters.phase t)
    (hwaits : s'.waits t = s.waits t) (hended : s'.ended t = s.ended t) : WaitInv s' t := by
  refine ⟨?_, ?_, ?_, ?_⟩ <;> simp only [hphase, hwaits, hended]
  · exact hinv.numbered
  · exact hinv.pending
  · exact hinv.finished
  · exact hinv.status

omit [DecidableEq Wid] [DecidableEq Tid] [DecidableEq Cpu] in
theorem WaitInv.release (hinv : WaitInv s t) (hwakes : Wakes s.waiters after ender.status) :
    WaitInv (release s after ender) t := by
  refine ⟨?_, ?_, ?_, ?_⟩
  · intro wait hwait
    exact hinv.numbered wait (hwakes.wait_of t ▸ hwait)
  · intro wait hpending
    show record s.waiters after ender s.ended t wait = []
    unfold record
    rw [if_neg]
    · exact hinv.pending wait (hpending.imp_right fun h => hwakes.blocked_in h)
    rintro ⟨hbefore, hafter⟩
    rcases hpending with hnot | hblocked
    · have hnum := hinv.numbered wait (wait_of_blocked_in hbefore)
      have hle : s.waits t ≤ wait := hnot
      omega
    · have hb : blockedIn (after.phase t) = some wait := hblocked
      rw [hafter] at hb
      cases hb
  · intro wait hlt hnot
    show ∃ e, record s.waiters after ender s.ended t wait = [e]
    unfold record
    by_cases hbefore : blockedIn (s.waiters.phase t) = some wait
    · have hnone : blockedIn (after.phase t) = none := by
        rcases hwakes t with hsame | hwoken
        · exact absurd (hsame ▸ hbefore) hnot
        · rw [hwoken, blocked_in_wake_with]
      rw [if_pos ⟨hbefore, hnone⟩, hinv.pending wait (.inr hbefore)]
      exact ⟨ender, rfl⟩
    · rw [if_neg (fun h => hbefore h.1)]
      exact hinv.finished wait hlt hbefore
  · intro wait ret hphase
    have hphase' : after.phase t = .woken wait ret := hphase
    show ∃ e, record s.waiters after ender s.ended t wait = [e] ∧ e.status = ret
    unfold record
    cases hbefore : s.waiters.phase t with
    | running =>
      rcases hwakes t with hsame | hwoken
      · simp [hsame, hbefore] at hphase'
      · simp [hwoken, hbefore, Phase.wakeWith] at hphase'
    | blocked w n timed =>
      rcases hwakes t with hsame | hwoken
      · simp [hsame, hbefore] at hphase'
      rw [hwoken, hbefore, Phase.wakeWith, Phase.woken.injEq] at hphase'
      obtain ⟨rfl, rfl⟩ := hphase'
      have hnone : blockedIn (after.phase t) = none := by rw [hwoken, blocked_in_wake_with]
      rw [if_pos ⟨rfl, hnone⟩, hinv.pending n (.inr (by rw [hbefore]; rfl))]
      exact ⟨ender, rfl, rfl⟩
    | woken n status =>
      have hsame : after.phase t = .woken n status := by
        rcases hwakes t with hsame | hwoken
        · rw [hsame, hbefore]
        · rw [hwoken, hbefore, Phase.wakeWith]
      rw [hsame, Phase.woken.injEq] at hphase'
      obtain ⟨rfl, rfl⟩ := hphase'
      exact hinv.status n status hbefore

omit [DecidableEq Cpu] in
theorem WaitInv.block {timed : Bool} {u : Tid} (hinv : WaitInv s u)
    (h : s.waiters.phase t = .running) :
    WaitInv { s with
      waiters := s.waiters.block w t (s.waits t) timed h
      waits := update s.waits t (s.waits t + 1)
      timerQueue := queues } u := by
  by_cases heq : u = t
  · subst heq
    have hphase : (s.waiters.block w u (s.waits u) timed h).phase u =
        .blocked w (s.waits u) timed := by rw [Waiters.phase_block, update_self]
    refine ⟨?_, ?_, ?_, ?_⟩
    · intro wait hwait
      have hwait' : s.waits u = wait := by simpa [hphase, waitOf] using hwait
      simp [hwait']
    · intro wait hpending
      refine hinv.pending wait (.inl ?_)
      simp only [hphase, blockedIn, update_self, Option.some.injEq] at hpending
      omega
    · intro wait hlt hnot
      simp only [hphase, blockedIn, update_self, ne_eq, Option.some.injEq] at hlt hnot
      exact hinv.finished wait (by omega) (by simp [h, blockedIn])
    · intro wait ret hwoken
      simp [hphase] at hwoken
  · exact hinv.congr (update_of_ne heq _ _) (update_of_ne heq _ _) rfl

omit [DecidableEq Wid] [DecidableEq Cpu] in
theorem WaitInv.resume {u : Tid} (hinv : WaitInv s u) (h : s.waiters.phase t = .woken wait ret) :
    WaitInv { s with
      waiters := s.waiters.resume t wait ret h
      timerQueue := queues } u := by
  by_cases heq : u = t
  · subst heq
    have hphase : (s.waiters.resume u wait ret h).phase u = .running := by simp
    refine ⟨by simp [hphase, waitOf], ?_, ?_, by simp [hphase]⟩
    · intro n hpending
      refine hinv.pending n (.inl ?_)
      simpa [hphase, blockedIn] using hpending
    · intro n hlt _
      exact hinv.finished n hlt (by simp [h, blockedIn])
  · exact hinv.congr (update_of_ne heq _ _) rfl rfl

/-- What every interleaving keeps. -/
structure Inv (s : State Wid Tid Cpu) : Prop where
  wait : ∀ t, WaitInv s t
  queued : Queued s

omit [DecidableEq Wid] [DecidableEq Tid] [DecidableEq Cpu] in
theorem Inv.release (hinv : Inv s) (hwakes : Wakes s.waiters after ender.status) :
    Inv (release s after ender) where
  wait t := (hinv.wait t).release hwakes
  queued c timer hmem := by
    show waitOf (after.phase timer.thread) = _
    rw [hwakes.wait_of]
    exact hinv.queued c timer hmem

theorem Inv.step (hinv : Inv s) (hstep : step s action = some s') : Inv s' := by
  cases action with
  | block cpu t w timeout =>
    rcases step_block hstep with ⟨_, rfl⟩ | ⟨h, timed, queues, rfl, hqueues⟩
    · exact hinv
    refine ⟨fun u => (hinv.wait u).block h, ?_⟩
    intro c timer hmem
    rw [Waiters.phase_block]
    rcases hqueues c timer hmem with hold | ⟨hthread, hwait⟩
    · have hqueued := hinv.queued c timer hold
      have hne : timer.thread ≠ t := by
        intro heq
        rw [heq, h] at hqueued
        cases hqueued
      rwa [update_of_ne hne]
    · rw [hthread, update_self, hwait]
      rfl
  | wakeOne w ret =>
    cases hstep
    exact hinv.release (wakes_one s.waiters w ret)
  | wakeAll w ret =>
    cases hstep
    exact hinv.release (wakes_all s.waiters w ret)
  | unblock t ret =>
    cases hstep
    exact hinv.release (wakes_unblock s.waiters t ret)
  | expire cpu =>
    obtain ⟨timer, rest, hqueue, rfl⟩ := step_expire hstep
    refine ⟨fun u => (hinv.wait u).congr rfl rfl rfl, ?_⟩
    intro c other hmem
    refine hinv.queued c other ?_
    by_cases hc : c = cpu
    · subst hc
      have hrest : other ∈ rest := by simpa using hmem
      rw [hqueue]
      exact List.mem_cons_of_mem _ hrest
    · simpa [hc] using hmem
  | callback cpu =>
    obtain ⟨timer, _, rfl⟩ := step_callback hstep
    have hreleased : Inv (waitQueueTimeoutHandler s timer) :=
      hinv.release (wakes_unblock s.waiters timer.thread errTimedOut)
    exact ⟨fun u => (hreleased.wait u).congr rfl rfl rfl, hreleased.queued⟩
  | resume cpu t =>
    obtain ⟨wait, ret, h, rfl⟩ := step_resume hstep
    refine ⟨fun u => (hinv.wait u).resume h, ?_⟩
    intro c timer hmem
    -- the timers of the wait that is over are cancelled, so the rest are of other threads
    obtain ⟨hold, hother⟩ := List.mem_filter.mp hmem
    have hqueued := hinv.queued c timer hold
    have hne : timer.thread ≠ t := by
      intro heq
      rw [heq, h] at hqueued
      have hwait : wait = timer.wait := by simpa [waitOf] using hqueued
      simp [heq, hwait] at hother
    rwa [Waiters.phase_resume, update_of_ne hne]
  | advance ms =>
    cases hstep
    exact ⟨fun u => (hinv.wait u).congr rfl rfl rfl, hinv.queued⟩

theorem reachable_inv {clock : ℕ} (h : Reachable clock guard s) : Inv s := by
  refine h.invariant_from ?_ fun hinv _ => hinv.step
  exact ⟨fun t => ⟨nofun, fun _ _ => rfl, nofun, nofun⟩, nofun⟩

/-! ## Timers and their waits -/

/-- A callback that is still to come finds its thread out of every wait or in the wait it was armed
for, and no wait has been ended by the timer of another. -/
structure Own (s : State Wid Tid Cpu) : Prop where
  inflight : ∀ cpu timer wait, s.inflight cpu = some timer →
    blockedIn (s.waiters.phase timer.thread) = some wait → timer.wait = wait
  ended : ∀ t wait armed, .timeout armed ∈ s.ended t wait → armed = wait

omit [DecidableEq Wid] [DecidableEq Tid] [DecidableEq Cpu] in
/-- A wake function ends waits in its own name. -/
theorem Own.release (hown : Own s) (hwakes : Wakes s.waiters after ender.status)
    (hender : ∀ t wait armed, blockedIn (s.waiters.phase t) = some wait →
      blockedIn (after.phase t) = none → ender = .timeout armed → armed = wait) :
    Own (release s after ender) := by
  refine ⟨?_, ?_⟩
  · intro cpu timer wait hflight hblocked
    exact hown.inflight cpu timer wait hflight (hwakes.blocked_in hblocked)
  intro t wait armed hmem
  have hmem' : Ender.timeout armed ∈ record s.waiters after ender s.ended t wait := hmem
  unfold record at hmem'
  split at hmem'
  · next hcond =>
    rcases List.mem_cons.mp hmem' with heq | hold
    · exact hender t wait armed hcond.1 hcond.2 heq.symm
    · exact hown.ended t wait armed hold
  · exact hown.ended t wait armed hmem'

theorem Own.step (hinv : Inv s) (hown : Own s) (hguard : BlocksFresh s action)
    (hstep : step s action = some s') : Own s' := by
  cases action with
  | block cpu t w timeout =>
    rcases step_block hstep with ⟨_, rfl⟩ | ⟨h, timed, queues, rfl, _⟩
    · exact hown
    refine ⟨?_, hown.ended⟩
    intro c timer wait hflight hblocked
    have hne : timer.thread ≠ t := hguard c timer hflight
    refine hown.inflight c timer wait hflight ?_
    rwa [Waiters.phase_block, update_of_ne hne] at hblocked
  | wakeOne w ret =>
    cases hstep
    exact hown.release (wakes_one s.waiters w ret) nofun
  | wakeAll w ret =>
    cases hstep
    exact hown.release (wakes_all s.waiters w ret) nofun
  | unblock t ret =>
    cases hstep
    exact hown.release (wakes_unblock s.waiters t ret) nofun
  | expire cpu =>
    obtain ⟨timer, rest, hqueue, rfl⟩ := step_expire hstep
    refine ⟨?_, hown.ended⟩
    intro c other wait hflight hblocked
    by_cases hc : c = cpu
    · subst hc
      obtain rfl : timer = other := by simpa using hflight
      have hqueued := hinv.queued c timer (by rw [hqueue]; exact List.mem_cons_self)
      rw [wait_of_blocked_in hblocked] at hqueued
      exact (Option.some.inj hqueued).symm
    · exact hown.inflight c other wait (by simpa [hc] using hflight) hblocked
  | callback cpu =>
    obtain ⟨timer, hflight, rfl⟩ := step_callback hstep
    have hreleased : Own (waitQueueTimeoutHandler s timer) := by
      refine hown.release (wakes_unblock s.waiters timer.thread errTimedOut) ?_
      intro t wait armed hbefore hafter hender
      obtain rfl : timer.wait = armed := Ender.timeout.inj hender
      -- only the thread of the timer is woken
      have hthread : timer.thread = t := by
        by_contra hne
        rw [s.waiters.phase_unblock_apply, if_neg (Ne.symm hne), hbefore] at hafter
        cases hafter
      exact hown.inflight cpu timer wait hflight (hthread ▸ hbefore)
    refine ⟨?_, hreleased.ended⟩
    intro c other wait hother hblocked
    by_cases hc : c = cpu
    · simp [hc] at hother
    · have hother' : s.inflight c = some other := by simpa [hc] using hother
      exact hreleased.inflight c other wait hother' hblocked
  | resume cpu t =>
    obtain ⟨n, ret, h, rfl⟩ := step_resume hstep
    refine ⟨?_, hown.ended⟩
    intro c timer wait hflight hblocked
    by_cases heq : timer.thread = t
    · simp [heq, blockedIn] at hblocked
    · exact hown.inflight c timer wait hflight (by simpa [heq] using hblocked)
  | advance ms =>
    cases hstep
    exact ⟨hown.inflight, hown.ended⟩

/-- In a run in which no thread begins a wait with a callback of its own still to come, a timer
ends no wait but the one it was armed for. Each wait that is over was ended by one thing, with
whose status its thread returns, and a wait that is going on by none. -/
theorem ended_by_own_timer {clock : ℕ} (h : Reachable clock BlocksFresh s) :
    (∀ t wait armed, .timeout armed ∈ s.ended t wait → armed = wait) ∧
    (∀ t wait, wait < s.waits t → blockedIn (s.waiters.phase t) ≠ some wait →
      ∃ ender, s.ended t wait = [ender]) ∧
    (∀ t wait, blockedIn (s.waiters.phase t) = some wait → s.ended t wait = []) ∧
    (∀ t wait ret, s.waiters.phase t = .woken wait ret →
      ∃ ender, s.ended t wait = [ender] ∧ ender.status = ret) := by
  have hboth : Inv s ∧ Own s := by
    refine h.invariant_from (P := fun s => Inv s ∧ Own s)
      ⟨reachable_inv (.init rfl : Reachable clock Always _), nofun, nofun⟩ ?_
    rintro s action s' ⟨hinv, hown⟩ hguard hstep
    exact ⟨hinv.step hstep, Own.step hinv hown hguard hstep⟩
  obtain ⟨hinv, hown⟩ := hboth
  exact ⟨hown.ended, fun t => (hinv.wait t).finished,
    fun t wait hblocked => (hinv.wait t).pending wait (.inr hblocked),
    fun t => (hinv.wait t).status⟩

/-- A thread whose first wait timed out is woken from its second before its timer runs out. -/
theorem ended_by_own_timer_twice :
    ∃ s : State Unit Unit (Fin 2), Reachable 0 BlocksFresh s ∧
      s.ended () 0 = [.timeout 0] ∧ s.ended () 1 = [.wakeOne noError] ∧
      ∀ armed, .timeout armed ∈ s.ended () 0 → armed = 0 := by
  obtain ⟨s, hreach, hfirst, hsecond⟩ := exists_reachable step BlocksFresh (initial 0)
    (P := fun s : State Unit Unit (Fin 2) =>
      s.ended () 0 = [.timeout 0] ∧ s.ended () 1 = [.wakeOne noError])
    [.block 1 () () 10, .advance 10, .expire 1, .callback 1, .resume 0 (), .block 0 () () 10,
      .wakeOne () noError] (by decide) (by decide)
  exact ⟨s, hreach, hfirst, hsecond, (ended_by_own_timer hreach).1 () 0⟩

/-- The timer of an earlier wait can end a later one: the timer of thread 0 is taken off the queue
of processor 0, the thread is woken, returns and waits again on processor 1, without a timeout,
and then the callback comes. -/
theorem ended_by_stale_timer :
    ∃ s : State Unit Unit (Fin 2), Reachable 0 Always s ∧
      s.ended () 1 = [.timeout 0] ∧ s.waiters.phase () = .woken 1 errTimedOut :=
  exists_reachable step Always (initial 0)
    [.block 0 () () 10, .advance 10, .expire 0, .wakeOne () noError, .resume 1 (),
      .block 1 () () infiniteTime, .callback 0] (admits_always _ _) (by decide)

end Invariants

end NusaKernel.WaitTimeout
