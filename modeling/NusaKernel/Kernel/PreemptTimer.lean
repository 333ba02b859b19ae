import NusaKernel.Kernel.Scheduler

/-!
# The preemption timers

`thread_resched` sets the preemption timer of its processor when it switches from a real-time or
idle thread to a regular one, and cancels it when it switches back. It judges the old thread by
its flags at the switch, while `thread_set_real_time` may have changed them since.

`preempt_timer_discipline` says that the timer is queued exactly while a regular thread runs, so
that it is never set twice, as long as no thread is made real-time while it runs on another
processor than the caller's. `timer_left_queued` is a run that does so and ends in a panic.
-/

namespace NusaKernel.Kernel

open Transition

variable {Tid Wid Cpu : Type*} {cfg : Config Tid Wid Cpu} {k k' k'' : Kernel Tid Wid Cpu}
  {cpu : Cpu} {t : Tid} {w : Wid}
  {reschedule : Bool} {ret : Status}

/-- The preemption timer of a processor is queued exactly when the thread that runs there is
neither real-time nor idle. -/
def TimerInv (k : Kernel Tid Wid Cpu) : Prop :=
  ∀ cpu, k.preemptTimer cpu = !(k.thread (k.current cpu)).isRealTimeOrIdle

/-- Nothing the preemption timers depend on has changed. -/
structure SameFlags (k k' : Kernel Tid Wid Cpu) : Prop where
  current : k'.current = k.current
  preemptTimer : k'.preemptTimer = k.preemptTimer
  flags : ∀ t, (k'.thread t).isRealTimeOrIdle = (k.thread t).isRealTimeOrIdle

theorem SameFlags.refl (k : Kernel Tid Wid Cpu) : SameFlags k k := ⟨rfl, rfl, fun _ => rfl⟩

theorem SameFlags.trans (h : SameFlags k k') (h' : SameFlags k' k'') : SameFlags k k'' :=
  ⟨h'.current.trans h.current, h'.preemptTimer.trans h.preemptTimer,
    fun t => (h'.flags t).trans (h.flags t)⟩

theorem TimerInv.of_same_flags (hinv : TimerInv k) (h : SameFlags k k') : TimerInv k' := by
  intro cpu
  rw [h.preemptTimer, h.current, h.flags]
  exact hinv cpu

theorem TimerInv.boot (cfg : Config Tid Wid Cpu) : TimerInv (boot cfg) := by
  intro cpu
  simp [Kernel.boot, (cfg.idleCpu_eq_some _ cpu).mpr rfl, Thread.idleOn, Thread.isRealTimeOrIdle]

/-- A call does not panic, and leaves the timers in order. -/
def TimerKept (result : Option (Kernel Tid Wid Cpu)) : Prop := ∃ k', result = some k' ∧ TimerInv k'

theorem TimerInv.kept (hinv : TimerInv k) : TimerKept (some k) := ⟨k, rfl, hinv⟩

/-- What a call returns beside the state does not matter. -/
theorem TimerKept.map_snd {α : Type*} {result : Option (Kernel Tid Wid Cpu)}
    (h : TimerKept result) (value : α) : TimerKept ((result.map (value, ·)).map Prod.snd) := by
  rw [Option.map_map]
  show TimerKept (result.map id)
  rw [Option.map_id]
  exact h

/-- With the timer in order for the old thread, it is in order for the new thread after the
switch, and setting it does not find it queued. -/
theorem switch_preempt_timer (oldthread newthread : Thread Wid Cpu) :
    switchPreemptTimer oldthread newthread (!oldthread.isRealTimeOrIdle) =
      some (!newthread.isRealTimeOrIdle) := by
  unfold switchPreemptTimer
  cases oldthread.isRealTimeOrIdle <;> cases newthread.isRealTimeOrIdle <;> rfl

/-! ## What keeps the flags -/

theorem SameFlags.set_run_queue (h : SameFlags k k') (t : Tid) (list : List Tid) :
    SameFlags k (k'.setRunQueue t list) :=
  h.trans ⟨rfl, rfl, fun _ => rfl⟩

variable [DecidableEq Tid]

theorem SameFlags.modify (h : SameFlags k k') {f : Thread Wid Cpu → Thread Wid Cpu}
    (hflags : (f (k'.thread t)).isRealTimeOrIdle = (k'.thread t).isRealTimeOrIdle) :
    SameFlags k (k'.modify t f) := by
  refine h.trans ⟨rfl, rfl, fun u => ?_⟩
  by_cases hu : u = t
  · rw [hu, modify_thread_self]
    exact hflags
  · simp [Kernel.modify, hu]

theorem SameFlags.requeue_current (h : SameFlags k k') (cpu : Cpu) :
    SameFlags k (k'.requeueCurrent cpu) :=
  SameFlags.set_run_queue (h.modify rfl) _ _

theorem TimerInv.timer_tick (hinv : TimerInv k) : TimerInv (k.threadTimerTick cpu).2 := by
  unfold threadTimerTick
  simp only
  split
  · exact hinv
  · have hsame : SameFlags k (k.modify (k.current cpu) fun r =>
        { r with remainingQuantum := r.remainingQuantum - 1 }) := (SameFlags.refl k).modify rfl
    exact hinv.of_same_flags hsame

section Switch

variable [DecidableEq Cpu]

/-! ## The context switch -/

theorem TimerInv.resched (hinv : TimerInv k) (cfg : Config Tid Wid Cpu) (cpu : Cpu) :
    TimerKept (k.threadResched cfg cpu) := by
  have hswitch := switch_preempt_timer (k.thread (k.current cpu))
    (k.thread (k.getTopThread cfg cpu).1)
  rw [← hinv cpu] at hswitch
  rw [thread_resched_eq, hswitch]
  split
  · have hsame : SameFlags k (k.getTopThread cfg cpu).2 := by
      rw [get_top_thread_snd cfg k cpu]
      exact ⟨rfl, rfl, fun _ => rfl⟩
    exact (hinv.of_same_flags (hsame.modify rfl)).kept
  refine TimerInv.kept ?_
  have hflags : ∀ u, (Function.update
      (k.modify (k.current cpu) fun r => { r with currCpu := none }).thread
      (k.getTopThread cfg cpu).1 (switchedIn cpu (k.thread (k.getTopThread cfg cpu).1))
      u).isRealTimeOrIdle = (k.thread u).isRealTimeOrIdle := by
    intro u
    by_cases hu : u = (k.getTopThread cfg cpu).1
    · rw [hu, Function.update_self]
      rfl
    · rw [Function.update_of_ne hu]
      exact ((SameFlags.refl k).modify rfl).flags u
  intro c
  rw [hflags]
  by_cases hc : c = cpu
  · simp [hc]
  · simpa [hc] using hinv c

theorem TimerInv.yield (hinv : TimerInv k) : TimerKept (k.threadYield cfg cpu) := by
  refine TimerInv.resched (hinv.of_same_flags ?_) cfg cpu
  split
  · exact .set_run_queue ((SameFlags.refl k).modify rfl) _ _
  · exact (SameFlags.refl k).modify rfl

theorem TimerInv.preempt (hinv : TimerInv k) : TimerKept (k.threadPreempt cfg cpu) := by
  refine TimerInv.resched (hinv.of_same_flags ?_) cfg cpu
  split
  · split <;> exact .set_run_queue ((SameFlags.refl k).modify rfl) _ _
  · exact (SameFlags.refl k).modify rfl

/-- A thread is made real-time on the processor it runs on, if it runs and was not real-time or
idle before. -/
def SetsOwnRealTime (k : Kernel Tid Wid Cpu) : Action Tid Wid Cpu → Prop
  | .setRealTime cpu t =>
    (k.thread t).isRealTimeOrIdle = true ∨ ∀ c, k.current c = t → c = cpu
  | _ => True

/-- `SetsOwnRealTime` can be checked along a run. -/
instance [Fintype Cpu] (k : Kernel Tid Wid Cpu) (action : Action Tid Wid Cpu) :
    Decidable (SetsOwnRealTime k action) := by
  cases action <;> unfold SetsOwnRealTime <;> infer_instance

/-- `thread_set_real_time` cancels the timer of its own processor only, which is enough if the
thread does not run on another. -/
theorem TimerInv.set_real_time (hinv : TimerInv k) (hsched : Inv cfg k none)
    (hguard : (k.thread t).isRealTimeOrIdle = true ∨ ∀ c, k.current c = t → c = cpu) :
    TimerInv (k.threadSetRealTime cpu t) := by
  intro c
  have hc := hinv c
  unfold threadSetRealTime
  by_cases hcurrent : t = k.current cpu
  · by_cases hcpu : c = cpu
    · simp [hcurrent, hcpu, modify, Thread.isRealTimeOrIdle]
    · have hne : k.current c ≠ k.current cpu := fun heq => hcpu (hsched.current_injective heq)
      simpa [hcurrent, hcpu, modify, hne] using hc
  rw [if_neg hcurrent]
  by_cases ht : k.current c = t
  · -- running elsewhere, it was real-time or idle before
    have hflag : (k.thread t).isRealTimeOrIdle = true := by
      rcases hguard with hflag | hlocal
      · exact hflag
      · rw [← hlocal c ht, ht] at hcurrent
        exact absurd rfl hcurrent
    rw [ht, hflag] at hc
    simpa [modify, ht, Thread.isRealTimeOrIdle] using hc
  · simpa [modify, ht] using hc

end Switch

/-! ## The functions of the scheduler -/

variable [DecidableEq Wid]

theorem SameFlags.unlink_ready (h : SameFlags k k') (w : Wid) (t : Tid) (ret : Status) :
    SameFlags k (k'.unlinkReady w t ret) := by
  have hqueue : SameFlags k (k'.setWaitQueue w
      ⟨(k'.waitQueue w).count - 1, (k'.waitQueue w).list.erase t⟩) :=
    h.trans ⟨rfl, rfl, fun _ => rfl⟩
  unfold unlinkReady
  exact .modify hqueue rfl

theorem SameFlags.wake_threads (h : SameFlags k k') (w : Wid) (ret : Status)
    (threads : List Tid) : SameFlags k (k'.wakeThreads w ret threads) := by
  induction threads generalizing k' with
  | nil => exact h
  | cons t rest ih => exact ih ((h.unlink_ready w t ret).set_run_queue t _)

theorem TimerInv.unblock (hinv : TimerInv k) : TimerInv (k.threadUnblockFromWaitQueue t ret).2 := by
  unfold threadUnblockFromWaitQueue
  split
  · next w _ _ =>
    exact hinv.of_same_flags (((SameFlags.refl k).unlink_ready w t ret).set_run_queue t _)
  · exact hinv

/-- A new structure is not that of a running thread. -/
theorem TimerInv.create (hinv : TimerInv k) (hsched : Inv cfg k none)
    (hdeath : (k.thread t).state = .death) (priority : Priority) :
    TimerInv (k.threadCreate cfg t priority) := by
  intro c
  have hne : k.current c ≠ t := by
    intro heq
    have hrunning := hsched.current_running c
    rw [heq, hdeath] at hrunning
    cases hrunning
  simpa [threadCreate, modify, setWaitQueue, hne] using hinv c

variable [DecidableEq Cpu]

section

variable (hinv : TimerInv k)
include hinv

theorem TimerInv.wait_queue_block {timeout : Time} :
    TimerKept ((k.waitQueueBlock cfg cpu w timeout).map Prod.snd) := by
  unfold waitQueueBlock
  split
  · exact hinv.kept
  have hqueue : SameFlags k (k.setWaitQueue w
      ⟨(k.waitQueue w).count + 1, (k.waitQueue w).list ++ [k.current cpu]⟩) :=
    ⟨rfl, rfl, fun _ => rfl⟩
  refine .map_snd (TimerInv.resched (hinv.of_same_flags ?_) cfg cpu) none
  exact .modify hqueue rfl

theorem TimerInv.wake_one :
    TimerKept ((k.waitQueueWakeOne cfg cpu w reschedule ret).map Prod.snd) := by
  unfold waitQueueWakeOne
  split
  · exact hinv.kept
  next t _ _ =>
  have hwoken := (SameFlags.refl k).unlink_ready w t ret
  cases reschedule with
  | false => exact (hinv.of_same_flags (hwoken.set_run_queue t _)).kept
  | true =>
    have hqueued := (hwoken.requeue_current cpu).set_run_queue t
    exact ((hinv.of_same_flags (hqueued _)).resched cfg cpu).map_snd 1

theorem TimerInv.wake_all :
    TimerKept ((k.waitQueueWakeAll cfg cpu w reschedule ret).map Prod.snd) := by
  unfold waitQueueWakeAll
  have hwoken : ∀ threads, SameFlags k ((if reschedule ∧ 0 < (k.waitQueue w).count
      then k.requeueCurrent cpu else k).wakeThreads w ret threads) := by
    intro threads
    refine .wake_threads ?_ w ret threads
    split
    · exact (SameFlags.refl k).requeue_current cpu
    · exact .refl k
  simp only
  split
  · exact ((hinv.of_same_flags (hwoken _)).resched cfg cpu).map_snd _
  · exact (hinv.of_same_flags (hwoken _)).kept

theorem TimerInv.exit : TimerKept (k.threadExit cfg cpu) := by
  refine TimerInv.resched (hinv.of_same_flags ?_) cfg cpu
  split
  · exact (SameFlags.refl k).modify rfl
  · exact .wake_threads ((SameFlags.refl k).modify rfl) _ _ _

/-- No call panics, and an admitted one leaves the timers in order. -/
theorem TimerInv.perform (hsched : Inv cfg k none) {action : Action Tid Wid Cpu}
    (henabled : k.enabled cfg action = true) (hguard : SetsOwnRealTime k action) :
    TimerKept (k.perform cfg action) := by
  have hrefl := SameFlags.refl k
  cases action with
  | create t priority =>
    simp only [enabled, Bool.decide_and, Bool.and_eq_true, decide_eq_true_eq] at henabled
    exact (hinv.create hsched henabled.1 priority).kept
  | resume t =>
    refine TimerInv.kept (hinv.of_same_flags ?_)
    unfold threadResume
    split
    · exact .set_run_queue (hrefl.modify rfl) t _
    · exact hrefl
  | setRealTime cpu t => exact (hinv.set_real_time hsched hguard).kept
  | setPinnedCpu t cpu => exact (hinv.of_same_flags (hrefl.modify rfl)).kept
  | yield cpu => exact hinv.yield
  | preempt cpu => exact hinv.preempt
  | timerTick cpu => exact hinv.timer_tick.kept
  | sleep cpu => exact (hinv.of_same_flags (hrefl.modify rfl)).resched cfg cpu
  | sleepHandler t =>
    exact (hinv.of_same_flags (SameFlags.set_run_queue (hrefl.modify rfl) t _)).kept
  | setPriority cpu priority =>
    refine TimerInv.resched (hinv.of_same_flags ?_) cfg cpu
    exact SameFlags.set_run_queue ((hrefl.modify rfl).modify rfl) _ _
  | block cpu w timeout => exact hinv.wait_queue_block
  | wakeOne cpu w reschedule ret => exact hinv.wake_one
  | wakeAll cpu w reschedule ret => exact hinv.wake_all
  | unblock t ret => exact hinv.unblock.kept
  | exit cpu => exact hinv.exit
  | detach t =>
    refine TimerInv.kept (hinv.of_same_flags ?_)
    unfold threadDetach
    exact .modify (hrefl.wake_threads _ _ _) rfl

end

theorem reachable_timer_inv (h : Reachable cfg SetsOwnRealTime k) : TimerInv k := by
  have hboth : Inv cfg k none ∧ TimerInv k := by
    refine h.invariant_from (P := fun k => Inv cfg k none ∧ TimerInv k)
      ⟨Inv.boot cfg, TimerInv.boot cfg⟩ ?_
    intro k action k' ⟨hsched, hinv⟩ hguard hstep
    have hperform := hstep
    obtain ⟨henabled, hperform⟩ := Option.ite_none_right_eq_some.mp hperform
    obtain ⟨next, hnext, hkept⟩ := hinv.perform hsched henabled hguard
    rw [hperform] at hnext
    cases hnext
    exact ⟨hsched.step hstep, hkept⟩
  exact hboth.2

/-- As long as a regular thread that runs is made real-time only on its own processor: the
preemption timer of a processor is queued exactly while a thread runs there that is neither
real-time nor idle, and no call that is allowed panics, as setting a queued timer would. -/
theorem preempt_timer_discipline (h : Reachable cfg SetsOwnRealTime k) :
    (∀ cpu, k.preemptTimer cpu = true ↔
      (k.thread (k.current cpu)).isRealTimeOrIdle = false) ∧
    ∀ action, k.enabled cfg action = true → ∃ k', k.step cfg action = some k' := by
  have hinv := reachable_timer_inv h
  refine ⟨?_, ?_⟩
  · intro cpu
    rw [hinv cpu, Bool.not_eq_true']
  intro action henabled
  have hperform : ∃ k', k.perform cfg action = some k' := by
    by_cases hguard : SetsOwnRealTime k action
    · obtain ⟨k', hk', _⟩ := hinv.perform (reachable_inv h) henabled hguard
      exact ⟨k', hk'⟩
    · -- only `thread_set_real_time` is guarded, and it has no panic
      cases action with
      | setRealTime cpu t => exact ⟨_, rfl⟩
      | _ => exact absurd trivial hguard
  rw [step, if_pos henabled]
  exact hperform

/-- Two processors, whose idle threads are threads 0 and 1, and three more threads. -/
def twoCpus : Config (Fin 5) (Fin 5) (Fin 2) where
  idleThread := Fin.castLE (by decide)
  idleCpu t := if h : t.val < 2 then some ⟨t, h⟩ else none
  idleCpu_eq_some := by decide
  retcodeWaitQueue := id

/-- Thread 2 makes itself real-time on processor 1 while thread 3 runs on processor 0. -/
theorem preempt_timer_discipline_own :
    ∃ k, (Reachable twoCpus SetsOwnRealTime k ∧ k.current 0 = 3 ∧ k.current 1 = 2 ∧
        (k.thread 2).realTime = true) ∧
      (∀ cpu, k.preemptTimer cpu = true ↔
        (k.thread (k.current cpu)).isRealTimeOrIdle = false) ∧
      ∃ k', k.step twoCpus (.yield 1) = some k' := by
  obtain ⟨k, hreach, hrun⟩ := exists_reachable (step twoCpus) SetsOwnRealTime (boot twoCpus)
    (P := fun k => k.current 0 = 3 ∧ k.current 1 = 2 ∧ (k.thread 2).realTime = true)
    [.create 2 16, .resume 2, .yield 1, .create 3 16, .resume 3, .yield 0, .setRealTime 1 2]
    (by decide) (by decide)
  obtain ⟨hqueued, hpanic⟩ := preempt_timer_discipline hreach
  exact ⟨k, ⟨hreach, hrun⟩, hqueued, hpanic (.yield 1) rfl⟩

/-- Thread 2 runs on processor 1 when thread 3, on processor 0, makes it real-time: the timer of
processor 1 stays queued, and the switch from thread 2 to thread 4 sets it again and panics. -/
theorem timer_left_queued :
    ∃ k, Reachable twoCpus Always k ∧ k.current 1 = 2 ∧
      (k.thread 2).isRealTimeOrIdle = true ∧ k.preemptTimer 1 = true ∧
      k.enabled twoCpus (.yield 1) = true ∧ k.step twoCpus (.yield 1) = none :=
  exists_reachable (step twoCpus) Always (boot twoCpus)
    [.create 2 16, .resume 2, .yield 1, .create 3 16, .resume 3, .yield 0, .setRealTime 0 2,
      .create 4 16, .resume 4]
    (admits_always _ _) (by decide)

end NusaKernel.Kernel
