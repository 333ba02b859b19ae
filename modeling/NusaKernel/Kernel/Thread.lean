import NusaKernel.Kernel.WaitQueue
import NusaKernel.Lib.Transition

/-!
# Threads and the scheduler

`kernel/thread.c`: the thread structures, the run queues with their bitmap, the wait queues, the
thread that runs on each processor, and whether each processor's preemption timer is queued. Each
function that takes the thread lock is one step on this state. The thread that was current before
a context switch is left in whatever queue its function put it in, and goes on when it is next
picked, so the state between two steps is the state with the lock free.

`step` is disabled where a function asserts its precondition, and where an idle thread would do
what only other threads do: idle threads never leave `idle_thread_routine`, and an interrupt
handler may neither block nor ask for a reschedule. A panic is a step without a result.
-/

namespace NusaKernel

open Function

/-- `enum thread_state`. A structure that is not in use counts as dead. -/
inductive ThreadState where
  | suspended
  | ready
  | running
  | blocked
  | sleeping
  | death
  deriving DecidableEq

/-- A priority, from `LOWEST_PRIORITY` to `HIGHEST_PRIORITY`, of which there are
`NUM_PRIORITIES`. -/
abbrev Priority := Fin 32

/-- `thread_t`, as far as the scheduler reads and writes it. The flags are `THREAD_FLAG_REAL_TIME`,
`THREAD_FLAG_IDLE` and `THREAD_FLAG_DETACHED`. -/
structure Thread (Wid Cpu : Type*) where
  priority : Priority
  state : ThreadState
  remainingQuantum : Int
  realTime : Bool
  idle : Bool
  detached : Bool
  currCpu : Option Cpu
  pinnedCpu : Option Cpu
  blockingWaitQueue : Option Wid
  waitQueueBlockRet : Status

/-- What is fixed at boot: the idle thread of each processor, the processor a thread is the idle
thread of, if any, and the wait queue inside each thread structure. -/
structure Config (Tid Wid Cpu : Type*) where
  idleThread : Cpu → Tid
  idleCpu : Tid → Option Cpu
  idleCpu_eq_some : ∀ t cpu, idleCpu t = some cpu ↔ idleThread cpu = t
  retcodeWaitQueue : Tid → Wid

theorem Config.idle_thread_injective {Tid Wid Cpu : Type*} (cfg : Config Tid Wid Cpu) :
    Function.Injective cfg.idleThread := by
  intro cpu cpu' heq
  have h := (cfg.idleCpu_eq_some _ cpu).mpr rfl
  rw [(cfg.idleCpu_eq_some _ cpu').mpr heq.symm] at h
  exact (Option.some.inj h).symm

/-- The state that the thread lock protects. -/
structure Kernel (Tid Wid Cpu : Type*) where
  thread : Tid → Thread Wid Cpu
  runQueue : Priority → List Tid
  runQueueBitmap : BitVec 32
  waitQueue : Wid → WaitQueue Tid
  current : Cpu → Tid
  preemptTimer : Cpu → Bool

namespace Thread

variable {Wid Cpu : Type*}

/-- `thread_is_real_time_or_idle`. -/
def isRealTimeOrIdle (r : Thread Wid Cpu) : Bool := r.realTime || r.idle

/-- What `thread_create_etc` makes of a structure. -/
def created (priority : Priority) : Thread Wid Cpu where
  priority
  state := .suspended
  remainingQuantum := 0
  realTime := false
  idle := false
  detached := false
  currCpu := none
  pinnedCpu := none
  blockingWaitQueue := none
  waitQueueBlockRet := noError

/-- A structure that is not in use. -/
def unused : Thread Wid Cpu := { (created 0 : Thread Wid Cpu) with state := .death }

/-- The idle thread of a processor when it starts to schedule. -/
def idleOn (cpu : Cpu) : Thread Wid Cpu :=
  { (created 0 : Thread Wid Cpu) with
    state := .running, idle := true, detached := true
    currCpu := some cpu, pinnedCpu := some cpu }

end Thread

namespace Kernel

variable {Tid Wid Cpu : Type*} [DecidableEq Tid] [DecidableEq Wid] [DecidableEq Cpu]

variable (k : Kernel Tid Wid Cpu)

/-- Change the structure of one thread. -/
def modify (t : Tid) (f : Thread Wid Cpu → Thread Wid Cpu) :
    Kernel Tid Wid Cpu :=
  { k with thread := update k.thread t (f (k.thread t)) }

/-- Change one wait queue. -/
def setWaitQueue (w : Wid) (queue : WaitQueue Tid) :
    Kernel Tid Wid Cpu :=
  { k with waitQueue := update k.waitQueue w queue }

/-- Put a thread into the run queue of its priority, which becomes `list`. -/
def setRunQueue (t : Tid) (list : List Tid) : Kernel Tid Wid Cpu :=
  { k with
    runQueue := update k.runQueue (k.thread t).priority list
    runQueueBitmap := k.runQueueBitmap ||| 1#32 <<< (k.thread t).priority.val }

/-- `insert_in_run_queue_head`. -/
def insertInRunQueueHead (t : Tid) : Kernel Tid Wid Cpu :=
  k.setRunQueue t (t :: k.runQueue (k.thread t).priority)

/-- `insert_in_run_queue_tail`. -/
def insertInRunQueueTail (t : Tid) : Kernel Tid Wid Cpu :=
  k.setRunQueue t (k.runQueue (k.thread t).priority ++ [t])

/-- A thread that may run on the processor. -/
def eligible (cpu : Cpu) (t : Tid) : Bool :=
  (k.thread t).pinnedCpu = none ∨ (k.thread t).pinnedCpu = some cpu

/-- The search of `get_top_thread`: the run queues whose bit is set, from the highest, and in each
the first thread that may run on the processor. -/
def topCandidate (cpu : Cpu) : Option (Priority × Tid) :=
  (List.finRange 32).reverse.findSome? fun p : Priority =>
    if k.runQueueBitmap.getLsbD p then ((k.runQueue p).find? (k.eligible cpu)).map (p, ·)
    else none

variable (cfg : Config Tid Wid Cpu) (k : Kernel Tid Wid Cpu)

variable (cpu : Cpu)

/-- `get_top_thread`. -/
def getTopThread : Tid × Kernel Tid Wid Cpu :=
  match k.topCandidate cpu with
  | some (p, newthread) =>
    let queue := (k.runQueue p).erase newthread
    (newthread, { k with
      runQueue := update k.runQueue p queue
      runQueueBitmap :=
        if queue.isEmpty then k.runQueueBitmap &&& ~~~(1#32 <<< p.val) else k.runQueueBitmap })
  | none => (cfg.idleThread cpu, k)

/-- What `thread_resched` does with the preemption timer of the processor. Setting a timer that is
already queued is a panic. -/
def switchPreemptTimer (oldthread newthread : Thread Wid Cpu) (queued : Bool) : Option Bool :=
  if newthread.isRealTimeOrIdle then
    if !oldthread.isRealTimeOrIdle then some false else some queued
  else if oldthread.isRealTimeOrIdle then
    if queued then none else some true
  else some queued

/-- `thread_resched`. -/
def threadResched : Option (Kernel Tid Wid Cpu) :=
  let oldthread := k.current cpu
  let (newthread, k) := k.getTopThread cfg cpu
  let k := k.modify newthread fun r => { r with state := .running }
  if newthread = oldthread then some k
  else
    -- set up the quantum of the new thread if it was consumed
    let k := k.modify newthread fun r =>
      { r with remainingQuantum := if r.remainingQuantum ≤ 0 then 5 else r.remainingQuantum }
    let k := k.modify oldthread fun r => { r with currCpu := none }
    let k := k.modify newthread fun r => { r with currCpu := some cpu }
    (switchPreemptTimer (k.thread oldthread) (k.thread newthread) (k.preemptTimer cpu)).map
      fun queued => { k with
        preemptTimer := update k.preemptTimer cpu queued
        current := update k.current cpu newthread }

/-- `thread_create_etc`, on memory that is not in use. -/
def threadCreate (t : Tid) (priority : Priority) : Kernel Tid Wid Cpu :=
  (k.modify t fun _ => .created priority).setWaitQueue (cfg.retcodeWaitQueue t) ⟨0, []⟩

/-- `thread_resume`, without the `thread_yield` that may follow it. -/
def threadResume (t : Tid) : Kernel Tid Wid Cpu :=
  if (k.thread t).state = .suspended then
    (k.modify t fun r => { r with state := .ready }).insertInRunQueueHead t
  else k

/-- `thread_set_real_time`, called on a processor. -/
def threadSetRealTime (t : Tid) : Kernel Tid Wid Cpu :=
  -- if the thread is the current one, cancel the preemption timer
  let k := if t = k.current cpu then
    { k with preemptTimer := update k.preemptTimer cpu false } else k
  k.modify t fun r => { r with realTime := true }

/-- `thread_set_pinned_cpu`. -/
def threadSetPinnedCpu (t : Tid) (cpu : Option Cpu) : Kernel Tid Wid Cpu :=
  k.modify t fun r => { r with pinnedCpu := cpu }

/-- `thread_yield`. -/
def threadYield : Option (Kernel Tid Wid Cpu) :=
  let t := k.current cpu
  let k := k.modify t fun r => { r with state := .ready, remainingQuantum := 0 }
  -- the idle thread does not go in the run queue
  let k := if !(k.thread t).idle then k.insertInRunQueueTail t else k
  k.threadResched cfg cpu

/-- `thread_preempt`. -/
def threadPreempt : Option (Kernel Tid Wid Cpu) :=
  let t := k.current cpu
  let k := k.modify t fun r => { r with state := .ready }
  let k :=
    if !(k.thread t).idle then
      if 0 < (k.thread t).remainingQuantum then k.insertInRunQueueHead t
      else k.insertInRunQueueTail t
    else k
  k.threadResched cfg cpu

/-- `thread_timer_tick`: whether the processor should reschedule. -/
def threadTimerTick : Bool × Kernel Tid Wid Cpu :=
  let t := k.current cpu
  if (k.thread t).isRealTimeOrIdle then (false, k)
  else
    let k := k.modify t fun r => { r with remainingQuantum := r.remainingQuantum - 1 }
    ((k.thread t).remainingQuantum ≤ 0, k)

/-- `thread_sleep`. -/
def threadSleep : Option (Kernel Tid Wid Cpu) :=
  (k.modify (k.current cpu) fun r => { r with state := .sleeping }).threadResched cfg cpu

/-- `thread_sleep_handler`. -/
def threadSleepHandler (t : Tid) : Kernel Tid Wid Cpu :=
  (k.modify t fun r => { r with state := .ready }).insertInRunQueueHead t

/-- The priority that `thread_set_priority` gives for its argument: from one above the idle
priority to the highest. -/
def clampPriority (priority : Int) : Priority :=
  if priority ≤ 0 then 1 else if h : priority < 32 then ⟨priority.toNat, by omega⟩ else 31

/-- `thread_set_priority`. -/
def threadSetPriority (priority : Int) : Option (Kernel Tid Wid Cpu) :=
  let t := k.current cpu
  let k := k.modify t fun r => { r with priority := clampPriority priority }
  let k := k.modify t fun r => { r with state := .ready }
  (k.insertInRunQueueHead t).threadResched cfg cpu

/-- `wait_queue_block` up to the context switch. It has no status yet unless the timeout is zero. -/
def waitQueueBlock (w : Wid) (timeout : Time) :
    Option (Option Status × Kernel Tid Wid Cpu) :=
  if timeout = 0 then some (some errTimedOut, k)
  else
    let t := k.current cpu
    let k := k.setWaitQueue w ⟨(k.waitQueue w).count + 1, (k.waitQueue w).list ++ [t]⟩
    let k := k.modify t fun r => { r with
      state := .blocked, blockingWaitQueue := some w, waitQueueBlockRet := noError }
    (k.threadResched cfg cpu).map (none, ·)

/-- Unlink a blocked thread from its wait queue and mark it ready. -/
def unlinkReady (w : Wid) (t : Tid) (ret : Status) : Kernel Tid Wid Cpu :=
  let k := k.setWaitQueue w ⟨(k.waitQueue w).count - 1, (k.waitQueue w).list.erase t⟩
  k.modify t fun r => { r with
    state := .ready, waitQueueBlockRet := ret, blockingWaitQueue := none }

/-- Put the current thread at the head of its run queue, so that the threads about to be woken run
before it. -/
def requeueCurrent : Kernel Tid Wid Cpu :=
  let t := k.current cpu
  (k.modify t fun r => { r with state := .ready }).insertInRunQueueHead t

/-- `wait_queue_wake_one`. Returns the number of threads woken. -/
def waitQueueWakeOne (w : Wid) (reschedule : Bool) (ret : Status) :
    Option (ℕ × Kernel Tid Wid Cpu) :=
  match (k.waitQueue w).list with
  | [] => some (0, k)
  | t :: _ =>
    let k := k.unlinkReady w t ret
    let k := if reschedule then k.requeueCurrent cpu else k
    let k := k.insertInRunQueueHead t
    if reschedule then (k.threadResched cfg cpu).map (1, ·) else some (1, k)

/-- The loop of `wait_queue_wake_all` over the threads of the queue, from its tail. -/
def wakeThreads (w : Wid) (ret : Status) (threads : List Tid) : Kernel Tid Wid Cpu :=
  threads.foldl (fun k t => (k.unlinkReady w t ret).insertInRunQueueHead t) k

/-- `wait_queue_wake_all`. Returns the number of threads woken. -/
def waitQueueWakeAll (w : Wid) (reschedule : Bool) (ret : Status) :
    Option (ℕ × Kernel Tid Wid Cpu) :=
  let threads := (k.waitQueue w).list.reverse
  let k := if reschedule ∧ 0 < (k.waitQueue w).count then k.requeueCurrent cpu else k
  let k := k.wakeThreads w ret threads
  if 0 < threads.length ∧ reschedule then
    (k.threadResched cfg cpu).map (threads.length, ·)
  else some (threads.length, k)

/-- `thread_unblock_from_wait_queue`. -/
def threadUnblockFromWaitQueue (t : Tid) (ret : Status) : Status × Kernel Tid Wid Cpu :=
  match (k.thread t).state, (k.thread t).blockingWaitQueue with
  | .blocked, some w => (noError, (k.unlinkReady w t ret).insertInRunQueueHead t)
  | _, _ => (errNotBlocked, k)

/-- `thread_exit`, as far as the scheduler is concerned. -/
def threadExit : Option (Kernel Tid Wid Cpu) :=
  let t := k.current cpu
  let k := k.modify t fun r => { r with state := .death }
  let k := if (k.thread t).detached then k
    else k.wakeThreads (cfg.retcodeWaitQueue t) noError
      (k.waitQueue (cfg.retcodeWaitQueue t)).list.reverse
  k.threadResched cfg cpu

/-- `thread_detach`, as far as the scheduler is concerned. -/
def threadDetach (t : Tid) : Kernel Tid Wid Cpu :=
  let k := k.wakeThreads (cfg.retcodeWaitQueue t) errThreadDetached
    (k.waitQueue (cfg.retcodeWaitQueue t)).list.reverse
  k.modify t fun r => { r with detached := r.state ≠ .death }

/-- What the code on a processor does next, or an interrupt or another module does to a thread. -/
inductive Action (Tid Wid Cpu : Type*) where
  | create (t : Tid) (priority : Priority)
  | resume (t : Tid)
  | setRealTime (cpu : Cpu) (t : Tid)
  | setPinnedCpu (t : Tid) (cpu : Option Cpu)
  | yield (cpu : Cpu)
  | preempt (cpu : Cpu)
  | timerTick (cpu : Cpu)
  | sleep (cpu : Cpu)
  | sleepHandler (t : Tid)
  | setPriority (cpu : Cpu) (priority : Int)
  | block (cpu : Cpu) (w : Wid) (timeout : Time)
  | wakeOne (cpu : Cpu) (w : Wid) (reschedule : Bool) (ret : Status)
  | wakeAll (cpu : Cpu) (w : Wid) (reschedule : Bool) (ret : Status)
  | unblock (t : Tid) (ret : Status)
  | exit (cpu : Cpu)
  | detach (t : Tid)

/-- The thread that runs on the processor is not an idle thread. -/
def busy : Bool := !(k.thread (k.current cpu)).idle

/-- The functions are called where they may be: on a structure in the state they assert, and
those that queue the current thread not by an idle thread. -/
def enabled : Action Tid Wid Cpu → Bool
  | .create t _ => (k.thread t).state = .death ∧ (k.waitQueue (cfg.retcodeWaitQueue t)).list = []
  | .resume t => (k.thread t).state ≠ .death
  | .setRealTime _ _ | .yield _ | .preempt _ | .timerTick _ => true
  | .setPinnedCpu t _ => !(k.thread t).idle
  | .sleep cpu | .setPriority cpu _ | .block cpu _ _ | .exit cpu => k.busy cpu
  | .sleepHandler t => (k.thread t).state = .sleeping
  | .wakeOne cpu _ reschedule _ | .wakeAll cpu _ reschedule _ => !reschedule || k.busy cpu
  | .unblock _ _ | .detach _ => true

/-- The function called by an action. -/
def perform : Action Tid Wid Cpu → Option (Kernel Tid Wid Cpu)
  | .create t priority => some (k.threadCreate cfg t priority)
  | .resume t => some (k.threadResume t)
  | .setRealTime cpu t => some (k.threadSetRealTime cpu t)
  | .setPinnedCpu t cpu => some (k.threadSetPinnedCpu t cpu)
  | .yield cpu => k.threadYield cfg cpu
  | .preempt cpu => k.threadPreempt cfg cpu
  | .timerTick cpu => some (k.threadTimerTick cpu).2
  | .sleep cpu => k.threadSleep cfg cpu
  | .sleepHandler t => some (k.threadSleepHandler t)
  | .setPriority cpu priority => k.threadSetPriority cfg cpu priority
  | .block cpu w timeout => (k.waitQueueBlock cfg cpu w timeout).map Prod.snd
  | .wakeOne cpu w reschedule ret =>
    (k.waitQueueWakeOne cfg cpu w reschedule ret).map Prod.snd
  | .wakeAll cpu w reschedule ret =>
    (k.waitQueueWakeAll cfg cpu w reschedule ret).map Prod.snd
  | .unblock t ret => some (k.threadUnblockFromWaitQueue t ret).2
  | .exit cpu => k.threadExit cfg cpu
  | .detach t => some (k.threadDetach cfg t)

/-- One step. -/
def step (action : Action Tid Wid Cpu) : Option (Kernel Tid Wid Cpu) :=
  if k.enabled cfg action then k.perform cfg action else none

/-- The kernel once every processor runs its idle thread: `thread_become_idle` on the first and
`thread_secondary_cpu_entry` on the others have made their current thread the idle thread. -/
def boot : Kernel Tid Wid Cpu where
  thread t := (cfg.idleCpu t).elim .unused .idleOn
  runQueue _ := []
  runQueueBitmap := 0
  waitQueue _ := ⟨0, []⟩
  current := cfg.idleThread
  preemptTimer _ := false

/-- The states that steps admitted by the guard reach. -/
def Reachable (guard : Kernel Tid Wid Cpu → Action Tid Wid Cpu → Prop) :
    Kernel Tid Wid Cpu → Prop :=
  Transition.Reachable (step cfg) guard (· = boot cfg)

end Kernel

end NusaKernel
