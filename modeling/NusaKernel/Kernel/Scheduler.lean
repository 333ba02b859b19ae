import NusaKernel.Kernel.Thread

/-!
# Consistency of the scheduler

Every thread is where its structure says it is: a ready thread in the run queue of its priority,
a thread blocked on a wait queue in that queue, a running thread on a processor and in no queue.
`Inv` says so, together with the run queue bitmap and the counts of the wait queues. In the
middle of a function the current thread of one processor has already been put elsewhere, so
`Inv` is told which processor that is, if any; `Inv.resched` is the end of every such function.

`scheduler_consistent` states the invariant of the states with the thread lock free.
-/

namespace NusaKernel

open BitVec Function List Option Placement Transition

namespace Thread

variable {Wid Cpu : Type*} {r : Thread Wid Cpu}

/-- The run queue the thread belongs in. -/
def runPlace (r : Thread Wid Cpu) : Option Priority :=
  if r.state = .ready ∧ r.idle = false then some r.priority else none

/-- The wait queue the thread belongs in. -/
def waitPlace (r : Thread Wid Cpu) : Option Wid :=
  if r.state = .blocked then r.blockingWaitQueue else none

theorem run_place_of_ne (h : r.state ≠ .ready) : r.runPlace = none := by
  simp [runPlace, h]

theorem run_place_of_idle (h : r.idle = true) : r.runPlace = none := by
  simp [runPlace, h]

theorem run_place_of_ready (h : r.state = .ready) (hidle : r.idle = false) :
    r.runPlace = some r.priority := by
  simp [runPlace, h, hidle]

theorem wait_place_of_ne (h : r.state ≠ .blocked) : r.waitPlace = none := by
  simp [waitPlace, h]

end Thread

namespace Kernel

variable {Tid Wid Cpu : Type*}

/-! ## The run queue bitmap -/

/-- Bit `p` of the bitmap is set exactly when run queue `p` is not empty. -/
def BitmapMatches (bitmap : BitVec 32) (queues : Priority → List Tid) : Prop :=
  ∀ p : Priority, bitmap.getLsbD p = true ↔ queues p ≠ []

theorem getLsbD_set_bit (bitmap : BitVec 32) (p q : Priority) :
    (bitmap ||| 1#32 <<< p.val).getLsbD q = (bitmap.getLsbD q || decide (p = q)) := by
  have hq : q.val < 32 := q.isLt
  rw [getLsbD_or, ← twoPow_eq, getLsbD_twoPow]
  simp [hq, Fin.ext_iff]

theorem getLsbD_clear_bit (bitmap : BitVec 32) (p q : Priority) :
    (bitmap &&& ~~~(1#32 <<< p.val)).getLsbD q = (bitmap.getLsbD q && decide (p ≠ q)) := by
  have hq : q.val < 32 := q.isLt
  rw [getLsbD_and, getLsbD_not, ← twoPow_eq, getLsbD_twoPow]
  simp [hq, Fin.ext_iff]

variable {k k' : Kernel Tid Wid Cpu} {t u : Tid} {cpu : Cpu} {w : Wid} {bitmap : BitVec 32}
  {queues : Priority → List Tid} {list : List Tid}

/-- Inserting a thread sets the bit of its run queue. -/
theorem BitmapMatches.insert (h : BitmapMatches bitmap queues) (p : Priority) (hne : list ≠ []) :
    BitmapMatches (bitmap ||| 1#32 <<< p.val) (Function.update queues p list) := by
  intro q
  rw [getLsbD_set_bit]
  by_cases hq : q = p
  · simp [hq, hne]
  · simpa [hq, Ne.symm hq] using h q

/-- Removing a thread clears the bit if its run queue is empty then. -/
theorem BitmapMatches.remove (h : BitmapMatches bitmap queues) (p : Priority)
    (hold : queues p ≠ []) :
    BitmapMatches (if list.isEmpty then bitmap &&& ~~~(1#32 <<< p.val) else bitmap)
      (Function.update queues p list) := by
  intro q
  by_cases hempty : list.isEmpty
  · rw [if_pos hempty, getLsbD_clear_bit]
    by_cases hq : q = p
    · simpa [hq] using hempty
    · simpa [hq, Ne.symm hq] using h q
  rw [if_neg hempty]
  by_cases hq : q = p
  · subst hq
    simpa [(h q).mpr hold] using hempty
  · simpa [hq] using h q

/-! ## The invariant -/

section Invariant

variable {cfg : Config Tid Wid Cpu} {off : Option Cpu} {r : Thread Wid Cpu}
  {f : Thread Wid Cpu → Thread Wid Cpu} {newthread : Tid} {ret : Status} {reschedule : Bool}

/-- Threads, queues and processors agree. The current thread of the processor `off`, if there is
one, no longer runs. -/
structure Inv (cfg : Config Tid Wid Cpu) (k : Kernel Tid Wid Cpu) (off : Option Cpu) : Prop where
  bitmap : BitmapMatches k.runQueueBitmap k.runQueue
  run : Placed k.runQueue fun t => (k.thread t).runPlace
  wait : Placed (fun w => (k.waitQueue w).list) fun t => (k.thread t).waitPlace
  count : ∀ w, (k.waitQueue w).count = (k.waitQueue w).list.length
  queued : ∀ t, (k.thread t).state = .blocked → (k.thread t).blockingWaitQueue ≠ none
  running : ∀ t, (k.thread t).state = .running ↔ ∃ cpu, off ≠ some cpu ∧ k.current cpu = t
  current_injective : Injective k.current
  idle_iff : ∀ t, (k.thread t).idle = true ↔ ∃ cpu, cfg.idleThread cpu = t
  idle_home : ∀ cpu cpu', k.current cpu = cfg.idleThread cpu' → cpu = cpu'
  idle_state : ∀ t, (k.thread t).idle = true →
    (k.thread t).state = .ready ∨ (k.thread t).state = .running

/-- A thread that is neither ready nor running is no idle thread. -/
theorem Inv.not_idle (hinv : Inv cfg k off) (hready : (k.thread t).state ≠ .ready)
    (hrunning : (k.thread t).state ≠ .running) : (k.thread t).idle = false := by
  cases hidle : (k.thread t).idle with
  | false => rfl
  | true => exact ((hinv.idle_state t hidle).elim hready hrunning).elim

theorem idle_of_busy (h : k.busy cpu = true) : (k.thread (k.current cpu)).idle = false := by
  simpa [busy] using h

/-- The current thread of a processor runs. -/
theorem Inv.current_running (hinv : Inv cfg k none) (cpu : Cpu) :
    (k.thread (k.current cpu)).state = .running :=
  (hinv.running _).mpr ⟨cpu, nofun, rfl⟩

theorem run_place_of_running (h : r.state = .running) : r.runPlace = none ∧ r.waitPlace = none :=
  ⟨Thread.run_place_of_ne (by simp [h]), Thread.wait_place_of_ne (by simp [h])⟩

theorem Inv.set_preempt_timer (hinv : Inv cfg k off) (timer : Cpu → Bool) :
    Inv cfg { k with preemptTimer := timer } off :=
  { hinv with }

/-- At boot idle threads run, and all other structures are not in use. -/
theorem boot_thread (cfg : Config Tid Wid Cpu) (t : Tid) :
    (((boot cfg).thread t).idle = true ∧ ((boot cfg).thread t).state = .running ∧
      ∃ cpu, cfg.idleThread cpu = t) ∨
    (((boot cfg).thread t).idle = false ∧ ((boot cfg).thread t).state = .death ∧
      ¬ ∃ cpu, cfg.idleThread cpu = t) := by
  cases hidle : cfg.idleCpu t with
  | some cpu =>
    refine .inl ⟨by simp [boot, hidle, Thread.idleOn], by simp [boot, hidle, Thread.idleOn],
      cpu, ?_⟩
    exact (cfg.idleCpu_eq_some t cpu).mp hidle
  | none =>
    refine .inr ⟨by simp [boot, hidle, Thread.unused, Thread.created],
      by simp [boot, hidle, Thread.unused], ?_⟩
    rintro ⟨cpu, hcpu⟩
    rw [(cfg.idleCpu_eq_some t cpu).mpr hcpu] at hidle
    cases hidle

theorem Inv.boot (cfg : Config Tid Wid Cpu) : Inv cfg (boot cfg) none := by
  have hplace : ∀ t, ((Kernel.boot cfg).thread t).runPlace = none ∧
      ((Kernel.boot cfg).thread t).waitPlace = none := by
    intro t
    rcases boot_thread cfg t with ⟨_, hstate, _⟩ | ⟨_, hstate, _⟩
    · exact run_place_of_running hstate
    · exact ⟨Thread.run_place_of_ne (by simp [hstate]), Thread.wait_place_of_ne (by simp [hstate])⟩
  refine ⟨?_, Placed.empty.congr fun t => (hplace t).1, Placed.empty.congr fun t => (hplace t).2,
    fun _ => rfl, ?_, ?_, cfg.idle_thread_injective, ?_,
    fun cpu cpu' heq => cfg.idle_thread_injective heq, ?_⟩
  · intro p
    simp [Kernel.boot]
  · intro t hblocked
    rcases boot_thread cfg t with ⟨_, hstate, _⟩ | ⟨_, hstate, _⟩ <;> rw [hstate] at hblocked <;>
      cases hblocked
  · intro t
    rcases boot_thread cfg t with ⟨_, hstate, cpu, hcpu⟩ | ⟨_, hstate, hnone⟩
    · exact ⟨fun _ => ⟨cpu, nofun, hcpu⟩, fun _ => hstate⟩
    · rw [hstate]
      exact ⟨nofun, fun ⟨cpu, _, hcpu⟩ => absurd ⟨cpu, hcpu⟩ hnone⟩
  · intro t
    rcases boot_thread cfg t with ⟨hidle, _, hcpu⟩ | ⟨hidle, _, hnone⟩
    · exact ⟨fun _ => hcpu, fun _ => hidle⟩
    · rw [hidle]
      exact ⟨nofun, fun h => absurd h hnone⟩
  · intro t hidle
    rcases boot_thread cfg t with ⟨_, hstate, _⟩ | ⟨hnot, _, _⟩
    · exact .inr hstate
    · rw [hnot] at hidle
      cases hidle

/-! ## Moving a thread -/

/-- Which threads run once the current thread of a processor has been put elsewhere. -/
theorem running_iff_of_ne (hne : u ≠ k.current cpu) :
    (∃ c, some cpu ≠ some c ∧ k.current c = u) ↔ ∃ c, none ≠ some c ∧ k.current c = u := by
  constructor
  · rintro ⟨c, _, hc⟩
    exact ⟨c, nofun, hc⟩
  · rintro ⟨c, _, hc⟩
    refine ⟨c, ?_, hc⟩
    intro heq
    exact hne (by rw [← hc, some.inj heq])

/-- The current thread of a processor is not current on another. -/
theorem Inv.not_running_of_off (hinv : Inv cfg k off) :
    ¬ ∃ c, some cpu ≠ some c ∧ k.current c = k.current cpu := by
  rintro ⟨c, hne, hc⟩
  exact hne (by rw [hinv.current_injective hc])

/-- The lists of the wait queues after one of them has changed. -/
theorem wait_lists_update [DecidableEq Wid] (queues : Wid → WaitQueue Tid) (w : Wid)
    (queue : WaitQueue Tid) :
    (fun v => (Function.update queues w queue v).list) =
      Function.update (fun v => (queues v).list) w queue.list := by
  funext v
  exact apply_update (fun _ => WaitQueue.list) queues w queue v

theorem wait_count_update [DecidableEq Wid] {queues : Wid → WaitQueue Tid} {queue : WaitQueue Tid}
    (hcount : ∀ v, (queues v).count = (queues v).list.length)
    (hnew : queue.count = queue.list.length) (v : Wid) :
    (Function.update queues w queue v).count = (Function.update queues w queue v).list.length := by
  by_cases hv : v = w
  · simpa [hv] using hnew
  · simpa [hv] using hcount v

section Threads

variable [DecidableEq Tid]

@[simp] theorem modify_thread_self (k : Kernel Tid Wid Cpu) (t : Tid)
    (f : Thread Wid Cpu → Thread Wid Cpu) : (k.modify t f).thread t = f (k.thread t) :=
  update_self _ _ _

theorem modify_modify (k : Kernel Tid Wid Cpu) (t : Tid) (f g : Thread Wid Cpu → Thread Wid Cpu) :
    (k.modify t f).modify t g = k.modify t (g ∘ f) := by
  simp [modify]

section Move

variable {off' : Option Cpu} (hinv : Inv cfg k off)
  (hthread : k'.thread = Function.update k.thread t r)
  (hbitmap : BitmapMatches k'.runQueueBitmap k'.runQueue)
  (hrun : Placed k'.runQueue (Function.update (fun u => (k.thread u).runPlace) t r.runPlace))
  (hwait : Placed (fun w => (k'.waitQueue w).list)
    (Function.update (fun u => (k.thread u).waitPlace) t r.waitPlace))
  (hcount : ∀ w, (k'.waitQueue w).count = (k'.waitQueue w).list.length)
  (hqueued : r.state = .blocked → r.blockingWaitQueue ≠ none)
  (hidle : r.idle = (k.thread t).idle)
  (hstate : r.idle = true → r.state = .ready ∨ r.state = .running)
include hinv hthread hbitmap hrun hwait hcount hqueued hidle hstate

/-- One thread is moved, and at most the processor it moves to has another current thread. `r` is
what its structure becomes. -/
theorem Inv.update
    (hrunning : r.state = .running ↔ ∃ cpu, off' ≠ some cpu ∧ k'.current cpu = t)
    (hothers : ∀ u, u ≠ t → ((∃ cpu, off' ≠ some cpu ∧ k'.current cpu = u) ↔
      ∃ cpu, off ≠ some cpu ∧ k.current cpu = u))
    (hinjective : Injective k'.current)
    (hhome : ∀ cpu cpu', k'.current cpu = cfg.idleThread cpu' → cpu = cpu') : Inv cfg k' off' where
  bitmap := hbitmap
  run := hrun.congr fun u => by rw [hthread, apply_update fun _ => Thread.runPlace]
  wait := hwait.congr fun u => by rw [hthread, apply_update fun _ => Thread.waitPlace]
  count := hcount
  queued u := by
    rw [hthread]
    by_cases hu : u = t
    · simpa [hu] using hqueued
    · simpa [hu] using hinv.queued u
  running u := by
    rw [hthread]
    by_cases hu : u = t
    · simpa [hu] using hrunning
    · rw [update_of_ne hu, hothers u hu]
      exact hinv.running u
  current_injective := hinjective
  idle_iff u := by
    rw [hthread]
    by_cases hu : u = t
    · rw [hu, update_self, hidle]
      exact hinv.idle_iff t
    · rw [update_of_ne hu]
      exact hinv.idle_iff u
  idle_home := hhome
  idle_state u := by
    rw [hthread]
    by_cases hu : u = t
    · simpa [hu] using hstate
    · simpa [hu] using hinv.idle_state u

/-- The general step inside a function: one thread is moved, and nothing else changes. -/
theorem Inv.move (hcurrent : k'.current = k.current)
    (hrunning : r.state = .running ↔ ∃ cpu, off' ≠ some cpu ∧ k.current cpu = t)
    (hothers : ∀ u, u ≠ t → ((∃ cpu, off' ≠ some cpu ∧ k.current cpu = u) ↔
      ∃ cpu, off ≠ some cpu ∧ k.current cpu = u)) : Inv cfg k' off' := by
  refine hinv.update hthread hbitmap hrun hwait hcount hqueued hidle hstate ?_ ?_ ?_ ?_ <;>
    rw [hcurrent]
  · exact hrunning
  · exact hothers
  · exact hinv.current_injective
  · exact hinv.idle_home

end Move

/-- Changing fields that say nothing about where the thread is. -/
theorem Inv.touch (hinv : Inv cfg k off) (t : Tid)
    (hstate : (f (k.thread t)).state = (k.thread t).state)
    (hidle : (f (k.thread t)).idle = (k.thread t).idle)
    (hpriority : (f (k.thread t)).priority = (k.thread t).priority)
    (hqueue : (f (k.thread t)).blockingWaitQueue = (k.thread t).blockingWaitQueue) :
    Inv cfg (k.modify t f) off := by
  have hrun : (f (k.thread t)).runPlace = (k.thread t).runPlace := by
    unfold Thread.runPlace
    rw [hstate, hidle, hpriority]
  have hwait : (f (k.thread t)).waitPlace = (k.thread t).waitPlace := by
    unfold Thread.waitPlace
    rw [hstate, hqueue]
  refine hinv.move rfl hinv.bitmap (hinv.run.stay hrun) (hinv.wait.stay hwait) hinv.count ?_ hidle
    ?_ rfl ?_ fun _ _ => Iff.rfl
  · rw [hstate, hqueue]
    exact hinv.queued t
  · rw [hstate, hidle]
    exact hinv.idle_state t
  · rw [hstate]
    exact hinv.running t

/-- The current thread leaves its processor for no queue: it sleeps, dies, or is an idle thread. -/
theorem Inv.leave (hinv : Inv cfg k none)
    (hrunning : (f (k.thread (k.current cpu))).state ≠ .running)
    (hblocked : (f (k.thread (k.current cpu))).state ≠ .blocked)
    (hidle : (f (k.thread (k.current cpu))).idle = (k.thread (k.current cpu)).idle)
    (hready : (f (k.thread (k.current cpu))).state = .ready ↔
      (k.thread (k.current cpu)).idle = true) :
    Inv cfg (k.modify (k.current cpu) f) (some cpu) := by
  have hplace := run_place_of_running (hinv.current_running cpu)
  have hrun : (f (k.thread (k.current cpu))).runPlace = none := by
    by_cases hr : (f (k.thread (k.current cpu))).state = .ready
    · exact Thread.run_place_of_idle (hidle.trans (hready.mp hr))
    · exact Thread.run_place_of_ne hr
  refine hinv.move rfl hinv.bitmap (hinv.run.stay (hrun.trans hplace.1.symm)) (hinv.wait.stay ?_)
    hinv.count (fun h => absurd h hblocked) hidle ?_ rfl ?_ fun u hu => running_iff_of_ne hu
  · rw [Thread.wait_place_of_ne hblocked, hplace.2]
  · intro h
    exact .inl (hready.mpr (hidle ▸ h))
  · exact ⟨fun h => absurd h hrunning, fun h => absurd h hinv.not_running_of_off⟩

section Ready

variable (hinv : Inv cfg k none) (hstate : (f (k.thread (k.current cpu))).state = .ready)
  (hidle : (f (k.thread (k.current cpu))).idle = (k.thread (k.current cpu)).idle)
include hinv hstate hidle

/-- The current thread goes into its run queue, at either end. -/
theorem Inv.requeue (hbusy : k.busy cpu = true)
    (hlist : list.Perm (k.current cpu :: k.runQueue (f (k.thread (k.current cpu))).priority)) :
    Inv cfg ((k.modify (k.current cpu) f).setRunQueue (k.current cpu) list) (some cpu) := by
  have hplace := run_place_of_running (hinv.current_running cpu)
  have hnotidle := hidle.trans (idle_of_busy hbusy)
  have hself : (k.modify (k.current cpu) f).thread (k.current cpu) =
      f (k.thread (k.current cpu)) := by simp [modify]
  refine hinv.move rfl ?_ ?_ (hinv.wait.stay ?_) hinv.count ?_ hidle (fun _ => .inl hstate) rfl ?_
    fun u hu => running_iff_of_ne hu
  · refine hinv.bitmap.insert _ ?_
    intro hnil
    rw [hnil] at hlist
    exact cons_ne_nil _ _ hlist.nil_eq.symm
  · simp only [setRunQueue, hself]
    rw [Thread.run_place_of_ready hstate hnotidle]
    exact hinv.run.insert hplace.1 hlist
  · rw [Thread.wait_place_of_ne (by simp [hstate]), hplace.2]
  · intro hblocked
    rw [hstate] at hblocked
    cases hblocked
  · rw [hstate]
    exact ⟨nofun, fun h => absurd h hinv.not_running_of_off⟩

/-- The current thread goes to the head of its run queue. -/
theorem Inv.requeue_head (hbusy : k.busy cpu = true) :
    Inv cfg ((k.modify (k.current cpu) f).insertInRunQueueHead (k.current cpu)) (some cpu) := by
  refine hinv.requeue hstate hidle hbusy ?_
  rw [modify_thread_self]
  exact .refl _

/-- The current thread goes to the tail of its run queue. -/
theorem Inv.requeue_tail (hbusy : k.busy cpu = true) :
    Inv cfg ((k.modify (k.current cpu) f).insertInRunQueueTail (k.current cpu)) (some cpu) := by
  refine hinv.requeue hstate hidle hbusy ?_
  rw [modify_thread_self]
  exact perm_append_singleton _ _

/-- An idle thread that gives up its processor stays out of the run queues. -/
theorem Inv.idle_leave (hnot : k.busy cpu = false) :
    Inv cfg (k.modify (k.current cpu) f) (some cpu) := by
  have hflag : (k.thread (k.current cpu)).idle = true := by simpa [busy] using hnot
  refine hinv.leave ?_ ?_ hidle ⟨fun _ => hflag, fun _ => hstate⟩ <;> rw [hstate] <;> exact nofun

end Ready

/-- A thread in no queue and not running goes to the head of its run queue. -/
theorem Inv.start (hinv : Inv cfg k off)
    (hstate : (k.thread t).state = .suspended ∨ (k.thread t).state = .sleeping) :
    Inv cfg ((k.modify t fun r => { r with state := .ready }).insertInRunQueueHead t) off := by
  have hnot : ∀ state, state ≠ .suspended → state ≠ .sleeping → (k.thread t).state ≠ state := by
    rintro state h₁ h₂ rfl
    rcases hstate with h | h
    · exact h₁ h
    · exact h₂ h
  have hnotidle := hinv.not_idle (hnot _ nofun nofun) (hnot _ nofun nofun)
  refine hinv.move rfl ?_ ?_ (hinv.wait.stay ?_) hinv.count nofun rfl (fun _ => .inl rfl) rfl ?_
    fun _ _ => Iff.rfl
  · exact hinv.bitmap.insert _ (cons_ne_nil _ _)
  · simp only [insertInRunQueueHead, setRunQueue, modify, update_self]
    have hready : Thread.runPlace { k.thread t with state := .ready } =
        some (k.thread t).priority := Thread.run_place_of_ready rfl hnotidle
    rw [hready]
    exact hinv.run.cons (Thread.run_place_of_ne (hnot _ nofun nofun))
  · rw [Thread.wait_place_of_ne (hnot _ nofun nofun)]
    exact Thread.wait_place_of_ne nofun
  · refine ⟨nofun, fun h => ?_⟩
    exact absurd ((hinv.running t).mpr h) (hnot _ nofun nofun)

end Threads

/-! ## Picking the next thread -/

/-- No thread is current twice after a switch to a thread that was not current elsewhere. -/
theorem current_switch_injective [DecidableEq Cpu] (hinjective : Injective k.current)
    (hfree : ∀ c, c ≠ cpu → k.current c ≠ newthread) :
    Injective (Function.update k.current cpu newthread) := by
  intro c c' hc
  by_cases h : c = cpu <;> by_cases h' : c' = cpu
  · rw [h, h']
  · rw [h, update_self, update_of_ne h'] at hc
    exact absurd hc.symm (hfree c' h')
  · rw [h', update_self, update_of_ne h] at hc
    exact absurd hc (hfree c h)
  · rw [update_of_ne h, update_of_ne h'] at hc
    exact hinjective hc

/-- A switch changes nothing for the threads that run elsewhere. -/
theorem current_switch_iff [DecidableEq Cpu] (hu : u ≠ newthread) :
    (∃ c, (none : Option Cpu) ≠ some c ∧ Function.update k.current cpu newthread c = u) ↔
      ∃ c, some cpu ≠ some c ∧ k.current c = u := by
  constructor
  · rintro ⟨c, _, hc⟩
    by_cases heq : c = cpu
    · rw [heq, update_self] at hc
      exact absurd hc.symm hu
    · rw [update_of_ne heq] at hc
      exact ⟨c, fun h => heq (some.inj h).symm, hc⟩
  · rintro ⟨c, hne, hc⟩
    refine ⟨c, nofun, ?_⟩
    rw [update_of_ne (fun h => hne (by rw [h]))]
    exact hc

variable [DecidableEq Tid]

section Switch

variable [DecidableEq Cpu]

theorem get_top_thread_cases (k : Kernel Tid Wid Cpu) (cpu : Cpu) :
    k.getTopThread cfg cpu = (cfg.idleThread cpu, k) ∨
    ∃ p newthread, newthread ∈ k.runQueue p ∧
      k.getTopThread cfg cpu = (newthread, { k with
        runQueue := Function.update k.runQueue p ((k.runQueue p).erase newthread)
        runQueueBitmap :=
          if ((k.runQueue p).erase newthread).isEmpty then
            k.runQueueBitmap &&& ~~~(1#32 <<< p.val)
          else k.runQueueBitmap }) := by
  unfold getTopThread
  cases hcandidate : k.topCandidate cpu with
  | none => exact .inl rfl
  | some found =>
    obtain ⟨p, newthread⟩ := found
    refine .inr ⟨p, newthread, ?_, rfl⟩
    obtain ⟨q, _, hq⟩ := exists_of_findSome?_eq_some hcandidate
    split at hq
    · obtain ⟨u, hfind, ⟨⟩⟩ := map_eq_some_iff.mp hq
      exact mem_of_find?_eq_some hfind
    · cases hq

/-- The thread that is picked starts to run, and the processor is in order again. -/
theorem Inv.switch (hinv : Inv cfg k (some cpu))
    (hthread : k'.thread = Function.update k.thread newthread r)
    (hcurrent : k'.current = Function.update k.current cpu newthread)
    (hwaitQueue : k'.waitQueue = k.waitQueue)
    (hbitmap : BitmapMatches k'.runQueueBitmap k'.runQueue)
    (hrun : Placed k'.runQueue (Function.update (fun u => (k.thread u).runPlace) newthread none))
    (hstate : r.state = .running) (hidle : r.idle = (k.thread newthread).idle)
    (hready : (k.thread newthread).state = .ready)
    (hhome : ∀ c, newthread = cfg.idleThread c → cpu = c) : Inv cfg k' none := by
  have hfree : ∀ c, c ≠ cpu → k.current c ≠ newthread := by
    intro c hc heq
    have hrunning := (hinv.running newthread).mpr
      ⟨c, fun h => hc (some.inj h).symm, heq⟩
    rw [hready] at hrunning
    cases hrunning
  have hplace := run_place_of_running hstate
  refine hinv.update hthread hbitmap (by rwa [hplace.1]) ?_ ?_ (by simp [hstate]) hidle
    (fun _ => .inr hstate) ?_ ?_ ?_ ?_
  · rw [hwaitQueue]
    refine hinv.wait.stay ?_
    rw [hplace.2, Thread.wait_place_of_ne (by simp [hready])]
  · rw [hwaitQueue]
    exact hinv.count
  · rw [hcurrent]
    exact ⟨fun _ => ⟨cpu, nofun, update_self _ _ _⟩, fun _ => hstate⟩
  · rw [hcurrent]
    exact fun u hu => current_switch_iff hu
  · rw [hcurrent]
    exact current_switch_injective hinv.current_injective hfree
  · rw [hcurrent]
    intro c c' hc
    by_cases h : c = cpu
    · rw [h, update_self] at hc
      rw [h]
      exact hhome c' hc
    · rw [update_of_ne h] at hc
      exact hinv.idle_home c c' hc

/-- Picking a thread changes run queues only. -/
theorem get_top_thread_snd (cfg : Config Tid Wid Cpu) (k : Kernel Tid Wid Cpu) (cpu : Cpu) :
    (k.getTopThread cfg cpu).2 = { k with
      runQueue := (k.getTopThread cfg cpu).2.runQueue
      runQueueBitmap := (k.getTopThread cfg cpu).2.runQueueBitmap } := by
  rcases get_top_thread_cases k cpu with h | ⟨p, newthread, _, h⟩
  · rw [h]
  · rw [h]

/-- What `thread_resched` makes of the structure of the thread it picks. -/
def switchedIn (cpu : Cpu) (r : Thread Wid Cpu) : Thread Wid Cpu :=
  { r with
    state := .running
    remainingQuantum := if r.remainingQuantum ≤ 0 then 5 else r.remainingQuantum
    currCpu := some cpu }

/-- `thread_resched` lets the old thread go on, or switches to another. -/
theorem thread_resched_eq (cfg : Config Tid Wid Cpu) (k : Kernel Tid Wid Cpu) (cpu : Cpu) :
    k.threadResched cfg cpu =
      if (k.getTopThread cfg cpu).1 = k.current cpu then
        some ((k.getTopThread cfg cpu).2.modify (k.current cpu) fun r =>
          { r with state := .running })
      else
        (switchPreemptTimer (k.thread (k.current cpu)) (k.thread (k.getTopThread cfg cpu).1)
          (k.preemptTimer cpu)).map fun queued => { k with
            thread := Function.update
              (k.modify (k.current cpu) fun r => { r with currCpu := none }).thread
              (k.getTopThread cfg cpu).1 (switchedIn cpu (k.thread (k.getTopThread cfg cpu).1))
            runQueue := (k.getTopThread cfg cpu).2.runQueue
            runQueueBitmap := (k.getTopThread cfg cpu).2.runQueueBitmap
            preemptTimer := Function.update k.preemptTimer cpu queued
            current := Function.update k.current cpu (k.getTopThread cfg cpu).1 } := by
  have hsame := get_top_thread_snd cfg k cpu
  unfold threadResched
  revert hsame
  generalize k.getTopThread cfg cpu = top
  obtain ⟨newthread, k₁⟩ := top
  intro hsame
  simp only at hsame ⊢
  split
  · next heq => rw [heq]
  next hne =>
  have hold := Ne.symm hne
  rw [hsame]
  simp only [modify]
  congr 1
  · funext queued
    simp only [Kernel.mk.injEq, and_true]
    funext u
    by_cases hnew : u = newthread
    · simp [hnew, hne, switchedIn]
    · by_cases hcur : u = k.current cpu
      · simp [hcur, hold]
      · simp [hnew, hcur]
  · simp [hne, hold, switchPreemptTimer, Thread.isRealTimeOrIdle]

/-- What the scheduler needs to know of the thread it picks. -/
theorem Inv.picked (hinv : Inv cfg k (some cpu)) :
    (k.thread (k.getTopThread cfg cpu).1).state = .ready ∧
    (∀ c, (k.getTopThread cfg cpu).1 = cfg.idleThread c → cpu = c) ∧
    BitmapMatches (k.getTopThread cfg cpu).2.runQueueBitmap (k.getTopThread cfg cpu).2.runQueue ∧
    Placed (k.getTopThread cfg cpu).2.runQueue
      (Function.update (fun u => (k.thread u).runPlace) (k.getTopThread cfg cpu).1 none) := by
  rcases get_top_thread_cases k cpu with h | ⟨p, newthread, hmem, h⟩
  · rw [h]
    have hidle : (k.thread (cfg.idleThread cpu)).idle = true := (hinv.idle_iff _).mpr ⟨cpu, rfl⟩
    refine ⟨?_, fun c hc => cfg.idle_thread_injective hc, hinv.bitmap,
      hinv.run.stay (Thread.run_place_of_idle hidle).symm⟩
    rcases hinv.idle_state _ hidle with hready | hrunning
    · exact hready
    · obtain ⟨c, hne, hc⟩ := (hinv.running _).mp hrunning
      exact absurd (by rw [hinv.idle_home c cpu hc]) hne
  · rw [h]
    have hplace : (k.thread newthread).runPlace = some p := (hinv.run.mem_iff p newthread).mp hmem
    have hready : (k.thread newthread).state = .ready := by
      by_contra hne
      rw [Thread.run_place_of_ne hne] at hplace
      cases hplace
    refine ⟨hready, ?_, hinv.bitmap.remove p (ne_nil_of_mem hmem), hinv.run.erase hplace⟩
    intro c hc
    have hidle := (hinv.idle_iff newthread).mpr ⟨c, hc.symm⟩
    rw [Thread.run_place_of_idle hidle] at hplace
    cases hplace

/-- `thread_resched` puts the processor in order again. -/
theorem Inv.resched (hinv : Inv cfg k (some cpu)) (hresched : k.threadResched cfg cpu = some k') :
    Inv cfg k' none := by
  obtain ⟨hready, hhome, hbitmap, hrun⟩ := hinv.picked
  rw [thread_resched_eq] at hresched
  split at hresched
  · next heq =>
    cases hresched
    rw [heq] at hready hhome hrun
    have hsame := get_top_thread_snd cfg k cpu
    have hcurrent : (k.getTopThread cfg cpu).2.current = k.current := by rw [hsame]
    have hthread : (k.getTopThread cfg cpu).2.thread = k.thread := by rw [hsame]
    have hwait : (k.getTopThread cfg cpu).2.waitQueue = k.waitQueue := by rw [hsame]
    refine hinv.switch (r := { k.thread (k.current cpu) with state := .running }) ?_ ?_ hwait
      hbitmap hrun rfl rfl hready hhome
    · simp only [modify, hthread]
    · simp only [modify, hcurrent, update_eq_self]
  · next hne =>
    obtain ⟨queued, _, rfl⟩ := map_eq_some_iff.mp hresched
    have hold := hinv.touch (k.current cpu) (f := fun r => { r with currCpu := none }) rfl rfl rfl
      rfl
    have hnew : (k.modify (k.current cpu) fun r => { r with currCpu := none }).thread
        (k.getTopThread cfg cpu).1 = k.thread (k.getTopThread cfg cpu).1 := by
      simp [modify, hne]
    refine hold.switch rfl rfl rfl hbitmap ?_ rfl ?_ ?_ hhome
    · refine hrun.congr fun u => ?_
      by_cases hu : u = (k.getTopThread cfg cpu).1
      · simp [hu]
      · by_cases hcur : u = k.current cpu
        · rw [update_of_ne hu, update_of_ne hu, hcur]
          simp [modify, Thread.runPlace]
        · simp [hu, modify, hcur]
    · rw [hnew]
      rfl
    · rw [hnew]
      exact hready

omit [DecidableEq Tid] in
/-- The search does not pass over a thread for one of a lower priority. -/
theorem top_candidate_of_mem (hbitmap : BitmapMatches k.runQueueBitmap k.runQueue) {q : Priority}
    (ht : t ∈ k.runQueue q) (hfit : k.eligible cpu t = true) :
    ∃ p top, k.topCandidate cpu = some (p, top) ∧ q ≤ p ∧ top ∈ k.runQueue p := by
  have hq (h : (if k.runQueueBitmap.getLsbD q then
      ((k.runQueue q).find? (k.eligible cpu)).map (q, ·) else none) = none) : False := by
    rw [if_pos ((hbitmap q).mpr (ne_nil_of_mem ht)), map_eq_none_iff, find?_eq_none] at h
    exact h t ht hfit
  cases htop : k.topCandidate cpu with
  | none => exact (hq (findSome?_eq_none_iff.mp htop q (by simp))).elim
  | some found =>
    obtain ⟨before, p, after, hsplit, hp, hbefore⟩ := findSome?_eq_some_iff.mp htop
    obtain ⟨top, hfind, rfl⟩ := map_eq_some_iff.mp (ite_none_right_eq_some.mp hp).2
    refine ⟨p, top, rfl, ?_, mem_of_find?_eq_some hfind⟩
    -- the queues before `p` are the ones with a higher priority
    have hsorted := pairwise_reverse.mpr (pairwise_lt_finRange 32)
    have hmem : q ∈ (finRange 32).reverse := by simp
    rw [hsplit] at hsorted hmem
    rcases mem_append.mp hmem with hin | hin
    · exact (hq (hbefore q hin)).elim
    · rcases mem_cons.mp hin with rfl | hin
      · exact le_rfl
      · exact (rel_of_pairwise_cons (pairwise_append.mp hsorted).2.1 hin).le

/-- `thread_resched` runs the thread it picks, and makes no thread ready. -/
theorem resched_frame (hresched : k.threadResched cfg cpu = some k') :
    k'.current cpu = (k.getTopThread cfg cpu).1 ∧ ∀ u,
      (k'.thread u).priority = (k.thread u).priority ∧ (k'.thread u).idle = (k.thread u).idle ∧
      (k'.thread u).pinnedCpu = (k.thread u).pinnedCpu ∧
      ((k'.thread u).state = .ready → (k.thread u).state = .ready) := by
  rw [thread_resched_eq, get_top_thread_snd] at hresched
  split at hresched
  · next heq =>
    cases hresched
    refine ⟨heq.symm, fun u => ?_⟩
    by_cases hu : u = k.current cpu <;> simp [modify, hu]
  · obtain ⟨queued, _, rfl⟩ := map_eq_some_iff.mp hresched
    refine ⟨update_self .., fun u => ?_⟩
    by_cases hu : u = (k.getTopThread cfg cpu).1 <;> by_cases hold : u = k.current cpu <;>
      simp_all [modify, switchedIn]

theorem Inv.resched_highest (hinv : Inv cfg k (some cpu))
    (hresched : k.threadResched cfg cpu = some k') (hready : (k'.thread t).state = .ready)
    (hidle : (k'.thread t).idle = false) (hfit : k'.eligible cpu t = true) :
    (k'.thread (k'.current cpu)).idle = false ∧
      (k'.thread t).priority ≤ (k'.thread (k'.current cpu)).priority := by
  obtain ⟨hcurrent, hsame⟩ := resched_frame hresched
  obtain ⟨hpriority, hidle', hpinned, hstate⟩ := hsame t
  rw [hidle'] at hidle
  have ht := (hinv.run.mem_iff _ t).mpr (Thread.run_place_of_ready (hstate hready) hidle)
  rw [eligible, hpinned] at hfit
  obtain ⟨p, top, htop, hle, hmem⟩ := top_candidate_of_mem hinv.bitmap ht hfit
  obtain ⟨⟨_, hnot⟩, ⟨⟩⟩ := ite_none_right_eq_some.mp ((hinv.run.mem_iff p top).mp hmem)
  rw [hcurrent, hpriority, (hsame _).1, (hsame _).2.1]
  simp only [getTopThread, htop]
  exact ⟨hnot, hle⟩

theorem Inv.yield (hinv : Inv cfg k none) (hstep : k.threadYield cfg cpu = some k') :
    Inv cfg k' none := by
  simp only [threadYield, modify_thread_self] at hstep
  refine .resched ?_ hstep
  split
  · next hnot => exact hinv.requeue_tail rfl rfl hnot
  · next hidle => exact hinv.idle_leave rfl rfl (by simpa [busy] using hidle)

theorem Inv.preempt (hinv : Inv cfg k none) (hstep : k.threadPreempt cfg cpu = some k') :
    Inv cfg k' none := by
  simp only [threadPreempt, modify_thread_self] at hstep
  refine .resched ?_ hstep
  split
  · next hnot =>
    split
    · exact hinv.requeue_head rfl rfl hnot
    · exact hinv.requeue_tail rfl rfl hnot
  · next hidle => exact hinv.idle_leave rfl rfl (by simpa [busy] using hidle)

theorem Inv.sleep (hinv : Inv cfg k none) (hbusy : k.busy cpu = true)
    (hstep : k.threadSleep cfg cpu = some k') : Inv cfg k' none := by
  refine .resched ?_ hstep
  refine hinv.leave ?_ ?_ rfl ?_ <;> simp [idle_of_busy hbusy]

theorem Inv.set_priority {priority : Int} (hinv : Inv cfg k none) (hbusy : k.busy cpu = true)
    (hstep : k.threadSetPriority cfg cpu priority = some k') : Inv cfg k' none := by
  simp only [threadSetPriority, modify_modify] at hstep
  refine .resched ?_ hstep
  exact hinv.requeue_head rfl rfl hbusy

end Switch

/-! ## Waiting and waking -/

variable [DecidableEq Wid] {threads : List Tid}

/-- The current thread goes to the end of a wait queue. -/
theorem Inv.block (hinv : Inv cfg k none) (hbusy : k.busy cpu = true)
    (hstate : (f (k.thread (k.current cpu))).state = .blocked)
    (hidle : (f (k.thread (k.current cpu))).idle = (k.thread (k.current cpu)).idle)
    (hqueue : (f (k.thread (k.current cpu))).blockingWaitQueue = some w) :
    Inv cfg ((k.setWaitQueue w ⟨(k.waitQueue w).count + 1,
      (k.waitQueue w).list ++ [k.current cpu]⟩).modify (k.current cpu) f) (some cpu) := by
  have hplace := run_place_of_running (hinv.current_running cpu)
  have hthread : ((k.setWaitQueue w ⟨(k.waitQueue w).count + 1,
      (k.waitQueue w).list ++ [k.current cpu]⟩).modify (k.current cpu) f).thread =
      Function.update k.thread (k.current cpu) (f (k.thread (k.current cpu))) := rfl
  refine hinv.move hthread hinv.bitmap (hinv.run.stay ?_) ?_ ?_ ?_ hidle ?_ rfl ?_
    fun u hu => running_iff_of_ne hu
  · rw [Thread.run_place_of_ne (by simp [hstate]), hplace.1]
  · have hwait : (f (k.thread (k.current cpu))).waitPlace = some w := by
      simp [Thread.waitPlace, hstate, hqueue]
    rw [hwait]
    simp only [modify, setWaitQueue, wait_lists_update]
    exact hinv.wait.append hplace.2
  · refine wait_count_update hinv.count ?_
    simp [hinv.count w]
  · simp [hqueue]
  · intro h
    rw [hidle, idle_of_busy hbusy] at h
    cases h
  · rw [hstate]
    exact ⟨nofun, fun h => absurd h hinv.not_running_of_off⟩

/-- A blocked thread is taken off its wait queue and goes to the head of its run queue. -/
theorem Inv.wake (hinv : Inv cfg k off) (hmem : t ∈ (k.waitQueue w).list) (ret : Status) :
    Inv cfg ((k.unlinkReady w t ret).insertInRunQueueHead t) off := by
  have hwaitplace : (k.thread t).waitPlace = some w := (hinv.wait.mem_iff w t).mp hmem
  have hblocked : (k.thread t).state = .blocked := by
    by_contra hne
    rw [Thread.wait_place_of_ne hne] at hwaitplace
    cases hwaitplace
  have hnotidle := hinv.not_idle (t := t) (by simp [hblocked]) (by simp [hblocked])
  have hnotrunning : ¬ ∃ cpu, off ≠ some cpu ∧ k.current cpu = t := by
    rw [← hinv.running, hblocked]
    exact nofun
  have hrunplace : (k.thread t).runPlace = none := Thread.run_place_of_ne (by simp [hblocked])
  refine hinv.move rfl ?_ ?_ ?_ ?_ nofun rfl (fun _ => .inl rfl) rfl ?_ fun _ _ => Iff.rfl
  · exact hinv.bitmap.insert _ (cons_ne_nil _ _)
  · simp only [insertInRunQueueHead, setRunQueue, unlinkReady, modify, setWaitQueue, update_self]
    have hready : ({ k.thread t with
        state := .ready, waitQueueBlockRet := ret, blockingWaitQueue := none } :
        Thread Wid Cpu).runPlace = some (k.thread t).priority :=
      Thread.run_place_of_ready rfl hnotidle
    rw [hready]
    exact hinv.run.cons hrunplace
  · simp only [insertInRunQueueHead, setRunQueue, unlinkReady, modify, setWaitQueue,
      wait_lists_update]
    exact hinv.wait.erase hwaitplace
  · refine wait_count_update hinv.count ?_
    have hpos := length_pos_of_mem hmem
    show (k.waitQueue w).count - 1 = (((k.waitQueue w).list.erase t).length : ℤ)
    rw [length_erase_of_mem hmem, hinv.count w]
    omega
  · exact ⟨nofun, fun h => absurd h hnotrunning⟩

/-- Waking a thread leaves the others in the queue. -/
theorem mem_wait_queue_wake (hnot : t ∉ threads)
    (hmem : ∀ u ∈ t :: threads, u ∈ (k.waitQueue w).list) (ret : Status) :
    ∀ u ∈ threads, u ∈ (((k.unlinkReady w t ret).insertInRunQueueHead t).waitQueue w).list := by
  intro u hu
  have hne : u ≠ t := fun heq => hnot (heq ▸ hu)
  have hlist : (((k.unlinkReady w t ret).insertInRunQueueHead t).waitQueue w).list =
      (k.waitQueue w).list.erase t := by
    simp [insertInRunQueueHead, setRunQueue, unlinkReady, modify, setWaitQueue]
  rw [hlist]
  exact (mem_erase_of_ne hne).mpr (hmem u (mem_cons_of_mem _ hu))

/-- The loop of `wait_queue_wake_all` wakes threads that are still in the queue. -/
theorem Inv.wake_threads (hinv : Inv cfg k off) (hnodup : threads.Nodup)
    (hmem : ∀ t ∈ threads, t ∈ (k.waitQueue w).list) (ret : Status) :
    Inv cfg (k.wakeThreads w ret threads) off := by
  induction threads generalizing k with
  | nil => exact hinv
  | cons t rest ih =>
    obtain ⟨hnot, hrest⟩ := nodup_cons.mp hnodup
    exact ih (hinv.wake (hmem t mem_cons_self) ret) hrest (mem_wait_queue_wake hnot hmem ret)

theorem Inv.wake_queue (hinv : Inv cfg k off) (w : Wid) (ret : Status) :
    Inv cfg (k.wakeThreads w ret (k.waitQueue w).list.reverse) off := by
  refine hinv.wake_threads ?_ ?_ ret
  · exact nodup_reverse.mpr (hinv.wait.nodup w)
  · intro t ht
    exact mem_reverse.mp ht

/-- Unlinking a thread and requeueing the current one are changes to different threads and
different queues. -/
theorem unlink_ready_requeue_current (hne : t ≠ k.current cpu) (ret : Status) :
    (k.unlinkReady w t ret).requeueCurrent cpu = (k.requeueCurrent cpu).unlinkReady w t ret := by
  simp [requeueCurrent, unlinkReady, insertInRunQueueHead, setRunQueue, modify, setWaitQueue, hne,
    hne.symm, update_comm hne]

theorem Inv.unblock (hinv : Inv cfg k off) :
    Inv cfg (k.threadUnblockFromWaitQueue t ret).2 off := by
  unfold threadUnblockFromWaitQueue
  split
  · next v hstate hqueue =>
    refine hinv.wake ((hinv.wait.mem_iff v t).mpr ?_) ret
    simp [Thread.waitPlace, hstate, hqueue]
  · exact hinv

theorem Inv.detach (hinv : Inv cfg k off) (t : Tid) : Inv cfg (k.threadDetach cfg t) off := by
  have hwoken := hinv.wake_queue (cfg.retcodeWaitQueue t) errThreadDetached
  unfold threadDetach
  exact hwoken.touch t rfl rfl rfl rfl

/-- A structure that is not in use becomes a suspended thread. -/
theorem Inv.create {priority : Priority} (hinv : Inv cfg k off)
    (hdead : (k.thread t).state = .death)
    (hempty : (k.waitQueue (cfg.retcodeWaitQueue t)).list = []) :
    Inv cfg (k.threadCreate cfg t priority) off := by
  have hnotidle := hinv.not_idle (t := t) (by simp [hdead]) (by simp [hdead])
  have hthread : (k.threadCreate cfg t priority).thread =
      Function.update k.thread t (.created priority) := rfl
  refine hinv.move hthread hinv.bitmap (hinv.run.stay ?_) ?_ ?_ nofun hnotidle.symm nofun rfl ?_
    fun _ _ => Iff.rfl
  · exact (Thread.run_place_of_ne (by simp [hdead])).symm
  · simp only [threadCreate, setWaitQueue, modify, wait_lists_update]
    rw [← hempty, update_eq_self]
    exact hinv.wait.stay (Thread.wait_place_of_ne (by simp [hdead])).symm
  · exact wait_count_update hinv.count rfl
  · rw [← hinv.running t, hdead]
    exact ⟨nofun, nofun⟩

/-! ## The functions of the scheduler -/

variable [DecidableEq Cpu]

section

variable (hinv : Inv cfg k none) {woken : ℕ}
include hinv

theorem Inv.wait_queue_block {timeout : Time} {ret : Option Status} (hbusy : k.busy cpu = true)
    (hstep : k.waitQueueBlock cfg cpu w timeout = some (ret, k')) : Inv cfg k' none := by
  unfold waitQueueBlock at hstep
  split at hstep
  · cases hstep
    exact hinv
  · obtain ⟨k₁, hresched, ⟨⟩⟩ := map_eq_some_iff.mp hstep
    refine .resched ?_ hresched
    exact hinv.block hbusy rfl rfl rfl

/-- What `wait_queue_wake_one` does. -/
theorem wake_one_cases (hstep : k.waitQueueWakeOne cfg cpu w reschedule ret = some (woken, k')) :
    (k.waitQueue w).list = [] ∧ k' = k ∨
    ∃ t rest, (k.waitQueue w).list = t :: rest ∧
      (k' = (k.unlinkReady w t ret).insertInRunQueueHead t ∨ reschedule = true ∧
        (((k.requeueCurrent cpu).unlinkReady w t ret).insertInRunQueueHead t).threadResched
          cfg cpu =
          some k') := by
  unfold waitQueueWakeOne at hstep
  split at hstep
  · next hlist =>
    cases hstep
    exact .inl ⟨hlist, rfl⟩
  next t rest hlist =>
  refine .inr ⟨t, rest, hlist, ?_⟩
  cases reschedule with
  | false =>
    cases hstep
    exact .inl rfl
  | true =>
    have hne : t ≠ k.current cpu := by
      rintro rfl
      refine hinv.wait.not_mem (run_place_of_running (hinv.current_running cpu)).2 w ?_
      rw [hlist]
      exact mem_cons_self
    obtain ⟨k₁, hresched, ⟨⟩⟩ := map_eq_some_iff.mp hstep
    rw [unlink_ready_requeue_current hne] at hresched
    exact .inr ⟨rfl, hresched⟩

theorem Inv.wake_one (hbusy : reschedule = true → k.busy cpu = true)
    (hstep : k.waitQueueWakeOne cfg cpu w reschedule ret = some (woken, k')) : Inv cfg k' none := by
  rcases wake_one_cases hinv hstep with ⟨_, rfl⟩ | ⟨t, rest, hlist, hwoken⟩
  · exact hinv
  have hmem : t ∈ (k.waitQueue w).list := by simp [hlist]
  rcases hwoken with rfl | ⟨hgo, hresched⟩
  · exact hinv.wake hmem ret
  · have hqueued : Inv cfg (k.requeueCurrent cpu) (some cpu) :=
      hinv.requeue_head rfl rfl (hbusy hgo)
    exact (hqueued.wake hmem ret).resched hresched

/-- What `wait_queue_wake_all` does: the test on the count and the test on the number of threads
agree. -/
theorem wake_all_cases (hstep : k.waitQueueWakeAll cfg cpu w reschedule ret = some (woken, k')) :
    k' = k.wakeThreads w ret (k.waitQueue w).list.reverse ∨ reschedule = true ∧
      ((k.requeueCurrent cpu).wakeThreads w ret (k.waitQueue w).list.reverse).threadResched
        cfg cpu =
        some k' := by
  have hcount := hinv.count w
  simp only [waitQueueWakeAll, length_reverse] at hstep
  by_cases hgo : reschedule = true ∧ 0 < (k.waitQueue w).list.length
  · rw [if_pos ⟨hgo.2, hgo.1⟩, if_pos ⟨hgo.1, by omega⟩] at hstep
    obtain ⟨k₁, hresched, ⟨⟩⟩ := map_eq_some_iff.mp hstep
    exact .inr ⟨hgo.1, hresched⟩
  · rw [if_neg (fun h => hgo ⟨h.2, h.1⟩), if_neg (fun h => hgo ⟨h.1, by omega⟩)] at hstep
    cases hstep
    exact .inl rfl

theorem Inv.wake_all (hbusy : reschedule = true → k.busy cpu = true)
    (hstep : k.waitQueueWakeAll cfg cpu w reschedule ret = some (woken, k')) : Inv cfg k' none := by
  rcases wake_all_cases hinv hstep with rfl | ⟨hgo, hresched⟩
  · exact hinv.wake_queue w ret
  · have hqueued : Inv cfg (k.requeueCurrent cpu) (some cpu) :=
      hinv.requeue_head rfl rfl (hbusy hgo)
    exact (hqueued.wake_queue w ret).resched hresched

theorem Inv.exit (hbusy : k.busy cpu = true) (hstep : k.threadExit cfg cpu = some k') :
    Inv cfg k' none := by
  refine .resched ?_ hstep
  have hdead : Inv cfg (k.modify (k.current cpu) fun r => { r with state := .death })
      (some cpu) := by
    refine hinv.leave ?_ ?_ rfl ?_ <;> simp [idle_of_busy hbusy]
  split
  · exact hdead
  · exact hdead.wake_queue _ noError

theorem Inv.step {action : Action Tid Wid Cpu} (hstep : k.step cfg action = some k') :
    Inv cfg k' none := by
  obtain ⟨henabled, hstep⟩ := ite_none_right_eq_some.mp hstep
  cases action with
  | create t priority =>
    cases hstep
    simp only [enabled, decide_eq_true_eq] at henabled
    exact hinv.create henabled.1 henabled.2
  | resume t =>
    cases hstep
    unfold threadResume
    split
    · next hstate => exact hinv.start (.inl hstate)
    · exact hinv
  | setRealTime cpu t =>
    cases hstep
    unfold threadSetRealTime
    split
    · exact (hinv.set_preempt_timer _).touch t rfl rfl rfl rfl
    · exact hinv.touch t rfl rfl rfl rfl
  | setPinnedCpu t cpu =>
    cases hstep
    exact hinv.touch t rfl rfl rfl rfl
  | yield cpu => exact hinv.yield hstep
  | preempt cpu => exact hinv.preempt hstep
  | timerTick cpu =>
    cases hstep
    simp only [threadTimerTick]
    split
    · exact hinv
    · show Inv cfg (k.modify (k.current cpu) fun r =>
        { r with remainingQuantum := r.remainingQuantum - 1 }) none
      exact hinv.touch (k.current cpu) rfl rfl rfl rfl
  | sleep cpu => exact hinv.sleep henabled hstep
  | sleepHandler t =>
    cases hstep
    exact hinv.start (.inr (by simpa [enabled] using henabled))
  | setPriority cpu priority => exact hinv.set_priority henabled hstep
  | block cpu w timeout =>
    obtain ⟨⟨ret, k₁⟩, hblock, rfl⟩ := map_eq_some_iff.mp hstep
    exact hinv.wait_queue_block henabled hblock
  | wakeOne cpu w reschedule ret =>
    obtain ⟨⟨woken, k₁⟩, hwake, rfl⟩ := map_eq_some_iff.mp hstep
    refine hinv.wake_one ?_ hwake
    rintro rfl
    simpa [enabled] using henabled
  | wakeAll cpu w reschedule ret =>
    obtain ⟨⟨woken, k₁⟩, hwake, rfl⟩ := map_eq_some_iff.mp hstep
    refine hinv.wake_all ?_ hwake
    rintro rfl
    simpa [enabled] using henabled
  | unblock t ret =>
    cases hstep
    exact hinv.unblock
  | exit cpu => exact hinv.exit henabled hstep
  | detach t =>
    cases hstep
    exact hinv.detach t

end

theorem reachable_inv {guard : Kernel Tid Wid Cpu → Action Tid Wid Cpu → Prop}
    (h : Reachable cfg guard k) : Inv cfg k none :=
  h.invariant_from (P := fun k => Inv cfg k none) (Inv.boot cfg) fun hinv _ => hinv.step

/-- With the thread lock free, in every run: a bit of the bitmap is set exactly when its run queue
is not empty; a ready thread other than an idle thread is in exactly one run queue, once; a
blocked thread is once in the wait queue it names, in no other, and in no run queue; a running
thread is in no queue; and each wait queue counts its threads. -/
theorem scheduler_consistent (h : Reachable cfg Always k) :
    (∀ p : Priority, k.runQueueBitmap.getLsbD p = true ↔ k.runQueue p ≠ []) ∧
    (∀ t, (k.thread t).state = .ready → (k.thread t).idle = false →
      ∃ p, (k.runQueue p).count t = 1 ∧ ∀ q, q ≠ p → t ∉ k.runQueue q) ∧
    (∀ t, (k.thread t).state = .blocked →
      ∃ w, (k.thread t).blockingWaitQueue = some w ∧ (k.waitQueue w).list.count t = 1 ∧
        (∀ v, v ≠ w → t ∉ (k.waitQueue v).list) ∧ ∀ p, t ∉ k.runQueue p) ∧
    (∀ t, (k.thread t).state = .running →
      (∀ p, t ∉ k.runQueue p) ∧ ∀ w, t ∉ (k.waitQueue w).list) ∧
    (∀ w, (k.waitQueue w).count = (k.waitQueue w).list.length) := by
  have hinv := reachable_inv h
  refine ⟨hinv.bitmap, ?_, ?_, ?_, hinv.count⟩
  · intro t hready hidle
    have hplace := Thread.run_place_of_ready hready hidle
    refine ⟨(k.thread t).priority, hinv.run.count_eq_one hplace, ?_⟩
    intro q hne hmem
    exact hne (hinv.run.unique hmem ((hinv.run.mem_iff _ t).mpr hplace))
  · intro t hblocked
    obtain ⟨w, hw⟩ := ne_none_iff_exists'.mp (hinv.queued t hblocked)
    have hplace : (k.thread t).waitPlace = some w := by simp [Thread.waitPlace, hblocked, hw]
    refine ⟨w, hw, hinv.wait.count_eq_one hplace, ?_, ?_⟩
    · intro v hne hmem
      exact hne (hinv.wait.unique hmem ((hinv.wait.mem_iff w t).mpr hplace))
    · exact hinv.run.not_mem (Thread.run_place_of_ne (by simp [hblocked]))
  · intro t hrunning
    have hplace := run_place_of_running hrunning
    exact ⟨hinv.run.not_mem hplace.1, hinv.wait.not_mem hplace.2⟩

/-- In every run, the thread that runs on a processor after `thread_yield` or `thread_preempt` has
the highest priority of those that are ready and may run there, and is the idle thread only if there
are none. -/
theorem resched_picks_highest {guard : Kernel Tid Wid Cpu → Action Tid Wid Cpu → Prop}
    (h : Reachable cfg guard k)
    (hstep : k.threadYield cfg cpu = some k' ∨ k.threadPreempt cfg cpu = some k')
    (hready : (k'.thread t).state = .ready) (hidle : (k'.thread t).idle = false)
    (hfit : k'.eligible cpu t = true) :
    (k'.thread (k'.current cpu)).idle = false ∧
      (k'.thread t).priority ≤ (k'.thread (k'.current cpu)).priority := by
  have hinv := reachable_inv h
  rcases hstep with hstep | hstep
  · simp only [threadYield, modify_thread_self] at hstep
    refine Inv.resched_highest ?_ hstep hready hidle hfit
    split
    · next hnot => exact hinv.requeue_tail rfl rfl hnot
    · next hidle => exact hinv.idle_leave rfl rfl (by simpa [busy] using hidle)
  · simp only [threadPreempt, modify_thread_self] at hstep
    refine Inv.resched_highest ?_ hstep hready hidle hfit
    split
    · next hnot =>
      split
      · exact hinv.requeue_head rfl rfl hnot
      · exact hinv.requeue_tail rfl rfl hnot
    · next hidle => exact hinv.idle_leave rfl rfl (by simpa [busy] using hidle)

end Invariant

/-- One processor, whose idle thread is thread 0, and two more threads. Wait queue 3 is in no
thread structure. -/
def oneCpu : Config (Fin 3) (Fin 4) Unit where
  idleThread _ := 0
  idleCpu t := if t = 0 then some () else none
  idleCpu_eq_some := by decide
  retcodeWaitQueue := Fin.castSucc

/-- Threads 1 and 2 start, thread 2 blocks and thread 1 runs. -/
theorem scheduler_consistent_blocked :
    ∃ k, (Reachable oneCpu Always k ∧ (k.thread 1).state = .running ∧
        (k.thread 2).state = .blocked) ∧
      (∃ w, (k.thread 2).blockingWaitQueue = some w ∧ (k.waitQueue w).list.count 2 = 1 ∧
        (∀ v, v ≠ w → 2 ∉ (k.waitQueue v).list) ∧ ∀ p, 2 ∉ k.runQueue p) ∧
      (∀ p, 1 ∉ k.runQueue p) ∧ ∀ w, (k.waitQueue w).count = (k.waitQueue w).list.length := by
  obtain ⟨k, hreach, hrunning, hblocked⟩ := exists_reachable (step oneCpu)
    Always (boot oneCpu)
    (P := fun k => (k.thread 1).state = .running ∧ (k.thread 2).state = .blocked)
    [.create 1 16, .resume 1, .create 2 16, .resume 2, .yield (), .block () 3 infiniteTime]
    (admits_always _ _) (by decide)
  obtain ⟨_, _, hwait, hrun, hcount⟩ := scheduler_consistent hreach
  exact ⟨k, ⟨hreach, hrunning, hblocked⟩, hwait 2 hblocked, (hrun 1 hrunning).1, hcount⟩

/-- The idle thread yields to thread 2, and thread 1 has to wait. -/
theorem resched_picks_highest_two :
    ∃ k, Reachable oneCpu Always k ∧ ∃ k' ∈ k.threadYield oneCpu (), (k'.thread 1).state = .ready ∧
      (k'.thread (k'.current ())).idle = false ∧
      (k'.thread 1).priority ≤ (k'.thread (k'.current ())).priority := by
  obtain ⟨k, hreach, k', hstep, hready, hidle, hfit⟩ := exists_reachable (step oneCpu) Always
    (boot oneCpu) (P := fun k => ∃ k' ∈ k.threadYield oneCpu (), (k'.thread 1).state = .ready ∧
      (k'.thread 1).idle = false ∧ k'.eligible () 1 = true)
    [.create 1 16, .resume 1, .create 2 20, .resume 2] (admits_always _ _) (by decide)
  exact ⟨k, hreach, k', hstep, hready,
    resched_picks_highest hreach (.inl hstep) hready hidle hfit⟩

end Kernel

end NusaKernel
