import NusaKernel.Kernel.WaitQueue
import NusaKernel.Lib.Transition

/-!
# Semaphores

`kernel/semaphore.c` under every interleaving of any number of threads, with the resumption of a
woken waiter as a step of its own. The expiry of a timeout is two steps: `timer_tick` takes the
timer off its queue, and later calls `wait_queue_timeout_handler`, which ends whatever wait the
thread is blocked in by then. The history keeps the number of posts and of waits that returned
success. `permits_conserved` says when the two account for the permits at hand, and `permit_lost`
that the code loses a permit when a wait blocks between a post and the return of a timed-out waiter.
-/

namespace NusaKernel.Semaphore

open Transition Function

/-- The function that called `wait_queue_block`. -/
inductive Call where
  | wait
  | timedwait
  deriving DecidableEq

/-- `semaphore_t`, the threads that use it, which of them have a timer on a timer queue, how many
callbacks of its timers a thread has to expect, and the numbers of posts and of successful waits. -/
structure State (Tid : Type*) where
  count : Int
  waiters : Waiters Unit Tid Call
  armed : Tid → Bool
  callbacks : Tid → ℕ
  posts : ℕ
  successes : ℕ

/-- What a thread or an interrupt does next. -/
inductive Action (Tid : Type*) where
  | post
  | wait (t : Tid)
  | trywait (t : Tid)
  | timedwait (t : Tid) (timeout : Time)
  | expire (t : Tid)
  | timeout (t : Tid)
  | resume (t : Tid)

variable {Tid : Type*}

/-- `sem_init`. -/
def initial (count : Int) : State Tid := ⟨count, .initial, fun _ => false, fun _ => 0, 0, 0⟩

variable [DecidableEq Tid]

variable (s : State Tid)

/-- `sem_post`. Returns the number of threads woken. -/
def semPost : ℕ × State Tid :=
  let s' := { s with count := wrapInt (s.count + 1) }
  -- if the count is or was negative then a thread is waiting for a resource
  if wrapInt (s.count + 1) ≤ 0 then
    let (woken, waiters) := s.waiters.waitQueueWakeOne () noError
    (woken, { s' with waiters })
  else (0, s')

/-- `sem_wait` up to its return or to the context switch, where it has no status yet. -/
def semWait (t : Tid) (h : s.waiters.phase t = .running) :
    Option Status × State Tid :=
  let s' := { s with count := wrapInt (s.count - 1) }
  if wrapInt (s.count - 1) < 0 then
    match s.waiters.waitQueueBlock () t .wait infiniteTime h with
    | .error ret => (some ret, s')
    | .ok waiters => (none, { s' with waiters })
  else (some noError, s')

/-- `sem_trywait`. -/
def semTrywait : Status × State Tid :=
  if s.count ≤ 0 then (errNotReady, s)
  else (noError, { s with count := wrapInt (s.count - 1) })

/-- The rest of `sem_timedwait` once `wait_queue_block` has returned `ret`. -/
def timedwaitReturn (ret : Status) : Status × State Tid :=
  if ret < noError then
    (ret, if ret = errTimedOut then { s with count := wrapInt (s.count + 1) } else s)
  else (ret, s)

/-- `sem_timedwait` up to its return or to the context switch. -/
def semTimedwait (t : Tid) (timeout : Time)
    (h : s.waiters.phase t = .running) : Option Status × State Tid :=
  let s' := { s with count := wrapInt (s.count - 1) }
  if wrapInt (s.count - 1) < 0 then
    match s.waiters.waitQueueBlock () t .timedwait timeout h with
    | .error ret => (timedwaitReturn s' ret).map some id
    | .ok waiters => (none, { s' with
        waiters, armed := update s.armed t (timeout ≠ infiniteTime) })
  else (some noError, s')

/-- Record that a call of one of the wait functions returned to its caller. -/
def returned : Option Status × State Tid → State Tid
  | (ret, s) => if ret = some noError then { s with successes := s.successes + 1 } else s

/-- One step. A running thread may have a callback to expect from a wait on another object. The
timer of a wait is cancelled when the thread runs again, unless it is off its queue by then. -/
def step : Action Tid → Option (State Tid)
  | .post =>
    let s' := (semPost s).2
    some { s' with posts := s'.posts + 1 }
  | .wait t =>
    if h : s.waiters.phase t = .running then some (returned (semWait s t h)) else none
  | .trywait t =>
    if s.waiters.phase t = .running then some (returned ((semTrywait s).map some id)) else none
  | .timedwait t timeout =>
    if h : s.waiters.phase t = .running then some (returned (semTimedwait s t timeout h))
    else none
  | .expire t =>
    if s.waiters.phase t = .running ∨ s.armed t then
      some { s with
        armed := update s.armed t false, callbacks := update s.callbacks t (s.callbacks t + 1) }
    else none
  | .timeout t =>
    if 0 < s.callbacks t then
      some { s with
        waiters := (s.waiters.threadUnblockFromWaitQueue t errTimedOut).2
        callbacks := update s.callbacks t (s.callbacks t - 1) }
    else none
  | .resume t =>
    match h : s.waiters.phase t with
    | .woken call ret =>
      let s' := { s with
        waiters := s.waiters.resume t call ret h, armed := update s.armed t false }
      match call with
      | .wait => some (returned (some ret, s'))
      | .timedwait => some (returned ((timedwaitReturn s' ret).map some id))
    | _ => none

/-- The states every interleaving can reach from a semaphore with this initial count. -/
def Reachable (count : Int) (guard : State Tid → Action Tid → Prop) : State Tid → Prop :=
  Transition.Reachable step guard (· = initial count)

/-- The permits the semaphore would hand out before a wait blocks. -/
def available : Int := max s.count 0

/-- No thread has been woken and not run since. -/
def Settled : Prop := ∀ t, ¬ (s.waiters.phase t).Pending

/-- Whether a state is settled can be tested. -/
instance [Fintype Tid] : DecidablePred (Settled : State Tid → Prop) :=
  fun s => inferInstanceAs (Decidable (∀ t, ¬ (s.waiters.phase t).Pending))

/-! ## What one step does -/

section Steps

variable {s s' : State Tid} {t : Tid}

/-- A post wakes the first waiter when the new count is not positive. -/
theorem step_post (hstep : step s .post = some s') :
    s' = { s with
      count := wrapInt (s.count + 1), posts := s.posts + 1,
      waiters := if wrapInt (s.count + 1) ≤ 0 then (s.waiters.waitQueueWakeOne () noError).2
        else s.waiters } := by
  simp only [step, semPost] at hstep
  cases hstep
  split <;> rfl

/-- A wait takes a permit or blocks. -/
theorem step_wait (hstep : step s (.wait t) = some s') :
    ∃ h : s.waiters.phase t = .running,
      (0 ≤ wrapInt (s.count - 1) ∧ s' = { s with
        count := wrapInt (s.count - 1), successes := s.successes + 1 }) ∨
      (wrapInt (s.count - 1) < 0 ∧ s' = { s with
        count := wrapInt (s.count - 1), waiters := s.waiters.block () t .wait false h }) := by
  obtain ⟨h, ⟨⟩⟩ := Option.dite_none_right_eq_some.mp hstep
  refine ⟨h, ?_⟩
  have hne : infiniteTime ≠ 0 := by decide
  by_cases hneg : wrapInt (s.count - 1) < 0
  · refine .inr ⟨hneg, ?_⟩
    simp [semWait, hneg, s.waiters.wait_queue_block_of_ne h hne, returned]
  · exact .inl ⟨by omega, by simp [semWait, hneg, returned]⟩

/-- A try takes a permit or changes nothing. -/
theorem step_trywait (hstep : step s (.trywait t) = some s') :
    s' = s ∨ (0 < s.count ∧ s' = { s with
      count := wrapInt (s.count - 1), successes := s.successes + 1 }) := by
  obtain ⟨_, ⟨⟩⟩ := Option.ite_none_right_eq_some.mp hstep
  by_cases hcount : s.count ≤ 0
  · exact .inl (by simp [semTrywait, hcount, returned, errNotReady, noError])
  · exact .inr ⟨by omega, by simp [semTrywait, hcount, returned]⟩

/-- A timed wait takes a permit, gives up at once, or blocks. -/
theorem step_timedwait {timeout : Time} (hstep : step s (.timedwait t timeout) = some s') :
    ∃ h : s.waiters.phase t = .running,
      (0 ≤ wrapInt (s.count - 1) ∧ s' = { s with
        count := wrapInt (s.count - 1), successes := s.successes + 1 }) ∨
      (timeout = 0 ∧ s' = { s with count := wrapInt (wrapInt (s.count - 1) + 1) }) ∨
      (wrapInt (s.count - 1) < 0 ∧ timeout ≠ 0 ∧ s' = { s with
        count := wrapInt (s.count - 1),
        waiters := s.waiters.block () t .timedwait (timeout ≠ infiniteTime) h
        armed := update s.armed t (timeout ≠ infiniteTime) }) := by
  obtain ⟨h, ⟨⟩⟩ := Option.dite_none_right_eq_some.mp hstep
  refine ⟨h, ?_⟩
  by_cases hneg : wrapInt (s.count - 1) < 0
  · by_cases htimeout : timeout = 0
    · refine .inr (.inl ⟨htimeout, ?_⟩)
      simp [semTimedwait, hneg, s.waiters.wait_queue_block_of_eq h htimeout,
        timedwaitReturn, errTimedOut, noError, returned]
    · refine .inr (.inr ⟨hneg, htimeout, ?_⟩)
      simp [semTimedwait, hneg, s.waiters.wait_queue_block_of_ne h htimeout, returned]
  · exact .inl ⟨by omega, by simp [semTimedwait, hneg, returned]⟩

/-- A callback takes the thread off the queue if it is blocked. -/
theorem step_timeout (hstep : step s (.timeout t) = some s') :
    0 < s.callbacks t ∧
      (s' = { s with callbacks := update s.callbacks t (s.callbacks t - 1) } ∨
        ∃ call timed, s.waiters.phase t = .blocked () call timed ∧
          s' = { s with
            waiters := s.waiters.wake t errTimedOut
            callbacks := update s.callbacks t (s.callbacks t - 1) }) := by
  obtain ⟨hpos, ⟨⟩⟩ := Option.ite_none_right_eq_some.mp hstep
  refine ⟨hpos, ?_⟩
  unfold Waiters.threadUnblockFromWaitQueue
  cases hphase : s.waiters.phase t with
  | blocked w call timed => exact .inr ⟨call, timed, rfl, rfl⟩
  | running | woken => exact .inl rfl

/-- A woken thread returns from its wait: with a permit that a post handed it, or after a timeout,
when it gives its place in the count back. -/
theorem step_resume (hstep : step s (.resume t) = some s') :
    ∃ call ret, ∃ h : s.waiters.phase t = .woken call ret,
      (s'.waiters = s.waiters.resume t call ret h ∧ s'.armed = update s.armed t false ∧
        s'.callbacks = s.callbacks) ∧
      (ret = noError → s' = { s with
        waiters := s.waiters.resume t call ret h, armed := update s.armed t false
        successes := s.successes + 1 }) ∧
      (ret = errTimedOut → call = .timedwait → s' = { s with
        waiters := s.waiters.resume t call ret h, armed := update s.armed t false
        count := wrapInt (s.count + 1) }) := by
  simp only [step] at hstep
  split at hstep
  · next call ret h =>
    refine ⟨call, ret, h, ?_, ?_, ?_⟩
    · cases call <;> cases hstep <;> simp only [timedwaitReturn, returned, Prod.map] <;>
        split_ifs <;> exact ⟨rfl, rfl, rfl⟩
    · intro hret
      subst hret
      cases call <;> cases hstep <;> simp [timedwaitReturn, returned]
    · intro hret hcall
      subst hret hcall
      cases hstep
      simp [timedwaitReturn, returned, err_timed_out_neg, (ne_of_lt err_timed_out_neg)]
  · cases hstep

end Steps

/-! ## The accounting invariant -/

section Invariant

variable [Fintype Tid] {n : Int} {s s' : State Tid} {t : Tid}

/-- The count stays in the range of an `int`, no wait blocks while a permit is at hand that only a
timed-out waiter, which has not run since, still holds back in the count, and no wait begins while
the thread has a callback to expect. -/
def WaitsInTime (s : State Tid) : Action Tid → Prop
  | .post => s.count < intMax
  | .wait t => intMin < s.count ∧
      (0 < s.count ∨ s.count + s.waiters.wokenCount errTimedOut ≤ 0) ∧ s.callbacks t = 0
  | .trywait _ => True
  | .timedwait _ timeout => intMin < s.count ∧
      (timeout = 0 ∨ 0 < s.count ∨ s.count + s.waiters.wokenCount errTimedOut ≤ 0)
  | .expire _ | .timeout _ => True
  | .resume _ => s.count < intMax

/-- Whether a step comes in time can be tested. -/
instance (s : State Tid) (action : Action Tid) : Decidable (WaitsInTime s action) := by
  cases action <;> unfold WaitsInTime <;> infer_instance

/-- A running thread has no timer on a queue, and a thread that is blocked in `sem_wait` has no
callback to expect either. -/
def QuietAt (armed : Bool) (callbacks : ℕ) : Phase Unit Call → Prop
  | .running => armed = false
  | .blocked _ .wait _ => armed = false ∧ callbacks = 0
  | .blocked _ .timedwait _ | .woken _ _ => True

/-- No callback ends a `sem_wait`. -/
def Quiet (s : State Tid) : Prop := ∀ t, QuietAt (s.armed t) (s.callbacks t) (s.waiters.phase t)

omit [DecidableEq Tid] [Fintype Tid] in
/-- A step that leaves all threads but one alone has to be looked at for this thread only. -/
theorem Quiet.of_thread (hquiet : Quiet s)
    (hothers : ∀ u ≠ t, s'.armed u = s.armed u ∧ s'.callbacks u = s.callbacks u ∧
      s'.waiters.phase u = s.waiters.phase u)
    (hthread : QuietAt (s'.armed t) (s'.callbacks t) (s'.waiters.phase t)) : Quiet s' := by
  intro u
  by_cases hu : u = t
  · exact hu ▸ hthread
  · obtain ⟨harmed, hcallbacks, hphase⟩ := hothers u hu
    rw [harmed, hcallbacks, hphase]
    exact hquiet u

omit [Fintype Tid] in
theorem Quiet.wake_one (hquiet : Quiet s) (u : Tid) :
    QuietAt (s.armed u) (s.callbacks u) ((s.waiters.waitQueueWakeOne () noError).2.phase u) := by
  rcases s.waiters.wake_one_cases () noError with ⟨_, hone⟩ | ⟨v, call, timed, _, hphase, hone⟩
  · rw [hone]
    exact hquiet u
  · rw [hone, s.waiters.phase_wake hphase, update_apply]
    split
    · trivial
    · exact hquiet u

/-- A thread whose wait comes in time stays quiet. -/
theorem Quiet.step {action : Action Tid} (hquiet : Quiet s) (hguard : WaitsInTime s action)
    (hstep : step s action = some s') : Quiet s' := by
  cases action with
  | post =>
    obtain rfl := step_post hstep
    intro u
    dsimp only
    split
    · exact hquiet.wake_one u
    · exact hquiet u
  | wait t =>
    obtain ⟨h, ⟨_, rfl⟩ | ⟨_, rfl⟩⟩ := step_wait hstep
    · exact hquiet
    · have hself := hquiet t
      rw [h] at hself
      refine hquiet.of_thread (t := t) (fun u hu => ⟨rfl, rfl, update_of_ne hu _ _⟩) ?_
      rw [Waiters.phase_block, update_self]
      exact ⟨hself, hguard.2.2⟩
  | trywait t =>
    obtain rfl | ⟨_, rfl⟩ := step_trywait hstep <;> exact hquiet
  | timedwait t timeout =>
    obtain ⟨h, ⟨_, rfl⟩ | ⟨_, rfl⟩ | ⟨_, _, rfl⟩⟩ := step_timedwait hstep
    · exact hquiet
    · exact hquiet
    · refine hquiet.of_thread (t := t)
        (fun u hu => ⟨update_of_ne hu _ _, rfl, update_of_ne hu _ _⟩) ?_
      rw [Waiters.phase_block, update_self]
      trivial
  | expire t =>
    obtain ⟨hcase, ⟨⟩⟩ := Option.ite_none_right_eq_some.mp hstep
    refine hquiet.of_thread (t := t)
      (fun u hu => ⟨update_of_ne hu _ _, update_of_ne hu _ _, rfl⟩) ?_
    have hself := hquiet t
    dsimp only
    cases hphase : s.waiters.phase t with
    | running => exact update_self ..
    | woken => trivial
    | blocked w call timed =>
      rw [hphase] at hself hcase
      cases call with
      | timedwait => trivial
      | wait => exact absurd (hcase.resolve_left nofun) (by simp [hself.1])
  | timeout t =>
    obtain ⟨hpos, rfl | ⟨call, timed, hphase, rfl⟩⟩ := step_timeout hstep
    · refine hquiet.of_thread (t := t) (fun u hu => ⟨rfl, update_of_ne hu _ _, rfl⟩) ?_
      have hself := hquiet t
      dsimp only
      rw [update_self]
      cases hphase : s.waiters.phase t with
      | running =>
        rw [hphase] at hself
        exact hself
      | woken => trivial
      | blocked w call timed =>
        rw [hphase] at hself
        cases call with
        | timedwait => trivial
        | wait => exact ⟨hself.1, by rw [hself.2]⟩
    · refine hquiet.of_thread (t := t) (fun u hu => ⟨rfl, update_of_ne hu _ _, ?_⟩) ?_
      · rw [s.waiters.phase_wake hphase, update_of_ne hu]
      · rw [s.waiters.phase_wake hphase, update_self]
        trivial
  | resume t =>
    obtain ⟨call, ret, h, ⟨hwaiters, harmed, hcallbacks⟩, _⟩ := step_resume hstep
    refine hquiet.of_thread (t := t) (fun u hu => ?_) ?_
    · rw [hwaiters, harmed, hcallbacks, Waiters.phase_resume, update_of_ne hu, update_of_ne hu]
      exact ⟨rfl, rfl, rfl⟩
    · rw [hwaiters, harmed, Waiters.phase_resume, update_self, update_self]
      rfl

/-- A post wakes a waiter, and only a timed wait is ended by a timeout. -/
def Expected : Phase Unit Call → Prop
  | .running | .blocked _ _ _ => True
  | .woken call ret => ret = noError ∨ ret = errTimedOut ∧ call = .timedwait

/-- The permits that were taken: by waits that returned, and by waiters that a post has woken. -/
def taken (s : State Tid) : ℕ := s.successes + s.waiters.wokenCount noError

/-- The permits that were ever there are in the count, where every waiter and every timed-out
waiter that has not run since stands for minus one, or were taken. A thread waits only when
every permit is taken. -/
structure Inv (n : Int) (s : State Tid) : Prop where
  count_eq : s.count + (s.waiters.list ()).length + s.waiters.wokenCount errTimedOut + taken s =
    n + s.posts
  taken_le : taken s ≤ n + s.posts
  served : (s.waiters.list ()).length = 0 ∨ taken s = n + s.posts
  woken : s.waiters.All Expected
  min_le : intMin ≤ s.count
  le_max : s.count ≤ intMax

omit [DecidableEq Tid] in
theorem Inv.initial (hmin : 0 ≤ n) (hmax : n ≤ intMax) : Inv n (initial n : State Tid) where
  count_eq := by simp [Semaphore.initial, taken, Waiters.woken_count_initial]
  taken_le := by simpa [Semaphore.initial, taken, Waiters.woken_count_initial] using hmin
  served := .inl rfl
  woken _ := trivial
  min_le := le_trans (by decide) hmin
  le_max := hmax

section

variable (hinv : Inv n s)
include hinv

omit [DecidableEq Tid] in
/-- The count goes down by one without wrapping. -/
theorem Inv.wrap_sub (hmin : intMin < s.count) : wrapInt (s.count - 1) = s.count - 1 := by
  have hmax := hinv.le_max
  exact wrap_int_eq (by omega) (by omega)

omit [DecidableEq Tid] in
/-- The count goes up by one without wrapping. -/
theorem Inv.wrap_add (hmax : s.count < intMax) : wrapInt (s.count + 1) = s.count + 1 := by
  have hmin := hinv.min_le
  exact wrap_int_eq (by omega) (by omega)

omit [DecidableEq Tid] in
/-- A wait that finds a positive count takes a permit. -/
theorem Inv.take (hpos : 0 < s.count) :
    Inv n { s with count := s.count - 1, successes := s.successes + 1 } := by
  have hcount := hinv.count_eq
  have hserved := hinv.served
  have hmax := hinv.le_max
  unfold taken at hcount hserved
  refine ⟨?_, ?_, .inl ?_, hinv.woken, ?_, ?_⟩ <;> simp only [taken, intMin] <;> omega

/-- A wait that blocks finds every permit taken. -/
theorem Inv.block {call : Call} {timed : Bool} (h : s.waiters.phase t = .running)
    (hmin : intMin < s.count) (htime : s.count + s.waiters.wokenCount errTimedOut ≤ 0)
    (armed : Tid → Bool) :
    Inv n { s with
      count := s.count - 1, waiters := s.waiters.block () t call timed h, armed := armed } := by
  have heq := hinv.count_eq
  have hle := hinv.taken_le
  have hserved := hinv.served
  have hmax := hinv.le_max
  refine ⟨?_, ?_, .inr ?_, hinv.woken.block h trivial, ?_, ?_⟩ <;>
    simp only [taken, Waiters.woken_count_block, Waiters.list_block, List.length_append,
      List.length_singleton] at * <;> omega

theorem Inv.post (hguard : WaitsInTime s .post) (hstep : step s .post = some s') : Inv n s' := by
  obtain rfl := step_post hstep
  have heq := hinv.count_eq
  have hle := hinv.taken_le
  have hserved := hinv.served
  have hmin := hinv.min_le
  have hmax : s.count < intMax := hguard
  rw [hinv.wrap_add hmax]
  unfold taken at heq hle hserved
  split
  · rcases s.waiters.wake_one_cases () noError with
      ⟨hempty, hone⟩ | ⟨u, call, timed, _, hphase, hone⟩
    · -- the negative count came from timed-out waiters alone
      simp only [hone]
      refine ⟨?_, ?_, .inl (by simp [hempty]), hinv.woken, ?_, ?_⟩ <;>
        simp only [taken] <;> omega
    · have hlength := s.waiters.length_wake hphase noError
      have hhanded := s.waiters.woken_count_wake_self hphase noError
      have hbacking := s.waiters.woken_count_wake_of_ne hphase (ne_of_gt err_timed_out_neg)
      have hwoken : (s.waiters.wake u noError).All Expected := hinv.woken.wake hphase (.inl rfl)
      simp only [hone]
      refine ⟨?_, ?_, .inr ?_, hwoken, ?_, ?_⟩ <;> simp only [taken] <;> omega
  · refine ⟨?_, ?_, .inl ?_, hinv.woken, ?_, ?_⟩ <;> simp only [taken] <;> omega

theorem Inv.wait (hguard : WaitsInTime s (.wait t)) (hstep : step s (.wait t) = some s') :
    Inv n s' := by
  obtain ⟨hmin, htime, -⟩ := hguard
  obtain ⟨h, hcases⟩ := step_wait hstep
  rw [hinv.wrap_sub hmin] at hcases
  rcases hcases with ⟨hpos, rfl⟩ | ⟨hneg, rfl⟩
  · exact hinv.take (by omega)
  · exact hinv.block h hmin (by omega) s.armed

theorem Inv.trywait (hstep : step s (.trywait t) = some s') : Inv n s' := by
  rcases step_trywait hstep with rfl | ⟨hpos, rfl⟩
  · exact hinv
  · rw [hinv.wrap_sub (lt_trans (by decide) hpos)]
    exact hinv.take hpos

theorem Inv.timedwait {timeout : Time} (hguard : WaitsInTime s (.timedwait t timeout))
    (hstep : step s (.timedwait t timeout) = some s') : Inv n s' := by
  obtain ⟨hmin, htime⟩ := hguard
  obtain ⟨h, hcases⟩ := step_timedwait hstep
  rw [hinv.wrap_sub hmin] at hcases
  rcases hcases with ⟨hpos, rfl⟩ | ⟨_, rfl⟩ | ⟨hneg, hne, rfl⟩
  · exact hinv.take (by omega)
  · rw [sub_add_cancel, wrap_int_eq hinv.min_le hinv.le_max]
    exact hinv
  · have hblocked := htime.resolve_left hne
    exact hinv.block h hmin (by omega) _

theorem Inv.timeout (hquiet : Quiet s) (hstep : step s (.timeout t) = some s') : Inv n s' := by
  obtain ⟨hpos, rfl | ⟨call, timed, hphase, rfl⟩⟩ := step_timeout hstep
  · exact { hinv with }
  have heq := hinv.count_eq
  have hserved := hinv.served
  have hlength := s.waiters.length_wake hphase errTimedOut
  have hbacking := s.waiters.woken_count_wake_self hphase errTimedOut
  have hhanded := s.waiters.woken_count_wake_of_ne hphase (ne_of_lt err_timed_out_neg)
  have hcall : call = .timedwait := by
    have hself := hquiet t
    rw [hphase] at hself
    cases call with
    | wait => exact absurd hself.2 hpos.ne'
    | timedwait => rfl
  refine ⟨?_, ?_, .inr ?_, hinv.woken.wake hphase (.inr ⟨rfl, hcall⟩), hinv.min_le,
    hinv.le_max⟩ <;> simp only [taken] at * <;> omega

theorem Inv.resume (hguard : WaitsInTime s (.resume t)) (hstep : step s (.resume t) = some s') :
    Inv n s' := by
  obtain ⟨call, ret, hphase, _, htook, hbacked⟩ := step_resume hstep
  have heq := hinv.count_eq
  have hle := hinv.taken_le
  have hserved := hinv.served
  have hself := s.waiters.woken_count_resume_self hphase
  have hwoken := hinv.woken.resume hphase trivial
  have hexpected := hinv.woken.apply hphase
  have hmin := hinv.min_le
  have hmax : s.count < intMax := hguard
  rcases hexpected with hret | ⟨hret, hcall⟩
  · subst hret
    obtain rfl := htook rfl
    have hbacking := s.waiters.woken_count_resume_of_ne hphase (ne_of_gt err_timed_out_neg)
    refine ⟨?_, ?_, ?_, hwoken, ?_, ?_⟩ <;>
      simp only [taken, Waiters.list_resume] at * <;> omega
  subst hret hcall
  obtain rfl := hbacked rfl rfl
  have hhanded := s.waiters.woken_count_resume_of_ne hphase (ne_of_lt err_timed_out_neg)
  rw [hinv.wrap_add hmax]
  refine ⟨?_, ?_, ?_, hwoken, ?_, ?_⟩ <;>
    simp only [taken, Waiters.list_resume] at * <;> omega

end

/-- The accounting holds in every state that admitted steps reach. -/
theorem reachable_inv (hmin : 0 ≤ n) (hmax : n ≤ intMax) (h : Reachable n WaitsInTime s) :
    Inv n s ∧ Quiet s := by
  refine h.invariant_from (P := fun s => Inv n s ∧ Quiet s)
    ⟨Inv.initial hmin hmax, fun _ => rfl⟩ ?_
  intro s action s' ⟨hinv, hquiet⟩ hguard hstep
  refine ⟨?_, hquiet.step hguard hstep⟩
  cases action with
  | post => exact hinv.post hguard hstep
  | wait t => exact hinv.wait hguard hstep
  | trywait t => exact hinv.trywait hstep
  | timedwait t timeout => exact hinv.timedwait hguard hstep
  | expire t =>
    obtain ⟨_, ⟨⟩⟩ := Option.ite_none_right_eq_some.mp hstep
    exact { hinv with }
  | timeout t => exact hinv.timeout hquiet hstep
  | resume t => exact hinv.resume hguard hstep

/-- Permits are conserved in a run whose blocking waits all come in time, and in which no `sem_wait`
begins while the callback of an earlier wait of the thread is to come: once no woken thread is
pending, the permits at hand are those posted and not taken, and nobody waits while there is
one. -/
theorem permits_conserved (hmin : 0 ≤ n) (hmax : n ≤ intMax) (h : Reachable n WaitsInTime s)
    (hsettled : Settled s) :
    n + s.posts - s.successes = available s ∧
      (0 < available s → ∀ t call timed, s.waiters.phase t ≠ .blocked () call timed) := by
  obtain ⟨hinv, -⟩ := reachable_inv hmin hmax h
  have heq := hinv.count_eq
  have hle := hinv.taken_le
  have hserved := hinv.served
  have hhanded : s.waiters.wokenCount noError = 0 := s.waiters.woken_count_eq_zero hsettled
  have hbacking : s.waiters.wokenCount errTimedOut = 0 := s.waiters.woken_count_eq_zero hsettled
  unfold taken at heq hle hserved
  unfold available
  refine ⟨by omega, ?_⟩
  intro havailable t call timed hphase
  have hpos := List.length_pos_of_mem (s.waiters.mem_list_iff.mpr ⟨call, timed, hphase⟩)
  omega

/-- Two threads wait and two posts come, of which the waiter that timed out takes none. -/
theorem permits_conserved_contended :
    ∃ s : State (Fin 2), Reachable 0 WaitsInTime s ∧ Settled s ∧ s.successes = 1 ∧
      0 < available s ∧ 0 + s.posts - s.successes = available s ∧
      ∀ t call timed, s.waiters.phase t ≠ .blocked () call timed := by
  obtain ⟨s, hreach, hsettled, hsuccess, hpos⟩ := exists_reachable step WaitsInTime (initial 0)
    (P := fun s : State (Fin 2) => Settled s ∧ s.successes = 1 ∧ 0 < available s)
    [.wait 0, .timedwait 1 10, .post, .expire 1, .timeout 1, .post, .resume 1, .resume 0]
    (by decide) (by decide)
  obtain ⟨heq, hnone⟩ := permits_conserved (by decide) (by decide) hreach hsettled
  exact ⟨s, hreach, hsettled, hsuccess, hpos, heq, hnone hpos⟩

/-- A permit can be lost: thread 0 times out, a post finds nobody to wake, thread 1 blocks because
of the count that thread 0 has not yet given back, and then thread 0 gives it back. The one permit
is not at hand, and thread 1 waits although nobody took it. -/
theorem permit_lost :
    ∃ s : State (Fin 2), Reachable 0 Always s ∧ Settled s ∧
      0 + s.posts - s.successes ≠ available s ∧ 0 < (0 : Int) + s.posts - s.successes ∧
      s.waiters.phase 1 = .blocked () .wait false :=
  exists_reachable step Always (initial 0)
    [.timedwait 0 10, .expire 0, .timeout 0, .post, .wait 1, .resume 0]
    (admits_always _ _) (by decide)

end Invariant

end NusaKernel.Semaphore
