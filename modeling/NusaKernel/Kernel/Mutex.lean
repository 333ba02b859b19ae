import NusaKernel.Kernel.WaitQueue
import NusaKernel.Lib.Transition

/-!
# Mutexes

`kernel/mutex.c` under every interleaving of any number of threads. Each critical section under
the thread lock is one step. `mutex_acquire_timeout` is cut at the context switch inside
`wait_queue_block`, so the resumption of a woken thread is a later step of its own, and until
then the mutex counts a thread that has already timed out.

`owner_unique` is mutual exclusion. `not_stranded` says when no waiter is left behind on a free
mutex, and `late_acquire_strands` that the condition it asks for cannot be dropped.
-/

namespace NusaKernel.Mutex

open List Option Function Transition Tally

/-- `mutex_t`, the threads that use it, and the threads that are between a successful return of
`mutex_acquire_timeout` and their `mutex_release`. -/
structure State (Tid : Type*) where
  count : Int
  holder : Option Tid
  waiters : Waiters Unit Tid Unit
  holding : Tid → Bool

/-- What a thread or an interrupt does next. -/
inductive Action (Tid : Type*) where
  | acquire (t : Tid) (timeout : Time)
  | release (t : Tid)
  | timeout (t : Tid)
  | resume (t : Tid)

variable {Tid : Type*}

/-- `mutex_init`. -/
def initial : State Tid := ⟨0, none, .initial, fun _ => false⟩

variable [DecidableEq Tid]

variable (s : State Tid)

/-- The rest of `mutex_acquire_timeout` once `wait_queue_block` has returned `ret`. -/
def acquireReturn (t : Tid) (ret : Status) : Status × State Tid :=
  if ret < noError then
    -- if the acquisition timed out, back out the acquire and exit
    (ret, if ret = errTimedOut then { s with count := s.count - 1 } else s)
  else (ret, { s with holder := some t })

/-- `mutex_acquire_timeout` up to its return or to the context switch, where it has no status
yet. -/
def mutexAcquireTimeout (t : Tid) (timeout : Time)
    (h : s.waiters.phase t = .running) : Option Status × State Tid :=
  let s' := { s with count := s.count + 1 }
  if s.count + 1 > 1 then
    match s.waiters.waitQueueBlock () t () timeout h with
    | .error ret => (acquireReturn s' t ret).map some id
    | .ok waiters => (none, { s' with waiters })
  else (some noError, { s' with holder := some t })

/-- `mutex_release`. -/
def mutexRelease : Status × State Tid :=
  let s' := { s with holder := none, count := s.count - 1 }
  if s.count - 1 ≥ 1 then
    (noError, { s' with waiters := (s.waiters.waitQueueWakeOne () noError).2 })
  else (noError, s')

/-- Record that a call of `mutex_acquire_timeout` returned to its caller. -/
def returned (t : Tid) : Option Status × State Tid → State Tid
  | (ret, s) =>
    if ret = some noError then { s with holding := update s.holding t true } else s

/-- One step. The holder does not acquire, and no other thread releases: both are panics at a debug
level that no build has. A timeout ends any blocked wait: its timer may be that of an earlier
one. -/
def step : Action Tid → Option (State Tid)
  | .acquire t timeout =>
    if h : s.waiters.phase t = .running then
      if s.holder = some t then none
      else some (returned t (mutexAcquireTimeout s t timeout h))
    else none
  | .release t =>
    if s.waiters.phase t = .running ∧ s.holder = some t then
      let s' := (mutexRelease s).2
      some { s' with holding := update s'.holding t false }
    else none
  | .timeout t =>
    match s.waiters.phase t with
    | .blocked _ _ _ =>
      some { s with waiters := (s.waiters.threadUnblockFromWaitQueue t errTimedOut).2 }
    | _ => none
  | .resume t =>
    match h : s.waiters.phase t with
    | .woken call ret =>
      let s' := { s with waiters := s.waiters.resume t call ret h }
      some (returned t ((acquireReturn s' t ret).map some id))
    | _ => none

/-- The states every interleaving can reach from a fresh mutex. -/
def Reachable (guard : State Tid → Action Tid → Prop) : State Tid → Prop :=
  Transition.Reachable step guard (· = initial)

/-- The thread owns the mutex: its acquire returned success and it has not released since, or a
release has handed it the mutex and it has not run since. -/
def Owner (t : Tid) : Prop :=
  s.holding t = true ∨ s.waiters.phase t = .woken () noError

/-- A free mutex with a blocked thread that nobody is left to wake. -/
structure Stranded (s : State Tid) : Prop where
  free : s.holder = none
  unhanded : ∀ t, s.waiters.phase t ≠ .woken () noError
  settled : ∀ t, s.waiters.phase t ≠ .woken () errTimedOut
  waiter : ∃ t timed, s.waiters.phase t = .blocked () () timed

/-- An acquire that may block is not made in the window in which the mutex has no owner and its
count still holds a timed-out acquirer that has not backed out. -/
def AcquiresInTime : Action Tid → Prop
  | .acquire _ timeout =>
    timeout = 0 ∨ s.count ≤ 0 ∨ s.holder ≠ none ∨ ∃ t, s.waiters.phase t = .woken () noError
  | _ => True

/-- `AcquiresInTime` can be checked along a run. -/
instance [Fintype Tid] (s : State Tid) (action : Action Tid) :
    Decidable (AcquiresInTime s action) := by
  cases action <;> unfold AcquiresInTime <;> infer_instance

/-! ## What one step does -/

section Steps

variable {s s' : State Tid} {t : Tid}

/-- An acquire takes a mutex nobody counts on, gives up at once, or blocks. -/
theorem step_acquire {timeout : Time} (hstep : step s (.acquire t timeout) = some s') :
    ∃ h : s.waiters.phase t = .running, s.holder ≠ some t ∧
      ((s.count ≤ 0 ∧ s' = { s with
        count := s.count + 1, holder := some t,
        holding := update s.holding t true }) ∨
      (0 < s.count ∧ timeout = 0 ∧ s' = s) ∨
      (0 < s.count ∧ timeout ≠ 0 ∧ s' = { s with
        count := s.count + 1,
        waiters := s.waiters.block () t () (timeout ≠ infiniteTime) h })) := by
  obtain ⟨h, hstep⟩ := dite_none_right_eq_some.mp hstep
  split at hstep
  · cases hstep
  next hholder =>
  refine ⟨h, hholder, ?_⟩
  cases hstep
  by_cases hcount : s.count ≤ 0
  · have htest : ¬ s.count + 1 > 1 := by omega
    exact .inl ⟨hcount, by simp [mutexAcquireTimeout, htest, returned]⟩
  have hpos : 0 < s.count := by omega
  by_cases htimeout : timeout = 0
  · refine .inr (.inl ⟨hpos, htimeout, ?_⟩)
    simp [mutexAcquireTimeout, hpos, s.waiters.wait_queue_block_of_eq h htimeout,
      acquireReturn, errTimedOut, noError, returned]
  · refine .inr (.inr ⟨hpos, htimeout, ?_⟩)
    simp [mutexAcquireTimeout, hpos, s.waiters.wait_queue_block_of_ne h htimeout, returned]

/-- A release by the holder frees the mutex, and hands it to the first waiter if there is one. -/
theorem step_release (hstep : step s (.release t) = some s') :
    s.holder = some t ∧
      s' = { s with
        holder := none, count := s.count - 1, holding := update s.holding t false,
        waiters := if s.count - 1 ≥ 1 then (s.waiters.waitQueueWakeOne () noError).2
          else s.waiters } := by
  obtain ⟨h, ⟨⟩⟩ := ite_none_right_eq_some.mp hstep
  refine ⟨h.2, ?_⟩
  unfold mutexRelease
  split <;> rfl

/-- A timeout takes a blocked thread off the queue. -/
theorem step_timeout (hstep : step s (.timeout t) = some s') :
    ∃ timed, s.waiters.phase t = .blocked () () timed ∧
      s' = { s with waiters := s.waiters.wake t errTimedOut } := by
  simp only [step] at hstep
  split at hstep
  · next w call timed h =>
    cases hstep
    exact ⟨timed, h, by simp [Waiters.threadUnblockFromWaitQueue, h]⟩
  · cases hstep

/-- A woken thread runs again: it has been handed the mutex and becomes its holder, or it has
timed out and takes itself out of the count. -/
theorem step_resume (hstep : step s (.resume t) = some s') :
    ∃ ret, ∃ h : s.waiters.phase t = .woken () ret,
      (ret = noError → s' = { s with
        waiters := s.waiters.resume t () ret h, holder := some t,
        holding := update s.holding t true }) ∧
      (ret = errTimedOut → s' = { s with
        waiters := s.waiters.resume t () ret h, count := s.count - 1 }) := by
  simp only [step] at hstep
  split at hstep
  · next call ret h =>
    cases hstep
    refine ⟨ret, h, ?_, ?_⟩
    · rintro rfl
      simp [acquireReturn, returned]
    · rintro rfl
      simp [acquireReturn, returned, err_timed_out_neg, (ne_of_lt err_timed_out_neg)]
  · cases hstep

end Steps

/-! ## The accounting invariant -/

section Invariant

variable [Fintype Tid] {s s' : State Tid} {t u : Tid} {guard : State Tid → Action Tid → Prop}

/-- The holder, if there is one, and the threads that were handed the mutex and have not run
since. -/
def owners (s : State Tid) : ℕ := s.holder.toList.length + s.waiters.wokenCount noError

/-- A waiter of a mutex is woken by a release or by its timeout. -/
def Expected : Phase Unit Unit → Prop
  | .woken _ ret => ret = noError ∨ ret = errTimedOut
  | .running | .blocked _ _ _ => True

/-- The count is made up of the owner, the waiters and the acquirers that have timed out and not
yet backed out, and there is at most one owner. -/
structure Inv (s : State Tid) : Prop where
  count_eq : s.count = owners s + (s.waiters.list ()).length + s.waiters.wokenCount errTimedOut
  owners_le : owners s ≤ 1
  holding_iff : ∀ t, s.holding t = true ↔ s.holder = some t
  holder_running : ∀ t, s.holder = some t → s.waiters.phase t = .running
  woken : s.waiters.All Expected

omit [DecidableEq Tid] in
theorem Inv.initial : Inv (initial : State Tid) where
  count_eq := by simp [Mutex.initial, owners, Waiters.woken_count_initial]
  owners_le := by simp [Mutex.initial, owners, Waiters.woken_count_initial]
  holding_iff t := by simp [Mutex.initial]
  holder_running t h := rfl
  woken _ := trivial

omit [DecidableEq Tid] in
theorem Inv.expected {ret : Status} (hinv : Inv s) (hphase : s.waiters.phase t = .woken () ret) :
    ret = noError ∨ ret = errTimedOut :=
  hinv.woken.apply hphase

omit [DecidableEq Tid] in
/-- A mutex that nobody else owns has no holder. -/
theorem holder_eq_none (h : owners s ≤ s.waiters.wokenCount noError) : s.holder = none := by
  have hlength : s.holder.toList.length = 0 := by
    unfold owners at h
    omega
  cases hholder : s.holder with
  | none => rfl
  | some u => simp [hholder] at hlength

/-- A thread that becomes the holder of a free mutex is the only thread that holds it. -/
theorem Inv.holding_update (hinv : Inv s) (hnone : s.holder = none) (u : Tid) :
    update s.holding t true u = true ↔ some t = some u := by
  have hu := hinv.holding_iff u
  by_cases heq : u = t
  · simp [heq]
  · simp [heq, Ne.symm heq, hu, hnone]

theorem Inv.acquire {timeout : Time} (hinv : Inv s)
    (hstep : step s (.acquire t timeout) = some s') : Inv s' := by
  obtain ⟨h, hother, hcases⟩ := step_acquire hstep
  have hcount := hinv.count_eq
  have howners := hinv.owners_le
  rcases hcases with ⟨hfree, rfl⟩ | ⟨_, _, rfl⟩ | ⟨_, _, rfl⟩
  · -- nobody counts on the mutex, so nobody owns it
    have hnone : s.holder = none := holder_eq_none (by omega)
    simp only [owners, hnone, toList_none, length_nil] at hcount
    refine ⟨?_, ?_, hinv.holding_update hnone, fun u hu => some.inj hu ▸ h, hinv.woken⟩ <;>
      simp only [owners, toList_some, length_singleton] <;> omega
  · exact hinv
  refine ⟨?_, ?_, hinv.holding_iff, ?_, hinv.woken.block h trivial⟩
  · simp only [owners, Waiters.woken_count_block, Waiters.list_block, length_append,
      length_singleton] at hcount ⊢
    omega
  · simpa only [owners, Waiters.woken_count_block] using howners
  · intro u hu
    have hne : u ≠ t := fun heq => hother (heq ▸ hu)
    rw [Waiters.phase_block, Function.update_of_ne hne]
    exact hinv.holder_running u hu

theorem Inv.release (hinv : Inv s) (hstep : step s (.release t) = some s') : Inv s' := by
  obtain ⟨hholder, rfl⟩ := step_release hstep
  have hcount := hinv.count_eq
  have howners := hinv.owners_le
  simp only [owners, hholder, toList_some, length_singleton] at hcount howners
  have hholding : ∀ u, update s.holding t false u = true ↔ none = some u := by
    intro u
    have hu := hinv.holding_iff u
    by_cases heq : u = t
    · simp [heq]
    · simp [heq, hu, hholder, Ne.symm heq]
  split
  · rcases s.waiters.wake_one_cases () noError with
      ⟨hempty, hone⟩ | ⟨u, call, timed, _, hphase, hone⟩
    · refine ⟨?_, ?_, hholding, nofun, hinv.woken.wake_one fun _ _ _ _ => .inl rfl⟩ <;>
        simp only [hone, owners, toList_none, length_nil] <;> omega
    · -- the ownership of the releasing thread passes to the head of the queue
      have hlength := s.waiters.length_wake hphase noError
      have hhanded := s.waiters.woken_count_wake_self hphase noError
      have hbacking := s.waiters.woken_count_wake_of_ne hphase (ne_of_gt err_timed_out_neg)
      refine ⟨?_, ?_, hholding, nofun, hinv.woken.wake_one fun _ _ _ _ => .inl rfl⟩ <;>
        simp only [hone, owners, toList_none, length_nil] <;> omega
  · refine ⟨?_, ?_, hholding, nofun, hinv.woken⟩ <;>
      simp only [owners, toList_none, length_nil] <;> omega

theorem Inv.timeout (hinv : Inv s) (hstep : step s (.timeout t) = some s') : Inv s' := by
  obtain ⟨timed, hphase, rfl⟩ := step_timeout hstep
  have hcount := hinv.count_eq
  have howners := hinv.owners_le
  have hlength := s.waiters.length_wake hphase errTimedOut
  have hbacking := s.waiters.woken_count_wake_self hphase errTimedOut
  have hhanded := s.waiters.woken_count_wake_of_ne hphase (ne_of_lt err_timed_out_neg)
  refine ⟨?_, ?_, hinv.holding_iff, ?_, hinv.woken.wake hphase (.inr rfl)⟩
  · simp only [owners] at hcount ⊢
    omega
  · simp only [owners] at howners ⊢
    omega
  intro u hu
  have hrunning := hinv.holder_running u hu
  have hne : u ≠ t := by
    rintro rfl
    simp [hrunning] at hphase
  rw [s.waiters.phase_wake hphase, Function.update_of_ne hne]
  exact hrunning

theorem Inv.resume (hinv : Inv s) (hstep : step s (.resume t) = some s') : Inv s' := by
  obtain ⟨ret, hphase, hhanded, hbacked⟩ := step_resume hstep
  have hcount := hinv.count_eq
  have howners := hinv.owners_le
  have hself := s.waiters.woken_count_resume_self hphase
  rcases hinv.expected hphase with hret | hret
  · -- the mutex was handed over, so nobody has held it since
    subst hret
    obtain rfl := hhanded rfl
    have hbacking := s.waiters.woken_count_resume_of_ne hphase (ne_of_gt err_timed_out_neg)
    have hnone : s.holder = none := holder_eq_none (by omega)
    simp only [owners, hnone, toList_none, length_nil] at hcount howners
    refine ⟨?_, ?_, hinv.holding_update hnone, ?_, hinv.woken.resume hphase trivial⟩
    · simp only [owners, toList_some, length_singleton, Waiters.list_resume]
      omega
    · simp only [owners, toList_some, length_singleton]
      omega
    · rintro u hu
      cases hu
      simp
  · subst hret
    obtain rfl := hbacked rfl
    have hunhanded := s.waiters.woken_count_resume_of_ne hphase (ne_of_lt err_timed_out_neg)
    refine ⟨?_, ?_, hinv.holding_iff, ?_, hinv.woken.resume hphase trivial⟩
    · simp only [owners, Waiters.list_resume] at hcount ⊢
      omega
    · simp only [owners] at howners ⊢
      omega
    · intro u hu
      by_cases heq : u = t
      · simp [heq]
      · simpa [heq] using hinv.holder_running u hu

/-- The accounting holds in every reachable state. -/
theorem reachable_inv (h : Reachable guard s) : Inv s := by
  refine h.invariant_from Inv.initial ?_
  intro s action s' hinv _ hstep
  cases action with
  | acquire t timeout => exact hinv.acquire hstep
  | release t => exact hinv.release hstep
  | timeout t => exact hinv.timeout hstep
  | resume t => exact hinv.resume hstep

/-- Mutual exclusion: no interleaving gives the mutex two owners. -/
theorem owner_unique (h : Reachable Always s) (ht : Owner s t) (hu : Owner s u) :
    t = u := by
  have hinv := reachable_inv h
  have howners := hinv.owners_le
  unfold owners at howners
  rcases ht with ht | ht <;> rcases hu with hu | hu
  · have hsame := ((hinv.holding_iff t).mp ht).symm.trans ((hinv.holding_iff u).mp hu)
    exact some.inj hsame
  · have hpos := s.waiters.woken_count_pos hu
    simp only [(hinv.holding_iff t).mp ht, toList_some, length_singleton] at howners
    omega
  · have hpos := s.waiters.woken_count_pos ht
    simp only [(hinv.holding_iff u).mp hu, toList_some, length_singleton] at howners
    omega
  · exact eq_of_tally_le_one (Phase.WokenWith noError) s.waiters.phase
      (by unfold Waiters.wokenCount at howners; omega)
      (by simp [ht, Phase.WokenWith]) (by simp [hu, Phase.WokenWith])

/-- Two threads ask for the mutex; the first to come is its one owner. -/
theorem owner_unique_contended :
    ∃ s : State (Fin 2), Reachable Always s ∧ Owner s 0 ∧ ∀ u, Owner s u → u = 0 := by
  obtain ⟨s, hreach, hholding⟩ := exists_reachable step Always initial
    (P := fun s => s.holding (0 : Fin 2) = true) [.acquire 0 infiniteTime, .acquire 1 10]
    (admits_always _ _) (by decide)
  exact ⟨s, hreach, .inl hholding, fun u hu => owner_unique hreach hu (.inl hholding)⟩

/-! ## Waiters left behind -/

/-- A mutex with waiters has an owner, who will wake the first of them. -/
def Attended (s : State Tid) : Prop := (s.waiters.list ()).length = 0 ∨ owners s = 1

omit [DecidableEq Tid] in
/-- A stranded waiter is a waiter on a mutex without an owner. -/
theorem Stranded.not_attended (h : Stranded s) : ¬ Attended s := by
  obtain ⟨t, timed, hphase⟩ := h.waiter
  have hpos := length_pos_of_mem (s.waiters.mem_list_iff.mpr ⟨(), timed, hphase⟩)
  have hhanded : s.waiters.wokenCount noError = 0 :=
    s.waiters.woken_count_eq_zero_iff.mpr fun t _ => h.unhanded t
  rintro (hempty | howner)
  · omega
  · simp [owners, h.free, hhanded] at howner

theorem Attended.acquire {timeout : Time} (hinv : Inv s) (hattended : Attended s)
    (hguard : AcquiresInTime s (.acquire t timeout))
    (hstep : step s (.acquire t timeout) = some s') : Attended s' := by
  obtain ⟨h, _, hcases⟩ := step_acquire hstep
  have hcount := hinv.count_eq
  have howners := hinv.owners_le
  rcases hcases with ⟨hfree, rfl⟩ | ⟨_, _, rfl⟩ | ⟨hpos, hne, rfl⟩
  · refine .inl ?_
    show (s.waiters.list ()).length = 0
    omega
  · exact hattended
  -- the acquire blocks, and the guard says that somebody owns the mutex
  refine .inr ?_
  simp only [owners, Waiters.woken_count_block]
  have howner : 0 < owners s := by
    rcases hguard with hzero | hcount | hholder | ⟨u, hphase⟩
    · exact absurd hzero hne
    · omega
    · by_contra hnot
      exact hholder (holder_eq_none (by omega))
    · have hhanded := s.waiters.woken_count_pos hphase
      unfold owners
      omega
  unfold owners at howner howners
  omega

theorem Attended.release (hinv : Inv s) (hstep : step s (.release t) = some s') : Attended s' := by
  obtain ⟨hholder, rfl⟩ := step_release hstep
  have hcount := hinv.count_eq
  have howners := hinv.owners_le
  simp only [owners, hholder, toList_some, length_singleton] at hcount howners
  simp only [Attended, owners, toList_none, length_nil]
  split
  · rcases s.waiters.wake_one_cases () noError with
      ⟨hempty, hone⟩ | ⟨u, call, timed, _, hphase, hone⟩
    · exact .inl (by simp [hone, hempty])
    · have hhanded := s.waiters.woken_count_wake_self hphase noError
      simp only [hone]
      exact .inr (by omega)
  · exact .inl (by omega)

theorem Attended.timeout (hattended : Attended s) (hstep : step s (.timeout t) = some s') :
    Attended s' := by
  obtain ⟨timed, hphase, rfl⟩ := step_timeout hstep
  have hlength := s.waiters.length_wake hphase errTimedOut
  have hhanded := s.waiters.woken_count_wake_of_ne hphase (ne_of_lt err_timed_out_neg)
  simp only [Attended, owners, hhanded] at hattended ⊢
  omega

theorem Attended.resume (hinv : Inv s) (hattended : Attended s)
    (hstep : step s (.resume t) = some s') : Attended s' := by
  obtain ⟨ret, hphase, hhanded, hbacked⟩ := step_resume hstep
  have hself := s.waiters.woken_count_resume_self hphase
  have howners := hinv.owners_le
  rcases hinv.expected hphase with hret | hret
  · subst hret
    obtain rfl := hhanded rfl
    refine .inr ?_
    simp only [owners, toList_some, length_singleton] at howners ⊢
    omega
  · subst hret
    obtain rfl := hbacked rfl
    have hunhanded := s.waiters.woken_count_resume_of_ne hphase (ne_of_lt err_timed_out_neg)
    simpa only [Attended, owners, hunhanded, Waiters.list_resume] using hattended

/-- No waiter is left behind in a run whose blocking acquires all come in time. -/
theorem not_stranded (h : Reachable AcquiresInTime s) : ¬ Stranded s := by
  have hboth : Inv s ∧ Attended s := by
    refine h.invariant_from (P := fun s => Inv s ∧ Attended s) ⟨Inv.initial, .inl rfl⟩ ?_
    rintro s action s' ⟨hinv, hattended⟩ hguard hstep
    cases action with
    | acquire t timeout =>
      exact ⟨hinv.acquire hstep, hattended.acquire hinv hguard hstep⟩
    | release t => exact ⟨hinv.release hstep, Attended.release hinv hstep⟩
    | timeout t => exact ⟨hinv.timeout hstep, hattended.timeout hstep⟩
    | resume t => exact ⟨hinv.resume hstep, hattended.resume hinv hstep⟩
  exact fun hstranded => hstranded.not_attended hboth.2

/-- From an unowned mutex with waiters, the back-outs of the timed-out threads lead to a stranded
waiter. -/
theorem strands_of_unowned (hinv : Inv s) (howners : owners s = 0)
    (hwaiters : s.waiters.list () ≠ []) :
    ∃ actions s', Transition.run step s actions = some s' ∧ Stranded s' := by
  -- by induction on the number of threads that have yet to back out
  induction hbacking : s.waiters.wokenCount errTimedOut generalizing s with
  | zero =>
    have hhanded : s.waiters.wokenCount noError = 0 := by
      unfold owners at howners
      omega
    obtain ⟨t, ht⟩ := exists_mem_of_ne_nil _ hwaiters
    obtain ⟨⟨⟩, timed, hphase⟩ := s.waiters.mem_list_iff.mp ht
    refine ⟨[], s, rfl, holder_eq_none (by omega), ?_, ?_, t, timed, hphase⟩
    · exact fun t => s.waiters.woken_count_eq_zero_iff.mp hhanded t ()
    · exact fun t => s.waiters.woken_count_eq_zero_iff.mp hbacking t ()
  | succ n ih =>
    obtain ⟨t, ht⟩ := (tally_pos_iff (Phase.WokenWith errTimedOut) s.waiters.phase).mp
      (by unfold Waiters.wokenCount at hbacking; omega)
    have hphase : s.waiters.phase t = .woken () errTimedOut := by
      cases hp : s.waiters.phase t with
      | running => simp [hp, Phase.WokenWith] at ht
      | blocked => simp [hp, Phase.WokenWith] at ht
      | woken call ret => simpa [hp, Phase.WokenWith] using ht
    obtain ⟨s₁, hs₁⟩ : ∃ s₁, step s (.resume t) = some s₁ := by
      simp only [step]
      split
      · exact ⟨_, rfl⟩
      · next hother => exact absurd hphase (hother _ _)
    obtain ⟨ret, hret, _, hbacked⟩ := step_resume hs₁
    obtain rfl : ret = errTimedOut := by simpa using hret.symm.trans hphase
    have hinv₁ := hinv.resume hs₁
    obtain rfl := hbacked rfl
    have hself := s.waiters.woken_count_resume_self hret
    have hunhanded := s.waiters.woken_count_resume_of_ne hret (ne_of_lt err_timed_out_neg)
    obtain ⟨actions, s', hrun, hstranded⟩ := ih hinv₁
      (by simpa only [owners, hunhanded] using howners) hwaiters
      (by show (s.waiters.resume t () errTimedOut hret).wokenCount errTimedOut = n; omega)
    exact ⟨.resume t :: actions, s', by rw [Transition.run, hs₁]; exact hrun, hstranded⟩

/-- The condition of `not_stranded` is exact: wherever a blocking acquire comes too late, a run
that goes on from there leaves a waiter behind. -/
theorem late_acquire_strands {timeout : Time}
    (h : Reachable guard s) (hlate : ¬ AcquiresInTime s (.acquire t timeout))
    (hstep : step s (.acquire t timeout) = some s') :
    ∃ actions final, Transition.run step s' actions = some final ∧ Stranded final := by
  have hinv := reachable_inv h
  simp only [AcquiresInTime, not_or, not_exists, not_not] at hlate
  obtain ⟨hne, hpos, hfree, hunhanded⟩ := hlate
  have hinv' := hinv.acquire hstep
  obtain ⟨hphase, _, ⟨hcount, _⟩ | ⟨_, hzero, _⟩ | ⟨_, _, rfl⟩⟩ := step_acquire hstep
  · exact absurd hcount hpos
  · exact absurd hzero hne
  refine strands_of_unowned hinv' ?_ ?_
  · have hhanded : s.waiters.wokenCount noError = 0 :=
      s.waiters.woken_count_eq_zero_iff.mpr fun t _ => hunhanded t
    simp [owners, Waiters.woken_count_block, hfree, hhanded]
  · simp [Waiters.list_block]

/-- Thread 1 has not backed out when thread 2 comes to the free mutex. -/
theorem late_acquire_strands_three :
    ∃ s : State (Fin 3), Reachable Always s ∧ ∃ s', step s (.acquire 2 infiniteTime) = some s' ∧
      ∃ actions final, Transition.run step s' actions = some final ∧ Stranded final := by
  obtain ⟨s, hreach, hlate, hsome⟩ := exists_reachable step Always initial
    (P := fun s : State (Fin 3) => ¬ AcquiresInTime s (.acquire 2 infiniteTime) ∧
      (step s (.acquire 2 infiniteTime)).isSome)
    [.acquire 0 infiniteTime, .acquire 1 10, .timeout 1, .release 0] (admits_always _ _) (by decide)
  obtain ⟨s', hstep⟩ := isSome_iff_exists.mp hsome
  exact ⟨s, hreach, s', hstep, late_acquire_strands hreach hlate hstep⟩

/-- The first acquirer holds the mutex and the second waits for it. -/
theorem not_stranded_contended :
    ∃ s : State (Fin 2), Reachable AcquiresInTime s ∧ s.waiters.list () = [1] ∧ ¬ Stranded s := by
  obtain ⟨s, hreach, hlist⟩ := exists_reachable step AcquiresInTime initial
    (P := fun s => s.waiters.list () = [(1 : Fin 2)]) [.acquire 0 infiniteTime, .acquire 1 10]
    (by decide) (by decide)
  exact ⟨s, hreach, hlist, not_stranded hreach⟩

/-- A waiter can be left behind: thread 1 times out, thread 0 releases and finds nobody to wake,
thread 2 blocks because of the count that thread 1 has not yet taken back, and then thread 1
takes it back. -/
theorem stranded_reachable : ∃ s : State (Fin 3), Reachable Always s ∧ Stranded s := by
  obtain ⟨s, hreach, hfree, hunhanded, hsettled, hwaiter⟩ := exists_reachable step
    Always initial (P := fun s : State (Fin 3) => s.holder = none ∧
      (∀ t, s.waiters.phase t ≠ .woken () noError) ∧
      (∀ t, s.waiters.phase t ≠ .woken () errTimedOut) ∧
      s.waiters.phase 2 = .blocked () () false)
    [.acquire 0 infiniteTime, .acquire 1 10, .timeout 1, .release 0,
      .acquire 2 infiniteTime, .resume 1] (admits_always _ _) (by decide)
  exact ⟨s, hreach, hfree, hunhanded, hsettled, 2, false, hwaiter⟩

end Invariant

end NusaKernel.Mutex
