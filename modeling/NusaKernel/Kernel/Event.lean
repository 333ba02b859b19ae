import NusaKernel.Kernel.WaitQueue
import NusaKernel.Lib.Transition

/-!
# Events

`kernel/event.c` under every interleaving of any number of threads. `event_unsignal` takes no
lock, but it only stores `false`, and a store inside another function's critical section has the
effect it would have just before or just after that section; it is a step of its own here.

The history keeps the number of signals and of waits that returned success. `signaled_and_bounded`
says that a signaled event has no waiters, and that an event which unsignals itself lets no more
waits through than it was signaled.
-/

namespace NusaKernel.Event

open Bool Transition

/-- `EVENT_FLAG_AUTOUNSIGNAL`. -/
def eventFlagAutounsignal : BitVec 32 := 1#32

/-- `event_t`, the threads that use it, and the numbers of signals and of successful waits. -/
structure State (Tid : Type*) where
  signaled : Bool
  flags : BitVec 32
  waiters : Waiters Unit Tid Unit
  signals : ℕ
  completed : ℕ

/-- What a thread or an interrupt does next. -/
inductive Action (Tid : Type*) where
  | signal
  | unsignal
  | wait (t : Tid) (timeout : Time)
  | timeout (t : Tid)
  | resume (t : Tid)

variable {Tid : Type*}

/-- `event_init`. -/
def initial (signaled : Bool) (flags : BitVec 32) : State Tid := ⟨signaled, flags, .initial, 0, 0⟩

/-- The test `flags & EVENT_FLAG_AUTOUNSIGNAL`. -/
def autounsignal (flags : BitVec 32) : Bool := flags &&& eventFlagAutounsignal ≠ 0#32

variable [DecidableEq Tid]

/-- `event_wait_timeout` up to its return or to the context switch, where it has no status yet. -/
def eventWaitTimeout (s : State Tid) (t : Tid) (timeout : Time)
    (h : s.waiters.phase t = .running) : Option Status × State Tid :=
  if s.signaled then
    -- signaled: fall through, and let only one thread do so if the event unsignals itself
    (some noError, if autounsignal s.flags then { s with signaled := false } else s)
  else
    match s.waiters.waitQueueBlock () t () timeout h with
    | .error ret => (some ret, s)
    | .ok waiters => (none, { s with waiters })

/-- `event_signal`. Returns the number of threads woken. -/
def eventSignal (s : State Tid) : ℕ × State Tid :=
  if !s.signaled then
    if autounsignal s.flags then
      let (ret, waiters) := s.waiters.waitQueueWakeOne () noError
      -- nobody to wake: the next wait falls through
      (ret, { s with waiters, signaled := if ret ≤ 0 then true else s.signaled })
    else
      let (ret, waiters) := s.waiters.waitQueueWakeAll () noError
      (ret, { s with waiters, signaled := true })
  else (0, s)

/-- `event_unsignal`. -/
def eventUnsignal (s : State Tid) : Status × State Tid := (noError, { s with signaled := false })

/-- Record that a call of `event_wait_timeout` returned to its caller. -/
def returned : Option Status × State Tid → State Tid
  | (ret, s) => if ret = some noError then { s with completed := s.completed + 1 } else s

/-- One step. A timeout ends any blocked wait: its timer may be that of an earlier one. -/
def step (s : State Tid) : Action Tid → Option (State Tid)
  | .signal =>
    let s' := (eventSignal s).2
    some { s' with signals := s'.signals + 1 }
  | .unsignal => some (eventUnsignal s).2
  | .wait t timeout =>
    if h : s.waiters.phase t = .running then some (returned (eventWaitTimeout s t timeout h))
    else none
  | .timeout t =>
    match s.waiters.phase t with
    | .blocked _ _ _ =>
      some { s with waiters := (s.waiters.threadUnblockFromWaitQueue t errTimedOut).2 }
    | _ => none
  | .resume t =>
    match h : s.waiters.phase t with
    | .woken call ret =>
      some (returned (some ret, { s with waiters := s.waiters.resume t call ret h }))
    | _ => none

/-- The states every interleaving can reach from an event that was initialized so. -/
def Reachable (signaled : Bool) (flags : BitVec 32) : State Tid → Prop :=
  Transition.Reachable step Always (· = initial signaled flags)

/-! ## What one step does -/

section Steps

variable {s s' : State Tid} {t : Tid}

/-- A signal leaves a signaled event alone. An event that unsignals itself wakes one thread, and
becomes signaled only if there is none. Any other event becomes signaled and wakes all. -/
theorem step_signal (hstep : step s .signal = some s') :
    (s.signaled = true ∧ s' = { s with signals := s.signals + 1 }) ∨
    (s.signaled = false ∧ autounsignal s.flags = true ∧ s.waiters.list () = [] ∧
      s' = { s with signals := s.signals + 1, signaled := true }) ∨
    (∃ t timed, s.signaled = false ∧ autounsignal s.flags = true ∧
      s.waiters.phase t = .blocked () () timed ∧
      s' = { s with signals := s.signals + 1, waiters := s.waiters.wake t noError }) ∨
    (s.signaled = false ∧ autounsignal s.flags = false ∧
      s' = { s with
        signals := s.signals + 1, signaled := true,
        waiters := (s.waiters.waitQueueWakeAll () noError).2 }) := by
  cases hstep
  cases hsignaled : s.signaled with
  | true => exact .inl ⟨rfl, by simp [eventSignal, hsignaled]⟩
  | false =>
    cases hauto : autounsignal s.flags with
    | false =>
      refine .inr (.inr (.inr ⟨rfl, rfl, ?_⟩))
      simp [eventSignal, hsignaled, hauto]
    | true =>
      rcases s.waiters.wake_one_cases () noError with
        ⟨hempty, hone⟩ | ⟨t, call, timed, _, hphase, hone⟩
      · refine .inr (.inl ⟨rfl, rfl, hempty, ?_⟩)
        simp [eventSignal, hsignaled, hauto, hone]
      · refine .inr (.inr (.inl ⟨t, timed, rfl, rfl, hphase, ?_⟩))
        simp [eventSignal, hsignaled, hauto, hone]

/-- A wait falls through a signaled event, gives up at once, or blocks. -/
theorem step_wait {timeout : Time} (hstep : step s (.wait t timeout) = some s') :
    ∃ h : s.waiters.phase t = .running,
      (s.signaled = true ∧ s' = { s with
        signaled := !autounsignal s.flags, completed := s.completed + 1 }) ∨
      s' = s ∨
      (s.signaled = false ∧ s' = { s with
        waiters := s.waiters.block () t () (timeout ≠ infiniteTime) h }) := by
  obtain ⟨h, ⟨⟩⟩ := Option.dite_none_right_eq_some.mp hstep
  refine ⟨h, ?_⟩
  cases hsignaled : s.signaled with
  | true =>
    refine .inl ⟨rfl, ?_⟩
    cases hauto : autounsignal s.flags <;>
      simp [eventWaitTimeout, returned, hsignaled, hauto]
  | false =>
    refine .inr ?_
    by_cases htimeout : timeout = 0
    · refine .inl ?_
      simp [eventWaitTimeout, hsignaled, s.waiters.wait_queue_block_of_eq h htimeout,
        returned, errTimedOut, noError]
    · refine .inr ⟨rfl, ?_⟩
      simp [eventWaitTimeout, hsignaled, s.waiters.wait_queue_block_of_ne h htimeout, returned]

/-- A timeout takes a blocked thread off the queue. -/
theorem step_timeout (hstep : step s (.timeout t) = some s') :
    ∃ timed, s.waiters.phase t = .blocked () () timed ∧
      s' = { s with waiters := s.waiters.wake t errTimedOut } := by
  simp only [step] at hstep
  split at hstep
  · next w call timed h =>
    cases hstep
    exact ⟨timed, h, by simp [Waiters.threadUnblockFromWaitQueue, h]⟩
  · cases hstep

/-- A woken thread returns from its wait. -/
theorem step_resume (hstep : step s (.resume t) = some s') :
    ∃ ret, ∃ h : s.waiters.phase t = .woken () ret,
      s' = { s with
        waiters := s.waiters.resume t () ret h,
        completed := if ret = noError then s.completed + 1 else s.completed } := by
  simp only [step] at hstep
  split at hstep
  · next call ret h =>
    cases hstep
    refine ⟨ret, h, ?_⟩
    by_cases hret : ret = noError <;> simp [returned, hret]
  · cases hstep

end Steps

/-! ## The invariant -/

section Invariant

variable [Fintype Tid] {signaled : Bool} {flags : BitVec 32} {s s' : State Tid} {t : Tid}

/-- The waits let through: those that returned success, those woken by a signal that have not run
since, and the one that a signaled event will let through next. -/
def released (s : State Tid) : ℕ := s.completed + s.waiters.wokenCount noError + s.signaled.toNat

/-- A signaled event has no waiters, and an event that unsignals itself has let through no more
waits than it was signaled. -/
structure Inv (signaled : Bool) (flags : BitVec 32) (s : State Tid) : Prop where
  flags_eq : s.flags = flags
  list_eq : s.signaled = true → s.waiters.list () = []
  released_le : autounsignal s.flags = true → released s ≤ s.signals + signaled.toNat

omit [DecidableEq Tid] in
theorem Inv.initial : Inv signaled flags (initial signaled flags : State Tid) where
  flags_eq := rfl
  list_eq _ := rfl
  released_le _ := by simp [Event.initial, released, Waiters.woken_count_initial]

section

variable (hinv : Inv signaled flags s)
include hinv

theorem Inv.signal (hstep : step s .signal = some s') : Inv signaled flags s' := by
  rcases step_signal hstep with ⟨hset, rfl⟩ | ⟨hunset, _, hempty, rfl⟩ |
    ⟨t, timed, hunset, _, hphase, rfl⟩ | ⟨hunset, hkeep, rfl⟩
  · refine ⟨hinv.flags_eq, hinv.list_eq, ?_⟩
    intro hauto
    have hle := hinv.released_le hauto
    simp only [released] at hle ⊢
    omega
  · refine ⟨hinv.flags_eq, fun _ => hempty, ?_⟩
    intro hauto
    have hle := hinv.released_le hauto
    simp only [released, hunset, toNat_false, toNat_true] at hle ⊢
    omega
  · -- the signal is spent on the head of the queue
    refine ⟨hinv.flags_eq, fun hset => ?_, ?_⟩
    · rw [hunset] at hset
      cases hset
    intro hauto
    have hle := hinv.released_le hauto
    have hwoken := s.waiters.woken_count_wake_self hphase noError
    simp only [released] at hle ⊢
    omega
  · refine ⟨hinv.flags_eq, fun _ => s.waiters.list_wake_all () noError, ?_⟩
    intro hauto
    rw [hkeep] at hauto
    cases hauto

omit [DecidableEq Tid] in
theorem Inv.unsignal : Inv signaled flags { s with signaled := false } := by
  refine ⟨hinv.flags_eq, nofun, ?_⟩
  intro hauto
  have hle := hinv.released_le hauto
  simp only [released, toNat_false] at hle ⊢
  omega

theorem Inv.wait {timeout : Time} (hstep : step s (.wait t timeout) = some s') :
    Inv signaled flags s' := by
  obtain ⟨h, hcases⟩ := step_wait hstep
  rcases hcases with ⟨hset, rfl⟩ | rfl | ⟨hunset, rfl⟩
  · refine ⟨hinv.flags_eq, fun _ => hinv.list_eq hset, ?_⟩
    intro hauto
    -- the wait takes the signal with it
    have hclear : autounsignal s.flags = true := hauto
    have hle := hinv.released_le hauto
    simp only [released, hset, hclear, toNat_true, Bool.not_true, toNat_false] at hle ⊢
    omega
  · exact hinv
  refine ⟨hinv.flags_eq, fun hset => ?_, ?_⟩
  · rw [hunset] at hset
    cases hset
  · intro hauto
    have hle := hinv.released_le hauto
    simpa only [released, Waiters.woken_count_block] using hle

theorem Inv.timeout (hstep : step s (.timeout t) = some s') : Inv signaled flags s' := by
  obtain ⟨timed, hphase, rfl⟩ := step_timeout hstep
  refine ⟨hinv.flags_eq, fun hset => ?_, ?_⟩
  · rw [s.waiters.list_wake hphase, hinv.list_eq hset]
    rfl
  · intro hauto
    have hle := hinv.released_le hauto
    have hwoken := s.waiters.woken_count_wake_of_ne hphase (ne_of_lt err_timed_out_neg)
    simpa only [released, hwoken] using hle

theorem Inv.resume (hstep : step s (.resume t) = some s') : Inv signaled flags s' := by
  obtain ⟨ret, hphase, rfl⟩ := step_resume hstep
  refine ⟨hinv.flags_eq, hinv.list_eq, ?_⟩
  intro hauto
  have hle := hinv.released_le hauto
  by_cases hret : ret = noError
  · subst hret
    have hself := s.waiters.woken_count_resume_self hphase
    simp only [released, if_pos] at hle ⊢
    omega
  · have hother := s.waiters.woken_count_resume_of_ne hphase hret
    simpa only [released, hother, if_neg hret] using hle

end

/-- The invariant holds in every reachable state. -/
theorem reachable_inv (h : Reachable signaled flags s) : Inv signaled flags s := by
  refine h.invariant_from Inv.initial ?_
  intro s action s' hinv _ hstep
  cases action with
  | signal => exact hinv.signal hstep
  | unsignal =>
    cases hstep
    exact hinv.unsignal
  | wait t timeout => exact hinv.wait hstep
  | timeout t => exact hinv.timeout hstep
  | resume t => exact hinv.resume hstep

omit [Fintype Tid] in
/-- A signal of an event that unsignals itself releases at most one thread, and if it does it
leaves the event unsignaled. -/
theorem signal_releases_le_one (hauto : autounsignal s.flags = true) :
    (eventSignal s).1 ≤ 1 ∧
      (∀ t u, (eventSignal s).2.waiters.phase t ≠ s.waiters.phase t →
        (eventSignal s).2.waiters.phase u ≠ s.waiters.phase u → t = u) ∧
      (0 < (eventSignal s).1 → (eventSignal s).2.signaled = false) := by
  cases hsignaled : s.signaled with
  | true => simp [eventSignal, hsignaled]
  | false =>
    rcases s.waiters.wake_one_cases () noError with
      ⟨_, hone⟩ | ⟨v, call, timed, _, hphase, hone⟩
    · simp [eventSignal, hsignaled, hauto, hone]
    have hchanged : ∀ t, (s.waiters.wake v noError).phase t ≠ s.waiters.phase t → t = v := by
      intro t hne
      by_contra heq
      exact hne (by rw [s.waiters.phase_wake hphase, Function.update_of_ne heq])
    simp only [eventSignal, hsignaled, hauto, hone, Bool.not_false, if_true]
    refine ⟨le_refl 1, ?_, fun _ => rfl⟩
    intro t u ht hu
    rw [hchanged t ht, hchanged u hu]

/-- In every reachable state a signaled event has no waiters. The waits that an event which
unsignals itself has let through, with those it has woken and that have not run since, are no
more than its signals, with one more if it was created signaled. Each signal releases at most
one waiter. -/
theorem signaled_and_bounded (h : Reachable signaled flags s) :
    (s.signaled = true → s.waiters.list () = []) ∧
      (autounsignal flags = true →
        s.completed + s.waiters.wokenCount noError ≤ s.signals + signaled.toNat ∧
        (eventSignal s).1 ≤ 1 ∧
        ∀ t u, (eventSignal s).2.waiters.phase t ≠ s.waiters.phase t →
          (eventSignal s).2.waiters.phase u ≠ s.waiters.phase u → t = u) := by
  have hinv := reachable_inv h
  refine ⟨hinv.list_eq, ?_⟩
  intro hauto
  rw [← hinv.flags_eq] at hauto
  have hle := hinv.released_le hauto
  obtain ⟨hone, hsame, _⟩ := signal_releases_le_one hauto
  unfold released at hle
  exact ⟨by omega, hone, hsame⟩

/-- Two threads wait for an event that unsignals itself, and one signal lets one of them through. -/
theorem signaled_and_bounded_contended :
    ∃ s : State (Fin 2), Reachable false eventFlagAutounsignal s ∧ s.completed = 1 ∧
      s.waiters.list () = [1] ∧ s.completed + s.waiters.wokenCount noError ≤ s.signals := by
  obtain ⟨s, hreach, hcompleted, hlist⟩ := exists_reachable step Always
    (initial false eventFlagAutounsignal)
    (P := fun s : State (Fin 2) => s.completed = 1 ∧ s.waiters.list () = [1])
    [.wait 0 10, .wait 1 infiniteTime, .signal, .resume 0] (admits_always _ _) (by decide)
  exact ⟨s, hreach, hcompleted, hlist, ((signaled_and_bounded hreach).2 (by decide)).1⟩

end Invariant

end NusaKernel.Event
