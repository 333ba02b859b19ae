import NusaKernel.Kernel.Status
import NusaKernel.Lib.Placement
import NusaKernel.Lib.Tally

/-!
# Wait queues

The wait queue functions of `kernel/thread.c`, reduced to what a blocking primitive sees of
them: the queues, and where each thread stands in its call of `wait_queue_block`. Run queues and
processors are left out, so a woken thread may resume at any later time and in any order.
`Waiters` carries the consistency of queues and threads as fields, and every operation
re-establishes it.

A call of `wait_queue_block` is cut at its context switch. `waitQueueBlock` is the part before
it, after which the thread is `blocked`. The thread becomes `woken` when it is taken off the
queue, with the status its call will return, and `resume` is the part after the switch.
-/

namespace NusaKernel

open Placement Tally List Function

/-- `wait_queue_t`: the number of waiting threads and the threads in order of arrival. -/
structure WaitQueue (Tid : Type*) where
  count : Int
  list : List Tid

/-- Where a thread stands in `wait_queue_block`. `call` names the code that called it and goes on
when it returns. `timed` says that a timeout timer was armed. -/
inductive Phase (Wid Call : Type*) where
  | running
  | blocked (queue : Wid) (call : Call) (timed : Bool)
  | woken (call : Call) (ret : Status)
  deriving DecidableEq

namespace Phase

variable {Wid Call : Type*}

/-- The queue a blocked thread waits on. -/
def waitsOn : Phase Wid Call → Option Wid
  | .blocked queue _ _ => some queue
  | .running | .woken _ _ => none

/-- The thread has been taken off its queue with this status and has not run since. -/
def WokenWith (ret : Status) : Phase Wid Call → Prop
  | .woken _ status => status = ret
  | .running | .blocked _ _ _ => False

/-- By the cases of a phase. -/
instance (ret : Status) (phase : Phase Wid Call) : Decidable (phase.WokenWith ret) := by
  cases phase <;> unfold WokenWith <;> infer_instance

/-- The thread has been taken off its queue and has not run since. -/
def Pending : Phase Wid Call → Prop
  | .woken _ _ => True
  | .running | .blocked _ _ _ => False

/-- By the cases of a phase. -/
instance (phase : Phase Wid Call) : Decidable phase.Pending := by
  cases phase <;> unfold Pending <;> infer_instance

/-- A blocked thread is taken off its queue with this status; any other thread is left alone. -/
def wakeWith (ret : Status) : Phase Wid Call → Phase Wid Call
  | .blocked _ call _ => .woken call ret
  | .running => .running
  | .woken call status => .woken call status

theorem wake_with_wake_with (ret : Status) (phase : Phase Wid Call) :
    (phase.wakeWith ret).wakeWith ret = phase.wakeWith ret := by
  cases phase <;> rfl

theorem waits_on_wake_with (ret : Status) (phase : Phase Wid Call) :
    (phase.wakeWith ret).waitsOn = none := by
  cases phase <;> rfl

end Phase

/-- The wait queues and the threads that use them. A thread is linked in a queue exactly when it
is blocked on it, once, and each queue counts its threads. -/
structure Waiters (Wid Tid Call : Type*) where
  queue : Wid → WaitQueue Tid
  phase : Tid → Phase Wid Call
  nodup : ∀ w, (queue w).list.Nodup
  mem_iff : ∀ w t, t ∈ (queue w).list ↔ (phase t).waitsOn = some w
  count_eq : ∀ w, (queue w).count = (queue w).list.length

namespace Waiters

variable {Wid Tid Call : Type*}

/-- No thread waits. -/
def initial : Waiters Wid Tid Call where
  queue _ := ⟨0, []⟩
  phase _ := .running
  nodup _ := nodup_nil
  mem_iff w t := by simp [Phase.waitsOn]
  count_eq _ := rfl

variable (x : Waiters Wid Tid Call)

/-- The threads blocked on a queue, in order of arrival. -/
def list (w : Wid) : List Tid := (x.queue w).list

/-- The queues are a family of lists in which each thread is placed by what it waits on. -/
theorem placed :
    Placed (WaitQueue.list ∘ x.queue) (Phase.waitsOn ∘ x.phase) :=
  ⟨x.nodup, x.mem_iff⟩

variable [DecidableEq Wid] [DecidableEq Tid]

theorem placed_block {t : Tid} (h : x.phase t = .running) (w : Wid)
    (call : Call) (timed : Bool) (count : Int) :
    Placed (WaitQueue.list ∘ update x.queue w ⟨count, (x.queue w).list ++ [t]⟩)
      (Phase.waitsOn ∘ update x.phase t (.blocked w call timed)) := by
  have hnone : (Phase.waitsOn ∘ x.phase) t = none := by
    rw [comp_apply, h, Phase.waitsOn]
  rw [comp_update, comp_update]
  exact x.placed.append hnone

theorem placed_unlink {w : Wid} {t : Tid} {call : Call} {timed : Bool}
    (h : x.phase t = .blocked w call timed) (ret : Status) (count : Int) :
    Placed (WaitQueue.list ∘ update x.queue w ⟨count, (x.queue w).list.erase t⟩)
      (Phase.waitsOn ∘ update x.phase t (.woken call ret)) := by
  have hplace : (Phase.waitsOn ∘ x.phase) t = some w := by
    rw [comp_apply, h, Phase.waitsOn]
  rw [comp_update, comp_update]
  exact x.placed.erase hplace

/-- Append a running thread to a queue and mark it blocked. -/
def block (w : Wid) (t : Tid) (call : Call) (timed : Bool)
    (h : x.phase t = .running) : Waiters Wid Tid Call where
  queue := update x.queue w ⟨(x.queue w).count + 1, (x.queue w).list ++ [t]⟩
  phase := update x.phase t (.blocked w call timed)
  nodup := (x.placed_block h w call timed _).nodup
  mem_iff := (x.placed_block h w call timed _).mem_iff
  count_eq v := by
    by_cases hv : v = w
    · subst hv
      simp [x.count_eq v]
    · simp [hv, x.count_eq v]

/-- Unlink a blocked thread and mark it woken with the status its call will return. -/
def unlink (w : Wid) (t : Tid) (call : Call) (timed : Bool)
    (h : x.phase t = .blocked w call timed) (ret : Status) : Waiters Wid Tid Call where
  queue := update x.queue w ⟨(x.queue w).count - 1, (x.queue w).list.erase t⟩
  phase := update x.phase t (.woken call ret)
  nodup := (x.placed_unlink h ret _).nodup
  mem_iff := (x.placed_unlink h ret _).mem_iff
  count_eq v := by
    by_cases hv : v = w
    · subst hv
      have ht : t ∈ (x.queue v).list := by simp [x.mem_iff, h, Phase.waitsOn]
      have hpos := length_pos_of_mem ht
      simp only [update_self, length_erase_of_mem ht, x.count_eq v]
      omega
    · simp [hv, x.count_eq v]

/-- What `wait_queue_wake_one`, `wait_queue_wake_all` and `thread_unblock_from_wait_queue` do to
the thread they wake. -/
def wake (t : Tid) (ret : Status) : Waiters Wid Tid Call :=
  match h : x.phase t with
  | .blocked w call timed => x.unlink w t call timed h ret
  | .running | .woken _ _ => x

/-- `wait_queue_block` up to the context switch. `.error` is a return without blocking. -/
def waitQueueBlock (w : Wid) (t : Tid) (call : Call) (timeout : Time)
    (h : x.phase t = .running) : Except Status (Waiters Wid Tid Call) :=
  if timeout = 0 then .error errTimedOut
  else .ok (x.block w t call (timeout ≠ infiniteTime) h)

/-- `wait_queue_wake_one`: wake the head of the queue. Returns the number of threads woken. -/
def waitQueueWakeOne (w : Wid) (ret : Status) :
    ℕ × Waiters Wid Tid Call :=
  match x.list w with
  | [] => (0, x)
  | t :: _ => (1, x.wake t ret)

/-- `wait_queue_wake_all`: wake every thread of the queue, from the tail. Returns the number of
threads woken. -/
def waitQueueWakeAll (w : Wid) (ret : Status) :
    ℕ × Waiters Wid Tid Call :=
  ((x.list w).length, (x.list w).reverse.foldl (fun y t => y.wake t ret) x)

/-- `thread_unblock_from_wait_queue`: wake one given thread, wherever it waits. -/
def threadUnblockFromWaitQueue (t : Tid) (ret : Status) :
    Status × Waiters Wid Tid Call :=
  match x.phase t with
  | .blocked _ _ _ => (noError, x.wake t ret)
  | .running | .woken _ _ => (errNotBlocked, x)

/-- The rest of `wait_queue_block` after the context switch: the thread runs again. -/
def resume (t : Tid) (call : Call) (ret : Status)
    (h : x.phase t = .woken call ret) : Waiters Wid Tid Call where
  queue := x.queue
  phase := update x.phase t .running
  nodup := x.nodup
  mem_iff w u := by
    by_cases hu : u = t
    · subst hu
      simp [x.mem_iff, h, Phase.waitsOn]
    · simp [hu, x.mem_iff]
  count_eq := x.count_eq

/-! ## What the operations change -/

section Lemmas

variable (x : Waiters Wid Tid Call) {w v : Wid} {t u : Tid} {call : Call} {timed : Bool}
  {ret status : Status}

section

omit [DecidableEq Wid] [DecidableEq Tid]

theorem mem_list_iff : t ∈ x.list w ↔ ∃ call timed, x.phase t = .blocked w call timed := by
  rw [list, x.mem_iff]
  cases x.phase t <;> simp [Phase.waitsOn]

@[simp] theorem phase_initial : (initial : Waiters Wid Tid Call).phase t = .running := rfl

@[simp] theorem list_initial : (initial : Waiters Wid Tid Call).list w = [] := rfl

end

section

variable (h : x.phase t = .running)
include h

theorem phase_block :
    (x.block w t call timed h).phase = update x.phase t (.blocked w call timed) := rfl

theorem list_block :
    (x.block w t call timed h).list w = x.list w ++ [t] := by
  simp [list, block]

theorem list_block_of_ne (hv : v ≠ w) :
    (x.block w t call timed h).list v = x.list v := by
  simp [list, block, hv]

theorem wait_queue_block_of_eq {timeout : Time}
    (heq : timeout = 0) : x.waitQueueBlock w t call timeout h = .error errTimedOut :=
  if_pos heq

theorem wait_queue_block_of_ne {timeout : Time} (hne : timeout ≠ 0) :
    x.waitQueueBlock w t call timeout h = .ok (x.block w t call (timeout ≠ infiniteTime) h) :=
  if_neg hne

end

section

variable (h : x.phase t = .blocked w call timed)
include h

theorem wake_eq_unlink :
    x.wake t ret = x.unlink w t call timed h ret := by
  unfold wake
  split
  · next w' call' timed' h' =>
    obtain ⟨rfl, rfl, rfl⟩ : w' = w ∧ call' = call ∧ timed' = timed := by
      simpa using h'.symm.trans h
    rfl
  · next h' => simp [h] at h'
  · next h' => simp [h] at h'

theorem phase_wake :
    (x.wake t ret).phase = update x.phase t (.woken call ret) := by
  rw [x.wake_eq_unlink h]
  rfl

theorem list_wake :
    (x.wake t ret).list w = (x.list w).erase t := by
  rw [x.wake_eq_unlink h]
  simp [list, unlink]

theorem list_wake_of_ne (hv : v ≠ w) :
    (x.wake t ret).list v = x.list v := by
  rw [x.wake_eq_unlink h]
  simp [list, unlink, hv]

theorem length_wake (ret : Status) :
    ((x.wake t ret).list w).length + 1 = (x.list w).length := by
  have ht : t ∈ x.list w := x.mem_list_iff.mpr ⟨call, timed, h⟩
  have hpos := length_pos_of_mem ht
  rw [x.list_wake h, length_erase_of_mem ht]
  omega

end

omit [DecidableEq Wid] in
@[simp] theorem phase_resume (h : x.phase t = .woken call ret) :
    (x.resume t call ret h).phase = update x.phase t .running := rfl

omit [DecidableEq Wid] in
@[simp] theorem list_resume (h : x.phase t = .woken call ret) :
    (x.resume t call ret h).list w = x.list w := rfl

/-- Waking one thread finds the queue empty, or wakes its head. -/
theorem wake_one_cases (w : Wid) (ret : Status) :
    (x.list w = [] ∧ x.waitQueueWakeOne w ret = (0, x)) ∨
    ∃ t call timed, (∃ rest, x.list w = t :: rest) ∧ x.phase t = .blocked w call timed ∧
      x.waitQueueWakeOne w ret = (1, x.wake t ret) := by
  unfold waitQueueWakeOne
  cases hlist : x.list w with
  | nil => exact .inl ⟨rfl, rfl⟩
  | cons t rest =>
    obtain ⟨call, timed, hphase⟩ := x.mem_list_iff.mp (show t ∈ x.list w by simp [hlist])
    exact .inr ⟨t, call, timed, ⟨rest, rfl⟩, hphase, rfl⟩

theorem length_wake_one_le (w v : Wid) (ret : Status) :
    ((x.waitQueueWakeOne w ret).2.list v).length ≤ (x.list v).length := by
  rcases x.wake_one_cases w ret with ⟨_, hone⟩ | ⟨t, call, timed, _, hphase, hone⟩
  · rw [hone]
  rw [hone]
  by_cases hv : v = w
  · subst hv
    exact (x.length_wake hphase ret).le.trans' (Nat.le_succ _)
  · rw [x.list_wake_of_ne hphase hv]

/-- Nobody is woken on an empty queue. -/
theorem wake_one_of_nil (h : x.list w = []) (ret : Status) :
    x.waitQueueWakeOne w ret = (0, x) := by
  unfold waitQueueWakeOne
  rw [h]

theorem wake_all_of_nil (h : x.list w = []) (ret : Status) :
    x.waitQueueWakeAll w ret = (0, x) := by
  unfold waitQueueWakeAll
  rw [h]
  rfl

theorem phase_wake_apply (t u : Tid) (ret : Status) :
    (x.wake t ret).phase u = if u = t then (x.phase u).wakeWith ret else x.phase u := by
  cases hphase : x.phase t with
  | blocked w call timed =>
    rw [x.phase_wake hphase, update_apply]
    split
    · next heq => rw [heq, hphase, Phase.wakeWith]
    · rfl
  | running | woken =>
    have hsame : x.wake t ret = x := by
      unfold wake
      split
      · next h => simp [hphase] at h
      · rfl
      · rfl
    rw [hsame]
    split
    · next heq => rw [heq, hphase, Phase.wakeWith]
    · rfl

/-- Unblocking a thread wakes that thread alone. -/
theorem phase_unblock_apply (t u : Tid) (ret : Status) :
    (x.threadUnblockFromWaitQueue t ret).2.phase u =
      if u = t then (x.phase u).wakeWith ret else x.phase u := by
  unfold threadUnblockFromWaitQueue
  cases hphase : x.phase t with
  | blocked => exact x.phase_wake_apply t u ret
  | running | woken =>
    show x.phase u = _
    split
    · next heq => rw [heq, hphase, Phase.wakeWith]
    · rfl

/-- Waking threads one after the other wakes exactly the listed threads. -/
theorem phase_foldl_wake (threads : List Tid) (u : Tid) (ret : Status) :
    (threads.foldl (fun y t => y.wake t ret) x).phase u =
      if u ∈ threads then (x.phase u).wakeWith ret else x.phase u := by
  induction threads generalizing x with
  | nil => rfl
  | cons t rest ih =>
    rw [foldl_cons, ih, phase_wake_apply]
    by_cases hu : u = t
    · simp [hu, Phase.wake_with_wake_with]
    · simp [hu]

/-- Waking all threads of a queue wakes exactly its threads. -/
theorem phase_wake_all (w : Wid) (u : Tid) (ret : Status) :
    (x.waitQueueWakeAll w ret).2.phase u =
      if u ∈ x.list w then (x.phase u).wakeWith ret else x.phase u := by
  show ((x.list w).reverse.foldl (fun y t => y.wake t ret) x).phase u = _
  rw [phase_foldl_wake]
  simp only [mem_reverse]

/-- Waking all threads of a queue empties it. -/
theorem list_wake_all (w : Wid) (ret : Status) : (x.waitQueueWakeAll w ret).2.list w = [] := by
  refine eq_nil_iff_forall_not_mem.mpr ?_
  intro u hu
  rw [list, mem_iff, phase_wake_all] at hu
  split at hu
  · rw [Phase.waits_on_wake_with] at hu
    cases hu
  · next hnot => exact hnot ((x.mem_iff w u).mpr hu)

/-- Every thread is in a phase that satisfies `P`. -/
def All (x : Waiters Wid Tid Call) (P : Phase Wid Call → Prop) : Prop := ∀ t, P (x.phase t)

variable {x} {P : Phase Wid Call → Prop}

omit [DecidableEq Wid] [DecidableEq Tid] in
/-- No queue has a thread while all threads run. -/
theorem All.list_eq_nil (hall : x.All (· = .running)) (w : Wid) : x.list w = [] := by
  refine eq_nil_iff_forall_not_mem.mpr fun t ht => ?_
  obtain ⟨call, timed, hphase⟩ := x.mem_list_iff.mp ht
  rw [hall t] at hphase
  cases hphase

omit [DecidableEq Wid] [DecidableEq Tid] in
theorem All.apply {phase : Phase Wid Call} (hall : x.All P) (h : x.phase t = phase) : P phase :=
  h ▸ hall t

omit [DecidableEq Wid] in
theorem All.update {phase : Phase Wid Call} (hall : x.All P) (hnew : P phase) (u : Tid) :
    P (Function.update x.phase t phase u) :=
  (forall_update_iff x.phase fun _ => P).mpr ⟨hnew, fun u _ => hall u⟩ u

theorem All.block (hall : x.All P) (h : x.phase t = .running) (hnew : P (.blocked w call timed)) :
    (x.block w t call timed h).All P :=
  hall.update hnew

theorem All.wake (hall : x.All P) (h : x.phase t = .blocked w call timed)
    (hnew : P (.woken call ret)) : (x.wake t ret).All P := by
  intro u
  rw [x.phase_wake h]
  exact hall.update hnew u

theorem All.wake_one (hall : x.All P)
    (hnew : ∀ w call timed, P (.blocked w call timed) → P (.woken call ret)) :
    (x.waitQueueWakeOne w ret).2.All P := by
  rcases x.wake_one_cases w ret with ⟨_, hone⟩ | ⟨t, call, timed, _, hphase, hone⟩
  · rw [hone]
    exact hall
  · rw [hone]
    exact hall.wake hphase (hnew w call timed (hall.apply hphase))

omit [DecidableEq Wid] in
theorem All.resume (hall : x.All P) (h : x.phase t = .woken call ret) (hnew : P .running) :
    (x.resume t call ret h).All P :=
  hall.update hnew

end Lemmas

/-! ## Counting woken threads -/

section Counting

variable [Fintype Tid] (x : Waiters Wid Tid Call) {w : Wid} {t : Tid} {call : Call}
  {timed : Bool} {ret status : Status}

/-- The number of threads that were woken with this status and have not run since. -/
def wokenCount (x : Waiters Wid Tid Call) (status : Status) : ℕ :=
  tally (Phase.WokenWith status) x.phase

omit [DecidableEq Wid] [DecidableEq Tid] in
theorem woken_count_initial :
    (initial : Waiters Wid Tid Call).wokenCount status = 0 := by
  rw [wokenCount, tally_eq_zero_iff]
  exact fun t h => h

theorem woken_count_block (h : x.phase t = .running) :
    (x.block w t call timed h).wokenCount status = x.wokenCount status := by
  have hupdate := tally_update (Phase.WokenWith status) x.phase t (.blocked w call timed)
  simpa [h, Phase.WokenWith, wokenCount, phase_block] using hupdate

theorem woken_count_wake_self (h : x.phase t = .blocked w call timed) (ret : Status) :
    (x.wake t ret).wokenCount ret = x.wokenCount ret + 1 := by
  have hupdate := tally_update (Phase.WokenWith ret) x.phase t (.woken call ret)
  simpa [h, Phase.WokenWith, wokenCount, x.phase_wake h] using hupdate

theorem woken_count_wake_of_ne (h : x.phase t = .blocked w call timed) (hne : ret ≠ status) :
    (x.wake t ret).wokenCount status = x.wokenCount status := by
  have hupdate := tally_update (Phase.WokenWith status) x.phase t (.woken call ret)
  simpa [h, Phase.WokenWith, wokenCount, x.phase_wake h, hne] using hupdate

omit [DecidableEq Wid] in
theorem woken_count_resume_self (h : x.phase t = .woken call ret) :
    (x.resume t call ret h).wokenCount ret + 1 = x.wokenCount ret := by
  have hupdate := tally_update (Phase.WokenWith ret) x.phase t .running
  simpa [h, Phase.WokenWith, wokenCount] using hupdate

omit [DecidableEq Wid] in
theorem woken_count_resume_of_ne (h : x.phase t = .woken call ret) (hne : ret ≠ status) :
    (x.resume t call ret h).wokenCount status = x.wokenCount status := by
  have hupdate := tally_update (Phase.WokenWith status) x.phase t .running
  simpa [h, Phase.WokenWith, wokenCount, hne] using hupdate

omit [DecidableEq Wid] [DecidableEq Tid] in
theorem woken_count_pos (h : x.phase t = .woken call status) : 0 < x.wokenCount status :=
  (tally_pos_iff _ _).mpr ⟨t, by simp [h, Phase.WokenWith]⟩

omit [DecidableEq Wid] [DecidableEq Tid] in
theorem woken_count_eq_zero_iff :
    x.wokenCount status = 0 ↔ ∀ t call, x.phase t ≠ .woken call status := by
  rw [wokenCount, tally_eq_zero_iff]
  refine forall_congr' fun t => ?_
  cases x.phase t with
  | running => simp [Phase.WokenWith]
  | blocked => simp [Phase.WokenWith]
  | woken call' ret => simp [Phase.WokenWith, eq_comm]

omit [DecidableEq Wid] [DecidableEq Tid] in
theorem woken_count_eq_zero (h : ∀ t, ¬ (x.phase t).Pending) : x.wokenCount status = 0 := by
  rw [woken_count_eq_zero_iff]
  intro t call hphase
  exact h t (by rw [hphase]; trivial)

end Counting

end Waiters

end NusaKernel
