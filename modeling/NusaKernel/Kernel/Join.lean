import NusaKernel.Kernel.WaitQueue
import NusaKernel.Lib.Transition

/-!
# Joining, detaching and exit

`thread_join`, `thread_detach` and `thread_exit` of `kernel/thread.c` for one thread, the target,
and any number of callers. Each critical section under the thread lock is one step. A join that
blocks is cut at the context switch, `thread_detach` of a dead thread is cut where it calls
`thread_join`, and the two calls of `free` at the end of `thread_join` are steps of their own,
since they come after the lock is released. Assertions are taken as reads of the structure that
do not stop the caller.

Whoever finds the target dead tears it down, and nothing says that another call is already about
to do so. `torn_down_once` holds as long as at most one call at a time has that right, and
`joined_twice` is a run in which two joins have it.
-/

namespace NusaKernel.Join

open Bool Function Option Transition

/-- `thread_t`, as far as the three functions read and write it: whether the state is
`THREAD_DEATH`, the flags `THREAD_FLAG_DETACHED`, `THREAD_FLAG_FREE_STACK` (with a stack to free)
and `THREAD_FLAG_FREE_STRUCT`, the return code, whether the magic is `THREAD_MAGIC`, and whether
the structure is in the list of all threads. -/
structure Target where
  dead : Bool
  detached : Bool
  freeStack : Bool
  freeStruct : Bool
  retcode : Int
  magic : Bool
  listed : Bool
  deriving DecidableEq

/-- Where a caller stands when it is not inside `wait_queue_block`: in neither function, between
the critical section of `thread_detach` and its call of `thread_join`, or before one of the two
calls of `free`. -/
inductive Control where
  | outside
  | rejoin
  | freeStack
  | freeStruct
  deriving DecidableEq

/-- The target and its callers, with the history of what was freed and reported. A blocked call
is a join, which knows whether its caller passed a place for the return code. -/
structure State (Tid : Type*) where
  target : Target
  waiters : Waiters Unit Tid Bool
  control : Tid → Control
  stackFrees : ℕ
  structFrees : ℕ
  touchedAfterFree : Bool
  reported : List Int

/-- What the target, a caller or an interrupt does next. -/
inductive Action (Tid : Type*) where
  | join (c : Tid) (retcode : Bool) (timeout : Time)
  | detach (c : Tid)
  | rejoin (c : Tid)
  | resume (c : Tid)
  | timeout (c : Tid)
  | freeStack (c : Tid)
  | freeStruct (c : Tid)
  | exit (retcode : Int)

variable {Tid : Type*}

/-- A thread that `thread_create_etc` has made, with the memory it allocated. -/
def initial (freeStack freeStruct : Bool) : State Tid where
  target := ⟨false, false, freeStack, freeStruct, 0, true, true⟩
  waiters := .initial
  control _ := .outside
  stackFrees := 0
  structFrees := 0
  touchedAfterFree := false
  reported := []

/-- A call that has not freed anything itself reads or writes the structure. -/
def touch (s : State Tid) : State Tid :=
  { s with touchedAfterFree := s.touchedAfterFree || 0 < s.stackFrees || 0 < s.structFrees }

variable [DecidableEq Tid]

variable (s : State Tid)

/-- Move a caller to a point of its code. -/
def goTo (c : Tid) (control : Control) : State Tid :=
  { s with control := update s.control c control }

/-- The end of the critical section of `thread_join` once the target is dead. -/
def takeDown (c : Tid) (retcode : Bool) : State Tid :=
  let s := touch s
  -- save the return code
  let s := { s with reported := if retcode then s.reported ++ [s.target.retcode] else s.reported }
  goTo { s with target := { s.target with listed := false, magic := false } } c .freeStack

/-- `thread_join` after `wait_queue_block` has returned. -/
def afterBlock (c : Tid) (retcode : Bool) (err : Status) : State Tid :=
  if err < 0 then s else takeDown s c retcode

/-- `thread_join` up to its return, to the context switch, or to the release of the lock. -/
def threadJoin (c : Tid) (retcode : Bool) (timeout : Time)
    (h : s.waiters.phase c = .running) : State Tid :=
  if s.target.detached then touch s
  else if !s.target.dead then
    match s.waiters.waitQueueBlock () c retcode timeout h with
    | .error err => afterBlock (touch s) c retcode err
    | .ok waiters => { touch s with waiters }
  else takeDown s c retcode

/-- `thread_detach` up to its return or to its call of `thread_join`. -/
def threadDetach (c : Tid) : State Tid :=
  let s := { touch s with waiters := (s.waiters.waitQueueWakeAll () errThreadDetached).2 }
  if s.target.dead then
    -- make sure that `thread_join` continues
    goTo { s with target := { s.target with detached := false } } c .rejoin
  else { s with target := { s.target with detached := true } }

/-- `thread_exit`. A detached thread hands its own memory to `heap_delayed_free`. -/
def threadExit (retcode : Int) : State Tid :=
  let s := { touch s with target := { s.target with dead := true, retcode } }
  if s.target.detached then
    { s with
      target := { s.target with listed := false, magic := false }
      stackFrees := s.stackFrees + s.target.freeStack.toNat
      structFrees := s.structFrees + s.target.freeStruct.toNat }
  else { s with waiters := (s.waiters.waitQueueWakeAll () noError).2 }

/-- The first `free` at the end of `thread_join`. -/
def freeStack (c : Tid) : State Tid :=
  let s := touch s
  goTo { s with stackFrees := s.stackFrees + s.target.freeStack.toNat } c .freeStruct

/-- The second `free` at the end of `thread_join`, by the caller that has freed the stack. -/
def freeStruct (c : Tid) : State Tid :=
  let s := { s with touchedAfterFree := s.touchedAfterFree || 0 < s.structFrees }
  goTo { s with structFrees := s.structFrees + s.target.freeStruct.toNat } c .outside

/-- One step. A caller is in one call at a time, a timeout ends any blocked join, as its timer may
be that of an earlier wait, and the target exits once. -/
def step : Action Tid → Option (State Tid)
  | .join c retcode timeout =>
    if h : s.waiters.phase c = .running then
      if s.control c = .outside then some (threadJoin s c retcode timeout h) else none
    else none
  | .detach c =>
    if s.waiters.phase c = .running ∧ s.control c = .outside then some (threadDetach s c)
    else none
  | .rejoin c =>
    if h : s.waiters.phase c = .running then
      if s.control c = .rejoin then some (threadJoin (goTo s c .outside) c false 0 h) else none
    else none
  | .resume c =>
    match h : s.waiters.phase c with
    | .woken retcode err =>
      some (afterBlock { s with waiters := s.waiters.resume c retcode err h } c retcode err)
    | _ => none
  | .timeout c =>
    match s.waiters.phase c with
    | .blocked _ _ _ =>
      some { s with waiters := (s.waiters.threadUnblockFromWaitQueue c errTimedOut).2 }
    | _ => none
  | .freeStack c => if s.control c = .freeStack then some (freeStack s c) else none
  | .freeStruct c => if s.control c = .freeStruct then some (freeStruct s c) else none
  | .exit retcode => if s.target.dead then none else some (threadExit s retcode)

/-- The states that steps admitted by the guard reach. -/
def Reachable (freeStack freeStruct : Bool) (guard : State Tid → Action Tid → Prop) :
    State Tid → Prop :=
  Transition.Reachable step guard (· = initial freeStack freeStruct)

/-! ## Who may tear the target down -/

section Invariant

/-- The thread has been woken and its call goes on as successful. -/
def Succeeds : Phase Unit Bool → Prop
  | .woken _ ret => ¬ ret < 0
  | .running | .blocked _ _ _ => False

/-- By the cases of a call. -/
instance : DecidablePred Succeeds
  | .woken _ ret => inferInstanceAs (Decidable (¬ ret < 0))
  | .running => isFalse id
  | .blocked _ _ _ => isFalse id

/-- The caller will go on to the target without looking whether it is still there: it was woken
by the exit, or is between two critical sections, or is about to free memory. -/
def Entitled (s : State Tid) (c : Tid) : Prop :=
  Succeeds (s.waiters.phase c) ∨ s.control c ≠ .outside

/-- `Entitled` can be checked along a run. -/
instance (s : State Tid) : DecidablePred (Entitled s) :=
  fun c => inferInstanceAs (Decidable (Succeeds (s.waiters.phase c) ∨ s.control c ≠ .outside))

/-- A join or detach of a dead thread begins only if the thread is still there and no other call
is entitled to tear it down, and a thread that is not detached exits only if at most one join
waits for it. -/
def SingleClaim (s : State Tid) : Action Tid → Prop
  | .join _ _ _ | .detach _ =>
    s.target.dead = true → s.target.magic = true ∧ ∀ c, ¬ Entitled s c
  | .exit _ => s.target.detached = true ∨ (s.waiters.list ()).length ≤ 1
  | .rejoin _ | .resume _ | .timeout _ | .freeStack _ | .freeStruct _ => True

/-- `SingleClaim` can be checked along a run. -/
instance [Fintype Tid] (s : State Tid) (action : Action Tid) :
    Decidable (SingleClaim s action) := by
  cases action <;> unfold SingleClaim <;> infer_instance

/-- Nothing has been freed or reported. -/
structure Intact (s : State Tid) : Prop where
  magic : s.target.magic = true
  stack : s.stackFrees = 0
  struct : s.structFrees = 0
  reported : s.reported = []

/-- The target has left the list of threads, and at most one join has reported its code. -/
structure Down (s : State Tid) : Prop where
  dead : s.target.dead = true
  magic : s.target.magic = false
  reported : s.reported = [] ∨ s.reported = [s.target.retcode]

/-- How far the teardown of the target has come, and which single caller is entitled to it. -/
inductive Teardown (s : State Tid) : Prop where
  | unclaimed (hnone : ∀ c, ¬ Entitled s c) (hintact : Intact s)
      (hjoinable : s.target.dead = true → s.target.detached = false)
  | claimed (c : Tid) (hother : ∀ u, u ≠ c → ¬ Entitled s u) (hintact : Intact s)
      (hpoint : Succeeds (s.waiters.phase c) ∨ s.control c = .rejoin)
      (hdead : s.target.dead = true) (hjoinable : s.target.detached = false)
  | freeStack (c : Tid) (hother : ∀ u, u ≠ c → ¬ Entitled s u) (hdown : Down s)
      (hpoint : s.control c = .freeStack) (hstack : s.stackFrees = 0) (hstruct : s.structFrees = 0)
  | freeStruct (c : Tid) (hother : ∀ u, u ≠ c → ¬ Entitled s u) (hdown : Down s)
      (hpoint : s.control c = .freeStruct) (hstack : s.stackFrees = s.target.freeStack.toNat)
      (hstruct : s.structFrees = 0)
  | finished (hnone : ∀ c, ¬ Entitled s c) (hdown : Down s)
      (hstack : s.stackFrees = s.target.freeStack.toNat)
      (hstruct : s.structFrees = s.target.freeStruct.toNat)

/-- The invariant. -/
structure Inv (s : State Tid) : Prop where
  running : ∀ c, s.control c ≠ .outside → s.waiters.phase c = .running
  quiet : s.target.dead = true ∨ s.target.detached = true → s.waiters.list () = []
  untouched : s.touchedAfterFree = false
  teardown : Teardown s

variable {s s' : State Tid} {c : Tid} {waiters : Waiters Unit Tid Bool} {retcode : Bool}
  {ret : Status}

section

omit [DecidableEq Tid]

/-- As long as nothing has been freed, reading the structure does no harm. -/
theorem touch_eq_self (hstack : s.stackFrees = 0) (hstruct : s.structFrees = 0) :
    touch s = s := by
  have hflag : (s.touchedAfterFree || decide (0 < s.stackFrees) || decide (0 < s.structFrees)) =
      s.touchedAfterFree := by simp [hstack, hstruct]
  unfold touch
  rw [hflag]

theorem Intact.touch_eq (h : Intact s) : touch s = s := touch_eq_self h.stack h.struct

/-- A call that begins under the guard finds nobody entitled and nothing freed. -/
theorem Teardown.of_guard (h : Teardown s)
    (hguard : s.target.dead = true → s.target.magic = true ∧ ∀ c, ¬ Entitled s c) :
    (∀ c, ¬ Entitled s c) ∧ Intact s ∧
      (s.target.dead = true → s.target.detached = false) := by
  have hmagic : Down s → s.target.magic ≠ false := by
    intro hdown
    simp [(hguard hdown.dead).1]
  cases h with
  | unclaimed hnone hintact hjoinable => exact ⟨hnone, hintact, hjoinable⟩
  | claimed c _ hintact _ hdead hjoinable =>
    exact ⟨(hguard hdead).2, hintact, fun _ => hjoinable⟩
  | freeStack c _ hdown | freeStruct c _ hdown | finished _ hdown =>
    exact absurd hdown.magic (hmagic hdown)

/-- Only one caller is entitled, and where it stands says how far the teardown has come. -/
theorem Teardown.of_entitled (h : Teardown s) (hentitled : Entitled s c) :
    (∀ u, u ≠ c → ¬ Entitled s u) ∧
    ((Intact s ∧ (Succeeds (s.waiters.phase c) ∨ s.control c = .rejoin) ∧
        s.target.dead = true ∧ s.target.detached = false) ∨
      (Down s ∧ s.control c = .freeStack ∧ s.stackFrees = 0 ∧ s.structFrees = 0) ∨
      (Down s ∧ s.control c = .freeStruct ∧ s.stackFrees = s.target.freeStack.toNat ∧
        s.structFrees = 0)) := by
  have hunique : ∀ d, (∀ u, u ≠ d → ¬ Entitled s u) → c = d := by
    intro d hother
    by_contra hne
    exact hother c hne hentitled
  cases h with
  | unclaimed hnone | finished hnone => exact absurd hentitled (hnone c)
  | claimed d hother hintact hpoint hdead hjoinable =>
    cases hunique d hother
    exact ⟨hother, .inl ⟨hintact, hpoint, hdead, hjoinable⟩⟩
  | freeStack d hother hdown hpoint hstack hstruct =>
    cases hunique d hother
    exact ⟨hother, .inr (.inl ⟨hdown, hpoint, hstack, hstruct⟩)⟩
  | freeStruct d hother hdown hpoint hstack hstruct =>
    cases hunique d hother
    exact ⟨hother, .inr (.inr ⟨hdown, hpoint, hstack, hstruct⟩)⟩

/-- A caller that was woken with success, or that is about to call `thread_join` from
`thread_detach`, finds the target dead and whole. -/
theorem Inv.claimed_of_point (hinv : Inv s)
    (hpoint : Succeeds (s.waiters.phase c) ∨ s.control c = .rejoin) :
    (∀ u, u ≠ c → ¬ Entitled s u) ∧ Intact s ∧ s.target.dead = true ∧
      s.target.detached = false := by
  have hentitled : Entitled s c := hpoint.imp_right fun h => by simp [h]
  have hnot : ∀ control, control ≠ .outside → control ≠ .rejoin → s.control c ≠ control := by
    intro control hout hrejoin hcontrol
    rcases hpoint with h | h
    · rw [hinv.running c (by rw [hcontrol]; exact hout)] at h
      exact h
    · exact hrejoin (hcontrol.symm.trans h)
  obtain ⟨hother, hstage⟩ := hinv.teardown.of_entitled hentitled
  rcases hstage with ⟨hintact, _, hdead, hjoinable⟩ | ⟨_, hcontrol, _⟩ | ⟨_, hcontrol, _⟩
  · exact ⟨hother, hintact, hdead, hjoinable⟩
  · exact absurd hcontrol (hnot _ nofun nofun)
  · exact absurd hcontrol (hnot _ nofun nofun)

/-- A caller that is about to free memory has taken the target down. -/
theorem Inv.down_of_point (hinv : Inv s)
    (hpoint : s.control c = .freeStack ∨ s.control c = .freeStruct) :
    (∀ u, u ≠ c → ¬ Entitled s u) ∧ s.waiters.phase c = .running ∧ Down s ∧
      (s.control c = .freeStack → s.stackFrees = 0) ∧
      (s.control c = .freeStruct → s.stackFrees = s.target.freeStack.toNat) ∧
      s.structFrees = 0 := by
  have hout : s.control c ≠ .outside := by
    rcases hpoint with h | h <;> simp [h]
  have hphase := hinv.running c hout
  obtain ⟨hother, hstage⟩ := hinv.teardown.of_entitled (.inr hout)
  rcases hstage with ⟨_, h, _⟩ | ⟨hdown, hcontrol, hstack, hstruct⟩ |
    ⟨hdown, hcontrol, hstack, hstruct⟩
  · rw [hphase] at h
    rcases h with h | h
    · exact absurd h id
    · rcases hpoint with hp | hp <;> simp [h] at hp
  · refine ⟨hother, hphase, hdown, fun _ => hstack, fun h => ?_, hstruct⟩
    simp [hcontrol] at h
  · refine ⟨hother, hphase, hdown, fun h => ?_, fun _ => hstack, hstruct⟩
    simp [hcontrol] at h

end

/-- Moving a caller changes nobody else's right. -/
theorem others_go_to {control : Control} (h : ∀ u, u ≠ c → ¬ Entitled s u) (u : Tid) (hne : u ≠ c) :
    ¬ Entitled (goTo s c control) u := by
  simpa [Entitled, goTo, hne] using h u hne

theorem running_go_to (hrunning : ∀ u, s.control u ≠ .outside → s.waiters.phase u = .running)
    (hphase : s.waiters.phase c = .running) (control : Control) :
    ∀ u, (goTo s c control).control u ≠ .outside →
      (goTo s c control).waiters.phase u = .running := by
  intro u hu
  by_cases hne : u = c
  · rw [hne]
    exact hphase
  · simp only [goTo, update_of_ne hne] at hu
    exact hrunning u hu

/-- The caller that may tear the target down does so up to the release of the lock. -/
theorem Inv.take_down (retcode : Bool)
    (hrunning : ∀ u, s.control u ≠ .outside → s.waiters.phase u = .running)
    (hquiet : s.waiters.list () = []) (huntouched : s.touchedAfterFree = false)
    (hother : ∀ u, u ≠ c → ¬ Entitled s u) (hintact : Intact s)
    (hdead : s.target.dead = true) (hphase : s.waiters.phase c = .running) :
    Inv (takeDown s c retcode) := by
  unfold takeDown
  rw [hintact.touch_eq]
  refine ⟨running_go_to hrunning hphase .freeStack, fun _ => hquiet, huntouched, ?_⟩
  refine .freeStack c (others_go_to hother) ⟨hdead, rfl, ?_⟩ ?_ hintact.stack hintact.struct
  · cases retcode with
    | false => exact .inl hintact.reported
    | true =>
      refine .inr ?_
      show s.reported ++ [s.target.retcode] = [s.target.retcode]
      rw [hintact.reported, List.nil_append]
  · exact update_self c _ _

/-! ## The steps -/

omit [DecidableEq Tid] in
/-- Threads that are woken with an error, or go back to running from one, gain no right. -/
theorem Teardown.of_waiters (h : Teardown s)
    (hsame : ∀ u, Succeeds (waiters.phase u) ↔ Succeeds (s.waiters.phase u)) :
    Teardown { s with waiters } := by
  have hentitled : ∀ u, Entitled { s with waiters } u ↔ Entitled s u :=
    fun u => or_congr_left (hsame u)
  cases h with
  | unclaimed hnone hintact hjoinable =>
    refine .unclaimed (fun u hu => hnone u ((hentitled u).mp hu)) ?_ hjoinable
    exact { hintact with }
  | claimed c hother hintact hpoint hdead hjoinable =>
    refine .claimed c (fun u hne hu => hother u hne ((hentitled u).mp hu)) ?_ ?_ hdead hjoinable
    · exact { hintact with }
    · exact hpoint.imp_left (hsame c).mpr
  | freeStack c hother hdown hpoint hstack hstruct =>
    refine .freeStack c (fun u hne hu => hother u hne ((hentitled u).mp hu)) ?_ hpoint hstack
      hstruct
    exact { hdown with }
  | freeStruct c hother hdown hpoint hstack hstruct =>
    refine .freeStruct c (fun u hne hu => hother u hne ((hentitled u).mp hu)) ?_ hpoint hstack
      hstruct
    exact { hdown with }
  | finished hnone hdown hstack hstruct =>
    refine .finished (fun u hu => hnone u ((hentitled u).mp hu)) ?_ hstack hstruct
    exact { hdown with }

theorem Inv.join (hinv : Inv s) {timeout : Time} (hphase : s.waiters.phase c = .running)
    (hcontrol : s.control c = .outside)
    (hguard : s.target.dead = true → s.target.magic = true ∧ ∀ c, ¬ Entitled s c) :
    Inv (threadJoin s c retcode timeout hphase) := by
  obtain ⟨hnone, hintact, _⟩ := hinv.teardown.of_guard hguard
  unfold threadJoin
  rw [hintact.touch_eq]
  split
  · exact hinv
  next hdetached =>
  split
  · next halive =>
    rw [not_eq_true'] at halive
    by_cases htimeout : timeout = 0
    · rw [s.waiters.wait_queue_block_of_eq hphase htimeout]
      exact hinv
    rw [s.waiters.wait_queue_block_of_ne hphase htimeout]
    refine ⟨?_, ?_, hinv.untouched, hinv.teardown.of_waiters ?_⟩
    · intro u hu
      have hne : u ≠ c := fun heq => hu (heq ▸ hcontrol)
      show update s.waiters.phase c _ u = .running
      rw [update_of_ne hne]
      exact hinv.running u hu
    · rw [halive]
      rintro (h | h)
      · cases h
      · exact absurd h hdetached
    intro u
    show Succeeds (update s.waiters.phase c _ u) ↔ _
    by_cases hne : u = c
    · rw [hne, update_self, hphase]
      rfl
    · rw [update_of_ne hne]
  · next hdead =>
    rw [not_eq_true', not_eq_false] at hdead
    exact .take_down retcode hinv.running (hinv.quiet (.inl hdead)) hinv.untouched
      (fun u _ => hnone u) hintact hdead hphase

/-- A thread woken with an error does not go on as successful. -/
theorem succeeds_wake_with (hret : ret < 0) (phase : Phase Unit Bool) :
    Succeeds (phase.wakeWith ret) ↔ Succeeds phase := by
  cases phase with
  | running => rfl
  | blocked w call timed => exact iff_of_false (not_not_intro hret) id
  | woken call status => rfl

omit [DecidableEq Tid] in
/-- Nobody who is past a wait is affected by what is done to the waiters. -/
theorem Inv.running_of_wake (hinv : Inv s) (hwake : ∀ u, waiters.phase u = s.waiters.phase u ∨
      waiters.phase u = (s.waiters.phase u).wakeWith ret) :
    ∀ u, s.control u ≠ .outside → waiters.phase u = .running := by
  intro u hu
  rcases hwake u with h | h
  · rw [h]
    exact hinv.running u hu
  · rw [h, hinv.running u hu]
    rfl

theorem wake_all_phase (waiters : Waiters Unit Tid Bool) (ret : Status) (u : Tid) :
    (waiters.waitQueueWakeAll () ret).2.phase u = waiters.phase u ∨
      (waiters.waitQueueWakeAll () ret).2.phase u = (waiters.phase u).wakeWith ret := by
  rw [waiters.phase_wake_all]
  exact (ite_eq_or_eq ..).symm

section

variable (hinv : Inv s)
include hinv

theorem Inv.detach (hphase : s.waiters.phase c = .running)
    (hguard : s.target.dead = true → s.target.magic = true ∧ ∀ c, ¬ Entitled s c) :
    Inv (threadDetach s c) := by
  obtain ⟨hnone, hintact, _⟩ := hinv.teardown.of_guard hguard
  have hwake := wake_all_phase s.waiters errThreadDetached
  have hrunning := hinv.running_of_wake hwake
  have hphase' : (s.waiters.waitQueueWakeAll () errThreadDetached).2.phase c = .running := by
    rcases hwake c with h | h <;> rw [h, hphase]
    rfl
  have hnone' : ∀ u, ¬ Entitled
      { s with waiters := (s.waiters.waitQueueWakeAll () errThreadDetached).2 } u := by
    intro u hu
    refine hnone u (hu.imp_left fun hsucceeds => ?_)
    rcases hwake u with h | h
    · rwa [h] at hsucceeds
    · rw [h] at hsucceeds
      exact (succeeds_wake_with (by decide) _).mp hsucceeds
  have hquiet := s.waiters.list_wake_all () errThreadDetached
  unfold threadDetach
  rw [hintact.touch_eq]
  simp only
  split
  · next hdead =>
    refine ⟨running_go_to hrunning hphase' .rejoin, fun _ => hquiet, hinv.untouched, ?_⟩
    exact .claimed c (others_go_to fun u _ => hnone' u) { hintact with }
      (.inr (update_self c _ _)) hdead rfl
  · next halive =>
    refine ⟨hrunning, fun _ => hquiet, hinv.untouched, ?_⟩
    exact .unclaimed hnone' { hintact with }
      fun hdead => absurd hdead halive

theorem Inv.rejoin (hphase : s.waiters.phase c = .running) (hcontrol : s.control c = .rejoin) :
    Inv (threadJoin (goTo s c .outside) c false 0 hphase) := by
  obtain ⟨hother, hintact, hdead, hjoinable⟩ := hinv.claimed_of_point (.inr hcontrol)
  have hjoin : threadJoin (goTo s c .outside) c false 0 hphase =
      takeDown (goTo s c .outside) c false := by
    simp [threadJoin, goTo, hdead, hjoinable]
  rw [hjoin]
  exact .take_down false (running_go_to hinv.running hphase _) (hinv.quiet (.inl hdead))
    hinv.untouched (others_go_to hother) { hintact with } hdead hphase

theorem Inv.resume {err : Status} (hphase : s.waiters.phase c = .woken retcode err) :
    Inv (afterBlock { s with waiters := s.waiters.resume c retcode err hphase } c retcode err) := by
  have hphase' : (s.waiters.resume c retcode err hphase).phase c = .running := update_self c _ _
  have hrunning : ∀ u, s.control u ≠ .outside →
      (s.waiters.resume c retcode err hphase).phase u = .running := by
    intro u hu
    by_cases hne : u = c
    · rw [hne]
      exact hphase'
    · rw [Waiters.phase_resume, update_of_ne hne]
      exact hinv.running u hu
  unfold afterBlock
  split
  · next herr =>
    refine ⟨hrunning, hinv.quiet, hinv.untouched, hinv.teardown.of_waiters ?_⟩
    intro u
    by_cases hne : u = c
    · rw [hne, hphase', hphase]
      exact iff_of_false id (not_not_intro herr)
    · rw [Waiters.phase_resume, update_of_ne hne]
  next herr =>
  have hsucceeds : Succeeds (s.waiters.phase c) := by
    rw [hphase]
    exact herr
  obtain ⟨hother, hintact, hdead, _⟩ := hinv.claimed_of_point (.inl hsucceeds)
  refine .take_down retcode hrunning (hinv.quiet (.inl hdead)) hinv.untouched ?_
    { hintact with } hdead hphase'
  intro u hne hentitled
  refine hother u hne (hentitled.imp_left fun h => ?_)
  simpa only [Waiters.phase_resume, update_of_ne hne] using h

theorem Inv.timeout {timed : Bool} (hphase : s.waiters.phase c = .blocked () retcode timed) :
    Inv { s with waiters := (s.waiters.threadUnblockFromWaitQueue c errTimedOut).2 } := by
  have hwake : ∀ u, (s.waiters.threadUnblockFromWaitQueue c errTimedOut).2.phase u =
      s.waiters.phase u ∨ (s.waiters.threadUnblockFromWaitQueue c errTimedOut).2.phase u =
      (s.waiters.phase u).wakeWith errTimedOut := by
    intro u
    rw [s.waiters.phase_unblock_apply]
    exact (ite_eq_or_eq ..).symm
  have hmem : c ∈ s.waiters.list () := s.waiters.mem_list_iff.mpr ⟨retcode, timed, hphase⟩
  refine ⟨hinv.running_of_wake hwake, ?_, hinv.untouched, hinv.teardown.of_waiters ?_⟩
  · intro hgone
    rw [hinv.quiet hgone] at hmem
    cases hmem
  intro u
  rcases hwake u with h | h
  · rw [h]
  · rw [h]
    exact succeeds_wake_with (by decide) _

theorem Inv.free_stack (hcontrol : s.control c = .freeStack) : Inv (freeStack s c) := by
  obtain ⟨hother, hphase, hdown, hstack, _, hstruct⟩ := hinv.down_of_point (.inl hcontrol)
  unfold freeStack
  rw [touch_eq_self (hstack hcontrol) hstruct]
  refine ⟨running_go_to hinv.running hphase .freeStruct, hinv.quiet, hinv.untouched, ?_⟩
  refine .freeStruct c (others_go_to hother) { hdown with } (update_self c _ _) ?_ hstruct
  show s.stackFrees + s.target.freeStack.toNat = s.target.freeStack.toNat
  rw [hstack hcontrol, Nat.zero_add]

theorem Inv.free_struct (hcontrol : s.control c = .freeStruct) : Inv (freeStruct s c) := by
  obtain ⟨hother, hphase, hdown, _, hstack, hstruct⟩ := hinv.down_of_point (.inr hcontrol)
  refine ⟨running_go_to hinv.running hphase .outside, hinv.quiet, ?_, ?_⟩
  · show (s.touchedAfterFree || decide (0 < s.structFrees)) = false
    rw [hinv.untouched, hstruct]
    rfl
  refine .finished ?_ { hdown with } (hstack hcontrol) ?_
  · intro u hentitled
    by_cases hne : u = c
    · rw [hne] at hentitled
      rcases hentitled with h | h
      · rw [show (freeStruct s c).waiters.phase c = .running from hphase] at h
        exact h
      · exact h (update_self c _ _)
    · exact others_go_to hother u hne hentitled
  · show s.structFrees + s.target.freeStruct.toNat = s.target.freeStruct.toNat
    rw [hstruct, Nat.zero_add]

theorem Inv.exit (halive : s.target.dead ≠ true) (retcode : Int)
    (hguard : s.target.detached = true ∨ (s.waiters.list ()).length ≤ 1) :
    Inv (threadExit s retcode) := by
  obtain ⟨hnone, hintact, _⟩ := hinv.teardown.of_guard fun hdead => absurd hdead halive
  unfold threadExit
  rw [hintact.touch_eq]
  simp only
  split
  · next hdetached =>
    refine ⟨hinv.running, fun _ => hinv.quiet (.inr hdetached), hinv.untouched, ?_⟩
    refine .finished hnone ⟨rfl, rfl, .inl hintact.reported⟩ ?_ ?_
    · rw [hintact.stack, Nat.zero_add]
    · rw [hintact.struct, Nat.zero_add]
  next hdetached =>
  have hjoinable : s.target.detached = false := by simpa using hdetached
  have hrunning := hinv.running_of_wake (wake_all_phase s.waiters noError)
  have hquiet := s.waiters.list_wake_all () noError
  have hintact' : Intact { s with
      target := { s.target with dead := true, retcode }
      waiters := (s.waiters.waitQueueWakeAll () noError).2 } :=
    { hintact with }
  have hlength : (s.waiters.list ()).length ≤ 1 := hguard.resolve_left (by simp [hjoinable])
  have hother : ∀ u, u ∉ s.waiters.list () → ¬ Entitled { s with
      target := { s.target with dead := true, retcode }
      waiters := (s.waiters.waitQueueWakeAll () noError).2 } u := by
    intro u hmem hentitled
    refine hnone u (hentitled.imp_left fun h => ?_)
    rwa [s.waiters.phase_wake_all, if_neg hmem] at h
  refine ⟨hrunning, fun _ => hquiet, hinv.untouched, ?_⟩
  -- nobody waits, or the one join that waits is now entitled
  cases hlist : s.waiters.list () with
  | nil =>
    rw [hlist] at hother
    exact .unclaimed (fun u => hother u List.not_mem_nil) hintact' fun _ => hjoinable
  | cons c rest =>
    rw [hlist, List.length_cons] at hlength
    obtain rfl : rest = [] := List.length_eq_zero_iff.mp (by omega)
    have hmem : c ∈ s.waiters.list () := by simp [hlist]
    refine .claimed c ?_ hintact' (.inl ?_) rfl hjoinable
    · intro u hne
      exact hother u (by simpa [hlist] using hne)
    · obtain ⟨call, timed, hphase⟩ := s.waiters.mem_list_iff.mp hmem
      rw [s.waiters.phase_wake_all, if_pos hmem, hphase]
      exact Int.lt_irrefl 0

theorem Inv.step {action : Action Tid} (hguard : SingleClaim s action)
    (hstep : step s action = some s') : Inv s' := by
  cases action with
  | join c retcode timeout =>
    simp only [Join.step, dite_none_right_eq_some, ite_none_right_eq_some] at hstep
    obtain ⟨hphase, hcontrol, hstep⟩ := hstep
    cases hstep
    exact hinv.join hphase hcontrol hguard
  | detach c =>
    obtain ⟨⟨hphase, _⟩, hstep⟩ := ite_none_right_eq_some.mp hstep
    cases hstep
    exact hinv.detach hphase hguard
  | rejoin c =>
    simp only [Join.step, dite_none_right_eq_some, ite_none_right_eq_some] at hstep
    obtain ⟨hphase, hcontrol, hstep⟩ := hstep
    cases hstep
    exact hinv.rejoin hphase hcontrol
  | resume c =>
    simp only [Join.step] at hstep
    split at hstep
    · cases hstep
      exact hinv.resume _
    · cases hstep
  | timeout c =>
    simp only [Join.step] at hstep
    split at hstep
    · next hphase =>
      cases hstep
      exact hinv.timeout hphase
    · cases hstep
  | freeStack c =>
    obtain ⟨hcontrol, hstep⟩ := ite_none_right_eq_some.mp hstep
    cases hstep
    exact hinv.free_stack hcontrol
  | freeStruct c =>
    obtain ⟨hcontrol, hstep⟩ := ite_none_right_eq_some.mp hstep
    cases hstep
    exact hinv.free_struct hcontrol
  | exit retcode =>
    obtain ⟨halive, hstep⟩ := ite_none_left_eq_some.mp hstep
    cases hstep
    exact hinv.exit halive retcode hguard

end

omit [DecidableEq Tid] in
theorem Inv.initial (freeStack freeStruct : Bool) :
    Inv (initial freeStack freeStruct : State Tid) := by
  refine ⟨fun c h => absurd rfl h, fun _ => rfl, rfl, .unclaimed ?_ ⟨rfl, rfl, rfl, rfl⟩ nofun⟩
  rintro c (h | h)
  · exact h
  · exact h rfl

theorem reachable_inv {freeStack freeStruct : Bool}
    (h : Reachable freeStack freeStruct SingleClaim s) : Inv s :=
  h.invariant_from (Inv.initial freeStack freeStruct) fun hinv => hinv.step

/-- As long as at most one call at a time may tear the target down, in every run: the stack and
the structure are freed at most once, and have been freed once the target is down and no call is
under way; no call touches the structure after that; and at most one join reports the return
code. -/
theorem torn_down_once {freeStack freeStruct : Bool}
    (h : Reachable freeStack freeStruct SingleClaim s) :
    s.stackFrees ≤ 1 ∧ s.structFrees ≤ 1 ∧ s.touchedAfterFree = false ∧
      (s.reported = [] ∨ s.reported = [s.target.retcode]) ∧
      (s.target.magic = false → (∀ c, s.control c = .outside) →
        s.stackFrees = s.target.freeStack.toNat ∧
        s.structFrees = s.target.freeStruct.toNat) := by
  have hinv := reachable_inv h
  have hstackFlag := toNat_le s.target.freeStack
  have hstructFlag := toNat_le s.target.freeStruct
  cases hinv.teardown with
  | unclaimed _ hintact | claimed _ _ hintact =>
    refine ⟨by rw [hintact.stack]; omega, by rw [hintact.struct]; omega, hinv.untouched,
      .inl hintact.reported, ?_⟩
    intro hmagic
    rw [hintact.magic] at hmagic
    cases hmagic
  | freeStack c _ hdown hpoint hstack hstruct | freeStruct c _ hdown hpoint hstack hstruct =>
    refine ⟨by omega, by omega, hinv.untouched, hdown.reported, ?_⟩
    intro _ hout
    rw [hout c] at hpoint
    cases hpoint
  | finished _ hdown hstack hstruct =>
    exact ⟨by omega, by omega, hinv.untouched, hdown.reported, fun _ _ => ⟨hstack, hstruct⟩⟩

end Invariant

/-- One join is blocked when the thread exits, another has timed out before. The first reports
the return code and frees the memory. -/
theorem torn_down_once_joined :
    ∃ s : State (Fin 2), (Reachable true true SingleClaim s ∧ s.stackFrees = 1 ∧
        s.structFrees = 1 ∧ s.reported = [7]) ∧
      s.stackFrees ≤ 1 ∧ s.structFrees ≤ 1 ∧ s.touchedAfterFree = false := by
  obtain ⟨s, hreach, hrun⟩ := exists_reachable step SingleClaim (initial true true)
    (P := fun s : State (Fin 2) => s.stackFrees = 1 ∧ s.structFrees = 1 ∧ s.reported = [7])
    [.join 0 true infiniteTime, .join 1 true 5, .timeout 1, .exit 7, .resume 0, .resume 1,
      .freeStack 0, .freeStruct 0]
    (by decide) (by decide)
  obtain ⟨hstack, hstruct, huntouched, _⟩ := torn_down_once hreach
  exact ⟨s, ⟨hreach, hrun⟩, hstack, hstruct, huntouched⟩

/-- Two joins are blocked when the thread exits. Both are woken with success: each reports the
return code and frees the stack and the structure, the second after the first has freed them. -/
theorem joined_twice :
    ∃ s : State (Fin 2), Reachable true true Always s ∧ s.stackFrees = 2 ∧
      s.structFrees = 2 ∧ s.touchedAfterFree = true ∧ s.reported = [7, 7] :=
  exists_reachable step Always (initial true true)
    [.join 0 true infiniteTime, .join 1 true infiniteTime, .exit 7, .resume 0, .freeStack 0,
      .freeStruct 0, .resume 1, .freeStack 1, .freeStruct 1]
    (admits_always _ _) (by decide)

end NusaKernel.Join
