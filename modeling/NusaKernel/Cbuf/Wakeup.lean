import NusaKernel.Cbuf.Queue

/-!
# Readers that wait for a circular byte buffer

`lib/cbuf/cbuf.c` under every interleaving of writers, resets, readers that do not block and
readers that do. A section under the spinlock of the buffer is one step, and so is `event_wait`,
which a blocking reader calls before it takes the lock. `signaled_iff_nonempty` says that the event
is signaled exactly when there is something to read, whichever function was the last.
-/

namespace NusaKernel.Cbuf

open Function Transition

/-- A call that blocks: `cbuf_read` or `cbuf_read_char`. -/
inductive BlockingRead where
  | read (copy : Bool) (buflen : ℕ)
  | readChar

/-- Where a thread stands in a blocking read: at the label `retry`, in front of `event_wait` or
in it, or in front of the section under the spinlock. -/
inductive Point where
  | idle
  | waits (call : BlockingRead)
  | locks (call : BlockingRead)

/-- The buffer and its readers. -/
structure System (Tid : Type*) where
  cbuf : State Tid
  point : Tid → Point

/-- What a thread or an interrupt does next. -/
inductive Action (Tid : Type*) where
  | call (call : Call)
  | start (t : Tid) (call : BlockingRead)
  | wait (t : Tid)
  | resume (t : Tid)
  | lock (t : Tid)

variable {Tid : Type*}

/-- A new buffer. -/
def System.initial (len : ℕ) (buf : ℕ → UInt8) : System Tid :=
  ⟨cbufInitializeEtc len buf, fun _ => .idle⟩

/-- The section under the spinlock. Returns the number of bytes read. -/
def BlockingRead.section (s : State Tid) : BlockingRead → ℕ × State Tid
  | .read copy buflen => ((cbufRead s copy buflen).1, (cbufRead s copy buflen).2.2)
  | .readChar => ((cbufReadChar s).1, (cbufReadChar s).2.2)

variable [DecidableEq Tid]

/-- One step. -/
def System.step (x : System Tid) : Action Tid → Option (System Tid)
  | .call call => some { x with cbuf := (perform x.cbuf call).2 }
  | .start t call =>
    match x.point t with
    | .idle => some { x with point := update x.point t (.waits call) }
    | .waits _ | .locks _ => none
  | .wait t =>
    match x.point t with
    | .waits call =>
      if h : x.cbuf.event.waiters.phase t = .running then
        let (ret, event) := Event.eventWaitTimeout x.cbuf.event t infiniteTime h
        some {
          cbuf := { x.cbuf with event }
          point := if ret.isSome then update x.point t (.locks call) else x.point }
      else none
    | .idle | .locks _ => none
  | .resume t =>
    match x.point t with
    | .waits call =>
      match h : x.cbuf.event.waiters.phase t with
      | .woken wait ret =>
        let event := { x.cbuf.event with
          waiters := x.cbuf.event.waiters.resume t wait ret h }
        some {
          cbuf := { x.cbuf with event }
          point := update x.point t (.locks call) }
      | .running | .blocked _ _ _ => none
    | .idle | .locks _ => none
  | .lock t =>
    match x.point t with
    | .locks call =>
      let (ret, cbuf) := call.section x.cbuf
      -- we raced with another thread and found no data, retry
      some ⟨cbuf, update x.point t (if ret = 0 then .waits call else .idle)⟩
    | .idle | .waits _ => none

/-- The states every interleaving can reach from a new buffer. -/
def System.Reachable : System Tid → Prop :=
  Transition.Reachable System.step Always (∃ len buf, · = System.initial len buf)

/-! ## The event -/

/-- The event is signaled exactly when a condition holds, and then nobody waits for it. -/
structure EventInv (event : Event.State Tid) (ready : Prop) : Prop where
  flags_eq : event.flags = 0#32
  signaled_iff : event.signaled = true ↔ ready
  list_eq : event.signaled = true → event.waiters.list () = []

variable {event : Event.State Tid} {ready ready' : Prop}

section

variable (hinv : EventInv event ready)
include hinv

omit [DecidableEq Tid] in
theorem EventInv.congr (h : ready ↔ ready') : EventInv event ready' :=
  ⟨hinv.flags_eq, hinv.signaled_iff.trans h, hinv.list_eq⟩

theorem EventInv.signal (hready : ready') : EventInv (Event.eventSignal event).2 ready' := by
  have hauto : Event.autounsignal event.flags = false := by
    rw [hinv.flags_eq]
    rfl
  cases hsignaled : event.signaled with
  | true =>
    have heq : (Event.eventSignal event).2 = event := by simp [Event.eventSignal, hsignaled]
    rw [heq]
    exact ⟨hinv.flags_eq, by simp [hsignaled, hready], hinv.list_eq⟩
  | false =>
    have heq : (Event.eventSignal event).2 = { event with
        waiters := (event.waiters.waitQueueWakeAll () noError).2, signaled := true } := by
      simp [Event.eventSignal, hsignaled, hauto]
    rw [heq]
    exact ⟨hinv.flags_eq, by simp [hready], fun _ => event.waiters.list_wake_all () noError⟩

omit [DecidableEq Tid] in
theorem EventInv.unsignal (hready : ¬ ready') : EventInv (Event.eventUnsignal event).2 ready' := by
  refine ⟨hinv.flags_eq, ?_, nofun⟩
  show false = true ↔ ready'
  simp [hready]

/-- A wait falls through or blocks. It changes only the queue, and that only if the event is not
signaled. -/
theorem EventInv.wait {t : Tid} {timeout : Time} (h : event.waiters.phase t = .running) :
    EventInv (Event.eventWaitTimeout event t timeout h).2 ready := by
  have hauto : Event.autounsignal event.flags = false := by
    rw [hinv.flags_eq]
    rfl
  cases hsignaled : event.signaled with
  | true =>
    have heq : (Event.eventWaitTimeout event t timeout h).2 = event := by
      simp [Event.eventWaitTimeout, hsignaled, hauto]
    rw [heq]
    exact hinv
  | false =>
    have hnot : ¬ ready := by
      rw [← hinv.signaled_iff, hsignaled]
      decide
    simp only [Event.eventWaitTimeout, hsignaled, Bool.false_eq_true, if_false]
    split
    · exact hinv
    · exact ⟨hinv.flags_eq, by simp [hnot], fun h => absurd h Bool.false_ne_true⟩

theorem EventInv.resume {t : Tid} {call : Unit} {ret : Status}
    (h : event.waiters.phase t = .woken call ret) :
    EventInv { event with waiters := event.waiters.resume t call ret h } ready :=
  { hinv with }

end

/-! ## The buffer -/

/-- The event of a buffer is signaled exactly when the buffer is not empty. -/
def CbufInv (s : State Tid) : Prop := EventInv s.event (queue s ≠ [])

variable {s : State Tid}

section

variable (hinv : CbufInv s)
include hinv

omit [DecidableEq Tid] in
theorem CbufInv.read (copy : Bool) (buflen : ℕ) :
    CbufInv (cbufRead s copy buflen).2.2 := by
  obtain ⟨_, _, hqueue, _, hevent⟩ := cbuf_read_spec s copy buflen
  unfold CbufInv
  rw [hevent]
  split
  · next hemptied => exact hinv.unsignal (not_not.mpr hemptied.2)
  · next hkept =>
    refine hinv.congr ⟨fun hne hnil => hkept ⟨hne, hnil⟩, fun hne hnil => hne ?_⟩
    rw [hqueue, hnil, List.drop_nil]

omit [DecidableEq Tid] in
theorem CbufInv.read_char : CbufInv (cbufReadChar s).2.2 := by
  rcases cbuf_read_char_spec s with ⟨_, hread⟩ | ⟨c, hqueue, _, _, _, hevent⟩
  · rw [hread]
    exact hinv
  unfold CbufInv
  rw [hevent]
  split
  · next hemptied => exact hinv.unsignal (not_not.mpr hemptied)
  · next hkept => exact hinv.congr ⟨fun _ => hkept, fun _ => by rw [hqueue]; nofun⟩

theorem CbufInv.write (buf : Option (ℕ → UInt8)) (len : ℕ) :
    CbufInv (cbufWrite s buf len).2 := by
  obtain ⟨_, hqueue, _, hevent⟩ := cbuf_write_spec s buf len
  unfold CbufInv
  rw [hevent]
  split
  · next hnil =>
    -- nothing was there and nothing was written
    have hbefore : queue s = [] := by
      rw [hqueue] at hnil
      exact (List.append_eq_nil_iff.mp hnil).1
    refine hinv.congr ?_
    rw [hbefore, hnil]
  · next hne => exact hinv.signal hne

theorem CbufInv.write_char (c : UInt8) : CbufInv (cbufWriteChar s c).2 := by
  rcases cbuf_write_char_spec s c with ⟨_, hwrite⟩ | ⟨_, _, hqueue, _, hevent⟩
  · rw [hwrite]
    exact hinv
  unfold CbufInv
  rw [hevent]
  refine hinv.signal ?_
  rw [hqueue]
  exact List.append_ne_nil_of_right_ne_nil _ (List.cons_ne_nil c [])

theorem CbufInv.perform (call : Call) : CbufInv (perform s call).2 := by
  cases call with
  | write buf len => exact hinv.write buf len
  | read copy buflen => exact hinv.read copy buflen
  | writeChar c => exact hinv.write_char c
  | readChar => exact hinv.read_char
  | peek => exact hinv
  | reset => exact hinv.read false (cbufSize s)

end

/-! ## Runs -/

theorem CbufInv.step {x x' : System Tid} {action : Action Tid} (hinv : CbufInv x.cbuf)
    (hstep : x.step action = some x') : CbufInv x'.cbuf := by
  cases action with
  | call call =>
    cases hstep
    exact hinv.perform call
  | start t call =>
    simp only [System.step] at hstep
    split at hstep
    · cases hstep
      exact hinv
    · cases hstep
    · cases hstep
  | wait t =>
    simp only [System.step] at hstep
    split at hstep
    · obtain ⟨h, hstep⟩ := Option.dite_none_right_eq_some.mp hstep
      cases hstep
      exact .wait hinv h
    · cases hstep
    · cases hstep
  | resume t =>
    simp only [System.step] at hstep
    split at hstep
    · split at hstep
      · next h =>
        cases hstep
        exact .resume hinv h
      · cases hstep
      · cases hstep
    · cases hstep
    · cases hstep
  | lock t =>
    simp only [System.step] at hstep
    split at hstep
    · next call _ =>
      cases hstep
      cases call with
      | read copy buflen => exact hinv.read copy buflen
      | readChar => exact hinv.read_char
    · cases hstep
    · cases hstep

omit [DecidableEq Tid] in
theorem CbufInv.initial (len : ℕ) (buf : ℕ → UInt8) :
    CbufInv (cbufInitializeEtc len buf : State Tid) := by
  have hempty : queue (cbufInitializeEtc len buf : State Tid) = [] := (queue_eq_nil_iff _).mpr rfl
  refine ⟨rfl, ?_, fun _ => rfl⟩
  show false = true ↔ _
  simp [hempty]

/-- In every reachable state the event is signaled exactly when there is something to read, and a
reader is blocked only while there is not. -/
theorem signaled_iff_nonempty {x : System Tid} (hx : x.Reachable) :
    (x.cbuf.event.signaled = true ↔ queue x.cbuf ≠ []) ∧
      ∀ t call timed, x.cbuf.event.waiters.phase t = .blocked () call timed →
        queue x.cbuf = [] := by
  have hinv : CbufInv x.cbuf := by
    refine hx.invariant (P := fun x => CbufInv x.cbuf) ?_ fun hinv _ => hinv.step
    rintro x ⟨len, buf, rfl⟩
    exact .initial len buf
  refine ⟨hinv.signaled_iff, fun t call timed hblocked => ?_⟩
  by_contra hne
  have hlist := hinv.list_eq (hinv.signaled_iff.mpr hne)
  have hmem : t ∈ x.cbuf.event.waiters.list () :=
    x.cbuf.event.waiters.mem_list_iff.mpr ⟨call, timed, hblocked⟩
  rw [hlist] at hmem
  cases hmem

/-- A thread reads a byte that was written before it waited, and blocks in its next read. -/
theorem signaled_iff_nonempty_blocked :
    ∃ x : System Unit, (x.Reachable ∧
      x.cbuf.event.waiters.phase () = .blocked () () false) ∧ queue x.cbuf = [] := by
  have hinit : (System.initial 8 fun _ => 0 : System Unit).Reachable := .init ⟨8, _, rfl⟩
  have hrun : ∃ x ∈ Transition.run System.step (System.initial 8 fun _ => 0)
      [.call (.writeChar 7), .start () .readChar, .wait (), .lock (), .start () .readChar,
        .wait ()],
      x.cbuf.event.waiters.phase () = .blocked () () false := by
    decide
  obtain ⟨x, hreach, hblocked⟩ := hinit.exists_run (admits_always _ _) hrun
  exact ⟨x, ⟨hreach, hblocked⟩, (signaled_iff_nonempty hreach).2 () () false hblocked⟩

end NusaKernel.Cbuf
