import NusaKernel.Kernel.PortGroup
import Mathlib.Algebra.BigOperators.Group.Finset.Piecewise

/-!
# Wakeups on ports

`port_write` wakes one thread for each read port it stores into, however many packets it stores.
The threads on the queue of a port or a group are looked after as long as there are no more
packets for them than threads that were woken and have not run yet; `WakeInv` says so for every
queue that is not empty. `no_lost_wakeup` derives that nobody is left behind, for runs in which no
write brings several packets to a queue of several threads, and a port in a group is read through
the group only.

Without these conditions a thread can be left blocked beside a packet: `lost_wakeup`.
-/

namespace NusaKernel.Port

open Tally List Function Option Transition

universe u

variable {Pid Tid Packet : Type u}

/-! ## What is to be excluded -/

variable (s : State Pid Tid Packet)

/-- A thread is blocked in `port_read` on a read port or on its group, the port has a packet, and
no thread that was woken for the port or its group is still to run. -/
def Stranded : Prop :=
  ∃ t q call timed r rp, s.waiters.phase t = .blocked q call timed ∧
    (q = r ∨ gport s r = some q) ∧ readPort? s r = some rp ∧ unread rp.buf ≠ [] ∧
    ∀ u call, call.port = r ∨ gport s r = some call.port → s.waiters.phase u ≠ .woken call noError

/-- The queue that a write to a read port wakes from. -/
def target (r : Pid) : Pid := (gport s r).getD r

section Guard

variable [DecidableEq Pid]

/-- A write brings several packets only to queues with at most one thread; a read port in a group
is read through the group only; and the other calls are made while no thread is in `port_read`,
and keep the groups in order. -/
def KeepsPace (s : State Pid Tid Packet) : Action Pid Tid Packet → Prop
  | .write w packets => ∀ wp ∈ writePort? s w, ∀ r ∈ wp.rpList,
      packets.length ≤ 1 ∨ (s.waiters.list (target s r)).length ≤ 1
  | .read _ p _ => gport s p = none
  | .resume _ | .timeout _ => True
  | action => KeepsGroups s action ∧ ∀ t, s.waiters.phase t = .running

/-- `KeepsPace` can be checked along a run. -/
instance [Fintype Pid] [Fintype Tid] (s : State Pid Tid Packet) :
    ∀ action, Decidable (KeepsPace s action)
  | .write w packets => inferInstanceAs (Decidable (∀ wp ∈ writePort? s w, ∀ r ∈ wp.rpList,
      packets.length ≤ 1 ∨ (s.waiters.list (target s r)).length ≤ 1))
  | .read _ p _ => inferInstanceAs (Decidable (gport s p = none))
  | .resume _ | .timeout _ => isTrue trivial
  | .create _ _ _ _ | .open _ _ _ _ | .group _ _ _ | .groupAdd _ _ | .groupRemove _ _
  | .destroy _ | .close _ =>
    inferInstanceAs (Decidable (KeepsGroups s _ ∧ ∀ t, s.waiters.phase t = .running))

end Guard

/-! ## Counting -/

/-- The number of packets in the buffer of a read port. -/
def stored (r : Pid) : ℕ :=
  (readPort? s r).elim 0 fun rp => (unread rp.buf).length

/-- The thread was woken by a write for this port or group and has not run since. -/
def WokenFor (q : Pid) : Phase Pid (ReadCall Pid) → Prop
  | .woken call ret => call.port = q ∧ ret = noError
  | .running | .blocked _ _ _ => False

/-- By the cases of a phase. -/
instance [DecidableEq Pid] (q : Pid) : DecidablePred (WokenFor q)
  | .woken call ret => inferInstanceAs (Decidable (call.port = q ∧ ret = noError))
  | .running | .blocked _ _ _ => isFalse id

/-- A thread blocks on the queue of the port or group that it reads, which is not a port in a
group. -/
def InOrder : Phase Pid (ReadCall Pid) → Prop
  | .running => True
  | .blocked q call _ => call.port = q ∧ gport s q = none
  | .woken call _ => gport s call.port = none

variable {s s' : State Pid Tid Packet} {lists : Pid → List Pid} {r p q : Pid}
  {rp : ReadPort Pid Packet}

theorem in_order_congr (h : gport s' = gport s) : InOrder s' = InOrder s := by
  funext phase
  unfold InOrder
  rw [h]

theorem stored_eq (h : readPort? s r = some rp) : stored s r = (unread rp.buf).length := by
  rw [stored, h]
  rfl

theorem gport_of_read (h : readPort? s r = some rp) : gport s r = rp.gport := by
  rw [gport, h]
  rfl

/-- A read port is read from its own queue unless it is in a group. -/
theorem target_cases (hgroups : GroupInv s lists) (hr : readPort? s r = some rp) :
    (rp.gport = none ∧ target s r = r ∧ role s r = .member none ∧ ∀ g, r ∉ lists g) ∨
    (rp.gport = some (target s r) ∧ role s r = .member (some (target s r)) ∧
      role s (target s r) = .group ∧ ∀ g, r ∈ lists g ↔ g = target s r) := by
  have hrole := role_of_read hr
  have hmem (g : Pid) : r ∈ lists g ↔ rp.gport = some g := by
    rw [hgroups.placed.mem_iff, hrole]
    rfl
  have hgport := gport_of_read hr
  cases hcases : rp.gport with
  | none =>
    left
    rw [hcases] at hrole hmem hgport
    refine ⟨rfl, ?_, hrole, fun g hg => ?_⟩
    · rw [target, hgport]
      rfl
    · cases (hmem g).mp hg
  | some g =>
    right
    rw [hcases] at hrole hmem hgport
    have htarget : target s r = g := by
      rw [target, hgport]
      rfl
    rw [htarget]
    refine ⟨rfl, hrole, hgroups.group r g hrole, fun g' => ?_⟩
    rw [hmem, some_inj, eq_comm]

theorem role_target (hgroups : GroupInv s lists) (hr : readPort? s r = some rp) :
    role s (target s r) = .group ∨ role s (target s r) = .member none := by
  rcases target_cases hgroups hr with ⟨_, heq, hnone, _⟩ | ⟨_, _, hgroup, _⟩
  · right
    rw [heq, hnone]
  · exact .inl hgroup

variable [DecidableEq Pid] {timed : Bool}

/-- The packets that are there for the threads on a queue: those of the members of a group, or
those of a read port that is in no group. -/
def load (s : State Pid Tid Packet) (lists : Pid → List Pid) (q : Pid) : ℕ :=
  match role s q with
  | .group => ∑ r ∈ (lists q).toFinset, stored s r
  | .member none => stored s q
  | .member (some _) | .other => 0

/-- The read ports whose packets are there for the threads on a queue. -/
def feeders (s : State Pid Tid Packet) (lists : Pid → List Pid) (q : Pid) : Finset Pid :=
  match role s q with
  | .group => (lists q).toFinset
  | .member none => {q}
  | .member (some _) | .other => ∅

theorem load_eq (s : State Pid Tid Packet) (lists : Pid → List Pid) (q : Pid) :
    load s lists q = ∑ r ∈ feeders s lists q, stored s r := by
  unfold load feeders
  split
  · rfl
  · rw [Finset.sum_singleton]
  · rfl
  · rfl

/-- The number of threads woken for a port or group. -/
def wokenFor [Fintype Tid] (x : Waiters Pid Tid (ReadCall Pid)) (q : Pid) : ℕ :=
  tally (WokenFor q) x.phase

/-- Where threads wait, there are no more packets than threads that were woken for them, up to
some that are accounted for elsewhere in the middle of a call. -/
structure WakeInv [Fintype Tid] (s : State Pid Tid Packet) (lists : Pid → List Pid)
    (excess : Pid → ℕ) : Prop where
  groups : GroupInv s lists
  bufs : BufsInv s
  calls : s.waiters.All (InOrder s)
  covered : ∀ q, s.waiters.list q ≠ [] → load s lists q ≤ wokenFor s.waiters q + excess q

section Counting

variable [DecidableEq Tid] [Fintype Tid] (x : Waiters Pid Tid (ReadCall Pid)) {t : Tid} {w q : Pid}
  {call : ReadCall Pid} {timed : Bool} {ret : Status}

theorem woken_for_wake (h : x.phase t = .blocked w call timed) :
    wokenFor (x.wake t ret) q = wokenFor x q + if WokenFor q (.woken call ret) then 1 else 0 := by
  have hnot : ¬ WokenFor q (x.phase t) := by
    rw [h]
    exact id
  have hupdate := tally_update (WokenFor q) x.phase t (.woken call ret)
  rw [if_neg hnot] at hupdate
  rw [wokenFor, x.phase_wake h]
  exact hupdate

theorem woken_for_block (h : x.phase t = .running) :
    wokenFor (x.block w t call timed h) q = wokenFor x q := by
  have hnot : ¬ WokenFor q (x.phase t) := by
    rw [h]
    exact id
  have hupdate := tally_update (WokenFor q) x.phase t (.blocked w call timed)
  rw [if_neg hnot, if_neg (show ¬ WokenFor q (.blocked w call timed) from id)] at hupdate
  exact hupdate

theorem woken_for_resume (h : x.phase t = .woken call ret) :
    wokenFor (x.resume t call ret h) q + (if WokenFor q (.woken call ret) then 1 else 0) =
      wokenFor x q := by
  have hupdate := tally_update (WokenFor q) x.phase t .running
  simp only [h] at hupdate
  exact hupdate

end Counting

theorem stored_store (s : State Pid Tid Packet) (r : Pid) (rp : ReadPort Pid Packet) :
    stored (store s r (.read rp)) = update (stored s) r (unread rp.buf).length := by
  funext q
  by_cases hq : q = r
  · subst hq
    rw [update_self]
    exact stored_eq (read_port_eq_some.mpr (update_self q _ _))
  · rw [update_of_ne hq, stored, stored, readPort?, readPort?, heap_store, update_of_ne hq]

/-- A read port has its packets for the queue it is read from. -/
theorem mem_feeders (hgroups : GroupInv s lists) (hr : readPort? s r = some rp) :
    r ∈ feeders s lists q ↔ q = target s r := by
  have hcases := target_cases hgroups hr
  have hnobody (h : ¬ (role s q = .group ∨ role s q = .member none)) :
      r ∈ (∅ : Finset Pid) ↔ q = target s r := by
    refine iff_of_false (Finset.notMem_empty r) ?_
    rintro rfl
    exact h (role_target hgroups hr)
  unfold feeders
  split
  · next hq =>
    rw [List.mem_toFinset]
    rcases hcases with ⟨_, heq, hnone, hnot⟩ | ⟨_, _, _, hiff⟩
    · refine iff_of_false (hnot q) ?_
      rintro rfl
      rw [heq, hnone] at hq
      cases hq
    · exact hiff q
  · next hq =>
    rw [Finset.mem_singleton]
    rcases hcases with ⟨_, heq, _, _⟩ | ⟨_, hsome, hgroup, _⟩
    · rw [heq, eq_comm]
    refine iff_of_false ?_ ?_
    · rintro rfl
      rw [hsome] at hq
      cases hq
    · rintro rfl
      rw [hgroup] at hq
      cases hq
  · next hq => exact hnobody (by simp [hq])
  · next hq => exact hnobody (by simp [hq])

/-- A change of the buffer of a read port shows on the queue it is read from. -/
theorem load_store (hgroups : GroupInv s lists) (hr : readPort? s r = some rp) (buf : Buf Packet)
    (q : Pid) :
    load (store s r (.read { rp with buf })) lists q +
        (if q = target s r then (unread rp.buf).length else 0) =
      load s lists q + (if q = target s r then (unread buf).length else 0) := by
  have hrole : role (store s r (.read { rp with buf })) = role s := by
    rw [role_store]
    show update (role s) r (.member rp.gport) = role s
    rw [← role_of_read hr, update_eq_self]
  have hfeeders : feeders (store s r (.read { rp with buf })) lists q = feeders s lists q := by
    rw [feeders, hrole, feeders]
  rw [load_eq, load_eq, hfeeders, stored_store]
  by_cases hq : q = target s r
  · have hmem := (mem_feeders hgroups hr).mpr hq
    have hsplit := Finset.add_sum_erase _ (stored s) hmem
    rw [← Finset.sdiff_singleton_eq_erase, stored_eq hr] at hsplit
    rw [if_pos hq, if_pos hq, Finset.sum_update_of_mem hmem, ← hsplit]
    dsimp only
    omega
  · rw [if_neg hq, if_neg hq, Finset.sum_update_of_notMem
      fun h => hq ((mem_feeders hgroups hr).mp h)]

/-- What is at a write port is no packet of a read port. -/
theorem stored_store_write {w : Pid} {wp wp' : WritePort Pid Packet}
    (hw : writePort? s w = some wp) : stored (store s w (.write wp')) = stored s := by
  have hheap := write_port_eq_some.mp hw
  funext q
  by_cases hq : q = w
  · subst hq
    rw [stored, stored, readPort?, readPort?, heap_store, update_self, hheap]
  · rw [stored, stored, readPort?, readPort?, heap_store, update_of_ne hq]

/-! ## Storing, waking, blocking -/

/-- The excess of one packet at a port or group, which a thread is about to read. -/
def oneAt (p : Pid) (q : Pid) : ℕ := if q = p then 1 else 0

theorem load_eq_zero_or (hload : load s lists p = 0) (q : Pid) :
    load s lists q = 0 ∨ oneAt p q ≤ (0 : Pid → ℕ) q := by
  by_cases hq : q = p
  · rw [hq]
    exact .inl hload
  · right
    rw [oneAt, if_neg hq]
    exact Nat.zero_le _

section Steps

variable [Fintype Tid] {excess excess' : Pid → ℕ} {t : Tid} {rp : ReadPort Pid Packet}
  {packets : List Packet} {result : Outcome Packet × State Pid Tid Packet} {call : ReadCall Pid}
  {buf : Buf Packet} {status : Status}

section

variable (hinv : WakeInv s lists excess)
include hinv

/-- A change of a buffer changes what is to be accounted for on the queue it is read from. -/
theorem WakeInv.store_buf (hr : readPort? s r = some rp) (hbuf : BufInv buf)
    (hexcess : ∀ q, excess q + (if q = target s r then (unread buf).length else 0) ≤
      excess' q + (if q = target s r then (unread rp.buf).length else 0)) :
    WakeInv (store s r (.read { rp with buf })) lists excess' := by
  have hsame : SameGroups s (store s r (.read { rp with buf })) :=
    .store r _ (role_of_read hr).symm
  refine ⟨hinv.groups.of_same_groups hsame, ?_, ?_, fun q hq => ?_⟩
  · refine hinv.bufs.store fun buf' heq => ?_
    cases heq
    exact hbuf
  · rw [in_order_congr hsame.gport_eq]
    exact hinv.calls
  have hload := load_store hinv.groups hr buf q
  have hcovered := hinv.covered q hq
  have hle := hexcess q
  show _ ≤ wokenFor s.waiters q + excess' q
  omega

/-- A change of the threads that wait. -/
theorem WakeInv.of_waiters {waiters : Waiters Pid Tid (ReadCall Pid)}
    (hcalls : waiters.All (InOrder s))
    (hcovered : ∀ q, waiters.list q ≠ [] → load s lists q ≤ wokenFor waiters q + excess' q) :
    WakeInv { s with waiters } lists excess' :=
  ⟨hinv.groups.of_same_groups ⟨rfl, fun _ => rfl⟩, hinv.bufs, hcalls, hcovered⟩

/-- Nobody waits on a port that is in a group. -/
theorem WakeInv.list_eq_nil (h : gport s r ≠ none) : s.waiters.list r = [] := by
  refine eq_nil_iff_forall_not_mem.mpr fun t ht => ?_
  obtain ⟨call, timed, hphase⟩ := s.waiters.mem_list_iff.mp ht
  exact h (hinv.calls.apply hphase).2

/-- Less is left to account for, or nothing where there are no packets. -/
theorem WakeInv.settle (h : ∀ q, load s lists q = 0 ∨ excess q ≤ excess' q) :
    WakeInv s lists excess' := by
  refine { hinv with covered := fun q hq => ?_ }
  have hcovered := hinv.covered q hq
  rcases h q with hload | hle
  · rw [hload]
    exact Nat.zero_le _
  · omega

theorem WakeInv.unread_eq_nil (hr : readPort? s r = some rp)
    (hread : bufRead rp.buf = .error status) : unread rp.buf = [] :=
  (hinv.bufs.read hr).of_read_error hread

/-- The search of a group finds a packet at a member, or none at any. -/
theorem WakeInv.read_members (ports : List Pid)
    {found : Option ((ℕ × Option Packet) × State Pid Tid Packet)}
    (hread : readMembers s ports = some found) :
    (found = none ∧ ∀ r ∈ ports, stored s r = 0) ∨
    ∃ r ∈ ports, ∃ rp packet buf, readPort? s r = some rp ∧ bufRead rp.buf = .ok (packet, buf) ∧
      found = some ((rp.ctx, packet), store s r (.read { rp with buf })) := by
  induction ports with
  | nil =>
    cases hread
    exact .inl ⟨rfl, nofun⟩
  | cons r rest ih =>
    obtain ⟨rp, hrp, hread⟩ := bind_eq_some_iff.mp hread
    cases hbuf : bufRead rp.buf with
    | ok result =>
      right
      rw [hbuf] at hread
      cases hread
      exact ⟨r, mem_cons_self, rp, result.1, result.2, hrp, hbuf, rfl⟩
    | error status =>
      rw [hbuf] at hread
      rcases ih hread with ⟨hnone, hrest⟩ | ⟨q, hq, hfound⟩
      · refine .inl ⟨hnone, forall_mem_cons.mpr ⟨?_, hrest⟩⟩
        rw [stored_eq hrp, hinv.unread_eq_nil hrp hbuf]
        rfl
      · exact .inr ⟨q, mem_cons_of_mem r hq, hfound⟩

end

/-- A packet is read from a port. -/
theorem WakeInv.take (hinv : WakeInv s lists (oneAt p)) (hr : readPort? s r = some rp)
    (htarget : target s r = p) {packet : Option Packet}
    (hread : bufRead rp.buf = .ok (packet, buf)) :
    WakeInv (store s r (.read { rp with buf })) lists 0 := by
  obtain ⟨hbuf, hunread⟩ := (hinv.bufs.read hr).of_buf_read hread
  refine hinv.store_buf hr hbuf fun q => ?_
  rw [htarget, hunread, length_cons, oneAt]
  split <;> omega

/-- Nothing is to be accounted for while no thread is in a read. -/
theorem WakeInv.of_settled (hgroups : GroupInv s lists) (h : Settled s) : WakeInv s lists 0 := by
  refine ⟨hgroups, h.bufs, fun t => ?_, fun q hq => ?_⟩
  · rw [h.quiet t]
    trivial
  · exact absurd (h.quiet.list_eq_nil q) hq

/-- A call that keeps the groups in order and is made while no thread is in a read. -/
theorem WakeInv.of_keeps (hinv : WakeInv s lists 0) (hquiet : ∀ t, s.waiters.phase t = .running)
    (h : Keeps s s') : ∃ lists', WakeInv s' lists' 0 := by
  obtain ⟨lists', hgroups⟩ := h.groups
  exact ⟨lists', WakeInv.of_settled hgroups (h.settled ⟨hinv.bufs, hquiet⟩)⟩

/-- A packet of a port counts on the queue that it is read from, if that is not a port in a
group. -/
theorem WakeInv.load_pos (hinv : WakeInv s lists 0) {rp : ReadPort Pid Packet}
    (hr : readPort? s r = some rp) (hunread : unread rp.buf ≠ [])
    (hq : q = r ∨ gport s r = some q) (hgport : gport s q = none) : 0 < load s lists q := by
  have htarget : q = target s r := by
    rcases hq with rfl | hq
    · rw [target, hgport]
      rfl
    · rw [target, hq]
      rfl
  have hsplit := Finset.add_sum_erase _ (stored s) ((mem_feeders hinv.groups hr).mpr htarget)
  have hpos := length_pos_of_ne_nil hunread
  rw [stored_eq hr] at hsplit
  rw [load_eq]
  omega

variable [DecidableEq Tid]

section

variable (hinv : WakeInv s lists excess)
include hinv

/-- Waking one thread of a queue makes up for one packet, or leaves nobody on the queue. -/
theorem WakeInv.wake_one (hother : ∀ v, v ≠ q → excess v ≤ excess' v)
    (hself : (s.waiters.list q).length ≤ 1 ∨ excess q ≤ excess' q + 1) :
    WakeInv { s with waiters := (s.waiters.waitQueueWakeOne q noError).2 } lists excess' := by
  refine hinv.of_waiters ?_ fun v hv => ?_
  · refine hinv.calls.wake_one fun w call timed h => ?_
    rw [InOrder, h.1]
    exact h.2
  rcases s.waiters.wake_one_cases q noError with
    ⟨hempty, hone⟩ | ⟨t, call, timed, ⟨rest, hlist⟩, hphase, hone⟩
  · rw [hone] at hv ⊢
    have hne : v ≠ q := by
      rintro rfl
      exact hv hempty
    have hcovered := hinv.covered v hv
    have hle := hother v hne
    show _ ≤ wokenFor s.waiters v + excess' v
    omega
  rw [hone] at hv ⊢
  have hcall : call.port = q := (hinv.calls.apply hphase).1
  have hwoken : wokenFor (s.waiters.wake t noError) v = _ := woken_for_wake s.waiters hphase
  show _ ≤ wokenFor (s.waiters.wake t noError) v + excess' v
  by_cases hvq : v = q
  · subst hvq
    rw [if_pos ⟨hcall, rfl⟩] at hwoken
    have hlength := s.waiters.length_wake hphase noError
    have hpos := length_pos_of_ne_nil hv
    have hcovered := hinv.covered v (by rw [hlist]; exact cons_ne_nil t rest)
    simp only at hpos
    omega
  have hlist' : (s.waiters.wake t noError).list v = s.waiters.list v :=
    s.waiters.list_wake_of_ne hphase hvq
  have hcovered := hinv.covered v (by rw [← hlist']; exact hv)
  have hle := hother v hvq
  omega

/-- A write wakes from the queue that the port is read from. -/
theorem WakeInv.wake_reader_eq (hr : readPort? s r = some rp)
    (hwake : wakeReader s r rp.gport = some s') :
    s' = { s with waiters := (s.waiters.waitQueueWakeOne (target s r) noError).2 } := by
  rcases target_cases hinv.groups hr with ⟨hnone, heq, _, _⟩ | ⟨hsome, _, _, _⟩
  · rw [hnone] at hwake
    cases hwake
    rw [heq]
  have hempty := hinv.list_eq_nil (r := r) (by rw [gport_of_read hr, hsome]; exact nofun)
  rw [hsome, wakeReader, ite_none_left_eq_some] at hwake
  obtain ⟨_, hwake⟩ := hwake
  rcases s.waiters.wake_one_cases (target s r) noError with
    ⟨_, hone⟩ | ⟨t, call, timed, _, _, hone⟩
  · simp only [hone, if_pos, s.waiters.wake_one_of_nil hempty] at hwake
    cases hwake
    rw [hone]
  · simp only [hone, Nat.one_ne_zero, if_false] at hwake
    cases hwake
    rw [hone]

/-- Blocking on a queue for which there is nothing. -/
theorem WakeInv.block (hphase : s.waiters.phase t = .running) (hgport : gport s p = none)
    (hload : load s lists p = 0) (timeout : Time) (timed : Bool) :
    WakeInv { s with waiters := s.waiters.block p t ⟨p, timeout⟩ timed hphase } lists excess := by
  refine hinv.of_waiters (hinv.calls.block hphase ⟨rfl, hgport⟩) fun v hv => ?_
  rw [woken_for_block]
  by_cases hvp : v = p
  · rw [hvp, hload]
    exact Nat.zero_le _
  · rw [s.waiters.list_block_of_ne hphase hvp] at hv
    exact hinv.covered v hv

end

/-! ## Writing -/

/-- One read port of the loop of `port_write`. -/
theorem WakeInv.deliver (hinv : WakeInv s lists 0) (hr : readPort? s r = some rp)
    (hbuf : BufInv buf) (hlength : (unread buf).length = (unread rp.buf).length + packets.length)
    (hguard : packets.length ≤ 1 ∨ (s.waiters.list (target s r)).length ≤ 1)
    (hwake : wakeReader (store s r (.read { rp with buf })) r rp.gport = some s') :
    WakeInv s' lists 0 ∧ gport s' = gport s ∧
      ∀ q, (s'.waiters.list q).length ≤ (s.waiters.list q).length := by
  have hstored : WakeInv (store s r (.read { rp with buf })) lists
      (fun q => if q = target s r then packets.length else 0) := by
    refine hinv.store_buf hr hbuf fun q => ?_
    show 0 + _ ≤ _
    split <;> omega
  have hsame : SameGroups s (store s r (.read { rp with buf })) := .store r _ (role_of_read hr).symm
  have hr' : readPort? (store s r (.read { rp with buf })) r = some { rp with buf } :=
    read_port_eq_some.mpr (update_self r _ _)
  have heq := hstored.wake_reader_eq hr' hwake
  rw [show target (store s r (.read { rp with buf })) r = target s r by
    rw [target, hsame.gport_eq]; rfl] at heq
  subst heq
  refine ⟨hstored.wake_one ?_ ?_, hsame.gport_eq, fun q => ?_⟩
  · intro v hv
    rw [if_neg hv]
    exact Nat.zero_le _
  · rw [if_pos rfl]
    exact hguard.symm
  · exact s.waiters.length_wake_one_le (target s r) q noError

theorem WakeInv.write_readers (readers : List Pid) {result : Status × State Pid Tid Packet}
    (hinv : WakeInv s lists 0)
    (hguard : ∀ r ∈ readers, packets.length ≤ 1 ∨ (s.waiters.list (target s r)).length ≤ 1)
    (hwrite : writeReaders s packets status readers = some result) : WakeInv result.2 lists 0 := by
  induction readers generalizing s status with
  | nil =>
    cases hwrite
    exact hinv
  | cons r rest ih =>
    obtain ⟨rp, hrp, hwrite⟩ := bind_eq_some_iff.mp hwrite
    obtain ⟨hhead, hrest⟩ := forall_mem_cons.mp hguard
    simp only [buf_write_neg_iff] at hwrite
    split at hwrite
    · exact ih hinv hrest hwrite
    next hroom =>
    obtain ⟨s₁, hwake, hwrite⟩ := bind_eq_some_iff.mp hwrite
    obtain ⟨_, hbuf, _, hunread⟩ := (hinv.bufs.read hrp).buf_write (not_lt.mp hroom)
    obtain ⟨hinv₁, hgport, hle⟩ := hinv.deliver hrp hbuf
      (by rw [hunread, length_append, length_map]) hhead hwake
    refine ih hinv₁ (fun q hq => ?_) hwrite
    rw [target, hgport]
    exact (hrest q hq).imp_right (hle _).trans

theorem WakeInv.port_write (hinv : WakeInv s lists 0) {w : Pid}
    {result : Status × State Pid Tid Packet} (hguard : KeepsPace s (.write w packets))
    (hwrite : portWrite s w packets = some result) : WakeInv result.2 lists 0 := by
  unfold portWrite at hwrite
  cases hwp : writePort? s w with
  | none =>
    rw [hwp] at hwrite
    cases hwrite
    exact hinv
  | some wp =>
    simp only [hwp] at hwrite
    split at hwrite
    · cases hwrite
      exact hinv
    cases hbuf : wp.buf with
    | some buf =>
      rw [hbuf] at hwrite
      cases hwrite
      have hsame : SameGroups s
          (store s w (.write { wp with buf := some (bufWrite buf packets).2 })) :=
        .store _ _ (role_of_write hwp).symm
      refine ⟨hinv.groups.of_same_groups hsame, ?_, ?_, fun q hq => ?_⟩
      · refine hinv.bufs.store fun buf' heq => ?_
        cases heq
        exact (hinv.bufs.write hwp hbuf).of_buf_write packets
      · rw [in_order_congr hsame.gport_eq]
        exact hinv.calls
      · have hcovered := hinv.covered q hq
        unfold load at hcovered ⊢
        rw [hsame.role, stored_store_write hwp]
        exact hcovered
    | none =>
      rw [hbuf] at hwrite
      exact hinv.write_readers wp.rpList (hguard wp hwp) hwrite

/-! ## Reading -/

theorem WakeInv.block_reader (hinv : WakeInv s lists (oneAt p))
    (hphase : s.waiters.phase t = .running) (hgport : gport s p = none)
    (hload : load s lists p = 0) (timeout : Time) :
    WakeInv (blockReader s t p timeout hphase).2 lists 0 := by
  have hsettled : WakeInv s lists 0 := hinv.settle (load_eq_zero_or hload)
  unfold blockReader
  cases hblock : s.waiters.waitQueueBlock p t ⟨p, timeout⟩ timeout hphase with
  | error ret => exact hsettled
  | ok waiters =>
    unfold Waiters.waitQueueBlock at hblock
    split at hblock
    · cases hblock
    · cases hblock
      exact hsettled.block hphase hgport hload timeout _

/-- `port_read` uses up the excess of one: it takes a packet, or finds that there is none. -/
theorem WakeInv.port_read (hinv : WakeInv s lists (oneAt p)) (hgport : gport s p = none)
    {timeout : Time} {hphase : s.waiters.phase t = .running}
    (hread : portRead s t p timeout hphase = some result) : WakeInv result.2 lists 0 := by
  unfold portRead at hread
  split at hread
  · next rp hp =>
    have hrp := read_port_eq_some.mpr hp
    have hmember : role s p = .member none := by
      rw [role_of_read hrp, ← gport_of_read hrp, hgport]
    have htarget : target s p = p := by
      rw [target, hgport]
      rfl
    cases hread
    unfold readNoLock
    cases hbuf : bufRead rp.buf with
    | ok found => exact hinv.take hrp htarget hbuf
    | error status =>
      refine hinv.block_reader hphase hgport ?_ timeout
      rw [load, hmember]
      rw [stored_eq hrp, hinv.unread_eq_nil hrp hbuf]
      rfl
  · next hp =>
    have hgroup : role s p = .group := by
      rw [role, hp]
      rfl
    rw [hinv.groups.members_eq hgroup, bind_eq_bind, bind_some,
      bind_eq_bind, bind_eq_some_iff] at hread
    obtain ⟨found, hfound, hread⟩ := hread
    rcases hinv.read_members (lists p) hfound with
      ⟨rfl, hnothing⟩ | ⟨r, hr, rp, packet, buf, hrp, hbuf, rfl⟩
    · cases hread
      refine hinv.block_reader hphase hgport ?_ timeout
      rw [load, hgroup]
      refine Finset.sum_eq_zero fun r hr => ?_
      exact hnothing r (List.mem_toFinset.mp hr)
    cases hread
    have htarget : target s r = p := by
      rcases target_cases hinv.groups hrp with ⟨_, _, _, hnot⟩ | ⟨_, _, _, hiff⟩
      · exact absurd hr (hnot p)
      · exact ((hiff p).mp hr).symm
    exact hinv.take hrp htarget hbuf
  · next hread' hgroup' =>
    cases hread
    refine hinv.settle (load_eq_zero_or ?_)
    have hother : role s p = .other := by
      unfold role
      cases hheap : s.heap p with
      | none => rfl
      | some object =>
        cases object with
        | write wp => rfl
        | read rp => exact absurd hheap (hread' rp)
        | group => exact absurd hheap hgroup'
    rw [load, hother]

theorem WakeInv.resume_read (hinv : WakeInv s lists 0) {ret : Status}
    {hphase : s.waiters.phase t = .woken call ret}
    (hresume : resumeRead s t call ret hphase = some result) : WakeInv result.2 lists 0 := by
  have hgport : gport s call.port = none := hinv.calls.apply hphase
  -- the thread no longer counts as woken for what it reads
  have hresumed : WakeInv { s with waiters := s.waiters.resume t call ret hphase } lists
      (fun q => if WokenFor q (.woken call ret) then 1 else 0) := by
    refine hinv.of_waiters (hinv.calls.resume hphase trivial) fun q hq => ?_
    rw [woken_for_resume s.waiters hphase]
    exact hinv.covered q hq
  simp only [resumeRead] at hresume
  split at hresume
  · next hret =>
    cases hresume
    refine hresumed.settle fun q => .inr ?_
    show (if WokenFor q (.woken call ret) then 1 else 0) ≤ 0
    rw [if_neg fun h => hret h.2]
  rw [ite_none_left_eq_some] at hresume
  refine .port_read (hresumed.settle fun q => .inr ?_) ?_ hresume.2
  · show (if WokenFor q (.woken call ret) then 1 else 0) ≤ if q = call.port then 1 else 0
    split
    · next h => rw [if_pos h.1.symm]
    · exact Nat.zero_le _
  · exact hgport

/-- A thread that stops waiting leaves fewer to be looked after. -/
theorem WakeInv.timeout (hinv : WakeInv s lists 0)
    (hphase : s.waiters.phase t = .blocked q call timed) :
    WakeInv { s with waiters := s.waiters.wake t errTimedOut } lists 0 := by
  refine hinv.of_waiters ?_ fun v hv => ?_
  · refine hinv.calls.wake hphase ?_
    have horder := hinv.calls.apply hphase
    rw [InOrder, horder.1]
    exact horder.2
  rw [woken_for_wake s.waiters hphase, if_neg fun h => absurd h.2 (by decide)]
  refine hinv.covered v fun hnil => hv ?_
  by_cases hvq : v = q
  · subst hvq
    rw [s.waiters.list_wake hphase, hnil]
    rfl
  · rw [s.waiters.list_wake_of_ne hphase hvq, hnil]

end Steps

/-! ## Runs -/

section Runs

variable [DecidableEq Tid] [Fintype Tid] {action : Action Pid Tid Packet}
  {result : Outcome Packet × State Pid Tid Packet}

theorem WakeInv.perform (hinv : WakeInv s lists 0) (hguard : KeepsPace s action)
    (hperform : perform s action = some result) : ∃ lists', WakeInv result.2 lists' 0 := by
  cases action with
  | write w packets =>
    obtain ⟨result, hwrite, rfl⟩ := map_eq_some_iff.mp hperform
    exact ⟨lists, hinv.port_write hguard hwrite⟩
  | read t p timeout =>
    obtain ⟨hphase, hread⟩ := dite_none_right_eq_some.mp hperform
    exact ⟨lists, (hinv.settle fun _ => .inr (Nat.zero_le _)).port_read hguard hread⟩
  | resume t =>
    simp only [Port.perform] at hperform
    split at hperform
    · exact ⟨lists, hinv.resume_read hperform⟩
    · cases hperform
  | timeout t =>
    simp only [Port.perform] at hperform
    split at hperform
    · next q call hphase =>
      cases hperform
      refine ⟨lists, ?_⟩
      simp only [Waiters.threadUnblockFromWaitQueue, hphase]
      exact hinv.timeout hphase
    · cases hperform
  | _ => exact hinv.of_keeps hguard.2 (hinv.groups.configure hguard.1 trivial hperform)

theorem reachable_wake_inv (h : Reachable KeepsPace s) : ∃ lists, WakeInv s lists 0 := by
  refine h.invariant_from (P := fun s => ∃ lists, WakeInv s lists 0)
    ⟨_, WakeInv.of_settled GroupInv.initial ⟨nofun, fun _ => rfl⟩⟩ ?_
  intro s action s' ⟨lists, hinv⟩ hguard hstep
  obtain ⟨outcome, hperform, rfl⟩ := map_eq_some_iff.mp hstep
  exact hinv.perform hguard hperform

/-- In every run that keeps to the guard, a thread that is blocked on a port or group that has a
packet has a thread before it that was woken for the packet and is still to run. -/
theorem no_lost_wakeup (h : Reachable KeepsPace s) : ¬ Stranded s := by
  rintro ⟨t, q, call, timed, r, rp, hphase, hq, hr, hunread, hnobody⟩
  obtain ⟨lists, hinv⟩ := reachable_wake_inv h
  have hpos := hinv.load_pos hr hunread hq (hinv.calls.apply hphase).2
  have hblocked : s.waiters.list q ≠ [] :=
    ne_nil_of_mem (s.waiters.mem_list_iff.mpr ⟨call, timed, hphase⟩)
  have hcovered : load s lists q ≤ wokenFor s.waiters q + 0 := hinv.covered q hblocked
  obtain ⟨u, hwoken⟩ := (tally_pos_iff (WokenFor q) s.waiters.phase).mp
    (show 0 < wokenFor s.waiters q by omega)
  cases huphase : s.waiters.phase u with
  | running | blocked =>
    rw [huphase] at hwoken
    exact hwoken
  | woken call' ret =>
    rw [huphase] at hwoken
    obtain ⟨hport, hret⟩ := hwoken
    subst hret
    refine hnobody u call' ?_ huphase
    rw [hport]
    exact hq

/-- Two threads block on port 1, and a write of one packet wakes the first. -/
theorem no_lost_wakeup_blocked :
    ∃ s : State (Fin 2) (Fin 2) Unit, (Reachable KeepsPace s ∧
      s.waiters.list 1 = [1] ∧ stored s 1 = 1) ∧ ¬ Stranded s := by
  obtain ⟨s, hreach, hlist⟩ := exists_reachable step KeepsPace initial
    (P := fun s : State (Fin 2) (Fin 2) Unit => s.waiters.list 1 = [1] ∧ stored s 1 = 1)
    [.create [112] 0#32 true 0, .open [112] 0 true 1, .read 0 1 infiniteTime,
      .read 1 1 infiniteTime, .write 0 [()]]
    (by decide) (by decide)
  exact ⟨s, ⟨hreach, hlist⟩, no_lost_wakeup hreach⟩

omit [DecidableEq Pid] [DecidableEq Tid] [Fintype Tid] in
/-- One thread is left on the queue of a port that has a packet, and all others run. -/
theorem stranded_of_blocked {t : Tid} {call : ReadCall Pid}
    (hblocked : s.waiters.phase t = .blocked r call timed)
    (hothers : ∀ u, u ≠ t → s.waiters.phase u = .running) (hstored : 0 < stored s r) :
    Stranded s := by
  obtain ⟨rp, hrp⟩ : ∃ rp, readPort? s r = some rp := by
    cases hrp : readPort? s r with
    | none =>
      rw [stored, hrp] at hstored
      cases hstored
    | some rp => exact ⟨rp, rfl⟩
  refine ⟨t, r, call, timed, r, rp, hblocked, .inl rfl, hrp, ?_, fun u call' _ hwoken => ?_⟩
  · rw [stored_eq hrp] at hstored
    exact ne_nil_of_length_pos hstored
  by_cases hu : u = t
  · rw [hu, hblocked] at hwoken
    cases hwoken
  · rw [hothers u hu] at hwoken
    cases hwoken

/-- A write of two packets to port 1 wakes one of two threads, which reads one packet. And a write
to port 2 wakes the thread that reads the group 4 of ports 1 and 2 instead of the thread that reads
port 2; a packet at port 1 comes in between, and it reads that. -/
theorem lost_wakeup :
    (∃ s : State (Fin 2) (Fin 2) Unit, Reachable Always s ∧ Stranded s) ∧
    ∃ s : State (Fin 5) (Fin 2) Unit, Reachable Always s ∧ Stranded s := by
  refine ⟨?_, ?_⟩
  · obtain ⟨s, hreach, hblocked, hothers, hstored⟩ := exists_reachable step Always initial
      (P := fun s : State (Fin 2) (Fin 2) Unit =>
        s.waiters.phase 1 = .blocked 1 ⟨1, infiniteTime⟩ false ∧
        (∀ u, u ≠ 1 → s.waiters.phase u = .running) ∧ 0 < stored s 1)
      [.create [112] 0#32 true 0, .open [112] 0 true 1, .read 0 1 infiniteTime,
        .read 1 1 infiniteTime, .write 0 [(), ()], .resume 0]
      (admits_always _ _) (by decide)
    exact ⟨s, hreach, stranded_of_blocked hblocked hothers hstored⟩
  obtain ⟨s, hreach, hblocked, hothers, hstored⟩ := exists_reachable step Always initial
    (P := fun s : State (Fin 5) (Fin 2) Unit =>
      s.waiters.phase 1 = .blocked 2 ⟨2, infiniteTime⟩ false ∧
      (∀ u, u ≠ 1 → s.waiters.phase u = .running) ∧ 0 < stored s 2)
    [.create [112] 0#32 true 0, .open [112] 0 true 1, .create [113] 0#32 true 3,
      .open [113] 0 true 2, .group [1, 2] true 4, .read 0 4 infiniteTime,
      .read 1 2 infiniteTime, .write 3 [()], .write 0 [()], .resume 0]
    (admits_always _ _) (by decide)
  exact ⟨s, hreach, stranded_of_blocked hblocked hothers hstored⟩

end Runs

end NusaKernel.Port
