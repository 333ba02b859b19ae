import Mathlib.Data.Finset.Card
import NusaKernel.Lib.Transition

/-!
# The life of a TCP socket (`lib/minip/tcp.c`)

One socket from the time it is in the list of sockets, with its reference count, its timers, its
lock and the calls that are in progress on it: calls of the application, `tcp_input` after it has
looked the socket up, and callbacks of timers. A call takes a reference (a callback has the one of
its timer), runs under the lock, releases it and drops the reference; a call that waits for a
connection can time out before that.

`socket_lifetime`: the references are those of the list, of the pending timers and of the calls; the
time-wait timer is pending only in `STATE_TIME_WAIT`; a socket that its owner has closed is not in
the list when it is in `STATE_CLOSED`; and the lock is held by a call in progress. It holds as long
as the application does not use the socket after it has called `tcp_close`, and no reset arrives
after that. `closed_after_close` shows what goes wrong otherwise: the error path of `tcp_close`
returns with the lock held, and `tcp_remote_close` leaves the socket in the list and the time-wait
timer pending.

A section under the lock is one step. What the comparisons of sequence numbers in it give is part of
the step.
-/

namespace NusaKernel.TcpLifetime

open Finset List Option

/-- `tcp_state_t`. -/
inductive TcpState where
  | closed | listen | synSent | synRcvd | established | closeWait | lastAck | closing | finWait1
  | finWait2 | timeWait
deriving DecidableEq

inductive Timer where
  | retransmit
  | ackDelay
  | timeWait
deriving DecidableEq

/-- The flags of a packet that are looked at, and whether it has data. -/
structure Packet where
  rst : Bool
  syn : Bool
  ack : Bool
  fin : Bool
  data : Bool
deriving DecidableEq

/-- A function that is called on the socket. -/
inductive Op where
  | close
  | read
  | write
  | accept
  | input (p : Packet)
  | timeout (t : Timer)
deriving DecidableEq

/-- A call has its reference; it holds the lock; it has done what it does under the lock. -/
inductive Phase where
  | entered
  | holding
  | finished
deriving DecidableEq

structure Call where
  op : Op
  phase : Phase
deriving DecidableEq

/-- The socket, the calls on it, and whether its owner has called `tcp_close` and was told that the
socket is closed. -/
structure Socket where
  state : TcpState
  ref : ℤ
  inList : Bool
  pending : Finset Timer
  locked : Bool
  calls : List Call
  closeCalled : Bool
  ownerClosed : Bool

/-- What the comparisons of numbers in a section give: the packet acknowledges our `SYN`;
its acknowledgement is in the window, and is one of all that was sent; its data is to be
acknowledged at once; its `FIN` is in order; there is something to send. -/
structure Seen where
  synAcked : Bool
  ackInWindow : Bool
  ackedAll : Bool
  ackNow : Bool
  finInOrder : Bool
  sends : Bool

/-! ## Sections under the lock -/

/-- `tcp_timer_set`. -/
def tcpTimerSet (t : Timer) (s : Socket) : Socket :=
  if t ∈ s.pending then s else { s with pending := insert t s.pending, ref := s.ref + 1 }

/-- `tcp_timer_cancel`. -/
def tcpTimerCancel (t : Timer) (s : Socket) : Socket :=
  if t ∈ s.pending then { s with pending := s.pending.erase t, ref := s.ref - 1 } else s

/-- `tcp_socket_send` with `PKT_ACK`. -/
def tcpSocketSend (s : Socket) : Socket := tcpTimerCancel .ackDelay s

/-- `send_ack`. -/
def sendAck (s : Socket) : Socket :=
  if s.state = .established ∨ s.state = .closeWait ∨ s.state = .finWait2 then tcpSocketSend s else s

variable (seen : Seen)

variable (s : Socket)

/-- `handle_ack`. -/
def handleAck : Socket :=
  if seen.ackInWindow then
    if seen.ackedAll then tcpTimerCancel .retransmit s else tcpTimerSet .retransmit s
  else s

/-- `handle_data`. -/
def handleData : Socket :=
  if seen.ackNow then sendAck s else tcpTimerSet .ackDelay s

/-- `remove_socket_from_list` and `dec_socket_ref`. -/
def dropFromList : Socket := { s with inList := false, ref := s.ref - 1 }

/-- `tcp_remote_close`. -/
def tcpRemoteClose : Socket :=
  if s.state = .closed then s
  else tcpTimerCancel .ackDelay (tcpTimerCancel .retransmit { s with state := .closed })

/-- The label `fin_wait_2` in `tcp_input`. -/
def finWait2 (p : Packet) (s : Socket) : Socket :=
  if p.fin then tcpTimerSet .timeWait { sendAck s with state := .timeWait } else s

/-- `tcp_input`, under the lock. In `STATE_LISTEN` it makes another socket. -/
def tcpInput (p : Packet) (seen : Seen) (s : Socket) : Socket :=
  if p.rst then if s.state ≠ .closed ∧ s.state ≠ .listen then tcpRemoteClose s else s
  else
    match s.state with
    | .closed | .listen | .timeWait => s
    | .synRcvd =>
      if p.syn then s
      else if p.ack ∧ seen.synAcked then { s with state := .established } else s
    | .synSent =>
      if p.syn ∧ p.ack ∧ seen.synAcked then sendAck { s with state := .established } else s
    | .established =>
      let s := if p.ack then handleAck seen s else s
      let s := if p.data then handleData seen s else s
      if p.fin ∧ seen.finInOrder then { sendAck s with state := .closeWait } else s
    | .closeWait =>
      let s := if p.ack then handleAck seen s else s
      if p.fin then sendAck s else s
    | .lastAck => if p.ack then dropFromList (tcpRemoteClose s) else s
    | .finWait1 =>
      if p.ack then finWait2 p { s with state := .finWait2 }
      else if p.fin then { sendAck s with state := .closing } else s
    | .finWait2 => finWait2 p s
    | .closing => if p.ack then tcpTimerSet .timeWait { s with state := .timeWait } else s

/-- `handle_retransmit_timeout`, `handle_delayed_ack_timeout` and `handle_time_wait_timeout`. -/
def timeout (t : Timer) (seen : Seen) (s : Socket) : Socket :=
  match t with
  | .retransmit =>
    if (s.state = .established ∨ s.state = .closeWait) ∧ seen.sends then
      tcpTimerSet .retransmit (tcpSocketSend s)
    else s
  | .ackDelay => sendAck s
  | .timeWait => dropFromList s

/-- A round of `tcp_write`: `tcp_write_pending_data`, if there is something to send. -/
def tcpWrite : Socket :=
  if (s.state = .established ∨ s.state = .closeWait) ∧ seen.sends then
    tcpTimerSet .retransmit (tcpSocketSend s)
  else s

/-- `tcp_close`, and whether it returns by way of `mutex_release`. -/
def tcpClose : Socket × Bool :=
  match s.state with
  | .closed | .listen =>
    ({ tcpTimerCancel .retransmit (tcpTimerCancel .ackDelay (dropFromList s)) with
      state := .closed, ownerClosed := true }, true)
  | .synRcvd | .established =>
    (tcpSocketSend { s with state := .finWait1, ownerClosed := true }, true)
  | .closeWait => (tcpSocketSend { s with state := .lastAck, ownerClosed := true }, true)
  | .synSent | .finWait1 | .finWait2 | .closing | .timeWait | .lastAck => (s, false)

/-- What a call does under the lock, and whether it releases it. -/
def underLock (op : Op) (seen : Seen) (s : Socket) : Socket × Bool :=
  match op with
  | .close => tcpClose s
  | .read => (if seen.sends then sendAck s else s, true)
  | .write => (tcpWrite seen s, true)
  | .accept => (s, true)
  | .input p => (tcpInput p seen s, true)
  | .timeout t => (timeout t seen s, true)

/-! ## Steps -/

inductive Action where
  | enter (op : Op)
  | fire (t : Timer)
  | run (op : Op) (seen : Seen)
  | release (op : Op)
  | again (op : Op)
  | leave (op : Op)
  | acceptTimeout

/-- The calls when one of them goes on to another phase. -/
def Socket.advance (op : Op) (old new : Phase) : List Call :=
  ⟨op, new⟩ :: s.calls.erase ⟨op, old⟩

def Socket.step : Action → Option Socket
  | .enter op =>
    match op with
    | .timeout _ => none
    | .input _ =>
      -- `lookup_socket`
      if s.inList ∧ s.state ≠ .closed then
        some { s with ref := s.ref + 1, calls := ⟨op, .entered⟩ :: s.calls }
      else none
    | _ =>
      some { s with
        ref := s.ref + 1
        calls := ⟨op, .entered⟩ :: s.calls
        closeCalled := s.closeCalled || decide (op = .close) }
  | .fire t =>
    if t ∈ s.pending then
      some { s with pending := s.pending.erase t, calls := ⟨.timeout t, .entered⟩ :: s.calls }
    else none
  | .run op seen =>
    if ⟨op, .entered⟩ ∈ s.calls ∧ ¬ s.locked then
      let r := underLock op seen s
      some { r.1 with
        locked := true
        calls := s.advance op .entered (if r.2 then .holding else .finished) }
    else none
  | .release op =>
    if ⟨op, .holding⟩ ∈ s.calls then
      some { s with locked := false, calls := s.advance op .holding .finished }
    else none
  | .again op =>
    if (op = .read ∨ op = .write) ∧ ⟨op, .finished⟩ ∈ s.calls then
      some { s with calls := s.advance op .finished .entered }
    else none
  | .leave op =>
    if ⟨op, .finished⟩ ∈ s.calls then
      some { s with ref := s.ref - 1, calls := s.calls.erase ⟨op, .finished⟩ }
    else none
  | .acceptTimeout =>
    -- `tcp_accept_timeout` returns `ERR_TIMED_OUT` without taking the lock
    if ⟨.accept, .entered⟩ ∈ s.calls then
      some { s with ref := s.ref - 1, calls := s.calls.erase ⟨.accept, .entered⟩ }
    else none

/-- A socket that was put into the list by `tcp_connect`, `tcp_open_listen` or `tcp_input`. -/
def Created : Prop :=
  ∃ state, (state = .synSent ∨ state = .listen ∨ state = .synRcvd) ∧
    s = ⟨state, 1, true, ∅, false, [], false, false⟩

/-- The states after `tcp_close`, before the socket is closed. -/
def TcpState.Late (state : TcpState) : Prop :=
  state = .lastAck ∨ state = .closing ∨ state = .finWait1 ∨ state = .finWait2 ∨ state = .timeWait
deriving Decidable

/-- The application has the socket only when it is connected, and does not use it any more when it
has called `tcp_close`. No reset arrives when the socket is being closed. -/
def Proper : Action → Prop
  | .enter (.input _) => True
  | .enter _ => s.state ≠ .synSent ∧ s.closeCalled = false
  | .run (.input p) _ => p.rst = true → ¬ s.state.Late
  | _ => True

/-- `Proper` can be checked along a run. -/
instance (s : Socket) (action : Action) : Decidable (Proper s action) := by
  unfold Proper
  split <;> infer_instance

/-! ## The invariant -/

/-- What holds of a socket with `n` calls in progress, of which `waits` callbacks of the time-wait
timer and `closes` calls of `tcp_close` have not run yet. -/
structure Core (s : Socket) (n waits closes : ℕ) : Prop where
  ref : s.ref = s.inList.toNat + s.pending.card + n
  wait : waits + (if .timeWait ∈ s.pending then 1 else 0) =
    if s.state = .timeWait ∧ s.inList = true then 1 else 0
  listed : s.inList = false → (s.state = .closed ∨ s.state = .timeWait) ∧ s.ownerClosed = true
  late : s.state.Late → s.ownerClosed = true
  owner : s.ownerClosed = true → s.state.Late ∨ s.state = .closed
  closed : s.ownerClosed = true → s.state = .closed → s.inList = false
  opened : s.closeCalled = true → s.state ≠ .synSent
  close : closes + s.ownerClosed.toNat = s.closeCalled.toNat

/-- Only timers other than the time-wait timer are set or cancelled. -/
structure Rearmed (s s' : Socket) : Prop where
  same : s' = { s with pending := s'.pending, ref := s'.ref }
  ref : s'.ref - s'.pending.card = s.ref - s.pending.card
  wait : .timeWait ∈ s'.pending ↔ .timeWait ∈ s.pending

variable {s s' s'' : Socket} {n waits closes : ℕ} {t : Timer}

theorem Rearmed.refl (s : Socket) : Rearmed s s := ⟨rfl, rfl, .rfl⟩

theorem Rearmed.trans (h : Rearmed s s') (h' : Rearmed s' s'') : Rearmed s s'' :=
  ⟨by rw [h'.same, h.same], h'.ref.trans h.ref, h'.wait.trans h.wait⟩

theorem Rearmed.ite (h : Rearmed s s') (c : Prop) [Decidable c] :
    Rearmed s (if c then s' else s) := by
  split
  · exact h
  · exact .refl s

theorem Rearmed.state_eq (h : Rearmed s s') : s'.state = s.state := by rw [h.same]

theorem rearmed_set (ht : t ≠ .timeWait) (s : Socket) : Rearmed s (tcpTimerSet t s) := by
  unfold tcpTimerSet
  split
  · exact .refl s
  next hnot =>
  refine ⟨rfl, ?_, by simp [ht.symm]⟩
  show s.ref + 1 - ↑(insert t s.pending).card = s.ref - ↑s.pending.card
  rw [card_insert_of_notMem hnot]
  omega

theorem rearmed_cancel (ht : t ≠ .timeWait) (s : Socket) : Rearmed s (tcpTimerCancel t s) := by
  unfold tcpTimerCancel
  split
  · next hmem =>
    have hcard := card_erase_add_one hmem
    exact ⟨rfl, by simp only; omega, by simp [ht.symm]⟩
  · exact .refl s

theorem rearmed_send (s : Socket) : Rearmed s (tcpSocketSend s) := rearmed_cancel (by decide) s

theorem rearmed_send_ack (s : Socket) : Rearmed s (sendAck s) := by
  unfold sendAck
  split
  · exact rearmed_send s
  · exact .refl s

theorem rearmed_handle_ack (s : Socket) : Rearmed s (handleAck seen s) := by
  unfold handleAck
  split_ifs
  · exact rearmed_cancel (by decide) s
  · exact rearmed_set (by decide) s
  · exact .refl s

theorem rearmed_handle_data (s : Socket) : Rearmed s (handleData seen s) := by
  unfold handleData
  split
  · exact rearmed_send_ack s
  · exact rearmed_set (by decide) s

/-- `tcp_write_pending_data` and `tcp_retransmit`. -/
theorem rearmed_write (s : Socket) : Rearmed s (tcpTimerSet .retransmit (tcpSocketSend s)) :=
  (rearmed_send s).trans (rearmed_set (by decide) _)

namespace Core

section

variable (h : Core s n waits closes)
include h

theorem rearmed (hr : Rearmed s s') : Core s' n waits closes := by
  obtain ⟨hsame, href, hwait⟩ := hr
  have hold := h.ref
  rw [hsame]
  exact { h with ref := by simp only; omega, wait := by simp only [hwait]; exact h.wait }

/-- A change of state on one side of `tcp_close`. -/
theorem goto (state : TcpState) (hold : s.state ≠ .closed ∧ s.state ≠ .timeWait)
    (hnew : state ≠ .closed ∧ state ≠ .timeWait ∧ state ≠ .synSent)
    (hlate : state.Late ↔ s.state.Late) : Core { s with state := state } n waits closes := by
  obtain ⟨href, hwait, hlisted, hlate', howner, hclosed, hopened, hclose⟩ := h
  refine ⟨href, ?_, ?_, ?_, ?_, ?_, ?_, hclose⟩ <;> grind

/-- The peer resets the connection before it is closed. -/
theorem reset (hlate : ¬ s.state.Late) : Core (tcpRemoteClose s) n waits closes := by
  unfold tcpRemoteClose
  split
  · exact h
  · refine .rearmed ?_ ((rearmed_cancel (by decide) _).trans (rearmed_cancel (by decide) _))
    obtain ⟨href, hwait, hlisted, hlate', howner, hclosed, hopened, hclose⟩ := h
    refine ⟨href, ?_, ?_, ?_, ?_, ?_, ?_, hclose⟩ <;> grind [TcpState.Late]

/-- The peer has acknowledged the last `FIN`. -/
theorem last_ack (hstate : s.state = .lastAck) :
    Core (dropFromList (tcpRemoteClose s)) n waits closes := by
  have hr : Rearmed { s with state := .closed } (tcpRemoteClose s) := by
    unfold tcpRemoteClose
    rw [if_neg (by simp [hstate])]
    exact (rearmed_cancel (by decide) _).trans (rearmed_cancel (by decide) _)
  obtain ⟨hsame, href', hwait'⟩ := hr
  obtain ⟨href, hwait, hlisted, hlate', howner, hclosed, hopened, hclose⟩ := h
  rw [hsame]
  refine ⟨?_, ?_, ?_, ?_, ?_, ?_, ?_, hclose⟩ <;> grind [dropFromList, TcpState.Late]

theorem time_wait (hlate : s.state.Late) (hne : s.state ≠ .timeWait) :
    Core (tcpTimerSet .timeWait { s with state := .timeWait }) n waits closes := by
  obtain ⟨href, hwait, hlisted, hlate', howner, hclosed, hopened, hclose⟩ := h
  have hnot : .timeWait ∉ s.pending := by grind
  unfold tcpTimerSet
  rw [if_neg hnot]
  refine ⟨?_, ?_, ?_, ?_, ?_, ?_, ?_, hclose⟩ <;> grind [TcpState.Late]

theorem fin_wait_2 (hstate : s.state = .finWait2) (p : Packet) :
    Core (finWait2 p s) n waits closes := by
  unfold finWait2
  split
  · have hr := rearmed_send_ack s
    have hsame : (sendAck s).state = .finWait2 := by rw [hr.same, hstate]
    exact (h.rearmed hr).time_wait (by simp [hsame, TcpState.Late]) (by simp [hsame])
  · exact h

/-- A packet. -/
theorem tcp_input (p : Packet) (seen : Seen) (hguard : p.rst = true → ¬ s.state.Late) :
    Core (tcpInput p seen s) n waits closes := by
  have hack : Rearmed s (if p.ack then handleAck seen s else s) := (rearmed_handle_ack seen s).ite _
  unfold tcpInput
  split
  · next hrst =>
    split
    · exact h.reset (hguard hrst)
    · exact h
  cases hstate : s.state with
  | closed | listen | timeWait => exact h
  | synRcvd =>
    dsimp only
    split_ifs
    · exact h
    · exact h.goto .established (by simp [hstate]) (by decide) (by simp [hstate, TcpState.Late])
    · exact h
  | synSent =>
    dsimp only
    split
    · exact (h.goto .established (by simp [hstate]) (by decide)
        (by simp [hstate, TcpState.Late])).rearmed (rearmed_send_ack _)
    · exact h
  | established =>
    have hdata := hack.trans ((rearmed_handle_data seen _).ite (p.data = true))
    dsimp only
    split
    · have hr := hdata.trans (rearmed_send_ack _)
      exact (h.rearmed hr).goto .closeWait (by simp [hr.state_eq, hstate]) (by decide)
        (by simp [hr.state_eq, hstate, TcpState.Late])
    · exact h.rearmed hdata
  | closeWait => exact h.rearmed (hack.trans ((rearmed_send_ack _).ite (p.fin = true)))
  | lastAck =>
    dsimp only
    split
    · exact h.last_ack hstate
    · exact h
  | finWait1 =>
    dsimp only
    split_ifs
    · exact (h.goto .finWait2 (by simp [hstate]) (by decide)
        (by simp [hstate, TcpState.Late])).fin_wait_2 rfl p
    · have hr := rearmed_send_ack s
      exact (h.rearmed hr).goto .closing (by simp [hr.state_eq, hstate]) (by decide)
        (by simp [hr.state_eq, hstate, TcpState.Late])
    · exact h
  | finWait2 => exact h.fin_wait_2 hstate p
  | closing =>
    dsimp only
    split
    · exact h.time_wait (by simp [hstate, TcpState.Late]) (by simp [hstate])
    · exact h

end

theorem time_wait_timeout (h : Core s n (waits + 1) closes) :
    Core (dropFromList s) n waits closes := by
  obtain ⟨href, hwait, hlisted, hlate', howner, hclosed, hopened, hclose⟩ := h
  refine ⟨?_, ?_, ?_, ?_, ?_, ?_, ?_, hclose⟩ <;> grind [dropFromList, TcpState.Late]

/-- The owner closes a connection. -/
theorem depart (h : Core s n waits (closes + 1)) (state : TcpState)
    (hold : s.state ≠ .closed ∧ s.state ≠ .timeWait) (hnew : state.Late ∧ state ≠ .timeWait) :
    Core (tcpSocketSend { s with state := state, ownerClosed := true }) n waits closes := by
  obtain ⟨href, hwait, hlisted, hlate', howner, hclosed, hopened, hclose⟩ := h
  refine .rearmed ?_ (rearmed_send _)
  have hle := Bool.toNat_le s.closeCalled
  refine ⟨href, ?_, ?_, ?_, ?_, ?_, ?_, ?_⟩ <;> grind [TcpState.Late]

theorem tcp_close (h : Core s n waits (closes + 1)) :
    (tcpClose s).2 = true ∧ Core (tcpClose s).1 n waits closes := by
  have howner : s.ownerClosed = false ∧ s.closeCalled = true := by
    have := h.close
    cases hown : s.ownerClosed <;> cases hcalled : s.closeCalled <;> simp_all
  have hnot (hlate : s.state.Late) : False := by
    simpa [howner.1] using h.late hlate
  have hout (hstate : s.state = .closed ∨ s.state = .listen) :
      Core { tcpTimerCancel .retransmit (tcpTimerCancel .ackDelay (dropFromList s)) with
        state := .closed, ownerClosed := true } n waits closes := by
    have hr := (rearmed_cancel (t := .ackDelay) (by decide) (dropFromList s)).trans
      (rearmed_cancel (t := .retransmit) (by decide) _)
    obtain ⟨hsame, href', hwait'⟩ := hr
    obtain ⟨href, hwait, hlisted, hlate', howner', hclosed, hopened, hclose⟩ := h
    refine ⟨?_, ?_, ?_, ?_, ?_, ?_, ?_, ?_⟩ <;> grind [dropFromList, TcpState.Late]
  unfold tcpClose
  cases hstate : s.state with
  | closed => exact ⟨rfl, hout (.inl hstate)⟩
  | listen => exact ⟨rfl, hout (.inr hstate)⟩
  | synRcvd | established => exact ⟨rfl, h.depart .finWait1 (by simp [hstate]) (by decide)⟩
  | closeWait => exact ⟨rfl, h.depart .lastAck (by simp [hstate]) (by decide)⟩
  | synSent => exact absurd hstate (h.opened howner.2)
  | finWait1 | finWait2 | closing | timeWait | lastAck =>
    exact (hnot (by simp [hstate, TcpState.Late])).elim

theorem under_lock {op : Op} (seen : Seen)
    (h : Core s n
      (waits + if (⟨op, .entered⟩ : Call) = ⟨.timeout .timeWait, .entered⟩ then 1 else 0)
      (closes + if (⟨op, .entered⟩ : Call) = ⟨.close, .entered⟩ then 1 else 0))
    (hguard : ∀ p, op = .input p → p.rst = true → ¬ s.state.Late) :
    (underLock op seen s).2 = true ∧ Core (underLock op seen s).1 n waits closes := by
  cases op with
  | close => exact h.tcp_close
  | read => exact ⟨rfl, h.rearmed ((rearmed_send_ack s).ite _)⟩
  | write => exact ⟨rfl, h.rearmed ((rearmed_write s).ite _)⟩
  | accept => exact ⟨rfl, h⟩
  | input p => exact ⟨rfl, h.tcp_input p seen (hguard p rfl)⟩
  | timeout t =>
    refine ⟨rfl, ?_⟩
    cases t with
    | retransmit => exact h.rearmed ((rearmed_write s).ite _)
    | ackDelay => exact h.rearmed (rearmed_send_ack s)
    | timeWait => exact h.time_wait_timeout

/-- What the calls in progress are does not matter otherwise. -/
theorem with_calls (h : Core s n waits closes) (locked : Bool) (calls : List Call) :
    Core { s with locked := locked, calls := calls } n waits closes :=
  { h with }

end Core

structure Socket.Inv (s : Socket) : Prop where
  core : Core s s.calls.length (s.calls.count ⟨.timeout .timeWait, .entered⟩)
    (s.calls.count ⟨.close, .entered⟩)
  lock : s.calls.countP (·.phase = .holding) = s.locked.toNat

/-- One of the calls in progress, and the others. -/
theorem Socket.Inv.split (h : s.Inv) {c : Call} (hmem : c ∈ s.calls) :
    Core s ((s.calls.erase c).length + 1)
        ((s.calls.erase c).count ⟨.timeout .timeWait, .entered⟩ +
          if c = ⟨.timeout .timeWait, .entered⟩ then 1 else 0)
        ((s.calls.erase c).count ⟨.close, .entered⟩ + if c = ⟨.close, .entered⟩ then 1 else 0) ∧
      (s.calls.erase c).countP (·.phase = .holding) + (if c.phase = .holding then 1 else 0) =
        s.locked.toNat := by
  obtain ⟨hcore, hlock⟩ := h
  have hperm := perm_cons_erase hmem
  simp only [hperm.length_eq, hperm.count_eq, count_cons, length_cons, beq_iff_eq] at hcore
  simp only [hperm.countP_eq, countP_cons, decide_eq_true_eq] at hlock
  exact ⟨hcore, hlock⟩

theorem Socket.Inv.join {c : Call} {l : List Call} {locked : Bool}
    (hcore : Core s (l.length + 1)
      (l.count ⟨.timeout .timeWait, .entered⟩ + if c = ⟨.timeout .timeWait, .entered⟩ then 1 else 0)
      (l.count ⟨.close, .entered⟩ + if c = ⟨.close, .entered⟩ then 1 else 0))
    (hlock : l.countP (·.phase = .holding) + (if c.phase = .holding then 1 else 0) =
      locked.toNat) : Socket.Inv { s with locked := locked, calls := c :: l } := by
  refine ⟨?_, ?_⟩
  · simp only [count_cons, length_cons, beq_iff_eq]
    exact hcore.with_calls _ _
  · simp only [countP_cons, decide_eq_true_eq]
    exact hlock

/-- The application calls a function. -/
theorem Socket.Inv.enter (h : s.Inv) (op : Op) (hopen : s.state ≠ .synSent)
    (hcalled : s.closeCalled = false) (hop : ∀ t, op ≠ .timeout t) :
    Socket.Inv { s with
      ref := s.ref + 1
      calls := ⟨op, .entered⟩ :: s.calls
      closeCalled := s.closeCalled || decide (op = .close) } := by
  obtain ⟨⟨href, hwait, hlisted, hlate, howner, hclosed, hopened, hclose⟩, hlock⟩ := h
  refine Socket.Inv.join (s := { s with ref := s.ref + 1, closeCalled := _ }) ?_
    (by simpa using hlock)
  refine ⟨?_, ?_, hlisted, hlate, howner, hclosed, fun _ => hopen, ?_⟩
  · simp only [href]
    omega
  · simpa [hop] using hwait
  · by_cases hop : op = .close <;> simp_all

/-- A call drops its reference. -/
theorem Socket.Inv.drop (h : s.Inv) {c : Call} (hmem : c ∈ s.calls)
    (hc : c.phase = .finished ∨ c = ⟨.accept, .entered⟩) :
    Socket.Inv { s with ref := s.ref - 1, calls := s.calls.erase c } := by
  obtain ⟨⟨href, hwait, hlisted, hlate, howner, hclosed, hopened, hclose⟩, hlock⟩ := h.split hmem
  obtain ⟨htimer, hcall, hphase⟩ : c ≠ ⟨.timeout .timeWait, .entered⟩ ∧ c ≠ ⟨.close, .entered⟩ ∧
      c.phase ≠ .holding := by
    rcases hc with hc | rfl
    · refine ⟨?_, ?_, by simp [hc]⟩ <;> rintro rfl <;> cases hc
    · decide
  exact ⟨⟨by simp only [href]; omega, by simpa [htimer] using hwait, hlisted, hlate, howner,
    hclosed, hopened, by simpa [hcall] using hclose⟩, by simpa [hphase] using hlock⟩

theorem Socket.Inv.step (h : s.Inv) {action : Action} (hguard : Proper s action)
    (hstep : s.step action = some s') : s'.Inv := by
  cases action with
  | enter op =>
    cases op with
    | timeout t => cases hstep
    | input p =>
      obtain ⟨-, hsome⟩ := ite_none_right_eq_some.mp hstep
      cases hsome
      obtain ⟨hcore, hlock⟩ := h
      refine Socket.Inv.join (s := { s with ref := s.ref + 1 }) ?_ (by simpa using hlock)
      exact { hcore with
        ref := by simp only [hcore.ref]; omega
        wait := by simpa using hcore.wait
        close := by simpa using hcore.close }
    | close | read | write | accept =>
      cases hstep
      exact h.enter _ hguard.1 hguard.2 (by simp)
  | fire t =>
    obtain ⟨hmem, hsome⟩ := ite_none_right_eq_some.mp hstep
    cases hsome
    obtain ⟨hcore, hlock⟩ := h
    have hcard := card_erase_add_one hmem
    refine Socket.Inv.join (s := { s with pending := s.pending.erase t }) ?_ (by simpa using hlock)
    obtain ⟨href, hwait, hlisted, hlate, howner, hclosed, hopened, hclose⟩ := hcore
    refine ⟨by simp only [href]; omega, ?_, hlisted, hlate, howner, hclosed, hopened,
      by simpa using hclose⟩
    grind
  | run op seen =>
    obtain ⟨⟨hmem, hfree⟩, hsome⟩ := ite_none_right_eq_some.mp hstep
    obtain ⟨hcore, hlock⟩ := h.split hmem
    obtain ⟨hreleases, hunder⟩ := hcore.under_lock seen (by
      rintro p rfl
      exact hguard)
    cases hsome
    rw [if_pos hreleases]
    refine Socket.Inv.join (by simpa using hunder) ?_
    simp_all
  | release op =>
    obtain ⟨hmem, hsome⟩ := ite_none_right_eq_some.mp hstep
    obtain ⟨hcore, hlock⟩ := h.split hmem
    cases hsome
    refine Socket.Inv.join (by simpa using hcore) ?_
    cases hlocked : s.locked <;> simp_all
  | again op =>
    obtain ⟨⟨hop, hmem⟩, hsome⟩ := ite_none_right_eq_some.mp hstep
    obtain ⟨hcore, hlock⟩ := h.split hmem
    cases hsome
    exact Socket.Inv.join (by rcases hop with rfl | rfl <;> simpa using hcore)
      (by simpa using hlock)
  | leave op =>
    obtain ⟨hmem, hsome⟩ := ite_none_right_eq_some.mp hstep
    cases hsome
    exact h.drop hmem (.inl rfl)
  | acceptTimeout =>
    obtain ⟨hmem, hsome⟩ := ite_none_right_eq_some.mp hstep
    cases hsome
    exact h.drop hmem (.inr rfl)

theorem Created.inv (h : Created s) : s.Inv := by
  obtain ⟨state, hstate, rfl⟩ := h
  refine ⟨⟨rfl, ?_, nofun, ?_, nofun, nofun, nofun, rfl⟩, rfl⟩
  · rcases hstate with rfl | rfl | rfl <;> rfl
  · rcases hstate with rfl | rfl | rfl <;> exact fun hlate => absurd hlate (by decide)

/-- In every run of calls, packets and timeouts in which the application does not use the socket
after `tcp_close` and no reset arrives after it, the references are those of the list, of the
pending timers and of the calls in progress; the time-wait timer is pending only in
`STATE_TIME_WAIT`; a socket closed by its owner and in `STATE_CLOSED` is not in the list; and if the
lock is held, a call in progress holds it. -/
theorem socket_lifetime (h : Transition.Reachable Socket.step Proper Created s) :
    s.ref = s.inList.toNat + s.pending.card + s.calls.length ∧
      (.timeWait ∈ s.pending → s.state = .timeWait) ∧
      (s.ownerClosed = true → s.state = .closed → s.inList = false) ∧
      (s.locked = true → ∃ c ∈ s.calls, c.phase = .holding) := by
  have hinv : s.Inv := h.invariant Created.inv fun hs => hs.step
  obtain ⟨⟨href, hwait, -, -, -, hclosed, -⟩, hlock⟩ := hinv
  refine ⟨href, fun hmem => ?_, hclosed, fun hlocked => ?_⟩
  · by_contra hstate
    simp [hmem, hstate] at hwait
  · rw [hlocked] at hlock
    obtain ⟨c, hc, hphase⟩ := countP_pos_iff.mp (show 0 < s.calls.countP _ by rw [hlock]; decide)
    exact ⟨c, hc, of_decide_eq_true hphase⟩

/-- A socket that waits for the acknowledgement of its `SYN`. -/
def fresh : Socket := ⟨.synRcvd, 1, true, ∅, false, [], false, false⟩

def Packet.ofAck : Packet := ⟨false, false, true, false, false⟩
def Packet.ofFin : Packet := ⟨false, false, true, true, false⟩
def Packet.ofRst : Packet := ⟨true, false, false, false, false⟩

/-- All of a call that runs once. -/
def whole (op : Op) : List Action :=
  [.enter op, .run op ⟨true, true, false, false, true, true⟩, .release op, .leave op]

/-- A connection is established, closed by its owner and then by the peer. -/
def closedRun : List Action :=
  whole (.input .ofAck) ++ whole .write ++ [.fire .retransmit] ++ whole .close ++
    whole (.input .ofFin)

theorem socket_lifetime_closed : ∃ s : Socket,
    (s.state = .timeWait ∧ s.calls = [⟨.timeout .retransmit, .entered⟩]) ∧
    s.ref = s.inList.toNat + s.pending.card + s.calls.length ∧
      (.timeWait ∈ s.pending → s.state = .timeWait) ∧
      (s.ownerClosed = true → s.state = .closed → s.inList = false) ∧
      (s.locked = true → ∃ c ∈ s.calls, c.phase = .holding) := by
  have hrun : (Transition.run Socket.step fresh closedRun).map (fun s => (s.state, s.calls)) =
      some (.timeWait, [⟨.timeout .retransmit, .entered⟩]) := by decide +kernel
  obtain ⟨s, hrun, hs⟩ := map_eq_some_iff.mp hrun
  simp only [Prod.mk.injEq] at hs
  exact ⟨s, hs, socket_lifetime (.run (.init ⟨.synRcvd, by simp, rfl⟩)
    (by decide +kernel : Transition.Admits _ _ fresh closedRun) hrun)⟩

/-- A reset in `STATE_TIME_WAIT` leaves the closed socket in the list, with the time-wait timer
pending. When `tcp_close` is called again before that, it returns with the lock held. -/
theorem closed_after_close :
    (Transition.run Socket.step fresh (closedRun ++ whole (.input .ofRst))).map
      (fun s => (s.state, s.ownerClosed, s.inList, decide (.timeWait ∈ s.pending))) =
      some (.closed, true, true, true) ∧
    (Transition.run Socket.step fresh (whole (.input .ofAck) ++ whole .close ++
      [.enter .close, .run .close ⟨true, true, true, true, true, true⟩, .leave .close])).map
      (fun s => (s.locked, s.calls)) = some (true, []) := by
  decide +kernel

end NusaKernel.TcpLifetime
