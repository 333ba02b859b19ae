import NusaKernel.Tcp.Connection
import NusaKernel.Lib.Segment

/-!
# The stream that a TCP connection sends (`lib/minip/tcp.c`)

The transmit buffer holds the bytes that were written and not yet acknowledged, of which the first
were sent. Acknowledgements shift it, writes append to it. Every segment with data carries the bytes
that were written at the place its number says, sent for the first time or again
(`transmit_stream`).

`tcp_close` sends the `FIN` with the number of the first byte that is not acknowledged. If some are
not, that is not the number behind the last byte written (`fin_before_data`).
-/

namespace NusaKernel.Tcp

open List Transition Ring

variable {Tid : Type*}

/-- The buffer, the numbers and the bytes written belong together: `acked` bytes are acknowledged,
and `outstanding` more are sent. -/
structure Sending (s : Socket Tid) (base : BitVec 32) (written : List UInt8)
    (acked outstanding : ℕ) : Prop where
  size : s.txBufferSize = defaultTxBufferSize
  low : s.txWinLow = base + BitVec.ofNat 32 acked
  highest : s.txHighestSeq = base + BitVec.ofNat 32 (acked + outstanding)
  offset_le : s.txBufferOffset.toNat ≤ 8192
  outstanding_le : outstanding ≤ s.txBufferOffset.toNat
  length : acked + s.txBufferOffset.toNat = written.length
  bytes : Ring.block s.txBuffer 0 s.txBufferOffset.toNat = written.drop acked

/-- A segment with data carries the bytes written at the place its number says. -/
def Carries (base : BitVec 32) (written : List UInt8) (seg : Segment) : Prop :=
  seg.data ≠ [] → ∃ pos, seg.seq = base + BitVec.ofNat 32 pos ∧
    pos + seg.data.length ≤ written.length ∧
    seg.data = (written.drop pos).take seg.data.length

/-- The data of a segment is in the buffer, at the place its number says. -/
def Buffered (s : Socket Tid) (seg : Segment) : Prop :=
  ∃ place, seg.seq = s.txWinLow + BitVec.ofNat 32 place ∧
    place + seg.data.length ≤ s.txBufferOffset.toNat

variable {s s' : Socket Tid} {base : BitVec 32} {written : List UInt8} {acked outstanding len : ℕ}
  {seg : Segment} {place : ℕ} {sequence : BitVec 32} {data : List UInt8}

theorem Carries.of_nil (h : seg.data = []) : Carries base written seg := fun hne => absurd h hne

/-- More is written. -/
theorem Carries.append (h : Carries base written seg) (more : List UInt8) :
    Carries base (written ++ more) seg := by
  intro hne
  obtain ⟨pos, hseq, hle, hdata⟩ := h hne
  refine ⟨pos, hseq, ?_, ?_⟩
  · rw [length_append]
    omega
  · rw [drop_append_of_le_length (by omega), take_append_of_le_length]
    · exact hdata
    · rw [length_drop]
      omega

theorem Sending.congr (h : Sending s base written acked outstanding)
    (hsize : s'.txBufferSize = s.txBufferSize) (hlow : s'.txWinLow = s.txWinLow)
    (hhighest : s'.txHighestSeq = s.txHighestSeq) (hbuffer : s'.txBuffer = s.txBuffer)
    (hoffset : s'.txBufferOffset = s.txBufferOffset) :
    Sending s' base written acked outstanding :=
  ⟨hsize.trans h.size, hlow.trans h.low, hhighest.trans h.highest, hoffset ▸ h.offset_le,
    hoffset ▸ h.outstanding_le, hoffset ▸ h.length, by rw [hbuffer, hoffset]; exact h.bytes⟩

theorem SameButRx.sending (hsame : SameButRx s s')
    (h : Sending s base written acked outstanding) : Sending s' base written acked outstanding := by
  obtain ⟨_, _, _, _, rfl⟩ := hsame
  exact h.congr rfl rfl rfl rfl rfl

theorem ofNat_add_toNat (x : ℕ) (y : BitVec 32) :
    BitVec.ofNat 32 x + y = BitVec.ofNat 32 (x + y.toNat) := by
  rw [BitVec.ofNat_add, BitVec.ofNat_toNat, BitVec.setWidth_eq]

theorem toNat_ofNat_of_le {x : ℕ} (h : x ≤ 8192) : (BitVec.ofNat 32 x).toNat = x := by
  rw [BitVec.toNat_ofNat, Nat.mod_eq_of_lt (by omega)]

theorem toNat_sub_ofNat {x : BitVec 32} {y : ℕ} (hle : y ≤ x.toNat) (hx : x.toNat ≤ 8192) :
    (x - BitVec.ofNat 32 y).toNat = x.toNat - y := by
  have hy := toNat_ofNat_of_le (hle.trans hx)
  rw [BitVec.toNat_sub_of_le (BitVec.le_def.mpr (hy.trans_le hle)), hy]

section

variable (h : Sending s base written acked outstanding) {ack : BitVec 32} {win : BitVec 16}
  {flags : Flags}
include h

/-- What is sent but not acknowledged. -/
theorem Sending.outstanding_eq : s.txHighestSeq - s.txWinLow = BitVec.ofNat 32 outstanding := by
  rw [h.highest, h.low, add_sub_add_left_eq_sub, BitVec.ofNat_add, BitVec.add_comm,
    BitVec.add_sub_cancel]

/-- The bytes at a place of the buffer. -/
theorem Sending.block_eq (hle : place + len ≤ s.txBufferOffset.toNat) :
    Ring.block s.txBuffer place len = (written.drop (acked + place)).take len := by
  rw [← drop_drop, ← h.bytes, Segment.drop_block (by omega), take_block, Nat.zero_add,
    Nat.min_eq_left (by omega)]

/-- A segment from a place of the buffer. -/
theorem Sending.carries (hle : place + len ≤ s.txBufferOffset.toNat)
    (hseq : sequence = base + BitVec.ofNat 32 (acked + place)) :
    Carries base written ⟨flags, sequence, ack, win, Ring.block s.txBuffer place len⟩ := by
  intro _
  have hlength := h.length
  refine ⟨acked + place, hseq, ?_, ?_⟩
  · rw [length_block]
    omega
  · rw [length_block]
    exact h.block_eq hle

theorem Sending.buffered (hle : place + len ≤ s.txBufferOffset.toNat)
    (hseq : sequence = base + BitVec.ofNat 32 (acked + place)) :
    Buffered s ⟨flags, sequence, ack, win, Ring.block s.txBuffer place len⟩ := by
  refine ⟨place, ?_, ?_⟩
  · rw [hseq, h.low, BitVec.add_assoc, ← BitVec.ofNat_add]
  · rwa [length_block]

end

theorem segment_len_le (s : Socket Tid) (left : BitVec 32) :
    (segmentLen s left).toNat ≤ left.toNat := by
  unfold segmentLen
  split
  next hlt => exact Nat.le_of_lt (BitVec.lt_def.mp hlt)
  next => exact le_rfl

/-- One round of the loop of `tcp_write_pending_data`. -/
theorem Sending.sendRound (h : Sending s base written acked outstanding) (tosend : BitVec 32)
    (hle : outstanding + tosend.toNat ≤ s.txBufferOffset.toNat) :
    Sending (sendRound s outstanding tosend).1 base written acked (outstanding + tosend.toNat) ∧
      Carries base written (sendRound s outstanding tosend).2 ∧
      (sendRound s outstanding tosend).2.flags.fin = false ∧
      Buffered s (sendRound s outstanding tosend).2 := by
  have hmove := (move_edge_same s).rx.sending h
  refine ⟨{ hmove with highest := ?_, outstanding_le := ?_ },
    h.carries hle h.highest, rfl, h.buffered hle h.highest⟩
  · show (moveEdge s).txHighestSeq + tosend = _
    rw [hmove.highest, BitVec.add_assoc, ← Nat.add_assoc, ← ofNat_add_toNat]
  · obtain ⟨high, hsame⟩ := move_edge_same s
    show _ ≤ (moveEdge s).txBufferOffset.toNat
    rw [hsame]
    exact hle

/-- Segments that carry what was written, and no `FIN`. -/
def AllCarry (base : BitVec 32) (written : List UInt8) (segs : List Segment) : Prop :=
  ∀ seg ∈ segs, Carries base written seg ∧ seg.flags.fin = false

/-- The loop of `tcp_write_pending_data`, which has sent `done` bytes in this call. -/
theorem Sending.sendPending {first pending done : ℕ} (fuel : ℕ)
    (h : Sending s base written acked (first + done))
    (hpending : first + pending = s.txBufferOffset.toNat) (hdone : done ≤ pending) :
    ∃ outstanding, Sending (sendPending (BitVec.ofNat 32 first) (BitVec.ofNat 32 pending) fuel s
        (BitVec.ofNat 32 done)).1 base written acked outstanding ∧
      AllCarry base written (sendPending (BitVec.ofNat 32 first) (BitVec.ofNat 32 pending) fuel s
        (BitVec.ofNat 32 done)).2 ∧
      ∀ seg ∈ (sendPending (BitVec.ofNat 32 first) (BitVec.ofNat 32 pending) fuel s
        (BitVec.ofNat 32 done)).2, Buffered s seg := by
  have hoffset := h.offset_le
  induction fuel generalizing s done with
  | zero => exact ⟨_, h, by simp [AllCarry, Tcp.sendPending], by simp [Tcp.sendPending]⟩
  | succ fuel ih =>
    rw [Tcp.sendPending]
    split
    next hlt =>
      obtain ⟨tosend, htosend⟩ : ∃ n, n = segmentLen s
          (BitVec.ofNat 32 pending - BitVec.ofNat 32 done) := ⟨_, rfl⟩
      have hle : tosend.toNat ≤ pending - done := by
        have hseg := segment_len_le s (BitVec.ofNat 32 pending - BitVec.ofNat 32 done)
        have heq : (BitVec.ofNat 32 pending).toNat = pending := toNat_ofNat_of_le (by omega)
        rwa [← htosend, toNat_sub_ofNat (by omega) (by omega), heq] at hseg
      dsimp only
      rw [← htosend, toNat_ofNat_of_le (by omega), toNat_ofNat_of_le (by omega), ofNat_add_toNat]
      obtain ⟨hround, hcarries, hfin, hbuffered⟩ := h.sendRound tosend (by omega)
      have hsame : (Tcp.sendRound s (first + done) tosend).1.txBufferOffset = s.txBufferOffset ∧
          (Tcp.sendRound s (first + done) tosend).1.txWinLow = s.txWinLow := by
        obtain ⟨high, hsame⟩ := move_edge_same s
        show (moveEdge s).txBufferOffset = _ ∧ (moveEdge s).txWinLow = _
        rw [hsame]
        exact ⟨rfl, rfl⟩
      rw [Nat.add_assoc] at hround
      obtain ⟨outstanding, hrest, hsegs, hplaces⟩ := ih hround (by rw [hsame.1]; exact hpending)
        (by omega) hround.offset_le
      refine ⟨outstanding, hrest, forall_mem_cons.mpr ⟨⟨hcarries, hfin⟩, hsegs⟩,
        forall_mem_cons.mpr ⟨hbuffered, fun seg hseg => ?_⟩⟩
      rw [Buffered, ← hsame.1, ← hsame.2]
      exact hplaces seg hseg
    next => exact ⟨_, h, forall_mem_nil _, by simp⟩

theorem Sending.writePending (h : Sending s base written acked outstanding) :
    ∃ outstanding, Sending (tcpWritePendingData s).1 base written acked outstanding ∧
      AllCarry base written (tcpWritePendingData s).2 ∧
      ∀ seg ∈ (tcpWritePendingData s).2, Buffered s seg := by
  have hle := h.outstanding_le
  have hoffset := h.offset_le
  have hpending : s.txBufferOffset - BitVec.ofNat 32 outstanding =
      BitVec.ofNat 32 (s.txBufferOffset.toNat - outstanding) := by
    rw [← toNat_sub_ofNat hle hoffset, BitVec.ofNat_toNat, BitVec.setWidth_eq]
  unfold tcpWritePendingData
  dsimp only
  rw [h.outstanding_eq, hpending]
  have hstart : Sending s base written acked (outstanding + 0) := h
  exact hstart.sendPending _ (by omega) (Nat.zero_le _)

theorem block_getD {n : ℕ} (h : n ≤ data.length) :
    Ring.block (fun i => data.getD i 0) 0 n = data.take n := by
  refine ext_getElem ?_ fun i hi hi' => ?_
  · rw [length_block, length_take, Nat.min_eq_left h]
  · rw [length_block] at hi
    simp [Ring.block, getD_eq_getElem?_getD, getElem?_eq_getElem (show i < data.length by omega)]

section

variable (h : Sending s base written acked outstanding)
include h

theorem write_len_le (data : List UInt8) :
    s.txBufferOffset.toNat + writeLen s data ≤ 8192 ∧ writeLen s data ≤ data.length := by
  have hoffset := h.offset_le
  unfold writeLen
  split
  · omega
  have hroom : (s.txBufferSize - s.txBufferOffset).toNat = 8192 - s.txBufferOffset.toNat := by
    rw [h.size, BitVec.toNat_sub_of_le]
    · rfl
    · exact BitVec.le_def.mpr hoffset
  omega

/-- Writing appends to the buffer. -/
theorem Sending.copy {n : ℕ} (hroom : s.txBufferOffset.toNat + n ≤ 8192) (hn : n ≤ data.length) :
    Sending { s with
      txBuffer := copyIn s.txBuffer s.txBufferOffset.toNat (fun i => data.getD i 0) n
      txBufferOffset := s.txBufferOffset + BitVec.ofNat 32 n } base (written ++ data.take n) acked
      outstanding := by
  have hlength := h.length
  have hle := h.outstanding_le
  have hoffset : (s.txBufferOffset + BitVec.ofNat 32 n).toNat = s.txBufferOffset.toNat + n := by
    rw [BitVec.toNat_add, toNat_ofNat_of_le (by omega), Nat.mod_eq_of_lt (by omega)]
  refine ⟨h.size, h.low, h.highest, ?_, ?_, ?_, ?_⟩
  · show (s.txBufferOffset + BitVec.ofNat 32 n).toNat ≤ 8192
    omega
  · show outstanding ≤ (s.txBufferOffset + BitVec.ofNat 32 n).toNat
    omega
  · rw [hoffset, length_append, length_take, Nat.min_eq_left hn]
    omega
  have hfront : Ring.block (copyIn s.txBuffer s.txBufferOffset.toNat
      (fun i => data.getD i 0) n) 0 s.txBufferOffset.toNat = written.drop acked := by
    rw [← h.bytes]
    refine Segment.block_congr fun i _ hi => if_neg ?_
    omega
  rw [hoffset, block_add, hfront, Nat.zero_add, block_copy_in, block_getD hn,
    drop_append_of_le_length (by omega)]

theorem Sending.writeRound (data : List UInt8) :
    ∃ outstanding, Sending (tcpWriteRound s data).1 base (written ++ data.take (writeLen s data))
        acked outstanding ∧
      AllCarry base (written ++ data.take (writeLen s data)) (tcpWriteRound s data).2 ∧
      ∀ seg ∈ (tcpWriteRound s data).2, Buffered (tcpWriteRound s data).1 seg := by
  obtain ⟨hroom, hn⟩ := write_len_le h data
  by_cases hzero : writeLen s data = 0
  · have hround : tcpWriteRound s data = (s, []) := if_pos hzero
    rw [hround, hzero, take_zero, append_nil]
    exact ⟨_, h, forall_mem_nil _, by simp⟩
  have hround : tcpWriteRound s data = tcpWritePendingData _ := if_neg hzero
  obtain ⟨_, _, _, hsame⟩ := write_round_same s data
  obtain ⟨outstanding, hsending, hsegs, hplaces⟩ := (h.copy hroom hn).writePending
  rw [← hround] at hsending hsegs hplaces
  refine ⟨outstanding, hsending, hsegs, fun seg hseg => ?_⟩
  rw [hsame]
  exact hplaces seg hseg

theorem Sending.retransmit :
    Sending (tcpRetransmit s).1 base written acked outstanding ∧
      AllCarry base written (tcpRetransmit s).2 ∧
      ∀ seg ∈ (tcpRetransmit s).2, seg.seq = s.txWinLow ∧ seg.data.length ≤ outstanding := by
  have hle := h.outstanding_le
  have hoffset := h.offset_le
  unfold tcpRetransmit
  dsimp only
  split_ifs
  iterate 2 exact ⟨h, forall_mem_nil _, by simp⟩
  have hlen := segment_len_le s (s.txHighestSeq - s.txWinLow)
  rw [h.outstanding_eq, toNat_ofNat_of_le (by omega)] at hlen
  rw [h.outstanding_eq]
  refine ⟨(move_edge_same s).rx.sending h, fun seg hseg => ?_, fun seg hseg => ?_⟩
  · obtain rfl := mem_singleton.mp hseg
    exact ⟨h.carries (by omega) h.low, rfl⟩
  · obtain rfl := mem_singleton.mp hseg
    refine ⟨rfl, ?_⟩
    show (Ring.block s.txBuffer 0 _).length ≤ _
    rwa [length_block]

/-- What an acknowledgement that is not ignored acknowledges was sent. -/
theorem Sending.acked_le (hnew : ¬ sequenceLte sequence s.txWinLow)
    (hsent : ¬ sequenceGt sequence s.txHighestSeq) :
    (sequence - s.txWinLow).toNat ≤ outstanding := by
  have hle := h.outstanding_le
  have hoffset := h.offset_le
  have hdiff : sequence - s.txHighestSeq =
      BitVec.ofNat 32 (sequence - s.txWinLow).toNat - BitVec.ofNat 32 outstanding := by
    rw [← h.outstanding_eq, BitVec.ofNat_toNat, BitVec.setWidth_eq, sub_sub_sub_cancel_right]
  unfold sequenceLte at hnew
  unfold sequenceGt at hsent
  have hhalf : (sequence - s.txWinLow).toNat < 2 ^ 31 := by
    have hint := BitVec.toInt_eq_toNat_cond (sequence - s.txWinLow)
    rw [hint] at hnew
    split at hnew <;> omega
  rw [hdiff, SerialOrder.toInt_ofNat_sub_ofNat 31 (by omega) (by omega)] at hsent
  omega

/-- An acknowledgement shifts the buffer. -/
theorem Sending.shift {len : BitVec 32} (hlen : len.toNat ≤ outstanding) (winHigh : BitVec 32) :
    Sending { s with
      txBuffer := copyIn s.txBuffer 0 (fun i => s.txBuffer (len.toNat + i))
        (s.txBufferOffset - len).toNat
      txBufferOffset := s.txBufferOffset - len
      txWinLow := s.txWinLow + len
      txWinHigh := winHigh } base written (acked + len.toNat) (outstanding - len.toNat) := by
  have hle := h.outstanding_le
  have hoffset := h.offset_le
  have hlength := h.length
  have hrest : (s.txBufferOffset - len).toNat = s.txBufferOffset.toNat - len.toNat :=
    BitVec.toNat_sub_of_le (BitVec.le_def.mpr (by omega))
  refine ⟨h.size, ?_, ?_, ?_, ?_, ?_, ?_⟩
  · rw [h.low, BitVec.add_assoc, ofNat_add_toNat]
  · rw [h.highest]
    congr 2
    omega
  · show (s.txBufferOffset - len).toNat ≤ 8192
    omega
  · show outstanding - len.toNat ≤ (s.txBufferOffset - len).toNat
    omega
  · show acked + len.toNat + (s.txBufferOffset - len).toNat = _
    omega
  · rw [block_copy_in, block_comp_add, hrest, ← drop_drop, ← h.bytes,
      Segment.drop_block (by omega), Nat.zero_add]

theorem Sending.handleAck (sequence winSize : BitVec 32) :
    ∃ acked outstanding, Sending (handleAck s sequence winSize) base written acked outstanding := by
  unfold Tcp.handleAck
  split_ifs with hold hnew
  · exact ⟨_, _, h⟩
  · exact ⟨_, _, h⟩
  · exact ⟨_, _, h.shift (h.acked_le hold hnew) _⟩

end

/-! ## Runs -/

/-- Before the connection is established nothing is written. -/
structure Unsent (s : Socket Tid) (written : List UInt8) : Prop where
  size : s.txBufferSize = defaultTxBufferSize
  offset : s.txBufferOffset = 0
  written : written = []

/-- A socket whose transmit side has just been set up. -/
theorem Unsent.sending (h : Unsent s written) (hlow : s.txWinLow = base)
    (hhighest : s.txHighestSeq = base) : Sending s base written 0 0 := by
  refine ⟨h.size, ?_, ?_, ?_, Nat.zero_le _, ?_, ?_⟩
  · rw [hlow]
    exact (BitVec.add_zero _).symm
  · rw [hhighest]
    exact (BitVec.add_zero _).symm
  · rw [h.offset]
    decide
  · rw [h.offset, h.written]
    rfl
  · rw [h.offset, h.written]
    rfl

/-- What is known of the transmit side, by the state of the socket. -/
structure Ready (s : Socket Tid) (base : BitVec 32) (written : List UInt8) : Prop where
  syn_sent : s.state = .synSent → Unsent s written ∧ s.txWinLow + 1 = base
  syn_rcvd : s.state = .synRcvd → Unsent s written ∧ s.txWinLow = base
  sending : s.state = .established ∨ s.state = .closeWait →
    ∃ acked outstanding, Sending s base written acked outstanding

/-- The invariant of the sending side. The number of a `FIN` is the right one in runs in which the
connection is closed in an orderly way. -/
structure Conn.Sends (orderly : Prop) (c : Conn Tid) : Prop where
  carries : ∀ seg ∈ c.sent, Carries c.txBase c.written seg
  fin_last : orderly → ∀ seg ∈ c.sent, seg.flags.fin = true →
    seg.seq = c.txBase + BitVec.ofNat 32 c.written.length
  no_fin : c.sock.state.Early → ∀ seg ∈ c.sent, seg.flags.fin = false
  ready : Ready c.sock c.txBase c.written

/-- The connection is closed only when everything that was written is acknowledged. -/
def AllAcked (c : Conn Tid) : Event → Prop
  | .close => c.sock.txBufferOffset = 0
  | _ => True

/-- `AllAcked` can be checked along a run. -/
instance (c : Conn Tid) (e : Event) : Decidable (AllAcked c e) := by
  cases e <;> unfold AllAcked <;> infer_instance

variable {c c' : Conn Tid} {segs : List Segment} {orderly : Prop} {sock : Socket Tid}

theorem Ready.of_late (h : ¬ s.state.Early) : Ready s base written :=
  ⟨fun hstate => absurd (.inl hstate) h, fun hstate => absurd (.inr (.inl hstate)) h,
    fun hstate => absurd (.inr (.inr hstate)) h⟩

theorem Ready.of_sending (hstate : s.state = .established ∨ s.state = .closeWait)
    (h : Sending s base written acked outstanding) : Ready s base written := by
  refine ⟨fun hsyn => ?_, fun hsyn => ?_, fun _ => ⟨acked, outstanding, h⟩⟩
  all_goals rcases hstate with hst | hst <;> exact absurd (hsyn.symm.trans hst) (by decide)

/-- The connection is established. -/
theorem Unsent.ready (h : Unsent s written) (hlow : s.txWinLow = base)
    (hhighest : s.txHighestSeq = base) (hstate : s.state = .established) : Ready s base written :=
  .of_sending (.inl hstate) (h.sending hlow hhighest)

theorem SameButRx.ready (hsame : SameButRx s s') (h : Ready s base written) :
    Ready s' base written := by
  obtain ⟨_, _, _, _, rfl⟩ := hsame
  refine ⟨fun hst => ?_, fun hst => ?_, fun hst => ?_⟩
  · obtain ⟨hu, hlow⟩ := h.syn_sent hst
    exact ⟨{ hu with }, hlow⟩
  · obtain ⟨hu, hlow⟩ := h.syn_rcvd hst
    exact ⟨{ hu with }, hlow⟩
  · obtain ⟨acked, outstanding, hsend⟩ := h.sending hst
    exact ⟨acked, outstanding, hsend.congr rfl rfl rfl rfl rfl⟩

/-- More is written, and segments without a `FIN` are sent. -/
theorem Conn.Sends.extend (h : c.Sends orderly) (more : List UInt8)
    (hmore : more = [] ∨ c.sock.state.Early) (hearly : sock.state.Early → c.sock.state.Early)
    (hsegs : AllCarry c.txBase (c.written ++ more) segs)
    (hready : Ready sock c.txBase (c.written ++ more)) :
    Conn.Sends orderly { c.after (sock, segs) with written := c.written ++ more } := by
  refine ⟨forall_mem_append.mpr ⟨fun seg hseg => (h.carries seg hseg).append more,
    fun seg hseg => (hsegs seg hseg).1⟩, fun hord => forall_mem_append.mpr
    ⟨fun seg hseg hfin => ?_, fun seg hseg hfin => ?_⟩, fun hstate => forall_mem_append.mpr
    ⟨h.no_fin (hearly hstate), fun seg hseg => (hsegs seg hseg).2⟩, hready⟩
  · rcases hmore with hnil | hstate
    · rw [h.fin_last hord seg hseg hfin]
      show _ = c.txBase + BitVec.ofNat 32 (c.written ++ more).length
      rw [hnil, append_nil]
    · exact absurd hfin (by rw [h.no_fin hstate seg hseg]; decide)
  · exact absurd hfin (by rw [(hsegs seg hseg).2]; decide)

/-- Nothing is written. -/
theorem Conn.Sends.after (h : c.Sends orderly) (hearly : sock.state.Early → c.sock.state.Early)
    (hsegs : AllCarry c.txBase c.written segs) (hready : Ready sock c.txBase c.written) :
    (c.after (sock, segs)).Sends orderly := by
  have hextend := h.extend [] (.inl rfl) hearly
    ((append_nil c.written).symm ▸ hsegs) ((append_nil c.written).symm ▸ hready)
  rwa [append_nil] at hextend

theorem AllCarry.of_empty (h : ∀ seg ∈ segs, seg.data = [] ∧ seg.flags.fin = false) :
    AllCarry base written segs :=
  fun seg hseg => ⟨.of_nil (h seg hseg).1, (h seg hseg).2⟩

theorem Conn.Sends.send_ack (h : c.Sends orderly) : (c.after (sendAck c.sock)).Sends orderly :=
  h.after (fun hstate => send_ack_state c.sock ▸ hstate)
    (.of_empty fun _ hseg => send_ack_sent hseg)
    ((send_ack_same c.sock).rx.ready h.ready)

theorem read_sent (h : seg ∈ (tcpRead s len).2.2) :
    seg.data = [] ∧ seg.flags.fin = false := by
  unfold tcpRead at h
  dsimp only at h
  split_ifs at h
  · cases h
  · exact send_ack_sent h
  · cases h

/-- Outside `STATE_ESTABLISHED` and `STATE_CLOSE_WAIT` nothing is written and nothing sent again. -/
theorem write_round_other (h : s.state ≠ .established ∧ s.state ≠ .closeWait) (data : List UInt8) :
    writeLen s data = 0 ∧ tcpWriteRound s data = (s, []) ∧ tcpRetransmit s = (s, []) := by
  have hlen : writeLen s data = 0 := if_pos h
  refine ⟨hlen, ?_, if_pos h⟩
  unfold tcpWriteRound
  rw [hlen]
  exact if_pos rfl

section Steps

variable [DecidableEq Tid] {b : Build}

section

variable (h : c.Sends orderly)
include h

theorem Conn.Sends.read (len : ℕ) (hstep : c.step b (.read len) = some c') : c'.Sends orderly := by
  cases hstep
  have hsame := read_rx c.sock len
  have hafter : (c.after (tcpRead c.sock len).2).Sends orderly :=
    h.after (fun hearly => hsame.state ▸ hearly) (.of_empty fun _ hseg => read_sent hseg)
      (hsame.ready h.ready)
  exact { hafter with }

theorem Conn.Sends.write (data : List UInt8) (hstep : c.step b (.write data) = some c') :
    c'.Sends orderly := by
  cases hstep
  have hstate := write_round_state c.sock data
  by_cases hopen : c.sock.state = .established ∨ c.sock.state = .closeWait
  · obtain ⟨acked, outstanding, hsending⟩ := h.ready.sending hopen
    obtain ⟨outstanding', hsending', hsegs, -⟩ := hsending.writeRound data
    exact h.extend _ (.inr (.inr (.inr hopen))) (fun hearly => hstate ▸ hearly) hsegs
      (.of_sending (hstate.symm ▸ hopen) hsending')
  obtain ⟨hlen, hround, -⟩ := write_round_other (not_or.mp hopen) data
  rw [hlen, hround, take_zero, append_nil]
  exact h.after id (forall_mem_nil _) h.ready

theorem Conn.Sends.retransmit (hstep : c.step b .retransmit = some c') : c'.Sends orderly := by
  cases hstep
  have hstate := (retransmit_same c.sock).rx.state
  by_cases hopen : c.sock.state = .established ∨ c.sock.state = .closeWait
  · obtain ⟨acked, outstanding, hsending⟩ := h.ready.sending hopen
    obtain ⟨hsending', hsegs, -⟩ := hsending.retransmit
    exact h.after (fun hearly => hstate ▸ hearly) hsegs
      (.of_sending (hstate.symm ▸ hopen) hsending')
  · rw [(write_round_other (not_or.mp hopen) []).2.2]
    exact h.after id (forall_mem_nil _) h.ready

omit [DecidableEq Tid] in
/-- The number of a `FIN`. -/
theorem Conn.Sends.low_eq
    (hstate : c.sock.state = .synRcvd ∨ c.sock.state = .established ∨ c.sock.state = .closeWait)
    (hacked : c.sock.txBufferOffset = 0) :
    c.sock.txWinLow = c.txBase + BitVec.ofNat 32 c.written.length := by
  rcases hstate with hstate | hstate
  · obtain ⟨hunsent, hlow⟩ := h.ready.syn_rcvd hstate
    rw [hlow, hunsent.written]
    exact (BitVec.add_zero _).symm
  obtain ⟨acked, outstanding, hsending⟩ := h.ready.sending hstate
  have hlength := hsending.length
  rw [hacked] at hlength
  rw [hsending.low, ← hlength]
  rfl

theorem Conn.Sends.close (hguard : orderly → AllAcked c .close)
    (hstep : c.step b .close = some c') :
    c'.Sends orderly := by
  cases hstep
  rcases close_cases c.sock with ⟨heq, -⟩ | ⟨hstate, state, hlate, heq⟩
  · rw [heq]
    exact h.after id (forall_mem_nil _) h.ready
  have hlate' : ¬ (sendFin c.sock state).1.state.Early := by rwa [send_fin_state]
  rw [heq]
  exact ⟨forall_mem_append.mpr ⟨h.carries, forall_mem_singleton.mpr (.of_nil rfl)⟩,
    fun hord => forall_mem_append.mpr ⟨h.fin_last hord,
      forall_mem_singleton.mpr fun _ => h.low_eq hstate (hguard hord)⟩,
    fun hearly => absurd hearly hlate', .of_late hlate'⟩

end

/-! ## Packets -/

variable {p : Packet} {o : Outcome Tid}

theorem input_data_rx (h : inputData b s p = some o) :
    SameButRx s o.socket ∧ ∀ seg ∈ o.sent, seg.data = [] ∧ seg.flags.fin = false := by
  unfold inputData at h
  split at h
  · rcases handle_data_cases h with ⟨-, -, source, -, -, hsocket⟩ | ⟨-, -, hsocket, hsent⟩
    · have htake : SameButRx s (takeData s source (copyLen b s p.dataLen p.seqNum)) :=
        ⟨_, _, _, _, rfl⟩
      rcases hsocket with ⟨hsocket, hsent⟩ | ⟨hsocket, hsent⟩
      · rw [hsocket, hsent]
        exact ⟨htake, forall_mem_nil _⟩
      · rw [hsocket, hsent]
        exact ⟨(htake.trans (send_ack_same _).rx).trans ⟨_, _, _, _, rfl⟩,
          fun seg hseg => send_ack_sent hseg⟩
    · rw [hsocket, hsent]
      exact ⟨(send_ack_same s).rx, fun seg hseg => send_ack_sent hseg⟩
  · cases h
    exact ⟨⟨_, _, _, _, rfl⟩, forall_mem_nil _⟩

omit [DecidableEq Tid] in
/-- The `FIN` changes nothing on the sending side but the state. -/
theorem input_fin_rx (hstate : o.socket.state = .established)
    (hsent : ∀ seg ∈ o.sent, seg.data = [] ∧ seg.flags.fin = false) :
    SameButRx { o.socket with state := (inputFin o p).socket.state } (inputFin o p).socket ∧
      ((inputFin o p).socket.state = .established ∨ (inputFin o p).socket.state = .closeWait) ∧
      ∀ seg ∈ (inputFin o p).sent, seg.data = [] ∧ seg.flags.fin = false := by
  unfold inputFin
  split
  · obtain ⟨high, hsame⟩ := send_ack_same { o.socket with rxWinLow := o.socket.rxWinLow + 1 }
    refine ⟨?_, .inr rfl, forall_mem_append.mpr ⟨hsent, fun seg hseg => send_ack_sent hseg⟩⟩
    dsimp only [Outcome.thenAck]
    rw [hsame]
    exact ⟨_, _, _, _, rfl⟩
  · exact ⟨⟨_, _, _, _, rfl⟩, .inl hstate, hsent⟩

omit [DecidableEq Tid] in
theorem Ready.inputAck (hready : Ready s base written) (p : Packet)
    (hstate : s.state = .established ∨ s.state = .closeWait) :
    ∃ acked outstanding, Sending (inputAck s p) base written acked outstanding := by
  obtain ⟨acked, outstanding, h⟩ := hready.sending hstate
  unfold Tcp.inputAck
  split
  · exact h.handleAck _ _
  · exact ⟨_, _, h⟩

omit [DecidableEq Tid] in
/-- A packet writes nothing. -/
theorem Conn.Sends.receive (h : c.Sends orderly)
    (hearly : o.socket.state.Early → c.sock.state.Early)
    (hsent : ∀ seg ∈ o.sent, seg.data = [] ∧ seg.flags.fin = false)
    (hready : Ready o.socket c.txBase c.written) : (c.receive o).Sends orderly := by
  have hafter := h.after hearly (.of_empty hsent) hready
  exact { hafter with }

/-- In answer to a packet nothing but acknowledgements and resets are sent. -/
theorem Input.sent (h : Input b s p o) : ∀ seg ∈ o.sent, seg.data = [] ∧ seg.flags.fin = false := by
  cases h with
  | reset | accept | closeWait => exact forall_mem_nil _
  | refuse =>
    intro seg hseg
    unfold sendReset at hseg
    split at hseg
    · cases hseg
    · obtain rfl := mem_singleton.mp hseg
      exact ⟨rfl, rfl⟩
  | connect | closeWaitFin => exact fun seg hseg => send_ack_sent hseg
  | @data hstate o' ho' =>
    obtain ⟨hsame, hsent⟩ := input_data_rx ho'
    exact (input_fin_rx (hsame.state.trans ((input_ack_state ..).trans hstate)) hsent).2.2
  | late _ _ hsent => exact hsent

theorem Conn.Sends.input (h : c.Sends orderly) (hstep : c.step b (.input p) = some c') :
    c'.Sends orderly := by
  obtain ⟨o, ho, rfl⟩ := Option.map_eq_some_iff.mp hstep
  have hinput := input_of_tcp_input ho
  have hsent := hinput.sent
  cases hinput with
  | reset =>
    have hlate : ¬ TcpState.closed.Early := by decide
    exact h.receive (fun hearly => absurd hearly hlate) hsent (.of_late hlate)
  | refuse => exact h.receive id hsent h.ready
  | accept hstate =>
    obtain ⟨hunsent, hlow⟩ := h.ready.syn_rcvd hstate
    exact h.receive (fun _ => .inr (.inl hstate)) hsent
      (Unsent.ready { hunsent with } hlow hlow rfl)
  | connect hstate =>
    obtain ⟨hunsent, hlow⟩ := h.ready.syn_sent hstate
    refine h.receive (fun _ => .inl hstate) hsent ?_
    refine (send_ack_same _).rx.ready ?_
    exact Unsent.ready { hunsent with } hlow hlow rfl
  | @data hstate o' ho' =>
    obtain ⟨acked, outstanding, hacked⟩ := h.ready.inputAck p (.inl hstate)
    obtain ⟨hsame, hsent'⟩ := input_data_rx ho'
    obtain ⟨hsame', hstate', -⟩ :=
      input_fin_rx (p := p) (hsame.state.trans ((input_ack_state ..).trans hstate)) hsent'
    have hfin := hsame'.sending ((hsame.sending hacked).congr rfl rfl rfl rfl rfl)
    exact h.receive (fun _ => .inr (.inr (.inl hstate))) hsent (.of_sending hstate' hfin)
  | closeWait hstate =>
    obtain ⟨acked, outstanding, hacked⟩ := h.ready.inputAck p (.inr hstate)
    have hstate' : (inputAck c.sock p).state = .closeWait := (input_ack_state ..).trans hstate
    exact h.receive (fun _ => .inr (.inr (.inr hstate))) hsent (.of_sending (.inr hstate') hacked)
  | closeWaitFin hstate =>
    obtain ⟨acked, outstanding, hacked⟩ := h.ready.inputAck p (.inr hstate)
    have hstate' : (sendAck (inputAck c.sock p)).1.state = .closeWait :=
      (send_ack_state _).trans ((input_ack_state ..).trans hstate)
    exact h.receive (fun _ => .inr (.inr (.inr hstate))) hsent
      (.of_sending (.inr hstate') ((send_ack_same _).rx.sending hacked))
  | late hstate hstate' _ =>
    exact h.receive (fun hearly => absurd hearly hstate') hsent (.of_late hstate')

theorem Conn.Sends.step {e : Event} (h : c.Sends orderly) (hguard : orderly → AllAcked c e)
    (hstep : c.step b e = some c') : c'.Sends orderly := by
  cases e with
  | input p => exact h.input hstep
  | read len => exact h.read len hstep
  | write data => exact h.write data hstep
  | retransmit => exact h.retransmit hstep
  | delayedAck =>
    cases hstep
    exact h.send_ack
  | close => exact h.close hguard hstep

omit [DecidableEq Tid] in
theorem start_sends {rand : BitVec 32} {r : Socket Tid × List Segment}
    (hsent : ∀ seg ∈ r.2, seg.data = [] ∧ seg.flags.fin = false)
    (hready : Ready r.1 (rand + 1) []) :
    (Conn.start rand r).Sends orderly := by
  refine ⟨fun seg hseg => .of_nil (hsent seg hseg).1, fun _ seg hseg hfin => ?_,
    fun _ seg hseg => (hsent seg hseg).2, hready⟩
  exact absurd hfin (by rw [(hsent seg hseg).2]; decide)

omit [DecidableEq Tid] in
theorem Conn.Opened.sends (h : c.Opened) : c.Sends orderly := by
  obtain ⟨rand, rxRaw, txRaw, rfl | ⟨p, rfl⟩⟩ := h
  · refine start_sends (fun seg hseg => ?_) ⟨fun _ => ⟨⟨rfl, rfl, rfl⟩, rfl⟩, nofun, ?_⟩
    · obtain rfl := mem_singleton.mp hseg
      exact ⟨rfl, rfl⟩
    · rintro (hst | hst) <;> cases hst
  obtain ⟨t, ht⟩ : ∃ t : Socket Tid, t = acceptSocket rand rxRaw txRaw p := ⟨_, rfl⟩
  obtain ⟨high, hsame⟩ := move_edge_same t
  have hstate : t.state = .synRcvd := ht ▸ rfl
  have hlow : t.txWinLow = rand := ht ▸ rfl
  have hsize : t.txBufferSize = defaultTxBufferSize := ht ▸ rfl
  have hoffset : t.txBufferOffset = 0 := ht ▸ rfl
  unfold acceptSyn
  rw [← ht]
  refine start_sends (fun seg hseg => ?_) ?_
  · obtain rfl := mem_singleton.mp hseg
    exact ⟨rfl, rfl⟩
  show Ready { moveEdge t with txWinLow := (moveEdge t).txWinLow + 1 } (rand + 1) []
  rw [hsame]
  refine ⟨fun hst => ?_, fun _ => ⟨⟨hsize, hoffset, rfl⟩, ?_⟩, fun hst => ?_⟩
  · exact absurd (hstate.symm.trans hst) (by decide)
  · exact congrArg (· + 1) hlow
  · rcases hst with hst | hst <;> exact absurd (hstate.symm.trans hst) (by decide)

/-- Every segment with data carries the bytes that the application wrote at the place that its
number says. A `FIN` has the number behind the last byte written, if the connection is closed only
when all data is acknowledged. -/
theorem transmit_stream (h : Transition.Reachable (Conn.step b) Always Conn.Opened c) :
    (∀ seg ∈ c.sent, seg.data ≠ [] → ∃ pos, seg.seq = c.txBase + BitVec.ofNat 32 pos ∧
      pos + seg.data.length ≤ c.written.length ∧
      seg.data = (c.written.drop pos).take seg.data.length) ∧
    (Transition.Reachable (Conn.step b) AllAcked Conn.Opened c → ∀ seg ∈ c.sent,
      seg.flags.fin = true → seg.seq = c.txBase + BitVec.ofNat 32 c.written.length) := by
  refine ⟨?_, fun hacked => ?_⟩
  · have hsends : c.Sends False :=
      Transition.Reachable.invariant (P := Conn.Sends False) (fun h => h.sends)
        (fun h _ => h.step False.elim) h
    exact hsends.carries
  · have hsends : c.Sends True :=
      Transition.Reachable.invariant (P := Conn.Sends True) (fun h => h.sends)
        (fun h hguard => h.step fun _ => hguard) hacked
    exact hsends.fin_last trivial

end Steps

/-- Three bytes are written, sent twice, and acknowledged before the connection is closed. -/
def orderlyRun : List Event :=
  [.input lastHandshake, .write [1, 2, 3], .retransmit,
    .input ⟨.ofAck, 100, 4, 8192, fun _ => 0, 0⟩, .close]

theorem transmit_stream_three : ∃ c : Conn Unit,
    Transition.Reachable (Conn.step releaseBuild) AllAcked Conn.Opened c ∧ c.written = [1, 2, 3] ∧
    (∃ seg ∈ c.sent, seg.data = [1, 2, 3] ∧ ∃ pos, seg.seq = c.txBase + BitVec.ofNat 32 pos ∧
      pos + seg.data.length ≤ c.written.length ∧
      seg.data = (c.written.drop pos).take seg.data.length) ∧
    ∃ seg ∈ c.sent, seg.flags.fin = true ∧
      seg.seq = c.txBase + BitVec.ofNat 32 c.written.length := by
  have hrun : ∃ c ∈ Transition.run (Conn.step releaseBuild) accepted orderlyRun,
      c.written = [1, 2, 3] ∧ (∃ seg ∈ c.sent, seg.data = [1, 2, 3]) ∧
        ∃ seg ∈ c.sent, seg.flags.fin = true := by
    decide +kernel
  have hopened : accepted.Opened := ⟨0, _, _, .inr ⟨_, rfl⟩⟩
  obtain ⟨c, hc, hwritten, ⟨seg, hseg, hdata⟩, fin, hfin, hflag⟩ := hrun
  have hacked : Transition.Reachable (Conn.step releaseBuild) AllAcked Conn.Opened c :=
    Transition.Reachable.run (.init hopened) (by decide +kernel) hc
  obtain ⟨hcarries, hlast⟩ := transmit_stream
    (Transition.Reachable.run (.init hopened) (admits_always _ _) hc)
  exact ⟨c, hacked, hwritten, ⟨seg, hseg, hdata, hcarries seg hseg (by rw [hdata]; decide)⟩,
    fin, hfin, hflag, hlast hacked fin hfin hflag⟩

/-- One byte is written and the connection is closed before it is acknowledged. The `FIN` has the
number of that byte. -/
theorem fin_before_data : ∃ c : Conn Unit,
    Transition.run (Conn.step releaseBuild) accepted
      [.input lastHandshake, .write [1], .close] = some c ∧ c.written = [1] ∧
    (∃ seg ∈ c.sent, seg.data = [1] ∧ seg.seq = c.txBase) ∧
    ∃ seg ∈ c.sent, seg.flags.fin = true ∧ seg.seq = c.txBase ∧
      seg.seq ≠ c.txBase + BitVec.ofNat 32 c.written.length := by
  change ∃ c ∈ Transition.run (Conn.step releaseBuild) accepted
    [.input lastHandshake, .write [1], .close], _
  decide +kernel

end NusaKernel.Tcp
