import NusaKernel.Tcp.Connection

/-!
# The receive window of a TCP connection (`lib/minip/tcp.c`)

`rx_win_low` follows the data that arrives, `rx_win_high` is recomputed from the free space of the
receive buffer whenever something is sent. What is buffered and the open part of the window never
exceed the capacity of the buffer, so that all that is acknowledged is stored, and the right edge
that the peer is told never moves back (`window_stored`).

The test for a `FIN` compares `rx_win_low` with the number of the last byte of the segment and not
with the number behind it. If the window ends one byte before the segment does, the `FIN` is taken
in place of that byte, which is acknowledged and lost (`fin_acknowledges_dropped_byte`).
-/

namespace NusaKernel.Tcp

open List Transition Ring
open Cbuf (cbufSpaceUsed cbufSize queue)

variable {Tid : Type*}

/-! ## Numbers -/

theorem ofNat_sub_ofNat {x y : ℕ} (h : y ≤ x) :
    BitVec.ofNat 32 x - BitVec.ofNat 32 y = BitVec.ofNat 32 (x - y) := by
  refine (BitVec.eq_sub_iff_add_eq.mpr ?_).symm
  rw [← BitVec.ofNat_add, Nat.sub_add_cancel h]

/-- Numbers that are less than half the range apart are in order. -/
theorem sequence_gte_ofNat {x y : ℕ} (hle : y ≤ x) (hlt : x < y + 2 ^ 31) :
    sequenceGte (BitVec.ofNat 32 x) (BitVec.ofNat 32 y) := by
  rw [sequenceGte, SerialOrder.toInt_ofNat_sub_ofNat 31 (by omega) hlt]
  omega

/-! ## Room for the window -/

/-- The window goes from `low` to `high`, and what is buffered and the window fit the buffer. -/
structure Room (s : Socket Tid) (low high : ℕ) : Prop where
  size : s.rxWinSize = defaultRxWindowSize
  capacity : cbufSize s.rxBuffer = 8192
  low_eq : s.rxWinLow = BitVec.ofNat 32 low
  high_eq : s.rxWinHigh = BitVec.ofNat 32 high
  fits : cbufSpaceUsed s.rxBuffer + high ≤ low + 8191

/-- The right edge that a segment tells the peer. -/
def edge (seg : Segment) : BitVec 32 := seg.ack + seg.win.setWidth 32

/-- The right edges that the peer was told never moved back, and the last one is `high`. -/
structure Told (sent : List Segment) (high : BitVec 32) : Prop where
  chain : (sent.filter (·.flags.ack)).IsChain fun older newer =>
    sequenceGte (edge newer) (edge older)
  last : ∀ seg ∈ (sent.filter (·.flags.ack)).getLast?, edge seg = high

variable {s s' : Socket Tid} {sent : List Segment} {low high n : ℕ} {seg : Segment}
  {segs : List Segment} {flags : Flags} {sequence hi : BitVec 32}

theorem SameButEdge.buffer (h : SameButEdge s s') : s'.rxBuffer = s.rxBuffer := by
  obtain ⟨high, rfl⟩ := h
  rfl

theorem SameButEdge.win_low (h : SameButEdge s s') : s'.rxWinLow = s.rxWinLow := by
  obtain ⟨high, rfl⟩ := h
  rfl

section

variable (h : Room s low high)
include h

theorem Room.used_le : cbufSpaceUsed s.rxBuffer ≤ 8191 := by
  have hlt := Cbuf.space_used_lt s.rxBuffer
  rw [h.capacity] at hlt
  omega

theorem Room.congr (hsize : s'.rxWinSize = s.rxWinSize) (hbuffer : s'.rxBuffer = s.rxBuffer)
    (hlow : s'.rxWinLow = s.rxWinLow) (hhigh : s'.rxWinHigh = s.rxWinHigh) : Room s' low high :=
  ⟨hsize.trans h.size, hbuffer ▸ h.capacity, hlow.trans h.low_eq, hhigh.trans h.high_eq,
    hbuffer ▸ h.fits⟩

theorem Room.room_edge : roomEdge s = BitVec.ofNat 32 (low + 8191 - cbufSpaceUsed s.rxBuffer) := by
  have hused := h.used_le
  rw [roomEdge, h.low_eq, h.size]
  show BitVec.ofNat 32 low + BitVec.ofNat 32 8192 - _ - BitVec.ofNat 32 1 = _
  rw [← BitVec.ofNat_add, ofNat_sub_ofNat (by omega), ofNat_sub_ofNat (by omega)]
  congr 1
  omega

/-- The right edge moves to where the buffer is full. -/
theorem Room.move_edge (hlow : low ≤ high + 1) :
    moveEdge s = { s with
      rxWinHigh := BitVec.ofNat 32 (low + 8191 - cbufSpaceUsed s.rxBuffer) } := by
  have hfits := h.fits
  have hgte : sequenceGte (roomEdge s) s.rxWinHigh := by
    rw [h.room_edge, h.high_eq]
    exact sequence_gte_ofNat (by omega) (by omega)
  rw [moveEdge, if_pos hgte, h.room_edge]

theorem Room.open_eq (hlow : low ≤ high) : (s.rxWinHigh - s.rxWinLow).toNat = high - low := by
  have hfits := h.fits
  rw [h.low_eq, h.high_eq, ofNat_sub_ofNat hlow, BitVec.toNat_ofNat, Nat.mod_eq_of_lt (by omega)]

end

/-- The window with what the peer knows of it. -/
def Offered (s : Socket Tid) (sent : List Segment) (low : ℕ) : Prop :=
  ∃ high, low ≤ high ∧ Room s low high ∧ Told sent s.rxWinHigh

theorem Offered.congr (h : Offered s sent low) (hsize : s'.rxWinSize = s.rxWinSize)
    (hbuffer : s'.rxBuffer = s.rxBuffer) (hlow : s'.rxWinLow = s.rxWinLow)
    (hhigh : s'.rxWinHigh = s.rxWinHigh) : Offered s' sent low := by
  obtain ⟨high, hle, hroom, htold⟩ := h
  exact ⟨high, hle, hroom.congr hsize hbuffer hlow hhigh, hhigh.symm ▸ htold⟩

theorem Offered.low_eq (h : Offered s sent low) : s.rxWinLow = BitVec.ofNat 32 low := by
  obtain ⟨high, -, hroom, -⟩ := h
  exact hroom.low_eq

theorem told_of_silent (h : sent.filter (·.flags.ack) = []) (high : BitVec 32) :
    Told sent high := by
  refine ⟨?_, ?_⟩
  · rw [h]
    exact isChain_nil
  · rw [h]
    exact fun _ hseg => nomatch hseg

/-- A segment that carries no acknowledgement tells nothing. -/
theorem Told.append_other (h : Told sent hi) (hack : seg.flags.ack = false) :
    Told (sent ++ [seg]) hi := by
  have hfilter : (sent ++ [seg]).filter (·.flags.ack) = sent.filter (·.flags.ack) := by
    simp [hack]
  exact ⟨hfilter ▸ h.chain, hfilter ▸ h.last⟩

theorem Offered.append_other (h : Offered s sent low)
    (hsegs : ∀ seg ∈ segs, seg.flags.ack = false) :
    Offered s (sent ++ segs) low := by
  obtain ⟨high, hle, hroom, htold⟩ := h
  refine ⟨high, hle, hroom, ?_⟩
  induction segs generalizing sent with
  | nil =>
    rw [append_nil]
    exact htold
  | cons seg segs ih =>
    rw [forall_mem_cons] at hsegs
    have hnext := ih hsegs.2 (htold.append_other hsegs.1)
    rwa [append_assoc] at hnext

/-- The next edge is not before the last one. -/
theorem Told.append (h : Told sent hi) (hack : seg.flags.ack = true)
    (hgte : sequenceGte (edge seg) hi) : Told (sent ++ [seg]) (edge seg) := by
  have hfilter : (sent ++ [seg]).filter (·.flags.ack) = sent.filter (·.flags.ack) ++ [seg] := by
    simp [hack]
  refine ⟨?_, ?_⟩
  · rw [hfilter, isChain_append]
    refine ⟨h.chain, isChain_singleton _, fun older holder newer hnewer => ?_⟩
    simp only [head?_cons, Option.mem_some_iff] at hnewer
    rw [← hnewer, h.last older holder]
    exact hgte
  · rw [hfilter]
    simp

/-- `tcp_socket_send` moves the right edge to where the buffer is full, and says so. -/
theorem send_offered (hlow : low ≤ high + 1) (hroom : Room s low high)
    (htold : Told sent s.rxWinHigh) (data : List UInt8) (flags : Flags) (hack : flags.ack = true)
    (sequence : BitVec 32) :
    Offered (tcpSocketSend s data flags sequence).1
      (sent ++ [(tcpSocketSend s data flags sequence).2]) low := by
  have hused := hroom.used_le
  have hfits := hroom.fits
  have hmove := hroom.move_edge hlow
  have hroom' : Room (moveEdge s) low (low + 8191 - cbufSpaceUsed s.rxBuffer) := by
    rw [hmove]
    refine ⟨hroom.size, hroom.capacity, hroom.low_eq, rfl, ?_⟩
    show cbufSpaceUsed s.rxBuffer + _ ≤ _
    omega
  have hle : low ≤ low + 8191 - cbufSpaceUsed s.rxBuffer := by omega
  refine ⟨_, hle, hroom', ?_⟩
  have hopen := hroom'.open_eq hle
  have hedge : edge (tcpSocketSend s data flags sequence).2 = (moveEdge s).rxWinHigh := by
    show (if flags.ack then (moveEdge s).rxWinLow else 0) +
      (((moveEdge s).rxWinHigh - (moveEdge s).rxWinLow).setWidth 16).setWidth 32 = _
    have hwidth : (((moveEdge s).rxWinHigh - (moveEdge s).rxWinLow).setWidth 16).setWidth 32 =
        (moveEdge s).rxWinHigh - (moveEdge s).rxWinLow := by
      refine BitVec.eq_of_toNat_eq ?_
      rw [BitVec.toNat_setWidth, BitVec.toNat_setWidth, hopen]
      omega
    rw [if_pos hack, hwidth, BitVec.add_comm, BitVec.sub_add_cancel]
  show Told _ (moveEdge s).rxWinHigh
  rw [← hedge]
  refine htold.append hack ?_
  rw [hedge, hroom.high_eq, hroom'.high_eq]
  exact sequence_gte_ofNat (by omega) (by omega)

/-! ## The functions -/

theorem Offered.send (h : Offered s sent low) (data : List UInt8) (hack : flags.ack = true)
    (sequence : BitVec 32) :
    Offered (tcpSocketSend s data flags sequence).1
      (sent ++ [(tcpSocketSend s data flags sequence).2]) low := by
  obtain ⟨high, hle, hroom, htold⟩ := h
  exact send_offered (by omega) hroom htold data flags hack sequence

theorem send_ack_established (h : s.state = .established) :
    sendAck s = ((tcpSocketSend s [] .ofAck s.txWinLow).1,
      [(tcpSocketSend s [] .ofAck s.txWinLow).2]) :=
  if_neg fun hne => hne.1 h

theorem Offered.sendAck (h : Offered s sent low) :
    Offered (sendAck s).1 (sent ++ (sendAck s).2) low := by
  unfold Tcp.sendAck
  split
  · rw [append_nil]
    exact h
  · exact h.send [] rfl s.txWinLow

theorem Offered.sendRound (h : Offered s sent low) (place : ℕ) (tosend : BitVec 32) :
    Offered (sendRound s place tosend).1 (sent ++ [(sendRound s place tosend).2]) low :=
  (h.send _ rfl s.txHighestSeq).congr rfl rfl rfl rfl

theorem Offered.sendPending (outstanding pending : BitVec 32) (fuel : ℕ) (offset : BitVec 32)
    (h : Offered s sent low) :
    Offered (sendPending outstanding pending fuel s offset).1
      (sent ++ (sendPending outstanding pending fuel s offset).2) low := by
  induction fuel generalizing s sent offset with
  | zero =>
    rw [Tcp.sendPending, append_nil]
    exact h
  | succ fuel ih =>
    rw [Tcp.sendPending]
    split
    · have hround := h.sendRound (outstanding.toNat + offset.toNat)
        (segmentLen s (pending - offset))
      have hnext := ih (offset + segmentLen s (pending - offset)) hround
      rwa [append_assoc] at hnext
    · rw [append_nil]
      exact h

section

variable (h : Offered s sent low)
include h

theorem Offered.retransmit :
    Offered (tcpRetransmit s).1 (sent ++ (tcpRetransmit s).2) low := by
  unfold tcpRetransmit
  dsimp only
  split_ifs
  · rw [append_nil]
    exact h
  · rw [append_nil]
    exact h
  · exact h.send _ rfl s.txWinLow

theorem Offered.writeRound (data : List UInt8) :
    Offered (tcpWriteRound s data).1 (sent ++ (tcpWriteRound s data).2) low := by
  unfold tcpWriteRound
  dsimp only
  split
  · rw [append_nil]
    exact h
  · refine .sendPending _ _ _ _ ?_
    exact h.congr rfl rfl rfl rfl

/-- A receive buffer with less in it. -/
theorem Offered.shrink {rx : Cbuf.State Tid} (hlen : rx.lenPow2 = s.rxBuffer.lenPow2)
    (hused : cbufSpaceUsed rx ≤ cbufSpaceUsed s.rxBuffer) :
    Offered { s with rxBuffer := rx } sent low := by
  obtain ⟨high, hle, hroom, htold⟩ := h
  have hcapacity : cbufSize rx = cbufSize s.rxBuffer := by rw [cbufSize, hlen, cbufSize]
  have hfits := hroom.fits
  refine ⟨high, hle, ⟨hroom.size, hcapacity.trans hroom.capacity, hroom.low_eq, hroom.high_eq, ?_⟩,
    htold⟩
  show cbufSpaceUsed rx + high ≤ low + 8191
  omega

theorem Offered.read [DecidableEq Tid] (len : ℕ) :
    Offered (tcpRead s len).2.1 (sent ++ (tcpRead s len).2.2) low := by
  obtain ⟨-, -, hqueue, hlen, -⟩ := Cbuf.cbuf_read_spec s.rxBuffer true len
  have hshrink : Offered
      { s with rxBuffer := (Cbuf.cbufRead s.rxBuffer true len).2.2 } sent low := by
    refine h.shrink hlen ?_
    rw [← Cbuf.length_queue, ← Cbuf.length_queue, hqueue, length_drop]
    omega
  unfold tcpRead
  dsimp only
  split_ifs
  · rw [append_nil]
    exact hshrink
  · exact hshrink.sendAck
  · rw [append_nil]
    exact hshrink

end

/-- Reading moves bytes from the buffer to the application. -/
theorem read_queue [DecidableEq Tid] (s : Socket Tid) (len : ℕ) :
    (tcpRead s len).1 ++ queue (tcpRead s len).2.1.rxBuffer = queue s.rxBuffer := by
  obtain ⟨hret, hout, hqueue, -, -⟩ := Cbuf.cbuf_read_spec s.rxBuffer true len
  have hsplit : (Cbuf.cbufRead s.rxBuffer true len).2.1 ++
      queue (Cbuf.cbufRead s.rxBuffer true len).2.2 = queue s.rxBuffer := by
    rw [hout, hqueue, if_pos rfl, take_append_drop]
  unfold tcpRead
  dsimp only
  split_ifs with hzero
  · -- nothing was read
    have hnil : (Cbuf.cbufRead s.rxBuffer true len).2.1 = [] := by
      rw [hout, if_pos rfl, take_eq_nil_iff, ← length_eq_zero_iff]
      omega
    rwa [hnil] at hsplit
  · rw [(send_ack_same _).buffer]
    exact hsplit
  · exact hsplit

section Data

variable [DecidableEq Tid]

/-- Data that fits the window fits the buffer. -/
theorem Offered.takeData (h : Offered s sent low) (source : ℕ → UInt8)
    (hn : n ≤ (s.rxWinHigh - s.rxWinLow).toNat) :
    Offered (takeData s source n) sent (low + n) ∧
      queue (takeData s source n).rxBuffer = queue s.rxBuffer ++ Ring.block source 0 n := by
  obtain ⟨high, hle, hroom, htold⟩ := h
  obtain ⟨-, hqueue, hlen, -⟩ := Cbuf.cbuf_write_spec s.rxBuffer (some source) n
  have hfits := hroom.fits
  rw [hroom.open_eq hle] at hn
  have havail : n ≤ Cbuf.cbufSpaceAvail s.rxBuffer := by
    rw [Cbuf.space_avail_eq, hroom.capacity]
    omega
  rw [Nat.min_eq_left havail] at hqueue
  refine ⟨⟨high, by omega, ⟨hroom.size, ?_, ?_, hroom.high_eq, ?_⟩, htold⟩, hqueue⟩
  · show cbufSize (Cbuf.cbufWrite s.rxBuffer (some source) n).2 = 8192
    rw [cbufSize, hlen]
    exact hroom.capacity
  · show s.rxWinLow + BitVec.ofNat 32 n = _
    rw [hroom.low_eq, ← BitVec.ofNat_add]
  · show cbufSpaceUsed (Cbuf.cbufWrite s.rxBuffer (some source) n).2 + high ≤ _
    rw [← Cbuf.length_queue, hqueue, length_append, Cbuf.length_queue, length_block]
    omega

omit [DecidableEq Tid] in
theorem copy_len_le (b : Build) (s : Socket Tid) (len : ℕ) (sequence : BitVec 32) :
    copyLen b s len sequence ≤ (s.rxWinHigh - s.rxWinLow).toNat :=
  Nat.min_le_left _ _

theorem Offered.handleData {b : Build} {data : ℕ → UInt8} {len : ℕ} {o : Outcome Tid}
    (h : Offered s sent low) (ho : handleData b s data len sequence = some o) :
    Offered o.socket (sent ++ o.sent) (low + o.handed.length) ∧
      queue o.socket.rxBuffer = queue s.rxBuffer ++ o.handed ∧ o.socket.state = s.state := by
  rcases handle_data_cases ho with ⟨-, -, source, -, hhanded, hsocket⟩ |
    ⟨-, hhanded, hsocket, hsent⟩
  · obtain ⟨htake, hqueue⟩ := h.takeData source (copy_len_le b s len sequence)
    rw [hhanded, length_block]
    rcases hsocket with ⟨hsocket, hsent⟩ | ⟨hsocket, hsent⟩
    · rw [hsocket, hsent, append_nil]
      exact ⟨htake, hqueue, rfl⟩
    rw [hsocket, hsent]
    exact ⟨htake.sendAck.congr rfl rfl rfl rfl,
      (congrArg queue (send_ack_same _).buffer).trans hqueue, send_ack_state _⟩
  · rw [hhanded, hsocket, hsent, append_nil]
    exact ⟨h.sendAck, congrArg queue (send_ack_same s).buffer, send_ack_state s⟩

end Data

/-! ## Runs -/

/-- The states in which the numbers of both sides are known. -/
def TcpState.Open (state : TcpState) : Prop :=
  state = .synRcvd ∨ state = .established ∨ state = .closeWait

/-- How far the peer is acknowledged: the bytes handed to the buffer, and the `FIN`. -/
def Conn.acked (c : Conn Tid) : ℕ :=
  c.rxBase.toNat + c.handed.length + if c.sock.state = .closeWait then 1 else 0

/-- Before the answer of the peer. -/
structure Conn.Fresh (c : Conn Tid) : Prop where
  size : c.sock.rxWinSize = defaultRxWindowSize
  capacity : cbufSize c.sock.rxBuffer = 8192
  empty : queue c.sock.rxBuffer = []
  handed : c.handed = []
  delivered : c.delivered = []
  silent : c.sent.filter (·.flags.ack) = []

/-- After it. -/
structure Conn.Live (c : Conn Tid) : Prop where
  stored : c.delivered ++ queue c.sock.rxBuffer = c.handed
  offered : Offered c.sock c.sent c.acked

/-- The invariant of the receiving side. -/
structure Conn.Stored (c : Conn Tid) : Prop where
  fresh : c.sock.state = .synSent → c.Fresh
  live : c.sock.state.Open → c.Live

theorem Conn.Stored.of_late {c : Conn Tid} (h : ¬ c.sock.state.Early) : c.Stored :=
  ⟨fun hstate => absurd (.inl hstate) h, fun hstate => absurd (.inr hstate) h⟩

variable {b : Build} {c c' : Conn Tid} {r : Socket Tid × List Segment}

/-- The socket goes on in the same state, with nothing new from the peer. -/
theorem Conn.Live.after (h : c.Live) (delivered : List UInt8) (hstate : r.1.state = c.sock.state)
    (hqueue : delivered ++ queue r.1.rxBuffer = queue c.sock.rxBuffer)
    (hoffered : Offered r.1 (c.sent ++ r.2) c.acked) :
    Conn.Live { c.after r with delivered := c.delivered ++ delivered } := by
  refine ⟨?_, ?_⟩
  · show c.delivered ++ delivered ++ queue r.1.rxBuffer = c.handed
    rw [append_assoc, hqueue]
    exact h.stored
  have hacked : Conn.acked { c.after r with delivered := c.delivered ++ delivered } = c.acked := by
    show c.rxBase.toNat + c.handed.length + (if r.1.state = .closeWait then 1 else 0) = _
    rw [hstate]
    rfl
  rw [hacked]
  exact hoffered

/-- Nothing is read. -/
theorem Conn.Live.after_quiet (h : c.Live) (hstate : r.1.state = c.sock.state)
    (hbuffer : r.1.rxBuffer = c.sock.rxBuffer) (hoffered : Offered r.1 (c.sent ++ r.2) c.acked) :
    (c.after r).Live := by
  have hlive := h.after [] hstate (by rw [hbuffer]; rfl) hoffered
  rwa [append_nil] at hlive

/-- Before the answer of the peer a segment without acknowledgement may be sent. -/
theorem Conn.Fresh.append (h : c.Fresh) (hsent : ∀ seg ∈ segs, seg.flags.ack = false) :
    (c.after (c.sock, segs)).Fresh := by
  refine { h with silent := ?_ }
  show (c.sent ++ segs).filter (·.flags.ack) = []
  rw [filter_append, h.silent, nil_append, filter_eq_nil_iff]
  intro seg hseg
  rw [hsent seg hseg]
  exact Bool.false_ne_true

theorem Conn.after_nothing (c : Conn Tid) : c.after (c.sock, []) = c := by
  show ({ c with sock := c.sock, sent := c.sent ++ [] } : Conn Tid) = c
  rw [append_nil]

theorem read_empty (h : queue s.rxBuffer = []) (len : ℕ) :
    tcpRead s len = ([], s, []) := by
  have hread : Cbuf.cbufRead s.rxBuffer true len = (0, [], s.rxBuffer) := by
    exact if_neg (not_not.mpr ((Cbuf.queue_eq_nil_iff _).mp h))
  unfold tcpRead
  rw [hread]
  exact if_pos rfl

theorem input_ack_frame (s : Socket Tid) (p : Packet) :
    (inputAck s p).rxWinSize = s.rxWinSize ∧ (inputAck s p).rxBuffer = s.rxBuffer ∧
      (inputAck s p).rxWinLow = s.rxWinLow ∧ (inputAck s p).rxWinHigh = s.rxWinHigh := by
  unfold inputAck handleAck
  split_ifs <;> exact ⟨rfl, rfl, rfl, rfl⟩

theorem Offered.inputAck (h : Offered s sent low) (p : Packet) :
    Offered (inputAck s p) sent low := by
  obtain ⟨hsize, hbuffer, hlow, hhigh⟩ := input_ack_frame s p
  exact h.congr hsize hbuffer hlow hhigh

variable {p : Packet} {o : Outcome Tid} {len : ℕ} (rand : BitVec 32) {t : Socket Tid}

theorem Conn.Stored.sends (h : c.Stored) (hstate : r.1.state = c.sock.state)
    (hbuffer : r.1.rxBuffer = c.sock.rxBuffer) (hquiet : c.sock.state = .synSent → r = (c.sock, []))
    (hoffered : Offered c.sock c.sent c.acked → Offered r.1 (c.sent ++ r.2) c.acked) :
    (c.after r).Stored := by
  refine ⟨fun hsyn => ?_, fun hopen => ?_⟩
  · have hsyn : c.sock.state = .synSent := hstate.symm.trans hsyn
    rw [hquiet hsyn, c.after_nothing]
    exact h.fresh hsyn
  · have hlive := h.live (hstate ▸ hopen)
    exact hlive.after_quiet hstate hbuffer (hoffered hlive.offered)

theorem write_len_syn_sent (h : s.state = .synSent) (data : List UInt8) : writeLen s data = 0 := by
  rw [writeLen, h]
  rfl

/-- The `FIN` takes one number, and the window is told anew. -/
theorem Offered.inputFin (h : Offered o.socket (sent ++ o.sent) low)
    (hstate : o.socket.state = .established) :
    Offered (inputFin o p).socket (sent ++ (inputFin o p).sent)
        (low + if (inputFin o p).socket.state = .closeWait then 1 else 0) ∧
      queue (inputFin o p).socket.rxBuffer = queue o.socket.rxBuffer ∧
      (inputFin o p).handed = o.handed := by
  unfold Tcp.inputFin
  split
  next hfin =>
    obtain ⟨high, hle, hroom, htold⟩ := h
    have hbump : Room { o.socket with rxWinLow := o.socket.rxWinLow + 1 } (low + 1) high := by
      refine { hroom with low_eq := ?_, fits := ?_ }
      · rw [hroom.low_eq, BitVec.ofNat_add]
        rfl
      · have hfits := hroom.fits
        show cbufSpaceUsed o.socket.rxBuffer + high ≤ low + 1 + 8191
        omega
    have hack : Tcp.sendAck { o.socket with rxWinLow := o.socket.rxWinLow + 1 } = _ :=
      send_ack_established hstate
    have hsend := send_offered (by omega) hbump htold [] .ofAck rfl o.socket.txWinLow
    rw [append_assoc] at hsend
    dsimp only [Outcome.thenAck]
    rw [hack, if_pos rfl]
    exact ⟨hsend.congr rfl rfl rfl rfl, congrArg queue (move_edge_same _).buffer, rfl⟩
  next hfin =>
    rw [hstate]
    exact ⟨h, rfl, rfl⟩

/-- The window of a socket that has received nothing yet. -/
theorem room_of_empty (hsize : t.rxWinSize = defaultRxWindowSize)
    (hcapacity : cbufSize t.rxBuffer = 8192) (hempty : queue t.rxBuffer = [])
    (hhigh : t.rxWinHigh = t.rxWinLow + defaultRxWindowSize - 1) :
    Room t t.rxWinLow.toNat (t.rxWinLow.toNat + 8191) := by
  refine ⟨hsize, hcapacity, ?_, ?_, ?_⟩
  · rw [BitVec.ofNat_toNat, BitVec.setWidth_eq]
  · rw [hhigh, BitVec.ofNat_add, BitVec.ofNat_toNat, BitVec.setWidth_eq]
    rw [BitVec.sub_eq_add_neg, BitVec.add_assoc]
    rfl
  · rw [← Cbuf.length_queue, hempty]
    show 0 + (t.rxWinLow.toNat + 8191) ≤ _
    omega

/-- The answer of the peer in `STATE_SYN_SENT`. -/
theorem Conn.Fresh.connect (h : c.Fresh) (hstate : c.sock.state = .synSent)
    (hsize : t.rxWinSize = c.sock.rxWinSize) (hbuffer : t.rxBuffer = c.sock.rxBuffer)
    (hhigh : t.rxWinHigh = t.rxWinLow + c.sock.rxWinSize - 1) (hstate' : t.state = .established) :
    (c.receive (Outcome.quiet t).thenAck).Live := by
  have hroom := room_of_empty (hsize.trans h.size) (hbuffer ▸ h.capacity) (hbuffer ▸ h.empty)
    (hhigh.trans (by rw [h.size]))
  have htold := told_of_silent h.silent t.rxWinHigh
  have hsend := send_offered (by omega) hroom htold [] .ofAck rfl t.txWinLow
  have hack := send_ack_established hstate'
  refine ⟨?_, ?_⟩
  · show c.delivered ++ queue (sendAck t).1.rxBuffer = c.handed ++ []
    rw [(send_ack_same t).buffer, hbuffer, h.empty, h.delivered, h.handed]
  have hacked : Conn.acked (c.receive (Outcome.quiet t).thenAck) = t.rxWinLow.toNat := by
    show (if c.sock.state = .synSent then (sendAck t).1.rxWinLow else c.rxBase).toNat +
      (c.handed ++ []).length + (if (sendAck t).1.state = .closeWait then 1 else 0) = _
    rw [if_pos hstate, (send_ack_same t).win_low, send_ack_state, hstate', h.handed]
    rfl
  rw [hacked]
  show Offered (sendAck t).1 (c.sent ++ ([] ++ (sendAck t).2)) _
  rw [hack]
  exact hsend

/-- A packet that hands over nothing, once the numbers of the peer are known. -/
theorem Conn.receive_eq_after (hstate : c.sock.state ≠ .synSent) (hhanded : o.handed = []) :
    c.receive o = c.after (o.socket, o.sent) := by
  unfold Conn.receive
  rw [if_neg hstate, hhanded, append_nil]
  rfl

theorem send_reset_sent (s : Socket Tid) (p : Packet) :
    ∀ seg ∈ (sendReset s p).sent, seg.flags.ack = false := by
  intro seg h
  unfold sendReset at h
  split at h
  · cases h
  · obtain rfl := mem_singleton.mp h
    rfl

theorem Conn.Stored.refuse (h : c.Stored) : (c.receive (sendReset c.sock p)).Stored := by
  refine ⟨fun hsyn => ?_, fun hopen => ?_⟩
  · obtain ⟨h1, h2, h3, h4, h5, h6⟩ := (h.fresh hsyn).append (send_reset_sent c.sock p)
    exact ⟨h1, h2, h3, (append_nil _).trans h4, h5, h6⟩
  have hne : c.sock.state ≠ .synSent := by
    rintro heq
    rcases hopen with hst | hst | hst <;> exact absurd (heq.symm.trans hst) (by decide)
  have hlive := h.live hopen
  rw [Conn.receive_eq_after hne rfl]
  exact hlive.after_quiet rfl rfl (hlive.offered.append_other (send_reset_sent c.sock p))

theorem input_fin_state (h : o.socket.state = .established) :
    (inputFin o p).socket.state ≠ .synSent := by
  unfold inputFin
  split
  · exact fun heq => nomatch heq
  · rw [h]
    decide

section

variable (rxRaw txRaw : ℕ → UInt8)

theorem create_capacity :
    cbufSize (createTcpSocket rand rxRaw txRaw : Socket Tid).rxBuffer = 8192 :=
  congrArg (2 ^ ·) (Cbuf.log2_uint_two_pow (show 13 < 32 by decide))

theorem create_empty :
    queue (createTcpSocket rand rxRaw txRaw : Socket Tid).rxBuffer = [] :=
  (Cbuf.queue_eq_nil_iff _).mpr rfl

theorem room_accept (p : Packet) :
    Room (acceptSocket rand rxRaw txRaw p : Socket Tid) (p.seqNum + 1).toNat
      ((p.seqNum + 1).toNat + 8191) :=
  room_of_empty rfl (create_capacity rand rxRaw txRaw) (create_empty rand rxRaw txRaw) rfl

/-- The socket that answers a `SYN`. -/
theorem accept_stored (p : Packet) :
    (Conn.start rand (acceptSyn rand rxRaw txRaw p : Socket Tid × List Segment)).Stored := by
  obtain ⟨t, ht⟩ : ∃ t : Socket Tid, t = acceptSocket rand rxRaw txRaw p := ⟨_, rfl⟩
  have htold : Told [] t.rxWinHigh := told_of_silent rfl t.rxWinHigh
  have hsend := send_offered (by omega) (ht ▸ room_accept rand rxRaw txRaw p) htold [] .ofSynAck rfl
    t.txWinLow
  have hempty : queue t.rxBuffer = [] := ht ▸ create_empty rand rxRaw txRaw
  have hlow : t.rxWinLow = p.seqNum + 1 := ht ▸ rfl
  have hstate : t.state = .synRcvd := ht ▸ rfl
  have hsame := move_edge_same t
  have hstate' : (moveEdge t).state = .synRcvd := hsame.rx.state.trans hstate
  unfold acceptSyn
  rw [← ht]
  refine ⟨fun hsyn => ?_, fun _ => ⟨?_, ?_⟩⟩
  · exact absurd (hstate'.symm.trans hsyn) (by decide)
  · exact (congrArg queue hsame.buffer).trans hempty
  have hacked : (moveEdge t).rxWinLow.toNat + 0 +
      (if (moveEdge t).state = .closeWait then 1 else 0) = (p.seqNum + 1).toNat := by
    rw [hstate', hsame.win_low, hlow]
    rfl
  show Offered _ _ ((moveEdge t).rxWinLow.toNat + 0 +
    (if (moveEdge t).state = .closeWait then 1 else 0))
  rw [hacked]
  exact hsend.congr rfl rfl rfl rfl

end

theorem Conn.Opened.stored (h : c.Opened) : c.Stored := by
  obtain ⟨rand, rxRaw, txRaw, rfl | ⟨p, rfl⟩⟩ := h
  · refine ⟨fun _ => ⟨rfl, ?_, ?_, rfl, rfl, rfl⟩, ?_⟩
    · exact create_capacity rand rxRaw txRaw
    · exact create_empty rand rxRaw txRaw
    · rintro (h | h | h) <;> cases h
  · exact accept_stored rand rxRaw txRaw p

/-- The number of the next byte, with the `FIN` counted. -/
theorem Conn.Live.low_eq (h : c.Live) : c.sock.rxWinLow = c.rxBase + BitVec.ofNat 32
    (c.handed.length + if c.sock.state = .closeWait then 1 else 0) := by
  rw [h.offered.low_eq, Conn.acked, Nat.add_assoc, BitVec.ofNat_add, BitVec.ofNat_toNat,
    BitVec.setWidth_eq]

theorem Conn.Stored.low_eq (h : c.Stored) (hstate : c.sock.state = .established) :
    c.sock.rxWinLow = c.rxBase + BitVec.ofNat 32 c.handed.length := by
  rw [(h.live (.inr (.inl hstate))).low_eq, hstate]
  rfl

variable [DecidableEq Tid] {s : Socket Tid}

theorem Conn.Stored.read (h : c.Stored) (len : ℕ) (hstep : c.step b (.read len) = some c') :
    c'.Stored := by
  cases hstep
  have hstate := (read_rx c.sock len).state
  refine ⟨fun hsyn => ?_, fun hopen => ?_⟩
  · have hfresh := h.fresh (hstate.symm.trans hsyn)
    rw [read_empty hfresh.empty, c.after_nothing, append_nil]
    exact hfresh
  · have hlive := h.live (hstate ▸ hopen)
    exact hlive.after _ hstate (read_queue c.sock len) (hlive.offered.read len)

theorem Conn.Stored.write (h : c.Stored) (data : List UInt8)
    (hstep : c.step b (.write data) = some c') : c'.Stored := by
  cases hstep
  have hafter : (c.after (tcpWriteRound c.sock data)).Stored := by
    obtain ⟨_, _, _, hsame⟩ := write_round_same c.sock data
    refine h.sends (write_round_state ..) (by rw [hsame]) (fun hsyn => ?_)
      fun hoffered => hoffered.writeRound data
    rw [tcpWriteRound, write_len_syn_sent hsyn]
    exact if_pos rfl
  refine ⟨fun hsyn => ?_, fun hopen => ?_⟩
  · obtain ⟨h1, h2, h3, h4, h5, h6⟩ := hafter.fresh hsyn
    exact ⟨h1, h2, h3, h4, h5, h6⟩
  · obtain ⟨h1, h2⟩ := hafter.live hopen
    exact ⟨h1, h2⟩

theorem Conn.Stored.retransmit (h : c.Stored) (hstep : c.step b .retransmit = some c') :
    c'.Stored := by
  cases hstep
  refine h.sends (retransmit_same _).rx.state (retransmit_same _).buffer (fun hsyn => ?_)
    fun hoffered => hoffered.retransmit
  rw [tcpRetransmit, hsyn]
  rfl

theorem Conn.Stored.delayedAck (h : c.Stored) (hstep : c.step b .delayedAck = some c') :
    c'.Stored := by
  cases hstep
  refine h.sends (send_ack_state _) (send_ack_same _).buffer (fun hsyn => ?_)
    fun hoffered => hoffered.sendAck
  rw [sendAck, hsyn]
  rfl

theorem Conn.Stored.close (h : c.Stored) (hstep : c.step b .close = some c') : c'.Stored := by
  cases hstep
  rcases close_cases c.sock with ⟨heq, -⟩ | ⟨-, state, hstate, heq⟩
  · rw [heq, c.after_nothing]
    exact h
  · refine .of_late ?_
    show ¬ (tcpClose c.sock).1.state.Early
    rw [heq, send_fin_state]
    exact hstate

/-! ## Packets -/

theorem Offered.inputData (h : Offered s sent low) (ho : inputData b s p = some o) :
    Offered o.socket (sent ++ o.sent) (low + o.handed.length) ∧
      queue o.socket.rxBuffer = queue s.rxBuffer ++ o.handed ∧ o.socket.state = s.state := by
  unfold Tcp.inputData at ho
  split at ho
  · exact h.handleData ho
  · cases ho
    refine ⟨?_, (append_nil _).symm, rfl⟩
    rw [show sent ++ (Outcome.quiet s).sent = sent from append_nil sent]
    exact h

/-- What `tcp_input` does in `STATE_ESTABLISHED`. -/
theorem Conn.Live.data (h : c.Live) (hstate : c.sock.state = .established)
    (ho : inputData b (inputAck c.sock p) p = some o) : (c.receive (inputFin o p)).Live := by
  have hacked : c.acked = c.rxBase.toNat + c.handed.length := by
    rw [Conn.acked, hstate]
    rfl
  obtain ⟨hdata, hqueue, hstate'⟩ := (h.offered.inputAck p).inputData ho
  rw [input_ack_state, hstate] at hstate'
  rw [(input_ack_frame c.sock p).2.1] at hqueue
  obtain ⟨hfin, hqueue', hhanded⟩ := hdata.inputFin (p := p) hstate'
  refine ⟨?_, ?_⟩
  · show c.delivered ++ queue (inputFin o p).socket.rxBuffer = c.handed ++ (inputFin o p).handed
    rw [hqueue', hqueue, hhanded, ← append_assoc, h.stored]
  have hbase : Conn.acked (c.receive (inputFin o p)) =
      c.acked + o.handed.length + if (inputFin o p).socket.state = .closeWait then 1 else 0 := by
    show (if c.sock.state = .synSent then _ else c.rxBase).toNat +
      (c.handed ++ (inputFin o p).handed).length + _ = _
    rw [if_neg (by rw [hstate]; decide), hhanded, length_append, hacked]
    show _ + (if (inputFin o p).socket.state = .closeWait then 1 else 0) = _
    omega
  rw [hbase]
  exact hfin

theorem Conn.Stored.input (h : c.Stored) (hstep : c.step b (.input p) = some c') : c'.Stored := by
  obtain ⟨o, ho, rfl⟩ := Option.map_eq_some_iff.mp hstep
  cases input_of_tcp_input ho with
  | reset => exact .of_late (show ¬ TcpState.closed.Early by decide)
  | refuse => exact h.refuse
  | accept hstate =>
    have hlive := h.live (.inl hstate)
    rw [Conn.receive_eq_after (by rw [hstate]; decide) rfl]
    refine ⟨fun hsyn => (nomatch hsyn), fun _ => ⟨hlive.stored, ?_⟩⟩
    have hacked : c.acked = c.rxBase.toNat + c.handed.length + 0 := by
      rw [Conn.acked, hstate]
      rfl
    have hoffered := hlive.offered
    rw [hacked] at hoffered
    rw [show c.sent = c.sent ++ [] from (append_nil _).symm] at hoffered
    exact hoffered.congr rfl rfl rfl rfl
  | connect hstate =>
    refine ⟨fun hsyn => ?_, fun _ => (h.fresh hstate).connect hstate rfl rfl rfl rfl⟩
    have hack := (send_ack_state _).symm.trans hsyn
    exact nomatch hack
  | @data hstate o' ho' =>
    have hlive := h.live (.inr (.inl hstate))
    refine ⟨fun hsyn => absurd hsyn (input_fin_state ?_), fun _ => hlive.data hstate ho'⟩
    rw [((hlive.offered.inputAck p).inputData ho').2.2, input_ack_state, hstate]
  | closeWait hstate =>
    rw [Conn.receive_eq_after (by rw [hstate]; decide) rfl]
    refine h.sends (input_ack_state ..) (input_ack_frame c.sock p).2.1 ?_ fun hoffered => ?_
    · exact fun hsyn => absurd (hstate.symm.trans hsyn) (by decide)
    · rw [show (Outcome.quiet (inputAck c.sock p)).sent = [] from rfl, append_nil]
      exact hoffered.inputAck p
  | closeWaitFin hstate =>
    rw [Conn.receive_eq_after (by rw [hstate]; decide) rfl]
    refine h.sends ((send_ack_state _).trans (input_ack_state ..))
      ((send_ack_same _).buffer.trans (input_ack_frame c.sock p).2.1) ?_ fun hoffered => ?_
    · exact fun hsyn => absurd (hstate.symm.trans hsyn) (by decide)
    · exact (hoffered.inputAck p).sendAck
  | late _ hstate' => exact .of_late hstate'

theorem Conn.Stored.step {e : Event} (h : c.Stored) (hstep : c.step b e = some c') : c'.Stored := by
  cases e with
  | input p => exact h.input hstep
  | read len => exact h.read len hstep
  | write data => exact h.write data hstep
  | retransmit => exact h.retransmit hstep
  | delayedAck => exact h.delayedAck hstep
  | close => exact h.close hstep

/-- The states of a connection. -/
def Conn.Run (b : Build) : Conn Tid → Prop := Transition.Reachable (Conn.step b) Always Conn.Opened

theorem Conn.Run.stored (h : c.Run b) : c.Stored :=
  Transition.Reachable.invariant (P := Conn.Stored) (fun h => h.stored)
    (fun h _ => h.step) h

/-- A reset closes the connection. -/
theorem closed_of_reset (hrst : p.flags.rst = true) (hstep : c.step b (.input p) = some c') :
    c'.sock.state = .closed := by
  obtain ⟨o, ho, rfl⟩ := Option.map_eq_some_iff.mp hstep
  unfold tcpInput at ho
  rw [if_pos hrst] at ho
  cases ho
  rfl

/-- What a packet does to an established connection that it does not reset. -/
theorem Conn.Live.input (h : c.Live) (hstate : c.sock.state = .established)
    (hrst : ¬ p.flags.rst = true) (hstep : c.step b (.input p) = some c') :
    ∃ o, inputData b (inputAck c.sock p) p = some o ∧ c'.handed = c.handed ++ o.handed ∧
      o.socket.rxWinLow = c.sock.rxWinLow + BitVec.ofNat 32 o.handed.length ∧
      (c'.sock.state = .closeWait ↔
        p.flags.fin = true ∧ sequenceGte o.socket.rxWinLow p.highestSequence) ∧
      (c'.sock.state = .closeWait → c'.sock.rxWinLow = o.socket.rxWinLow + 1) := by
  obtain ⟨o, ho, rfl⟩ := Option.map_eq_some_iff.mp hstep
  unfold tcpInput at ho
  rw [if_neg hrst, hstate] at ho
  obtain ⟨o, ho', rfl⟩ := Option.map_eq_some_iff.mp ho
  obtain ⟨hoffered, -, hstate'⟩ := (h.offered.inputAck p).inputData ho'
  rw [input_ack_state, hstate] at hstate'
  obtain ⟨hfin, -, hhanded⟩ := hoffered.inputFin (p := p) hstate'
  refine ⟨o, ho', ?_, ?_, ?_, fun hwait => ?_⟩
  · show c.handed ++ (inputFin o p).handed = _
    rw [hhanded]
  · rw [hoffered.low_eq, h.offered.low_eq, BitVec.ofNat_add]
  · show (inputFin o p).socket.state = .closeWait ↔ _
    unfold inputFin
    split
    next hfin => exact iff_of_true rfl hfin
    next hfin =>
      rw [hstate']
      exact iff_of_false (by decide) hfin
  · show (inputFin o p).socket.rxWinLow = _
    rw [hfin.low_eq, if_pos (show (inputFin o p).socket.state = .closeWait from hwait),
      hoffered.low_eq, BitVec.ofNat_add]
    rfl

/-- A segment that begins with the next byte is taken as far as the window is open. -/
theorem input_data_at (ho : inputData b s p = some o) (hseq : p.seqNum = s.rxWinLow)
    (hlen : p.dataLen ≤ 2 ^ 31) :
    o.handed = Ring.block p.data 0 (min (s.rxWinHigh - s.rxWinLow).toNat p.dataLen) := by
  unfold inputData at ho
  rw [hseq] at ho
  split at ho
  next hpos => exact handle_data_bottom b s p.data hpos hlen ho
  next hzero =>
    cases ho
    rw [Nat.eq_zero_of_not_pos hzero, Nat.min_zero]
    rfl

/-- Of a segment that does not contain the next byte nothing is taken. -/
theorem input_data_outside (ho : inputData b s p = some o)
    (hnot : ¬ (0 < p.dataLen ∧ inOrder s p.dataLen p.seqNum)) : o.handed = [] := by
  unfold inputData at ho
  split at ho
  next hpos =>
    rcases handle_data_cases ho with ⟨hin, -⟩ | ⟨-, hhanded, -⟩
    · exact absurd ⟨hpos, hin⟩ hnot
    · exact hhanded
  next =>
    cases ho
    rfl

omit [DecidableEq Tid] in
theorem in_order_input_ack (s : Socket Tid) (p : Packet) :
    inOrder (inputAck s p) p.dataLen p.seqNum ↔ inOrder s p.dataLen p.seqNum := by
  unfold inOrder
  rw [(input_ack_frame s p).2.2.1]

/-- A segment that contains the next byte begins with it, and its data fits the window if a `FIN` is
behind it. -/
def FitsWindow (s : Socket Tid) (p : Packet) : Prop :=
  p.dataLen ≤ 2 ^ 31 ∧
    if p.seqNum = s.rxWinLow then
      p.flags.fin = true → p.dataLen ≤ (s.rxWinHigh - s.rxWinLow).toNat
    else ¬ inOrder s p.dataLen p.seqNum

/-- What is buffered and the open part of the window fit the buffer, the right edge that the peer
is told never moves back, and every byte up to `rx_win_low` was read or is in the buffer; in
`STATE_CLOSE_WAIT` one more number stands for the `FIN`. Of a segment that fits the window the bytes
from the first on are stored, as many as the window is open for, and all of them if its `FIN` is
taken. -/
theorem window_stored (h : c.Run b)
    (hstate : c.sock.state = .established ∨ c.sock.state = .closeWait) :
    cbufSpaceUsed c.sock.rxBuffer + (c.sock.rxWinHigh - c.sock.rxWinLow).toNat ≤
        cbufSize c.sock.rxBuffer - 1 ∧
      (c.sent.filter (·.flags.ack)).IsChain
        (fun older newer => sequenceGte (edge newer) (edge older)) ∧
      c.delivered ++ queue c.sock.rxBuffer = c.handed ∧
      c.sock.rxWinLow = c.rxBase + BitVec.ofNat 32
        (c.handed.length + if c.sock.state = .closeWait then 1 else 0) ∧
      ∀ p c', c.sock.state = .established → FitsWindow c.sock p →
        c.step b (.input p) = some c' → c'.sock.state ≠ .closed →
        if p.seqNum = c.sock.rxWinLow then
          c'.handed = c.handed ++ Ring.block p.data 0
            (min (c.sock.rxWinHigh - c.sock.rxWinLow).toNat p.dataLen) ∧
          (c'.sock.state = .closeWait → p.dataLen ≤ (c.sock.rxWinHigh - c.sock.rxWinLow).toNat)
        else c'.handed = c.handed := by
  have hlive := h.stored.live (.inr hstate)
  obtain ⟨high, hle, hroom, htold⟩ := hlive.offered
  have hfits := hroom.fits
  refine ⟨?_, htold.chain, hlive.stored, hlive.low_eq, fun p c' hest hplace hstep hopen => ?_⟩
  · rw [hroom.open_eq hle, hroom.capacity]
    omega
  obtain ⟨hlen, hplace⟩ := hplace
  obtain ⟨o, ho, hhanded, -, hwait, -⟩ :=
    hlive.input hest (fun hrst => hopen (closed_of_reset hrst hstep)) hstep
  obtain ⟨-, -, hlow, hhigh⟩ := input_ack_frame c.sock p
  split at hplace
  next hseq =>
    rw [if_pos hseq, hhanded, input_data_at ho (hseq.trans hlow.symm) hlen, hlow, hhigh]
    exact ⟨rfl, fun hclose => hplace (hwait.mp hclose).1⟩
  next hseq =>
    have hnone := input_data_outside ho fun hin => hplace ((in_order_input_ack c.sock p).mp hin.2)
    rw [if_neg hseq, hhanded, hnone, append_nil]

/-! ## A window that closes -/

/-- The window is open as far as the buffer is free. -/
def Full (s : Socket Tid) : Prop :=
  cbufSpaceUsed s.rxBuffer + (s.rxWinHigh - s.rxWinLow).toNat = 8191

omit [DecidableEq Tid] in
theorem Full.sendAck (h : Full s) (hoffered : Offered s sent low) : Full (sendAck s).1 := by
  unfold Tcp.sendAck
  split
  · exact h
  obtain ⟨high, hle, hroom, -⟩ := hoffered
  have hused := hroom.used_le
  have hlow := hroom.low_eq
  show Full (moveEdge s)
  rw [hroom.move_edge (by omega)]
  show cbufSpaceUsed s.rxBuffer + (BitVec.ofNat 32 _ - s.rxWinLow).toNat = 8191
  rw [hlow, ofNat_sub_ofNat (by omega), BitVec.toNat_ofNat, Nat.mod_eq_of_lt (by omega)]
  omega

theorem Full.takeData (h : Full s) (hoffered : Offered s sent low) (source : ℕ → UInt8)
    (hn : n ≤ (s.rxWinHigh - s.rxWinLow).toNat) : Full (takeData s source n) := by
  obtain ⟨⟨high', hle', hroom', -⟩, hqueue⟩ := hoffered.takeData source hn
  have hsame : (Tcp.takeData s source n).rxWinHigh - (Tcp.takeData s source n).rxWinLow =
      s.rxWinHigh - s.rxWinLow - BitVec.ofNat 32 n := by
    show s.rxWinHigh - (s.rxWinLow + BitVec.ofNat 32 n) = _
    rw [sub_add_eq_sub_sub]
  unfold Full at h ⊢
  rw [← Cbuf.length_queue, hqueue, length_append, Cbuf.length_queue, length_block, hsame,
    BitVec.toNat_sub_of_le, BitVec.toNat_ofNat, Nat.mod_eq_of_lt (by omega)]
  · omega
  · rw [BitVec.le_def, BitVec.toNat_ofNat, Nat.mod_eq_of_lt (by omega)]
    exact hn

theorem Full.handleData {data : ℕ → UInt8} (h : Full s)
    (hoffered : Offered s sent low) (ho : handleData b s data len sequence = some o) :
    Full o.socket := by
  rcases handle_data_cases ho with ⟨-, -, source, -, -, hsocket⟩ | ⟨-, -, hsocket, -⟩
  · have hle := copy_len_le b s len sequence
    have htake := h.takeData hoffered source hle
    rcases hsocket with ⟨hsocket, -⟩ | ⟨hsocket, -⟩
    · rwa [hsocket]
    · rw [hsocket]
      exact htake.sendAck (hoffered.takeData source hle).1
  · rw [hsocket]
    exact h.sendAck hoffered

/-- What the segment does to an established connection. -/
theorem input_zeros (flags : Flags) (hack : flags.ack = false) (hrst : flags.rst = false)
    (hstate : s.state = .established) (hlen : 0 < len) (hlt : len ≤ 2 ^ 31) :
    ∃ o, handleData b s (fun _ => 0) len s.rxWinLow = some o ∧
      tcpInput b s (zeros flags s.rxWinLow len) =
        some (inputFin o (zeros flags s.rxWinLow len)) := by
  obtain ⟨o, ho⟩ := exists_handle_data_bottom b s (fun _ => 0) hlen hlt
  refine ⟨o, ho, ?_⟩
  have hinput : inputAck s (zeros flags s.rxWinLow len) = s := if_neg (by simp [zeros, hack])
  have hdata : inputData b s (zeros flags s.rxWinLow len) = some o := (if_pos hlen).trans ho
  unfold tcpInput
  rw [if_neg (by simp [zeros, hrst]), hstate]
  rw [hinput, hdata]
  rfl

/-- Without a reader the peer can fill the buffer byte by byte, if the guard lets it. -/
theorem exists_filled (guard : Conn Unit → Event → Prop)
    (hshake : guard accepted (.input lastHandshake))
    (hbyte : ∀ c, c.Stored → c.sock.state = .established →
      guard c (.input (zeros .ofPush c.sock.rxWinLow 1)))
    (n : ℕ) (hn : n ≤ 8191) :
    ∃ c : Conn Unit, Transition.Reachable (Conn.step releaseBuild) guard Conn.Opened c ∧
      c.Stored ∧ c.sock.state = .established ∧ Full c.sock ∧ cbufSpaceUsed c.sock.rxBuffer = n ∧
      c.handed = Ring.block (fun _ => 0) 0 n := by
  induction n with
  | zero =>
    have hrun : ∃ c ∈ Transition.run (Conn.step releaseBuild) accepted [.input lastHandshake],
        c.sock.state = .established ∧
          cbufSpaceUsed c.sock.rxBuffer + (c.sock.rxWinHigh - c.sock.rxWinLow).toNat = 8191 ∧
          cbufSpaceUsed c.sock.rxBuffer = 0 ∧ c.handed = [] := by
      decide +kernel
    obtain ⟨c, hc, hstate, hfull, hused, hhanded⟩ := hrun
    rw [run_singleton] at hc
    have hopened : accepted.Opened := ⟨0, _, _, .inr ⟨_, rfl⟩⟩
    exact ⟨c, .step (.init hopened) hshake hc, hopened.stored.step hc, hstate, hfull, hused,
      hhanded⟩
  | succ n ih =>
    obtain ⟨c, hreach, hstored, hstate, hfull, hused, hzeros⟩ := ih (by omega)
    have hoffered := (hstored.live (.inr (.inl hstate))).offered
    obtain ⟨o, ho, hinput⟩ := input_zeros .ofPush rfl rfl hstate Nat.one_pos (by decide)
    have hhanded := handle_data_bottom releaseBuild _ _ Nat.one_pos (by decide) ho
    obtain ⟨-, hqueue, hstate'⟩ := hoffered.handleData ho
    have hquiet : inputFin o (zeros .ofPush c.sock.rxWinLow 1) = o :=
      if_neg fun hfin => nomatch hfin.1
    rw [hquiet] at hinput
    have hstep : c.step releaseBuild (.input (zeros .ofPush c.sock.rxWinLow 1)) =
        some (c.receive o) := congrArg (Option.map c.receive) hinput
    have hmin : min (c.sock.rxWinHigh - c.sock.rxWinLow).toNat 1 = 1 := by
      unfold Full at hfull
      omega
    rw [hmin] at hhanded
    refine ⟨c.receive o, .step hreach (hbyte c hstored hstate) hstep, hstored.step hstep,
      hstate'.trans hstate, hfull.handleData hoffered ho, ?_, ?_⟩
    · show cbufSpaceUsed o.socket.rxBuffer = n + 1
      rw [← Cbuf.length_queue, hqueue, length_append, Cbuf.length_queue, hused, hhanded,
        length_block]
    · show c.handed ++ o.handed = _
      rw [hzeros, hhanded, block_add]
      rfl

/-- A `FIN` is taken if the data in front of it was stored up to the last byte. -/
theorem fin_taken (hstored : c.Stored) (hstate : c.sock.state = .established) (hlen : 0 < len)
    (hlt : len ≤ 2 ^ 31) (hn : n = min (c.sock.rxWinHigh - c.sock.rxWinLow).toNat len)
    (hlast : len ≤ n + 1) :
    ∃ c', c.step b (.input (zeros .ofLast c.sock.rxWinLow len)) = some c' ∧
      c'.sock.state = .closeWait ∧ c'.sock.rxWinLow = c.sock.rxWinLow + BitVec.ofNat 32 (n + 1) ∧
      c'.handed.length = c.handed.length + n := by
  have hlive := hstored.live (.inr (.inl hstate))
  obtain ⟨o, ho, hinput⟩ := input_zeros .ofLast rfl rfl hstate hlen hlt
  have hhanded := congrArg List.length (handle_data_bottom _ _ _ hlen hlt ho)
  rw [length_block, ← hn] at hhanded
  obtain ⟨hdata, hqueue, hstate'⟩ := hlive.offered.handleData ho
  have hlow := hlive.offered.low_eq
  have hgte : sequenceGte o.socket.rxWinLow
      (zeros .ofLast c.sock.rxWinLow len).highestSequence := by
    show sequenceGte _ (c.sock.rxWinLow + BitVec.ofNat 32 (len - 1))
    rw [hdata.low_eq, hhanded, hlow, ← BitVec.ofNat_add]
    exact sequence_gte_ofNat (by omega) (by omega)
  have hfin := hdata.inputFin (p := zeros .ofLast c.sock.rxWinLow len) (hstate'.trans hstate)
  have hwait : (inputFin o (zeros .ofLast c.sock.rxWinLow len)).socket.state = .closeWait := by
    unfold inputFin
    rw [if_pos ⟨rfl, hgte⟩]
  refine ⟨c.receive (inputFin o (zeros .ofLast c.sock.rxWinLow len)),
    congrArg (Option.map c.receive) hinput, hwait, ?_, ?_⟩
  · show (inputFin o (zeros .ofLast c.sock.rxWinLow len)).socket.rxWinLow = _
    rw [hfin.1.low_eq, hwait, if_pos rfl, hhanded, hlow, ← BitVec.ofNat_add, Nat.add_assoc]
  · show (c.handed ++ (inputFin o (zeros .ofLast c.sock.rxWinLow len)).handed).length = _
    rw [hfin.2.2, length_append, hhanded]

/-- There are `n` bytes in the buffer, and the last segment of the peer arrives. -/
theorem exists_fin_taken (guard : Conn Unit → Event → Prop)
    (hshake : guard accepted (.input lastHandshake))
    (hbyte : ∀ c, c.Stored → c.sock.state = .established →
      guard c (.input (zeros .ofPush c.sock.rxWinLow 1)))
    {len k : ℕ} (hn : n ≤ 8191) (hlen : 0 < len) (hlt : len ≤ 2 ^ 31)
    (hk : k = min (8191 - n) len) (hlast : len ≤ k + 1) :
    ∃ c c' : Conn Unit, Transition.Reachable (Conn.step releaseBuild) guard Conn.Opened c ∧
      c.sock.state = .established ∧
      cbufSpaceUsed c.sock.rxBuffer = n ∧ (c.sock.rxWinHigh - c.sock.rxWinLow).toNat = 8191 - n ∧
      c.step releaseBuild (.input (zeros .ofLast c.sock.rxWinLow len)) = some c' ∧
      c'.sock.state = .closeWait ∧ c'.sock.rxWinLow = c.sock.rxWinLow + BitVec.ofNat 32 (k + 1) ∧
      c'.handed.length = c.handed.length + k := by
  obtain ⟨c, hrun, hstored, hstate, hfull, hused, -⟩ := exists_filled guard hshake hbyte n hn
  have hopen : (c.sock.rxWinHigh - c.sock.rxWinLow).toNat = 8191 - n := by
    unfold Full at hfull
    omega
  obtain ⟨c', hlast⟩ := fin_taken hstored hstate hlen hlt (hopen ▸ hk) hlast
  exact ⟨c, c', hrun, hstate, hused, hopen, hlast⟩

/-- Two bytes are in the buffer, and the last segment of the peer has one more. -/
theorem window_stored_last : ∃ c c' : Conn Unit, c.Run releaseBuild ∧
    cbufSpaceUsed c.sock.rxBuffer = 2 ∧ c.delivered ++ queue c.sock.rxBuffer = c.handed ∧
    c.step releaseBuild (.input (zeros .ofLast c.sock.rxWinLow 1)) = some c' ∧
    c'.sock.state = .closeWait ∧ c'.handed = c.handed ++ [0] := by
  obtain ⟨c, c', hrun, hstate, hused, hopen, hstep, hwait, -⟩ := exists_fin_taken Always trivial
    (fun _ _ _ => trivial) (n := 2) (by decide) Nat.one_pos (by decide) rfl (by decide)
  obtain ⟨-, -, hstored, -, htaken⟩ := window_stored hrun (.inl hstate)
  have hfits : 1 ≤ (c.sock.rxWinHigh - c.sock.rxWinLow).toNat := by
    rw [hopen]
    decide
  have hlast := htaken _ c' hstate ⟨show 1 ≤ 2 ^ 31 by decide,
    (if_pos rfl).mpr fun _ => hfits⟩ hstep
    (by rw [hwait]; decide)
  rw [if_pos (show (zeros .ofLast c.sock.rxWinLow 1).seqNum = c.sock.rxWinLow from rfl)] at hlast
  refine ⟨c, c', hrun, hused, hstored, hstep, hwait, hlast.1.trans ?_⟩
  rw [show min _ (zeros .ofLast c.sock.rxWinLow 1).dataLen = 1 from Nat.min_eq_right hfits]
  rfl

/-- The window is open for one byte. Of a last segment with two bytes the first is stored, both are
acknowledged, and the connection is done. -/
theorem fin_acknowledges_dropped_byte : ∃ c c' : Conn Unit, c.Run releaseBuild ∧
    c.sock.state = .established ∧ (c.sock.rxWinHigh - c.sock.rxWinLow).toNat = 1 ∧
    c.step releaseBuild (.input (zeros .ofLast c.sock.rxWinLow 2)) = some c' ∧
    c'.sock.state = .closeWait ∧ c'.sock.rxWinLow = c.sock.rxWinLow + 2 ∧
    c'.handed.length = c.handed.length + 1 := by
  obtain ⟨c, c', hrun, hstate, -, hlast⟩ := exists_fin_taken Always trivial
    (fun _ _ _ => trivial) (n := 8190) (by decide) Nat.two_pos (by decide) rfl (by decide)
  exact ⟨c, c', hrun, hstate, hlast⟩

end NusaKernel.Tcp
