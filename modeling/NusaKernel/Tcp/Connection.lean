import NusaKernel.Tcp.Socket

/-!
# Runs of a TCP connection

A connection together with what happened on it: the bytes handed to the receive buffer, those that
the application read, those it wrote, and the segments sent. Packets arrive, the application reads,
writes and closes, and timers expire, in any order.
-/

namespace NusaKernel.Tcp

open BitVec List Nat

variable {Tid : Type*}

/-- A connection and its history. `rxBase` and `txBase` are the numbers of the first byte in either
direction. -/
structure Conn (Tid : Type*) where
  sock : Socket Tid
  rxBase : BitVec 32
  txBase : BitVec 32
  handed : List UInt8
  delivered : List UInt8
  written : List UInt8
  sent : List Segment

inductive Event where
  | input (p : Packet)
  | read (len : ℕ)
  /-- one round of the loop of `tcp_write`, which has this data left -/
  | write (data : List UInt8)
  | retransmit
  | delayedAck
  | close

/-- The socket goes on, and segments are sent. -/
def Conn.after (c : Conn Tid) (r : Socket Tid × List Segment) : Conn Tid :=
  { c with sock := r.1, sent := c.sent ++ r.2 }

variable [DecidableEq Tid] {s' : Socket Tid}

/-- What happens with a packet. The first packet that is accepted in `STATE_SYN_SENT` says where
the numbers of the peer begin. -/
def Conn.receive (c : Conn Tid) (o : Outcome Tid) : Conn Tid :=
  { c.after (o.socket, o.sent) with
    handed := c.handed ++ o.handed
    rxBase := if c.sock.state = .synSent then o.socket.rxWinLow else c.rxBase }

def Conn.step (b : Build) (c : Conn Tid) : Event → Option (Conn Tid)
  | .input p => (tcpInput b c.sock p).map c.receive
  | .read len =>
    let r := tcpRead c.sock len
    some { c.after r.2 with delivered := c.delivered ++ r.1 }
  | .write data =>
    some { c.after (tcpWriteRound c.sock data) with
      written := c.written ++ data.take (writeLen c.sock data) }
  | .retransmit => some (c.after (tcpRetransmit c.sock))
  | .delayedAck => some (c.after (sendAck c.sock))
  | .close => some (c.after (tcpClose c.sock))

/-- A connection whose first number is chosen. -/
def Conn.start (rand : BitVec 32) (r : Socket Tid × List Segment) : Conn Tid :=
  ⟨r.1, r.1.rxWinLow, rand + 1, [], [], [], r.2⟩

omit [DecidableEq Tid] in
/-- A connection at its beginning, opened by either side. -/
def Conn.Opened (c : Conn Tid) : Prop :=
  ∃ rand rxRaw txRaw, c = .start rand (tcpConnect rand rxRaw txRaw) ∨
    ∃ p, c = .start rand (acceptSyn rand rxRaw txRaw p)

/-! ## What sending leaves alone -/

section Frames

omit [DecidableEq Tid]

/-- Two sockets that differ in the right edge of the receive window only. -/
def SameButEdge (s s' : Socket Tid) : Prop := ∃ high, s' = { s with rxWinHigh := high }

variable (s : Socket Tid)

theorem SameButEdge.refl : SameButEdge s s := ⟨s.rxWinHigh, rfl⟩

theorem move_edge_same : SameButEdge s (moveEdge s) := by
  unfold moveEdge
  split
  · exact ⟨_, rfl⟩
  · exact .refl s

theorem send_ack_same : SameButEdge s (sendAck s).1 := by
  unfold sendAck
  split
  · exact .refl s
  · exact move_edge_same s

theorem retransmit_same : SameButEdge s (tcpRetransmit s).1 := by
  unfold tcpRetransmit
  dsimp only
  split_ifs
  · exact .refl s
  · exact .refl s
  · exact move_edge_same s

/-- Two sockets that differ on the receiving side only. -/
def SameButRx (s s' : Socket Tid) : Prop :=
  ∃ low high buffer count, s' = { s with
    rxWinLow := low, rxWinHigh := high, rxBuffer := buffer, rxFullMssCount := count }

theorem SameButEdge.rx {s : Socket Tid} (h : SameButEdge s s') : SameButRx s s' := by
  obtain ⟨high, rfl⟩ := h
  exact ⟨_, _, _, _, rfl⟩

theorem SameButRx.trans {s s'' : Socket Tid} (h : SameButRx s s') (h' : SameButRx s' s'') :
    SameButRx s s'' := by
  obtain ⟨_, _, _, _, rfl⟩ := h
  obtain ⟨_, _, _, _, rfl⟩ := h'
  exact ⟨_, _, _, _, rfl⟩

theorem SameButRx.state {s : Socket Tid} (h : SameButRx s s') : s'.state = s.state := by
  obtain ⟨_, _, _, _, rfl⟩ := h
  rfl

theorem send_ack_state : (sendAck s).1.state = s.state := (send_ack_same s).rx.state

theorem read_rx (len : ℕ) : SameButRx s (tcpRead s len).2.1 := by
  unfold tcpRead
  dsimp only
  split_ifs
  · exact ⟨_, _, _, _, rfl⟩
  · exact .trans ⟨_, _, _, _, rfl⟩ (send_ack_same _).rx
  · exact ⟨_, _, _, _, rfl⟩

/-- Sending data moves the number of the next byte and the right edge of the receive window. -/
theorem send_pending_same (outstanding pending : BitVec 32) (fuel : ℕ) (s : Socket Tid)
    (offset : BitVec 32) : ∃ high sequence, (sendPending outstanding pending fuel s offset).1 =
      { s with rxWinHigh := high, txHighestSeq := sequence } := by
  induction fuel generalizing s offset with
  | zero => exact ⟨_, _, rfl⟩
  | succ fuel ih =>
    rw [sendPending]
    split
    · obtain ⟨high, sequence, hrest⟩ := ih
        (sendRound s (outstanding.toNat + offset.toNat) (segmentLen s (pending - offset))).1
        (offset + segmentLen s (pending - offset))
      obtain ⟨high', hsame⟩ := move_edge_same s
      refine ⟨high, sequence, hrest.trans ?_⟩
      simp only [sendRound, tcpSocketSend, hsame]
    · exact ⟨_, _, rfl⟩

theorem write_round_same (data : List UInt8) :
    ∃ high sequence buffer, (tcpWriteRound s data).1 = { s with
      rxWinHigh := high, txHighestSeq := sequence, txBuffer := buffer
      txBufferOffset := s.txBufferOffset + BitVec.ofNat 32 (writeLen s data) } := by
  unfold tcpWriteRound
  dsimp only
  split
  next hzero =>
    have hoffset : s.txBufferOffset + BitVec.ofNat 32 0 = s.txBufferOffset := BitVec.add_zero _
    rw [hzero, hoffset]
    exact ⟨_, _, _, rfl⟩
  next =>
    obtain ⟨high, sequence, hsame⟩ := send_pending_same ..
    exact ⟨high, sequence, _, hsame⟩

theorem write_round_state (data : List UInt8) :
    (tcpWriteRound s data).1.state = s.state := by
  obtain ⟨_, _, _, hsame⟩ := write_round_same s data
  rw [hsame]

theorem input_ack_state (p : Packet) : (inputAck s p).state = s.state := by
  unfold inputAck handleAck
  split_ifs <;> rfl

end Frames

/-! ## The states -/

/-- The states before the connection is closed from this side. -/
def TcpState.Early (state : TcpState) : Prop :=
  state = .synSent ∨ state = .synRcvd ∨ state = .established ∨ state = .closeWait
deriving Decidable

/-- What a packet does. -/
inductive Input (b : Build) (s : Socket Tid) (p : Packet) : Outcome Tid → Prop where
  /-- the peer resets the connection -/
  | reset : Input b s p (.quiet (tcpRemoteClose s))
  /-- the packet is answered with a reset -/
  | refuse : Input b s p (sendReset s p)
  /-- the peer answers in `STATE_SYN_RCVD` -/
  | accept (hstate : s.state = .synRcvd) :
      Input b s p (.quiet { s with
        txWinHigh := s.txWinLow + p.winSize.setWidth 32
        txHighestSeq := s.txWinLow
        state := .established })
  /-- the peer answers in `STATE_SYN_SENT` -/
  | connect (hstate : s.state = .synSent) :
      Input b s p (Outcome.quiet { s with
        rxWinLow := p.seqNum + 1
        rxWinHigh := p.seqNum + 1 + s.rxWinSize - 1
        txWinLow := s.txWinLow + 1
        txWinHigh := s.txWinLow + 1 + p.winSize.setWidth 32
        txHighestSeq := s.txWinLow + 1
        state := .established }).thenAck
  | data (hstate : s.state = .established) {o : Outcome Tid}
      (ho : inputData b (inputAck s p) p = some o) : Input b s p (inputFin o p)
  | closeWait (hstate : s.state = .closeWait) : Input b s p (.quiet (inputAck s p))
  | closeWaitFin (hstate : s.state = .closeWait) : Input b s p
    (Outcome.quiet (inputAck s p)).thenAck
  /-- after `tcp_close` there is no way back, and nothing but acknowledgements is sent -/
  | late {o : Outcome Tid} (hstate : ¬ s.state.Early) (hstate' : ¬ o.socket.state.Early)
      (hsent : ∀ seg ∈ o.sent, seg.data = [] ∧ seg.flags.fin = false) : Input b s p o

variable {b : Build} {s : Socket Tid} {p : Packet} {o : Outcome Tid}

omit [DecidableEq Tid] in
/-- An acknowledgement carries nothing else. -/
theorem send_ack_sent {seg : Segment} (h : seg ∈ (sendAck s).2) :
    seg.data = [] ∧ seg.flags.fin = false := by
  unfold sendAck at h
  split at h
  · cases h
  · obtain rfl := mem_singleton.mp h
    exact ⟨rfl, rfl⟩

theorem input_fin_wait_2 (hstate : ¬ s.state.Early)
    (hstate' : s'.state = .finWait2) : Input b s p (inputFinWait2 s' p) := by
  unfold inputFinWait2
  split
  · exact .late hstate (show ¬ TcpState.timeWait.Early by decide) fun seg hseg => send_ack_sent hseg
  · refine .late hstate ?_ (forall_mem_nil _)
    show ¬ s'.state.Early
    rw [hstate']
    decide

/-- Every packet is one of these. -/
theorem input_of_tcp_input (h : tcpInput b s p = some o) : Input b s p o := by
  unfold tcpInput at h
  split at h
  · cases h
    exact .reset
  split at h
  next =>
    cases h
    exact .refuse
  next hstate =>
    split_ifs at h <;> cases h
    · exact .refuse
    · exact .refuse
    · exact .accept hstate
    · exact .refuse
  next hstate =>
    split_ifs at h <;> cases h
    · exact .refuse
    · exact .refuse
    · exact .refuse
    · exact .connect hstate
  next hstate =>
    obtain ⟨o', ho', rfl⟩ := Option.map_eq_some_iff.mp h
    exact .data hstate ho'
  next hstate =>
    split_ifs at h <;> cases h
    · exact .closeWaitFin hstate
    · exact .closeWait hstate
  next hstate =>
    have hlate : ¬ s.state.Early := by rw [hstate]; decide
    cases h
    refine .late hlate ?_ (forall_mem_nil _)
    split
    · exact (show ¬ TcpState.closed.Early by decide)
    · exact hlate
  next hstate =>
    have hlate : ¬ s.state.Early := by rw [hstate]; decide
    split_ifs at h <;> cases h
    · exact input_fin_wait_2 hlate rfl
    · exact .late hlate (show ¬ TcpState.closing.Early by decide)
        fun seg hseg => send_ack_sent hseg
    · exact .late hlate hlate (forall_mem_nil _)
  next hstate =>
    have hlate : ¬ s.state.Early := by rw [hstate]; decide
    cases h
    exact input_fin_wait_2 hlate hstate
  next hstate =>
    have hlate : ¬ s.state.Early := by rw [hstate]; decide
    cases h
    refine .late hlate ?_ (forall_mem_nil _)
    split
    · exact (show ¬ TcpState.timeWait.Early by decide)
    · exact hlate
  next hstate =>
    have hlate : ¬ s.state.Early := by rw [hstate]; decide
    cases h
    exact .late hlate hlate (forall_mem_nil _)

omit [DecidableEq Tid] in
theorem close_cases (s : Socket Tid) :
    tcpClose s = (s, []) ∧ (s.state = .synSent ∨ ¬ s.state.Early) ∨
      (s.state = .synRcvd ∨ s.state = .established ∨ s.state = .closeWait) ∧
        ∃ state, ¬ state.Early ∧ tcpClose s = sendFin s state := by
  unfold tcpClose
  cases hstate : s.state with
  | synRcvd => exact .inr ⟨.inl rfl, .finWait1, by decide, rfl⟩
  | established => exact .inr ⟨.inr (.inl rfl), .finWait1, by decide, rfl⟩
  | closeWait => exact .inr ⟨.inr (.inr rfl), .lastAck, by decide, rfl⟩
  | synSent => exact .inl ⟨rfl, .inl rfl⟩
  | closed | lastAck | closing | finWait1 | finWait2 | timeWait =>
    exact .inl ⟨rfl, .inr (by decide)⟩

omit [DecidableEq Tid] in
theorem send_fin_state (s : Socket Tid) (state : TcpState) : (sendFin s state).1.state = state := by
  obtain ⟨high, hsame⟩ := move_edge_same { s with state := state }
  show (moveEdge { s with state := state }).state = state
  rw [hsame]

/-- A connection that is closed from this side stays so. -/
theorem late_step {c c' : Conn Tid} {e : Event} (hlate : ¬ c.sock.state.Early)
    (hstep : c.step b e = some c') : ¬ c'.sock.state.Early := by
  cases e with
  | input p =>
    obtain ⟨o, ho, rfl⟩ := Option.map_eq_some_iff.mp hstep
    show ¬ o.socket.state.Early
    cases input_of_tcp_input ho with
    | reset => exact (show ¬ TcpState.closed.Early by decide)
    | refuse => exact hlate
    | accept hstate => exact absurd (.inr (.inl hstate)) hlate
    | connect hstate => exact absurd (.inl hstate) hlate
    | data hstate => exact absurd (.inr (.inr (.inl hstate))) hlate
    | closeWait hstate | closeWaitFin hstate => exact absurd (.inr (.inr (.inr hstate))) hlate
    | late _ hstate' => exact hstate'
  | read len =>
    cases hstep
    exact (read_rx c.sock len).state.symm ▸ hlate
  | write data =>
    cases hstep
    exact (write_round_state c.sock data).symm ▸ hlate
  | retransmit =>
    cases hstep
    exact (retransmit_same c.sock).rx.state.symm ▸ hlate
  | delayedAck =>
    cases hstep
    exact (send_ack_state c.sock).symm ▸ hlate
  | close =>
    cases hstep
    rcases close_cases c.sock with ⟨heq, -⟩ | ⟨-, state, hstate, heq⟩
    · exact heq.symm ▸ hlate
    · show ¬ (tcpClose c.sock).1.state.Early
      rw [heq, send_fin_state]
      exact hstate

/-! ## What a packet with data does -/

/-- `handle_data` copies the data and may acknowledge it, or acknowledges what came before. -/
theorem handle_data_cases {data : ℕ → UInt8} {len : ℕ} {sequence : BitVec 32}
    (h : handleData b s data len sequence = some o) :
    (inOrder s len sequence ∧ (b.debug = true → dataOffset s sequence < len) ∧ ∃ source,
      source = (fun i => data ((dataOffset s sequence + i) % 2 ^ b.sizeBits)) ∧
      o.handed = Ring.block source 0 (copyLen b s len sequence) ∧
      (o.socket = takeData s source (copyLen b s len sequence) ∧ o.sent = [] ∨
        o.socket = { (sendAck (takeData s source (copyLen b s len sequence))).1 with
          rxFullMssCount := 0 } ∧
        o.sent = (sendAck (takeData s source (copyLen b s len sequence))).2)) ∨
    ¬ inOrder s len sequence ∧ o.handed = [] ∧ o.socket = (sendAck s).1 ∧
      o.sent = (sendAck s).2 := by
  unfold handleData at h
  split at h
  next hin =>
    dsimp only at h
    obtain ⟨hassert, h⟩ := Option.ite_none_left_eq_some.mp h
    have hlt : b.debug = true → dataOffset s sequence < len := fun hdebug =>
      Nat.lt_of_not_le fun hle => hassert ⟨hdebug, hle⟩
    refine .inl ⟨hin, hlt, _, rfl, ?_⟩
    split at h
    · cases h
      exact ⟨rfl, .inr ⟨rfl, rfl⟩⟩
    · cases h
      exact ⟨rfl, .inl ⟨rfl, rfl⟩⟩
  next hin =>
    cases h
    exact .inr ⟨hin, rfl, rfl, rfl⟩

/-! ## A segment at the bottom of the window -/

section Bottom

variable {len : ℕ}

omit [DecidableEq Tid] in
theorem in_order_bottom (s : Socket Tid) (hlen : 0 < len) (hlt : len ≤ 2 ^ 31) :
    inOrder s len s.rxWinLow := by
  have htop : s.rxWinLow + BitVec.ofNat 32 len - 1 - s.rxWinLow = BitVec.ofNat 32 (len - 1) := by
    have hsplit : BitVec.ofNat 32 len = BitVec.ofNat 32 (len - 1) + BitVec.ofNat 32 1 := by
      rw [← ofNat_add, Nat.sub_add_cancel hlen]
    rw [hsplit, ← BitVec.add_assoc]
    show s.rxWinLow + _ + BitVec.ofNat 32 1 - BitVec.ofNat 32 1 - s.rxWinLow = _
    rw [BitVec.add_sub_cancel, BitVec.add_comm, BitVec.add_sub_cancel]
  refine ⟨?_, ?_⟩
  · rw [sequenceLte, BitVec.sub_self]
    decide
  · rw [sequenceGte, htop, toInt_eq_toNat_of_lt]
    · exact Int.natCast_nonneg _
    · rw [toNat_ofNat, mod_eq_of_lt (by omega)]
      omega

omit [DecidableEq Tid] in
theorem data_offset_bottom (s : Socket Tid) : dataOffset s s.rxWinLow = 0 := by
  rw [dataOffset, BitVec.sub_self]
  rfl

omit [DecidableEq Tid] in
theorem copy_len_bottom (b : Build) (s : Socket Tid) (hlt : len ≤ 2 ^ 31) :
    copyLen b s len s.rxWinLow = min (s.rxWinHigh - s.rxWinLow).toNat len := by
  have hbits : 2 ^ 32 ≤ 2 ^ b.sizeBits := Nat.pow_le_pow_right (by decide) b.size_bits_le
  rw [copyLen, data_offset_bottom, Nat.sub_zero, add_mod_right, mod_eq_of_lt (by omega)]

/-- At the bottom of the window the data is taken as far as the window is open. -/
theorem handle_data_bottom (b : Build) (s : Socket Tid) (data : ℕ → UInt8) (hlen : 0 < len)
    (hlt : len ≤ 2 ^ 31) (ho : handleData b s data len s.rxWinLow = some o) :
    o.handed = Ring.block data 0 (min (s.rxWinHigh - s.rxWinLow).toNat len) := by
  have hbits : 2 ^ 32 ≤ 2 ^ b.sizeBits := Nat.pow_le_pow_right (by decide) b.size_bits_le
  rcases handle_data_cases ho with ⟨-, -, source, hsource, hhanded, -⟩ | ⟨hnot, -⟩
  · rw [hhanded, copy_len_bottom b s hlt]
    refine map_congr_left fun i hi => ?_
    have hi := mem_range.mp hi
    rw [hsource, data_offset_bottom]
    show data ((0 + (0 + i)) % 2 ^ b.sizeBits) = data (0 + i)
    rw [Nat.zero_add, Nat.zero_add, mod_eq_of_lt (by omega)]
  · exact absurd (in_order_bottom s hlen hlt) hnot

/-- No assertion fails there. -/
theorem exists_handle_data_bottom (b : Build) (s : Socket Tid) (data : ℕ → UInt8) (hlen : 0 < len)
    (hlt : len ≤ 2 ^ 31) : ∃ o, handleData b s data len s.rxWinLow = some o := by
  unfold handleData
  rw [if_pos (in_order_bottom s hlen hlt)]
  dsimp only
  rw [if_neg (by rw [data_offset_bottom]; omega)]
  split
  · exact ⟨_, rfl⟩
  · exact ⟨_, rfl⟩

end Bottom

/-! ## A connection -/

/-- A packet with these flags and that many zeros. -/
def zeros (flags : Flags) (seqNum : BitVec 32) (dataLen : ℕ) : Packet :=
  ⟨flags, seqNum, 0, 0, fun _ => 0, dataLen⟩

/-- The flags of a segment with nothing but data, and of the last one. -/
def Flags.ofPush : Flags := ⟨false, false, false, true, false⟩
def Flags.ofLast : Flags := ⟨true, false, false, true, false⟩

/-- A build without assertions. -/
def releaseBuild : Build := ⟨false, 64, by decide⟩

/-- A peer whose numbers begin at 100 has connected. -/
def accepted : Conn Unit := .start 0 (acceptSyn 0 (fun _ => 0) (fun _ => 0) (zeros .ofSyn 99 0))

/-- The end of the handshake. -/
def lastHandshake : Packet := ⟨.ofAck, 100, 1, 8192, fun _ => 0, 0⟩

end NusaKernel.Tcp
