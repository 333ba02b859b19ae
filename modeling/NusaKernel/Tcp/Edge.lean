import NusaKernel.Tcp.Transmit

/-!
# The window that the peer of a TCP connection advertises

`handle_ack` records the right edge of the window in `tx_win_high`, and nothing in
`lib/minip/tcp.c` reads it. No byte is sent at or beyond the edge as long as the application does
not write more than the window has room for, and the peer does not take the edge back behind what it
was sent (`sent_below_edge`). Otherwise `tcp_write` goes over the edge (`write_over_edge`).
-/

namespace NusaKernel.Tcp

open BitVec List

variable {Tid : Type*}

/-- What was sent and is not acknowledged lies in the window, whose size is a word of 16 bits. -/
def Fits (s : Socket Tid) : Prop :=
  (s.txHighestSeq - s.txWinLow).toNat ≤ (s.txWinHigh - s.txWinLow).toNat ∧
    (s.txWinHigh - s.txWinLow).toNat < 2 ^ 16

/-- The data that is written fits the window, and an acknowledgement that counts advertises a window
in which what was sent beyond it fits. -/
def InWindow (c : Conn Tid) : Event → Prop
  | .write data => writeLen c.sock data = 0 ∨
      c.sock.txBufferOffset.toNat + writeLen c.sock data ≤
        (c.sock.txWinHigh - c.sock.txWinLow).toNat
  | .input p => ¬ sequenceLte p.ackNum c.sock.txWinLow →
      ¬ sequenceGt p.ackNum c.sock.txHighestSeq →
      (c.sock.txHighestSeq - p.ackNum).toNat ≤ p.winSize.toNat
  | _ => True

/-- `InWindow` can be checked along a run. -/
instance (c : Conn Tid) : (e : Event) → Decidable (InWindow c e)
  | .write _ => inferInstanceAs (Decidable (_ ∨ _))
  | .input _ => inferInstanceAs (Decidable (_ → _ → _))
  | .read _ | .retransmit | .delayedAck | .close => isTrue trivial

variable {s s' : Socket Tid} {p : Packet} {o : Outcome Tid} {base : BitVec 32}
  {written : List UInt8} {acked outstanding : ℕ}

theorem SameButRx.fits (hsame : SameButRx s s') (h : Fits s) : Fits s' := by
  obtain ⟨_, _, _, _, rfl⟩ := hsame
  exact h

theorem Fits.inputAck (h : Fits s) (hguard : ¬ sequenceLte p.ackNum s.txWinLow →
    ¬ sequenceGt p.ackNum s.txHighestSeq → (s.txHighestSeq - p.ackNum).toNat ≤ p.winSize.toNat) :
    Fits (inputAck s p) := by
  unfold Tcp.inputAck handleAck
  split_ifs with hflag hold hnew
  · exact h
  · exact h
  · have hlow : s.txWinLow + (p.ackNum - s.txWinLow) = p.ackNum := by
      rw [BitVec.add_comm, BitVec.sub_add_cancel]
    have hwin : (p.ackNum + p.winSize.setWidth 32 - p.ackNum).toNat = p.winSize.toNat := by
      rw [BitVec.add_comm, BitVec.add_sub_cancel, toNat_setWidth_of_le (by decide)]
    unfold Fits
    dsimp only
    rw [hlow, hwin]
    exact ⟨hguard hold hnew, p.winSize.isLt⟩
  · exact h

/-- The connection is established. -/
theorem fits_of_new (low : BitVec 32) (win : BitVec 16) (hlow : s.txWinLow = low)
    (hhighest : s.txHighestSeq = low) (hhigh : s.txWinHigh = low + win.setWidth 32) : Fits s := by
  unfold Fits
  rw [hlow, hhighest, hhigh, BitVec.sub_self, BitVec.add_comm, BitVec.add_sub_cancel,
    toNat_setWidth_of_le (by decide)]
  exact ⟨Nat.zero_le _, win.isLt⟩

/-- A segment with data from the buffer is below the edge if the window reaches as far as its
data. -/
theorem Fits.below_edge (h : Fits s) {seq : BitVec 32} {place i : ℕ}
    (hseq : seq = s.txWinLow + BitVec.ofNat 32 place)
    (hlt : place + i < (s.txWinHigh - s.txWinLow).toNat) :
    sequenceGt s.txWinHigh (seq + BitVec.ofNat 32 i) := by
  have hsize := h.2
  have hdiff : s.txWinHigh - (seq + BitVec.ofNat 32 i) =
      BitVec.ofNat 32 (s.txWinHigh - s.txWinLow).toNat - BitVec.ofNat 32 (place + i) := by
    rw [ofNat_toNat, setWidth_eq, ofNat_add, hseq, BitVec.add_assoc,
      sub_add_eq_sub_sub]
  unfold sequenceGt
  rw [hdiff, SerialOrder.toInt_ofNat_sub_ofNat 31 (by omega) (by omega)]
  omega

/-- Segments that are sent when the window reaches to this edge. -/
def Below (edge : BitVec 32) (segs : List Segment) : Prop :=
  ∀ seg ∈ segs, ∀ i < seg.data.length, sequenceGt edge (seg.seq + BitVec.ofNat 32 i)

theorem Below.of_empty {edge : BitVec 32} {segs : List Segment}
    (h : ∀ seg ∈ segs, seg.data = []) : Below edge segs := by
  intro seg hseg i hi
  rw [h seg hseg] at hi
  cases hi

theorem Fits.writeRound (h : Fits s) (hsending : Sending s base written acked outstanding)
    (data : List UInt8) (hguard : writeLen s data = 0 ∨
      s.txBufferOffset.toNat + writeLen s data ≤ (s.txWinHigh - s.txWinLow).toNat) :
    Fits (tcpWriteRound s data).1 ∧
      Below (tcpWriteRound s data).1.txWinHigh (tcpWriteRound s data).2 := by
  obtain ⟨outstanding', hsending', -, hplaces⟩ := hsending.writeRound data
  obtain ⟨hroom, -⟩ := write_len_le hsending data
  by_cases hzero : writeLen s data = 0
  · have hround : tcpWriteRound s data = (s, []) := if_pos hzero
    rw [hround]
    exact ⟨h, forall_mem_nil _⟩
  obtain ⟨high, sequence, buffer, hsame⟩ := write_round_same s data
  have hhigh : (tcpWriteRound s data).1.txWinHigh = s.txWinHigh := by rw [hsame]
  have hlow : (tcpWriteRound s data).1.txWinLow = s.txWinLow := by rw [hsame]
  have hoffset : (tcpWriteRound s data).1.txBufferOffset.toNat =
      s.txBufferOffset.toNat + writeLen s data := by
    rw [hsame, toNat_add, toNat_ofNat_of_le (by omega), Nat.mod_eq_of_lt (by omega)]
  have hle := hsending'.outstanding_le
  have hnew : Fits (tcpWriteRound s data).1 := by
    unfold Fits
    rw [hsending'.outstanding_eq, hhigh, hlow, toNat_ofNat_of_le (by omega)]
    exact ⟨by omega, h.2⟩
  refine ⟨hnew, fun seg hseg i hi => ?_⟩
  obtain ⟨place, hseq, hplace⟩ := hplaces seg hseg
  exact hnew.below_edge hseq (by rw [hhigh, hlow]; omega)

theorem Fits.retransmit (h : Fits s) (hsending : Sending s base written acked outstanding) :
    Fits (tcpRetransmit s).1 ∧ Below (tcpRetransmit s).1.txWinHigh (tcpRetransmit s).2 := by
  obtain ⟨hsending', -, hplaces⟩ := hsending.retransmit
  have hsame := retransmit_same s
  have hle := h.1
  have hoffset := hsending.offset_le
  have houtstanding := hsending.outstanding_le
  rw [hsending.outstanding_eq, toNat_ofNat_of_le (by omega)] at hle
  refine ⟨hsame.rx.fits h, fun seg hseg i hi => ?_⟩
  obtain ⟨hseq, hlen⟩ := hplaces seg hseg
  obtain ⟨high, hsame⟩ := hsame
  have hplace : seg.seq = s.txWinLow + BitVec.ofNat 32 0 := hseq.trans (BitVec.add_zero _).symm
  rw [hsame]
  exact h.below_edge hplace (by omega)

section Steps

variable [DecidableEq Tid] {b : Build} {c c' : Conn Tid} {e : Event}

/-- A packet. -/
theorem Input.fits (h : Input b s p o)
    (hfits : s.state = .established ∨ s.state = .closeWait → Fits s)
    (hguard : ¬ sequenceLte p.ackNum s.txWinLow → ¬ sequenceGt p.ackNum s.txHighestSeq →
      (s.txHighestSeq - p.ackNum).toNat ≤ p.winSize.toNat)
    (hstate : o.socket.state = .established ∨ o.socket.state = .closeWait) : Fits o.socket := by
  cases h with
  | reset => rcases hstate with hstate | hstate <;> cases hstate
  | refuse => exact hfits hstate
  | accept => exact fits_of_new s.txWinLow p.winSize rfl rfl rfl
  | connect => exact (send_ack_same _).rx.fits (fits_of_new (s.txWinLow + 1) p.winSize rfl rfl rfl)
  | @data hstate' o' ho' =>
    obtain ⟨hsame, hsent⟩ := input_data_rx ho'
    obtain ⟨hsame', -⟩ :=
      input_fin_rx (p := p) (hsame.state.trans ((input_ack_state ..).trans hstate')) hsent
    exact hsame'.fits (hsame.fits ((hfits (.inl hstate')).inputAck hguard))
  | closeWait hstate' => exact (hfits (.inr hstate')).inputAck hguard
  | closeWaitFin hstate' => exact (send_ack_same _).rx.fits ((hfits (.inr hstate')).inputAck hguard)
  | late _ hlate => exact absurd (.inr (.inr hstate)) hlate

/-- The sending side as `transmit_stream` has it, and what was sent fits the window. -/
structure Conn.Obeys (c : Conn Tid) : Prop where
  sends : c.Sends False
  fits : c.sock.state = .established ∨ c.sock.state = .closeWait → Fits c.sock

/-- What is sent in a step of a connection that obeys the window is below its edge. -/
theorem Conn.Obeys.step (h : c.Obeys) (hguard : InWindow c e) (hstep : c.step b e = some c') :
    c'.Obeys ∧ ∃ segs, c'.sent = c.sent ++ segs ∧ Below c'.sock.txWinHigh segs := by
  have hsends := h.sends.step False.elim hstep
  cases e with
  | input p =>
    obtain ⟨o, ho, rfl⟩ := Option.map_eq_some_iff.mp hstep
    have hinput := input_of_tcp_input ho
    exact ⟨⟨hsends, hinput.fits h.fits hguard⟩, o.sent, rfl,
      .of_empty fun seg hseg => (hinput.sent seg hseg).1⟩
  | read len =>
    cases hstep
    refine ⟨⟨hsends, fun hopen => ?_⟩, _, rfl, .of_empty fun seg hseg => (read_sent hseg).1⟩
    exact (read_rx c.sock len).fits (h.fits ((read_rx c.sock len).state ▸ hopen))
  | write data =>
    cases hstep
    by_cases hopen : c.sock.state = .established ∨ c.sock.state = .closeWait
    · obtain ⟨acked, outstanding, hsending⟩ := h.sends.ready.sending hopen
      obtain ⟨hfits, hbelow⟩ := (h.fits hopen).writeRound hsending data hguard
      exact ⟨⟨hsends, fun _ => hfits⟩, _, rfl, hbelow⟩
    · refine ⟨⟨hsends, fun hopen' => absurd (write_round_state c.sock data ▸ hopen') hopen⟩,
        _, rfl, ?_⟩
      rw [(write_round_other (not_or.mp hopen) data).2.1]
      exact .of_empty (forall_mem_nil _)
  | retransmit =>
    cases hstep
    by_cases hopen : c.sock.state = .established ∨ c.sock.state = .closeWait
    · obtain ⟨acked, outstanding, hsending⟩ := h.sends.ready.sending hopen
      obtain ⟨hfits, hbelow⟩ := (h.fits hopen).retransmit hsending
      exact ⟨⟨hsends, fun _ => hfits⟩, _, rfl, hbelow⟩
    · refine ⟨⟨hsends, fun hopen' => absurd ((retransmit_same c.sock).rx.state ▸ hopen') hopen⟩,
        _, rfl, ?_⟩
      rw [(write_round_other (not_or.mp hopen) []).2.2]
      exact .of_empty (forall_mem_nil _)
  | delayedAck =>
    cases hstep
    refine ⟨⟨hsends, fun hopen => ?_⟩, _, rfl, .of_empty fun seg hseg => (send_ack_sent hseg).1⟩
    exact (send_ack_same c.sock).rx.fits (h.fits (send_ack_state c.sock ▸ hopen))
  | close =>
    cases hstep
    rcases close_cases c.sock with ⟨heq, -⟩ | ⟨-, state, hlate, heq⟩
    · refine ⟨⟨hsends, fun hopen => ?_⟩, _, rfl, ?_⟩
      · simp only [Conn.after, heq] at hopen ⊢
        exact h.fits hopen
      · rw [heq]
        exact .of_empty (forall_mem_nil _)
    refine ⟨⟨hsends, fun hopen => ?_⟩, _, rfl, ?_⟩
    · simp only [Conn.after, heq, send_fin_state] at hopen
      exact absurd (.inr (.inr hopen)) hlate
    · rw [heq]
      exact .of_empty fun seg hseg => mem_singleton.mp hseg ▸ rfl

/-- In every run in which the application and the peer keep to the window, every byte that is sent
is below the right edge that was advertised last. -/
theorem sent_below_edge (h : Transition.Reachable (Conn.step b) InWindow Conn.Opened c)
    (hguard : InWindow c e) (hstep : c.step b e = some c') :
    ∃ segs, c'.sent = c.sent ++ segs ∧ ∀ seg ∈ segs, ∀ i < seg.data.length,
      sequenceGt c'.sock.txWinHigh (seg.seq + BitVec.ofNat 32 i) := by
  have hobeys : c.Obeys := by
    refine h.invariant (fun hc => ⟨hc.sends, fun hopen => ?_⟩)
      fun hc hguard hstep => (hc.step hguard hstep).1
    obtain ⟨rand, rxRaw, txRaw, rfl | ⟨p, rfl⟩⟩ := hc
    · rcases hopen with hopen | hopen <;> cases hopen
    · obtain ⟨high, hsame⟩ := move_edge_same (acceptSocket rand rxRaw txRaw p : Socket Tid)
      simp only [Conn.start, acceptSyn, tcpSocketSend, hsame] at hopen
      rcases hopen with hopen | hopen <;> cases hopen
  exact (hobeys.step hguard hstep).2

end Steps

/-- The peer advertises a window of four bytes, and three are written. -/
def narrowRun : List Event := [.input ⟨.ofAck, 100, 1, 4, fun _ => 0, 0⟩, .write [1, 2, 3]]

theorem sent_below_edge_four : ∃ c c' : Conn Unit, c.step releaseBuild .retransmit = some c' ∧
    c'.sent.length = c.sent.length + 1 ∧
    ∃ segs, c'.sent = c.sent ++ segs ∧ ∀ seg ∈ segs, ∀ i < seg.data.length,
      sequenceGt c'.sock.txWinHigh (seg.seq + BitVec.ofNat 32 i) := by
  have hrun : ∃ c ∈ Transition.run (Conn.step releaseBuild) accepted narrowRun,
      ∃ c' ∈ c.step releaseBuild .retransmit, c'.sent.length = c.sent.length + 1 := by
    decide +kernel
  obtain ⟨c, hc, c', hc', hlength⟩ := hrun
  have hreach : Transition.Reachable (Conn.step releaseBuild) InWindow Conn.Opened c :=
    Transition.Reachable.run (.init ⟨0, _, _, .inr ⟨_, rfl⟩⟩)
      (by decide +kernel : Transition.Admits _ _ accepted narrowRun) hc
  exact ⟨c, c', hc', hlength, sent_below_edge (e := .retransmit) hreach trivial hc'⟩

/-- The peer advertises a window of two bytes, and three are sent. -/
theorem write_over_edge : ∃ c ∈ Transition.run (Conn.step releaseBuild) accepted
      [.input ⟨.ofAck, 100, 1, 2, fun _ => 0, 0⟩, .write [1, 2, 3]],
    ∃ seg ∈ c.sent, seg.data.length = 3 ∧
      ¬ sequenceGt c.sock.txWinHigh (seg.seq + BitVec.ofNat 32 2) := by
  decide +kernel

end NusaKernel.Tcp
