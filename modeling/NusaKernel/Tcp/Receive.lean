import NusaKernel.Lib.Segment
import NusaKernel.Tcp.Window
import Mathlib.Tactic.Abel

/-!
# The stream that a TCP connection receives (`lib/minip/tcp.c`)

The segments of the peer arrive in any order, again and again, cut in any way. As long as no segment
begins before `rx_win_low` and goes on behind it, what is handed to the receive buffer is the
stream up to `rx_win_low` (`receive_stream`).

For a segment that overlaps what was received, `handle_data` computes the part to skip with the
wrong sign. A build with assertions stops there; one without copies as much as the window allows
from memory that is not part of the packet (`overlap_hands_over_garbage`).

The test for a `FIN` compares `rx_win_low` with the number of the last byte of the segment. It takes
the `FIN` in place of a last byte that does not fit (`fin_without_last_byte`), and any `FIN` of an
earlier number. `fin_in_order` says of which segments it is right.
-/

namespace NusaKernel.Tcp

open List Ring

variable {Tid : Type*} [DecidableEq Tid] {b : Build} {c c' : Conn Tid} {stream : ℕ → UInt8}
  {p : Packet} {pos : ℕ} {o : Outcome Tid} {s : Socket Tid}

/-- The packet carries the bytes of the stream from `pos` on, and less than half of the numbers are
in flight. -/
structure PeerSegment (stream : ℕ → UInt8) (c : Conn Tid) (p : Packet) (pos : ℕ) : Prop where
  number : p.seqNum = c.rxBase + BitVec.ofNat 32 pos
  bytes : ∀ i < p.dataLen, p.data i = stream (pos + i)
  not_old : c.handed.length < pos + 2 ^ 31
  in_flight : pos + p.dataLen ≤ c.handed.length + 2 ^ 31

/-- All data comes from the stream of the peer, and no segment begins before `rx_win_low` and goes
on behind it. -/
def FromPeer (stream : ℕ → UInt8) (c : Conn Tid) : Event → Prop
  | .input p => c.sock.state = .established → 0 < p.dataLen →
      ∃ pos, PeerSegment stream c p pos ∧
        (pos < c.handed.length → pos + p.dataLen ≤ c.handed.length)
  | _ => True

omit [DecidableEq Tid] in
/-- The segment that reaches the bottom of the window begins at or before it. -/
theorem PeerSegment.in_order_iff (h : PeerSegment stream c p pos) (hlen : 0 < p.dataLen)
    (hlow : s.rxWinLow = c.rxBase + BitVec.ofNat 32 c.handed.length) :
    inOrder s p.dataLen p.seqNum ↔ pos ≤ c.handed.length ∧ c.handed.length < pos + p.dataLen := by
  have hold := h.not_old
  have hflight := h.in_flight
  have hseq : p.seqNum - s.rxWinLow = BitVec.ofNat 32 pos - BitVec.ofNat 32 c.handed.length := by
    rw [h.number, hlow, add_sub_add_left_eq_sub]
  have htop : p.seqNum + BitVec.ofNat 32 p.dataLen - 1 - s.rxWinLow =
      BitVec.ofNat 32 (pos + p.dataLen - 1) - BitVec.ofNat 32 c.handed.length := by
    rw [h.number, hlow, ← ofNat_sub_ofNat (show 1 ≤ pos + p.dataLen by omega), BitVec.ofNat_add]
    show _ - BitVec.ofNat 32 1 - _ = _
    abel
  unfold inOrder sequenceLte sequenceGte
  rw [hseq, htop, SerialOrder.toInt_ofNat_sub_ofNat 31 (by omega) (by omega),
    SerialOrder.toInt_ofNat_sub_ofNat 31 (by omega) (by omega)]
  omega

/-- What is handed over is the stream so far. -/
def Conn.InStream (stream : ℕ → UInt8) (c : Conn Tid) : Prop :=
  c.handed = Ring.block stream 0 c.handed.length

theorem handle_data_stream (hin : c.InStream stream)
    (hlow : s.rxWinLow = c.rxBase + BitVec.ofNat 32 c.handed.length)
    (hseg : PeerSegment stream c p pos) (hlen : 0 < p.dataLen)
    (hwhole : pos < c.handed.length → pos + p.dataLen ≤ c.handed.length)
    (ho : handleData b s p.data p.dataLen p.seqNum = some o) :
    c.handed ++ o.handed = Ring.block stream 0 (c.handed ++ o.handed).length := by
  have hflight := hseg.in_flight
  by_cases horder : inOrder s p.dataLen p.seqNum
  · have hbounds := (hseg.in_order_iff hlen hlow).mp horder
    obtain rfl : pos = c.handed.length := by
      by_contra hne
      omega
    have hseq : p.seqNum = s.rxWinLow := hseg.number.trans hlow.symm
    rw [hseq] at ho
    have hhanded := handle_data_bottom b s p.data hlen (by omega) ho
    have hblock : o.handed = Ring.block stream c.handed.length o.handed.length := by
      rw [hhanded, length_block]
      refine map_congr_left fun i hi => ?_
      have hi := mem_range.mp hi
      rw [Nat.zero_add]
      exact hseg.bytes i (by omega)
    rw [length_append, block_add, Nat.zero_add, ← hblock, ← hin]
  · rcases handle_data_cases ho with ⟨horder', -⟩ | ⟨-, hhanded, -⟩
    · exact absurd horder' horder
    · rw [hhanded, append_nil]
      exact hin

/-- The invariant of the receiving side, for the stream of the peer. -/
structure Conn.Following (stream : ℕ → UInt8) (c : Conn Tid) : Prop where
  stored : c.Stored
  in_stream : c.sock.state.Early → c.InStream stream

omit [DecidableEq Tid] in
/-- A packet that hands over nothing. -/
theorem Conn.InStream.quiet (h : c.InStream stream) (hhanded : o.handed = []) :
    (c.receive o).InStream stream := by
  show c.handed ++ o.handed = Ring.block stream 0 (c.handed ++ o.handed).length
  rw [hhanded, append_nil]
  exact h

theorem Conn.Following.input (h : c.Following stream) (hguard : FromPeer stream c (.input p))
    (hstep : c.step b (.input p) = some c') (hearly : c'.sock.state.Early) :
    c'.InStream stream := by
  obtain ⟨o, ho, rfl⟩ := Option.map_eq_some_iff.mp hstep
  cases input_of_tcp_input ho with
  | reset => exact absurd hearly (show ¬ TcpState.closed.Early by decide)
  | refuse => exact (h.in_stream hearly).quiet rfl
  | accept hstate => exact (h.in_stream (.inr (.inl hstate))).quiet rfl
  | connect hstate => exact (h.in_stream (.inl hstate)).quiet rfl
  | closeWait hstate | closeWaitFin hstate =>
    exact (h.in_stream (.inr (.inr (.inr hstate)))).quiet rfl
  | late _ hstate' => exact absurd hearly hstate'
  | @data hstate o' ho' =>
    have hin := h.in_stream (.inr (.inr (.inl hstate)))
    have hlow := (input_ack_frame c.sock p).2.2.1.trans (h.stored.low_eq hstate)
    have hfin : (inputFin o' p).handed = o'.handed := by
      unfold inputFin
      split <;> rfl
    show c.handed ++ (inputFin o' p).handed = Ring.block stream 0 _
    rw [show (c.receive (inputFin o' p)).handed = c.handed ++ (inputFin o' p).handed from rfl, hfin]
    unfold inputData at ho'
    split at ho'
    next hlen =>
      obtain ⟨pos, hseg, hwhole⟩ := hguard hstate hlen
      exact handle_data_stream hin hlow hseg hlen hwhole ho'
    next =>
      cases ho'
      rw [show (Outcome.quiet (inputAck c.sock p)).handed = [] from rfl, append_nil]
      exact hin

theorem Conn.Following.step {e : Event} (h : c.Following stream) (hguard : FromPeer stream c e)
    (hstep : c.step b e = some c') : c'.Following stream := by
  refine ⟨h.stored.step hstep, fun hearly => ?_⟩
  have hbefore : c.sock.state.Early := by
    by_contra hlate
    exact late_step hlate hstep hearly
  have hin := h.in_stream hbefore
  cases e with
  | input p => exact h.input hguard hstep hearly
  | read | write | retransmit | delayedAck | close =>
    cases hstep
    exact hin

omit [DecidableEq Tid] in
theorem Conn.Opened.following (h : c.Opened) : c.Following stream := by
  refine ⟨h.stored, fun _ => ?_⟩
  obtain ⟨rand, rxRaw, txRaw, rfl | ⟨p, rfl⟩⟩ := h <;> rfl

theorem following_of_reachable
    (h : Transition.Reachable (Conn.step b) (FromPeer stream) Conn.Opened c) : c.Following stream :=
  Transition.Reachable.invariant (P := Conn.Following stream) (fun h => h.following)
    (fun h => h.step) h

/-- The bytes handed to the receive buffer of an established connection are a part of the stream of
the peer from its beginning, as long as `rx_win_low` has advanced. -/
theorem receive_stream (h : Transition.Reachable (Conn.step b) (FromPeer stream) Conn.Opened c)
    (hstate : c.sock.state = .established) :
    c.handed = Ring.block stream 0 c.handed.length ∧
      c.sock.rxWinLow = c.rxBase + BitVec.ofNat 32 c.handed.length :=
  ⟨(following_of_reachable h).in_stream (.inr (.inr (.inl hstate))),
    (following_of_reachable h).stored.low_eq hstate⟩

/-! ## A segment with a `FIN` -/

section Fin

/-- How much of a segment was received before. -/
def received (s : Socket Tid) (p : Packet) : ℕ := (s.rxWinLow - p.seqNum).toNat

/-- The segment is none of those whose `FIN` is taken out of order. If the next byte is in it, the
window ends two bytes or more before the segment does, or all new bytes fit; if some bytes of the
segment were received before, the new ones have to fill the window, and what is copied in their
place has to be equal by chance. If the next byte is not in it, the segment ends right in front of
this byte, or lies behind it. -/
def FinInPlace (b : Build) (s : Socket Tid) (p : Packet) : Prop :=
  let window := (s.rxWinHigh - s.rxWinLow).toNat
  let fresh := p.dataLen - received s p
  (0 < p.dataLen ∧ inOrder s p.dataLen p.seqNum →
    window + 1 < fresh ∨
      (fresh = window ∨ received s p = 0 ∧ fresh < window) ∧ ∀ i < fresh,
        p.data (((p.seqNum - s.rxWinLow).toNat + i) % 2 ^ b.sizeBits) = p.data (received s p + i)) ∧
  (¬ (0 < p.dataLen ∧ inOrder s p.dataLen p.seqNum) →
    p.seqNum + BitVec.ofNat 32 p.dataLen = s.rxWinLow ∨
      ¬ sequenceGte s.rxWinLow p.highestSequence)

omit [DecidableEq Tid] in
theorem seq_eq_sub (s : Socket Tid) (p : Packet) :
    p.seqNum = s.rxWinLow - BitVec.ofNat 32 (received s p) := by
  rw [received, BitVec.ofNat_toNat, BitVec.setWidth_eq, sub_sub_cancel]

omit [DecidableEq Tid] in
/-- Of a segment with the next byte in it, less than all was received before. -/
theorem received_lt (hlen : 0 < p.dataLen) (hle : p.dataLen ≤ 2 ^ 31)
    (h : inOrder s p.dataLen p.seqNum) : received s p < p.dataLen := by
  obtain ⟨hfirst, hlast⟩ := h
  have hlt : received s p < 2 ^ 32 := (s.rxWinLow - p.seqNum).isLt
  have hseq := seq_eq_sub s p
  have hold : received s p ≤ 2 ^ 31 := by
    by_contra hlong
    rw [hseq, sequenceLte, sub_right_comm, sub_self,
      show (0 : BitVec 32) = BitVec.ofNat 32 (2 ^ 32) from rfl,
      SerialOrder.toInt_ofNat_sub_ofNat 31 (by omega) (by omega)] at hfirst
    omega
  have htop : p.seqNum + BitVec.ofNat 32 p.dataLen - 1 - s.rxWinLow =
      BitVec.ofNat 32 p.dataLen - BitVec.ofNat 32 (received s p + 1) := by
    rw [hseq, BitVec.ofNat_add]
    show _ - BitVec.ofNat 32 1 - _ = _
    abel
  rw [sequenceGte, htop, SerialOrder.toInt_ofNat_sub_ofNat 31 (by omega) (by omega)] at hlast
  omega

omit [DecidableEq Tid] in
/-- Where a part was received before, the code counts this part twice instead of leaving it out. -/
theorem copy_len_spec (b : Build) (hlen : 0 < p.dataLen) (hle : p.dataLen ≤ 2 ^ 31)
    (h : inOrder s p.dataLen p.seqNum) : ∃ extra,
      copyLen b s p.dataLen p.seqNum = min (s.rxWinHigh - s.rxWinLow).toNat
        (p.dataLen + received s p + extra) ∧ (received s p = 0 → extra = 0) := by
  have hlt := received_lt hlen hle h
  have hbits : 2 ^ 32 ≤ 2 ^ b.sizeBits := Nat.pow_le_pow_right (by decide) b.size_bits_le
  have hoffset : dataOffset s p.seqNum = (2 ^ 32 - received s p) % 2 ^ 32 := by
    rw [dataOffset, seq_eq_sub s p, sub_right_comm, sub_self, zero_sub, BitVec.toNat_neg,
      BitVec.toNat_ofNat, Nat.mod_eq_of_lt (show received s p < 2 ^ 32 by omega)]
  rw [copyLen, hoffset]
  by_cases hold : received s p = 0
  · refine ⟨0, ?_, fun _ => rfl⟩
    rw [hold, Nat.sub_zero, Nat.mod_self, Nat.sub_zero, Nat.add_mod_right,
      Nat.mod_eq_of_lt (by omega)]
    rfl
  · refine ⟨2 ^ b.sizeBits - 2 ^ 32, ?_, fun hzero => absurd hzero hold⟩
    rw [Nat.mod_eq_of_lt (show 2 ^ 32 - received s p < 2 ^ 32 by omega),
      show p.dataLen + (2 ^ b.sizeBits - (2 ^ 32 - received s p)) =
        p.dataLen + received s p + (2 ^ b.sizeBits - 2 ^ 32) by omega, Nat.mod_eq_of_lt (by omega)]

omit [DecidableEq Tid] in
/-- If the next byte is in the segment, its `FIN` is taken if all new bytes but one were. -/
theorem fin_taken_iff (hlen : 0 < p.dataLen) (hle : p.dataLen ≤ 2 ^ 31)
    (h : inOrder s p.dataLen p.seqNum) {n : ℕ} (hn : n ≤ 8191) :
    (sequenceGte (s.rxWinLow + BitVec.ofNat 32 n) p.highestSequence ↔
      p.dataLen - received s p ≤ n + 1) ∧
    (p.seqNum + BitVec.ofNat 32 p.dataLen = s.rxWinLow + BitVec.ofNat 32 n ↔
      p.dataLen - received s p = n) := by
  have hlt := received_lt hlen hle h
  have hseq := seq_eq_sub s p
  have hdiff : s.rxWinLow + BitVec.ofNat 32 n - p.highestSequence =
      BitVec.ofNat 32 (n + received s p) - BitVec.ofNat 32 (p.dataLen - 1) := by
    rw [Packet.highestSequence, hseq, BitVec.ofNat_add]
    abel
  have hend : p.seqNum + BitVec.ofNat 32 p.dataLen =
      s.rxWinLow + BitVec.ofNat 32 (p.dataLen - received s p) := by
    rw [hseq, ← ofNat_sub_ofNat hlt.le]
    abel
  constructor
  · rw [sequenceGte, hdiff, SerialOrder.toInt_ofNat_sub_ofNat 31 (by omega) (by omega)]
    omega
  · rw [hend, BitVec.add_right_inj, ← BitVec.toNat_inj, BitVec.toNat_ofNat, BitVec.toNat_ofNat,
      Nat.mod_eq_of_lt (by omega), Nat.mod_eq_of_lt (by omega)]

/-- A `FIN` is taken only if the new part of the segment was, exactly if the segment is in place. -/
theorem fin_data_iff (hle : p.dataLen ≤ 2 ^ 31)
    (hlow : o.socket.rxWinLow = s.rxWinLow + BitVec.ofNat 32 o.handed.length)
    (hopen : (s.rxWinHigh - s.rxWinLow).toNat ≤ 8191) (ho : inputData b s p = some o) :
    (sequenceGte o.socket.rxWinLow p.highestSequence →
      o.handed = (Ring.block p.data 0 p.dataLen).drop (received s p) ∧
      p.seqNum + BitVec.ofNat 32 p.dataLen = s.rxWinLow + BitVec.ofNat 32 o.handed.length) ↔
    FinInPlace b s p := by
  unfold FinInPlace
  dsimp only
  rw [hlow]
  by_cases hin : 0 < p.dataLen ∧ inOrder s p.dataLen p.seqNum
  · rw [forall_prop_of_true hin, and_iff_left fun hnot => absurd hin hnot]
    obtain ⟨hpos, horder⟩ := hin
    rw [inputData, if_pos hpos] at ho
    have hlt := received_lt hpos hle horder
    obtain ⟨extra, hcopy, hextra⟩ := copy_len_spec b hpos hle horder
    rcases handle_data_cases ho with ⟨-, -, source, hsource, hhanded, -⟩ | ⟨hnot, -⟩
    rotate_left
    · exact absurd horder hnot
    have hn : o.handed.length = copyLen b s p.dataLen p.seqNum := by rw [hhanded, length_block]
    obtain ⟨htaken, hnumber⟩ := fin_taken_iff hpos hle horder (show o.handed.length ≤ 8191 by omega)
    have hall : p.dataLen - received s p = o.handed.length ↔
        p.dataLen - received s p = (s.rxWinHigh - s.rxWinLow).toNat ∨
          received s p = 0 ∧ p.dataLen - received s p < (s.rxWinHigh - s.rxWinLow).toNat := by
      constructor <;> omega
    rw [htaken, hnumber, and_comm, ← hall, or_iff_not_imp_left]
    refine imp_congr (by omega) (and_congr_right fun hsame => ?_)
    rw [Segment.drop_block hlt.le, Nat.zero_add, hhanded, ← hn, ← hsame, block, block,
      map_inj_left, hsource]
    simp only [mem_range, Nat.zero_add]
    rfl
  · rw [and_iff_right fun h => absurd h hin, forall_prop_of_true hin, input_data_outside ho hin]
    show (sequenceGte (s.rxWinLow + 0) _ → _ ∧ _ = s.rxWinLow + 0) ↔ _
    rw [add_zero, or_comm, ← imp_iff_not_or]
    refine imp_congr_right fun _ => and_iff_right_of_imp fun hend => ?_
    rw [received, ← hend, add_sub_cancel_left, BitVec.toNat_ofNat, Nat.mod_eq_of_lt (by omega),
      drop_eq_nil_of_le (length_block ..).le]

end Fin

/-- Up to now the stream of the peer was received in order. A segment takes the connection to
`STATE_CLOSE_WAIT` only if its new part was received too, so that everything before its `FIN` was
read or is in the buffer, and then `rx_win_low` is the number behind the `FIN`: exactly if the
segment has no `FIN`, or resets the connection, or is in place. -/
theorem fin_in_order (h : Transition.Reachable (Conn.step b) (FromPeer stream) Conn.Opened c)
    (hstate : c.sock.state = .established) (hlen : p.dataLen ≤ 2 ^ 31)
    (hstep : c.step b (.input p) = some c') :
    c.handed = Ring.block stream 0 c.handed.length ∧
      ((c'.sock.state = .closeWait →
        c'.handed = c.handed ++ (Ring.block p.data 0 p.dataLen).drop (received c.sock p) ∧
        c'.delivered ++ Cbuf.queue c'.sock.rxBuffer = c'.handed ∧
        c'.sock.rxWinLow = p.seqNum + BitVec.ofNat 32 p.dataLen + 1) ↔
      (p.flags.fin = true → ¬ p.flags.rst = true → FinInPlace b c.sock p)) := by
  have hfollow := following_of_reachable h
  have hlive := hfollow.stored.live (.inr (.inl hstate))
  refine ⟨hfollow.in_stream (.inr (.inr (.inl hstate))), ?_⟩
  by_cases hrst : p.flags.rst = true
  · refine iff_of_true (fun hwait => ?_) fun _ hnot => absurd hrst hnot
    exact nomatch (closed_of_reset hrst hstep).symm.trans hwait
  obtain ⟨o, ho, hhanded, hlow, hwait, hnext⟩ := hlive.input hstate hrst hstep
  obtain ⟨-, -, hack, hhigh⟩ := input_ack_frame c.sock p
  obtain ⟨high, hle, hroom, -⟩ := hlive.offered
  have hopen : (c.sock.rxWinHigh - c.sock.rxWinLow).toNat ≤ 8191 := by
    have hfits := hroom.fits
    rw [hroom.open_eq hle]
    omega
  have hdata := fin_data_iff hlen (hack.symm ▸ hlow) (by rwa [hack, hhigh]) ho
  simp only [FinInPlace, received, inOrder, hack, hhigh] at hdata ⊢
  rw [← hdata]
  refine ⟨fun h hfin _ htaken => ?_, fun h hclose => ?_⟩
  · have hclose := hwait.mpr ⟨hfin, htaken⟩
    obtain ⟨hnew, -, hnumber⟩ := h hclose
    rw [hnext hclose, hlow, BitVec.add_left_inj] at hnumber
    exact ⟨append_cancel_left (hhanded.symm.trans hnew), hnumber.symm⟩
  · obtain ⟨hfin, htaken⟩ := hwait.mp hclose
    obtain ⟨hnew, hnumber⟩ := h hfin hrst htaken
    refine ⟨by rw [hhanded, hnew], ?_, ?_⟩
    · exact ((hfollow.stored.step hstep).live (.inr (.inr hclose))).stored
    · rw [hnext hclose, hlow, hnumber]

omit [DecidableEq Tid] in
/-- A byte that is next in a stream that has only zeros so far. -/
theorem peer_segment_byte (hstored : c.Stored) (hstate : c.sock.state = .established) :
    PeerSegment (fun _ => 0) c (zeros .ofPush c.sock.rxWinLow 1) c.handed.length :=
  ⟨hstored.low_eq hstate, fun _ _ => rfl, Nat.lt_add_of_pos_right (by decide),
    Nat.add_le_add_left (show 1 ≤ 2 ^ 31 by decide) _⟩

/-- Such a segment may come at any time. -/
theorem from_peer_byte (c : Conn Unit) (hstored : c.Stored) (hstate : c.sock.state = .established) :
    FromPeer (fun _ => 0) c (.input (zeros .ofPush c.sock.rxWinLow 1)) :=
  fun _ _ => ⟨_, peer_segment_byte hstored hstate, fun hlt => absurd hlt (Nat.lt_irrefl _)⟩

/-- Three bytes have arrived. -/
theorem receive_stream_three : ∃ c : Conn Unit,
    Transition.Reachable (Conn.step releaseBuild) (FromPeer fun _ => 0) Conn.Opened c ∧
    c.sock.state = .established ∧ c.handed.length = 3 ∧
    c.handed = Ring.block (fun _ => 0) 0 3 ∧ c.sock.rxWinLow = c.rxBase + 3 := by
  obtain ⟨c, hreach, -, hstate, -, -, hhanded⟩ := exists_filled (FromPeer fun _ => 0)
    (fun hstate => absurd hstate (by decide +kernel)) from_peer_byte 3 (by decide)
  have hlen : c.handed.length = 3 := by rw [hhanded, length_block]
  have hstream := receive_stream hreach hstate
  rw [hlen] at hstream
  exact ⟨c, hreach, hstate, hlen, hstream.1, hstream.2⟩

/-- Two bytes are in the buffer, and the segment with the `FIN` brings a third. -/
theorem fin_in_order_third : ∃ c c' : Conn Unit,
    Transition.Reachable (Conn.step releaseBuild) (FromPeer fun _ => 0) Conn.Opened c ∧
    c.sock.state = .established ∧ Cbuf.cbufSpaceUsed c.sock.rxBuffer = 2 ∧
    c.step releaseBuild (.input (zeros .ofLast c.sock.rxWinLow 1)) = some c' ∧
    c'.sock.state = .closeWait ∧ c'.handed = c.handed ++ [0] ∧
    c'.sock.rxWinLow = c.sock.rxWinLow + 1 + 1 := by
  obtain ⟨c, c', hrun, hstate, hused, hopen, hstep, hwait, -⟩ := exists_fin_taken
    (FromPeer fun _ => 0) (fun hstate => absurd hstate (by decide +kernel)) from_peer_byte (n := 2)
    (by decide) Nat.one_pos (by decide) rfl (by decide)
  have hold : received c.sock (zeros .ofLast c.sock.rxWinLow 1) = 0 := by
    show (c.sock.rxWinLow - c.sock.rxWinLow).toNat = 0
    rw [BitVec.sub_self]
    rfl
  have hplace : FinInPlace releaseBuild c.sock (zeros .ofLast c.sock.rxWinLow 1) := by
    have hin := in_order_bottom c.sock Nat.one_pos (by decide : 1 ≤ 2 ^ 31)
    refine ⟨fun _ => .inr ⟨.inr ⟨hold, ?_⟩, fun _ _ => rfl⟩,
      fun hnot => absurd ⟨Nat.one_pos, hin⟩ hnot⟩
    rw [hold, hopen]
    exact (by decide : 1 - 0 < 8191 - 2)
  obtain ⟨hhanded, -, hlow⟩ := (fin_in_order hrun hstate (show 1 ≤ 2 ^ 31 by decide) hstep).2.mpr
    (fun _ _ => hplace) hwait
  rw [hold] at hhanded
  exact ⟨c, c', hrun, hstate, hused, hstep, hwait, hhanded, hlow⟩

/-- The window is closed. Of the last segment the byte is dropped and the `FIN` is taken, and
`rx_win_low` stops at the number of the `FIN`. -/
theorem fin_without_last_byte : ∃ c c' : Conn Unit,
    Transition.Reachable (Conn.step releaseBuild) (FromPeer fun _ => 0) Conn.Opened c ∧
    c.sock.state = .established ∧ (c.sock.rxWinHigh - c.sock.rxWinLow).toNat = 0 ∧
    c.step releaseBuild (.input (zeros .ofLast c.sock.rxWinLow 1)) = some c' ∧
    c'.sock.state = .closeWait ∧ c'.sock.rxWinLow = c.sock.rxWinLow + 1 ∧
    c'.handed.length = c.handed.length := by
  obtain ⟨c, c', hrun, hstate, -, hlast⟩ := exists_fin_taken (FromPeer fun _ => 0)
    (fun hstate => absurd hstate (by decide +kernel)) from_peer_byte (n := 8191) (by decide)
    Nat.one_pos (by decide) rfl (by decide)
  exact ⟨c, c', hrun, hstate, hlast⟩

/-- A stream of three zeros and then ones. -/
def sampleStream (i : ℕ) : UInt8 := if i < 3 then 0 else 1

/-- The second to the fourth byte of that stream, with other memory behind it. -/
def overlapData (i : ℕ) : UInt8 := if i < 3 then sampleStream (1 + i) else 2

def overlapping (c : Conn Unit) : Packet := ⟨.ofPush, c.rxBase + 1, 0, 0, overlapData, 3⟩

/-- After three bytes of the stream a segment arrives that repeats two of them. What is handed over
next is not from the stream. -/
theorem overlap_hands_over_garbage : ∃ c c' : Conn Unit, c.Run releaseBuild ∧
    c.sock.state = .established ∧ c.handed = Ring.block sampleStream 0 3 ∧
    PeerSegment sampleStream c (overlapping c) 1 ∧
    c.step releaseBuild (.input (overlapping c)) = some c' ∧
    c'.handed ≠ Ring.block sampleStream 0 c'.handed.length := by
  obtain ⟨c, hrun, hstored, hstate, hfull, hused, hhanded⟩ :=
    exists_filled Transition.Always trivial (fun _ _ _ => trivial) 3 (by decide)
  have hlen : c.handed.length = 3 := by rw [hhanded, length_block]
  have hseg : PeerSegment sampleStream c (overlapping c) 1 := by
    refine ⟨rfl, fun i hi => if_pos hi, ?_, ?_⟩
    · omega
    · rw [hlen]
      show 1 + 3 ≤ 3 + 2 ^ 31
      decide
  have hlow := hstored.low_eq hstate
  have horder : inOrder c.sock 3 (overlapping c).seqNum :=
    (hseg.in_order_iff (show 0 < 3 by decide) hlow).mpr (by
      rw [hlen]
      exact (show 1 ≤ 3 ∧ 3 < 1 + 3 by decide))
  have hoffset : dataOffset c.sock (overlapping c).seqNum = 2 ^ 32 - 2 := by
    rw [dataOffset, hlow, hlen]
    show (c.rxBase + BitVec.ofNat 32 1 - (c.rxBase + BitVec.ofNat 32 3)).toNat = _
    rw [add_sub_add_left_eq_sub]
    decide
  have hopen : 0 < copyLen releaseBuild c.sock 3 (overlapping c).seqNum := by
    unfold Full at hfull
    rw [copyLen, hoffset]
    have hwin : (c.sock.rxWinHigh - c.sock.rxWinLow).toNat = 8188 := by omega
    rw [hwin]
    decide
  obtain ⟨o, ho⟩ : ∃ o, handleData releaseBuild c.sock (overlapping c).data 3
      (overlapping c).seqNum = some o := by
    unfold handleData
    rw [if_pos horder]
    dsimp only
    rw [if_neg (show ¬ (releaseBuild.debug = true ∧ _) from
      fun h => absurd h.1 Bool.false_ne_true)]
    split
    · exact ⟨_, rfl⟩
    · exact ⟨_, rfl⟩
  have hinput : tcpInput releaseBuild c.sock (overlapping c) = some o := by
    have hack : inputAck c.sock (overlapping c) = c.sock := rfl
    have hdata : inputData releaseBuild c.sock (overlapping c) = some o := ho
    have hquiet : inputFin o (overlapping c) = o :=
      if_neg fun hfin => absurd hfin.1 Bool.false_ne_true
    unfold tcpInput
    rw [if_neg (show ¬ (overlapping c).flags.rst = true from Bool.false_ne_true), hstate]
    rw [hack, hdata, Option.map_some, hquiet]
  refine ⟨c, c.receive o, hrun, hstate, hhanded, hseg, congrArg (Option.map c.receive) hinput,
    fun heq => ?_⟩
  rcases handle_data_cases ho with ⟨-, -, source, hsource, hblock, -⟩ | ⟨hnot, -⟩
  · -- the fourth byte that is handed over is not the fourth of the stream
    have hlast : o.handed = Ring.block sampleStream 3 o.handed.length := by
      have heq : c.handed ++ o.handed =
        Ring.block sampleStream 0 (c.handed ++ o.handed).length := heq
      rw [length_append, block_add, hlen] at heq
      exact (append_inj heq (by rw [hlen, length_block])).2
    rw [hblock, length_block] at hlast
    obtain ⟨n, hn⟩ := Nat.exists_eq_succ_of_ne_zero hopen.ne'
    rw [hn, Nat.succ_eq_one_add, block_add, block_add] at hlast
    have hfirst := (append_inj hlast rfl).1
    rw [hsource, hoffset] at hfirst
    change Ring.block (fun i => overlapData ((2 ^ 32 - 2 + i) % 2 ^ 64)) 0 1 =
      Ring.block sampleStream 3 1 at hfirst
    exact absurd hfirst (by decide)
  · exact absurd horder hnot

end NusaKernel.Tcp
