import NusaKernel.Klog.Klog
import NusaKernel.Lib.Transition

/-!
# A kernel log survives a restart

`klog_recover` accepts a buffer only if the sum kept in each log is the sum of the bytes of its
ring. `klog_puts_len` never computes that sum again: it adds the difference that each stored byte
makes. `recovered` is the invariant that the two agree, over every run in which the bytes written
have the same value as a `char` and as a `uint8_t`, and with it what `klog_recover` returns.

Where `char` is signed, a byte from 0x80 on is subtracted from the sum where it should be added:
`not_recovered`.
-/

namespace NusaKernel.Klog

open List Transition

/-- The sum that is kept in a log is the sum of its bytes. -/
def Summed (k : KlogHeader) : Prop := k.dataChecksum = getChecksumKlogData k

/-- The byte has the same value as a `char` and as a `uint8_t`. -/
def Plain (charSigned : Bool) (c : UInt8) : Prop := charSigned = true → c.toNat < 128
deriving Decidable

variable {charSigned : Bool} {s : State} {k : KlogHeader} {size : ℕ}

/-! ## Sums -/

/-- Bytes above those that are summed do not matter. -/
theorem byte_sum_update_of_le (data : ℕ → UInt8) (c : UInt8) {i n : ℕ} (h : n ≤ i) :
    byteSum (Function.update data i c) n = byteSum data n := by
  induction n with
  | zero => rfl
  | succ n ih => rw [byteSum, byteSum, ih (by omega), Function.update_of_ne (by omega)]

/-- The sum changes by the difference of the new and the old byte. -/
theorem byte_sum_update (data : ℕ → UInt8) (c : UInt8) {i n : ℕ} (h : i < n) :
    byteSum (Function.update data i c) n = byteSum data n + (c.toUInt32 - (data i).toUInt32) := by
  induction n with
  | zero => omega
  | succ n ih =>
    rw [byteSum, byteSum]
    rcases Nat.lt_or_eq_of_le (Nat.le_of_lt_succ h) with hlt | rfl
    · grind
    · rw [byte_sum_update_of_le data c (Nat.le_refl i), Function.update_self]
      grind

theorem ofInt_to_nat (c : UInt8) : UInt32.ofInt c.toNat = c.toUInt32 := by
  have hlt := c.toNat_lt
  rw [UInt32.ofInt]
  apply UInt32.toNat_inj.mp
  simp only [UInt32.toNat_ofNat', UInt8.toNat_toUInt32]
  omega

/-- A byte that is not negative as a `char` adds what it changes. -/
theorem delta_byte_eq {c : UInt8} (h : Plain charSigned c) :
    deltaByte charSigned k c = c.toUInt32 - (k.data k.head).toUInt32 := by
  have hchar : charToInt charSigned c = c.toNat :=
    if_neg fun hneg => absurd (h hneg.1) (Nat.not_lt.mpr hneg.2)
  rw [deltaByte, hchar, Int.sub_eq_add_neg, UInt32.ofInt_add, UInt32.ofInt_neg, ofInt_to_nat,
    ofInt_to_nat, UInt32.sub_eq_add_neg]

/-- The loop adds to `deltasum` what the bytes that it stores change in the sum of the ring. -/
theorem puts_loop_sum (h : k.Valid size) (deltasum : UInt32) (count : ℕ) (str : List UInt8)
    (hplain : ∀ c ∈ str.takeWhile (· ≠ 0), Plain charSigned c) :
    getChecksumKlogData (putsLoop charSigned k deltasum count str).1 + deltasum =
      getChecksumKlogData k + (putsLoop charSigned k deltasum count str).2.1 := by
  induction str generalizing k deltasum count with
  | nil => rfl
  | cons c str ih =>
    unfold putsLoop
    split
    · rfl
    next hc =>
    rw [takeWhile_cons_of_pos (by simpa using hc)] at hplain
    have hrest := ih (h.put_byte c) (deltasum + deltaByte charSigned k c) (count + 1)
      (forall_mem_cons.mp hplain).2
    have hbyte : getChecksumKlogData (putByte k c) =
        getChecksumKlogData k + deltaByte charSigned k c := by
      rw [delta_byte_eq (hplain c mem_cons_self)]
      exact byte_sum_update k.data c (h.size_eq ▸ h.head_lt)
    grind

/-- `klog_puts_len` does not touch the stored sum before its loop is over. -/
theorem puts_loop_checksum (charSigned : Bool) (k : KlogHeader) (deltasum : UInt32) (count : ℕ)
    (str : List UInt8) :
    (putsLoop charSigned k deltasum count str).1.dataChecksum = k.dataChecksum := by
  induction str generalizing k deltasum count with
  | nil => rfl
  | cons c str ih =>
    unfold putsLoop
    split
    · rfl
    · exact ih _ _ _

/-- Writing keeps the sum. -/
theorem Summed.puts_log (hsum : Summed k) (h : k.Valid size) {str : List UInt8} {len : ℕ}
    (hplain : ∀ c ∈ (str.take len).takeWhile (· ≠ 0), Plain charSigned c) :
    Summed (putsLog charSigned k str len).1 := by
  have hloop := puts_loop_sum h 0 0 (str.take len) hplain
  have hstored := puts_loop_checksum charSigned k 0 0 (str.take len)
  show _ + _ = getChecksumKlogData (putsLoop charSigned k 0 0 (str.take len)).1
  rw [hstored, hsum]
  grind

/-! ## Runs -/

/-- The bytes that a call stores have the same value as `char` and as `uint8_t`. -/
def PlainCall (charSigned : Bool) : State → Call → Prop
  | _, .putsLen str len => ∀ c ∈ (str.take len).takeWhile (· ≠ 0), Plain charSigned c
  | _, .read _ _ => True
  | _, .setCurrent _ => True

/-- `PlainCall` can be checked along a run. -/
instance (s : State) (call : Call) : Decidable (PlainCall charSigned s call) :=
  match call with
  | .putsLen str len => decidableBAll (Plain charSigned) ((str.take len).takeWhile (· ≠ 0))
  | .read _ _ => isTrue trivial
  | .setCurrent _ => isTrue trivial

/-- The state after a call. -/
def step (charSigned : Bool) (s : State) (call : Call) : Option State :=
  some (perform charSigned s call).2

/-- What `klog_recover` looks at. -/
structure Intact (size : ℕ) (s : State) : Prop where
  valid : s.Valid
  logs : s.All (KlogHeader.Valid size)
  summed : s.All Summed
  total_le : s.klogBuf.totalSize ≤ maxKlogSize

theorem perform_summed (hlogs : s.All (KlogHeader.Valid size)) (hsum : s.All Summed) (h : s.Valid)
    {call : Call} (hplain : PlainCall charSigned s call) :
    (perform charSigned s call).2.All Summed := by
  cases call with
  | putsLen str len =>
    show (klogPutsLen charSigned s str len).2.All Summed
    have hboth : s.All fun k => k.Valid size ∧ Summed k := fun k hk => ⟨hlogs k hk, hsum k hk⟩
    unfold klogPutsLen
    split
    · exact hsum
    · have hnew := hboth.modify_log (f := fun k => (putsLog charSigned k str len).1)
        fun k hk => ⟨hk.1.puts_log charSigned str len, hk.2.puts_log hk.1 hplain⟩
      exact fun k hk => (hnew k hk).2
  | read len bufId =>
    show (klogRead s len bufId).2.All Summed
    unfold klogRead
    split
    · exact hsum
    · split
      · exact hsum
      · exact hsum.modify_log fun _ hk => hk
  | setCurrent buffer =>
    show (klogSetCurrentBuffer s buffer).2.All Summed
    by_cases hlt : buffer < s.klogBuf.logCount
    · rw [State.All, (set_current_spec h hlt).2.2.1]
      exact hsum
    · rw [set_current_of_ge (by omega)]
      exact hsum

theorem perform_total_size (h : s.Valid) (call : Call) :
    (perform charSigned s call).2.klogBuf.totalSize = s.klogBuf.totalSize := by
  cases call with
  | putsLen str len =>
    show (klogPutsLen charSigned s str len).2.klogBuf.totalSize = _
    unfold klogPutsLen
    split <;> rfl
  | read len bufId =>
    show (klogRead s len bufId).2.klogBuf.totalSize = _
    unfold klogRead
    split
    · rfl
    · split <;> rfl
  | setCurrent buffer =>
    show (klogSetCurrentBuffer s buffer).2.klogBuf.totalSize = _
    by_cases hlt : buffer < s.klogBuf.logCount
    · exact (set_current_spec h hlt).2.2.2.1
    · rw [set_current_of_ge (by omega)]

theorem Intact.perform (h : Intact size s) {call : Call} (hplain : PlainCall charSigned s call) :
    Intact size (perform charSigned s call).2 :=
  let hvalid := perform_valid charSigned h.valid h.logs call
  ⟨hvalid.1, hvalid.2, perform_summed h.logs h.summed h.valid hplain,
    (perform_total_size h.valid call).trans_le h.total_le⟩

theorem empty_log_summed (size : ℕ) : Summed (emptyLog size) := rfl

theorem Intact.create {len count : ℕ} (h : klogCreate len count = .ok s)
    (hlen : len ≤ maxKlogSize) : Intact (bufferSize len count) s := by
  have hlen : len ≤ 32768 := hlen
  obtain ⟨hvalid, hlogs⟩ := create_valid h (by omega)
  obtain ⟨_, _, _, heq, htotal, _⟩ := create_spec h
  refine ⟨hvalid, hlogs, fun k hk => ?_, ?_⟩
  · rw [heq] at hk
    rw [eq_of_mem_replicate hk]
    exact empty_log_summed _
  · rw [htotal]
    exact (Nat.mod_le _ _).trans hlen

/-! ## Recovery -/

theorem validate_logs_eq {logs : List KlogHeader} (hmod : size % 4 = 0) (hmax : size ≤ maxKlogSize)
    (hlogs : ∀ k ∈ logs, k.Valid size) (hsum : ∀ k ∈ logs, Summed k) :
    validateLogs logs.length logs = noError := by
  induction logs with
  | nil => rfl
  | cons k rest ih =>
    have hk := hlogs k mem_cons_self
    have hsize := hk.size_eq
    have hhead := hk.head_lt
    have htail := hk.tail_lt
    have hstored : ¬ (k.dataChecksum ≠ 0 ∧ getChecksumKlogData k ≠ k.dataChecksum) :=
      fun hne => hne.2 (hsum k mem_cons_self).symm
    rw [length_cons, validateLogs, if_neg (not_not_intro hk.magic_eq), if_neg (by omega),
      if_neg (by omega), if_neg (by omega), if_neg (by omega), if_neg hstored]
    exact ih (forall_mem_cons.mp hlogs).2
      (forall_mem_cons.mp hsum).2

/-- One log that is not valid makes the whole buffer unrecoverable. -/
theorem recover_of_invalid {kbuf : KlogBuffer}
    (h : validateLogs kbuf.logCount kbuf.logs ≠ noError) :
    klogRecover kbuf = .error errNotFound := by
  rw [klogRecover, if_pos h, ite_self, ite_self, ite_self, ite_self]

/-- `klog_recover` finds an intact buffer as it was left. -/
theorem Intact.recover (h : Intact size s) (hmod : size % 4 = 0) (hmax : size ≤ maxKlogSize) :
    klogRecover s.klogBuf = .ok s := by
  have hlogs : validateLogs s.klogBuf.logCount s.klogBuf.logs = noError := by
    rw [h.valid.count_eq]
    exact validate_logs_eq hmod hmax h.logs h.summed
  have hcurrent := h.valid.current_lt
  have htotal := h.total_le
  have hselect : klogSetCurrentBuffer ⟨s.klogBuf, 0⟩ s.klogBuf.currentLog =
      (noError, ⟨s.klogBuf, s.klogBuf.currentLog⟩) :=
    set_current_current rfl hcurrent
  rw [klogRecover, if_neg (not_not_intro h.valid.magic_eq),
    if_neg (not_not_intro h.valid.crc_eq.symm), if_neg (by omega), if_neg (by omega),
    if_neg (not_not_intro hlogs), hselect, ← h.valid.klog_eq]

/-- In every run from `klog_create` the sum kept in each log is the sum of its bytes, and
`klog_recover` finds the buffer with every log as it was. -/
theorem recovered {len count : ℕ} {created : State} (hcreate : klogCreate len count = .ok created)
    (hlen : len ≤ maxKlogSize)
    (hreach : Transition.Reachable (step charSigned) (PlainCall charSigned) (· = created) s) :
    (∃ s', klogRecover s.klogBuf = .ok s' ∧
      (∀ i : ℕ, (s'.klogBuf.logs[i]?).map unread = (s.klogBuf.logs[i]?).map unread) ∧
      ∀ len bufId, (klogRead s' len bufId).1 = (klogRead s len bufId).1) ∧
    s.All fun k => k.dataChecksum = getChecksumKlogData k := by
  have hintact : Intact (bufferSize len count) s := by
    refine hreach.invariant_from (Intact.create hcreate hlen) ?_
    intro state call next h hplain hnext
    cases hnext
    exact h.perform hplain
  have hmod : bufferSize len count % 4 = 0 := Nat.mul_mod_left _ _
  have hmax : bufferSize len count ≤ maxKlogSize := (buffer_size_le len count).trans hlen
  exact ⟨⟨s, hintact.recover hmod hmax, fun _ => rfl, fun _ _ => rfl⟩, hintact.summed⟩

/-- Two logs with rings of four bytes: the first is written round its end and read, the second
holds bytes from 0x80 on, where `char` is unsigned. -/
theorem recovered_two_logs :
    klogCreate 68 2 = .ok (newBuffer 68 2) ∧
      ∃ s, Transition.Reachable (step false) (PlainCall false) (· = newBuffer 68 2) s ∧
        s.klogBuf.logs.map unread = [[68, 69], [0xc3, 0xa9]] ∧
        ∃ s', klogRecover s.klogBuf = .ok s' ∧
          ∀ len bufId, (klogRead s' len bufId).1 = (klogRead s len bufId).1 := by
  have hcreate : klogCreate 68 2 = .ok (newBuffer 68 2) := rfl
  obtain ⟨s, hreach, hunread⟩ := exists_reachable (step false) (PlainCall false)
    (newBuffer 68 2) (P := fun s => s.klogBuf.logs.map unread = [[68, 69], [0xc3, 0xa9]])
    [.putsLen [65, 66, 67, 68, 69] 5, .read 1 (-1), .setCurrent 1, .putsLen [0xc3, 0xa9] 2]
    (by decide) ⟨_, rfl, by decide⟩
  obtain ⟨⟨s', hrecover, _, hread⟩, _⟩ := recovered hcreate (by decide) hreach
  exact ⟨hcreate, s, hreach, hunread, s', hrecover, hread⟩

/-- Where `char` is signed, one byte of 0x80 makes a log whose buffer is not recovered: the sum
that is kept is 256 less than the sum of the bytes. -/
theorem not_recovered :
    klogCreate 48 1 = .ok (newBuffer 48 1) ∧
      ∃ s, Transition.Reachable (step true) Always (· = newBuffer 48 1) s ∧
        s.klogBuf.logs.map (fun k => (unread k, k.dataChecksum, getChecksumKlogData k)) =
          [([0x80], 0xffffff80, 0x80)] ∧
        klogRecover s.klogBuf = .error errNotFound := by
  refine ⟨rfl, exists_reachable (step true) Always (newBuffer 48 1)
    [.putsLen [0x80] 1] (admits_always _ _) ⟨_, rfl, by decide, ?_⟩⟩
  exact recover_of_invalid (by decide)

end NusaKernel.Klog
