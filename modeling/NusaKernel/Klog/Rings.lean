import NusaKernel.Klog.Klog
import NusaKernel.Lib.Transition

/-!
# Kernel logs are independent rings

`Logs` says what a klog buffer is for: a number of queues, each of which keeps the last bytes that
were written to it and not read from it. `klog_puts_len` writes to the current one and `klog_read`
takes bytes from the one it names. `independent_rings` gives the calls on a buffer the results of
the queues.

`klog_read` moves the tail of the current log, whichever log it copied from. Reading another log
therefore does not take the bytes from it, and changes what the current log holds:
`not_independent`. The refinement is for runs that read the current log only.
-/

namespace NusaKernel.Klog

open List Nat Ring Transition

/-! ## What the logs are for -/

/-- The last values of a list, at most `capacity` of them. -/
def keepLast {α : Type*} (capacity : ℕ) (l : List α) : List α := l.drop (l.length - capacity)

/-- The unread bytes of each log, and the log that is written to. -/
structure Logs where
  current : ℕ
  queues : List (List UInt8)

/-- The bytes that `klog_puts_len` writes. -/
def written (str : List UInt8) (len : ℕ) : List UInt8 := (str.take len).takeWhile (· ≠ 0)

/-- The queue that a read is from. -/
def Logs.source (q : Logs) (bufId : ℤ) : ℕ := if bufId < 0 then q.current else bufId.toNat

/-- Queues of bounded length. -/
def Logs.perform (capacity : ℕ) (q : Logs) : Call → (ℤ × List UInt8) × Logs
  | .putsLen str len =>
    (((written str len).length, []),
      { q with queues := q.queues.modify q.current
                 fun old => keepLast capacity (old ++ written str len) })
  | .read len bufId =>
    if 0 ≤ bufId ∧ q.queues.length ≤ bufId.toNat then ((errInvalidArgs, []), q)
    else
      let bytes := ((q.queues[q.source bufId]?).getD []).take len
      ((bytes.length, bytes), { q with queues := q.queues.modify (q.source bufId) (List.drop len) })
  | .setCurrent buffer =>
    if q.queues.length ≤ buffer then ((errInvalidArgs, []), q)
    else ((noError, []), { q with current := buffer })

variable {α : Type*}

theorem keep_last_of_le {capacity : ℕ} {l : List α} (h : l.length ≤ capacity) :
    keepLast capacity l = l := by
  rw [keepLast, Nat.sub_eq_zero_of_le h, drop_zero]

/-- What is dropped early is dropped anyway. -/
theorem keep_last_append (capacity : ℕ) (l m : List α) :
    keepLast capacity (keepLast capacity l ++ m) = keepLast capacity (l ++ m) := by
  unfold keepLast
  rw [length_append, length_append, length_drop]
  by_cases hshort : l.length ≤ capacity
  · rw [Nat.sub_eq_zero_of_le hshort, drop_zero, Nat.sub_zero]
  · rw [drop_append, drop_append, drop_drop, length_drop]
    congr 2 <;> omega

variable {charSigned : Bool} {s : State} {k : KlogHeader} {size : ℕ} {q : Logs}

/-! ## One log -/

section

variable (h : k.Valid size)
include h

/-- The unread bytes are the used cells of the ring. -/
theorem unread_eq_contents :
    unread k = contents k.data size k.tail (used k) := by
  have hsize := h.size_eq
  have hhead := h.head_lt
  have htail := h.tail_lt
  unfold unread used
  split
  · rw [contents_eq_block (by omega)]
  · have hround : (k.tail + (k.size - k.tail)) % size = 0 := by
      rw [Nat.add_sub_cancel' (by omega), hsize, mod_self]
    rw [contents_add, contents_eq_block (by omega), hround, contents_eq_block (by omega)]

theorem bump_eq {index : ℕ} (hindex : index < size) :
    bump k index = (index + 1) % size := by
  rcases h.bump_cases hindex with ⟨hlast, hbump⟩ | ⟨hnext, hbump⟩
  · rw [hbump, hlast, mod_self]
  · rw [hbump, mod_eq_of_lt hnext]

theorem head_eq : k.head = (k.tail + used k) % size := by
  have hhead := h.head_lt
  rcases h.used_cases with ⟨_, hused⟩ | ⟨_, hused⟩
  · rw [Nat.add_comm, hused, mod_eq_of_lt hhead]
  · rw [Nat.add_comm, hused, add_mod_left, mod_eq_of_lt hhead]

/-- The ring has room for one more byte, or the tail moves. -/
theorem put_byte_cases (c : UInt8) :
    (used k + 1 < size ∧ (putByte k c).tail = k.tail ∧ used (putByte k c) = used k + 1) ∨
      (used k + 1 = size ∧ (putByte k c).tail = bump k k.tail ∧ used (putByte k c) = used k) := by
  have htail := h.tail_lt
  have hused := h.used_cases
  have hused' := (h.put_byte c).used_cases
  have hbumpHead := h.bump_cases h.head_lt
  have hhead' : (putByte k c).head = bump k k.head := rfl
  by_cases hfull : k.tail = bump k k.head
  · have htail' : (putByte k c).tail = bump k k.tail := if_pos hfull
    have hbumpTail := h.bump_cases h.tail_lt
    exact .inr ⟨by omega, htail', by omega⟩
  · have htail' : (putByte k c).tail = k.tail := if_neg hfull
    exact .inl ⟨by omega, htail', by omega⟩

/-- A byte is put behind the unread ones, and the oldest goes if the ring is full. -/
theorem unread_put_byte (c : UInt8) :
    unread (putByte k c) = keepLast (size - 1) (unread k ++ [c]) := by
  have hlen : (unread k ++ [c]).length = used k + 1 := by
    rw [length_append, length_unread, length_singleton]
  have hpush : contents (putByte k c).data size k.tail (used k + 1) = unread k ++ [c] := by
    rw [unread_eq_contents h, ← contents_push c h.used_lt, ← head_eq h]
    rfl
  rw [unread_eq_contents (h.put_byte c)]
  rcases put_byte_cases h c with ⟨hroom, htail, hused⟩ | ⟨hfull, htail, hused⟩
  · rw [htail, hused, hpush, keep_last_of_le (by omega)]
  · -- all cells hold the old bytes and the new one, and the tail leaves out the first
    have hsplit := contents_add (putByte k c).data size k.tail 1 (used k)
    rw [Nat.add_comm 1, hpush, ← bump_eq h h.tail_lt, ← htail] at hsplit
    rw [hused, keepLast, hlen, hsplit, drop_left' (by simp; omega)]

end

/-- The loop of `klog_puts_len` writes the bytes up to a zero byte. -/
theorem unread_puts_loop (charSigned : Bool) (h : k.Valid size) (deltasum : UInt32) (count : ℕ)
    (str : List UInt8) :
    unread (putsLoop charSigned k deltasum count str).1 =
        keepLast (size - 1) (unread k ++ str.takeWhile (· ≠ 0)) ∧
      (putsLoop charSigned k deltasum count str).2.2 = count + (str.takeWhile (· ≠ 0)).length := by
  have hkeep : keepLast (size - 1) (unread k ++ []) = unread k := by
    have hused := h.used_lt
    rw [append_nil, keep_last_of_le (by rw [length_unread]; omega)]
  induction str generalizing k deltasum count with
  | nil => exact ⟨hkeep.symm, rfl⟩
  | cons c str ih =>
    unfold putsLoop
    by_cases hc : c = 0
    · rw [if_pos hc, takeWhile_cons_of_neg (by simpa using hc)]
      exact ⟨hkeep.symm, rfl⟩
    have hnew := h.put_byte c
    have hused := hnew.used_lt
    have hkeep' : keepLast (size - 1) (unread (putByte k c) ++ []) = unread (putByte k c) := by
      rw [append_nil, keep_last_of_le (by rw [length_unread]; omega)]
    obtain ⟨hunread, hcount⟩ := ih hnew (deltasum + deltaByte charSigned k c) (count + 1) hkeep'
    rw [if_neg hc, takeWhile_cons_of_pos (by simpa using hc), hunread, hcount,
      unread_put_byte h, keep_last_append, append_assoc, length_cons]
    exact ⟨rfl, by omega⟩

theorem unread_puts_log (charSigned : Bool) (h : k.Valid size) (str : List UInt8) (len : ℕ) :
    unread (putsLog charSigned k str len).1 = keepLast (size - 1) (unread k ++ written str len) ∧
      (putsLog charSigned k str len).2 = (written str len).length := by
  obtain ⟨hunread, hcount⟩ := unread_puts_loop charSigned h 0 0 (str.take len)
  exact ⟨hunread, hcount.trans (Nat.zero_add _)⟩

/-- The tail moves past the oldest bytes. -/
theorem unread_advance_tail (h : k.Valid size) (hsize : size ≤ 2 ^ 31) {offset : ℕ}
    (hoffset : offset ≤ used k) : unread (advanceTail offset k) = (unread k).drop offset := by
  have hused := h.used_cases
  have hlt := h.used_lt
  have hhead := h.head_lt
  have hnew := h.advance_tail (Nat.lt_of_le_of_lt hoffset hlt)
  have hused' := hnew.used_cases
  have hhead' : (advanceTail offset k).head = k.head := rfl
  have hsum : (k.tail + offset) % 2 ^ 32 = k.tail + offset := mod_eq_of_lt (by omega)
  have htail' : (advanceTail offset k).tail = (k.tail + offset) % size ∧
      used (advanceTail offset k) = used k - offset := by
    have hcases : (advanceTail offset k).tail =
        if size ≤ k.tail + offset then k.tail + offset - size else k.tail + offset := by
      rw [← hsum, ← h.size_eq]
      rfl
    split at hcases
    · rw [mod_eq_sub_mod (by omega), mod_eq_of_lt (by omega)]
      exact ⟨hcases, by omega⟩
    · rw [mod_eq_of_lt (by omega)]
      exact ⟨hcases, by omega⟩
  have hsplit := contents_add k.data size k.tail offset (used k - offset)
  rw [Nat.add_sub_cancel' hoffset, ← unread_eq_contents h] at hsplit
  rw [unread_eq_contents hnew, htail'.1, htail'.2, hsplit, drop_left' length_contents]
  rfl

/-! ## All logs -/

/-- Reads are from the current log, or name no log. -/
def ReadsCurrent : State → Call → Prop
  | s, .read _ bufId => bufId < 0 ∨ bufId.toNat = s.klog ∨ s.klogBuf.logCount ≤ bufId.toNat
  | _, .putsLen _ _ => True
  | _, .setCurrent _ => True

/-- `ReadsCurrent` can be checked along a run. -/
instance (s : State) (call : Call) : Decidable (ReadsCurrent s call) := by
  cases call <;> unfold ReadsCurrent <;> infer_instance

/-- The queues are the unread bytes of the logs. -/
structure Refines (size : ℕ) (s : State) (q : Logs) : Prop where
  valid : s.Valid
  logs : s.All (KlogHeader.Valid size)
  current_eq : q.current = s.klog
  queues_eq : q.queues = s.klogBuf.logs.map unread

/-- A change of the current log that does to its unread bytes what a function does to the current
queue. -/
theorem map_unread_modify_log (hlogs : s.All (KlogHeader.Valid size))
    {f : KlogHeader → KlogHeader} {g : List UInt8 → List UInt8}
    (h : ∀ k, s.klogBuf.logs[s.klog]? = some k → k.Valid size → unread (f k) = g (unread k)) :
    (s.modifyLog f).klogBuf.logs.map unread = (s.klogBuf.logs.map unread).modify s.klog g := by
  refine ext_getElem? fun i => ?_
  show ((s.klogBuf.logs.modify s.klog f).map unread)[i]? = _
  rw [getElem?_map, getElem?_modify, getElem?_modify, getElem?_map]
  cases hi : s.klogBuf.logs[i]? with
  | none => rfl
  | some k =>
    by_cases hcurrent : s.klog = i
    · subst hcurrent
      simp [h k hi (hlogs.getElem hi)]
    · simp [hcurrent]

theorem Refines.length_queues (h : Refines size s q) : q.queues.length = s.klogBuf.logCount := by
  rw [h.queues_eq, length_map, h.valid.count_eq]

theorem Refines.source_eq (h : Refines size s q) {bufId : ℤ}
    (hin : bufId < 0 ∨ bufId.toNat = s.klog) :
    q.source bufId = s.klog ∧ whichLog s bufId = s.klog := by
  unfold Logs.source whichLog
  rw [h.current_eq]
  split
  · exact ⟨rfl, rfl⟩
  · omega

theorem drop_length_take (l : List α) (n : ℕ) :
    l.drop (l.take n).length = l.drop n := by
  rw [length_take]
  rcases Nat.le_total n l.length with hle | hle
  · rw [Nat.min_eq_left hle]
  · rw [Nat.min_eq_right hle, drop_length, drop_of_length_le hle]

/-- A read of the current log takes its oldest bytes. -/
theorem Refines.read_current (h : Refines size s q) (hsize : size ≤ 2 ^ 31) (len : ℕ) {bufId : ℤ}
    (hin : bufId < 0 ∨ bufId.toNat = s.klog) :
    (klogRead s len bufId).1 = (q.perform (size - 1) (.read len bufId)).1 ∧
      (klogRead s len bufId).2.klogBuf.logs.map unread =
        (q.perform (size - 1) (.read len bufId)).2.queues ∧
      (klogRead s len bufId).2.klog = (q.perform (size - 1) (.read len bufId)).2.current := by
  obtain ⟨k, hk⟩ : ∃ k, s.klogBuf.logs[s.klog]? = some k := ⟨_, getElem?_eq_getElem h.valid.klog_lt⟩
  have hvalid := h.logs.getElem hk
  have hlt := h.valid.klog_lt
  rw [← h.valid.count_eq] at hlt
  obtain ⟨hsource, hwhich⟩ := h.source_eq hin
  have hread := klog_read_of_log len (by omega) (hwhich.symm ▸ hk) hvalid
  have hqueue : q.queues[s.klog]? = some (unread k) := by
    rw [h.queues_eq, getElem?_map, hk]
    rfl
  have hlength := h.length_queues
  have hspec : q.perform (size - 1) (.read len bufId) =
      (((((unread k).take len).length : ℤ), (unread k).take len),
        { q with queues := q.queues.modify s.klog (List.drop len) }) := by
    rw [Logs.perform, if_neg (by omega), hsource, hqueue]
    rfl
  rw [hread, hspec]
  refine ⟨rfl, ?_, ?_⟩
  · rw [h.queues_eq]
    split
    · next hempty =>
      have hsame : s.modifyLog id = s := by
        rw [State.modifyLog, modify_id]
      rw [← map_unread_modify_log (f := id) h.logs, hsame]
      intro k' hk' _
      obtain rfl : k = k' := Option.some.inj (hk.symm.trans hk')
      rw [id, hempty, drop_nil]
    refine map_unread_modify_log h.logs fun k' hk' hvalid' => ?_
    obtain rfl : k = k' := Option.some.inj (hk.symm.trans hk')
    rw [unread_advance_tail hvalid hsize, drop_length_take]
    rw [length_take, length_unread]
    exact Nat.min_le_right _ _
  · rw [h.current_eq]
    split <;> rfl

/-- One call has the result of the queues. -/
theorem Refines.perform (h : Refines size s q) (hsize : size ≤ 2 ^ 31) {call : Call}
    (hreads : ReadsCurrent s call) :
    (perform charSigned s call).1 = (q.perform (size - 1) call).1 ∧
      Refines size (perform charSigned s call).2 (q.perform (size - 1) call).2 := by
  obtain ⟨hvalid, hlogs⟩ := perform_valid charSigned h.valid h.logs call
  have hlength := h.length_queues
  cases call with
  | putsLen str len =>
    obtain ⟨k, hk⟩ : ∃ k, s.klogBuf.logs[s.klog]? = some k :=
      ⟨_, getElem?_eq_getElem h.valid.klog_lt⟩
    have hputs : klogPutsLen charSigned s str len = ((putsLog charSigned k str len).2,
        s.modifyLog fun k => (putsLog charSigned k str len).1) := by
      rw [klogPutsLen, hk]
    have hcount := (unread_puts_log charSigned (h.logs.getElem hk) str len).2
    refine ⟨?_, hvalid, hlogs, ?_, ?_⟩
    · simp only [Klog.perform, Logs.perform, hputs, hcount]
    · simp only [Klog.perform, Logs.perform, hputs]
      exact h.current_eq
    · simp only [Klog.perform, Logs.perform, hputs]
      rw [h.queues_eq, h.current_eq]
      exact (map_unread_modify_log h.logs fun k _ hk =>
        (unread_puts_log charSigned hk str len).1).symm
  | read len bufId =>
    by_cases hin : bufId < 0 ∨ bufId.toNat = s.klog
    · obtain ⟨hresult, hqueues, hcurrent⟩ := h.read_current hsize len hin
      exact ⟨hresult, hvalid, hlogs, hcurrent.symm, hqueues.symm⟩
    have hreads : bufId < 0 ∨ bufId.toNat = s.klog ∨ s.klogBuf.logCount ≤ bufId.toNat := hreads
    have hread : klogRead s len bufId = ((errInvalidArgs, []), s) :=
      klog_read_of_ge (by omega) (by omega)
    simp only [Klog.perform, Logs.perform, hread]
    rw [if_pos (by omega)]
    exact ⟨rfl, h⟩
  | setCurrent buffer =>
    by_cases hlt : buffer < s.klogBuf.logCount
    · obtain ⟨hstatus, _, hlogs', _, hklog⟩ := set_current_spec h.valid hlt
      have hqueues : (q.perform (size - 1) (.setCurrent buffer)) =
          ((noError, []), { q with current := buffer }) := if_neg (by omega)
      rw [hqueues]
      refine ⟨?_, hvalid, hlogs, hklog.symm, ?_⟩
      · simp only [Klog.perform, hstatus]
      · show q.queues = (klogSetCurrentBuffer s buffer).2.klogBuf.logs.map unread
        rw [hlogs', h.queues_eq]
    · simp only [Klog.perform, Logs.perform, set_current_of_ge (Nat.not_lt.mp hlt)]
      rw [if_pos (by omega)]
      exact ⟨rfl, h⟩

/-- A new buffer holds nothing. -/
theorem Refines.create {len count : ℕ} (h : klogCreate len count = .ok s) (hlen : len < 2 ^ 31) :
    Refines (bufferSize len count) s ⟨0, replicate count []⟩ := by
  obtain ⟨hvalid, hlogs⟩ := create_valid h (by omega)
  obtain ⟨_, _, _, heq, _, hklog⟩ := create_spec h
  refine ⟨hvalid, hlogs, hklog.symm, ?_⟩
  rw [heq, map_replicate]
  rfl

/-- The calls on a klog buffer whose reads are from the current log have the results of
independent queues that keep one byte less than their rings have, and each log holds what its
queue holds. -/
theorem independent_rings {len count : ℕ} {created : State}
    (hcreate : klogCreate len count = .ok created) (hlen : len < 2 ^ 31) (calls : List Call)
    (hreads : Meets (perform charSigned) ReadsCurrent created calls) :
    let run := outputs (perform charSigned) created calls
    let spec := outputs (Logs.perform (bufferSize len count - 1))
      ⟨0, replicate count []⟩ calls
    run.1 = spec.1 ∧ run.2.klog = spec.2.current ∧
      run.2.klogBuf.logs.map unread = spec.2.queues ∧
      run.2.All fun k => k.size = bufferSize len count ∧ (unread k).length ≤ k.size - 1 := by
  have hsize : bufferSize len count ≤ 2 ^ 31 := (buffer_size_le len count).trans hlen.le
  have hstep : ∀ s q call, Refines (bufferSize len count) s q → ReadsCurrent s call →
      (perform charSigned s call).1 = (q.perform (bufferSize len count - 1) call).1 ∧
        Refines (bufferSize len count) (perform charSigned s call).2
          (q.perform (bufferSize len count - 1) call).2 :=
    fun _ _ _ h hguard => h.perform hsize hguard
  obtain ⟨houtputs, hfinal⟩ := outputs_eq_of_meets hstep (Refines.create hcreate hlen) calls hreads
  refine ⟨houtputs, hfinal.current_eq.symm, hfinal.queues_eq.symm, fun k hk => ?_⟩
  have hvalid := hfinal.logs k hk
  have hused := hvalid.used_lt
  refine ⟨hvalid.size_eq, ?_⟩
  rw [length_unread, hvalid.size_eq]
  omega

/-- Two logs of four bytes: five bytes are written to the first, of which it keeps three. -/
theorem independent_rings_two :
    klogCreate 68 2 = .ok (newBuffer 68 2) ∧
      (outputs (perform true) (newBuffer 68 2)
        [.putsLen [1, 2, 3, 4, 5] 5, .setCurrent 1, .putsLen [6, 0, 7] 3, .read 9 1,
          .setCurrent 0, .read 2 (-1), .read 2 5]).1 =
      [(5, []), (0, []), (1, []), (1, [6]), (0, []), (2, [3, 4]), (errInvalidArgs, [])] :=
  have hcreate : klogCreate 68 2 = .ok (newBuffer 68 2) := rfl
  ⟨hcreate, (independent_rings hcreate (by decide) _ (by decide)).1.trans (by decide)⟩

/-- The second log is current and the first is read: its byte is read twice, and the second log,
to which nothing was written, is read as holding bytes. -/
theorem not_independent :
    klogCreate 68 2 = .ok (newBuffer 68 2) ∧
      (outputs (perform true) (newBuffer 68 2)
        [.putsLen [1] 1, .setCurrent 1, .read 1 0, .read 1 0, .read 4 1]).1 =
      [(1, []), (0, []), (1, [1]), (1, [1]), (2, [0, 0])] ∧
      (outputs (Logs.perform (bufferSize 68 2 - 1)) ⟨0, replicate 2 []⟩
        [.putsLen [1] 1, .setCurrent 1, .read 1 0, .read 1 0, .read 4 1]).1 =
      [(1, []), (0, []), (1, [1]), (0, []), (0, [])] :=
  ⟨rfl, by decide, by decide⟩

end NusaKernel.Klog
