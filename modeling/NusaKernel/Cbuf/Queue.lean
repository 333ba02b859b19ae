import NusaKernel.Cbuf.Buffer

/-!
# A circular byte buffer is a bounded queue

`Queue` says what a buffer is for: a list of bytes of bounded length. `queue` reads the list off
the cells of a state, each function of `lib/cbuf/cbuf.c` does to it what the operation of `Queue`
does, and so `cbuf_is_bounded_queue` has the same results for every list of calls.

The length of a buffer is converted to `uint` where it is initialized. A length of `2 ^ 32` passes
all assertions and makes a buffer that holds nothing: `cbuf_not_bounded_queue`.
-/

namespace NusaKernel.Cbuf

open List Nat Ring Transition

/-! ## What a buffer is for -/

/-- A call that does not block. The null pointer as the source of a write stands for zeros, and
`copy` says that a read is given a pointer that is not null. -/
inductive Call where
  | write (buf : Option (ℕ → UInt8)) (len : ℕ)
  | read (copy : Bool) (buflen : ℕ)
  | writeChar (c : UInt8)
  | readChar
  | peek
  | reset

/-- A bounded queue. Each operation has a number and a list of bytes as its result. -/
def Queue.perform (capacity : ℕ) (q : List UInt8) : Call → (ℕ × List UInt8) × List UInt8
  | .write buf len =>
    let n := min len (capacity - q.length)
    ((n, []), q ++ Ring.block (bytes buf) 0 n)
  | .read copy buflen =>
    ((min buflen q.length, if copy then q.take buflen else []), q.drop buflen)
  | .writeChar c => if q.length < capacity then ((1, []), q ++ [c]) else ((0, []), q)
  | .readChar => ((min 1 q.length, q.take 1), q.drop 1)
  | .peek => ((q.length, q), q)
  | .reset => ((0, []), [])

variable {Tid : Type*}

/-- The bytes in a buffer, oldest first. -/
def queue (s : State Tid) : List UInt8 := contents s.buf (cbufSize s) s.tail (cbufSpaceUsed s)

/-! ## Counting -/

section Counting

variable (s : State Tid)

theorem size_pos : 0 < cbufSize s := Nat.two_pow_pos _

theorem head_lt_size : s.head < cbufSize s := s.head_lt

theorem tail_lt_size : s.tail < cbufSize s := s.tail_lt

/-- Going round once. -/
theorem inc_pointer_eq {ptr inc : ℕ} (hptr : ptr < cbufSize s) (hinc : inc ≤ cbufSize s) :
    incPointer s ptr inc =
      if ptr + inc < cbufSize s then ptr + inc else ptr + inc - cbufSize s := by
  rw [incPointer, modpow2_eq _ s.len_pow2_lt]
  show (ptr + inc) % cbufSize s = _
  split
  · next hlt => exact mod_eq_of_lt hlt
  · next hge => rw [mod_eq_sub_mod (by omega), mod_eq_of_lt (by omega)]

/-- The unsigned difference counts round the end of the buffer. -/
theorem space_used_eq : cbufSpaceUsed s =
    if s.tail ≤ s.head then s.head - s.tail else s.head + cbufSize s - s.tail := by
  have hhead := head_lt_size s
  have htail := tail_lt_size s
  obtain ⟨m, hm⟩ : cbufSize s ∣ 2 ^ 32 := Nat.pow_dvd_pow 2 s.len_pow2_lt.le
  have hpos : 0 < m := Nat.pos_of_ne_zero (by rintro rfl; simp at hm)
  obtain ⟨m, rfl⟩ := Nat.exists_eq_add_of_lt hpos
  rw [cbufSpaceUsed, modpow2_eq _ s.len_pow2_lt, hm]
  show _ % cbufSize s = _
  rw [Nat.zero_add, Nat.mul_add, Nat.mul_one]
  split
  · have heq : s.head + (cbufSize s * m + cbufSize s - s.tail) =
        s.head - s.tail + cbufSize s * (m + 1) := by
      rw [Nat.mul_add, Nat.mul_one]
      omega
    rw [heq, add_mul_mod_self_left, mod_eq_of_lt (by omega)]
  · have heq : s.head + (cbufSize s * m + cbufSize s - s.tail) =
        s.head + cbufSize s - s.tail + cbufSize s * m := by omega
    rw [heq, add_mul_mod_self_left, mod_eq_of_lt (by omega)]

theorem space_used_lt : cbufSpaceUsed s < cbufSize s := modpow2_lt _ _

theorem space_avail_eq : cbufSpaceAvail s = cbufSize s - cbufSpaceUsed s - 1 := by
  rw [cbufSpaceAvail, valpow2_eq s.len_pow2_lt]
  rfl

/-- The head is where the queue ends. -/
theorem head_eq : s.head = (s.tail + cbufSpaceUsed s) % cbufSize s := by
  have hhead := head_lt_size s
  have htail := tail_lt_size s
  rw [space_used_eq]
  split
  · rw [mod_eq_of_lt (by omega)]
    omega
  · rw [mod_eq_sub_mod (by omega), mod_eq_of_lt (by omega)]
    omega

theorem length_queue : (queue s).length = cbufSpaceUsed s := length_contents

/-- The buffer is empty when head and tail meet. -/
theorem queue_eq_nil_iff : queue s = [] ↔ s.tail = s.head := by
  have htail := tail_lt_size s
  rw [← length_eq_zero_iff, length_queue, space_used_eq]
  split <;> omega

end Counting

/-! ## One pass -/

section Passes

variable (s : State Tid) {n : ℕ}

theorem space_used_advance_head (buf : ℕ → UInt8) (hn : n ≤ cbufSpaceAvail s) :
    cbufSpaceUsed (advanceHead s buf n) = cbufSpaceUsed s + n := by
  have hhead := head_lt_size s
  have htail := tail_lt_size s
  have hused := space_used_lt s
  rw [space_avail_eq] at hn
  have hinc := inc_pointer_eq s hhead (show n ≤ cbufSize s by omega)
  rw [space_used_eq] at hn hused ⊢
  rw [space_used_eq]
  show (if s.tail ≤ incPointer s s.head n then incPointer s s.head n - s.tail
    else incPointer s s.head n + cbufSize s - s.tail) = _
  rw [hinc]
  split_ifs at hn hused ⊢ <;> omega

theorem space_avail_advance_head (buf : ℕ → UInt8) (hn : n ≤ cbufSpaceAvail s) :
    cbufSpaceAvail (advanceHead s buf n) = cbufSpaceAvail s - n := by
  rw [space_avail_eq, space_used_advance_head s buf hn, space_avail_eq]
  show cbufSize s - (cbufSpaceUsed s + n) - 1 = _
  omega

/-- A pass of `cbuf_write` that stays inside the buffer appends what it copies. -/
theorem queue_copy_in (source : ℕ → UInt8) (hn : n ≤ cbufSpaceAvail s)
    (hfit : s.head + n ≤ cbufSize s) :
    queue (advanceHead s (copyIn s.buf s.head source n) n) = queue s ++ Ring.block source 0 n := by
  have hused := space_used_lt s
  have havail := space_avail_eq s
  rw [queue, space_used_advance_head s _ hn]
  rw [head_eq s] at hfit ⊢
  exact contents_copy_in (by omega) hfit

theorem queue_write_char (c : UInt8) (h : 0 < cbufSpaceAvail s) :
    queue (advanceHead s (Function.update s.buf s.head c) 1) = queue s ++ [c] := by
  have havail := space_avail_eq s
  rw [queue, space_used_advance_head s _ h]
  rw [head_eq s]
  exact contents_push c (by omega)

theorem space_used_advance_tail (hn : n ≤ cbufSpaceUsed s) :
    cbufSpaceUsed (advanceTail s n) = cbufSpaceUsed s - n := by
  have hhead := head_lt_size s
  have htail := tail_lt_size s
  have hused := space_used_lt s
  have hinc := inc_pointer_eq s htail (show n ≤ cbufSize s by omega)
  rw [space_used_eq] at hn hused ⊢
  rw [space_used_eq]
  show (if incPointer s s.tail n ≤ s.head then s.head - incPointer s s.tail n
    else s.head + cbufSize s - incPointer s s.tail n) = _
  rw [hinc]
  split_ifs at hn hused ⊢ <;> omega

/-- Advancing the tail takes bytes from the front. -/
theorem queue_advance_tail (hn : n ≤ cbufSpaceUsed s) :
    queue s = contents s.buf (cbufSize s) s.tail n ++ queue (advanceTail s n) := by
  have hsplit : cbufSpaceUsed s = n + (cbufSpaceUsed s - n) := by omega
  rw [queue, queue, space_used_advance_tail s hn, hsplit, contents_add, Nat.add_sub_cancel_left]
  show _ = _ ++ contents s.buf (cbufSize s) (incPointer s s.tail n) _
  rw [incPointer, modpow2_eq _ s.len_pow2_lt]
  rfl

end Passes

/-! ## The loops -/

/-- A pass of `cbuf_write` is as long as the rest, the free space, and the end of the buffer allow,
and never empty if there is something to write and room for it. -/
theorem write_len_spec (s : State Tid) {left : ℕ} (hleft : 0 < left)
    (havail : 0 < cbufSpaceAvail s) :
    0 < writeLen s left ∧ writeLen s left ≤ left ∧ writeLen s left ≤ cbufSpaceAvail s ∧
      s.head + writeLen s left ≤ cbufSize s := by
  have hhead := head_lt_size s
  have htail := tail_lt_size s
  have hsize : valpow2 s.lenPow2 = cbufSize s := valpow2_eq s.len_pow2_lt
  rw [space_avail_eq, space_used_eq] at havail ⊢
  unfold writeLen
  split_ifs at havail ⊢ <;> omega

/-- A pass of `cbuf_read` is as long as the rest, the contents, and the end of the buffer allow. -/
theorem read_len_spec (s : State Tid) (left : ℕ) (hne : s.tail ≠ s.head) :
    readLen s left ≤ left ∧ readLen s left ≤ cbufSpaceUsed s ∧
      s.tail + readLen s left ≤ cbufSize s := by
  have hhead := head_lt_size s
  have htail := tail_lt_size s
  have hsize : valpow2 s.lenPow2 = cbufSize s := valpow2_eq s.len_pow2_lt
  rw [space_used_eq]
  unfold readLen
  split_ifs <;> omega

/-- The loop of `cbuf_write` appends as much as there is room for. -/
theorem write_loop_spec (buf : Option (ℕ → UInt8)) (len : ℕ) (s : State Tid) (pos : ℕ) :
    (writeLoop buf len s pos).1 = pos + min (len - pos) (cbufSpaceAvail s) ∧
    queue (writeLoop buf len s pos).2 =
      queue s ++ Ring.block (bytes buf) pos (min (len - pos) (cbufSpaceAvail s)) ∧
    (writeLoop buf len s pos).2.lenPow2 = s.lenPow2 ∧
    (writeLoop buf len s pos).2.event = s.event := by
  fun_induction writeLoop buf len s pos with
  | case1 s pos hgo n hzero =>
    have hpos : 0 < n := (write_len_spec s (by omega) hgo.2).1
    omega
  | case2 s pos hgo n hne ih =>
    obtain ⟨_, hleft, havail, hfit⟩ : 0 < n ∧ n ≤ len - pos ∧ n ≤ cbufSpaceAvail s ∧
      s.head + n ≤ cbufSize s := write_len_spec s (by omega) hgo.2
    clear_value n
    obtain ⟨hresult, hqueue, hlen, hevent⟩ := ih
    rw [queue_copy_in s _ havail hfit, block_comp_add] at hqueue
    rw [space_avail_advance_head s _ havail] at hresult hqueue
    have hrest : min (len - pos) (cbufSpaceAvail s) =
        n + min (len - (pos + n)) (cbufSpaceAvail s - n) := by omega
    refine ⟨?_, ?_, hlen, hevent⟩
    · omega
    · rw [hqueue, hrest, block_add, append_assoc]
  | case3 s pos hstop =>
    have hzero : min (len - pos) (cbufSpaceAvail s) = 0 := by omega
    rw [hzero]
    exact ⟨rfl, (append_nil _).symm, rfl, rfl⟩

/-- The loop of `cbuf_read` takes as much from the front as there is. -/
theorem read_loop_spec (copy : Bool) (buflen : ℕ) (s : State Tid) (pos : ℕ) (out : List UInt8) :
    (readLoop copy buflen s pos out).1 = pos + min (buflen - pos) (queue s).length ∧
    (readLoop copy buflen s pos out).2.1 =
      out ++ (if copy then (queue s).take (buflen - pos) else []) ∧
    queue (readLoop copy buflen s pos out).2.2 = (queue s).drop (buflen - pos) ∧
    (readLoop copy buflen s pos out).2.2.lenPow2 = s.lenPow2 ∧
    (readLoop copy buflen s pos out).2.2.event = s.event := by
  fun_induction readLoop copy buflen s pos out with
  | case1 s pos out hgo n ih =>
    obtain ⟨hleft, hused, hfit⟩ : n ≤ buflen - pos ∧ n ≤ cbufSpaceUsed s ∧
      s.tail + n ≤ cbufSize s := read_len_spec s (buflen - pos) hgo.2
    clear_value n
    have hsplit := queue_advance_tail s hused
    rw [contents_eq_block hfit] at hsplit
    have hblock : (Ring.block s.buf s.tail n).length = n := length_block
    have hrest : buflen - pos = (Ring.block s.buf s.tail n).length + (buflen - (pos + n)) := by
      omega
    obtain ⟨hresult, hout, hqueue, hlen, hevent⟩ := ih
    refine ⟨?_, ?_, ?_, hlen, hevent⟩
    · rw [hresult, hsplit, length_append, hblock]
      omega
    · rw [hout, hsplit, hrest, take_length_add_append, append_assoc, copyOut]
      cases copy with
      | false => rfl
      | true => rfl
    · rw [hqueue, hsplit, hrest, drop_length_add_append]
  | case2 s pos out hstop =>
    have hnothing : buflen - pos = 0 ∨ queue s = [] := by
      rw [queue_eq_nil_iff]
      omega
    rcases hnothing with hzero | hnil
    · simp [hzero]
    · simp [hnil]

/-! ## The functions -/

section Functions

variable (s : State Tid)

/-- `cbuf_write` appends as much as there is room for, and signals the event unless the buffer is
empty. -/
theorem cbuf_write_spec [DecidableEq Tid] (buf : Option (ℕ → UInt8)) (len : ℕ) :
    (cbufWrite s buf len).1 = min len (cbufSpaceAvail s) ∧
    queue (cbufWrite s buf len).2 =
      queue s ++ Ring.block (bytes buf) 0 (min len (cbufSpaceAvail s)) ∧
    (cbufWrite s buf len).2.lenPow2 = s.lenPow2 ∧
    (cbufWrite s buf len).2.event =
      if queue (cbufWrite s buf len).2 = [] then s.event else (Event.eventSignal s.event).2 := by
  obtain ⟨hresult, hqueue, hlen, hevent⟩ := write_loop_spec buf len s 0
  rw [Nat.zero_add, Nat.sub_zero] at hresult
  have hnil := queue_eq_nil_iff (writeLoop buf len s 0).2
  simp only [cbufWrite]
  split
  · next hne =>
    refine ⟨hresult, hqueue, hlen, ?_⟩
    show (Event.eventSignal (writeLoop buf len s 0).2.event).2 =
      if queue (writeLoop buf len s 0).2 = [] then _ else _
    rw [if_neg fun h => hne (hnil.mp h).symm, hevent]
  · next heq =>
    refine ⟨hresult, hqueue, hlen, ?_⟩
    rw [if_pos (hnil.mpr (not_not.mp heq).symm), hevent]

/-- `cbuf_read` takes as much from the front as there is, and unsignals the event if that empties
the buffer. -/
theorem cbuf_read_spec (copy : Bool) (buflen : ℕ) :
    (cbufRead s copy buflen).1 = min buflen (queue s).length ∧
    (cbufRead s copy buflen).2.1 = (if copy then (queue s).take buflen else []) ∧
    queue (cbufRead s copy buflen).2.2 = (queue s).drop buflen ∧
    (cbufRead s copy buflen).2.2.lenPow2 = s.lenPow2 ∧
    (cbufRead s copy buflen).2.2.event =
      if queue s ≠ [] ∧ queue (cbufRead s copy buflen).2.2 = [] then
        (Event.eventUnsignal s.event).2
      else s.event := by
  obtain ⟨hresult, hout, hqueue, hlen, hevent⟩ := read_loop_spec copy buflen s 0 []
  rw [Nat.zero_add, Nat.sub_zero] at hresult
  have hnil := queue_eq_nil_iff s
  have hnil' := queue_eq_nil_iff (readLoop copy buflen s 0 []).2.2
  simp only [cbufRead]
  split
  · next hne =>
    have hsome : queue s ≠ [] := fun h => hne (hnil.mp h)
    split
    · next heq =>
      refine ⟨hresult, hout, hqueue, hlen, ?_⟩
      rw [if_pos ⟨hsome, hnil'.mpr heq⟩]
      rw [hevent]
    · next hne' =>
      refine ⟨hresult, hout, hqueue, hlen, ?_⟩
      rw [if_neg fun h => hne' (hnil'.mp h.2), hevent]
  · next heq =>
    have hempty := hnil.mpr (not_not.mp heq)
    simp [hempty]

theorem cbuf_is_full_iff : cbufIsFull s = true ↔ cbufSpaceAvail s = 0 := by
  have hhead := head_lt_size s
  have htail := tail_lt_size s
  rw [cbufIsFull, decide_eq_true_eq, inc_pointer_eq s hhead (size_pos s), space_avail_eq,
    space_used_eq]
  split_ifs <;> omega

/-- `cbuf_write_char` appends a byte and signals the event if there is room. -/
theorem cbuf_write_char_spec [DecidableEq Tid] (c : UInt8) :
    (cbufSpaceAvail s = 0 ∧ cbufWriteChar s c = (0, s)) ∨
    (0 < cbufSpaceAvail s ∧ (cbufWriteChar s c).1 = 1 ∧
      queue (cbufWriteChar s c).2 = queue s ++ [c] ∧
      (cbufWriteChar s c).2.lenPow2 = s.lenPow2 ∧
      (cbufWriteChar s c).2.event = (Event.eventSignal s.event).2) := by
  have hfull := cbuf_is_full_iff s
  cases h : cbufIsFull s with
  | true =>
    left
    exact ⟨hfull.mp h, by simp [cbufWriteChar, h]⟩
  | false =>
    right
    have havail : 0 < cbufSpaceAvail s := by
      refine Nat.pos_of_ne_zero fun hzero => ?_
      rw [hfull.mpr hzero] at h
      cases h
    simp only [cbufWriteChar, h, Bool.not_false, if_true]
    exact ⟨havail, trivial, queue_write_char s c havail, rfl, rfl⟩

/-- `cbuf_read_char` takes a byte from the front, and unsignals the event if that empties the
buffer. -/
theorem cbuf_read_char_spec :
    (queue s = [] ∧ cbufReadChar s = (0, [], s)) ∨
    ∃ c, queue s = c :: queue (cbufReadChar s).2.2 ∧ (cbufReadChar s).1 = 1 ∧
      (cbufReadChar s).2.1 = [c] ∧ (cbufReadChar s).2.2.lenPow2 = s.lenPow2 ∧
      (cbufReadChar s).2.2.event =
        if queue (cbufReadChar s).2.2 = [] then (Event.eventUnsignal s.event).2 else s.event := by
  have hnil := queue_eq_nil_iff s
  by_cases hempty : s.tail = s.head
  · left
    exact ⟨hnil.mpr hempty, by simp [cbufReadChar, hempty]⟩
  right
  have hlength := length_pos_of_ne_nil fun h => hempty (hnil.mp h)
  rw [length_queue] at hlength
  have hsplit := queue_advance_tail s hlength
  rw [contents_one (tail_lt_size s), singleton_append] at hsplit
  have hnil' := queue_eq_nil_iff (advanceTail s 1)
  refine ⟨s.buf s.tail, ?_⟩
  simp only [cbufReadChar, ne_eq, hempty, not_false_eq_true, if_true]
  split
  · next heq =>
    refine ⟨hsplit, rfl, rfl, rfl, ?_⟩
    show (Event.eventUnsignal s.event).2 = if queue (advanceTail s 1) = [] then _ else _
    rw [if_pos (hnil'.mpr heq)]
  · next hne =>
    refine ⟨hsplit, rfl, rfl, rfl, ?_⟩
    rw [if_neg fun h => hne (hnil'.mp h)]
    rfl

theorem cbuf_peek_spec :
    (cbufPeek s).1 = (queue s).length ∧
      region s (cbufPeek s).2.1 ++ region s (cbufPeek s).2.2 = queue s := by
  have htail := tail_lt_size s
  rw [length_queue]
  rcases Nat.eq_zero_or_pos (cbufSpaceUsed s) with hzero | hpos
  · have hfit : ¬ cbufSize s < 0 + s.tail := by omega
    simp only [cbufPeek, queue, hzero, if_pos, if_neg hfit, region, contents_zero]
    exact ⟨trivial, rfl⟩
  simp only [cbufPeek, hpos.ne', if_false]
  split
  · next hwrap =>
    -- the queue goes round the end of the buffer
    have hused := space_used_lt s
    have hsplit : cbufSpaceUsed s =
        cbufSize s - s.tail + (cbufSpaceUsed s - (cbufSize s - s.tail)) := by omega
    have hstart : (s.tail + (cbufSize s - s.tail)) % cbufSize s = 0 := by
      rw [Nat.add_sub_cancel' htail.le, mod_self]
    refine ⟨rfl, ?_⟩
    simp only [region]
    rw [queue, hsplit, contents_add, hstart, contents_eq_block (by omega),
      contents_eq_block (by omega), Nat.add_sub_cancel_left]
  · next hfit =>
    refine ⟨rfl, ?_⟩
    simp only [region, append_nil]
    rw [queue, contents_eq_block (by omega)]

theorem cbuf_reset_spec :
    queue (cbufReset s) = [] ∧ (cbufReset s).lenPow2 = s.lenPow2 ∧
      (cbufReset s).event = if queue s ≠ [] then (Event.eventUnsignal s.event).2 else s.event := by
  obtain ⟨_, _, hqueue, hlen, hevent⟩ := cbuf_read_spec s false (cbufSize s)
  have hused := space_used_lt s
  have hempty : queue (cbufReset s) = [] := by
    rw [cbufReset, hqueue]
    exact drop_eq_nil_of_le (by rw [length_queue]; omega)
  refine ⟨hempty, hlen, ?_⟩
  rw [cbufReset, hevent]
  rw [cbufReset] at hempty
  simp only [hempty, and_true]

end Functions

/-! ## Refinement -/

section Refinement

variable [DecidableEq Tid]

/-- The call on a buffer, with its result. What a peek returns is what is in its regions. -/
def perform (s : State Tid) : Call → (ℕ × List UInt8) × State Tid
  | .write buf len =>
    let (ret, s) := cbufWrite s buf len
    ((ret, []), s)
  | .read copy buflen =>
    let (ret, out, s) := cbufRead s copy buflen
    ((ret, out), s)
  | .writeChar c =>
    let (ret, s) := cbufWriteChar s c
    ((ret, []), s)
  | .readChar =>
    let (ret, out, s) := cbufReadChar s
    ((ret, out), s)
  | .peek =>
    let (ret, first, second) := cbufPeek s
    ((ret, region s first ++ region s second), s)
  | .reset => ((0, []), cbufReset s)

/-- Each call does to the queue of a buffer what the operation does to a bounded queue. -/
theorem perform_refines (s : State Tid) (call : Call) :
    (perform s call).1 = (Queue.perform (cbufSize s - 1) (queue s) call).1 ∧
      queue (perform s call).2 = (Queue.perform (cbufSize s - 1) (queue s) call).2 ∧
      (perform s call).2.lenPow2 = s.lenPow2 := by
  have havail : cbufSpaceAvail s = cbufSize s - 1 - (queue s).length := by
    rw [space_avail_eq, length_queue]
    omega
  cases call with
  | write buf len =>
    obtain ⟨hresult, hqueue, hlen, _⟩ := cbuf_write_spec s buf len
    rw [havail] at hresult hqueue
    refine ⟨?_, hqueue, hlen⟩
    show ((cbufWrite s buf len).1, _) = _
    rw [hresult]
    rfl
  | read copy buflen =>
    obtain ⟨hresult, hout, hqueue, hlen, _⟩ := cbuf_read_spec s copy buflen
    refine ⟨?_, hqueue, hlen⟩
    show ((cbufRead s copy buflen).1, (cbufRead s copy buflen).2.1) = _
    rw [hresult, hout]
    rfl
  | writeChar c =>
    simp only [Queue.perform]
    rcases cbuf_write_char_spec s c with ⟨hfull, hwrite⟩ | ⟨hroom, hresult, hqueue, hlen, _⟩
    · rw [if_neg (by omega)]
      simp [perform, hwrite]
    · rw [if_pos (by omega)]
      exact ⟨by simp [perform, hresult], hqueue, hlen⟩
  | readChar =>
    simp only [Queue.perform]
    rcases cbuf_read_char_spec s with ⟨hempty, hread⟩ | ⟨c, hqueue, hresult, hout, hlen, _⟩
    · simp [perform, hread, hempty]
    · rw [hqueue]
      exact ⟨by simp [perform, hresult, hout], rfl, hlen⟩
  | peek =>
    obtain ⟨hresult, hregions⟩ := cbuf_peek_spec s
    refine ⟨?_, rfl, rfl⟩
    show ((cbufPeek s).1, region s (cbufPeek s).2.1 ++ region s (cbufPeek s).2.2) = _
    rw [hresult, hregions]
    rfl
  | reset =>
    obtain ⟨hqueue, hlen, _⟩ := cbuf_reset_spec s
    exact ⟨rfl, hqueue, hlen⟩

/-- A buffer of a power of two that fits into `uint` has the results of a queue that holds one
byte less, for every list of calls. -/
theorem cbuf_is_bounded_queue {k : ℕ} (hk : k < 32) (buf : ℕ → UInt8) (calls : List Call) :
    let run := outputs perform (cbufInitializeEtc (2 ^ k) buf : State Tid) calls
    let spec := outputs (Queue.perform (2 ^ k - 1)) [] calls
    run.1 = spec.1 ∧ queue run.2 = spec.2 ∧ (queue run.2).length ≤ 2 ^ k - 1 := by
  have hstep : ∀ (s : State Tid) (q : List UInt8) (call : Call), queue s = q ∧ s.lenPow2 = k →
      Always s call → (perform s call).1 = (Queue.perform (2 ^ k - 1) q call).1 ∧
        queue (perform s call).2 = (Queue.perform (2 ^ k - 1) q call).2 ∧
          (perform s call).2.lenPow2 = k := by
    rintro s q call ⟨rfl, rfl⟩ _
    exact perform_refines s call
  have hinit : queue (cbufInitializeEtc (2 ^ k) buf : State Tid) = [] ∧
      (cbufInitializeEtc (2 ^ k) buf : State Tid).lenPow2 = k :=
    ⟨(queue_eq_nil_iff _).mpr rfl, log2_uint_two_pow hk⟩
  obtain ⟨houtputs, hqueue, hlen⟩ := outputs_eq_of_meets
    (R := fun (s : State Tid) q => queue s = q ∧ s.lenPow2 = k) hstep hinit calls
    (meets_always _ calls)
  refine ⟨houtputs, hqueue, ?_⟩
  have hlt := space_used_lt (outputs perform
    (cbufInitializeEtc (2 ^ k) buf : State Tid) calls).2
  rw [← length_queue, cbufSize, hlen] at hlt
  exact le_pred_of_lt hlt

/-- Nine bytes are written to a buffer of eight, which takes seven. -/
theorem cbuf_is_bounded_queue_eight :
    3 < 32 ∧
      (outputs perform (cbufInitializeEtc (2 ^ 3) fun _ => 0 : State Unit)
        [.write (some fun i => UInt8.ofNat i) 9, .read true 2, .writeChar 9, .peek]).1 =
      [(7, []), (2, [0, 1]), (1, []), (6, [2, 3, 4, 5, 6, 9])] :=
  ⟨by decide, (cbuf_is_bounded_queue (by decide) _ _).1.trans (by decide)⟩

/-- A buffer of `2 ^ 32` bytes is initialized as one of a single byte, which is always full. -/
theorem cbuf_not_bounded_queue :
    (outputs perform (cbufInitializeEtc (2 ^ 32) fun _ => 0 : State Unit)
      [.writeChar 7]).1 = [(0, [])] ∧
    (outputs (Queue.perform (2 ^ 32 - 1)) [] [.writeChar 7]).1 = [(1, [])] := by
  have hlen : log2Uint (2 ^ 32) = 0 := by
    exact log2_zero
  have hfull : cbufIsFull (cbufInitializeEtc (2 ^ 32) fun _ => 0 : State Unit) = true := by
    rw [cbufIsFull, decide_eq_true_eq, incPointer]
    show modpow2 (0 + 1) (log2Uint (2 ^ 32)) = 0
    rw [hlen, modpow2, pow_zero, mod_one]
  refine ⟨?_, by decide⟩
  simp only [outputs, perform, cbufWriteChar, hfull, Bool.not_true, Bool.false_eq_true, if_false]

end Refinement

end NusaKernel.Cbuf
