import NusaKernel.Kernel.Event
import NusaKernel.Lib.Ring

/-!
# Circular byte buffers

`lib/cbuf/cbuf.c`. The indices are `uint`, so a number that is passed for one is taken modulo
`2 ^ 32`. A state carries as fields that both indices are inside the buffer, without which the
loop of `cbuf_read` need not end. A section under the spinlock is one function here.

The memory of a caller is a function from offsets to bytes, and the null pointer is `none`. What
`cbuf_read` copies out is the list of the bytes in the order they are copied.
-/

namespace NusaKernel.Cbuf

open Nat

/-! ## Powers of two -/

/-- A number converted to `uint`. -/
def toUint (n : ℕ) : ℕ := n % 2 ^ 32

/-- `log2_uint`. -/
def log2Uint (val : ℕ) : ℕ := (toUint val).log2

/-- `valpow2`. -/
def valpow2 (valp2 : ℕ) : ℕ := toUint (2 ^ valp2)

/-- `modpow2`. -/
def modpow2 (val modp2 : ℕ) : ℕ := toUint val % 2 ^ modp2

theorem log2_uint_lt (val : ℕ) : log2Uint val < 32 := by
  unfold log2Uint
  rcases Nat.eq_zero_or_pos (toUint val) with hzero | hpos
  · rw [hzero]
    decide
  · exact (log2_lt hpos.ne').mpr (mod_lt val (Nat.two_pow_pos 32))

variable {k : ℕ}

theorem log2_uint_two_pow (hk : k < 32) : log2Uint (2 ^ k) = k := by
  have hlt : 2 ^ k < 2 ^ 32 := Nat.pow_lt_pow_right (by decide) hk
  rw [log2Uint, toUint, mod_eq_of_lt hlt, log2_two_pow]

theorem valpow2_eq (hk : k < 32) : valpow2 k = 2 ^ k :=
  mod_eq_of_lt (Nat.pow_lt_pow_right (by decide) hk)

theorem modpow2_lt (val modp2 : ℕ) : modpow2 val modp2 < 2 ^ modp2 :=
  mod_lt _ (Nat.two_pow_pos modp2)

/-- The conversion to `uint` does not show in a smaller power of two. -/
theorem modpow2_eq (val : ℕ) (hk : k < 32) : modpow2 val k = val % 2 ^ k :=
  mod_mod_of_dvd val (Nat.pow_dvd_pow 2 hk.le)

/-! ## The functions -/

/-- `cbuf_t`. -/
structure State (Tid : Type*) where
  head : ℕ
  tail : ℕ
  lenPow2 : ℕ
  buf : ℕ → UInt8
  event : Event.State Tid
  len_pow2_lt : lenPow2 < 32
  head_lt : head < 2 ^ lenPow2
  tail_lt : tail < 2 ^ lenPow2

/-- A region of the buffer: its offset, unless the pointer is null, and its length. -/
structure Iovec where
  iovBase : Option ℕ
  iovLen : ℕ

variable {Tid : Type*}

/-- `cbuf_initialize_etc`. -/
def cbufInitializeEtc (len : ℕ) (buf : ℕ → UInt8) : State Tid where
  head := 0
  tail := 0
  lenPow2 := log2Uint len
  buf := buf
  event := Event.initial false 0#32
  len_pow2_lt := log2_uint_lt len
  head_lt := Nat.two_pow_pos _
  tail_lt := Nat.two_pow_pos _

variable (s : State Tid)

/-- `cbuf_size`. -/
def cbufSize : ℕ := 2 ^ s.lenPow2

/-- `INC_POINTER`. -/
def incPointer (ptr inc : ℕ) : ℕ := modpow2 (ptr + inc) s.lenPow2

/-- `cbuf_space_used`, with the difference modulo `2 ^ 32`. -/
def cbufSpaceUsed : ℕ := modpow2 (s.head + (2 ^ 32 - s.tail)) s.lenPow2

/-- `cbuf_space_avail`. -/
def cbufSpaceAvail : ℕ := valpow2 s.lenPow2 - cbufSpaceUsed s - 1

/-- `cbuf_is_full`. -/
def cbufIsFull : Bool := incPointer s s.head 1 = s.tail

/-- Advance the head. -/
def advanceHead (buf : ℕ → UInt8) (inc : ℕ) : State Tid :=
  { s with buf, head := incPointer s s.head inc, head_lt := modpow2_lt _ _ }

/-- Advance the tail. -/
def advanceTail (inc : ℕ) : State Tid :=
  { s with tail := incPointer s s.tail inc, tail_lt := modpow2_lt _ _ }

/-- The bytes that `cbuf_write` copies: zeros if it is given the null pointer. -/
def bytes : Option (ℕ → UInt8) → ℕ → UInt8
  | none => fun _ => 0
  | some buf => buf

/-- The length of one pass of `cbuf_write` that has this much left to write. -/
def writeLen (left : ℕ) : ℕ :=
  if s.tail ≤ s.head then
    -- if tail is at position 0, we can't write all the way to the end of the buffer
    if s.tail = 0 then min (valpow2 s.lenPow2 - s.head - 1) left
    else min (valpow2 s.lenPow2 - s.head) left
  else min (s.tail - s.head - 1) left

/-- The loop of `cbuf_write`. -/
def writeLoop (buf : Option (ℕ → UInt8)) (len : ℕ) (s : State Tid) (pos : ℕ) : ℕ × State Tid :=
  if pos < len ∧ 0 < cbufSpaceAvail s then
    let n := writeLen s (len - pos)
    if n = 0 then (pos, s)
    else
      writeLoop buf len
        (advanceHead s (Ring.copyIn s.buf s.head (fun i => bytes buf (pos + i)) n) n) (pos + n)
  else (pos, s)
termination_by len - pos

/-- The length of one pass of `cbuf_read` that has this much left to read. -/
def readLen (left : ℕ) : ℕ :=
  if s.tail < s.head then min (s.head - s.tail) left
  else min (valpow2 s.lenPow2 - s.tail) left

theorem read_len_pos {left : ℕ} (h : 0 < left) : 0 < readLen s left := by
  have htail := s.tail_lt
  unfold readLen
  split
  · omega
  · rw [valpow2_eq s.len_pow2_lt]
    omega

/-- What one pass of `cbuf_read` copies out: nothing for the null pointer. -/
def copyOut (copy : Bool) (n : ℕ) : List UInt8 :=
  if copy then Ring.block s.buf s.tail n else []

/-- The loop of `cbuf_read`. -/
def readLoop (copy : Bool) (buflen : ℕ) (s : State Tid) (pos : ℕ) (out : List UInt8) :
    ℕ × List UInt8 × State Tid :=
  if _h : pos < buflen ∧ s.tail ≠ s.head then
    let n := readLen s (buflen - pos)
    readLoop copy buflen (advanceTail s n) (pos + n) (out ++ copyOut s copy n)
  else (pos, out, s)
termination_by buflen - pos
decreasing_by
  have hpos : 0 < readLen s (buflen - pos) := read_len_pos s (by omega)
  omega

/-- `cbuf_peek`. -/
def cbufPeek : ℕ × Iovec × Iovec :=
  let ret := cbufSpaceUsed s
  let sz := cbufSize s
  let base := if ret = 0 then none else some s.tail
  if sz < ret + s.tail then (ret, ⟨base, sz - s.tail⟩, ⟨some 0, ret - (sz - s.tail)⟩)
  else (ret, ⟨base, ret⟩, ⟨none, 0⟩)

/-- What is in a region. -/
def region (iov : Iovec) : List UInt8 :=
  match iov.iovBase with
  | none => []
  | some base => Ring.block s.buf base iov.iovLen

variable [DecidableEq Tid]

/-- `cbuf_write`. -/
def cbufWrite (buf : Option (ℕ → UInt8)) (len : ℕ) : ℕ × State Tid :=
  let (pos, s) := writeLoop buf len s 0
  if s.head ≠ s.tail then (pos, { s with event := (Event.eventSignal s.event).2 })
  else (pos, s)

/-- `cbuf_read` under the spinlock. -/
def cbufRead (copy : Bool) (buflen : ℕ) : ℕ × List UInt8 × State Tid :=
  if s.tail ≠ s.head then
    let (pos, out, s) := readLoop copy buflen s 0 []
    if s.tail = s.head then (pos, out, { s with event := (Event.eventUnsignal s.event).2 })
    else (pos, out, s)
  else (0, [], s)

/-- `cbuf_reset`. -/
def cbufReset : State Tid := (cbufRead s false (cbufSize s)).2.2

/-- `cbuf_write_char`. -/
def cbufWriteChar (c : UInt8) : ℕ × State Tid :=
  if !cbufIsFull s then
    let s := advanceHead s (Function.update s.buf s.head c) 1
    (1, { s with event := (Event.eventSignal s.event).2 })
  else (0, s)

/-- `cbuf_read_char` under the spinlock. -/
def cbufReadChar : ℕ × List UInt8 × State Tid :=
  if s.tail ≠ s.head then
    let c := s.buf s.tail
    let s := advanceTail s 1
    if s.tail = s.head then (1, [c], { s with event := (Event.eventUnsignal s.event).2 })
    else (1, [c], s)
  else (0, [], s)

end NusaKernel.Cbuf
