import NusaKernel.Cksum.Crc32
import NusaKernel.Kernel.Status
import NusaKernel.Lib.LittleEndian

/-!
# The kernel log (`lib/klog/klog.c`)

A klog buffer is a piece of memory that outlives a restart: a header, and behind it a number of
logs, each a header of its own and a ring of bytes. `KlogBuffer` is that memory, `State` adds the
two pointers of the running system. The ring of a log is read from `tail` to `head`, and each
log keeps the sum of all bytes of its ring, also of those that were read already.

`klog_puts_len` updates that sum by the difference of the new and the old byte. The new byte is a
`char`, whose sign depends on the architecture: the functions take it as `charSigned`.
-/

namespace NusaKernel.Klog

open List Ring LittleEndian

/-- `MAX_KLOG_SIZE`. -/
def maxKlogSize : ℕ := 32 * 1024

/-- `KLOG_BUFFER_HEADER_MAGIC`, the characters `KLGB`. -/
def klogBufferHeaderMagic : ℕ := 0x4b4c4742

/-- `KLOG_HEADER_MAGIC`, the characters `KLOG`. -/
def klogHeaderMagic : ℕ := 0x4b4c4f47

/-- `sizeof(struct klog_buffer_header)`. -/
def sizeofBufferHeader : ℕ := 20

/-- `sizeof(struct klog_header)`. -/
def sizeofHeader : ℕ := 20

/-- `struct klog_header` with the bytes behind it. -/
structure KlogHeader where
  magic : ℕ
  size : ℕ
  head : ℕ
  tail : ℕ
  dataChecksum : UInt32
  data : ℕ → UInt8

/-- `struct klog_buffer_header` with the logs behind it, in the order of their addresses. -/
structure KlogBuffer where
  magic : ℕ
  headerCrc32 : UInt32
  logCount : ℕ
  currentLog : ℕ
  totalSize : ℕ
  logs : List KlogHeader

/-- The memory that `klog_buf` points to, and the number of the log that `klog` points to. -/
structure State where
  klogBuf : KlogBuffer
  klog : ℕ

/-- `get_checksum_klog_buffer_header`: the fields behind `header_crc32`. -/
def getChecksumKlogBufferHeader (kb : KlogBuffer) : UInt32 :=
  Cksum.crc32 0 (encode 4 kb.logCount ++ encode 4 kb.currentLog ++ encode 4 kb.totalSize)

/-- The sum of the first bytes of a ring. -/
def byteSum (data : ℕ → UInt8) : ℕ → UInt32
  | 0 => 0
  | n + 1 => byteSum data n + (data n).toUInt32

/-- `get_checksum_klog_data`. -/
def getChecksumKlogData (k : KlogHeader) : UInt32 := byteSum k.data k.size

/-- `checksum_klog_buffer_header`. -/
def checksumKlogBufferHeader (kb : KlogBuffer) : KlogBuffer :=
  { kb with headerCrc32 := getChecksumKlogBufferHeader kb }

/-- `klog_set_current_buffer`. -/
def klogSetCurrentBuffer (s : State) (buffer : ℕ) : Status × State :=
  if s.klogBuf.logCount ≤ buffer then (errInvalidArgs, s)
  else
    let s := { s with klog := buffer }
    if buffer ≠ s.klogBuf.currentLog then
      (noError, { s with
        klogBuf := checksumKlogBufferHeader { s.klogBuf with currentLog := buffer } })
    else (noError, s)

/-- A log as `klog_create` sets it up: its ring is cleared and then summed. -/
def emptyLog (bufsize : ℕ) : KlogHeader :=
  let k : KlogHeader := ⟨klogHeaderMagic, bufsize, 0, 0, 0, fun _ => 0⟩
  { k with dataChecksum := getChecksumKlogData k }

/-- The size of each ring, a `uint`. -/
def bufferSize (len count : ℕ) : ℕ :=
  (len - sizeofBufferHeader - sizeofHeader * count) % 2 ^ 32 / count / 4 * 4

/-- The buffer that `klog_create` sets up. Its loop leaves `klog` at the last log. -/
def newBuffer (len count : ℕ) : State :=
  let kb := checksumKlogBufferHeader
    ⟨klogBufferHeaderMagic, 0, count, 0, len % 2 ^ 32,
      replicate count (emptyLog (bufferSize len count))⟩
  (klogSetCurrentBuffer ⟨kb, count - 1⟩ 0).2

/-- `klog_create`. `4 * count` is computed in `uint`, the rest of the required length in
`size_t`. -/
def klogCreate (len count : ℕ) : Except Status State :=
  if count = 0 then .error errInvalidArgs
  else if len < sizeofBufferHeader + sizeofHeader * count + 4 * count % 2 ^ 32 then
    .error errInvalidArgs
  else .ok (newBuffer len count)

/-- The loop of `klog_recover` over the logs. -/
def validateLogs : ℕ → List KlogHeader → Status
  | 0, _ => noError
  | _ + 1, [] => errNotFound
  | n + 1, k :: rest =>
    if k.magic ≠ klogHeaderMagic then errNotFound
    else if 0 < k.size ∧ k.size % 4 ≠ 0 then errNotFound
    else if maxKlogSize < k.size then errNotFound
    else if k.size ≤ k.head then errNotFound
    else if k.size ≤ k.tail then errNotFound
    else if k.dataChecksum ≠ 0 ∧ getChecksumKlogData k ≠ k.dataChecksum then errNotFound
    else validateLogs n rest

/-- `klog_recover` on the memory of a buffer. -/
def klogRecover (kbuf : KlogBuffer) : Except Status State :=
  if kbuf.magic ≠ klogBufferHeaderMagic then .error errNotFound
  else if getChecksumKlogBufferHeader kbuf ≠ kbuf.headerCrc32 then .error errNotFound
  else if maxKlogSize < kbuf.totalSize then .error errNotFound
  else if kbuf.logCount ≤ kbuf.currentLog then .error errNotFound
  else if validateLogs kbuf.logCount kbuf.logs ≠ noError then .error errNotFound
  else .ok (klogSetCurrentBuffer ⟨kbuf, 0⟩ kbuf.currentLog).2

variable (charSigned : Bool)

/-- The value of a `char` when it is promoted to `int`. -/
def charToInt (c : UInt8) : ℤ :=
  if charSigned ∧ 128 ≤ c.toNat then c.toNat - 256 else c.toNat

variable (k : KlogHeader)

/-- `*str - klog->data[klog->head]`, an `int`, as it is added to `deltasum`. -/
def deltaByte (c : UInt8) : UInt32 :=
  UInt32.ofInt (charToInt charSigned c - (k.data k.head).toNat)

/-- One more than an index of the ring. -/
def bump (index : ℕ) : ℕ :=
  if k.size ≤ index + 1 then index + 1 - k.size else index + 1

/-- Store a byte at the head; the tail moves on if the head collides with it. -/
def putByte (c : UInt8) : KlogHeader :=
  let newhead := bump k k.head
  { k with
    data := Function.update k.data k.head c
    tail := if k.tail = newhead then bump k k.tail else k.tail
    head := newhead }

/-- The loop of `klog_puts_len`, which stops at a zero byte. -/
def putsLoop (charSigned : Bool) (k : KlogHeader) (deltasum : UInt32) (count : ℕ) :
    List UInt8 → KlogHeader × UInt32 × ℕ
  | [] => (k, deltasum, count)
  | c :: str =>
    if c = 0 then (k, deltasum, count)
    else putsLoop charSigned (putByte k c) (deltasum + deltaByte charSigned k c) (count + 1) str

/-- What `klog_puts_len` does to the log that `klog` points to. -/
def putsLog (str : List UInt8) (len : ℕ) : KlogHeader × ℕ :=
  let (k, deltasum, count) := putsLoop charSigned k 0 0 (str.take len)
  ({ k with dataChecksum := k.dataChecksum + deltasum }, count)

/-- Change the log that `klog` points to. -/
def State.modifyLog (s : State) (f : KlogHeader → KlogHeader) : State :=
  { s with klogBuf := { s.klogBuf with logs := s.klogBuf.logs.modify s.klog f } }

/-- `klog_puts_len`: the bytes of `str` up to its zero byte, at most `len` of them. The list
leaves out the zero byte that ends a string. -/
def klogPutsLen (s : State) (str : List UInt8) (len : ℕ) : ℕ × State :=
  match s.klogBuf.logs[s.klog]? with
  | none => (0, s)
  | some k =>
    ((putsLog charSigned k str len).2, s.modifyLog fun k => (putsLog charSigned k str len).1)

/-- An `iovec_t` into the ring of a log. -/
structure Iovec where
  base : ℕ
  len : ℕ

/-- The iovecs that `klog_get_buffer` fills in for a log. -/
def logVecs : List Iovec :=
  if k.head = k.tail then []
  else if k.tail < k.head then [⟨k.tail, k.head - k.tail⟩]
  else [⟨k.tail, k.size - k.tail⟩, ⟨0, k.head⟩]

/-- The number of the log that `klog_get_buffer` looks at; a negative `buffer` is the current
one. -/
def whichLog (s : State) (buffer : ℤ) : ℕ := if buffer < 0 then s.klog else buffer.toNat

/-- `klog_get_buffer`: the log and its iovecs, as many as it returns. -/
def klogGetBuffer (s : State) (buffer : ℤ) : Except Status (KlogHeader × List Iovec) :=
  if 0 ≤ buffer ∧ s.klogBuf.logCount ≤ buffer.toNat then .error errInvalidArgs
  else
    match s.klogBuf.logs[whichLog s buffer]? with
    | none => .error errInvalidArgs
    | some k => .ok (k, logVecs k)

/-- The bytes that `klog_read` copies out of one or two iovecs. -/
def copyVecs (k : KlogHeader) (len : ℕ) : List Iovec → List UInt8
  | [] => []
  | vec :: rest =>
    let n := min len vec.len
    Ring.block k.data vec.base n ++ copyVecs k (len - n) rest

/-- The tail moves behind what was read. The sum is a `uint32_t`. -/
def advanceTail (offset : ℕ) (k : KlogHeader) : KlogHeader :=
  let tail := (k.tail + offset) % 2 ^ 32
  { k with tail := if k.size ≤ tail then tail - k.size else tail }

/-- `klog_read`: the result and the bytes copied. The bytes come from the log `bufId`, and the
tail that moves is the one of the log that `klog` points to. -/
def klogRead (s : State) (len : ℕ) (bufId : ℤ) : (ℤ × List UInt8) × State :=
  match klogGetBuffer s bufId with
  | .error err => ((err, []), s)
  | .ok (k, vecs) =>
    if vecs.length < 1 then ((vecs.length, []), s)
    else
      let bytes := copyVecs k len vecs
      ((bytes.length, bytes), s.modifyLog (advanceTail bytes.length))

/-- The unread bytes of a log, oldest first. -/
def unread : List UInt8 :=
  if k.tail ≤ k.head then Ring.block k.data k.tail (k.head - k.tail)
  else Ring.block k.data k.tail (k.size - k.tail) ++ Ring.block k.data 0 k.head

/-! ## Calls -/

/-- A call on a buffer that was set up. -/
inductive Call where
  | putsLen (str : List UInt8) (len : ℕ)
  | read (len : ℕ) (bufId : ℤ)
  | setCurrent (buffer : ℕ)

/-- The result of a call with the bytes it copies out, and the state after it. -/
def perform (s : State) : Call → (ℤ × List UInt8) × State
  | .putsLen str len =>
    let (count, s) := klogPutsLen charSigned s str len
    ((count, []), s)
  | .read len bufId => klogRead s len bufId
  | .setCurrent buffer =>
    let (status, s) := klogSetCurrentBuffer s buffer
    ((status, []), s)

/-! ## Logs that a running system has -/

/-- A log with a ring of the given size and its pointers inside the ring. -/
structure KlogHeader.Valid (size : ℕ) (k : KlogHeader) : Prop where
  magic_eq : k.magic = klogHeaderMagic
  size_eq : k.size = size
  head_lt : k.head < size
  tail_lt : k.tail < size

/-- A buffer as `klog_create` leaves it and the other calls keep it. -/
structure State.Valid (s : State) : Prop where
  magic_eq : s.klogBuf.magic = klogBufferHeaderMagic
  crc_eq : s.klogBuf.headerCrc32 = getChecksumKlogBufferHeader s.klogBuf
  count_eq : s.klogBuf.logCount = s.klogBuf.logs.length
  current_lt : s.klogBuf.currentLog < s.klogBuf.logCount
  klog_eq : s.klog = s.klogBuf.currentLog

/-- Every log of the buffer has a property. -/
def State.All (P : KlogHeader → Prop) (s : State) : Prop := ∀ k ∈ s.klogBuf.logs, P k

variable {s : State} {k : KlogHeader} {size : ℕ} {P : KlogHeader → Prop} {buffer len count : ℕ}
  {bufId : ℤ}

theorem State.Valid.klog_lt (h : s.Valid) : s.klog < s.klogBuf.logs.length := by
  rw [← h.count_eq, h.klog_eq]
  exact h.current_lt

theorem State.Valid.modify_log (h : s.Valid) (f : KlogHeader → KlogHeader) :
    (s.modifyLog f).Valid where
  __ := h
  count_eq := h.count_eq.trans (length_modify f s.klogBuf.logs s.klog).symm

theorem State.All.modify_log (h : s.All P) {f : KlogHeader → KlogHeader} (hf : ∀ k, P k → P (f k)) :
    (s.modifyLog f).All P := by
  intro k hk
  obtain ⟨i, hi⟩ := mem_iff_getElem?.mp hk
  have hi : (s.klogBuf.logs.modify s.klog f)[i]? = some k := hi
  rw [getElem?_modify] at hi
  obtain ⟨old, hold, hnew⟩ := Option.map_eq_some_iff.mp hi
  have hP := h old (mem_of_getElem? hold)
  subst hnew
  split
  · exact hf old hP
  · exact hP

theorem State.All.getElem (h : s.All P) {i : ℕ} (hi : s.klogBuf.logs[i]? = some k) : P k :=
  h k (mem_of_getElem? hi)

/-! ### Selecting a log -/

/-- `klog_set_current_buffer` changes the number of the current log and the sum of the header. -/
theorem set_current_spec (h : s.Valid) (hlt : buffer < s.klogBuf.logCount) :
    (klogSetCurrentBuffer s buffer).1 = noError ∧
      (klogSetCurrentBuffer s buffer).2.Valid ∧
      (klogSetCurrentBuffer s buffer).2.klogBuf.logs = s.klogBuf.logs ∧
      (klogSetCurrentBuffer s buffer).2.klogBuf.totalSize = s.klogBuf.totalSize ∧
      (klogSetCurrentBuffer s buffer).2.klog = buffer := by
  unfold klogSetCurrentBuffer
  rw [if_neg (by omega)]
  dsimp only
  split
  · exact ⟨rfl, ⟨h.magic_eq, rfl, h.count_eq, hlt, rfl⟩, rfl, rfl, rfl⟩
  · next hsame =>
    have hsame : buffer = s.klogBuf.currentLog := by simpa using hsame
    exact ⟨rfl, { h with klog_eq := hsame }, rfl, rfl, rfl⟩

/-- Selecting the log that the header names sets the pointer only. -/
theorem set_current_current (heq : buffer = s.klogBuf.currentLog)
    (hlt : buffer < s.klogBuf.logCount) :
    klogSetCurrentBuffer s buffer = (noError, ⟨s.klogBuf, buffer⟩) := by
  unfold klogSetCurrentBuffer
  rw [if_neg (by omega)]
  rw [if_neg (not_not_intro heq)]

theorem set_current_of_ge (hge : s.klogBuf.logCount ≤ buffer) :
    klogSetCurrentBuffer s buffer = (errInvalidArgs, s) :=
  if_pos hge

/-! ### Writing -/

section

variable (h : k.Valid size)
include h

theorem KlogHeader.Valid.bump_cases {index : ℕ} (hindex : index < size) :
    (index + 1 = size ∧ bump k index = 0) ∨ (index + 1 < size ∧ bump k index = index + 1) := by
  have hsize := h.size_eq
  unfold bump
  split
  · omega
  · omega

theorem bump_lt {index : ℕ} (hindex : index < size) :
    bump k index < size := by
  have hbump := h.bump_cases hindex
  omega

theorem KlogHeader.Valid.put_byte (c : UInt8) : (putByte k c).Valid size where
  __ := h
  head_lt := bump_lt h h.head_lt
  tail_lt := by
    show (if _ then bump k k.tail else k.tail) < size
    split
    · exact bump_lt h h.tail_lt
    · exact h.tail_lt

theorem KlogHeader.Valid.puts_loop (deltasum : UInt32) (count : ℕ)
    (str : List UInt8) : (putsLoop charSigned k deltasum count str).1.Valid size := by
  induction str generalizing k deltasum count with
  | nil => exact h
  | cons c str ih =>
    unfold putsLoop
    split
    · exact h
    · exact ih (h.put_byte c) _ _

theorem KlogHeader.Valid.puts_log (str : List UInt8) (len : ℕ) :
    (putsLog charSigned k str len).1.Valid size :=
  let hloop := h.puts_loop charSigned 0 0 (str.take len)
  { hloop with }

end

/-! ### Reading -/

/-- The number of unread bytes. -/
def used (k : KlogHeader) : ℕ :=
  if k.tail ≤ k.head then k.head - k.tail else k.size - k.tail + k.head

theorem KlogHeader.Valid.used_cases (h : k.Valid size) :
    (k.tail ≤ k.head ∧ used k + k.tail = k.head) ∨
      (k.head < k.tail ∧ used k + k.tail = size + k.head) := by
  have hsize := h.size_eq
  have htail := h.tail_lt
  unfold used
  split
  · omega
  · omega

theorem KlogHeader.Valid.used_lt (h : k.Valid size) : used k < size := by
  have hused := h.used_cases
  have hhead := h.head_lt
  omega

theorem length_unread (k : KlogHeader) : (unread k).length = used k := by
  unfold unread used
  split
  · exact length_block
  · rw [length_append, length_block, length_block]

/-- `klog_read` copies the oldest unread bytes. -/
theorem copy_vecs_eq (k : KlogHeader) (len : ℕ) :
    copyVecs k len (logVecs k) = (unread k).take len := by
  unfold logVecs unread
  split
  · next hempty =>
    rw [if_pos (by omega), hempty, Nat.sub_self]
    simp [copyVecs]
  split
  · next hrun =>
    rw [if_pos (by omega)]
    simp only [copyVecs, append_nil]
    exact (take_block _ _ _ _).symm
  rw [if_neg (by omega), take_append]
  simp only [copyVecs, append_nil, length_block]
  rw [take_block, take_block]
  congr 2
  omega

theorem KlogHeader.Valid.advance_tail (h : k.Valid size) {offset : ℕ}
    (hoffset : offset < size) : (advanceTail offset k).Valid size where
  __ := h
  tail_lt := by
    have heq := h.size_eq
    have htail := h.tail_lt
    show (if k.size ≤ (k.tail + offset) % 2 ^ 32 then _ else _) < size
    split
    · omega
    · omega

theorem unread_eq_nil_iff (k : KlogHeader) (h : k.Valid size) :
    unread k = [] ↔ k.head = k.tail := by
  have hsize := h.size_eq
  have htail := h.tail_lt
  rw [← length_eq_zero_iff, length_unread, used]
  split
  · omega
  · omega

theorem klog_read_of_ge (hid : 0 ≤ bufId) (hge : s.klogBuf.logCount ≤ bufId.toNat) :
    klogRead s len bufId = ((errInvalidArgs, []), s) := by
  rw [klogRead, klogGetBuffer, if_pos ⟨hid, hge⟩]

/-- A read copies the oldest unread bytes of the log it names, and moves the tail of the log that
`klog` points to. -/
theorem klog_read_of_log (len : ℕ) (hin : bufId < 0 ∨ bufId.toNat < s.klogBuf.logCount)
    (hk : s.klogBuf.logs[whichLog s bufId]? = some k) (hvalid : k.Valid size) :
    klogRead s len bufId = (((((unread k).take len).length : ℤ), (unread k).take len),
      if unread k = [] then s else s.modifyLog (advanceTail ((unread k).take len).length)) := by
  have hget : klogGetBuffer s bufId = .ok (k, logVecs k) := by
    rw [klogGetBuffer, if_neg (by omega), hk]
  rw [klogRead, hget]
  dsimp only
  by_cases hempty : unread k = []
  · have hvecs : logVecs k = [] := if_pos ((unread_eq_nil_iff k hvalid).mp hempty)
    rw [hvecs, if_pos hempty, hempty, take_nil]
    rfl
  have hne : k.head ≠ k.tail := fun heq => hempty ((unread_eq_nil_iff k hvalid).mpr heq)
  have hvecs : ¬ (logVecs k).length < 1 := by
    rw [logVecs, if_neg hne]
    split
    · simp
    · simp
  rw [if_neg hvecs, if_neg hempty, copy_vecs_eq]

/-- The log that a read in range looks at. -/
theorem State.Valid.exists_log (h : s.Valid) (hin : bufId < 0 ∨ bufId.toNat < s.klogBuf.logCount) :
    ∃ k, s.klogBuf.logs[whichLog s bufId]? = some k := by
  have hlt : whichLog s bufId < s.klogBuf.logs.length := by
    unfold whichLog
    split
    · exact h.klog_lt
    · rw [← h.count_eq]
      omega
  exact ⟨_, getElem?_eq_getElem hlt⟩

/-! ### Every call -/

/-- Every call keeps the buffer and the rings of its logs valid. -/
theorem perform_valid (h : s.Valid) (hlogs : s.All (KlogHeader.Valid size)) (call : Call) :
    (perform charSigned s call).2.Valid ∧
      (perform charSigned s call).2.All (KlogHeader.Valid size) := by
  cases call with
  | putsLen str len =>
    show (klogPutsLen charSigned s str len).2.Valid ∧ (klogPutsLen charSigned s str len).2.All _
    unfold klogPutsLen
    split
    · exact ⟨h, hlogs⟩
    · exact ⟨h.modify_log _, hlogs.modify_log fun _ hk => hk.puts_log charSigned str len⟩
  | read len bufId =>
    show (klogRead s len bufId).2.Valid ∧ (klogRead s len bufId).2.All _
    by_cases hin : bufId < 0 ∨ bufId.toNat < s.klogBuf.logCount
    · obtain ⟨k, hk⟩ := h.exists_log hin
      have hvalid := hlogs.getElem hk
      rw [klog_read_of_log len hin hk hvalid]
      split
      · exact ⟨h, hlogs⟩
      · have hlt : ((unread k).take len).length < size := by
          rw [length_take, length_unread]
          exact Nat.lt_of_le_of_lt (Nat.min_le_right _ _) hvalid.used_lt
        exact ⟨h.modify_log _, hlogs.modify_log fun _ hold => hold.advance_tail hlt⟩
    · rw [klog_read_of_ge (by omega) (by omega)]
      exact ⟨h, hlogs⟩
  | setCurrent buffer =>
    show (klogSetCurrentBuffer s buffer).2.Valid ∧ (klogSetCurrentBuffer s buffer).2.All _
    by_cases hlt : buffer < s.klogBuf.logCount
    · obtain ⟨_, hvalid, heq, _, _⟩ := set_current_spec h hlt
      refine ⟨hvalid, ?_⟩
      rw [State.All, heq]
      exact hlogs
    · rw [set_current_of_ge (by omega)]
      exact ⟨h, hlogs⟩

/-! ### Setting up -/

/-- What `klog_create` checks, and the buffer it sets up. -/
theorem create_spec (h : klogCreate len count = .ok s) :
    0 < count ∧ sizeofBufferHeader + sizeofHeader * count + 4 * count % 2 ^ 32 ≤ len ∧ s.Valid ∧
      s.klogBuf.logs = replicate count (emptyLog (bufferSize len count)) ∧
      s.klogBuf.totalSize = len % 2 ^ 32 ∧ s.klog = 0 := by
  unfold klogCreate at h
  split at h
  · cases h
  split at h
  · cases h
  have hcount : 0 < count := by omega
  have hs := Except.ok.inj h
  rw [newBuffer, set_current_current (by rfl) hcount] at hs
  subst hs
  refine ⟨by omega, by omega, ⟨rfl, rfl, ?_, ?_, rfl⟩, rfl, rfl, rfl⟩
  · exact length_replicate.symm
  · show 0 < count
    omega

/-- Each ring has room for at least one word. -/
theorem buffer_size_pos (hcount : 0 < count) (hlen : len < 2 ^ 32)
    (hroom : sizeofBufferHeader + sizeofHeader * count + 4 * count % 2 ^ 32 ≤ len) :
    0 < bufferSize len count := by
  unfold sizeofBufferHeader sizeofHeader at hroom
  have hrest : (len - 20 - 20 * count) % 2 ^ 32 = len - 20 - 20 * count :=
    Nat.mod_eq_of_lt (by omega)
  have hfour : 4 ≤ (len - 20 - 20 * count) / count := by
    rw [Nat.le_div_iff_mul_le hcount]
    omega
  unfold bufferSize sizeofBufferHeader sizeofHeader
  rw [hrest]
  omega

theorem buffer_size_le (len count : ℕ) : bufferSize len count ≤ len := by
  calc (len - 20 - 20 * count) % 2 ^ 32 / count / 4 * 4
      ≤ (len - 20 - 20 * count) % 2 ^ 32 / count := Nat.div_mul_le_self _ _
    _ ≤ (len - 20 - 20 * count) % 2 ^ 32 := Nat.div_le_self _ _
    _ ≤ len - 20 - 20 * count := Nat.mod_le _ _
    _ ≤ len := by omega

theorem empty_log_valid (hsize : 0 < size) : (emptyLog size).Valid size := ⟨rfl, rfl, hsize, hsize⟩

/-- The logs of a new buffer are valid. -/
theorem create_valid (h : klogCreate len count = .ok s) (hlen : len < 2 ^ 32) :
    s.Valid ∧ s.All (KlogHeader.Valid (bufferSize len count)) := by
  obtain ⟨hcount, hroom, hvalid, hlogs, _⟩ := create_spec h
  refine ⟨hvalid, fun k hk => ?_⟩
  rw [hlogs] at hk
  rw [eq_of_mem_replicate hk]
  exact empty_log_valid (buffer_size_pos hcount hlen hroom)

end NusaKernel.Klog
