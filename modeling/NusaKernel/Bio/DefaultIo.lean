import NusaKernel.Bio.Device
import NusaKernel.Lib.Fallible
import NusaKernel.Lib.Segment

/-!
# Byte access through blocks (`lib/bio/bio.c`)

A driver that can only transfer whole blocks gets its `read` and `write` hooks from
`bio_default_read` and `bio_default_write`. A transfer is a partial first block, whole blocks, and
a partial last block; the partial ones go through a buffer of one block, and the whole ones do so
too if the device wants aligned buffers and the caller's is not.

The block number is computed by `divpow2`, which takes a `uint`: from an offset of 4 GiB on it is
another block (`byte_access_beyond`). The same holds for the number of blocks of a transfer of 4 GiB
or more that does not go through the buffer. `byte_access` says that for every driver whose block
hooks are faithful the transfer is the one of the bytes, exactly if neither happens.
-/

namespace NusaKernel.Bio

open List Nat Ring Segment
open Fallible (Yields)

/-- What a driver does with its state: it may stop with an error code. -/
abbrev Io (σ : Type) := ExceptT Status (StateM σ)

/-- The `read_block` and `write_block` hooks of a driver with state `σ`. The number of bytes that
`read_block` returns is the length of the list. -/
structure BlockHooks (σ : Type) where
  readBlock : ℕ → ℕ → Io σ (List UInt8)
  writeBlock : List UInt8 → ℕ → ℕ → Io σ ℕ

section Model

variable {σ : Type} (dev : Bdev) (hooks : BlockHooks σ)

/-- `bio_read_block`. -/
def bioReadBlock (block count : ℕ) : Io σ (List UInt8) :=
  let count := bioTrimBlockRange dev block count
  if count = 0 then pure [] else hooks.readBlock block count

/-- `bio_write_block`. -/
def bioWriteBlock (buf : List UInt8) (block count : ℕ) : Io σ ℕ :=
  let count := bioTrimBlockRange dev block count
  if count = 0 then pure 0 else hooks.writeBlock (buf.take (count * dev.blockSize)) block count

/-- Read blocks, and fail if it was not all of them. -/
def readBlocks (block count : ℕ) : Io σ (List UInt8) := do
  let bytes ← bioReadBlock dev hooks block count
  if bytes.length ≠ dev.blockSize * count then throw errIo else pure bytes

/-- Write blocks, and fail if it was not all of them. -/
def writeBlocks (buf : List UInt8) (block count : ℕ) : Io σ Unit := do
  let written ← bioWriteBlock dev hooks buf block count
  if written ≠ dev.blockSize * count then throw errIo else pure ()

/-- The next block number, a `bnum_t`. -/
def nextBlock (block count : ℕ) : ℕ := (block + count) % 2 ^ 32

/-- The loop over whole blocks through the buffer of one block. -/
def readBounced : ℕ → ℕ → Io σ (List UInt8)
  | _, 0 => pure []
  | block, n + 1 => do
      let temp ← readBlocks dev hooks block 1
      let rest ← readBounced (nextBlock block 1) n
      pure (temp ++ rest)

/-- The whole blocks of a read of `len` bytes. -/
def readMiddle (bounce : Bool) (block len : ℕ) : Io σ (List UInt8) :=
  if bounce then readBounced dev hooks block (len / dev.blockSize)
  else readBlocks dev hooks block (divpow2 len dev.blockShift)

/-- The bytes of the first block, if the offset is inside it. -/
def readFirst (offset block len : ℕ) : Io σ (List UInt8) :=
  if offset % dev.blockSize ≠ 0 then do
    let temp ← readBlocks dev hooks block 1
    let blockOffset := offset % dev.blockSize
    pure ((temp.drop blockOffset).take (min (dev.blockSize - blockOffset) len))
  else pure []

/-- The bytes of the last block. What a longer rest would copy from behind the buffer of one block
is left out. -/
def readLast (block len : ℕ) : Io σ (List UInt8) :=
  if 0 < len then do
    let temp ← readBlocks dev hooks block 1
    pure (temp.take len)
  else pure []

/-- The block after the first part of a transfer. -/
def blockAfterFirst (offset : ℕ) : ℕ :=
  let block := divpow2 offset dev.blockShift
  if offset % dev.blockSize ≠ 0 then nextBlock block 1 else block

/-- The device wants aligned buffers and this one is not. -/
def requiresAlignment (flag : Bool) (cacheLine buf : ℕ) : Bool := flag && buf % cacheLine ≠ 0

/-- `bio_default_read` to a buffer at address `buf`: the bytes that it puts there. -/
def bioDefaultRead (cacheLine buf offset len : ℕ) : Io σ (List UInt8) := do
  let first ← readFirst dev hooks offset (divpow2 offset dev.blockShift) len
  let block := blockAfterFirst dev offset
  let len := len - first.length
  let bounce := requiresAlignment dev.cacheAlignedReads cacheLine (buf + first.length)
  let middle ← readMiddle dev hooks bounce block len
  let last ← readLast dev hooks (nextBlock block (middle.length / dev.blockSize))
    (len - middle.length)
  pure (first ++ middle ++ last)

/-- Read a block, put bytes into it, and write it back. -/
def modifyBlock (block blockOffset : ℕ) (bytes : List UInt8) : Io σ Unit := do
  let temp ← readBlocks dev hooks block 1
  writeBlocks dev hooks (temp.take blockOffset ++ bytes ++ temp.drop (blockOffset + bytes.length))
    block 1

/-- The loop over whole blocks through the buffer of one block. -/
def writeBounced : List UInt8 → ℕ → ℕ → Io σ Unit
  | _, _, 0 => pure ()
  | buf, block, n + 1 => do
      writeBlocks dev hooks (buf.take dev.blockSize) block 1
      writeBounced (buf.drop dev.blockSize) (nextBlock block 1) n

/-- The whole blocks of a write: the number of blocks. -/
def writeMiddle (bounce : Bool) (buf : List UInt8) (block len : ℕ) : Io σ ℕ :=
  if bounce then do
    writeBounced dev hooks buf block (len / dev.blockSize)
    pure (len / dev.blockSize)
  else do
    let blockCount := divpow2 len dev.blockShift
    writeBlocks dev hooks buf block blockCount
    pure blockCount

/-- The bytes that go to the first block: none if the offset is at its start. -/
def firstLen (offset len : ℕ) : ℕ :=
  if offset % dev.blockSize ≠ 0 then min (dev.blockSize - offset % dev.blockSize) len else 0

/-- The bytes of the first block, if the offset is inside it. -/
def writeFirst (offset block : ℕ) (bytes : List UInt8) : Io σ Unit :=
  if offset % dev.blockSize ≠ 0 then modifyBlock dev hooks block (offset % dev.blockSize) bytes
  else pure ()

/-- The bytes of the last block. -/
def writeLast (block : ℕ) (bytes : List UInt8) : Io σ Unit :=
  if 0 < bytes.length then modifyBlock dev hooks block 0 bytes else pure ()

/-- `bio_default_write` of the bytes at address `bufAddr`: the number of bytes written. -/
def bioDefaultWrite (cacheLine bufAddr : ℕ) (buf : List UInt8) (offset : ℕ) : Io σ ℕ := do
  let tocopy := firstLen dev offset buf.length
  writeFirst dev hooks offset (divpow2 offset dev.blockShift) (buf.take tocopy)
  let rest := buf.drop tocopy
  let block := blockAfterFirst dev offset
  let bounce := requiresAlignment dev.cacheAlignedWrites cacheLine (bufAddr + tocopy)
  let count ← writeMiddle dev hooks bounce rest block rest.length
  writeLast dev hooks (nextBlock block count) (rest.drop (count * dev.blockSize))
  pure buf.length

end Model

/-! ## Faithful drivers -/

/-- The block hooks transfer the blocks of an array of bytes. -/
structure Faithful {σ : Type} (dev : Bdev) (hooks : BlockHooks σ) (contents : σ → ℕ → UInt8) :
    Prop where
  read : ∀ first count cells, 0 < count → first + count ≤ dev.blockCount →
    Yields contents cells (hooks.readBlock first count)
      (block cells (first * dev.blockSize) (count * dev.blockSize)) cells
  write : ∀ buf first count cells, 0 < count → first + count ≤ dev.blockCount →
    buf.length = count * dev.blockSize →
    Yields contents cells (hooks.writeBlock buf first count) (count * dev.blockSize)
      (store cells (first * dev.blockSize) buf)

variable {buf bytes : List UInt8} {first offset : ℕ}

section Blocks

variable {σ : Type} {dev : Bdev} {hooks : BlockHooks σ} {contents : σ → ℕ → UInt8}

theorem next_block_eq {count : ℕ} (h : first + count ≤ dev.blockCount) :
    nextBlock first count = first + count :=
  mod_eq_of_lt (Nat.lt_of_le_of_lt h dev.count_lt)

variable (hf : Faithful dev hooks contents) (cells : ℕ → UInt8) {first count : ℕ}

include hf

section

variable (hin : first + count ≤ dev.blockCount)
include hin

theorem read_blocks_spec :
    Yields contents cells (readBlocks dev hooks first count)
      (block cells (first * dev.blockSize) (count * dev.blockSize)) cells := by
  have hread : Yields contents cells (bioReadBlock dev hooks first count)
      (block cells (first * dev.blockSize) (count * dev.blockSize)) cells := by
    unfold bioReadBlock
    rw [trim_block_range_of_le hin]
    dsimp only
    split
    · rename_i hzero
      rw [hzero, Nat.zero_mul]
      exact .pure
    · exact hf.read first count cells (by omega) hin
  refine hread.bind ?_
  rw [if_neg (by rw [length_block, Nat.mul_comm]; exact not_not_intro rfl)]
  exact .pure

theorem write_blocks_spec (hbuf : count * dev.blockSize ≤ buf.length) :
    Yields contents cells (writeBlocks dev hooks buf first count) ()
      (store cells (first * dev.blockSize) (buf.take (count * dev.blockSize))) := by
  have hwrite : Yields contents cells (bioWriteBlock dev hooks buf first count)
      (count * dev.blockSize)
      (store cells (first * dev.blockSize) (buf.take (count * dev.blockSize))) := by
    unfold bioWriteBlock
    rw [trim_block_range_of_le hin]
    dsimp only
    split
    · rename_i hzero
      rw [hzero, Nat.zero_mul, take_zero, store_nil]
      exact .pure
    · exact hf.write _ first count cells (by omega) hin (length_take_of_le hbuf)
  refine hwrite.bind ?_
  rw [if_neg (by rw [Nat.mul_comm]; exact not_not_intro rfl)]
  exact .pure

/-- The loop reads one block after the other. -/
theorem read_bounced_spec :
    Yields contents cells (readBounced dev hooks first count)
      (block cells (first * dev.blockSize) (count * dev.blockSize)) cells := by
  induction count generalizing first with
  | zero =>
    rw [Nat.zero_mul]
    exact .pure
  | succ n ih =>
    have hone : first + 1 ≤ dev.blockCount := by omega
    have hrest := ih (show first + 1 + n ≤ dev.blockCount by omega)
    rw [← next_block_eq hone] at hrest
    have hjoin : block cells (first * dev.blockSize) ((n + 1) * dev.blockSize) =
        block cells (first * dev.blockSize) (1 * dev.blockSize) ++
          block cells (nextBlock first 1 * dev.blockSize) (n * dev.blockSize) := by
      rw [next_block_eq hone, Nat.add_comm n, Nat.add_mul, block_add, Nat.add_mul]
    rw [hjoin]
    exact (read_blocks_spec hf cells hone).bind (hrest.bind Yields.pure)

/-- The loop writes one block after the other. -/
theorem write_bounced_spec (hbuf : count * dev.blockSize ≤ buf.length) :
    Yields contents cells (writeBounced dev hooks buf first count) ()
      (store cells (first * dev.blockSize) (buf.take (count * dev.blockSize))) := by
  induction count generalizing first buf cells with
  | zero =>
    rw [Nat.zero_mul, take_zero, store_nil]
    exact .pure
  | succ n ih =>
    have hone : first + 1 ≤ dev.blockCount := by omega
    have hsize : (n + 1) * dev.blockSize = dev.blockSize + n * dev.blockSize := by
      rw [Nat.add_mul, Nat.one_mul, Nat.add_comm]
    have hlen : (buf.take dev.blockSize).length = dev.blockSize := length_take_of_le (by omega)
    have hwrite := write_blocks_spec hf cells hone (hlen.trans (Nat.one_mul _).symm).ge
    have hrest := ih (store cells (first * dev.blockSize) (buf.take dev.blockSize))
      (show first + 1 + n ≤ dev.blockCount by omega)
      (show n * dev.blockSize ≤ (buf.drop dev.blockSize).length by
        rw [length_drop]; omega)
    rw [Nat.one_mul, take_take, Nat.min_self] at hwrite
    rw [← next_block_eq hone] at hrest
    have hjoin : store cells (first * dev.blockSize)
        (buf.take ((n + 1) * dev.blockSize)) =
        store (store cells (first * dev.blockSize) (buf.take dev.blockSize))
          (nextBlock first 1 * dev.blockSize)
          ((buf.drop dev.blockSize).take (n * dev.blockSize)) := by
      rw [hsize, take_add, store_append, hlen, next_block_eq hone, Nat.add_mul, Nat.one_mul]
    rw [hjoin]
    exact hwrite.bind hrest

end

/-- Read, modify and write back changes the bytes that were put in. -/
theorem modify_block_spec (hin : first + 1 ≤ dev.blockCount) {blockOffset : ℕ}
    (hfit : blockOffset + bytes.length ≤ dev.blockSize) :
    Yields contents cells (modifyBlock dev hooks first blockOffset bytes) ()
      (store cells (first * dev.blockSize + blockOffset) bytes) := by
  have hread := read_blocks_spec hf cells hin
  rw [Nat.one_mul] at hread
  refine hread.bind ?_
  have hpatched : (block cells (first * dev.blockSize) dev.blockSize).take blockOffset ++ bytes ++
      (block cells (first * dev.blockSize) dev.blockSize).drop (blockOffset + bytes.length) =
      block cells (first * dev.blockSize) blockOffset ++ bytes ++
        block cells (first * dev.blockSize + blockOffset + bytes.length)
          (dev.blockSize - (blockOffset + bytes.length)) := by
    rw [take_block, Nat.min_eq_left (by omega), drop_block hfit, Nat.add_assoc]
  have hlen : (block cells (first * dev.blockSize) blockOffset ++ bytes ++
      block cells (first * dev.blockSize + blockOffset + bytes.length)
        (dev.blockSize - (blockOffset + bytes.length))).length = dev.blockSize := by
    simp only [length_append, length_block]
    omega
  have hwrite := write_blocks_spec hf cells hin (hlen.trans (Nat.one_mul _).symm).ge
  rw [Nat.one_mul, take_of_length_le hlen.le, store_patched] at hwrite
  rw [hpatched]
  exact hwrite

end Blocks

/-! ## The parts of a transfer -/

section Parts

variable {dev : Bdev} {offset len : ℕ}

theorem divpow2_eq (h : offset < 2 ^ 32) :
    divpow2 offset dev.blockShift = offset / dev.blockSize := by
  rw [divpow2, mod_eq_of_lt h, Bdev.blockSize]

/-- The place inside its block does not depend on the part of an offset above 4 GiB. -/
theorem mod_wrapped (dev : Bdev) (offset : ℕ) :
    offset % 2 ^ 32 % dev.blockSize = offset % dev.blockSize :=
  mod_mod_of_dvd offset (pow_dvd_pow 2 dev.shift_lt.le)

theorem first_len_le (dev : Bdev) (offset len : ℕ) : firstLen dev offset len ≤ len := by
  unfold firstLen
  split
  · exact Nat.min_le_right _ _
  · exact Nat.zero_le _

theorem first_block_in (hin : offset ≤ dev.totalSize) (hinside : offset % dev.blockSize ≠ 0) :
    offset / dev.blockSize + 1 ≤ dev.blockCount := by
  have hne : offset ≠ dev.totalSize := by
    rintro rfl
    exact hinside (mul_mod_left _ _)
  exact (Nat.div_lt_iff_lt_mul dev.block_size_pos).mpr (Nat.lt_of_le_of_ne hin hne)

theorem block_after_first (hoffset : offset < 2 ^ 32) (hin : offset + len ≤ dev.totalSize) :
    blockAfterFirst dev offset ≤ dev.blockCount ∧
      (firstLen dev offset len < len →
        blockAfterFirst dev offset * dev.blockSize = offset + firstLen dev offset len) := by
  have hdiv := div_add_mod' offset dev.blockSize
  have hmod := mod_lt offset dev.block_size_pos
  unfold blockAfterFirst firstLen
  rw [divpow2_eq hoffset]
  by_cases hinside : offset % dev.blockSize ≠ 0
  · have hfirst := first_block_in (by omega) hinside
    rw [if_pos hinside, if_pos hinside, next_block_eq hfirst, Nat.add_mul, Nat.one_mul]
    exact ⟨hfirst, fun _ => by omega⟩
  · rw [if_neg hinside, if_neg hinside]
    refine ⟨?_, fun _ => by omega⟩
    exact Nat.div_le_of_le_mul (by rw [Nat.mul_comm]; exact Nat.le_trans (Nat.le_add_right _ _) hin)

/-- The number of whole blocks of a transfer of `len` bytes that is not inside its first block. -/
def middleBlocks (dev : Bdev) (bounce : Bool) (len : ℕ) : ℕ :=
  if bounce then len / dev.blockSize else divpow2 len dev.blockShift

/-- The number of bytes that are transferred: all of them, unless the number of whole blocks does
not fit a `uint`. -/
def reach (dev : Bdev) (bounce : Bool) (offset len : ℕ) : ℕ :=
  let rest := len - firstLen dev offset len
  let blocks := middleBlocks dev bounce rest
  firstLen dev offset len + (blocks * dev.blockSize + min (rest - blocks * dev.blockSize)
    dev.blockSize)

/-- The whole blocks are part of the transfer. -/
theorem middle_blocks_le (dev : Bdev) (bounce : Bool) (len : ℕ) :
    middleBlocks dev bounce len * dev.blockSize ≤ len := by
  cases bounce with
  | true => exact div_mul_le_self _ _
  | false => exact (div_mul_le_self _ _).trans (mod_le _ _)

theorem reach_bounds (dev : Bdev) (bounce : Bool) (offset len : ℕ) :
    reach dev bounce offset len ≤ len ∧ (0 < len → 0 < reach dev bounce offset len) := by
  have hfirst := first_len_le dev offset len
  have hblocks := middle_blocks_le dev bounce (len - firstLen dev offset len)
  have hpos := dev.block_size_pos
  unfold reach
  dsimp only
  omega

/-- All bytes are transferred exactly if they go through the buffer, or if there are less than 4 GiB
behind the first block. -/
theorem reach_eq_iff (dev : Bdev) (bounce : Bool) (offset len : ℕ) :
    reach dev bounce offset len = len ↔
      bounce = true ∨ len - firstLen dev offset len < 2 ^ 32 := by
  have hfirst := first_len_le dev offset len
  have hpos := dev.block_size_pos
  have hsize := dev.block_size_le
  unfold reach
  generalize hrest : len - firstLen dev offset len = rest
  have hdiv := div_add_mod' rest dev.blockSize
  have hmod := mod_lt rest hpos
  have hall : middleBlocks dev bounce rest = rest / dev.blockSize →
      firstLen dev offset len + (middleBlocks dev bounce rest * dev.blockSize +
        min (rest - middleBlocks dev bounce rest * dev.blockSize) dev.blockSize) = len := by
    intro heq
    rw [heq]
    omega
  cases bounce with
  | true => exact iff_of_true (hall rfl) (.inl rfl)
  | false =>
    rcases Nat.lt_or_ge rest (2 ^ 32) with hlt | hge
    · exact iff_of_true (hall (divpow2_eq hlt)) (.inr hlt)
    · -- What is left behind the blocks that are counted is more than a block.
      refine iff_of_false (fun heq => ?_) (by simpa using hge)
      have hle : middleBlocks dev false rest * dev.blockSize ≤ rest % 2 ^ 32 := div_mul_le_self _ _
      have hwraps := div_add_mod' rest (2 ^ 32)
      have hcount : 1 ≤ rest / 2 ^ 32 := (Nat.one_le_div_iff (by decide)).mpr hge
      dsimp only at heq
      omega

variable {blocks last : ℕ}

theorem blocks_in (hoffset : offset < 2 ^ 32) (hin : offset + len ≤ dev.totalSize)
    (hrest : blocks * dev.blockSize + last ≤ len - firstLen dev offset len) :
    blockAfterFirst dev offset + blocks ≤ dev.blockCount ∧
      (0 < last → blockAfterFirst dev offset + blocks + 1 ≤ dev.blockCount) := by
  obtain ⟨hle, hstart⟩ := block_after_first hoffset hin
  have hpos := dev.block_size_pos
  rcases Nat.eq_or_lt_of_le (first_len_le dev offset len) with hall | hlt
  · rw [hall, Nat.sub_self, Nat.le_zero, Nat.add_eq_zero_iff, Nat.mul_eq_zero] at hrest
    exact ⟨by omega, by omega⟩
  have htotal : (blockAfterFirst dev offset + blocks) * dev.blockSize + last ≤
      dev.blockCount * dev.blockSize := by
    rw [Nat.add_mul]
    unfold Bdev.totalSize at hin
    omega
  constructor
  · exact Nat.le_of_mul_le_mul_right (by omega) hpos
  · intro hlast
    exact Nat.lt_of_mul_lt_mul_right (a := dev.blockSize) (by omega)

theorem block_parts (cells : ℕ → UInt8) (hoffset : offset < 2 ^ 32)
    (hin : offset + len ≤ dev.totalSize)
    (hrest : blocks * dev.blockSize + last ≤ len - firstLen dev offset len) :
    block cells offset (firstLen dev offset len + (blocks * dev.blockSize + last)) =
      block cells offset (firstLen dev offset len) ++
        block cells (blockAfterFirst dev offset * dev.blockSize) (blocks * dev.blockSize) ++
        block cells ((blockAfterFirst dev offset + blocks) * dev.blockSize) last := by
  rcases Nat.eq_or_lt_of_le (first_len_le dev offset len) with hall | hlt
  · obtain ⟨hblocks, rfl⟩ : blocks * dev.blockSize = 0 ∧ last = 0 := by omega
    simp [hblocks]
  · have hstart := (block_after_first hoffset hin).2 hlt
    rw [Nat.add_mul, hstart, append_assoc, ← block_add, ← block_add]

theorem store_parts (cells : ℕ → UInt8) (hoffset : offset < 2 ^ 32)
    (hin : offset + buf.length ≤ dev.totalSize)
    (hrest : blocks * dev.blockSize + last ≤ buf.length - firstLen dev offset buf.length) :
    store cells offset (buf.take
      (firstLen dev offset buf.length + (blocks * dev.blockSize + last))) =
      store
        (store
          (store cells offset (buf.take (firstLen dev offset buf.length)))
          (blockAfterFirst dev offset * dev.blockSize)
          ((buf.drop (firstLen dev offset buf.length)).take (blocks * dev.blockSize)))
        ((blockAfterFirst dev offset + blocks) * dev.blockSize)
        (((buf.drop (firstLen dev offset buf.length)).drop
          (blocks * dev.blockSize)).take last) := by
  have hle := first_len_le dev offset buf.length
  rcases Nat.eq_or_lt_of_le hle with hall | hlt
  · obtain ⟨hblocks, rfl⟩ : blocks * dev.blockSize = 0 ∧ last = 0 := by omega
    simp [hblocks]
  have hstart := (block_after_first hoffset hin).2 hlt
  have hfirst : (buf.take (firstLen dev offset buf.length)).length =
      firstLen dev offset buf.length := length_take_of_le hle
  have hmiddle : ((buf.drop (firstLen dev offset buf.length)).take
      (blocks * dev.blockSize)).length = blocks * dev.blockSize := by
    refine length_take_of_le ?_
    rw [length_drop]
    omega
  rw [take_add, store_append, hfirst, take_add, store_append, hmiddle, Nat.add_mul, hstart]

end Parts

/-! ## Reading -/

section Reading

variable {σ : Type} {dev : Bdev} {hooks : BlockHooks σ} {contents : σ → ℕ → UInt8}
  (hf : Faithful dev hooks contents) (cells : ℕ → UInt8) {len : ℕ}

include hf

theorem read_first_spec (hoffset : offset < 2 ^ 32) (hin : offset ≤ dev.totalSize) :
    Yields contents cells (readFirst dev hooks offset (divpow2 offset dev.blockShift) len)
      (block cells offset (firstLen dev offset len)) cells := by
  unfold readFirst firstLen
  by_cases hinside : offset % dev.blockSize ≠ 0
  · have hmod := mod_lt offset dev.block_size_pos
    have hread := read_blocks_spec hf cells (first_block_in hin hinside)
    rw [if_pos hinside, if_pos hinside, divpow2_eq hoffset]
    refine hread.bind ?_
    dsimp only
    rw [Nat.one_mul, drop_block hmod.le, take_block, div_add_mod',
      Nat.min_eq_left (Nat.min_le_left _ _)]
    exact .pure
  · rw [if_neg hinside, if_neg hinside]
    exact .pure

theorem read_middle_spec (bounce : Bool)
    (hin : first + middleBlocks dev bounce len ≤ dev.blockCount) :
    Yields contents cells (readMiddle dev hooks bounce first len)
      (block cells (first * dev.blockSize)
        (middleBlocks dev bounce len * dev.blockSize)) cells := by
  cases bounce with
  | true => exact read_bounced_spec hf cells hin
  | false => exact read_blocks_spec hf cells hin

theorem read_last_spec (hin : 0 < len → first + 1 ≤ dev.blockCount) :
    Yields contents cells (readLast dev hooks first len)
      (block cells (first * dev.blockSize) (min len dev.blockSize)) cells := by
  unfold readLast
  by_cases hpos : 0 < len
  · rw [if_pos hpos]
    refine (read_blocks_spec hf cells (hin hpos)).bind ?_
    rw [Nat.one_mul, take_block]
    exact .pure
  · rw [if_neg hpos, Nat.eq_zero_of_not_pos hpos, Nat.zero_min]
    exact .pure

/-- Below 4 GiB, the default read returns the bytes of the range that it reaches. -/
theorem default_read_spec (hoffset : offset < 2 ^ 32) (hin : offset + len ≤ dev.totalSize)
    (cacheLine buf : ℕ) :
    Yields contents cells (bioDefaultRead dev hooks cacheLine buf offset len)
      (block cells offset (reach dev (requiresAlignment dev.cacheAlignedReads cacheLine
        (buf + firstLen dev offset len)) offset len)) cells := by
  have hpos := dev.block_size_pos
  refine (read_first_spec hf cells hoffset (by omega)).bind ?_
  rw [length_block]
  generalize requiresAlignment dev.cacheAlignedReads cacheLine (buf + firstLen dev offset len) =
    bounce
  have hle := middle_blocks_le dev bounce (len - firstLen dev offset len)
  unfold reach
  dsimp only
  generalize hblocks : middleBlocks dev bounce (len - firstLen dev offset len) = blocks at hle ⊢
  have hrest : blocks * dev.blockSize +
      min (len - firstLen dev offset len - blocks * dev.blockSize) dev.blockSize ≤
        len - firstLen dev offset len := by omega
  obtain ⟨hmiddle, hlast⟩ := blocks_in hoffset hin hrest
  rw [← hblocks] at hmiddle
  have hread := read_middle_spec hf cells bounce hmiddle
  rw [hblocks] at hread hmiddle
  refine hread.bind ?_
  rw [length_block, Nat.mul_div_cancel _ hpos, next_block_eq hmiddle]
  refine (read_last_spec hf cells fun h => hlast (Nat.lt_min.mpr ⟨h, hpos⟩)).bind ?_
  rw [← block_parts cells hoffset hin hrest]
  exact .pure

end Reading

/-! ## Writing -/

section Writing

variable {σ : Type} {dev : Bdev} {hooks : BlockHooks σ} {contents : σ → ℕ → UInt8}
  (hf : Faithful dev hooks contents) (cells : ℕ → UInt8)

include hf

theorem write_middle_spec (bounce : Bool)
    (hin : first + middleBlocks dev bounce buf.length ≤ dev.blockCount) :
    Yields contents cells (writeMiddle dev hooks bounce buf first buf.length)
      (middleBlocks dev bounce buf.length)
      (store cells (first * dev.blockSize)
        (buf.take (middleBlocks dev bounce buf.length * dev.blockSize))) := by
  have hbuf := middle_blocks_le dev bounce buf.length
  unfold writeMiddle
  cases bounce with
  | true => exact (write_bounced_spec hf cells hin hbuf).bind Yields.pure
  | false => exact (write_blocks_spec hf cells hin hbuf).bind Yields.pure

theorem write_first_spec (hoffset : offset < 2 ^ 32) (hin : offset ≤ dev.totalSize) :
    Yields contents cells (writeFirst dev hooks offset (divpow2 offset dev.blockShift)
      (buf.take (firstLen dev offset buf.length))) ()
      (store cells offset (buf.take (firstLen dev offset buf.length))) := by
  unfold writeFirst
  by_cases hinside : offset % dev.blockSize ≠ 0
  · have hmod := mod_lt offset dev.block_size_pos
    have hlen : firstLen dev offset buf.length =
        min (dev.blockSize - offset % dev.blockSize) buf.length := if_pos hinside
    have hmodify := modify_block_spec hf cells (first_block_in hin hinside)
      (show offset % dev.blockSize + (buf.take (firstLen dev offset buf.length)).length ≤
        dev.blockSize by rw [length_take]; omega)
    rw [div_add_mod'] at hmodify
    rw [if_pos hinside, divpow2_eq hoffset]
    exact hmodify
  · have hlen : firstLen dev offset buf.length = 0 := if_neg hinside
    rw [if_neg hinside, hlen, take_zero, store_nil]
    exact .pure

theorem write_last_spec (hin : 0 < bytes.length → first + 1 ≤ dev.blockCount) :
    Yields contents cells (writeLast dev hooks first bytes) ()
      (store cells (first * dev.blockSize)
        (bytes.take (min bytes.length dev.blockSize))) := by
  unfold writeLast
  by_cases hpos : 0 < bytes.length
  · rw [if_pos hpos]
    rcases Nat.le_total bytes.length dev.blockSize with hle | hge
    · rw [Nat.min_eq_left hle, take_length]
      exact modify_block_spec hf cells (hin hpos) (by omega)
    · -- More bytes than fit the block: the block gets the first of them.
      refine (read_blocks_spec hf cells (hin hpos)).bind ?_
      have hdrop : (block cells (first * dev.blockSize) (1 * dev.blockSize)).drop
          (0 + bytes.length) = [] := drop_eq_nil_of_le (by rw [length_block]; omega)
      have hwrite := write_blocks_spec hf cells (hin hpos)
        (show 1 * dev.blockSize ≤ bytes.length by omega)
      rw [Nat.one_mul] at hwrite
      rw [hdrop, take_zero, nil_append, append_nil, Nat.min_eq_right hge]
      exact hwrite
  · rw [if_neg hpos, eq_nil_of_length_eq_zero (Nat.eq_zero_of_not_pos hpos), take_nil, store_nil]
    exact .pure

/-- Below 4 GiB, the default write changes the bytes of the range that it reaches, and no others. -/
theorem default_write_spec (buf : List UInt8) (hoffset : offset < 2 ^ 32)
    (hin : offset + buf.length ≤ dev.totalSize) (cacheLine bufAddr : ℕ) :
    Yields contents cells (bioDefaultWrite dev hooks cacheLine bufAddr buf offset) buf.length
      (store cells offset (buf.take (reach dev
        (requiresAlignment dev.cacheAlignedWrites cacheLine
          (bufAddr + firstLen dev offset buf.length)) offset buf.length))) := by
  have hpos := dev.block_size_pos
  refine (write_first_spec hf cells hoffset (by omega)).bind ?_
  generalize requiresAlignment dev.cacheAlignedWrites cacheLine
    (bufAddr + firstLen dev offset buf.length) = bounce
  have hrest : (buf.drop (firstLen dev offset buf.length)).length =
      buf.length - firstLen dev offset buf.length := length_drop
  have hle := middle_blocks_le dev bounce (buf.length - firstLen dev offset buf.length)
  unfold reach
  dsimp only
  generalize hblocks : middleBlocks dev bounce (buf.length - firstLen dev offset buf.length) =
    blocks at hle ⊢
  have hparts : blocks * dev.blockSize + min
      (buf.length - firstLen dev offset buf.length - blocks * dev.blockSize) dev.blockSize ≤
        buf.length - firstLen dev offset buf.length := by omega
  obtain ⟨hmiddle, hlast⟩ := blocks_in hoffset hin hparts
  rw [← hblocks, ← hrest] at hmiddle
  have hmiddleSpec := write_middle_spec hf
    (store cells offset (buf.take (firstLen dev offset buf.length))) bounce hmiddle
  rw [hrest, hblocks] at hmiddleSpec hmiddle
  have hlastLen : ((buf.drop (firstLen dev offset buf.length)).drop
      (blocks * dev.blockSize)).length =
        buf.length - firstLen dev offset buf.length - blocks * dev.blockSize := by
    rw [length_drop, hrest]
  rw [store_parts cells hoffset hin hparts, hrest]
  refine hmiddleSpec.bind ?_
  rw [next_block_eq hmiddle, ← hlastLen]
  refine (write_last_spec hf _ fun h => hlast ?_).bind Yields.pure
  rw [← hlastLen]
  exact Nat.lt_min.mpr ⟨h, hpos⟩

end Writing

/-! ## Byte access -/

/-- A driver whose state is the bytes of the device. -/
def ramHooks (dev : Bdev) : BlockHooks (ℕ → UInt8) where
  readBlock first count := do
    let cells ← get
    pure (block cells (first * dev.blockSize) (count * dev.blockSize))
  writeBlock buf first count := do
    modify fun cells => store cells (first * dev.blockSize) buf
    pure (count * dev.blockSize)

theorem ram_faithful (dev : Bdev) : Faithful dev (ramHooks dev) id where
  read _ _ _ _ _ := fun s hs => ⟨s, by rw [← hs]; rfl, hs⟩
  write buf first count _ _ _ _ := fun s hs =>
    ⟨store s (first * dev.blockSize) buf, rfl, by rw [← hs]; rfl⟩

/-- Eight blocks of four bytes, and buffers have to be aligned. -/
def smallDevice : Bdev := ⟨2, 8, [], 0, true, true, by decide, by decide, by decide⟩

/-- An access at any offset is the access at the offset modulo 4 GiB. -/
theorem default_io_wraps {σ : Type} (dev : Bdev) (hooks : BlockHooks σ) (cacheLine bufAddr : ℕ)
    (buf : List UInt8) (offset len : ℕ) :
    bioDefaultRead dev hooks cacheLine bufAddr offset len =
        bioDefaultRead dev hooks cacheLine bufAddr (offset % 2 ^ 32) len ∧
      bioDefaultWrite dev hooks cacheLine bufAddr buf offset =
        bioDefaultWrite dev hooks cacheLine bufAddr buf (offset % 2 ^ 32) := by
  have hmod := mod_wrapped dev offset
  have hdiv : divpow2 (offset % 2 ^ 32) dev.blockShift = divpow2 offset dev.blockShift := by
    rw [divpow2, divpow2, Nat.mod_mod]
  constructor
  · unfold bioDefaultRead readFirst blockAfterFirst
    rw [hmod, hdiv]
  · unfold bioDefaultWrite writeFirst firstLen blockAfterFirst
    rw [hmod, hdiv]

section Exact

variable (dev : Bdev) (cacheLine bufAddr offset len : ℕ)

/-- The default read returns exactly the bytes of the range and changes none, whatever faithful
driver the device has, and whatever its contents are. -/
def ReadsExactly : Prop :=
  ∀ (σ : Type) (hooks : BlockHooks σ) (contents : σ → ℕ → UInt8), Faithful dev hooks contents →
    ∀ s, ∃ s', (bioDefaultRead dev hooks cacheLine bufAddr offset len).run.run s =
      (.ok (block (contents s) offset len), s') ∧ contents s' = contents s

/-- The default write changes exactly the bytes of the range to the buffer, whatever faithful driver
the device has, and whatever its contents are. -/
def WritesExactly : Prop :=
  ∀ (σ : Type) (hooks : BlockHooks σ) (contents : σ → ℕ → UInt8), Faithful dev hooks contents →
    ∀ s (buf : List UInt8), buf.length = len →
      ∃ s', (bioDefaultWrite dev hooks cacheLine bufAddr buf offset).run.run s = (.ok len, s') ∧
        block (contents s') offset len = buf ∧
        ∀ i, i < offset ∨ offset + len ≤ i → contents s' i = contents s i

/-- The bytes behind the first block go through the buffer of one block, or are less than 4 GiB. -/
def CountFits (flag : Bool) : Prop :=
  requiresAlignment flag cacheLine (bufAddr + firstLen dev offset len) = true ∨
    len - firstLen dev offset len < 2 ^ 32

/-- The number of bytes that are transferred, from the offset modulo 4 GiB on. -/
def reached (flag : Bool) : ℕ :=
  reach dev (requiresAlignment flag cacheLine (bufAddr + firstLen dev offset len)) (offset % 2 ^ 32)
    len

variable {dev offset len}

theorem first_len_wrapped : firstLen dev (offset % 2 ^ 32) len = firstLen dev offset len := by
  unfold firstLen
  rw [mod_wrapped]

variable (dev offset len) in
theorem reached_spec (flag : Bool) :
    (reached dev cacheLine bufAddr offset len flag = len ↔
        CountFits dev cacheLine bufAddr offset len flag) ∧
      reached dev cacheLine bufAddr offset len flag ≤ len ∧
      (0 < len → 0 < reached dev cacheLine bufAddr offset len flag) := by
  refine ⟨?_, reach_bounds ..⟩
  rw [reached, reach_eq_iff, first_len_wrapped]
  rfl

variable {σ : Type} {hooks : BlockHooks σ} {contents : σ → ℕ → UInt8}

theorem default_read_reached (hf : Faithful dev hooks contents) (cells : ℕ → UInt8)
    (hin : offset + len ≤ dev.totalSize) :
    Yields contents cells (bioDefaultRead dev hooks cacheLine bufAddr offset len)
      (block cells (offset % 2 ^ 32)
        (reached dev cacheLine bufAddr offset len dev.cacheAlignedReads)) cells := by
  have hle : offset % 2 ^ 32 ≤ offset := mod_le _ _
  rw [(default_io_wraps dev hooks cacheLine bufAddr [] offset len).1, reached, ← first_len_wrapped]
  exact default_read_spec hf cells (mod_lt _ (by decide)) (by omega) cacheLine bufAddr

theorem default_write_reached (hf : Faithful dev hooks contents) (cells : ℕ → UInt8)
    (buf : List UInt8) (hin : offset + buf.length ≤ dev.totalSize) :
    Yields contents cells (bioDefaultWrite dev hooks cacheLine bufAddr buf offset) buf.length
      (store cells (offset % 2 ^ 32)
        (buf.take (reached dev cacheLine bufAddr offset buf.length dev.cacheAlignedWrites))) := by
  have hle : offset % 2 ^ 32 ≤ offset := mod_le _ _
  rw [(default_io_wraps dev hooks cacheLine bufAddr buf offset 0).2, reached, ← first_len_wrapped]
  exact default_write_spec hf cells buf (mod_lt _ (by decide)) (by omega) cacheLine bufAddr

variable {cacheLine bufAddr}

theorem reads_exactly_iff (hin : offset + len ≤ dev.totalSize) :
    ReadsExactly dev cacheLine bufAddr offset len ↔
      len = 0 ∨
        offset < 2 ^ 32 ∧ CountFits dev cacheLine bufAddr offset len dev.cacheAlignedReads := by
  obtain ⟨hreach, -, hpos⟩ := reached_spec dev cacheLine bufAddr offset len dev.cacheAlignedReads
  constructor
  · intro hexact
    by_contra hneither
    obtain ⟨hne, hwrong⟩ := not_or.mp hneither
    let cells : ℕ → UInt8 := fun i => if i = offset then 1 else 0
    obtain ⟨s', hrun, -⟩ := hexact _ (ramHooks dev) id (ram_faithful dev) cells
    obtain ⟨s'', hrun', -⟩ :=
      default_read_reached cacheLine bufAddr (ram_faithful dev) cells hin cells rfl
    generalize reached dev cacheLine bufAddr offset len _ = n at hrun' hreach hpos
    have heq : block cells offset len = block cells (offset % 2 ^ 32) n := by
      rw [hrun'] at hrun
      exact (Except.ok.inj (Prod.mk.inj hrun).1).symm
    have hlen := congrArg List.length heq
    rw [length_block, length_block] at hlen
    have hbyte := congrArg (·[0]?) heq
    rw [getElem?_block (by omega), getElem?_block (by omega)] at hbyte
    have hsmall : offset < 2 ^ 32 := by simpa [cells] using hbyte
    exact hwrong ⟨hsmall, hreach.mp hlen.symm⟩
  · intro hright σ hooks contents hf s
    obtain ⟨s', hrun, hcontents⟩ :=
      default_read_reached cacheLine bufAddr hf (contents s) hin s rfl
    refine ⟨s', ?_, hcontents⟩
    rw [hrun]
    rcases hright with rfl | ⟨hoffset, hfits⟩
    · rw [hreach.mpr (.inr (by omega))]
      rfl
    · rw [hreach.mpr hfits, mod_eq_of_lt hoffset]

theorem writes_exactly_iff (hin : offset + len ≤ dev.totalSize) :
    WritesExactly dev cacheLine bufAddr offset len ↔
      len = 0 ∨
        offset < 2 ^ 32 ∧ CountFits dev cacheLine bufAddr offset len dev.cacheAlignedWrites := by
  have hle : offset % 2 ^ 32 ≤ offset := mod_le _ _
  obtain ⟨hreach, hn, hpos⟩ := reached_spec dev cacheLine bufAddr offset len dev.cacheAlignedWrites
  constructor
  · intro hexact
    by_contra hneither
    obtain ⟨hne, hwrong⟩ := not_or.mp hneither
    obtain ⟨s', hrun, hblock, hothers⟩ := hexact _ (ramHooks dev) id (ram_faithful dev)
      (fun _ => 0) (replicate len 1) (length_replicate ..)
    obtain ⟨s'', hrun', hstored⟩ := default_write_reached cacheLine bufAddr (ram_faithful dev)
      (fun _ => 0) (replicate len 1) (by rwa [length_replicate]) (fun _ => 0) rfl
    obtain rfl : s'' = s' := by
      rw [hrun'] at hrun
      exact (Prod.mk.inj hrun).2
    rw [length_replicate] at hstored
    generalize reached dev cacheLine bufAddr offset len _ = n at hstored hreach hpos hn
    rw [take_replicate, Nat.min_eq_left hn] at hstored
    have hwritten : id s'' (offset % 2 ^ 32) = 1 := by
      have hlt : 0 < (replicate n (1 : UInt8)).length := by
        rw [length_replicate]
        omega
      rw [hstored]
      exact (store_add hlt).trans (getElem_replicate ..)
    have hsame : offset % 2 ^ 32 = offset := by
      by_contra hother
      have hkept := hothers (offset % 2 ^ 32) (.inl (by omega))
      rw [hwritten] at hkept
      exact absurd hkept (show (1 : UInt8) ≠ 0 by decide)
    have hall : n = len := by
      by_contra hshort
      have hlast := congrArg (·[n]?) hblock
      rw [getElem?_block (by omega), getElem?_replicate, if_pos (by omega), hstored, hsame,
        store_of_ge (by rw [length_replicate])] at hlast
      exact absurd hlast (by decide)
    exact hwrong ⟨by omega, hreach.mp hall⟩
  · intro hright σ hooks contents hf s buf hbuf
    subst hbuf
    obtain ⟨s', hrun, hcontents⟩ :=
      default_write_reached cacheLine bufAddr hf (contents s) buf hin s rfl
    have hstored : contents s' = store (contents s) offset buf := by
      rw [hcontents]
      rcases hright with hzero | ⟨hoffset, hfits⟩
      · rw [length_eq_zero_iff.mp hzero, take_nil, store_nil, store_nil]
      · rw [hreach.mpr hfits, mod_eq_of_lt hoffset, take_length]
    refine ⟨s', hrun, ?_, fun i hi => ?_⟩
    · rw [hstored, block_store]
    · rw [hstored, store_of_outside hi]

end Exact

/-- For every range inside the device and every alignment of the buffer, the default read returns
exactly the bytes of the range, and the default write changes exactly these, if and only if the
range is empty, or it begins below 4 GiB and the number of its whole blocks fits. -/
theorem byte_access {dev : Bdev} {offset len : ℕ} (hin : offset + len ≤ dev.totalSize)
    (cacheLine bufAddr : ℕ) :
    (ReadsExactly dev cacheLine bufAddr offset len ↔ len = 0 ∨
        offset < 2 ^ 32 ∧ CountFits dev cacheLine bufAddr offset len dev.cacheAlignedReads) ∧
      (WritesExactly dev cacheLine bufAddr offset len ↔ len = 0 ∨
        offset < 2 ^ 32 ∧ CountFits dev cacheLine bufAddr offset len dev.cacheAlignedWrites) :=
  ⟨reads_exactly_iff hin, writes_exactly_iff hin⟩

/-- Seven bytes with both ends inside a block are read to a buffer that is not aligned. -/
theorem byte_access_small :
    3 + 7 ≤ smallDevice.totalSize ∧
      ∃ s', (bioDefaultRead smallDevice (ramHooks smallDevice) 64 1 3 7).run.run UInt8.ofNat =
        (.ok [3, 4, 5, 6, 7, 8, 9], s') := by
  have hin : 3 + 7 ≤ smallDevice.totalSize := by decide
  obtain ⟨s', hrun, _⟩ := (byte_access hin 64 1).1.mpr (.inr ⟨by decide, .inr (by decide)⟩) _ _ _
    (ram_faithful smallDevice) UInt8.ofNat
  exact ⟨hin, s', hrun⟩

/-- On a device of 4 GiB and one block, reading the first byte of the last block returns the
first byte of the device, and writing it changes that one. -/
theorem byte_access_beyond :
    ∃ dev : Bdev, 2 ^ 32 + 1 ≤ dev.totalSize ∧ ∃ cells : ℕ → UInt8, cells (2 ^ 32) = 1 ∧
      (∃ s', (bioDefaultRead dev (ramHooks dev) 64 0 (2 ^ 32) 1).run.run cells = (.ok [0], s')) ∧
      ∃ s', (bioDefaultWrite dev (ramHooks dev) 64 0 [2] (2 ^ 32)).run.run cells = (.ok 1, s') ∧
        s' (2 ^ 32) = 1 ∧ s' 0 = 2 := by
  let dev : Bdev := ⟨9, 2 ^ 23 + 1, [], 0, false, false, by decide, by decide, by decide⟩
  let cells : ℕ → UInt8 := fun i => if i < 2 ^ 32 then 0 else 1
  obtain ⟨hread, hwrite⟩ := default_io_wraps dev (ramHooks dev) 64 0 [2] (2 ^ 32) 1
  obtain ⟨s', hrun, _⟩ := default_read_spec (ram_faithful dev) cells
    (show 2 ^ 32 % 2 ^ 32 < 2 ^ 32 by decide)
    (show 2 ^ 32 % 2 ^ 32 + 1 ≤ dev.totalSize by decide) 64 0 cells rfl
  obtain ⟨s'', hrun', hcells⟩ := default_write_spec (ram_faithful dev) cells [2]
    (show 2 ^ 32 % 2 ^ 32 < 2 ^ 32 by decide) (by decide) 64 0 cells rfl
  rw [(reach_eq_iff dev _ _ 1).mpr (.inr (by decide))] at hrun
  refine ⟨dev, by decide, cells, by decide, ⟨s', ?_⟩, s'', ?_, ?_, ?_⟩
  · rw [hread]
    exact hrun
  · rw [hwrite]
    exact hrun'
  · rw [show s'' = _ from hcells]
    decide
  · rw [show s'' = _ from hcells]
    decide

end NusaKernel.Bio
