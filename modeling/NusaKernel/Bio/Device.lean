import Mathlib.Algebra.Order.Ring.Nat
import Mathlib.Data.Int.Order.Basic
import Mathlib.Tactic.Ring
import NusaKernel.Kernel.Status

/-!
# Block devices (`lib/bio/include/lib/bio.h`, `lib/bio/bio.c`)

The geometry of a block device and the range checks that every call of the block layer makes.
Offsets are `off_t`, signed and of 64 bits; lengths are `size_t`; block numbers are `bnum_t`, of
32 bits.
-/

namespace NusaKernel.Bio

/-- A 64-bit value converted to `off_t`. -/
def toOff (value : ℤ) : ℤ := value.bmod (2 ^ 64)

/-- A 64-bit value converted to `uint64_t`. -/
def toU64 (value : ℤ) : ℕ := (value % 2 ^ 64).toNat

/-- `divpow2` (`nusa/pow2.h`), whose parameter is a `uint`. -/
def divpow2 (val divp2 : ℕ) : ℕ := val % 2 ^ 32 / 2 ^ divp2

/-- `bio_erase_geometry_info_t`: a region of a device and the size of its erase units. -/
structure EraseGeometry where
  start : ℕ
  size : ℕ
  eraseShift : ℕ
deriving DecidableEq

/-- `bdev_t` as `bio_initialize_bdev` sets it up: the block size is a power of two, and the total
size follows from it. The erase regions of a driver are inside its device. -/
structure Bdev where
  blockShift : ℕ
  blockCount : ℕ
  geometry : List EraseGeometry
  eraseByte : UInt8
  cacheAlignedReads : Bool
  cacheAlignedWrites : Bool
  shift_lt : blockShift < 32
  count_lt : blockCount < 2 ^ 32
  geometry_in : ∀ geo ∈ geometry, geo.start + geo.size ≤ blockCount * 2 ^ blockShift
deriving DecidableEq

namespace Bdev

variable (dev : Bdev)

def blockSize : ℕ := 2 ^ dev.blockShift

/-- `(off_t)block_count << dev->block_shift`. -/
def totalSize : ℕ := dev.blockCount * dev.blockSize

theorem block_size_pos : 0 < dev.blockSize := Nat.two_pow_pos _

theorem block_size_le : dev.blockSize ≤ 2 ^ 31 :=
  Nat.pow_le_pow_right (by omega) (Nat.le_of_lt_succ dev.shift_lt)

theorem total_size_le : dev.totalSize ≤ 2 ^ 63 - 2 ^ 31 := by
  have hcount : dev.blockCount ≤ 2 ^ 32 - 1 := Nat.le_sub_one_of_lt dev.count_lt
  calc dev.totalSize ≤ (2 ^ 32 - 1) * 2 ^ 31 := Nat.mul_le_mul hcount dev.block_size_le
    _ = 2 ^ 63 - 2 ^ 31 := by norm_num

theorem total_size_lt : dev.totalSize < 2 ^ 63 := Nat.lt_of_le_of_lt dev.total_size_le (by norm_num)

end Bdev

/-- Where a byte hook that is asked for an offset goes: those of `bio_initialize_bdev` compute the
block number with `divpow2`, which takes a `uint`. -/
def hookOffset (default : Bool) (offset : ℤ) : ℤ := if default then offset % 2 ^ 32 else offset

/-- `bio_trim_range`. -/
def bioTrimRange (dev : Bdev) (offset : ℤ) (len : ℕ) : ℕ :=
  if offset < 0 then 0
  else if (dev.totalSize : ℤ) ≤ offset then 0
  else if len = 0 then 0
  else if (dev.totalSize : ℤ) < toOff (offset + len) then toU64 (dev.totalSize - offset)
  else len

/-- `bio_trim_block_range`. The sum is a `bnum_t`. -/
def bioTrimBlockRange (dev : Bdev) (block count : ℕ) : ℕ :=
  if dev.blockCount < block then 0
  else if count = 0 then 0
  else if dev.blockCount < (block + count) % 2 ^ 32 then dev.blockCount - block
  else count

/-- `bio_does_overlap`. -/
def bioDoesOverlap (start1 len1 start2 len2 : ℕ) : Bool :=
  let end1 := (start1 + len1) % 2 ^ 64
  let end2 := (start2 + len2) % 2 ^ 64
  (start2 ≤ start1 ∧ start1 < end2) ∨ (start1 ≤ start2 ∧ start2 < end1)

/-- `bio_contains_range`. -/
def bioContainsRange (containerStart containerLen containedStart containedLen : ℕ) : Bool :=
  let containerEnd := (containerStart + containerLen) % 2 ^ 64
  let containedEnd := (containedStart + containedLen) % 2 ^ 64
  containerStart ≤ containedStart ∧ containedEnd ≤ containerEnd

variable {dev : Bdev}

/-- A range inside the device is not trimmed. -/
theorem trim_block_range_of_le {block count : ℕ} (h : block + count ≤ dev.blockCount) :
    bioTrimBlockRange dev block count = count := by
  have hlt := dev.count_lt
  unfold bioTrimBlockRange
  rw [if_neg (by omega), Nat.mod_eq_of_lt (by omega), if_neg (Nat.not_lt.mpr h)]
  split
  · omega
  · rfl

/-- A value in the range of `off_t` is not changed. -/
theorem to_off_eq {value : ℤ} (hlow : -2 ^ 63 ≤ value) (hhigh : value < 2 ^ 63) :
    toOff value = value :=
  Int.bmod_eq_of_le (by omega) (by omega)

/-- A range whose end fits `off_t` is trimmed to the device. -/
theorem trim_range_spec {offset : ℤ} {len : ℕ} (hfit : offset + len < 2 ^ 63)
    (hne : bioTrimRange dev offset len ≠ 0) :
    0 ≤ offset ∧ bioTrimRange dev offset len ≤ len ∧
      offset + bioTrimRange dev offset len ≤ dev.totalSize := by
  unfold bioTrimRange at hne ⊢
  split at hne
  · exact absurd rfl hne
  rename_i hlow
  split at hne
  · exact absurd rfl hne
  rename_i hhigh
  split at hne
  · exact absurd rfl hne
  rw [to_off_eq (by omega) hfit, if_neg hlow, if_neg hhigh, if_neg ‹_›]
  unfold toU64
  split
  · omega
  · omega

end NusaKernel.Bio
