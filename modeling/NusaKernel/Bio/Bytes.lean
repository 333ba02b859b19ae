import NusaKernel.Bio.Device
import NusaKernel.Lib.Segment

/-!
# Reading and writing bytes through the block layer (`lib/bio/bio.c`)

`bio_read`, `bio_write` and `bio_erase` trim the range and call the hook of the device. A hook of a
driver transfers the bytes it is asked for, or it returns an error after it has transferred
whatever it has. The default hooks of a device with block hooks only do the same for the bytes at
the offset modulo 4 GiB (`Bio/DefaultIo`, for transfers of less than 4 GiB), which are other bytes
on a device of more than 4 GiB.
-/

namespace NusaKernel.Bio

open List Segment
open Ring (block)

/-- How a hook ends. -/
inductive Outcome where
  | ok
  | failed (bytes : List UInt8)

/-- The hook succeeds. -/
def Outcome.isOk : Outcome → Bool
  | .ok => true
  | .failed _ => false

theorem Outcome.eq_ok {outcome : Outcome} (h : outcome.isOk) : outcome = .ok := by
  cases outcome with
  | ok => rfl
  | failed bytes => cases h

section Model

variable (default : Bool) (dev : Bdev) (disk : ℕ → UInt8) (outcome : Outcome) (buf : List UInt8)
  (offset : ℤ)

/-- `bio_read` into a buffer, with the default hook or one of the driver: the result and the buffer
after it. -/
def bioReadVia : Status × List UInt8 :=
  let len := bioTrimRange dev offset buf.length
  if len = 0 then (0, buf)
  else
    match outcome with
    | .ok => (len, block disk (hookOffset default offset).toNat len ++ buf.drop len)
    | .failed bytes => (errIo, bytes.take len ++ buf.drop (bytes.take len).length)

/-- `bio_write` of a buffer, with the default hook or one of the driver: the result and the device
after it. -/
def bioWriteVia : Status × (ℕ → UInt8) :=
  let len := bioTrimRange dev offset buf.length
  if len = 0 then (0, disk)
  else
    match outcome with
    | .ok => (len, store disk (hookOffset default offset).toNat (buf.take len))
    | .failed bytes => (errIo, store disk (hookOffset default offset).toNat (bytes.take len))

/-- `bio_read` on a device whose driver has a read hook, or of at most 4 GiB. -/
def bioRead : Status × List UInt8 := bioReadVia false dev disk outcome buf offset

/-- `bio_write` on a device whose driver has a write hook, or of at most 4 GiB. -/
def bioWrite : Status × (ℕ → UInt8) := bioWriteVia false dev disk outcome buf offset

end Model

/-- `bio_erase`: the result and the device after it. -/
def bioErase (dev : Bdev) (disk : ℕ → UInt8) (outcome : Outcome) (offset : ℤ) (len : ℕ) :
    Status × (ℕ → UInt8) :=
  let len := bioTrimRange dev offset len
  if len = 0 then (0, disk)
  else
    match outcome with
    | .ok => (len, store disk offset.toNat (replicate len dev.eraseByte))
    | .failed bytes => (errIo, store disk offset.toNat (bytes.take len))

variable {dev : Bdev} {offset : ℕ} {disk : ℕ → UInt8} {buf : List UInt8}

/-- A range inside the device is not trimmed. -/
theorem trim_range_of_le {len : ℕ} (h : offset + len ≤ dev.totalSize) :
    bioTrimRange dev offset len = len := by
  have htotal := dev.total_size_lt
  unfold bioTrimRange
  rw [if_neg (by omega)]
  split
  · omega
  · split
    · omega
    · rw [to_off_eq (by omega) (by omega), if_neg (by omega)]

/-- The default hooks go to the offset they are asked for below 4 GiB. -/
theorem hook_offset_eq {default : Bool} (h : default = true → offset < 2 ^ 32) :
    hookOffset default offset = offset := by
  cases default with
  | false => rfl
  | true => exact Int.emod_eq_of_lt (by omega) (by exact_mod_cast h rfl)

section Whole

variable {default : Bool} (h : offset + buf.length ≤ dev.totalSize)
  (hlow : default = true → offset + buf.length ≤ 2 ^ 32)
include h hlow

/-- A range inside the device is read whole. -/
theorem bio_read_via_of_le :
    bioReadVia default dev disk .ok buf offset =
      ((buf.length : ℤ), block disk offset buf.length) := by
  unfold bioReadVia
  rw [trim_range_of_le h]
  dsimp only
  split
  · next hzero =>
    rw [length_eq_zero_iff.mp hzero]
    rfl
  · rw [hook_offset_eq fun hdefault => by have := hlow hdefault; omega, Int.toNat_natCast,
      drop_length, append_nil]

/-- A range inside the device is written whole. -/
theorem bio_write_via_of_le :
    bioWriteVia default dev disk .ok buf offset = ((buf.length : ℤ), store disk offset buf) := by
  unfold bioWriteVia
  rw [trim_range_of_le h]
  dsimp only
  split
  · next hzero =>
    rw [length_eq_zero_iff.mp hzero, store_nil]
    rfl
  · rw [hook_offset_eq fun hdefault => by have := hlow hdefault; omega, Int.toNat_natCast,
      take_length]

end Whole

/-- A range inside the device is read whole. -/
theorem bio_read_of_le (h : offset + buf.length ≤ dev.totalSize) :
    bioRead dev disk .ok buf offset = ((buf.length : ℤ), block disk offset buf.length) :=
  bio_read_via_of_le h nofun

/-- A range inside the device is written whole. -/
theorem bio_write_of_le (h : offset + buf.length ≤ dev.totalSize) :
    bioWrite dev disk .ok buf offset = ((buf.length : ℤ), store disk offset buf) :=
  bio_write_via_of_le h nofun

/-- A range inside the device is erased whole. -/
theorem bio_erase_of_le {len : ℕ} (h : offset + len ≤ dev.totalSize) :
    bioErase dev disk .ok offset len =
      ((len : ℤ), store disk offset (replicate len dev.eraseByte)) := by
  unfold bioErase
  rw [trim_range_of_le h]
  dsimp only
  split
  · next hzero =>
    rw [hzero, replicate_zero, store_nil]
    rfl
  · rw [Int.toNat_natCast]

/-- A range of less than 2 GiB does not get longer. -/
theorem trim_range_le (dev : Bdev) (offset : ℤ) {len : ℕ} (hlen : len < 2 ^ 31) :
    bioTrimRange dev offset len ≤ len := by
  by_cases hzero : bioTrimRange dev offset len = 0
  · omega
  have hoffset : offset < dev.totalSize := by
    by_contra hge
    refine hzero ?_
    unfold bioTrimRange
    rw [if_pos (not_lt.mp hge), ite_self]
  have htotal := dev.total_size_le
  exact (trim_range_spec (by omega) hzero).2.1

section Succeeds

variable (default : Bool) (dev : Bdev) (disk : ℕ → UInt8) (offset : ℤ) (hlen : buf.length < 2 ^ 31)
include hlen

/-- A read that succeeds returns at most the length of the buffer, which it keeps. -/
theorem bio_read_ok :
    ∃ (len : ℕ) (data : List UInt8),
      bioReadVia default dev disk .ok buf offset = ((len : ℤ), data) ∧
      len ≤ buf.length ∧ data.length = buf.length := by
  have htrim := trim_range_le dev offset hlen
  unfold bioReadVia
  dsimp only
  split
  · exact ⟨0, buf, rfl, Nat.zero_le _, rfl⟩
  · refine ⟨_, _, rfl, htrim, ?_⟩
    rw [length_append, Ring.length_block, length_drop]
    omega

/-- A write that succeeds returns at most the length of the buffer. -/
theorem bio_write_ok :
    ∃ (len : ℕ) (disk' : ℕ → UInt8),
      bioWriteVia default dev disk .ok buf offset = ((len : ℤ), disk') ∧ len ≤ buf.length := by
  unfold bioWriteVia
  dsimp only
  split
  · exact ⟨0, disk, rfl, Nat.zero_le _⟩
  · exact ⟨_, _, rfl, trim_range_le dev offset hlen⟩

end Succeeds

end NusaKernel.Bio
