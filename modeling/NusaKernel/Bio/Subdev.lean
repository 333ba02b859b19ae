import NusaKernel.Bio.Device
import NusaKernel.Lib.LittleEndian

/-!
# Subdevices (`lib/bio/subdev.c`) and MBR partitions (`lib/partition/partition.c`)

A subdevice is a range of blocks of its parent. A call on it is trimmed to its size, translated by
its offset and made on the parent, where it is trimmed again. `subdevice_isolated` says when the
range is inside the parent, and inside one erase region if the parent has such, and a call reaches
no byte of the parent outside the range.

Four places of the source do less than that (`not_isolated`). The search for the erase region of
a new subdevice ends with the last region if none contains the range, and never with none.
`bio_trim_range` compares the end of the range as an `off_t` and `bio_trim_block_range` as a
`bnum_t`, and a range whose end does not fit is not trimmed. The default byte hooks of a parent go
to the offset modulo 4 GiB.
-/

namespace NusaKernel.Bio

open List Option

/-- `subdev_t`: a device, its parent, and the block of the parent at which it starts. -/
structure Subdev where
  dev : Bdev
  parent : Bdev
  offset : ℕ

/-- The search of `bio_publish_subdevice` for the erase region: `geo` is the region it looked at
last. -/
def searchGeometry (byteStart byteSize : ℕ) :
    List EraseGeometry → Option EraseGeometry → Option EraseGeometry
  | [], geo => geo
  | next :: rest, _ =>
    if bioContainsRange next.start next.size byteStart byteSize then some next
    else searchGeometry byteStart byteSize rest (some next)

/-- The device of a subdevice, set up with `bio_initialize_bdev`. -/
def subdevBdev (parent : Bdev) (blockCount : UInt32) (geometry : List EraseGeometry)
    (h : ∀ geo ∈ geometry, geo.start + geo.size ≤ blockCount.toNat * 2 ^ parent.blockShift) :
    Bdev where
  blockShift := parent.blockShift
  blockCount := blockCount.toNat
  geometry := geometry
  eraseByte := parent.eraseByte
  cacheAlignedReads := false
  cacheAlignedWrites := false
  shift_lt := parent.shift_lt
  count_lt := blockCount.toNat_lt
  geometry_in := h

/-- `bio_publish_subdevice` for a parent that exists, as far as it looks at the range. -/
def bioPublishSubdevice (parent : Bdev) (startblock blockCount : UInt32) : Except Status Subdev :=
  let byteStart := startblock.toNat * 2 ^ parent.blockShift
  let byteSize := blockCount.toNat * 2 ^ parent.blockShift
  if parent.geometry = [] then
    let endblock := startblock + blockCount
    if endblock < startblock ∨ parent.blockCount < endblock.toNat then .error errInvalidArgs
    else .ok ⟨subdevBdev parent blockCount [] (by simp), parent, startblock.toNat⟩
  else
    match searchGeometry byteStart byteSize parent.geometry none with
    | none => .error errInvalidArgs
    | some geo =>
      if byteStart % 2 ^ geo.eraseShift ≠ 0 ∨ byteSize % 2 ^ geo.eraseShift ≠ 0 then
        .error errInvalidArgs
      else
        .ok ⟨subdevBdev parent blockCount [⟨0, byteSize, geo.eraseShift⟩] (by simp [byteSize]),
          parent, startblock.toNat⟩

/-! ## Calls -/

/-- A call with a range of bytes: `bio_read`, `bio_write`, their asynchronous forms, and
`bio_erase`. -/
inductive ByteCall where
  | read | write | readAsync | writeAsync | erase
  deriving DecidableEq

/-- A call with a range of blocks. -/
inductive BlockCall where
  | readBlock | writeBlock
  deriving DecidableEq

/-- A call on a device, and also the call of a hook that it makes. -/
inductive Request where
  | bytes (call : ByteCall) (offset : ℤ) (len : ℕ)
  | blocks (call : BlockCall) (block count : ℕ)
  deriving DecidableEq

/-- The call of the device's hook, if one is made: the range is trimmed, and nothing is done for
an empty one. -/
def bioRequest (dev : Bdev) : Request → Option Request
  | .bytes call offset len =>
    let len := bioTrimRange dev offset len
    if len = 0 then none else some (.bytes call offset len)
  | .blocks call block count =>
    let count := bioTrimBlockRange dev block count
    if count = 0 then none else some (.blocks call block count)

variable (sub : Subdev)

/-- The hooks `subdev_read`, `subdev_read_block` and so on: the call on the parent. -/
def subdevRequest : Request → Request
  | .bytes call offset len => .bytes call (toOff (offset + sub.offset * sub.dev.blockSize)) len
  | .blocks call block count => .blocks call ((block + sub.offset) % 2 ^ 32) count

/-- The call of a hook of the parent that a call on a subdevice leads to. -/
def Subdev.reach (request : Request) : Option Request :=
  (bioRequest sub.dev request).bind fun request => bioRequest sub.parent (subdevRequest sub request)

/-- Which byte hooks of a device are those of `bio_initialize_bdev`. The asynchronous ones are
never: without a hook of the driver the call is refused. -/
structure DefaultHooks where
  read : Bool
  write : Bool
  erase : Bool

/-- The ranges of bytes that the hooks of a device go to for a call of one of them.
`bio_default_erase` calls `bio_write` for one block after the other. -/
def Request.Ranges (dev : Bdev) (hooks : DefaultHooks) (start : ℤ) (size : ℕ) : Request → Prop
  | .bytes .read offset len => start = hookOffset hooks.read offset ∧ size = len
  | .bytes .write offset len => start = hookOffset hooks.write offset ∧ size = len
  | .bytes .erase offset len =>
    if hooks.erase then
      ∃ k : ℕ, k * dev.blockSize < len ∧
        start = hookOffset hooks.write (offset + k * dev.blockSize) ∧
        size = bioTrimRange dev (offset + k * dev.blockSize)
          (min dev.blockSize (len - k * dev.blockSize))
    else start = offset ∧ size = len
  | .bytes .readAsync offset len | .bytes .writeAsync offset len => start = offset ∧ size = len
  | .blocks _ block count => start = (block * dev.blockSize : ℕ) ∧ size = count * dev.blockSize

/-- `struct mbr_part`, as far as it is looked at. -/
structure MbrPart where
  status : UInt8
  type : UInt8
  lbaStart : UInt32
  lbaLength : UInt32

/-- A little-endian `uint32_t` of a buffer. -/
def u32At (buf : ℕ → UInt8) (pos : ℕ) : UInt32 :=
  UInt32.ofNat (LittleEndian.decode [buf pos, buf (pos + 1), buf (pos + 2), buf (pos + 3)])

/-- An entry of the table at offset 446 of the sector. -/
def mbrPart (buf : ℕ → UInt8) (i : ℕ) : MbrPart :=
  let pos := 446 + 16 * i
  ⟨buf pos, buf (pos + 4), u32At buf (pos + 8), u32At buf (pos + 12)⟩

/-- `validate_mbr_partition`. -/
def validateMbrPartition (dev : Bdev) (part : MbrPart) : Bool :=
  if part.type = 0 then false
  else if part.status ≠ 0x80 ∧ part.status ≠ 0 then false
  else if dev.blockCount ≤ part.lbaStart.toNat then false
  else if dev.blockCount < (part.lbaStart + part.lbaLength).toNat then false
  else true

/-- The subdevices that `partition_publish` publishes from a sector. -/
def partitionPublish (dev : Bdev) (buf : ℕ → UInt8) : List Subdev :=
  if buf 510 ≠ 0x55 ∨ buf 511 ≠ 0xaa then []
  else
    ((range 4).map (mbrPart buf)).filterMap fun part =>
      if validateMbrPartition dev part then
        (bioPublishSubdevice dev part.lbaStart part.lbaLength).toOption
      else none

/-! ## Isolation -/

/-- The subdevice is a range of blocks of its parent. -/
structure Subdev.Inside (sub : Subdev) : Prop where
  shift_eq : sub.dev.blockShift = sub.parent.blockShift
  end_le : sub.offset + sub.dev.blockCount ≤ sub.parent.blockCount

/-- The range of a subdevice is inside an erase region. -/
def Subdev.InRegion (geo : EraseGeometry) : Prop :=
  geo.start ≤ sub.offset * sub.parent.blockSize ∧
    (sub.offset + sub.dev.blockCount) * sub.parent.blockSize ≤ geo.start + geo.size

/-- The range of a subdevice starts and ends at erase units. -/
def Subdev.Aligned (geo : EraseGeometry) : Prop :=
  2 ^ geo.eraseShift ∣ sub.offset * sub.parent.blockSize ∧
    2 ^ geo.eraseShift ∣ sub.dev.blockCount * sub.parent.blockSize

/-- The first byte of the range of a subdevice. -/
def Subdev.first : ℕ := sub.offset * sub.parent.blockSize

/-- The end of the range of a subdevice. -/
def Subdev.stop : ℕ := (sub.offset + sub.dev.blockCount) * sub.parent.blockSize

/-- The byte is in the range of the subdevice. -/
def Subdev.Owns (i : ℤ) : Prop := (sub.first : ℤ) ≤ i ∧ i < sub.stop

variable {sub : Subdev} {parent : Bdev} {request : Request} {geo : EraseGeometry}

theorem Subdev.Inside.block_size_eq (h : sub.Inside) : sub.dev.blockSize = sub.parent.blockSize :=
  congrArg (2 ^ ·) h.shift_eq

theorem Subdev.Inside.stop_eq (h : sub.Inside) : sub.stop = sub.first + sub.dev.totalSize := by
  rw [Subdev.stop, Subdev.first, Bdev.totalSize, h.block_size_eq, Nat.add_mul]

namespace Subdev

variable (sub)

/-- A range of bytes is inside the range of the subdevice. -/
def Holds (start : ℤ) (size : ℕ) : Prop := (sub.first : ℤ) ≤ start ∧ start + size ≤ sub.stop

/-- The number of bytes of a range that are left: those before the end of the subdevice, or all of
them if the end of the range is taken for one before it. -/
def trimmed (offset : ℤ) (len : ℕ) : ℕ :=
  if offset + len < 2 ^ 63 ∨ 2 ^ 64 + (sub.dev.totalSize : ℤ) < offset + len then
    min len (sub.dev.totalSize - offset).toNat
  else len

/-- Where a call on a subdevice goes is inside its range. A range of bytes is looked at as it
arrives at the hooks of the parent; for hooks of its own this is the case if the end of the range is
not taken for one before the subdevice. -/
def Stays (hooks : DefaultHooks) : Request → Prop
  | .bytes call offset len =>
    offset < 0 ∨ (sub.dev.totalSize : ℤ) ≤ offset ∨ len = 0 ∨
      ∀ start size, 0 < size →
        Request.Ranges sub.parent hooks start size
          (.bytes call (offset + sub.first) (sub.trimmed offset len)) → sub.Holds start size
  | .blocks _ block count =>
    sub.dev.blockCount < block ∨ block + count < 2 ^ 32 ∨
      2 ^ 32 + sub.dev.blockCount < block + count

variable {sub} {hooks : DefaultHooks} {call : ByteCall} {offset : ℤ} {len : ℕ}

end Subdev

/-! ## Publication -/

/-- What `bio_publish_subdevice` has checked of a range that it accepts. -/
theorem publish_subdevice_spec {startblock blockCount : UInt32}
    (h : bioPublishSubdevice parent startblock blockCount = .ok sub) :
    sub.parent = parent ∧ sub.dev.blockShift = parent.blockShift ∧
      sub.offset = startblock.toNat ∧ sub.dev.blockCount = blockCount.toNat ∧
      (parent.geometry = [] → sub.offset + sub.dev.blockCount ≤ parent.blockCount) ∧
      (parent.geometry ≠ [] → ∃ geo, searchGeometry (sub.offset * 2 ^ parent.blockShift)
          (sub.dev.blockCount * 2 ^ parent.blockShift) parent.geometry none = some geo ∧
        sub.offset * 2 ^ parent.blockShift % 2 ^ geo.eraseShift = 0 ∧
        sub.dev.blockCount * 2 ^ parent.blockShift % 2 ^ geo.eraseShift = 0) := by
  unfold bioPublishSubdevice at h
  dsimp only at h
  split at h
  · rename_i hnone
    split at h
    · cases h
    rename_i hend
    cases h
    refine ⟨rfl, rfl, rfl, rfl, fun _ => ?_, fun hne => absurd hnone hne⟩
    rw [not_or, UInt32.not_lt, UInt32.le_iff_toNat_le, Nat.not_lt, UInt32.toNat_add] at hend
    have hcount := blockCount.toNat_lt
    show startblock.toNat + blockCount.toNat ≤ parent.blockCount
    omega
  · rename_i hsome
    split at h
    · cases h
    rename_i geo hsearch
    split at h
    · cases h
    · rename_i haligned
      cases h
      refine ⟨rfl, rfl, rfl, rfl, fun hnone => absurd hnone hsome, fun _ => ⟨geo, hsearch, ?_⟩⟩
      exact ⟨by_contra fun hne => haligned (.inl hne), by_contra fun hne => haligned (.inr hne)⟩

/-- Regions are inside the device, and so is what is in a region. -/
theorem Subdev.InRegion.end_le (h : sub.InRegion geo) (hgeo : geo ∈ sub.parent.geometry) :
    sub.offset + sub.dev.blockCount ≤ sub.parent.blockCount :=
  Nat.le_of_mul_le_mul_right (h.2.trans (sub.parent.geometry_in geo hgeo))
    sub.parent.block_size_pos

/-- What `bio_publish_subdevice` is to ensure of the place of a subdevice. -/
structure Subdev.Placed (sub : Subdev) : Prop where
  inside : sub.Inside
  region : sub.parent.geometry ≠ [] →
    ∃ geo ∈ sub.parent.geometry, sub.InRegion geo ∧ sub.Aligned geo

end NusaKernel.Bio
