import NusaKernel.Bio.Bytes
import NusaKernel.Bio.Subdev
import NusaKernel.Ptable.Table

/-!
# The partition table (`lib/ptable/ptable.c`)

The table is kept in memory, sorted by offset, and written to the partition "ptable" of the device
after every change. Every entry is published as a subdevice. Devices are found by name, the first
one of the list of registered devices; a device is a stretch of a medium.

The table also comes from the device, with `ptable_scan`. A read can end before the 32 bytes of an
entry; then the rest of the structure is what was on the stack. `DEBUG_ASSERT` is compiled into no
build. The counts of `bdev_t` are left out.
-/

namespace NusaKernel.Ptable

open List
open NusaKernel.Bio (Bdev Outcome EraseGeometry toOff toU64 bioRead bioWrite bioErase
  bioContainsRange bioDoesOverlap bioPublishSubdevice)
open NusaKernel.Cksum (crc32)

/-- A block device: a stretch of a medium, from the byte `base` on. -/
structure Device where
  name : List UInt8
  bdev : Bdev
  medium : ℕ
  base : ℕ
deriving DecidableEq

/-- The bytes of a device. -/
def Device.view (dev : Device) (media : ℕ → ℕ → UInt8) : ℕ → UInt8 :=
  fun i => media dev.medium (dev.base + i)

/-- The media after the bytes of a device changed. -/
def Device.put (dev : Device) (media : ℕ → ℕ → UInt8) (view : ℕ → UInt8) : ℕ → ℕ → UInt8 :=
  Function.update media dev.medium fun i =>
    if dev.base ≤ i then view (i - dev.base) else media dev.medium i

/-- `struct ptable_state`, the registered devices, and the bytes of the media. -/
structure State where
  registry : List Device
  media : ℕ → ℕ → UInt8
  bdev : Option Device
  gen : ℕ
  list : List Entry

/-- What `ptable_publish` has memory for: the entry and its subdevice, the entry, or nothing. -/
inductive Memory where
  | enough | noSubdevice | noEntry
deriving DecidableEq

/-- How the device behaves in one call, what is on the stack where an entry is read to, and what
there is memory for: the publication of each entry, and the buffer of `ptable_write`. -/
structure Io where
  readHeader : Outcome
  readEntry : ℕ → Outcome
  stack : ℕ → ℕ → UInt8
  erase : Outcome
  write : Outcome
  memory : ℕ → Memory
  buffer : Bool

/-- The device without errors, and memory for everything. -/
def Io.ok (stack : ℕ → ℕ → UInt8) : Io :=
  ⟨.ok, fun _ => .ok, stack, .ok, .ok, fun _ => .enough, true⟩

/-- `bio_open`: the first device with the name. -/
def bioOpen (s : State) (name : List UInt8) : Option Device := s.registry.find? (·.name = name)

/-- `bio_unregister_device` of the device that `bio_open` finds, if it finds one. -/
def unregister (registry : List Device) (name : List UInt8) : List Device :=
  registry.eraseP (·.name = name)

/-- `PTABLE_PART_NAME`. -/
def ptablePartName : List UInt8 := [0x70, 0x74, 0x61, 0x62, 0x6c, 0x65]

/-- `memset` and `strlcpy` of a name that is short enough. -/
def nameField (name : List UInt8) : List UInt8 :=
  name.take 11 ++ replicate (12 - min 11 name.length) 0

theorem length_name_field (name : List UInt8) : (nameField name).length = maxNameLen := by
  simp [nameField, maxNameLen]

/-! ## Entries -/

/-- `validate_entry`. -/
def validateEntry (bdev : Bdev) (entry : Entry) : Bool :=
  let entryEnd := (entry.offset + entry.length) % 2 ^ 64
  let i := entry.partName.length
  ¬ entryEnd < entry.offset ∧ entryEnd ≤ bdev.totalSize ∧ i ≠ 0 ∧ i < maxNameLen

/-- `ptable_find`. -/
def ptableFind (list : List Entry) (name : List UInt8) : Option Entry :=
  list.find? (·.partName = name)

/-- `ptable_push_entry`. -/
def ptablePushEntry (entry : Entry) : List Entry → List Entry
  | [] => [entry]
  | it :: rest =>
    if entry.offset < it.offset then entry :: it :: rest else it :: ptablePushEntry entry rest

/-- `bio_publish_subdevice` for an entry of a table on a device with this block size: the device
that is registered. -/
def partDevice (parent : Device) (blockSize : ℕ) (entry : Entry) : Except Status Device :=
  (bioPublishSubdevice parent.bdev (UInt32.ofNat (entry.offset / blockSize))
    (UInt32.ofNat (entry.length / blockSize))).map fun sub =>
      ⟨entry.partName, sub.dev, parent.medium, parent.base + sub.offset * parent.bdev.blockSize⟩

variable (memory : Memory)

/-- `bio_publish_subdevice` for an entry, with the parent found by its name. -/
def publishPart (s : State) (dev : Device) (entry : Entry) : Except Status Device :=
  match bioOpen s dev.name with
  | none => .error errNotFound
  | some parent =>
    if memory = .enough then partDevice parent dev.bdev.blockSize entry else .error errNoMemory

/-- `ptable_publish`. A failed publication unregisters the device with the name of the entry. -/
def ptablePublish (s : State) (dev : Device) (entry : Entry) : Status × State :=
  let entryEnd := (entry.offset + entry.length) % 2 ^ 64
  if ¬ validateEntry dev.bdev entry then (errNotFound, s)
  else if (ptableFind s.list entry.partName).isSome then (errAlreadyExists, s)
  else if entry.offset % dev.bdev.blockSize ≠ 0 ∨ entry.length % dev.bdev.blockSize ≠ 0 then
    (errBadState, s)
  else if entryEnd ≤ entry.offset then (errInvalidArgs, s)
  else if dev.bdev.totalSize < entryEnd then (errInvalidArgs, s)
  else if memory = .noEntry then (errNoMemory, s)
  else
    match publishPart memory s dev entry with
    | .error err => (err, { s with registry := unregister s.registry entry.partName })
    | .ok part =>
      (noError, { s with
        registry := s.registry ++ [part]
        list := ptablePushEntry entry s.list })

/-- `ptable_unpublish` of an entry of the list. -/
def ptableUnpublish (s : State) (entry : Entry) : State :=
  { s with registry := unregister s.registry entry.partName, list := s.list.erase entry }

/-- `ptable_reset`. -/
def ptableReset (s : State) : State :=
  { s with
    registry := s.list.foldl (fun registry entry => unregister registry entry.partName) s.registry
    bdev := none
    gen := 0
    list := [] }

/-! ## Writing -/

variable (io : Io)

/-- The erase of `ptable_write`: the result and the bytes of the device. -/
def eraseTable (dev : Device) (view : ℕ → UInt8) : Status × (ℕ → UInt8) :=
  if dev.bdev.geometry = [] then ((dev.bdev.totalSize : ℤ), view)
  else bioErase dev.bdev view io.erase 0 dev.bdev.totalSize

/-- The write of `ptable_write`. -/
def storeTable (dev : Device) (view : ℕ → UInt8) (buf : List UInt8) : Status × (ℕ → UInt8) :=
  let written := bioWrite dev.bdev view io.write buf 0
  if written.1 < buf.length then (errIo, written.2) else (noError, written.2)

/-- The erase and the write of `ptable_write`. -/
def writeTable (dev : Device) (view : ℕ → UInt8) (buf : List UInt8) : Status × (ℕ → UInt8) :=
  let erased := eraseTable io dev view
  if erased.1 ≠ dev.bdev.totalSize then (errIo, erased.2) else storeTable io dev erased.2 buf

variable (s : State)

/-- `ptable_write`. -/
def ptableWrite : Status × State :=
  match s.bdev, bioOpen s ptablePartName with
  | none, _ => (errNotMounted, s)
  | _, none => (errBadState, s)
  | _, some dev =>
    if dev.bdev.totalSize < ptableLength s.list.length then (errTooBig, s)
    else if !io.buffer then (errNoMemory, s)
    else
      let result := writeTable io dev (dev.view s.media) (tableBytes s.gen s.list)
      (result.1, { s with gen := (s.gen + 1) % 2 ^ 32, media := dev.put s.media result.2 })

/-! ## Allocation -/

/-- `(value + mask) & ~mask` for the mask of a power of two, in 64 bits. -/
def roundUp (value shift : ℕ) : ℕ := (value + (2 ^ shift - 1)) % 2 ^ 64 / 2 ^ shift * 2 ^ shift

/-- One round of the loop over the erase regions in `ptable_adjust_request_for_erase_geometry`. -/
def fitRegion (regionStart regionLen length : ℕ) (allocEnd : Bool) (geo : EraseGeometry) :
    Option (ℕ × ℕ) :=
  if ¬ bioDoesOverlap regionStart regionLen geo.start geo.size then none
  else
    let regionEnd := (regionStart + regionLen) % 2 ^ 64
    let eraseEnd := (geo.start + geo.size) % 2 ^ 64
    let rstart := roundUp (max regionStart geo.start) geo.eraseShift
    let rend := min regionEnd eraseEnd / 2 ^ geo.eraseShift * 2 ^ geo.eraseShift
    let length := roundUp length geo.eraseShift
    let tmp := (rstart + length) % 2 ^ 64
    if tmp < rstart ∨ rend < tmp then none
    else some (if allocEnd then rend - length else rstart, length)

/-- `ptable_adjust_request_for_erase_geometry`: the offset or an error, and the length. -/
def ptableAdjustRequest (bdev : Bdev) (regionStart regionLen length : ℕ) (allocEnd : Bool) :
    ℤ × ℕ :=
  if regionLen < length then (errTooBig, length)
  else if bdev.geometry = [] then
    (toOff (if allocEnd then regionStart + regionLen - length else regionStart : ℕ), length)
  else
    let regions := if allocEnd then bdev.geometry.reverse else bdev.geometry
    match regions.findSome? (fitRegion regionStart regionLen length allocEnd) with
    | none => (errInvalidArgs, length)
    | some (offset, length) => (toOff offset, length)

/-- The region between two entries, or before the first one. -/
def gapStart (last : Option Entry) : ℕ :=
  match last with
  | none => 0
  | some entry => (entry.offset + entry.length) % 2 ^ 64

/-- The test of one region in `ptable_allocate`: the best answer after it, and whether this one is
an answer. -/
def testRegion (bdev : Bdev) (allocEnd : Bool) (regionStart regionLen : ℕ) (best : ℤ × ℕ) :
    (ℤ × ℕ) × Bool :=
  if regionLen = 0 then (best, false)
  else
    let test := ptableAdjustRequest bdev regionStart regionLen best.2 allocEnd
    if test.1 < 0 then (best, false) else (test, true)

/-- The search of `ptable_allocate` from an entry on. -/
def allocateFrom (bdev : Bdev) (allocEnd : Bool) : Option Entry → ℤ × ℕ → List Entry → ℤ × ℕ
  | last, best, [] =>
    let regionStart := gapStart last
    (testRegion bdev allocEnd regionStart (toU64 (bdev.totalSize - regionStart)) best).1
  | last, best, entry :: rest =>
    let regionStart := gapStart last
    let test := testRegion bdev allocEnd regionStart (toU64 (entry.offset - regionStart)) best
    if test.2 ∧ ¬ allocEnd then test.1 else allocateFrom bdev allocEnd (some entry) test.1 rest

/-- `ptable_allocate`: the offset or an error, and the length. -/
def ptableAllocate (list : List Entry) (bdev : Bdev) (length : ℕ) (allocEnd : Bool) : ℤ × ℕ :=
  let length := roundUp length bdev.blockShift
  if list = [] then ptableAdjustRequest bdev 0 bdev.totalSize length allocEnd
  else allocateFrom bdev allocEnd none (errNotFound, length) list

/-- `ptable_allocate_at`: the status, and the length. -/
def ptableAllocateAt (list : List Entry) (bdev : Bdev) (offset : ℤ) (length : ℕ) : Status × ℕ :=
  if offset < 0 then (errInvalidArgs, length)
  else if offset.toNat % bdev.blockSize ≠ 0 then (errInvalidArgs, length)
  else
    let length := roundUp length bdev.blockShift
    if ¬ bioContainsRange 0 bdev.totalSize offset.toNat length then (errInvalidArgs, length)
    else
      let test :=
        ptableAdjustRequest bdev offset.toNat (toU64 (bdev.totalSize - offset)) length false
      if toU64 test.1 ≠ offset.toNat then (errInvalidArgs, test.2)
      else if list.any fun entry =>
          bioDoesOverlap offset.toNat test.2 entry.offset entry.length then
        (errNotFound, test.2)
      else (noError, test.2)

/-! ## The interface -/

/-- A new entry with a name and a range. -/
def newEntry (name : List UInt8) (offset length : ℕ) : Entry :=
  ⟨offset % 2 ^ 64, length % 2 ^ 64, 0, nameField name, Nat.mod_lt _ (by decide),
    Nat.mod_lt _ (by decide), by decide, length_name_field name⟩

/-- A call that ends with an error resets the table. -/
def orReset (result : Status × State) : Status × State :=
  if result.1 < 0 then (result.1, ptableReset result.2) else result

/-- What `ptable_create_default` and `ptable_add` do with the answer of the allocator: unless it is
an error, the new entry is published and the table written. -/
def commitEntry (dev : Device) (place : ℤ × ℕ) (name : List UInt8) (offset : ℕ) : Status × State :=
  if place.1 < 0 then (place.1, s)
  else
    let published := ptablePublish (io.memory 0) s dev (newEntry name offset place.2)
    if published.1 < 0 then published else ptableWrite io published.2

/-- `ptable_create_default` with the device open. -/
def createOn (dev : Device) (offset : ℕ) : Status × State :=
  commitEntry io s dev (ptableAllocateAt s.list dev.bdev (toOff offset) (ptableLength 16))
    ptablePartName offset

/-- `ptable_create_default`. -/
def ptableCreateDefault (bdevName : List UInt8) (offset : ℕ) : Status × State :=
  let s := ptableReset s
  match bioOpen s bdevName with
  | none => (errNotFound, s)
  | some dev => orReset (createOn io { s with bdev := some dev } dev offset)

/-- `ptable_remove`. -/
def ptableRemove (name : List UInt8) : Status × State :=
  match s.bdev with
  | none => (errNotMounted, s)
  | some _ =>
    if name = ptablePartName then (errNotAllowed, s)
    else
      match ptableFind s.list name with
      | none => (errNotFound, s)
      | some entry => ptableWrite io (ptableUnpublish s entry)

/-- `FLASH_PTABLE_ALLOC_END`. -/
def allocEndFlag (flags : ℕ) : Bool := flags % 2 ≠ 0

/-- `ptable_add`. -/
def ptableAdd (name : List UInt8) (minLen flags : ℕ) : Status × State :=
  match s.bdev with
  | none => (errNotMounted, s)
  | some dev =>
    if 11 < name.length then (errInvalidArgs, s)
    else
      let place := ptableAllocate s.list dev.bdev minLen (allocEndFlag flags)
      commitEntry io s dev place name place.1.toNat

/-- A string without its final zero. -/
def CString := { bytes : List UInt8 // 0 ∉ bytes }

/-- The calls that change the table, each with what the device does. -/
inductive Change where
  | createDefault (io : Io) (bdevName : CString) (offset : UInt64)
  | add (io : Io) (name : CString) (minLen : UInt64) (flags : UInt32)
  | remove (io : Io) (name : CString)

/-- The result of a call. -/
def State.change : Change → Status × State
  | .createDefault io bdevName offset => ptableCreateDefault io s bdevName.1 offset.toNat
  | .add io name minLen flags => ptableAdd io s name.1 minLen.toNat flags.toNat
  | .remove io name => ptableRemove io s name.1

/-! ## Scanning -/

/-- The read of an entry: the result, and the bytes of the structure after it. -/
def readEntry (io : Io) (dev : Device) (media : ℕ → ℕ → UInt8) (offset i : ℕ) :
    Status × List UInt8 :=
  bioRead dev.bdev (dev.view media) (io.readEntry i) (Ring.block (io.stack i) 0 32)
    (toOff (offset + 16 + 32 * i : ℕ))

/-- One round of the loop of `ptable_scan` over the entries: the result, the checksum so far and
whether the entry "ptable" was seen. -/
def scanEntry (dev : Device) (offset i : ℕ) (s : State) (crc : UInt32) (found : Bool) :
    Status × State × UInt32 × Bool :=
  let read := readEntry io dev s.media offset i
  if read.1 < 0 then (read.1, s, crc, found)
  else
    let entry := Entry.ofBytes read.2
    let published := ptablePublish (io.memory i) s dev entry
    if published.1 < 0 then (published.1, published.2, crc, found)
    else if entry.partName = ptablePartName ∧ entry.offset ≠ offset then
      (errBadState, published.2, crc, true)
    else
      (noError, published.2, crc32 crc read.2, found || entry.partName = ptablePartName)

/-- The loop of `ptable_scan` from the `i`-th entry on. -/
def scanEntries (io : Io) (dev : Device) (offset : ℕ) :
    ℕ → ℕ → State → UInt32 → Bool → Status × State × UInt32 × Bool
  | 0, _, s, crc, found => (noError, s, crc, found)
  | count + 1, i, s, crc, found =>
    let result := scanEntry io dev offset i s crc found
    if result.1 < 0 then result
    else scanEntries io dev offset count (i + 1) result.2.1 result.2.2.1 result.2.2.2

/-- `ptable_scan` with the device open, from the header on. -/
def scanTable (dev : Device) (offset : ℕ) (header : Header) : Status × State :=
  if header.magic ≠ magic then (errNotFound, s)
  else if header.totalLength < 16 then (errNotFound, s)
  else if dev.bdev.blockSize < header.totalLength then (errNotFound, s)
  else if (header.totalLength - 16) % 32 ≠ 0 then (errNotFound, s)
  else
    let crc := crc32 0 (Header.bytes { header with crc32 := 0 })
    let result := scanEntries io dev offset ((header.totalLength - 16) / 32) 0 s crc false
    if result.1 < 0 then (result.1, result.2.1)
    else if header.crc32 ≠ result.2.2.1.toNat then (errCrcFail, result.2.1)
    else if ¬ result.2.2.2 then (errNotFound, result.2.1)
    else (noError, result.2.1)

/-- `ptable_scan` with the device open. A read that ends before the header does is returned as it
is, also when it is no error. -/
def scanOn (dev : Device) (offset : ℕ) : Status × State :=
  let read := bioRead dev.bdev (dev.view s.media) io.readHeader (replicate 16 0) (toOff offset)
  if read.1 < 16 then (read.1, s) else scanTable io s dev offset (Header.ofBytes read.2)

/-- `ptable_scan`. -/
def ptableScan (bdevName : List UInt8) (offset : ℕ) : Status × State :=
  let s := ptableReset s
  match bioOpen s bdevName with
  | none => (errNotFound, s)
  | some dev => orReset (scanOn io { s with bdev := some dev } dev offset)

/-! ## What publication checks -/

variable {s s' : State} {dev : Device} {entry : Entry} {list : List Entry} {memory : Memory}

/-- The range and the name of an entry are right for a device. -/
structure Fits (bdev : Bdev) (entry : Entry) : Prop where
  end_le : entry.offset + entry.length ≤ bdev.totalSize
  length_pos : 0 < entry.length
  offset_aligned : entry.offset % bdev.blockSize = 0
  length_aligned : entry.length % bdev.blockSize = 0
  name_pos : entry.partName.length ≠ 0
  name_lt : entry.partName.length < maxNameLen

/-- A failed publication of a subdevice returns an error. -/
theorem publish_part_error {err : Status} (h : publishPart memory s dev entry = .error err) :
    err < 0 := by
  unfold publishPart at h
  split at h
  · cases h
    decide
  split at h
  rotate_left
  · cases h
    decide
  unfold partDevice bioPublishSubdevice at h
  dsimp only at h
  split at h
  · split at h
    · cases h
      decide
    · cases h
  split at h
  · cases h
    decide
  · split at h
    · cases h
      decide
    · cases h

/-- `ptable_publish` either accepts the entry, which fits then, or changes no more than the list of
registered devices, by a device with the name of the entry. -/
theorem ptable_publish_spec (memory : Memory) (s : State) (dev : Device) (entry : Entry) :
    (∃ err registry, err < 0 ∧
      ptablePublish memory s dev entry = (err, { s with registry := registry }) ∧
      (registry = s.registry ∨ registry = unregister s.registry entry.partName ∧
        ptableFind s.list entry.partName = none)) ∨
      ∃ part, publishPart memory s dev entry = .ok part ∧ Fits dev.bdev entry ∧
        ptableFind s.list entry.partName = none ∧
        ptablePublish memory s dev entry = (noError, { s with
          registry := s.registry ++ [part]
          list := ptablePushEntry entry s.list }) := by
  unfold ptablePublish
  dsimp only
  split
  · exact .inl ⟨errNotFound, s.registry, by decide, rfl, .inl rfl⟩
  next hvalid =>
  split
  · exact .inl ⟨errAlreadyExists, s.registry, by decide, rfl, .inl rfl⟩
  next hfind =>
  split
  · exact .inl ⟨errBadState, s.registry, by decide, rfl, .inl rfl⟩
  next haligned =>
  split
  · exact .inl ⟨errInvalidArgs, s.registry, by decide, rfl, .inl rfl⟩
  next hpos =>
  split
  · exact .inl ⟨errInvalidArgs, s.registry, by decide, rfl, .inl rfl⟩
  next hend =>
  split
  · exact .inl ⟨errNoMemory, s.registry, by decide, rfl, .inl rfl⟩
  have hnone : ptableFind s.list entry.partName = none := by simpa using hfind
  cases hpart : publishPart memory s dev entry with
  | error err => exact .inl ⟨err, _, publish_part_error hpart, rfl, .inr ⟨rfl, hnone⟩⟩
  | ok part =>
    refine .inr ⟨part, rfl, ?_, hnone, rfl⟩
    have hlength := entry.length_lt
    simp only [validateEntry, not_not, decide_eq_true_eq] at hvalid
    obtain ⟨hwrap, hle, hname, hshort⟩ := hvalid
    simp only [not_or, not_not] at haligned
    exact ⟨by omega, by omega, haligned.1, haligned.2, hname, hshort⟩

/-- An entry that fits, and whose name is new, is accepted if its subdevice is. -/
theorem ptable_publish_of_fits (hfits : Fits dev.bdev entry)
    (hfind : ptableFind s.list entry.partName = none) {part : Device}
    (hpart : publishPart memory s dev entry = .ok part) :
    ptablePublish memory s dev entry = (noError, { s with
      registry := s.registry ++ [part]
      list := ptablePushEntry entry s.list }) := by
  have htotal := dev.bdev.total_size_lt
  have hend := hfits.end_le
  have hpos := hfits.length_pos
  have hwrap : (entry.offset + entry.length) % 2 ^ 64 = entry.offset + entry.length :=
    Nat.mod_eq_of_lt (by omega)
  have hvalid : validateEntry dev.bdev entry = true := by
    unfold validateEntry
    rw [hwrap]
    exact decide_eq_true ⟨by omega, hend, hfits.name_pos, hfits.name_lt⟩
  have hmemory : memory ≠ .noEntry := by
    rintro rfl
    unfold publishPart at hpart
    split at hpart
    · cases hpart
    · cases hpart
  unfold ptablePublish
  rw [hwrap, if_neg (not_not.mpr hvalid), hfind, if_neg (by simp),
    if_neg (by simp [hfits.offset_aligned, hfits.length_aligned]), if_neg (by omega),
    if_neg (by omega), if_neg hmemory, hpart]

/-- The subdevice of an entry that fits is the range of the entry. -/
theorem part_device_range (hfits : Fits dev.bdev entry) {part : Device}
    (h : partDevice dev dev.bdev.blockSize entry = .ok part) :
    ∃ sub, bioPublishSubdevice dev.bdev (UInt32.ofNat (entry.offset / dev.bdev.blockSize))
        (UInt32.ofNat (entry.length / dev.bdev.blockSize)) = .ok sub ∧
      sub.offset * dev.bdev.blockSize = entry.offset ∧
      sub.dev.blockCount * dev.bdev.blockSize = entry.length ∧
      part = ⟨entry.partName, sub.dev, dev.medium, dev.base + entry.offset⟩ := by
  unfold partDevice at h
  cases hsub : bioPublishSubdevice dev.bdev (UInt32.ofNat (entry.offset / dev.bdev.blockSize))
      (UInt32.ofNat (entry.length / dev.bdev.blockSize)) with
  | error err =>
    rw [hsub] at h
    cases h
  | ok sub =>
    rw [hsub] at h
    cases h
    obtain ⟨-, -, hoffset, hcount, -⟩ := Bio.publish_subdevice_spec hsub
    have hblocks := dev.bdev.count_lt
    have hend := hfits.end_le
    have hdiv : ∀ {x : ℕ}, x ≤ dev.bdev.totalSize → x / dev.bdev.blockSize < 2 ^ 32 := by
      intro x hx
      refine lt_of_le_of_lt (Nat.div_le_of_le_mul ?_) hblocks
      rw [Nat.mul_comm]
      exact hx
    have hstart : sub.offset * dev.bdev.blockSize = entry.offset := by
      rw [hoffset, UInt32.toNat_ofNat_of_lt' (hdiv (by omega)),
        Nat.div_mul_cancel (Nat.dvd_of_mod_eq_zero hfits.offset_aligned)]
    refine ⟨sub, rfl, hstart, ?_, ?_⟩
    · rw [hcount, UInt32.toNat_ofNat_of_lt' (hdiv (by omega)),
        Nat.div_mul_cancel (Nat.dvd_of_mod_eq_zero hfits.length_aligned)]
    · dsimp only
      rw [hstart]

/-! ## The list -/

theorem push_entry_perm (entry : Entry) (list : List Entry) :
    (ptablePushEntry entry list).Perm (entry :: list) := by
  induction list with
  | nil => exact .refl _
  | cons it rest ih =>
    rw [ptablePushEntry]
    split
    · exact .refl _
    · exact (ih.cons it).trans (.swap entry it rest)

/-- The list is sorted by offset. -/
def SortedByOffset (list : List Entry) : Prop := list.Pairwise fun a b => a.offset ≤ b.offset

theorem SortedByOffset.push_entry (h : SortedByOffset list) (entry : Entry) :
    SortedByOffset (ptablePushEntry entry list) := by
  induction list with
  | nil => exact pairwise_singleton ..
  | cons it rest ih =>
    obtain ⟨hfirst, hrest⟩ := pairwise_cons.mp h
    rw [ptablePushEntry]
    split
    · next hlt =>
      exact pairwise_cons.mpr
        ⟨forall_mem_cons.mpr ⟨hlt.le, fun x hx => hlt.le.trans (hfirst x hx)⟩, h⟩
    next hge =>
    refine pairwise_cons.mpr ⟨fun x hx => ?_, ih hrest⟩
    rcases mem_cons.mp ((push_entry_perm entry rest).mem_iff.mp hx) with rfl | hmem
    · exact Nat.not_lt.mp hge
    · exact hfirst x hmem

theorem push_entry_last (h : ∀ x ∈ list, x.offset ≤ entry.offset) :
    ptablePushEntry entry list = list ++ [entry] := by
  induction list with
  | nil => rfl
  | cons it rest ih =>
    have hit := h it mem_cons_self
    rw [ptablePushEntry, if_neg (by omega), ih (forall_mem_cons.mp h).2]
    rfl

end NusaKernel.Ptable
