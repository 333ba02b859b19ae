import NusaKernel.Cksum.Crc32
import NusaKernel.Lib.LittleEndian

/-!
# The partition table on a device (`lib/ptable/ptable.c`)

A header of 16 bytes and entries of 32 bytes, little-endian. The checksum of the header is the
CRC-32 of the header with a zero in its place, continued over the entries.
-/

namespace NusaKernel.Ptable

open LittleEndian
open NusaKernel.Cksum (crc32)

/-- `MAX_FLASH_PTABLE_NAME_LEN`. -/
def maxNameLen : ℕ := 12

/-- `struct ptable_entry`. -/
@[ext]
structure Entry where
  offset : ℕ
  length : ℕ
  flags : ℕ
  name : List UInt8
  offset_lt : offset < 2 ^ 64
  length_lt : length < 2 ^ 64
  flags_lt : flags < 2 ^ 32
  name_length : name.length = maxNameLen

/-- Entries are compared by their fields. -/
instance : DecidableEq Entry := fun _ _ => decidable_of_iff _ Entry.ext_iff.symm

/-- The name as a C string. -/
def Entry.partName (entry : Entry) : List UInt8 := entry.name.takeWhile (· ≠ 0)

/-- The bytes of an entry. -/
def Entry.bytes (entry : Entry) : List UInt8 :=
  encode 8 entry.offset ++ (encode 8 entry.length ++ (encode 4 entry.flags ++ entry.name))

@[simp] theorem Entry.length_bytes (entry : Entry) : entry.bytes.length = 32 := by
  simp [Entry.bytes, entry.name_length, maxNameLen]

/-- The entry that is in 32 bytes. -/
def Entry.ofBytes (bytes : List UInt8) : Entry where
  offset := decode (field bytes 0 8)
  length := decode (field bytes 8 8)
  flags := decode (field bytes 16 4)
  name := field bytes 20 maxNameLen
  offset_lt := decode_field_lt bytes 0 8
  length_lt := decode_field_lt bytes 8 8
  flags_lt := decode_field_lt bytes 16 4
  name_length := length_field ..

/-- What is written is read back. -/
@[simp] theorem Entry.of_bytes_bytes (entry : Entry) : Entry.ofBytes entry.bytes = entry := by
  have hoffset : field entry.bytes 0 8 = encode 8 entry.offset := field_head (length_encode ..) _
  have hlength : field entry.bytes 8 8 = encode 8 entry.length := by
    rw [Entry.bytes, field_tail _ _ _ (by simp), length_encode]
    exact field_head (length_encode ..) _
  have hflags : field entry.bytes 16 4 = encode 4 entry.flags := by
    rw [Entry.bytes, field_tail _ _ _ (by simp), field_tail _ _ _ (by simp), length_encode,
      length_encode]
    exact field_head (length_encode ..) _
  have hname : field entry.bytes 20 maxNameLen = entry.name := by
    exact field_all entry.name_length
  refine Entry.ext ?_ ?_ ?_ hname
  · exact (congrArg decode hoffset).trans (decode_encode entry.offset_lt)
  · exact (congrArg decode hlength).trans (decode_encode entry.length_lt)
  · exact (congrArg decode hflags).trans (decode_encode entry.flags_lt)

/-- `PTABLE_MAGIC`, the character constant `'1BTP'`. -/
def magic : ℕ := 0x31425450

/-- `struct ptable_header`. -/
structure Header where
  magic : ℕ
  crc32 : ℕ
  generation : ℕ
  totalLength : ℕ

/-- The bytes of a header; what does not fit a field is cut off. -/
def Header.bytes (header : Header) : List UInt8 :=
  encode 4 header.magic ++ (encode 4 header.crc32 ++
    (encode 4 header.generation ++ encode 4 header.totalLength))

@[simp] theorem Header.length_bytes (header : Header) : header.bytes.length = 16 := by
  simp [Header.bytes]

/-- The header that is in 16 bytes. -/
def Header.ofBytes (bytes : List UInt8) : Header :=
  ⟨decode (field bytes 0 4), decode (field bytes 4 4), decode (field bytes 8 4),
    decode (field bytes 12 4)⟩

/-- A header is read back modulo the size of its fields. -/
theorem Header.of_bytes_bytes (header : Header) :
    Header.ofBytes header.bytes = ⟨header.magic % 2 ^ 32, header.crc32 % 2 ^ 32,
      header.generation % 2 ^ 32, header.totalLength % 2 ^ 32⟩ := by
  have hmagic : field header.bytes 0 4 = encode 4 header.magic := field_head (length_encode ..) _
  have hcrc : field header.bytes 4 4 = encode 4 header.crc32 := by
    rw [Header.bytes, field_tail _ _ _ (by simp), length_encode]
    exact field_head (length_encode ..) _
  have hgen : field header.bytes 8 4 = encode 4 header.generation := by
    rw [Header.bytes, field_tail _ _ _ (by simp), field_tail _ _ _ (by simp), length_encode,
      length_encode]
    exact field_head (length_encode ..) _
  have htotal : field header.bytes 12 4 = encode 4 header.totalLength := by
    rw [Header.bytes, field_tail _ _ _ (by simp),
      field_tail _ _ _ (by simp), field_tail _ _ _ (by simp),
      length_encode, length_encode, length_encode]
    exact field_all (length_encode ..)
  unfold Header.ofBytes
  rw [hmagic, hcrc, hgen, htotal, decode_encode_mod, decode_encode_mod,
    decode_encode_mod, decode_encode_mod,
    show (256 : ℕ) ^ 4 = 2 ^ 32 from rfl]

/-- `ptable_length`. -/
def ptableLength (entryCnt : ℕ) : ℕ := 16 + 32 * entryCnt

/-- The checksum of a table, from that of its header. -/
def entriesCrc (crc : UInt32) (entries : List Entry) : UInt32 :=
  entries.foldl (fun crc entry => crc32 crc entry.bytes) crc

/-- The header that `ptable_write` fills in. -/
def tableHeader (generation : ℕ) (entries : List Entry) : Header :=
  let totalLength := ptableLength entries.length
  let crc := entriesCrc (crc32 0 (Header.bytes ⟨magic, 0, generation, totalLength⟩)) entries
  ⟨magic, crc.toNat, generation, totalLength⟩

/-- The buffer that `ptable_write` fills. -/
def tableBytes (generation : ℕ) (entries : List Entry) : List UInt8 :=
  (tableHeader generation entries).bytes ++ entries.flatMap Entry.bytes

theorem length_entries_bytes (entries : List Entry) :
    (entries.flatMap Entry.bytes).length = 32 * entries.length := by
  induction entries with
  | nil => rfl
  | cons entry rest ih =>
    rw [List.flatMap_cons, List.length_append, ih, Entry.length_bytes, List.length_cons]
    omega

@[simp] theorem length_table_bytes (generation : ℕ) (entries : List Entry) :
    (tableBytes generation entries).length = ptableLength entries.length := by
  rw [tableBytes, List.length_append, Header.length_bytes, length_entries_bytes, ptableLength]

end NusaKernel.Ptable
