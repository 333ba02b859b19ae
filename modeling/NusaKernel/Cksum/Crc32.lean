import Mathlib.Logic.Function.Iterate

/-!
# The CRC-32 of `external/lib/cksum/crc32.c`

`crc32` takes the sum so far and continues it over a buffer, byte by byte (`DO1`). Its table is
the one that `make_crc_table` generates.
-/

namespace NusaKernel.Cksum

/-- The polynomial, lowest power in the most significant bit. -/
def poly : UInt32 := 0xedb88320

/-- One bit of `make_crc_table`. -/
def shiftBit (c : UInt32) : UInt32 :=
  if c &&& 1 = 1 then poly ^^^ (c >>> 1) else c >>> 1

/-- `crc_table[0]`. -/
def crcTable (n : UInt8) : UInt32 := shiftBit^[8] n.toUInt32

/-- `DO1`. -/
def do1 (crc : UInt32) (byte : UInt8) : UInt32 :=
  crcTable (crc ^^^ byte.toUInt32).toUInt8 ^^^ (crc >>> 8)

def crc32 (crc : UInt32) (buf : List UInt8) : UInt32 :=
  buf.foldl do1 (crc ^^^ 0xffffffff) ^^^ 0xffffffff

/-- A sum that is continued is the sum of both buffers. -/
theorem crc32_append (crc : UInt32) (first second : List UInt8) :
    crc32 (crc32 crc first) second = crc32 crc (first ++ second) := by
  rw [crc32, crc32, crc32, List.foldl_append, UInt32.xor_assoc, UInt32.xor_self, UInt32.xor_zero]

theorem crc32_nil (crc : UInt32) : crc32 crc [] = crc := by
  show crc ^^^ 0xffffffff ^^^ 0xffffffff = crc
  rw [UInt32.xor_assoc, UInt32.xor_self, UInt32.xor_zero]

/-- The check value of this polynomial: the sum of the digits one to nine. -/
example : crc32 0 [0x31, 0x32, 0x33, 0x34, 0x35, 0x36, 0x37, 0x38, 0x39] = 0xcbf43926 := by
  decide +kernel

end NusaKernel.Cksum
