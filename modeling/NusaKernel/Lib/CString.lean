import Mathlib.Data.List.TakeWhile

/-!
# C strings

A string is the list of its bytes before the zero that ends it, so none of them is zero.
-/

/-- A C string, without the zero that ends it. -/
@[ext] structure CString where
  bytes : List UInt8
  nonzero : ∀ byte ∈ bytes, byte ≠ 0
deriving DecidableEq

namespace CString

open List

/-- Look at the bytes of the list, not at all bytes. -/
instance (priority := 2000) (bytes : List UInt8) : Decidable (∀ byte ∈ bytes, byte ≠ 0) :=
  decidableBAll _ bytes

/-- The string at the start of a buffer that a zero follows. -/
def ofBuffer (buf : List UInt8) : CString where
  bytes := buf.takeWhile (· ≠ 0)
  nonzero byte hbyte := by simpa using mem_takeWhile_imp hbyte

def strlen (name : CString) : ℕ := name.bytes.length

/-- The string behind the leading bytes that are equal to a given one. -/
def skip (name : CString) (byte : UInt8) : CString where
  bytes := name.bytes.dropWhile (· = byte)
  nonzero b hb := name.nonzero b ((dropWhile_sublist _).subset hb)

/-- A string that fills the buffer is the string of the buffer. -/
theorem of_buffer_bytes (name : CString) : ofBuffer name.bytes = name := by
  refine CString.ext ?_
  exact takeWhile_eq_self_iff.mpr fun byte hbyte => by simpa using name.nonzero byte hbyte

/-- Zeros behind a string are not part of it. -/
theorem of_buffer_append_zeros (name : CString) (n : ℕ) :
    ofBuffer (name.bytes ++ replicate n 0) = name := by
  refine CString.ext ?_
  have hall : ∀ byte ∈ name.bytes, decide (byte ≠ 0) = true :=
    fun byte hbyte => by simpa using name.nonzero byte hbyte
  show (name.bytes ++ replicate n 0).takeWhile (· ≠ 0) = name.bytes
  rw [takeWhile_append_of_pos hall]
  cases n with
  | zero => exact append_nil _
  | succ n => simp [replicate_succ]

end CString
