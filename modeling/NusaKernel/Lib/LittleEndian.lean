import Mathlib.Data.Nat.Basic
import Mathlib.Tactic.Ring
import NusaKernel.Lib.Segment

/-!
# Little-endian integers and structures of them

`encode width value` are the bytes of an unsigned integer of `width` bytes, least significant
first, and `decode` reads such bytes. The bytes of a structure are those of its fields, one after
the other; `field bytes start width` takes one out, with zeros where there are no bytes.
-/

namespace LittleEndian

open List Ring Segment

/-- The bytes of an integer, least significant first; what does not fit is cut off. -/
def encode : ℕ → ℕ → List UInt8
  | 0, _ => []
  | width + 1, value => UInt8.ofNat value :: encode width (value / 256)

/-- The integer whose bytes are listed least significant first. -/
def decode : List UInt8 → ℕ
  | [] => 0
  | byte :: rest => byte.toNat + 256 * decode rest

@[simp] theorem length_encode (width value : ℕ) : (encode width value).length = width := by
  induction width generalizing value with
  | zero => rfl
  | succ width ih => rw [encode, length_cons, ih]

/-- Reading back gives the value modulo the range of the integer type. -/
theorem decode_encode_mod (width value : ℕ) :
    decode (encode width value) = value % 256 ^ width := by
  induction width generalizing value with
  | zero => rw [encode, decode, pow_zero, Nat.mod_one]
  | succ width ih =>
    have hbyte : (UInt8.ofNat value).toNat = value % 256 := UInt8.toNat_ofNat'
    rw [encode, decode, ih, hbyte, pow_succ', Nat.mod_mul]

variable {width : ℕ}

theorem decode_encode {value : ℕ} (h : value < 256 ^ width) :
    decode (encode width value) = value := by
  rw [decode_encode_mod, Nat.mod_eq_of_lt h]

variable (bytes : List UInt8) {value : List UInt8}

theorem decode_lt : decode bytes < 256 ^ bytes.length := by
  induction bytes with
  | nil => exact Nat.one_pos
  | cons byte rest ih =>
    have hbyte : byte.toNat < 256 := byte.toNat_lt
    rw [decode, length_cons, pow_succ]
    omega

/-! ## Fields -/

/-- The bytes of a field. -/
def field (start width : ℕ) : List UInt8 := block (fun i => bytes.getD i 0) start width

@[simp] theorem length_field (start width : ℕ) : (field bytes start width).length = width :=
  length_block

theorem decode_field_lt (start width : ℕ) : decode (field bytes start width) < 256 ^ width := by
  have hlt := decode_lt (field bytes start width)
  rwa [length_field] at hlt

/-- A field of what a stretch of an array holds. -/
theorem field_block {cells : ℕ → UInt8} {place count start : ℕ} (h : start + width ≤ count) :
    field (block cells place count) start width = block cells (place + start) width := by
  refine map_congr_left fun i hi => ?_
  have hlt := mem_range.mp hi
  show (block cells place count).getD (start + i) 0 = cells (place + start + i)
  rw [getD_eq_getElem?_getD, getElem?_block (by omega), Nat.add_assoc]
  rfl

/-- The first field. -/
theorem field_head (h : value.length = width) (rest : List UInt8) :
    field (value ++ rest) 0 width = value := by
  refine ext_getElem? fun i => ?_
  by_cases hi : i < width
  · rw [field, getElem?_block hi, Nat.zero_add, getD_eq_getElem?_getD,
      getElem?_append_left (by omega), getElem?_eq_getElem (by omega)]
    rfl
  · rw [getElem?_eq_none (by simpa using hi), getElem?_eq_none (by omega)]

/-- The only field. -/
theorem field_all (h : value.length = width) :
    field value 0 width = value := by
  have hhead := field_head h []
  rwa [append_nil] at hhead

/-- A later field. -/
theorem field_tail (front rest : List UInt8) {start : ℕ} (width : ℕ) (h : front.length ≤ start) :
    field (front ++ rest) start width = field rest (start - front.length) width := by
  refine map_congr_left fun i _ => ?_
  show (front ++ rest).getD (start + i) 0 = rest.getD (start - front.length + i) 0
  rw [getD_eq_getElem?_getD, getD_eq_getElem?_getD, getElem?_append_right (by omega),
    show start + i - front.length = start - front.length + i by omega]

end LittleEndian
