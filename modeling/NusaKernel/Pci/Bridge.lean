import Mathlib.Data.Nat.Bitwise
import NusaKernel.Kernel.Status

/-!
# Windows of a PCI bridge (`dev/bus/pci/bus_mgr/bridge.cpp`)

`assign_resource` writes the addresses of a window to the registers of a bridge, and the accessors
read them back. An I/O window and a memory window read back as they were written. The range of a
prefetchable window is wrong exactly if the low halves of its two ends are not in order, or if the
window is a 32-bit one and an upper half was left (`window_reads_back`, `window_over_boundary`).

Left out: the requests for BARs, which go to the device, debug assertions, the traces, and errors of
the accesses to the configuration space.
-/

namespace NusaKernel.Pci

open Nat

/-- The registers of a bridge that hold windows. -/
structure Type1 where
  (ioBase ioLimit memoryBase memoryLimit : ℕ)
  (prefetchableMemoryBase prefetchableMemoryLimit : ℕ)
  (prefetchableBaseUpper prefetchableLimitUpper : ℕ)

inductive ResourceType where
  | ioRange | mmioRange | mmio64Range

/-- `bar_alloc_request`, for a window of a bridge. -/
structure BarAllocRequest where
  type : ResourceType
  prefetchable : Bool
  size : ℕ

variable (c : Type1) (request : BarAllocRequest) (address : ℕ)

/-- What a register of a window holds after a write: its low four bits cannot be written. -/
def written (old value : ℕ) : ℕ := value / 16 * 16 + old % 16

/-- `pci_write_config_word`, and the `load_config` behind it. -/
def pciWriteConfigWord (reg value : ℕ) : Type1 :=
  match reg with
  | 0x1c => { c with
      ioBase := written c.ioBase (value % 2 ^ 8)
      ioLimit := written c.ioLimit (value / 2 ^ 8 % 2 ^ 8) }
  | 0x20 => { c with
      memoryBase := written c.memoryBase (value % 2 ^ 16)
      memoryLimit := written c.memoryLimit (value / 2 ^ 16) }
  | 0x24 => { c with
      prefetchableMemoryBase := written c.prefetchableMemoryBase (value % 2 ^ 16)
      prefetchableMemoryLimit := written c.prefetchableMemoryLimit (value / 2 ^ 16) }
  | 0x28 => { c with prefetchableBaseUpper := value }
  | 0x2c => { c with prefetchableLimitUpper := value }
  | _ => c

/-- `assign_resource` of a window. -/
def assignResource : Status × Type1 :=
  let last := (address + request.size + (2 ^ 64 - 1)) % 2 ^ 64
  let mmio := ((address >>> 16) &&& 0xfff0) ||| ((last >>> 16) &&& 0xfff0) <<< 16
  match request.type, request.prefetchable with
  | .ioRange, _ => (noError, pciWriteConfigWord c 0x1c
      (((address >>> 8) &&& 0xf0) ||| ((last >>> 8) &&& 0xf0) <<< 8))
  | .mmioRange, true => (noError, pciWriteConfigWord c 0x24 mmio)
  | .mmioRange, false => (noError, pciWriteConfigWord c 0x20 mmio)
  | .mmio64Range, false => (errNotSupported, c)
  | .mmio64Range, true =>
    let c := pciWriteConfigWord c 0x24 mmio
    let c := pciWriteConfigWord c 0x28 (address >>> 32)
    (noError, pciWriteConfigWord c 0x2c (last >>> 32))

def ioRange : ℕ × ℕ :=
  if c.ioLimit < c.ioBase then (0, 0)
  else ((c.ioBase >>> 4) <<< 12, (c.ioLimit >>> 4) <<< 12 ||| 0xfff)

def memRange : ℕ × ℕ :=
  if c.memoryLimit < c.memoryBase then (0, 0)
  else ((c.memoryBase >>> 4) <<< 20, (c.memoryLimit >>> 4) <<< 20 ||| 0xfffff)

def prefetchRange : ℕ × ℕ :=
  if c.prefetchableMemoryLimit < c.prefetchableMemoryBase then (0, 0)
  else
    let base := (c.prefetchableMemoryBase >>> 4) <<< 20
    let limit := (c.prefetchableMemoryLimit >>> 4) <<< 20 ||| 0xfffff
    if c.prefetchableMemoryBase &&& 0xf = 1 then
      (base ||| c.prefetchableBaseUpper <<< 32, limit ||| c.prefetchableLimitUpper <<< 32)
    else (base, limit)

/-- The accessor for a window. -/
def rangeOf : ℕ × ℕ :=
  match request.type, request.prefetchable with
  | .ioRange, _ => ioRange c
  | .mmioRange, false => memRange c
  | _, _ => prefetchRange c

/-! ## Reading back -/

/-- The low bits of a base and its limit say the same, and windows above 4 GiB are asked of bridges
that have them. -/
structure Supports : Prop where
  io : c.ioLimit % 16 = c.ioBase % 16
  memory : c.memoryLimit % 16 = c.memoryBase % 16
  prefetchable : c.prefetchableMemoryLimit % 16 = c.prefetchableMemoryBase % 16
  wide : request.type = .mmio64Range →
    request.prefetchable = true ∧ c.prefetchableMemoryBase % 16 = 1

/-- The unit of a window, and the end of the addresses that it can have. -/
def BarAllocRequest.unit : ℕ := match request.type with
  | .ioRange => 2 ^ 12
  | _ => 2 ^ 20

def BarAllocRequest.bound : ℕ := match request.type with
  | .ioRange => 2 ^ 16
  | .mmioRange => 2 ^ 32
  | .mmio64Range => 2 ^ 64

structure Suits : Prop where
  start_aligned : address % request.unit = 0
  size_aligned : request.size % request.unit = 0
  size_pos : 0 < request.size
  end_le : address + request.size ≤ request.bound

/-- Of a prefetchable window, the low halves are in order, and the upper halves are written or
zero. -/
def HalvesFit : Prop :=
  match request.type, request.prefetchable with
  | .mmioRange, true => c.prefetchableMemoryBase % 16 = 1 →
      c.prefetchableBaseUpper = 0 ∧ c.prefetchableLimitUpper = 0
  | .mmio64Range, _ => address % 2 ^ 32 ≤ (address + request.size - 1) % 2 ^ 32
  | _, _ => True

/-- The bits of an address that a register keeps, above its low four. -/
theorem and_field (x s m : ℕ) :
    x >>> s &&& (2 ^ m - 1) <<< 4 = x / 2 ^ (s + 4) % 2 ^ m * 2 ^ 4 := by
  rw [← shiftRight_eq_div_pow, ← shiftLeft_eq]
  refine eq_of_testBit_eq fun i => ?_
  simp only [testBit_and, testBit_shiftLeft, testBit_two_pow_sub_one,
    testBit_mod_two_pow, testBit_shiftRight]
  by_cases hi : 4 ≤ i
  · have hsum : s + 4 + (i - 4) = s + i := by omega
    simp [hi, hsum, Bool.and_comm]
  · simp [hi]

theorem or_high {a b k : ℕ} (ha : a < 2 ^ k) : a ||| b <<< k = b * 2 ^ k + a := by
  rw [Nat.or_comm, ← shiftLeft_add_eq_or_of_lt ha, shiftLeft_eq]

theorem or_low {a b k : ℕ} (ha : a < 2 ^ k) : b <<< k ||| a = b * 2 ^ k + a := by
  rw [Nat.or_comm, or_high ha]

variable {c request address}

theorem mmio_eq (address last : ℕ) :
    ((address >>> 16) &&& 0xfff0) ||| ((last >>> 16) &&& 0xfff0) <<< 16 =
      last / 2 ^ 20 % 2 ^ 12 * 2 ^ 20 + address / 2 ^ 20 % 2 ^ 12 * 2 ^ 4 := by
  have hfield (x : ℕ) : x >>> 16 &&& 0xfff0 = x / 2 ^ 20 % 2 ^ 12 * 2 ^ 4 := and_field x 16 12
  rw [hfield, hfield, or_high (by omega)]
  omega

/-- The range of a window whose registers are in order. -/
theorem range_eq {base limit : ℕ} (k : ℕ) (h : base ≤ limit) :
    (if limit < base then ((0, 0) : ℕ × ℕ)
      else ((base >>> 4) <<< k, (limit >>> 4) <<< k ||| (2 ^ k - 1))) =
      (base / 16 * 2 ^ k, limit / 16 * 2 ^ k + (2 ^ k - 1)) := by
  rw [if_neg (Nat.not_lt.mpr h), or_low (Nat.sub_lt (Nat.two_pow_pos k) one_pos),
    shiftLeft_eq, shiftRight_eq_div_pow, shiftRight_eq_div_pow]

/-- A prefetchable window that was written, with the upper halves if the bridge has them. -/
theorem prefetch_range_eq {old old' x y value : ℕ} (hsame : old' % 16 = old % 16)
    (hvalue : value = y % 2 ^ 12 * 2 ^ 20 + x % 2 ^ 12 * 2 ^ 4)
    (hbase : c.prefetchableMemoryBase = written old (value % 2 ^ 16))
    (hlimit : c.prefetchableMemoryLimit = written old' (value / 2 ^ 16)) :
    prefetchRange c = if y % 2 ^ 12 < x % 2 ^ 12 then (0, 0)
      else if old % 16 = 1 then
        (c.prefetchableBaseUpper * 2 ^ 32 + x % 2 ^ 12 * 2 ^ 20,
          c.prefetchableLimitUpper * 2 ^ 32 + (y % 2 ^ 12 * 2 ^ 20 + 0xfffff))
      else (x % 2 ^ 12 * 2 ^ 20, y % 2 ^ 12 * 2 ^ 20 + 0xfffff) := by
  have hx : c.prefetchableMemoryBase = x % 2 ^ 12 * 16 + old % 16 := by
    rw [hbase, hvalue, written]
    omega
  have hy : c.prefetchableMemoryLimit = y % 2 ^ 12 * 16 + old % 16 := by
    rw [hlimit, hvalue, written]
    omega
  have hmask : c.prefetchableMemoryBase &&& 0xf = old % 16 := by
    rw [and_two_pow_sub_one_eq_mod _ 4]
    omega
  have hshift (z : ℕ) : (z % 2 ^ 12 * 16 + old % 16) >>> 4 = z % 2 ^ 12 := by
    rw [shiftRight_eq_div_pow]
    omega
  rw [prefetchRange, hmask, hx, hy, hshift, hshift, or_low (by decide)]
  dsimp only
  rw [shiftLeft_eq, or_high (by omega), or_high (by omega)]
  refine if_congr ?_ rfl rfl
  omega

/-- A window that is assigned reads back exactly if its halves fit. -/
theorem window_reads_back (hc : Supports c request) (hs : Suits request address) :
    (∃ c', assignResource c request address = (noError, c') ∧
      rangeOf c' request = (address, address + request.size - 1)) ↔
    HalvesFit c request address := by
  obtain ⟨type, prefetchable, size⟩ := request
  obtain ⟨haddress, hsize, hpos, hbound⟩ := hs
  unfold BarAllocRequest.unit at haddress hsize
  unfold BarAllocRequest.bound at hbound
  have hlast : (address + size + (2 ^ 64 - 1)) % 2 ^ 64 = address + size - 1 := by
    cases type <;> dsimp only at * <;> omega
  unfold HalvesFit assignResource rangeOf
  dsimp only at *
  rw [hlast, mmio_eq]
  cases type <;> dsimp only at *
  case ioRange =>
    have hio := hc.io
    have hfield (x : ℕ) : x >>> 8 &&& 0xf0 = x / 2 ^ 12 % 2 ^ 4 * 2 ^ 4 := and_field x 8 4
    rw [hfield, hfield, or_high (by omega)]
    refine iff_of_true ⟨_, rfl, (range_eq 12 ?_).trans (congrArg₂ Prod.mk ?_ ?_)⟩ trivial <;>
      simp only [pciWriteConfigWord, written] <;> omega
  case mmioRange =>
    have hmemory := hc.memory
    cases prefetchable <;> dsimp only at *
    case false =>
      refine iff_of_true ⟨_, rfl, (range_eq 20 ?_).trans (congrArg₂ Prod.mk ?_ ?_)⟩ trivial <;>
        simp only [pciWriteConfigWord, written] <;> omega
    case true =>
      simp only [Prod.mk.injEq, true_and, exists_eq_left']
      rw [prefetch_range_eq hc.prefetchable rfl rfl rfl, if_neg (by omega)]
      simp only [pciWriteConfigWord]
      split <;> simp only [Prod.mk.injEq] <;> omega
  case mmio64Range =>
    obtain ⟨rfl, hnibble⟩ := hc.wide rfl
    simp only [Prod.mk.injEq, true_and, exists_eq_left']
    rw [prefetch_range_eq hc.prefetchable rfl rfl rfl, if_pos hnibble]
    simp only [pciWriteConfigWord, shiftRight_eq_div_pow]
    split <;> simp only [Prod.mk.injEq] <;> omega

/-- A bridge that has prefetchable windows above 4 GiB. -/
def wideBridge : Type1 := ⟨0, 0, 0, 0, 1, 1, 0, 0⟩

theorem wide_supports (size : ℕ) : Supports wideBridge ⟨.mmio64Range, true, size⟩ :=
  ⟨rfl, rfl, rfl, fun _ => ⟨rfl, rfl⟩⟩

theorem window_reads_back_above : ∃ c',
    assignResource wideBridge ⟨.mmio64Range, true, 2 ^ 20⟩ (2 ^ 32) = (noError, c') ∧
      rangeOf c' ⟨.mmio64Range, true, 2 ^ 20⟩ = (2 ^ 32, 2 ^ 32 + 2 ^ 20 - 1) :=
  (window_reads_back (wide_supports _) ⟨rfl, rfl, by decide, by decide⟩).mpr
    (by unfold HalvesFit; decide)

/-- A window over a boundary of 4 GiB reads back as none. -/
theorem window_over_boundary :
    Supports wideBridge ⟨.mmio64Range, true, 2 ^ 21⟩ ∧
      Suits ⟨.mmio64Range, true, 2 ^ 21⟩ (2 ^ 32 - 2 ^ 20) ∧
      rangeOf (assignResource wideBridge ⟨.mmio64Range, true, 2 ^ 21⟩ (2 ^ 32 - 2 ^ 20)).2
        ⟨.mmio64Range, true, 2 ^ 21⟩ = (0, 0) :=
  ⟨wide_supports _, ⟨rfl, rfl, by decide, by decide⟩, by decide⟩

end NusaKernel.Pci
