import Mathlib.Data.List.Chain
import NusaKernel.Kernel.Status
import NusaKernel.Vm.Pmm

/-!
# Regions of an address space

`kernel/vm/vmm.c`: the list of the regions of an address space. Addresses and sizes are words of
any width, with the wrapping arithmetic of `vaddr_t` and `size_t`. What other parts of the kernel
return is a parameter of a call: whether there is memory for the region structure and are pages to
map, and the results of `arch_mmu_map`. The function `arch_mmu_pick_spot`, which an architecture can
replace, is a parameter of all of them.

A call holds `vmm_lock` while it uses the list, so it is one step. The names of regions and their
lists of pages are left out.
-/

namespace NusaKernel.Vmm

open List Option Transition Word

/-- `VMM_FLAG_VALLOC_SPECIFIC`. -/
def vmmFlagVallocSpecific : BitVec 32 := 0x1#32

/-- `VMM_REGION_FLAG_RESERVED`. -/
def vmmRegionFlagReserved : BitVec 32 := 0x1#32

/-- `VMM_REGION_FLAG_PHYSICAL`. -/
def vmmRegionFlagPhysical : BitVec 32 := 0x2#32

/-- `ARCH_MMU_FLAG_INVALID`. -/
def archMmuFlagInvalid : BitVec 32 := 0x40#32

/-- `vmm_region_t`. -/
structure Region (w : ℕ) where
  base : BitVec w
  size : BitVec w
  flags : BitVec 32
  archMmuFlags : BitVec 32
  deriving DecidableEq

/-- The range of a `vmm_aspace_t`. It is not empty and does not wrap, which the source asserts of
the kernel's and of the user's address space. It may end at the largest address. -/
structure Aspace (w : ℕ) where
  base : BitVec w
  size : BitVec w
  size_pos : 0 < size.toNat
  fits : base.toNat + size.toNat ≤ 2 ^ w

/-- The arguments and the result of `arch_mmu_pick_spot`: the first and last byte of a gap, each
followed by the flags of the region next to it, the alignment, the size and the flags asked for. -/
abbrev PickSpot (w : ℕ) :=
  BitVec w → BitVec 32 → BitVec w → BitVec 32 → BitVec w → BitVec w → BitVec 32 → BitVec w

variable {w : ℕ}

/-- `IS_PAGE_ALIGNED`. -/
def isPageAligned (x : BitVec w) : Bool := x &&& (BitVec.ofNat w pageSize - 1#w) = 0#w

/-- `arch_mmu_pick_spot`, unless an architecture has its own. -/
def archMmuPickSpot : PickSpot w := fun base _ _ _ align _ _ => roundup base align

/-- The last byte of a region. -/
def Region.last (r : Region w) : BitVec w := Word.last r.base r.size

/-- The last byte of an address space. -/
def Aspace.last (a : Aspace w) : BitVec w := Word.last a.base a.size

/-! ## Placing a region -/

section Placing

variable (aspace : Aspace w)

/-- `is_inside_aspace`. -/
def isInsideAspace (vaddr : BitVec w) : Bool := aspace.base ≤ vaddr ∧ vaddr ≤ aspace.last

/-- `is_region_inside_aspace`. -/
def isRegionInsideAspace (vaddr size : BitVec w) : Bool :=
  if !isInsideAspace aspace vaddr then false
  else if size = 0#w then true
  -- see if the size is enough to wrap the integer
  else if Word.last vaddr size < vaddr then false
  else if aspace.last < Word.last vaddr size then false
  else true

/-- `trim_to_aspace`. -/
def trimToAspace (vaddr size : BitVec w) : BitVec w :=
  if size = 0#w then size
  else
    let offset := vaddr - aspace.base
    let size := if offset + size < offset then -1#w - offset - 1#w else size
    if aspace.size - 1#w ≤ offset + size then aspace.size - offset else size

/-- The loop of `add_region_to_aspace`: the regions with the new one behind the one it goes
after. -/
def addAfter (r : Region w) : List (Region w) → Option (List (Region w))
  | [] => none
  | last :: rest =>
    if last.last < r.base ∧ ∀ next ∈ rest.head?, r.last < next.base then
      some (last :: r :: rest)
    else (addAfter r rest).map (last :: ·)

/-- `add_region_to_aspace`. -/
def addRegionToAspace (regions : List (Region w)) (r : Region w) :
    Except Status (List (Region w)) :=
  if r.size = 0#w ∨ isRegionInsideAspace aspace r.base r.size = false then .error errOutOfRange
  else if ∀ last ∈ regions.head?, r.last < last.base then
    -- empty list or not empty and fits before the first element
    .ok (r :: regions)
  else
    match addAfter r regions with
    | some regions => .ok regions
    | none => .error errNoMemory

variable (pickSpot : PickSpot w)

/-- The end of `check_gap`, for a gap that is not empty, from its first to its last byte. The search
goes on at `none`, and stops at an address, which is `-1` if there is none. -/
def spotInGap (prev next : Option (Region w)) (gapBeg gapEnd align size : BitVec w)
    (archMmuFlags : BitVec 32) : Option (BitVec w) :=
  let pva := pickSpot gapBeg (prev.elim archMmuFlagInvalid Region.archMmuFlags) gapEnd
    (next.elim archMmuFlagInvalid Region.archMmuFlags) align size archMmuFlags
  if pva < gapBeg then some (-1#w)
  else if pva < gapEnd ∧ size ≤ gapEnd - pva + 1#w then some pva
  else none

/-- The first byte of the gap after a region, or at the beginning of the address space. -/
def gapBeg (prev : Option (Region w)) : BitVec w :=
  prev.elim aspace.base fun prev => prev.base + prev.size

/-- `check_gap`. -/
def checkGap (prev next : Option (Region w)) (align size : BitVec w) (archMmuFlags : BitVec 32) :
    Option (BitVec w) :=
  let beg := gapBeg aspace prev
  match next with
  | some next' =>
    if beg = next'.base then none
    else spotInGap pickSpot prev next beg (next'.base - 1#w) align size archMmuFlags
  | none =>
    if beg = aspace.base + aspace.size then some (-1#w)
    else spotInGap pickSpot prev next beg aspace.last align size archMmuFlags

/-- The loop of `alloc_spot`. Returns the address with the regions before and after it. -/
def searchGaps (align size : BitVec w) (archMmuFlags : BitVec 32) (before : List (Region w)) :
    List (Region w) → BitVec w × List (Region w) × List (Region w)
  | [] => (-1#w, before, [])
  | r :: rest =>
    match checkGap aspace pickSpot (some r) rest.head? align size archMmuFlags with
    | some spot => (spot, before ++ [r], rest)
    | none => searchGaps align size archMmuFlags (before ++ [r]) rest

/-- `alloc_spot`, with the regions before and after the spot. A shift count of 64 or more is
undefined in C; here the alignment is zero then. -/
def allocSpot (regions : List (Region w)) (size : BitVec w) (alignPow2 : UInt8)
    (archMmuFlags : BitVec 32) : BitVec w × List (Region w) × List (Region w) :=
  let alignPow2 := if alignPow2.toNat < pageSizeShift then pageSizeShift else alignPow2.toNat
  let align := 1#w <<< alignPow2
  match checkGap aspace pickSpot none regions.head? align size archMmuFlags with
  | some spot => (spot, [], regions)
  | none => searchGaps aspace pickSpot align size archMmuFlags [] regions

/-- `alloc_region`. -/
def allocRegion (regions : List (Region w)) (size vaddr : BitVec w) (alignPow2 : UInt8)
    (vmmFlags regionFlags archMmuFlags : BitVec 32) (memory : Bool) :
    Option (Region w × List (Region w)) :=
  if !memory then none
  else if vmmFlags &&& vmmFlagVallocSpecific ≠ 0#32 then
    let r := ⟨vaddr, size, regionFlags, archMmuFlags⟩
    match addRegionToAspace aspace regions r with
    | .ok regions => some (r, regions)
    | .error _ => none
  else
    let (spot, before, after) := allocSpot aspace pickSpot regions size alignPow2 archMmuFlags
    if spot = -1#w then none
    else
      let r := ⟨spot, size, regionFlags, archMmuFlags⟩
      some (r, before ++ r :: after)

end Placing

/-! ## The functions -/

/-- `vmm_find_region`. -/
def vmmFindRegion (regions : List (Region w)) (vaddr : BitVec w) : Option (Region w) :=
  regions.find? fun r => r.base ≤ vaddr ∧ vaddr ≤ r.last

/-- `vmm_remove_region_locked`. -/
def vmmRemoveRegionLocked (regions : List (Region w)) (vaddr : BitVec w) :
    Status × List (Region w) :=
  match vmmFindRegion regions vaddr with
  | none => (errNotFound, regions)
  | some _ => (noError, regions.eraseP fun r => r.base ≤ vaddr ∧ vaddr ≤ r.last)

/-- `vmm_free_region`. -/
def vmmFreeRegion (regions : List (Region w)) (vaddr : BitVec w) : Status × List (Region w) :=
  vmmRemoveRegionLocked regions vaddr

/-- The address asked for, unless a specific one is asked for and none is given. -/
def requestedVaddr (ptr : Option (BitVec w)) (vmmFlags : BitVec 32) : Option (BitVec w) :=
  if vmmFlags &&& vmmFlagVallocSpecific ≠ 0#32 then ptr else some 0#w

/-- What a function that allocates returns: its result, the address it stores through `ptr`, if it
stores one, and the regions. -/
structure Outcome (w : ℕ) where
  status : Status
  ptr : Option (BitVec w)
  regions : List (Region w)

section Functions

variable (aspace : Aspace w) (pickSpot : PickSpot w) (regions : List (Region w))

/-- `vmm_reserve_space`, with the flags that `arch_mmu_query` finds. -/
def vmmReserveSpace (size vaddr : BitVec w) (archMmuFlags : BitVec 32) (memory : Bool) :
    Status × List (Region w) :=
  if size = 0#w then (noError, regions)
  else if !isPageAligned vaddr || !isPageAligned size then (errInvalidArgs, regions)
  else if !isInsideAspace aspace vaddr then (errOutOfRange, regions)
  else
    match allocRegion aspace pickSpot regions (trimToAspace aspace vaddr size) vaddr 0
      vmmFlagVallocSpecific vmmRegionFlagReserved archMmuFlags memory with
    | some (_, regions) => (noError, regions)
    | none => (errNoMemory, regions)

/-- The part that the functions which allocate share: allocate a region and map pages into it, with
the result of mapping them. If that fails the region is removed again. -/
def allocMapped (size vaddr : BitVec w) (alignPow2 : UInt8) (vmmFlags archMmuFlags : BitVec 32)
    (memory : Bool) (err : Status) : Outcome w :=
  match allocRegion aspace pickSpot regions size vaddr alignPow2 vmmFlags vmmRegionFlagPhysical
    archMmuFlags memory with
  | none => ⟨errNoMemory, none, regions⟩
  | some (r, regions) =>
    if err < noError then ⟨err, some r.base, (vmmRemoveRegionLocked regions r.base).2⟩
    else ⟨noError, some r.base, regions⟩

/-- `vmm_alloc_physical`, with the result of `arch_mmu_map`. -/
def vmmAllocPhysical (size : BitVec w) (ptr : Option (BitVec w)) (alignLog2 : UInt8)
    (paddr : BitVec w) (vmmFlags archMmuFlags : BitVec 32) (memory : Bool) (map : Status) :
    Outcome w :=
  if size = 0#w then ⟨noError, none, regions⟩
  else if !isPageAligned paddr || !isPageAligned size then ⟨errInvalidArgs, none, regions⟩
  else
    match requestedVaddr ptr vmmFlags with
    | none => ⟨errInvalidArgs, none, regions⟩
    | some vaddr =>
      allocMapped aspace pickSpot regions size vaddr alignLog2 vmmFlags archMmuFlags memory map

/-- `vmm_alloc_contiguous`. `pages` says that `pmm_alloc_contiguous` finds the pages. -/
def vmmAllocContiguous (size : BitVec w) (ptr : Option (BitVec w)) (alignPow2 : UInt8)
    (vmmFlags archMmuFlags : BitVec 32) (pages memory : Bool) (map : Status) : Outcome w :=
  let size := roundup size (BitVec.ofNat w pageSize)
  if size = 0#w then ⟨errInvalidArgs, none, regions⟩
  else
    match requestedVaddr ptr vmmFlags with
    | none => ⟨errInvalidArgs, none, regions⟩
    | some vaddr =>
      if !pages then ⟨errNoMemory, none, regions⟩
      else
        allocMapped aspace pickSpot regions size vaddr alignPow2 vmmFlags archMmuFlags memory map

/-- The loop of `vmm_alloc` over its pages: the first error of `arch_mmu_map`, if there is one. -/
def mapPages (map : ℕ → Status) (count : ℕ) : Status :=
  (((range count).map map).find? (· < noError)).getD noError

/-- `vmm_alloc`, with the result of `arch_mmu_map` for each page. `pages` says that
`pmm_alloc_pages` finds as many as are needed. -/
def vmmAlloc (size : BitVec w) (ptr : Option (BitVec w)) (alignPow2 : UInt8)
    (vmmFlags archMmuFlags : BitVec 32) (pages memory : Bool) (map : ℕ → Status) : Outcome w :=
  let size := roundup size (BitVec.ofNat w pageSize)
  if size = 0#w then ⟨errInvalidArgs, none, regions⟩
  else
    match requestedVaddr ptr vmmFlags with
    | none => ⟨errInvalidArgs, none, regions⟩
    | some vaddr =>
      if !pages then ⟨errNoMemory, none, regions⟩
      else
        let out := allocMapped aspace pickSpot regions size vaddr alignPow2 vmmFlags archMmuFlags
          memory (mapPages map (size.toNat / pageSize))
        -- unlike the other two, it stores the address only when the pages are mapped
        if out.status < noError then { out with ptr := none } else out

end Functions

/-! ## Runs -/

/-- A call, with what the rest of the kernel returns to it. -/
inductive Action (w : ℕ) where
  | reserveSpace (size vaddr : BitVec w) (archMmuFlags : BitVec 32) (memory : Bool)
  | allocPhysical (size : BitVec w) (ptr : Option (BitVec w)) (alignLog2 : UInt8)
      (paddr : BitVec w) (vmmFlags archMmuFlags : BitVec 32) (memory : Bool) (map : Status)
  | allocContiguous (size : BitVec w) (ptr : Option (BitVec w)) (alignPow2 : UInt8)
      (vmmFlags archMmuFlags : BitVec 32) (pages memory : Bool) (map : Status)
  | alloc (size : BitVec w) (ptr : Option (BitVec w)) (alignPow2 : UInt8)
      (vmmFlags archMmuFlags : BitVec 32) (pages memory : Bool) (map : ℕ → Status)
  | freeRegion (vaddr : BitVec w)

/-- The regions after a call. -/
def perform (aspace : Aspace w) (pickSpot : PickSpot w) (regions : List (Region w)) :
    Action w → List (Region w)
  | .reserveSpace size vaddr archMmuFlags memory =>
    (vmmReserveSpace aspace pickSpot regions size vaddr archMmuFlags memory).2
  | .allocPhysical size ptr alignLog2 paddr vmmFlags archMmuFlags memory map =>
    (vmmAllocPhysical aspace pickSpot regions size ptr alignLog2 paddr vmmFlags archMmuFlags
      memory map).regions
  | .allocContiguous size ptr alignPow2 vmmFlags archMmuFlags pages memory map =>
    (vmmAllocContiguous aspace pickSpot regions size ptr alignPow2 vmmFlags archMmuFlags pages
      memory map).regions
  | .alloc size ptr alignPow2 vmmFlags archMmuFlags pages memory map =>
    (vmmAlloc aspace pickSpot regions size ptr alignPow2 vmmFlags archMmuFlags pages memory
      map).regions
  | .freeRegion vaddr => (vmmFreeRegion regions vaddr).2

/-- A call is always possible. -/
def step (aspace : Aspace w) (pickSpot : PickSpot w) (regions : List (Region w))
    (action : Action w) : Option (List (Region w)) :=
  some (perform aspace pickSpot regions action)

/-- The lists of regions that calls make, from an address space without regions. -/
def Reachable (aspace : Aspace w) (pickSpot : PickSpot w) : List (Region w) → Prop :=
  Transition.Reachable (step aspace pickSpot) Always (· = [])

/-! ## The layout -/

/-- The region is not empty and inside the address space, which it then cannot leave by
wrapping. -/
structure RegionInv (aspace : Aspace w) (r : Region w) : Prop where
  size_pos : 0 < r.size.toNat
  base_le : aspace.base.toNat ≤ r.base.toNat
  end_le : r.base.toNat + r.size.toNat ≤ aspace.base.toNat + aspace.size.toNat

/-- The first region ends before the second begins. -/
def Before (a b : Region w) : Prop := a.base.toNat + a.size.toNat ≤ b.base.toNat

/-- The regions in between are skipped. -/
instance : IsTrans (Region w) Before where
  trans a b c hab hbc := by
    unfold Before at hab hbc ⊢
    omega

/-- The regions are inside the address space, in order, and apart. -/
structure Layout (aspace : Aspace w) (regions : List (Region w)) : Prop where
  inside : ∀ r ∈ regions, RegionInv aspace r
  chain : regions.IsChain Before

section Layout

variable {aspace : Aspace w} {pickSpot : PickSpot w} {regions before after : List (Region w)}
  {r : Region w} {size align spot : BitVec w} {result : List (Region w)} {archMmuFlags : BitVec 32}
  {alignPow2 : UInt8} {vaddr : BitVec w}

theorem RegionInv.fits (hinv : RegionInv aspace r) : r.base.toNat + r.size.toNat ≤ 2 ^ w :=
  hinv.end_le.trans aspace.fits

theorem RegionInv.toNat_last (hinv : RegionInv aspace r) :
    r.last.toNat = r.base.toNat + r.size.toNat - 1 :=
  Word.toNat_last hinv.size_pos hinv.fits

theorem toNat_aspace_last (aspace : Aspace w) :
    aspace.last.toNat = aspace.base.toNat + aspace.size.toNat - 1 :=
  Word.toNat_last aspace.size_pos aspace.fits

theorem RegionInv.last_lt_iff (hinv : RegionInv aspace r) {next : Region w} :
    r.last < next.base ↔ Before r next := by
  have hpos := hinv.size_pos
  rw [BitVec.lt_def, hinv.toNat_last, Before]
  omega

theorem region_inv_of_inside (hsize : size ≠ 0#w)
    (h : isRegionInsideAspace aspace vaddr size = true) (flags archMmuFlags : BitVec 32) :
    RegionInv aspace ⟨vaddr, size, flags, archMmuFlags⟩ := by
  have hpos : 0 < size.toNat := Nat.pos_of_ne_zero fun hzero => hsize (BitVec.eq_of_toNat_eq hzero)
  have haspace := aspace.size_pos
  simp only [isRegionInsideAspace, if_neg hsize] at h
  split at h
  · cases h
  next hinside =>
  split at h
  · cases h
  next hwrap =>
  split at h
  · cases h
  next hend =>
  have hfits := (le_last_iff hpos).mp (BitVec.not_lt.mp hwrap)
  simp only [isInsideAspace, Bool.not_eq_true', decide_eq_false_iff_not, not_not] at hinside
  rw [BitVec.not_lt, BitVec.le_def, Word.toNat_last hpos hfits, toNat_aspace_last] at hend
  refine ⟨hpos, BitVec.le_def.mp hinside.1, ?_⟩
  show vaddr.toNat + size.toNat ≤ aspace.base.toNat + aspace.size.toNat
  omega

/-- A region between two neighbours. -/
theorem Layout.insert (hlayout : Layout aspace (before ++ after)) (hinv : RegionInv aspace r)
    (hprev : ∀ prev ∈ before.getLast?, Before prev r)
    (hnext : ∀ next ∈ after.head?, Before r next) : Layout aspace (before ++ r :: after) := by
  obtain ⟨hbefore, hafter, _⟩ := isChain_append.mp hlayout.chain
  obtain ⟨hlow, hhigh⟩ := forall_mem_append.mp hlayout.inside
  refine ⟨forall_mem_append.mpr ⟨hlow, forall_mem_cons.mpr ⟨hinv, hhigh⟩⟩,
    isChain_append.mpr ⟨hbefore, isChain_cons.mpr ⟨hnext, hafter⟩, ?_⟩⟩
  intro prev hprev' q hq
  cases hq
  exact hprev prev hprev'

/-! ### A specific address -/

theorem Layout.add_after (hinv : RegionInv aspace r) :
    ∀ {before after result : List (Region w)}, Layout aspace (before ++ after) →
      addAfter r after = some result → Layout aspace (before ++ result)
  | _, [], _, _, h => by cases h
  | before, last :: rest, result, hlayout, h => by
    have hlast := hlayout.inside last (mem_append_right before mem_cons_self)
    have hlayout' : Layout aspace ((before ++ [last]) ++ rest) := by
      rwa [append_assoc, singleton_append]
    unfold addAfter at h
    split at h
    · next hfits =>
      cases h
      have hinsert : Layout aspace ((before ++ [last]) ++ r :: rest) := by
        refine hlayout'.insert hinv ?_ fun next hnext => hinv.last_lt_iff.mp (hfits.2 next hnext)
        intro prev hprev
        rw [getLast?_concat] at hprev
        cases hprev
        exact hlast.last_lt_iff.mp hfits.1
      rwa [append_assoc, singleton_append] at hinsert
    · obtain ⟨result', hresult, rfl⟩ := map_eq_some_iff.mp h
      have hrest := Layout.add_after hinv hlayout' hresult
      rwa [append_assoc, singleton_append] at hrest

theorem Layout.add_region_to_aspace (hlayout : Layout aspace regions)
    (h : addRegionToAspace aspace regions r = .ok result) : Layout aspace result := by
  unfold addRegionToAspace at h
  split at h
  · cases h
  next hinside =>
  rw [not_or, Bool.not_eq_false] at hinside
  have hinv : RegionInv aspace r := region_inv_of_inside hinside.1 hinside.2 r.flags r.archMmuFlags
  split at h
  · next hfront =>
    cases h
    show Layout aspace ([] ++ r :: regions)
    refine .insert hlayout hinv ?_ fun next hnext =>
      hinv.last_lt_iff.mp (hfront next hnext)
    intro prev hprev
    cases hprev
  split at h
  · next result' hafter =>
    cases h
    show Layout aspace ([] ++ result)
    exact .add_after hinv hlayout hafter
  · cases h

/-! ### Any address -/

/-- The region fits between its neighbours. -/
structure FitsIn (aspace : Aspace w) (prev next : Option (Region w)) (r : Region w) : Prop where
  inv : RegionInv aspace r
  after : ∀ q ∈ prev, Before q r
  before : ∀ q ∈ next, Before r q

theorem fits_of_spot_in_gap {prev next : Option (Region w)} {gapBeg gapEnd : BitVec w}
    (hsize : 0 < size.toNat)
    (h : spotInGap pickSpot prev next gapBeg gapEnd align size archMmuFlags = some spot)
    (hspot : spot ≠ -1#w) :
    gapBeg.toNat ≤ spot.toNat ∧ spot.toNat + size.toNat ≤ gapEnd.toNat + 1 := by
  simp only [spotInGap] at h
  split at h
  · exact absurd (some.inj h).symm hspot
  next hbeg =>
  obtain ⟨hend, h⟩ := ite_none_right_eq_some.mp h
  cases h
  exact ⟨BitVec.le_def.mp (BitVec.not_lt.mp hbeg),
    fits_of_le_sub_add_one (BitVec.le_of_lt hend.1) hsize hend.2⟩

/-- Where a gap begins, as a number: it can be one past the largest address. -/
def gapStart (aspace : Aspace w) (prev : Option (Region w)) : ℕ :=
  prev.elim aspace.base.toNat fun prev => prev.base.toNat + prev.size.toNat

/-- Where a gap ends, as a number. -/
def gapStop (aspace : Aspace w) (next : Option (Region w)) : ℕ :=
  next.elim (aspace.base.toNat + aspace.size.toNat) fun next => next.base.toNat

section Gap

variable {prev next : Option (Region w)}

theorem base_le_gap_start (hprev : ∀ q ∈ prev, RegionInv aspace q) :
    aspace.base.toNat ≤ gapStart aspace prev := by
  cases prev with
  | none => exact le_refl _
  | some p => exact (hprev p rfl).base_le.trans (Nat.le_add_right _ _)

theorem gap_start_le (hprev : ∀ q ∈ prev, RegionInv aspace q) :
    gapStart aspace prev ≤ aspace.base.toNat + aspace.size.toNat := by
  cases prev with
  | none => exact Nat.le_add_right _ _
  | some p => exact (hprev p rfl).end_le

theorem gap_stop_le (hnext : ∀ q ∈ next, RegionInv aspace q) :
    gapStop aspace next ≤ aspace.base.toNat + aspace.size.toNat := by
  cases next with
  | none => exact le_refl _
  | some q => exact (Nat.le_add_right _ _).trans (hnext q rfl).end_le

theorem toNat_gap_beg (hstart : gapStart aspace prev < 2 ^ w) :
    (gapBeg aspace prev).toNat = gapStart aspace prev := by
  cases prev with
  | none => rfl
  | some p => exact BitVec.toNat_add_of_lt hstart

theorem gap_beg_eq_of_gap_start (h : gapStart aspace prev = aspace.base.toNat + aspace.size.toNat) :
    gapBeg aspace prev = aspace.base + aspace.size := by
  apply BitVec.eq_of_toNat_eq
  rw [BitVec.toNat_add, ← h]
  cases prev with
  | none => exact (Nat.mod_eq_of_lt aspace.base.isLt).symm
  | some p => exact BitVec.toNat_add _ _

section

variable (hprev : ∀ q ∈ prev, RegionInv aspace q)
include hprev

/-- A region between the numbers fits between the neighbours. -/
theorem fits_in_of_bounds (hnext : ∀ q ∈ next, RegionInv aspace q) (hsize : 0 < r.size.toNat)
    (hstart : gapStart aspace prev ≤ r.base.toNat)
    (hstop : r.base.toNat + r.size.toNat ≤ gapStop aspace next) : FitsIn aspace prev next r := by
  refine ⟨⟨hsize, (base_le_gap_start hprev).trans hstart, hstop.trans (gap_stop_le hnext)⟩, ?_, ?_⟩
  · rintro p ⟨⟩
    exact hstart
  · rintro q ⟨⟩
    exact hstop

theorem gap_start_le_stop
    (hnext : ∀ q ∈ next, RegionInv aspace q) (hapart : ∀ p ∈ prev, ∀ q ∈ next, Before p q) :
    gapStart aspace prev ≤ gapStop aspace next := by
  cases next with
  | none => exact gap_start_le hprev
  | some q =>
    cases prev with
    | none => exact (hnext q rfl).base_le
    | some p => exact hapart p rfl q rfl

/-- `check_gap` between two regions that follow each other: the gap is empty, or there is a spot in
it to pick. -/
theorem check_gap_cases {result : Option (BitVec w)}
    (hle : gapStart aspace prev ≤ gapStop aspace next)
    (h : checkGap aspace pickSpot prev next align size archMmuFlags = result) :
    (gapStart aspace prev = gapStop aspace next ∧
      result = next.elim (some (-1#w)) fun _ => none) ∨
    (gapStart aspace prev < gapStop aspace next ∧
      (gapBeg aspace prev).toNat = gapStart aspace prev ∧
      ∃ last : BitVec w, last.toNat + 1 = gapStop aspace next ∧
        spotInGap pickSpot prev next (gapBeg aspace prev) last align size archMmuFlags =
          result) := by
  have hfits := aspace.fits
  have hpos := aspace.size_pos
  cases next with
  | some next' =>
    have hbeg := toNat_gap_beg (hle.trans_lt next'.base.isLt)
    simp only [checkGap] at h
    split at h
    · next heq => exact .inl ⟨hbeg.symm.trans (congrArg BitVec.toNat heq), h.symm⟩
    next hne =>
    have hlt : gapStart aspace prev < next'.base.toNat :=
      lt_of_le_of_ne hle fun heq => hne (BitVec.eq_of_toNat_eq (hbeg.trans heq))
    have hlast := toNat_sub_one ((Nat.zero_le _).trans_lt hlt)
    refine .inr ⟨hlt, hbeg, next'.base - 1#w, ?_, h⟩
    show _ = next'.base.toNat
    omega
  | none =>
    rcases hle.eq_or_lt with heq | hlt
    · -- a region that ends at the top of the address range stops the search
      refine .inl ⟨heq, ?_⟩
      rw [← h, checkGap, if_pos (gap_beg_eq_of_gap_start heq)]
      rfl
    have hbeg := toNat_gap_beg (hlt.trans_le hfits)
    have hlast := toNat_aspace_last aspace
    simp only [checkGap] at h
    split at h
    · next heq =>
      -- the sum would have to go round, over all addresses
      have hbase := base_le_gap_start hprev
      rw [heq, BitVec.toNat_add] at hbeg
      have hend : gapStart aspace prev < aspace.base.toNat + aspace.size.toNat := hlt
      rcases hfits.eq_or_lt with htop | htop
      · rw [htop, Nat.mod_self] at hbeg
        omega
      · rw [Nat.mod_eq_of_lt htop] at hbeg
        omega
    · refine .inr ⟨hlt, hbeg, aspace.last, ?_, h⟩
      show _ = aspace.base.toNat + aspace.size.toNat
      omega

/-- The spot that `check_gap` finds between two regions that follow each other. -/
theorem fits_of_check_gap
    (hnext : ∀ q ∈ next, RegionInv aspace q) (hapart : ∀ p ∈ prev, ∀ q ∈ next, Before p q)
    (hsize : 0 < size.toNat)
    (h : checkGap aspace pickSpot prev next align size archMmuFlags = some spot)
    (hspot : spot ≠ -1#w) (flags : BitVec 32) :
    FitsIn aspace prev next ⟨spot, size, flags, archMmuFlags⟩ := by
  rcases check_gap_cases hprev (gap_start_le_stop hprev hnext hapart) h with
    ⟨-, hstop⟩ | ⟨-, hbeg, last, hlast, hgap⟩
  · cases next with
    | none => exact absurd (some.inj hstop) hspot
    | some q => cases hstop
  · obtain ⟨hspotStart, hspotStop⟩ := fits_of_spot_in_gap hsize hgap hspot
    exact fits_in_of_bounds hprev hnext hsize (hbeg ▸ hspotStart) (hlast ▸ hspotStop)

end

end Gap

/-- The regions on the two sides of a gap. -/
theorem Layout.around (h : Layout aspace (before ++ after)) :
    (∀ q ∈ before.getLast?, RegionInv aspace q) ∧ ∀ q ∈ after.head?, RegionInv aspace q :=
  ⟨fun q hq => h.inside q (mem_append_left _ (mem_of_getLast? hq)),
    fun q hq => h.inside q (mem_append_right _ (mem_of_head? hq))⟩

/-- A stop of the search at a split of the region list. -/
theorem Layout.insert_spot (hlayout : Layout aspace (before ++ after)) (hsize : 0 < size.toNat)
    (h : checkGap aspace pickSpot before.getLast? after.head? align size archMmuFlags = some spot)
    (hspot : spot ≠ -1#w) (flags : BitVec 32) :
    Layout aspace (before ++ ⟨spot, size, flags, archMmuFlags⟩ :: after) := by
  obtain ⟨_, _, hapart⟩ := isChain_append.mp hlayout.chain
  obtain ⟨hprev, hnext⟩ := hlayout.around
  have hfits := fits_of_check_gap hprev hnext hapart hsize h hspot flags
  exact hlayout.insert hfits.inv hfits.after hfits.before

theorem Layout.search_gaps (hsize : 0 < size.toNat) (hspot : spot ≠ -1#w) (flags : BitVec 32) :
    ∀ {before rest before' after' : List (Region w)}, Layout aspace (before ++ rest) →
      searchGaps aspace pickSpot align size archMmuFlags before rest = (spot, before', after') →
      Layout aspace (before' ++ ⟨spot, size, flags, archMmuFlags⟩ :: after')
  | _, [], _, _, _, h => by
    cases h
    exact absurd rfl hspot
  | before, r :: rest, before', after', hlayout, h => by
    have hlayout' : Layout aspace ((before ++ [r]) ++ rest) := by
      rwa [append_assoc, singleton_append]
    unfold searchGaps at h
    split at h
    · next spot' hgap =>
      cases h
      rw [← getLast?_concat (l := before)] at hgap
      exact hlayout'.insert_spot hsize hgap hspot flags
    · exact .search_gaps hsize hspot flags hlayout' h

section

variable {paddr : BitVec w} {ptr : Option (BitVec w)} {vmmFlags regionFlags : BitVec 32}
  {pages memory : Bool} {err : Status} (hlayout : Layout aspace regions)
include hlayout

theorem Layout.alloc_spot (hsize : 0 < size.toNat)
    (h : allocSpot aspace pickSpot regions size alignPow2 archMmuFlags = (spot, before, after))
    (hspot : spot ≠ -1#w) (flags : BitVec 32) :
    Layout aspace (before ++ ⟨spot, size, flags, archMmuFlags⟩ :: after) := by
  have hlayout' : Layout aspace ([] ++ regions) := hlayout
  simp only [allocSpot] at h
  split at h
  · next spot' hgap =>
    cases h
    exact hlayout'.insert_spot hsize hgap hspot flags
  · exact .search_gaps hsize hspot flags hlayout' h

/-- A region of size zero is refused at a specific address, and not asked for elsewhere. -/
theorem Layout.alloc_region
    (hsize : vmmFlags &&& vmmFlagVallocSpecific ≠ 0#32 ∨ size ≠ 0#w)
    (h : allocRegion aspace pickSpot regions size vaddr alignPow2 vmmFlags regionFlags archMmuFlags
      memory = some (r, result)) : Layout aspace result := by
  simp only [allocRegion] at h
  split at h
  · cases h
  split at h
  · split at h
    · next hadd =>
      cases h
      exact hlayout.add_region_to_aspace hadd
    · cases h
  next hany =>
  have hpos : 0 < size.toNat := Nat.pos_of_ne_zero fun hzero =>
    hsize.elim hany fun hne => hne (BitVec.eq_of_toNat_eq hzero)
  obtain ⟨hne, h⟩ := ite_none_left_eq_some.mp h
  cases h
  exact hlayout.alloc_spot hpos rfl hne regionFlags

/-! ### The functions -/

theorem Layout.remove_region (vaddr : BitVec w) :
    Layout aspace (vmmRemoveRegionLocked regions vaddr).2 := by
  unfold vmmRemoveRegionLocked
  split
  · exact hlayout
  · refine ⟨fun q hq => hlayout.inside q (mem_of_mem_eraseP hq), ?_⟩
    have hpairwise := isChain_iff_pairwise.mp hlayout.chain
    exact (hpairwise.sublist eraseP_sublist).isChain

theorem Layout.alloc_mapped (hsize : size ≠ 0#w) :
    Layout aspace (allocMapped aspace pickSpot regions size vaddr alignPow2 vmmFlags archMmuFlags
      memory err).regions := by
  unfold allocMapped
  split
  · exact hlayout
  next r result halloc =>
  have hresult := hlayout.alloc_region (.inr hsize) halloc
  split
  · exact hresult.remove_region r.base
  · exact hresult

theorem Layout.reserve_space :
    Layout aspace (vmmReserveSpace aspace pickSpot regions size vaddr archMmuFlags memory).2 := by
  unfold vmmReserveSpace
  split
  · exact hlayout
  split
  · exact hlayout
  split
  · exact hlayout
  · split
    · next halloc => exact hlayout.alloc_region (.inl (by decide)) halloc
    · exact hlayout

theorem Layout.alloc_physical :
    Layout aspace (vmmAllocPhysical aspace pickSpot regions size ptr alignPow2 paddr vmmFlags
      archMmuFlags memory err).regions := by
  unfold vmmAllocPhysical
  split
  · exact hlayout
  next hsize =>
  split
  · exact hlayout
  · split
    · exact hlayout
    · exact hlayout.alloc_mapped hsize

theorem Layout.alloc_contiguous :
    Layout aspace (vmmAllocContiguous aspace pickSpot regions size ptr alignPow2 vmmFlags
      archMmuFlags pages memory err).regions := by
  simp only [vmmAllocContiguous]
  split
  · exact hlayout
  next hsize =>
  split
  · exact hlayout
  · split
    · exact hlayout
    · exact hlayout.alloc_mapped hsize

theorem Layout.alloc {map : ℕ → Status} :
    Layout aspace (vmmAlloc aspace pickSpot regions size ptr alignPow2 vmmFlags archMmuFlags pages
      memory map).regions := by
  simp only [vmmAlloc]
  split
  · exact hlayout
  next hsize =>
  split
  · exact hlayout
  split
  · exact hlayout
  · split
    · exact hlayout.alloc_mapped hsize
    · exact hlayout.alloc_mapped hsize

theorem Layout.perform :
    ∀ action, Layout aspace (perform aspace pickSpot regions action)
  | .reserveSpace .. => hlayout.reserve_space
  | .allocPhysical .. => hlayout.alloc_physical
  | .allocContiguous .. => hlayout.alloc_contiguous
  | .alloc .. => hlayout.alloc
  | .freeRegion vaddr => hlayout.remove_region vaddr

end

theorem Reachable.layout (h : Reachable aspace pickSpot regions) : Layout aspace regions := by
  refine Transition.Reachable.invariant_from ⟨by simp, .nil⟩ ?_ h
  intro regions action _ hlayout _ hstep
  cases hstep
  exact hlayout.perform action

end Layout

/-- The region is not empty, does not wrap, and is inside the address space, in the terms of the
source. -/
def Inside (aspace : Aspace w) (r : Region w) : Prop :=
  r.size ≠ 0#w ∧ r.base ≤ r.last ∧ aspace.base ≤ r.base ∧ r.last ≤ aspace.last

theorem RegionInv.to_inside {aspace : Aspace w} {r : Region w} (hinv : RegionInv aspace r) :
    Inside aspace r := by
  have hpos := hinv.size_pos
  have hend := hinv.end_le
  refine ⟨?_, (le_last_iff hpos).mpr hinv.fits, BitVec.le_def.mpr hinv.base_le, ?_⟩
  · intro hzero
    rw [hzero] at hpos
    exact absurd hpos (by simp)
  · rw [BitVec.le_def, hinv.toNat_last, toNat_aspace_last]
    omega

/-- Whatever the calls and the results of the rest of the kernel, the regions of an address space
are in the order of their bases and apart, and each is not empty, does not wrap and is inside the
address space, also if that ends at the largest address. -/
theorem regions_sorted_disjoint_inside {aspace : Aspace w} {pickSpot : PickSpot w}
    {regions : List (Region w)} (h : Reachable aspace pickSpot regions) :
    regions.Pairwise (fun a b => a.base < b.base) ∧
      regions.Pairwise (fun a b => a.last < b.base) ∧ ∀ r ∈ regions, Inside aspace r := by
  have hlayout := h.layout
  have hapart := isChain_iff_pairwise.mp hlayout.chain
  refine ⟨?_, ?_, fun r hr => (hlayout.inside r hr).to_inside⟩
  · refine hapart.imp_of_mem fun {a b} ha _ hab => ?_
    have hpos := (hlayout.inside a ha).size_pos
    unfold Before at hab
    exact BitVec.lt_def.mpr (by omega)
  · exact hapart.imp_of_mem fun {a b} ha _ hab => (hlayout.inside a ha).last_lt_iff.mpr hab

/-- The last four pages of a 64-bit address range. The last of them is reserved, a mapping of two
pages in front of it fails, and one page then gets the first spot. -/
theorem regions_sorted_disjoint_inside_top :
    ∃ (aspace : Aspace 64) (regions : List (Region 64)),
      aspace.base + aspace.size = 0#64 ∧ Reachable aspace archMmuPickSpot regions ∧
      regions.map (fun r => (r.base, r.last)) = [(aspace.base, 0xffffffffffffcfff#64),
        (0xfffffffffffff000#64, aspace.last)] ∧
      regions.Pairwise (fun a b => a.last < b.base) ∧ ∀ r ∈ regions, Inside aspace r := by
  let aspace : Aspace 64 := ⟨0xffffffffffffc000#64, 0x4000#64, by decide, by decide⟩
  obtain ⟨regions, hreach, hregions⟩ := exists_reachable
    (step aspace archMmuPickSpot) Always []
    (P := fun regions => regions.map (fun r => (r.base, r.last)) =
      [(aspace.base, 0xffffffffffffcfff#64), (0xfffffffffffff000#64, aspace.last)])
    [.reserveSpace 0x2000#64 0xfffffffffffff000#64 0#32 true,
      .allocContiguous 0x1fff#64 none 0 0#32 0#32 true true errNoMemory,
      .alloc 0x1000#64 none 0 0#32 0#32 true true fun _ => noError]
    (admits_always _ _) (by decide)
  obtain ⟨_, hapart, hinside⟩ := regions_sorted_disjoint_inside hreach
  exact ⟨aspace, regions, by decide, hreach, hregions, hapart, hinside⟩

end NusaKernel.Vmm
