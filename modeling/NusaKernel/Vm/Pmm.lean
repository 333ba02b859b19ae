import NusaKernel.Lib.Transition
import NusaKernel.Lib.Walk
import NusaKernel.Lib.Word

/-!
# The physical page allocator

`kernel/vm/pmm.c` and `kernel/vm/bootalloc.c` on a 64-bit target. Memory comes in arenas. For each
of its pages an arena has a `vm_page_t` in its page array and, while the page is free, in its free
list. A page is known by the address of its `vm_page_t`; these are numbers here, as are physical
addresses, and the arithmetic of the source goes round where it can: in the address that
`pmm_alloc_range` steps through, in the rounding to an alignment, and in the `uint` counts of
`pmm_alloc_contiguous`.

A call holds the lock of the allocator, so it is one step. A call that would read beyond a page
array, or that does not return, has no result.
-/

namespace NusaKernel

open Walk Word

/-- `PAGE_SIZE_SHIFT`. -/
def pageSizeShift : ℕ := 12

/-- `PAGE_SIZE`. -/
def pageSize : ℕ := 4096

namespace Pmm

/-- `sizeof(vm_page_t)`. -/
def vmPageSize : ℕ := 24

/-- `VM_PAGE_FLAG_NONFREE`. -/
def vmPageFlagNonfree : BitVec 8 := 0x1#8

/-- `PMM_ARENA_FLAG_KMAP`. -/
def pmmArenaFlagKmap : BitVec 32 := 0x1#32

/-- The flags of the page structures, by address. -/
abbrev Flags := ℕ → BitVec 8

/-- The part of a `pmm_arena_t` that is filled in before `pmm_add_arena`, with what that asserts.
An arena may end at the largest address. -/
structure ArenaInfo where
  flags : BitVec 32
  priority : UInt32
  base : ℕ
  size : ℕ
  base_aligned : base % pageSize = 0
  size_aligned : size % pageSize = 0
  size_pos : 0 < size
  fits : base + size ≤ 2 ^ 64

/-- `pmm_arena_t`. -/
structure Arena extends ArenaInfo where
  pageArray : ℕ
  array_fits : pageArray + size / pageSize * vmPageSize < 2 ^ 64
  freeCount : ℕ
  freeList : List ℕ

/-- The arenas in their list, the flags of their pages, and where the memory that
`boot_alloc_mem` has handed out ends. -/
structure State where
  arenas : List Arena
  flags : Flags
  bootAllocEnd : ℕ

/-! ## Pages -/

variable (a : Arena)

/-- The number of pages of an arena. -/
def Arena.pageCount : ℕ := a.size / pageSize

/-- `&a->page_array[i]`. -/
def Arena.page (i : ℕ) : ℕ := a.pageArray + i * vmPageSize

/-- The pages of an arena. -/
def Arena.pages : List ℕ := (List.range a.pageCount).map a.page

variable (page : ℕ)

/-- `PAGE_BELONGS_TO_ARENA`. -/
def pageBelongsToArena (a : Arena) : Bool :=
  a.pageArray ≤ page ∧ page < a.pageArray + a.pageCount * vmPageSize

/-- `PAGE_ADDRESS_FROM_ARENA`. -/
def pageAddressFromArena (a : Arena) : ℕ := (page - a.pageArray) / vmPageSize * pageSize + a.base

/-- `ADDRESS_IN_ARENA`. -/
def addressInArena (address : ℕ) (a : Arena) : Bool :=
  a.base ≤ address ∧ address ≤ a.base + a.size - 1

variable (flags : Flags)

/-- `page_is_free`. -/
def pageIsFree (page : ℕ) : Bool := flags page &&& vmPageFlagNonfree = 0#8

/-- `page->flags |= VM_PAGE_FLAG_NONFREE`. -/
def setNonfree (page : ℕ) : Flags := Function.update flags page (flags page ||| vmPageFlagNonfree)

/-- `page->flags &= ~VM_PAGE_FLAG_NONFREE`. -/
def clearNonfree (page : ℕ) : Flags :=
  Function.update flags page (flags page &&& ~~~vmPageFlagNonfree)

/-- `vm_page_to_paddr`. -/
def vmPageToPaddr (arenas : List Arena) (page : ℕ) : ℕ :=
  match arenas.find? (pageBelongsToArena page) with
  | some a => pageAddressFromArena page a
  | none => 2 ^ 64 - 1

/-- `paddr_to_vm_page`. -/
def paddrToVmPage (arenas : List Arena) (addr : ℕ) : Option ℕ :=
  (arenas.find? (addressInArena addr)).map fun a => a.page ((addr - a.base) / pageSize)

/-- Take a page out of the free list of its arena. -/
def Arena.take : Arena :=
  { a with freeList := a.freeList.erase page, freeCount := a.freeCount - 1 }

/-- Put a page at the head of the free list of its arena. -/
def Arena.release : Arena :=
  { a with freeList := page :: a.freeList, freeCount := a.freeCount + 1 }

/-- Put a page at the tail of the free list of its arena. -/
def Arena.addPage : Arena :=
  { a with freeList := a.freeList ++ [page], freeCount := a.freeCount + 1 }

/-! ## Adding an arena -/

/-- Round up to a multiple of eight. -/
def align8 (x : ℕ) : ℕ := (x + 7) / 8 * 8

/-- `boot_alloc_mem`: the address, and the new end. -/
def bootAllocMem (bootAllocEnd len : ℕ) : ℕ × ℕ :=
  (align8 bootAllocEnd, align8 bootAllocEnd + align8 len)

/-- The arena list with a new arena, in the order of priorities. -/
def addByPriority (arena : Arena) : List Arena → List Arena
  | [] => [arena]
  | a :: rest =>
    if arena.priority < a.priority then arena :: a :: rest else a :: addByPriority arena rest

/-- Zero the page array. -/
def Arena.zeroPages : Flags := fun page =>
  if pageBelongsToArena page a then 0#8 else flags page

/-- Add all of the pages to the free list. -/
def Arena.addPages : Arena := a.pages.foldl Arena.addPage a

variable (s : State)

/-- `pmm_add_arena`. There is memory for the page array, so its addresses do not go round. -/
def pmmAddArena (info : ArenaInfo) : Option State :=
  let array := bootAllocMem s.bootAllocEnd (info.size / pageSize * vmPageSize)
  if h : array.1 + info.size / pageSize * vmPageSize < 2 ^ 64 then
    let arena : Arena := ⟨info, array.1, h, 0, []⟩
    some ⟨addByPriority arena.addPages s.arenas, arena.zeroPages s.flags, array.2⟩
  else none

/-! ## Allocating -/

/-- The flags of the pages and the pages added to the caller's list so far. -/
structure Progress where
  flags : Flags
  list : List ℕ

/-- Take a page, which goes to the tail of the caller's list. -/
def Progress.take (progress : Progress) (page : ℕ) : Progress :=
  ⟨setNonfree progress.flags page, progress.list ++ [page]⟩

/-- The inner loop of `pmm_alloc_pages`, for as many pages as are still wanted. -/
def popPages : ℕ → Arena → Progress → Arena × Progress × Bool
  | 0, a, progress => (a, progress, false)
  | wanted + 1, a, progress =>
    if a.freeCount = 0 then (a, progress, false)
    else
      match a.freeList with
      | [] => (a, progress, true)
      | page :: rest =>
        popPages wanted { a with freeList := rest, freeCount := a.freeCount - 1 }
          (progress.take page)

/-- `pmm_alloc_pages`: the pages added to the list. It returns how many they are. -/
def pmmAllocPages (count : UInt32) : List ℕ × State :=
  let (arenas, progress) := walk
    (fun a progress => popPages (count.toNat - progress.list.length) a progress)
    s.arenas ⟨s.flags, []⟩
  (progress.list, { s with arenas := arenas, flags := progress.flags })

/-- `pmm_alloc_page`. -/
def pmmAllocPage : Option ℕ × State :=
  let (list, s) := pmmAllocPages s 1
  (list.head?, s)

/-- The inner loop of `pmm_alloc_range`, for as many pages as are still wanted. -/
def takeRange : ℕ → Arena → Progress × BitVec 64 → Arena × Progress × BitVec 64
  | 0, a, state => (a, state)
  | wanted + 1, a, (progress, address) =>
    if addressInArena address.toNat a then
      let page := a.page ((address.toNat - a.base) / pageSize)
      if pageIsFree progress.flags page then
        takeRange wanted (a.take page) (progress.take page, address + BitVec.ofNat 64 pageSize)
      -- we hit an allocated page
      else (a, progress, address)
    else (a, progress, address)

/-- `pmm_alloc_range`: the pages added to the list. It returns how many they are. -/
def pmmAllocRange (address : BitVec 64) (count : UInt32) : List ℕ × State :=
  let (arenas, progress, _) := walk
    (fun a state =>
      let (a, state) := takeRange (count.toNat - state.1.list.length) a state
      (a, state, state.1.list.length = count.toNat))
    s.arenas (⟨s.flags, []⟩, address &&& ~~~(BitVec.ofNat 64 pageSize - 1#64))
  (progress.list, { s with arenas := arenas, flags := progress.flags })

/-- The search loop of `pmm_alloc_contiguous` in one arena: the index where a run of free pages
begins, or `none` for no run. There is no result if it reads beyond the page array or, with fuel for
each page of the arena, has not ended. -/
def findRun (a : Arena) (flags : Flags) (count alignedOffset : ℕ) (align : BitVec 64) :
    ℕ → ℕ → Option (Option ℕ)
  | 0, _ => none
  | fuel + 1, start =>
    -- the sum is a uint
    if start < a.pageCount ∧ (start + count) % 2 ^ 32 ≤ a.pageCount then
      match (List.range count).find? fun i =>
        a.pageCount ≤ start + i ∨ pageIsFree flags (a.page (start + i)) = false with
      | none => some (some start)
      | some i =>
        if a.pageCount ≤ start + i then none
        else
          -- this run is broken, start over at the next alignment boundary
          let offset := (start + (2 ^ 32 - alignedOffset) + i + 1) % 2 ^ 32
          findRun a flags count alignedOffset align fuel
            (((roundup (BitVec.ofNat 64 offset) align).toNat + alignedOffset) % 2 ^ 32)
    else some none

/-- What `pmm_alloc_contiguous` does to find a run in one arena. -/
def searchArena (count alignmentLog2 : ℕ) (a : Arena) : Option (Option ℕ) :=
  if a.flags &&& pmmArenaFlagKmap = 0#32 then some none
  else
    let roundedBase := (roundup (BitVec.ofNat 64 a.base) (1#64 <<< alignmentLog2)).toNat
    if roundedBase < a.base ∨ a.base + a.size - 1 < roundedBase then some none
    else
      let alignedOffset := (roundedBase - a.base) / pageSize % 2 ^ 32
      findRun a flags count alignedOffset (1#64 <<< (alignmentLog2 - pageSizeShift))
        (a.pageCount + 1) alignedOffset

/-- Take all of the pages out of the free list of an arena. -/
def takeAll : List ℕ → Arena → Progress → Arena × Progress
  | [], a, progress => (a, progress)
  | page :: rest, a, progress => takeAll rest (a.take page) (progress.take page)

/-- The pages from index `start` to before `start + count`, which is a uint. -/
def Arena.run (start count : ℕ) : List ℕ :=
  (List.range' start ((start + count) % 2 ^ 32 - start)).map a.page

/-- The loop of `pmm_alloc_contiguous` over the arenas: the physical address of the run. -/
def allocRun (count alignmentLog2 : ℕ) (progress : Progress) :
    List Arena → Option (Option ℕ × List Arena × Progress)
  | [] => some (none, [], progress)
  | a :: rest =>
    match searchArena progress.flags count alignmentLog2 a with
    | none => none
    | some (some start) =>
      let (a', progress) := takeAll (a.run start count) a progress
      some (some (a.base + start * pageSize), a' :: rest, progress)
    | some none =>
      match allocRun count alignmentLog2 progress rest with
      | none => none
      | some (pa, rest, progress) => some (pa, a :: rest, progress)

/-- What `pmm_alloc_contiguous` returns: the address it stores through `pa` if it returns `count`,
and `none` if it returns zero, and the pages added to the list. -/
structure Contiguous where
  pa : Option ℕ
  list : List ℕ

/-- `pmm_alloc_contiguous`. -/
def pmmAllocContiguous (count : UInt32) (alignmentLog2 : UInt8) : Option (Contiguous × State) :=
  if count = 0 then some (⟨none, []⟩, s)
  else
    let alignmentLog2 :=
      if alignmentLog2.toNat < pageSizeShift then pageSizeShift else alignmentLog2.toNat
    match allocRun count.toNat alignmentLog2 ⟨s.flags, []⟩ s.arenas with
    | none => none
    | some (pa, arenas, progress) =>
      some (⟨pa, progress.list⟩, { s with arenas := arenas, flags := progress.flags })

/-- `pmm_alloc_kpages` up to the call of `paddr_to_kvaddr`: the physical address of the pages. -/
def allocKpages (count : UInt32) : Option (Option ℕ × State) :=
  -- fast path for single page
  if count = 1 then
    let (page, s) := pmmAllocPage s
    some (page.map (vmPageToPaddr s.arenas), s)
  else
    match pmmAllocContiguous s count (UInt8.ofNat pageSizeShift) with
    | none => none
    | some (result, s) => some (result.pa, s)

/-! ## Freeing -/

/-- Give a page back to its arena, if it has one, and count it. -/
def freeTurn (a : Arena) (state : Flags × ℕ) : Arena × (Flags × ℕ) × Bool :=
  if pageBelongsToArena page a then
    (a.release page, (clearNonfree state.1 page, state.2 + 1), true)
  else (a, state, false)

/-- The loop of `pmm_free`. -/
def freeAll : List ℕ → List Arena → Flags × ℕ → List Arena × Flags × ℕ
  | [], arenas, state => (arenas, state)
  | page :: rest, arenas, state =>
    let (arenas, state) := walk (freeTurn page) arenas state
    freeAll rest arenas state

/-- `pmm_free`. -/
def pmmFree (list : List ℕ) : ℕ × State :=
  let (arenas, flags, count) := freeAll list s.arenas (s.flags, 0)
  (count, { s with arenas := arenas, flags := flags })

/-- The pages that `pmm_free_kpages` passes to `pmm_free`, with the function `vaddr_to_paddr`. -/
def kpages (vaddrToPaddr : BitVec 64 → ℕ) (s : State) (ptr : BitVec 64) (count : UInt32) : List ℕ :=
  (List.range count.toNat).filterMap fun i =>
    paddrToVmPage s.arenas (vaddrToPaddr (ptr + BitVec.ofNat 64 (i * pageSize)))

end Pmm

end NusaKernel
