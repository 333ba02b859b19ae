import NusaKernel.Kernel.Status
import NusaKernel.Lib.Coverage
import NusaKernel.Vm.Pmm

/-!
# The page allocator without virtual memory

`kernel/novm/novm.c` on a 64-bit target. There is a fixed number of arenas, and each has a map with
a byte for each of its pages. Addresses are numbers, and the arithmetic of the source goes round at
`2 ^ 64`.

The map is in a static array, which can be longer than the arena has pages, or in the memory of the
arena in front of its pages. A call that reads a map beyond its memory has no result. A call holds
the lock of the arena it works on, and touches one arena, so it is one step.
-/

namespace NusaKernel.Novm

open Word Walk

/-- `MINIMUM_USEFUL_UNALIGNED_SIZE`. -/
def minimumUsefulUnalignedSize : ℕ := 64

/-- `NOVM_ARENA_ANY`. -/
def novmArenaAny : BitVec 32 := 0xffffffff#32

/-- `struct novm_arena`. `mapSize` is how many bytes there are at `map`, and `unaligned` is the
unaligned area and its size, if there is one. -/
structure Arena where
  pages : ℕ
  map : ℕ → Bool
  mapSize : ℕ
  base : ℕ
  size : ℕ
  unaligned : Option (ℕ × ℕ)

/-- An arena that is not set up. -/
def Arena.empty : Arena := ⟨0, fun _ => false, 0, 0, 0, none⟩

/-! ## Setting up an arena -/

/-- The pages of an arena: where they start, their size, and how many they are. -/
structure Extent where
  start : ℕ
  size : ℕ
  mapSize : ℕ

/-- The loop of `novm_init_helper` that grabs pages for the map until it fits in front. -/
def growMap (arenaStart : ℕ) : ℕ → ℕ → ℕ → Extent
  | 0, start, size => ⟨start, size, 0⟩
  | mapSize + 1, start, size =>
    if sub64 start arenaStart < mapSize + 1 then
      growMap arenaStart mapSize ((start + pageSize) % 2 ^ 64) (sub64 size pageSize)
    else ⟨start, size, mapSize + 1⟩

/-- The page range that `novm_init_helper` begins with. -/
def wholePages (arenaStart arenaSize : ℕ) : Extent :=
  let start := roundup64 arenaStart pageSize
  let size := sub64 (rounddown64 ((arenaStart + arenaSize) % 2 ^ 64) pageSize) start
  ⟨start, size, size / pageSize⟩

/-- `novm_init_helper`, with the size of the default map if there is one. -/
def novmInitHelper (n : Arena) (arenaStart arenaSize : ℕ) (defaultMap : Option ℕ) : Arena :=
  let whole := wholePages arenaStart arenaSize
  match defaultMap.filter (whole.mapSize ≤ ·) with
  | some defaultMapSize =>
    { pages := whole.mapSize, map := fun _ => false, mapSize := defaultMapSize
      base := whole.start, size := whole.size
      unaligned :=
        if minimumUsefulUnalignedSize ≤ sub64 whole.start arenaStart then
          some (arenaStart, sub64 whole.start arenaStart)
        else n.unaligned }
  | none =>
    -- allocate the map out of the arena itself
    let rest := growMap arenaStart whole.mapSize whole.start whole.size
    let mapEnd := arenaStart + roundup64 rest.mapSize 4
    { pages := rest.mapSize, map := fun _ => false, mapSize := rest.mapSize
      base := rest.start, size := rest.size
      unaligned :=
        -- the difference of the pointers is signed
        if mapEnd + minimumUsefulUnalignedSize ≤ rest.start then some (mapEnd, rest.start - mapEnd)
        else n.unaligned }

/-- The arena that is left after the part up to the end of the kernel is cut off, if that is in
it. -/
def trimKernel (endOfKernel arenaStart arenaSize : ℕ) : ℕ × ℕ :=
  if arenaStart < endOfKernel ∧ endOfKernel < (arenaStart + arenaSize) % 2 ^ 64 then
    (endOfKernel, arenaSize - (endOfKernel - arenaStart))
  else (arenaStart, arenaSize)

/-- `novm_add_arena`. It panics if no arena is left. -/
def novmAddArena (endOfKernel : ℕ) (arenaStart arenaSize : ℕ) : List Arena → Option (List Arena)
  | [] => none
  | n :: rest =>
    if n.pages = 0 then
      let (arenaStart, arenaSize) := trimKernel endOfKernel arenaStart arenaSize
      some (novmInitHelper n arenaStart arenaSize none :: rest)
    else (novmAddArena endOfKernel arenaStart arenaSize rest).map (n :: ·)

/-- `novm_init`: the memory from the end of the kernel, with a static map for all memory. -/
def novmInit (endOfKernel memBase memSize : ℕ) : List Arena → List Arena
  | [] => []
  | n :: rest =>
    novmInitHelper n endOfKernel (memBase + memSize - endOfKernel) (some (memSize / pageSize)) ::
      rest

/-! ## Allocating and freeing -/

/-- `in_arena`. -/
def inArena (n : Arena) (ptr : ℕ) : Bool :=
  n.size ≠ 0 ∧ n.base ≤ ptr ∧ ptr < (n.base + n.size) % 2 ^ 64

/-- The index of the page of an address. -/
def Arena.index (n : Arena) (address : ℕ) : ℕ := (address - n.base) / pageSize

/-- Write a part of the map. -/
def Arena.mark (n : Arena) (index pages : ℕ) (value : Bool) : Arena :=
  { n with map := fun i => if index ≤ i ∧ i < index + pages then value else n.map i }

/-- The loop of `novm_alloc_helper` from page `i` on. -/
def findPages (n : Arena) (pages : ℕ) : ℕ → ℕ → Option ℕ
  | 0, _ => none
  | fuel + 1, i =>
    if i ≤ n.pages - pages then
      match (List.range pages).find? fun j => n.map (i + j) with
      | none => some i
      | some j => findPages n pages fuel (i + j + 1)
    else none

/-- `novm_alloc_helper`. The loop takes at most one turn for each page and one more. -/
def novmAllocHelper (n : Arena) (pages : ℕ) : Option (ℕ × Arena) :=
  if pages = 0 ∨ n.pages < pages then none
  else
    (findPages n pages (n.pages + 1) 0).map fun i =>
      (n.base + i * pageSize, n.mark i pages true)

/-- A turn of the loop of `novm_alloc_pages`, with the number of the arena and the result. -/
def allocTurn (pages : ℕ) (arenaBitmap : BitVec 32) (n : Arena) (state : ℕ × Option ℕ) :
    Arena × (ℕ × Option ℕ) × Bool :=
  if arenaBitmap.getLsbD state.1 then
    match novmAllocHelper n pages with
    | some (result, n') =>
      -- a null pointer is no result
      if result = 0 then (n', (state.1 + 1, none), false)
      else (n', (state.1 + 1, some result), true)
    | none => (n, (state.1 + 1, none), false)
  else (n, (state.1 + 1, none), false)

/-- `novm_alloc_pages`. -/
def novmAllocPages (arenas : List Arena) (pages : ℕ) (arenaBitmap : BitVec 32) :
    Option ℕ × List Arena :=
  let (arenas, _, result) := walk (allocTurn pages arenaBitmap) arenas (0, none)
  (result, arenas)

/-- `novm_alloc_unaligned`: the address, the size stored through `size_return`, and the arenas. -/
def novmAllocUnaligned : List Arena → Option ℕ × ℕ × List Arena
  | [] => (none, pageSize, [])
  | n :: rest =>
    match n.unaligned with
    | some (area, size) => (some area, size, { n with unaligned := none } :: rest)
    | none =>
      let (result, arenas) := novmAllocPages (n :: rest) 1 novmArenaAny
      (result, pageSize, arenas)

/-- A turn of `novm_free_pages`. -/
def freeTurn (address pages : ℕ) (n : Arena) (state : Unit) : Arena × Unit × Bool :=
  if inArena n address then (n.mark (n.index address) pages false, state, true)
  else (n, state, false)

/-- `novm_free_pages`. -/
def novmFreePages (arenas : List Arena) (address pages : ℕ) : List Arena :=
  (walk (freeTurn address pages) arenas ()).1

/-- A turn of `novm_alloc_specific_pages`, with its result. There is none if it reads beyond the
map. -/
def specificTurn (address pages : ℕ) (n : Arena) (state : Option Status) :
    Arena × Option Status × Bool :=
  if inArena n address then
    let index := n.index address
    match (List.range pages).find? fun i => n.mapSize ≤ index + i ∨ n.map (index + i) with
    | some i => (n, if n.mapSize ≤ index + i then none else some errNoMemory, true)
    | none => (n.mark index pages true, some noError, true)
  else (n, state, false)

/-- `novm_alloc_specific_pages`. -/
def novmAllocSpecificPages (arenas : List Arena) (address pages : ℕ) :
    Option (Status × List Arena) :=
  let (arenas, result) := walk (specificTurn address pages) arenas (some errNotFound)
  result.map fun err => (err, arenas)

end NusaKernel.Novm
