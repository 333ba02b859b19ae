import NusaKernel.Bio.Bytes
import NusaKernel.Lib.CircularList
import NusaKernel.Lib.Transition

/-!
# The block cache (`lib/bcache/bcache.c`)

A cache has a fixed number of blocks, which carry the links of the list they are on: the free
list, or the list of blocks in use with the least recently used one first. The lists are those of
`nusa/list.h`, modelled down to their pointers, since one path of the code links a block into a
second list. An access through a null pointer, a list head taken for a block, and a loop that does
not end have no result. `DEBUG_ASSERT` is compiled into no build.

The counters of `bcache_dump` are left out.
-/

namespace NusaKernel.Bcache

open List Function CircularList
open NusaKernel.Bio (Bdev Outcome bioReadVia bioWriteVia)

/-- The nodes of a cache: the heads of its two lists, and its blocks. -/
inductive Node (n : ℕ) where
  | freeList
  | lruList
  | block (i : Fin n)
deriving DecidableEq

/-- `struct bcache_block`, with the bytes that `ptr` points to. -/
structure Block where
  blocknum : ℕ
  refCount : ℤ
  isDirty : Bool
  data : List UInt8

/-- The parameters of `bcache_create`, and whether the byte hooks of the device are the default
ones. A count that `bio_read` returns is kept in an `int`, so that larger blocks could not be told
from errors. -/
structure Config where
  dev : Bdev
  defaultHooks : Bool
  blockSize : ℕ
  size_lt : blockSize < 2 ^ 31

/-- `struct bcache`, and the bytes on the device. -/
structure Cache (n : ℕ) where
  links : Links (Node n)
  block : Fin n → Block
  disk : ℕ → UInt8

/-- What `malloc` returned for the blocks. -/
structure Memory (config : Config) (n : ℕ) where
  block : Fin n → Block
  length_eq : ∀ i, (block i).data.length = config.blockSize

/-- How the hooks of the device end in one call: a write of a cache block, and a read. No call
writes a block twice or reads twice. -/
structure Io (n : ℕ) where
  write : Fin n → Outcome
  read : Outcome

/-- The device without errors. -/
def Io.ok {n : ℕ} : Io n := ⟨fun _ => .ok, .ok⟩

variable {n : ℕ}

/-- A block is changed. -/
def Cache.setBlock (c : Cache n) (i : Fin n) (block : Block) : Cache n :=
  { c with block := update c.block i block }

@[simp] theorem Cache.set_block_self (c : Cache n) (i : Fin n) (block : Block) :
    (c.setBlock i block).block i = block :=
  update_self ..

theorem Cache.set_block_of_ne (c : Cache n) {i j : Fin n} (block : Block) (h : j ≠ i) :
    (c.setBlock i block).block j = c.block j :=
  update_of_ne h ..

@[simp] theorem Cache.set_block_disk (c : Cache n) (i : Fin n) (block : Block) :
    (c.setBlock i block).disk = c.disk := rfl

section Model

variable (config : Config)

/-- `bcache_create`. The memory of the blocks holds whatever it held before. -/
def bcacheCreate (memory : Memory config n) (disk : ℕ → UInt8) : Option (Cache n) := do
  let links : Links (Node n) := ⟨fun _ => true, fun _ => none, fun _ => none⟩
  let links ← makeHead links .freeList
  let links ← makeHead links .lruList
  let links ← (finRange n).foldlM
    (fun links i => addHead links .freeList (.block i)) links
  some ⟨links, fun i => { memory.block i with refCount := 0, isDirty := false }, disk⟩

/-- `(off_t)blocknum * cache->block_size`. -/
def offset (blocknum : ℕ) : ℤ := Bio.toOff (blocknum * config.blockSize : ℕ)

variable (io : Io n)

variable (c : Cache n)

variable (i : Fin n)

/-- `flush_block`: whether the result is zero, and the cache after it. -/
def flushBlock : Bool × Cache n :=
  let written := bioWriteVia config.defaultHooks config.dev c.disk (io.write i) (c.block i).data
    (offset config (c.block i).blocknum)
  if wrapInt written.1 < 0 then (false, { c with disk := written.2 })
  else (true, { c with disk := written.2 }.setBlock i { c.block i with isDirty := false })

/-- A loop over the LRU list that looks for a block. A loop that has not ended after more steps
than there are nodes goes on for ever. -/
def search (p : Block → Bool) : Option (Option (Fin n)) :=
  loop c.links .lruList (fun node _ =>
    match node with
    | .block i => if p (c.block i) then some (some i, false) else some (none, true)
    | _ => none) (n + 3) none

/-- `list_delete` and `list_add_tail` to the LRU list. -/
def moveToTail : Option (Cache n) := do
  let links ← delete c.links (.block i)
  let links ← addTail links .lruList (.block i)
  some { c with links := links }

variable (blocknum : ℕ)

/-- `find_block`. -/
def findBlock : Option (Option (Fin n) × Cache n) := do
  let found ← search c fun b => b.blocknum = blocknum
  match found with
  | none => some (none, c)
  | some i => do
      let c ← moveToTail c i
      some (some i, c)

/-- What `alloc_block` does with a block that is not held. -/
def takeBlock : Option (Option (Fin n) × Cache n) :=
  let (clean, c) := if (c.block i).isDirty then flushBlock config io c i else (true, c)
  if clean then (moveToTail c i).map fun c => (some i, c) else some (none, c)

/-- The walk of `alloc_block` over the LRU list. -/
def evictBlock : Option (Option (Fin n) × Cache n) := do
  let found ← search c fun b => b.refCount = 0
  match found with
  | none => some (none, c)
  | some i => takeBlock config io c i

/-- `alloc_block`. -/
def allocBlock : Option (Option (Fin n) × Cache n) := do
  let (head, links) ← removeHead c.links .freeList
  match head with
  | none => evictBlock config io c
  | some (.block i) => do
      let c := { c with links := links }.setBlock i { c.block i with refCount := 0 }
      let links ← addTail c.links .lruList (.block i)
      some (some i, { c with links := links })
  | some _ => none

/-- What `find_or_fill_block` does with a block that `alloc_block` returned. -/
def fillBlock (blocknum : ℕ) : Option (Option (Fin n) × Cache n) :=
  let filled := bioReadVia config.defaultHooks config.dev c.disk io.read (c.block i).data
    (offset config blocknum)
  let c := c.setBlock i { c.block i with blocknum := blocknum, data := filled.2 }
  if wrapInt filled.1 < 0 then do
    let links ← addTail c.links .freeList (.block i)
    some (none, { c with links := links })
  else some (some i, c)

/-- `find_or_fill_block`. Without a block it writes through the null pointer. -/
def findOrFillBlock :
    Option (Option (Fin n) × Cache n) := do
  let (found, c) ← findBlock c blocknum
  match found with
  | some i => some (some i, c)
  | none => do
      let (block, c) ← allocBlock config io c
      match block with
      | none => none
      | some i => fillBlock config io c i blocknum

/-- `bcache_read_block`: the bytes copied, or an error. -/
def bcacheReadBlock :
    Option (Option (List UInt8) × Cache n) := do
  let (block, c) ← findOrFillBlock config io c blocknum
  some (block.map fun i => (c.block i).data, c)

/-- `bcache_get_block`: the block whose `ptr` is returned, or an error. -/
def bcacheGetBlock :
    Option (Option (Fin n) × Cache n) := do
  let (block, c) ← findOrFillBlock config io c blocknum
  match block with
  | none => some (none, c)
  | some i => some (some i, c.setBlock i { c.block i with refCount := (c.block i).refCount + 1 })

/-- `bcache_put_block`. -/
def bcachePutBlock : Option (Cache n) := do
  let (block, c) ← findBlock c blocknum
  match block with
  | none => none
  | some i => some (c.setBlock i { c.block i with refCount := (c.block i).refCount - 1 })

/-- `bcache_mark_block_dirty`: whether the result is zero. -/
def bcacheMarkBlockDirty : Option (Bool × Cache n) := do
  let (block, c) ← findBlock c blocknum
  match block with
  | none => some (false, c)
  | some i => some (true, c.setBlock i { c.block i with isDirty := true })

/-- The bytes of a block set to zero and marked. -/
def zeroData : Cache n :=
  c.setBlock i { c.block i with data := replicate config.blockSize 0, isDirty := true }

/-- `bcache_zero_block`: whether the result is zero. -/
def bcacheZeroBlock : Option (Bool × Cache n) := do
  let (found, c) ← findBlock c blocknum
  match found with
  | some i => some (true, zeroData config c i)
  | none => do
      let (block, c) ← allocBlock config io c
      match block with
      | none => some (false, c)
      | some i =>
        some (true, zeroData config (c.setBlock i { c.block i with blocknum := blocknum }) i)

/-- One round of the loop of `bcache_flush`, which ends when a block cannot be written. -/
def flushTurn : Node n → Bool × Cache n → Option ((Bool × Cache n) × Bool)
  | .block i, (_, c) =>
    if (c.block i).isDirty then
      let (clean, c) := flushBlock config io c i
      some ((clean, c), clean)
    else some ((true, c), true)
  | _, _ => none

/-- `bcache_flush`: whether the result is zero. -/
def bcacheFlush : Option (Bool × Cache n) :=
  loop c.links .lruList (flushTurn config io) (n + 3) (true, c)

end Model

variable (config : Config)

theorem zero_data_set_block (c : Cache n) (i : Fin n) (block : Block) :
    zeroData config (c.setBlock i block) i = c.setBlock i
      { block with data := replicate config.blockSize 0, isDirty := true } := by
  unfold zeroData Cache.setBlock
  dsimp only
  rw [update_idem, update_self]

/-! ## The two lists -/

/-- The blocks of the free list and of the LRU list: every block is on exactly one of them. -/
structure Lists (links : Links (Node n)) (free lru : List (Fin n)) : Prop where
  allocated : ∀ node, links.allocated node = true
  free_list : IsList links .freeList (free.map .block)
  lru_list : IsList links .lruList (lru.map .block)
  perm : (free ++ lru).Perm (finRange n)

variable {links links' : Links (Node n)} {free lru : List (Fin n)} {i : Fin n}

theorem block_injective : Injective (@Node.block n) := fun _ _ h => Node.block.inj h

section

variable (h : Lists links free lru)
include h

theorem Lists.nodup : (free ++ lru).Nodup := h.perm.nodup_iff.mpr (nodup_finRange n)

theorem Lists.lru_nodup : lru.Nodup := h.nodup.of_append_right

theorem Lists.disjoint (hfree : i ∈ free) : i ∉ lru :=
  fun hlru => (nodup_append.mp h.nodup).2.2 i hfree i hlru rfl

theorem Lists.lru_length : lru.length ≤ n := by
  have hlength := h.perm.length_eq
  rw [length_append, length_finRange] at hlength
  omega

end

/-- A list of blocks does not notice writes to other nodes. -/
theorem is_list_frame {head : Node n} {blocks : List (Fin n)} {nodes : List (Node n)}
    (h : IsList links head (blocks.map .block)) (hframe : Frame links links' nodes)
    (hhead : head ∉ nodes) (hblocks : ∀ j ∈ blocks, Node.block j ∉ nodes) :
    IsList links' head (blocks.map .block) := by
  refine h.congr fun node hnode => hframe.same_at ?_
  exact (forall_mem_cons (p := (· ∉ nodes))).mpr ⟨hhead, forall_mem_map.mpr hblocks⟩ node hnode

theorem Lists.move_to_tail {c : Cache n} (h : Lists c.links free lru) (hi : i ∈ lru) :
    ∃ links', moveToTail c i = some { c with links := links' } ∧
      Lists links' free (lru.erase i ++ [i]) := by
  obtain ⟨links₁, hdelete, hlist, -, -, hframe⟩ :=
    h.lru_list.delete (List.mem_map_of_mem (f := Node.block) hi)
  rw [← map_erase block_injective] at hlist
  have hfresh : Node.block i ∉ Node.lruList :: (lru.erase i).map Node.block := by
    simp [h.lru_nodup.not_mem_erase]
  have halloc : ∀ node, links₁.allocated node = true := fun node => by
    rw [hframe.allocated]
    exact h.allocated node
  obtain ⟨links₂, hadd, hlist', hframe'⟩ := hlist.add_tail hfresh (halloc _)
  refine ⟨links₂, ?_, ⟨fun node => ?_, ?_, ?_, ?_⟩⟩
  · unfold moveToTail
    rw [hdelete]
    show (addTail links₁ .lruList (.block i)).bind _ = _
    rw [hadd]
    rfl
  · rw [hframe'.allocated]
    exact halloc node
  · have hfree := is_list_frame h.free_list hframe (by simp) fun j hj => by
      simpa using h.disjoint hj
    refine is_list_frame hfree hframe' (by simp) fun j hj => ?_
    have hnot := h.disjoint hj
    have hne : j ≠ i := fun heq => hnot (heq ▸ hi)
    simpa [hne] using hnot
  · simpa using hlist'
  · have hmove : (lru.erase i ++ [i]).Perm lru :=
      (perm_append_singleton i _).trans (perm_cons_erase hi).symm
    exact (hmove.append_left free).trans h.perm

/-- The first block of the free list is put at the end of the LRU list. -/
theorem Lists.take_free (h : Lists links (i :: free) lru) :
    ∃ links₁ links₂, removeHead links .freeList = some (some (.block i), links₁) ∧
      addTail links₁ .lruList (.block i) = some links₂ ∧
      Lists links₂ free (lru ++ [i]) := by
  obtain ⟨links₁, hremove, hlist, hframe⟩ := h.free_list.remove_head_cons
  have hi : i ∉ lru := h.disjoint mem_cons_self
  have halloc : ∀ node, links₁.allocated node = true := fun node => by
    rw [hframe.allocated]
    exact h.allocated node
  have hnot : ∀ j ∈ lru, j ∉ i :: free := fun j hj hmem => h.disjoint hmem hj
  have hlru := is_list_frame h.lru_list hframe (by simp) fun j hj => by simpa using hnot j hj
  obtain ⟨links₂, hadd, hlist', hframe'⟩ := hlru.add_tail (by simpa using hi) (halloc (.block i))
  refine ⟨links₁, links₂, hremove, hadd, ⟨fun node => ?_, ?_, ?_, ?_⟩⟩
  · rw [hframe'.allocated]
    exact halloc node
  · refine is_list_frame hlist hframe' (by simp) fun j hj => ?_
    have hne : j ≠ i := by
      rintro rfl
      exact (nodup_cons.mp (h.nodup.of_append_left)).1 hj
    simpa [hne] using h.disjoint (mem_cons_of_mem i hj)
  · simpa using hlist'
  · refine .trans ?_ h.perm
    rw [← append_assoc]
    exact perm_append_singleton i _

/-- A loop over the LRU list finds the first block that it looks for. -/
theorem Lists.search {c : Cache n} (h : Lists c.links free lru) (p : Block → Bool) :
    search c p = some (lru.find? fun j => p (c.block j)) := by
  have hlength := h.lru_length
  unfold Bcache.search
  rw [h.lru_list.loop (by rw [length_map]; omega)]
  clear h hlength
  induction lru with
  | nil => rfl
  | cons j rest ih =>
    rw [map_cons, find?_cons]
    show (if p (c.block j) then some (some j, false) else some (none, true)).bind _ = _
    cases p (c.block j) with
    | true => rfl
    | false => exact ih

theorem create_loop {todo done : List (Fin n)} (hfree : IsList links .freeList (done.map .block))
    (hlru : IsList links .lruList []) (halloc : ∀ node, links.allocated node = true)
    (hnodup : (todo ++ done).Nodup) :
    ∃ links', todo.foldlM (fun links i => addHead links .freeList (Node.block i))
        links = some links' ∧ IsList links' .freeList ((todo.reverse ++ done).map .block) ∧
      IsList links' .lruList [] ∧ ∀ node, links'.allocated node = true := by
  induction todo generalizing links done with
  | nil => exact ⟨links, rfl, hfree, hlru, halloc⟩
  | cons i todo ih =>
    have hi : i ∉ done := fun hmem => (nodup_cons.mp hnodup).1 (by simp [hmem])
    obtain ⟨links₁, hadd, hfree₁, hframe⟩ := hfree.add_head (by simpa using hi) (halloc (.block i))
    have hlru₁ : IsList links₁ .lruList [] :=
      hlru.congr fun node hnode => hframe.same_at (by
        rw [mem_singleton.mp hnode]
        simp)
    have hswap : (todo ++ i :: done).Nodup := (perm_middle.nodup_iff).mpr hnodup
    obtain ⟨links₂, hfold, hfree₂, hrest⟩ := ih hfree₁ hlru₁
      (fun node => by rw [hframe.allocated]; exact halloc node) hswap
    refine ⟨links₂, ?_, ?_, hrest⟩
    · rw [foldlM_cons, hadd]
      exact hfold
    · rwa [reverse_cons, append_assoc]

/-- A new cache: all blocks are on the free list, clean and not held. -/
theorem bcache_create_spec {config : Config} (memory : Memory config n) (disk : ℕ → UInt8) :
    ∃ links, bcacheCreate config memory disk =
        some ⟨links, fun i => { memory.block i with refCount := 0, isDirty := false }, disk⟩ ∧
      Lists links (finRange n).reverse [] := by
  have hallocated : (⟨fun _ => true, fun _ => none, fun _ => none⟩ : Links (Node n)).allocated
      .freeList = true := rfl
  obtain ⟨links₁, hfree, hfreeList, hframe₁⟩ := exists_make_head hallocated
  have halloc₁ : ∀ node, links₁.allocated node = true := fun node => by rw [hframe₁.allocated]
  obtain ⟨links₂, hlru, hlruList, hframe₂⟩ := exists_make_head (halloc₁ .lruList)
  have halloc₂ : ∀ node, links₂.allocated node = true := fun node => by
    rw [hframe₂.allocated]
    exact halloc₁ node
  have hfreeList₂ : IsList links₂ .freeList ((([] : List (Fin n))).map .block) :=
    hfreeList.congr fun node hnode => hframe₂.same_at (by
      rw [mem_singleton.mp hnode]
      simp)
  have hnodup : (finRange n ++ []).Nodup := by
    rw [append_nil]
    exact nodup_finRange n
  obtain ⟨links₃, hfold, hfree₃, hlru₃, halloc₃⟩ := create_loop hfreeList₂ hlruList halloc₂ hnodup
  rw [append_nil] at hfree₃
  refine ⟨links₃, ?_, halloc₃, hfree₃, hlru₃, ?_⟩
  · unfold bcacheCreate
    dsimp only
    rw [hfree]
    show (makeHead links₁ .lruList).bind _ = _
    rw [hlru]
    show Option.bind ((finRange n).foldlM _ links₂) _ = _
    rw [hfold]
    rfl
  · rw [append_nil]
    exact reverse_perm _

variable {c c' : Cache n} {blocknum : ℕ}

/-- No block of the LRU list has the number. -/
def Missing (c : Cache n) (lru : List (Fin n)) (blocknum : ℕ) : Prop :=
  ∀ i ∈ lru, (c.block i).blocknum ≠ blocknum

/-- `find_block` finds a block with the number in the LRU list and changes nothing but the order,
or there is none. -/
theorem Lists.find_block (h : Lists c.links free lru) (blocknum : ℕ) :
    (Missing c lru blocknum ∧ findBlock c blocknum = some (none, c)) ∨
      ∃ i links' lru', i ∈ lru ∧ (c.block i).blocknum = blocknum ∧
        findBlock c blocknum = some (some i, { c with links := links' }) ∧
        Lists links' free lru' ∧ lru'.Perm lru := by
  unfold findBlock
  rw [h.search]
  cases hfind : lru.find? fun i => (c.block i).blocknum = blocknum with
  | none =>
    refine .inl ⟨fun i hi heq => ?_, rfl⟩
    exact find?_eq_none.mp hfind i hi (decide_eq_true heq)
  | some i =>
    have hi := mem_of_find?_eq_some hfind
    have hnum : (c.block i).blocknum = blocknum := by simpa using find?_some hfind
    obtain ⟨links', hmove, hlists⟩ := h.move_to_tail hi
    refine .inr ⟨i, links', _, hi, hnum, ?_, hlists,
      (perm_append_singleton i _).trans (perm_cons_erase hi).symm⟩
    show (moveToTail c i).bind _ = _
    rw [hmove]
    rfl

/-- `flush_block` writes the device; a write that succeeds clears the mark. -/
theorem flush_block_spec (io : Io n) (c : Cache n) (i : Fin n) :
    (∃ disk, flushBlock config io c i = (false, { c with disk := disk })) ∨
      ∃ disk, flushBlock config io c i =
        (true, { c with disk := disk }.setBlock i { c.block i with isDirty := false }) := by
  rw [flushBlock]
  split
  · exact .inl ⟨_, rfl⟩
  · exact .inr ⟨_, rfl⟩

/-- What `alloc_block` does when it returns a block: the block is on the LRU list, was not held,
and its contents are on the device if it was in use and changed. -/
structure Allocated (config : Config) (io : Io n) (c : Cache n) (lru : List (Fin n)) (i : Fin n)
    (c' : Cache n) (lru' : List (Fin n)) : Prop where
  mem : i ∈ lru'
  others : ∀ j, j ≠ i → (j ∈ lru' ↔ j ∈ lru)
  unheld : i ∈ lru → (c.block i).refCount = 0
  same : ∀ j, j ≠ i → c'.block j = c.block j
  ref_count : (c'.block i).refCount = 0
  data : (c'.block i).data = (c.block i).data
  disk : c'.disk = c.disk ∧ (i ∈ lru → (c.block i).isDirty = false) ∨
    i ∈ lru ∧ ∃ flushed, flushBlock config io c i = (true, flushed) ∧ c'.disk = flushed.disk

/-- What `alloc_block` does when it returns none: either every block is held, or a block that is not
held was changed and could not be written. -/
structure Refused (config : Config) (io : Io n) (c : Cache n) (free lru : List (Fin n))
    (c' : Cache n) : Prop where
  links : c'.links = c.links
  block : c'.block = c.block
  reason : (free = [] ∧ ∀ i ∈ lru, (c.block i).refCount ≠ 0) ∨
    ∃ i ∈ lru, (c.block i).refCount = 0 ∧ (c.block i).isDirty = true ∧
      ∃ flushed, flushBlock config io c i = (false, flushed)

/-- A block of the LRU list that is not held is taken, unless it has to be written and that
fails. -/
theorem Lists.take_block (h : Lists c.links free lru) (config : Config) (io : Io n)
    (hi : i ∈ lru) (hzero : (c.block i).refCount = 0) :
    (∃ c', takeBlock config io c i = some (none, c') ∧ Refused config io c free lru c') ∨
      ∃ c' lru', takeBlock config io c i = some (some i, c') ∧ Lists c'.links free lru' ∧
        Allocated config io c lru i c' lru' := by
  have hperm : (lru.erase i ++ [i]).Perm lru :=
    (perm_append_singleton i _).trans (perm_cons_erase hi).symm
  have hmem : i ∈ lru.erase i ++ [i] := by simp
  unfold takeBlock
  by_cases hdirty : (c.block i).isDirty = true
  · rw [if_pos hdirty]
    rcases flush_block_spec config io c i with ⟨disk, hflush⟩ | ⟨disk, hflush⟩
    · rw [hflush]
      exact .inl ⟨_, rfl, rfl, rfl, .inr ⟨i, hi, hzero, hdirty, _, hflush⟩⟩
    rw [hflush]
    obtain ⟨links', hmove, hlists⟩ := Lists.move_to_tail
      (c := { c with disk := disk }.setBlock i { c.block i with isDirty := false }) h hi
    refine .inr ⟨⟨links', update c.block i { c.block i with isDirty := false }, disk⟩,
      lru.erase i ++ [i], ?_, hlists, hmem, fun j _ => hperm.mem_iff, fun _ => hzero,
      fun j hj => update_of_ne hj _ _, ?_, ?_, .inr ⟨hi, _, hflush, rfl⟩⟩
    · show (moveToTail _ i).map _ = _
      rw [hmove]
      rfl
    · show (update c.block i _ i).refCount = 0
      rw [update_self]
      exact hzero
    · show (update c.block i _ i).data = _
      rw [update_self]
  · rw [if_neg hdirty]
    obtain ⟨links', hmove, hlists⟩ := h.move_to_tail hi
    refine .inr ⟨{ c with links := links' }, lru.erase i ++ [i], ?_, hlists, hmem,
      fun j _ => hperm.mem_iff, fun _ => hzero, fun j _ => rfl, hzero, rfl,
      .inl ⟨rfl, fun _ => Bool.not_eq_true _ ▸ hdirty⟩⟩
    show (moveToTail c i).map _ = _
    rw [hmove]
    rfl

theorem Lists.alloc_block (h : Lists c.links free lru) (config : Config) (io : Io n) :
    (∃ c', allocBlock config io c = some (none, c') ∧ Refused config io c free lru c') ∨
      ∃ i c' free' lru', allocBlock config io c = some (some i, c') ∧ Lists c'.links free' lru' ∧
        Allocated config io c lru i c' lru' := by
  unfold allocBlock
  cases free with
  | nil =>
    rw [h.free_list.remove_head_nil]
    unfold evictBlock
    rw [h.search]
    cases hfind : lru.find? fun i => (c.block i).refCount = 0 with
    | none =>
      refine .inl ⟨c, rfl, rfl, rfl, .inl ⟨rfl, fun i hi hzero => ?_⟩⟩
      exact find?_eq_none.mp hfind i hi (decide_eq_true hzero)
    | some i =>
      have hi := mem_of_find?_eq_some hfind
      have hzero : (c.block i).refCount = 0 := by simpa using find?_some hfind
      rcases h.take_block config io hi hzero with htake | ⟨c', lru', htake, hlists, halloc⟩
      · exact .inl htake
      · exact .inr ⟨i, c', [], lru', htake, hlists, halloc⟩
  | cons i free =>
    obtain ⟨links₁, links₂, hremove, hadd, hlists⟩ := h.take_free
    have hi : i ∉ lru := h.disjoint mem_cons_self
    rw [hremove]
    refine .inr ⟨i, ⟨links₂, update c.block i { c.block i with refCount := 0 }, c.disk⟩,
      free, lru ++ [i], ?_, hlists, by simp, fun j hj => by simp [hj], fun hmem => absurd hmem hi,
      fun j hj => update_of_ne hj _ _, ?_, ?_, .inl ⟨rfl, fun hmem => absurd hmem hi⟩⟩
    · show (addTail links₁ .lruList (.block i)).bind _ = _
      rw [hadd]
      rfl
    · show (update c.block i _ i).refCount = 0
      rw [update_self]
    · show (update c.block i _ i).data = _
      rw [update_self]

/-- `find_or_fill_block` finds the block, or it writes through a null pointer because there is no
block to be had, or it fills the one it got. -/
theorem Lists.find_or_fill (h : Lists c.links free lru) (config : Config) (io : Io n)
    (blocknum : ℕ) :
    (∃ i links' lru', i ∈ lru ∧ (c.block i).blocknum = blocknum ∧
        findOrFillBlock config io c blocknum = some (some i, { c with links := links' }) ∧
        Lists links' free lru' ∧ lru'.Perm lru) ∨
      Missing c lru blocknum ∧
        ((findOrFillBlock config io c blocknum = none ∧ ∃ c', Refused config io c free lru c') ∨
          ∃ i c' free' lru', Allocated config io c lru i c' lru' ∧ Lists c'.links free' lru' ∧
            findOrFillBlock config io c blocknum = fillBlock config io c' i blocknum) := by
  unfold findOrFillBlock
  rcases h.find_block blocknum with ⟨hmissing, hfind⟩ | ⟨i, links', lru', hi, hnum, hfind, hlists⟩
  · rw [hfind]
    refine .inr ⟨hmissing, ?_⟩
    show ((allocBlock config io c).bind _ = none ∧ _) ∨ ∃ i c' free' lru', _ ∧ _ ∧
      (allocBlock config io c).bind _ = _
    rcases h.alloc_block config io with ⟨c', halloc, hrefused⟩ |
      ⟨i, c', free', lru', halloc, hlists, hallocated⟩
    · rw [halloc]
      exact .inl ⟨rfl, c', hrefused⟩
    · refine .inr ⟨i, c', free', lru', hallocated, hlists, ?_⟩
      rw [halloc, Option.bind_some]
  · rw [hfind]
    exact .inl ⟨i, links', lru', hi, hnum, rfl, hlists⟩

/-! ## Access to the device -/

theorem block_end_lt (h : blocknum < 2 ^ 32) :
    blocknum * config.blockSize + config.blockSize < 2 ^ 63 := by
  have hsize := config.size_lt
  calc blocknum * config.blockSize + config.blockSize = (blocknum + 1) * config.blockSize := by ring
    _ ≤ 2 ^ 32 * (2 ^ 31 - 1) := Nat.mul_le_mul h (by omega)
    _ < 2 ^ 63 := by norm_num

theorem offset_eq (h : blocknum < 2 ^ 32) :
    offset config blocknum = (blocknum * config.blockSize : ℕ) := by
  have hend := block_end_lt config h
  exact Bio.to_off_eq (by omega) (by omega)

/-- A count up to the size of a block is not negative as an `int`. -/
theorem wrap_int_count {len : ℕ} (h : len ≤ config.blockSize) :
    ¬ wrapInt len < 0 := by
  have hsize := config.size_lt
  rw [wrap_int_eq (by unfold intMin; omega) (by unfold intMax; omega)]
  omega

section

variable {config : Config} {io : Io n} (hlength : (c.block i).data.length = config.blockSize)
include hlength

/-- A device that can be read fills the block. -/
theorem fill_block_of_ok (hread : io.read = .ok) (blocknum : ℕ) :
    ∃ data, data.length = config.blockSize ∧ fillBlock config io c i blocknum =
      some (some i, c.setBlock i { c.block i with blocknum := blocknum, data := data }) := by
  obtain ⟨len, data, hok, hlen, hdata⟩ := Bio.bio_read_ok config.defaultHooks config.dev c.disk
    (offset config blocknum) (hlength ▸ config.size_lt)
  refine ⟨data, hdata.trans hlength, ?_⟩
  unfold fillBlock
  rw [hread, hok]
  exact if_neg (wrap_int_count config (hlen.trans hlength.le))

/-- A device that can be written takes the block. -/
theorem flush_block_of_ok (hwrite : io.write i = .ok) :
    ∃ c', flushBlock config io c i = (true, c') := by
  obtain ⟨len, disk, hok, hlen⟩ := Bio.bio_write_ok config.defaultHooks config.dev c.disk
    (offset config (c.block i).blocknum) (hlength ▸ config.size_lt)
  refine ⟨{ c with disk := disk }.setBlock i { c.block i with isDirty := false }, ?_⟩
  unfold flushBlock
  rw [hwrite, hok]
  exact if_neg (wrap_int_count config (hlen.trans hlength.le))

end

end NusaKernel.Bcache
