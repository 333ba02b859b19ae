import NusaKernel.Bcache.Bcache

/-!
# The lists of the block cache under I/O errors

As long as `find_or_fill_block` gets a block and reads it, every call returns, every block is on
exactly one of the two lists, no two blocks in use have the same number, and a block that is held
stays what it is (`bookkeeping`). The writes of `bcache_zero_block` and `bcache_flush` may fail.

A failed read breaks the lists for good: `find_or_fill_block` links the block into the free list
while it is still on the LRU list, where it is found under the number whose read failed
(`failed_block_served`). And when the block that it would take cannot be written, it writes through
the null pointer that `alloc_block` returns.
-/

namespace NusaKernel.Bcache

open List Function Option Transition CircularList

variable {n : ℕ} {config : Config} {io : Io n} {c c' c₁ : Cache n}
  {free free' lru lru' : List (Fin n)} {i : Fin n} {blocknum : ℕ} {block : Block}

/-- The lists are in order, and the blocks in use have different numbers. -/
structure Kept (config : Config) (c : Cache n) (free lru : List (Fin n)) : Prop where
  lists : Lists c.links free lru
  distinct : ∀ i ∈ lru, ∀ j ∈ lru, (c.block i).blocknum = (c.block j).blocknum → i = j
  free_ref : ∀ i ∈ free, (c.block i).refCount = 0
  length_eq : ∀ i, (c.block i).data.length = config.blockSize

/-- The blocks that are held stay in use under their number. -/
def Stays (c : Cache n) (lru : List (Fin n)) (c' : Cache n) (lru' : List (Fin n)) : Prop :=
  ∀ i ∈ lru, 0 < (c.block i).refCount → i ∈ lru' ∧ (c'.block i).blocknum = (c.block i).blocknum

/-- The blocks that are held stay in use under their number, and stay held. -/
def Holds (c : Cache n) (lru : List (Fin n)) (c' : Cache n) (lru' : List (Fin n)) : Prop :=
  ∀ i ∈ lru, 0 < (c.block i).refCount → i ∈ lru' ∧
    (c'.block i).blocknum = (c.block i).blocknum ∧ (c'.block i).refCount = (c.block i).refCount

theorem Holds.stays (h : Holds c lru c' lru') : Stays c lru c' lru' := fun i hi hheld =>
  ⟨(h i hi hheld).1, (h i hi hheld).2.1⟩

theorem Holds.refl (c : Cache n) (lru : List (Fin n)) : Holds c lru c lru :=
  fun _ hi _ => ⟨hi, rfl, rfl⟩

theorem Holds.trans {lru₁ : List (Fin n)} (h : Holds c lru c₁ lru₁) (h' : Holds c₁ lru₁ c' lru') :
    Holds c lru c' lru' := by
  intro i hi hheld
  obtain ⟨hmem, hnum, href⟩ := h i hi hheld
  obtain ⟨hmem', hnum', href'⟩ := h' i hmem (by omega)
  exact ⟨hmem', hnum'.trans hnum, href'.trans href⟩

theorem Kept.mem_free_or_lru (h : Kept config c free lru) (i : Fin n) : i ∈ free ∨ i ∈ lru := by
  have hmem : i ∈ free ++ lru := h.lists.perm.mem_iff.mpr (mem_finRange i)
  exact mem_append.mp hmem

theorem Kept.mem_lru (h : Kept config c free lru) (hheld : 0 < (c.block i).refCount) : i ∈ lru := by
  refine (h.mem_free_or_lru i).resolve_left fun hfree => ?_
  have hzero := h.free_ref i hfree
  omega

/-- The order of the LRU list changes. -/
theorem Kept.reorder (h : Kept config c free lru) {links' : Links (Node n)}
    (hlists : Lists links' free lru') (hperm : lru'.Perm lru) :
    Kept config { c with links := links' } free lru' ∧
      Holds c lru { c with links := links' } lru' :=
  ⟨⟨hlists, fun i hi j hj => h.distinct i (hperm.mem_iff.mp hi) j (hperm.mem_iff.mp hj), h.free_ref,
    h.length_eq⟩, fun _ hi _ => ⟨hperm.mem_iff.mpr hi, rfl, rfl⟩⟩

theorem set_block_blocknum (hnum : block.blocknum = (c.block i).blocknum) (j : Fin n) :
    ((c.setBlock i block).block j).blocknum = (c.block j).blocknum := by
  by_cases hj : j = i
  · rw [hj, c.set_block_self, hnum]
  · rw [c.set_block_of_ne block hj]

theorem Holds.set_block (h : Holds c lru c' lru') (hnum : block.blocknum = (c'.block i).blocknum) :
    Stays c lru (c'.setBlock i block) lru' := by
  intro j hj hheld
  obtain ⟨hmem, hsame, -⟩ := h j hj hheld
  exact ⟨hmem, (set_block_blocknum hnum j).trans hsame⟩

/-- A block of the cache is in use under the number: the loop of `find_block` comes to it. -/
def InUse (c : Cache n) (blocknum : ℕ) : Prop :=
  ∃ i, search c (fun block => block.blocknum = blocknum) = some (some i)

/-- `find_or_fill_block` has a block: it is in use already, or it can be read, there is one that is
not held, and the changes of such a block can be written. -/
def Obtainable (c : Cache n) (io : Io n) (blocknum : ℕ) : Prop :=
  InUse c blocknum ∨ io.read.isOk ∧ (∃ i, (c.block i).refCount = 0) ∧
    ∀ i, (c.block i).refCount = 0 → (c.block i).isDirty = true → (io.write i).isOk

section

variable (h : Kept config c free lru) {clean : Bool}
include h

/-- A block in use changes, but not its number. -/
theorem Kept.set_block (hi : i ∈ lru) (hnum : block.blocknum = (c.block i).blocknum)
    (hlength : block.data.length = config.blockSize) :
    Kept config (c.setBlock i block) free lru := by
  have hsame := set_block_blocknum hnum
  refine ⟨h.lists, fun j hj k hk heq => ?_, fun j hj => ?_, fun j => ?_⟩
  · rw [hsame, hsame] at heq
    exact h.distinct j hj k hk heq
  · have hne : j ≠ i := fun heq => h.lists.disjoint hj (heq ▸ hi)
    rw [c.set_block_of_ne block hne]
    exact h.free_ref j hj
  · by_cases hj : j = i
    · rw [hj, c.set_block_self, hlength]
    · rw [c.set_block_of_ne block hj]
      exact h.length_eq j

/-- A block that `alloc_block` returned gets a number that no other block in use has. -/
theorem Kept.rebind (halloc : Allocated config io c lru i c' lru')
    (hlists : Lists c'.links free' lru') (hmissing : Missing c lru blocknum)
    (hnum : block.blocknum = blocknum) (hlength : block.data.length = config.blockSize) :
    Kept config (c'.setBlock i block) free' lru' ∧ Holds c lru (c'.setBlock i block) lru' := by
  have hself := c'.set_block_self i block
  have hother : ∀ j, j ≠ i → (c'.setBlock i block).block j = c.block j := fun j hj =>
    (c'.set_block_of_ne block hj).trans (halloc.same j hj)
  have hdiff : ∀ j ∈ lru', j ≠ i → (c.block j).blocknum ≠ blocknum := fun j hj hne =>
    hmissing j ((halloc.others j hne).mp hj)
  refine ⟨⟨hlists, fun j hj k hk heq => ?_, fun j hj => ?_, fun j => ?_⟩, fun j hj hheld => ?_⟩
  · by_cases hji : j = i
    · by_cases hki : k = i
      · rw [hji, hki]
      · rw [hji, hself, hother k hki, hnum] at heq
        exact absurd heq.symm (hdiff k hk hki)
    · by_cases hki : k = i
      · rw [hki, hself, hother j hji, hnum] at heq
        exact absurd heq (hdiff j hj hji)
      · rw [hother j hji, hother k hki] at heq
        exact h.distinct j ((halloc.others j hji).mp hj) k ((halloc.others k hki).mp hk) heq
  · have hnot : j ∉ lru' := hlists.disjoint hj
    have hne : j ≠ i := fun heq => hnot (heq ▸ halloc.mem)
    rw [hother j hne]
    refine h.free_ref j ((h.mem_free_or_lru j).resolve_right fun hlru => ?_)
    exact hnot ((halloc.others j hne).mpr hlru)
  · by_cases hji : j = i
    · rw [hji, hself, hlength]
    · rw [hother j hji]
      exact h.length_eq j
  · have hne : j ≠ i := by
      rintro rfl
      have hzero := halloc.unheld hj
      omega
    exact ⟨(halloc.others j hne).mpr hj, by rw [hother j hne], by rw [hother j hne]⟩

/-! ## The calls -/

theorem Kept.find_block (blocknum : ℕ) :
    ∃ found c' lru', findBlock c blocknum = some (found, c') ∧ Kept config c' free lru' ∧
      Holds c lru c' lru' ∧ (found = none → c' = c ∧ lru' = lru ∧ Missing c lru blocknum) ∧
      ∀ i, found = some i → i ∈ lru' := by
  rcases h.lists.find_block blocknum with ⟨hmissing, hfind⟩ |
    ⟨i, links', lru', hi, hnum, hfind, hlists, hperm⟩
  · exact ⟨none, c, lru, hfind, h, .refl c lru, fun _ => ⟨rfl, rfl, hmissing⟩,
      fun i hi => nomatch hi⟩
  · obtain ⟨hkept, hholds⟩ := h.reorder hlists hperm
    refine ⟨some i, _, lru', hfind, hkept, hholds, fun hnone => (nomatch hnone), fun j hj => ?_⟩
    cases hj
    exact hperm.mem_iff.mpr hi

/-- A block in use is not missing. -/
theorem Kept.not_missing (huse : InUse c blocknum) : ¬ Missing c lru blocknum := by
  intro hmissing
  obtain ⟨i, hi⟩ := huse
  rw [h.lists.search] at hi
  have hfind : lru.find? (fun j => (c.block j).blocknum = blocknum) = some i := some.inj hi
  exact hmissing i (mem_of_find?_eq_some hfind) (by simpa using find?_some hfind)

/-- `alloc_block` returns a block if there is one that is not held and the changed ones of these can
be written. -/
theorem Kept.not_refused (hunheld : ∃ i, (c.block i).refCount = 0)
    (hwrite : ∀ i, (c.block i).refCount = 0 → (c.block i).isDirty = true → (io.write i).isOk) :
    ¬ Refused config io c free lru c' := by
  intro hrefused
  rcases hrefused.reason with ⟨hfree, hheld⟩ | ⟨i, -, hzero, hdirty, flushed, hflush⟩
  · obtain ⟨i, hzero⟩ := hunheld
    rcases h.mem_free_or_lru i with hmem | hmem
    · rw [hfree] at hmem
      cases hmem
    · exact hheld i hmem hzero
  · obtain ⟨c₁, hok⟩ :=
      flush_block_of_ok (h.length_eq i) (Bio.Outcome.eq_ok (hwrite i hzero hdirty))
    rw [hok] at hflush
    cases hflush

/-- `find_or_fill_block` returns a block that is in use. -/
theorem Kept.find_or_fill (hobtain : Obtainable c io blocknum) :
    ∃ i c' free' lru', findOrFillBlock config io c blocknum = some (some i, c') ∧ i ∈ lru' ∧
      Kept config c' free' lru' ∧ Holds c lru c' lru' := by
  rcases h.lists.find_or_fill config io blocknum with
    ⟨i, links', lru', hi, hnum, hfind, hlists, hperm⟩ |
    ⟨hmissing, hrest⟩
  · obtain ⟨hkept, hholds⟩ := h.reorder hlists hperm
    exact ⟨i, _, free, lru', hfind, hperm.mem_iff.mpr hi, hkept, hholds⟩
  obtain ⟨hread, hunheld, hwrite⟩ := hobtain.resolve_left fun huse => h.not_missing huse hmissing
  rcases hrest with ⟨-, c', hrefused⟩ | ⟨i, c₁, free', lru', halloc, hlists, hfind⟩
  · exact absurd hrefused (h.not_refused hunheld hwrite)
  have hlength : (c₁.block i).data.length = config.blockSize := by
    rw [halloc.data]
    exact h.length_eq i
  obtain ⟨data, hdata, hfilled⟩ := fill_block_of_ok hlength (Bio.Outcome.eq_ok hread) blocknum
  exact ⟨i, _, free', lru', hfind.trans hfilled, halloc.mem,
    h.rebind halloc hlists hmissing rfl hdata⟩

theorem Kept.flush_block (hi : i ∈ lru) (hflush : flushBlock config io c i = (clean, c')) :
    Kept config c' free lru ∧ Holds c lru c' lru := by
  rcases flush_block_spec config io c i with ⟨disk, hspec⟩ | ⟨disk, hspec⟩
  · rw [hspec] at hflush
    cases hflush
    exact ⟨{ h with }, fun j hj _ => ⟨hj, rfl, rfl⟩⟩
  rw [hspec] at hflush
  cases hflush
  have hdisk : Kept config { c with disk := disk } free lru :=
    { h with }
  refine ⟨hdisk.set_block hi rfl (h.length_eq i), fun j hj _ => ⟨hj, ?_⟩⟩
  show (update c.block i _ j).blocknum = _ ∧ (update c.block i _ j).refCount = _
  by_cases hji : j = i
  · subst hji
    rw [update_self]
    exact ⟨rfl, rfl⟩
  · rw [update_of_ne hji]
    exact ⟨rfl, rfl⟩

/-- The loop of `bcache_flush` ends, at a block that cannot be written or at the last. -/
theorem Kept.flush_loop {todo : List (Fin n)} (htodo : ∀ i ∈ todo, i ∈ lru) (start : Bool) :
    ∃ result c', visit (flushTurn config io) (todo.map .block) (start, c) = some (result, c') ∧
      Kept config c' free lru ∧ Holds c lru c' lru := by
  induction todo generalizing c start with
  | nil => exact ⟨start, c, rfl, h, .refl _ lru⟩
  | cons i todo ih =>
    obtain ⟨hi, hrest⟩ := forall_mem_cons.mp htodo
    show ∃ result c', (flushTurn config io (.block i) (start, c)).bind _ = some (result, c') ∧ _
    rw [flushTurn]
    split
    · cases hflush : flushBlock config io c i with
      | mk ok c₁ =>
        obtain ⟨hkept, hholds⟩ := h.flush_block hi hflush
        cases ok with
        | false => exact ⟨false, c₁, rfl, hkept, hholds⟩
        | true =>
          obtain ⟨result, c', hloop, hkept', hholds'⟩ := ih hkept hrest true
          exact ⟨result, c', hloop, hkept', hholds.trans hholds'⟩
    · exact ih h hrest true

/-- The blocks are left alone when `alloc_block` returns none. -/
theorem Kept.refused (hrefused : Refused config io c free lru c') :
    Kept config c' free lru ∧ Holds c lru c' lru := by
  refine ⟨⟨?_, ?_, ?_, ?_⟩, fun i hi _ => ⟨hi, ?_⟩⟩
  · rw [hrefused.links]
    exact h.lists
  · rw [hrefused.block]
    exact h.distinct
  · rw [hrefused.block]
    exact h.free_ref
  · rw [hrefused.block]
    exact h.length_eq
  · rw [hrefused.block]
    exact ⟨rfl, rfl⟩

end

/-- What a call makes of a cache that is in order. -/
def KeptAfter (config : Config) (c : Cache n) (lru : List (Fin n)) (c' : Cache n) : Prop :=
  ∃ free' lru', Kept config c' free' lru' ∧ Stays c lru c' lru'

section

variable (h : Kept config c free lru)
include h

/-- `bcache_read_block` returns the bytes of a block. -/
theorem Kept.read_block (hobtain : Obtainable c io blocknum) :
    ∃ data c', bcacheReadBlock config io c blocknum = some (some data, c') ∧
      KeptAfter config c lru c' := by
  obtain ⟨i, c₁, free', lru', hfill, -, hkept, hholds⟩ := h.find_or_fill hobtain
  refine ⟨(c₁.block i).data, c₁, ?_, free', lru', hkept, hholds.stays⟩
  unfold bcacheReadBlock
  rw [hfill]
  rfl

/-- `bcache_get_block` returns a block. -/
theorem Kept.get_block (hobtain : Obtainable c io blocknum) :
    ∃ i c', bcacheGetBlock config io c blocknum = some (some i, c') ∧
      KeptAfter config c lru c' := by
  obtain ⟨i, c₁, free', lru', hfill, hi, hkept, hholds⟩ := h.find_or_fill hobtain
  refine ⟨i, c₁.setBlock i { c₁.block i with refCount := (c₁.block i).refCount + 1 }, ?_, free',
    lru', hkept.set_block hi rfl (hkept.length_eq i), hholds.set_block rfl⟩
  unfold bcacheGetBlock
  rw [hfill]
  rfl

/-- `bcache_put_block` returns if the block is in use. -/
theorem Kept.put_block (huse : InUse c blocknum) :
    ∃ c', bcachePutBlock c blocknum = some c' ∧ KeptAfter config c lru c' := by
  obtain ⟨found, c₁, lru', hfind, hkept, hholds, hnone, hmem⟩ := h.find_block blocknum
  unfold bcachePutBlock
  rw [hfind]
  cases found with
  | none => exact absurd (hnone rfl).2.2 (h.not_missing huse)
  | some i =>
    exact ⟨_, rfl, free, lru', hkept.set_block (hmem i rfl) rfl (hkept.length_eq i),
      hholds.set_block rfl⟩

/-- `bcache_mark_block_dirty` returns. -/
theorem Kept.mark_block_dirty (blocknum : ℕ) :
    ∃ result c', bcacheMarkBlockDirty c blocknum = some (result, c') ∧
      KeptAfter config c lru c' := by
  obtain ⟨found, c₁, lru', hfind, hkept, hholds, -, hmem⟩ := h.find_block blocknum
  unfold bcacheMarkBlockDirty
  rw [hfind]
  cases found with
  | none => exact ⟨false, c₁, rfl, free, lru', hkept, hholds.stays⟩
  | some i =>
    exact ⟨true, _, rfl, free, lru', hkept.set_block (hmem i rfl) rfl (hkept.length_eq i),
      hholds.set_block rfl⟩

/-- `bcache_zero_block` returns, whatever cannot be written. -/
theorem Kept.zero_block (io : Io n) (blocknum : ℕ) :
    ∃ result c', bcacheZeroBlock config io c blocknum = some (result, c') ∧
      KeptAfter config c lru c' := by
  obtain ⟨found, c₁, lru', hfind, hkept, hholds, hnone, hmem⟩ := h.find_block blocknum
  unfold bcacheZeroBlock
  rw [hfind]
  cases found with
  | some i =>
    exact ⟨true, _, rfl, free, lru', hkept.set_block (hmem i rfl) rfl length_replicate,
      hholds.set_block rfl⟩
  | none =>
    obtain ⟨rfl, rfl, hmissing⟩ := hnone rfl
    show ∃ result c', (allocBlock config io c₁).bind _ = some (result, c') ∧ _
    rcases h.lists.alloc_block config io with ⟨c₂, halloc, hrefused⟩ |
      ⟨i, c₂, free', lru', halloc, hlists, hallocated⟩
    · rw [halloc]
      obtain ⟨hkept', hholds'⟩ := h.refused hrefused
      exact ⟨false, c₂, rfl, free, _, hkept', hholds'.stays⟩
    · rw [halloc]
      refine ⟨true, _, rfl, free', lru', And.imp_right Holds.stays ?_⟩
      rw [zero_data_set_block]
      exact h.rebind hallocated hlists hmissing rfl length_replicate

/-- `bcache_flush` returns, whatever cannot be written. -/
theorem Kept.flush (io : Io n) :
    ∃ result c', bcacheFlush config io c = some (result, c') ∧ KeptAfter config c lru c' := by
  have hlength := h.lists.lru_length
  obtain ⟨result, c', hloop, hkept, hholds⟩ := h.flush_loop (fun _ hi => hi) true
  refine ⟨result, c', ?_, free, lru, hkept, hholds.stays⟩
  unfold bcacheFlush
  rw [h.lists.lru_list.loop (by rw [length_map]; omega)]
  exact hloop

end

/-! ## Whole runs -/

inductive Call (n : ℕ) where
  | read (blocknum : UInt32)
  | get (blocknum : UInt32)
  | put (blocknum : UInt32)
  | markDirty (blocknum : UInt32)
  | zero (blocknum : UInt32)
  | flush
  /-- a holder of the block changes its bytes through the pointer it has -/
  | change (i : Fin n) (data : List UInt8)

/-- A cache, and the block numbers whose last read of the device failed. -/
structure System (n : ℕ) where
  cache : Cache n
  failed : ℕ → Bool

/-- The device is read when the block is not found. -/
def noteRead (s : System n) (blocknum : ℕ) (ok : Bool) : ℕ → Bool :=
  if search s.cache (fun b => b.blocknum = blocknum) = some none then
    update s.failed blocknum (!ok)
  else s.failed

def step (config : Config) (s : System n) : Call n × Io n → Option (System n)
  | (.read blocknum, io) =>
    (bcacheReadBlock config io s.cache blocknum.toNat).map fun (result, c) =>
      ⟨c, noteRead s blocknum.toNat result.isSome⟩
  | (.get blocknum, io) =>
    (bcacheGetBlock config io s.cache blocknum.toNat).map fun (result, c) =>
      ⟨c, noteRead s blocknum.toNat result.isSome⟩
  | (.put blocknum, _) =>
    (bcachePutBlock s.cache blocknum.toNat).map fun c => { s with cache := c }
  | (.markDirty blocknum, _) =>
    (bcacheMarkBlockDirty s.cache blocknum.toNat).map fun (_, c) => { s with cache := c }
  | (.zero blocknum, io) =>
    (bcacheZeroBlock config io s.cache blocknum.toNat).map fun (ok, c) =>
      ⟨c, if ok then update s.failed blocknum.toNat false else s.failed⟩
  | (.flush, io) => (bcacheFlush config io s.cache).map fun (_, c) => { s with cache := c }
  | (.change i data, _) =>
    if 0 < (s.cache.block i).refCount ∧ data.length = config.blockSize then
      some { s with cache := s.cache.setBlock i { s.cache.block i with data := data } }
    else none

/-- A cache that was just created. -/
def Initial (config : Config) (s : System n) : Prop :=
  (∃ (memory : Memory config n) (disk : ℕ → UInt8),
    bcacheCreate config memory disk = some s.cache) ∧ s.failed = fun _ => false

/-- A block that is read or got can be had, and one that is put or changed is in use or held. -/
def Served (config : Config) (s : System n) : Call n × Io n → Prop
  | (.read blocknum, io) => Obtainable s.cache io blocknum.toNat
  | (.get blocknum, io) => Obtainable s.cache io blocknum.toNat
  | (.put blocknum, _) => InUse s.cache blocknum.toNat
  | (.change i data, _) => 0 < (s.cache.block i).refCount ∧ data.length = config.blockSize
  | (.markDirty _, _) => True
  | (.zero _, _) => True
  | (.flush, _) => True

abbrev Reachable (config : Config) (guard : System n → Call n × Io n → Prop) (s : System n) :
    Prop :=
  Transition.Reachable (step config) guard (Initial config) s

/-- The invariant of a run: no read has failed. -/
def Sound (config : Config) (s : System n) : Prop :=
  (∃ free lru, Kept config s.cache free lru) ∧ ∀ b, s.failed b = false

variable {s : System n}

theorem note_read_ok (hfailed : ∀ b, s.failed b = false) (blocknum b : ℕ) :
    noteRead s blocknum true b = false := by
  unfold noteRead
  split
  · by_cases hb : b = blocknum
    · subst hb
      rw [update_self]
      rfl
    · rw [update_of_ne hb]
      exact hfailed b
  · exact hfailed b

/-- One call. -/
theorem Kept.step {action : Call n × Io n} (h : Kept config s.cache free lru)
    (hfailed : ∀ b, s.failed b = false) (hserved : Served config s action) :
    ∃ s', step config s action = some s' ∧ KeptAfter config s.cache lru s'.cache ∧
      ∀ b, s'.failed b = false := by
  obtain ⟨call, io⟩ := action
  cases call with
  | read blocknum =>
    obtain ⟨data, c', hcall, hkept⟩ := h.read_block hserved
    refine ⟨_, map_eq_some_iff.mpr ⟨_, hcall, rfl⟩, hkept, fun b => ?_⟩
    exact note_read_ok hfailed _ b
  | get blocknum =>
    obtain ⟨i, c', hcall, hkept⟩ := h.get_block hserved
    refine ⟨_, map_eq_some_iff.mpr ⟨_, hcall, rfl⟩, hkept, fun b => ?_⟩
    exact note_read_ok hfailed _ b
  | put blocknum =>
    obtain ⟨c', hcall, hkept⟩ := h.put_block hserved
    exact ⟨_, map_eq_some_iff.mpr ⟨_, hcall, rfl⟩, hkept, hfailed⟩
  | markDirty blocknum =>
    obtain ⟨result, c', hcall, hkept⟩ := h.mark_block_dirty blocknum.toNat
    exact ⟨_, map_eq_some_iff.mpr ⟨_, hcall, rfl⟩, hkept, hfailed⟩
  | zero blocknum =>
    obtain ⟨ok, c', hcall, hkept⟩ := h.zero_block io blocknum.toNat
    refine ⟨_, map_eq_some_iff.mpr ⟨_, hcall, rfl⟩, hkept, fun b => ?_⟩
    show (if ok then update s.failed blocknum.toNat false else s.failed) b = false
    split
    · by_cases hb : b = blocknum.toNat
      · rw [hb, update_self]
      · rw [update_of_ne hb]
        exact hfailed b
    · exact hfailed b
  | flush =>
    obtain ⟨result, c', hcall, hkept⟩ := h.flush io
    exact ⟨_, map_eq_some_iff.mpr ⟨_, hcall, rfl⟩, hkept, hfailed⟩
  | change i data =>
    refine ⟨_, if_pos hserved, ⟨free, lru, ?_, (Holds.refl _ lru).set_block rfl⟩, hfailed⟩
    exact h.set_block (h.mem_lru hserved.1) rfl hserved.2

theorem sound_initial (h : Initial config s) : Sound config s := by
  obtain ⟨⟨memory, disk, hcreate⟩, hfailed⟩ := h
  obtain ⟨links, hspec, hlists⟩ := bcache_create_spec memory disk
  rw [hspec] at hcreate
  have hcache := (some.inj hcreate).symm
  refine ⟨⟨(finRange n).reverse, [], ?_⟩, fun b => by rw [hfailed]⟩
  rw [hcache]
  exact ⟨hlists, fun i hi => (by cases hi), fun _ _ => rfl, fun i => memory.length_eq i⟩

theorem sound_reachable (h : Reachable config (Served config) s) : Sound config s := by
  refine Transition.Reachable.invariant (P := Sound config) sound_initial ?_ h
  rintro s action s' ⟨⟨free, lru, hkept⟩, hfailed⟩ hserved hstep
  obtain ⟨s₁, hstep₁, ⟨free', lru', hkept', -⟩, hfailed'⟩ := hkept.step hfailed hserved
  rw [hstep] at hstep₁
  cases hstep₁
  exact ⟨⟨free', lru', hkept'⟩, hfailed'⟩

/-- In every run in which the blocks that are read or got can be had: every block is on exactly one
of the two lists, no two blocks in use have the same number, none is in use under a number whose
last read failed, and every block that is held is in use. Every such call returns, and the blocks
that were held are in use after it under their number. -/
theorem bookkeeping {s : System n} (h : Reachable config (Served config) s) :
    ∃ free lru, Lists s.cache.links free lru ∧
      (∀ i ∈ lru, ∀ j ∈ lru, (s.cache.block i).blocknum = (s.cache.block j).blocknum → i = j) ∧
      (∀ i ∈ lru, s.failed (s.cache.block i).blocknum = false) ∧
      (∀ i, 0 < (s.cache.block i).refCount → i ∈ lru) ∧
      ∀ action, Served config s action → ∃ s', step config s action = some s' ∧
        ∃ free' lru', Lists s'.cache.links free' lru' ∧ ∀ i, 0 < (s.cache.block i).refCount →
          i ∈ lru' ∧ (s'.cache.block i).blocknum = (s.cache.block i).blocknum := by
  obtain ⟨⟨free, lru, hkept⟩, hfailed⟩ := sound_reachable h
  refine ⟨free, lru, hkept.lists, hkept.distinct, fun i _ => hfailed _, fun i => hkept.mem_lru, ?_⟩
  intro action hserved
  obtain ⟨s', hstep, ⟨free', lru', hkept', hstays⟩, -⟩ := hkept.step hfailed hserved
  exact ⟨s', hstep, free', lru', hkept'.lists, fun i hpos => hstays i (hkept.mem_lru hpos) hpos⟩

/-- `InUse` can be checked along a run. -/
instance (c : Cache n) (blocknum : ℕ) : Decidable (InUse c blocknum) :=
  inferInstanceAs (Decidable (∃ _, _))

/-- `Obtainable` can be checked along a run. -/
instance (c : Cache n) (io : Io n) (blocknum : ℕ) : Decidable (Obtainable c io blocknum) :=
  inferInstanceAs (Decidable (_ ∨ _))

/-- `Served` can be checked along a run. -/
instance (config : Config) (s : System n) : DecidablePred (Served config s)
  | (.read blocknum, io) => inferInstanceAs (Decidable (Obtainable s.cache io blocknum.toNat))
  | (.get blocknum, io) => inferInstanceAs (Decidable (Obtainable s.cache io blocknum.toNat))
  | (.put blocknum, _) => inferInstanceAs (Decidable (InUse s.cache blocknum.toNat))
  | (.change _ _, _) => inferInstanceAs (Decidable (_ ∧ _))
  | (.markDirty _, _) => .isTrue trivial
  | (.zero _, _) => .isTrue trivial
  | (.flush, _) => .isTrue trivial

/-! ## A cache of two blocks -/

theorem small_shift_lt : 0 < 32 := by decide

theorem small_count_lt : 16 < 2 ^ 32 := by decide

theorem small_geometry_in : ∀ geo ∈ ([] : List Bio.EraseGeometry),
    geo.start + geo.size ≤ 16 * 2 ^ 0 :=
  forall_mem_nil _

/-- Blocks of two bytes on a device of sixteen with the default hooks. -/
def smallConfig : Config :=
  ⟨⟨0, 16, [], 0, false, false, small_shift_lt, small_count_lt, small_geometry_in⟩, true, 2,
    by decide⟩

/-- The memory of the blocks, with the bytes `0xaa` left in it. -/
def smallMemory : Memory smallConfig 2 := ⟨fun _ => ⟨0, 0, false, [0xaa, 0xaa]⟩, fun _ => rfl⟩

theorem small_created : (bcacheCreate smallConfig smallMemory fun _ => 0).isSome := by
  decide +kernel

/-- A new cache, for a device that holds zeros. -/
def smallSystem : System 2 :=
  ⟨(bcacheCreate smallConfig smallMemory fun _ => 0).get small_created, fun _ => false⟩

theorem small_system_initial : Initial smallConfig smallSystem :=
  ⟨⟨smallMemory, fun _ => 0, (some_get small_created).symm⟩, rfl⟩

theorem exists_reachable (guard : System 2 → Call 2 × Io 2 → Prop) {P : System 2 → Prop}
    (actions : List (Call 2 × Io 2)) (hadmits : Admits (step smallConfig) guard smallSystem actions)
    (hrun : ∃ s ∈ Transition.run (step smallConfig) smallSystem actions, P s) :
    ∃ s, Reachable smallConfig guard s ∧ P s :=
  Transition.Reachable.exists_run (.init small_system_initial) hadmits hrun

/-- A device that cannot be written. -/
def readOnly : Io 2 := ⟨fun _ => .failed [], .ok⟩

/-- A device that cannot be read. -/
def unreadable : Io 2 := ⟨fun _ => .ok, .failed []⟩

/-- With block 3 held and block 4 changed, two calls that cannot write block 4 back leave the lists
in order, and so does a read of the held block. -/
theorem bookkeeping_read_only : ∃ s : System 2, Reachable smallConfig (Served smallConfig) s ∧
    0 < (s.cache.block 1).refCount ∧ ∃ free lru, Lists s.cache.links free lru ∧ 1 ∈ lru := by
  obtain ⟨s, hreach, hheld⟩ := exists_reachable (Served smallConfig)
    (P := fun s => 0 < (s.cache.block 1).refCount)
    [(.get 3, .ok), (.zero 4, .ok), (.zero 5, readOnly), (.flush, readOnly), (.read 3, readOnly)]
    (by decide +kernel) (by decide +kernel)
  obtain ⟨free, lru, hlists, -, -, hmem, -⟩ := bookkeeping hreach
  exact ⟨s, hreach, hheld, free, lru, hlists, hmem 1 hheld⟩

/-- The read of block 5 fails. The two lists are no lists any more, and the next call serves block
5 from the cache: two bytes that were never on the device. -/
theorem failed_block_served : ∃ s : System 2, Reachable smallConfig Always s ∧
    s.failed 5 = true ∧ (¬ ∃ free lru, Lists s.cache.links free lru) ∧
    (bcacheReadBlock smallConfig unreadable s.cache 5).map Prod.fst = some (some [0xaa, 0xaa]) := by
  obtain ⟨s, hreach, hfailed, hsearch, hserved⟩ := exists_reachable Always
    (P := fun s => s.failed 5 = true ∧ search s.cache (fun _ => false) = none ∧
      (bcacheReadBlock smallConfig unreadable s.cache 5).map Prod.fst = some (some [0xaa, 0xaa]))
    [(.read 5, unreadable)] (admits_always _ _) (by decide +kernel)
  refine ⟨s, hreach, hfailed, ?_, hserved⟩
  rintro ⟨free, lru, hlists⟩
  rw [hlists.search] at hsearch
  cases hsearch

end NusaKernel.Bcache
