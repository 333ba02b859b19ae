import NusaKernel.Bcache.Bookkeeping

/-!
# The block cache as an array of blocks

Without device errors, a client that follows the protocol of the cache (a block is changed while
it is held, and marked before it is put) cannot tell it from an array of blocks, and a flush makes
the device equal to that array (`cache_transparent`).

The cache has to have a block for every one that is held at a time, and one more for any other
that is asked for. When all are held, `bcache_zero_block` returns an error, but
`find_or_fill_block` writes through a null pointer (`cache_exhausted`). And through the default
hooks of a device the blocks beyond 4 GiB are not reached.
-/

namespace NusaKernel.Bcache

open List Function Option Transition Segment CircularList

variable {n : ℕ}

/-! ## The client -/

/-- What a client of the cache has: for every block number how often it holds the block, the
pointer it got, and whether it changed the block since it last marked it. -/
structure Client (n : ℕ) where
  held : ℕ → ℕ
  pointer : ℕ → Option (Fin n)
  unmarked : ℕ → Bool

/-- The client has the block once more, at a pointer. -/
def Client.got (client : Client n) (b : ℕ) (i : Fin n) : Client n :=
  { client with
    held := update client.held b (client.held b + 1)
    pointer := update client.pointer b (some i) }

/-- The client has the block once less. -/
def Client.gave (client : Client n) (b : ℕ) : Client n :=
  { client with held := update client.held b (client.held b - 1) }

/-- The client changed the block, or there are no changes that are not marked. -/
def Client.setUnmarked (client : Client n) (b : ℕ) (value : Bool) : Client n :=
  { client with unmarked := update client.unmarked b value }

structure Session (n : ℕ) where
  cache : Cache n
  client : Client n

/-- The calls, and reads and writes through the pointer that `bcache_get_block` returned. -/
inductive Op where
  | read (blocknum : UInt32)
  | get (blocknum : UInt32)
  | view (blocknum : UInt32)
  | change (blocknum : UInt32) (data : List UInt8)
  | markDirty (blocknum : UInt32)
  | zero (blocknum : UInt32)
  | put (blocknum : UInt32)
  | flush

/-- The result of a call, and the bytes read. -/
structure Reply where
  rc : ℤ
  data : List UInt8
deriving DecidableEq

/-- A result without bytes. -/
def Reply.status (ok : Bool) : Reply := ⟨if ok then 0 else -1, []⟩

variable (config : Config)

/-- One operation, with a device that does not fail. -/
def serve (s : Session n) : Op → Option (Reply × Session n)
  | .read b =>
    (bcacheReadBlock config .ok s.cache b.toNat).map fun (result, c) =>
      (match result with
        | some data => ⟨0, data⟩
        | none => .status false, { s with cache := c })
  | .get b =>
    (bcacheGetBlock config .ok s.cache b.toNat).map fun (result, c) =>
      match result with
      | some i => (.status true, ⟨c, s.client.got b.toNat i⟩)
      | none => (.status false, { s with cache := c })
  | .view b =>
    (s.client.pointer b.toNat).map fun i => (⟨0, (s.cache.block i).data⟩, s)
  | .change b data =>
    (s.client.pointer b.toNat).map fun i =>
      (.status true, ⟨s.cache.setBlock i { s.cache.block i with data := data },
        s.client.setUnmarked b.toNat true⟩)
  | .markDirty b =>
    (bcacheMarkBlockDirty s.cache b.toNat).map fun (ok, c) =>
      (.status ok, ⟨c, s.client.setUnmarked b.toNat false⟩)
  | .zero b =>
    (bcacheZeroBlock config .ok s.cache b.toNat).map fun (ok, c) =>
      (.status ok, ⟨c, s.client.setUnmarked b.toNat false⟩)
  | .put b =>
    (bcachePutBlock s.cache b.toNat).map fun c => (.status true, ⟨c, s.client.gave b.toNat⟩)
  | .flush =>
    (bcacheFlush config .ok s.cache).map fun (ok, c) => (.status ok, { s with cache := c })

/-- The cache as a machine. After a write through a null pointer there is no session any more. -/
def cacheStep (session : Option (Session n)) (op : Op) :
    Option Reply × Option (Session n) :=
  match session.bind fun s => serve config s op with
  | none => (none, none)
  | some (reply, s) => (some reply, some s)

/-- A session with a new cache. -/
def opened (memory : Memory config n) (disk : ℕ → UInt8) :
    Option (Session n) :=
  (bcacheCreate config memory disk).map fun c =>
    ⟨c, fun _ => 0, fun _ => none, fun _ => false⟩

/-! ## The array of blocks -/

/-- An array of blocks. -/
def plainStep (blockSize : ℕ) (blocks : ℕ → List UInt8) :
    Op → Option Reply × (ℕ → List UInt8)
  | .read b => (some ⟨0, blocks b.toNat⟩, blocks)
  | .view b => (some ⟨0, blocks b.toNat⟩, blocks)
  | .change b data => (some (.status true), update blocks b.toNat data)
  | .zero b =>
    (some (.status true), update blocks b.toNat (replicate blockSize 0))
  | .get _ => (some (.status true), blocks)
  | .markDirty _ => (some (.status true), blocks)
  | .put _ => (some (.status true), blocks)
  | .flush => (some (.status true), blocks)

/-- The bytes of a block on the device. -/
def diskBlock (disk : ℕ → UInt8) (blocknum : ℕ) : List UInt8 :=
  Ring.block disk (blocknum * config.blockSize) config.blockSize

/-- The block is inside the device, and where its hooks go. -/
def Inside (blocknum : ℕ) : Prop :=
  blocknum * config.blockSize + config.blockSize ≤ config.dev.totalSize ∧
    (config.defaultHooks = true → blocknum * config.blockSize + config.blockSize ≤ 2 ^ 32)
deriving Decidable

/-- The protocol of the cache: blocks are inside the device, a block is used through its pointer,
marked and put while it is held, and changes are marked before the block is put for the last
time. -/
def Protocol (session : Option (Session n)) (op : Op) : Prop :=
  ∃ s ∈ session,
    match op with
    | .read b => Inside config b.toNat
    | .get b => Inside config b.toNat
    | .view b => 0 < s.client.held b.toNat
    | .change b data => 0 < s.client.held b.toNat ∧ data.length = config.blockSize
    | .markDirty b => 0 < s.client.held b.toNat
    | .zero b => Inside config b.toNat
    | .put b =>
      0 < s.client.held b.toNat ∧
        (s.client.held b.toNat = 1 → s.client.unmarked b.toNat = false)
    | .flush => True

/-- The block that the cache has to have for an operation. -/
def Op.asks : Op → Option UInt32
  | .read b => some b
  | .get b => some b
  | .zero b => some b
  | _ => none

/-- The block that is asked for is held, or there is a cache block that is not. -/
def Available (session : Option (Session n)) (op : Op) : Prop :=
  ∃ s ∈ session, ∀ b ∈ op.asks, 0 < s.client.held b.toNat ∨ ∃ i, (s.cache.block i).refCount = 0

/-! ## The simulation -/

variable {config : Config} {c c' : Cache n} {client client' : Client n}
  {blocks blocks' : ℕ → List UInt8} {free free' lru lru' : List (Fin n)} {i : Fin n} {b : ℕ}
  {data : List UInt8}

/-- What a block in use has to do with the array: it holds the bytes of its number, and so does
the device unless there are changes to write. -/
structure Cached (config : Config) (block : Block) (disk : ℕ → UInt8) (client : Client n)
    (blocks : ℕ → List UInt8) : Prop where
  num_lt : block.blocknum < 2 ^ 32
  inside : Inside config block.blocknum
  data : block.data = blocks block.blocknum
  held : block.refCount = client.held block.blocknum
  clean : block.isDirty = false → client.unmarked block.blocknum = false →
    diskBlock config disk block.blocknum = blocks block.blocknum

structure Sim (config : Config) (c : Cache n) (client : Client n) (blocks : ℕ → List UInt8)
    (free lru : List (Fin n)) : Prop where
  kept : Kept config c free lru
  cached : ∀ i ∈ lru, Cached config (c.block i) c.disk client blocks
  absent : ∀ b, Missing c lru b → diskBlock config c.disk b = blocks b ∧ client.held b = 0
  unmarked : ∀ b, client.unmarked b = true → 0 < client.held b
  pointer : ∀ b, 0 < client.held b → ∃ i ∈ lru, (c.block i).blocknum = b ∧ client.pointer b = some i

/-- A block that was written is on the device. -/
theorem disk_block_store (disk : ℕ → UInt8) (b : ℕ) (h : data.length = config.blockSize) :
    diskBlock config (store disk (b * config.blockSize) data) b = data := by
  unfold diskBlock
  rw [← h]
  exact block_store

/-- The other blocks of the device are as before. -/
theorem disk_block_store_of_ne (disk : ℕ → UInt8) {b' : ℕ} (h : data.length = config.blockSize)
    (hne : b' ≠ b) :
    diskBlock config (store disk (b * config.blockSize) data) b' = diskBlock config disk b' := by
  refine block_store_of_disjoint ?_
  rw [h]
  rcases Nat.lt_or_gt_of_ne hne with hlt | hlt
  · exact .inl (by rw [← Nat.succ_mul]; exact Nat.mul_le_mul_right _ hlt)
  · exact .inr (by rw [← Nat.succ_mul]; exact Nat.mul_le_mul_right _ hlt)

theorem flush_block_ok (hnum : (c.block i).blocknum < 2 ^ 32)
    (hinside : Inside config (c.block i).blocknum)
    (hlength : (c.block i).data.length = config.blockSize) :
    flushBlock config .ok c i =
      (true, { c with
        disk := store c.disk ((c.block i).blocknum * config.blockSize) (c.block i).data }.setBlock i
          { c.block i with isDirty := false }) := by
  have hwrite : Bio.bioWriteVia config.defaultHooks config.dev c.disk ((Io.ok : Io n).write i)
      (c.block i).data ((c.block i).blocknum * config.blockSize : ℕ) =
        (((c.block i).data.length : ℤ),
          store c.disk ((c.block i).blocknum * config.blockSize) (c.block i).data) := by
    refine Bio.bio_write_via_of_le ?_ ?_
    · rw [hlength]
      exact hinside.1
    · rw [hlength]
      exact hinside.2
  unfold flushBlock
  rw [offset_eq config hnum, hwrite]
  exact if_neg (wrap_int_count config hlength.le)

theorem fill_block_inside (hnum : b < 2 ^ 32) (hinside : Inside config b)
    (hlength : (c.block i).data.length = config.blockSize) :
    fillBlock config .ok c i b = some (some i, c.setBlock i
      { c.block i with blocknum := b, data := diskBlock config c.disk b }) := by
  have hread : Bio.bioReadVia config.defaultHooks config.dev c.disk (Io.ok : Io n).read
      (c.block i).data (b * config.blockSize : ℕ) = (((c.block i).data.length : ℤ),
        Ring.block c.disk (b * config.blockSize) (c.block i).data.length) := by
    refine Bio.bio_read_via_of_le ?_ ?_
    · rw [hlength]
      exact hinside.1
    · rw [hlength]
      exact hinside.2
  unfold fillBlock
  rw [offset_eq config hnum, hread, hlength]
  exact if_neg (wrap_int_count config le_rfl)

/-! ## What operations do to the simulation -/

section

variable (h : Sim config c client blocks free lru)
include h

/-- The order of the LRU list changes. -/
theorem Sim.reorder {links' : Links (Node n)} (hlists : Lists links' free lru')
    (hperm : lru'.Perm lru) : Sim config { c with links := links' } client blocks free lru' where
  kept := (h.kept.reorder hlists hperm).1
  cached i hi := h.cached i (hperm.mem_iff.mp hi)
  absent b hmissing := h.absent b fun i hi => hmissing i (hperm.mem_iff.mpr hi)
  unmarked := h.unmarked
  pointer b hb := by
    obtain ⟨i, hi, hpointer⟩ := h.pointer b hb
    exact ⟨i, hperm.mem_iff.mpr hi, hpointer⟩

/-- A block in use, its bytes in the array and what the client has of it change together. -/
theorem Sim.set_block (hi : i ∈ lru) (hb : (c.block i).blocknum = b) {block : Block}
    (hnum : block.blocknum = b) (hlength : block.data.length = config.blockSize)
    (hcached : Cached config block c.disk client' blocks')
    (hrest : ∀ x, x ≠ b → client'.held x = client.held x ∧ client'.pointer x = client.pointer x ∧
      client'.unmarked x = client.unmarked x ∧ blocks' x = blocks x)
    (hself : client'.unmarked b = true → 0 < client'.held b)
    (hget : 0 < client'.held b → client'.pointer b = some i) :
    Sim config (c.setBlock i block) client' blocks' free lru := by
  have hsame := c.set_block_self i block
  have hother : ∀ j, j ≠ i → (c.setBlock i block).block j = c.block j := fun j =>
    c.set_block_of_ne block
  have hdiff : ∀ j ∈ lru, j ≠ i → (c.block j).blocknum ≠ b := fun j hj hne heq =>
    hne (h.kept.distinct j hj i hi (heq.trans hb.symm))
  refine ⟨h.kept.set_block hi (hnum.trans hb.symm) hlength, fun j hj => ?_, fun x hmissing => ?_,
    fun x hx => ?_, fun x hx => ?_⟩
  · by_cases hji : j = i
    · rw [hji, hsame]
      exact hcached
    · have hold := h.cached j hj
      obtain ⟨hheld, -, hunmarked, hblocks⟩ := hrest _ (hdiff j hj hji)
      rw [hother j hji]
      refine ⟨hold.num_lt, hold.inside, ?_, ?_, fun hclean hmarked => ?_⟩
      · rw [hblocks]
        exact hold.data
      · rw [hheld]
        exact hold.held
      · rw [hblocks]
        exact hold.clean hclean (hunmarked ▸ hmarked)
  · have hxb : x ≠ b := by
      intro heq
      have hnot := hmissing i hi
      rw [hsame, hnum] at hnot
      exact hnot heq.symm
    obtain ⟨hheld, -, -, hblocks⟩ := hrest x hxb
    rw [hblocks, hheld]
    refine h.absent x fun j hj heq => ?_
    have hnot := hmissing j hj
    by_cases hji : j = i
    · rw [hji, hb] at heq
      exact hxb heq.symm
    · rw [hother j hji] at hnot
      exact hnot heq
  · by_cases hxb : x = b
    · subst hxb
      exact hself hx
    · obtain ⟨hheld, -, hunmarked, -⟩ := hrest x hxb
      rw [hheld]
      exact h.unmarked x (hunmarked ▸ hx)
  · by_cases hxb : x = b
    · subst hxb
      exact ⟨i, hi, by rw [hsame, hnum], hget hx⟩
    · obtain ⟨hheld, hpointer, -, -⟩ := hrest x hxb
      obtain ⟨j, hj, hjx, hpoint⟩ := h.pointer x (hheld ▸ hx)
      have hji : j ≠ i := fun heq => hxb (by rw [← hjx, heq, hb])
      exact ⟨j, hj, by rw [hother j hji, hjx], hpointer.trans hpoint⟩

/-- What is not held has no changes that are not marked. -/
theorem Sim.marked {x : ℕ} (hx : client.held x = 0) : client.unmarked x = false := by
  by_contra hnot
  have hpos := h.unmarked x (Bool.not_eq_false _ ▸ hnot)
  omega

/-- `alloc_block` writes to the device at most the block it takes, whose bytes are there then. -/
theorem Sim.alloc_disk (halloc : Allocated config .ok c lru i c' lru') :
    (∀ x, (i ∈ lru → x ≠ (c.block i).blocknum) →
        diskBlock config c'.disk x = diskBlock config c.disk x) ∧
      (i ∈ lru → diskBlock config c'.disk (c.block i).blocknum = blocks (c.block i).blocknum ∧
        client.held (c.block i).blocknum = 0) := by
  have hunheld : i ∈ lru → client.held (c.block i).blocknum = 0 := fun hi => by
    have hheld := (h.cached i hi).held
    rw [halloc.unheld hi] at hheld
    exact_mod_cast hheld.symm
  rcases halloc.disk with ⟨hdisk, hclean⟩ | ⟨hi, flushed, hflush, hdisk⟩
  · rw [hdisk]
    refine ⟨fun _ _ => rfl, fun hi => ⟨?_, hunheld hi⟩⟩
    exact (h.cached i hi).clean (hclean hi) (h.marked (hunheld hi))
  have hcached := h.cached i hi
  have hlength := h.kept.length_eq i
  rw [flush_block_ok hcached.num_lt hcached.inside hlength] at hflush
  cases hflush
  rw [hdisk]
  refine ⟨fun x hx => disk_block_store_of_ne _ hlength (hx hi), fun _ => ⟨?_, hunheld hi⟩⟩
  rw [← hcached.data]
  exact disk_block_store _ _ hlength

/-- The block that `alloc_block` returned gets a number that no block in use has. -/
theorem Sim.rebind (halloc : Allocated config .ok c lru i c' lru')
    (hlists : Lists c'.links free' lru') (hmissing : Missing c lru b)
    {block : Block} (hnum : block.blocknum = b) (hlength : block.data.length = config.blockSize)
    (hcached : Cached config block c'.disk client' blocks') (hheld : client'.held = client.held)
    (hpointer : client'.pointer = client.pointer)
    (hunmarked : ∀ x, x ≠ b → client'.unmarked x = client.unmarked x)
    (hmarked : client'.unmarked b = false) (hblocks : ∀ x, x ≠ b → blocks' x = blocks x) :
    Sim config (c'.setBlock i block) client' blocks' free' lru' := by
  obtain ⟨hdisk, hevicted⟩ := h.alloc_disk halloc
  have hsame := c'.set_block_self i block
  have hother : ∀ j, j ≠ i → (c'.setBlock i block).block j = c.block j := fun j hj =>
    (c'.set_block_of_ne block hj).trans (halloc.same j hj)
  refine ⟨(h.kept.rebind halloc hlists hmissing hnum hlength).1, fun j hj => ?_,
    fun x hnone => ?_, fun x hx => ?_, fun x hx => ?_⟩
  · by_cases hji : j = i
    · rw [hji, hsame]
      exact hcached
    · have hjlru := (halloc.others j hji).mp hj
      have hold := h.cached j hjlru
      have hne := hmissing j hjlru
      have hapart : i ∈ lru → (c.block j).blocknum ≠ (c.block i).blocknum := fun hi heq =>
        hji (h.kept.distinct j hjlru i hi heq)
      rw [hother j hji]
      refine ⟨hold.num_lt, hold.inside, ?_, ?_, fun hclean hmark => ?_⟩
      · rw [hblocks _ hne]
        exact hold.data
      · rw [hheld]
        exact hold.held
      · rw [hblocks _ hne]
        rw [hunmarked _ hne] at hmark
        exact (hdisk _ hapart).trans (hold.clean hclean hmark)
  · have hxb : x ≠ b := by
      intro heq
      have hnot := hnone i halloc.mem
      rw [hsame, hnum] at hnot
      exact hnot heq.symm
    rw [hblocks x hxb, hheld]
    by_cases hold : i ∈ lru ∧ x = (c.block i).blocknum
    · -- the block that was evicted
      obtain ⟨hi, rfl⟩ := hold
      exact hevicted hi
    have habsent : Missing c lru x := fun j hj heq => by
      by_cases hji : j = i
      · exact hold ⟨hji ▸ hj, by rw [← heq, hji]⟩
      · have hnot := hnone j ((halloc.others j hji).mpr hj)
        rw [hother j hji] at hnot
        exact hnot heq
    rw [c'.set_block_disk, hdisk x fun hi heq => hold ⟨hi, heq⟩]
    exact h.absent x habsent
  · have hxb : x ≠ b := by
      rintro rfl
      rw [hmarked] at hx
      cases hx
    rw [hunmarked x hxb] at hx
    rw [hheld]
    exact h.unmarked x hx
  · rw [hheld] at hx
    obtain ⟨j, hj, hjx, hpoint⟩ := h.pointer x hx
    have hji : j ≠ i := by
      rintro rfl
      have hzero := (hevicted hj).2
      rw [hjx] at hzero
      omega
    refine ⟨j, (halloc.others j hji).mpr hj, by rw [hother j hji, hjx], ?_⟩
    rw [hpointer, hpoint]

/-- A block that is held is in use. -/
theorem Sim.not_missing (hheld : 0 < client.held b) : ¬ Missing c lru b := by
  intro hmissing
  obtain ⟨i, hi, hnum, -⟩ := h.pointer b hheld
  exact hmissing i hi hnum

theorem Sim.pointer_eq (hi : i ∈ lru) (hnum : (c.block i).blocknum = b)
    (hheld : 0 < client.held b) :
    client.pointer b = some i := by
  obtain ⟨j, hj, hjb, hpointer⟩ := h.pointer b hheld
  obtain rfl := h.kept.distinct j hj i hi (hjb.trans hnum.symm)
  exact hpointer

/-- Without device errors `alloc_block` returns a block if there is one that is not held. -/
theorem Sim.not_refused (hmissing : Missing c lru b)
    (havailable : 0 < client.held b ∨ ∃ i, (c.block i).refCount = 0) :
    ¬ Refused config .ok c free lru c' := by
  intro hrefused
  have hunheld := havailable.resolve_left fun hheld => h.not_missing hheld hmissing
  exact h.kept.not_refused hunheld (fun _ _ _ => rfl) hrefused

/-- `find_or_fill_block` returns the block with the number. -/
theorem Sim.find_or_fill (hnum : b < 2 ^ 32) (hinside : Inside config b)
    (havailable : 0 < client.held b ∨ ∃ i, (c.block i).refCount = 0) :
    ∃ i c' free' lru', findOrFillBlock config .ok c b = some (some i, c') ∧
      Sim config c' client blocks free' lru' ∧ i ∈ lru' ∧ (c'.block i).blocknum = b := by
  rcases h.kept.lists.find_or_fill config .ok b with
    ⟨i, links', lru', hi, hb, hfind, hlists, hperm⟩ |
    ⟨hmissing, ⟨-, c', hrefused⟩ | ⟨i, c', free', lru', halloc, hlists, hfind⟩⟩
  · exact ⟨i, _, free, lru', hfind, h.reorder hlists hperm, hperm.mem_iff.mpr hi, hb⟩
  · exact absurd hrefused (h.not_refused hmissing havailable)
  have hlength : (c'.block i).data.length = config.blockSize := by
    rw [halloc.data]
    exact h.kept.length_eq i
  obtain ⟨hdisk, hevicted⟩ := h.alloc_disk halloc
  have hunheld := (h.absent b hmissing).2
  have hfill : diskBlock config c'.disk b = blocks b :=
    (hdisk b fun hi heq => hmissing i hi heq.symm).trans (h.absent b hmissing).1
  refine ⟨i, _, free', lru', hfind.trans (fill_block_inside hnum hinside hlength), ?_, halloc.mem,
    by rw [c'.set_block_self]⟩
  refine h.rebind halloc hlists hmissing rfl (Ring.length_block ..) ?_ rfl rfl
    (fun _ _ => rfl) (h.marked hunheld) fun _ _ => rfl
  refine ⟨hnum, hinside, hfill, ?_, fun _ _ => hfill⟩
  rw [hunheld]
  exact halloc.ref_count

theorem Sim.find_held (hheld : 0 < client.held b) :
    ∃ i c' lru', findBlock c b = some (some i, c') ∧ Sim config c' client blocks free lru' ∧
      i ∈ lru' ∧ (c'.block i).blocknum = b ∧ client.pointer b = some i := by
  rcases h.kept.lists.find_block b with ⟨hmissing, -⟩ |
    ⟨i, links', lru', hi, hnum, hfind, hlists, hperm⟩
  · exact absurd hmissing (h.not_missing hheld)
  · exact ⟨i, _, lru', hfind, h.reorder hlists hperm, hperm.mem_iff.mpr hi, hnum,
      h.pointer_eq hi hnum hheld⟩

theorem Sim.flush_block (hi : i ∈ lru) :
    ∃ c', flushBlock config .ok c i = (true, c') ∧ Sim config c' client blocks free lru ∧
      (c'.block i).isDirty = false ∧
      ∀ j, (c.block j).isDirty = false → (c'.block j).isDirty = false := by
  have hcached := h.cached i hi
  have hlength := h.kept.length_eq i
  refine ⟨_, flush_block_ok hcached.num_lt hcached.inside hlength, ?_, by rw [Cache.set_block_self],
    fun j hj => ?_⟩
  · -- the device has the bytes of the block now, and the same bytes as before elsewhere
    have hwritten : ∀ x, x ≠ (c.block i).blocknum → diskBlock config
        (store c.disk ((c.block i).blocknum * config.blockSize) (c.block i).data) x =
          diskBlock config c.disk x := fun x => disk_block_store_of_ne _ hlength
    have hself : diskBlock config
        (store c.disk ((c.block i).blocknum * config.blockSize) (c.block i).data)
        (c.block i).blocknum = blocks (c.block i).blocknum :=
      (disk_block_store _ _ hlength).trans hcached.data
    have hdisk : Sim config { c with
        disk := store c.disk ((c.block i).blocknum * config.blockSize) (c.block i).data }
        client blocks free lru := by
      refine ⟨⟨h.kept.lists, h.kept.distinct, h.kept.free_ref, h.kept.length_eq⟩, fun j hj => ?_,
        fun x hmissing => ?_, h.unmarked, h.pointer⟩
      · have hold := h.cached j hj
        refine { hold with clean := fun hclean hmarked => ?_ }
        by_cases hji : (c.block j).blocknum = (c.block i).blocknum
        · rw [hji]
          exact hself
        · exact (hwritten _ hji).trans (hold.clean hclean hmarked)
      · have hne : x ≠ (c.block i).blocknum := fun heq => hmissing i hi heq.symm
        obtain ⟨hold, hzero⟩ := h.absent x hmissing
        exact ⟨(hwritten x hne).trans hold, hzero⟩
    exact hdisk.set_block hi rfl rfl hlength { hcached with clean := fun _ _ => hself }
      (fun _ _ => ⟨rfl, rfl, rfl, rfl⟩) (h.unmarked _) (h.pointer_eq hi rfl)
  · by_cases hji : j = i
    · rw [hji, Cache.set_block_self]
    · rw [Cache.set_block_of_ne _ _ hji]
      exact hj

/-- The loop of `bcache_flush` writes every block that it comes to. -/
theorem Sim.flush_loop {todo : List (Fin n)} (htodo : ∀ i ∈ todo, i ∈ lru) :
    ∃ c', visit (flushTurn config .ok) (todo.map .block) (true, c) = some (true, c') ∧
      Sim config c' client blocks free lru ∧ (∀ i ∈ todo, (c'.block i).isDirty = false) ∧
      ∀ i, (c.block i).isDirty = false → (c'.block i).isDirty = false := by
  induction todo generalizing c with
  | nil => exact ⟨c, rfl, h, fun i hi => (nomatch hi), fun _ hi => hi⟩
  | cons i todo ih =>
    obtain ⟨hi, hrest⟩ := forall_mem_cons.mp htodo
    -- the first block is clean after its turn, and stays so
    obtain ⟨c₁, hturn, hsim, hclean, hkeeps⟩ : ∃ c₁,
        flushTurn config .ok (.block i) (true, c) = some ((true, c₁), true) ∧
        Sim config c₁ client blocks free lru ∧ (c₁.block i).isDirty = false ∧
        ∀ j, (c.block j).isDirty = false → (c₁.block j).isDirty = false := by
      rw [flushTurn]
      by_cases hdirty : (c.block i).isDirty = true
      · obtain ⟨c₁, hflush, hsim⟩ := h.flush_block hi
        refine ⟨c₁, ?_, hsim⟩
        rw [if_pos hdirty, hflush]
      · refine ⟨c, if_neg hdirty, h, Bool.not_eq_true _ ▸ hdirty, fun _ hj => hj⟩
    obtain ⟨c', hloop, hsim', hcleans, hkeeps'⟩ := ih hsim hrest
    refine ⟨c', ?_, hsim', forall_mem_cons.mpr ⟨hkeeps' i hclean, hcleans⟩,
      fun j hj => hkeeps' j (hkeeps j hj)⟩
    · show (flushTurn config .ok (.block i) (true, c)).bind _ = _
      rw [hturn]
      exact hloop

/-- After a flush the device has the bytes of every block whose changes are marked. -/
theorem Sim.flush :
    ∃ c', bcacheFlush config .ok c = some (true, c') ∧ Sim config c' client blocks free lru ∧
      ∀ b, client.unmarked b = false → diskBlock config c'.disk b = blocks b := by
  have hlength := h.kept.lists.lru_length
  obtain ⟨c', hloop, hsim, hclean, -⟩ := h.flush_loop fun i (hi : i ∈ lru) => hi
  refine ⟨c', ?_, hsim, fun b hmarked => ?_⟩
  · unfold bcacheFlush
    rw [h.kept.lists.lru_list.loop (by rw [length_map]; omega)]
    exact hloop
  by_cases hmissing : Missing c' lru b
  · exact (hsim.absent b hmissing).1
  · unfold Missing at hmissing
    push Not at hmissing
    obtain ⟨i, hi, rfl⟩ := hmissing
    exact (hsim.cached i hi).clean (hclean i hi) hmarked

end

/-! ## The operations -/

/-- An operation of a session is answered as the array answers it. -/
def Answered (config : Config) (s : Session n) (blocks : ℕ → List UInt8) (op : Op) : Prop :=
  ∃ reply s', serve config s op = some (reply, s') ∧
    (plainStep config.blockSize blocks op).1 = some reply ∧
    ∃ free' lru', Sim config s'.cache s'.client (plainStep config.blockSize blocks op).2 free' lru'

variable {s : Session n} {num : UInt32}

section

variable (h : Sim config s.cache s.client blocks free lru)
include h

section

variable (hinside : Inside config num.toNat)
  (havailable : 0 < s.client.held num.toNat ∨ ∃ i, (s.cache.block i).refCount = 0)
include hinside havailable

theorem Sim.read : Answered config s blocks (.read num) := by
  obtain ⟨i, c', free', lru', hfill, hsim, hi, hnum⟩ :=
    h.find_or_fill num.toNat_lt hinside havailable
  refine ⟨⟨0, (c'.block i).data⟩, ⟨c', s.client⟩, ?_, ?_, free', lru', hsim⟩
  · rw [serve, bcacheReadBlock, hfill]
    rfl
  · show some (Reply.mk 0 (blocks num.toNat)) = _
    rw [(hsim.cached i hi).data, hnum]

theorem Sim.get : Answered config s blocks (.get num) := by
  obtain ⟨i, c', free', lru', hfill, hsim, hi, hnum⟩ :=
    h.find_or_fill num.toNat_lt hinside havailable
  have hcached := hsim.cached i hi
  refine ⟨.status true, ⟨c'.setBlock i { c'.block i with refCount := (c'.block i).refCount + 1 },
    s.client.got num.toNat i⟩, ?_, rfl, free', lru', ?_⟩
  · rw [serve, bcacheGetBlock, hfill]
    rfl
  have hheld : (s.client.got num.toNat i).held num.toNat = s.client.held num.toNat + 1 :=
    update_self ..
  refine hsim.set_block hi hnum hnum (hsim.kept.length_eq i) ?_
    (fun x hx => ⟨update_of_ne hx _ _, update_of_ne hx _ _, rfl, rfl⟩) (fun _ => ?_)
    fun _ => update_self ..
  · refine { hcached with held := ?_ }
    rw [hcached.held, hnum, hheld]
    rfl
  · rw [hheld]
    exact Nat.succ_pos _

theorem Sim.zero : Answered config s blocks (.zero num) := by
  -- whichever block it is, it gets zeros and is marked
  have hzeros : ∀ {block : Block} {disk : ℕ → UInt8}, block.blocknum = num.toNat →
      block.refCount = s.client.held num.toNat →
      Cached config { block with data := replicate config.blockSize 0, isDirty := true } disk
        (s.client.setUnmarked num.toNat false)
        (update blocks num.toNat (replicate config.blockSize 0)) := by
    intro block disk hnum hheld
    refine ⟨?_, ?_, ?_, ?_, fun hclean => nomatch hclean⟩
    · exact hnum ▸ num.toNat_lt
    · exact hnum ▸ hinside
    · rw [hnum, update_self]
    · show block.refCount = (s.client.held block.blocknum : ℕ)
      rw [hnum, hheld]
  have hmarked : (s.client.setUnmarked num.toNat false).unmarked num.toNat = false := update_self ..
  rcases h.kept.lists.find_block num.toNat with ⟨hmissing, hfind⟩ |
    ⟨i, links', lru', hi, hnum, hfind, hlists, hperm⟩
  · rcases h.kept.lists.alloc_block config .ok with ⟨c', -, hrefused⟩ |
      ⟨i, c', free', lru', halloc, hlists, hallocated⟩
    · exact absurd hrefused (h.not_refused hmissing havailable)
    · refine ⟨.status true, ⟨zeroData config
        (c'.setBlock i { c'.block i with blocknum := num.toNat }) i,
          s.client.setUnmarked num.toNat false⟩, ?_, rfl, free', lru', ?_⟩
      · rw [serve, bcacheZeroBlock, hfind]
        show ((allocBlock config .ok s.cache).bind _).map _ = _
        rw [halloc]
        rfl
      · rw [zero_data_set_block]
        refine h.rebind hallocated hlists hmissing rfl length_replicate
          (hzeros rfl ?_) rfl rfl (fun x hx => update_of_ne hx _ _) hmarked
          fun x hx => update_of_ne hx _ _
        rw [(h.absent _ hmissing).2]
        exact hallocated.ref_count
  · have hsim := h.reorder hlists hperm
    have hi' := hperm.mem_iff.mpr hi
    refine ⟨.status true, ⟨zeroData config { s.cache with links := links' } i,
      s.client.setUnmarked num.toNat false⟩, ?_, rfl, free, lru', ?_⟩
    · rw [serve, bcacheZeroBlock, hfind]
      rfl
    refine hsim.set_block hi' hnum hnum length_replicate
      (hzeros hnum (hnum ▸ (hsim.cached i hi').held))
      (fun x hx => ⟨rfl, rfl, update_of_ne hx _ _, update_of_ne hx _ _⟩)
      (fun hunmarked => ?_) (hsim.pointer_eq hi' hnum)
    rw [hmarked] at hunmarked
    cases hunmarked

end

section

variable (hheld : 0 < s.client.held num.toNat)
include hheld

theorem Sim.view : Answered config s blocks (.view num) := by
  obtain ⟨i, hi, hnum, hpointer⟩ := h.pointer num.toNat hheld
  refine ⟨⟨0, (s.cache.block i).data⟩, s, ?_, ?_, free, lru, h⟩
  · rw [serve, hpointer]
    rfl
  · show some (Reply.mk 0 (blocks num.toNat)) = _
    rw [(h.cached i hi).data, hnum]

theorem Sim.change (hlength : data.length = config.blockSize) :
    Answered config s blocks (.change num data) := by
  obtain ⟨i, hi, hnum, hpointer⟩ := h.pointer num.toNat hheld
  have hcached := h.cached i hi
  refine ⟨.status true, ⟨s.cache.setBlock i { s.cache.block i with data := data },
    s.client.setUnmarked num.toNat true⟩, ?_, rfl, free, lru, ?_⟩
  · rw [serve, hpointer]
    rfl
  refine h.set_block hi hnum hnum hlength ?_
    (fun x hx => ⟨rfl, rfl, update_of_ne hx _ _, update_of_ne hx _ _⟩)
    (fun _ => hheld) fun _ => hpointer
  refine { hcached with data := ?_, clean := fun _ hmarked => ?_ }
  · show data = update blocks num.toNat data (s.cache.block i).blocknum
    rw [hnum, update_self]
  · have hset : update s.client.unmarked num.toNat true (s.cache.block i).blocknum =
        false := hmarked
    rw [hnum, update_self] at hset
    cases hset

theorem Sim.mark_dirty :
    Answered config s blocks (.markDirty num) := by
  obtain ⟨i, c', lru', hfind, hsim, hi, hnum, hpointer⟩ := h.find_held hheld
  have hcached := hsim.cached i hi
  refine ⟨.status true, ⟨c'.setBlock i { c'.block i with isDirty := true },
    s.client.setUnmarked num.toNat false⟩, ?_, rfl, free, lru', ?_⟩
  · rw [serve, bcacheMarkBlockDirty, hfind]
    rfl
  · refine hsim.set_block hi hnum hnum (hsim.kept.length_eq i) ?_
      (fun x hx => ⟨rfl, rfl, update_of_ne hx _ _, rfl⟩) (fun _ => hheld) fun _ => hpointer
    exact { hcached with clean := fun hclean => nomatch hclean }

theorem Sim.put (hlast : s.client.held num.toNat = 1 → s.client.unmarked num.toNat = false) :
    Answered config s blocks (.put num) := by
  obtain ⟨i, c', lru', hfind, hsim, hi, hnum, hpointer⟩ := h.find_held hheld
  have hcached := hsim.cached i hi
  have hcount : (c'.block i).refCount = s.client.held num.toNat := hnum ▸ hcached.held
  have hgave : (s.client.gave num.toNat).held num.toNat = s.client.held num.toNat - 1 :=
    update_self ..
  refine ⟨.status true, ⟨c'.setBlock i { c'.block i with refCount := (c'.block i).refCount - 1 },
    s.client.gave num.toNat⟩, ?_, rfl, free, lru', ?_⟩
  · rw [serve, bcachePutBlock, hfind]
    rfl
  refine hsim.set_block hi hnum hnum (hsim.kept.length_eq i) ?_
    (fun x hx => ⟨update_of_ne hx _ _, rfl, rfl, rfl⟩) (fun hunmarked => ?_) fun _ => hpointer
  · refine { hcached with held := ?_ }
    show (c'.block i).refCount - 1 = ((s.client.gave num.toNat).held (c'.block i).blocknum : ℕ)
    rw [hnum, hgave]
    omega
  have hmore : s.client.held num.toNat ≠ 1 := fun hone => by
    have hmarked : s.client.unmarked num.toNat = true := hunmarked
    rw [hlast hone] at hmarked
    cases hmarked
  rw [hgave]
  omega

end

/-- Every operation of the protocol. -/
theorem Sim.serve {op : Op} (hprotocol : Protocol config (some s) op)
    (havailable : Available (some s) op) : Answered config s blocks op := by
  obtain ⟨s₁, hs₁, hprotocol⟩ := hprotocol
  obtain rfl := some.inj hs₁
  obtain ⟨s₂, hs₂, havailable⟩ := havailable
  obtain rfl := some.inj hs₂
  cases op with
  | read num => exact h.read hprotocol (havailable num rfl)
  | get num => exact h.get hprotocol (havailable num rfl)
  | view num => exact h.view hprotocol
  | change num data => exact h.change hprotocol.1 hprotocol.2
  | markDirty num => exact h.mark_dirty hprotocol
  | zero num => exact h.zero hprotocol (havailable num rfl)
  | put num => exact h.put hprotocol.1 hprotocol.2
  | flush =>
    obtain ⟨c', hflush, hsim, -⟩ := h.flush
    refine ⟨.status true, ⟨c', s.client⟩, ?_, rfl, free, lru, hsim⟩
    rw [Bcache.serve, hflush]
    rfl

end

/-! ## Whole runs -/

/-- The session goes on, and the cache stands for the array. -/
def Related (config : Config) (session : Option (Session n)) (blocks : ℕ → List UInt8) : Prop :=
  ∃ s free lru, session = some s ∧ Sim config s.cache s.client blocks free lru

theorem related_opened (memory : Memory config n) (disk : ℕ → UInt8) :
    Related config (opened config memory disk) (diskBlock config disk) := by
  obtain ⟨links, hcreate, hlists⟩ := bcache_create_spec memory disk
  refine ⟨⟨⟨links, fun i => { memory.block i with refCount := 0, isDirty := false }, disk⟩,
    fun _ => 0, fun _ => none, fun _ => false⟩, (finRange n).reverse, [], ?_, ?_⟩
  · unfold opened
    rw [hcreate]
    rfl
  · refine ⟨⟨hlists, fun i hi => (nomatch hi), fun _ _ => rfl, fun i => memory.length_eq i⟩,
      fun i hi => (nomatch hi), fun _ _ => ⟨rfl, rfl⟩, fun _ hb => (nomatch hb), fun b hb => ?_⟩
    exact absurd hb (Nat.lt_irrefl 0)

/-- The client follows the protocol and does not ask for more blocks than there are. -/
def Proper (config : Config) (session : Option (Session n)) (op : Op) : Prop :=
  Protocol config session op ∧ Available session op

/-- One operation. -/
theorem Related.step {session : Option (Session n)} {op : Op}
    (h : Related config session blocks) (hproper : Proper config session op) :
    (cacheStep config session op).1 = (plainStep config.blockSize blocks op).1 ∧
      Related config (cacheStep config session op).2 (plainStep config.blockSize blocks op).2 := by
  obtain ⟨s, free, lru, rfl, hsim⟩ := h
  obtain ⟨reply, s', hserve, hreply, free', lru', hsim'⟩ := hsim.serve hproper.1 hproper.2
  have hstep : cacheStep config (some s) op = (some reply, some s') := by
    unfold cacheStep
    rw [bind_some, hserve]
  rw [hstep, hreply]
  exact ⟨rfl, s', free', lru', rfl, hsim'⟩

/-- Every reply of the cache is the one that the array gives, and a flush at the end of any run
succeeds and leaves on the device what the array holds, apart from changes that are not marked
yet. -/
theorem cache_transparent (memory : Memory config n) (disk : ℕ → UInt8) (ops : List Op)
    (h : Meets (cacheStep config) (Proper config) (opened config memory disk) ops) :
    let plain := outputs (plainStep config.blockSize) (diskBlock config disk) ops
    let cached := outputs (cacheStep config) (opened config memory disk) ops
    cached.1 = plain.1 ∧ ∃ s ∈ cached.2, ∃ s', serve config s .flush = some (⟨0, []⟩, s') ∧
      ∀ b, s.client.unmarked b = false → diskBlock config s'.cache.disk b = plain.2 b := by
  have hstep : ∀ (session : Option (Session n)) blocks op, Related config session blocks →
      Proper config session op →
      (cacheStep config session op).1 = (plainStep config.blockSize blocks op).1 ∧
        Related config (cacheStep config session op).2
          (plainStep config.blockSize blocks op).2 := fun _ _ _ hrelated => hrelated.step
  obtain ⟨houtputs, s, free, lru, hfinal, hsim⟩ :=
    outputs_eq_of_meets hstep (related_opened memory disk) ops h
  obtain ⟨c', hflush, -, hdisk⟩ := hsim.flush
  refine ⟨houtputs, s, hfinal, ⟨c', s.client⟩, ?_, hdisk⟩
  rw [serve, hflush]
  rfl

/-- `Protocol` can be checked along a run. -/
instance (config : Config) (session : Option (Session n)) (op : Op) :
    Decidable (Protocol config session op) := by
  cases op <;> exact inferInstanceAs (Decidable (∃ s ∈ session, _))

/-- `Available` can be checked along a run. -/
instance (session : Option (Session n)) (op : Op) : Decidable (Available session op) :=
  -- the one block that is asked for, and not every number a block can have
  have (s : Session n) : Decidable (∀ b ∈ op.asks, 0 < s.client.held b.toNat ∨
      ∃ i, (s.cache.block i).refCount = 0) :=
    decidableForallMem _
  inferInstanceAs (Decidable (∃ s ∈ session, _))

/-- `Proper` can be checked along a run. -/
instance (config : Config) (session : Option (Session n)) (op : Op) :
    Decidable (Proper config session op) :=
  inferInstanceAs (Decidable (_ ∧ _))

/-- Block 1 is changed, evicted for block 2 and block 4, and read again. -/
theorem cache_transparent_evicted :
    let ops := [.get 1, .change 1 [7, 8], .read 3, .markDirty 1, .put 1, .zero 2, .read 4, .read 1]
    Meets (cacheStep smallConfig) (Proper smallConfig)
        (opened smallConfig smallMemory fun _ => 0) ops ∧
      (outputs (cacheStep smallConfig)
        (opened smallConfig smallMemory fun _ => 0) ops).1 =
        (outputs (plainStep 2) (diskBlock smallConfig fun _ => 0) ops).1 :=
  ⟨by decide +kernel, (cache_transparent smallMemory (fun _ => 0) _ (by decide +kernel)).1⟩

/-- The memory of one block. -/
def oneBlock : Memory smallConfig 1 := ⟨fun _ => ⟨0, 0, false, [0xaa, 0xaa]⟩, fun _ => rfl⟩

/-- A cache of one block, which is held: for another block `bcache_zero_block` returns an error, and
`bcache_read_block` writes through a null pointer. -/
theorem cache_exhausted :
    let ops := [.get 0, .zero 1, .read 1]
    Meets (cacheStep smallConfig) (Protocol smallConfig)
        (opened smallConfig oneBlock fun _ => 0) ops ∧
      (outputs (cacheStep smallConfig) (opened smallConfig oneBlock fun _ => 0) ops).1 =
        [some (.status true), some (.status false), none] ∧
      (outputs (plainStep 2) (diskBlock smallConfig fun _ => 0) ops).1 =
        [some (.status true), some (.status true), some ⟨0, [0, 0]⟩] := by
  decide +kernel

end NusaKernel.Bcache
