import NusaKernel.Heap.MiniheapPartition

/-!
# What an allocation of the miniheap is

The pointer that `miniheap_alloc` returns is aligned, and the header in front of it and the bytes
behind it are inside the chunk that the header names, which is cut off the front of one free chunk.
As long as the pointer is not freed its header stays, so that `miniheap_free` gives back this chunk.
All of this is for sizes that do not go round with what `miniheap_alloc` adds to them, and a size
that does never gets it: if there is a pointer at all, its chunk is smaller than the size
(`alloc_contract`, `huge_size_gets_small_chunk`).
-/

namespace NusaKernel.Miniheap

open Word Span List Option

/-- An allocation of `size` bytes at `ptr` in a chunk cut off the front of a free one. -/
structure Cut (debug : Bool) (size alignment ptr : ℕ) (free : List Span) (cut : Span) : Prop where
  aligned : alignment ≠ 0 → alignment ∣ ptr
  chunk : ∃ c ∈ free, c.start = cut.start ∧ cut.len ≤ c.len
  header : cut.start + headerSize debug ≤ ptr
  bytes : ptr + size ≤ cut.start + cut.len

section Alloc

variable {debug : Bool} {h h' : Heap} {size alignment ptr : ℕ}

/-- Inserting a chunk leaves the headers. -/
theorem insert_created_headers {ptr len : ℕ} (hinsert : insertCreated h ptr len = some h') :
    h'.headers = h.headers := by
  obtain ⟨chunk, -, hinsert⟩ := bind_eq_some_iff.mp hinsert
  unfold heapInsertFreeChunk at hinsert
  obtain ⟨_, ⟨⟩⟩ := ite_none_right_eq_some.mp hinsert
  rfl

/-- Growing leaves the headers. -/
theorem heap_grow_headers (hgrow : heapGrow h size ptr = some h') : h'.headers = h.headers := by
  obtain ⟨inserted, hinsert, rfl⟩ := map_eq_some_iff.mp hgrow
  exact (insert_created_headers hinsert : inserted.headers = _)

/-- The alignment that is used is a multiple of the one that is asked for. -/
theorem alignment_dvd_request (debug : Bool) (size : ℕ) (hpower : alignment &&& (alignment - 1) = 0)
    (hne : alignment ≠ 0) :
    0 < (requestSize debug size alignment).2 ∧
    alignment ∣ (requestSize debug size alignment).2 := by
  unfold requestSize
  rw [if_pos (Nat.pos_of_ne_zero hne)]
  dsimp only
  split
  · next hlt =>
    obtain ⟨k, rfl⟩ := (Nat.and_sub_one_eq_zero_iff_isPowerOfTwo hne).mp hpower
    have hk : k < 4 := (Nat.pow_lt_pow_iff_right (by decide : 1 < 2)).mp hlt
    exact ⟨by decide, show 2 ^ k ∣ 2 ^ 4 from Nat.pow_dvd_pow 2 hk.le⟩
  · exact ⟨Nat.pos_of_ne_zero hne, dvd_refl _⟩

/-- The chunk that is taken is in the new header. It is at most a list node larger than the size. -/
theorem alloc_chunk_header (halloc : allocChunk debug h size alignment = some (ptr, h')) :
    ∃ cut, h'.headers = ⟨ptr, cut⟩ :: h.headers ∧ (∃ c ∈ h.freeList, c.start = cut.start ∧
        cut.len ≤ c.len) ∧ size ≤ cut.len ∧ cut.len ≤ size + freeHeapChunkSize ∧
      ptr = if 0 < alignment then roundup64 (cut.start + headerSize debug) alignment
        else cut.start + headerSize debug := by
  obtain ⟨⟨cut, freeList⟩, htake, heq⟩ := map_eq_some_iff.mp halloc
  cases heq
  obtain ⟨before, c, after, hlist, hle, hcut⟩ := take_chunk_split htake
  have hc : c ∈ h.freeList := hlist ▸ mem_append_right before mem_cons_self
  rcases hcut with ⟨hsmall, rfl, -⟩ | ⟨-, rfl, -⟩
  · exact ⟨_, rfl, ⟨_, hc, rfl, le_rfl⟩, hle, hsmall, rfl⟩
  · exact ⟨_, rfl, ⟨_, hc, rfl, hle⟩, le_rfl, Nat.le_add_right _ _, rfl⟩

/-- The chunk that is taken, for a size that does not go round. -/
theorem alloc_chunk_cut (hfree : FreeInv h.freeList)
    (hsize : paddedSize debug size alignment < 2 ^ 64)
    (hpower : alignment &&& (alignment - 1) = 0)
    (halloc : allocChunk debug h (requestSize debug size alignment).1
      (requestSize debug size alignment).2 = some (ptr, h')) :
    ∃ cut, Cut debug size alignment ptr h.freeList cut ∧ h'.headers = ⟨ptr, cut⟩ :: h.headers := by
  obtain ⟨-, -, hroom⟩ := request_spec debug hsize hpower
  have hdvd := alignment_dvd_request debug size hpower
  generalize requestSize debug size alignment = request at hroom hdvd halloc
  obtain ⟨cut, hheaders, ⟨c, hc, hstart, hlen⟩, hlarge, -, hptr⟩ := alloc_chunk_header halloc
  have hfits := (hfree.chunks c hc).fits
  simp only [lastPage, pageSize] at hfits
  refine ⟨cut, ⟨fun hne => ?_, ⟨c, hc, hstart, hlen⟩, ?_, ?_⟩, hheaders⟩
  · obtain ⟨hpos, hdvd⟩ := hdvd hne
    rw [hptr, if_pos hpos]
    exact hdvd.trans (Dvd.intro_left _ rfl)
  all_goals
    split at hptr
    · next hpos =>
      have hbounds := roundup64_bounds (x := cut.start + headerSize debug) hpos (by omega)
      omega
    · omega

/-- The heap that a chunk is found in: the one before the call, or that one with the pages. -/
def Searched (debug : Bool) (h : Heap) (size alignment : ℕ) (pages : Option ℕ) (searched : Heap) :
    Prop :=
  searched = h ∨ ∃ start ∈ pages,
    heapGrow h (requestSize debug size alignment).1 start = some searched

/-- A pointer is returned for a chunk of the heap before the call, or of the grown one. -/
theorem miniheap_alloc_searched {pages : Option ℕ} (hinv : HeapInv debug h)
    (hpages : ∀ span ∈ grownPages debug h size alignment pages, Fresh h span)
    (halloc : miniheapAlloc debug h size alignment pages = some (some ptr, h')) :
    ∃ searched, Searched debug h size alignment pages searched ∧ HeapInv debug searched ∧
      searched.headers = h.headers ∧
      allocChunk debug searched (requestSize debug size alignment).1
        (requestSize debug size alignment).2 = some (ptr, h') := by
  unfold miniheapAlloc at halloc
  unfold grownPages at hpages
  split at halloc
  · cases halloc
  next hpower =>
  rw [if_neg hpower] at hpages
  dsimp only at halloc hpages
  split at halloc
  · next htake =>
    cases halloc
    exact ⟨h, .inl rfl, hinv, rfl, htake⟩
  next hnone =>
  rw [hnone] at hpages
  cases pages with
  | none => cases halloc
  | some start =>
    obtain ⟨grown, hgrow, heq⟩ := map_eq_some_iff.mp halloc
    obtain ⟨hstart, -, hfits, hapart⟩ := hpages _ mem_cons_self
    obtain ⟨hgrown, -⟩ := heap_grow_spec hinv hstart hfits (cover_of_apart hapart) hgrow
    split at heq
    · next htake =>
      cases heq
      exact ⟨grown, .inr ⟨start, rfl, hgrow⟩, hgrown, heap_grow_headers hgrow, htake⟩
    · cases heq

end Alloc

/-! ## The header stays -/

section Stays

variable {debug : Bool} {h h' : Heap} {as : Header}

/-- A header is still there when a chunk has been allocated. -/
theorem mem_alloc_chunk {size alignment ptr : ℕ} (has : as ∈ h.headers)
    (halloc : allocChunk debug h size alignment = some (ptr, h')) : as ∈ h'.headers := by
  obtain ⟨_, -, heq⟩ := map_eq_some_iff.mp halloc
  cases heq
  exact mem_cons_of_mem _ has

/-- A header is still there after `miniheap_alloc`. -/
theorem mem_miniheap_alloc {size alignment : ℕ} {pages result : Option ℕ} (has : as ∈ h.headers)
    (halloc : miniheapAlloc debug h size alignment pages = some (result, h')) :
    as ∈ h'.headers := by
  unfold miniheapAlloc at halloc
  split at halloc
  · cases halloc
    exact has
  dsimp only at halloc
  split at halloc
  · next htake =>
    cases halloc
    exact mem_alloc_chunk has htake
  cases pages with
  | none =>
    cases halloc
    exact has
  | some start =>
    obtain ⟨grown, hgrow, heq⟩ := map_eq_some_iff.mp halloc
    rw [← heap_grow_headers hgrow] at has
    split at heq
    · next htake =>
      cases heq
      exact mem_alloc_chunk has htake
    · cases heq
      exact has

/-- A header stays until its pointer is freed. -/
theorem step_keeps_header {s s' : System} {action : Action} (has : as ∈ s.heap.headers)
    (hne : action ≠ .free as.ptr) (hstep : step debug s action = some s') :
    as ∈ s'.heap.headers := by
  cases action with
  | alloc size alignment pages =>
    obtain ⟨⟨result, heap⟩, halloc, rfl⟩ := map_eq_some_iff.mp hstep
    exact mem_miniheap_alloc has halloc
  | free ptr =>
    obtain ⟨heap, hfree, rfl⟩ := map_eq_some_iff.mp hstep
    unfold miniheapFree at hfree
    split at hfree
    · cases hfree
      exact has
    split at hfree
    · cases hfree
    · rw [insert_created_headers hfree]
      refine (mem_eraseP_of_neg ?_).mpr has
      simpa using fun heq => hne (congrArg Action.free heq.symm)
  | trim =>
    cases hstep
    exact has

/-- The header that `miniheap_free` finds is the one of the pointer: two headers of one pointer
would have the bytes before it in common. -/
theorem find_header_of_mem (hinv : HeapInv debug h) (has : as ∈ h.headers) :
    h.headers.find? (·.ptr = as.ptr) = some as := by
  cases hfind : h.headers.find? (·.ptr = as.ptr) with
  | none => exact absurd (decide_eq_true rfl) (find?_eq_none.mp hfind as has)
  | some found =>
    obtain ⟨hptr, before, after, hheaders, -⟩ := find_header hfind
    by_contra hne
    obtain ⟨hless, hfound, hzero, -⟩ := hinv.drop_header hheaders
    have hmem : as ∈ before ++ after := by
      rw [hheaders] at has
      refine (mem_append.mp has).elim (mem_append_left after) fun has => ?_
      rcases mem_cons.mp has with rfl | has
      · exact absurd rfl hne
      · exact mem_append_right before has
    have hheader : 0 < headerSize debug := by cases debug <;> decide
    have hbyte : as.ptr - 1 ∈ as.chunk ∧ as.ptr - 1 ∈ found.chunk := by
      have := hless.headers as hmem
      have := this.header
      have := (hless.headers as hmem).ptr
      have := hfound.header
      have := hfound.ptr
      exact ⟨mem_def.mpr (by omega), mem_def.mpr (by omega)⟩
    have hcover : 0 < Heap.cover { h with headers := before ++ after } (as.ptr - 1) := by
      refine Nat.add_pos_right _ (coverage_pos.mpr ⟨as.chunk, ?_, hbyte.1⟩)
      exact List.mem_map_of_mem hmem
    rw [hzero _ hbyte.2] at hcover
    exact absurd hcover (Nat.lt_irrefl 0)

/-- A chunk that no free chunk overlaps can be inserted. -/
theorem insert_succeeds {chunk : Span} (hfree : FreeInv h.freeList) (hchunk : ChunkInv chunk)
    (hapart : ∀ x ∈ chunk, coverage h.freeList x = 0) :
    ∃ h', heapInsertFreeChunk h chunk = some h' := by
  unfold heapInsertFreeChunk
  rw [if_pos]
  · exact ⟨_, rfl⟩
  intro next hnext
  have hmem : next ∈ h.freeList := (dropWhile_sublist _).subset (mem_of_head? hnext)
  have hlt := head?_dropWhile_not (fun next : Span => !decide (chunk.start < next.start))
    h.freeList
  rw [hnext] at hlt
  simp only [Bool.not_eq_false', decide_eq_true_eq] at hlt
  have hpos := (hfree.chunks next hmem).pos
  rcases before_or_after hmem hapart hpos hchunk.pos with hle | hle
  · omega
  · exact hle

/-- The chunk of a header that is freed is free memory. -/
theorem free_gives_back (hinv : HeapInv debug h) (has : as ∈ h.headers) :
    ∃ h', miniheapFree h as.ptr = some h' ∧ Same (as.chunk :: h.freeList) h'.freeList := by
  have hfind := find_header_of_mem hinv has
  obtain ⟨-, before, after, hheaders, herase⟩ := find_header hfind
  obtain ⟨hless, ⟨hchunk, hheader, -⟩, hzero, -⟩ := hinv.drop_header hheaders
  have hpos : as.ptr ≠ 0 := by
    have : 0 < headerSize debug := by cases debug <;> decide
    omega
  have hapart (x : ℕ) (hx : x ∈ as.chunk) : coverage h.freeList x = 0 :=
    (Nat.add_eq_zero_iff.mp (hzero x hx)).1
  obtain ⟨h', hinsert⟩ := insert_succeeds hless.free hchunk hapart
  refine ⟨h', ?_, (insert_spec hless.free hchunk hapart hinsert).2.1⟩
  rw [miniheapFree, if_neg hpos, hfind]
  dsimp only
  rw [herase, insertCreated, heapCreateFreeChunk, if_pos hchunk.room]
  exact hinsert

end Stays

/-! ## When a pointer is returned -/

section Found

variable {debug : Bool} {h : Heap} {size alignment : ℕ} {pages : Option ℕ}

/-- No chunk is taken exactly if none is large enough. -/
theorem take_chunk_eq_none_iff {l : List Span} :
    takeChunk size l = none ↔ ∀ c ∈ l, c.len < size := by
  induction l with
  | nil => exact iff_of_true rfl (forall_mem_nil _)
  | cons c rest ih =>
    rw [forall_mem_cons, ← ih, takeChunk]
    split
    · next hle =>
      refine iff_of_false ?_ fun hall => absurd hall.1 (Nat.not_lt.mpr hle)
      split <;> exact some_ne_none _
    · next hsmall => rw [Option.map_eq_none_iff, and_iff_right (Nat.lt_of_not_le hsmall)]

theorem alloc_chunk_eq_none_iff :
    allocChunk debug h size alignment = none ↔ ∀ c ∈ h.freeList, c.len < size :=
  Option.map_eq_none_iff.trans take_chunk_eq_none_iff

/-- Merging leaves a chunk that is as large as the new one. -/
theorem exists_le_try_merge (before : List Span) (chunk : Span) (after : List Span) :
    ∃ c ∈ tryMerge before chunk after, chunk.len ≤ c.len := by
  have hnext (chunk : Span) : ∃ c ∈ mergeNext chunk after, chunk.len ≤ c.len := by
    unfold mergeNext
    split
    · exact ⟨chunk, mem_cons_self, le_rfl⟩
    · split
      · exact ⟨_, mem_cons_self, Nat.le_add_right _ _⟩
      · exact ⟨chunk, mem_cons_self, le_rfl⟩
  unfold tryMerge
  split
  · exact hnext chunk
  · next last _ =>
    split
    · obtain ⟨c, hc, hle⟩ := hnext ⟨last.start, last.len + chunk.len⟩
      exact ⟨c, mem_append_right _ hc, (Nat.le_add_left _ _).trans hle⟩
    · obtain ⟨c, hc, hle⟩ := hnext chunk
      exact ⟨c, mem_append_right _ hc, hle⟩

/-- The heap grows by fresh pages, and then has a chunk that is as large as they are. -/
theorem heap_grow_succeeds {start : ℕ} (hinv : HeapInv debug h)
    (hfresh : Fresh h ⟨start, roundup64 size pageSize⟩) :
    ∃ grown, heapGrow h size start = some grown ∧
      ∃ c ∈ grown.freeList, roundup64 size pageSize ≤ c.len := by
  obtain ⟨hstart, hpos, hfits, hapart⟩ := hfresh
  have hroom : freeHeapChunkSize ≤ roundup64 size pageSize := by
    simp only [roundup64, pageSize, freeHeapChunkSize] at hpos ⊢
    omega
  have hchunk : ChunkInv ⟨start, roundup64 size pageSize⟩ := by
    refine ⟨hroom, ?_, hfits⟩
    simp only [pageSize, pointerSize] at hstart ⊢
    omega
  have hzero (x : ℕ) (hx : x ∈ (⟨start, roundup64 size pageSize⟩ : Span)) :
      coverage h.freeList x = 0 :=
    (Nat.add_eq_zero_iff.mp (cover_of_apart hapart x hx)).1
  obtain ⟨inserted, hinsert⟩ := insert_succeeds hinv.free hchunk hzero
  have hcreated : insertCreated h start (roundup64 size pageSize) = some inserted := by
    rw [insertCreated, heapCreateFreeChunk, if_pos hroom]
    exact hinsert
  unfold heapGrow
  dsimp only
  rw [hcreated]
  refine ⟨_, rfl, ?_⟩
  unfold heapInsertFreeChunk at hinsert
  obtain ⟨_, ⟨⟩⟩ := ite_none_right_eq_some.mp hinsert
  exact exists_le_try_merge _ _ _

/-- Rounding up does not make a word smaller, unless it makes it zero. -/
theorem le_roundup64 (hsize : size < 2 ^ 64) (hpos : 0 < roundup64 size pageSize) :
    size ≤ roundup64 size pageSize := by
  simp only [roundup64, pageSize] at hpos ⊢
  omega

theorem request_lt (debug : Bool) (size alignment : ℕ) :
    (requestSize debug size alignment).1 < 2 ^ 64 := by
  unfold requestSize
  dsimp only
  split
  · exact Nat.mod_lt _ (by decide)
  · simp only [roundup64, pointerSize]
    omega

/-- A pointer is returned if a chunk is large enough, or if there are pages to grow by. -/
theorem miniheap_alloc_succeeds (hinv : HeapInv debug h)
    (hpower : alignment &&& (alignment - 1) = 0)
    (hpages : ∀ span ∈ grownPages debug h size alignment pages, Fresh h span)
    (hfound : pages = none → ¬ ∀ c ∈ h.freeList, c.len < (requestSize debug size alignment).1) :
    ∃ ptr h', miniheapAlloc debug h size alignment pages = some (some ptr, h') := by
  have hne := not_not.mpr hpower
  unfold miniheapAlloc
  unfold grownPages at hpages
  rw [if_neg hne] at hpages ⊢
  dsimp only at hpages ⊢
  cases hfirst : allocChunk debug h (requestSize debug size alignment).1
    (requestSize debug size alignment).2 with
  | some taken => exact ⟨_, _, rfl⟩
  | none =>
    rw [hfirst] at hpages
    cases pages with
    | none => exact absurd (alloc_chunk_eq_none_iff.mp hfirst) (hfound rfl)
    | some start =>
      have hfresh := hpages _ mem_cons_self
      obtain ⟨grown, hgrow, c, hc, hle⟩ := heap_grow_succeeds hinv hfresh
      have hlarge := le_roundup64 (request_lt debug size alignment) hfresh.2.1
      cases hsecond : allocChunk debug grown (requestSize debug size alignment).1
        (requestSize debug size alignment).2 with
      | none =>
        have hsmall := alloc_chunk_eq_none_iff.mp hsecond c hc
        omega
      | some taken =>
        refine ⟨taken.1, taken.2, ?_⟩
        simp only [hgrow, Option.map_some, hsecond]

/-- A size that goes round is larger than any chunk that is taken for it. -/
theorem request_of_wraps (hsize : size < 2 ^ 64) (halignment : alignment < 2 ^ 32)
    (hwraps : 2 ^ 64 ≤ paddedSize debug size alignment) :
    (requestSize debug size alignment).1 + freeHeapChunkSize < size := by
  have hheader : headerSize debug ≤ 24 := by cases debug <;> decide
  have hmax (x least : ℕ) : (if x < least then least else x) = max x least := by
    split <;> omega
  unfold paddedSize at hwraps
  unfold requestSize
  simp only [hmax]
  simp only [roundup64, freeHeapChunkSize, pointerSize] at hwraps ⊢
  split
  · next hpos =>
    rw [if_pos hpos] at hwraps
    dsimp only
    omega
  · next hzero =>
    rw [if_neg hzero] at hwraps
    dsimp only
    omega

end Found

/-- What a call of `miniheap_alloc` has to do: a pointer that it returns is aligned as asked for,
its header names a chunk cut off the front of one free chunk, header and bytes are inside this
chunk, and after any calls that do not free it, `miniheap_free` succeeds and gives back this
chunk. -/
def Contract (debug : Bool) (s : System) (size alignment : ℕ) (pages : Option ℕ) : Prop :=
  ∀ ptr h', miniheapAlloc debug s.heap size alignment pages = some (some ptr, h') →
    ∃ searched cut, Searched debug s.heap size alignment pages searched ∧
      h'.headers = ⟨ptr, cut⟩ :: s.heap.headers ∧
      Cut debug size alignment ptr searched.freeList cut ∧
      ∀ later, Transition.Reachable (step debug)
          (fun s action => Bounded debug s action ∧ action ≠ .free ptr)
          (fun s' => step debug s (.alloc size alignment pages) = some s') later →
        ∃ freed, miniheapFree later.heap ptr = some freed ∧
          Same (cut :: later.heap.freeList) freed.freeList

section Contract

variable {debug : Bool} {s : System} {size alignment : ℕ} {pages : Option ℕ}

/-- For a size that does not go round the contract holds. -/
theorem contract_of_padded (hinv : Inv debug s) (hpower : alignment &&& (alignment - 1) = 0)
    (hbounded : Bounded debug s (.alloc size alignment pages)) :
    Contract debug s size alignment pages := by
  intro ptr h' halloc
  obtain ⟨searched, hsearched, hinv', hkept, htake⟩ :=
    miniheap_alloc_searched hinv.heap hbounded.2 halloc
  obtain ⟨cut, hcut, hheaders⟩ := alloc_chunk_cut hinv'.free hbounded.1 hpower htake
  rw [hkept] at hheaders
  refine ⟨searched, cut, hsearched, hheaders, hcut, fun later hlater => ?_⟩
  have hstays : Inv debug later ∧ ⟨ptr, cut⟩ ∈ later.heap.headers := by
    refine Transition.Reachable.invariant
      (P := fun t => Inv debug t ∧ ⟨ptr, cut⟩ ∈ t.heap.headers) ?_ ?_ hlater
    · intro s' hstep
      refine ⟨step_inv hinv hbounded hstep, ?_⟩
      rw [step, halloc] at hstep
      cases hstep
      exact hheaders ▸ mem_cons_self
    · rintro _ _ _ ⟨hinv, hmem⟩ ⟨hbounded, hne⟩ hstep
      exact ⟨step_inv hinv hbounded hstep, step_keeps_header hmem hne hstep⟩
  exact free_gives_back hstays.1.heap hstays.2

/-- For a size that goes round, the bytes of a pointer are not inside the chunk of its header. -/
theorem not_contract_of_wraps {ptr : ℕ} {h' : Heap} (hinv : Inv debug s) (hsize : size < 2 ^ 64)
    (halignment : alignment < 2 ^ 32) (hwraps : 2 ^ 64 ≤ paddedSize debug size alignment)
    (hpages : ∀ span ∈ grownPages debug s.heap size alignment pages, Fresh s.heap span)
    (halloc : miniheapAlloc debug s.heap size alignment pages = some (some ptr, h')) :
    ¬ Contract debug s size alignment pages := by
  intro hcontract
  obtain ⟨_, cut, -, hheaders, hcut, -⟩ := hcontract ptr h' halloc
  obtain ⟨searched, -, -, hkept, htake⟩ := miniheap_alloc_searched hinv.heap hpages halloc
  obtain ⟨taken, htaken, -, -, hsmall, -⟩ := alloc_chunk_header htake
  rw [htaken, hkept] at hheaders
  cases hheaders
  have hlarge := request_of_wraps hsize halignment hwraps
  have hheader := hcut.header
  have hbytes := hcut.bytes
  omega

end Contract

/-- From every heap that is in order, with every size and every alignment that is zero or a power of
two, the contract holds exactly if the sums of `miniheap_alloc` do not go round, or if it returns no
pointer: no free chunk has the size that it looks for, and there are no pages to grow by. -/
theorem alloc_contract {debug : Bool} {s : System} {size alignment : ℕ} {pages : Option ℕ}
    (hinv : Inv debug s) (hsize : size < 2 ^ 64) (halignment : alignment < 2 ^ 32)
    (hpower : alignment &&& (alignment - 1) = 0)
    (hpages : ∀ span ∈ grownPages debug s.heap size alignment pages, Fresh s.heap span) :
    Contract debug s size alignment pages ↔
      paddedSize debug size alignment < 2 ^ 64 ∨
        pages = none ∧
          ∀ chunk ∈ s.heap.freeList, chunk.len < (requestSize debug size alignment).1 := by
  constructor
  · intro hcontract
    by_contra hneither
    obtain ⟨hwraps, hfound⟩ := not_or.mp hneither
    obtain ⟨ptr, h', halloc⟩ := miniheap_alloc_succeeds hinv.heap hpower hpages
      fun hnone hsmall => hfound ⟨hnone, hsmall⟩
    exact not_contract_of_wraps hinv hsize halignment (Nat.le_of_not_lt hwraps) hpages halloc
      hcontract
  · rintro (hpadded | ⟨rfl, hsmall⟩)
    · exact contract_of_padded hinv hpower ⟨hpadded, hpages⟩
    · intro ptr h' halloc
      rw [miniheapAlloc, if_neg (not_not.mpr hpower)] at halloc
      dsimp only at halloc
      rw [alloc_chunk_eq_none_iff.mpr hsmall] at halloc
      cases halloc

/-- A hundred bytes at a multiple of 64, right after the heap is made. -/
theorem alloc_contract_aligned : ∃ (s : System) (h' : Heap) (cut : Span),
    miniheapAlloc true s.heap 100 64 none = some (some 0x10040, h') ∧
      Cut true 100 64 0x10040 s.heap.freeList cut ∧
      ∃ freed, miniheapFree h' 0x10040 = some freed ∧ Same (cut :: h'.freeList) freed.freeList := by
  let heap : Heap := ⟨0x10008, 6136, 6136, 0, [⟨0x10008, 6136⟩], []⟩
  let s : System := ⟨heap, [⟨0x10008, 6136⟩], []⟩
  have hinv : Inv true s := reachable_inv (by decide : 0x10008 + 6136 ≤ lastPage)
    (.init ⟨heap, rfl, rfl⟩)
  obtain ⟨h', halloc⟩ : ∃ h', miniheapAlloc true heap 100 64 none = some (some 0x10040, h') :=
    ⟨_, rfl⟩
  have hpages : ∀ span ∈ grownPages true heap 100 64 none, Fresh heap span := nofun
  have hcontract := (alloc_contract hinv (by decide) (by decide) (by decide) hpages).mpr
    (.inl (by decide))
  obtain ⟨searched, cut, hsearched, -, hcut, hfree⟩ := hcontract _ _ halloc
  obtain rfl : searched = heap := hsearched.resolve_right fun ⟨_, hstart, _⟩ =>
    absurd hstart (not_mem_none _)
  refine ⟨s, h', cut, halloc, hcut, hfree ⟨h', s.given, s.returned⟩ (.init ?_)⟩
  rw [step, show miniheapAlloc true s.heap 100 64 none = _ from halloc]
  rfl

/-- A size of all the addresses but eight, and the header, make eight bytes: the allocation gets the
smallest chunk there is. -/
theorem huge_size_gets_small_chunk :
    (miniheapInit 0x10000 4096).bind (fun h => (miniheapAlloc false h (2 ^ 64 - 8) 0 none).map
      fun (ptr, h) => (ptr, h.allocated)) = some (some 0x10010, [⟨0x10000, 24⟩]) := by
  decide

end NusaKernel.Miniheap
