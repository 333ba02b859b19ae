import Mathlib.Data.List.TakeWhile
import NusaKernel.Heap.Miniheap

/-!
# The miniheap is a partition of its memory

The memory given to the heap and the pages it gave back are recorded next to it. In every run from
`miniheap_init` the free list is sorted with a gap between any two chunks, the free chunks and those
of the headers cover exactly the memory that was given and not given back, each place once, and
`remaining` is the sum of the lengths of the free chunks.

The account is kept by counting: for each address, the free chunks, the allocated chunks and the
returned pages that it is in are as many as the ranges given to the heap that it is in. Cutting,
merging, allocating, freeing and trimming move a chunk from one of the three to another.
-/

namespace NusaKernel.Miniheap

open List Span Word

/-! ## Runs -/

/-- The heap, the memory given to it, and the pages it gave back. -/
structure System where
  heap : Heap
  given : List Span
  returned : List Span

/-- The chunks of the headers. -/
def Heap.allocated (h : Heap) : List Span := h.headers.map Header.chunk

/-- A call, with what `page_alloc` returns. -/
inductive Action where
  | alloc (size alignment : ℕ) (pages : Option ℕ)
  | free (ptr : ℕ)
  | trim

variable (debug : Bool)

/-- The pages by which `miniheap_alloc` grows the heap. -/
def grownPages (h : Heap) (size alignment : ℕ) (pages : Option ℕ) : List Span :=
  let request := requestSize debug size alignment
  if alignment &&& (alignment - 1) ≠ 0 then []
  else if (allocChunk debug h request.1 request.2).isSome then []
  else (pages.map fun ptr => ⟨ptr, roundup64 request.1 pageSize⟩).toList

/-- One call. -/
def step (s : System) : Action → Option System
  | .alloc size alignment pages =>
    (miniheapAlloc debug s.heap size alignment pages).map fun (_, heap) =>
      { s with
        heap := heap
        given := grownPages debug s.heap size alignment pages ++ s.given }
  | .free ptr => (miniheapFree s.heap ptr).map fun heap => { s with heap := heap }
  | .trim =>
    some { s with
      heap := (miniheapTrim s.heap).1
      returned := (miniheapTrim s.heap).2 ++ s.returned }

/-- Where the last page of the address space begins. No memory of a heap is in it. -/
def lastPage : ℕ := 2 ^ 64 - pageSize

/-- At least one page, before the last one and apart from the heap. -/
def Fresh (h : Heap) (span : Span) : Prop :=
  span.start % pageSize = 0 ∧ 0 < span.len ∧ span.start + span.len ≤ lastPage ∧
    ∀ chunk ∈ h.freeList ++ h.allocated,
      chunk.start + chunk.len ≤ span.start ∨ span.start + span.len ≤ chunk.start
deriving Decidable

/-- Sizes are below `2 ^ 31`, an alignment is an unsigned int, and the heap grows by pages that are
apart from it. -/
def Allowed (s : System) : Action → Prop
  | .alloc size alignment pages =>
    size < 2 ^ 31 ∧ alignment < 2 ^ 32 ∧
      ∀ span ∈ grownPages debug s.heap size alignment pages, Fresh s.heap span
  | _ => True

/-- Whether a call is allowed can be tested. -/
instance (debug : Bool) (s : System) (action : Action) : Decidable (Allowed debug s action) := by
  cases action <;> unfold Allowed <;> infer_instance

/-- The size that `miniheap_alloc` would look for if nothing went round. -/
def paddedSize (size alignment : ℕ) : ℕ :=
  (max (size + headerSize debug) freeHeapChunkSize + 7) / 8 * 8 +
    if 0 < alignment then max alignment 16 else 0

/-- A size does not go round with what is added to it, and the heap grows by pages that are apart
from it. -/
def Bounded (s : System) : Action → Prop
  | .alloc size alignment pages =>
    paddedSize debug size alignment < 2 ^ 64 ∧
      ∀ span ∈ grownPages debug s.heap size alignment pages, Fresh s.heap span
  | _ => True

variable {s : System} {start : ℕ} {c : Span}

/-- A size below `2 ^ 31` does not go round. -/
theorem Allowed.bounded {debug : Bool} :
    ∀ {action : Action}, Allowed debug s action → Bounded debug s action
  | .alloc _ _ _, ⟨hsize, halignment, hpages⟩ => by
    refine ⟨?_, hpages⟩
    have hheader : headerSize debug ≤ 24 := by cases debug <;> decide
    unfold paddedSize freeHeapChunkSize
    split <;> omega
  | .free _, _ => trivial
  | .trim, _ => trivial

/-- The heap that `miniheap_init` makes of a buffer, with the aligned part of the buffer as its
memory. -/
def Initial (ptr len : ℕ) (s : System) : Prop :=
  ∃ h, miniheapInit ptr len = some h ∧ s = ⟨h, [⟨h.base, h.len⟩], []⟩

/-- The heaps reached from `miniheap_init` by calls that the guard admits. -/
def Reachable (ptr len : ℕ) : System → Prop :=
  Transition.Reachable (step debug) (Allowed debug) (Initial ptr len)

/-- A run of admitted calls reaches its final heap. -/
theorem exists_reachable {ptr len : ℕ} (hinit : Initial ptr len s) {P : System → Prop}
    (actions : List Action) (hadmits : Transition.Admits (step debug) (Allowed debug) s actions)
    (hrun : ∃ s' ∈ Transition.run (step debug) s actions, P s') :
    ∃ s', Reachable debug ptr len s' ∧ P s' :=
  Transition.Reachable.exists_run (.init hinit) hadmits hrun

/-! ## Chunks -/

/-- A chunk has room for a list node, is aligned and ends before the last page. -/
structure ChunkInv (c : Span) : Prop where
  room : freeHeapChunkSize ≤ c.len
  start_aligned : c.start % pointerSize = 0
  fits : c.start + c.len ≤ lastPage

theorem ChunkInv.pos (h : ChunkInv c) : 0 < c.len :=
  Nat.lt_of_lt_of_le (by decide) h.room

/-- Two chunks that touch make one. -/
theorem ChunkInv.join {first second : ℕ} (hfirst : ChunkInv ⟨start, first⟩)
    (hsecond : ChunkInv ⟨start + first, second⟩) : ChunkInv ⟨start, first + second⟩ := by
  obtain ⟨hroom, hstart, _⟩ := hfirst
  obtain ⟨_, _, hfits⟩ := hsecond
  exact ⟨hroom.trans (Nat.le_add_right first second), hstart,
    (Nat.add_assoc ..).symm.trans_le hfits⟩

/-- A free list: sorted chunks with gaps. -/
structure FreeInv (l : List Span) : Prop where
  chunks : ∀ c ∈ l, ChunkInv c
  sorted : l.IsChain Gap

theorem FreeInv.singleton (h : ChunkInv c) : FreeInv [c] :=
  ⟨forall_mem_singleton.mpr h, isChain_singleton c⟩

/-- The lists have the same memory. -/
structure Same (l l' : List Span) : Prop where
  coverage : ∀ x, coverage l' x = coverage l x
  sum : (l'.map Span.len).sum = (l.map Span.len).sum

theorem Same.refl (l : List Span) : Same l l := ⟨fun _ => rfl, rfl⟩

theorem Same.append {l l' m m' : List Span} (h : Same l l') (h' : Same m m') :
    Same (l ++ m) (l' ++ m') where
  coverage x := by rw [coverage_append, coverage_append, h.coverage, h'.coverage]
  sum := by rw [map_append, map_append, sum_append, sum_append, h.sum, h'.sum]

theorem Same.trans {l m n : List Span} (h : Same l m) (h' : Same m n) : Same l n where
  coverage x := (h'.coverage x).trans (h.coverage x)
  sum := h'.sum.trans h.sum

theorem Same.symm {l m : List Span} (h : Same l m) : Same m l :=
  ⟨fun x => (h.coverage x).symm, h.sum.symm⟩

theorem Same.of_perm {l m : List Span} (h : l.Perm m) : Same l m :=
  ⟨fun _ => h.symm.countP_eq _, (h.symm.map _).sum_nat⟩

/-- Two spans that touch are one. -/
theorem same_join (start first second : ℕ) (l : List Span) :
    Same (⟨start, first⟩ :: ⟨start + first, second⟩ :: l) (⟨start, first + second⟩ :: l) where
  coverage x := by
    rw [coverage_cons, coverage_cons, coverage_cons, mem_split]
    omega
  sum := by
    simp only [map_cons, sum_cons]
    omega

/-! ## Inserting a chunk -/

section Insert

variable {before after l : List Span} {chunk : Span}

theorem merge_next_spec (hchunk : ChunkInv chunk) (hafter : FreeInv after)
    (hle : ∀ next ∈ after.head?, chunk.start + chunk.len ≤ next.start) :
    FreeInv (mergeNext chunk after) ∧ Same (chunk :: after) (mergeNext chunk after) ∧
      ∀ c ∈ (mergeNext chunk after).head?, c.start = chunk.start := by
  obtain ⟨start, len⟩ := chunk
  cases after with
  | nil =>
    refine ⟨.singleton hchunk, Same.refl _, ?_⟩
    rintro _ ⟨⟩
    rfl
  | cons next rest =>
    obtain ⟨nextStart, nextLen⟩ := next
    have hrest := isChain_cons.mp hafter.sorted
    simp only [mergeNext]
    split
    · next htouch =>
      subst htouch
      obtain ⟨hnext, hchunks⟩ := forall_mem_cons.mp hafter.chunks
      refine ⟨⟨forall_mem_cons.mpr ⟨hchunk.join hnext, hchunks⟩, ?_⟩,
        same_join start len nextLen rest, ?_⟩
      · refine isChain_cons.mpr ⟨fun c hc => ?_, hrest.2⟩
        have hgap := hrest.1 c hc
        simp only [Gap] at hgap ⊢
        omega
      · rintro _ ⟨⟩
        rfl
    · next hapart =>
      have hle' := hle _ rfl
      refine ⟨⟨forall_mem_cons.mpr ⟨hchunk, hafter.chunks⟩, ?_⟩, Same.refl _, ?_⟩
      · refine isChain_cons.mpr ⟨?_, hafter.sorted⟩
        rintro _ ⟨⟩
        exact lt_of_le_of_ne hle' hapart
      · rintro _ ⟨⟩
        rfl

theorem FreeInv.append_left (h : FreeInv (before ++ after)) : FreeInv before :=
  ⟨fun c hc => h.chunks c (mem_append_left _ hc), (isChain_append.mp h.sorted).1⟩

theorem FreeInv.append_right (h : FreeInv (before ++ after)) : FreeInv after :=
  ⟨fun c hc => h.chunks c (mem_append_right _ hc), (isChain_append.mp h.sorted).2.1⟩

/-- Two free lists with a gap between them. -/
theorem FreeInv.append (hbefore : FreeInv before) (hafter : FreeInv after)
    (hgap : ∀ c ∈ before.getLast?, ∀ d ∈ after.head?, Gap c d) : FreeInv (before ++ after) :=
  ⟨forall_mem_append.mpr ⟨hbefore.chunks, hafter.chunks⟩,
    isChain_append.mpr ⟨hbefore.sorted, hafter.sorted, hgap⟩⟩

/-- Merging with the chunks on both sides. -/
theorem try_merge_spec (hchunk : ChunkInv chunk) (hfree : FreeInv (before ++ after))
    (hprev : ∀ last ∈ before.getLast?, last.start + last.len ≤ chunk.start)
    (hnext : ∀ next ∈ after.head?, chunk.start + chunk.len ≤ next.start) :
    FreeInv (tryMerge before chunk after) ∧
      Same (before ++ chunk :: after) (tryMerge before chunk after) := by
  have hafter := hfree.append_right
  unfold tryMerge
  split
  · next hnone =>
    rw [getLast?_eq_none_iff.mp hnone]
    obtain ⟨hmerge, hsame, _⟩ := merge_next_spec hchunk hafter hnext
    exact ⟨hmerge, hsame⟩
  next last hlast =>
  obtain ⟨init, rfl⟩ := getLast?_eq_some_iff.mp hlast
  obtain ⟨lastStart, lastLen⟩ := last
  obtain ⟨chunkStart, chunkLen⟩ := chunk
  have hbefore := hfree.append_left
  split
  · next htouch =>
    subst htouch
    have hjoin := (hbefore.chunks _ (mem_append_right _ mem_cons_self)).join hchunk
    have hle : ∀ next ∈ after.head?, lastStart + (lastLen + chunkLen) ≤ next.start :=
      fun next hmem => by
        have := hnext next hmem
        dsimp only at this
        omega
    obtain ⟨hmerge, hsame, hhead⟩ := merge_next_spec hjoin hafter hle
    rw [dropLast_concat]
    refine ⟨hbefore.append_left.append hmerge fun c hc d hd => ?_, ?_⟩
    · have hgap := (isChain_append.mp hbefore.sorted).2.2 c hc _ rfl
      have hstart := hhead d hd
      simp only [Gap] at hgap hstart ⊢
      omega
    · rw [append_assoc, singleton_append]
      exact (Same.refl init).append ((same_join lastStart lastLen chunkLen after).trans hsame)
  · next hapart =>
    obtain ⟨hmerge, hsame, hhead⟩ := merge_next_spec hchunk hafter hnext
    refine ⟨hbefore.append hmerge fun c hc d hd => ?_, (Same.refl _).append hsame⟩
    rw [getLast?_concat] at hc
    cases hc
    have hle := hprev _ hlast
    have hstart := hhead d hd
    simp only [Gap] at hle hapart hstart ⊢
    omega

/-- A chunk that no free chunk overlaps is inserted. -/
theorem insert_spec {h h' : Heap} (hfree : FreeInv h.freeList) (hchunk : ChunkInv chunk)
    (hapart : ∀ x ∈ chunk, coverage h.freeList x = 0)
    (hinsert : heapInsertFreeChunk h chunk = some h') :
    FreeInv h'.freeList ∧ Same (chunk :: h.freeList) h'.freeList ∧ h'.headers = h.headers ∧
      h'.remaining = h.remaining + chunk.len := by
  unfold heapInsertFreeChunk at hinsert
  dsimp only at hinsert
  split at hinsert
  · next hassert =>
    cases hinsert
    set before := h.freeList.takeWhile fun next => !decide (chunk.start < next.start)
      with hbefore
    set after := h.freeList.dropWhile fun next => !decide (chunk.start < next.start)
    have hsplit : before ++ after = h.freeList := takeWhile_append_dropWhile
    have hprev : ∀ last ∈ before.getLast?, last.start + last.len ≤ chunk.start := by
      intro last hlast
      have hmem := mem_of_getLast? hlast
      have hlt := mem_takeWhile_imp hmem
      have hlast' : last ∈ h.freeList := (takeWhile_sublist _).subset hmem
      have hpos := (hfree.chunks last hlast').pos
      simp only [Bool.not_eq_true', decide_eq_false_iff_not] at hlt
      rcases before_or_after hlast' hapart hpos hchunk.pos with hle | hle
      · exact hle
      · have := hchunk.pos
        omega
    rw [← hsplit] at hfree
    obtain ⟨hmerge, hsame⟩ := try_merge_spec hchunk hfree hprev hassert
    refine ⟨hmerge, ?_, rfl, rfl⟩
    rw [← hsplit]
    exact (Same.of_perm perm_middle.symm).trans hsame
  · cases hinsert

end Insert

/-! ## Taking a chunk -/

section Take

variable {l rest : List Span} {size : ℕ} {found : Span}

/-- The chunk that is taken is one of the list, or the front of one. -/
theorem take_chunk_split (h : takeChunk size l = some (found, rest)) :
    ∃ before c after, l = before ++ c :: after ∧ size ≤ c.len ∧
      (c.len ≤ size + freeHeapChunkSize ∧ found = c ∧ rest = before ++ after ∨
        (size + freeHeapChunkSize) % 2 ^ 64 < c.len ∧ found = ⟨c.start, size⟩ ∧
          rest = before ++ ⟨c.start + size, c.len - size⟩ :: after) := by
  induction l generalizing rest with
  | nil => cases h
  | cons c after ih =>
    simp only [takeChunk] at h
    split at h
    · next hle =>
      split at h
      · next hroom =>
        cases h
        exact ⟨[], c, after, rfl, hle, .inr ⟨hroom, rfl, rfl⟩⟩
      · next hsmall =>
        cases h
        exact ⟨[], _, _, rfl, hle, .inl ⟨(not_lt.mp hsmall).trans (Nat.mod_le _ _), rfl, rfl⟩⟩
    obtain ⟨⟨found', rest'⟩, htake, heq⟩ := Option.map_eq_some_iff.mp h
    obtain ⟨rfl, rfl⟩ := Prod.mk.injEq _ _ _ _ ▸ heq
    obtain ⟨before, d, after', rfl, hle, hcase⟩ := ih htake
    refine ⟨c :: before, d, after', rfl, hle, ?_⟩
    rcases hcase with ⟨hsmall, rfl, rfl⟩ | ⟨hroom, rfl, rfl⟩
    · exact .inl ⟨hsmall, rfl, rfl⟩
    · exact .inr ⟨hroom, rfl, rfl⟩

theorem FreeInv.pairwise (h : FreeInv l) : l.Pairwise Gap := isChain_iff_pairwise.mp h.sorted

theorem FreeInv.sublist (h : FreeInv l) (hsub : rest.Sublist l) : FreeInv rest :=
  ⟨fun c hc => h.chunks c (hsub.subset hc), (h.pairwise.sublist hsub).isChain⟩

/-- Taking a chunk leaves a free list with the rest of the memory. -/
theorem take_chunk_spec (hfree : FreeInv l) (hroom : freeHeapChunkSize ≤ size)
    (haligned : size % pointerSize = 0) (h : takeChunk size l = some (found, rest)) :
    FreeInv rest ∧ ChunkInv found ∧ size ≤ found.len ∧ Same l (found :: rest) := by
  obtain ⟨before, ⟨start, len⟩, after, rfl, hle, hcase⟩ := take_chunk_split h
  dsimp only at hle hcase
  have hc := hfree.chunks _ (mem_append_right before mem_cons_self)
  rcases hcase with ⟨-, rfl, rfl⟩ | ⟨hsplit, rfl, rfl⟩
  · refine ⟨hfree.sublist ?_, hc, hle, .of_perm perm_middle⟩
    exact (sublist_cons_self _ after).append_left before
  obtain ⟨_, hstart, hfits⟩ := hc
  simp only [freeHeapChunkSize, pointerSize, lastPage,
    pageSize] at hroom haligned hsplit hstart hfits
  have hfront : ChunkInv ⟨start, size⟩ :=
    ⟨hroom, hstart, by show start + size ≤ 2 ^ 64 - 4096; omega⟩
  have hback : ChunkInv ⟨start + size, len - size⟩ := by
    refine ⟨?_, ?_, ?_⟩
    · show 24 ≤ len - size
      omega
    · show (start + size) % 8 = 0
      omega
    · show start + size + (len - size) ≤ 2 ^ 64 - 4096
      omega
  have hjoin := same_join start size (len - size) after
  rw [Nat.add_sub_cancel' hle] at hjoin
  obtain ⟨hbefore, hrest⟩ := forall_mem_append.mp hfree.chunks
  refine ⟨⟨forall_mem_append.mpr ⟨hbefore, forall_mem_cons.mpr ⟨hback, ?_⟩⟩, ?_⟩, hfront,
    le_refl _, ((Same.refl before).append hjoin.symm).trans (.of_perm perm_middle)⟩
  · exact (forall_mem_cons.mp hrest).2
  · refine (Walk.pairwise_replace (fun b hb => ?_) (fun b hb => ?_) hfree.pairwise).isChain
    · simp only [Gap] at hb ⊢
      omega
    · simp only [Gap] at hb ⊢
      omega

end Take

/-! ## Trimming a chunk -/

section Trim

/-- Where the pages to return begin, before the last page. -/
theorem trim_start_spec (hlt : start ≤ lastPage) :
    start ≤ trimStart start ∧ trimStart start % pageSize = 0 ∧
      (trimStart start = start ∨ freeHeapChunkSize ≤ trimStart start - start) := by
  simp only [lastPage, pageSize] at hlt
  have hround : roundup64 start pageSize = (start + 4095) / 4096 * 4096 := by
    simp only [roundup64, pageSize]
    omega
  unfold trimStart
  dsimp only
  rw [hround, sub64_of_le (by omega) (by omega)]
  split
  · next hnear =>
    simp only [pageSize, freeHeapChunkSize] at hnear ⊢
    omega
  · next hfar =>
    simp only [pageSize, freeHeapChunkSize] at hfar ⊢
    omega

/-- Where the pages to return end, if that is not at zero. -/
theorem trim_end_spec {stop : ℕ} (hpos : 0 < trimEnd stop) :
    trimEnd stop ≤ stop ∧ trimEnd stop % pageSize = 0 ∧
      (trimEnd stop = stop ∨ freeHeapChunkSize ≤ stop - trimEnd stop) := by
  unfold trimEnd at hpos ⊢
  dsimp only at hpos ⊢
  split at hpos
  · next hnear =>
    rw [if_pos hnear]
    simp only [rounddown64, pageSize, freeHeapChunkSize] at hnear hpos ⊢
    omega
  · next hfar =>
    rw [if_neg hfar]
    simp only [rounddown64, pageSize, freeHeapChunkSize] at hfar hpos ⊢
    omega

/-- The pages to return are inside the chunk, with room for a list node on each side that is not
empty. -/
theorem trim_pages_spec {stop startPage endPage : ℕ} (hlt : start ≤ lastPage)
    (h : trimPages start stop = some (startPage, endPage)) :
    start ≤ startPage ∧ startPage < endPage ∧ endPage ≤ stop ∧
      startPage % pageSize = 0 ∧ endPage % pageSize = 0 ∧
      (startPage = start ∨ freeHeapChunkSize ≤ startPage - start) ∧
      (endPage = stop ∨ freeHeapChunkSize ≤ stop - endPage) := by
  unfold trimPages at h
  split at h
  · next hpages =>
    cases h
    have hpos := hpages.2.2
    obtain ⟨hle, haligned, hroom⟩ := trim_start_spec hlt
    obtain ⟨hle', haligned', hroom'⟩ := trim_end_spec (Nat.zero_lt_of_lt hpos)
    exact ⟨hle, hpos, hle', haligned, haligned', hroom, hroom'⟩
  · cases h

variable {s : Span} {p : Prop}

/-- An empty span has no memory. -/
theorem same_nil (hempty : s.len = 0) : Same [s] [] where
  coverage x := by
    have hnot : x ∉ s := fun hx => by
      rw [mem_def] at hx
      omega
    rw [coverage_cons, if_neg hnot]
    rfl
  sum := by
    show 0 = s.len + 0
    omega

/-- A piece of a chunk is kept if it is not empty. -/
theorem same_piece [Decidable p] (hempty : p → s.len = 0) :
    Same [s] (if p then [] else [s]) := by
  split
  · next hp => exact same_nil (hempty hp)
  · exact .refl _

theorem free_inv_piece [Decidable p] (hs : ¬ p → ChunkInv s) :
    FreeInv (if p then [] else [s]) := by
  split
  · exact ⟨forall_mem_nil _, .nil⟩
  · next hp => exact .singleton (hs hp)

theorem mem_piece [Decidable p] (hc : c ∈ if p then [] else [s]) : c = s := by
  split at hc
  · cases hc
  · exact mem_singleton.mp hc

theorem same_pages (start first pages last : ℕ) :
    Same [⟨start, first + pages + last⟩]
      ([⟨start, first⟩] ++ [⟨start + (first + pages), last⟩] ++ [⟨start + first, pages⟩]) where
  coverage x := by
    have hlast := mem_split start (first + pages) last x
    have hpages := mem_split start first pages x
    simp only [cons_append, nil_append, coverage_cons]
    omega
  sum := by
    simp only [cons_append, nil_append, map_cons, map_nil, sum_cons, sum_nil]
    omega

/-- What is left of the length of a chunk without the piece after the pages and the pages. -/
theorem front_len {len startPage endPage : ℕ} (hfits : start + len ≤ lastPage)
    (hle : start ≤ startPage) (hlt : startPage < endPage) (hle' : endPage ≤ start + len) :
    sub64 (sub64 len (start + len - endPage)) (endPage - startPage) = startPage - start := by
  simp only [lastPage, pageSize] at hfits
  have hrest : sub64 len (start + len - endPage) = endPage - start := by
    rw [sub64_of_le (by omega) (by omega)]
    omega
  rw [hrest, sub64_of_le (by omega) (by omega)]
  omega

/-- The chunks that are left of a chunk are in it, and have its memory together with the pages. -/
theorem trim_chunk_spec (hc : ChunkInv c) :
    FreeInv (trimChunk c).1 ∧
      (∀ p ∈ (trimChunk c).1, c.start ≤ p.start ∧ p.start + p.len ≤ c.start + c.len) ∧
      Same [c] ((trimChunk c).1 ++ (trimChunk c).2) := by
  obtain ⟨start, len⟩ := c
  have hfits := hc.fits
  simp only [lastPage, pageSize] at hfits
  simp only [trimChunk, Nat.mod_eq_of_lt (show start + len < 2 ^ 64 by omega)]
  split
  · exact ⟨.singleton hc, forall_mem_singleton.mpr ⟨le_refl _, le_refl _⟩, Same.refl _⟩
  next startPage endPage hpages =>
  obtain ⟨hle, hlt, hle', haligned, haligned', hroom, hroom'⟩ :=
    trim_pages_spec ((Nat.le_add_right _ _).trans hc.fits) hpages
  have hstart' := hc.start_aligned
  dsimp only at hle hle' hstart' hroom hroom'
  rw [front_len hc.fits hle hlt hle']
  -- The chunk as the piece before the pages, the pages and the piece after them.
  obtain ⟨first, rfl⟩ := Nat.exists_eq_add_of_le hle
  obtain ⟨pages, rfl⟩ := Nat.exists_eq_add_of_le hlt.le
  obtain ⟨last, hlast⟩ := Nat.exists_eq_add_of_le hle'
  obtain rfl : len = first + pages + last := by omega
  rw [Nat.add_assoc start first pages] at haligned' hroom' ⊢
  rw [Nat.add_sub_cancel_left] at hroom
  have hafter : start + (first + pages + last) - (start + (first + pages)) = last := by omega
  rw [hafter] at hroom'
  rw [hafter, Nat.add_sub_cancel_left,
    show start + (first + pages) - (start + first) = pages by omega]
  simp only [pageSize, pointerSize] at haligned haligned' hstart'
  rw [← ite_not (start + (first + pages) < _)]
  have hfront : FreeInv (if start + first = start then [] else [⟨start, first⟩]) :=
    free_inv_piece fun hne =>
      ⟨hroom.resolve_left hne, hstart', by show start + first ≤ 2 ^ 64 - 4096; omega⟩
  have hback : FreeInv (if ¬ start + (first + pages) < start + (first + pages + last) then []
      else [⟨start + (first + pages), last⟩]) :=
    free_inv_piece fun hlt =>
      ⟨hroom'.resolve_left (by omega), by show (start + (first + pages)) % 8 = 0; omega, by
        show start + (first + pages) + last ≤ 2 ^ 64 - 4096; omega⟩
  refine ⟨hfront.append hback fun c hc d hd => ?_, fun p hp => ?_, ?_⟩
  · rw [mem_piece (mem_of_getLast? hc), mem_piece (mem_of_head? hd)]
    show start + first < start + (first + pages)
    omega
  · rcases mem_append.mp hp with hp | hp
    · rw [mem_piece hp]
      exact ⟨le_refl _, by show start + first ≤ _; omega⟩
    · rw [mem_piece hp]
      exact ⟨by show start ≤ start + (first + pages); omega, by
        show start + (first + pages) + last ≤ _; omega⟩
  refine (same_pages start first pages last).trans ?_
  refine .append (Same.append (same_piece fun h => ?_) (same_piece fun h => ?_)) ?_
  · show first = 0
    omega
  · show last = 0
    omega
  · exact .refl _

/-- The chunks that are left of a free list. -/
theorem trim_list_spec {l : List Span} (hfree : FreeInv l) :
    FreeInv (l.flatMap fun c => (trimChunk c).1) ∧
      Same l ((l.flatMap fun c => (trimChunk c).1) ++ l.flatMap fun c => (trimChunk c).2) := by
  induction l with
  | nil => exact ⟨hfree, Same.refl _⟩
  | cons c rest ih =>
    have hrest : FreeInv rest := hfree.sublist (sublist_cons_self _ _)
    obtain ⟨hfree', hsame'⟩ := ih hrest
    obtain ⟨hpieces, hin, hsame⟩ := trim_chunk_spec (hfree.chunks c mem_cons_self)
    rw [flatMap_cons, flatMap_cons]
    refine ⟨hpieces.append hfree' fun p hp q hq => ?_,
      (hsame.append hsame').trans (.of_perm ?_)⟩
    · -- A piece of this chunk is in it, and a piece of a later one in that one.
      obtain ⟨d, hd, hq⟩ := mem_flatMap.mp (mem_of_head? hq)
      have hgap := rel_of_pairwise_cons hfree.pairwise hd
      have hp := hin p (mem_of_getLast? hp)
      have hq := (trim_chunk_spec (hrest.chunks d hd)).2.1 q hq
      simp only [Gap] at hgap ⊢
      omega
    · rw [append_assoc, append_assoc]
      exact (perm_append_comm_assoc ..).append_left _

end Trim

/-! ## The heap -/

/-- The header of an allocation and the pointer are inside the chunk of the header. -/
structure HeaderInv (debug : Bool) (as : Header) : Prop where
  chunk : ChunkInv as.chunk
  header : as.chunk.start + headerSize debug ≤ as.ptr
  ptr : as.ptr ≤ as.chunk.start + as.chunk.len

/-- The number of chunks, free or allocated, that an address is in. -/
def Heap.cover (h : Heap) (x : ℕ) : ℕ := coverage h.freeList x + coverage h.allocated x

/-- The chunks of the heap are apart, and `remaining` is right. -/
structure HeapInv (debug : Bool) (h : Heap) : Prop where
  free : FreeInv h.freeList
  headers : ∀ as ∈ h.headers, HeaderInv debug as
  once : ∀ x, h.cover x ≤ 1
  remaining : h.remaining = (h.freeList.map Span.len).sum

section Calls

variable {debug : Bool} {h h' : Heap} {ptr len size alignment : ℕ}

/-- A created chunk that is apart from the heap is added to it. -/
theorem insert_created_spec (hinv : HeapInv debug h) (haligned : ptr % pointerSize = 0)
    (hfits : ptr + len ≤ lastPage) (hapart : ∀ x ∈ (⟨ptr, len⟩ : Span), h.cover x = 0)
    (hinsert : insertCreated h ptr len = some h') :
    HeapInv debug h' ∧ ∀ x, h'.cover x = h.cover x + coverage [⟨ptr, len⟩] x := by
  obtain ⟨chunk, hcreate, hinsert⟩ := Option.bind_eq_some_iff.mp hinsert
  unfold heapCreateFreeChunk at hcreate
  split at hcreate
  · next hlen =>
    cases hcreate
    have hchunk : ChunkInv ⟨ptr, len⟩ := ⟨hlen, haligned, hfits⟩
    have hzero : ∀ x ∈ (⟨ptr, len⟩ : Span), coverage h.freeList x = 0 := fun x hx => by
      have := hapart x hx
      unfold Heap.cover at this
      omega
    obtain ⟨hfree, hsame, hheaders, hremaining⟩ := insert_spec hinv.free hchunk hzero hinsert
    have hcover : ∀ x, h'.cover x = h.cover x + coverage [⟨ptr, len⟩] x := fun x => by
      have hx := hsame.coverage x
      have hnil : coverage [] x = 0 := rfl
      rw [coverage_cons] at hx
      unfold Heap.cover Heap.allocated
      rw [hheaders, coverage_cons]
      omega
    refine ⟨⟨hfree, ?_, fun x => ?_, ?_⟩, hcover⟩
    · rw [hheaders]
      exact hinv.headers
    · rw [hcover x, coverage_cons]
      have hnil : coverage [] x = 0 := rfl
      split
      · next hx =>
        have := hapart x hx
        omega
      · have := hinv.once x
        omega
    · rw [hremaining, hinv.remaining, hsame.sum, map_cons, sum_cons, Nat.add_comm]
  · cases hcreate

/-- What `miniheap_alloc` looks for, with an alignment that is zero or a power of two. -/
theorem request_spec (debug : Bool) (hsize : paddedSize debug size alignment < 2 ^ 64)
    (hpower : alignment &&& (alignment - 1) = 0) :
    freeHeapChunkSize ≤ (requestSize debug size alignment).1 ∧
      (requestSize debug size alignment).1 % pointerSize = 0 ∧
      size + headerSize debug + (requestSize debug size alignment).2 ≤
        (requestSize debug size alignment).1 := by
  unfold paddedSize at hsize
  have height : alignment < 16 ∨ alignment % 8 = 0 := by
    rcases Nat.eq_zero_or_pos alignment with hzero | hpos
    · omega
    obtain ⟨k, rfl⟩ := (Nat.and_sub_one_eq_zero_iff_isPowerOfTwo hpos.ne').mp hpower
    rcases Nat.lt_or_ge k 4 with hk | hk
    · exact .inl (Nat.pow_lt_pow_right (by decide) hk)
    · right
      exact Nat.mod_eq_zero_of_dvd (Nat.pow_dvd_pow 2 (show 3 ≤ k by omega))
  have hsum : (size + headerSize debug) % 2 ^ 64 = size + headerSize debug :=
    Nat.mod_eq_of_lt (by omega)
  unfold requestSize
  simp only [hsum, roundup64, freeHeapChunkSize, pointerSize] at hsize ⊢
  split
  · next hpos =>
    rw [if_pos hpos] at hsize
    split <;> split <;> dsimp only <;> omega
  · next hzero =>
    rw [if_neg hzero] at hsize
    split <;> dsimp only <;> omega

theorem alloc_chunk_spec (hinv : HeapInv debug h) (hroom : freeHeapChunkSize ≤ size)
    (haligned : size % pointerSize = 0) (hheader : headerSize debug + alignment ≤ size)
    (halloc : allocChunk debug h size alignment = some (ptr, h')) :
    HeapInv debug h' ∧ ∀ x, h'.cover x = h.cover x := by
  obtain ⟨⟨chunk, freeList⟩, htake, heq⟩ := Option.map_eq_some_iff.mp halloc
  cases heq
  obtain ⟨hfree, hchunk, hle, hsame⟩ := take_chunk_spec hinv.free hroom haligned htake
  have hcover : ∀ x, coverage freeList x + coverage (chunk :: h.allocated) x = h.cover x := by
    intro x
    have hx := hsame.coverage x
    rw [coverage_cons] at hx ⊢
    unfold Heap.cover
    omega
  refine ⟨⟨hfree, fun as has => ?_, fun x => ?_, ?_⟩, hcover⟩
  · rcases mem_cons.mp has with rfl | has
    · have hfits := hchunk.fits
      simp only [lastPage, pageSize] at hfits
      refine ⟨hchunk, ?_, ?_⟩
      all_goals
        dsimp only
        split
        · next hpos =>
          have hbounds := roundup64_bounds (x := chunk.start + headerSize debug) hpos (by omega)
          omega
        · omega
    · exact hinv.headers as has
  · show coverage freeList x + coverage (chunk :: h.allocated) x ≤ 1
    rw [hcover x]
    exact hinv.once x
  · have hsum := hsame.sum
    rw [map_cons, sum_cons, ← hinv.remaining] at hsum
    dsimp only
    omega

theorem heap_grow_spec (hinv : HeapInv debug h) (haligned : ptr % pageSize = 0)
    (hfits : ptr + roundup64 size pageSize ≤ lastPage)
    (hapart : ∀ x ∈ (⟨ptr, roundup64 size pageSize⟩ : Span), h.cover x = 0)
    (hgrow : heapGrow h size ptr = some h') :
    HeapInv debug h' ∧
      ∀ x, h'.cover x = h.cover x + coverage [⟨ptr, roundup64 size pageSize⟩] x := by
  obtain ⟨grown, hinsert, rfl⟩ := Option.map_eq_some_iff.mp hgrow
  have hpointer : ptr % pointerSize = 0 := by
    simp only [pageSize, pointerSize] at haligned ⊢
    omega
  obtain ⟨⟨hfree, hheaders, honce, hremaining⟩, hcover⟩ :=
    insert_created_spec hinv hpointer hfits hapart hinsert
  exact ⟨⟨hfree, hheaders, honce, hremaining⟩, hcover⟩

/-- A span that is before or after each chunk covers no place of the heap. -/
theorem cover_of_apart {span : Span} (hapart : ∀ chunk ∈ h.freeList ++ h.allocated,
    chunk.start + chunk.len ≤ span.start ∨ span.start + span.len ≤ chunk.start) :
    ∀ x ∈ span, h.cover x = 0 := by
  intro x hx
  unfold Heap.cover
  rw [← coverage_append]
  by_contra hne
  obtain ⟨chunk, hmem, hchunk⟩ := coverage_pos.mp (Nat.pos_of_ne_zero hne)
  have := hapart chunk hmem
  rw [mem_def] at hx hchunk
  omega

theorem miniheap_alloc_spec {pages result : Option ℕ} (hinv : HeapInv debug h)
    (hsize : paddedSize debug size alignment < 2 ^ 64)
    (hpages : ∀ span ∈ grownPages debug h size alignment pages, Fresh h span)
    (halloc : miniheapAlloc debug h size alignment pages = some (result, h')) :
    HeapInv debug h' ∧
      ∀ x, h'.cover x = h.cover x + coverage (grownPages debug h size alignment pages) x := by
  unfold miniheapAlloc at halloc
  unfold grownPages at hpages ⊢
  split at halloc
  · next hpower =>
    cases halloc
    rw [if_pos hpower]
    exact ⟨hinv, fun x => rfl⟩
  next hpower =>
  rw [if_neg hpower] at hpages ⊢
  obtain ⟨hroom, haligned, hheader⟩ := request_spec debug hsize (not_not.mp hpower)
  dsimp only at halloc hpages ⊢
  split at halloc
  · next ptr taken htake =>
    cases halloc
    rw [htake]
    exact alloc_chunk_spec hinv hroom haligned (by omega) htake
  next hnone =>
  rw [hnone] at hpages ⊢
  cases pages with
  | none =>
    cases halloc
    exact ⟨hinv, fun x => rfl⟩
  | some ptr =>
    obtain ⟨grown, hgrow, heq⟩ := Option.map_eq_some_iff.mp halloc
    obtain ⟨hstart, -, hfits, hapart⟩ := hpages _ mem_cons_self
    obtain ⟨hgrown, hcover⟩ := heap_grow_spec hinv hstart hfits (cover_of_apart hapart) hgrow
    split at heq
    · next taken htake =>
      cases heq
      obtain ⟨hinv', hcover'⟩ := alloc_chunk_spec hgrown hroom haligned (by omega) htake
      exact ⟨hinv', fun x => (hcover' x).trans (hcover x)⟩
    · cases heq
      exact ⟨hgrown, hcover⟩

/-- A heap without one of its headers, whose chunk nothing covers any more. -/
theorem HeapInv.drop_header {before after : List Header} {as : Header} (hinv : HeapInv debug h)
    (hheaders : h.headers = before ++ as :: after) :
    HeapInv debug { h with headers := before ++ after } ∧ HeaderInv debug as ∧
      (∀ x ∈ as.chunk, Heap.cover { h with headers := before ++ after } x = 0) ∧
      ∀ x, h.cover x = Heap.cover { h with headers := before ++ after } x +
        coverage [as.chunk] x := by
  have hcover : ∀ x, h.cover x = Heap.cover { h with headers := before ++ after } x +
      coverage [as.chunk] x := fun x => by
    unfold Heap.cover Heap.allocated
    rw [hheaders]
    simp only [map_append, map_cons, coverage_append, coverage_cons]
    have hnil : coverage [] x = 0 := rfl
    omega
  refine ⟨⟨hinv.free, fun as' has' => hinv.headers as' ?_, fun x => ?_, hinv.remaining⟩,
    hinv.headers as (hheaders ▸ mem_append_right _ mem_cons_self), fun x hx => ?_, hcover⟩
  · rw [hheaders]
    exact ((sublist_cons_self as after).append_left before).subset has'
  · exact (Nat.le_add_right _ _).trans ((hcover x).symm.le.trans (hinv.once x))
  · -- A place of the header's chunk is covered by it, and no place is covered twice.
    have honce := hinv.once x
    rw [hcover x, coverage_cons, if_pos hx] at honce
    omega

theorem find_header {as : Header} {headers : List Header}
    (hfind : headers.find? (·.ptr = ptr) = some as) :
    as.ptr = ptr ∧ ∃ before after, headers = before ++ as :: after ∧
      headers.eraseP (·.ptr = ptr) = before ++ after := by
  obtain ⟨hptr, before, after, rfl, hbefore⟩ := find?_eq_some_iff_append.mp hfind
  refine ⟨of_decide_eq_true hptr, before, after, rfl, ?_⟩
  rw [eraseP_append_right _ fun as' has' => by simpa using hbefore as' has',
    eraseP_cons, hptr, cond_true]

theorem miniheap_free_spec (hinv : HeapInv debug h) (hfree : miniheapFree h ptr = some h') :
    HeapInv debug h' ∧ ∀ x, h'.cover x = h.cover x := by
  unfold miniheapFree at hfree
  split at hfree
  · cases hfree
    exact ⟨hinv, fun x => rfl⟩
  split at hfree
  · cases hfree
  next as hfind =>
  obtain ⟨-, before, after, hheaders, herase⟩ := find_header hfind
  rw [herase] at hfree
  obtain ⟨hless, has, hzero, hcover⟩ := hinv.drop_header hheaders
  obtain ⟨hinv', hcover'⟩ :=
    insert_created_spec hless has.chunk.start_aligned has.chunk.fits hzero hfree
  exact ⟨hinv', fun x => (hcover' x).trans (hcover x).symm⟩

/-- `miniheap_trim` takes pages off the free list. -/
theorem miniheap_trim_spec (hinv : HeapInv debug h) :
    HeapInv debug (miniheapTrim h).1 ∧
      ∀ x, (miniheapTrim h).1.cover x + coverage (miniheapTrim h).2 x = h.cover x := by
  obtain ⟨hfree, hsame⟩ := trim_list_spec hinv.free
  have hcover : ∀ x, coverage (h.freeList.flatMap fun c => (trimChunk c).1) x +
      coverage h.allocated x + coverage (h.freeList.flatMap fun c => (trimChunk c).2) x =
        h.cover x := fun x => by
    have hx := hsame.coverage x
    rw [coverage_append] at hx
    unfold Heap.cover
    omega
  refine ⟨⟨hfree, hinv.headers, fun x => ?_, ?_⟩, hcover⟩
  · have hx := hcover x
    have honce := hinv.once x
    show coverage (h.freeList.flatMap fun c => (trimChunk c).1) x + coverage h.allocated x ≤ 1
    omega
  · have hsum := hsame.sum
    rw [map_append, sum_append, ← hinv.remaining] at hsum
    unfold miniheapTrim
    dsimp only
    omega

/-- Inserting a chunk leaves the bounds of the heap. -/
theorem insert_created_buffer (hinsert : insertCreated h ptr len = some h') :
    h'.base = h.base ∧ h'.len = h.len := by
  obtain ⟨chunk, _, hinsert⟩ := Option.bind_eq_some_iff.mp hinsert
  unfold heapInsertFreeChunk at hinsert
  dsimp only at hinsert
  split at hinsert
  · cases hinsert
    exact ⟨rfl, rfl⟩
  · cases hinsert

theorem aligned_buffer {aligned : ℕ} (hfits : ptr + len ≤ lastPage)
    (haligned : aligned = if 0 < ptr % pointerSize then roundup64 ptr pointerSize else ptr)
    (hlen : 0 < ptr % pointerSize → sub64 aligned ptr < len) :
    aligned % pointerSize = 0 ∧ aligned + (len - sub64 aligned ptr) ≤ lastPage := by
  simp only [lastPage, pageSize] at hfits ⊢
  split at haligned
  · next hskip =>
    have hlt := hlen hskip
    simp only [sub64, roundup64, pointerSize] at haligned hlt ⊢
    omega
  · next hnoskip =>
    simp only [sub64, pointerSize] at hnoskip ⊢
    omega

/-- `miniheap_init` makes a heap of the aligned part of the buffer. -/
theorem miniheap_init_spec (hfits : ptr + len ≤ lastPage) (hinit : miniheapInit ptr len = some h) :
    HeapInv debug h ∧ ∀ x, h.cover x = coverage [⟨h.base, h.len⟩] x := by
  have hempty : ∀ base len, HeapInv debug ⟨base, len, 0, 0, [], []⟩ := fun base len =>
    ⟨⟨forall_mem_nil _, .nil⟩, forall_mem_nil _, fun x => Nat.zero_le 1, rfl⟩
  unfold miniheapInit at hinit
  dsimp only at hinit
  generalize hstart : (if 0 < ptr % pointerSize then roundup64 ptr pointerSize else ptr) = start
    at hinit
  split at hinit
  · cases hinit
  next hlen =>
  obtain ⟨haligned, hfits'⟩ := aligned_buffer hfits hstart.symm fun hskip =>
    Nat.lt_of_not_le fun hle => hlen ⟨hskip, hle⟩
  split at hinit
  · obtain ⟨hinv, hcover⟩ := insert_created_spec (hempty _ _) haligned hfits' (fun x _ => rfl) hinit
    obtain ⟨hbase, hlen'⟩ := insert_created_buffer hinit
    refine ⟨hinv, fun x => ?_⟩
    rw [hcover x, hbase, hlen']
    exact Nat.zero_add _
  · next hzero =>
    cases hinit
    refine ⟨hempty _ _, fun x => ?_⟩
    exact (same_nil (Nat.eq_zero_of_not_pos hzero)).coverage x

end Calls

/-! ## Whole runs -/

/-- The memory of the heap and the memory it gave back are what was given to it. -/
structure Inv (debug : Bool) (s : System) : Prop where
  heap : HeapInv debug s.heap
  account : ∀ x, s.heap.cover x + coverage s.returned x = coverage s.given x

/-- Each call keeps the invariant. -/
theorem step_inv {debug : Bool} {s' : System} {action : Action} (hinv : Inv debug s)
    (hallowed : Bounded debug s action) (hstep : step debug s action = some s') : Inv debug s' := by
  obtain ⟨hheap, haccount⟩ := hinv
  cases action with
  | alloc size alignment pages =>
    obtain ⟨⟨result, heap⟩, halloc, rfl⟩ := Option.map_eq_some_iff.mp hstep
    obtain ⟨hheap', hcover⟩ := miniheap_alloc_spec hheap hallowed.1 hallowed.2 halloc
    refine ⟨hheap', fun x => ?_⟩
    have hx := haccount x
    dsimp only
    rw [hcover x, coverage_append]
    omega
  | free ptr =>
    obtain ⟨heap, hfree, rfl⟩ := Option.map_eq_some_iff.mp hstep
    obtain ⟨hheap', hcover⟩ := miniheap_free_spec hheap hfree
    refine ⟨hheap', fun x => ?_⟩
    rw [hcover x, haccount x]
  | trim =>
    cases hstep
    obtain ⟨hheap', hcover⟩ := miniheap_trim_spec hheap
    refine ⟨hheap', fun x => ?_⟩
    have hx := haccount x
    have hx' := hcover x
    dsimp only
    rw [coverage_append]
    omega

/-- The invariant holds in every run. -/
theorem reachable_inv {debug : Bool} {ptr len : ℕ} (hfits : ptr + len ≤ lastPage)
    (hreach : Reachable debug ptr len s) : Inv debug s := by
  refine hreach.invariant ?_ fun hinv hallowed => step_inv hinv hallowed.bounded
  rintro _ ⟨h, hinit, rfl⟩
  obtain ⟨hheap, hcover⟩ := miniheap_init_spec hfits hinit
  exact ⟨hheap, fun x => hcover x⟩

/-- In every run from `miniheap_init`, with no memory in the last page, the free list is strictly
sorted with a gap between any two chunks, the free chunks and the chunks of the headers are apart
and are exactly the memory given to the heap and not returned, and `remaining` is the sum of the
lengths of the free chunks. -/
theorem heap_partition {debug : Bool} {ptr len : ℕ} {s : System} (hfits : ptr + len ≤ lastPage)
    (hreach : Reachable debug ptr len s) :
    s.heap.freeList.Pairwise Gap ∧
      (s.heap.freeList ++ s.heap.allocated).Pairwise Apart ∧
      (∀ x, (∃ chunk ∈ s.heap.freeList ++ s.heap.allocated, x ∈ chunk) ↔
        coverage s.returned x < coverage s.given x) ∧
      s.heap.remaining = (s.heap.freeList.map Span.len).sum := by
  obtain ⟨hheap, haccount⟩ := reachable_inv hfits hreach
  refine ⟨hheap.free.pairwise, pairwise_apart fun x => ?_, fun x => ?_, hheap.remaining⟩
  · rw [coverage_append]
    exact hheap.once x
  · have hx := haccount x
    rw [← coverage_pos, coverage_append]
    unfold Heap.cover at hx
    omega

/-- A heap in a buffer that is not aligned grows by two pages, and gives them back when the
allocations that are in them have been freed. -/
theorem heap_partition_grown : 0x10004 + 6140 ≤ lastPage ∧
    ∃ s, Reachable true 0x10004 6140 s ∧
      s.heap.freeList = [⟨0x10008, 128⟩, ⟨0x100b8, 5960⟩] ∧ s.heap.allocated = [⟨0x10088, 48⟩] ∧
      s.returned = [⟨0x20000, 8192⟩] ∧
      (s.heap.freeList ++ s.heap.allocated).Pairwise Apart ∧
      s.heap.remaining = (s.heap.freeList.map Span.len).sum := by
  have hinit : Initial 0x10004 6140
      ⟨⟨0x10008, 6136, 6136, 0, [⟨0x10008, 6136⟩], []⟩, [⟨0x10008, 6136⟩], []⟩ := ⟨_, rfl, rfl⟩
  obtain ⟨s, hreach, hfree, hallocated, hreturned⟩ := exists_reachable true hinit
    (P := fun s => s.heap.freeList = [⟨0x10008, 128⟩, ⟨0x100b8, 5960⟩] ∧
      s.heap.allocated = [⟨0x10088, 48⟩] ∧ s.returned = [⟨0x20000, 8192⟩])
    [.alloc 100 0 none, .alloc 6000 64 (some 0x20000), .alloc 8 8 none, .free 0x10020,
      .free 0x20040, .trim] (by decide) (by decide)
  have hpartition := heap_partition (by decide) hreach
  exact ⟨by decide, s, hreach, hfree, hallocated, hreturned, hpartition.2.1, hpartition.2.2.2⟩

end NusaKernel.Miniheap
