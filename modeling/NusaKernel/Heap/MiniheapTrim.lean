import NusaKernel.Heap.MiniheapPartition

/-!
# What `miniheap_trim` gives back

The pages are whole pages inside a free chunk. What is left of the chunk is in the free list, and
has no page that can be given back: a piece in front of the pages ends where they began, and a piece
behind them begins where they ended. So a second call does nothing (`trim_gives_back_pages`).
-/

namespace NusaKernel.Miniheap

open Span Word List

variable {start stop : ℕ} {c : Span} {h : Heap}

/-- The pages end inside the chunk. -/
theorem trim_end_le (stop : ℕ) : trimEnd stop ≤ stop := by
  have hle : rounddown64 stop pageSize ≤ stop := Nat.div_mul_le_self _ _
  unfold trimEnd
  dsimp only
  split <;> omega

/-- From the first address of a page on, whole pages begin right there. -/
theorem trim_start_of_aligned (haligned : start % pageSize = 0) (hlt : start < 2 ^ 64) :
    trimStart start = start := by
  have hround : roundup64 start pageSize = start := by
    simp only [roundup64, pageSize] at haligned ⊢
    omega
  unfold trimStart
  simp [hround]

/-- A chunk from which no page is given back stays as it is. -/
theorem trim_chunk_of_le (hfits : c.start + c.len < 2 ^ 64)
    (hle : trimEnd (c.start + c.len) ≤ trimStart c.start) : trimChunk c = ([c], []) := by
  have hnone : trimPages c.start (c.start + c.len) = none :=
    if_neg fun hpages => absurd hpages.2.2 (Nat.not_lt.mpr hle)
  simp only [trimChunk, Nat.mod_eq_of_lt hfits, hnone]

/-- A chunk ends before the last page, so that its end does not go round. -/
theorem ChunkInv.stop_eq (hc : ChunkInv c) : (c.start + c.len) % 2 ^ 64 = c.start + c.len := by
  have hfits := hc.fits
  simp only [lastPage, pageSize] at hfits
  exact Nat.mod_eq_of_lt (by omega)

/-- From the pieces of a chunk no page can be given back. -/
theorem trim_piece (hc : ChunkInv c) : ∀ p ∈ (trimChunk c).1, trimChunk p = ([p], []) := by
  have hinside := (trim_chunk_spec hc).2.1
  have hfits := hc.fits
  simp only [lastPage, pageSize] at hfits
  intro p hp
  have hstop : p.start + p.len < 2 ^ 64 := by
    have := hinside p hp
    omega
  simp only [trimChunk, hc.stop_eq] at hp
  split at hp
  · next hnone =>
    obtain rfl := mem_singleton.mp hp
    simp only [trimChunk, hc.stop_eq, hnone]
  next startPage endPage hpages =>
  obtain ⟨hle, hlt, hle', haligned, haligned', _⟩ :=
    trim_pages_spec ((Nat.le_add_right _ _).trans hc.fits) hpages
  obtain ⟨rfl, rfl⟩ : trimStart c.start = startPage ∧ trimEnd (c.start + c.len) = endPage := by
    simpa [trimPages] using (Option.ite_none_right_eq_some.mp hpages).2
  rcases mem_append.mp hp with hp | hp
  · -- the piece in front of the pages, which end it
    split at hp
    · cases hp
    next hne =>
    obtain rfl := mem_singleton.mp hp
    refine trim_chunk_of_le hstop ((trim_end_le _).trans ?_)
    dsimp only
    rw [front_len hc.fits hle hlt hle']
    omega
  · -- the piece behind them, which begins at a page
    split at hp
    · next hbehind =>
      obtain rfl := mem_singleton.mp hp
      refine trim_chunk_of_le hstop ?_
      dsimp only
      rw [Nat.add_sub_cancel' hle', trim_start_of_aligned haligned' (by omega)]
    · cases hp

/-- The pages of a chunk are whole pages inside it. -/
theorem trim_chunk_pages (hc : ChunkInv c) {p : Span} (hp : p ∈ (trimChunk c).2) :
    p.start % pageSize = 0 ∧ p.len % pageSize = 0 ∧ 0 < p.len ∧
      c.start ≤ p.start ∧ p.start + p.len ≤ c.start + c.len := by
  simp only [trimChunk, hc.stop_eq] at hp
  split at hp
  · cases hp
  next startPage endPage hpages =>
  obtain rfl := mem_singleton.mp hp
  obtain ⟨hle, hlt, hle', haligned, haligned', _⟩ :=
    trim_pages_spec ((Nat.le_add_right _ _).trans hc.fits) hpages
  simp only [pageSize] at haligned haligned' ⊢
  omega

/-- `miniheap_trim`, with any free list that is in order and has no chunk in the last page: what it
gives to `page_free` are whole pages inside a free chunk, each free byte is afterwards in one free
chunk or in one of the pages, the free list is in order, `remaining` is less by the bytes given
back, and a second call gives back nothing and changes nothing. -/
theorem trim_gives_back_pages (hfree : FreeInv h.freeList)
    (hremaining : h.remaining = (h.freeList.map Span.len).sum) :
    ∃ h' pages, miniheapTrim h = (h', pages) ∧
      (∀ p ∈ pages, p.start % pageSize = 0 ∧ p.len % pageSize = 0 ∧ 0 < p.len ∧
        ∃ c ∈ h.freeList, c.start ≤ p.start ∧ p.start + p.len ≤ c.start + c.len) ∧
      (∀ x, coverage h'.freeList x + coverage pages x = coverage h.freeList x ∧
        coverage h.freeList x ≤ 1) ∧
      FreeInv h'.freeList ∧ h'.remaining + (pages.map Span.len).sum = h.remaining ∧
      miniheapTrim h' = (h', []) := by
  obtain ⟨hfree', hsame⟩ := trim_list_spec hfree
  have hpiece : ∀ p ∈ h.freeList.flatMap fun c => (trimChunk c).1, trimChunk p = ([p], []) := by
    intro p hp
    obtain ⟨c, hc, hp⟩ := mem_flatMap.mp hp
    exact trim_piece (hfree.chunks c hc) p hp
  refine ⟨_, _, rfl, fun p hp => ?_, fun x => ⟨?_, coverage_le_one hfree.pairwise x⟩, hfree', ?_,
    ?_⟩
  · obtain ⟨c, hc, hp⟩ := mem_flatMap.mp hp
    obtain ⟨hstart, hlen, hpos, hinside⟩ := trim_chunk_pages (hfree.chunks c hc) hp
    exact ⟨hstart, hlen, hpos, c, hc, hinside⟩
  · rw [← coverage_append]
    exact hsame.coverage x
  · have hsum := hsame.sum
    rw [map_append, sum_append, ← hremaining] at hsum
    dsimp only
    omega
  generalize (h.freeList.flatMap fun c => (trimChunk c).1) = list at hpiece ⊢
  have hkept : (list.flatMap fun c => (trimChunk c).1) = list :=
    (flatMap_congr fun p hp => by rw [hpiece p hp]).trans (flatMap_singleton' _)
  have hnone : (list.flatMap fun c => (trimChunk c).2) = [] :=
    flatMap_eq_nil_iff.mpr fun p hp => by rw [hpiece p hp]
  rw [miniheapTrim]
  dsimp only
  rw [hkept, hnone]
  rfl

/-- A chunk that begins and ends sixteen bytes behind a page boundary. There is room for a list node
in front of its first page, but not behind its last one. -/
theorem trim_gives_back_three_pages : ∃ h h' : Heap,
    h.freeList = [⟨0x10010, 0x5000⟩] ∧ miniheapTrim h = (h', [⟨0x11000, 0x3000⟩]) ∧
      h'.freeList = [⟨0x10010, 0xff0⟩, ⟨0x14000, 0x1010⟩] ∧
      h'.remaining + 0x3000 = h.remaining ∧ miniheapTrim h' = (h', []) := by
  let h : Heap := ⟨0x10010, 0x5000, 0x5000, 0x5000, [⟨0x10010, 0x5000⟩], []⟩
  have hrun : (miniheapTrim h).1.freeList = [⟨0x10010, 0xff0⟩, ⟨0x14000, 0x1010⟩] ∧
      (miniheapTrim h).2 = [⟨0x11000, 0x3000⟩] := by decide
  have hfree : FreeInv h.freeList := by
    refine ⟨fun c hc => ?_, isChain_singleton _⟩
    rw [mem_singleton.mp hc]
    exact ⟨by decide, by decide, by decide⟩
  obtain ⟨h', pages, htrim, _, _, _, hremaining, hsecond⟩ := trim_gives_back_pages hfree rfl
  rw [htrim] at hrun
  obtain ⟨hlist, rfl⟩ := hrun
  exact ⟨h, h', rfl, htrim, hlist, hremaining, hsecond⟩

end NusaKernel.Miniheap
