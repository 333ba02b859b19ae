import Mathlib.Data.List.Nodup
import NusaKernel.Vm.Pmm

/-!
# Conservation of physical pages

The pages handed out by the calls of `kernel/vm/pmm.c` are recorded next to the state of the
allocator, by what the caller is told: the pages of the list it gets, or the run of pages from the
physical address it gets. Freed pages are struck out again. In every run in which the arenas do not
overlap, only pages handed out are freed, and the `uint` sum of a start and a count in
`pmm_alloc_contiguous` does not go round, a page is in its arena's free list exactly when it is not
marked, and no page is handed out that has not come back.

Where the sum goes round, `pmm_alloc_contiguous` returns a run of pages that it does not mark.
-/

namespace NusaKernel.Pmm

open Bool List Option Walk

/-! ## Runs -/

/-- The allocator and the pages that are handed out. -/
structure System where
  pmm : State
  outstanding : List ℕ

/-- A call, with what the rest of the kernel returns to it. -/
inductive Action where
  | addArena (info : ArenaInfo)
  | allocPages (count : UInt32)
  | allocPage
  | allocRange (address : BitVec 64) (count : UInt32)
  | allocContiguous (count : UInt32) (alignmentLog2 : UInt8)
  | allocKpages (count : UInt32)
  | free (list : List ℕ)
  | freePage (page : ℕ)
  | freeKpages (vaddrToPaddr : BitVec 64 → ℕ) (ptr : BitVec 64) (count : UInt32)

/-- The pages of a run from a physical address. -/
def runPages (arenas : List Arena) (pa : ℕ) (count : UInt32) : List ℕ :=
  (range count.toNat).filterMap fun i => paddrToVmPage arenas (pa + i * pageSize)

/-- Record the pages of a run, if there is one. -/
def System.handOutRun (s : System) (count : UInt32) (result : Option ℕ × State) : System :=
  ⟨result.2, s.outstanding ++ result.1.elim [] fun pa => runPages result.2.arenas pa count⟩

/-- Strike out pages. -/
def System.giveBack (s : System) (pages : List ℕ) : System :=
  ⟨(pmmFree s.pmm pages).2, s.outstanding.diff pages⟩

/-- One call. -/
def step (s : System) : Action → Option System
  | .addArena info => (pmmAddArena s.pmm info).map fun pmm => { s with pmm := pmm }
  | .allocPages count =>
    let (list, pmm) := pmmAllocPages s.pmm count
    some ⟨pmm, s.outstanding ++ list⟩
  | .allocPage =>
    let (page, pmm) := pmmAllocPage s.pmm
    some ⟨pmm, s.outstanding ++ page.toList⟩
  | .allocRange address count =>
    let (list, pmm) := pmmAllocRange s.pmm address count
    some ⟨pmm, s.outstanding ++ list⟩
  | .allocContiguous count alignmentLog2 =>
    (pmmAllocContiguous s.pmm count alignmentLog2).map fun (result, pmm) =>
      s.handOutRun count (result.pa, pmm)
  | .allocKpages count => (allocKpages s.pmm count).map (s.handOutRun count)
  | .free list => some (s.giveBack list)
  | .freePage page => some (s.giveBack [page])
  | .freeKpages vaddrToPaddr ptr count => some (s.giveBack (kpages vaddrToPaddr s.pmm ptr count))

/-- No arena yet. -/
def initial (bootAllocStart : ℕ) : System := ⟨⟨[], fun _ => 0#8, bootAllocStart⟩, []⟩

/-- The arenas that are added do not overlap, and only pages that are handed out are freed, each
once. -/
def Allowed (s : System) : Action → Prop
  | .addArena info => ∀ a ∈ s.pmm.arenas,
      a.base + a.size ≤ info.base ∨ info.base + info.size ≤ a.base
  | .free list => list.Nodup ∧ list ⊆ s.outstanding
  | .freePage page => page ∈ s.outstanding
  | .freeKpages vaddrToPaddr ptr count =>
    (kpages vaddrToPaddr s.pmm ptr count).Nodup ∧
      kpages vaddrToPaddr s.pmm ptr count ⊆ s.outstanding
  | _ => True

/-- No sum of a start in a mapped arena and the count goes round. -/
def CountFits (s : System) (count : UInt32) : Prop :=
  ∀ a ∈ s.pmm.arenas, a.flags &&& pmmArenaFlagKmap ≠ 0#32 → count.toNat + a.pageCount ≤ 2 ^ 32

/-- The condition on counts for the calls that look for a run. -/
def InRange (s : System) : Action → Prop
  | .allocContiguous count _ => CountFits s count
  | .allocKpages count => count ≠ 1 → CountFits s count
  | _ => True

/-- `Allowed` can be checked along a run. -/
instance (s : System) (action : Action) : Decidable (Allowed s action) := by
  cases action <;> unfold Allowed <;> infer_instance

/-- `InRange` can be checked along a run. -/
instance (s : System) (action : Action) : Decidable (InRange s action) := by
  cases action <;> unfold InRange CountFits <;> infer_instance

/-- The systems reached by calls that a guard admits. -/
def Reachable (bootAllocStart : ℕ) (guard : System → Action → Prop) : System → Prop :=
  Transition.Reachable step guard (· = initial bootAllocStart)

/-! ## The invariant -/

/-- Page arrays and memory of two arenas are apart. -/
def Apart (a b : Arena) : Prop :=
  (a.pageArray + a.pageCount * vmPageSize ≤ b.pageArray ∨
    b.pageArray + b.pageCount * vmPageSize ≤ a.pageArray) ∧
  (a.base + a.size ≤ b.base ∨ b.base + b.size ≤ a.base)

theorem Apart.symm {a b : Arena} (h : Apart a b) : Apart b a := ⟨h.1.symm, h.2.symm⟩

/-- The free list has the pages that are not marked, each once, and the count is its length. -/
structure ArenaInv (flags : Flags) (a : Arena) : Prop where
  nodup : a.freeList.Nodup
  mem_iff : ∀ page, page ∈ a.freeList ↔ page ∈ a.pages ∧ pageIsFree flags page = true
  count : a.freeCount = a.freeList.length

/-- The arenas are apart and as they should be, and the pages handed out are marked pages of theirs,
each once. The page arrays are below the limit, where the next one goes. -/
structure Inv (limit : ℕ) (arenas : List Arena) (flags : Flags) (outstanding : List ℕ) : Prop where
  apart : arenas.Pairwise Apart
  below : ∀ a ∈ arenas, a.pageArray + a.pageCount * vmPageSize ≤ limit
  arena : ∀ a ∈ arenas, ArenaInv flags a
  nodup : outstanding.Nodup
  mem_pages : ∀ page ∈ outstanding, ∃ a ∈ arenas, page ∈ a.pages
  marked : ∀ page ∈ outstanding, pageIsFree flags page = false

/-- The invariant while a call takes pages. -/
def Progress.Inv (limit : ℕ) (out : List ℕ) (arenas : List Arena) (progress : Progress) : Prop :=
  Pmm.Inv limit arenas progress.flags (out ++ progress.list)

variable {flags' : Flags}

section Pages

variable {a b : Arena} {flags : Flags} {page other : ℕ}

theorem mem_pages_iff : page ∈ a.pages ↔ ∃ i < a.pageCount, a.page i = page := by
  simp [Arena.pages]

theorem page_mem_pages {i : ℕ} (hi : i < a.pageCount) : a.page i ∈ a.pages :=
  mem_pages_iff.mpr ⟨i, hi, rfl⟩

theorem page_injective (a : Arena) : Function.Injective a.page := by
  intro i j hij
  simp only [Arena.page, vmPageSize] at hij
  omega

theorem nodup_pages (a : Arena) : a.pages.Nodup := nodup_range.map (page_injective a)

theorem belongs_of_mem (h : page ∈ a.pages) : pageBelongsToArena page a = true := by
  obtain ⟨i, hi, rfl⟩ := mem_pages_iff.mp h
  refine decide_eq_true ?_
  simp only [Arena.page, vmPageSize]
  omega

theorem index_lt {addr : ℕ} (h : addressInArena addr a = true) :
    (addr - a.base) / pageSize < a.pageCount := by
  have hpos := a.size_pos
  have haligned := a.size_aligned
  simp only [addressInArena, decide_eq_true_eq] at h
  simp only [Arena.pageCount, pageSize] at haligned ⊢
  omega

theorem Apart.not_belongs (h : Apart a b) (ha : pageBelongsToArena page a = true) :
    pageBelongsToArena page b = false := by
  simp only [pageBelongsToArena, decide_eq_true_eq, decide_eq_false_iff_not] at ha ⊢
  have := h.1
  omega

theorem Apart.not_in (h : Apart a b) {addr : ℕ} (ha : addressInArena addr a = true) :
    addressInArena addr b = false := by
  have hpos := a.size_pos
  have hpos' := b.size_pos
  simp only [addressInArena, decide_eq_true_eq, decide_eq_false_iff_not] at ha ⊢
  have := h.2
  omega

theorem Apart.not_mem (h : Apart a b) (ha : page ∈ a.pages) : page ∉ b.pages := fun hb => by
  have hbelongs := belongs_of_mem hb
  rw [h.not_belongs (belongs_of_mem ha)] at hbelongs
  cases hbelongs

theorem page_is_free_set (flags : Flags) (page other : ℕ) :
    pageIsFree (setNonfree flags page) other = (other ≠ page && pageIsFree flags other) := by
  have hset : ∀ x : BitVec 8, (x ||| vmPageFlagNonfree) &&& vmPageFlagNonfree ≠ 0#8 := by decide
  by_cases heq : other = page
  · subst heq
    simp [pageIsFree, setNonfree, hset]
  · simp [pageIsFree, setNonfree, heq]

theorem page_is_free_clear (flags : Flags) (page other : ℕ) :
    pageIsFree (clearNonfree flags page) other = (other = page || pageIsFree flags other) := by
  have hclear : ∀ x : BitVec 8, (x &&& ~~~vmPageFlagNonfree) &&& vmPageFlagNonfree = 0#8 := by
    decide
  by_cases heq : other = page
  · subst heq
    simp [pageIsFree, clearNonfree, hclear]
  · simp [pageIsFree, clearNonfree, heq]

/-! ### One page -/

theorem ArenaInv.congr (h : ArenaInv flags a)
    (heq : ∀ page ∈ a.pages, pageIsFree flags' page = pageIsFree flags page) :
    ArenaInv flags' a := by
  refine ⟨h.nodup, fun page => ?_, h.count⟩
  rw [h.mem_iff page]
  exact and_congr_right fun hpage => by rw [heq page hpage]

theorem ArenaInv.take (h : ArenaInv flags a) (hpage : page ∈ a.freeList) :
    ArenaInv (setNonfree flags page) (a.take page) := by
  refine ⟨h.nodup.erase page, fun other => ?_, ?_⟩
  · show other ∈ a.freeList.erase page ↔ other ∈ a.pages ∧ _
    rw [h.nodup.mem_erase_iff, h.mem_iff other, page_is_free_set]
    simp only [and_eq_true, decide_eq_true_eq]
    exact and_left_comm
  · show a.freeCount - 1 = (a.freeList.erase page).length
    rw [length_erase_of_mem hpage, h.count]

theorem ArenaInv.release (h : ArenaInv flags a) (hpage : page ∈ a.pages)
    (hmarked : pageIsFree flags page = false) :
    ArenaInv (clearNonfree flags page) (a.release page) := by
  have hnot : page ∉ a.freeList := fun hmem => by
    rw [((h.mem_iff page).mp hmem).2] at hmarked
    cases hmarked
  refine ⟨nodup_cons.mpr ⟨hnot, h.nodup⟩, fun other => ?_, ?_⟩
  · show other ∈ page :: a.freeList ↔ other ∈ a.pages ∧ _
    rw [mem_cons, h.mem_iff other, page_is_free_clear]
    simp only [or_eq_true, decide_eq_true_eq]
    constructor
    · rintro (rfl | ⟨hmem, hfree⟩)
      · exact ⟨hpage, .inl rfl⟩
      · exact ⟨hmem, .inr hfree⟩
    · rintro ⟨hmem, rfl | hfree⟩
      · exact .inl rfl
      · exact .inr ⟨hmem, hfree⟩
  · show a.freeCount + 1 = (page :: a.freeList).length
    rw [length_cons, h.count]

end Pages

section Steps

variable {limit : ℕ} {arenas before after : List Arena} {a : Arena} {flags : Flags} {out : List ℕ}
  {page : ℕ} {progress : Progress} {i start alignmentLog2 : ℕ} {arenas' : List Arena}

section

variable (h : Inv limit (before ++ a :: after) flags out)
include h

/-- A page of an arena is no page of the others. -/
theorem Inv.not_mem_of_ne (hpage : page ∈ a.pages) {b : Arena} (hb : b ∈ before ∨ b ∈ after) :
    page ∉ b.pages :=
  ((pairwise_cons.mp ((pairwise_middle Apart.symm).mp h.apart)).1 b
    (mem_append.mpr hb)).not_mem hpage

/-- A change of one arena and of the mark of one of its pages. -/
theorem Inv.replace {a' : Arena} {out' : List ℕ} (hpage : page ∈ a.pages)
    (hinfo : a'.toArenaInfo = a.toArenaInfo) (harray : a'.pageArray = a.pageArray)
    (hinv : ArenaInv flags' a')
    (hflags : ∀ other, other ≠ page → pageIsFree flags' other = pageIsFree flags other)
    (hnodup : out'.Nodup) (hmem : ∀ other ∈ out', other = page ∨ other ∈ out)
    (hmarked : ∀ other ∈ out', pageIsFree flags' other = false) :
    Inv limit (before ++ a' :: after) flags' out' := by
  have hpages : a'.pages = a.pages := by
    show (range (a'.size / pageSize)).map (a'.pageArray + · * vmPageSize) = a.pages
    rw [hinfo, harray]
    rfl
  have hothers : ∀ b, b ∈ before ∨ b ∈ after → ArenaInv flags' b := by
    intro b hb
    refine (h.arena b (mem_middle.mpr (.inr hb))).congr fun other hother => hflags other ?_
    rintro rfl
    exact h.not_mem_of_ne hpage hb hother
  refine ⟨?_, ?_, ?_, hnodup, ?_, hmarked⟩
  · refine pairwise_replace (fun b hb => ?_) (fun b hb => ?_) h.apart
    all_goals simpa only [Apart, Arena.pageCount, hinfo, harray] using hb
  · simpa only [forall_middle, Arena.pageCount, hinfo, harray] using h.below
  · exact forall_middle.mpr ⟨hinv, hothers⟩
  · intro other hother
    rcases hmem other hother with rfl | hother
    · exact ⟨a', mem_append_right before mem_cons_self, hpages ▸ hpage⟩
    · simpa only [exists_middle, hpages] using h.mem_pages other hother

theorem Inv.arena_inv : ArenaInv flags a := h.arena a (mem_append_right before mem_cons_self)

/-- A free page is taken. -/
theorem Inv.take (hpage : page ∈ a.freeList) :
    Inv limit (before ++ a.take page :: after) (setNonfree flags page) (out ++ [page]) := by
  obtain ⟨hmem, hfree⟩ := (h.arena_inv.mem_iff page).mp hpage
  have hnot : page ∉ out := fun hout => by
    rw [h.marked page hout] at hfree
    cases hfree
  refine h.replace hmem rfl rfl (h.arena_inv.take hpage) ?_ ?_ ?_ ?_
  · intro other hne
    rw [page_is_free_set, decide_eq_true hne, Bool.true_and]
  · rw [← concat_eq_append]
    exact h.nodup.concat hnot
  · exact forall_mem_append.mpr ⟨fun _ => .inr, fun _ => .inl ∘ mem_singleton.mp⟩
  · refine forall_mem_append.mpr ⟨fun other hother => ?_, forall_mem_singleton.mpr ?_⟩
    · rw [page_is_free_set, h.marked other hother, Bool.and_false]
    · simp [page_is_free_set]

/-- A page that is handed out comes back. -/
theorem Inv.release (hmem : page ∈ a.pages) (hpage : page ∈ out) :
    Inv limit (before ++ a.release page :: after) (clearNonfree flags page) (out.erase page) := by
  refine h.replace hmem rfl rfl (h.arena_inv.release hmem (h.marked page hpage)) ?_
    (h.nodup.erase page) (fun other hother => .inr (mem_of_mem_erase hother)) ?_
  · intro other hne
    rw [page_is_free_clear, decide_eq_false hne, Bool.false_or]
  · intro other hother
    obtain ⟨hne, hother⟩ := h.nodup.mem_erase_iff.mp hother
    rw [page_is_free_clear, decide_eq_false hne, Bool.false_or, h.marked other hother]

end

/-! ### The loops -/

section

variable (h : Progress.Inv limit out (before ++ a :: after) progress)
include h

theorem Progress.Inv.take (hpage : page ∈ a.freeList) :
    Progress.Inv limit out (before ++ a.take page :: after) (progress.take page) := by
  show Pmm.Inv limit _ (setNonfree progress.flags page) (out ++ (progress.list ++ [page]))
  rw [← append_assoc]
  exact Pmm.Inv.take h hpage

/-- `pmm_alloc_pages` in one arena. -/
theorem Progress.Inv.pop_pages (wanted : ℕ) :
    Progress.Inv limit out (before ++ (popPages wanted a progress).1 :: after)
      (popPages wanted a progress).2.1 := by
  induction wanted generalizing a progress with
  | zero => exact h
  | succ wanted ih =>
    unfold popPages
    split
    · exact h
    split
    · exact h
    next page rest hlist =>
    have hhead : page ∈ a.freeList := by
      rw [hlist]
      exact mem_cons_self
    have htake := h.take hhead
    simp only [Arena.take, hlist, erase_cons_head] at htake
    exact ih htake

/-- `pmm_alloc_range` in one arena. -/
theorem Progress.Inv.take_range (wanted : ℕ) (address : BitVec 64) :
    Progress.Inv limit out (before ++ (takeRange wanted a (progress, address)).1 :: after)
      (takeRange wanted a (progress, address)).2.1 := by
  induction wanted generalizing a progress address with
  | zero => exact h
  | succ wanted ih =>
    simp only [takeRange]
    split
    · next hin =>
      split
      · next hfree =>
        have hmem := ((Pmm.Inv.arena_inv h).mem_iff _).mpr ⟨page_mem_pages (index_lt hin), hfree⟩
        exact ih (h.take hmem) _
      · exact h
    · exact h

/-- Free pages of one arena are taken. -/
theorem Progress.Inv.take_all (pages : List ℕ) (hnodup : pages.Nodup)
    (hpages : ∀ page ∈ pages, page ∈ a.freeList) :
    Progress.Inv limit out (before ++ (takeAll pages a progress).1 :: after)
      (takeAll pages a progress).2 := by
  induction pages generalizing a progress with
  | nil => exact h
  | cons page rest ih =>
    obtain ⟨hnot, hnodup⟩ := nodup_cons.mp hnodup
    refine ih (h.take (hpages page mem_cons_self)) hnodup fun other hother => ?_
    refine (Pmm.Inv.arena_inv h).nodup.mem_erase_iff.mpr
      ⟨?_, hpages other (mem_cons_of_mem _ hother)⟩
    rintro rfl
    exact hnot hother

end

variable (pages : List ℕ) {count : ℕ}

/-- One page is given back. -/
theorem Inv.free_turn (h : Inv limit arenas flags out) (hpage : page ∈ out) (count : ℕ) :
    Inv limit (Walk.walk (freeTurn page) arenas (flags, count)).1
      (Walk.walk (freeTurn page) arenas (flags, count)).2.1 (out.erase page) := by
  obtain ⟨a, ha, hmem⟩ := h.mem_pages page hpage
  obtain ⟨before, after, rfl⟩ := append_of_mem ha
  have hbelongs := belongs_of_mem hmem
  have hskip : ∀ b ∈ before, freeTurn page b (flags, count) = (b, (flags, count), false) := by
    intro b hb
    have hapart := (pairwise_append.mp h.apart).2.2 b hb a mem_cons_self
    simp only [freeTurn, hapart.symm.not_belongs hbelongs, false_eq_true, if_false]
  have hstop : freeTurn page a (flags, count) =
      (a.release page, (clearNonfree flags page, count + 1), true) := by
    simp only [freeTurn, hbelongs, if_true]
  rw [walk_of_skip after hskip hstop]
  exact h.release hmem hpage

/-- `pmm_free` of pages that are handed out. -/
theorem Inv.free_all (count : ℕ) (h : Inv limit arenas flags out) (hnodup : pages.Nodup)
    (hsub : pages ⊆ out) :
    Inv limit (freeAll pages arenas (flags, count)).1 (freeAll pages arenas (flags, count)).2.1
      (out.diff pages) := by
  induction pages generalizing arenas flags out count with
  | nil => exact h
  | cons page rest ih =>
    obtain ⟨hnot, hnodup⟩ := nodup_cons.mp hnodup
    rw [diff_cons]
    refine ih _ (h.free_turn (hsub mem_cons_self) count) hnodup fun other hother => ?_
    refine h.nodup.mem_erase_iff.mpr ⟨?_, hsub (mem_cons_of_mem page hother)⟩
    rintro rfl
    exact hnot hother

/-! ### Runs of pages -/

/-- An arena is found by what only it has. -/
theorem find_of_apart {P : Arena → Bool} (hapart : arenas.Pairwise Apart) (ha : a ∈ arenas)
    (hP : P a = true) (hother : ∀ b, Apart a b → P b = false) : arenas.find? P = some a := by
  obtain ⟨before, after, rfl⟩ := append_of_mem ha
  refine find?_eq_some_iff_append.mpr ⟨hP, before, after, rfl, fun b hb => ?_⟩
  rw [hother b ((pairwise_append.mp hapart).2.2 b hb a mem_cons_self).symm]
  rfl

theorem vm_page_to_paddr_page (hapart : arenas.Pairwise Apart) (ha : a ∈ arenas)
    (hi : i < a.pageCount) : vmPageToPaddr arenas (a.page i) = a.base + i * pageSize := by
  have hbelongs := belongs_of_mem (page_mem_pages hi)
  rw [vmPageToPaddr, find_of_apart hapart ha hbelongs fun b hb => hb.not_belongs hbelongs]
  simp only [pageAddressFromArena, Arena.page, vmPageSize]
  rw [Nat.add_sub_cancel_left, Nat.mul_div_cancel i (by decide), Nat.add_comm]

theorem address_in_arena (hi : i < a.pageCount) :
    addressInArena (a.base + i * pageSize) a = true := by
  have haligned := a.size_aligned
  refine decide_eq_true ?_
  simp only [Arena.pageCount, pageSize] at hi haligned ⊢
  omega

theorem paddr_to_vm_page_base (hapart : arenas.Pairwise Apart) (ha : a ∈ arenas)
    (hi : i < a.pageCount) : paddrToVmPage arenas (a.base + i * pageSize) = some (a.page i) := by
  have hin := address_in_arena hi
  rw [paddrToVmPage, find_of_apart hapart ha hin fun b hb => hb.not_in hin, map_some,
    Nat.add_sub_cancel_left, Nat.mul_div_cancel i (by decide)]

theorem paddr_to_vm_page_of_mem (hapart : arenas.Pairwise Apart) (ha : a ∈ arenas)
    (hpage : page ∈ a.pages) : paddrToVmPage arenas (vmPageToPaddr arenas page) = some page := by
  obtain ⟨i, hi, rfl⟩ := mem_pages_iff.mp hpage
  rw [vm_page_to_paddr_page hapart ha hi, paddr_to_vm_page_base hapart ha hi]

/-- The run that the search finds is inside the page array and free. -/
theorem find_run_spec {alignedOffset : ℕ} {align : BitVec 64} {fuel found : ℕ}
    (h : findRun a flags count alignedOffset align fuel start = some (some found)) :
    found < a.pageCount ∧
      ∀ i < count, found + i < a.pageCount ∧ pageIsFree flags (a.page (found + i)) = true := by
  induction fuel generalizing start with
  | zero => cases h
  | succ fuel ih =>
    simp only [findRun] at h
    split at h
    · next hstart =>
      split at h
      · next hnone =>
        cases h
        refine ⟨hstart.1, fun i hi => ?_⟩
        have hi' := find?_eq_none.mp hnone i (mem_range.mpr hi)
        simpa using hi'
      · split at h
        · cases h
        · exact ih h
    · cases h

theorem search_arena_spec (h : searchArena flags count alignmentLog2 a = some (some start)) :
    a.flags &&& pmmArenaFlagKmap ≠ 0#32 ∧ start < a.pageCount ∧
      ∀ i < count, start + i < a.pageCount ∧ pageIsFree flags (a.page (start + i)) = true := by
  simp only [searchArena] at h
  split at h
  · cases h
  · next hkmap =>
    split at h
    · cases h
    · exact ⟨hkmap, find_run_spec h⟩

theorem take_all_list (a : Arena) (progress : Progress) :
    (takeAll pages a progress).2.list = progress.list ++ pages := by
  induction pages generalizing a progress with
  | nil => exact (append_nil _).symm
  | cons page rest ih =>
    rw [takeAll, ih]
    exact append_assoc _ _ _

theorem take_all_info (a : Arena) (progress : Progress) :
    (takeAll pages a progress).1.toArenaInfo = a.toArenaInfo ∧
      (takeAll pages a progress).1.pageArray = a.pageArray := by
  induction pages generalizing a progress with
  | nil => exact ⟨rfl, rfl⟩
  | cons page rest ih => exact ih (a.take page) (progress.take page)

/-- The pages are `count` pages of one arena, from that of the address on. -/
def IsRun (arenas : List Arena) (pa count : ℕ) (pages : List ℕ) : Prop :=
  ∃ a ∈ arenas, ∃ start, pa = a.base + start * pageSize ∧ start + count ≤ a.pageCount ∧
    pages = (range' start count).map a.page

theorem IsRun.run_pages {pa : ℕ} {count : UInt32} {pages : List ℕ}
    (h : IsRun arenas pa count.toNat pages) (hapart : arenas.Pairwise Apart) :
    runPages arenas pa count = pages := by
  obtain ⟨a, ha, start, rfl, hfits, rfl⟩ := h
  rw [range'_eq_map_range, List.map_map, ← filterMap_eq_map]
  refine filterMap_congr fun i hi => ?_
  have hlt := mem_range.mp hi
  rw [Nat.add_assoc, ← Nat.add_mul, paddr_to_vm_page_base hapart ha (by omega)]
  rfl

/-- If the sum of the uints does not go round, the pages taken are those of the run. -/
theorem run_eq (hstart : start < a.pageCount) (hle : count + a.pageCount ≤ 2 ^ 32) :
    a.run start count = (range' start count).map a.page := by
  rw [Arena.run, Nat.mod_eq_of_lt (by omega), Nat.add_sub_cancel_left]

/-- The run that the search finds in an arena is taken. -/
theorem Progress.Inv.take_run (h : Progress.Inv limit out (before ++ a :: after) progress)
    (hle : a.flags &&& pmmArenaFlagKmap ≠ 0#32 → count + a.pageCount ≤ 2 ^ 32)
    (hsearch : searchArena progress.flags count alignmentLog2 a = some (some start)) :
    Progress.Inv limit out (before ++ (takeAll (a.run start count) a progress).1 :: after)
        (takeAll (a.run start count) a progress).2 ∧
      IsRun ((takeAll (a.run start count) a progress).1 :: after) (a.base + start * pageSize) count
        (a.run start count) := by
  obtain ⟨hkmap, hstart, hfree⟩ := search_arena_spec hsearch
  have hpages := run_eq hstart (hle hkmap)
  have hend : start + count ≤ a.pageCount := by
    by_contra hgt
    have hlast := (hfree (a.pageCount - start) (by omega)).1
    omega
  refine ⟨h.take_all _ ?_ ?_, ?_⟩
  · exact (nodup_range' 1).map (page_injective a)
  · rw [hpages]
    intro page hpage
    obtain ⟨j, hj, rfl⟩ := List.mem_map.mp hpage
    obtain ⟨i, hi, rfl⟩ := mem_range'.mp hj
    rw [Nat.one_mul]
    exact ((Pmm.Inv.arena_inv h).mem_iff _).mpr ⟨page_mem_pages (hfree i hi).1, (hfree i hi).2⟩
  obtain ⟨hinfo, harray⟩ := take_all_info (a.run start count) a progress
  refine ⟨_, mem_cons_self, start, by rw [hinfo], ?_, hpages.trans ?_⟩
  · rw [Arena.pageCount, hinfo]
    exact hend
  · refine map_congr_left fun i _ => ?_
    rw [Arena.page, Arena.page, harray]

/-- The search over the arenas keeps the invariant, and the pages it takes are those of the address
it returns. -/
theorem Progress.Inv.alloc_run {progress' : Progress} {pa : Option ℕ}
    (hfits : ∀ a ∈ arenas, a.flags &&& pmmArenaFlagKmap ≠ 0#32 → count + a.pageCount ≤ 2 ^ 32)
    (h : Progress.Inv limit out (before ++ arenas) progress)
    (hrun : allocRun count alignmentLog2 progress arenas = some (pa, arenas', progress')) :
    Progress.Inv limit out (before ++ arenas') progress' ∧
      ∃ pages, progress'.list = progress.list ++ pages ∧
        (∀ addr ∈ pa, IsRun arenas' addr count pages) ∧ (pa = none → pages = []) := by
  induction arenas generalizing before arenas' with
  | nil =>
    cases hrun
    exact ⟨h, [], (append_nil _).symm, (fun _ haddr => by cases haddr), fun _ => rfl⟩
  | cons a rest ih =>
    unfold allocRun at hrun
    split at hrun
    · cases hrun
    · next start hsearch =>
      obtain ⟨htake, hisRun⟩ := h.take_run (hfits a mem_cons_self) hsearch
      have hlist := take_all_list (a.run start count) a progress
      cases hrun
      refine ⟨htake, a.run start count, hlist, ?_, fun hnone => by cases hnone⟩
      rintro _ ⟨⟩
      exact hisRun
    split at hrun
    · cases hrun
    next pa' rest' progress'' hrest =>
    cases hrun
    have h' : Progress.Inv limit out ((before ++ [a]) ++ rest) progress := by
      rwa [append_assoc, singleton_append]
    obtain ⟨hinv, pages, hlist, haddr, hnone⟩ :=
      ih (forall_mem_cons.mp hfits).2 h' hrest
    rw [append_assoc, singleton_append] at hinv
    refine ⟨hinv, pages, hlist, fun addr hmem => ?_, hnone⟩
    obtain ⟨b, hb, hisRun⟩ := haddr addr hmem
    exact ⟨b, mem_cons_of_mem a hb, hisRun⟩

/-! ### A new arena -/

theorem foldl_add_page (a : Arena) :
    pages.foldl Arena.addPage a = { a with
      freeList := a.freeList ++ pages, freeCount := a.freeCount + pages.length } := by
  induction pages generalizing a with
  | nil => simp
  | cons page rest ih =>
    rw [foldl_cons, ih]
    simp only [Arena.addPage, append_assoc, singleton_append, length_cons]
    rw [Nat.add_assoc, Nat.add_comm 1]

theorem page_is_free_zero_pages (hpage : page ∈ a.pages) :
    pageIsFree (a.zeroPages flags) page = true := by
  have hzero : a.zeroPages flags page = 0#8 := if_pos (belongs_of_mem hpage)
  rw [pageIsFree, hzero]
  rfl

/-- The pages of an arena without pages in its list are added to it. -/
theorem add_pages_eq (hcount : a.freeCount = 0) (hlist : a.freeList = []) :
    a.addPages = { a with freeList := a.pages, freeCount := a.pages.length } := by
  rw [Arena.addPages, foldl_add_page, hcount, hlist, Nat.zero_add, nil_append]

theorem arena_inv_add_pages :
    ArenaInv (a.zeroPages flags) { a with freeList := a.pages, freeCount := a.pages.length } :=
  ⟨nodup_pages a, fun _ => ⟨fun hpage => ⟨hpage, page_is_free_zero_pages hpage⟩, And.left⟩, rfl⟩

theorem add_by_priority_perm (a : Arena) (arenas : List Arena) :
    (addByPriority a arenas).Perm (a :: arenas) := by
  induction arenas with
  | nil => exact .refl _
  | cons b rest ih =>
    unfold addByPriority
    split
    · exact .refl _
    · exact (ih.cons b).trans (.swap a b rest)

/-- The order of the arenas does not matter. -/
theorem Inv.perm (h : Inv limit arenas flags out) (hperm : arenas'.Perm arenas) :
    Inv limit arenas' flags out where
  __ := h
  apart := (hperm.pairwise_iff Apart.symm).mpr h.apart
  below b hb := h.below b (hperm.mem_iff.mp hb)
  arena b hb := h.arena b (hperm.mem_iff.mp hb)
  mem_pages page hpage := by
    obtain ⟨b, hb, hmem⟩ := h.mem_pages page hpage
    exact ⟨b, hperm.mem_iff.mpr hb, hmem⟩

theorem le_align8 (x : ℕ) : x ≤ align8 x := by
  unfold align8
  omega

/-- An arena whose page array is above the limit and whose pages are all free. -/
theorem Inv.cons {limit' : ℕ} (h : Inv limit arenas flags out)
    (hinv : ArenaInv flags' a) (harray : limit ≤ a.pageArray)
    (hlimit : a.pageArray + a.pageCount * vmPageSize ≤ limit')
    (hbase : ∀ b ∈ arenas, a.base + a.size ≤ b.base ∨ b.base + b.size ≤ a.base)
    (hflags : ∀ page, pageBelongsToArena page a = false →
      pageIsFree flags' page = pageIsFree flags page) : Inv limit' (a :: arenas) flags' out := by
  have hapart : ∀ b ∈ arenas, Apart a b := fun b hb =>
    ⟨.inr ((h.below b hb).trans harray), hbase b hb⟩
  have hold : ∀ b ∈ arenas, ∀ page ∈ b.pages, pageIsFree flags' page = pageIsFree flags page :=
    fun b hb page hpage => hflags page ((hapart b hb).symm.not_belongs (belongs_of_mem hpage))
  refine ⟨pairwise_cons.mpr ⟨hapart, h.apart⟩, ?_, ?_, h.nodup, ?_, ?_⟩
  · refine forall_mem_cons.mpr ⟨hlimit, fun b hb => ?_⟩
    have hbelow := h.below b hb
    omega
  · exact forall_mem_cons.mpr ⟨hinv, fun b hb => (h.arena b hb).congr (hold b hb)⟩
  · intro page hpage
    obtain ⟨b, hb, hmem⟩ := h.mem_pages page hpage
    exact ⟨b, mem_cons_of_mem a hb, hmem⟩
  · intro page hpage
    obtain ⟨b, hb, hmem⟩ := h.mem_pages page hpage
    rw [hold b hb page hmem]
    exact h.marked page hpage

end Steps

/-! ## The calls -/

/-- The invariant of a system. -/
def System.Inv (s : System) : Prop :=
  Pmm.Inv s.pmm.bootAllocEnd s.pmm.arenas s.pmm.flags s.outstanding

section Calls

variable {s : System}

theorem System.Inv.add_arena (h : s.Inv) {info : ArenaInfo} {pmm : State}
    (hbase : ∀ a ∈ s.pmm.arenas, a.base + a.size ≤ info.base ∨ info.base + info.size ≤ a.base)
    (hadd : pmmAddArena s.pmm info = some pmm) : System.Inv { s with pmm := pmm } := by
  obtain ⟨hfits, ⟨⟩⟩ := dite_none_right_eq_some.mp hadd
  set arena : Arena := ⟨info, _, hfits, 0, []⟩
  refine Pmm.Inv.perm ?_ (add_by_priority_perm _ _)
  rw [add_pages_eq (a := arena) rfl rfl]
  refine Pmm.Inv.cons h arena_inv_add_pages (le_align8 _) ?_
    (fun b hb => (hbase b hb).symm) fun page hpage => ?_
  · exact Nat.add_le_add_left (le_align8 _) _
  have hflags : arena.zeroPages s.pmm.flags page = s.pmm.flags page :=
    if_neg (eq_false_iff.mp hpage)
  show pageIsFree (arena.zeroPages s.pmm.flags) page = _
  rw [pageIsFree, hflags]
  rfl

/-- No page is taken yet. -/
theorem System.Inv.start (h : s.Inv) :
    Progress.Inv s.pmm.bootAllocEnd s.outstanding ([] ++ s.pmm.arenas) ⟨s.pmm.flags, []⟩ := by
  rw [Progress.Inv, append_nil]
  exact h

/-- A walk over the arenas that takes pages. -/
theorem System.Inv.walk (h : s.Inv) {σ : Type} {turn : Arena → σ → Arena × σ × Bool}
    (view : σ → Progress) {state : σ} (hstate : view state = ⟨s.pmm.flags, []⟩)
    (hturn : ∀ before a after state,
      Progress.Inv s.pmm.bootAllocEnd s.outstanding (before ++ a :: after) (view state) →
      Progress.Inv s.pmm.bootAllocEnd s.outstanding (before ++ (turn a state).1 :: after)
        (view (turn a state).2.1)) :
    Progress.Inv s.pmm.bootAllocEnd s.outstanding (Walk.walk turn s.pmm.arenas state).1
      (view (Walk.walk turn s.pmm.arenas state).2) := by
  refine walk_induction (P := fun arenas state =>
    Progress.Inv s.pmm.bootAllocEnd s.outstanding arenas (view state)) hturn [] s.pmm.arenas
      state ?_
  rw [hstate]
  exact h.start

theorem System.Inv.alloc_pages (h : s.Inv) (count : UInt32) :
    System.Inv ⟨(pmmAllocPages s.pmm count).2, s.outstanding ++ (pmmAllocPages s.pmm count).1⟩ :=
  h.walk id rfl fun _ _ _ _ hinv => hinv.pop_pages _

theorem System.Inv.alloc_range (h : s.Inv) (address : BitVec 64) (count : UInt32) :
    System.Inv ⟨(pmmAllocRange s.pmm address count).2,
      s.outstanding ++ (pmmAllocRange s.pmm address count).1⟩ :=
  h.walk Prod.fst rfl fun _ _ _ state hinv => hinv.take_range _ state.2

theorem length_pop_pages_le (wanted : ℕ) (a : Arena) (progress : Progress) :
    (popPages wanted a progress).2.1.list.length ≤ progress.list.length + wanted := by
  induction wanted generalizing a progress with
  | zero => exact le_refl _
  | succ wanted ih =>
    unfold popPages
    split
    · exact Nat.le_add_right _ _
    split
    · exact Nat.le_add_right _ _
    next page rest _ =>
    refine (ih _ _).trans ?_
    show (progress.list ++ [page]).length + wanted ≤ _
    rw [length_append, length_singleton]
    omega

theorem length_alloc_pages_le (pmm : State) (count : UInt32) :
    (pmmAllocPages pmm count).1.length ≤ count.toNat := by
  refine walk_induction (P := fun _ (progress : Progress) => progress.list.length ≤ count.toNat)
    ?_ [] pmm.arenas ⟨pmm.flags, []⟩ (Nat.zero_le _)
  intro _ a _ progress hle
  have hpop := length_pop_pages_le (count.toNat - progress.list.length) a progress
  omega

theorem System.Inv.alloc_page (h : s.Inv) :
    System.Inv ⟨(pmmAllocPage s.pmm).2, s.outstanding ++ (pmmAllocPage s.pmm).1.toList⟩ := by
  have hlength := length_alloc_pages_le s.pmm 1
  have hinv := h.alloc_pages 1
  unfold pmmAllocPage
  generalize pmmAllocPages s.pmm 1 = result at hlength hinv ⊢
  obtain ⟨list, pmm⟩ := result
  match list, hlength with
  | [], _ => exact hinv
  | [page], _ => exact hinv

theorem System.Inv.alloc_contiguous (h : s.Inv) {count : UInt32} {alignmentLog2 : UInt8}
    (hfits : CountFits s count) {result : Contiguous} {pmm : State}
    (hcall : pmmAllocContiguous s.pmm count alignmentLog2 = some (result, pmm)) :
    (s.handOutRun count (result.pa, pmm)).Inv := by
  unfold pmmAllocContiguous at hcall
  split at hcall
  · cases hcall
    simpa [System.handOutRun] using h
  dsimp only at hcall
  split at hcall
  · cases hcall
  next pa arenas progress hrun =>
  obtain ⟨hinv, pages, hlist, haddr, hnone⟩ := h.start.alloc_run hfits hrun
  cases hcall
  rw [Progress.Inv, hlist] at hinv
  cases pa with
  | none =>
    rw [hnone rfl] at hinv
    exact hinv
  | some addr =>
    have hpages := (haddr addr rfl).run_pages hinv.apart
    show Pmm.Inv _ _ _ (s.outstanding ++ runPages arenas addr count)
    rw [hpages]
    exact hinv

theorem System.Inv.alloc_kpages (h : s.Inv) {count : UInt32}
    (hfits : count ≠ 1 → CountFits s count) {result : Option ℕ × State}
    (hcall : allocKpages s.pmm count = some result) : (s.handOutRun count result).Inv := by
  simp only [allocKpages] at hcall
  split at hcall
  · next hone =>
    cases hcall
    have hinv := h.alloc_page
    generalize pmmAllocPage s.pmm = found at hinv
    obtain ⟨page, pmm⟩ := found
    cases page with
    | none => exact hinv
    | some page =>
      obtain ⟨a, ha, hmem⟩ := Pmm.Inv.mem_pages hinv page (by simp)
      have hpage := paddr_to_vm_page_of_mem hinv.apart ha hmem
      have hrun : runPages pmm.arenas (vmPageToPaddr pmm.arenas page) count = [page] := by
        rw [hone]
        show ((range 1).filterMap fun i => _) = [page]
        simp [hpage]
      show Pmm.Inv _ _ _ (s.outstanding ++ runPages pmm.arenas _ count)
      rw [hrun]
      exact hinv
  · next hne =>
    split at hcall
    · cases hcall
    · next hcontiguous =>
      cases hcall
      exact h.alloc_contiguous (hfits hne) hcontiguous

theorem System.Inv.give_back (h : s.Inv) {pages : List ℕ} (hnodup : pages.Nodup)
    (hsub : pages ⊆ s.outstanding) : (s.giveBack pages).Inv :=
  Pmm.Inv.free_all pages 0 h hnodup hsub

theorem System.Inv.step (h : s.Inv) {action : Action} {next : System} (hallowed : Allowed s action)
    (hrange : InRange s action) (hstep : Pmm.step s action = some next) : next.Inv := by
  cases action with
  | addArena info =>
    obtain ⟨pmm, hadd, rfl⟩ := map_eq_some_iff.mp hstep
    exact h.add_arena hallowed hadd
  | allocPages count =>
    cases hstep
    exact h.alloc_pages count
  | allocPage =>
    cases hstep
    exact h.alloc_page
  | allocRange address count =>
    cases hstep
    exact h.alloc_range address count
  | allocContiguous count alignmentLog2 =>
    obtain ⟨result, hcall, rfl⟩ := map_eq_some_iff.mp hstep
    exact h.alloc_contiguous hrange hcall
  | allocKpages count =>
    obtain ⟨result, hcall, rfl⟩ := map_eq_some_iff.mp hstep
    exact h.alloc_kpages hrange hcall
  | freePage page =>
    cases hstep
    exact h.give_back (nodup_singleton page) (cons_subset.mpr ⟨hallowed, nil_subset _⟩)
  | free list | freeKpages vaddrToPaddr ptr count =>
    cases hstep
    exact h.give_back hallowed.1 hallowed.2

end Calls

section

variable {bootAllocStart : ℕ}
  (h : Reachable bootAllocStart (fun s action => Allowed s action ∧ InRange s action) s)
include h

theorem Reachable.inv : s.Inv := by
  refine Transition.Reachable.invariant_from ?_ (fun hinv hguard => hinv.step hguard.1 hguard.2) h
  exact ⟨.nil, by simp [initial], by simp [initial], nodup_nil, by simp [initial],
    by simp [initial]⟩

/-! ## Conservation -/

/-- In every run with arenas that do not overlap, in which only pages that are handed out are freed
and no count goes round, a page is in the free list of its arena exactly when it is not marked, the
count of the arena is the length of the list, no page is handed out again before it is freed, and
the two translations between pages and addresses are inverse to each other. -/
theorem pages_conserved :
    (∀ a ∈ s.pmm.arenas,
      (∀ page ∈ a.freeList, page ∈ a.pages) ∧
      (∀ page ∈ a.pages, page ∈ a.freeList ↔ pageIsFree s.pmm.flags page = true) ∧
      a.freeCount = a.freeList.length ∧
      (∀ page ∈ a.pages, paddrToVmPage s.pmm.arenas (vmPageToPaddr s.pmm.arenas page) = some page) ∧
      ∀ i < a.pageCount, ∃ page ∈ a.pages,
        paddrToVmPage s.pmm.arenas (a.base + i * pageSize) = some page ∧
        vmPageToPaddr s.pmm.arenas page = a.base + i * pageSize) ∧
    s.outstanding.Nodup := by
  have hinv := h.inv
  refine ⟨fun a ha => ?_, hinv.nodup⟩
  have hmem := (hinv.arena a ha).mem_iff
  refine ⟨fun page hpage => ((hmem page).mp hpage).1, fun page hpage => ?_, (hinv.arena a ha).count,
    fun page hpage => paddr_to_vm_page_of_mem hinv.apart ha hpage, fun i hi => ?_⟩
  · rw [hmem page]
    exact and_iff_right hpage
  · exact ⟨a.page i, page_mem_pages hi, paddr_to_vm_page_base hinv.apart ha hi,
      vm_page_to_paddr_page hinv.apart ha hi⟩

end

/-- Two arenas, of which the first in the list is not mapped. A page of that one and a run of the
other are taken and the page is given back, then the rest of the run's arena is taken as a range,
and a page for the kernel. -/
theorem pages_conserved_two_arenas :
    ∃ s : System, Reachable 0x100000 (fun s action => Allowed s action ∧ InRange s action) s ∧
      s.outstanding = [0x100018, 0x100030, 0x100048, 0x100060] ∧
      (∀ a ∈ s.pmm.arenas, a.freeCount = a.freeList.length) ∧ s.outstanding.Nodup := by
  let mapped : ArenaInfo := ⟨pmmArenaFlagKmap, 10, 0x1000, 0x4000, rfl, rfl, by decide, by decide⟩
  let other : ArenaInfo := ⟨0#32, 5, 0x80000000, 0x2000, rfl, rfl, by decide, by decide⟩
  obtain ⟨s, hreach, hout⟩ := Transition.exists_reachable step
    (fun s action => Allowed s action ∧ InRange s action) (initial 0x100000)
    (P := fun s => s.outstanding = [0x100018, 0x100030, 0x100048, 0x100060])
    [.addArena mapped, .addArena other, .allocPages 1, .allocContiguous 2 13, .freePage 0x100060,
      .allocRange 0x4fff 3, .allocKpages 1] (by decide) (by decide)
  have hconserved := pages_conserved hreach
  exact ⟨s, hreach, hout, fun a ha => (hconserved.1 a ha).2.2.1, hconserved.2⟩

/-! ## Counts that go round -/

section GoesRound

variable {a : Arena} {flags : Flags} {count start : ℕ}

/-- The search stops at the first start if the pages from there on are free. -/
theorem find_run_of_free (hstart : start < a.pageCount)
    (hsum : (start + count) % 2 ^ 32 ≤ a.pageCount)
    (hfree : ∀ i < count, start + i < a.pageCount ∧ pageIsFree flags (a.page (start + i)) = true)
    (alignedOffset : ℕ) (align : BitVec 64) (fuel : ℕ) :
    findRun a flags count alignedOffset align (fuel + 1) start = some (some start) := by
  have hnone : (range count).find? (fun i => decide (a.pageCount ≤ start + i ∨
      pageIsFree flags (a.page (start + i)) = false)) = none := by
    refine find?_eq_none.mpr fun i hi => ?_
    have hi' := hfree i (mem_range.mp hi)
    simpa using hi'
  rw [findRun, if_pos ⟨hstart, hsum⟩, hnone]

/-- If the sum of the start and the count goes round, the run is returned and none of its pages is
taken. -/
theorem alloc_run_of_wrap {alignmentLog2 : ℕ} {progress : Progress}
    (hsearch : searchArena progress.flags count alignmentLog2 a = some (some start))
    (hwrap : (start + count) % 2 ^ 32 ≤ start) (rest : List Arena) :
    allocRun count alignmentLog2 progress (a :: rest) =
      some (some (a.base + start * pageSize), a :: rest, progress) := by
  have hrun : a.run start count = [] := by
    rw [Arena.run, Nat.sub_eq_zero_of_le hwrap]
    rfl
  simp only [allocRun, hsearch, hrun, takeAll]

/-- A mapped arena of `2 ^ 32` pages, from the second page of memory on. -/
def largeArena : ArenaInfo :=
  ⟨pmmArenaFlagKmap, 0, 0x1000, 2 ^ 44, by decide, by decide, by decide, by decide⟩

/-- In the large arena with all pages free, `2 ^ 32 - 1` pages with an alignment of two pages are
found from the second page on. -/
theorem search_large_arena (hinfo : a.toArenaInfo = largeArena)
    (hfree : ∀ page ∈ a.pages, pageIsFree flags page = true) :
    searchArena flags (2 ^ 32 - 1) 13 a = some (some 1) := by
  have hcount : a.pageCount = 2 ^ 32 := by
    rw [Arena.pageCount, hinfo]
    rfl
  have hrounded : (Word.roundup (BitVec.ofNat 64 a.base) (1#64 <<< 13)).toNat = 0x2000 := by
    rw [hinfo]
    decide
  have hrun : ∀ i < 2 ^ 32 - 1, 1 + i < a.pageCount ∧ pageIsFree flags (a.page (1 + i)) = true := by
    intro i hi
    have hlt : 1 + i < a.pageCount := by omega
    exact ⟨hlt, hfree _ (page_mem_pages hlt)⟩
  have hkmap : ¬ a.flags &&& pmmArenaFlagKmap = 0#32 := by
    rw [hinfo]
    decide
  have hinside : ¬ (0x2000 < a.base ∨ a.base + a.size - 1 < 0x2000) := by
    rw [hinfo]
    decide
  have hoffset : (0x2000 - a.base) / pageSize % 2 ^ 32 = 1 := by
    rw [hinfo]
    decide
  simp only [searchArena, hrounded, if_neg hkmap, if_neg hinside, hoffset]
  exact find_run_of_free (by omega) (by omega) hrun _ _ _

end GoesRound

section LargeArena

variable {bootAllocStart : ℕ} {pmm : State} {a : Arena} {count : UInt32}

/-- A call that returns a run from the second page of the large arena on and takes nothing. -/
theorem step_large_arena (harenas : pmm.arenas = [a]) (hinfo : a.toArenaInfo = largeArena)
    (hfree : ∀ page ∈ a.pages, pageIsFree pmm.flags page = true)
    (hcount : count.toNat = 2 ^ 32 - 1) (out : List ℕ) :
    step ⟨pmm, out⟩ (.allocContiguous count 13) =
      some ⟨pmm, out ++ runPages pmm.arenas (a.base + 1 * pageSize) count⟩ := by
  have hsearch : searchArena (Progress.mk pmm.flags []).flags count.toNat 13 a = some (some 1) := by
    rw [hcount]
    exact search_large_arena hinfo hfree
  have hrun := alloc_run_of_wrap hsearch (by rw [hcount]; decide) []
  have hne : ¬ count = 0 := by
    rintro rfl
    cases hcount
  have halign : ¬ UInt8.toNat 13 < pageSizeShift := by decide
  have hcall : pmmAllocContiguous pmm count 13 =
      some (⟨some (a.base + 1 * pageSize), []⟩, pmm) := by
    simp only [pmmAllocContiguous, if_neg hne, if_neg halign, harenas]
    rw [show UInt8.toNat 13 = 13 from rfl, hrun, ← harenas]
  simp only [step, hcall, map_some, System.handOutRun, elim_some]

/-- Two such calls return the same pages. -/
theorem not_nodup_of_large_arena (h : Reachable bootAllocStart Allowed ⟨pmm, []⟩)
    (harenas : pmm.arenas = [a]) (hinfo : a.toArenaInfo = largeArena)
    (hfree : ∀ page ∈ a.pages, pageIsFree pmm.flags page = true)
    (hcount : count.toNat = 2 ^ 32 - 1) :
    ∃ s : System, Reachable bootAllocStart Allowed s ∧ ¬ s.outstanding.Nodup := by
  have hcall := step_large_arena harenas hinfo hfree hcount
  have hfirst : Reachable bootAllocStart Allowed _ :=
    h.step (show Allowed _ (.allocContiguous count 13) from trivial) (hcall _)
  have hsecond : Reachable bootAllocStart Allowed _ :=
    hfirst.step (show Allowed _ (.allocContiguous count 13) from trivial) (hcall _)
  refine ⟨_, hsecond, fun hnodup => ?_⟩
  have hlt : 1 < a.pageCount := by
    rw [Arena.pageCount, hinfo]
    decide
  have hapart : pmm.arenas.Pairwise Apart := by
    rw [harenas]
    exact pairwise_singleton _ _
  have ha : a ∈ pmm.arenas := by
    rw [harenas]
    exact mem_singleton_self a
  have hmem : a.page 1 ∈ runPages pmm.arenas (a.base + 1 * pageSize) count := by
    refine mem_filterMap.mpr ⟨0, mem_range.mpr (by omega), ?_⟩
    rw [Nat.zero_mul, Nat.add_zero, paddr_to_vm_page_base hapart ha hlt]
  exact (nodup_append.mp hnodup).2.2 _ (mem_append_right [] hmem) _ hmem rfl

end LargeArena

/-- A new arena is first in an empty list, with all its pages free. -/
theorem pmm_add_arena_first (s : State) (info : ArenaInfo) (harenas : s.arenas = [])
    (hfits : (bootAllocMem s.bootAllocEnd (info.size / pageSize * vmPageSize)).1 +
      info.size / pageSize * vmPageSize < 2 ^ 64) :
    ∃ pmm a, pmmAddArena s info = some pmm ∧ pmm.arenas = [a] ∧ a.toArenaInfo = info ∧
      ∀ page ∈ a.pages, pageIsFree pmm.flags page = true := by
  simp only [pmmAddArena, dif_pos hfits, harenas, addByPriority]
  refine ⟨_, _, rfl, rfl, ?_⟩
  rw [add_pages_eq rfl rfl]
  exact ⟨rfl, fun page hpage => page_is_free_zero_pages hpage⟩

/-- The large arena is added, and then two calls ask for `2 ^ 32 - 1` pages with an alignment of two
pages. The sum of the start and the count is zero: both calls return the address of the same run,
and neither takes its pages. -/
theorem handed_out_twice :
    ∃ s : System, Reachable 0x100000 Allowed s ∧ ¬ s.outstanding.Nodup := by
  obtain ⟨pmm, a, hadd, harenas, hinfo, hfree⟩ :=
    pmm_add_arena_first (initial 0x100000).pmm largeArena rfl (by decide)
  have hstep : step (initial 0x100000) (.addArena largeArena) = some ⟨pmm, []⟩ := by
    rw [step, hadd]
    rfl
  have hallowed : Allowed (initial 0x100000) (.addArena largeArena) :=
    forall_mem_nil _
  have hreach : Reachable 0x100000 Allowed ⟨pmm, []⟩ :=
    Transition.Reachable.step (.init rfl) hallowed hstep
  exact not_nodup_of_large_arena hreach harenas hinfo hfree
    (show UInt32.toNat 0xffffffff = 2 ^ 32 - 1 by decide)

end NusaKernel.Pmm
