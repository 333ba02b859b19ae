import NusaKernel.Vm.Novm

/-!
# Ownership of pages without virtual memory

The allocations of `kernel/novm/novm.c` that are outstanding are recorded next to the arenas, as
spans of page numbers, and so is the memory that the arenas were made of. In every run in which each
arena has a page boundary and ends below the largest address, `novm_alloc_specific_pages` is not
asked for pages beyond an arena and `novm_alloc_unaligned` is called when there is no unaligned
area, the map of an arena marks exactly the pages that are in an outstanding allocation, and these
are apart and inside one arena each.

`novm_alloc_specific_pages` itself does not test that the pages it is asked for are in the arena.
-/

namespace NusaKernel.Novm

open Span Walk Word List Option Transition

/-! ## Runs -/

/-- The arenas, the outstanding allocations of pages as spans of page numbers, the unaligned areas
handed out, and the memory given to the allocator. -/
structure System where
  arenas : List Arena
  outstanding : List Span
  areas : List Span
  memory : List Span

/-- A call. -/
inductive Action where
  | addArena (arenaStart arenaSize : ℕ)
  | init (memBase memSize : ℕ)
  | allocPages (pages : ℕ) (arenaBitmap : BitVec 32)
  | allocUnaligned
  | freePages (address pages : ℕ)
  | allocSpecificPages (address pages : ℕ)

/-- The pages from that of an address on. -/
def pageSpan (address pages : ℕ) : Span := ⟨address / pageSize, pages⟩

/-- The state after an allocation of pages, if it was successful. -/
def System.handOut (s : System) (arenas : List Arena) (result : Option ℕ) (pages : ℕ) : System :=
  { s with
    arenas := arenas
    outstanding := (result.map fun address => pageSpan address pages).toList ++ s.outstanding }

variable (endOfKernel : ℕ) {memory : ℕ × ℕ}

/-- One call. -/
def step (s : System) : Action → Option System
  | .addArena arenaStart arenaSize =>
    (novmAddArena endOfKernel arenaStart arenaSize s.arenas).map fun arenas =>
      { s with arenas := arenas, memory := ⟨arenaStart, arenaSize⟩ :: s.memory }
  | .init memBase memSize =>
    some { s with
      arenas := novmInit endOfKernel memBase memSize s.arenas
      memory := ⟨endOfKernel, memBase + memSize - endOfKernel⟩ :: s.memory }
  | .allocPages pages arenaBitmap =>
    let (result, arenas) := novmAllocPages s.arenas pages arenaBitmap
    some (s.handOut arenas result pages)
  | .allocUnaligned =>
    let (result, _, arenas) := novmAllocUnaligned s.arenas
    match s.arenas.head?.bind Arena.unaligned with
    | some (area, size) => some { s with arenas := arenas, areas := ⟨area, size⟩ :: s.areas }
    | none => some (s.handOut arenas result 1)
  | .freePages address pages =>
    some { s with
      arenas := novmFreePages s.arenas address pages
      outstanding := s.outstanding.erase (pageSpan address pages) }
  | .allocSpecificPages address pages =>
    (novmAllocSpecificPages s.arenas address pages).map fun (err, arenas) =>
      s.handOut arenas (if err = noError then some address else none) pages

/-- No arena is set up. -/
def initial (maxArenas : ℕ) : System := ⟨replicate maxArenas Arena.empty, [], [], []⟩

/-- The memory of a new arena does not go round and is apart from that of the others. -/
def NewMemory (s : System) (start size : ℕ) : Prop :=
  start + size ≤ 2 ^ 64 ∧ ∀ r ∈ s.memory, r.start + r.len ≤ start ∨ start + size ≤ r.start

/-- The arenas are made of different memory, the default arena is the first to be set up in its
place and begins above address zero, and pages are freed as they were allocated. -/
def Allowed (s : System) : Action → Prop
  | .addArena arenaStart arenaSize => NewMemory s arenaStart arenaSize
  | .init memBase memSize =>
    NewMemory s endOfKernel (memBase + memSize - endOfKernel) ∧ 0 < endOfKernel ∧
      ∀ a ∈ s.arenas.head?, a.pages = 0
  | .freePages address pages => pageSpan address pages ∈ s.outstanding
  | _ => True

/-- The memory has a page boundary and ends below the largest address. -/
def Proper (memory : ℕ × ℕ) : Prop :=
  (memory.1 + 4095) / 4096 * 4096 ≤ memory.1 + memory.2 ∧ memory.1 + memory.2 < 2 ^ 64

/-- The arenas are proper, no pages beyond an arena are asked for, and no unaligned area is handed
out. -/
def InRange (s : System) : Action → Prop
  | .addArena arenaStart arenaSize => Proper (trimKernel endOfKernel arenaStart arenaSize)
  | .init memBase memSize => Proper (endOfKernel, memBase + memSize - endOfKernel)
  | .allocUnaligned => ∀ a ∈ s.arenas.head?, a.unaligned = none
  | .allocSpecificPages address pages =>
    ∀ a ∈ s.arenas, inArena a address = true → a.index address + pages ≤ a.pages
  | _ => True

/-- `Allowed` can be checked along a run. -/
instance (s : System) (action : Action) : Decidable (Allowed endOfKernel s action) := by
  cases action <;> unfold Allowed <;> try unfold NewMemory
  all_goals infer_instance

/-- `InRange` can be checked along a run. -/
instance (s : System) (action : Action) : Decidable (InRange endOfKernel s action) := by
  cases action <;> unfold InRange <;> try unfold Proper
  all_goals infer_instance

/-- The systems reached by calls that a guard admits. -/
def Reachable (maxArenas : ℕ) (guard : System → Action → Prop) : System → Prop :=
  Transition.Reachable (step endOfKernel) guard (· = initial maxArenas)

/-! ## Setting up -/

/-- Whole pages between two addresses. -/
structure Extent.Ok (lower upper : ℕ) (e : Extent) : Prop where
  size_eq : e.size = e.mapSize * pageSize
  aligned : e.start % pageSize = 0
  lower_le : lower ≤ e.start
  le_upper : e.start + e.size ≤ upper

theorem whole_pages_ok (h : Proper memory) :
    (wholePages memory.1 memory.2).Ok memory.1 (memory.1 + memory.2) := by
  obtain ⟨start, size⟩ := memory
  obtain ⟨hboundary, hend⟩ := h
  have hstart : roundup64 start pageSize = (start + 4095) / 4096 * 4096 := by
    unfold roundup64 pageSize
    omega
  have hstop : rounddown64 ((start + size) % 2 ^ 64) pageSize = (start + size) / 4096 * 4096 := by
    unfold rounddown64 pageSize
    omega
  have hsize : (wholePages start size).size =
      (start + size) / 4096 * 4096 - (start + 4095) / 4096 * 4096 := by
    show sub64 (rounddown64 ((start + size) % 2 ^ 64) pageSize) (roundup64 start pageSize) = _
    rw [hstart, hstop, sub64_of_le (by omega) (by omega)]
  refine ⟨?_, ?_, ?_, ?_⟩
  · show _ = (wholePages start size).size / pageSize * pageSize
    rw [hsize, pageSize]
    omega
  · show roundup64 start pageSize % pageSize = 0
    rw [hstart, pageSize]
    omega
  · show start ≤ roundup64 start pageSize
    omega
  · show roundup64 start pageSize + (wholePages start size).size ≤ start + size
    omega

/-- Grabbing pages for the map leaves whole pages, with the map in front of them. -/
theorem grow_map_ok {lower upper mapSize start size : ℕ}
    (h : Extent.Ok lower upper ⟨start, size, mapSize⟩) (hupper : upper < 2 ^ 64) :
    (growMap lower mapSize start size).Ok lower upper ∧
      ((growMap lower mapSize start size).mapSize = 0 ∨
        lower + (growMap lower mapSize start size).mapSize ≤
          (growMap lower mapSize start size).start) := by
  induction mapSize generalizing start size with
  | zero => exact ⟨h, .inl rfl⟩
  | succ mapSize ih =>
    obtain ⟨hsize, haligned, hlower, hle⟩ := h
    dsimp only at hsize haligned hlower hle
    have hsub : sub64 start lower = start - lower := sub64_of_le hlower (by omega)
    unfold growMap
    split
    · have hnext : (start + pageSize) % 2 ^ 64 = start + pageSize :=
        Nat.mod_eq_of_lt (by simp only [pageSize] at hsize ⊢; omega)
      have hrest : sub64 size pageSize = size - pageSize :=
        sub64_of_le (by simp only [pageSize] at hsize ⊢; omega) (by omega)
      rw [hnext, hrest]
      refine ih ⟨?_, ?_, ?_, ?_⟩
      · simp only [pageSize] at hsize ⊢
        omega
      · simp only [pageSize] at haligned ⊢
        omega
      · show lower ≤ start + pageSize
        omega
      · simp only [pageSize] at hsize ⊢
        omega
    · next hfits =>
      refine ⟨⟨hsize, haligned, hlower, hle⟩, .inr ?_⟩
      show lower + (mapSize + 1) ≤ start
      omega

/-- The number of the first page of an arena. -/
def Arena.first (a : Arena) : ℕ := a.base / pageSize

/-- The pages of an arena, as a range of addresses that does not go round. No page is at address
zero. -/
structure Shape (a : Arena) : Prop where
  size_eq : a.size = a.pages * pageSize
  aligned : a.base % pageSize = 0
  fits : a.base + a.size < 2 ^ 64
  base_pos : 0 < a.pages → 0 < a.base

/-- A new arena has its pages and its unaligned area in its memory, the area before the pages, and
no page in use. -/
structure Fresh (memory : ℕ × ℕ) (old a : Arena) : Prop where
  shape : Shape a
  lower_le : memory.1 ≤ a.base
  le_upper : a.base + a.size ≤ memory.1 + memory.2
  free : ∀ i, a.map i = false
  unaligned : ∀ area ∈ a.unaligned, area ∈ old.unaligned ∨
    memory.1 ≤ area.1 ∧ area.1 + area.2 ≤ a.base

theorem fresh_init_helper (h : Proper memory) (n : Arena) (defaultMap : Option ℕ)
    (hpos : defaultMap ≠ none → 0 < memory.1) :
    Fresh memory n (novmInitHelper n memory.1 memory.2 defaultMap) := by
  have hwhole := whole_pages_ok h
  have hend := h.2
  unfold novmInitHelper
  dsimp only
  split
  · next defaultMapSize hmap =>
    have hpos' := hpos fun hnone => by rw [hnone] at hmap; cases hmap
    have hlower := hwhole.lower_le
    have hupper := hwhole.le_upper
    have hsub := sub64_of_le hlower (by omega)
    refine ⟨⟨hwhole.size_eq, hwhole.aligned, hupper.trans_lt hend, fun _ => hpos'.trans_le hlower⟩,
      hlower, hupper, fun _ => rfl, fun area harea => ?_⟩
    split at harea
    · cases harea
      refine .inr ⟨le_refl _, ?_⟩
      rw [hsub]
      exact (Nat.add_sub_cancel' hlower).le
    · exact .inl harea
  · obtain ⟨hrest, hmap⟩ := grow_map_ok hwhole hend
    have hlower := hrest.lower_le
    have hupper := hrest.le_upper
    refine ⟨⟨hrest.size_eq, hrest.aligned, hupper.trans_lt hend, fun hpages => ?_⟩, hlower, hupper,
      fun _ => rfl, fun area harea => ?_⟩
    · rcases hmap with hmap | hmap
      · exact absurd hmap hpages.ne'
      · exact (Nat.lt_of_lt_of_le hpages ((Nat.le_add_left _ _).trans hmap))
    split at harea
    · next hroom =>
      cases harea
      refine .inr ⟨Nat.le_add_right _ _, ?_⟩
      exact (Nat.add_sub_cancel' ((Nat.le_add_right _ _).trans hroom)).le
    · exact .inl harea

/-! ## The invariant -/

/-- The pages of two arenas are apart. -/
def Arena.Apart (a b : Arena) : Prop :=
  a.pages = 0 ∨ b.pages = 0 ∨ a.base + a.size ≤ b.base ∨ b.base + b.size ≤ a.base

theorem Arena.Apart.symm {a b : Arena} (h : a.Apart b) : b.Apart a := by
  unfold Arena.Apart at h ⊢
  omega

/-- A span of pages begins and ends in an arena. -/
def Arena.Contains (a : Arena) (span : Span) : Prop :=
  a.first ≤ span.start ∧ span.start < a.first + a.pages ∧ span.start + span.len ≤ a.first + a.pages
deriving Decidable

/-- The range is in one piece of the memory. -/
def InMemory (memory : List Span) (start size : ℕ) : Prop :=
  ∃ r ∈ memory, r.start ≤ start ∧ start + size ≤ r.start + r.len

/-- The range is apart from the pages of the arena. -/
def Arena.Avoids (a : Arena) (start size : ℕ) : Prop :=
  a.pages = 0 ∨ start + size ≤ a.base ∨ a.base + a.size ≤ start

/-- The arenas are apart and inside the memory, as are the unaligned areas, and the maps count the
outstanding allocations. -/
structure Inv (arenas : List Arena) (outstanding memory : List Span) : Prop where
  shape : ∀ a ∈ arenas, Shape a
  apart : arenas.Pairwise Arena.Apart
  in_memory : ∀ a ∈ arenas, a.pages = 0 ∨ InMemory memory a.base a.size
  areas : ∀ a ∈ arenas, ∀ area ∈ a.unaligned, InMemory memory area.1 area.2 ∧
    ∀ b ∈ arenas, b.Avoids area.1 area.2
  tracked : ∀ a ∈ arenas, ∀ i < a.pages, coverage outstanding (a.first + i) = (a.map i).toNat
  inside : ∀ span ∈ outstanding, ∃ a ∈ arenas, a.Contains span

section Steps

variable {arenas before after : List Arena} {a b : Arena} {outstanding memory : List Span}
  {address pages : ℕ} {arenas' : List Arena}

/-- What it means to be in an arena. -/
theorem Shape.in_arena_iff (h : Shape a) : inArena a address = true ↔
    a.base ≤ address ∧ address < a.base + a.size := by
  have hfits := h.fits
  rw [inArena, decide_eq_true_eq, Nat.mod_eq_of_lt hfits]
  omega

theorem Shape.page_eq (h : Shape a) (hin : inArena a address = true) :
    address / pageSize = a.first + a.index address ∧ a.index address < a.pages := by
  have hsize := h.size_eq
  have haligned := h.aligned
  obtain ⟨hlow, hhigh⟩ := h.in_arena_iff.mp hin
  simp only [Arena.first, Arena.index, pageSize] at hsize haligned ⊢
  omega

theorem page_ne (ha : Shape a) (hb : Shape b) (hapart : a.Apart b) {i j : ℕ} (hi : i < a.pages)
    (hj : j < b.pages) : a.first + i ≠ b.first + j := by
  have hsizea := ha.size_eq
  have hsizeb := hb.size_eq
  simp only [Arena.Apart, Arena.first, pageSize] at *
  omega

/-- An allocation covers a place in no other arena. -/
theorem not_mem_of_apart (ha : Shape a) (hb : Shape b) (hapart : a.Apart b) {span : Span}
    (hspan : a.Contains span) {j : ℕ} (hj : j < b.pages) : b.first + j ∉ span := by
  intro hmem
  obtain ⟨hlow, hhigh⟩ := mem_def.mp hmem
  obtain ⟨hfirst, _, hlast⟩ := hspan
  refine page_ne ha hb hapart (show b.first + j - a.first < a.pages by omega) hj ?_
  omega

section

variable (h : Inv (before ++ a :: after) outstanding memory)
include h

theorem Inv.shape_mid : Shape a := h.shape a (mem_append_right before mem_cons_self)

/-- The other arenas are apart from the one in the middle. -/
theorem Inv.apart_mid (hb : b ∈ before ∨ b ∈ after) : a.Apart b :=
  (pairwise_cons.mp ((pairwise_middle Arena.Apart.symm).mp h.apart)).1 b
    (mem_append.mpr hb)

/-- A change of the map of one arena, and of the allocations in it. -/
theorem Inv.replace {map : ℕ → Bool} {outstanding' : List Span} {span : Span}
    (hspan : a.Contains span)
    (hmap : ∀ i < a.pages, coverage outstanding' (a.first + i) = (map i).toNat)
    (hother : ∀ x, x ∉ span → coverage outstanding' x = coverage outstanding x)
    (hinside : ∀ other ∈ outstanding', other = span ∨ other ∈ outstanding) :
    Inv (before ++ { a with map := map } :: after) outstanding' memory := by
  obtain ⟨hshape, hshapes⟩ := forall_middle.mp h.shape
  refine ⟨forall_middle.mpr ⟨?_, hshapes⟩, ?_, forall_middle.mpr (forall_middle.mp h.in_memory), ?_,
    forall_middle.mpr ⟨hmap, ?_⟩, ?_⟩
  · exact { hshape with }
  · exact pairwise_replace (a := a) (fun _ hb => hb) (fun _ hb => hb) h.apart
  · have hareas : ∀ b ∈ before ++ a :: after, ∀ area ∈ b.unaligned,
        InMemory memory area.1 area.2 ∧
          ∀ c ∈ before ++ { a with map := map } :: after, c.Avoids area.1 area.2 :=
      fun b hb area harea => (h.areas b hb area harea).imp_right fun havoid =>
        forall_middle.mpr (forall_middle.mp havoid)
    exact forall_middle.mpr (forall_middle.mp hareas)
  · intro b hb i hi
    rw [hother _ (not_mem_of_apart hshape (hshapes b hb) (h.apart_mid hb) hspan hi)]
    exact h.tracked b (mem_middle.mpr (.inr hb)) i hi
  · intro other hmem
    rcases hinside other hmem with rfl | hmem
    · exact ⟨_, mem_middle.mpr (.inl rfl), hspan⟩
    · exact exists_middle.mpr (exists_middle.mp (h.inside other hmem))

end

/-- The pages of an allocation in an arena. -/
theorem Shape.contains (h : Shape a) (hin : inArena a address = true)
    (hfits : a.index address + pages ≤ a.pages) : a.Contains (pageSpan address pages) := by
  obtain ⟨hpage, hlt⟩ := h.page_eq hin
  show a.first ≤ address / pageSize ∧ address / pageSize < a.first + a.pages ∧
    address / pageSize + pages ≤ a.first + a.pages
  omega

/-- An allocation in an arena begins at an address of the arena and ends in it. -/
theorem Shape.of_contains (h : Shape a) (hcontains : a.Contains (pageSpan address pages)) :
    inArena a address = true ∧ a.index address + pages ≤ a.pages := by
  have hsize := h.size_eq
  have haligned := h.aligned
  obtain ⟨hlow, hlt, hhigh⟩ := hcontains
  have hin : inArena a address = true := by
    rw [h.in_arena_iff]
    simp only [pageSpan, Arena.first, pageSize] at *
    omega
  have hpage := (h.page_eq hin).1
  refine ⟨hin, ?_⟩
  simp only [pageSpan, hpage] at hhigh
  omega

theorem Shape.mem_page_span (h : Shape a) (hin : inArena a address = true) (i : ℕ) :
    a.first + i ∈ pageSpan address pages ↔
      a.index address ≤ i ∧ i < a.index address + pages := by
  obtain ⟨hpage, _⟩ := h.page_eq hin
  show address / pageSize ≤ a.first + i ∧ a.first + i < address / pageSize + pages ↔ _
  omega

/-- Free pages of an arena are allocated. -/
theorem Inv.alloc (h : Inv (before ++ a :: after) outstanding memory)
    (hin : inArena a address = true) (hfits : a.index address + pages ≤ a.pages)
    (hfree : ∀ j < pages, a.map (a.index address + j) = false) :
    Inv (before ++ a.mark (a.index address) pages true :: after)
      (pageSpan address pages :: outstanding) memory := by
  have hshape := h.shape_mid
  refine h.replace (hshape.contains hin hfits) (fun i hi => ?_) (fun x hx => ?_)
    fun span hspan => mem_cons.mp hspan
  · have htracked := h.tracked a (mem_middle.mpr (.inl rfl)) i hi
    rw [coverage_cons, htracked]
    simp only [hshape.mem_page_span hin]
    split
    · next hmem =>
      have hi' := hfree (i - a.index address) (by omega)
      rw [Nat.add_sub_cancel' hmem.1] at hi'
      rw [hi']
      rfl
    · rfl
  · rw [coverage_cons, if_neg hx, Nat.add_zero]

/-- The pages of an allocation are freed. -/
theorem Inv.free (h : Inv (before ++ a :: after) outstanding memory)
    (hin : inArena a address = true) (hfits : a.index address + pages ≤ a.pages)
    (hspan : pageSpan address pages ∈ outstanding) :
    Inv (before ++ a.mark (a.index address) pages false :: after)
      (outstanding.erase (pageSpan address pages)) memory := by
  have hshape := h.shape_mid
  refine h.replace (hshape.contains hin hfits) (fun i hi => ?_) (fun x hx => ?_)
    fun span hspan => .inr (mem_of_mem_erase hspan)
  · have htracked := h.tracked a (mem_middle.mpr (.inl rfl)) i hi
    rw [coverage_erase hspan] at htracked
    simp only [hshape.mem_page_span hin] at htracked
    split
    · next hmem =>
      rw [if_pos hmem] at htracked
      have hle := Bool.toNat_le (a.map i)
      show _ = 0
      omega
    · next hmem =>
      rw [if_neg hmem] at htracked
      exact htracked
  · rw [coverage_erase hspan x, if_neg hx, Nat.add_zero]

/-! ### The calls -/

theorem find_pages_spec {fuel i found : ℕ} (h : findPages a pages fuel i = some found) :
    found ≤ a.pages - pages ∧ ∀ j < pages, a.map (found + j) = false := by
  induction fuel generalizing i with
  | zero => cases h
  | succ fuel ih =>
    obtain ⟨hle, h⟩ := ite_none_right_eq_some.mp h
    split at h
    · next hnone =>
      cases h
      refine ⟨hle, fun j hj => ?_⟩
      have hj' := find?_eq_none.mp hnone j (mem_range.mpr hj)
      exact Bool.eq_false_of_not_eq_true hj'
    · exact ih h

theorem Inv.alloc_helper (h : Inv (before ++ a :: after) outstanding memory) {result : ℕ}
    {a' : Arena} (hcall : novmAllocHelper a pages = some (result, a')) :
    result ≠ 0 ∧ Inv (before ++ a' :: after) (pageSpan result pages :: outstanding) memory := by
  obtain ⟨hpages, hcall⟩ := ite_none_left_eq_some.mp hcall
  obtain ⟨i, hfind, heq⟩ := map_eq_some_iff.mp hcall
  cases heq
  obtain ⟨hle, hfree⟩ := find_pages_spec hfind
  have hshape := h.shape_mid
  have hsize := hshape.size_eq
  have hpos := hshape.base_pos (by omega)
  have hindex : a.index (a.base + i * pageSize) = i := by
    rw [Arena.index, Nat.add_sub_cancel_left, Nat.mul_div_cancel i (by decide)]
  have hin : inArena a (a.base + i * pageSize) = true := by
    rw [hshape.in_arena_iff]
    simp only [pageSize] at hsize ⊢
    omega
  have hend : a.index (a.base + i * pageSize) + pages ≤ a.pages := by
    omega
  have halloc := h.alloc hin hend (by rw [hindex]; exact hfree)
  rw [hindex] at halloc
  exact ⟨by omega, halloc⟩

theorem Inv.alloc_pages (h : Inv arenas outstanding memory) (pages : ℕ) (arenaBitmap : BitVec 32) :
    Inv (novmAllocPages arenas pages arenaBitmap).2
      (((novmAllocPages arenas pages arenaBitmap).1.map fun address =>
        pageSpan address pages).toList ++ outstanding) memory := by
  have hwalk := walk_cases (allocTurn pages arenaBitmap)
    (P := fun arenas state => state.2 = none ∧ Inv arenas outstanding memory)
    (Q := fun arenas state => Inv arenas
      ((state.2.map fun address => pageSpan address pages).toList ++ outstanding) memory)
    ?_ [] arenas (0, none) ⟨rfl, h⟩
  · rcases hwalk with ⟨hnone, hinv⟩ | hinv
    · have hresult : (novmAllocPages arenas pages arenaBitmap).1 = none := hnone
      rw [hresult]
      exact hinv
    · exact hinv
  intro before a after state a' state' stop hP hturn
  unfold allocTurn at hturn
  split at hturn
  · split at hturn
    · next result n' hcall =>
      obtain ⟨hne, hinv⟩ := hP.2.alloc_helper hcall
      rw [if_neg hne] at hturn
      cases hturn
      exact hinv
    · cases hturn
      exact ⟨rfl, hP.2⟩
  · cases hturn
    exact ⟨rfl, hP.2⟩

/-- Without an unaligned area `novm_alloc_unaligned` allocates a page. -/
theorem Inv.alloc_unaligned (h : Inv arenas outstanding memory)
    (hnone : ∀ a ∈ arenas.head?, a.unaligned = none) :
    Inv (novmAllocUnaligned arenas).2.2
      (((novmAllocUnaligned arenas).1.map fun address => pageSpan address 1).toList ++ outstanding)
      memory := by
  cases arenas with
  | nil => exact h
  | cons n rest =>
    have hpage : novmAllocUnaligned (n :: rest) =
        ((novmAllocPages (n :: rest) 1 novmArenaAny).1, pageSize,
          (novmAllocPages (n :: rest) 1 novmArenaAny).2) := by
      rw [novmAllocUnaligned, hnone n rfl]
    rw [hpage]
    exact h.alloc_pages 1 novmArenaAny

/-- An address of an arena is in no other. -/
theorem not_in_arena (ha : Shape a) (hb : Shape b) (hapart : a.Apart b)
    (hin : inArena a address = true) : inArena b address = false := by
  have hpages := (ha.page_eq hin).2
  have hsize := hb.size_eq
  rw [ha.in_arena_iff] at hin
  rw [Bool.eq_false_iff, ne_eq, hb.in_arena_iff]
  simp only [Arena.Apart, pageSize] at *
  omega

theorem Inv.free_pages (h : Inv arenas outstanding memory)
    (hspan : pageSpan address pages ∈ outstanding) :
    Inv (novmFreePages arenas address pages) (outstanding.erase (pageSpan address pages))
      memory := by
  obtain ⟨a, ha, hcontains⟩ := h.inside _ hspan
  obtain ⟨before, after, rfl⟩ := append_of_mem ha
  obtain ⟨hin, hfits⟩ := h.shape_mid.of_contains hcontains
  have hskip : ∀ b ∈ before, freeTurn address pages b () = (b, (), false) := by
    intro b hb
    have hb' := h.shape b (mem_middle.mpr (.inr (.inl hb)))
    have hnot := not_in_arena h.shape_mid hb' (h.apart_mid (.inl hb)) hin
    rw [freeTurn, hnot]
    rfl
  have hstop : freeTurn address pages a () = (a.mark (a.index address) pages false, (), true) := by
    rw [freeTurn, if_pos hin]
  rw [novmFreePages, walk_of_skip after hskip hstop]
  exact h.free hin hfits hspan

theorem Inv.alloc_specific_pages (h : Inv arenas outstanding memory)
    (hrange : ∀ a ∈ arenas, inArena a address = true → a.index address + pages ≤ a.pages)
    {err : Status} (hcall : novmAllocSpecificPages arenas address pages = some (err, arenas')) :
    Inv arenas' (((if err = noError then some address else none).map fun address =>
      pageSpan address pages).toList ++ outstanding) memory := by
  have hwalk := walk_cases (specificTurn address pages)
    (P := fun arenas state => state = some errNotFound ∧ Inv arenas outstanding memory ∧
      ∀ a ∈ arenas, inArena a address = true → a.index address + pages ≤ a.pages)
    (Q := fun arenas state => ∀ err ∈ state, Inv arenas
      (((if err = noError then some address else none).map fun address =>
        pageSpan address pages).toList ++ outstanding) memory)
    ?_ [] arenas (some errNotFound) ⟨rfl, h, hrange⟩
  · obtain ⟨err', herr, heq⟩ := map_eq_some_iff.mp hcall
    cases heq
    rcases hwalk with ⟨hnot, hinv, _⟩ | hinv
    · have hnotFound := herr.symm.trans hnot
      cases hnotFound
      exact hinv
    · exact hinv err herr
  intro before a after state a' state' stop hP hturn
  obtain ⟨hstate, hinv, hrange⟩ := hP
  unfold specificTurn at hturn
  split at hturn
  · next hin =>
    dsimp only at hturn
    split at hturn
    · cases hturn
      intro err herr
      split at herr
      · cases herr
      · cases herr
        exact hinv
    next hnone =>
    cases hturn
    rintro err ⟨⟩
    refine hinv.alloc hin (hrange a (mem_middle.mpr (.inl rfl)) hin) fun j hj => ?_
    have hj' := find?_eq_none.mp hnone j (mem_range.mpr hj)
    simp only [Bool.decide_or, Bool.decide_eq_true, Bool.or_eq_true, decide_eq_true_eq,
      not_or] at hj'
    exact Bool.eq_false_of_not_eq_true hj'.2
  · cases hturn
    exact ⟨hstate, hinv, hrange⟩

/-! ### A new arena -/

/-- A new arena takes the place of one without pages. Its memory is a part of a piece that is apart
from all memory given before. -/
theorem Inv.add {piece : Span} {part : ℕ × ℕ} (h : Inv (before ++ b :: after) outstanding memory)
    (hpages : b.pages = 0) (hfresh : Fresh part b a) (hlower : piece.start ≤ part.1)
    (hupper : part.1 + part.2 ≤ piece.start + piece.len)
    (hnew : ∀ r ∈ memory, r.start + r.len ≤ piece.start ∨ piece.start + piece.len ≤ r.start) :
    Inv (before ++ a :: after) outstanding (piece :: memory) := by
  have hle := hfresh.lower_le
  have hge := hfresh.le_upper
  have hmem : ∀ {start size}, InMemory memory start size → InMemory (piece :: memory) start size :=
    fun ⟨r, hr, hin⟩ => ⟨r, mem_cons_of_mem piece hr, hin⟩
  -- what is in the old memory is apart from what is in the new
  have hold : ∀ {start size}, InMemory memory start size →
      start + size ≤ a.base ∨ a.base + a.size ≤ start := by
    rintro start size ⟨r, hr, hlow, hhigh⟩
    have hr' := hnew r hr
    omega
  have hothers : ∀ c, c ∈ before ∨ c ∈ after → a.Apart c := fun c hc =>
    .inr ((h.in_memory c (mem_middle.mpr (.inr hc))).imp id fun hin => (hold hin).symm)
  have hshapes := (forall_middle.mp h.shape).2
  -- an allocation is in another arena
  have hinside : ∀ span ∈ outstanding, ∃ d, (d ∈ before ∨ d ∈ after) ∧ d.Contains span := by
    intro span hspan
    refine (exists_middle.mp (h.inside span hspan)).resolve_left ?_
    rintro ⟨hlow, hlt, _⟩
    omega
  refine ⟨forall_middle.mpr ⟨hfresh.shape, hshapes⟩, ?_, ?_, ?_, ?_, ?_⟩
  · exact pairwise_exchange (fun c hc => (hothers c (.inl hc)).symm)
      (fun c hc => hothers c (.inr hc)) h.apart
  · refine forall_middle.mpr ⟨.inr ⟨piece, mem_cons_self, by omega, by omega⟩, ?_⟩
    exact fun c hc => ((forall_middle.mp h.in_memory).2 c hc).imp id hmem
  · -- the new area is in front of the new pages, and the old ones are in the old memory
    have hareas : ∀ c, c ∈ before ++ b :: after → ∀ area ∈ c.unaligned,
        InMemory (piece :: memory) area.1 area.2 ∧
          ∀ d ∈ before ++ a :: after, d.Avoids area.1 area.2 := by
      intro c hc area harea
      obtain ⟨hin, havoid⟩ := h.areas c hc area harea
      exact ⟨hmem hin, forall_middle.mpr ⟨.inr (hold hin), (forall_middle.mp havoid).2⟩⟩
    refine forall_middle.mpr ⟨fun area harea => ?_, (forall_middle.mp hareas).2⟩
    rcases hfresh.unaligned area harea with holdArea | ⟨hlow, hhigh⟩
    · exact hareas b (mem_middle.mpr (.inl rfl)) area holdArea
    refine ⟨⟨piece, mem_cons_self, by omega, by omega⟩,
      forall_middle.mpr ⟨.inr (.inl hhigh), fun d hd => ?_⟩⟩
    rcases h.in_memory d (mem_middle.mpr (.inr hd)) with hzero | ⟨r, hr, hin⟩
    · exact .inl hzero
    · have hr' := hnew r hr
      refine .inr ?_
      omega
  · refine forall_middle.mpr ⟨fun i hi => ?_, (forall_middle.mp h.tracked).2⟩
    have hzero : ¬ 0 < coverage outstanding (a.first + i) := by
      rw [coverage_pos]
      rintro ⟨span, hspan, hcover⟩
      obtain ⟨d, hd, hcontains⟩ := hinside span hspan
      exact not_mem_of_apart (hshapes d hd) hfresh.shape (hothers d hd).symm hcontains hi hcover
    rw [hfresh.free i]
    show _ = 0
    omega
  · exact fun span hspan => exists_middle.mpr (.inr (hinside span hspan))

/-- Without arenas the memory does not matter. -/
theorem Inv.of_nil {memory' : List Span} (h : Inv [] outstanding memory) :
    Inv [] outstanding memory' :=
  ⟨h.shape, h.apart, forall_mem_nil _, forall_mem_nil _,
    h.tracked, h.inside⟩

/-- `novm_add_arena` sets up the first arena that has no pages. -/
theorem add_arena_spec {endOfKernel arenaStart arenaSize : ℕ}
    (h : novmAddArena endOfKernel arenaStart arenaSize arenas = some arenas') :
    ∃ before n after, arenas = before ++ n :: after ∧ n.pages = 0 ∧
      arenas' = before ++ novmInitHelper n (trimKernel endOfKernel arenaStart arenaSize).1
        (trimKernel endOfKernel arenaStart arenaSize).2 none :: after := by
  induction arenas generalizing arenas' with
  | nil => cases h
  | cons n rest ih =>
    unfold novmAddArena at h
    split at h
    · next hpages =>
      cases h
      exact ⟨[], n, rest, rfl, hpages, rfl⟩
    · obtain ⟨rest', hrest, rfl⟩ := map_eq_some_iff.mp h
      obtain ⟨before, m, after, rfl, hpages, rfl⟩ := ih hrest
      exact ⟨n :: before, m, after, rfl, hpages, rfl⟩

theorem trim_kernel_inside (endOfKernel arenaStart arenaSize : ℕ) :
    arenaStart ≤ (trimKernel endOfKernel arenaStart arenaSize).1 ∧
      (trimKernel endOfKernel arenaStart arenaSize).1 +
        (trimKernel endOfKernel arenaStart arenaSize).2 ≤ arenaStart + arenaSize := by
  unfold trimKernel
  split
  · next hcut =>
    omega
  · exact ⟨le_refl _, le_refl _⟩

end Steps

/-! ## The result -/

section Run

variable {endOfKernel maxArenas : ℕ} {s : System}

/-- The invariant of a system. -/
def System.Inv (s : System) : Prop := Novm.Inv s.arenas s.outstanding s.memory

theorem System.Inv.step (h : s.Inv) {action : Action} {next : System}
    (hallowed : Allowed endOfKernel s action) (hrange : InRange endOfKernel s action)
    (hstep : Novm.step endOfKernel s action = some next) : next.Inv := by
  cases action with
  | addArena arenaStart arenaSize =>
    obtain ⟨arenas, hadd, rfl⟩ := map_eq_some_iff.mp hstep
    obtain ⟨before, n, after, harenas, hpages, rfl⟩ := add_arena_spec hadd
    obtain ⟨hlower, hupper⟩ := trim_kernel_inside endOfKernel arenaStart arenaSize
    have hfresh := fresh_init_helper hrange n none fun hne => absurd rfl hne
    unfold System.Inv at h
    rw [harenas] at h
    exact h.add hpages hfresh hlower hupper hallowed.2
  | init memBase memSize =>
    cases hstep
    obtain ⟨hnew, hpos, hfirst⟩ := hallowed
    unfold System.Inv at h ⊢
    cases harenas : s.arenas with
    | nil =>
      rw [harenas] at h
      exact h.of_nil
    | cons n rest =>
      rw [harenas] at h hfirst
      have hfresh := fresh_init_helper hrange n (some (memSize / pageSize)) fun _ => hpos
      show Novm.Inv ([] ++ novmInitHelper n _ _ _ :: rest) s.outstanding (_ :: s.memory)
      exact Novm.Inv.add h (hfirst n rfl) hfresh (le_refl _) (le_refl _) hnew.2
  | allocPages pages arenaBitmap =>
    cases hstep
    exact h.alloc_pages pages arenaBitmap
  | allocUnaligned =>
    have hnone : s.arenas.head?.bind Arena.unaligned = none := bind_eq_none_iff.mpr hrange
    simp only [Novm.step, hnone] at hstep
    cases hstep
    exact h.alloc_unaligned hrange
  | freePages address pages =>
    cases hstep
    exact h.free_pages hallowed
  | allocSpecificPages address pages =>
    obtain ⟨⟨err, arenas⟩, hcall, rfl⟩ := map_eq_some_iff.mp hstep
    exact h.alloc_specific_pages hrange hcall

section

variable (h : Reachable endOfKernel maxArenas (fun s action => Allowed endOfKernel s action ∧
  InRange endOfKernel s action) s)
include h

theorem Reachable.inv : s.Inv := by
  refine Transition.Reachable.invariant_from ?_ (fun hinv hguard => hinv.step hguard.1 hguard.2) h
  have hempty : ∀ a ∈ replicate maxArenas Arena.empty, a = Arena.empty :=
    fun a ha => (mem_replicate.mp ha).2
  refine ⟨fun a ha => ?_, ?_, fun a ha => ?_, fun a ha => ?_, fun a ha i hi => ?_, ?_⟩
  · rw [hempty a ha]
    exact ⟨rfl, rfl, by decide, fun hpos => absurd hpos (Nat.lt_irrefl 0)⟩
  · exact pairwise_replicate.mpr (.inr (.inl rfl))
  · rw [hempty a ha]
    exact .inl rfl
  · rw [hempty a ha]
    rintro _ ⟨⟩
  · rw [hempty a ha] at hi
    exact absurd hi (Nat.not_lt_zero i)
  · exact forall_mem_nil _

/-- In every run in which the arenas are proper, no pages beyond an arena are asked for and no
unaligned area is handed out, the maps mark exactly the pages that are in an outstanding allocation,
the outstanding allocations are apart, and each is inside one arena. -/
theorem ownership_exact :
    (∀ a ∈ s.arenas, ∀ i < a.pages,
      a.map i = true ↔ ∃ span ∈ s.outstanding, a.first + i ∈ span) ∧
    s.outstanding.Pairwise Apart ∧
    ∀ span ∈ s.outstanding, ∃ a ∈ s.arenas, a.Contains span := by
  have hinv := h.inv
  refine ⟨fun a ha i hi => ?_, pairwise_apart fun x => ?_, hinv.inside⟩
  · rw [← coverage_pos, hinv.tracked a ha i hi]
    cases a.map i <;> decide
  -- a page that is covered is the page of an arena, where the map has one bit
  by_contra hgt
  obtain ⟨span, hspan, hx⟩ := coverage_pos.mp (show 0 < coverage s.outstanding x by omega)
  obtain ⟨a, ha, hlow, _, hhigh⟩ := hinv.inside span hspan
  obtain ⟨hstart, hstop⟩ := mem_def.mp hx
  have htracked := hinv.tracked a ha (x - a.first) (by omega)
  have hle := Bool.toNat_le (a.map (x - a.first))
  rw [Nat.add_sub_cancel' (by omega)] at htracked
  omega

end

end Run

/-- Two arenas, the default one and one with its map in front of it. Pages are allocated in both, at
any place and at a specific one, and freed. -/
theorem ownership_exact_two_arenas :
    ∃ s : System, Reachable 0x80001800 2
        (fun s action => Allowed 0x80001800 s action ∧ InRange 0x80001800 s action) s ∧
      s.outstanding = [⟨0x80005, 1⟩, ⟨0x80003, 2⟩, ⟨0x90001, 3⟩] ∧
      s.outstanding.Pairwise Apart ∧ ∀ span ∈ s.outstanding, ∃ a ∈ s.arenas, a.Contains span := by
  obtain ⟨s, hreach, hout⟩ := exists_reachable (step 0x80001800)
    (fun s action => Allowed 0x80001800 s action ∧ InRange 0x80001800 s action) (initial 2)
    (P := fun s => s.outstanding = [⟨0x80005, 1⟩, ⟨0x80003, 2⟩, ⟨0x90001, 3⟩])
    [.init 0x80000000 0x8000, .addArena 0x90000000 0x8000, .allocPages 1 novmArenaAny,
      .allocPages 3 0x2#32, .allocSpecificPages 0x80003abc 2, .freePages 0x80002000 1,
      .allocSpecificPages 0x80004000 1, .allocSpecificPages 0x80005000 1]
    (by decide) (by decide)
  obtain ⟨_, hapart, hinside⟩ := ownership_exact hreach
  exact ⟨s, hreach, hout, hapart, hinside⟩

/-- The default arena has a static map for the memory of the kernel too. Two pages from the last
page of the arena on are allocated, of which the second is beyond the arena. -/
theorem ownership_beyond_arena :
    ∃ s : System, Reachable 0x80001800 1 (Allowed 0x80001800) s ∧
      ∃ span ∈ s.outstanding, ¬ ∃ a ∈ s.arenas, a.Contains span :=
  exists_reachable (step 0x80001800) (Allowed 0x80001800) (initial 1)
    [.init 0x80000000 0x8000, .allocSpecificPages 0x80007000 2] (by decide) (by decide)

end NusaKernel.Novm
