import NusaKernel.Vm.Vmm

/-!
# First fit in an address space

`alloc_spot` of `kernel/vm/vmm.c`, with the `arch_mmu_pick_spot` that an architecture has unless it
brings its own, finds the lowest aligned address at which a region fits, and fails only if there is
none.
-/

namespace NusaKernel.Vmm

open BitVec List Word

variable {w : ℕ} {aspace : Aspace w} {regions before after : List (Region w)} {size : BitVec w}
  {archMmuFlags : BitVec 32} {k : ℕ} {result : Option (BitVec w)}

/-- A region of this size at an address that is a multiple of `2 ^ k` is inside the address space
and overlaps no region. -/
structure FitsAt (aspace : Aspace w) (regions : List (Region w)) (size : BitVec w) (k m : ℕ) :
    Prop where
  aligned : 2 ^ k ∣ m
  base_le : aspace.base.toNat ≤ m
  end_le : m + size.toNat ≤ aspace.base.toNat + aspace.size.toNat
  apart : ∀ r ∈ regions, m + size.toNat ≤ r.base.toNat ∨ r.base.toNat + r.size.toNat ≤ m

/-- The lowest address that fits, or `-1` if there is none. -/
def FirstSpot (aspace : Aspace w) (regions : List (Region w)) (size : BitVec w) (k : ℕ)
    (spot : BitVec w) : Prop :=
  (spot = -1#w ∧ ∀ m, ¬ FitsAt aspace regions size k m) ∨
    (spot ≠ -1#w ∧ FitsAt aspace regions size k spot.toNat ∧
      ∀ m, FitsAt aspace regions size k m → spot.toNat ≤ m)

/-- The end of `check_gap`: the search goes on if nothing fits in the gap, and stops at the first
aligned address of the gap or if there is none from the gap on. -/
theorem spot_in_gap_cases {prev next : Option (Region w)} {beg last : BitVec w}
    (hsize : 1 < size.toNat) (hlt : beg.toNat ≤ last.toNat)
    (hgap : last.toNat - beg.toNat + 1 < 2 ^ w)
    (h : spotInGap archMmuPickSpot prev next beg last (1#w <<< k) size archMmuFlags = result) :
    (result = none ∧ ∀ m, 2 ^ k ∣ m → beg.toNat ≤ m → last.toNat + 1 < m + size.toNat) ∨
    (result = some (-1#w) ∧ ∀ m, 2 ^ k ∣ m → beg.toNat ≤ m → 2 ^ w ≤ m) ∨
    ∃ spot, result = some spot ∧ 2 ^ k ∣ spot.toNat ∧ beg.toNat ≤ spot.toNat ∧
      spot.toNat + size.toNat ≤ last.toNat + 1 ∧
      ∀ m, 2 ^ k ∣ m → beg.toNat ≤ m → spot.toNat ≤ m := by
  have hround := roundup_cases beg k
  simp only [spotInGap] at h
  generalize hpick : archMmuPickSpot beg _ last _ (1#w <<< k) size archMmuFlags = spot at h
  rw [show roundup beg (1#w <<< k) = spot from hpick] at hround
  split at h
  · next hwrap =>
    rcases hround with ⟨hle, -⟩ | ⟨-, hnone⟩
    · exact absurd hwrap (BitVec.not_lt.mpr hle)
    · exact .inr (.inl ⟨h.symm, hnone⟩)
  next hwrap =>
  rcases hround with ⟨hle, haligned, hfirst⟩ | ⟨hlt, -⟩
  · rw [le_def] at hle
    split at h
    · next hroom =>
      exact .inr (.inr ⟨_, h.symm, haligned, hle,
        fits_of_le_sub_add_one (BitVec.le_of_lt hroom.1) (by omega) hroom.2, hfirst⟩)
    next hroom =>
    refine .inl ⟨h.symm, fun m hm hbeg => ?_⟩
    have hspot := hfirst m hm hbeg
    by_contra hfits
    refine hroom ⟨lt_def.mpr (by omega), ?_⟩
    exact le_sub_add_one (by omega) (by omega) (by omega)
  · exact absurd hlt hwrap

section Search

variable (hlayout : Layout aspace (before ++ after))

include hlayout

theorem fits_at_of_gap {m : ℕ} (haligned : 2 ^ k ∣ m) (hstart : gapStart aspace before.getLast? ≤ m)
    (hstop : m + size.toNat ≤ gapStop aspace after.head?) :
    FitsAt aspace (before ++ after) size k m := by
  obtain ⟨hprev, hnext⟩ := hlayout.around
  obtain ⟨hbefore, hafter, -⟩ := pairwise_append.mp (isChain_iff_pairwise.mp hlayout.chain)
  refine ⟨haligned, (base_le_gap_start hprev).trans hstart, hstop.trans (gap_stop_le hnext), ?_⟩
  refine forall_mem_append.mpr ⟨fun r hr => .inr ?_, fun r hr => .inl ?_⟩
  · rcases eq_nil_or_concat before with rfl | ⟨front, last, rfl⟩
    · exact absurd hr not_mem_nil
    · rw [concat_eq_append] at hr hstart hbefore
      rw [getLast?_concat] at hstart
      have hend : last.base.toNat + last.size.toNat ≤ m := hstart
      rcases mem_append.mp hr with hr | hr
      · have hle : r.base.toNat + r.size.toNat ≤ last.base.toNat :=
          (pairwise_append.mp hbefore).2.2 r hr last mem_cons_self
        omega
      · rwa [mem_singleton.mp hr]
  · cases after with
    | nil => exact absurd hr not_mem_nil
    | cons first rest =>
      have hend : m + size.toNat ≤ first.base.toNat := hstop
      rcases mem_cons.mp hr with rfl | hr
      · exact hend
      · have hle : first.base.toNat + first.size.toNat ≤ r.base.toNat :=
          rel_of_pairwise_cons hafter hr
        omega

omit hlayout in
/-- An address that fits behind the beginning of a gap fits in it, or behind the next region. -/
theorem gap_of_fits_at {m : ℕ} (h : FitsAt aspace (before ++ after) size k m) :
    m + size.toNat ≤ gapStop aspace after.head? ∨
      ∃ r ∈ after.head?, gapStart aspace (some r) ≤ m := by
  cases after with
  | nil => exact .inl h.end_le
  | cons r rest =>
    exact (h.apart r (mem_append_right _ mem_cons_self)).imp_right fun h => ⟨r, rfl, h⟩

/-- Where the search stands, between the regions before and after a gap: the addresses that fit are
behind the regions before it. -/
theorem check_gap_first (hsize : 1 < size.toNat)
    (hstart : ∀ m, FitsAt aspace (before ++ after) size k m →
      gapStart aspace before.getLast? ≤ m)
    (h : checkGap aspace archMmuPickSpot before.getLast? after.head? (1#w <<< k) size
      archMmuFlags = result) :
    (result = none ∧ ∀ m, FitsAt aspace (before ++ after) size k m →
      ∃ r ∈ after.head?, gapStart aspace (some r) ≤ m) ∨
    ∃ spot, result = some spot ∧ FirstSpot aspace (before ++ after) size k spot := by
  obtain ⟨hprev, hnext⟩ := hlayout.around
  have hbase := base_le_gap_start hprev
  have hstop := gap_stop_le hnext
  have hfits := aspace.fits
  rcases check_gap_cases hprev (gap_start_le_stop hprev hnext
    (isChain_append.mp hlayout.chain).2.2) h with ⟨hempty, rfl⟩ | ⟨hlt, hbeg, last, hlast, hgap⟩
  · have hbehind (m : ℕ) (hm : FitsAt aspace (before ++ after) size k m) :
        ∃ r ∈ after.head?, gapStart aspace (some r) ≤ m := by
      have hle := hstart m hm
      exact (gap_of_fits_at hm).resolve_left (by omega)
    cases after with
    | nil =>
      refine .inr ⟨-1#w, rfl, .inl ⟨rfl, fun m hm => ?_⟩⟩
      obtain ⟨r, hr, _⟩ := hbehind m hm
      cases hr
    | cons r rest => exact .inl ⟨rfl, hbehind⟩
  · rcases spot_in_gap_cases hsize (by omega) (by omega) hgap with
      ⟨hnone, hfull⟩ | ⟨hwrap, hnone⟩ | ⟨spot, hspot, haligned, hle, hend, hfirst⟩
    · refine .inl ⟨hnone, fun m hm => (gap_of_fits_at hm).resolve_left ?_⟩
      have := hfull m hm.aligned (hbeg ▸ hstart m hm)
      omega
    · refine .inr ⟨_, hwrap, .inl ⟨rfl, fun m hm => ?_⟩⟩
      have := hnone m hm.aligned (hbeg ▸ hstart m hm)
      have := hm.end_le
      omega
    · refine .inr ⟨spot, hspot, .inr ⟨?_, fits_at_of_gap hlayout haligned (hbeg ▸ hle)
        (hlast ▸ hend), fun m hm => hfirst m hm.aligned (hbeg ▸ hstart m hm)⟩⟩
      rintro rfl
      rw [neg_one_eq_allOnes, toNat_allOnes] at hend
      omega

/-- The loop of `alloc_spot`. -/
theorem search_gaps_first (hsize : 1 < size.toNat)
    (hskip : ∀ m, FitsAt aspace (before ++ after) size k m →
      ∃ r ∈ after.head?, gapStart aspace (some r) ≤ m) :
    FirstSpot aspace (before ++ after) size k
      (searchGaps aspace archMmuPickSpot (1#w <<< k) size archMmuFlags before after).1 := by
  induction after generalizing before with
  | nil =>
    refine .inl ⟨rfl, fun m hm => ?_⟩
    obtain ⟨r, hr, _⟩ := hskip m hm
    cases hr
  | cons r rest ih =>
    rw [append_cons] at hlayout hskip ⊢
    unfold searchGaps
    generalize hgap : checkGap aspace archMmuPickSpot (some r) rest.head? _ _ _ = result
    rw [← getLast?_concat (l := before)] at hgap
    rcases check_gap_first hlayout hsize (fun m hm => by
      obtain ⟨q, hq, hle⟩ := hskip m hm
      cases hq
      rwa [getLast?_concat]) hgap with ⟨rfl, hskip⟩ | ⟨spot, rfl, hfirst⟩
    · exact ih hlayout hskip
    · exact hfirst

end Search

/-- `alloc_spot` returns the lowest address, aligned to pages at least, at which a region of the
size fits, and `-1` only if there is none. -/
theorem alloc_spot_first_fit (hlayout : Layout aspace regions) (hpages : pageSize ∣ size.toNat)
    (hsize : 0 < size.toNat) (alignPow2 : UInt8) (archMmuFlags : BitVec 32) :
    FirstSpot aspace regions size (max alignPow2.toNat pageSizeShift)
      (allocSpot aspace archMmuPickSpot regions size alignPow2 archMmuFlags).1 := by
  have hmax : (if alignPow2.toNat < pageSizeShift then pageSizeShift else alignPow2.toNat) =
      max alignPow2.toNat pageSizeShift := by
    split <;> omega
  have hlarge : 1 < size.toNat := (by decide : 1 < pageSize).trans_le (Nat.le_of_dvd hsize hpages)
  have hlayout' : Layout aspace ([] ++ regions) := hlayout
  simp only [allocSpot, hmax]
  generalize hgap : checkGap aspace archMmuPickSpot none regions.head? _ _ _ = result
  rcases check_gap_first hlayout' hlarge (fun m hm => hm.base_le) hgap with
    ⟨rfl, hskip⟩ | ⟨spot, rfl, hfirst⟩
  · exact search_gaps_first hlayout' hlarge hskip
  · exact hfirst

/-- The last sixteen pages of a 64-bit address range, with a region of three pages at their
beginning and one of a page in the middle: two pages at a multiple of four go between them. -/
theorem alloc_spot_first_fit_between :
    ∃ (aspace : Aspace 64) (regions : List (Region 64)), regions.length = 2 ∧
      FirstSpot aspace regions 0x2000#64 14 0xffffffffffff4000#64 := by
  let aspace : Aspace 64 := ⟨0xffffffffffff0000#64, 0x10000#64, by decide, by decide⟩
  let low : Region 64 := ⟨0xffffffffffff0000#64, 0x3000#64, 0#32, 0#32⟩
  let high : Region 64 := ⟨0xffffffffffff8000#64, 0x1000#64, 0#32, 0#32⟩
  have hlayout : Layout aspace [low, high] := by
    refine ⟨forall_mem_cons.mpr ⟨?_, forall_mem_singleton.mpr ?_⟩, ?_⟩
    · exact ⟨by decide, by decide, by decide⟩
    · exact ⟨by decide, by decide, by decide⟩
    · exact isChain_pair.mpr (show _ ≤ _ by decide)
  have hspot : (allocSpot aspace archMmuPickSpot [low, high] 0x2000#64 14 0#32).1 =
      0xffffffffffff4000#64 := by decide
  have hfirst := alloc_spot_first_fit hlayout (by decide : pageSize ∣ (0x2000#64).toNat) (by decide)
    14 0#32
  rw [hspot] at hfirst
  exact ⟨aspace, [low, high], rfl, hfirst⟩

end NusaKernel.Vmm
