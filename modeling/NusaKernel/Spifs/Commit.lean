import NusaKernel.Spifs.Toc

/-!
# Commits and mounts

A file system is ready if both ToCs are whole tables, the current one with the higher generation.
A mount then takes the current one (`mount_of_ready`). A commit writes pages of the other ToC only,
and makes the file system ready with the new table (`commit_ready`). When power is lost on the way,
the current ToC is still whole (`mount_after_loss`).
-/

namespace NusaKernel.Spifs

open List Nat
open Ring (block)
open Segment (store)
open Bio

/-! ## Pages that stay as they are -/

/-- A page holds the same bytes on two devices. -/
def Unchanged (vol : Volume) (disk disk' : ℕ → UInt8) (page : ℕ) : Prop :=
  block disk' (page * vol.pageSize) vol.pageSize = block disk (page * vol.pageSize) vol.pageSize

section Unchanged

variable {vol : Volume} {disk disk' disk'' : ℕ → UInt8} {page : ℕ} {bytes : List UInt8}
  {pos : TocPosition}

theorem Unchanged.refl : Unchanged vol disk disk page := rfl

theorem Unchanged.trans (h : Unchanged vol disk disk' page) (h' : Unchanged vol disk' disk'' page) :
    Unchanged vol disk disk'' page :=
  Eq.trans h' h

/-- A stretch of bytes is stored that is not part of the page. -/
theorem unchanged_store {start : ℕ}
    (h : page * vol.pageSize + vol.pageSize ≤ start ∨ start + bytes.length ≤ page * vol.pageSize) :
    Unchanged vol disk (store disk start bytes) page :=
  Segment.block_store_of_disjoint h

theorem unchanged_store_page {other : ℕ} (hne : other ≠ page) (hbytes : bytes.length =
    vol.pageSize) :
    Unchanged vol disk (store disk (other * vol.pageSize) bytes) page := by
  refine unchanged_store ?_
  rw [hbytes]
  exact page_disjoint hne (Nat.le_refl _)

/-- Writing other pages. -/
theorem unchanged_apply_writes {writes : List (ℕ × List UInt8)}
    (h : ∀ write ∈ writes, write.1 ≠ page ∧ write.2.length = vol.pageSize) :
    Unchanged vol disk (applyWrites vol disk writes) page := by
  induction writes generalizing disk with
  | nil => exact .refl
  | cons write rest ih =>
    obtain ⟨hne, hbytes⟩ := h write mem_cons_self
    exact (unchanged_store_page hne hbytes).trans (ih (forall_mem_cons.mp h).2)

theorem toc_entry_of_unchanged (hvol : vol.Sound) (k : ℕ)
    (h : Unchanged vol disk disk' (tocPageAt vol pos (k / vol.perPage))) :
    tocEntry vol disk' pos k = tocEntry vol disk pos k := by
  rw [← cursor_get_eq hvol, ← cursor_get_eq hvol, cursorAt, cursorAt, h]

/-- A table stays as long as the pages of its ToC do. -/
theorem Holds.of_unchanged (hvol : vol.Sound) {numEntries generation : ℕ} {files : List TocFile}
    (h : Holds vol disk pos numEntries generation files) {tocPages : ℕ}
    (hentries : numEntries + 2 = tocPages * vol.perPage)
    (hsame : ∀ j < tocPages, Unchanged vol disk disk' (tocPageAt vol pos j)) :
    Holds vol disk' pos numEntries generation files where
  __ := h
  entries k entry hk := by
    have hlt := (List.getElem?_eq_some_iff.mp hk).1
    rw [tocTable, length_cons, length_append, table_body_length h.length_le,
      length_singleton] at hlt
    rw [← h.entries k entry hk]
    refine toc_entry_of_unchanged hvol _ (hsame _ ?_)
    exact Nat.div_lt_of_lt_mul (by rw [Nat.mul_comm, ← hentries]; omega)

end Unchanged

variable {tocPages : ℕ} {vol : Volume}

@[simp] theorem TocPosition.other_other (pos : TocPosition) : pos.other.other = pos := by
  cases pos <;> rfl

/-- Pages of the two ToCs are different ones, if the ToCs do not meet. -/
theorem toc_page_at_ne (h : 2 * tocPages ≤ vol.pageCount) (pos : TocPosition)
    {i j : ℕ} (hi : i < tocPages) (hj : j < tocPages) :
    tocPageAt vol pos.other i ≠ tocPageAt vol pos j := by
  cases pos with
  | front =>
    show vol.pageCount - 1 - i ≠ j
    omega
  | back =>
    show i ≠ vol.pageCount - 1 - j
    omega

/-! ## Ready file systems -/

/-- The current ToC is a whole table. It has the files `old`, which are those of the last commit. -/
structure System.Current (s : System) (tocPages : ℕ) (old : List TocFile) : Prop where
  fits : s.fs.Fits tocPages
  apart : 2 * tocPages ≤ s.fs.vol.pageCount
  volume : volumeOf s.fs.vol.dev = .ok s.fs.vol
  current : Holds s.fs.vol s.disk s.fs.tocPosition s.fs.numEntries s.fs.generation old

/-- Both ToCs are whole tables, and the other one is older. -/
structure System.Ready (s : System) (tocPages : ℕ) (old : List TocFile) : Prop
    extends s.Current tocPages old where
  other : ∃ generation files, generation < s.fs.generation ∧
    Holds s.fs.vol s.disk s.fs.tocPosition.other s.fs.numEntries generation files

variable {disk : ℕ → UInt8}

/-- A mount takes the ToC with the higher generation. -/
theorem mount_of_holds {dev : Bdev} {pos : TocPosition} {numEntries generation : ℕ}
    {files : List TocFile} (hvolume : volumeOf dev = .ok vol) (hvol : vol.Sound)
    (h : Holds vol disk pos numEntries generation files)
    (hother : getTocGeneration vol disk pos.other < generation)
    (hcheck : consistencyCheck vol (kept files) = true) :
    spifsMount dev disk = .ok ⟨vol, generation, numEntries, pos, kept files⟩ := by
  have hgeneration := generation_of_holds hvol h
  have hmount := mount_toc_of_holds hvol h generation
  rw [if_pos hcheck] at hmount
  unfold spifsMount
  rw [hvolume]
  dsimp only
  cases pos with
  | front =>
    rw [TocPosition.other] at hother
    rw [hgeneration, if_neg (by unfold corruptToc; omega), if_pos hother,
      Nat.max_eq_left (Nat.le_of_lt hother)]
    exact hmount
  | back =>
    rw [TocPosition.other] at hother
    rw [hgeneration, if_neg (by unfold corruptToc; omega), if_neg (by omega),
      Nat.max_eq_right (Nat.le_of_lt hother)]
    exact hmount

variable {s : System} {old : List TocFile}

/-- Mounting a ready file system gives the files of the last commit. -/
theorem mount_of_ready (h : s.Ready tocPages old)
    (hcheck : consistencyCheck s.fs.vol (kept old) = true) :
    spifsMount s.fs.vol.dev s.disk = .ok { s.fs with files := kept old } := by
  obtain ⟨generation, files, hlt, hother⟩ := h.other
  refine mount_of_holds h.volume h.fits.vol h.current ?_ hcheck
  rwa [generation_of_holds h.fits.vol hother]

/-- Changes outside of the ToCs leave a file system ready. -/
theorem System.Ready.of_unchanged {s' : System} (h : s.Ready tocPages old)
    (hfits : s'.fs.Fits tocPages) (hsame : s'.fs = { s.fs with files := s'.fs.files })
    (hpages : ∀ pos, ∀ j < tocPages, Unchanged s.fs.vol s.disk s'.disk (tocPageAt s.fs.vol pos j)) :
    s'.Ready tocPages old := by
  obtain ⟨generation, files, hlt, hother⟩ := h.other
  have hvol := h.fits.vol
  have hentries := h.fits.entries
  refine ⟨⟨hfits, ?_, ?_, ?_⟩, generation, files, ?_⟩
  · rw [hsame]
    exact h.apart
  · rw [hsame]
    exact h.volume
  · rw [hsame]
    exact h.current.of_unchanged hvol hentries (hpages _)
  · rw [hsame]
    exact ⟨hlt, hother.of_unchanged hvol hentries (hpages _)⟩

variable {fs : FileSystem}

/-- A commit writes pages of the volume, and none of the current ToC if the ToCs do not meet. -/
theorem commit_write_page (h : fs.Fits tocPages) {write : ℕ × List UInt8}
    (hwrite : write ∈ commitWrites fs) :
    write.1 < fs.vol.pageCount ∧ write.2.length = fs.vol.pageSize ∧
      (2 * tocPages ≤ fs.vol.pageCount →
        ∀ j < tocPages, write.1 ≠ tocPageAt fs.vol fs.tocPosition j) := by
  obtain ⟨i, hi, hpage, hbytes⟩ := (commit_writes_hold h fun _ => 0).1 write hwrite
  have hpages := h.pages
  rw [hpage]
  exact ⟨toc_page_at_lt _ (by omega), hbytes, fun hapart j hj => toc_page_at_ne hapart _ hi hj⟩

/-- The device after a commit. -/
def committedDisk (s : System) : ℕ → UInt8 := applyWrites s.fs.vol s.disk (commitWrites s.fs)

theorem commit_eq (h : s.fs.Fits tocPages) :
    spifsCommitToc s = (noError, ⟨s.fs.committed, committedDisk s⟩) := by
  rw [spifsCommitToc, write_pages_eq h.vol fun write hwrite =>
    ⟨(commit_write_page h hwrite).1, (commit_write_page h hwrite).2.1⟩]
  rfl

theorem FileSystem.Fits.committed (h : fs.Fits tocPages) : fs.committed.Fits tocPages :=
  { h with }

theorem FileSystem.Fits.entries_le (h : fs.Fits tocPages) :
    fs.numEntries + 2 ≤ fs.vol.pageCount * fs.vol.perPage ∧ fs.numEntries < 2 ^ 32 := by
  have hle : fs.numEntries + 2 ≤ fs.vol.pageCount * fs.vol.perPage := by
    rw [h.entries]
    exact Nat.mul_le_mul_right _ h.pages
  have hbytes : spifsEntryLength * (tocPages * fs.vol.perPage) < 2 ^ 32 := by
    rw [Nat.mul_left_comm, ← h.vol.per_page]
    exact h.bytes_lt
  have hentries := h.entries
  refine ⟨hle, ?_⟩
  unfold spifsEntryLength at hbytes
  omega

/-- After a commit its ToC is a whole table. -/
theorem commit_holds (h : s.fs.Fits tocPages) :
    Holds s.fs.vol (committedDisk s) s.fs.targetToc s.fs.numEntries s.fs.targetGeneration
      s.fs.files := by
  obtain ⟨hle, hlt⟩ := h.entries_le
  exact ⟨(commit_writes_hold h s.disk).2, h.stored, h.length_le, hle, hlt,
    mod_lt _ (Nat.two_pow_pos 32)⟩

theorem commit_current (h : s.fs.Fits tocPages) (hapart : 2 * tocPages ≤ s.fs.vol.pageCount)
    (hvolume : volumeOf s.fs.vol.dev = .ok s.fs.vol) :
    System.Current ⟨s.fs.committed, committedDisk s⟩ tocPages s.fs.files :=
  ⟨{ h with }, hapart, hvolume, commit_holds h⟩

/-- A table is committed while the old one is on the device: then both are. -/
theorem commit_ready (h : s.Current tocPages old) (hgeneration : s.fs.generation + 1 < 2 ^ 32) :
    System.Ready ⟨s.fs.committed, committedDisk s⟩ tocPages s.fs.files := by
  refine ⟨commit_current h.fits h.apart h.volume, s.fs.generation, old, ?_, ?_⟩
  · exact (lt_succ_self _).trans_eq (mod_eq_of_lt hgeneration).symm
  show Holds s.fs.vol _ s.fs.tocPosition.other.other _ _ _
  rw [TocPosition.other_other]
  refine h.current.of_unchanged h.fits.vol h.fits.entries fun j hj => ?_
  exact unchanged_apply_writes fun write hwrite =>
    ⟨(commit_write_page h.fits hwrite).2.2 h.apart j hj, (commit_write_page h.fits hwrite).2.1⟩

/-! ## Loss of power -/

/-- What the device can hold when power is lost during page writes: some of them are done, in
their order, and the one that was going on has left any bytes in its page. -/
inductive PowerLoss (vol : Volume) (disk : ℕ → UInt8) (writes : List (ℕ × List UInt8)) :
    (ℕ → UInt8) → Prop where
  | before (k : ℕ) : PowerLoss vol disk writes (applyWrites vol disk (writes.take k))
  | during (k : ℕ) {page : ℕ} {bytes junk : List UInt8} (hwrite : writes[k]? = some (page, bytes))
      (hjunk : junk.length = vol.pageSize) :
      PowerLoss vol disk writes (applyWrites vol disk (writes.take k ++ [(page, junk)]))

/-- The ToC that a commit writes is neither as before the commit nor as after it. -/
def PartlyWritten (s : System) (tocPages : ℕ) (disk : ℕ → UInt8) : Prop :=
  (∃ j < tocPages, ¬ Unchanged s.fs.vol s.disk disk (tocPageAt s.fs.vol s.fs.targetToc j)) ∧
    ∃ j < tocPages, ¬ Unchanged s.fs.vol (committedDisk s) disk
      (tocPageAt s.fs.vol s.fs.targetToc j)

/-- A commit that is interrupted does not touch the current ToC. -/
theorem PowerLoss.unchanged (h : fs.Fits tocPages) (hapart : 2 * tocPages ≤ fs.vol.pageCount)
    {disk' : ℕ → UInt8}
    (hloss : PowerLoss fs.vol disk (commitWrites fs) disk') {j : ℕ} (hj : j < tocPages) :
    Unchanged fs.vol disk disk' (tocPageAt fs.vol fs.tocPosition j) := by
  have hwrite : ∀ write ∈ commitWrites fs,
      write.1 ≠ tocPageAt fs.vol fs.tocPosition j ∧ write.2.length = fs.vol.pageSize :=
    fun write hmem => ⟨(commit_write_page h hmem).2.2 hapart j hj, (commit_write_page h hmem).2.1⟩
  cases hloss with
  | before k => exact unchanged_apply_writes fun write hmem => hwrite write (mem_of_mem_take hmem)
  | during k hat hjunk =>
    exact unchanged_apply_writes (forall_mem_append.mpr
      ⟨fun write hmem => hwrite write (mem_of_mem_take hmem),
        forall_mem_singleton.mpr ⟨(hwrite _ (mem_of_getElem? hat)).1, hjunk⟩⟩)

/-- A mount after power was lost during a commit gives the files of the last commit or the new
ones, as long as a ToC that is partly written fails its checksum. -/
theorem mount_after_loss (h : s.Ready tocPages old) (hgeneration : s.fs.generation + 1 < 2 ^ 32)
    (hloss : PowerLoss s.fs.vol s.disk (commitWrites s.fs) disk)
    (hcrc : PartlyWritten s tocPages disk →
      getTocGeneration s.fs.vol disk s.fs.targetToc = corruptToc)
    (hold : consistencyCheck s.fs.vol (kept old) = true)
    (hnew : consistencyCheck s.fs.vol (kept s.fs.files) = true) :
    spifsMount s.fs.vol.dev disk = .ok { s.fs with files := kept old } ∨
      spifsMount s.fs.vol.dev disk = .ok { s.fs.committed with files := kept s.fs.files } := by
  have hvol := h.fits.vol
  have hentries := h.fits.entries
  obtain ⟨generation, files, hlt, hother⟩ := h.other
  have hcurrent : Holds s.fs.vol disk s.fs.tocPosition s.fs.numEntries s.fs.generation old :=
    h.current.of_unchanged hvol hentries fun j hj => hloss.unchanged h.fits h.apart hj
  by_cases hbefore : ∀ j < tocPages,
      Unchanged s.fs.vol s.disk disk (tocPageAt s.fs.vol s.fs.targetToc j)
  · -- the other ToC is the one of the commit before the last
    refine .inl (mount_of_holds h.volume hvol hcurrent ?_ hold)
    rwa [generation_of_holds hvol (hother.of_unchanged hvol hentries hbefore)]
  by_cases hafter : ∀ j < tocPages,
      Unchanged s.fs.vol (committedDisk s) disk (tocPageAt s.fs.vol s.fs.targetToc j)
  · -- all pages were written
    refine .inr (mount_of_holds h.volume hvol
      ((commit_holds h.fits).of_unchanged hvol hentries hafter) ?_ hnew)
    show getTocGeneration s.fs.vol disk s.fs.tocPosition.other.other < s.fs.targetGeneration
    rw [TocPosition.other_other, generation_of_holds hvol hcurrent]
    exact (lt_succ_self _).trans_eq (mod_eq_of_lt hgeneration).symm
  refine .inl (mount_of_holds h.volume hvol hcurrent ?_ hold)
  push Not at hbefore hafter
  have hcorrupt := hcrc ⟨hbefore, hafter⟩
  rw [FileSystem.targetToc] at hcorrupt
  rw [hcorrupt]
  exact Nat.lt_of_le_of_lt (Nat.zero_le _) hlt

end NusaKernel.Spifs
