import Mathlib.Data.List.Nodup
import NusaKernel.Spifs.Commit

/-!
# The layout of the files

In the list of files the front ToC is the first, the back ToC is the last, and every file ends
before the next one starts. `find_open_run` finds a gap (`find_open_run_spec`), and a file that is
put there keeps the order.
-/

namespace NusaKernel.Spifs

open List Nat

/-- The page behind a file. -/
def endOf (vol : Volume) (file : TocFile) : ℕ := file.pageIdx + file.capacity / vol.pageSize

/-- A file ends before another one starts. -/
def Before (vol : Volume) (file other : TocFile) : Prop := endOf vol file ≤ other.pageIdx

/-- The name of a file. -/
def TocFile.name (file : TocFile) : CString := .ofBuffer file.filename

/-- A file is stored whole, it has whole pages, and they hold its length. -/
structure TocFile.Sound (vol : Volume) (file : TocFile) : Prop where
  stored : file.Stored
  pages : vol.pageSize ∣ file.capacity
  pos : 0 < file.capacity
  length_le : file.length ≤ file.capacity

/-- The list of files: those between the ToCs, and the ToCs. -/
def tableOf (vol : Volume) (tocPages : ℕ) (middle : List TocFile) : List TocFile :=
  tocFile vol tocPages .front :: (middle ++ [tocFile vol tocPages .back])

/-- The files between the ToCs are sorted by their pages, and have distinct names. -/
structure Layout (vol : Volume) (tocPages : ℕ) (middle : List TocFile) : Prop where
  sorted : (tableOf vol tocPages middle).Pairwise (Before vol)
  sound : ∀ file ∈ middle, file.Sound vol
  names : (middle.map TocFile.name).Nodup

/-- A ToC has room on the volume, and is less than 4 GiB. -/
structure Volume.HasToc (vol : Volume) (tocPages : ℕ) : Prop where
  sound : vol.Sound
  pages_pos : 0 < tocPages
  pages_le : tocPages ≤ vol.pageCount
  toc_bytes_lt : tocPages * vol.pageSize < 2 ^ 32

/-- Both ToCs have room on the volume. -/
structure Volume.Roomy (vol : Volume) (tocPages : ℕ) : Prop extends vol.HasToc tocPages where
  apart : 2 * tocPages ≤ vol.pageCount

variable {file : TocFile}

section Layout

variable {vol : Volume} {tocPages : ℕ} {middle : List TocFile} {pages : ℕ} {files : List TocFile}
  {target : TocFile}

theorem page_le_end (file : TocFile) : file.pageIdx ≤ endOf vol file := Nat.le_add_right _ _

theorem Volume.Sound.page_pos (h : vol.Sound) : 0 < vol.pageSize :=
  Nat.lt_of_lt_of_le (by decide) h.page_ge

/-- On a device of 4 GiB, less than all pages are less than 4 GiB. -/
theorem Volume.Sound.mul_lt (h : vol.Sound) (hsmall : vol.dev.totalSize ≤ 2 ^ 32)
    (hpages : pages < vol.pageCount) : pages * vol.pageSize < 2 ^ 32 := by
  have hle : (pages + 1) * vol.pageSize ≤ 2 ^ 32 :=
    Nat.le_trans (Nat.mul_le_mul_right _ hpages) (h.count ▸ hsmall)
  have hpos := h.page_pos
  rw [succ_mul] at hle
  omega

namespace Volume.HasToc

variable (h : vol.HasToc tocPages)

include h

theorem toc_capacity (pos : TocPosition) :
    (tocFile vol tocPages pos).capacity = tocPages * vol.pageSize := by
  cases pos <;> exact mod_eq_of_lt h.toc_bytes_lt

theorem toc_pages (pos : TocPosition) :
    (tocFile vol tocPages pos).capacity / vol.pageSize = tocPages := by
  rw [h.toc_capacity, Nat.mul_div_cancel _ h.sound.page_pos]

theorem back_page : (tocFile vol tocPages .back).pageIdx = vol.pageCount - tocPages := by
  have hlt := h.sound.page_count_lt
  have hle := h.pages_le
  show sub32 vol.pageCount tocPages = _
  unfold sub32
  omega

theorem front_end : endOf vol (tocFile vol tocPages .front) = tocPages := by
  rw [endOf, h.toc_pages]
  exact Nat.zero_add _

theorem back_end : endOf vol (tocFile vol tocPages .back) = vol.pageCount := by
  have hle := h.pages_le
  rw [endOf, h.toc_pages, h.back_page]
  omega

theorem toc_sound (pos : TocPosition) : (tocFile vol tocPages pos).Sound vol where
  stored := {
    page := by
      cases pos with
      | front => exact Nat.two_pow_pos 32
      | back =>
        rw [h.back_page]
        have hlt := h.sound.page_count_lt
        omega
    length := by
      cases pos <;> exact mod_lt _ (Nat.two_pow_pos 32)
    capacity := by
      cases pos <;> exact mod_lt _ (Nat.two_pow_pos 32)
    filename := by
      cases pos <;> rfl }
  pages := by
    rw [h.toc_capacity]
    exact Nat.dvd_mul_left _ _
  pos := by
    rw [h.toc_capacity]
    exact Nat.mul_pos h.pages_pos h.sound.page_pos
  length_le := by
    cases pos <;> exact Nat.le_refl _

theorem table_sound (hmiddle : ∀ file ∈ middle, file.Sound vol) :
    ∀ file ∈ tableOf vol tocPages middle, file.Sound vol :=
  forall_mem_cons.mpr ⟨h.toc_sound _,
    forall_mem_append.mpr ⟨hmiddle, forall_mem_singleton.mpr (h.toc_sound _)⟩⟩

end Volume.HasToc

/-- A file between the ToCs is behind the front ToC and before the back ToC. -/
theorem Layout.between (hroom : vol.Roomy tocPages) (h : Layout vol tocPages middle) :
    ∀ file ∈ middle, tocPages ≤ file.pageIdx ∧ endOf vol file ≤ vol.pageCount - tocPages := by
  intro file hfile
  obtain ⟨hfront, hrest⟩ := pairwise_cons.mp h.sorted
  have hback := (pairwise_append.mp hrest).2.2 file hfile _ (mem_singleton_self _)
  have hafter := hfront file (mem_append_left _ hfile)
  unfold Before at hback hafter
  rw [hroom.back_page] at hback
  rw [hroom.front_end] at hafter
  exact ⟨hafter, hback⟩

theorem Layout.end_le (hroom : vol.Roomy tocPages) (h : Layout vol tocPages middle) :
    ∀ file ∈ tableOf vol tocPages middle, endOf vol file ≤ vol.pageCount := by
  have hle := hroom.pages_le
  refine forall_mem_cons.mpr ⟨?_, forall_mem_append.mpr ⟨fun file hfile => ?_,
    forall_mem_singleton.mpr hroom.back_end.le⟩⟩
  · rw [hroom.front_end]
    omega
  · have hbetween := h.between hroom file hfile
    omega

/-! ## The check at a mount -/

theorem TocFile.Sound.pages_pos (hvol : vol.Sound) (h : file.Sound vol) :
    0 < file.capacity / vol.pageSize :=
  Nat.div_pos (le_of_dvd h.pos h.pages) hvol.page_pos

theorem consistency_check_of_sorted (hvol : vol.Sound) (hsorted : files.Pairwise (Before vol))
    (hsound : ∀ file ∈ files, file.Sound vol)
    (hend : ∀ file ∈ files, endOf vol file ≤ vol.pageCount) :
    consistencyCheck vol files = true := by
  induction files with
  | nil => rfl
  | cons file rest ih =>
    cases rest with
    | nil => rfl
    | cons next rest =>
      have hbefore := (pairwise_cons.mp hsorted).1 next mem_cons_self
      have hpages := (hsound file mem_cons_self).pages_pos hvol
      rw [consistencyCheck, if_neg]
      · exact ih (pairwise_cons.mp hsorted).2
          (forall_mem_cons.mp hsound).2
          (forall_mem_cons.mp hend).2
      · unfold Before endOf at hbefore
        unfold sub32
        omega

theorem kept_of_sound (h : ∀ file ∈ files, file.Sound vol) : kept files = files := by
  refine filter_eq_self.mpr fun file hfile => ?_
  have hpos := (h file hfile).pos
  simp only [ne_eq, decide_not, Bool.not_eq_eq_eq_not, Bool.not_true, decide_eq_false_iff_not]
  omega

theorem Layout.check (hroom : vol.Roomy tocPages) (h : Layout vol tocPages middle) :
    kept (tableOf vol tocPages middle) = tableOf vol tocPages middle ∧
      consistencyCheck vol (kept (tableOf vol tocPages middle)) = true := by
  have hsound := hroom.table_sound h.sound
  have hkept := kept_of_sound hsound
  rw [hkept]
  exact ⟨rfl, consistency_check_of_sorted hroom.sound h.sorted hsound (h.end_le hroom)⟩

/-! ## Open runs -/

theorem file_end_page_eq (hvol : vol.Sound) (h : file.Sound vol)
    (hend : endOf vol file ≤ vol.pageCount) : fileEndPage vol file = endOf vol file := by
  have hlt := hvol.page_count_lt
  unfold fileEndPage Bio.divpow2
  rw [mod_eq_of_lt h.stored.capacity, ← hvol.shift]
  unfold endOf at hend ⊢
  exact mod_eq_of_lt (by omega)

/-- A run of pages that no file uses. -/
def Open (vol : Volume) (files : List TocFile) (page pages : ℕ) : Prop :=
  ∀ file ∈ files, (file.pageIdx ≤ page → endOf vol file ≤ page) ∧
    (page < file.pageIdx → page + pages ≤ file.pageIdx)

/-- The run that `find_open_run` finds starts behind a file and ends before another one, and nothing
is in it. -/
theorem find_open_run_spec (hvol : vol.Sound) (hsmall : vol.dev.totalSize ≤ 2 ^ 32)
    (hsorted : files.Pairwise (Before vol))
    (hsound : ∀ file ∈ files, file.Sound vol)
    (hend : ∀ file ∈ files, endOf vol file ≤ vol.pageCount) (hpages : 0 < pages)
    (hfound : findOpenRun vol (pages * vol.pageSize) files ≠ noOpenRuns) :
    Open vol files (findOpenRun vol (pages * vol.pageSize) files) pages ∧
      (∃ file ∈ files, findOpenRun vol (pages * vol.pageSize) files = endOf vol file) ∧
      ∃ file ∈ files, findOpenRun vol (pages * vol.pageSize) files < file.pageIdx := by
  induction files with
  | nil => exact absurd rfl hfound
  | cons file rest ih =>
    cases rest with
    | nil => exact absurd rfl hfound
    | cons next rest =>
      obtain ⟨hfirst, hrest⟩ := pairwise_cons.mp hsorted
      have hbefore := hfirst next mem_cons_self
      have hnext := (hsound next (mem_cons_of_mem _ mem_cons_self)).pages_pos hvol
      have hnextend := hend next (mem_cons_of_mem _ mem_cons_self)
      have hlt := hvol.page_count_lt
      have hgap : sub32 next.pageIdx (endOf vol file) = next.pageIdx - endOf vol file := by
        unfold Before at hbefore
        unfold endOf at hnextend
        unfold sub32
        omega
      have hbytes : (next.pageIdx - endOf vol file) * vol.pageSize % 2 ^ 32 =
          (next.pageIdx - endOf vol file) * vol.pageSize :=
        mod_eq_of_lt (hvol.mul_lt hsmall (by unfold endOf at hnextend; omega))
      rw [findOpenRun, file_end_page_eq hvol (hsound file mem_cons_self)
        (hend file mem_cons_self)] at hfound ⊢
      rw [hgap, hbytes] at hfound ⊢
      split
      · next hfits =>
        have hroom : pages ≤ next.pageIdx - endOf vol file :=
          Nat.le_of_mul_le_mul_right hfits hvol.page_pos
        refine ⟨fun other hother => ?_, ⟨file, mem_cons_self, rfl⟩,
          next, mem_cons_of_mem _ mem_cons_self, by omega⟩
        rcases mem_cons.mp hother with rfl | hother
        · exact ⟨fun _ => Nat.le_refl _, fun hpage =>
            absurd (page_le_end other) (Nat.not_le.mpr hpage)⟩
        -- `other` starts where `next` does, or later
        have hle : next.pageIdx ≤ other.pageIdx := by
          rcases mem_cons.mp hother with rfl | hother
          · exact Nat.le_refl _
          · exact Nat.le_trans (page_le_end next) ((pairwise_cons.mp hrest).1 other hother)
        exact ⟨fun hpage => by omega, fun _ => by omega⟩
      · next hshort =>
        rw [if_neg hshort] at hfound
        obtain ⟨hopen, ⟨found, hmem, heq⟩, behind, hbehind, hlast⟩ := ih hrest
          (forall_mem_cons.mp hsound).2
          (forall_mem_cons.mp hend).2 hfound
        refine ⟨fun other hother => ?_, ⟨found, mem_cons_of_mem _ hmem, heq⟩,
          behind, mem_cons_of_mem _ hbehind, hlast⟩
        rcases mem_cons.mp hother with rfl | hother
        · have hlater : endOf vol other ≤ endOf vol found :=
            Nat.le_trans (hfirst found hmem) (page_le_end found)
          have hstart : other.pageIdx ≤ endOf vol other := page_le_end other
          rw [heq]
          exact ⟨fun _ => hlater, fun hpage => by omega⟩
        · exact hopen other hother

theorem Layout.open_run (hroom : vol.Roomy tocPages) (hsmall : vol.dev.totalSize ≤ 2 ^ 32)
    (h : Layout vol tocPages middle)
    (hpages : 0 < pages)
    (hfound : findOpenRun vol (pages * vol.pageSize) (tableOf vol tocPages middle) ≠ noOpenRuns) :
    ∃ run, findOpenRun vol (pages * vol.pageSize) (tableOf vol tocPages middle) = run ∧
      Open vol (tableOf vol tocPages middle) run pages ∧ tocPages ≤ run ∧
      run + pages ≤ vol.pageCount - tocPages := by
  obtain ⟨hopen, -, next, hnext, hlt⟩ := find_open_run_spec hroom.sound hsmall h.sorted
    (hroom.table_sound h.sound) (h.end_le hroom) hpages hfound
  refine ⟨_, rfl, hopen, ?_, ?_⟩
  · have hfront := (hopen _ mem_cons_self).1 (Nat.zero_le _)
    rwa [hroom.front_end] at hfront
  have hback := (hopen _ (mem_cons_of_mem _ (mem_append_right _
    (mem_singleton_self _)))).2
  rw [hroom.back_page] at hback
  refine hback (Nat.lt_of_lt_of_le hlt ?_)
  rcases mem_cons.mp hnext with rfl | hnext
  · exact Nat.zero_le _
  rcases mem_append.mp hnext with hnext | hnext
  · exact Nat.le_trans (page_le_end next) (h.between hroom next hnext).2
  · rw [mem_singleton.mp hnext, hroom.back_page]

/-! ## Changes of the list -/

theorem add_ascending_perm (target : TocFile) (files : List TocFile) :
    (spifsAddAscending target files).Perm (target :: files) := by
  induction files with
  | nil => exact .refl _
  | cons file rest ih =>
    rw [spifsAddAscending]
    split
    · exact .refl _
    · exact (ih.cons file).trans (.swap target file rest)

/-- A file that is put into an open run keeps the order. -/
theorem add_ascending_sorted (hsorted : files.Pairwise (Before vol))
    (hopen : Open vol files target.pageIdx (target.capacity / vol.pageSize)) :
    (spifsAddAscending target files).Pairwise (Before vol) := by
  induction files with
  | nil => exact pairwise_singleton _ _
  | cons file rest ih =>
    obtain ⟨hfirst, hrest⟩ := pairwise_cons.mp hsorted
    rw [spifsAddAscending]
    split
    · next hlt =>
      refine pairwise_cons.mpr ⟨fun other hother => ?_, hsorted⟩
      refine (hopen other hother).2 ?_
      rcases mem_cons.mp hother with rfl | hother
      · exact hlt
      · exact Nat.lt_of_lt_of_le hlt (Nat.le_trans (page_le_end file) (hfirst other hother))
    next hge =>
    refine pairwise_cons.mpr ⟨fun other hother => ?_,
      ih hrest (forall_mem_cons.mp hopen).2⟩
    rcases mem_cons.mp ((add_ascending_perm target rest).mem_iff.mp hother) with
      rfl | hother
    · exact (hopen file mem_cons_self).1 (Nat.not_lt.mp hge)
    · exact hfirst other hother

/-- A file goes between the ToCs. -/
theorem add_ascending_append {last : TocFile} (h : target.pageIdx < last.pageIdx)
    (files : List TocFile) :
    spifsAddAscending target (files ++ [last]) = spifsAddAscending target files ++ [last] := by
  induction files with
  | nil => exact if_pos h
  | cons file rest ih =>
    rw [cons_append, spifsAddAscending, spifsAddAscending, ih]
    split <;> rfl

theorem add_ascending_table (hroom : vol.Roomy tocPages)
    (h : target.pageIdx < vol.pageCount - tocPages) :
    spifsAddAscending target (tableOf vol tocPages middle) =
      tableOf vol tocPages (spifsAddAscending target middle) := by
  have hfront : ¬ target.pageIdx < (tocFile vol tocPages .front).pageIdx := Nat.not_lt_zero _
  rw [tableOf, spifsAddAscending, if_neg hfront, add_ascending_append (by rwa [hroom.back_page])]
  rfl

/-- A new file in an open run, with a new name. -/
theorem Layout.insert (h : Layout vol tocPages middle) (hroom : vol.Roomy tocPages)
    (hsound : target.Sound vol)
    (hopen : Open vol (tableOf vol tocPages middle) target.pageIdx (target.capacity / vol.pageSize))
    (hpage : target.pageIdx < vol.pageCount - tocPages)
    (hname : ∀ file ∈ middle, file.name ≠ target.name) :
    Layout vol tocPages (spifsAddAscending target middle) where
  sorted := by
    rw [← add_ascending_table hroom hpage]
    exact add_ascending_sorted h.sorted hopen
  sound file hfile := forall_mem_cons.mpr ⟨hsound, h.sound⟩ file
    ((add_ascending_perm target middle).mem_iff.mp hfile)
  names := by
    refine (((add_ascending_perm target middle).map TocFile.name).nodup_iff).mpr ?_
    refine nodup_cons.mpr ⟨fun hmem => ?_, h.names⟩
    obtain ⟨file, hfile, heq⟩ := List.mem_map.mp hmem
    exact hname file hfile heq

variable {pre post : List TocFile} {file file' : TocFile}

/-- A file is removed. -/
theorem Layout.erase (h : Layout vol tocPages (pre ++ file :: post)) :
    Layout vol tocPages (pre ++ post) := by
  have hsub : (pre ++ post).Sublist (pre ++ file :: post) :=
    (Sublist.refl pre).append (sublist_cons_self file post)
  refine ⟨h.sorted.sublist ?_, fun f hf => h.sound f (hsub.subset hf), h.names.sublist (hsub.map _)⟩
  exact (hsub.append (Sublist.refl _)).cons_cons _

/-- The length of a file is changed. -/
theorem Layout.set (h : Layout vol tocPages (pre ++ file :: post)) (hsound : file'.Sound vol)
    (hpage : file'.pageIdx = file.pageIdx) (hcapacity : file'.capacity = file.capacity)
    (hname : file'.filename = file.filename) : Layout vol tocPages (pre ++ file' :: post) := by
  -- the order depends on the pages only
  have hkey : ∀ files : List TocFile, files.Pairwise (Before vol) ↔
      (files.map fun f => (f.pageIdx, f.capacity)).Pairwise
        fun a b => a.1 + a.2 / vol.pageSize ≤ b.1 := fun files => by
    rw [pairwise_map]
    rfl
  obtain ⟨hbefore, hrest⟩ := forall_mem_append.mp h.sound
  refine ⟨(hkey _).mpr ?_, forall_mem_append.mpr
    ⟨hbefore, forall_mem_cons.mpr ⟨hsound, (forall_mem_cons.mp hrest).2⟩⟩, ?_⟩
  · have hold := (hkey _).mp h.sorted
    simp only [tableOf, map_cons, map_append, hpage, hcapacity] at hold ⊢
    exact hold
  · have hnames := h.names
    simp only [map_append, map_cons, TocFile.name, hname] at hnames ⊢
    exact hnames

end Layout

/-! ## Finding a file -/

/-- The files of a file system are laid out. -/
structure FileSystem.Laid (fs : FileSystem) (tocPages : ℕ) (middle : List TocFile) : Prop where
  files : fs.files = tableOf fs.vol tocPages middle
  layout : Layout fs.vol tocPages middle

section Finding

variable {fs : FileSystem} {tocPages : ℕ} {middle : List TocFile}

section

variable (h : fs.Laid tocPages middle) {name : CString}
include h

theorem FileSystem.Laid.user_files : fs.userFiles = middle := by
  rw [FileSystem.userFiles, h.files, tableOf, tail_cons, dropLast_concat]

/-- A file that is found is between the ToCs. -/
theorem find_file_some {i : ℕ} (hfind : findFile fs name = some i) :
    ∃ pre file post, middle = pre ++ file :: post ∧ i = pre.length + 1 := by
  rw [findFile, h.user_files] at hfind
  obtain ⟨j, hj, rfl⟩ := Option.map_eq_some_iff.mp hfind
  obtain ⟨hlt, -⟩ := findIdx?_eq_some_iff_getElem.mp hj
  refine ⟨middle.take j, middle[j], middle.drop (j + 1), ?_, ?_⟩
  · rw [getElem_cons_drop, take_append_drop]
  · rw [length_take, Nat.min_eq_left (Nat.le_of_lt hlt)]

/-- A name that is not found is not the name of a file. -/
theorem find_file_none (hname : name.strlen < maxFilenameLength)
    (hfind : findFile fs name = none) : ∀ file ∈ middle, file.name ≠ name := by
  intro file hfile heq
  rw [findFile, h.user_files, Option.map_eq_none_iff, findIdx?_eq_none_iff] at hfind
  have hdiffer := hfind file hfile
  have htake : name.bytes.take maxFilenameLength = name.bytes :=
    take_of_length_le (Nat.le_of_lt hname)
  rw [sameName, htake, ← heq] at hdiffer
  exact absurd rfl (of_decide_eq_false hdiffer)

theorem files_at {pre post : List TocFile} (hmiddle : middle = pre ++ file :: post)
    (file' : TocFile) :
    fs.files[pre.length + 1]? = some file ∧
      fs.files.set (pre.length + 1) file' = tableOf fs.vol tocPages (pre ++ file' :: post) ∧
      fs.files.eraseIdx (pre.length + 1) = tableOf fs.vol tocPages (pre ++ post) := by
  rw [h.files, tableOf, hmiddle]
  simp [tableOf, eraseIdx_append_of_length_le]

end

end Finding

end NusaKernel.Spifs
