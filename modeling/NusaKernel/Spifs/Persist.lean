import NusaKernel.Spifs.Calls

/-!
# What stays on the device

From a formatted and mounted volume on, every call keeps the layout of the files, and a mount gives
back the list of files (`layout_kept`). If power is lost while a call commits its ToC, a mount gives
the list from before the call or the one from after it (`commit_atomic`). A file that is created
with a length in the last page below 4 GiB gets no capacity at all, since the length is rounded up
in 32 bits, and a mount drops it (`capacity_rounds_to_zero`, `mount_after_loss_drops_file`).
-/

namespace NusaKernel.Spifs

open List
open Ring (block)
open Segment (store)
open Bio
open Transition (Reachable)

section Runs

variable {s : System} {tocPages : ℕ}

section

variable (h : Reachable System.step Orderly (Formatted tocPages) s)
include h

theorem reachable_good :
    s.Good tocPages :=
  h.invariant (P := fun s => s.Good tocPages) Formatted.good fun hgood => hgood.step

/-- In every state the files lie between the ToCs, sorted and disjoint, each in whole pages that
hold its length, with distinct names, and a mount of the device gives back the file system. -/
theorem layout_kept :
    s.fs.files = tableOf s.fs.vol tocPages s.fs.userFiles ∧
      s.fs.userFiles.Pairwise (Before s.fs.vol) ∧
      (∀ file ∈ s.fs.userFiles,
        tocPages ≤ file.pageIdx ∧ endOf s.fs.vol file ≤ s.fs.vol.pageCount - tocPages ∧
        s.fs.vol.pageSize ∣ file.capacity ∧ 0 < file.capacity ∧ file.length ≤ file.capacity) ∧
      (s.fs.userFiles.map TocFile.name).Nodup ∧
      spifsMount s.fs.vol.dev s.disk = .ok s.fs := by
  have hgood := reachable_good h
  obtain ⟨middle, hlaid⟩ := hgood.laid
  have hlayout := hlaid.layout
  rw [hlaid.user_files]
  refine ⟨hlaid.files, ?_, fun file hfile => ?_, hlayout.names, hgood.ready.mount hlaid⟩
  · exact (pairwise_append.mp (pairwise_cons.mp hlayout.sorted).2).1
  · obtain ⟨hlow, hhigh⟩ := hlayout.between hgood.roomy file hfile
    have hsound := hlayout.sound file hfile
    exact ⟨hlow, hhigh, hsound.pages, hsound.pos, hsound.length_le⟩

/-- Power is lost before or during a page write of the commit of a call. A mount gives the list of
files from before the call or the one from after it, as long as a ToC that is partly written fails
its checksum. -/
theorem commit_atomic {op : Op}
    (horderly : Orderly s op) {s' : System} (hbegin : s.begin op = .commit s') {disk : ℕ → UInt8}
    (hloss : PowerLoss s'.fs.vol s'.disk (commitWrites s'.fs) disk)
    (hcrc : PartlyWritten s' tocPages disk →
      getTocGeneration s'.fs.vol disk s'.fs.targetToc = corruptToc) :
    spifsMount s.fs.vol.dev disk = .ok s.fs ∨
      spifsMount s.fs.vol.dev disk = .ok (s.call op).2.fs := by
  have hgood := reachable_good h
  have hsound := begin_sound hgood horderly
  rw [hbegin] at hsound
  have hpending : s.Pending s' tocPages := hsound
  obtain ⟨middle, hlaid⟩ := hgood.laid
  obtain ⟨middle', hlaid'⟩ := hpending.laid
  have hroom' := hpending.ready.toCurrent.roomy
  have hvol : s'.fs.vol = s.fs.vol := by
    rw [hpending.same]
  obtain ⟨hkept, hcheck⟩ := hlaid.layout.check hgood.roomy
  obtain ⟨hkept', hcheck'⟩ := hlaid'.layout.check hroom'
  rw [← hlaid.files] at hkept hcheck
  rw [← hlaid'.files] at hkept' hcheck'
  rw [← hvol] at hcheck
  have hnext : s'.fs.generation + 1 < 2 ^ 32 := by
    rw [hpending.same]
    exact horderly.1
  have hmount := mount_after_loss hpending.ready hnext hloss hcrc hcheck hcheck'
  rw [hkept, hkept', hvol] at hmount
  rw [call_eq_of_commit hbegin (commit_eq hpending.ready.fits)]
  refine hmount.imp (fun hold => hold.trans ?_) id
  rw [hpending.same]

end

end Runs

/-! ## A small volume -/

variable {fs : FileSystem}

/-- What a format of a volume with room for its ToCs writes. -/
theorem format_eq {dev : Bdev} {vol : Volume} {args : Option ℕ} (hvolume : volumeOf dev = .ok vol)
    (hentry : vol.pageSize % spifsEntryLength = 0) (hwhole : dev.totalSize % vol.pageSize = 0)
    {numEntries : ℕ} (hnum : args.getD 1 * (vol.pageSize / spifsEntryLength) % 2 ^ 32 = numEntries)
    (hentries : 4 < numEntries) (hfs : formatted vol (args.getD 1) numEntries = fs) {tocPages : ℕ}
    (hfits : fs.Fits tocPages) (disk : ℕ → UInt8) :
    spifsFormat dev args disk =
      (noError, committedDisk ⟨fs.committed, committedDisk ⟨fs, disk⟩⟩) := by
  obtain ⟨result, hresult⟩ : ∃ r, spifsFormat dev args disk = r := ⟨_, rfl⟩
  rw [hresult]
  unfold spifsFormat at hresult
  split at hresult
  · next hv =>
    rw [hvolume] at hv
    cases hv
  next vol' hv =>
  rw [hvolume] at hv
  cases hv
  rw [if_neg (not_not.mpr hentry), if_neg (not_not.mpr hwhole), hnum,
    if_neg (Nat.not_le.mpr hentries), hfs, commit_eq (s := ⟨fs, disk⟩) hfits] at hresult
  dsimp only at hresult
  rw [commit_eq hfits.committed] at hresult
  exact hresult.symm

theorem small_count_lt : 8 < 2 ^ 32 := by decide

/-- Eight pages of 256 bytes. -/
def smallDevice : Bdev where
  blockShift := 8
  blockCount := 8
  geometry := []
  eraseByte := 0xff
  cacheAlignedReads := false
  cacheAlignedWrites := false
  shift_lt := by decide
  count_lt := small_count_lt
  geometry_in := fun _ hgeo => nomatch hgeo

def smallVolume : Volume := ⟨smallDevice, 256, 8, 1⟩

/-- The file system on it after a format with one page for each ToC. -/
def smallFs : FileSystem := (formatted smallVolume 1 8).committed.committed

theorem small_volume_eq : volumeOf smallDevice = .ok smallVolume := rfl

theorem small_volume_roomy : smallVolume.Roomy 1 :=
  ⟨⟨(volume_sound small_volume_eq rfl (by decide)).1, by decide, by decide, by decide⟩, by decide⟩

/-- A format of the volume with room for both ToCs succeeds. -/
theorem small_format (args : Option ℕ) (hroom : smallVolume.Roomy (args.getD 1)) :
    ∃ disk, spifsFormat smallDevice args (fun _ => 0) = (noError, disk) := by
  have hle := hroom.pages_le
  have hpos := hroom.pages_pos
  have hfits := formatted_fits hroom.toHasToc (show 4 < args.getD 1 * 8 by omega)
  exact ⟨_, format_eq small_volume_eq (show 256 % spifsEntryLength = 0 from rfl) rfl
    (Nat.mod_eq_of_lt (show args.getD 1 * 8 < 2 ^ 32 by have : args.getD 1 ≤ 8 := hle; omega))
    (show 4 < args.getD 1 * 8 by omega) rfl hfits _⟩

/-- A format of the volume and a mount give the file system without files. -/
theorem small_mounted (args : Option ℕ) (hroom : smallVolume.Roomy (args.getD 1)) : ∃ disk,
    Formatted (args.getD 1) ⟨(formatted smallVolume (args.getD 1)
      (args.getD 1 * smallVolume.perPage)).committed.committed, disk⟩ := by
  obtain ⟨disk, hformat⟩ := small_format args hroom
  obtain ⟨fs, hmount, -, -, rfl⟩ := format_ready small_volume_eq (by decide) hroom.toc_bytes_lt
    hroom.pages_le hformat hroom.apart
  exact ⟨disk, smallDevice, smallVolume, args, _, small_volume_eq, by decide, by decide, rfl,
    hroom.apart, hformat, hmount⟩

theorem small_formatted : ∃ disk, Formatted 1 ⟨smallFs, disk⟩ :=
  small_mounted none small_volume_roomy

/-! ## ToCs that meet -/

section Meet

variable {vol : Volume} {disk : ℕ → UInt8} {pos : TocPosition} {tocPages : ℕ}

/-- The generation of a ToC is that of its header, unless it is corrupt. -/
theorem generation_cases (hvol : vol.Sound) (hcount : 0 < vol.pageCount) (disk : ℕ → UInt8)
    (pos : TocPosition) :
    getTocGeneration vol disk pos = corruptToc ∨
      headerMagic (tocEntry vol disk pos 0) = fsMagic ∧
        getTocGeneration vol disk pos = headerGeneration (tocEntry vol disk pos 0) := by
  rw [getTocGeneration, cursor_init_eq hvol hcount]
  dsimp only
  rw [checkedGeneration, cursor_get_eq hvol]
  split
  · exact .inl rfl
  next hmagic =>
  split
  · exact .inl rfl
  split
  · exact .inl rfl
  split
  · exact .inl rfl
  split
  · exact .inl rfl
  · exact .inr ⟨not_not.mp hmagic, rfl⟩

end Meet

/-! ## A format and a mount -/

/-- The commit of a file that is new and gets an open run. -/
theorem create_begin_eq {name : CString} {len capacity run start : ℕ}
    (hname : 0x2f ∉ name.bytes ∧ name.strlen < maxFilenameLength) (hlen : len ≤ 0xFFFFFFFF)
    (hfind : findFile fs name = none) (hcount : fs.files.length < fs.numEntries)
    (hcapacity : newCapacity fs.vol len = capacity)
    (hrun : findOpenRun fs.vol capacity fs.files = run) (hopen : run ≠ noOpenRuns)
    (hstart : run * fs.vol.pageSize % 2 ^ 32 = start)
    (hinside : start + capacity ≤ fs.vol.dev.totalSize) (disk : ℕ → UInt8) :
    createBegin ⟨fs, disk⟩ name len = .commit
      ⟨{ fs with files := spifsAddAscending ⟨run, len, capacity, filenameOf name⟩ fs.files },
        store disk start (replicate capacity fs.vol.dev.eraseByte)⟩ := by
  unfold createBegin
  rw [if_neg hname.1, if_neg (Nat.not_le.mpr hname.2), if_neg (Nat.not_lt.mpr hlen), hfind,
    if_neg (by decide), if_neg (Nat.not_le.mpr hcount), hcapacity]
  dsimp only
  rw [hrun, if_neg hopen, hstart, bio_erase_of_le hinside]
  exact if_neg (not_not.mpr rfl)

/-- The name "a". -/
def nameA : CString := ⟨[0x61], by decide⟩

/-- A file with 300 bytes gets the two pages behind the front ToC. -/
theorem small_create (disk : ℕ → UInt8) :
    System.begin ⟨smallFs, disk⟩ (.create nameA 300) =
      .commit ⟨{ smallFs with files := tableOf smallVolume 1 [⟨1, 300, 512, filenameOf nameA⟩] },
        store disk 256 (replicate 512 0xff)⟩ := by
  have hadd : spifsAddAscending ⟨1, 300, 512, filenameOf nameA⟩ smallFs.files =
    tableOf smallVolume 1 [⟨1, 300, 512, filenameOf nameA⟩] := by decide
  rw [← hadd]
  exact create_begin_eq (by decide) (by decide) (by decide) (by decide) (by decide) (by decide)
    (by decide) (by decide) (by decide) disk

theorem small_orderly (disk : ℕ → UInt8) : Orderly ⟨smallFs, disk⟩ (.create nameA 300) :=
  ⟨show smallFs.generation + 1 < 2 ^ 32 by decide,
    show 300 ≤ 2 ^ 32 - smallFs.vol.pageSize by decide⟩

/-- A file was created on the small volume. -/
theorem layout_kept_small : ∃ s, Reachable System.step Orderly (Formatted 1) s ∧
    s.fs.userFiles = [⟨1, 300, 512, filenameOf nameA⟩] ∧
    s.fs.userFiles.Pairwise (Before s.fs.vol) ∧ spifsMount s.fs.vol.dev s.disk = .ok s.fs := by
  obtain ⟨disk, hformatted⟩ := small_formatted
  have hstart : Reachable System.step Orderly (Formatted 1) ⟨smallFs, disk⟩ := .init hformatted
  have hsound := begin_sound (reachable_good hstart) (small_orderly disk)
  rw [small_create] at hsound
  have hcall := call_eq_of_commit (small_create disk) (commit_eq (System.Pending.ready hsound).fits)
  have hreach := hstart.step (small_orderly disk) rfl
  rw [hcall] at hreach
  obtain ⟨-, hsorted, -, -, hmount⟩ := layout_kept hreach
  exact ⟨_, hreach, rfl, hsorted, hmount⟩

/-- The small volume with two pages for each ToC. -/
def twoPageFs : FileSystem := (formatted smallVolume 2 16).committed.committed

/-- A new file goes behind the two pages of the front ToC. -/
theorem two_page_create (disk : ℕ → UInt8) :
    System.begin ⟨twoPageFs, disk⟩ (.create nameA 300) = .commit
      ⟨{ twoPageFs with
          files := spifsAddAscending ⟨2, 300, 512, filenameOf nameA⟩ twoPageFs.files },
        store disk 512 (replicate 512 0xff)⟩ :=
  create_begin_eq (by decide) (by decide) (by decide) (by decide) (by decide) (by decide)
    (by decide) (by decide) (by decide) disk

/-- Power is lost while the first of the two pages of the back ToC is written, which then holds
zeros. -/
theorem commit_atomic_small : ∃ s s' disk, Reachable System.step Orderly (Formatted 2) s ∧
    s.begin (.create nameA 300) = .commit s' ∧
    disk = applyWrites s'.fs.vol s'.disk [(7, replicate 256 0)] ∧
    (spifsMount s.fs.vol.dev disk = .ok s.fs ∨
      spifsMount s.fs.vol.dev disk = .ok (s.call (.create nameA 300)).2.fs) := by
  have hroom : smallVolume.Roomy 2 :=
    ⟨⟨small_volume_roomy.sound, by decide, by decide, by decide⟩, by decide⟩
  obtain ⟨disk, hformatted⟩ := small_mounted (some 2) hroom
  have hstart : Reachable System.step Orderly (Formatted 2) ⟨twoPageFs, disk⟩ := .init hformatted
  have horderly : Orderly ⟨twoPageFs, disk⟩ (.create nameA 300) :=
    ⟨show twoPageFs.generation + 1 < 2 ^ 32 by decide,
      show 300 ≤ 2 ^ 32 - twoPageFs.vol.pageSize by decide⟩
  have hbegin := two_page_create disk
  generalize hs : (⟨{ twoPageFs with
      files := spifsAddAscending ⟨2, 300, 512, filenameOf nameA⟩ twoPageFs.files },
    store disk 512 (replicate 512 0xff)⟩ : System) = s' at hbegin
  have hvol : s'.fs.vol = smallVolume := hs ▸ rfl
  have htarget : s'.fs.targetToc = .back := hs ▸ rfl
  have hfirst : ((commitWrites s'.fs)[0]?).map Prod.fst = some 7 := by
    rw [← hs]
    dsimp only
    decide +kernel
  obtain ⟨⟨page, bytes⟩, hwrite, rfl⟩ := Option.map_eq_some_iff.mp hfirst
  refine ⟨_, s', _, hstart, hbegin, rfl, commit_atomic hstart horderly hbegin
    (.during 0 hwrite (hvol ▸ length_replicate)) fun _ => ?_⟩
  rw [hvol, htarget]
  have hentry : tocEntry smallVolume (applyWrites smallVolume s'.disk [(7, replicate 256 0)]) .back
      0 = emptyEntry := by
    rw [show replicate 256 (0 : UInt8) = block (fun _ => 0) 0 256 by decide +kernel]
    exact @toc_entry_store smallVolume _ .back hroom.sound 0 0 (by decide) fun _ => 0
  rcases generation_cases hroom.sound (by decide)
    (applyWrites smallVolume s'.disk [(7, replicate 256 0)]) .back with hbad | ⟨hmagic, -⟩
  · exact hbad
  · rw [hentry] at hmagic
    exact absurd hmagic (by decide)

/-! ## A length that cannot be rounded up -/

/-- The small volume with a file of 4 GiB less one byte. -/
def hugeFs : FileSystem :=
  { smallFs with files := tableOf smallVolume 1 [⟨1, 2 ^ 32 - 1, 0, filenameOf nameA⟩] }

/-- The file gets no page. -/
theorem huge_create (disk : ℕ → UInt8) :
    createBegin ⟨smallFs, disk⟩ (trimName nameA) (2 ^ 32 - 1) = .commit ⟨hugeFs, disk⟩ := by
  have hadd : spifsAddAscending ⟨1, 2 ^ 32 - 1, 0, filenameOf nameA⟩ smallFs.files =
    tableOf smallVolume 1 [⟨1, 2 ^ 32 - 1, 0, filenameOf nameA⟩] := by decide
  have hbegin : createBegin ⟨smallFs, disk⟩ (trimName nameA) (2 ^ 32 - 1) = .commit
      ⟨{ smallFs with
          files := spifsAddAscending ⟨1, 2 ^ 32 - 1, 0, filenameOf nameA⟩ smallFs.files },
        store disk 256 (replicate 0 0xff)⟩ :=
    create_begin_eq (by decide) (by decide) (by decide) (by decide) (by decide) (by decide)
      (by decide) (by decide) (by decide) disk
  rw [replicate_zero, Segment.store_nil] at hbegin
  rw [hbegin]
  exact congrArg (fun files => Begun.commit ⟨{ smallFs with files := files }, disk⟩) hadd

/-- The table with a file without pages can be stored. -/
theorem empty_file_fits {len : ℕ} (hvol : fs.vol = smallVolume) (hentries : fs.numEntries = 6)
    (hfiles : fs.files = tableOf smallVolume 1 [⟨1, len, 0, filenameOf nameA⟩])
    (hlen : len < 2 ^ 32) : fs.Fits 1 := by
  refine ⟨hvol ▸ small_volume_roomy.sound, ?_, hvol ▸ by decide, hvol ▸ by decide, ?_, ?_⟩
  · rw [hvol, hentries]
    decide
  · rw [hfiles, hentries]
    exact (by decide : 3 ≤ 6)
  rw [hfiles]
  show ∀ file ∈ [tocFile smallVolume 1 .front, ⟨1, len, 0, filenameOf nameA⟩,
    tocFile smallVolume 1 .back], file.Stored
  simp only [forall_mem_cons]
  exact ⟨(small_volume_roomy.toc_sound _).stored, ⟨show 1 < 2 ^ 32 by decide, hlen,
    show 0 < 2 ^ 32 by decide, show (filenameOf nameA).length = _ by decide⟩,
    (small_volume_roomy.toc_sound _).stored, fun _ hfile => nomatch hfile⟩

theorem huge_fits : hugeFs.Fits 1 := empty_file_fits rfl rfl rfl (by decide)

/-- The file is created on a formatted volume, and its entry is committed. -/
theorem huge_created : ∃ disk disk', Formatted 1 ⟨smallFs, disk⟩ ∧
    System.call ⟨smallFs, disk⟩ (.create nameA (2 ^ 32 - 1)) =
      (noError, ⟨hugeFs.committed, disk'⟩) ∧
    System.Ready ⟨hugeFs.committed, disk'⟩ 1 hugeFs.files := by
  obtain ⟨disk, hformatted⟩ := small_formatted
  have hready : System.Ready ⟨hugeFs, disk⟩ 1 smallFs.files :=
    hformatted.good.ready.of_unchanged huge_fits rfl fun _ _ _ => Unchanged.refl
  obtain ⟨disk', hdisk'⟩ : ∃ d, committedDisk ⟨hugeFs, disk⟩ = d := ⟨_, rfl⟩
  have hcommit := commit_eq (s := ⟨hugeFs, disk⟩) huge_fits
  have hnext := commit_ready hready.toCurrent (show hugeFs.generation + 1 < 2 ^ 32 by decide)
  rw [hdisk'] at hcommit hnext
  refine ⟨disk, disk', hformatted, ?_, hnext⟩
  rw [System.call, spifsCreate, huge_create]
  dsimp only
  rw [hcommit]
  rfl

theorem huge_check : consistencyCheck smallVolume (kept hugeFs.files) = true := by decide

/-- The call reports success, but the file has less capacity than its length, and a mount does not
give it back. -/
theorem capacity_rounds_to_zero : ∃ s s', Formatted 1 s ∧
    s.call (.create nameA (2 ^ 32 - 1)) = (noError, s') ∧
    s'.fs.userFiles = [⟨1, 2 ^ 32 - 1, 0, filenameOf nameA⟩] ∧
    ∃ fs, spifsMount s'.fs.vol.dev s'.disk = .ok fs ∧ fs.userFiles = [] := by
  obtain ⟨disk, disk', hformatted, hcall, hready⟩ := huge_created
  refine ⟨_, _, hformatted, hcall, ?_, _, mount_of_ready hready huge_check, ?_⟩
  · show hugeFs.userFiles = _
    decide
  · rfl

/-- The file is then truncated, and power is lost before the first page write of the commit. A mount
gives a list without the file, which is neither the old list nor the new one. -/
theorem mount_after_loss_drops_file : ∃ s s₁ s₂, Formatted 1 s ∧
    s.call (.create nameA (2 ^ 32 - 1)) = (noError, s₁) ∧
    s₁.begin (.truncate nameA 5) = .commit s₂ ∧
    PowerLoss s₂.fs.vol s₂.disk (commitWrites s₂.fs) s₂.disk ∧
    s₁.fs.userFiles = [⟨1, 2 ^ 32 - 1, 0, filenameOf nameA⟩] ∧
    (s₁.call (.truncate nameA 5)).2.fs.userFiles = [⟨1, 5, 0, filenameOf nameA⟩] ∧
    ∃ fs, spifsMount s₁.fs.vol.dev s₂.disk = .ok fs ∧ fs.userFiles = [] := by
  obtain ⟨disk, disk', hformatted, hcall, hready⟩ := huge_created
  obtain ⟨fs, hfs⟩ : ∃ fs, { hugeFs.committed with
      files := tableOf smallVolume 1 [⟨1, 5, 0, filenameOf nameA⟩] } = fs := ⟨_, rfl⟩
  have hfits : fs.Fits 1 := hfs ▸ empty_file_fits rfl rfl rfl (by decide)
  have hbegin : System.begin ⟨hugeFs.committed, disk'⟩ (.truncate nameA 5) =
      .commit ⟨fs, disk'⟩ := by
    have hfind : findFile hugeFs.committed (trimName nameA) = some 1 := by decide
    rw [System.begin, hfind, ← hfs]
    rfl
  refine ⟨_, _, _, hformatted, hcall, hbegin, .before 0, ?_, ?_, _,
    mount_of_ready hready huge_check, ?_⟩
  · show hugeFs.userFiles = _
    decide
  · rw [call_eq_of_commit hbegin (commit_eq (s := ⟨fs, disk'⟩) hfits), ← hfs]
    rfl
  · rfl

end NusaKernel.Spifs
