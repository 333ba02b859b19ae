import NusaKernel.Lib.Transition
import NusaKernel.Spifs.Data

/-!
# Calls of the file system

What a call does before its commit (`begin_sound`), and with it (`System.Good.step`): the files stay
laid out, and both ToCs stay on the device. A volume that was formatted and mounted starts that way
(`Formatted.good`).
-/

namespace NusaKernel.Spifs

open List Nat
open Ring (block)
open Segment (store)
open Bio
open Transition (Reachable)

/-- The invariant: both ToCs are on the device, the current one with the files that are in memory,
and the files are laid out. -/
structure System.Good (s : System) (tocPages : ℕ) : Prop where
  ready : s.Ready tocPages s.fs.files
  laid : ∃ middle, s.fs.Laid tocPages middle
  small : s.fs.vol.dev.totalSize ≤ 2 ^ 32

/-- A call of `s` is about to commit: only files outside of the ToCs have changed on the device,
and the list in memory is laid out. -/
structure System.Pending (s s' : System) (tocPages : ℕ) : Prop where
  ready : s'.Ready tocPages s.fs.files
  laid : ∃ middle, s'.fs.Laid tocPages middle
  same : s'.fs = { s.fs with files := s'.fs.files }
  small : s'.fs.vol.dev.totalSize ≤ 2 ^ 32

/-- What a call has done before its commit. -/
def Begun.Sound (s : System) (tocPages : ℕ) : Begun → Prop
  | .done _ s' => s'.Good tocPages
  | .commit s' => s.Pending s' tocPages

variable {fs : FileSystem}

section Calls

variable {s : System} {tocPages : ℕ} {middle : List TocFile} {disk : ℕ → UInt8} {low high len : ℕ}
  {name : CString} {op : Op} {s' : System}

theorem FileSystem.Fits.has_toc (h : fs.Fits tocPages) : fs.vol.HasToc tocPages := by
  refine ⟨h.vol, Nat.pos_of_ne_zero fun hzero => ?_, h.pages, h.bytes_lt⟩
  have hentries := h.entries
  rw [hzero, Nat.zero_mul] at hentries
  omega

theorem System.Current.roomy {old : List TocFile} (h : s.Current tocPages old) :
    s.fs.vol.Roomy tocPages :=
  ⟨h.fits.has_toc, h.apart⟩

theorem System.Good.roomy (h : s.Good tocPages) : s.fs.vol.Roomy tocPages :=
  h.ready.toCurrent.roomy

theorem toc_page_outside (vol : Volume) (pos : TocPosition) {j : ℕ} (hj : j < tocPages) :
    tocPageAt vol pos j < tocPages ∨ vol.pageCount - tocPages ≤ tocPageAt vol pos j := by
  cases pos with
  | front => exact .inl hj
  | back =>
    refine .inr ?_
    show vol.pageCount - tocPages ≤ vol.pageCount - 1 - j
    omega

/-- The device is changed between the ToCs, and the list of files to another one that is laid
out. -/
theorem System.Good.pending (h : s.Good tocPages) (hlayout : Layout s.fs.vol tocPages middle)
    (hlength : (tableOf s.fs.vol tocPages middle).length ≤ s.fs.numEntries) (hlow : tocPages ≤ low)
    (hhigh : high ≤ s.fs.vol.pageCount - tocPages)
    (hsame : SameOutside s.fs.vol low high s.disk disk) :
    s.Pending ⟨{ s.fs with files := tableOf s.fs.vol tocPages middle }, disk⟩ tocPages := by
  have hfits := h.ready.fits
  have hstored : ∀ file ∈ tableOf s.fs.vol tocPages middle, file.Stored :=
    fun file hfile => (h.roomy.table_sound hlayout.sound file hfile).stored
  refine ⟨h.ready.of_unchanged
    ⟨hfits.vol, hfits.entries, hfits.pages, hfits.bytes_lt, hlength, hstored⟩ rfl
    fun pos j hj => hsame _ ?_, ⟨middle, rfl, hlayout⟩, rfl, h.small⟩
  rcases toc_page_outside s.fs.vol pos hj with hfront | hback
  · exact .inl (by omega)
  · exact .inr (by omega)

/-- The device is changed between the ToCs, and the list of files is not. -/
theorem System.Good.of_data (h : s.Good tocPages) (hlow : tocPages ≤ low)
    (hhigh : high ≤ s.fs.vol.pageCount - tocPages)
    (hsame : SameOutside s.fs.vol low high s.disk disk) :
    System.Good { s with disk := disk } tocPages := by
  obtain ⟨middle, hlaid⟩ := h.laid
  have hlength := h.ready.fits.length_le
  rw [hlaid.files] at hlength
  have hpending := h.pending hlaid.layout hlength hlow hhigh hsame
  rw [← hlaid.files] at hpending
  exact ⟨hpending.ready, ⟨middle, hlaid⟩, h.small⟩

/-! ## Creating -/

/-- The capacity of a new file holds its length, if it can be rounded up in 32 bits. -/
theorem new_capacity_spec {vol : Volume} (hvol : vol.Sound) (hlen : len ≤ 2 ^ 32 - vol.pageSize) :
    ∃ pages, 0 < pages ∧ newCapacity vol len = pages * vol.pageSize ∧
      newCapacity vol len < 2 ^ 32 ∧ len ≤ newCapacity vol len := by
  have hpos := hvol.page_pos
  have hlt := hvol.page_lt
  unfold newCapacity
  split
  · next hzero => exact ⟨1, Nat.one_pos, (Nat.one_mul _).symm, hlt, by omega⟩
  next hne =>
  have hsum : (len + (vol.pageSize - 1)) % 2 ^ 32 = len + (vol.pageSize - 1) :=
    mod_eq_of_lt (by omega)
  have hsplit := div_add_mod' (len + (vol.pageSize - 1)) vol.pageSize
  have hmod := mod_lt (len + (vol.pageSize - 1)) hpos
  refine ⟨(len + (vol.pageSize - 1)) / vol.pageSize, Nat.div_pos (by omega) hpos, ?_, ?_, ?_⟩
  · rw [roundupPage, hsum]
  · rw [roundupPage, hsum]
    omega
  · rw [roundupPage, hsum]
    omega

theorem filename_of_length (h : name.strlen < maxFilenameLength) :
    (filenameOf name).length = maxFilenameLength := by
  rw [filenameOf, length_append, length_replicate]
  unfold CString.strlen at *
  omega

theorem name_of_filename {page capacity : ℕ} (name : CString) :
    TocFile.name ⟨page, len, capacity, filenameOf name⟩ = name :=
  name.of_buffer_append_zeros _

section

variable (h : s.Good tocPages)
include h

/-- A new file in a run that is open, which was erased. -/
theorem create_pending (hlaid : s.fs.Laid tocPages middle) (hname : name.strlen < maxFilenameLength)
    (hnew : ∀ file ∈ middle, file.name ≠ name) (hcount : s.fs.files.length < s.fs.numEntries)
    {pages run : ℕ} (hpages : 0 < pages) (hsmall : pages * s.fs.vol.pageSize < 2 ^ 32)
    (hlen : len ≤ pages * s.fs.vol.pageSize)
    (hopen : Open s.fs.vol (tableOf s.fs.vol tocPages middle) run pages) (hlow : tocPages ≤ run)
    (hhigh : run + pages ≤ s.fs.vol.pageCount - tocPages) :
    s.Pending ⟨{ s.fs with
        files := spifsAddAscending
          ⟨run, len, pages * s.fs.vol.pageSize, filenameOf name⟩ s.fs.files },
      store s.disk (run * s.fs.vol.pageSize)
        (replicate (pages * s.fs.vol.pageSize) s.fs.vol.dev.eraseByte)⟩ tocPages := by
  have hroom := h.roomy
  have hvol := hroom.sound
  have hlt := hvol.page_count_lt
  have hdiv : pages * s.fs.vol.pageSize / s.fs.vol.pageSize = pages :=
    Nat.mul_div_cancel _ hvol.page_pos
  have hsound : TocFile.Sound s.fs.vol ⟨run, len, pages * s.fs.vol.pageSize, filenameOf name⟩ :=
    ⟨⟨show run < _ by omega, Nat.lt_of_le_of_lt hlen hsmall, hsmall, filename_of_length hname⟩,
      Nat.dvd_mul_left _ _, Nat.mul_pos hpages hvol.page_pos, hlen⟩
  have htable : spifsAddAscending ⟨run, len, pages * s.fs.vol.pageSize, filenameOf name⟩
      (tableOf s.fs.vol tocPages middle) = tableOf s.fs.vol tocPages (spifsAddAscending
        ⟨run, len, pages * s.fs.vol.pageSize, filenameOf name⟩ middle) :=
    add_ascending_table hroom (show run < _ by omega)
  have hlayout := hlaid.layout.insert hroom hsound (by rw [hdiv]; exact hopen)
    (show run < _ by omega) fun file hfile => by
      rw [name_of_filename]
      exact hnew file hfile
  have hlength := (add_ascending_perm ⟨run, len, pages * s.fs.vol.pageSize, filenameOf name⟩
    s.fs.files).length_eq
  rw [hlaid.files, htable, length_cons, ← hlaid.files] at hlength
  rw [hlaid.files, htable]
  exact h.pending hlayout (by omega) hlow hhigh (same_outside_store length_replicate)

theorem create_begin_sound (name : CString) (hlen : len ≤ 2 ^ 32 - s.fs.vol.pageSize) :
    (createBegin s name len).Sound s tocPages := by
  obtain ⟨middle, hlaid⟩ := h.laid
  have hroom := h.roomy
  have hvol := hroom.sound
  obtain ⟨pages, hpages, hcapacity, hsmall, hholds⟩ := new_capacity_spec hvol hlen
  rw [hcapacity] at hsmall hholds
  unfold createBegin
  split
  · exact h
  split
  · exact h
  next hname =>
  split
  · exact h
  split
  · exact h
  next hfind =>
  split
  · exact h
  next hcount =>
  rw [hcapacity]
  dsimp only
  split
  · exact h
  next hfound =>
  have hname := Nat.not_le.mp hname
  rw [hlaid.files] at hfound
  obtain ⟨run, hrun, hopen, hlow, hhigh⟩ := hlaid.layout.open_run hroom h.small hpages hfound
  have hinside : run * s.fs.vol.pageSize + pages * s.fs.vol.pageSize ≤ s.fs.vol.dev.totalSize := by
    rw [← Nat.add_mul, ← hvol.count]
    exact Nat.mul_le_mul_right _ (by omega)
  rw [← hlaid.files] at hrun
  rw [hrun, mod_eq_of_lt (hvol.mul_lt h.small (by omega)), bio_erase_of_le hinside,
    if_neg (not_not.mpr rfl)]
  exact create_pending h hlaid hname
    (find_file_none hlaid hname (Option.not_isSome_iff_eq_none.mp hfind)) (Nat.not_le.mp hcount)
    hpages hsmall hholds hopen hlow hhigh

/-! ## Removing, truncating, writing -/

theorem remove_begin_sound (name : CString) : (removeBegin s name).Sound s tocPages := by
  obtain ⟨middle, hlaid⟩ := h.laid
  unfold removeBegin
  split
  · exact h
  next i hfind =>
  obtain ⟨pre, file, post, hmiddle, rfl⟩ := find_file_some hlaid hfind
  have hlayout := hlaid.layout
  rw [hmiddle] at hlayout
  have herase := (files_at hlaid hmiddle file).2.2
  have hlength := congrArg List.length herase
  have hle := h.ready.fits.length_le
  have hshorter := length_eraseIdx_le s.fs.files (pre.length + 1)
  rw [herase]
  exact h.pending hlayout.erase (by omega) (Nat.le_refl _) (Nat.le_refl _) .refl

/-- The length of a file between the ToCs is changed. -/
theorem set_length_pending (hlaid : s.fs.Laid tocPages middle) {pre post : List TocFile}
    {file : TocFile} (hmiddle : middle = pre ++ file :: post) (hlen : len ≤ file.capacity)
    (hlow : tocPages ≤ low) (hhigh : high ≤ s.fs.vol.pageCount - tocPages)
    (hsame : SameOutside s.fs.vol low high s.disk disk) :
    s.Pending ⟨{ s.fs with
        files := s.fs.files.set (pre.length + 1) { file with length := len } }, disk⟩
      tocPages := by
  have hlayout := hlaid.layout
  rw [hmiddle] at hlayout
  have hsound := hlayout.sound file (mem_append_right _ mem_cons_self)
  have hset := (files_at hlaid hmiddle { file with length := len }).2.1
  have hlength := congrArg List.length hset
  have hle := h.ready.fits.length_le
  rw [length_set] at hlength
  rw [hset]
  refine h.pending (hlayout.set ⟨⟨hsound.stored.page, ?_, hsound.stored.capacity,
    hsound.stored.filename⟩, hsound.pages, hsound.pos, hlen⟩ rfl rfl rfl) (by omega) hlow
      hhigh hsame
  exact Nat.lt_of_le_of_lt hlen hsound.stored.capacity

theorem truncate_begin_sound {i : ℕ} (hfind : findFile s.fs name = some i) (len : ℕ) :
    (truncateBegin s i len).Sound s tocPages := by
  obtain ⟨middle, hlaid⟩ := h.laid
  obtain ⟨pre, file, post, hmiddle, rfl⟩ := find_file_some hlaid hfind
  have hsound := hlaid.layout.sound file (by rw [hmiddle]; simp)
  unfold truncateBegin
  rw [(files_at hlaid hmiddle file).1]
  dsimp only
  split
  · exact h
  · next hlen =>
    have hle := hsound.length_le
    exact set_length_pending h hlaid hmiddle (by omega) (Nat.le_refl _) (Nat.le_refl _) .refl

theorem write_begin_sound {i : ℕ} (hfind : findFile s.fs name = some i) {off : ℤ} {buf : List UInt8}
    (hoff : off.toNat + buf.length < 2 ^ 64) : (writeBegin s i off buf).Sound s tocPages := by
  obtain ⟨middle, hlaid⟩ := h.laid
  obtain ⟨pre, file, post, hmiddle, rfl⟩ := find_file_some hlaid hfind
  have hmem : file ∈ middle := by
    rw [hmiddle]
    simp
  have hsound := hlaid.layout.sound file hmem
  have hroom := h.roomy
  have hvol := hroom.sound
  obtain ⟨hlow, hhigh⟩ := hlaid.layout.between hroom file hmem
  unfold writeBegin
  rw [(files_at hlaid hmiddle file).1]
  dsimp only
  split
  · exact h
  split
  · exact h
  next hcapacity =>
  have hbytes : file.pageIdx * s.fs.vol.pageSize + file.capacity =
      endOf s.fs.vol file * s.fs.vol.pageSize := by
    rw [endOf, Nat.add_mul, Nat.div_mul_cancel hsound.pages]
  have hend : endOf s.fs.vol file < s.fs.vol.pageCount := by
    have hpos := hroom.pages_pos
    have hle := hroom.pages_le
    omega
  have hlt := hvol.mul_lt h.small hend
  rw [mod_eq_of_lt (by omega)]
  have hdata : ∃ p, writeData s.fs.vol s.disk (off.toNat + file.pageIdx * s.fs.vol.pageSize) buf =
      .ok p ∧ SameOutside s.fs.vol file.pageIdx (endOf s.fs.vol file) s.disk p.disk :=
    write_data_spec hvol (Nat.le_of_lt hend) (by omega) (by omega) (by omega)
  obtain ⟨p, hp, hsame⟩ := hdata
  rw [hp]
  dsimp only
  split
  · next hgrow =>
    exact set_length_pending h hlaid hmiddle (by omega) hlow hhigh hsame
  · exact h.of_data hlow hhigh hsame

end

/-! ## Whole calls -/

/-- A length that can be rounded up, a range of a write that does not wrap, and a next
generation. -/
def Orderly (s : System) (op : Op) : Prop :=
  s.fs.generation + 1 < 2 ^ 32 ∧
    match op with
    | .create _ len => len ≤ 2 ^ 32 - s.fs.vol.pageSize
    | .write _ off buf => off.toNat + buf.length < 2 ^ 64
    | _ => True

/-- Before its commit, a call has changed files only. -/
theorem begin_sound (h : s.Good tocPages) (horderly : Orderly s op) :
    (s.begin op).Sound s tocPages := by
  cases op with
  | create name len => exact create_begin_sound h (trimName name) horderly.2
  | remove name => exact remove_begin_sound h (trimName name)
  | write name off buf =>
    rw [System.begin]
    split
    · exact h
    · next i hfind => exact write_begin_sound h hfind horderly.2
  | truncate name len =>
    rw [System.begin]
    split
    · exact h
    · next i hfind => exact truncate_begin_sound h hfind len

/-- A call is over, or commits the ToC. -/
theorem call_eq (s : System) (op : Op) : ∃ finish : System → Status × System,
    (∀ s' s'', spifsCommitToc s' = (noError, s'') → (finish s').2 = s'') ∧
    s.call op = match s.begin op with
      | .done status s' => (status, s')
      | .commit s' => finish s' := by
  cases op with
  | create name len => exact ⟨_, fun s' s'' hcommit => by rw [hcommit]; rfl, rfl⟩
  | remove name => exact ⟨spifsCommitToc, fun _ _ => congrArg Prod.snd, rfl⟩
  | write name off buf =>
    refine ⟨fun s' => (buf.length, (spifsCommitToc s').2), fun _ _ => congrArg Prod.snd, ?_⟩
    rw [System.begin, System.call]
    split <;> rfl
  | truncate name len =>
    refine ⟨spifsCommitToc, fun _ _ => congrArg Prod.snd, ?_⟩
    rw [System.begin, System.call]
    split <;> rfl

theorem call_eq_of_commit {s'' : System} (hbegin : s.begin op = .commit s')
    (hcommit : spifsCommitToc s' = (noError, s'')) : (s.call op).2 = s'' := by
  obtain ⟨finish, hfinish, hcall⟩ := call_eq s op
  rw [hcall, hbegin]
  exact hfinish s' s'' hcommit

theorem call_eq_of_done {status : Status} (hbegin : s.begin op = .done status s') :
    s.call op = (status, s') := by
  obtain ⟨finish, -, hcall⟩ := call_eq s op
  rw [hcall, hbegin]

theorem System.Pending.good (h : s.Pending s' tocPages) (hgeneration : s.fs.generation + 1 < 2 ^
    32) :
    ∃ s'', spifsCommitToc s' = (noError, s'') ∧ s''.Good tocPages := by
  obtain ⟨middle, hlaid⟩ := h.laid
  have hsame : s'.fs.generation = s.fs.generation := by
    rw [h.same]
  exact ⟨_, commit_eq h.ready.fits, commit_ready h.ready.toCurrent (by omega),
    ⟨middle, hlaid.files, hlaid.layout⟩, h.small⟩

/-- Every call keeps the invariant. -/
theorem System.Good.step (h : s.Good tocPages) (horderly : Orderly s op)
    (hstep : s.step op = some s') : s'.Good tocPages := by
  cases hstep
  have hsound := begin_sound h horderly
  cases hbegin : s.begin op with
  | done status s' =>
    rw [hbegin] at hsound
    rw [call_eq_of_done hbegin]
    exact hsound
  | commit s' =>
    rw [hbegin] at hsound
    obtain ⟨s'', hcommit, hgood⟩ := System.Pending.good hsound horderly.1
    rw [call_eq_of_commit hbegin hcommit]
    exact hgood

/-- A mount gives back a list of files that is on the device. -/
theorem System.Ready.mount (h : s.Ready tocPages s.fs.files) (hlaid : s.fs.Laid tocPages middle) :
    spifsMount s.fs.vol.dev s.disk = .ok s.fs := by
  obtain ⟨hkept, hcheck⟩ := hlaid.layout.check h.toCurrent.roomy
  rw [← hlaid.files] at hkept hcheck
  rw [mount_of_ready h hcheck, hkept]

end Calls

/-! ## Formatting -/

variable {dev : Bdev}

/-- Pages are a power of two of bytes, and whole blocks. -/
theorem page_info_spec {pageSize pageCount : ℕ}
    (h : getDevicePageInfo dev = .ok (pageSize, pageCount)) :
    ∃ k < 32, pageSize = 2 ^ k ∧ dev.blockSize ∣ pageSize ∧
      pageCount = dev.totalSize / pageSize := by
  unfold getDevicePageInfo at h
  split at h
  · cases h
    exact ⟨dev.blockShift, dev.shift_lt, rfl, Nat.dvd_refl _, rfl⟩
  · next geo _ =>
    dsimp only at h
    split at h
    · cases h
    · next hdvd =>
      cases h
      exact ⟨2 ^ geo.eraseShift % 32, mod_lt _ (by decide), rfl,
        dvd_of_mod_eq_zero (not_not.mp hdvd), rfl⟩
  · cases h

variable {vol : Volume}

/-- The volume of a device that is a whole number of pages. -/
theorem volume_sound (h : volumeOf dev = .ok vol) (hwhole : dev.totalSize % vol.pageSize = 0)
    (hpage : 64 ≤ vol.pageSize) : vol.Sound ∧ vol.dev = dev := by
  unfold volumeOf at h
  cases hinfo : getDevicePageInfo dev with
  | error status =>
    rw [hinfo] at h
    cases h
  | ok info =>
    obtain ⟨pageSize, pageCount⟩ := info
    obtain ⟨k, hk, rfl, hdvd, rfl⟩ := page_info_spec hinfo
    rw [hinfo] at h
    cases h
    have hlt : 2 ^ k < 2 ^ 32 := Nat.pow_lt_pow_right (by decide) hk
    have hcount : dev.totalSize / 2 ^ k < 2 ^ 32 :=
      Nat.lt_of_le_of_lt (div_le_div_left (Nat.le_of_dvd (Nat.two_pow_pos k) hdvd)
        dev.block_size_pos) ((Nat.mul_div_cancel _ dev.block_size_pos).trans_lt dev.count_lt)
    refine ⟨⟨?_, hpage, hlt, ?_, ?_⟩, rfl⟩
    · show 2 ^ k = 2 ^ Nat.log2 (2 ^ k)
      rw [log2_two_pow]
    · show divpow2 (2 ^ k) dev.blockShift * dev.blockSize = 2 ^ k
      rw [divpow2, mod_eq_of_lt hlt]
      exact Nat.div_mul_cancel hdvd
    · show dev.totalSize / 2 ^ k % 2 ^ 32 * 2 ^ k = dev.totalSize
      rw [mod_eq_of_lt hcount]
      exact Nat.div_mul_cancel (dvd_of_mod_eq_zero hwhole)

/-- A volume of at most 4 GiB, with pages of at least 64 bytes, was formatted with ToCs that do not
meet, and mounted. -/
def Formatted (tocPages : ℕ) (s : System) : Prop :=
  ∃ dev vol args disk, volumeOf dev = .ok vol ∧ dev.totalSize ≤ 2 ^ 32 ∧ 64 ≤ vol.pageSize ∧
    args.getD 1 = tocPages ∧ 2 * tocPages ≤ vol.pageCount ∧
    spifsFormat dev args disk = (noError, s.disk) ∧ spifsMount dev s.disk = .ok s.fs

variable {tocPages : ℕ} {args : Option ℕ}

/-- The list of a new file system has the ToCs only. -/
theorem formatted_laid (h : vol.Roomy tocPages) (numEntries : ℕ) :
    (formatted vol tocPages numEntries).Laid tocPages [] := by
  refine ⟨rfl, ?_, (fun _ hfile => nomatch hfile), nodup_nil⟩
  have hle := h.apart
  show [tocFile vol tocPages .front, tocFile vol tocPages .back].Pairwise (Before vol)
  refine pairwise_pair.mpr ?_
  rw [Before, h.front_end, h.back_page]
  omega

theorem formatted_fits (h : vol.HasToc tocPages) (hentries : 4 < tocPages * vol.perPage) :
    (formatted vol tocPages (tocPages * vol.perPage)).Fits tocPages := by
  have hsmall := h.toc_bytes_lt
  rw [h.sound.per_page, Nat.mul_left_comm, spifsEntryLength] at hsmall
  have hnum : sub32 (tocPages * vol.perPage) 2 = tocPages * vol.perPage - 2 := by
    unfold sub32
    omega
  refine ⟨h.sound, ?_, h.pages_le, h.toc_bytes_lt, ?_, fun file hfile => ?_⟩
  · show sub32 (tocPages * vol.perPage) 2 + 2 = tocPages * vol.perPage
    omega
  · show 2 ≤ sub32 (tocPages * vol.perPage) 2
    omega
  · have hnone : ∀ file ∈ ([] : List TocFile), file.Sound vol :=
      forall_mem_nil _
    exact (h.table_sound hnone file hfile).stored

/-- What a format that reports success has done: two commits. -/
theorem format_spec {disk disk' : ℕ → UInt8}
    (hvolume : volumeOf dev = .ok vol) (h : spifsFormat dev args disk = (noError, disk')) :
    ∃ numEntries s s', dev.totalSize % vol.pageSize = 0 ∧
      numEntries = args.getD 1 * (vol.pageSize / spifsEntryLength) % 2 ^ 32 ∧ 4 < numEntries ∧
      spifsCommitToc ⟨formatted vol (args.getD 1) numEntries, disk⟩ = (noError, s) ∧
      spifsCommitToc s = (noError, s') ∧ disk' = s'.disk := by
  obtain ⟨numEntries, hnum⟩ : ∃ n, args.getD 1 * (vol.pageSize / spifsEntryLength) % 2 ^ 32 = n :=
    ⟨_, rfl⟩
  unfold spifsFormat at h
  split at h
  · next hv =>
    rw [hvolume] at hv
    cases hv
  next vol' hv =>
  rw [hvolume] at hv
  cases hv
  by_cases hentry : vol.pageSize % spifsEntryLength ≠ 0
  · rw [if_pos hentry] at h
    exact absurd (Prod.mk.inj h).1 (by decide)
  rw [if_neg hentry] at h
  by_cases hwhole : dev.totalSize % vol.pageSize ≠ 0
  · rw [if_pos hwhole] at h
    exact absurd (Prod.mk.inj h).1 (by decide)
  rw [if_neg hwhole, hnum] at h
  by_cases hentries : numEntries ≤ 4
  · rw [if_pos hentries] at h
    exact absurd (Prod.mk.inj h).1 (by decide)
  rw [if_neg hentries] at h
  cases hfirst : spifsCommitToc ⟨formatted vol (args.getD 1) numEntries, disk⟩ with
  | mk err s =>
  rw [hfirst] at h
  dsimp only at h
  by_cases hok : err ≠ noError
  · rw [if_pos hok] at h
    exact absurd (Prod.mk.inj h).1 hok
  rw [if_neg hok] at h
  cases hsecond : spifsCommitToc s with
  | mk err' s' =>
  rw [hsecond] at h
  dsimp only at h
  obtain ⟨hlast, hdisk⟩ := Prod.mk.inj h
  refine ⟨numEntries, s, s', not_not.mp hwhole, hnum.symm, Nat.not_le.mp hentries, ?_, ?_,
    hdisk.symm⟩
  · rw [hfirst, not_not.mp hok]
  · rw [hsecond, hlast]

/-- Two commits write both ToCs. -/
theorem ready_of_commits (hfits : fs.Fits tocPages) (hapart : 2 * tocPages ≤ fs.vol.pageCount)
    (hvolume : volumeOf fs.vol.dev = .ok fs.vol) (hgeneration : fs.generation + 2 < 2 ^ 32)
    (disk : ℕ → UInt8) {disk₁ disk₂ : ℕ → UInt8} (hdisk₁ : committedDisk ⟨fs, disk⟩ = disk₁)
    (hdisk₂ : committedDisk ⟨fs.committed, disk₁⟩ = disk₂) :
    System.Ready ⟨fs.committed.committed, disk₂⟩ tocPages fs.files := by
  have hone := commit_current (s := ⟨fs, disk⟩) hfits hapart hvolume
  rw [hdisk₁] at hone
  have hnext : fs.committed.generation + 1 < 2 ^ 32 := by
    show (fs.generation + 1) % 2 ^ 32 + 1 < 2 ^ 32
    omega
  have htwo := commit_ready hone hnext
  rwa [hdisk₂] at htwo

section Format

variable {disk disk' : ℕ → UInt8} (hvolume : volumeOf dev = .ok vol) (hpage : 64 ≤ vol.pageSize)
  (htoc : args.getD 1 * vol.pageSize < 2 ^ 32) (hpages : args.getD 1 ≤ vol.pageCount)
  (hformat : spifsFormat dev args disk = (noError, disk'))
include hvolume hpage htoc hpages hformat

/-- A format that reports success has committed a table twice. -/
theorem format_commits : vol.dev = dev ∧ ∃ fs, 4 < args.getD 1 * vol.perPage ∧
    fs = formatted vol (args.getD 1) (args.getD 1 * vol.perPage) ∧ fs.Fits (args.getD 1) ∧
    disk' = committedDisk ⟨fs.committed, committedDisk ⟨fs, disk⟩⟩ := by
  obtain ⟨numEntries, s₁, s₂, hwhole, hnum, hentries, hfirst, hsecond, hdisk⟩ :=
    format_spec hvolume hformat
  obtain ⟨hvol, hdev⟩ := volume_sound hvolume hwhole hpage
  have hpos : 0 < args.getD 1 := by
    refine Nat.pos_of_ne_zero fun hzero => ?_
    rw [hzero, Nat.zero_mul, zero_mod] at hnum
    omega
  have hlt : args.getD 1 * vol.perPage < 2 ^ 32 := by
    have hbytes := htoc
    rw [hvol.per_page, Nat.mul_left_comm, spifsEntryLength] at hbytes
    omega
  have hnum' : numEntries = args.getD 1 * vol.perPage := hnum.trans (mod_eq_of_lt hlt)
  rw [hnum'] at hentries hfirst
  obtain ⟨fs, hfs⟩ : ∃ fs, fs = formatted vol (args.getD 1) (args.getD 1 * vol.perPage) := ⟨_, rfl⟩
  have hfits : fs.Fits (args.getD 1) := hfs ▸ formatted_fits ⟨hvol, hpos, hpages, htoc⟩ hentries
  refine ⟨hdev, fs, hentries, hfs, hfits, ?_⟩
  rw [← hfs, commit_eq (s := ⟨fs, disk⟩) hfits] at hfirst
  rw [← (Prod.mk.inj hfirst).2, commit_eq hfits.committed] at hsecond
  rw [hdisk, ← (Prod.mk.inj hsecond).2]

/-- A format with room for both ToCs makes the file system ready, and a mount gives it without
files. -/
theorem format_ready (hapart : 2 * args.getD 1 ≤ vol.pageCount) :
    ∃ fs, spifsMount dev disk' = .ok fs ∧ System.Ready ⟨fs, disk'⟩ (args.getD 1) fs.files ∧
      fs.Laid (args.getD 1) [] ∧
      fs = (formatted vol (args.getD 1) (args.getD 1 * vol.perPage)).committed.committed := by
  obtain ⟨hdev, fs, -, hfs, hfits, hdisk⟩ := format_commits hvolume hpage htoc hpages hformat
  have hsame : fs.vol = vol ∧ fs.generation = 1 := hfs ▸ ⟨rfl, rfl⟩
  have hlaid : fs.Laid (args.getD 1) [] :=
    hfs ▸ formatted_laid ⟨hsame.1 ▸ hfits.has_toc, hapart⟩ _
  rw [← hdev, ← hsame.1] at hvolume
  have hready := ready_of_commits hfits (hsame.1 ▸ hapart) hvolume (by rw [hsame.2]; decide) disk
    rfl hdisk.symm
  have hlaid' : fs.committed.committed.Laid (args.getD 1) [] := ⟨hlaid.files, hlaid.layout⟩
  refine ⟨_, ?_, hready, hlaid', by rw [hfs]⟩
  rw [← hdev, ← hsame.1]
  exact hready.mount hlaid'

end Format

theorem Formatted.good {s : System} (h : Formatted tocPages s) : s.Good tocPages := by
  obtain ⟨dev, vol, args, disk, hvolume, hsize, hpage, rfl, hpages, hformat, hmount⟩ := h
  obtain ⟨-, -, -, hwhole, -⟩ := format_spec hvolume hformat
  obtain ⟨hvol, rfl⟩ := volume_sound hvolume hwhole hpage
  have hbytes : 2 * args.getD 1 * vol.pageSize ≤ 2 ^ 32 :=
    Nat.le_trans (Nat.mul_le_mul_right _ hpages) (hvol.count ▸ hsize)
  rw [Nat.mul_assoc] at hbytes
  obtain ⟨fs, hfs, hready, hlaid, heq⟩ := format_ready hvolume hpage (by omega) (by omega)
    hformat hpages
  cases hmount.symm.trans hfs
  exact ⟨hready, ⟨[], hlaid⟩, heq ▸ hsize⟩

end NusaKernel.Spifs
