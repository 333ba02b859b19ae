import NusaKernel.Spifs.Spifs

/-!
# Writing and reading a table of contents

The entries of a ToC are numbered in the order of its pages: `tocEntry vol disk pos k` are the
bytes of entry `k`. A commit makes them the table of the file system (`commit_writes_hold`), and
the two loops that read a ToC get the table back (`generation_of_holds`, `mount_toc_of_holds`).
-/

namespace NusaKernel.Spifs

open List LittleEndian Nat Ring Segment
open Cksum (crc32)
open Bio

/-! ## Volumes -/

/-- A volume that `uint32_t` addresses reach. Pages are a power of two of at least 64 bytes. -/
structure Volume.Sound (vol : Volume) : Prop where
  shift : vol.pageSize = 2 ^ log2Uint vol.pageSize
  page_ge : 64 ≤ vol.pageSize
  page_lt : vol.pageSize < 2 ^ 32
  blocks : vol.blocksPerPage * vol.dev.blockSize = vol.pageSize
  count : vol.pageCount * vol.pageSize = vol.dev.totalSize

/-- How many entries a page has. -/
def Volume.perPage (vol : Volume) : ℕ := vol.pageSize / spifsEntryLength

variable {bytes : List UInt8} {file : TocFile}

namespace Volume.Sound

variable {vol : Volume} (h : vol.Sound) {page : ℕ}

include h

theorem per_page : vol.pageSize = spifsEntryLength * vol.perPage := by
  have hdvd : spifsEntryLength ∣ vol.pageSize := by
    have hle : 5 ≤ log2Uint vol.pageSize := by
      by_contra hlt
      have hpow : 2 ^ log2Uint vol.pageSize ≤ 2 ^ 5 := Nat.pow_le_pow_right (by omega) (by omega)
      have hge := h.page_ge
      rw [h.shift] at hge
      omega
    rw [h.shift]
    exact Nat.pow_dvd_pow 2 hle
  exact (Nat.mul_div_cancel' hdvd).symm

theorem per_page_ge : 2 ≤ vol.perPage := by
  have hge := h.page_ge
  rw [h.per_page, spifsEntryLength] at hge
  omega

theorem block_count : vol.pageCount * vol.blocksPerPage = vol.dev.blockCount := by
  refine eq_of_mul_eq_mul_right vol.dev.block_size_pos ?_
  rw [Nat.mul_assoc, h.blocks, h.count, Bdev.totalSize]

theorem page_count_lt : vol.pageCount < 2 ^ 32 := by
  have hpos : 0 < vol.blocksPerPage := by
    refine Nat.pos_of_ne_zero fun hzero => ?_
    have hge := h.page_ge
    rw [← h.blocks, hzero, Nat.zero_mul] at hge
    omega
  exact Nat.lt_of_le_of_lt (h.block_count ▸ Nat.le_mul_of_pos_right _ hpos) vol.dev.count_lt

section

variable (hpage : page < vol.pageCount)
include hpage

theorem block_le :
    page * vol.blocksPerPage + vol.blocksPerPage ≤ vol.dev.blockCount := by
  calc page * vol.blocksPerPage + vol.blocksPerPage = (page + 1) * vol.blocksPerPage := by ring
    _ ≤ vol.pageCount * vol.blocksPerPage := Nat.mul_le_mul_right _ hpage
    _ = vol.dev.blockCount := h.block_count

theorem block_addr_eq :
    blockAddr vol page * vol.dev.blockSize = page * vol.pageSize := by
  have hle := h.block_le hpage
  have hlt := vol.dev.count_lt
  rw [blockAddr, mod_eq_of_lt (by omega), Nat.mul_assoc, h.blocks]

theorem page_bytes_eq : pageBytes vol page = vol.pageSize := by
  have hle := h.block_le hpage
  have hlt := vol.dev.count_lt
  rw [pageBytes, blockAddr, mod_eq_of_lt (by omega), trim_block_range_of_le hle, h.blocks]

theorem read_page (disk : ℕ → UInt8) :
    spifsReadPage vol disk page = some (block disk (page * vol.pageSize) vol.pageSize) := by
  rw [spifsReadPage, h.page_bytes_eq hpage, mod_eq_of_lt h.page_lt,
    if_neg (not_not.mpr rfl), h.block_addr_eq hpage]

theorem page_end_le :
    page * vol.pageSize + vol.pageSize ≤ vol.dev.totalSize := by
  rw [← h.count, ← succ_mul]
  exact Nat.mul_le_mul_right _ hpage

theorem write_page (hbytes : bytes.length = vol.pageSize) (disk : ℕ → UInt8) :
    spifsWritePage vol disk page bytes = (noError, store disk (page * vol.pageSize) bytes) := by
  unfold spifsWritePage
  dsimp only
  rw [h.block_addr_eq hpage, h.page_bytes_eq hpage, bio_erase_of_le (h.page_end_le hpage),
    take_of_length_le (Nat.le_of_eq hbytes), mod_eq_of_lt h.page_lt]
  split
  · simp
  · simp only [ne_eq, not_true_eq_false, if_false]
    rw [store_store (by simp [hbytes])]

end

end Volume.Sound

/-! ## The entries of a ToC -/

section Entries

variable {vol : Volume} {disk : ℕ → UInt8} {pos : TocPosition} {j r k : ℕ}
  {entries : List (List UInt8)}

/-- The page of a ToC with number `j`. -/
def tocPageAt (vol : Volume) : TocPosition → ℕ → ℕ
  | .front, j => j
  | .back, j => vol.pageCount - 1 - j

/-- The bytes of entry `k` of a ToC. -/
def tocEntry (vol : Volume) (disk : ℕ → UInt8) (pos : TocPosition) (k : ℕ) : List UInt8 :=
  block disk (tocPageAt vol pos (k / vol.perPage) * vol.pageSize +
    spifsEntryLength * (k % vol.perPage)) spifsEntryLength

/-- The entries of a ToC from number `k` on are the given ones. -/
def HoldsFrom (vol : Volume) (disk : ℕ → UInt8) (pos : TocPosition) (k : ℕ)
    (entries : List (List UInt8)) : Prop :=
  ∀ i entry, entries[i]? = some entry → tocEntry vol disk pos (k + i) = entry

/-- The cursor at an entry. -/
def cursorAt (vol : Volume) (disk : ℕ → UInt8) (pos : TocPosition) (k : ℕ) : Cursor where
  pageId := tocPageAt vol pos (k / vol.perPage)
  direction := pos
  data := spifsEntryLength * (k % vol.perPage)
  page := block disk (tocPageAt vol pos (k / vol.perPage) * vol.pageSize) vol.pageSize

theorem toc_page_at_lt (pos : TocPosition) (hj : j < vol.pageCount) :
    tocPageAt vol pos j < vol.pageCount := by
  cases pos with
  | front => exact hj
  | back =>
    show vol.pageCount - 1 - j < vol.pageCount
    omega

theorem toc_page_eq (h : vol.Sound) (pos : TocPosition) (hcount : 0 < vol.pageCount) :
    tocPage vol pos = tocPageAt vol pos 0 := by
  have hlt := h.page_count_lt
  cases pos with
  | front => rfl
  | back =>
    show sub32 vol.pageCount 1 = vol.pageCount - 1 - 0
    unfold sub32
    omega

theorem next_toc_page (h : vol.Sound) (pos : TocPosition) (hj : j + 1 < vol.pageCount) :
    pos.next (tocPageAt vol pos j) = tocPageAt vol pos (j + 1) := by
  have hlt := h.page_count_lt
  cases pos with
  | front =>
    show (j + 1) % 2 ^ 32 = j + 1
    omega
  | back =>
    show sub32 (vol.pageCount - 1 - j) 1 = vol.pageCount - 1 - (j + 1)
    unfold sub32
    omega

theorem toc_page_at_inj (pos : TocPosition) {i : ℕ} (hi : i < vol.pageCount)
    (hj : j < vol.pageCount) (heq : tocPageAt vol pos i = tocPageAt vol pos j) : i = j := by
  cases pos with
  | front => exact heq
  | back =>
    have hback : vol.pageCount - 1 - i = vol.pageCount - 1 - j := heq
    omega

theorem div_mod_place {width : ℕ} (q : ℕ) (hr : r < width) :
    (q * width + r) / width = q ∧ (q * width + r) % width = r := by
  rw [Nat.mul_comm]
  refine ⟨?_, ?_⟩
  · rw [mul_add_div (by omega), div_eq_of_lt hr, Nat.add_zero]
  · rw [mul_add_mod, mod_eq_of_lt hr]

/-- Entry `r` of page `q`. -/
theorem toc_entry_eq (disk : ℕ → UInt8) (pos : TocPosition) (q : ℕ) (hr : r < vol.perPage) :
    tocEntry vol disk pos (q * vol.perPage + r) =
      block disk (tocPageAt vol pos q * vol.pageSize + spifsEntryLength * r) spifsEntryLength := by
  rw [tocEntry, (div_mod_place q hr).1, (div_mod_place q hr).2]

theorem cursor_at_eq (disk : ℕ → UInt8) (pos : TocPosition) (q : ℕ) (hr : r < vol.perPage) :
    cursorAt vol disk pos (q * vol.perPage + r) = ⟨tocPageAt vol pos q, pos, spifsEntryLength * r,
        block disk (tocPageAt vol pos q * vol.pageSize) vol.pageSize⟩ := by
  rw [cursorAt, (div_mod_place q hr).1, (div_mod_place q hr).2]

/-- Every entry is at some place of some page. -/
theorem exists_place (h : vol.Sound) (k : ℕ) :
    ∃ q r, r < vol.perPage ∧ k = q * vol.perPage + r :=
  ⟨k / vol.perPage, k % vol.perPage, mod_lt _ (by have := h.per_page_ge; omega),
    (div_add_mod' k vol.perPage).symm⟩

theorem cursor_init_eq (h : vol.Sound) (hcount : 0 < vol.pageCount) (disk : ℕ → UInt8)
    (pos : TocPosition) :
    cursorInit vol disk pos (tocPage vol pos) = some (cursorAt vol disk pos 0) := by
  rw [cursorInit, toc_page_eq h pos hcount, h.read_page (toc_page_at_lt pos hcount)]
  simp [cursorAt]

theorem cursor_get_eq (h : vol.Sound) (disk : ℕ → UInt8) (pos : TocPosition) (k : ℕ) :
    cursorGet (cursorAt vol disk pos k) = tocEntry vol disk pos k := by
  obtain ⟨q, r, hr, rfl⟩ := exists_place h k
  rw [cursor_at_eq disk pos q hr, toc_entry_eq disk pos q hr]
  refine field_block ?_
  rw [h.per_page, ← mul_succ]
  exact Nat.mul_le_mul_left _ hr

/-- Advancing the cursor goes to the next entry. -/
theorem cursor_advance_eq (h : vol.Sound) (disk : ℕ → UInt8) (pos : TocPosition)
    (hk : k + 1 < vol.pageCount * vol.perPage) :
    cursorAdvance vol disk (cursorAt vol disk pos k) = some (cursorAt vol disk pos (k + 1)) := by
  obtain ⟨q, r, hr, rfl⟩ := exists_place h k
  have hsize := h.per_page
  rw [cursor_at_eq disk pos q hr, cursorAdvance]
  by_cases hlast : r + 1 = vol.perPage
  · -- the last entry of a page: the next one is read
    have hnext : q * vol.perPage + r + 1 = (q + 1) * vol.perPage + 0 := by
      rw [succ_mul]
      omega
    have hpage : q + 1 < vol.pageCount := by
      rw [hnext, Nat.add_zero] at hk
      exact Nat.lt_of_mul_lt_mul_right hk
    rw [hnext, cursor_at_eq disk pos (q + 1) (by omega)]
    rw [if_pos (by unfold spifsEntryLength at *; dsimp only; omega), cursorInit,
      next_toc_page h pos hpage, h.read_page (toc_page_at_lt pos hpage)]
    rfl
  · rw [Nat.add_assoc, cursor_at_eq disk pos q (by omega)]
    rw [if_neg (by unfold spifsEntryLength at *; dsimp only; omega)]
    rfl

theorem HoldsFrom.cons {entry : List UInt8} {rest : List (List UInt8)}
    (h : HoldsFrom vol disk pos k (entry :: rest)) :
    tocEntry vol disk pos k = entry ∧ HoldsFrom vol disk pos (k + 1) rest := by
  refine ⟨h 0 entry rfl, fun i e he => ?_⟩
  rw [Nat.add_assoc, Nat.add_comm 1 i]
  exact h (i + 1) e he

theorem HoldsFrom.append {first second : List (List UInt8)}
    (h : HoldsFrom vol disk pos k (first ++ second)) :
    HoldsFrom vol disk pos k first ∧ HoldsFrom vol disk pos (k + first.length) second := by
  refine ⟨fun i e he => h i e ?_, fun i e he => ?_⟩
  · rw [getElem?_append_left (List.getElem?_eq_some_iff.mp he).1]
    exact he
  · rw [Nat.add_assoc]
    refine h (first.length + i) e ?_
    rw [getElem?_append_right (Nat.le_add_right _ _), Nat.add_sub_cancel_left]
    exact he

/-! ## Reading -/

/-- The checksum over entries. -/
theorem crc_loop_of_holds (h : vol.Sound) (hholds : HoldsFrom vol disk pos (k + 1) entries)
    (hk : k + entries.length < vol.pageCount * vol.perPage) (crc : UInt32) :
    crcLoop vol disk entries.length (cursorAt vol disk pos k) crc =
      some (cursorAt vol disk pos (k + entries.length), crc32 crc entries.flatten) := by
  induction entries generalizing k crc with
  | nil =>
    rw [flatten_nil, Cksum.crc32_nil]
    rfl
  | cons entry rest ih =>
    rw [length_cons] at hk
    obtain ⟨hentry, hrest⟩ := hholds.cons
    rw [length_cons, crcLoop, cursor_advance_eq h disk pos (by omega)]
    dsimp only
    rw [cursor_get_eq h, hentry, ih hrest (by omega), Cksum.crc32_append, flatten_cons,
      Nat.add_assoc, Nat.add_comm 1]

/-- The files that a mount keeps. -/
def kept (files : List TocFile) : List TocFile := files.filter fun file => file.capacity ≠ 0

/-- The loop of a mount over entries that are on the device. -/
theorem file_loop_of_holds (h : vol.Sound) (hholds : HoldsFrom vol disk pos (k + 1) entries)
    (hk : k + entries.length < vol.pageCount * vol.perPage) (files : List TocFile) :
    fileLoop vol disk entries.length (cursorAt vol disk pos k) files =
      some (files ++ kept (entries.map TocFile.ofEntry)) := by
  induction entries generalizing k files with
  | nil =>
    rw [map_nil, kept, filter_nil, append_nil]
    rfl
  | cons entry rest ih =>
    rw [length_cons] at hk
    obtain ⟨hentry, hrest⟩ := hholds.cons
    rw [length_cons, fileLoop, cursor_advance_eq h disk pos (by omega)]
    dsimp only
    rw [cursor_get_eq h, hentry, ih hrest (by omega), map_cons, kept, kept]
    by_cases hcap : (TocFile.ofEntry entry).capacity = 0
    · rw [if_pos hcap, filter_cons_of_neg (by simp [hcap])]
    · rw [if_neg hcap, filter_cons_of_pos (by simp [hcap]), append_assoc]
      rfl

end Entries

/-! ## Tables -/

/-- A file whose fields are stored whole. -/
structure TocFile.Stored (file : TocFile) : Prop where
  page : file.pageIdx < 2 ^ 32
  length : file.length < 2 ^ 32
  capacity : file.capacity < 2 ^ 32
  filename : file.filename.length = maxFilenameLength

theorem decode_encode32 {value : ℕ} (h : value < 2 ^ 32) : decode (encode 4 value) = value :=
  decode_encode h

theorem of_entry_entry (h : file.Stored) : TocFile.ofEntry file.entry = file := by
  have hname : file.filename.length = 20 := h.filename
  simp [TocFile.ofEntry, TocFile.entry, field_tail, field_head,
    field_all hname, decode_encode32 h.page,
    decode_encode32 h.length, decode_encode32 h.capacity, maxFilenameLength]

theorem entry_length (h : file.Stored) :
    file.entry.length = spifsEntryLength := by
  simp [TocFile.entry, h.filename, maxFilenameLength, spifsEntryLength]

theorem header_length (numEntries generation : ℕ) :
    (headerEntry numEntries generation).length = spifsEntryLength := by
  simp [headerEntry, spifsEntryLength]

theorem footer_length (crc : UInt32) : (footerEntry crc).length = spifsEntryLength := by
  simp [footerEntry, spifsEntryLength]

theorem header_fields {numEntries generation : ℕ} (hn : numEntries < 2 ^ 32)
    (hg : generation < 2 ^ 32) :
    headerMagic (headerEntry numEntries generation) = fsMagic ∧
      headerVersion (headerEntry numEntries generation) = fsVersion ∧
      headerNumEntries (headerEntry numEntries generation) = numEntries ∧
      headerGeneration (headerEntry numEntries generation) = generation := by
  have hmagic : fsMagic < 2 ^ 32 := by decide
  have hversion : fsVersion < 2 ^ 32 := by decide
  simp [headerMagic, headerVersion, headerNumEntries, headerGeneration, headerEntry,
    field_tail, field_head, decode_encode32 hmagic,
    decode_encode32 hversion, decode_encode32 hn,
    decode_encode32 hg]

theorem footer_checksum (crc : UInt32) : footerChecksum (footerEntry crc) = crc.toNat := by
  have hcrc : crc.toNat < 2 ^ 32 := UInt32.toNat_lt crc
  rw [footerChecksum, footerEntry, field_tail _ _ _ (by rw [length_replicate]), length_replicate,
    Nat.sub_self, field_all (by simp), decode_encode32 hcrc]

/-- The entries between header and footer. -/
def tableBody (numEntries : ℕ) (files : List TocFile) : List (List UInt8) :=
  files.map TocFile.entry ++ replicate (numEntries - files.length) emptyEntry

/-- The checksum of a table. -/
def tableSum (numEntries generation : ℕ) (files : List TocFile) : UInt32 :=
  crc32 0 (headerEntry numEntries generation :: tableBody numEntries files).flatten

/-- All entries of a ToC. -/
def tocTable (numEntries generation : ℕ) (files : List TocFile) : List (List UInt8) :=
  headerEntry numEntries generation ::
    (tableBody numEntries files ++ [footerEntry (tableSum numEntries generation files)])

section Tables

variable {vol : Volume} {disk : ℕ → UInt8} {pos : TocPosition} {numEntries generation : ℕ}
  {files : List TocFile}

/-- A ToC is a whole table. -/
structure Holds (vol : Volume) (disk : ℕ → UInt8) (pos : TocPosition)
    (numEntries generation : ℕ) (files : List TocFile) : Prop where
  entries : HoldsFrom vol disk pos 0 (tocTable numEntries generation files)
  stored : ∀ file ∈ files, file.Stored
  length_le : files.length ≤ numEntries
  fits : numEntries + 2 ≤ vol.pageCount * vol.perPage
  num_lt : numEntries < 2 ^ 32
  generation_lt : generation < 2 ^ 32

theorem table_body_length (h : files.length ≤ numEntries) :
    (tableBody numEntries files).length = numEntries := by
  rw [tableBody, length_append, length_map, length_replicate]
  omega

theorem Holds.page_count_pos (h : Holds vol disk pos numEntries generation files) :
    0 < vol.pageCount := by
  have hfits := h.fits
  refine Nat.pos_of_ne_zero fun hzero => ?_
  rw [hzero, Nat.zero_mul] at hfits
  omega

/-- Reading a table gives its generation. -/
theorem generation_of_holds (hvol : vol.Sound)
    (h : Holds vol disk pos numEntries generation files) :
    getTocGeneration vol disk pos = generation := by
  have hbody := table_body_length h.length_le
  have hcount := h.page_count_pos
  have hfits := h.fits
  obtain ⟨hmagic, hversion, hnum, hgen⟩ := header_fields h.num_lt h.generation_lt
  obtain ⟨hheader, hrest⟩ := h.entries.cons
  obtain ⟨hentries, hlast⟩ := hrest.append
  obtain ⟨hfooter, -⟩ := hlast.cons
  have hloop := crc_loop_of_holds hvol hentries (by omega)
    (crc32 0 (headerEntry numEntries generation))
  rw [hbody] at hloop hfooter
  rw [getTocGeneration, cursor_init_eq hvol hcount]
  dsimp only
  rw [cursor_get_eq hvol, hheader, if_neg (not_not.mpr hmagic), if_neg (not_not.mpr hversion),
    checkedGeneration, cursor_get_eq hvol, hheader, hnum, hloop]
  dsimp only
  rw [cursor_advance_eq hvol disk pos (by omega)]
  dsimp only
  rw [cursor_get_eq hvol, Nat.zero_add, Nat.add_comm, ← Nat.zero_add 1, hfooter, footer_checksum,
    Cksum.crc32_append]
  rw [tableSum, flatten_cons, if_neg (not_not.mpr rfl), hgen]

theorem files_of_body (hstored : ∀ file ∈ files, file.Stored) :
    kept ((tableBody numEntries files).map TocFile.ofEntry) = kept files := by
  have hfiles : (files.map TocFile.entry).map TocFile.ofEntry = files := by
    rw [List.map_map]
    have hid : files.map (TocFile.ofEntry ∘ TocFile.entry) = files.map id :=
      map_congr_left fun file hfile => of_entry_entry (hstored file hfile)
    rw [hid, List.map_id]
  have hempty : (TocFile.ofEntry emptyEntry).capacity = 0 := by decide
  rw [kept, tableBody, map_append, filter_append, hfiles, map_replicate,
    filter_replicate_of_neg (by simp [hempty]), append_nil, kept]

/-- Mounting a table gives the files that have a capacity, if they pass the check. -/
theorem mount_toc_of_holds (hvol : vol.Sound) (h : Holds vol disk pos numEntries generation files)
    (mounted : ℕ) :
    mountToc vol disk pos mounted =
      if consistencyCheck vol (kept files) then
        .ok ⟨vol, mounted, numEntries, pos, kept files⟩
      else .error errBadState := by
  have hbody := table_body_length h.length_le
  have hfits := h.fits
  obtain ⟨-, -, hnum, -⟩ := header_fields h.num_lt h.generation_lt
  obtain ⟨hheader, hrest⟩ := h.entries.cons
  have hloop := file_loop_of_holds hvol hrest.append.1 (by omega) []
  rw [hbody, files_of_body h.stored, nil_append] at hloop
  rw [mountToc, cursor_init_eq hvol h.page_count_pos]
  dsimp only
  rw [cursor_get_eq hvol, hheader, hnum, hloop]

end Tables

/-! ## Writing -/

/-- The device after pages were written. -/
def applyWrites (vol : Volume) (disk : ℕ → UInt8) (writes : List (ℕ × List UInt8)) : ℕ → UInt8 :=
  writes.foldl (fun disk write => store disk (write.1 * vol.pageSize) write.2) disk

section Writing

variable {vol : Volume} {disk : ℕ → UInt8} {pos target : TocPosition}

theorem apply_writes_append (first second : List (ℕ × List UInt8)) :
    applyWrites vol disk (first ++ second) = applyWrites vol (applyWrites vol disk first) second :=
  foldl_append

/-- Pages of the volume are written without an error. -/
theorem write_pages_eq (h : vol.Sound) {writes : List (ℕ × List UInt8)}
    (hwrites : ∀ write ∈ writes, write.1 < vol.pageCount ∧ write.2.length = vol.pageSize) :
    writePages vol disk writes = (noError, applyWrites vol disk writes) := by
  induction writes generalizing disk with
  | nil => rfl
  | cons write rest ih =>
    obtain ⟨hpage, hbytes⟩ := hwrites write mem_cons_self
    rw [writePages, h.write_page hpage hbytes]
    dsimp only
    rw [if_neg (not_not.mpr rfl), ih (forall_mem_cons.mp hwrites).2]
    rfl

theorem page_disjoint {size page page' off : ℕ} (hne : page ≠ page') (hoff : off ≤ size) :
    page' * size + off ≤ page * size ∨ page * size + size ≤ page' * size := by
  rcases Nat.lt_or_gt_of_ne hne with hlt | hgt
  · refine .inr ?_
    rw [← succ_mul]
    exact Nat.mul_le_mul_right _ hlt
  · refine .inl (Nat.le_trans (Nat.add_le_add_left hoff _) ?_)
    rw [← succ_mul]
    exact Nat.mul_le_mul_right _ hgt

/-- Writing another page leaves an entry as it is. -/
theorem toc_entry_store_of_ne (h : vol.Sound) {page : ℕ} (hbytes : bytes.length = vol.pageSize)
    (k : ℕ) (hne : page ≠ tocPageAt vol pos (k / vol.perPage)) :
    tocEntry vol (store disk (page * vol.pageSize) bytes) pos k = tocEntry vol disk pos k := by
  refine block_store_of_disjoint ?_
  have hmod : k % vol.perPage < vol.perPage := mod_lt _ (by have := h.per_page_ge; omega)
  have hoff : spifsEntryLength * (k % vol.perPage) + spifsEntryLength ≤ vol.pageSize := by
    rw [h.per_page, ← mul_succ]
    exact Nat.mul_le_mul_left _ hmod
  rcases page_disjoint hne hoff with hlow | hhigh
  · exact .inl (by omega)
  · exact .inr (by omega)

/-- Writing a page of a ToC sets its entries. -/
theorem toc_entry_store (h : vol.Sound) (q : ℕ) {i : ℕ} (hi : i < vol.perPage) (page : ℕ → UInt8) :
    tocEntry vol (store disk (tocPageAt vol pos q * vol.pageSize) (block page 0 vol.pageSize)) pos
      (q * vol.perPage + i) = block page (spifsEntryLength * i) spifsEntryLength := by
  rw [toc_entry_eq _ pos q hi, block_store_part, Nat.zero_add]
  rw [h.per_page, ← mul_succ]
  exact Nat.mul_le_mul_left _ hi

/-- The entries placed so far: those of the first `q` pages are written, `r` entries are in the
buffer. -/
structure Filled (vol : Volume) (target : TocPosition) (disk : ℕ → UInt8)
    (placed : List (List UInt8)) (stage : Stage) (q r : ℕ) : Prop where
  place : placed.length = q * vol.perPage + r
  room : r ≤ vol.perPage
  cursor : stage.cursor = spifsEntryLength * r
  addr : stage.addr = tocPageAt vol target q
  crc : stage.crc = crc32 0 placed.flatten
  buffer : ∀ i entry, placed[q * vol.perPage + i]? = some entry →
    block stage.page (spifsEntryLength * i) spifsEntryLength = entry
  written : ∀ k entry, k < q * vol.perPage → placed[k]? = some entry →
    tocEntry vol (applyWrites vol disk stage.writes) target k = entry
  writes : ∀ write ∈ stage.writes,
    ∃ j < q, write.1 = tocPageAt vol target j ∧ write.2.length = vol.pageSize

variable {placed : List (List UInt8)} {stage : Stage} {q r : ℕ} {entry : List UInt8}

/-- Another entry goes into the buffer. -/
theorem Filled.put (h : Filled vol target disk placed stage q r) (hr : r < vol.perPage)
    (hentry : entry.length = spifsEntryLength) :
    Filled vol target disk (placed ++ [entry]) (stage.put entry) q (r + 1) where
  __ := h
  place := by
    rw [length_append, h.place]
    rfl
  room := hr
  cursor := by
    show stage.cursor + spifsEntryLength = _
    rw [h.cursor, mul_succ]
  crc := by
    show crc32 stage.crc entry = _
    rw [h.crc, Cksum.crc32_append, flatten_append, flatten_singleton]
  buffer i e he := by
    show block (store stage.page stage.cursor entry) _ _ = e
    have hplace := h.place
    rcases Nat.lt_trichotomy i r with hlt | rfl | hgt
    · rw [getElem?_append_left (by omega)] at he
      rw [block_store_of_disjoint, h.buffer i e he]
      refine .inl ?_
      rw [h.cursor, ← mul_succ]
      exact Nat.mul_le_mul_left _ hlt
    · rw [← h.place, getElem?_concat_length] at he
      cases he
      rw [← h.cursor, ← hentry, block_store]
    · rw [getElem?_eq_none (by simp; omega)] at he
      cases he
  written k e hk he := by
    have hplace := h.place
    rw [getElem?_append_left (by omega)] at he
    exact h.written k e hk he

/-- A full buffer is written: all entries are on the device. -/
theorem Filled.flush (h : Filled vol target disk placed stage q vol.perPage) (hvol : vol.Sound)
    (hq : q < vol.pageCount) {k : ℕ} (hk : placed[k]? = some entry) :
    tocEntry vol (applyWrites vol disk
      (stage.writes ++ [(stage.addr, block stage.page 0 vol.pageSize)])) target k = entry := by
  have hplace := h.place
  rw [apply_writes_append]
  show tocEntry vol (store _ (stage.addr * vol.pageSize) (block stage.page 0 vol.pageSize)) _ _ = _
  rw [h.addr]
  by_cases hlow : k < q * vol.perPage
  · rw [toc_entry_store_of_ne hvol length_block k, h.written k entry hlow hk]
    intro heq
    have hdiv : k / vol.perPage < q := Nat.div_lt_of_lt_mul (by rwa [Nat.mul_comm])
    have hsame := toc_page_at_inj target hq (by omega) heq
    omega
  · obtain ⟨i, rfl⟩ := Nat.exists_eq_add_of_le (Nat.not_lt.mp hlow)
    have hlt := (List.getElem?_eq_some_iff.mp hk).1
    rw [toc_entry_store hvol q (by omega), h.buffer i entry hk]

/-- Turning to the next page, if the buffer is full. -/
theorem Filled.turn (h : Filled vol target disk placed stage q r) (hvol : vol.Sound)
    (hroom : placed.length < vol.pageCount * vol.perPage) :
    ∃ q' r', r' < vol.perPage ∧ Filled vol target disk placed (stage.turn vol target) q' r' := by
  have hsize := hvol.per_page
  have hpos := hvol.per_page_ge
  by_cases hr : r = vol.perPage
  · subst hr
    have hplace : placed.length = (q + 1) * vol.perPage := by
      rw [h.place, succ_mul]
    have hnext : q + 1 < vol.pageCount := by
      rw [hplace] at hroom
      exact Nat.lt_of_mul_lt_mul_right hroom
    refine ⟨q + 1, 0, by omega, ?_⟩
    rw [Stage.turn, if_pos (by rw [h.cursor, ← hsize])]
    exact {
      place := hplace
      room := Nat.zero_le _
      cursor := rfl
      addr := by
        rw [h.addr, next_toc_page hvol target hnext]
      crc := h.crc
      buffer := fun i e he => by
        rw [getElem?_eq_none (by omega)] at he
        cases he
      written := fun k e _ he => h.flush hvol (by omega) he
      writes := by
        refine forall_mem_append.mpr ⟨fun write hold => ?_,
          forall_mem_singleton.mpr ⟨q, by omega, h.addr, length_block⟩⟩
        obtain ⟨j, hj, hpage⟩ := h.writes write hold
        exact ⟨j, by omega, hpage⟩ }
  · refine ⟨q, r, by have := h.room; omega, ?_⟩
    rw [Stage.turn, if_neg]
    · exact h
    · rw [h.cursor, hsize]
      exact fun heq => hr (Nat.eq_of_mul_eq_mul_left (by decide) heq)

/-- The loop places the files, and empty entries behind them. -/
theorem Filled.loop (hvol : vol.Sound) {n : ℕ} {files : List TocFile}
    (hstored : ∀ file ∈ files, file.Stored) (hlength : files.length ≤ n)
    (h : Filled vol target disk placed stage q r) (hpos : 0 < r)
    (hroom : placed.length + n ≤ vol.pageCount * vol.perPage) :
    ∃ q' r', 0 < r' ∧
      Filled vol target disk (placed ++ tableBody n files) (commitLoop vol target n files stage)
        q' r' := by
  induction n generalizing files placed stage q r with
  | zero =>
    obtain rfl : files = [] := length_eq_zero_iff.mp (by omega)
    refine ⟨q, r, hpos, ?_⟩
    show Filled vol target disk (placed ++ []) stage q r
    rwa [append_nil]
  | succ n ih =>
    obtain ⟨q', r', hr', hturn⟩ := h.turn hvol (by omega)
    cases files with
    | nil =>
      have hput := hturn.put hr'
        (show emptyEntry.length = spifsEntryLength from length_replicate)
      obtain ⟨q'', r'', hr'', hloop⟩ := ih
        (show ∀ file ∈ ([] : List TocFile), file.Stored from fun _ hfile => nomatch hfile)
        (Nat.zero_le _) hput (succ_pos _) (by rw [length_append, length_singleton]; omega)
      rw [append_assoc] at hloop
      exact ⟨q'', r'', hr'', hloop⟩
    | cons file rest =>
      have hput := hturn.put hr' (entry_length (hstored file mem_cons_self))
      obtain ⟨q'', r'', hr'', hloop⟩ := ih (forall_mem_cons.mp hstored).2
        (by simpa using hlength) hput (succ_pos _)
        (by rw [length_append, length_singleton]; omega)
      have hbody : [file.entry] ++ tableBody n rest = tableBody (n + 1) (file :: rest) := by
        simp [tableBody]
      rw [append_assoc, hbody] at hloop
      exact ⟨q'', r'', hr'', hloop⟩

/-- The sizes of a file system and its table fit together: each ToC fills its pages. -/
structure FileSystem.Fits (fs : FileSystem) (tocPages : ℕ) : Prop where
  vol : fs.vol.Sound
  entries : fs.numEntries + 2 = tocPages * fs.vol.perPage
  pages : tocPages ≤ fs.vol.pageCount
  bytes_lt : tocPages * fs.vol.pageSize < 2 ^ 32
  length_le : fs.files.length ≤ fs.numEntries
  stored : ∀ file ∈ fs.files, file.Stored

/-- What a commit writes: pages of the ToC, which then holds the table. -/
theorem commit_writes_hold {fs : FileSystem} {tocPages : ℕ} (h : fs.Fits tocPages)
    (disk : ℕ → UInt8) :
    (∀ write ∈ commitWrites fs, ∃ j < tocPages,
      write.1 = tocPageAt fs.vol fs.targetToc j ∧ write.2.length = fs.vol.pageSize) ∧
      HoldsFrom fs.vol (applyWrites fs.vol disk (commitWrites fs)) fs.targetToc 0
        (tocTable fs.numEntries fs.targetGeneration fs.files) := by
  have hvol := h.vol
  have hpp := hvol.per_page_ge
  have htotal : tocPages * fs.vol.perPage ≤ fs.vol.pageCount * fs.vol.perPage :=
    Nat.mul_le_mul_right _ h.pages
  have hentries := h.entries
  have hstart : Filled fs.vol fs.targetToc disk []
      ⟨fun _ => 0, 0, tocPage fs.vol fs.targetToc, 0, []⟩ 0 0 := {
    place := by simp
    room := Nat.zero_le _
    cursor := rfl
    addr := toc_page_eq hvol _ (Nat.pos_of_ne_zero fun hzero => by
      rw [hzero, Nat.zero_mul] at htotal
      omega)
    crc := (Cksum.crc32_nil 0).symm
    buffer := fun _ _ he => by simp at he
    written := fun _ _ _ he => by simp at he
    writes := fun _ hwrite => nomatch hwrite }
  have hheader := hstart.put (by omega) (header_length fs.numEntries fs.targetGeneration)
  obtain ⟨q, r, hr, hloop⟩ := hheader.loop hvol h.stored h.length_le Nat.one_pos
    (by rw [nil_append, length_singleton]; omega)
  obtain ⟨stage, hstage⟩ : ∃ stage, stage = commitLoop fs.vol fs.targetToc fs.numEntries fs.files
      (Stage.put ⟨fun _ => 0, 0, tocPage fs.vol fs.targetToc, 0, []⟩
        (headerEntry fs.numEntries fs.targetGeneration)) := ⟨_, rfl⟩
  rw [← hstage] at hloop
  have hwrites : commitWrites fs = stage.writes ++ [(stage.addr,
      block (store stage.page stage.cursor (footerEntry stage.crc)) 0 fs.vol.pageSize)] := by
    rw [hstage]
    rfl
  -- the last page has room for the footer, and for nothing else
  obtain ⟨hq, hlast⟩ : tocPages = q + 1 ∧ r + 1 = fs.vol.perPage := by
    have hplace := hloop.place
    have hroom := hloop.room
    rw [nil_append, length_append, length_singleton, table_body_length h.length_le] at hplace
    have hlt : q * fs.vol.perPage < tocPages * fs.vol.perPage := by omega
    obtain ⟨d, rfl⟩ := Nat.exists_eq_add_of_le (Nat.lt_of_mul_lt_mul_right hlt)
    rw [Nat.add_mul, succ_mul] at hentries
    rcases Nat.eq_zero_or_pos d with rfl | hd
    · exact ⟨rfl, by omega⟩
    · have hmul : fs.vol.perPage ≤ d * fs.vol.perPage := Nat.le_mul_of_pos_left _ hd
      omega
  have hfull := hloop.put (by omega) (footer_length stage.crc)
  rw [hlast, hloop.crc] at hfull
  have hpages := h.pages
  rw [hwrites]
  refine ⟨forall_mem_append.mpr ⟨fun write hold => ?_,
    forall_mem_singleton.mpr ⟨q, by omega, hloop.addr, length_block⟩⟩, fun k entry hk => ?_⟩
  · obtain ⟨j, hj, hpage⟩ := hloop.writes write hold
    exact ⟨j, by omega, hpage⟩
  · rw [Nat.zero_add, hloop.crc]
    exact hfull.flush hvol (by omega) (by
      rw [← hk]
      rfl)

end Writing

end NusaKernel.Spifs
