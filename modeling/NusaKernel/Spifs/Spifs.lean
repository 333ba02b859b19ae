import NusaKernel.Bio.Bytes
import NusaKernel.Cksum.Crc32
import NusaKernel.Lib.CString
import NusaKernel.Lib.LittleEndian

/-!
# The SPI flash file system (`lib/fs/spifs/spifs.c`)

A volume is a row of pages. Files occupy runs of pages. The list of files, the table of contents
(ToC), is kept twice: the front ToC starts in page 0 and goes up, the back ToC starts in the last
page and goes down. A commit writes the ToC that is not the current one, page by page, with the
next generation number and a checksum; a mount takes the one with the higher generation. Both ToCs
are files in the list themselves, the first and the last.

Page numbers, lengths and addresses are `uint32_t`. The device does what it is asked for; a page
outside of it cannot be read or written.
-/

namespace NusaKernel.Spifs

open Ring (block)
open Segment (store)
open LittleEndian (encode decode field)
open Cksum (crc32)
open Bio

/-- The difference of two `uint32_t`. -/
def sub32 (x y : ℕ) : ℕ := (x + (2 ^ 32 - y % 2 ^ 32)) % 2 ^ 32

/-- `log2_uint` (`nusa/pow2.h`). -/
def log2Uint (val : ℕ) : ℕ := Nat.log2 val

/-- `valpow2` (`nusa/pow2.h`). A shift by 32 or more is undefined in C; the processor takes it
modulo 32. -/
def valpow2 (valp2 : ℕ) : ℕ := 2 ^ (valp2 % 32)

def fsVersion : ℕ := 1

def fsMagic : ℕ := 0x53504653

def spifsEntryLength : ℕ := 32

def maxFilenameLength : ℕ := 20

/-- `CORRUPT_TOC`. -/
def corruptToc : ℕ := 0

/-- `NO_OPEN_RUNS`. -/
def noOpenRuns : ℕ := 0

/-- `toc_position_t`. -/
inductive TocPosition where
  | front
  | back
deriving DecidableEq, Repr

def TocPosition.other : TocPosition → TocPosition
  | .front => .back
  | .back => .front

/-- The page after this one in the direction of a ToC. -/
def TocPosition.next : TocPosition → ℕ → ℕ
  | .front, page => (page + 1) % 2 ^ 32
  | .back, page => sub32 page 1

/-- `toc_file_t`. -/
structure TocFile where
  pageIdx : ℕ
  length : ℕ
  capacity : ℕ
  filename : List UInt8
deriving DecidableEq, Repr

/-- The part of `spifs_t` that describes the device. -/
structure Volume where
  dev : Bdev
  pageSize : ℕ
  pageCount : ℕ
  blocksPerPage : ℕ
deriving DecidableEq

/-- `spifs_t`. -/
structure FileSystem where
  vol : Volume
  generation : ℕ
  numEntries : ℕ
  tocPosition : TocPosition
  files : List TocFile
deriving DecidableEq

/-- A mounted file system, and the bytes of its device. -/
structure System where
  fs : FileSystem
  disk : ℕ → UInt8

/-! ## Pages -/

variable (vol : Volume)

/-- `page_addr * spifs->blocks_per_page`. -/
def blockAddr (page : ℕ) : ℕ := page * vol.blocksPerPage % 2 ^ 32

/-- How many bytes the block layer transfers for a page. -/
def pageBytes (page : ℕ) : ℕ :=
  bioTrimBlockRange vol.dev (blockAddr vol page) vol.blocksPerPage * vol.dev.blockSize

variable (disk : ℕ → UInt8)

def spifsReadPage (page : ℕ) : Option (List UInt8) :=
  if pageBytes vol page % 2 ^ 32 ≠ vol.pageSize then none
  else some (block disk (blockAddr vol page * vol.dev.blockSize) vol.pageSize)

/-- `spifs_write_page` of a buffer. -/
def spifsWritePage (page : ℕ) (bytes : List UInt8) : Status × (ℕ → UInt8) :=
  let addr := blockAddr vol page * vol.dev.blockSize
  -- does the device require an erase before a write?
  let (erased, disk) :=
    if vol.dev.geometry.isEmpty then ((vol.pageSize : ℤ), disk)
    else bioErase vol.dev disk .ok addr vol.pageSize
  if erased ≠ vol.pageSize then (errIo, disk)
  else
    let disk := store disk addr (bytes.take (pageBytes vol page))
    if pageBytes vol page % 2 ^ 32 ≠ vol.pageSize then (errIo, disk) else (noError, disk)

/-! ## Entries of a ToC -/

/-- The 32 bytes of a `toc_file_t`. -/
def TocFile.entry (file : TocFile) : List UInt8 :=
  encode 4 file.pageIdx ++ (encode 4 file.length ++ (encode 4 file.capacity ++ file.filename))

variable (entry : List UInt8)

def TocFile.ofEntry : TocFile where
  pageIdx := decode (field entry 0 4)
  length := decode (field entry 4 4)
  capacity := decode (field entry 8 4)
  filename := field entry 12 maxFilenameLength

/-- `toc_header_t`. -/
def headerEntry (numEntries generation : ℕ) : List UInt8 :=
  encode 4 fsMagic ++ (encode 4 fsVersion ++ (encode 4 numEntries ++ (encode 4 generation ++
    List.replicate 16 0)))

def headerMagic : ℕ := decode (field entry 0 4)

def headerVersion : ℕ := decode (field entry 4 4)

def headerNumEntries : ℕ := decode (field entry 8 4)

def headerGeneration : ℕ := decode (field entry 12 4)

/-- `toc_footer_t`. -/
def footerEntry (crc : UInt32) : List UInt8 := List.replicate 28 0 ++ encode 4 crc.toNat

def footerChecksum : ℕ := decode (field entry 28 4)

/-- An entry without a file. -/
def emptyEntry : List UInt8 := List.replicate spifsEntryLength 0

/-! ## Reading a ToC -/

/-- `cursor_t`: the page that is in the buffer, and a position in it. -/
structure Cursor where
  pageId : ℕ
  direction : TocPosition
  data : ℕ
  page : List UInt8

/-- The page where a ToC starts. -/
def tocPage : TocPosition → ℕ
  | .front => 0
  | .back => sub32 vol.pageCount 1

def cursorInit (direction : TocPosition) (pageId : ℕ) : Option Cursor :=
  (spifsReadPage vol disk pageId).map fun page => ⟨pageId, direction, 0, page⟩

def cursorGet (cursor : Cursor) : List UInt8 := field cursor.page cursor.data spifsEntryLength

def cursorAdvance (cursor : Cursor) : Option Cursor :=
  if cursor.data + spifsEntryLength = vol.pageSize then
    cursorInit vol disk cursor.direction (cursor.direction.next cursor.pageId)
  else some { cursor with data := cursor.data + spifsEntryLength }

/-- The loop of `get_toc_generation` over the entries. -/
def crcLoop (vol : Volume) (disk : ℕ → UInt8) : ℕ → Cursor → UInt32 → Option (Cursor × UInt32)
  | 0, cursor, crc => some (cursor, crc)
  | n + 1, cursor, crc =>
    match cursorAdvance vol disk cursor with
    | none => none
    | some cursor => crcLoop vol disk n cursor (crc32 crc (cursorGet cursor))

/-- `get_toc_generation` behind the checks of magic number and version. -/
def checkedGeneration (cursor : Cursor) : ℕ :=
  let header := cursorGet cursor
  match crcLoop vol disk (headerNumEntries header) cursor (crc32 0 header) with
  | none => corruptToc
  | some (cursor, crc) =>
    match cursorAdvance vol disk cursor with
    | none => corruptToc
    | some cursor =>
      if footerChecksum (cursorGet cursor) ≠ crc.toNat then corruptToc
      else headerGeneration header

def getTocGeneration (pos : TocPosition) : ℕ :=
  match cursorInit vol disk pos (tocPage vol pos) with
  | none => corruptToc
  | some cursor =>
    if headerMagic (cursorGet cursor) ≠ fsMagic then corruptToc
    else if headerVersion (cursorGet cursor) ≠ fsVersion then corruptToc
    else checkedGeneration vol disk cursor

/-- The loop of `spifs_mount` that takes the files from the entries. -/
def fileLoop (vol : Volume) (disk : ℕ → UInt8) :
    ℕ → Cursor → List TocFile → Option (List TocFile)
  | 0, _, files => some files
  | n + 1, cursor, files =>
    match cursorAdvance vol disk cursor with
    | none => none
    | some cursor =>
      let file := TocFile.ofEntry (cursorGet cursor)
      fileLoop vol disk n cursor (if file.capacity = 0 then files else files ++ [file])

/-- `consistency_check`. -/
def consistencyCheck (vol : Volume) : List TocFile → Bool
  | file :: next :: rest =>
    let fileEndPage := sub32 (file.pageIdx + file.capacity / vol.pageSize) 1
    if next.pageIdx ≤ fileEndPage then false else consistencyCheck vol (next :: rest)
  | _ => true

/-- `get_device_page_info`: the size and the number of the pages. -/
def getDevicePageInfo (dev : Bdev) : Except Status (ℕ × ℕ) :=
  match dev.geometry with
  | [] => .ok (dev.blockSize, dev.totalSize / dev.blockSize)
  | [geo] =>
    -- `valpow2` is applied to the erase size, not to its logarithm
    let eraseSize := valpow2 (2 ^ geo.eraseShift)
    if eraseSize % dev.blockSize ≠ 0 then .error errNotSupported
    else .ok (eraseSize, dev.totalSize / eraseSize)
  | _ => .error errNotSupported

/-- The volume on a device. -/
def volumeOf (dev : Bdev) : Except Status Volume :=
  (getDevicePageInfo dev).map fun (pageSize, pageCount) =>
    ⟨dev, pageSize, pageCount % 2 ^ 32, divpow2 pageSize dev.blockShift⟩

/-- The part of `spifs_mount` behind the choice of a ToC. -/
def mountToc (pos : TocPosition) (generation : ℕ) : Except Status FileSystem :=
  match cursorInit vol disk pos (tocPage vol pos) with
  | none => .error errIo
  | some cursor =>
    let numEntries := headerNumEntries (cursorGet cursor)
    match fileLoop vol disk numEntries cursor [] with
    | none => .error errIo
    | some files =>
      if consistencyCheck vol files then .ok ⟨vol, generation, numEntries, pos, files⟩
      else .error errBadState

def spifsMount (dev : Bdev) (disk : ℕ → UInt8) : Except Status FileSystem :=
  match volumeOf dev with
  | .error status => .error status
  | .ok vol =>
    let front := getTocGeneration vol disk .front
    let back := getTocGeneration vol disk .back
    if front = corruptToc ∧ back = corruptToc then .error errCrcFail
    else mountToc vol disk (if back < front then .front else .back) (max front back)

/-! ## Writing a ToC -/

/-- What `spifs_commit_toc` works on: the page buffer, the position in it, the page it is for, the
checksum, and the pages that were written. -/
structure Stage where
  page : ℕ → UInt8
  cursor : ℕ
  addr : ℕ
  crc : UInt32
  writes : List (ℕ × List UInt8)

/-- Copy an entry to the cursor. -/
def Stage.put (stage : Stage) (entry : List UInt8) : Stage :=
  { stage with
    page := store stage.page stage.cursor entry
    cursor := stage.cursor + spifsEntryLength
    crc := crc32 stage.crc entry }

/-- A full page is written, and the next one begun. -/
def Stage.turn (stage : Stage) (vol : Volume) (target : TocPosition) : Stage :=
  if stage.cursor = vol.pageSize then
    { stage with
      writes := stage.writes ++ [(stage.addr, block stage.page 0 vol.pageSize)]
      addr := target.next stage.addr
      cursor := 0 }
  else stage

/-- The loop of `spifs_commit_toc` over the entries: files as long as there are any. -/
def commitLoop (vol : Volume) (target : TocPosition) : ℕ → List TocFile → Stage → Stage
  | 0, _, stage => stage
  | n + 1, [], stage => commitLoop vol target n [] ((stage.turn vol target).put emptyEntry)
  | n + 1, file :: rest, stage =>
    commitLoop vol target n rest ((stage.turn vol target).put file.entry)

variable (fs : FileSystem)

/-- The ToC that the next commit writes. -/
def FileSystem.targetToc : TocPosition := fs.tocPosition.other

/-- The next generation. -/
def FileSystem.targetGeneration : ℕ := (fs.generation + 1) % 2 ^ 32

/-- The pages that `spifs_commit_toc` writes, in their order. Every byte of the buffer is filled
before a page is written, so that it does not matter what it holds at the start. -/
def commitWrites : List (ℕ × List UInt8) :=
  let start : Stage := ⟨fun _ => 0, 0, tocPage fs.vol fs.targetToc, 0, []⟩
  let stage := commitLoop fs.vol fs.targetToc fs.numEntries fs.files
    (start.put (headerEntry fs.numEntries fs.targetGeneration))
  stage.writes ++
    [(stage.addr, block (store stage.page stage.cursor (footerEntry stage.crc)) 0 fs.vol.pageSize)]

/-- Write pages up to the first that fails. -/
def writePages (vol : Volume) (disk : ℕ → UInt8) :
    List (ℕ × List UInt8) → Status × (ℕ → UInt8)
  | [] => (noError, disk)
  | (page, bytes) :: rest =>
    let (err, disk) := spifsWritePage vol disk page bytes
    if err ≠ noError then (err, disk) else writePages vol disk rest

/-- The file system after a commit. -/
def FileSystem.committed : FileSystem :=
  { fs with generation := fs.targetGeneration, tocPosition := fs.targetToc }

variable (s : System)

def spifsCommitToc : Status × System :=
  let (err, disk) := writePages s.fs.vol s.disk (commitWrites s.fs)
  if err ≠ noError then (err, { s with disk := disk }) else (noError, ⟨s.fs.committed, disk⟩)

/-! ## Formatting -/

/-- `spifs_add_ascending`. -/
def spifsAddAscending (target : TocFile) : List TocFile → List TocFile
  | [] => [target]
  | file :: rest =>
    if target.pageIdx < file.pageIdx then target :: file :: rest
    else file :: spifsAddAscending target rest

variable (name : CString)

/-- A name copied into a cleared `filename`. -/
def filenameOf : List UInt8 := name.bytes ++ List.replicate (maxFilenameLength - name.strlen) 0

/-- `FRONT_TOC_LABEL`: `front-toc`. -/
def frontTocLabel : CString := ⟨[0x66, 0x72, 0x6f, 0x6e, 0x74, 0x2d, 0x74, 0x6f, 0x63], by decide⟩

/-- `BACK_TOC_LABEL`: `back-toc`. -/
def backTocLabel : CString := ⟨[0x62, 0x61, 0x63, 0x6b, 0x2d, 0x74, 0x6f, 0x63], by decide⟩

/-- The file of a ToC. -/
def tocFile (tocPages : ℕ) : TocPosition → TocFile
  | .front => ⟨0, tocPages * vol.pageSize % 2 ^ 32, tocPages * vol.pageSize % 2 ^ 32,
      filenameOf frontTocLabel⟩
  | .back => ⟨sub32 vol.pageCount tocPages, tocPages * vol.pageSize % 2 ^ 32,
      tocPages * vol.pageSize % 2 ^ 32, filenameOf backTocLabel⟩

/-- The file system that `spifs_format` commits. -/
def formatted (tocPages numEntries : ℕ) : FileSystem where
  vol := vol
  generation := 1
  numEntries := sub32 numEntries 2
  tocPosition := .front
  files := spifsAddAscending (tocFile vol tocPages .back)
    (spifsAddAscending (tocFile vol tocPages .front) [])

/-- `spifs_format`. Without arguments there is one page for a ToC. -/
def spifsFormat (dev : Bdev) (args : Option ℕ) (disk : ℕ → UInt8) : Status × (ℕ → UInt8) :=
  let tocPages := args.getD 1
  match volumeOf dev with
  | .error status => (status, disk)
  | .ok vol =>
    if vol.pageSize % spifsEntryLength ≠ 0 then (errNotSupported, disk)
    else if dev.totalSize % vol.pageSize ≠ 0 then (errNotSupported, disk)
    else
      let numEntries := tocPages * (vol.pageSize / spifsEntryLength) % 2 ^ 32
      if numEntries ≤ 4 then (errTooBig, disk)
      else
        let (err, s) := spifsCommitToc ⟨formatted vol tocPages numEntries, disk⟩
        if err ≠ noError then (err, s.disk)
        else
          let (err, s) := spifsCommitToc s
          (err, s.disk)

/-! ## Files -/

/-- `trim_name` (`lib/fs/fs.c`): leading spaces, then leading slashes are skipped. -/
def trimName : CString := (name.skip 0x20).skip 0x2f

/-- `!strncmp(name, filename, MAX_FILENAME_LENGTH)`. -/
def sameName (filename : List UInt8) : Bool :=
  name.bytes.take maxFilenameLength = filename.takeWhile (· ≠ 0)

/-- The files that are not a ToC. -/
def FileSystem.userFiles : List TocFile := fs.files.tail.dropLast

/-- `find_file`: the place in the list. The ToCs at its ends are skipped. -/
def findFile (name : CString) : Option ℕ :=
  (fs.userFiles.findIdx? fun file => sameName name file.filename).map (· + 1)

/-- The page behind a file. -/
def fileEndPage (file : TocFile) : ℕ :=
  (file.pageIdx + divpow2 file.capacity (log2Uint vol.pageSize)) % 2 ^ 32

def findOpenRun (vol : Volume) (requestedLength : ℕ) : List TocFile → ℕ
  | file :: next :: rest =>
    let availablePages := sub32 next.pageIdx (fileEndPage vol file)
    let availableBytes := availablePages * vol.pageSize % 2 ^ 32
    if requestedLength ≤ availableBytes then fileEndPage vol file
    else findOpenRun vol requestedLength (next :: rest)
  | _ => noOpenRuns

/-- `ROUNDUP(len, page_size)`, whose mask has 32 bits. -/
def roundupPage (len : ℕ) : ℕ := (len + (vol.pageSize - 1)) % 2 ^ 32 / vol.pageSize * vol.pageSize

/-- The part of a call before `spifs_commit_toc`: it is over, or the ToC is to be committed. -/
inductive Begun where
  | done (status : Status) (s : System)
  | commit (s : System)

/-- The capacity of a new file. -/
def newCapacity (len : ℕ) : ℕ := if len = 0 then vol.pageSize else roundupPage vol len

/-- `spifs_create` with a trimmed name, before the commit. -/
def createBegin (len : ℕ) : Begun :=
  if 0x2f ∈ name.bytes then .done errNotSupported s
  else if maxFilenameLength ≤ name.strlen then .done errBadPath s
  else if 0xFFFFFFFF < len then .done errTooBig s
  else if (findFile s.fs name).isSome then .done errAlreadyExists s
  else if s.fs.numEntries ≤ s.fs.files.length then .done errTooBig s
  else
    let capacity := newCapacity s.fs.vol len
    let openRun := findOpenRun s.fs.vol capacity s.fs.files
    if openRun = noOpenRuns then .done errTooBig s
    else
      let (erased, disk) :=
        bioErase s.fs.vol.dev s.disk .ok (openRun * s.fs.vol.pageSize % 2 ^ 32 : ℕ) capacity
      if erased ≠ capacity then .done errIo { s with disk := disk }
      else
        let file : TocFile := ⟨openRun, len, capacity, filenameOf name⟩
        .commit ⟨{ s.fs with files := spifsAddAscending file s.fs.files }, disk⟩

/-- `spifs_create`. If the commit fails, the file is taken from the list again. -/
def spifsCreate (len : ℕ) : Status × System :=
  match createBegin s (trimName name) len with
  | .done status s' => (status, s')
  | .commit s' =>
    let (err, s') := spifsCommitToc s'
    if err ≠ noError then (errIo, { s' with fs := { s'.fs with files := s.fs.files } })
    else (noError, s')

/-- `spifs_remove` with a trimmed name, before the commit. -/
def removeBegin : Begun :=
  match findFile s.fs name with
  | none => .done errNotFound s
  | some i => .commit { s with fs := { s.fs with files := s.fs.files.eraseIdx i } }

def spifsRemove : Status × System :=
  match removeBegin s (trimName name) with
  | .done status s' => (status, s')
  | .commit s' => spifsCommitToc s'

/-- The bytes that `spifs_write` has still to write, the page they go to, and the device. -/
structure Progress where
  buf : List UInt8
  page : ℕ
  disk : ℕ → UInt8

/-- Write a page that was made from the first `n` bytes of the buffer. -/
def Progress.put (p : Progress) (vol : Volume) (n : ℕ) (bytes : List UInt8) :
    Except (Status × Progress) Progress :=
  let (err, disk) := spifsWritePage vol p.disk p.page bytes
  if err ≠ noError then .error (err, { p with disk := disk })
  else .ok ⟨p.buf.drop n, (p.page + 1) % 2 ^ 32, disk⟩

/-- Read a page, put the first `n` bytes of the buffer into it, and write it. -/
def Progress.patch (p : Progress) (vol : Volume) (offset n : ℕ) :
    Except (Status × Progress) Progress :=
  match spifsReadPage vol p.disk p.page with
  | none => .error (errIo, p)
  | some old =>
    p.put vol n (old.take offset ++ (p.buf.take n ++ old.drop (offset + (p.buf.take n).length)))

/-- The pages that are written whole. -/
def Progress.putPages (vol : Volume) : ℕ → Progress → Except (Status × Progress) Progress
  | 0, p => .ok p
  | n + 1, p =>
    match p.put vol vol.pageSize (p.buf.take vol.pageSize) with
    | .error e => .error e
    | .ok p => putPages vol n p

/-- The leading partial page. -/
def Progress.first (p : Progress) (vol : Volume) (startAddr : ℕ) :
    Except (Status × Progress) Progress :=
  let pageOffset := startAddr % vol.pageSize
  if pageOffset ≠ 0 then
    p.patch vol pageOffset (min p.buf.length (sub32 (roundupPage vol startAddr) startAddr))
  else .ok p

/-- The trailing partial page. -/
def Progress.last (p : Progress) (vol : Volume) : Except (Status × Progress) Progress :=
  if p.buf ≠ [] then p.patch vol 0 p.buf.length else .ok p

/-- The pages of `spifs_write`. -/
def writeData (startAddr : ℕ) (buf : List UInt8) :
    Except (Status × Progress) Progress := do
  let p ← Progress.first ⟨buf, divpow2 startAddr (log2Uint vol.pageSize), disk⟩ vol startAddr
  let p ← p.putPages vol (p.buf.length / vol.pageSize)
  p.last vol

/-- `spifs_write` to the file at place `i`, before the commit. -/
def writeBegin (i : ℕ) (off : ℤ) (buf : List UInt8) : Begun :=
  match s.fs.files[i]? with
  | none => .done errBadHandle s
  | some file =>
    if off < 0 then .done errInvalidArgs s
    else
      let last := (off.toNat + buf.length) % 2 ^ 64
      if file.capacity < last then .done errOutOfRange s
      else
        let startAddr := (off.toNat + file.pageIdx * s.fs.vol.pageSize) % 2 ^ 32
        -- are we growing the file?
        let files :=
          if file.length < last then s.fs.files.set i { file with length := last % 2 ^ 32 }
          else s.fs.files
        let fs := { s.fs with files := files }
        match writeData s.fs.vol s.disk startAddr buf with
        | .error (err, p) => .done (if p.buf = [] then buf.length else err) ⟨fs, p.disk⟩
        | .ok p =>
          if file.length < last then .commit ⟨fs, p.disk⟩
          else .done buf.length ⟨fs, p.disk⟩

/-- `spifs_write`. The result of the commit is not looked at. -/
def spifsWrite (i : ℕ) (off : ℤ) (buf : List UInt8) : Status × System :=
  match writeBegin s i off buf with
  | .done status s' => (status, s')
  | .commit s' => (buf.length, (spifsCommitToc s').2)

/-- `spifs_truncate` of the file at place `i`, before the commit. -/
def truncateBegin (i len : ℕ) : Begun :=
  match s.fs.files[i]? with
  | none => .done errBadHandle s
  | some file =>
    if file.length < len then .done errInvalidArgs s
    else
      .commit { s with fs :=
        { s.fs with files := s.fs.files.set i { file with length := len % 2 ^ 32 } } }

def spifsTruncate (i len : ℕ) : Status × System :=
  match truncateBegin s i len with
  | .done status s' => (status, s')
  | .commit s' => spifsCommitToc s'

/-! ## Calls -/

/-- A call of the file system. A file is opened by its name to write to it or to truncate it. -/
inductive Op where
  | create (name : CString) (len : ℕ)
  | remove (name : CString)
  | write (name : CString) (off : ℤ) (buf : List UInt8)
  | truncate (name : CString) (len : ℕ)

/-- A call before it commits the ToC. -/
def System.begin : Op → Begun
  | .create name len => createBegin s (trimName name) len
  | .remove name => removeBegin s (trimName name)
  | .write name off buf =>
    match findFile s.fs (trimName name) with
    | none => .done errNotFound s
    | some i => writeBegin s i off buf
  | .truncate name len =>
    match findFile s.fs (trimName name) with
    | none => .done errNotFound s
    | some i => truncateBegin s i len

/-- A call. -/
def System.call : Op → Status × System
  | .create name len => spifsCreate s name len
  | .remove name => spifsRemove s name
  | .write name off buf =>
    match findFile s.fs (trimName name) with
    | none => (errNotFound, s)
    | some i => spifsWrite s i off buf
  | .truncate name len =>
    match findFile s.fs (trimName name) with
    | none => (errNotFound, s)
    | some i => spifsTruncate s i len

def System.step (op : Op) : Option System := some (s.call op).2

end NusaKernel.Spifs
