import NusaKernel.Lib.Transition
import NusaKernel.Ptable.Ptable

/-!
# Reading back the partition table

After calls of `ptable_create_default`, `ptable_add` and `ptable_remove` that all succeed,
`ptable_scan` accepts the table and yields the same entries, as long as the table is not longer
than a block of the device (`scan_round_trip`). `ptable_write` compares the length with the size
of the partition only: a longer table is written and never accepted again (`scan_too_long`).

The names of the partitions have to be new. Devices are looked up by name, so that a partition with
the name of another device hides it or is hidden by it.
-/

namespace NusaKernel.Ptable

open List Nat Option Ring Segment
open NusaKernel.Bio (bioRead)

variable {s s' : State} {dev part : Device} {entry : Entry} {others : List Device}
  {list order : List Entry} {err : Status} {io : Io} {view view' : ℕ → UInt8} {name : List UInt8}
  {offset : ℕ} {buf : List UInt8} {memory : Memory}

/-! ## The subdevices -/

/-- The subdevice of an entry. -/
def partAt (dev : Device) (entry : Entry) : Device :=
  match partDevice dev dev.bdev.blockSize entry with
  | .ok part => part
  | .error _ => dev

/-- The subdevice of an entry is its range. -/
theorem part_device_spec (hfits : Fits dev.bdev entry)
    (h : partDevice dev dev.bdev.blockSize entry = .ok part) :
    part.name = entry.partName ∧ part.medium = dev.medium ∧
      part.base = dev.base + entry.offset ∧ part.bdev.totalSize = entry.length := by
  obtain ⟨sub, hsub, -, hlength, rfl⟩ := part_device_range hfits h
  refine ⟨rfl, rfl, rfl, ?_⟩
  rw [← hlength]
  show sub.dev.blockCount * 2 ^ sub.dev.blockShift = sub.dev.blockCount * dev.bdev.blockSize
  rw [(Bio.publish_subdevice_spec hsub).2.1]
  rfl

/-- The table of a device is mounted: the list is in order, and the registered devices are the
other ones and the subdevices of the entries. -/
structure Mounted (others : List Device) (s : State) (dev : Device) : Prop where
  bdev : s.bdev = some dev
  open_dev : others.find? (·.name = dev.name) = some dev
  registry : ∃ order : List Entry, order.Perm s.list ∧ s.registry = others ++ order.map (partAt dev)
  fits : ∀ e ∈ s.list, Fits dev.bdev e
  published : ∀ e ∈ s.list, partDevice dev dev.bdev.blockSize e = .ok (partAt dev e)
  names : (s.list.map Entry.partName).Nodup
  fresh : ∀ e ∈ s.list, ∀ d ∈ others, d.name ≠ e.partName
  sorted : SortedByOffset s.list

theorem Mounted.part_name (h : Mounted others s dev) (he : entry ∈ s.list) :
    (partAt dev entry).name = entry.partName :=
  (part_device_spec (h.fits entry he) (h.published entry he)).1

/-- The device of the table is found by its name. -/
theorem open_append {registry : List Device} (hopen : others.find? (·.name = dev.name) = some dev)
    (hregistry : s.registry = others ++ registry) : bioOpen s dev.name = some dev := by
  rw [bioOpen, hregistry, find?_append, hopen]
  rfl

/-- Entries with the same name are the same. -/
theorem eq_of_part_name (h : (list.map Entry.partName).Nodup) {a b : Entry} (ha : a ∈ list)
    (hb : b ∈ list) (hname : a.partName = b.partName) : a = b :=
  inj_on_of_nodup_map h ha hb hname

/-- Unregistering by the name of an entry takes its subdevice off the list. -/
theorem unregister_part (hfresh : ∀ d ∈ others, d.name ≠ entry.partName)
    (hnames : ∀ e ∈ order, (partAt dev e).name = e.partName)
    (hnodup : (order.map Entry.partName).Nodup) (hmem : entry ∈ order) :
    unregister (others ++ order.map (partAt dev)) entry.partName =
      others ++ (order.erase entry).map (partAt dev) := by
  rw [unregister, eraseP_append_right _ fun d hd => by simpa using hfresh d hd, eraseP_map]
  congr 2
  induction order with
  | nil => rfl
  | cons e rest ih =>
    obtain ⟨hnot, hrest⟩ := nodup_cons.mp hnodup
    have hname := hnames e mem_cons_self
    by_cases heq : e = entry
    · subst heq
      rw [erase_cons_head, eraseP_cons_of_pos (by simpa using hname)]
    have hmem' : entry ∈ rest := (mem_cons.mp hmem).resolve_left (Ne.symm heq)
    have hne : (partAt dev e).name ≠ entry.partName := by
      rw [hname]
      exact fun hsame => hnot (hsame ▸ List.mem_map_of_mem hmem')
    rw [erase_cons_tail (by simpa using heq), eraseP_cons_of_neg (by simpa using hne),
      ih (forall_mem_cons.mp hnames).2 hrest hmem']

/-- Unregistering all entries leaves the other devices. -/
theorem unregister_all (hperm : order.Perm list)
    (hfresh : ∀ e ∈ list, ∀ d ∈ others, d.name ≠ e.partName)
    (hnames : ∀ e ∈ list, (partAt dev e).name = e.partName)
    (hnodup : (list.map Entry.partName).Nodup) :
    list.foldl (fun registry entry => unregister registry entry.partName)
      (others ++ order.map (partAt dev)) = others := by
  induction list generalizing order with
  | nil =>
    rw [hperm.eq_nil]
    simp
  | cons e rest ih =>
    have hrest : (order.erase e).Perm rest := by
      have herase := hperm.erase e
      rwa [erase_cons_head] at herase
    rw [foldl_cons, unregister_part (hfresh e mem_cons_self)
      (fun x hx => hnames x (hperm.mem_iff.mp hx)) ((hperm.map _).nodup_iff.mpr hnodup)
      (hperm.mem_iff.mpr mem_cons_self)]
    exact ih hrest (forall_mem_cons.mp hfresh).2
      (forall_mem_cons.mp hnames).2 (nodup_cons.mp hnodup).2

/-- `ptable_reset` leaves the other devices. -/
theorem Mounted.reset (h : Mounted others s dev) :
    ptableReset s = { s with registry := others, bdev := none, gen := 0, list := [] } := by
  obtain ⟨order, hperm, hregistry⟩ := h.registry
  unfold ptableReset
  rw [hregistry, unregister_all hperm h.fresh (fun e he => h.part_name he) h.names]

/-- The subdevice of an entry is found by its name. -/
theorem Mounted.open_part (h : Mounted others s dev) (he : entry ∈ s.list) :
    bioOpen s entry.partName = some (partAt dev entry) := by
  obtain ⟨order, hperm, hregistry⟩ := h.registry
  have hother : others.find? (fun d => d.name = entry.partName) = none :=
    find?_eq_none.mpr fun d hd => by simpa using h.fresh entry he d hd
  have hmem := hperm.mem_iff.mpr he
  have hfound : ∃ e, order.find? (fun e => (partAt dev e).name = entry.partName) = some e :=
    isSome_iff_exists.mp (find?_isSome.mpr
      ⟨entry, hmem, by simpa using h.part_name he⟩)
  obtain ⟨e, hfind⟩ := hfound
  have hemem : e ∈ s.list := hperm.mem_iff.mp (mem_of_find?_eq_some hfind)
  have hname : (partAt dev e).name = entry.partName := by simpa using find?_some hfind
  rw [h.part_name hemem] at hname
  obtain rfl := eq_of_part_name h.names hemem he hname
  rw [bioOpen, hregistry, find?_append, hother, find?_map]
  exact congrArg (Option.map (partAt dev)) hfind

/-- An entry that `ptable_publish` accepts. -/
theorem Mounted.publish (h : Mounted others s dev) (hfresh : ∀ d ∈ others, d.name ≠ entry.partName)
    (hpublish : ptablePublish memory s dev entry = (err, s')) (herr : ¬ err < 0) :
    Mounted others s' dev ∧ s'.list.Perm (entry :: s.list) ∧ s'.gen = s.gen := by
  obtain ⟨order, hperm, hregistry⟩ := h.registry
  rcases ptable_publish_spec memory s dev entry with ⟨err', registry, hneg, hspec, -⟩ |
    ⟨part, hpart, hfits, hfind, hspec⟩
  · rw [hspec] at hpublish
    cases hpublish
    exact absurd hneg herr
  rw [hspec] at hpublish
  cases hpublish
  have hlist := push_entry_perm entry s.list
  have hdevice : partDevice dev dev.bdev.blockSize entry = .ok part := by
    rw [publishPart, open_append h.open_dev hregistry] at hpart
    dsimp only at hpart
    split at hpart
    · exact hpart
    · cases hpart
  have hat : partAt dev entry = part := by rw [partAt, hdevice]
  have hall {P : Entry → Prop} (hnew : P entry) (hold : ∀ e ∈ s.list, P e) :
      ∀ e ∈ ptablePushEntry entry s.list, P e :=
    fun e he => forall_mem_cons.mpr ⟨hnew, hold⟩ e (hlist.mem_iff.mp he)
  refine ⟨⟨h.bdev, h.open_dev, ⟨order ++ [entry], ?_, ?_⟩, hall hfits h.fits,
    hall (by rw [hdevice, hat]) h.published, ?_, hall hfresh h.fresh, h.sorted.push_entry entry⟩,
    hlist, rfl⟩
  · exact ((perm_append_singleton entry order).trans (hperm.cons entry)).trans hlist.symm
  · rw [hregistry, map_append, map_singleton, hat, append_assoc]
  rw [(hlist.map Entry.partName).nodup_iff, map_cons, nodup_cons]
  refine ⟨fun hmem => ?_, h.names⟩
  obtain ⟨e, he, hname⟩ := List.mem_map.mp hmem
  have hnot := find?_eq_none.mp hfind e he
  exact hnot (by simpa using hname)

/-! ## Writing -/

/-- The table is on the device, where the entry "ptable" says. -/
structure Stored (others : List Device) (s : State) (dev : Device) (offset : ℕ) : Prop where
  mounted : Mounted others s dev
  located : ∃ e ∈ s.list, e.partName = ptablePartName ∧ e.offset = offset
  inside : offset + ptableLength s.list.length ≤ dev.bdev.totalSize
  bytes : ∃ generation < 2 ^ 32, Ring.block (dev.view s.media) offset
    (ptableLength s.list.length) = tableBytes generation s.list

/-- What `ptable_write` reports as written is there. -/
theorem store_table_ok (hle : buf.length ≤ dev.bdev.totalSize)
    (h : storeTable io dev view buf = (err, view')) (herr : ¬ err < 0) :
    Ring.block view' 0 buf.length = buf := by
  have htrim : Bio.bioTrimRange dev.bdev (0 : ℕ) buf.length = buf.length :=
    Bio.trim_range_of_le (by omega)
  unfold storeTable Bio.bioWrite Bio.bioWriteVia at h
  rw [show (0 : ℤ) = (0 : ℕ) from rfl, htrim] at h
  by_cases hempty : buf.length = 0
  · rw [length_eq_zero_iff.mp hempty]
    rfl
  rw [if_neg hempty] at h
  cases hwrite : io.write with
  | ok =>
    rw [hwrite] at h
    dsimp only at h
    rw [if_neg (Int.lt_irrefl _), take_length] at h
    cases h
    exact block_store
  | failed bytes =>
    rw [hwrite] at h
    cases h
    exact absurd (by decide) herr

theorem write_table_ok (hle : buf.length ≤ dev.bdev.totalSize)
    (h : writeTable io dev view buf = (err, view')) (herr : ¬ err < 0) :
    Ring.block view' 0 buf.length = buf := by
  unfold writeTable at h
  dsimp only at h
  split at h
  · cases h
    exact absurd (by decide) herr
  · exact store_table_ok hle h herr

/-- What was written to a part of a device is read from the device. -/
theorem view_put (hmedium : part.medium = dev.medium)
    (hbase : part.base = dev.base + offset) (media : ℕ → ℕ → UInt8) (view : ℕ → UInt8) (count : ℕ) :
    Ring.block (dev.view (part.put media view)) offset count = Ring.block view 0 count := by
  refine map_congr_left fun i _ => ?_
  show Function.update media part.medium _ dev.medium (dev.base + (offset + i)) = view (0 + i)
  rw [hmedium, Function.update_self, hbase, if_pos (by omega)]
  congr 1
  omega

/-- `ptable_write` with the entry "ptable" in the list. -/
theorem Mounted.write (h : Mounted others s dev) {e : Entry} (he : e ∈ s.list)
    (hname : e.partName = ptablePartName) (hgen : s.gen < 2 ^ 32)
    (hwrite : ptableWrite io s = (err, s')) (herr : ¬ err < 0) :
    Stored others s' dev e.offset ∧ s'.gen < 2 ^ 32 := by
  obtain ⟨-, hmedium, hbase, htotal⟩ := part_device_spec (h.fits e he) (h.published e he)
  have hopen : bioOpen s ptablePartName = some (partAt dev e) := hname ▸ h.open_part he
  unfold ptableWrite at hwrite
  rw [h.bdev, hopen] at hwrite
  dsimp only at hwrite
  split at hwrite
  · cases hwrite
    exact absurd (by decide) herr
  next hroom =>
  split at hwrite
  · cases hwrite
    exact absurd (by decide) herr
  cases hresult : writeTable io (partAt dev e) ((partAt dev e).view s.media)
      (tableBytes s.gen s.list) with
  | mk err' view' =>
    rw [hresult] at hwrite
    cases hwrite
    have hend := (h.fits e he).end_le
    have hblock := write_table_ok (by rw [length_table_bytes]; omega) hresult herr
    refine ⟨⟨{ h with bdev := rfl },
      ⟨e, he, hname, rfl⟩, ?_, s.gen, hgen, ?_⟩, mod_lt _ (by decide)⟩
    · show e.offset + ptableLength s.list.length ≤ _
      omega
    · rw [length_table_bytes] at hblock
      exact (view_put hmedium hbase _ _ _).trans hblock

/-! ## Scanning -/

/-- There is a table with these entries on a device: they are sorted and have different names,
each fits and can be published, and "ptable" is where the table is. -/
structure TableAt (others : List Device) (dev : Device) (media : ℕ → ℕ → UInt8) (offset : ℕ)
    (list : List Entry) : Prop where
  open_dev : others.find? (·.name = dev.name) = some dev
  fits : ∀ e ∈ list, Fits dev.bdev e
  published : ∀ e ∈ list, partDevice dev dev.bdev.blockSize e = .ok (partAt dev e)
  names : (list.map Entry.partName).Nodup
  sorted : SortedByOffset list
  located : ∃ e ∈ list, e.partName = ptablePartName ∧ e.offset = offset
  inside : offset + ptableLength list.length ≤ dev.bdev.totalSize
  bytes : ∃ generation < 2 ^ 32, Ring.block (dev.view media) offset (ptableLength list.length) =
    tableBytes generation list

section Scan

variable {media : ℕ → ℕ → UInt8} {list : List Entry} {offset generation : ℕ}
  {done rest : List Entry}

theorem TableAt.read_entry (h : TableAt others dev media offset list)
    (hsplit : list = done ++ entry :: rest) (stack : ℕ → ℕ → UInt8) :
    readEntry (.ok stack) dev media offset done.length = ((32 : ℤ), entry.bytes) := by
  obtain ⟨generation, -, hbytes⟩ := h.bytes
  have hinside := h.inside
  have htotal := dev.bdev.total_size_lt
  have hcount : list.length = done.length + (rest.length + 1) := by
    rw [hsplit, length_append, length_cons]
  unfold ptableLength at hinside
  have htable : tableBytes generation list =
      ((tableHeader generation list).bytes ++ done.flatMap Entry.bytes) ++
        (entry.bytes ++ rest.flatMap Entry.bytes) := by
    rw [tableBytes, append_assoc]
    congr 1
    rw [hsplit, flatMap_append, flatMap_cons]
  rw [← length_table_bytes generation list, htable] at hbytes
  have hpart := (block_append_iff.mp (block_append_iff.mp hbytes).2).1
  rw [length_append, Header.length_bytes, length_entries_bytes, Entry.length_bytes] at hpart
  have hoff : Bio.toOff (offset + 16 + 32 * done.length : ℕ) =
      (offset + 16 + 32 * done.length : ℕ) := Bio.to_off_eq (by omega) (by omega)
  unfold readEntry
  rw [hoff]
  have hread : bioRead dev.bdev (dev.view media) .ok (Ring.block (stack done.length) 0 32)
      (offset + 16 + 32 * done.length : ℕ) = (((Ring.block (stack done.length) 0 32).length : ℤ),
        Ring.block (dev.view media) (offset + 16 + 32 * done.length)
          (Ring.block (stack done.length) 0 32).length) :=
    Bio.bio_read_of_le (by rw [length_block]; omega)
  rw [length_block] at hread
  refine hread.trans ?_
  rw [Nat.add_assoc, hpart]
  rfl

/-- A round of the loop with an entry that is read whole and accepted. -/
theorem scan_entry_eq {io : Io} {i : ℕ} (crc : UInt32) (found : Bool)
    (hpublish : ptablePublish (io.memory i) s dev entry = (noError, s'))
    (hread : readEntry io dev s.media offset i = ((32 : ℤ), entry.bytes))
    (hplace : ¬ (entry.partName = ptablePartName ∧ entry.offset ≠ offset)) :
    scanEntry io dev offset i s crc found =
      (noError, s', Cksum.crc32 crc entry.bytes, found || entry.partName = ptablePartName) := by
  unfold scanEntry
  rw [hread]
  dsimp only
  rw [if_neg (by decide), Entry.of_bytes_bytes, hpublish]
  dsimp only
  rw [if_neg (by decide), if_neg hplace]

/-- The loop over the entries publishes them again, one behind the other. -/
theorem TableAt.scan_entries (h : TableAt others dev media offset list) (stack : ℕ → ℕ → UInt8)
    (gen : ℕ) (hsplit : list = done ++ rest) (crc : UInt32) (found : Bool) :
    scanEntries (.ok stack) dev offset rest.length done.length
        ⟨others ++ done.map (partAt dev), media, some dev, gen, done⟩ crc found =
      (noError, ⟨others ++ list.map (partAt dev), media, some dev, gen, list⟩,
        entriesCrc crc rest, found || rest.any fun e => e.partName = ptablePartName) := by
  induction rest generalizing done crc found with
  | nil =>
    subst hsplit
    simp [scanEntries, entriesCrc]
  | cons e rest ih =>
    have hmem : e ∈ list := by simp [hsplit]
    have hnext : list = (done ++ [e]) ++ rest := by simp [hsplit]
    have hread := h.read_entry hsplit stack
    have hlast : ptablePushEntry e done = done ++ [e] := by
      refine push_entry_last fun x hx => ?_
      exact (pairwise_append.mp (hsplit ▸ h.sorted)).2.2 x hx e mem_cons_self
    have hfind : ptableFind done e.partName = none := by
      refine find?_eq_none.mpr fun x hx => ?_
      have hnames := h.names
      rw [hsplit, map_append, map_cons] at hnames
      have hne := (nodup_append.mp hnames).2.2 x.partName (List.mem_map_of_mem hx) e.partName
        mem_cons_self
      simpa using hne
    have hpart : publishPart ((Io.ok stack).memory done.length)
        ⟨others ++ done.map (partAt dev), media, some dev, gen, done⟩ dev e =
          .ok (partAt dev e) := by
      rw [publishPart, open_append h.open_dev rfl]
      exact h.published e hmem
    have hpublish := ptable_publish_of_fits (h.fits e hmem) hfind hpart
    have hplace : ¬ (e.partName = ptablePartName ∧ e.offset ≠ offset) := by
      rintro ⟨hname, hwrong⟩
      obtain ⟨x, hx, hptable, hoffset⟩ := h.located
      obtain rfl := eq_of_part_name h.names hmem hx (hname.trans hptable.symm)
      exact hwrong hoffset
    have hround := scan_entry_eq crc found hpublish hread hplace
    rw [length_cons, scanEntries, hround]
    dsimp only
    rw [if_neg (by decide)]
    have hrest := ih hnext (Cksum.crc32 crc e.bytes) (found || e.partName = ptablePartName)
    rw [length_append, map_append, length_singleton, map_singleton, ← append_assoc] at hrest
    rw [hlast, hrest, entriesCrc, entriesCrc, foldl_cons, any_cons, Bool.or_assoc]

theorem header_of_table (hgeneration : generation < 2 ^ 32)
    (hlength : ptableLength list.length < 2 ^ 32) :
    Header.ofBytes (tableHeader generation list).bytes = tableHeader generation list := by
  rw [Header.of_bytes_bytes, tableHeader]
  rw [mod_eq_of_lt (UInt32.toNat_lt _), mod_eq_of_lt hgeneration,
    mod_eq_of_lt hlength, show magic % 2 ^ 32 = magic from rfl]

/-- A table that is not longer than a block is accepted from its header on. -/
theorem scan_table_eq {io : Io} {s₀ : State} {crc : UInt32} {found : Bool}
    (hlength : ptableLength list.length ≤ dev.bdev.blockSize)
    (hentries : scanEntries io dev offset list.length 0 s₀
      (Cksum.crc32 0 (Header.bytes ⟨magic, 0, generation, ptableLength list.length⟩)) false =
        (noError, s', crc, found))
    (hcrc : crc = entriesCrc (Cksum.crc32 0
      (Header.bytes ⟨magic, 0, generation, ptableLength list.length⟩)) list)
    (hfound : found = true) :
    scanTable io s₀ dev offset (tableHeader generation list) = (noError, s') := by
  have hcount : (ptableLength list.length - 16) / 32 = list.length := by
    unfold ptableLength
    omega
  have hwhole : (ptableLength list.length - 16) % 32 = 0 := by
    unfold ptableLength
    omega
  have hlong : 16 ≤ ptableLength list.length := Nat.le_add_right ..
  unfold scanTable tableHeader
  dsimp only
  rw [if_neg (not_not.mpr rfl), if_neg (by omega), if_neg (by omega), if_neg (not_not.mpr hwhole),
    hcount, hentries]
  dsimp only
  rw [if_neg (by decide), if_neg (not_not.mpr (congrArg UInt32.toNat hcrc.symm)),
    if_neg (not_not.mpr hfound)]

end Scan

/-- A table that is not longer than a block is accepted. -/
theorem TableAt.scan (h : TableAt others dev s.media offset list)
    (hreset : ptableReset s = { s with registry := others, bdev := none, gen := 0, list := [] })
    (hlength : ptableLength list.length ≤ dev.bdev.blockSize) (stack : ℕ → ℕ → UInt8) :
    ptableScan (.ok stack) s dev.name offset =
      (noError, ⟨others ++ list.map (partAt dev), s.media, some dev, 0, list⟩) := by
  obtain ⟨e, he, hname, -⟩ := h.located
  obtain ⟨generation, hgeneration, hbytes⟩ := h.bytes
  have hsize := dev.bdev.block_size_le
  have htotal := dev.bdev.total_size_lt
  have hinside := h.inside
  have hlong : 16 ≤ ptableLength list.length := Nat.le_add_right ..
  have hentries := h.scan_entries stack 0 (show list = [] ++ list from rfl)
    (Cksum.crc32 0 (Header.bytes ⟨magic, 0, generation, ptableLength list.length⟩)) false
  have hfound : (false || list.any fun x => x.partName = ptablePartName) = true := by
    rw [Bool.false_or, List.any_eq_true]
    exact ⟨e, he, decide_eq_true hname⟩
  have hheader : Ring.block (dev.view s.media) offset 16 = (tableHeader generation list).bytes := by
    rw [← length_table_bytes generation list, tableBytes] at hbytes
    have hpart := (block_append_iff.mp hbytes).1
    rwa [Header.length_bytes] at hpart
  have hread : bioRead dev.bdev (dev.view s.media) .ok (replicate 16 0) (Bio.toOff offset) =
      ((16 : ℤ), (tableHeader generation list).bytes) := by
    rw [Bio.to_off_eq (by omega) (by omega), ← hheader]
    exact Bio.bio_read_of_le (by rw [length_replicate]; omega)
  have hopen : bioOpen (ptableReset s) dev.name = some dev := by
    rw [hreset]
    exact open_append h.open_dev (append_nil others).symm
  have hscan : scanOn (.ok stack) { ptableReset s with bdev := some dev } dev offset =
      (noError, ⟨others ++ list.map (partAt dev), s.media, some dev, 0, list⟩) := by
    unfold scanOn
    rw [hreset]
    dsimp only [Io.ok]
    rw [hread]
    dsimp only
    rw [if_neg (by decide), header_of_table hgeneration (by omega)]
    refine scan_table_eq hlength ?_ rfl hfound
    rw [map_nil, append_nil] at hentries
    exact hentries
  rw [ptableScan, hopen]
  dsimp only
  rw [hscan]
  rfl

theorem Stored.table_at (h : Stored others s dev offset) :
    TableAt others dev s.media offset s.list where
  __ := h.mounted
  __ := h

/-! ## Changes of the table -/

theorem part_name_new_entry (hzero : 0 ∉ name) (hlength : name.length ≤ 11) (offset length : ℕ) :
    (newEntry name offset length).partName = name := by
  have htake : name.take 11 = name := take_of_length_le hlength
  have hrest : replicate (12 - min 11 name.length) (0 : UInt8) =
      0 :: replicate (11 - min 11 name.length) 0 := by
    rw [show 12 - min 11 name.length = 11 - min 11 name.length + 1 by omega, replicate_succ]
  show (nameField name).takeWhile (· ≠ 0) = name
  rw [nameField, htake, hrest, takeWhile_append_of_pos, takeWhile_cons_of_neg (by decide),
    append_nil]
  intro byte hbyte
  exact decide_eq_true fun h => hzero (h ▸ hbyte)

/-- A device is chosen and its table is empty. -/
theorem Mounted.empty (hopen : others.find? (·.name = dev.name) = some dev)
    (media : ℕ → ℕ → UInt8) (gen : ℕ) : Mounted others ⟨others, media, some dev, gen, []⟩ dev where
  bdev := rfl
  open_dev := hopen
  registry := ⟨[], .refl _, by simp⟩
  fits := by simp
  published := by simp
  names := by simp
  fresh := by simp
  sorted := List.Pairwise.nil

/-- `ptable_unpublish` of an entry of the table. -/
theorem Mounted.unpublish (h : Mounted others s dev) (he : entry ∈ s.list) :
    Mounted others (ptableUnpublish s entry) dev := by
  obtain ⟨order, hperm, hregistry⟩ := h.registry
  have hsub : (s.list.erase entry).Sublist s.list := erase_sublist
  exact {
    __ := h
    registry := by
      refine ⟨order.erase entry, hperm.erase entry, ?_⟩
      show unregister s.registry entry.partName = _
      rw [hregistry]
      exact unregister_part (h.fresh entry he) (fun e hmem => h.part_name (hperm.mem_iff.mp hmem))
        ((hperm.map _).nodup_iff.mpr h.names) (hperm.mem_iff.mpr he)
    fits := fun e hmem => h.fits e (hsub.subset hmem)
    published := fun e hmem => h.published e (hsub.subset hmem)
    names := h.names.sublist (hsub.map _)
    fresh := fun e hmem => h.fresh e (hsub.subset hmem)
    sorted := h.sorted.sublist hsub }

/-- An entry that is published and written, to the place of the entry "ptable". -/
theorem Mounted.commit (h : Mounted others s dev) (hgen : s.gen < 2 ^ 32) {place : ℤ × ℕ}
    (hfresh : ∀ d ∈ others, d.name ≠ (newEntry name offset place.2).partName) {table : Entry}
    (htable : table ∈ newEntry name offset place.2 :: s.list)
    (hptable : table.partName = ptablePartName)
    (hcommit : commitEntry io s dev place name offset = (err, s')) (herr : ¬ err < 0) :
    Stored others s' dev table.offset ∧ s'.gen < 2 ^ 32 := by
  unfold commitEntry at hcommit
  split at hcommit
  · next hneg =>
    cases hcommit
    exact absurd hneg herr
  cases hpublish : ptablePublish (io.memory 0) s dev (newEntry name offset place.2) with
  | mk err₁ s₁ =>
    rw [hpublish] at hcommit
    dsimp only at hcommit
    split at hcommit
    · next hneg =>
      cases hcommit
      exact absurd hneg herr
    next herr₁ =>
    obtain ⟨hmounted, hperm, hgen₁⟩ := h.publish hfresh hpublish herr₁
    exact hmounted.write (hperm.mem_iff.mpr htable) hptable (hgen₁ ▸ hgen) hcommit herr

/-- A successful `ptable_create_default` with the device open. -/
theorem create_on_spec (h : Mounted others s dev) (hgen : s.gen < 2 ^ 32)
    (hfresh : ∀ d ∈ others, d.name ≠ ptablePartName) (hoffset : offset < 2 ^ 64)
    (hcreate : createOn io s dev offset = (err, s')) (herr : ¬ err < 0) :
    Stored others s' dev offset ∧ s'.gen < 2 ^ 32 := by
  unfold createOn at hcreate
  have hname (length : ℕ) : (newEntry ptablePartName offset length).partName = ptablePartName :=
    part_name_new_entry (by decide) (by decide) offset length
  have hcommit := h.commit hgen (by rw [hname]; exact hfresh) mem_cons_self (hname _) hcreate herr
  rwa [show (newEntry ptablePartName offset _).offset = offset from mod_eq_of_lt hoffset] at hcommit

theorem create_default_spec
    (hreset : ptableReset s = { s with registry := others, bdev := none, gen := 0, list := [] })
    (hfresh : ∀ d ∈ others, d.name ≠ ptablePartName) {bdevName : List UInt8}
    (hoffset : offset < 2 ^ 64)
    (hcreate : ptableCreateDefault io s bdevName offset = (err, s')) (herr : ¬ err < 0) :
    ∃ dev, dev.name = bdevName ∧ Stored others s' dev offset ∧ s'.gen < 2 ^ 32 := by
  unfold ptableCreateDefault at hcreate
  rw [hreset] at hcreate
  dsimp only at hcreate
  split at hcreate
  · cases hcreate
    exact absurd (by decide) herr
  next dev hopen =>
  have hname : dev.name = bdevName := by simpa using find?_some hopen
  subst hname
  have hempty : Mounted others ⟨others, s.media, some dev, 0, []⟩ dev := .empty hopen s.media 0
  cases hcreated : createOn io ⟨others, s.media, some dev, 0, []⟩ dev offset with
  | mk err₁ s₁ =>
    rw [hcreated, orReset] at hcreate
    split at hcreate
    · next hneg =>
      cases hcreate
      exact absurd hneg herr
    · cases hcreate
      exact ⟨dev, rfl, create_on_spec hempty (Nat.two_pow_pos 32) hfresh hoffset hcreated herr⟩

variable {offset : ℕ}

theorem Stored.add (h : Stored others s dev offset) (hgen : s.gen < 2 ^ 32) (hzero : 0 ∉ name)
    (hfresh : ∀ d ∈ others, d.name ≠ name) {minLen flags : ℕ}
    (hadd : ptableAdd io s name minLen flags = (err, s')) (herr : ¬ err < 0) :
    Stored others s' dev offset ∧ s'.gen < 2 ^ 32 := by
  obtain ⟨e, he, hptable, rfl⟩ := h.located
  unfold ptableAdd at hadd
  rw [h.mounted.bdev] at hadd
  dsimp only at hadd
  split at hadd
  · cases hadd
    exact absurd (by decide) herr
  next hlength =>
  refine h.mounted.commit hgen ?_ (mem_cons_of_mem _ he) hptable hadd herr
  rw [part_name_new_entry hzero (Nat.not_lt.mp hlength)]
  exact hfresh

theorem Stored.remove (h : Stored others s dev offset) (hgen : s.gen < 2 ^ 32)
    (hremove : ptableRemove io s name = (err, s')) (herr : ¬ err < 0) :
    Stored others s' dev offset ∧ s'.gen < 2 ^ 32 := by
  obtain ⟨e, he, hptable, rfl⟩ := h.located
  unfold ptableRemove at hremove
  rw [h.mounted.bdev] at hremove
  dsimp only at hremove
  split at hremove
  · cases hremove
    exact absurd (by decide) herr
  next hother =>
  split at hremove
  · cases hremove
    exact absurd (by decide) herr
  next entry hfind =>
  have hentry : entry.partName = name := by simpa using find?_some hfind
  have hne : e ≠ entry := fun heq => hother (hentry ▸ heq ▸ hptable)
  exact (h.mounted.unpublish (mem_of_find?_eq_some hfind)).write
    ((mem_erase_of_ne hne).mpr he) hptable hgen hremove herr

/-! ## Sessions -/

/-- The table, and the device and the offset of the last `ptable_create_default`. -/
structure Session where
  state : State
  device : List UInt8
  offset : ℕ

/-- A call that reports success. -/
def Session.step (t : Session) (change : Change) : Option Session :=
  let result := t.state.change change
  if result.1 < 0 then none
  else
    match change with
    | .createDefault _ bdevName offset => some ⟨result.2, bdevName.1, offset.toNat⟩
    | _ => some { t with state := result.2 }

/-- Before the first call there are only other devices. -/
def Session.Booted (others : List Device) (t : Session) : Prop :=
  t.state.registry = others ∧ t.state.bdev = none ∧ t.state.gen = 0 ∧ t.state.list = []

/-- A new partition does not have the name of another device. -/
def FreshName (others : List Device) (_ : Session) : Change → Prop
  | .add _ name _ _ => ∀ d ∈ others, d.name ≠ name.1
  | _ => True

/-- `FreshName` can be checked along a run. -/
instance (others : List Device) (t : Session) : DecidablePred (FreshName others t)
  | .add _ name _ _ => inferInstanceAs (Decidable (∀ d ∈ others, d.name ≠ name.1))
  | .createDefault .. | .remove .. => inferInstanceAs (Decidable True)

/-- There is no table yet, or it is stored where it was created. -/
def Session.Kept (others : List Device) (t : Session) : Prop :=
  t.Booted others ∨ ∃ dev, dev.name = t.device ∧ Stored others t.state dev t.offset ∧
    t.state.gen < 2 ^ 32

theorem Session.Kept.reset {t : Session} (h : t.Kept others) :
    ptableReset t.state =
      { t.state with registry := others, bdev := none, gen := 0, list := [] } := by
  rcases h with ⟨hregistry, hbdev, hgen, hlist⟩ | ⟨dev, -, hstored, -⟩
  · unfold ptableReset
    rw [hlist, hregistry]
    rfl
  · exact hstored.mounted.reset

theorem Session.Kept.step {t t' : Session} {change : Change} (h : t.Kept others)
    (hptable : ∀ d ∈ others, d.name ≠ ptablePartName) (hfresh : FreshName others t change)
    (hstep : t.step change = some t') : t'.Kept others := by
  obtain ⟨herr, hresult⟩ := ite_none_left_eq_some.mp hstep
  cases hchange : t.state.change change with
  | mk err s' =>
  rw [hchange] at herr hresult
  cases change with
  | createDefault io bdevName offset =>
    cases hresult
    exact .inr (create_default_spec h.reset hptable offset.toNat_lt hchange herr)
  | add io name minLen flags =>
    cases hresult
    rcases h with ⟨-, hbdev, -, -⟩ | ⟨dev, hname, hstored, hgen⟩
    · simp only [State.change, ptableAdd, hbdev] at hchange
      cases hchange
      exact absurd (show errNotMounted < 0 by decide) herr
    · exact .inr ⟨dev, hname, hstored.add hgen name.2 hfresh hchange herr⟩
  | remove io name =>
    cases hresult
    rcases h with ⟨-, hbdev, -, -⟩ | ⟨dev, hname, hstored, hgen⟩
    · simp only [State.change, ptableRemove, hbdev] at hchange
      cases hchange
      exact absurd (show errNotMounted < 0 by decide) herr
    · exact .inr ⟨dev, hname, hstored.remove hgen hchange herr⟩

/-- A table that is not longer than a block of its device is read back: after calls that all
reported success, `ptable_scan` finds the entries in use. -/
theorem scan_round_trip (hptable : ∀ d ∈ others, d.name ≠ ptablePartName) {t : Session}
    (h : Transition.Reachable Session.step (FreshName others) (Session.Booted others) t)
    (hmounted : t.state.bdev = some dev)
    (hlength : ptableLength t.state.list.length ≤ dev.bdev.blockSize) (stack : ℕ → ℕ → UInt8) :
    ∃ s', ptableScan (.ok stack) t.state t.device t.offset = (noError, s') ∧
      s'.list = t.state.list := by
  have hkept : t.Kept others := Transition.Reachable.invariant (P := Session.Kept others)
    .inl (fun hk => hk.step hptable) h
  rcases hkept with ⟨-, hnone, -, -⟩ | ⟨dev', hname, hstored, -⟩
  · rw [hnone] at hmounted
    cases hmounted
  · obtain rfl : dev = dev' := some.inj (hmounted.symm.trans hstored.mounted.bdev)
    rw [← hname]
    exact ⟨_, hstored.table_at.scan hstored.mounted.reset hlength stack, rfl⟩

/-- A device "nor0" of 64 blocks of 512 bytes. -/
def sampleDevice : Device :=
  ⟨[0x6e, 0x6f, 0x72, 0x30], ⟨9, 64, [], 0, false, false, by decide, by decide, by decide⟩, 0, 0⟩

/-- No table, and the one device. -/
def sampleSession : Session := ⟨⟨[sampleDevice], fun _ _ => 0, none, 0, []⟩, [], 0⟩

/-- A new table on the device. -/
def createSample : Change := .createDefault (.ok fun _ _ => 0) ⟨sampleDevice.name, by decide⟩ 0

/-- A new partition of one block, with a letter as its name. -/
def addSample (i : Fin 26) : Change :=
  .add (.ok fun _ _ => 0) ⟨[UInt8.ofNat (0x61 + i)], by revert i; decide⟩ 512 0

/-- What holds after calls that all succeed is reachable. -/
theorem exists_session {P : Session → Prop} (changes : List Change)
    (hadmits : Transition.Admits Session.step (FreshName [sampleDevice]) sampleSession changes)
    (hrun : ∃ t ∈ Transition.run Session.step sampleSession changes, P t) :
    ∃ t, Transition.Reachable Session.step (FreshName [sampleDevice])
      (Session.Booted [sampleDevice]) t ∧ P t :=
  Transition.Reachable.exists_run (.init ⟨rfl, rfl, rfl, rfl⟩) hadmits hrun

/-- A table with two partitions. -/
theorem scan_round_trip_two :
    ∃ t : Session, Transition.Reachable Session.step (FreshName [sampleDevice])
        (Session.Booted [sampleDevice]) t ∧
      t.state.bdev = some sampleDevice ∧
      t.state.list.map Entry.partName = [ptablePartName, [0x61]] ∧
      ∃ s', ptableScan (.ok fun _ _ => 0) t.state t.device t.offset = (noError, s') ∧
        s'.list = t.state.list := by
  obtain ⟨t, hreach, hbdev, hnames⟩ := exists_session
    (P := fun t => t.state.bdev = some sampleDevice ∧
      t.state.list.map Entry.partName = [ptablePartName, [0x61]])
    [createSample, addSample 0] (by decide +kernel) (by decide +kernel)
  have hlength : t.state.list.length = 2 := by
    rw [← length_map Entry.partName, hnames]
    rfl
  exact ⟨t, hreach, hbdev, hnames, scan_round_trip (by decide) hreach hbdev
    (by rw [hlength]; decide) _⟩

/-- On a device with blocks of 512 bytes the table with the fifteenth new partition has 528 bytes.
All calls succeed, and `ptable_scan` does not find a table. -/
theorem scan_too_long :
    ∃ t : Session, Transition.Reachable Session.step (FreshName [sampleDevice])
        (Session.Booted [sampleDevice]) t ∧
      (t.state.bdev = some sampleDevice ∧ t.state.list.length = 16) ∧
      (ptableScan (.ok fun _ _ => 0) t.state t.device t.offset).1 = errNotFound :=
  exists_session (createSample :: (range 15).map fun i => addSample (Fin.ofNat 26 i))
    (by decide +kernel) (by decide +kernel)

end NusaKernel.Ptable
