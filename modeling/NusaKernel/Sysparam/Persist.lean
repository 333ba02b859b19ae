import NusaKernel.Lib.Transition
import NusaKernel.Sysparam.Sysparam

/-!
# System parameters persist

What `sysparam_write` stores is read back by `sysparam_scan`: the parameters in their order, with
names, data and flags (`params_persist`). The names and data have to be shorter than 65536 bytes,
since the header keeps their lengths in 16 bits, and the write to the device must not fail: its
result is not looked at, and the call reports success and clears the dirty flag
(`failed_write_loses_params`). A failed erase is noticed.
-/

namespace NusaKernel.Sysparam

open List Ring Segment LittleEndian
open Word (roundup64)
open Cksum (crc32)
open Bio
open Transition (Reachable)

/-! ## Records -/

/-- How many zeros follow `n` bytes. -/
def padding (n : ℕ) : ℕ := (4 - n % 4) % 4

def padded (bytes : List UInt8) : List UInt8 := bytes ++ replicate (padding bytes.length) 0

/-- What the checksum of a record covers. -/
def body (param : Param) : List UInt8 :=
  headerFields param ++ (padded param.name.bytes ++ padded param.data)

/-- A parameter as it is stored. -/
def record (param : Param) : List UInt8 :=
  encode 4 sysparamMagic ++ (encode 4 (crc32 0 (body param)).toNat ++ body param)

def serialized (list : List Param) : List UInt8 := list.flatMap record

/-- The lengths fit into the header. -/
structure Narrow (param : Param) : Prop where
  name : param.name.strlen < 2 ^ 16
  data : param.data.length < 2 ^ 16

theorem padded_length (bytes : List UInt8) :
    (padded bytes).length = bytes.length + padding bytes.length := by
  rw [padded, length_append, length_replicate]

theorem roundup_four {n : ℕ} (h : n < 2 ^ 16) : roundup64 n 4 = n + padding n := by
  unfold roundup64 padding
  omega

theorem header_fields_length (param : Param) : (headerFields param).length = 8 := by
  simp [headerFields]

variable {param : Param}

theorem record_length (h : Narrow param) : (record param).length = preflightLen param := by
  simp only [record, body, length_append, length_encode, header_fields_length,
    padded_length, preflightLen, physSize, roundup_four h.data, roundup_four h.name]
  unfold CString.strlen
  omega

theorem record_length_mod (h : Narrow param) : (record param).length % 4 = 0 := by
  rw [record_length h, preflightLen, physSize, roundup_four h.data, roundup_four h.name]
  unfold padding
  omega

variable {list : List Param}

theorem serialized_length (h : ∀ param ∈ list, Narrow param) :
    (serialized list).length = (list.map preflightLen).sum := by
  rw [serialized, length_flatMap]
  exact congrArg List.sum (map_congr_left fun param hmem => record_length (h param hmem))

/-! ## What is written -/

theorem data_buffer_eq (h : Narrow param) : dataBuffer param = padded param.data := by
  rw [dataBuffer, roundup_four h.data, Nat.add_sub_cancel_left, padded]

/-- The sum taken piece by piece is the sum of the record. -/
theorem record_sum_eq (h : Narrow param) : recordSum param = crc32 0 (body param) := by
  have hname : (if param.name.strlen % 4 ≠ 0 then
      crc32 (crc32 (crc32 0 (headerFields param)) param.name.bytes)
        (replicate (4 - param.name.strlen % 4) 0)
      else crc32 (crc32 0 (headerFields param)) param.name.bytes) =
      crc32 (crc32 0 (headerFields param)) (padded param.name.bytes) := by
    rw [padded, ← Cksum.crc32_append _ param.name.bytes]
    split
    · next hmod =>
      have hpad : 4 - param.name.strlen % 4 = padding param.name.bytes.length := by
        unfold padding CString.strlen
        unfold CString.strlen at hmod
        omega
      rw [hpad]
    next hmod =>
    have hpad : padding param.name.bytes.length = 0 := by
      unfold padding
      unfold CString.strlen at hmod
      omega
    rw [hpad, replicate_zero, Cksum.crc32_nil]
  unfold recordSum
  dsimp only
  rw [hname, data_buffer_eq h, Cksum.crc32_append, Cksum.crc32_append, body]

variable {pos : ℕ} {buf : ℕ → UInt8}

theorem behind_name_eq {n : ℕ} (hpos : pos % 4 = 0) (hn : n < 2 ^ 16) :
    behindName pos n = pos + (n + padding n) := by
  unfold behindName roundup64 padding
  dsimp only
  split <;> omega

/-- Zeros behind a value are there already. -/
theorem store_padded {cells : ℕ → UInt8} {start : ℕ} (bytes : List UInt8)
    (hclear : ∀ i, start ≤ i → cells i = 0) :
    store cells start (padded bytes) = store cells start bytes := by
  rw [padded, store_append]
  refine store_replicate_self (fun i hi => ?_) _
  rw [store_of_ge hi]
  exact hclear i (by omega)

/-- One round puts the record into the buffer. -/
theorem put_param_eq (h : Narrow param) (hpos : pos % 4 = 0) (hclear : ∀ i, pos ≤ i → buf i = 0) :
    putParam (buf, pos) param = (store buf pos (record param), pos + (record param).length) := by
  have hphys : (phys param).length = 16 := by
    simp [phys, header_fields_length]
  have hrecord : record param = phys param ++ (padded param.name.bytes ++ padded param.data) := by
    rw [record, phys, record_sum_eq h, body]
    simp only [append_assoc]
  have hname : (padded param.name.bytes).length = param.name.strlen + padding param.name.strlen :=
    padded_length _
  have hfirst : ∀ i, pos + 16 ≤ i → store buf pos (phys param) i = 0 := fun i hi => by
    rw [store_of_ge (by omega)]
    exact hclear i (by omega)
  have hbehind : behindName (pos + 16) param.name.strlen =
      pos + 16 + (padded param.name.bytes).length := by
    rw [hname]
    exact behind_name_eq (by omega) h.name
  refine Prod.ext ?_ ?_
  · show store (store (store buf pos (phys param)) (pos + 16) param.name.bytes)
      (behindName (pos + 16) param.name.strlen) param.data = _
    rw [hbehind, hrecord, store_append, store_append, hphys, store_padded _ hfirst]
    refine (store_padded _ fun i hi => ?_).symm
    rw [store_of_ge (by rw [padded_length] at hi; omega)]
    exact hfirst i (by omega)
  · show behindName (pos + 16) param.name.strlen + roundup64 param.data.length 4 = _
    rw [hbehind, hname, record_length h, preflightLen, physSize, roundup_four h.name]
    omega

/-- The loop puts the records one behind the other. -/
theorem put_params_eq (h : ∀ param ∈ list, Narrow param) (hpos : pos % 4 = 0)
    (hclear : ∀ i, pos ≤ i → buf i = 0) :
    (list.foldl putParam (buf, pos)).1 = store buf pos (serialized list) := by
  induction list generalizing buf pos with
  | nil => exact store_nil.symm
  | cons param rest ih =>
    have hparam := h param mem_cons_self
    have hmod := record_length_mod hparam
    rw [foldl_cons, put_param_eq hparam hpos hclear,
      ih (forall_mem_cons.mp h).2 (by omega) fun i hi => ?_]
    · exact (store_append (record param) (serialized rest)).symm
    · rw [store_of_ge hi]
      exact hclear i (by omega)

/-- What is written to an area of `len` bytes. -/
def areaBytes (list : List Param) (len : ℕ) : List UInt8 :=
  serialized list ++ replicate (len - (serialized list).length) 0

theorem block_stage (h : ∀ param ∈ list, Narrow param) {len : ℕ}
    (hlen : (serialized list).length ≤ len) : block (stage list) 0 len = areaBytes list len := by
  obtain ⟨k, rfl⟩ := Nat.exists_eq_add_of_le hlen
  have hstage : stage list = store (fun _ => 0) 0 (serialized list) :=
    put_params_eq h rfl fun _ _ => rfl
  rw [hstage, block_add, block_store, areaBytes, Nat.add_sub_cancel_left]
  refine congrArg (serialized list ++ ·) (block_of_const fun i hi _ => ?_)
  exact store_of_ge hi

/-! ## What is found -/

variable {mem : ℕ → UInt8} {offset len : ℕ} {err : Status} {room : ℕ} {disk heap : ℕ → UInt8}
  {dev : Bdev}

/-- The fields of a record are found, and the parameter is read. -/
theorem phys_of_record (h : Narrow param) {sp : ℕ}
    (hmem : block mem sp (record param).length = record param) :
    physMagic mem sp = sysparamMagic ∧ sysparamLen mem sp = (record param).length ∧
      physCrc32 mem sp = (sysparamCrc32 mem sp).toNat ∧ sysparamReadPhys mem sp = param := by
  have hparts := hmem
  simp only [record, block_append_iff, length_encode] at hparts
  obtain ⟨hmagic, hcrc, hbody⟩ := hparts
  have hfields := hbody
  simp only [body, headerFields, padded, append_assoc, block_append_iff, length_encode,
    length_replicate] at hfields
  obtain ⟨hflags, hnamelen, hdatalen, hname, -, hdata, -⟩ := hfields
  have hn : physNamelen mem sp = param.name.strlen := by
    rw [physNamelen, hnamelen, decode_encode h.name]
  have hd : physDatalen mem sp = param.data.length := by
    rw [physDatalen, hdatalen, decode_encode h.data]
  have hlen : sysparamLen mem sp = (record param).length := by
    rw [record_length h, sysparamLen, hn, hd, preflightLen]
  have hcover : (record param).length - 8 = (body param).length := by
    simp [record]
    omega
  refine ⟨?_, hlen, ?_, ?_⟩
  · rw [physMagic, hmagic]
    exact decode_encode (by decide)
  · rw [physCrc32, hcrc, sysparamCrc32, hlen, hcover, hbody, decode_encode]
    exact UInt32.toNat_lt _
  · rw [sysparamReadPhys, physFlags, hn, hd, hflags, roundup_four h.name, physSize,
      ← Nat.add_assoc, CString.strlen, hname, hdata, CString.of_buffer_bytes,
      decode_encode (UInt32.toNat_lt _), UInt32.ofNat_toNat]

/-- A record is taken into the list, and the scan goes on behind it. -/
theorem scan_loop_record (h : Narrow param)
    (hmem : block mem pos (record param).length = record param)
    (hfit : pos + (record param).length ≤ len) :
    scanLoop mem offset len err (room + 1) pos list =
      scanLoop mem offset len err room (pos + (record param).length) (list ++ [param]) := by
  obtain ⟨hmagic, hlen, hcrc, hread⟩ := phys_of_record h hmem
  have hpos : 0 < (record param).length := by
    rw [record_length h, preflightLen, physSize]
    omega
  rw [scanLoop, dif_pos (by omega), if_neg (not_not.mpr hmagic), hlen, if_neg (by omega),
    if_neg (not_not.mpr hcrc), hread]

/-- A word that starts with a zero is not the magic number. -/
theorem phys_magic_of_zero {sp : ℕ} (h : mem sp = 0) : physMagic mem sp ≠ sysparamMagic := by
  have hword : physMagic mem sp = 256 * decode (block mem (sp + 1) 3) := by
    show (mem (sp + 0)).toNat + 256 * decode (block mem (sp + 1) 3) = _
    rw [Nat.add_zero, h]
    exact Nat.zero_add _
  unfold sysparamMagic
  omega

/-- There is nothing in zeros. -/
theorem scan_loop_zeros (h : ∀ i, pos ≤ i → i < len → mem i = 0) :
    scanLoop mem offset len err room pos list = (err, list) := by
  induction hleft : len - pos using Nat.strong_induction_on generalizing pos with
  | _ left ih =>
    rw [scanLoop.eq_def]
    split
    · next hlt =>
      rw [if_pos (phys_magic_of_zero (h pos (Nat.le_refl _) hlt))]
      exact ih _ (by omega) (fun i hi => h i (by omega)) rfl
    · rfl

/-- All parameters of an area are found. -/
theorem scan_loop_serialized {params : List Param} (h : ∀ param ∈ params, Narrow param)
    (list : List Param) (hroom : params.length ≤ room)
    (hmem : block mem pos (serialized params).length = serialized params)
    (hfit : pos + (serialized params).length ≤ len)
    (hrest : ∀ i, pos + (serialized params).length ≤ i → i < len → mem i = 0) :
    scanLoop mem offset len err room pos list = (err, list ++ params) := by
  induction params generalizing pos room list with
  | nil =>
    rw [append_nil]
    exact scan_loop_zeros hrest
  | cons param rest ih =>
    obtain ⟨room, rfl⟩ : ∃ r, room = r + 1 := ⟨room - 1, by simp at hroom; omega⟩
    have hparam := h param mem_cons_self
    have hsplit : serialized (param :: rest) = record param ++ serialized rest := rfl
    rw [hsplit, block_append_iff] at hmem
    obtain ⟨hhead, htail⟩ := hmem
    rw [hsplit, length_append] at hfit hrest
    rw [scan_loop_record hparam hhead (by omega),
      ih (forall_mem_cons.mp h).2 _ (by simpa using hroom) htail (by omega)
        fun i hi => hrest i (by omega), append_assoc]
    rfl

/-- What a scan finds has narrow lengths. -/
theorem scan_loop_narrow (h : ∀ param ∈ list, Narrow param) :
    ∀ param ∈ (scanLoop mem offset len err room pos list).2, Narrow param := by
  fun_induction scanLoop mem offset len err room pos list with
  | case1 room pos list hlt hmagic ih => exact ih h
  | case2 room pos list hlt hmagic hlong => exact h
  | case3 room pos list hlt hmagic hlong hcrc ih => exact ih h
  | case4 pos list hlt hmagic hlong hcrc => exact h
  | case5 pos list hlt hmagic hlong hcrc room ih =>
    refine ih (forall_mem_append.mpr ⟨h, forall_mem_singleton.mpr ?_⟩)
    have hname := decode_lt (block mem (pos + 12) 2)
    have hdata := decode_lt (block mem (pos + 14) 2)
    rw [length_block] at hname hdata
    refine ⟨Nat.lt_of_le_of_lt (takeWhile_sublist _).length_le ?_, ?_⟩
    · rw [length_block]
      exact hname
    · show (block mem _ (physDatalen mem pos)).length < _
      rw [length_block]
      exact hdata
  | case6 room pos list hlt => exact h

/-! ## The area -/

/-- A scan of the area reports success and finds the list, whatever stands in memory behind its
buffer. -/
def State.Persisted (s : State) : Prop :=
  ∀ (heap : ℕ → UInt8) (room : ℕ), s.list.length ≤ room →
    ∃ status, noError ≤ status ∧
      sysparamReload s (some room) .ok heap = (status, { s with dirty := false })

/-- The state after the first scan, which reported success. What it found did not depend on the
memory behind its buffer. -/
def Started (s : State) : Prop :=
  ∃ disk dev offset len, 0 < len ∧
    ∀ (heap : ℕ → UInt8) (room : ℕ), s.list.length ≤ room →
      ∃ status, noError ≤ status ∧
        sysparamScan (.boot disk) dev offset len (some room) .ok heap = (status, s)

/-- The lengths of what is added fit into the header, and writing to the device does not fail. -/
def Sane (_ : State) : Call → Prop
  | .add name value _ => name.strlen < 2 ^ 16 ∧ value.length < 2 ^ 16
  | .write _ _ write => write.isOk
  | _ => True

/-- The area is part of the device, and of a size whose number of bytes is a `status_t`. -/
structure State.Placed (s : State) (dev : Bdev) : Prop where
  bdev : s.bdev = some dev
  inside : s.offset + s.len ≤ dev.totalSize
  pos : 0 < s.len
  len_le : (s.len : ℤ) ≤ intMax

/-- The invariant: as long as the list is not dirty, it is the one on the device. -/
structure State.Kept (s : State) : Prop where
  placed : ∃ dev, s.Placed dev
  narrow : ∀ param ∈ s.list, Narrow param
  clean : s.dirty = false → s.Persisted

/-- A read whose result is at least the length asked for was not trimmed. -/
theorem inside_of_read {len : ℕ} (hpos : 0 < len)
    (h : (len : ℤ) ≤ wrapInt (bioRead dev disk .ok (block heap 0 len) offset).1) :
    offset + len ≤ dev.totalSize ∧ (len : ℤ) ≤ intMax := by
  have hmax : wrapInt (bioRead dev disk .ok (block heap 0 len) offset).1 ≤ intMax := by
    have hlt := @Int.bmod_lt (bioRead dev disk .ok (block heap 0 len) offset).1 (2 ^ 32) (by decide)
    unfold wrapInt intMax
    omega
  have hlen := Int.le_trans h hmax
  refine ⟨?_, hlen⟩
  unfold bioRead Bio.bioReadVia at h
  rw [length_block] at h
  dsimp only at h
  split at h
  · have hzero : wrapInt 0 = 0 := by decide
    rw [hzero] at h
    omega
  next hne =>
  have htotal := dev.total_size_le
  have hstart : (offset : ℤ) < dev.totalSize := by
    by_contra hbeyond
    refine hne ?_
    rw [bioTrimRange, if_neg (by omega), if_pos (by omega)]
  unfold intMax at hlen
  obtain ⟨-, hle, hend⟩ := trim_range_spec (by omega) hne
  rw [wrap_int_eq (by unfold intMin; omega) (by unfold intMax; omega)] at h
  omega

variable {s : State}

/-- A scan that reports success has read the whole area. -/
theorem placed_of_scan {len : ℕ} (hlen : 0 < len) {status : Status} (hstatus : noError ≤ status)
    (hscan : sysparamScan (.boot disk) dev offset len (some room) .ok heap = (status, s)) :
    s.Placed dev ∧ s.dirty = false ∧ s = { s with bdev := some dev, offset := offset, len := len } ∧
      s.disk = disk ∧ ∀ param ∈ s.list, Narrow param := by
  unfold sysparamScan at hscan
  dsimp only at hscan
  split at hscan
  · cases hscan
    exact absurd hstatus (by decide)
  next hlong =>
  obtain ⟨rfl, rfl⟩ := Prod.mk.inj hscan
  obtain ⟨hinside, hmax⟩ := inside_of_read hlen (Int.not_lt.mp hlong)
  exact ⟨⟨rfl, hinside, hlen, hmax⟩, rfl, rfl, rfl, scan_loop_narrow (forall_mem_nil _)⟩

/-- A reload is a first scan of the same area. -/
theorem reload_eq (h : s.Placed dev) (room : Option ℕ) (read : Outcome) (heap : ℕ → UInt8) :
    sysparamReload s room read heap =
      sysparamScan (.boot s.disk) dev s.offset s.len room read heap := by
  unfold sysparamReload
  rw [h.bdev]
  dsimp only
  rw [if_neg (Nat.ne_of_gt h.pos)]
  rfl

theorem Started.kept (h : Started s) : s.Kept := by
  obtain ⟨disk, dev, offset, len, hlen, hscan⟩ := h
  obtain ⟨status, hstatus, hfirst⟩ := hscan (fun _ => 0) s.list.length (Nat.le_refl _)
  obtain ⟨hplaced, hclean, heq, hdisk, hnarrow⟩ := placed_of_scan hlen hstatus hfirst
  refine ⟨⟨dev, hplaced⟩, hnarrow, fun _ heap room hroom => ?_⟩
  obtain ⟨status, hstatus, hagain⟩ := hscan heap room hroom
  have hnext : ({ s with dirty := false } : State) = s := by rw [← hclean]
  have hsize : s.len = len := congrArg State.len heq
  have hoffset : s.offset = offset := congrArg State.offset heq
  refine ⟨status, hstatus, ?_⟩
  rw [hnext, reload_eq hplaced, hsize, hoffset, hdisk, hagain]

/-- The area holds the list, and zeros behind it: a scan finds the list. -/
theorem persisted_of_area (h : s.Placed dev) (hnarrow : ∀ param ∈ s.list, Narrow param)
    (hfit : (serialized s.list).length ≤ s.len)
    (harea : block s.disk s.offset s.len = areaBytes s.list s.len) : s.Persisted := by
  intro heap room hroom
  obtain ⟨mem, hmem⟩ : ∃ mem, mem = store heap 0 (areaBytes s.list s.len) := ⟨_, rfl⟩
  have hread : bioRead dev s.disk .ok (block heap 0 s.len) s.offset =
      ((s.len : ℤ), areaBytes s.list s.len) := by
    rw [bio_read_of_le (by rw [length_block]; exact h.inside), length_block, harea]
  have hwhole : block mem 0 (areaBytes s.list s.len).length = areaBytes s.list s.len := by
    rw [hmem]
    exact block_store
  rw [areaBytes, block_append_iff, Nat.zero_add, length_replicate] at hwhole
  obtain ⟨hlist, hzeros⟩ := hwhole
  have hfound : scanLoop mem s.offset s.len s.len room 0 [] = ((s.len : ℤ), [] ++ s.list) := by
    refine scan_loop_serialized hnarrow [] hroom hlist (by omega) fun i hlow hhigh => ?_
    rw [Nat.zero_add] at hlow
    obtain ⟨k, rfl⟩ := Nat.exists_eq_add_of_le hlow
    have hk := congrArg (fun bytes => bytes[k]?) hzeros
    rw [getElem?_block (by omega), getElem?_replicate, if_pos (by omega)] at hk
    exact Option.some.inj hk
  have hwrap : wrapInt s.len = s.len := wrap_int_eq (by unfold intMin; omega) h.len_le
  refine ⟨s.len, Int.natCast_nonneg _, ?_⟩
  rw [reload_eq h, sysparamScan]
  simp only [State.boot, hread, hwrap, ← hmem, hfound, lt_self_iff_false, if_false, ← h.bdev]
  rfl

/-! ## Calls -/

section

variable (h : s.Kept)
include h

/-- What `sysparam_write` can do when the device write succeeds: nothing is to be done, or it
fails and at most the device has changed, or the area holds the list. -/
theorem write_cases {s' : State} {room : Bool} {erase : Outcome} {status : Status}
    (hwrite : sysparamWrite s room erase .ok = (status, s')) :
    (s.dirty = false ∧ status = noError ∧ s' = s) ∨
      (s.dirty = true ∧ status ≠ noError ∧ ∃ disk, s' = { s with disk := disk }) ∨
      (s.dirty = true ∧ status = noError ∧ (serialized s.list).length ≤ s.len ∧
        ∃ disk, s' = { s with disk := disk, dirty := false } ∧
          block disk s.offset s.len = areaBytes s.list s.len) := by
  obtain ⟨dev, hplaced⟩ := h.placed
  obtain ⟨list, dirty, bdev, offset, len, disk⟩ := s
  obtain rfl : bdev = some dev := hplaced.bdev
  have hlen : len ≠ 0 := Nat.ne_of_gt hplaced.pos
  unfold sysparamWrite at hwrite
  dsimp only at hwrite
  rw [if_neg hlen] at hwrite
  cases dirty with
  | false =>
    cases hwrite
    exact .inl ⟨rfl, rfl, rfl⟩
  | true =>
    refine .inr ?_
    rw [if_neg (by decide)] at hwrite
    split at hwrite
    · cases hwrite
      exact .inl ⟨rfl, by decide, disk, rfl⟩
    next hfit =>
    split at hwrite
    · cases hwrite
      exact .inl ⟨rfl, by decide, disk, rfl⟩
    split at hwrite
    · cases hwrite
      exact .inl ⟨rfl, by decide, _, rfl⟩
    have hserialized : (serialized list).length ≤ len := by
      rw [serialized_length h.narrow]
      exact Nat.not_lt.mp hfit
    have hlength : (block (stage list) 0 len).length = len := length_block
    rw [bio_write_of_le (by rw [hlength]; exact hplaced.inside)] at hwrite
    cases hwrite
    refine .inr ⟨rfl, rfl, hserialized, _, rfl, ?_⟩
    rw [← block_stage h.narrow hserialized]
    have hstored := @block_store _ (bioErase dev disk erase offset len).2
      (block (stage list) 0 len) offset
    rwa [hlength] at hstored

/-- The state after a write that stored the list. -/
theorem State.Kept.persisted_of_write (hfit : (serialized s.list).length ≤ s.len)
    (harea : block disk s.offset s.len = areaBytes s.list s.len) :
    State.Persisted { s with disk := disk, dirty := false } := by
  obtain ⟨dev, hplaced⟩ := h.placed
  exact persisted_of_area (s := { s with disk := disk, dirty := false })
    { hplaced with } h.narrow hfit harea

/-- A list that is dirty need not be on the device. -/
theorem State.Kept.of_dirty (disk : ℕ → UInt8) (hnarrow : ∀ param ∈ list, Narrow param) :
    State.Kept { s with list := list, dirty := true, disk := disk } := by
  obtain ⟨dev, hplaced⟩ := h.placed
  exact ⟨⟨dev, { hplaced with }⟩, hnarrow, fun hclean => nomatch hclean⟩

theorem State.Kept.add {name : CString} {value : List UInt8} (room : Bool)
    (hname : name.strlen < 2 ^ 16) (hvalue : value.length < 2 ^ 16) :
    (sysparamAdd s name value room).2.Kept := by
  unfold sysparamAdd
  split
  · exact h
  split
  · exact h.of_dirty s.disk (forall_mem_append.mpr
      ⟨h.narrow, forall_mem_singleton.mpr ⟨hname, hvalue⟩⟩)
  · exact h

theorem State.Kept.remove (name : CString) : (sysparamRemove s name).2.Kept := by
  unfold sysparamRemove
  split
  · exact h
  split
  · exact h
  · exact h.of_dirty s.disk fun param hparam => h.narrow param (mem_of_mem_eraseIdx hparam)

theorem State.Kept.lock (name : CString) : (sysparamLock s name).2.Kept := by
  unfold sysparamLock
  split
  · exact h
  split
  · exact h
  refine h.of_dirty s.disk fun param hparam => ?_
  obtain ⟨i, hi⟩ := mem_iff_getElem?.mp hparam
  rw [getElem?_modify] at hi
  obtain ⟨old, hold, rfl⟩ := Option.map_eq_some_iff.mp hi
  have hnarrow := h.narrow old (mem_iff_getElem?.mpr ⟨i, hold⟩)
  split
  · exact ⟨hnarrow.name, hnarrow.data⟩
  · exact hnarrow

theorem State.Kept.write (room : Bool) (erase : Outcome) :
    (sysparamWrite s room erase .ok).2.Kept := by
  obtain ⟨hclean, -, hsame⟩ | ⟨hdirty, -, disk, hnext⟩ | ⟨hdirty, -, hfit, disk, hnext, harea⟩ :=
    write_cases h (Prod.mk.eta).symm
  · rw [hsame]
    exact h
  · rw [hnext]
    have hkept := h.of_dirty disk h.narrow
    rwa [← hdirty] at hkept
  · rw [hnext]
    obtain ⟨dev, hplaced⟩ := h.placed
    exact ⟨⟨dev, { hplaced with }⟩, h.narrow, fun _ => h.persisted_of_write hfit harea⟩

/-- Every sane call keeps the invariant. -/
theorem State.Kept.step {s' : State} {call : Call} (hsane : Sane s call)
    (hstep : s.step call = some s') : s'.Kept := by
  cases call with
  | add name value room =>
    cases hstep
    exact h.add room hsane.1 hsane.2
  | remove name =>
    cases hstep
    exact h.remove name
  | lock name =>
    cases hstep
    exact h.lock name
  | write room erase write =>
    cases hstep
    rw [Outcome.eq_ok hsane]
    exact h.write room erase

end

theorem kept_of_reachable (hs : Reachable State.step Sane Started s) : s.Kept :=
  hs.invariant Started.kept fun h => h.step

/-- After any calls, a `sysparam_write` that reports success leaves the list on the device: a scan
finds the same names, data and flags. If it had to write, the area holds the records one after the
other, and zeros behind them. If it reports an error, the list stays as it is, and dirty. -/
theorem params_persist {s s' : State} (hs : Reachable State.step Sane Started s) {room : Bool}
    {erase : Outcome} {status : Status} (hwrite : sysparamWrite s room erase .ok = (status, s')) :
    s'.list = s.list ∧
      (status = noError → s'.dirty = false ∧ s'.Persisted ∧
        (s.dirty → block s'.disk s.offset s.len = areaBytes s.list s.len)) ∧
      (status ≠ noError → s'.dirty = true) := by
  have h := kept_of_reachable hs
  obtain ⟨hclean, hstatus, rfl⟩ | ⟨hdirty, hstatus, disk, rfl⟩ |
    ⟨hdirty, hstatus, hfit, disk, rfl, harea⟩ := write_cases h hwrite
  · refine ⟨rfl, fun _ => ⟨hclean, h.clean hclean, fun hdirty => ?_⟩, fun hne => absurd hstatus hne⟩
    rw [hclean] at hdirty
    cases hdirty
  · exact ⟨rfl, fun hok => absurd hok hstatus, fun _ => hdirty⟩
  · exact ⟨rfl, fun _ => ⟨rfl, h.persisted_of_write hfit harea, fun _ => harea⟩,
      fun hne => absurd hstatus hne⟩

/-! ## A device that loses a write -/

/-- The state after the first scan of an area of zeros. -/
def State.blank (dev : Bdev) (len : ℕ) : State where
  list := []
  dirty := false
  bdev := some dev
  offset := 0
  len := len
  disk := fun _ => 0

theorem blank_persisted {len : ℕ} (h : (State.blank dev len).Placed dev) :
    (State.blank dev len).Persisted :=
  persisted_of_area h (forall_mem_nil _) (Nat.zero_le _)
    (block_of_const fun _ _ _ => rfl)

/-- An area of zeros has no parameters. -/
theorem blank_started {len : ℕ} (h : (State.blank dev len).Placed dev) :
    Started (State.blank dev len) := by
  refine ⟨fun _ => 0, dev, 0, len, h.pos, fun heap room hroom => ?_⟩
  obtain ⟨status, hstatus, hreload⟩ := blank_persisted h heap room hroom
  rw [reload_eq h] at hreload
  exact ⟨status, hstatus, hreload⟩

theorem one_block_shift_lt : 9 < 32 := by decide

/-- A device of one block that erases to zeros. -/
def oneBlock : Bdev where
  blockShift := 9
  blockCount := 1
  geometry := []
  eraseByte := 0
  cacheAlignedReads := false
  cacheAlignedWrites := false
  shift_lt := one_block_shift_lt
  count_lt := by decide
  geometry_in geo hgeo := nomatch hgeo

theorem one_block_placed : (State.blank oneBlock 64).Placed oneBlock :=
  ⟨rfl, by decide, by decide, by decide⟩

/-- The parameter `n` with the value `1`. -/
def sample : Param := ⟨0, ⟨[0x6e], by decide⟩, [1]⟩

/-- The state after it was added. -/
def sampleAdded : State := (sysparamAdd (.blank oneBlock 64) sample.name sample.data true).2

theorem sample_added_reachable : Reachable State.step Sane Started sampleAdded :=
  .step (.init (blank_started one_block_placed))
    (show Sane _ (.add sample.name sample.data true) from ⟨by decide, by decide⟩) rfl

theorem params_persist_sample : ∃ s',
    sysparamWrite sampleAdded true .ok .ok = (noError, s') ∧ s'.list = [sample] ∧
      s'.Persisted ∧ block s'.disk 0 64 = areaBytes [sample] 64 := by
  have hwrite : sysparamWrite sampleAdded true .ok .ok =
      (noError, (sysparamWrite sampleAdded true .ok .ok).2) := Prod.ext (by decide +kernel) rfl
  obtain ⟨hlist, hok, -⟩ := params_persist sample_added_reachable hwrite
  obtain ⟨-, hpersisted, harea⟩ := hok rfl
  exact ⟨_, hwrite, hlist, hpersisted, harea rfl⟩

/-- The parameter is in memory only. -/
def sampleLost : State := { State.blank oneBlock 64 with list := [sample] }

/-- Once the area is erased, the call reports success and clears the dirty flag, however the write
to the device ends. -/
theorem write_of_erased (h : s.Placed dev) (hdirty : s.dirty = true)
    (hfit : (s.list.map preflightLen).sum ≤ s.len) (write : Outcome) :
    sysparamWrite s true .ok write =
      (noError, { s with
        disk := (bioWrite dev (store s.disk s.offset (replicate s.len dev.eraseByte)) write
          (block (stage s.list) 0 s.len) s.offset).2
        dirty := false }) := by
  unfold sysparamWrite
  rw [h.bdev, hdirty]
  dsimp only
  rw [if_neg (Nat.ne_of_gt h.pos), if_neg (by decide), if_neg (Nat.not_lt.mpr hfit),
    if_neg (by decide), bio_erase_of_le h.inside, if_neg (Int.lt_irrefl _)]

/-- A device of zeros is not changed by an erase, nor by a write that transfers nothing. -/
theorem failed_write_sample :
    sysparamWrite sampleAdded true .ok (.failed []) = (noError, sampleLost) := by
  have hplaced : sampleAdded.Placed oneBlock := ⟨rfl, by decide, by decide, by decide⟩
  have herase : store (fun _ => 0) 0 (replicate 64 0) = fun _ => (0 : UInt8) :=
    store_replicate_self (fun _ _ => rfl) 64
  have hfail : (bioWrite oneBlock (fun _ => 0) (.failed []) (block (stage [sample]) 0 64)
      (0 : ℕ)).2 = fun _ => 0 := by
    show store (fun _ => 0) 0 [] = _
    exact store_nil
  rw [write_of_erased hplaced rfl (by decide)]
  refine congrArg (Prod.mk noError) ?_
  show State.mk [sample] false (some oneBlock) 0 64 (bioWrite oneBlock
    (store (fun _ => 0) 0 (replicate 64 0)) _ (block (stage [sample]) 0 64) (0 : ℕ)).2 = _
  rw [herase, hfail]
  rfl

/-- The device fails to write. The call reports success, the list is not dirty any more, and a scan
finds nothing. -/
theorem failed_write_loses_params :
    ∃ s s', Reachable State.step Sane Started s ∧ s.list = [sample] ∧
      sysparamWrite s true .ok (.failed []) = (noError, s') ∧ s'.dirty = false ∧
      ∀ (heap : ℕ → UInt8) (room : ℕ), (sysparamReload s' (some room) .ok heap).2.list = [] := by
  refine ⟨sampleAdded, sampleLost, sample_added_reachable, rfl, failed_write_sample, rfl,
    fun heap room => ?_⟩
  have hplaced : sampleLost.Placed oneBlock := ⟨rfl, by decide, by decide, by decide⟩
  obtain ⟨status, -, hreload⟩ := blank_persisted one_block_placed heap room (Nat.zero_le _)
  rw [reload_eq one_block_placed] at hreload
  have hsame : sysparamReload sampleLost (some room) .ok heap =
      sysparamScan (.boot (State.blank oneBlock 64).disk) oneBlock (State.blank oneBlock 64).offset
        (State.blank oneBlock 64).len (some room) .ok heap :=
    reload_eq hplaced (some room) .ok heap
  rw [hsame, hreload]
  rfl

end NusaKernel.Sysparam
