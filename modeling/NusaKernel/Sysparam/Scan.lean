import NusaKernel.Lib.Coverage
import NusaKernel.Sysparam.Sysparam

/-!
# What a scan looks at

The loop of `sysparam_scan` trusts the lengths in the records it finds. It tests that a record ends
before the end of the area on the device, but the position it tests is one in the buffer, and it has
read the header before. `examined` are the bytes that a round looks at: `scan_loop_congr` says that
no others matter. They are in the buffer exactly if at each place that is scanned four bytes are
left, a magic number there begins a header that is in the buffer, and the record is in the buffer or
too long for the area and its offset (`scan_stays_inside`). In `scan_copies_behind_buffer` it is
neither.
-/

namespace NusaKernel.Sysparam

open List LittleEndian
open Ring (block)
open Word (roundup64)

/-- Where the rounds of the loop of `sysparam_scan` begin. -/
def scanPositions (mem : ℕ → UInt8) (offset len room pos : ℕ) : List ℕ :=
  if _h : pos < len then
    if physMagic mem pos ≠ sysparamMagic then pos :: scanPositions mem offset len room (pos + 4)
    else if offset + len < pos + sysparamLen mem pos then [pos]
    else if physCrc32 mem pos ≠ (sysparamCrc32 mem pos).toNat then
      pos :: scanPositions mem offset len room (pos + sysparamLen mem pos)
    else
      match room with
      | 0 => [pos]
      | room + 1 => pos :: scanPositions mem offset len room (pos + sysparamLen mem pos)
  else []
termination_by len - pos
decreasing_by
  · omega
  · unfold sysparamLen physSize
    omega
  · unfold sysparamLen physSize
    omega

/-- What a round looks at: the magic number, then the lengths, then the rest of the record, of which
the name and the data are copied if the checksum is right. -/
def examined (mem : ℕ → UInt8) (offset len pos : ℕ) : List Span :=
  ⟨pos, 4⟩ ::
    if physMagic mem pos ≠ sysparamMagic then []
    else ⟨pos + 12, 4⟩ ::
      if offset + len < pos + sysparamLen mem pos then []
      else [⟨pos + 4, sysparamLen mem pos - 4⟩]

variable {mem mem' : ℕ → UInt8} {offset len room pos : ℕ} {err : Status} {list : List Param}

/-! ## Nothing else matters -/

/-- The bytes of a span are the same in both memories. -/
def Agree (mem mem' : ℕ → UInt8) (span : Span) : Prop := ∀ i ∈ span, mem' i = mem i

theorem Agree.block_eq {first n start count : ℕ} (h : Agree mem mem' ⟨first, n⟩)
    (hstart : first ≤ start) (hstop : start + count ≤ first + n) :
    block mem' start count = block mem start count :=
  Segment.block_congr fun i hle hlt => h i ⟨Nat.le_trans hstart hle, Nat.lt_of_lt_of_le hlt hstop⟩

theorem copied_le (mem : ℕ → UInt8) (sp : ℕ) :
    16 + physNamelen mem sp ≤ sysparamLen mem sp ∧
      16 + roundup64 (physNamelen mem sp) 4 + physDatalen mem sp ≤ sysparamLen mem sp := by
  have hname := @decode_lt (block mem (sp + 12) 2)
  have hdata := @decode_lt (block mem (sp + 14) 2)
  rw [Ring.length_block] at hname hdata
  simp only [sysparamLen, physSize, physNamelen, physDatalen, roundup64]
  omega

theorem Agree.lengths (h : Agree mem mem' ⟨pos + 12, 4⟩) :
    physNamelen mem' pos = physNamelen mem pos ∧ physDatalen mem' pos = physDatalen mem pos ∧
      sysparamLen mem' pos = sysparamLen mem pos := by
  have hname : physNamelen mem' pos = physNamelen mem pos := by
    rw [physNamelen, physNamelen, h.block_eq (by omega) (by omega)]
  have hdata : physDatalen mem' pos = physDatalen mem pos := by
    rw [physDatalen, physDatalen, h.block_eq (by omega) (by omega)]
  refine ⟨hname, hdata, ?_⟩
  rw [sysparamLen, sysparamLen, hname, hdata]

theorem Agree.record (hlengths : Agree mem mem' ⟨pos + 12, 4⟩)
    (h : Agree mem mem' ⟨pos + 4, sysparamLen mem pos - 4⟩) :
    physCrc32 mem' pos = physCrc32 mem pos ∧ sysparamCrc32 mem' pos = sysparamCrc32 mem pos ∧
      sysparamReadPhys mem' pos = sysparamReadPhys mem pos := by
  obtain ⟨hname, hdata, hlen⟩ := hlengths.lengths
  have hcopied := copied_le mem pos
  refine ⟨?_, ?_, ?_⟩
  · rw [physCrc32, physCrc32, h.block_eq (by omega) (by omega)]
  · rw [sysparamCrc32, sysparamCrc32, hlen, h.block_eq (by omega) (by omega)]
  · unfold sysparamReadPhys physFlags physSize
    rw [hname, hdata, h.block_eq (by omega) (by omega), h.block_eq (by omega) (by omega),
      h.block_eq (by omega) (by omega)]

/-- What a round finds out is decided by the bytes it examines. -/
theorem round_congr (h : ∀ span ∈ examined mem offset len pos, Agree mem mem' span) :
    physMagic mem' pos = physMagic mem pos ∧
      (physMagic mem pos = sysparamMagic → sysparamLen mem' pos = sysparamLen mem pos ∧
        (¬ offset + len < pos + sysparamLen mem pos →
          physCrc32 mem' pos = physCrc32 mem pos ∧ sysparamCrc32 mem' pos = sysparamCrc32 mem pos ∧
            sysparamReadPhys mem' pos = sysparamReadPhys mem pos)) := by
  rw [examined, forall_mem_cons] at h
  refine ⟨by rw [physMagic, physMagic, h.1.block_eq (by omega) (by omega)], fun hmagic => ?_⟩
  have hrest := h.2
  rw [if_neg (not_not.mpr hmagic), forall_mem_cons] at hrest
  refine ⟨hrest.1.lengths.2.2, fun hfits => hrest.1.record ?_⟩
  have hrecord := hrest.2
  rw [if_neg hfits] at hrecord
  exact hrecord _ mem_cons_self

/-- Only the bytes that are examined decide what a scan finds. -/
theorem scan_loop_congr (h : ∀ p ∈ scanPositions mem offset len room pos,
      ∀ span ∈ examined mem offset len p, Agree mem mem' span) :
    scanLoop mem' offset len err room pos list = scanLoop mem offset len err room pos list := by
  fun_induction scanLoop mem offset len err room pos list with
  | case1 room pos list hlt hmagic ih =>
    unfold scanPositions at h
    rw [dif_pos hlt, if_pos hmagic, forall_mem_cons] at h
    rw [scanLoop.eq_def, dif_pos hlt, (round_congr h.1).1, if_pos hmagic]
    exact ih h.2
  | case2 room pos list hlt hmagic hlong =>
    unfold scanPositions at h
    rw [dif_pos hlt, if_neg hmagic, if_pos hlong, forall_mem_singleton] at h
    obtain ⟨hsame, hrest⟩ := round_congr h
    rw [scanLoop.eq_def, dif_pos hlt, hsame, if_neg hmagic, (hrest (not_not.mp hmagic)).1,
      if_pos hlong]
  | case3 room pos list hlt hmagic hfits hsum ih =>
    unfold scanPositions at h
    rw [dif_pos hlt, if_neg hmagic, if_neg hfits, if_pos hsum, forall_mem_cons] at h
    obtain ⟨hsame, hrest⟩ := round_congr h.1
    obtain ⟨hlen, hrecord⟩ := hrest (not_not.mp hmagic)
    obtain ⟨hcrc, hcrc', _⟩ := hrecord hfits
    rw [scanLoop.eq_def, dif_pos hlt, hsame, if_neg hmagic, hlen, if_neg hfits, hcrc, hcrc',
      if_pos hsum]
    exact ih h.2
  | case4 pos list hlt hmagic hfits hsum =>
    unfold scanPositions at h
    rw [dif_pos hlt, if_neg hmagic, if_neg hfits, if_neg hsum, forall_mem_singleton] at h
    obtain ⟨hsame, hrest⟩ := round_congr h
    obtain ⟨hlen, hrecord⟩ := hrest (not_not.mp hmagic)
    obtain ⟨hcrc, hcrc', _⟩ := hrecord hfits
    rw [scanLoop.eq_def, dif_pos hlt, hsame, if_neg hmagic, hlen, if_neg hfits, hcrc, hcrc',
      if_neg hsum]
  | case5 pos list hlt hmagic hfits hsum room ih =>
    unfold scanPositions at h
    rw [dif_pos hlt, if_neg hmagic, if_neg hfits, if_neg hsum, forall_mem_cons] at h
    obtain ⟨hsame, hrest⟩ := round_congr h.1
    obtain ⟨hlen, hrecord⟩ := hrest (not_not.mp hmagic)
    obtain ⟨hcrc, hcrc', hread⟩ := hrecord hfits
    rw [scanLoop.eq_def, dif_pos hlt, hsame, if_neg hmagic, hlen, if_neg hfits, hcrc, hcrc',
      if_neg hsum, hread]
    exact ih h.2
  | case6 room pos list hge => rw [scanLoop.eq_def, dif_neg hge]

/-! ## Staying inside -/

/-- The places that are scanned: the next word behind one without a magic number, and the end of a
record that is not too long. -/
inductive Scanned (mem : ℕ → UInt8) (offset len : ℕ) : ℕ → Prop
  | start : Scanned mem offset len 0
  | skip {pos : ℕ} (h : Scanned mem offset len pos) (hlt : pos < len)
    (hmagic : physMagic mem pos ≠ sysparamMagic) : Scanned mem offset len (pos + 4)
  | record {pos : ℕ} (h : Scanned mem offset len pos) (hlt : pos < len)
    (hmagic : physMagic mem pos = sysparamMagic)
    (hfits : pos + sysparamLen mem pos ≤ offset + len) :
    Scanned mem offset len (pos + sysparamLen mem pos)

/-- At a place in the buffer four bytes are left, and if they are the magic number, the header is in
the buffer, and the record is too or its length is refused. -/
def Contained (mem : ℕ → UInt8) (offset len pos : ℕ) : Prop :=
  pos + 4 ≤ len ∧ (physMagic mem pos = sysparamMagic → pos + physSize ≤ len ∧
    (pos + sysparamLen mem pos ≤ len ∨ offset + len < pos + sysparamLen mem pos))

theorem sysparam_len_ge (mem : ℕ → UInt8) (sp : ℕ) : physSize ≤ sysparamLen mem sp := by
  unfold sysparamLen
  omega

/-- A round looks at the buffer only, exactly if its place is contained. -/
theorem examined_inside_iff (mem : ℕ → UInt8) (offset len pos : ℕ) :
    (∀ span ∈ examined mem offset len pos, span.start + span.len ≤ len) ↔
      Contained mem offset len pos := by
  have hleast : 16 ≤ sysparamLen mem pos := sysparam_len_ge mem pos
  unfold examined Contained physSize
  rw [forall_mem_cons]
  refine and_congr_right fun _ => ?_
  split
  · next hmagic => exact iff_of_true (forall_mem_nil _) fun h => absurd h hmagic
  next hmagic =>
  rw [forall_mem_cons, forall_prop_of_true (not_not.mp hmagic)]
  refine and_congr_right fun _ => ?_
  split
  · next hlong => exact iff_of_true (forall_mem_nil _) (.inr hlong)
  · next hfits =>
    rw [forall_mem_singleton, or_iff_left hfits]
    show pos + 4 + (sysparamLen mem pos - 4) ≤ len ↔ _
    rw [show pos + 4 + (sysparamLen mem pos - 4) = pos + sysparamLen mem pos by omega]

/-- The rounds begin at places that are scanned, and there are no more of them than words. -/
theorem scan_positions_spec (room : ℕ) (hpos : Scanned mem offset len pos) :
    (∀ p ∈ scanPositions mem offset len room pos, p < len ∧ Scanned mem offset len p) ∧
      (scanPositions mem offset len room pos).length ≤ (len - pos + 3) / 4 := by
  have hstep {p n : ℕ} {rest : List ℕ} (hlt : p < len) (hp : Scanned mem offset len p) (hn : 4 ≤ n)
      (h : (∀ q ∈ rest, q < len ∧ Scanned mem offset len q) ∧
        rest.length ≤ (len - (p + n) + 3) / 4) :
      (∀ q ∈ p :: rest, q < len ∧ Scanned mem offset len q) ∧
        (p :: rest).length ≤ (len - p + 3) / 4 := by
    refine ⟨forall_mem_cons.mpr ⟨⟨hlt, hp⟩, h.1⟩, ?_⟩
    have := h.2
    rw [length_cons]
    omega
  have hnone {n : ℕ} : (∀ q ∈ [], q < len ∧ Scanned mem offset len q) ∧
      ([] : List ℕ).length ≤ n :=
    ⟨by simp, Nat.zero_le n⟩
  fun_induction scanPositions mem offset len room pos with
  | case1 room pos hlt hmagic ih =>
    exact hstep hlt hpos (Nat.le_refl 4) (ih (hpos.skip hlt hmagic))
  | case2 room pos hlt hmagic hlong | case4 pos hlt hmagic hfits hsum =>
    exact hstep hlt hpos (Nat.le_refl 4) hnone
  | case3 room pos hlt hmagic hfits hsum ih | case5 pos hlt hmagic hfits hsum room ih =>
    exact hstep hlt hpos ((by decide : 4 ≤ physSize).trans (sysparam_len_ge mem pos))
      (ih (hpos.record hlt (not_not.mp hmagic) (Nat.le_of_not_lt hfits)))
  | case6 => exact hnone

/-- With enough memory the loop gets to every place that is scanned. -/
theorem Scanned.reached (h : Scanned mem offset len pos) (room : ℕ) :
    ∃ room', scanPositions mem offset len room pos ⊆ scanPositions mem offset len room' 0 := by
  induction h generalizing room with
  | start => exact ⟨room, Subset.refl _⟩
  | @skip pos h hlt hmagic ih =>
    obtain ⟨room', hsub⟩ := ih room
    refine ⟨room', fun p hp => hsub ?_⟩
    rw [scanPositions.eq_def, dif_pos hlt, if_pos hmagic]
    exact mem_cons_of_mem pos hp
  | @record pos h hlt hmagic hfits ih =>
    by_cases hsum : physCrc32 mem pos ≠ (sysparamCrc32 mem pos).toNat
    · obtain ⟨room', hsub⟩ := ih room
      refine ⟨room', fun p hp => hsub ?_⟩
      rw [scanPositions.eq_def, dif_pos hlt, if_neg (not_not.mpr hmagic), if_neg (by omega),
        if_pos hsum]
      exact mem_cons_of_mem pos hp
    · obtain ⟨room', hsub⟩ := ih (room + 1)
      refine ⟨room', fun p hp => hsub ?_⟩
      rw [scanPositions.eq_def, dif_pos hlt, if_neg (not_not.mpr hmagic), if_neg (by omega),
        if_neg hsum]
      exact mem_cons_of_mem pos hp

theorem mem_scan_positions (room : ℕ) (hlt : pos < len) :
    pos ∈ scanPositions mem offset len room pos := by
  rw [scanPositions.eq_def, dif_pos hlt]
  repeat' split
  all_goals exact mem_cons_self

/-- The loop of `sysparam_scan` ends after at most one round for each four bytes, each round looks
at bytes of the buffer only, and what stands in memory behind the buffer does not matter, however
many parameters there is memory for: exactly if every place in the buffer that is scanned is
contained. -/
theorem scan_stays_inside (mem : ℕ → UInt8) (offset len : ℕ) :
    (∀ room err list,
      (scanPositions mem offset len room 0).length ≤ (len + 3) / 4 ∧
      (∀ p ∈ scanPositions mem offset len room 0,
        ∀ span ∈ examined mem offset len p, span.start + span.len ≤ len) ∧
      ∀ mem' : ℕ → UInt8, (∀ i < len, mem' i = mem i) →
        scanLoop mem' offset len err room 0 list = scanLoop mem offset len err room 0 list) ↔
      ∀ pos < len, Scanned mem offset len pos → Contained mem offset len pos := by
  refine ⟨fun h pos hlt hscanned => ?_, fun h room err list => ?_⟩
  · obtain ⟨room, hsub⟩ := hscanned.reached 0
    exact (examined_inside_iff mem offset len pos).mp
      ((h room 0 []).2.1 pos (hsub (mem_scan_positions 0 hlt)))
  · obtain ⟨hpositions, hrounds⟩ := scan_positions_spec room (.start : Scanned mem offset len 0)
    have hinside (p : ℕ) (hp : p ∈ scanPositions mem offset len room 0) :=
      (examined_inside_iff mem offset len p).mpr (h p (hpositions p hp).1 (hpositions p hp).2)
    refine ⟨hrounds, hinside, fun mem' hsame => scan_loop_congr fun p hp span hspan i hi => ?_⟩
    have hstop := hinside p hp span hspan
    exact hsame i (by have := hi.2; omega)

/-- A record with no name and four bytes of data, and zeros. -/
def oneRecord (i : ℕ) : UInt8 :=
  [80, 83, 89, 83, 168, 160, 60, 119, 0, 0, 0, 0, 0, 0, 4, 0, 1, 2, 3, 4].getD i 0

/-- The record in an area of 16 bytes at offset 512: the test of its length passes, and the data
that are copied stand behind the buffer. -/
theorem scan_copies_behind_buffer :
    (∃ span ∈ examined oneRecord 512 16 0, 16 < span.start + span.len) ∧
      (scanLoop oneRecord 512 16 16 1 0 []).2.map Param.data = [block oneRecord 16 4] := by
  refine ⟨by decide +kernel, ?_⟩
  rw [scanLoop, dif_pos (by decide), if_neg (by decide +kernel), if_neg (by decide +kernel),
    if_neg (by decide +kernel), scanLoop.eq_def, dif_neg (by decide +kernel)]
  decide +kernel

end NusaKernel.Sysparam
