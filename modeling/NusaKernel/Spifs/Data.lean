import NusaKernel.Spifs.Layout

/-!
# Writing the data of a file

`spifs_write` reads and writes pages of the file only (`write_data_spec`), and so does the erase of
a new file.
-/

namespace NusaKernel.Spifs

open List Nat
open Ring (block)
open Segment (store)

/-- Pages before `low` and from `high` on hold what they held. -/
def SameOutside (vol : Volume) (low high : ℕ) (disk disk' : ℕ → UInt8) : Prop :=
  ∀ page, page < low ∨ high ≤ page → Unchanged vol disk disk' page

section Data

variable {vol : Volume} {low high : ℕ} {disk disk' disk'' : ℕ → UInt8} {p : Progress} {start n : ℕ}
  {bytes : List UInt8}

theorem SameOutside.refl : SameOutside vol low high disk disk := fun _ _ => .refl

theorem SameOutside.trans (h : SameOutside vol low high disk disk')
    (h' : SameOutside vol low high disk' disk'') : SameOutside vol low high disk disk'' :=
  fun page hpage => (h page hpage).trans (h' page hpage)

/-- A stretch of whole pages is stored. -/
theorem same_outside_store {pages : ℕ} (hbytes : bytes.length = pages * vol.pageSize) :
    SameOutside vol start (start + pages) disk (store disk (start * vol.pageSize) bytes) := by
  intro page hpage
  refine unchanged_store ?_
  rw [hbytes, ← Nat.add_mul, ← succ_mul]
  rcases hpage with hlow | hhigh
  · exact .inl (Nat.mul_le_mul_right _ hlow)
  · exact .inr (Nat.mul_le_mul_right _ hhigh)

/-- The bytes that are left fit into the pages up to `high`. -/
structure Progress.Inside (p : Progress) (vol : Volume) (low high : ℕ) : Prop where
  low_le : low ≤ p.page
  fits : p.page * vol.pageSize + p.buf.length ≤ high * vol.pageSize

/-- A part of the writing went well: it has changed pages of the file only. -/
def Proceeds (vol : Volume) (low high : ℕ) (disk : ℕ → UInt8)
    (result : Except (Status × Progress) Progress) (left : ℕ) : Prop :=
  ∃ p, result = .ok p ∧ p.Inside vol low high ∧ p.buf.length = left ∧
    SameOutside vol low high disk p.disk

section

variable (hvol : vol.Sound) {buf : List UInt8}
include hvol

theorem put_spec (hpage : p.page < vol.pageCount) (hbytes : bytes.length = vol.pageSize) :
    p.put vol n bytes = .ok ⟨p.buf.drop n, p.page + 1,
      store p.disk (p.page * vol.pageSize) bytes⟩ := by
  have hlt := hvol.page_count_lt
  rw [Progress.put, hvol.write_page hpage hbytes]
  dsimp only
  rw [if_neg (not_not.mpr rfl), mod_eq_of_lt (by omega)]

/-- One page is written. -/
theorem put_proceeds (hhigh : high ≤ vol.pageCount) (hlow : low ≤ p.page) (hpage : p.page < high)
    (hbytes : bytes.length = vol.pageSize)
    (hfits : (p.page + 1) * vol.pageSize + (p.buf.length - n) ≤ high * vol.pageSize) :
    Proceeds vol low high p.disk (p.put vol n bytes) (p.buf.length - n) := by
  refine ⟨_, put_spec hvol (by omega) hbytes, ⟨le_succ_of_le hlow, ?_⟩, ?_, fun page hout => ?_⟩
  · rw [length_drop]
    exact hfits
  · exact length_drop
  · exact unchanged_store_page (by omega) hbytes

/-- A page is read, changed and written. -/
theorem patch_proceeds (hhigh : high ≤ vol.pageCount) (hlow : low ≤ p.page) (hpage : p.page < high)
    {offset : ℕ} (hn : n ≤ p.buf.length) (hroom : offset + n ≤ vol.pageSize)
    (hfits : (p.page + 1) * vol.pageSize + (p.buf.length - n) ≤ high * vol.pageSize) :
    Proceeds vol low high p.disk (p.patch vol offset n) (p.buf.length - n) := by
  rw [Progress.patch, hvol.read_page (by omega)]
  refine put_proceeds hvol hhigh hlow hpage ?_ hfits
  simp only [length_append, length_take, length_drop, Ring.length_block]
  omega

theorem put_pages_proceeds (hhigh : high ≤ vol.pageCount) (h : p.Inside vol low high)
    (hn : n * vol.pageSize ≤ p.buf.length) :
    Proceeds vol low high p.disk (p.putPages vol n) (p.buf.length - n * vol.pageSize) := by
  induction n generalizing p with
  | zero =>
    rw [Nat.zero_mul, Nat.sub_zero]
    exact ⟨p, rfl, h, rfl, .refl⟩
  | succ n ih =>
    have hpos := hvol.page_pos
    have hfits := h.fits
    rw [succ_mul] at hn
    have hpage : p.page < high := by
      refine Nat.lt_of_mul_lt_mul_right (Nat.lt_of_lt_of_le ?_ hfits)
      omega
    have hfirst : Proceeds vol low high p.disk
        (p.put vol vol.pageSize (p.buf.take vol.pageSize)) (p.buf.length - vol.pageSize) := by
      refine put_proceeds hvol hhigh h.low_le hpage ?_ ?_
      · rw [length_take]
        omega
      · rw [succ_mul]
        omega
    obtain ⟨p', hput, hinside, hlength, hsame⟩ := hfirst
    obtain ⟨p'', hrest, hinside', hlength', hsame'⟩ := ih hinside (by omega)
    refine ⟨p'', ?_, hinside', ?_, hsame.trans hsame'⟩
    · rw [Progress.putPages, hput]
      exact hrest
    · rw [hlength', hlength, succ_mul]
      omega

/-- The rest of the page behind an address, also where the next page would be at 4 GiB. -/
theorem roundup_page_sub {addr : ℕ} (haddr : addr < 2 ^ 32) (hoffset : addr % vol.pageSize ≠ 0) :
    sub32 (roundupPage vol addr) addr = vol.pageSize - addr % vol.pageSize := by
  have hpos := hvol.page_pos
  obtain ⟨c, hc⟩ : vol.pageSize ∣ 2 ^ 32 := by
    have hlt := hvol.page_lt
    rw [hvol.shift] at hlt ⊢
    exact Nat.pow_dvd_pow 2
      (Nat.le_of_lt ((Nat.pow_lt_pow_iff_right (show 1 < 2 by decide)).mp hlt))
  rw [Nat.mul_comm] at hc
  have hsplit := div_add_mod' addr vol.pageSize
  have hmod := mod_lt addr hpos
  obtain ⟨q, hq⟩ : ∃ q, q = addr / vol.pageSize := ⟨_, rfl⟩
  obtain ⟨o, ho⟩ : ∃ o, o = addr % vol.pageSize := ⟨_, rfl⟩
  rw [← hq, ← ho] at hsplit
  have hlt : q < c := by
    exact Nat.lt_of_mul_lt_mul_right (show q * vol.pageSize < c * vol.pageSize by omega)
  have hsum : addr + (vol.pageSize - 1) = (q + 1) * vol.pageSize + (o - 1) := by
    rw [succ_mul]
    omega
  rcases Nat.lt_or_eq_of_le (show q + 1 ≤ c from hlt) with hnext | hlast
  · have hle : (q + 1 + 1) * vol.pageSize ≤ c * vol.pageSize := Nat.mul_le_mul_right _ hnext
    rw [succ_mul] at hle
    have hround : roundupPage vol addr = (q + 1) * vol.pageSize := by
      rw [roundupPage, hsum, mod_eq_of_lt (by omega), (div_mod_place (q + 1) (by omega)).1]
    rw [hround, sub32, succ_mul]
    omega
  have hround : roundupPage vol addr = 0 := by
    rw [roundupPage, hsum, hlast, ← hc, add_mod_left, mod_eq_of_lt (by omega),
      div_eq_of_lt (by omega), Nat.zero_mul]
  rw [← hlast, succ_mul] at hc
  rw [hround, sub32]
  omega

/-- The leading partial page. -/
theorem first_proceeds (hhigh : high ≤ vol.pageCount) (hstart : start < 2 ^ 32)
    (hlow : low * vol.pageSize ≤ start) (hfits : start + buf.length ≤ high * vol.pageSize)
    (disk : ℕ → UInt8) :
    ∃ left, Proceeds vol low high disk
      (Progress.first ⟨buf, start / vol.pageSize, disk⟩ vol start) left := by
  have hpos := hvol.page_pos
  have hsplit := div_add_mod' start vol.pageSize
  have hmod := mod_lt start hpos
  have hpage : low ≤ start / vol.pageSize := (Nat.le_div_iff_mul_le hpos).mpr hlow
  rw [Progress.first]
  split
  · next hoffset =>
    rw [roundup_page_sub hvol hstart hoffset]
    have hlt : start / vol.pageSize < high := by
      exact Nat.lt_of_mul_lt_mul_right
        (show start / vol.pageSize * vol.pageSize < high * vol.pageSize by omega)
    have hnext : (start / vol.pageSize + 1) * vol.pageSize ≤ high * vol.pageSize :=
      Nat.mul_le_mul_right _ hlt
    refine ⟨_, patch_proceeds (p := ⟨buf, start / vol.pageSize, disk⟩) hvol hhigh hpage hlt
      (Nat.min_le_left _ _) ?_ ?_⟩
    · omega
    · show (start / vol.pageSize + 1) * vol.pageSize +
        (buf.length - min buf.length (vol.pageSize - start % vol.pageSize)) ≤ _
      rw [succ_mul] at hnext ⊢
      omega
  · refine ⟨buf.length, _, rfl, ⟨hpage, ?_⟩, rfl, .refl⟩
    show start / vol.pageSize * vol.pageSize + buf.length ≤ _
    omega

/-- Writing to a file whose pages are those from `low` up to `high` succeeds, and changes no other
page. -/
theorem write_data_spec (hhigh : high ≤ vol.pageCount) (hstart : start < 2 ^ 32)
    (hlow : low * vol.pageSize ≤ start) (hfits : start + buf.length ≤ high * vol.pageSize) :
    ∃ p, writeData vol disk start buf = .ok p ∧ SameOutside vol low high disk p.disk := by
  have hpos := hvol.page_pos
  have hpage : Bio.divpow2 start (log2Uint vol.pageSize) = start / vol.pageSize := by
    rw [Bio.divpow2, mod_eq_of_lt hstart, ← hvol.shift]
  obtain ⟨left, p, hp, hinside, -, hsame⟩ := first_proceeds hvol hhigh hstart hlow hfits disk
  obtain ⟨p', hp', hinside', hleft, hsame'⟩ :=
    put_pages_proceeds hvol hhigh hinside (div_mul_le_self p.buf.length vol.pageSize)
  have hlast : ∃ p'', p'.last vol = .ok p'' ∧ SameOutside vol low high p'.disk p''.disk := by
    rw [Progress.last]
    split
    · next hne =>
      have hbytes := length_pos_iff.mpr hne
      have hfits' := hinside'.fits
      have hlt : p'.page < high := by
        exact Nat.lt_of_mul_lt_mul_right
          (show p'.page * vol.pageSize < high * vol.pageSize by omega)
      have hrest : p'.buf.length ≤ vol.pageSize := by
        have hdiv := div_add_mod' p.buf.length vol.pageSize
        have hmod := mod_lt p.buf.length hpos
        omega
      obtain ⟨p'', hp'', -, -, hsame''⟩ := patch_proceeds hvol hhigh hinside'.low_le hlt
        (Nat.le_refl p'.buf.length) (show 0 + p'.buf.length ≤ vol.pageSize by omega) (by
          rw [Nat.sub_self]
          exact Nat.mul_le_mul_right _ hlt)
      exact ⟨p'', hp'', hsame''⟩
    · exact ⟨p', rfl, .refl⟩
  obtain ⟨p'', hp'', hsame''⟩ := hlast
  refine ⟨p'', ?_, (hsame.trans hsame').trans hsame''⟩
  rw [writeData, hpage, hp]
  show (p.putPages vol (p.buf.length / vol.pageSize) >>= fun p => p.last vol) = _
  rw [hp']
  exact hp''

end

end Data

end NusaKernel.Spifs
