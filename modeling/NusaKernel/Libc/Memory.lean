import Mathlib.Data.Nat.Prime.Basic
import NusaKernel.Kernel.Status
import NusaKernel.Lib.Segment
import NusaKernel.Lib.Word

/-!
# Copying and searching memory (`lib/libc/bsearch.c`, `lib/iovec/iovec.c`)

`iovec_to_membuf` copies the slice that it is asked for (`iovec_to_membuf_slice`). `bsearch` goes
outside of the array when its upper bound falls below its lower one (`bsearch_outside`);
`bsearch_finds` says exactly when that does not matter.
-/

namespace NusaKernel.Libc

open List Segment Word

/-- The loop of `iovec_to_membuf`. Nothing wraps: each difference is taken where it is not
negative, and `buf_pos` stays below the first `buf_len`. -/
def iovecLoop (buf : ℕ → UInt8) (bufLen bufPos iovPos : ℕ) :
    List (List UInt8) → ℕ × (ℕ → UInt8)
  | [] => (bufPos, buf)
  | iov :: rest =>
    if iov.length ≤ iovPos then iovecLoop buf bufLen bufPos (iovPos - iov.length) rest
    else
      let toCopy := min (iov.length - iovPos) bufLen
      let buf := store buf bufPos ((iov.drop iovPos).take toCopy)
      if bufLen - toCopy = 0 then (bufPos + toCopy, buf)
      else iovecLoop buf (bufLen - toCopy) (bufPos + toCopy) 0 rest

/-- `iovec_to_membuf`; a missing pointer is `none`. -/
def iovecToMembuf (buf : Option (ℕ → UInt8)) (bufLen : ℕ) (iov : Option (List (List UInt8)))
    (iovPos : ℕ) : ℤ × Option (ℕ → UInt8) :=
  match buf, iov with
  | some buf, some iov =>
    let (count, buf) := iovecLoop buf bufLen 0 iovPos iov
    (count, some buf)
  | buf, _ => (errInvalidArgs, buf)

/-- The loop puts the rest of the slice behind what is there. -/
theorem iovec_loop_eq (buf : ℕ → UInt8) (bufLen bufPos iovPos : ℕ) (iov : List (List UInt8)) :
    iovecLoop buf bufLen bufPos iovPos iov =
      (bufPos + ((iov.flatten.drop iovPos).take bufLen).length,
        store buf bufPos ((iov.flatten.drop iovPos).take bufLen)) := by
  fun_induction iovecLoop with
  | case1 => simp
  | case2 buf bufLen bufPos iovPos iov rest hskip ih =>
    rw [ih, flatten_cons, drop_append, drop_eq_nil_of_le hskip, nil_append]
  | case3 buf bufLen bufPos iovPos iov rest hskip toCopy copied hfull =>
    rw [flatten_cons, drop_append, take_append_of_le_length (by simp; omega)]
    have hcut : toCopy = bufLen := by omega
    simp only [copied, hcut, length_take, length_drop]
    exact congrArg₂ Prod.mk (by omega) rfl
  | case4 buf bufLen bufPos iovPos iov rest hskip toCopy copied hmore ih =>
    have hall : toCopy = (iov.drop iovPos).length := by simp; omega
    have hzero : iovPos - iov.length = 0 := by omega
    rw [ih, flatten_cons, drop_append, take_append, hzero, take_of_length_le (l := iov.drop iovPos)
      (by omega), store_append, length_append]
    simp only [copied, hall, take_length, drop_zero, Nat.add_assoc]

/-- The bytes copied are those of the segments put together, from the position on, and as many as
fit; nothing behind them changes. -/
theorem iovec_to_membuf_slice (buf : ℕ → UInt8) (bufLen : ℕ) (iov : List (List UInt8))
    (iovPos : ℕ) :
    iovecToMembuf (some buf) bufLen (some iov) iovPos =
      (((min bufLen (iov.flatten.length - iovPos) : ℕ) : ℤ),
        some (store buf 0 ((iov.flatten.drop iovPos).take bufLen))) := by
  simp [iovecToMembuf, iovec_loop_eq]

section Bsearch

/-- The loop of `bsearch`, where `r e` is the result of the comparison with the element at the
offset `e` of the array: the offsets of the elements the key was compared with, and that of the
element returned. `none`: the fuel did not suffice. -/
def bsearchLoop (r : ℕ → ℤ) (size : ℕ) : ℕ → ℕ → ℕ → Option (List ℕ × Option ℕ)
  | 0, _, _ => none
  | fuel + 1, low, high =>
    let mid := (low + sub64 high low / 2) % 2 ^ 64
    let midElem := mid * size % 2 ^ 64
    let goOn low high := (bsearchLoop r size fuel low high).map (Prod.map (midElem :: ·) id)
    if r midElem < 0 then if mid = 0 then some ([midElem], none) else goOn low (mid - 1)
    else if 0 < r midElem then
      let low := (mid + 1) % 2 ^ 64
      if low < mid ∨ high < low then some ([midElem], none) else goOn low high
    else some ([midElem], some midElem)

/-- `bsearch`; `base` gives what is at an offset of the array. -/
def bsearch {κ α : Type*} (key : κ) (base : ℕ → α) (numElems size : ℕ) (compare : κ → α → ℤ)
    (fuel : ℕ) : Option (List ℕ × Option ℕ) :=
  if numElems = 0 then some ([], none)
  else bsearchLoop (fun e => compare key (base e)) size fuel 0 (sub64 numElems 1)

/-- The array is sorted: elements below the key, then those equal to it, then those above. -/
def Sorted (r : ℕ → ℤ) (size n : ℕ) : Prop :=
  ∀ j < n, ∀ i ≤ j, (r (i * size) ≤ 0 → r (j * size) ≤ 0) ∧ (r (i * size) < 0 → r (j * size) < 0)

/-- The key is missing behind the first `gap` elements, and before others. -/
structure Between (r : ℕ → ℤ) (size n gap : ℕ) : Prop where
  pos : 0 < gap
  lt : gap < n
  below : ∀ i < gap, 0 < r (i * size)
  above : ∀ i < n, gap ≤ i → r (i * size) < 0

/-- Whether halving `m` elements down to the place behind the first `gap` of them takes the lower
half last. The middle one belongs to no half, and the upper half is not taken if it is empty. -/
def endsLow (m gap : ℕ) : Bool :=
  if m = 0 then true
  else if gap ≤ (m - 1) / 2 then endsLow ((m - 1) / 2) gap
  else if m = 1 then false
  else endsLow (m / 2) (gap - (m - 1) / 2 - 1)
termination_by m

/-- That the upper bound falls below the lower one does not matter if the address that is then
computed goes round to an element below the key. -/
def Harmless (size n gap : ℕ) : Prop := Even size ∨ endsLow n gap = false ∨ 2 ^ 63 < gap

/-- The search ends, inside of the array of `n` elements and with the right answer. -/
def Finds (r : ℕ → ℤ) (size n : ℕ) (outcome : Option (List ℕ × Option ℕ)) : Prop :=
  ∃ probes found, outcome = some (probes, found) ∧ (∀ e ∈ probes, ∃ i < n, e = i * size) ∧
    found.elim (∀ i < n, r (i * size) ≠ 0) fun e => ∃ i < n, e = i * size ∧ r e = 0

variable {r : ℕ → ℤ} {size n low high fuel : ℕ}

theorem Finds.probe {outcome : Option (List ℕ × Option ℕ)} {mid : ℕ} (hmid : mid < n) :
    Finds r size n outcome → Finds r size n (outcome.map (Prod.map (mid * size :: ·) id)) := by
  rintro ⟨probes, found, rfl, hin, hfound⟩
  exact ⟨_, found, rfl, forall_mem_cons.mpr ⟨⟨mid, hmid, rfl⟩, hin⟩, hfound⟩

theorem Finds.of_probe {outcome : Option (List ℕ × Option ℕ)} {e : ℕ} :
    Finds r size n (outcome.map (Prod.map (e :: ·) id)) →
      (∃ i < n, e = i * size) ∧ Finds r size n outcome := by
  rintro ⟨probes, found, houtcome, hin, hfound⟩
  obtain ⟨⟨rest, _⟩, rfl, ⟨⟩⟩ := Option.map_eq_some_iff.mp houtcome
  obtain ⟨hfirst, hrest⟩ := forall_mem_cons.mp hin
  exact ⟨hfirst, rest, _, rfl, hrest, hfound⟩

/-- The place in front of all elements is reached by lower halves. -/
theorem ends_low_zero (m : ℕ) : endsLow m 0 = true := by
  induction m using Nat.strong_induction_on with
  | _ m ih =>
    unfold endsLow
    split_ifs with hzero
    · rfl
    · exact ih _ (by omega)
    · omega
    · omega

/-- If nothing is left, the middle is taken half of the address space away. Where two elements are
an even number of bytes apart that is the element before. -/
theorem empty_probe (heven : Even size) (hsize : size ≠ 0) (hhigh : high < n)
    (hfits : n * size ≤ 2 ^ 64) :
    (high + 1 + sub64 high (high + 1) / 2) % 2 ^ 64 = high + 2 ^ 63 ∧
      (high + 2 ^ 63) * size % 2 ^ 64 = high * size ∧ high < 2 ^ 63 := by
  obtain ⟨half, rfl⟩ := heven
  have hlt : high * half < n * half := Nat.mul_lt_mul_of_pos_right hhigh (by omega)
  have hle : n ≤ n * half := Nat.le_mul_of_pos_right n (by omega)
  rw [Nat.mul_add] at hfits
  refine ⟨?_, ?_, by omega⟩
  · unfold sub64
    omega
  · rw [Nat.add_mul, Nat.mul_add]
    omega

section

variable (hn : n < 2 ^ 64) (hfits : n * size ≤ 2 ^ 64)
include hn hfits

/-- Where the middle of a stretch is. -/
theorem mid_eq (hle : low ≤ high) (hhigh : high < n) :
    ∃ mid, low ≤ mid ∧ mid ≤ high ∧ mid = low + (high - low) / 2 ∧
      (low + sub64 high low / 2) % 2 ^ 64 = mid ∧ (mid + 1) % 2 ^ 64 = mid + 1 ∧
      mid * size % 2 ^ 64 = mid * size := by
  refine ⟨low + (high - low) / 2, by omega, by omega, rfl, ?_, by omega, ?_⟩
  · rw [sub64_of_le hle (by omega)]
    omega
  · obtain rfl | hsize := Nat.eq_zero_or_pos size
    · rfl
    · have := Nat.mul_lt_mul_of_pos_right (show low + (high - low) / 2 < n by omega) hsize
      omega

/-- A stretch of elements that are all below the key is left upwards. -/
theorem bsearch_loop_below (hle : low ≤ high) (hhigh : high < n) (hfuel : high - low < fuel)
    (hbelow : ∀ i ≤ high, 0 < r (i * size))
    (hnone : ∀ i < n, r (i * size) ≠ 0) : Finds r size n (bsearchLoop r size fuel low high) := by
  induction fuel generalizing low with
  | zero => omega
  | succ fuel ih =>
    obtain ⟨mid, hlow, hmid, -, hprobe, hnext, helem⟩ := mid_eq hn hfits hle hhigh
    have hpos := hbelow mid hmid
    have hin : mid < n := by omega
    simp only [bsearchLoop, hprobe, hnext, helem]
    rw [if_neg hpos.not_gt, if_pos hpos]
    split_ifs with hend
    · exact ⟨_, _, rfl, forall_mem_singleton.mpr ⟨mid, hin, rfl⟩, hnone⟩
    · exact (ih (by omega) (by omega)).probe hin

/-- The stretch that is left is empty: the key is missing, and the next comparison is with an
element below it. -/
theorem bsearch_loop_empty (hfuel : n < fuel) (hgap : Between r size n (high + 1))
    (heven : Even size ∨ 2 ^ 63 < high + 1) :
    Finds r size n (bsearchLoop r size fuel (high + 1) high) := by
  obtain ⟨fuel, rfl⟩ : ∃ k, fuel = k + 1 := ⟨fuel - 1, by omega⟩
  have hnone : ∀ i < n, r (i * size) ≠ 0 := fun i hi hzero => by
    have := hgap.below i
    have := hgap.above i hi
    omega
  have hlt := hgap.lt
  have hpos := hgap.below high (Nat.lt_succ_self _)
  have hsize : size ≠ 0 := by
    rintro rfl
    exact (hgap.above _ hlt le_rfl).not_gt hpos
  rcases heven with heven | hwraps
  · obtain ⟨hmid, helem, hhalf⟩ := empty_probe heven hsize (Nat.lt_of_succ_lt hlt) hfits
    simp only [bsearchLoop, hmid, helem]
    rw [if_neg hpos.not_gt, if_pos hpos, if_pos (by omega)]
    exact ⟨_, _, rfl, forall_mem_singleton.mpr ⟨high, by omega, rfl⟩, hnone⟩
  · -- the elements are bytes, and the middle goes round to one of them
    obtain ⟨mid, hmid⟩ : ∃ mid, high = mid + 2 ^ 63 := ⟨high - 2 ^ 63, by omega⟩
    have hprobe : (high + 1 + sub64 high (high + 1) / 2) % 2 ^ 64 = mid := by
      unfold sub64
      omega
    have helem : mid * size % 2 ^ 64 = mid * size := by
      have := Nat.mul_lt_mul_of_pos_right (show mid < n by omega) (Nat.pos_of_ne_zero hsize)
      omega
    have hmidpos := hgap.below mid (by omega)
    simp only [bsearchLoop, hprobe, helem]
    rw [if_neg hmidpos.not_gt, if_pos hmidpos, Nat.mod_eq_of_lt (by omega), if_neg (by omega)]
    refine (bsearch_loop_below hn hfits (by omega) (by omega) (by omega) (fun i hi => ?_)
      hnone).probe (by omega)
    exact hgap.below i (by omega)

/-- The elements below the stretch that is left are below the key, those above it are above. -/
theorem bsearch_loop_finds (hsorted : Sorted r size n)
    (hright : ∀ gap, Between r size n gap →
      Even size ∨ endsLow (high + 1 - low) (gap - low) = false ∨ 2 ^ 63 < gap)
    (hle : low ≤ high + 1) (hlow : low < n) (hhigh : high < n) (hfuel : n + (high + 1 - low) < fuel)
    (hbelow : ∀ i < low, 0 < r (i * size)) (habove : ∀ i < n, high < i → r (i * size) < 0) :
    Finds r size n (bsearchLoop r size fuel low high) := by
  induction fuel generalizing low high with
  | zero => omega
  | succ fuel ih =>
    obtain rfl | hle := hle.eq_or_lt
    · have hgap : Between r size n (high + 1) :=
        ⟨by omega, hlow, hbelow, fun i hi h => habove i hi h⟩
      refine bsearch_loop_empty hn hfits (by omega) hgap ?_
      rcases hright _ hgap with heven | hends | hwraps
      · exact .inl heven
      · rw [Nat.sub_self, ends_low_zero] at hends
        cases hends
      · exact .inr hwraps
    have hfull : low ≤ high := by omega
    obtain ⟨mid, hlowmid, hmidhigh, hmid, hprobe, hnext, helem⟩ := mid_eq hn hfits hfull hhigh
    have hin : mid < n := by omega
    have hcompared : ∀ e ∈ [mid * size], ∃ i < n, e = i * size :=
      forall_mem_singleton.mpr ⟨mid, hin, rfl⟩
    simp only [bsearchLoop, hprobe, hnext, helem]
    split_ifs with hneg hzero hpos hend
    · refine ⟨_, _, rfl, hcompared, fun i hi => ((hsorted i hi mid ?_).2 hneg).ne⟩
      omega
    · have habove' (i : ℕ) (hi : i < n) (hmidi : mid - 1 < i) : r (i * size) < 0 :=
        (hsorted i hi mid (by omega)).2 hneg
      refine .probe hin (ih (fun gap hgap => ?_) (by omega) hlow (by omega) (by omega) hbelow
        habove')
      have hgapmid : gap ≤ mid := by
        by_contra hlt
        exact (hgap.below mid (by omega)).not_gt hneg
      have := hright gap hgap
      rwa [endsLow, if_neg (by omega), if_pos (by omega),
        show (high + 1 - low - 1) / 2 = mid - 1 + 1 - low by omega] at this
    · refine ⟨_, _, rfl, hcompared, fun i hi => ?_⟩
      have := hsorted mid hin i
      have := habove i hi
      omega
    · have hbelow' (i : ℕ) (hi : i < mid + 1) : 0 < r (i * size) := by
        have := hsorted mid hin i
        omega
      refine .probe hin (ih (fun gap hgap => ?_) (by omega) (by omega) hhigh (by omega) hbelow'
        habove)
      have hgapmid : mid < gap := by
        by_contra hle
        exact (hgap.above mid hin (by omega)).not_gt hpos
      have := hright gap hgap
      rwa [endsLow, if_neg (by omega), if_neg (by omega), if_neg (by omega),
        show (high + 1 - low) / 2 = high + 1 - (mid + 1) by omega,
        show gap - low - (high + 1 - low - 1) / 2 - 1 = gap - (mid + 1) by omega] at this
    · exact ⟨_, _, rfl, hcompared, mid, hin, rfl, by omega⟩

/-- An address half of the address space away is no element, or is one above the key, and then the
search does not end. -/
theorem bsearch_loop_misses {gap : ℕ} (hgap : Between r size n gap) (hodd : ¬ Even size)
    (hhalf : gap ≤ 2 ^ 63) (hlow : low ≤ gap) (hle : gap ≤ high + 1) (hhigh : high < n)
    (hends : endsLow (high + 1 - low) (gap - low) = true) :
    ¬ Finds r size n (bsearchLoop r size fuel low high) := by
  have hpos := hgap.pos
  induction fuel generalizing low high with
  | zero => exact fun ⟨_, _, h, _⟩ => nomatch h
  | succ fuel ih =>
    rcases Nat.lt_or_ge high low with hempty | hfull
    · obtain rfl : low = gap := by omega
      obtain rfl : low = high + 1 := by omega
      obtain ⟨far, hfar⟩ : ∃ far, far = high + 2 ^ 63 := ⟨_, rfl⟩
      have hprobe : (high + 1 + sub64 high (high + 1) / 2) % 2 ^ 64 = far := by
        unfold sub64
        omega
      simp only [bsearchLoop, hprobe]
      intro hfinds
      have hcompared : ∃ i < n, far * size % 2 ^ 64 = i * size := by
        have hfirst {found} (h : Finds r size n (some ([far * size % 2 ^ 64], found))) :
            ∃ i < n, far * size % 2 ^ 64 = i * size := by
          obtain ⟨_, _, ⟨⟩, hin, _⟩ := h
          exact hin _ mem_cons_self
        split_ifs at hfinds
        · exact hfirst hfinds
        · exact hfinds.of_probe.1
        · exact hfirst hfinds
        · exact hfinds.of_probe.1
        · exact hfirst hfinds
      obtain ⟨i, hi, heq⟩ := hcompared
      have hcoprime : Nat.Coprime (2 ^ 64) size :=
        (Nat.coprime_two_left.mpr (Nat.not_even_iff_odd.mp hodd)).pow_left 64
      have hmod : far ≡ i [MOD 2 ^ 64] := by
        refine Nat.ModEq.cancel_right_of_coprime hcoprime ?_
        rw [Nat.ModEq, heq, ← heq, Nat.mod_mod]
      obtain rfl : far = i := by
        rw [Nat.ModEq] at hmod
        omega
      rw [heq, if_pos (hgap.above _ hi (by omega)), if_neg (by omega)] at hfinds
      refine ih (by omega) (by omega) (by omega) ?_ hfinds.of_probe.2
      rw [Nat.sub_self, ends_low_zero]
    obtain ⟨mid, hlowmid, hmidhigh, hmid, hprobe, hnext, helem⟩ := mid_eq hn hfits hfull hhigh
    have hin : mid < n := by omega
    simp only [bsearchLoop, hprobe, hnext, helem]
    rw [endsLow, if_neg (by omega)] at hends
    rcases Nat.lt_or_ge mid gap with hbelow | habove
    · have hpos := hgap.below mid hbelow
      rw [if_neg (by omega)] at hends
      split_ifs at hends with hone
      rw [if_neg hpos.not_gt, if_pos hpos, if_neg (by omega)]
      intro hfinds
      refine ih hbelow hle hhigh ?_ hfinds.of_probe.2
      rwa [show (high + 1 - low) / 2 = high + 1 - (mid + 1) by omega,
        show gap - low - (high + 1 - low - 1) / 2 - 1 = gap - (mid + 1) by omega] at hends
    · rw [if_pos (by omega)] at hends
      rw [if_pos (hgap.above mid hin habove), if_neg (by omega)]
      intro hfinds
      refine ih hlow (by omega) (by omega) ?_ hfinds.of_probe.2
      rwa [show (high + 1 - low - 1) / 2 = mid - 1 + 1 - low by omega] at hends

end

/-- `bsearch` is right exactly if an upper bound below the lower one is not reached or harmless,
wherever between two elements the key is missing. -/
theorem bsearch_finds {κ α : Type*} {key : κ} {base : ℕ → α} {compare : κ → α → ℤ}
    (hn : n < 2 ^ 64) (hfits : n * size ≤ 2 ^ 64) (hfuel : 2 * n < fuel)
    (hsorted : Sorted (fun e => compare key (base e)) size n) :
    Finds (fun e => compare key (base e)) size n (bsearch key base n size compare fuel) ↔
      ∀ gap, Between (fun e => compare key (base e)) size n gap → Harmless size n gap := by
  unfold bsearch
  split_ifs with hzero
  · refine iff_of_true ⟨_, _, rfl, forall_mem_nil _, by simp [hzero]⟩ fun gap hgap => ?_
    exact absurd hgap.lt (by omega)
  rw [sub64_of_le (by omega) hn]
  constructor
  · intro hfinds gap hgap
    by_contra hnot
    obtain ⟨hodd, hends, hhalf⟩ := not_or.mp hnot |>.imp_right not_or.mp
    have hlt := hgap.lt
    refine bsearch_loop_misses hn hfits hgap hodd (not_lt.mp hhalf) (Nat.zero_le _) (by omega)
      (by omega) ?_ hfinds
    rw [Nat.sub_zero, Nat.sub_zero, Nat.sub_add_cancel (by omega)]
    exact Bool.eq_true_of_not_eq_false hends
  · intro hright
    refine bsearch_loop_finds hn hfits hsorted (fun gap hgap => ?_) ?_ ?_ ?_ ?_ ?_
      fun i hi hlt => ?_ <;> try omega
    rw [Nat.sub_zero, Nat.sub_zero, Nat.sub_add_cancel (by omega)]
    exact hright gap hgap

/-- Bytes 1 and 3, and behind them what a search for 2 looks for. -/
def oneThree : ℕ → ℤ
  | 0 => 1
  | 1 => 3
  | _ => 2

/-- The byte 2 is not in the array 1, 3. The third comparison is outside, and so is the answer. -/
theorem bsearch_outside : Sorted (fun e => 2 - oneThree e) 1 2 ∧
    bsearch 2 oneThree 2 1 (· - ·) 3 = some ([0, 1, 2 ^ 63], some (2 ^ 63)) := by
  unfold Sorted
  decide

/-- The key 3 is there; between the bytes 1 and 3 and behind the first of three it is missing, but
the elements are an even number of bytes, and the upper half is taken last. -/
theorem bsearch_three :
    Finds (fun e => 3 - oneThree e) 1 2 (bsearch 3 oneThree 2 1 (· - ·) 5) ∧
    Finds (fun e => 2 - oneThree (e / 2)) 2 2
      (bsearch 2 (fun e => oneThree (e / 2)) 2 2 (· - ·) 5) ∧
    Finds (fun e => 2 - (2 * e + 1 : ℤ)) 1 3 (bsearch 2 (2 * · + 1 : ℕ → ℤ) 3 1 (· - ·) 7) := by
  refine ⟨(bsearch_finds (by decide) (by decide) (by decide) (by unfold Sorted; decide)).mpr ?_,
    (bsearch_finds (by decide) (by decide) (by decide) (by unfold Sorted; decide)).mpr ?_,
    (bsearch_finds (by decide) (by decide) (by decide) (by unfold Sorted; decide)).mpr ?_⟩
  · intro gap hgap
    rcases Nat.lt_or_ge 1 gap with hlt | hge
    · exact absurd (hgap.below 1 hlt) (by decide)
    · exact absurd (hgap.above 1 (by decide) hge) (by decide)
  · exact fun gap _ => .inl even_two
  · intro gap hgap
    have hpos := hgap.pos
    obtain rfl : gap = 1 := by
      by_contra hne
      exact absurd (hgap.below 1 (by omega)) (by decide)
    exact .inr (.inl (by simp [endsLow]))

end Bsearch

end NusaKernel.Libc
