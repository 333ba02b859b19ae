import Mathlib.Data.BitVec

/-!
# Ranges of machine words

Arithmetic on words of any width for code that describes a range by its first and its last word,
so that a range may end at the largest word there is. The lemmas say what the comparisons of such
code mean for the numbers behind the words.
-/

namespace Word

variable {w : ℕ} {x y n : BitVec w}

/-- The first multiple of `y` from `x` on, for a power of two `y`. It can go round. -/
def roundup (x y : BitVec w) : BitVec w := (x + (y - 1#w)) &&& ~~~(y - 1#w)

/-- The last word of a range of `n` words from `x`. -/
def last (x n : BitVec w) : BitVec w := x + n - 1#w

theorem toNat_one (hn : 0 < n.toNat) : (1#w).toNat = 1 := by
  rw [BitVec.toNat_ofNat, Nat.mod_eq_of_lt (by omega)]

theorem last_eq (x n : BitVec w) : last x n = x + (n - 1#w) := by
  rw [last, add_sub_assoc]

theorem toNat_sub_one (hn : 0 < n.toNat) : (n - 1#w).toNat = n.toNat - 1 := by
  have hone := toNat_one hn
  rw [BitVec.toNat_sub_of_le (by rw [BitVec.le_def, hone]; exact hn), hone]

/-- The last word of a range that does not go round. -/
theorem toNat_last (hn : 0 < n.toNat) (hfit : x.toNat + n.toNat ≤ 2 ^ w) :
    (last x n).toNat = x.toNat + n.toNat - 1 := by
  have hsub := toNat_sub_one hn
  rw [last_eq, BitVec.toNat_add_of_lt (by omega), hsub]
  omega

/-- A range goes round exactly when its last word is before its first. -/
theorem le_last_iff (hn : 0 < n.toNat) : x ≤ last x n ↔ x.toNat + n.toNat ≤ 2 ^ w := by
  refine ⟨fun h => ?_, fun h => ?_⟩
  · by_contra hwrap
    have hsub := toNat_sub_one hn
    rw [last_eq, BitVec.le_def, BitVec.toNat_add, hsub,
      Nat.mod_eq_sub_mod (by omega), Nat.mod_eq_of_lt (by omega)] at h
    omega
  · rw [BitVec.le_def, toNat_last hn h]
    omega

/-- The test that `n` words fit between a first and a last word, both included. -/
theorem fits_of_le_sub_add_one (hxy : x ≤ y) (hn : 0 < n.toNat) (h : n ≤ y - x + 1#w) :
    x.toNat + n.toNat ≤ y.toNat + 1 := by
  have hone := toNat_one hn
  rw [BitVec.le_def] at hxy h
  rw [BitVec.toNat_add, BitVec.toNat_sub_of_le (BitVec.le_def.mpr hxy), hone] at h
  rcases Nat.lt_or_ge (y.toNat - x.toNat + 1) (2 ^ w) with hlt | hge
  · rw [Nat.mod_eq_of_lt hlt] at h
    omega
  · -- the difference is all ones, and the sum is zero
    omega

/-- The other direction, for fewer words than there are. -/
theorem le_sub_add_one (hxy : x.toNat ≤ y.toNat) (hlt : y.toNat - x.toNat + 1 < 2 ^ w)
    (h : x.toNat + n.toNat ≤ y.toNat + 1) : n ≤ y - x + 1#w := by
  have hone : (1#w).toNat = 1 := by rw [BitVec.toNat_ofNat, Nat.mod_eq_of_lt (by omega)]
  rw [BitVec.le_def, BitVec.toNat_add, BitVec.toNat_sub_of_le (BitVec.le_def.mpr hxy), hone,
    Nat.mod_eq_of_lt hlt]
  omega

/-! ## Rounding up -/

theorem toNat_mask {k : ℕ} (hk : k < w) : (1#w <<< k - 1#w).toNat = 2 ^ k - 1 := by
  have hpow : (1#w <<< k).toNat = 2 ^ k := by
    rw [BitVec.toNat_shiftLeft, BitVec.toNat_ofNat, Nat.shiftLeft_eq,
      Nat.mod_eq_of_lt (Nat.one_lt_two_pow (by omega)), Nat.one_mul,
      Nat.mod_eq_of_lt (Nat.pow_lt_pow_right (by decide) hk)]
  rw [toNat_sub_one (by rw [hpow]; exact Nat.two_pow_pos k), hpow]

/-- Clearing the low bits. -/
theorem toNat_and_not_mask (x : BitVec w) {k : ℕ} (hk : k < w) :
    (x &&& ~~~(1#w <<< k - 1#w)).toNat = x.toNat / 2 ^ k * 2 ^ k := by
  have hshift : x &&& ~~~(1#w <<< k - 1#w) = x >>> k <<< k := by
    refine BitVec.eq_of_getLsbD_eq fun i hi => ?_
    have hbit : (1#w <<< k - 1#w).getLsbD i = decide (i < k) := by
      rw [BitVec.getLsbD, toNat_mask hk, Nat.testBit_two_pow_sub_one]
    rw [BitVec.getLsbD_and, BitVec.getLsbD_not, hbit, BitVec.getLsbD_shiftLeft,
      BitVec.getLsbD_ushiftRight]
    by_cases hik : i < k
    · simp [hik]
    · simp [hik, hi, Nat.add_sub_cancel' (Nat.le_of_not_lt hik)]
  have hle := Nat.div_mul_le_self x.toNat (2 ^ k)
  rw [hshift, BitVec.toNat_shiftLeft, BitVec.toNat_ushiftRight, Nat.shiftRight_eq_div_pow,
    Nat.shiftLeft_eq, Nat.mod_eq_of_lt (hle.trans_lt x.isLt)]

/-- Rounding up finds the first multiple, and goes round exactly if that is not a word. -/
theorem roundup_cases (x : BitVec w) (k : ℕ) :
    (x ≤ roundup x (1#w <<< k) ∧ 2 ^ k ∣ (roundup x (1#w <<< k)).toNat ∧
      ∀ m, 2 ^ k ∣ m → x.toNat ≤ m → (roundup x (1#w <<< k)).toNat ≤ m) ∨
    (roundup x (1#w <<< k) < x ∧ ∀ m, 2 ^ k ∣ m → x.toNat ≤ m → 2 ^ w ≤ m) := by
  have hpos := Nat.two_pow_pos k
  rcases Nat.lt_or_ge k w with hk | hk
  · have hround := toNat_and_not_mask (x + (1#w <<< k - 1#w)) hk
    have hpow : 2 ^ k < 2 ^ w := Nat.pow_lt_pow_right (by decide) hk
    obtain ⟨c, hc⟩ : 2 ^ k ∣ 2 ^ w := Nat.pow_dvd_pow 2 hk.le
    have hsum : (x + (1#w <<< k - 1#w)).toNat = (x.toNat + (2 ^ k - 1)) % 2 ^ w := by
      rw [BitVec.toNat_add, toNat_mask hk]
    rw [hsum] at hround
    rcases Nat.lt_or_ge (x.toNat + (2 ^ k - 1)) (2 ^ w) with hlt | hge
    · rw [Nat.mod_eq_of_lt hlt] at hround
      have hdiv := Nat.div_add_mod (x.toNat + (2 ^ k - 1)) (2 ^ k)
      rw [Nat.mul_comm] at hdiv
      refine .inl ⟨BitVec.le_def.mpr (hround ▸ by omega), ⟨_, hround.trans (Nat.mul_comm _ _)⟩, ?_⟩
      rintro _ ⟨m, rfl⟩ hm
      rw [roundup, hround, Nat.mul_comm]
      refine Nat.mul_le_mul_left _ (Nat.le_of_lt_succ ((Nat.div_lt_iff_lt_mul hpos).mpr ?_))
      rw [Nat.succ_mul, Nat.mul_comm m]
      omega
    · rw [Nat.mod_eq_sub_mod hge, Nat.mod_eq_of_lt (by omega), Nat.div_eq_of_lt (by omega),
        Nat.zero_mul] at hround
      refine .inr ⟨BitVec.lt_def.mpr (hround ▸ by omega), ?_⟩
      rintro _ ⟨m, rfl⟩ hm
      rw [hc]
      refine Nat.mul_le_mul_left _ (Nat.le_of_not_lt fun hmc => ?_)
      have hnext := Nat.mul_le_mul_left (2 ^ k) (Nat.succ_le_of_lt hmc)
      rw [Nat.mul_succ] at hnext
      omega
  · have hzero : (roundup x (1#w <<< k)).toNat = 0 := by
      rw [roundup, BitVec.shiftLeft_eq_zero hk, BitVec.zero_sub, BitVec.neg_one_eq_allOnes,
        BitVec.not_allOnes, BitVec.and_zero]
      exact BitVec.toNat_zero
    have hle : 2 ^ w ≤ 2 ^ k := Nat.pow_le_pow_right (by decide) hk
    rcases Nat.eq_zero_or_pos x.toNat with h0 | h0
    · exact .inl ⟨BitVec.le_def.mpr (by omega), by rw [hzero]; exact Nat.dvd_zero _, by omega⟩
    · exact .inr ⟨BitVec.lt_def.mpr (by omega),
        fun m hm hxm => hle.trans (Nat.le_of_dvd (by omega) hm)⟩

/-! ## 64-bit words as numbers -/

/-- The difference of two words. -/
def sub64 (x y : ℕ) : ℕ := (x + (2 ^ 64 - y)) % 2 ^ 64

theorem sub64_of_le {x y : ℕ} (hle : y ≤ x) (hlt : x < 2 ^ 64) : sub64 x y = x - y := by
  unfold sub64
  omega

/-- The first multiple of `y` from `x` on, for a power of two `y`. It can go round. -/
def roundup64 (x y : ℕ) : ℕ := (x + (y - 1)) % 2 ^ 64 / y * y

/-- The last multiple of `y` up to `x`. -/
def rounddown64 (x y : ℕ) : ℕ := x / y * y

/-- The multiple is less than `y` away, unless it goes round. -/
theorem roundup64_bounds {x y : ℕ} (hy : 0 < y) (hlt : x + (y - 1) < 2 ^ 64) :
    x ≤ roundup64 x y ∧ roundup64 x y < x + y := by
  have hdiv := Nat.div_add_mod (x + (y - 1)) y
  have hmod := Nat.mod_lt (x + (y - 1)) hy
  rw [roundup64, Nat.mod_eq_of_lt hlt, Nat.mul_comm]
  omega

end Word
