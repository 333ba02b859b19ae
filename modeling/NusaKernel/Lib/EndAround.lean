import Mathlib.Algebra.Ring.Nat
import Mathlib.Tactic.Common

/-!
# Sums with end-around carry

The carry out of the sixteenth bit is added at the bottom. Such a sum can be put off to the end: it
depends on the plain sum only (`onesSum_eq`), and folding a wider sum does not change it.
-/

namespace EndAround

open List

/-- One's-complement addition of 16-bit words. -/
def onesAdd (a b : ℕ) : ℕ := if a + b < 2 ^ 16 then a + b else a + b - (2 ^ 16 - 1)

/-- One's-complement sum. -/
def onesSum (words : List ℕ) : ℕ := words.foldl onesAdd 0

/-- The sum with end-around carry, from the plain sum. -/
def residue (total : ℕ) : ℕ := if total = 0 then 0 else (total - 1) % (2 ^ 16 - 1) + 1

theorem residue_of_lt {total : ℕ} (h : total < 2 ^ 16) : residue total = total := by
  unfold residue
  split <;> omega

theorem residue_lt (total : ℕ) : residue total < 2 ^ 16 := by
  unfold residue
  split <;> omega

/-- The sum with end-around carry is determined by its remainder, and is zero only for zeros. -/
theorem eq_residue_iff {a total : ℕ} (h : a < 2 ^ 16) :
    a = residue total ↔ a % (2 ^ 16 - 1) = total % (2 ^ 16 - 1) ∧ (a = 0 ↔ total = 0) := by
  unfold residue
  constructor
  · intro heq
    split at heq <;> exact ⟨by omega, by omega⟩
  · rintro ⟨hmod, hzero⟩
    split <;> omega

theorem residue_fold (total : ℕ) : residue (total % 2 ^ 16 + total / 2 ^ 16) = residue total := by
  unfold residue
  split_ifs <;> omega

theorem residue_add (a b : ℕ) : residue (residue a + b) = residue (a + b) := by
  unfold residue
  split_ifs <;> omega

/-- A word that is the complement of the sum makes the sum all ones. -/
theorem residue_complement (total : ℕ) :
    residue (total + (2 ^ 16 - 1 - residue total)) = 2 ^ 16 - 1 := by
  unfold residue
  split_ifs <;> omega

theorem onesSum_eq {words : List ℕ} (h : ∀ w ∈ words, w < 2 ^ 16) :
    onesSum words = residue words.sum := by
  have hfold : ∀ a < 2 ^ 16, words.foldl onesAdd a = residue (a + words.sum) := by
    induction words with
    | nil => exact fun a ha => (residue_of_lt ha).symm
    | cons w words ih =>
      intro a ha
      have hw := h w mem_cons_self
      have hadd : onesAdd a w = residue (a + w) := by
        unfold onesAdd residue
        split_ifs <;> omega
      rw [foldl_cons, hadd, ih (forall_mem_cons.mp h).2 _ (residue_lt _),
        residue_add, sum_cons, Nat.add_assoc]
  rw [onesSum, hfold 0 (by decide), Nat.zero_add]

end EndAround
