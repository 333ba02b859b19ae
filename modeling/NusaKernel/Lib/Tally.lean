import Mathlib.Algebra.BigOperators.Group.Finset.Basic
import Mathlib.Data.Fintype.BigOperators
import Mathlib.Data.Fintype.Card
import Mathlib.Data.Finset.Card
import Mathlib.Logic.Function.Basic

/-!
# Counting the members of a finite family by their local state

A system of finitely many parties is a family `f : ι → β` of local states. `tally p f` is the
number of parties whose local state satisfies `p`. A step of one party is a `Function.update`,
and `tally_update` says how it changes the count, so that counting invariants over any number
of parties reduce to arithmetic.
-/

namespace Tally

open Finset Function

variable {ι β : Type*} [Fintype ι] [DecidableEq ι]

/-- The number of parties whose local state satisfies `p`. -/
def tally (p : β → Prop) [DecidablePred p] (f : ι → β) : ℕ :=
  (Finset.univ.filter fun i => p (f i)).card

variable (p : β → Prop) [DecidablePred p] (f : ι → β)

/-- A quantity that every party has a part of: a step of one party trades its part. -/
theorem sum_update (part : β → ℕ) (i : ι) (b : β) :
    ∑ j, part (update f i b j) + part (f i) = ∑ j, part (f j) + part b := by
  have hsplit : ∀ g : ι → β, ∑ j, part (g j) = part (g i) + ∑ j ∈ Finset.univ.erase i, part (g j) :=
    fun g => (add_sum_erase _ _ (mem_univ i)).symm
  have hothers : ∑ j ∈ Finset.univ.erase i, part (update f i b j) =
      ∑ j ∈ Finset.univ.erase i, part (f j) := by
    refine sum_congr rfl fun j hj => ?_
    rw [update_of_ne (ne_of_mem_erase hj)]
  rw [hsplit, hsplit f, hothers, update_self]
  omega

/-- A step of party `i` to the local state `b` trades its old contribution for the new one. -/
theorem tally_update (i : ι) (b : β) :
    tally p (update f i b) + (if p (f i) then 1 else 0) = tally p f + (if p b then 1 else 0) := by
  simp only [tally, card_filter]
  exact sum_update f (fun b => if p b then 1 else 0) i b

omit [DecidableEq ι] in
/-- Some party is counted exactly when the count is positive. -/
theorem tally_pos_iff : 0 < tally p f ↔ ∃ i, p (f i) := by
  simp [tally, card_pos, filter_nonempty_iff]

omit [DecidableEq ι] in
/-- Nobody is counted exactly when the count is zero. -/
theorem tally_eq_zero_iff : tally p f = 0 ↔ ∀ i, ¬ p (f i) := by
  simp [tally, filter_eq_empty_iff]

omit [DecidableEq ι] in
/-- Two counted parties are one when the count is at most one. -/
theorem eq_of_tally_le_one (h : tally p f ≤ 1) {i j : ι} (hi : p (f i)) (hj : p (f j)) :
    i = j :=
  card_le_one.mp h i (by simpa using hi) j (by simpa using hj)

end Tally
