import Mathlib.Data.Nat.ModEq
import Mathlib.Data.List.Range
import Mathlib.Logic.Function.Basic

/-!
# Ring buffers

An array of `size` cells, used in a circle. `contents cells size start count` are the values of
the `count` cells from `start` on, where the cell after the last is the first. The lemmas say how
it changes when values are put behind its end, one at a time or as a block that does not cross
the end of the array, and how it splits where values are taken from its front.
-/

namespace Ring

open Function List Nat

universe u

variable {α : Type u}

/-- The values of `count` cells from `start` on, going round after `size` cells. -/
def contents (cells : ℕ → α) (size start count : ℕ) : List α :=
  (range count).map fun i => cells ((start + i) % size)

/-- Copy `count` values of a source into the cells from `start` on. -/
def copyIn (cells : ℕ → α) (start : ℕ) (source : ℕ → α) (count : ℕ) : ℕ → α :=
  fun i => if start ≤ i ∧ i < start + count then source (i - start) else cells i

/-- The values of `count` cells from `start` on, without going round. -/
def block (cells : ℕ → α) (start count : ℕ) : List α := (range count).map fun i => cells (start + i)

variable {cells cells' source : ℕ → α} {size start count n : ℕ}

@[simp] theorem length_contents : (contents cells size start count).length = count := by
  simp [contents]

@[simp] theorem length_block : (block cells start count).length = count := by
  simp [block]

@[simp] theorem contents_zero : contents cells size start 0 = [] := rfl

@[simp] theorem block_zero : block cells start 0 = [] := rfl

/-- Only the cells that are read matter. -/
theorem contents_congr (h : ∀ i < count, cells' ((start + i) % size) = cells ((start + i) % size)) :
    contents cells' size start count = contents cells size start count := by
  refine map_congr_left fun i hi => ?_
  exact h i (mem_range.mp hi)

theorem block_comp_add (cells : ℕ → α) (start n : ℕ) :
    block (fun i => cells (start + i)) 0 n = block cells start n := by
  simp [block]

theorem block_add (cells : ℕ → α) (start m n : ℕ) :
    block cells start (m + n) = block cells start m ++ block cells (start + m) n := by
  simp [block, range_add, Nat.add_assoc, comp_def]

theorem take_block (cells : ℕ → α) (start count m : ℕ) :
    (block cells start count).take m = block cells start (min m count) := by
  simp [block, ← map_take, List.take_range]

/-- The cells split where some of them are taken from the front. -/
theorem contents_add (cells : ℕ → α) (size start m n : ℕ) :
    contents cells size start (m + n) =
      contents cells size start m ++ contents cells size ((start + m) % size) n := by
  simp [contents, range_add, Nat.add_assoc, comp_def]

/-- Cells that do not cross the end of the array are a block of it. -/
theorem contents_eq_block (h : start + count ≤ size) :
    contents cells size start count = block cells start count := by
  refine map_congr_left fun i hi => ?_
  have hlt := mem_range.mp hi
  rw [mod_eq_of_lt (by omega)]

theorem contents_one (h : start < size) :
    contents cells size start 1 = [cells start] := by
  rw [contents_eq_block (by omega)]
  simp [block]

/-- Different places of the circle are different cells. -/
theorem add_mod_ne {i j : ℕ} (hi : i < j) (hj : j < size + i) :
    (start + i) % size ≠ (start + j) % size := by
  intro heq
  have hdvd : size ∣ start + j - (start + i) := (modEq_iff_dvd' (by omega)).mp heq
  obtain ⟨k, hk⟩ := hdvd
  have hpos : 0 < k := by
    rcases Nat.eq_zero_or_pos k with rfl | hpos
    · omega
    · exact hpos
  have hle : size ≤ size * k := Nat.le_mul_of_pos_right size hpos
  omega

/-- What is written behind the end leaves the contents as they are. -/
theorem contents_update {i : ℕ} (x : α) (hlow : count ≤ i) (hhigh : i < size) :
    contents (update cells ((start + i) % size) x) size start count =
      contents cells size start count := by
  refine contents_congr fun j hj => ?_
  exact update_of_ne (add_mod_ne (by omega) (by omega)) _ _

/-- Writing the next cell appends its value. -/
theorem contents_push (x : α) (h : count < size) :
    contents (update cells ((start + count) % size) x) size start (count + 1) =
      contents cells size start count ++ [x] := by
  have hlt : (start + count) % size < size := mod_lt _ (by omega)
  rw [contents_add, contents_update x (Nat.le_refl count) h, contents_one hlt, update_self]

theorem block_copy_in : block (copyIn cells start source count) start count =
    block source 0 count := by
  refine map_congr_left fun i hi => ?_
  have hlt := mem_range.mp hi
  show (if _ then source (start + i - start) else _) = source (0 + i)
  rw [if_pos (by omega), Nat.add_sub_cancel_left, Nat.zero_add]

/-- Copying a block behind the end appends it. -/
theorem contents_copy_in (hroom : count + n ≤ size) (hfit : (start + count) % size + n ≤ size) :
    contents (copyIn cells ((start + count) % size) source n) size start (count + n) =
      contents cells size start count ++ block source 0 n := by
  rw [contents_add]
  congr 1
  · refine contents_congr fun i hi => ?_
    refine if_neg fun hin => ?_
    -- a cell of the block is `n` or fewer places further round than the end
    obtain ⟨j, hj⟩ := Nat.exists_eq_add_of_le hin.1
    have hcell : (start + (count + j)) % size = (start + i) % size := by
      rw [hj, ← Nat.add_assoc, ← mod_add_mod, mod_eq_of_lt (by omega)]
    exact add_mod_ne (by omega) (by omega) hcell.symm
  · rw [contents_eq_block hfit, block_copy_in]

end Ring
