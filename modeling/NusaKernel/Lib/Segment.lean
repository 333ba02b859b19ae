import NusaKernel.Lib.Ring

/-!
# Stretches of an array

An array is a function from positions to values. `Ring.block cells start count` is the list of
the values of a stretch; `store cells start values` is the array with a list put in place from
`start` on. The lemmas are the laws of reading back what was stored, of stretches that do not
meet, and of a store that is done in parts.
-/

namespace Segment

open List Ring

universe u

variable {α : Type u}

/-- Put the listed values into the cells from `start` on. -/
def store (cells : ℕ → α) (start : ℕ) (values : List α) : ℕ → α :=
  fun i => if start ≤ i then (values[i - start]?).getD (cells i) else cells i

variable {cells : ℕ → α} {values front back : List α} {start count i : ℕ}

@[simp] theorem store_nil : store cells start [] = cells := by
  funext i
  simp [store]

theorem store_of_lt (h : i < start) : store cells start values i = cells i := if_neg (by omega)

theorem store_of_ge (h : start + values.length ≤ i) : store cells start values i = cells i := by
  rw [store, if_pos (by omega), getElem?_eq_none (by omega)]
  rfl

/-- A store changes the stretch it covers only. -/
theorem store_of_outside (h : i < start ∨ start + values.length ≤ i) :
    store cells start values i = cells i :=
  h.elim store_of_lt store_of_ge

theorem store_add (h : i < values.length) : store cells start values (start + i) = values[i] := by
  rw [store, if_pos (by omega), Nat.add_sub_cancel_left, getElem?_eq_getElem h]
  rfl

theorem getElem?_block (h : i < count) :
    (block cells start count)[i]? = some (cells (start + i)) := by
  simp [block, getElem?_range h]

/-- Two arrays that agree on a stretch have the same values there. -/
theorem block_congr {cells' : ℕ → α} (h : ∀ i, start ≤ i → i < start + count → cells' i = cells i) :
    block cells' start count = block cells start count := by
  refine map_congr_left fun i hi => ?_
  have hlt := mem_range.mp hi
  exact h (start + i) (by omega) (by omega)

/-- What was stored is read back. -/
theorem block_store : block (store cells start values) start values.length = values := by
  refine ext_getElem? fun i => ?_
  by_cases hi : i < values.length
  · rw [getElem?_block hi, store_add hi, getElem?_eq_getElem hi]
  · rw [getElem?_eq_none (by simpa using hi), getElem?_eq_none (by omega)]

/-- A stretch that does not meet the stored one is read as before. -/
theorem block_store_of_disjoint {place : ℕ}
    (h : start + count ≤ place ∨ place + values.length ≤ start) :
    block (store cells place values) start count = block cells start count :=
  block_congr fun _ _ _ => store_of_outside (by omega)

/-- A part of a stretch that was copied from another array. -/
theorem block_store_part {source : ℕ → α} {base n off : ℕ} (h : off + count ≤ n) :
    block (store cells start (block source base n)) (start + off) count =
      block source (base + off) count := by
  refine map_congr_left fun i hi => ?_
  have hlt := mem_range.mp hi
  rw [Nat.add_assoc, store_add (by rw [length_block]; omega)]
  simp [block, Nat.add_assoc]

/-- Storing what is there changes nothing. -/
theorem store_block : store cells start (block cells start count) = cells := by
  funext i
  by_cases hi : start ≤ i ∧ i < start + count
  · obtain ⟨k, rfl⟩ := Nat.exists_eq_add_of_le hi.1
    rw [store_add (by simp; omega)]
    simp [block]
  · refine store_of_outside ?_
    rw [length_block]
    omega

/-- A store done in two parts. -/
theorem store_append (first second : List α) :
    store cells start (first ++ second) =
      store (store cells start first) (start + first.length) second := by
  funext i
  by_cases hlow : i < start
  · rw [store_of_lt hlow, store_of_lt (by omega), store_of_lt hlow]
  obtain ⟨k, rfl⟩ := Nat.exists_eq_add_of_le (Nat.not_lt.mp hlow)
  by_cases hfirst : k < first.length
  · have hinner : start + k < start + first.length := by omega
    rw [store_of_lt hinner, store_add (by simp; omega), store_add hfirst,
      getElem_append_left hfirst]
  obtain ⟨m, rfl⟩ := Nat.exists_eq_add_of_le (Nat.not_lt.mp hfirst)
  rw [← Nat.add_assoc]
  by_cases hsecond : m < second.length
  · rw [store_add hsecond, Nat.add_assoc, store_add (by simp; omega),
      getElem_append_right (by omega)]
    simp
  · rw [store_of_ge (by simp; omega), store_of_ge (by omega), store_of_ge (by omega)]

/-- A store that covers an earlier one hides it. -/
theorem store_store {first second : List α} (h : first.length ≤ second.length) :
    store (store cells start first) start second = store cells start second := by
  funext i
  by_cases hin : start ≤ i ∧ i < start + second.length
  · obtain ⟨k, rfl⟩ := Nat.exists_eq_add_of_le hin.1
    rw [store_add (by omega), store_add (by omega)]
  · rw [store_of_outside (by omega), store_of_outside (by omega), store_of_outside (by omega)]

/-- Storing a stretch read from the array with new values in its middle stores the new values
only. -/
theorem store_patched (front back : ℕ) :
    store cells start (block cells start front ++ values ++
      block cells (start + front + values.length) back) = store cells (start + front) values := by
  rw [store_append, store_append, store_block, length_block]
  have hback : block cells (start + front + values.length) back =
      block (store cells (start + front) values) (start + front + values.length) back :=
    (block_store_of_disjoint (by omega)).symm
  rw [hback, length_append, length_block, ← Nat.add_assoc, store_block]

theorem drop_block {m : ℕ} (h : m ≤ count) :
    (block cells start count).drop m = block cells (start + m) (count - m) := by
  obtain ⟨k, rfl⟩ := Nat.exists_eq_add_of_le h
  rw [block_add, drop_left' (by simp), Nat.add_sub_cancel_left]

/-- Values that are stored inside of a stretch. -/
theorem block_store_inside {off : ℕ} (h : off + values.length ≤ count) :
    block (store cells (start + off) values) start count =
      (block cells start count).take off ++
        (values ++ (block cells start count).drop (off + values.length)) := by
  rw [drop_block h, take_block, Nat.min_eq_left (by omega)]
  obtain ⟨back, rfl⟩ := Nat.exists_eq_add_of_le h
  rw [Nat.add_sub_cancel_left, Nat.add_assoc, block_add, block_add, block_store,
    block_store_of_disjoint (by omega), block_store_of_disjoint (by omega), Nat.add_assoc]

/-- A stretch holds a list that is given in two parts. -/
theorem block_append_iff :
    block cells start (front ++ back).length = front ++ back ↔
      block cells start front.length = front ∧
        block cells (start + front.length) back.length = back := by
  rw [length_append, block_add]
  constructor
  · intro h
    exact append_inj h length_block
  · rintro ⟨hfront, hback⟩
    rw [hfront, hback]

theorem block_of_const {x : α} (h : ∀ i, start ≤ i → i < start + count → cells i = x) :
    block cells start count = replicate count x := by
  refine eq_replicate_iff.mpr ⟨length_block, fun y hy => ?_⟩
  obtain ⟨i, hi, rfl⟩ := List.mem_map.mp hy
  have hlt := mem_range.mp hi
  exact h (start + i) (by omega) (by omega)

/-- Storing a value where it is everywhere changes nothing. -/
theorem store_replicate_self {x : α} (h : ∀ i, start ≤ i → cells i = x) (n : ℕ) :
    store cells start (replicate n x) = cells := by
  rw [← block_of_const fun i hi _ => h i hi]
  exact store_block

end Segment
