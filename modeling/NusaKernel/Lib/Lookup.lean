import Mathlib.Data.List.Basic

/-!
# Entries of a table

A table is a list whose entries are found by their index. What is found in a table that has changed
was there before, or is the entry that has changed.
-/

namespace Lookup

open List

universe u

variable {α : Type u} {table : List α} {n k : ℕ} {entry new : α} {f : α → α}

/-- An entry is changed. -/
theorem of_modify (h : (table.modify n f)[k]? = some entry) :
    (k = n ∧ ∃ old, table[n]? = some old ∧ entry = f old) ∨ k ≠ n ∧ table[k]? = some entry := by
  by_cases hkn : k = n
  · rw [hkn, getElem?_modify_eq] at h
    obtain ⟨old, hold, hnew⟩ := Option.map_eq_some_iff.mp h
    exact .inl ⟨hkn, old, hold, hnew.symm⟩
  · rw [getElem?_modify_ne _ _ (Ne.symm hkn)] at h
    exact .inr ⟨hkn, h⟩

theorem modify_self (h : table[n]? = some entry) (f : α → α) :
    (table.modify n f)[n]? = some (f entry) := by
  rw [getElem?_modify_eq, h]
  rfl

theorem modify_ne (h : table[k]? = some entry) (hkn : k ≠ n) (f : α → α) :
    (table.modify n f)[k]? = some entry :=
  (getElem?_modify_ne f table (Ne.symm hkn)).trans h

theorem concat (h : table[k]? = some entry) (new : α) : (table ++ [new])[k]? = some entry :=
  (getElem?_append_left (List.getElem?_eq_some_iff.mp h).1).trans h

end Lookup
