import Mathlib.Data.List.Nodup
import Mathlib.Logic.Function.Basic

/-!
# Families of queues

A family of lists `lists : ι → List α` in which every element stands in the list its own record
names, once, and in no other. `Placed lists place` says so, with `place a` the list that `a`
should be in. The operations on one list at a time that scheduling and waiting use, pushing at
either end and unlinking, are matched by an update of `place` at the one element they move.
-/

namespace Placement

open List Function

universe u v

variable {ι : Type u} {α : Type v}

/-- Each element is in the list it is placed in, once, and in no other. -/
structure Placed (lists : ι → List α) (place : α → Option ι) : Prop where
  nodup : ∀ i, (lists i).Nodup
  mem_iff : ∀ i a, a ∈ lists i ↔ place a = some i

variable {lists : ι → List α} {place : α → Option ι} {a : α} {i j : ι}

theorem Placed.empty : Placed (fun _ : ι => ([] : List α)) fun _ => none :=
  ⟨fun _ => nodup_nil, by simp⟩

/-- Only the values of `place` matter. -/
theorem Placed.congr {place' : α → Option ι} (h : Placed lists place)
    (heq : ∀ a, place' a = place a) : Placed lists place' :=
  ⟨h.nodup, fun i a => by rw [heq]; exact h.mem_iff i a⟩

/-- No element is in two lists. -/
theorem Placed.unique (h : Placed lists place) (hi : a ∈ lists i) (hj : a ∈ lists j) : i = j := by
  rw [h.mem_iff] at hi hj
  exact Option.some.inj (hi.symm.trans hj)

theorem Placed.not_mem (h : Placed lists place) (hnone : place a = none) (i : ι) :
    a ∉ lists i := by
  rw [h.mem_iff, hnone]
  exact nofun

variable [DecidableEq ι] [DecidableEq α]

section

variable (h : Placed lists place)
include h

omit [DecidableEq ι] in
/-- An element whose record names the same list as before. -/
theorem Placed.stay {p : Option ι} (hp : p = place a) : Placed lists (update place a p) := by
  rw [hp, update_eq_self]
  exact h

omit [DecidableEq ι] in
/-- A placed element is in its list exactly once. -/
theorem Placed.count_eq_one (hplace : place a = some i) : (lists i).count a = 1 :=
  count_eq_one_of_mem (h.nodup i) ((h.mem_iff i a).mpr hplace)

/-- Changing one list to hold one element more. -/
theorem Placed.insert (hnone : place a = none) {list : List α} (hperm : list.Perm (a :: lists i)) :
    Placed (update lists i list) (update place a (some i)) := by
  have hnot := h.not_mem hnone
  refine ⟨?_, ?_⟩
  · refine (forall_update_iff lists fun _ => Nodup).mpr ⟨?_, fun j _ => h.nodup j⟩
    rw [hperm.nodup_iff, nodup_cons]
    exact ⟨hnot i, h.nodup i⟩
  intro j b
  by_cases hj : j = i <;> by_cases hb : b = a
  · simp [hj, hb, hperm.mem_iff]
  · simp [hj, hb, hperm.mem_iff, h.mem_iff]
  · simp [hj, hb, hnot, Ne.symm hj]
  · simp [hj, hb, h.mem_iff]

theorem Placed.cons (hnone : place a = none) :
    Placed (update lists i (a :: lists i)) (update place a (some i)) :=
  h.insert hnone (Perm.refl _)

theorem Placed.append (hnone : place a = none) :
    Placed (update lists i (lists i ++ [a])) (update place a (some i)) :=
  h.insert hnone (perm_append_singleton a (lists i))

/-- Unlinking an element from its list. -/
theorem Placed.erase (hplace : place a = some i) :
    Placed (update lists i ((lists i).erase a)) (update place a none) := by
  refine ⟨?_, ?_⟩
  · exact (forall_update_iff lists fun _ => Nodup).mpr
      ⟨(h.nodup i).erase a, fun j _ => h.nodup j⟩
  intro j b
  by_cases hj : j = i <;> by_cases hb : b = a
  · simp [hj, hb, (h.nodup i).not_mem_erase]
  · simp [hj, hb, h.mem_iff, mem_erase_of_ne]
  · simp [hj, hb, h.mem_iff, hplace, Ne.symm hj]
  · simp [hj, hb, h.mem_iff]

end

end Placement
