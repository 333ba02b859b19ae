import Mathlib.Data.List.Count
import NusaKernel.Kernel.Status
import NusaKernel.Lib.Transition

/-!
# Directory handles of memfs (`lib/fs/memfs/memfs.c`)

A directory handle points to the file that the next `memfs_readdir` returns. As long as no file is
removed that a handle points to, every handle points to a file on the list or to none, and a listing
that has come to its end has returned each file that was there all the time once (`handles_valid`).
`memfs_remove` does not look at the handles: one that points to the file is left with a pointer to
freed memory (`handle_dangles`).

A file is known by a number in place of its address. Left out: what is in the files, a `strdup` or
`malloc` of a handle that fails, and `memfs_unmount`.
-/

namespace NusaKernel.Memfs

open List Transition

/-- `struct dircookie`, with the files that were there when it was opened and those it returned. -/
structure Dircookie where
  nextFile : Option ℕ
  start : List ℕ
  returned : List ℕ
deriving DecidableEq

/-- `memfs_t`, with the names of the files. A handle that was closed is `none`. -/
structure State where
  files : List ℕ
  names : ℕ → List UInt8
  dcookies : List (Option Dircookie)
  fresh : ℕ

def State.initial : State := ⟨[], fun _ => [], [], 0⟩

variable (s : State) (name : List UInt8)

/-- `trim_name`: leading spaces, then leading slashes are skipped. -/
def trimName : List UInt8 := (name.dropWhile (· = 0x20)).dropWhile (· = 0x2f)

/-- `find_file`. -/
def findFile : Option ℕ := s.files.find? (s.names · = name)

/-- `memfs_create`, where the memory for the file is there or not. -/
def memfsCreate (memory : Bool) : Status × State :=
  let name := trimName name
  if 0x2f ∈ name then (errNotSupported, s)
  else if (findFile s name).isSome then (errAlreadyExists, s)
  else if !memory then (errNoMemory, s)
  else (noError, { s with
    files := s.files ++ [s.fresh]
    names := Function.update s.names s.fresh name
    fresh := s.fresh + 1 })

/-- `memfs_remove`. -/
def memfsRemove : Status × State :=
  match findFile s (trimName name) with
  | none => (errNotFound, s)
  | some file => (noError, { s with files := s.files.erase file })

/-- `memfs_opendir` of the root directory. -/
def memfsOpendir : State :=
  { s with dcookies := s.dcookies ++ [some ⟨s.files.head?, s.files, []⟩] }

/-- `memfs_readdir`. -/
def memfsReaddir (dir : Dircookie) : Status × Dircookie :=
  match dir.nextFile with
  | none => (errNotFound, dir)
  | some f => (noError, ⟨s.files[s.files.idxOf f + 1]?, dir.start, dir.returned ++ [f]⟩)

inductive Action where
  | create (name : List UInt8) (memory : Bool)
  | remove (name : List UInt8)
  | opendir
  | readdir (d : ℕ)
  | closedir (d : ℕ)

/-- One call. -/
def State.step : Action → Option State
  | .create name memory => some (memfsCreate s name memory).2
  | .remove name => some (memfsRemove s name).2
  | .opendir => some (memfsOpendir s)
  | .readdir d => s.dcookies[d]?.join.map fun dir =>
      { s with dcookies := s.dcookies.set d (some (memfsReaddir s dir).2) }
  | .closedir d => s.dcookies[d]?.join.map fun _ => { s with dcookies := s.dcookies.set d none }

/-- No file is removed that an open handle points to. -/
def NotNext : Action → Prop
  | .remove name => ∀ file ∈ findFile s (trimName name), ∀ handle ∈ s.dcookies, ∀ dir ∈ handle,
      dir.nextFile ≠ some file
  | _ => True

/-- `NotNext` can be checked along a run. -/
instance (action : Action) : Decidable (NotNext s action) := by
  unfold NotNext
  split <;> infer_instance

/-! ## What a handle has returned -/

/-- The handle points between the files that it has passed and those to come, and knows no file that
is still to be created. -/
structure Dircookie.Sound (dir : Dircookie) (ids : List ℕ) (fresh : ℕ) : Prop where
  split : ∃ passed rest, ids = passed ++ rest ∧ dir.nextFile = rest.head? ∧
    (∀ f ∈ passed, f ∈ dir.start → dir.returned.count f = 1) ∧ ∀ f ∈ rest, f ∉ dir.returned
  known : ∀ f ∈ dir.start ++ dir.returned, f < fresh

structure Inv : Prop where
  nodup : s.files.Nodup
  files_lt : ∀ f ∈ s.files, f < s.fresh
  sound : ∀ dir, some dir ∈ s.dcookies → dir.Sound s.files s.fresh

variable {s name} {dir : Dircookie} {ids : List ℕ} {f fresh : ℕ}

theorem Dircookie.Sound.create (h : dir.Sound ids fresh) :
    dir.Sound (ids ++ [fresh]) (fresh + 1) := by
  have hnew : fresh ∉ dir.start ++ dir.returned := fun hmem => (h.known _ hmem).false
  rw [mem_append, not_or] at hnew
  refine ⟨?_, fun f hf => Nat.lt_succ_of_lt (h.known f hf)⟩
  obtain ⟨passed, rest, rfl, hnext, hpassed, hrest⟩ := h.split
  cases rest with
  | nil =>
    refine ⟨passed ++ [fresh], [], by simp, hnext, ?_, hrest⟩
    exact forall_mem_append.mpr ⟨hpassed, forall_mem_singleton.mpr (absurd · hnew.1)⟩
  | cons g rest =>
    refine ⟨passed, g :: rest ++ [fresh], append_assoc .., hnext, hpassed, ?_⟩
    exact forall_mem_append.mpr ⟨hrest, forall_mem_singleton.mpr hnew.2⟩

theorem Dircookie.Sound.remove (h : dir.Sound ids fresh) (hnot : dir.nextFile ≠ some f) :
    dir.Sound (ids.erase f) fresh := by
  refine ⟨?_, h.known⟩
  obtain ⟨passed, rest, rfl, hnext, hpassed, hrest⟩ := h.split
  by_cases hf : f ∈ passed
  · exact ⟨passed.erase f, rest, erase_append_left _ hf, hnext,
      fun g hg => hpassed g (mem_of_mem_erase hg), hrest⟩
  refine ⟨passed, rest.erase f, erase_append_right _ hf, hnext.trans ?_, hpassed,
    fun g hg => hrest g (mem_of_mem_erase hg)⟩
  cases rest with
  | nil => rfl
  | cons g rest =>
    have hne : g ≠ f := fun heq => hnot (hnext.trans (congrArg some heq))
    rw [erase_cons_tail (by simpa using hne)]
    rfl

theorem Inv.readdir (h : Inv s) (hdir : some dir ∈ s.dcookies) :
    (memfsReaddir s dir).2.Sound s.files s.fresh := by
  obtain ⟨⟨passed, rest, hids, hnext, hpassed, hrest⟩, hknown⟩ := h.sound dir hdir
  have hnodup := h.nodup
  have hlt := h.files_lt
  unfold memfsReaddir
  rw [hids] at hnodup hlt ⊢
  cases rest with
  | nil =>
    rw [hnext]
    exact ⟨⟨passed, [], rfl, hnext, hpassed, hrest⟩, hknown⟩
  | cons f rest =>
    obtain ⟨-, htail, hdisjoint⟩ := nodup_append.mp hnodup
    have hf : f ∉ passed := fun hmem => hdisjoint f hmem f mem_cons_self rfl
    have hfrest := (nodup_cons.mp htail).1
    rw [hnext]
    refine ⟨⟨passed ++ [f], rest, append_cons .., ?_, fun g hg hstart => ?_, fun g hg => ?_⟩, ?_⟩
    · show (passed ++ f :: rest)[(passed ++ f :: rest).idxOf f + 1]? = _
      rw [idxOf_append_of_notMem hf, idxOf_cons_self, Nat.add_zero,
        getElem?_append_right (Nat.le_add_right ..), Nat.add_sub_cancel_left, head?_eq_getElem?]
      rfl
    · show (dir.returned ++ [f]).count g = 1
      rw [count_append]
      rcases mem_append.mp hg with hg | hg
      · rw [hpassed g hg hstart, count_singleton, if_neg]
        rintro heq
        exact hf (of_decide_eq_true heq ▸ hg)
      · rw [mem_singleton.mp hg, count_eq_zero.mpr (hrest f mem_cons_self), count_singleton_self]
    · intro hmem
      rcases mem_append.mp hmem with hmem | hmem
      · exact hrest g (mem_cons_of_mem f hg) hmem
      · exact hfrest (mem_singleton.mp hmem ▸ hg)
    · show ∀ g ∈ dir.start ++ (dir.returned ++ [f]), g < s.fresh
      rw [← append_assoc, forall_mem_append, forall_mem_singleton]
      exact ⟨hknown, hlt f (mem_append_right _ mem_cons_self)⟩

/-- A handle is replaced. -/
theorem Inv.set (h : Inv s) (d : ℕ) {new : Option Dircookie}
    (hsound : ∀ dir ∈ new, dir.Sound s.files s.fresh) :
    Inv { s with dcookies := s.dcookies.set d new } := by
  refine ⟨h.nodup, h.files_lt, fun dir hdir => ?_⟩
  rcases mem_or_eq_of_mem_set hdir with hdir | hdir
  · exact h.sound dir hdir
  · exact hsound dir hdir.symm

theorem Inv.step {action : Action} {s' : State} (h : Inv s) (hguard : NotNext s action)
    (hstep : s.step action = some s') : Inv s' := by
  cases action with
  | create name memory =>
    cases hstep
    unfold memfsCreate
    dsimp only
    split_ifs
    · exact h
    · exact h
    · exact h
    refine ⟨concat_eq_append ▸ h.nodup.concat fun hmem => (h.files_lt _ hmem).false, ?_,
      fun dir hdir => (h.sound dir hdir).create⟩
    exact forall_mem_append.mpr ⟨fun f hf => Nat.lt_succ_of_lt (h.files_lt f hf),
      forall_mem_singleton.mpr (Nat.lt_succ_self _)⟩
  | remove name =>
    cases hstep
    unfold memfsRemove
    cases hfind : findFile s (trimName name) with
    | none => exact h
    | some file =>
      exact ⟨h.nodup.erase file, fun f hf => h.files_lt f (mem_of_mem_erase hf),
        fun dir hdir => (h.sound dir hdir).remove (hguard file hfind _ hdir dir rfl)⟩
  | opendir =>
    cases hstep
    refine ⟨h.nodup, h.files_lt, fun dir hdir => ?_⟩
    rcases mem_append.mp hdir with hdir | hdir
    · exact h.sound dir hdir
    · cases mem_singleton.mp hdir
      exact ⟨⟨[], s.files, rfl, rfl, (fun _ hf => nomatch hf), fun _ _ => not_mem_nil⟩,
        fun f hf => h.files_lt f (append_nil s.files ▸ hf)⟩
  | readdir d =>
    obtain ⟨dir, hdir, rfl⟩ := Option.map_eq_some_iff.mp hstep
    refine h.set d fun _ hnew => ?_
    cases hnew
    exact h.readdir (mem_of_getElem? (Option.join_eq_some_iff.mp hdir))
  | closedir d =>
    obtain ⟨dir, -, rfl⟩ := Option.map_eq_some_iff.mp hstep
    exact h.set d fun _ hnew => nomatch hnew

/-- Every handle points to a file on the list or to none, and one at its end has returned each file
that was there all the time once. -/
theorem handles_valid (h : Reachable State.step NotNext (· = State.initial) s)
    (hdir : some dir ∈ s.dcookies) :
    (∀ f ∈ dir.nextFile, f ∈ s.files) ∧
      (dir.nextFile = none → ∀ f ∈ dir.start, f ∈ s.files → dir.returned.count f = 1) := by
  have hinit : Inv State.initial :=
    ⟨nodup_nil, (fun _ hf => nomatch hf), fun _ hdir => nomatch hdir⟩
  have hinv := h.invariant_from hinit Inv.step
  obtain ⟨passed, rest, hfiles, hnext, hpassed, -⟩ := (hinv.sound dir hdir).split
  rw [hfiles]
  refine ⟨fun f hf => mem_append_right _ (mem_of_mem_head? (hnext ▸ hf)), fun hnone f hf hmem => ?_⟩
  rw [head?_eq_none_iff.mp (hnext.symm.trans hnone), append_nil] at hmem
  exact hpassed f hmem hf

/-- The first of two files is removed after it was returned, and another is created. -/
theorem handles_valid_three : ∃ s dir, Reachable State.step NotNext (· = State.initial) s ∧
    some dir ∈ s.dcookies ∧ dir.nextFile = none ∧ dir.returned = [0, 1, 2] ∧
    dir.returned.count 1 = 1 := by
  obtain ⟨s, hreach, hdirs, hfiles⟩ := exists_reachable State.step NotNext State.initial
    (P := fun s => s.dcookies = [some ⟨none, [0, 1], [0, 1, 2]⟩] ∧ s.files = [1, 2])
    [.create [1] true, .create [2] true, .opendir, .readdir 0, .remove [1], .create [3] true,
      .readdir 0, .readdir 0] (by decide) (by decide)
  have hdir : some ⟨none, [0, 1], [0, 1, 2]⟩ ∈ s.dcookies := hdirs ▸ mem_singleton_self _
  exact ⟨s, _, hreach, hdir, rfl, rfl,
    (handles_valid hreach hdir).2 rfl 1 (by decide) (hfiles ▸ by decide)⟩

/-- The file that a handle points to is removed. -/
theorem handle_dangles : ∃ s dir, Reachable State.step Always (· = State.initial) s ∧
    some dir ∈ s.dcookies ∧ dir.nextFile = some 0 ∧ s.files = [] := by
  obtain ⟨s, hreach, hdirs, hfiles⟩ := exists_reachable State.step Always State.initial
    (P := fun s => s.dcookies = [some ⟨some 0, [0], []⟩] ∧ s.files = [])
    [.create [1] true, .opendir, .remove [1]] (admits_always _ _) (by decide)
  exact ⟨s, _, hreach, hdirs ▸ mem_singleton_self _, rfl, hfiles⟩

end NusaKernel.Memfs
