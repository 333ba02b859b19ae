import NusaKernel.Fs.Lookup

/-!
# The life of a mount (`lib/fs/fs.c`)

The count of a mount stands for its place in the list and for the open handles on it. The place in
the list is given up by `fs_unmount`, a handle by its close call; the last of them runs the unmount
hook. `mount_lifetime` says that the hook of every file system that was mounted has run exactly when
its mount is gone, once, with no handle left, and that the layer has as many references to each
block device as there are mounts on it.

Nothing in the code tells the references apart. A second `fs_unmount` while a handle is open takes
the reference of the handle, and the unmount hook runs under it; `fs_format_device` never closes
the device; and a file system whose mount cannot be allocated stays mounted for good
(`mount_lifetime_broken`).
-/

namespace NusaKernel.Fs

open List

/-- The mounts that there are. -/
def State.ids (s : State) : List ℕ := s.mounts.map Mount.id

/-- The open handles on a mount. -/
def State.openOn (s : State) (id : ℕ) : ℕ := s.handles.countP fun h => h.mount = id

/-- The mounts on a device. -/
def State.mountsOn (s : State) (dev : List UInt8) : ℕ := s.mounts.countP fun m => m.dev = some dev

/-- The invariant of the layer. -/
structure State.Sound (s : State) : Prop where
  nodup : s.ids.Nodup
  lt_next : ∀ id ∈ s.ids, id < s.next
  ref_pos : ∀ m ∈ s.mounts, 1 ≤ m.ref
  ref_eq : ∀ m ∈ s.mounts, m.ref = s.openOn m.id ∨ m.ref = s.openOn m.id + 1
  held : ∀ h ∈ s.handles, h.mount ∈ s.ids
  unmounts : ∀ id, s.unmounts id = if id < s.next ∧ id ∉ s.ids then 1 else 0
  devs : ∀ dev, s.devRefs dev = s.mountsOn dev

variable {s s' : State} {m : Mount} {n : ℤ}

/-! ## The parts of a call -/

@[simp] theorem ids_add_ref (s : State) (id : ℕ) (n : ℤ) : (s.addRef id n).ids = s.ids := by
  show (s.mounts.map _).map Mount.id = s.mounts.map Mount.id
  rw [List.map_map]
  refine map_congr_left fun m _ => ?_
  show Mount.id (if m.id = id then _ else m) = m.id
  split <;> rfl

@[simp] theorem mounts_on_add_ref (s : State) (id : ℕ) (n : ℤ) (dev : List UInt8) :
    (s.addRef id n).mountsOn dev = s.mountsOn dev := by
  show (s.mounts.map _).countP _ = s.mounts.countP _
  rw [countP_map]
  refine countP_congr fun m _ => ?_
  show decide (Mount.dev (if m.id = id then _ else m) = some dev) = true ↔ _
  split <;> rfl

theorem add_ref_add_ref (s : State) (id : ℕ) (n k : ℤ) :
    (s.addRef id n).addRef id k = s.addRef id (n + k) := by
  unfold State.addRef
  rw [List.map_map]
  congr 1
  refine map_congr_left fun m _ => ?_
  by_cases h : m.id = id <;> simp [h, add_assoc]

theorem add_ref_zero (s : State) (id : ℕ) : s.addRef id 0 = s := by
  unfold State.addRef
  simp

theorem bio_close_bio_open (s : State) (dev : Option (List UInt8)) :
    (s.bioOpen dev).bioClose dev = s := by
  cases dev with
  | none => rfl
  | some dev => simp [State.bioOpen, State.bioClose]

theorem find_of_mem (hids : s.ids.Nodup) (hm : m ∈ s.mounts) :
    (s.mounts.find? fun m' => m'.id = m.id) = some m := by
  obtain ⟨m', hm'⟩ : ∃ m', (s.mounts.find? fun m' => m'.id = m.id) = some m' := by
    rw [← Option.isSome_iff_exists, find?_isSome]
    exact ⟨m, hm, by simp⟩
  have hid : m'.id = m.id := by simpa using find?_some hm'
  rw [hm', inj_on_of_nodup_map hids (mem_of_find?_eq_some hm') hm hid]

/-- The others are unchanged when a mount goes. -/
theorem filter_add_ref (s : State) (id : ℕ) (n : ℤ) :
    ((s.addRef id n).mounts.filter fun m => m.id ≠ id) = s.mounts.filter fun m => m.id ≠ id := by
  show (s.mounts.map _).filter _ = _
  induction s.mounts with
  | nil => rfl
  | cons m mounts ih =>
    rw [map_cons]
    by_cases hid : m.id = id
    · rw [if_pos hid, filter_cons_of_neg (by simp [hid]), filter_cons_of_neg (by simp [hid]), ih]
    · rw [if_neg hid, filter_cons_of_pos (by simp [hid]), filter_cons_of_pos (by simp [hid]), ih]

theorem find_add_ref (hids : s.ids.Nodup) (hm : m ∈ s.mounts) (n : ℤ) :
    ((s.addRef m.id n).mounts.find? fun m' => m'.id = m.id) = some { m with ref := m.ref + n } := by
  refine find_of_mem (m := { m with ref := m.ref + n }) ?_ ?_
  · rwa [ids_add_ref]
  · exact List.mem_map.mpr ⟨m, hm, if_pos rfl⟩

theorem put_mount_shared (hids : s.ids.Nodup) (hm : m ∈ s.mounts) (href : m.ref ≠ 1) :
    putMount s m.id = s.addRef m.id (-1) := by
  unfold putMount
  dsimp only
  rw [find_add_ref hids hm]
  exact if_neg (show m.ref + -1 ≠ 0 by omega)

theorem put_mount_last (hids : s.ids.Nodup) (hm : m ∈ s.mounts) (href : m.ref = 1) :
    putMount s m.id = s.release m := by
  unfold putMount
  dsimp only
  rw [find_add_ref hids hm]
  dsimp only
  rw [if_pos (show m.ref + -1 = 0 by omega)]
  unfold State.release
  rw [filter_add_ref]
  rfl

/-- A lookup that puts the mount back changes nothing. -/
theorem put_get_mount (hids : s.ids.Nodup) (hm : m ∈ s.mounts) (href : 1 ≤ m.ref) :
    putMount (s.getMount m.id) m.id = s := by
  have hget : { m with ref := m.ref + 1 } ∈ (s.getMount m.id).mounts :=
    List.mem_map.mpr ⟨m, hm, if_pos rfl⟩
  have hput := put_mount_shared (s := s.getMount m.id) (by rwa [State.getMount, ids_add_ref]) hget
    (show m.ref + 1 ≠ 1 by omega)
  rw [State.getMount, add_ref_add_ref, add_neg_cancel, add_ref_zero] at hput
  exact hput

/-- What is counted in a list is counted without one of its members. -/
theorem countP_filter_ne (p : Mount → Bool) {mounts : List Mount}
    (hids : (mounts.map Mount.id).Nodup) (hm : m ∈ mounts) :
    (mounts.filter fun m' => m'.id ≠ m.id).countP p + (if p m then 1 else 0) = mounts.countP p := by
  induction mounts with
  | nil => exact absurd hm not_mem_nil
  | cons a mounts ih =>
    obtain ⟨ha, hids⟩ := nodup_cons.mp hids
    rw [countP_cons]
    rcases mem_cons.mp hm with rfl | hm
    · have hall : (mounts.filter fun m' => m'.id ≠ m.id) = mounts := by
        refine filter_eq_self.mpr fun m' hm' => ?_
        exact decide_eq_true fun hid => ha (hid ▸ List.mem_map_of_mem hm')
      rw [filter_cons_of_neg (by simp), hall]
    · have hne : a.id ≠ m.id := fun hid => ha (hid ▸ List.mem_map_of_mem hm)
      rw [filter_cons_of_pos (by simp [hne]), countP_cons, ← ih hids hm]
      omega

/-! ## The invariant -/

theorem openOn_erase {h : Handle} (hh : h ∈ s.handles) (id : ℕ) :
    State.openOn { s with handles := s.handles.erase h } id + (if h.mount = id then 1 else 0) =
      s.openOn id := by
  have hperm := (perm_cons_erase hh).countP_eq fun h' => decide (h'.mount = id)
  rw [countP_cons] at hperm
  simpa [State.openOn] using hperm.symm

/-- The count of a mount and the handles on it change together. -/
theorem State.Sound.addRef (h : s.Sound) (hm : m ∈ s.mounts) (handles : List Handle)
    (hpos : 1 ≤ m.ref + n)
    (heq : m.ref + n = (handles.countP fun h => h.mount = m.id) ∨
      m.ref + n = (handles.countP fun h => h.mount = m.id) + 1)
    (hothers : ∀ id ≠ m.id, (handles.countP fun h => h.mount = id) = s.openOn id)
    (hheld : ∀ h ∈ handles, h ∈ s.handles ∨ h.mount = m.id) :
    State.Sound { s.addRef m.id n with handles := handles } := by
  have hids : State.ids { s.addRef m.id n with handles := handles } = s.ids := ids_add_ref s m.id n
  have hmounts : ∀ m' ∈ (s.addRef m.id n).mounts,
      m' = { m with ref := m.ref + n } ∨ m' ∈ s.mounts ∧ m'.id ≠ m.id := by
    intro m' hm'
    obtain ⟨m'', hm'', rfl⟩ := List.mem_map.mp hm'
    split
    next hid =>
      obtain rfl := inj_on_of_nodup_map h.nodup hm'' hm hid
      exact .inl rfl
    next hid => exact .inr ⟨hm'', hid⟩
  refine ⟨hids ▸ h.nodup, hids ▸ h.lt_next, ?_, ?_, ?_, ?_, ?_⟩
  · intro m' hm'
    rcases hmounts m' hm' with rfl | ⟨hmem, -⟩
    · exact hpos
    · exact h.ref_pos m' hmem
  · intro m' hm'
    rcases hmounts m' hm' with rfl | ⟨hmem, hid⟩
    · exact heq
    · rw [State.openOn, hothers _ hid]
      exact h.ref_eq m' hmem
  · intro h' hh'
    rw [hids]
    rcases hheld h' hh' with hmem | hid
    · exact h.held h' hmem
    · exact hid ▸ List.mem_map_of_mem hm
  · intro id
    rw [hids]
    exact h.unmounts id
  · intro dev
    exact (h.devs dev).trans (by rw [← mounts_on_add_ref s m.id n dev]; rfl)

section

variable (s) (dev : Option (List UInt8))

theorem handles_bio_close : (s.bioClose dev).handles = s.handles := by
  cases dev <;> rfl

theorem handles_put_mount (id : ℕ) : (putMount s id).handles = s.handles := by
  unfold putMount
  dsimp only
  split
  · rfl
  · split
    · exact handles_bio_close ..
    · rfl

@[simp] theorem mounts_bio_close : (s.bioClose dev).mounts = s.mounts := by
  cases dev <;> rfl

@[simp] theorem next_bio_close : (s.bioClose dev).next = s.next := by
  cases dev <;> rfl

@[simp] theorem unmounts_bio_close : (s.bioClose dev).unmounts = s.unmounts := by
  cases dev <;> rfl

@[simp] theorem unmounts_bio_open : (s.bioOpen dev).unmounts = s.unmounts := by
  cases dev <;> rfl

@[simp] theorem handles_bio_open : (s.bioOpen dev).handles = s.handles := by
  cases dev <;> rfl

theorem dev_refs_bio_open (opened : Option (List UInt8)) (dev : List UInt8) :
    (s.bioOpen opened).devRefs dev = s.devRefs dev + if opened = some dev then 1 else 0 := by
  cases opened with
  | none => simp [State.bioOpen]
  | some d =>
    by_cases h : d = dev
    · simp [State.bioOpen, h]
    · simp [State.bioOpen, h, Ne.symm h]

theorem dev_refs_bio_close (closed : Option (List UInt8)) (dev : List UInt8) :
    (s.bioClose closed).devRefs dev = s.devRefs dev - if closed = some dev then 1 else 0 := by
  cases closed with
  | none => simp [State.bioClose]
  | some d =>
    by_cases h : d = dev
    · simp [State.bioClose, h]
    · simp [State.bioClose, h, Ne.symm h]

end

/-- A mount goes when its last reference does. -/
theorem State.Sound.release (h : s.Sound) (hm : m ∈ s.mounts) (handles : List Handle)
    (hothers : ∀ id ≠ m.id, (handles.countP fun h => h.mount = id) = s.openOn id)
    (hheld : ∀ h ∈ handles, h ∈ s.handles ∧ h.mount ≠ m.id) :
    State.Sound { s.release m with handles := handles } := by
  have hmounts : (s.release m).mounts = s.mounts.filter fun m' => m'.id ≠ m.id :=
    mounts_bio_close ..
  have hids : State.ids { s.release m with handles := handles } = s.ids.filter (· ≠ m.id) := by
    show (s.release m).mounts.map Mount.id = _
    rw [hmounts, State.ids, List.filter_map]
    rfl
  have hmem : ∀ id, id ∈ State.ids { s.release m with handles := handles } ↔
      id ∈ s.ids ∧ id ≠ m.id := by
    rw [hids]
    simp
  have hmem' : ∀ m' ∈ (s.release m).mounts, m' ∈ s.mounts ∧ m'.id ≠ m.id := by
    intro m' hm'
    rw [hmounts] at hm'
    simpa using hm'
  have hnext : (s.release m).next = s.next := next_bio_close ..
  have hlive : m.id ∈ s.ids := List.mem_map_of_mem hm
  refine ⟨?_, ?_, ?_, ?_, ?_, ?_, ?_⟩
  · exact hids ▸ h.nodup.filter _
  · intro id hid
    rw [hnext]
    exact h.lt_next id ((hmem id).mp hid).1
  · exact fun m' hm' => h.ref_pos m' (hmem' m' hm').1
  · intro m' hm'
    rw [State.openOn, hothers _ (hmem' m' hm').2]
    exact h.ref_eq m' (hmem' m' hm').1
  · intro h' hh'
    exact (hmem _).mpr ⟨h.held h' (hheld h' hh').1, (hheld h' hh').2⟩
  · intro id
    have hunmounts : (s.release m).unmounts =
        Function.update s.unmounts m.id (s.unmounts m.id + 1) := unmounts_bio_close ..
    rw [hunmounts, hnext]
    by_cases hid : id = m.id
    · subst hid
      simp [hmem, h.unmounts m.id, hlive, h.lt_next _ hlive]
    · rw [Function.update_of_ne hid, h.unmounts id]
      simp [hmem, hid]
  · intro dev
    have hcount := countP_filter_ne (fun m' => decide (m'.dev = some dev)) h.nodup hm
    have hdevs := h.devs dev
    show (s.release m).devRefs dev = ((s.release m).mounts.countP _ : ℕ)
    rw [hmounts, State.release, dev_refs_bio_close]
    rw [hdevs, State.mountsOn, ← hcount]
    by_cases hd : m.dev = some dev <;> simp [hd]

/-! ## Runs -/

/-- A file system is unmounted only while it has its place in the list, `fs_format_device` is called
without a device, and the allocations of `mount` and `fs_open_file` succeed. -/
def Orderly (s : State) : Call → Prop
  | .mount _ _ _ env => env.malloc = true ∧ env.strdup = true
  | .openFile _ _ malloc => malloc = true
  | .unmount path => ∀ x ∈ findMount s (normalized path), s.openOn x.1.id < x.1.ref
  | .formatDevice _ device _ _ => deviceOf device = none
  | _ => True

/-- `Orderly` can be checked along a run. -/
instance (s : State) (c : Call) : Decidable (Orderly s c) := by
  cases c <;> unfold Orderly <;> infer_instance

variable {fses : List FsImpl} {c : Call}

theorem State.Sound.mount (h : s.Sound) (path : List UInt8) (dev : Option (List UInt8))
    (fs : FsImpl) :
    State.Sound { s.bioOpen dev with
      next := s.next + 1
      mounts := ⟨s.next, path, dev, 1, fs⟩ :: s.mounts } := by
  have hfresh : s.next ∉ s.ids := fun hmem => (h.lt_next _ hmem).false
  have hids : State.ids { s.bioOpen dev with
      next := s.next + 1, mounts := ⟨s.next, path, dev, 1, fs⟩ :: s.mounts } =
        s.next :: s.ids := rfl
  have hnone : s.openOn s.next = 0 := by
    refine countP_eq_zero.mpr fun h' hh' => ?_
    simp only [decide_eq_true_eq]
    exact fun hid => hfresh (hid ▸ h.held h' hh')
  have hopen : ∀ id, State.openOn { s.bioOpen dev with
      next := s.next + 1, mounts := ⟨s.next, path, dev, 1, fs⟩ :: s.mounts } id = s.openOn id := by
    simp [State.openOn]
  refine ⟨?_, ?_, ?_, ?_, ?_, ?_, ?_⟩
  · exact nodup_cons.mpr ⟨hfresh, h.nodup⟩
  · rw [hids, forall_mem_cons]
    exact ⟨Nat.lt_succ_self _, fun id hid => Nat.lt_succ_of_lt (h.lt_next id hid)⟩
  · exact forall_mem_cons.mpr ⟨le_rfl, h.ref_pos⟩
  · refine forall_mem_cons.mpr ⟨.inr ?_, fun m hm => ?_⟩
    · rw [hopen, hnone]
      rfl
    · rw [hopen]
      exact h.ref_eq m hm
  · intro h' hh'
    rw [handles_bio_open] at hh'
    exact mem_cons_of_mem _ (h.held h' hh')
  · intro id
    rw [hids, unmounts_bio_open, h.unmounts id]
    by_cases hid : id = s.next
    · simp [hid]
    · simp only [mem_cons, hid, false_or]
      congr 2
      simp only [eq_iff_iff]
      omega
  · intro dev'
    rw [dev_refs_bio_open, h.devs dev']
    by_cases hdev : dev = some dev' <;> simp [State.mountsOn, hdev]

/-- Giving a reference back, together with what it stood for. -/
theorem State.Sound.put (h : s.Sound) (hm : m ∈ s.mounts) (handles : List Handle)
    (heq : m.ref - 1 = (handles.countP fun h => h.mount = m.id) ∨
      m.ref - 1 = (handles.countP fun h => h.mount = m.id) + 1)
    (hothers : ∀ id ≠ m.id, (handles.countP fun h => h.mount = id) = s.openOn id)
    (hheld : ∀ h ∈ handles, h ∈ s.handles) :
    State.Sound { putMount s m.id with handles := handles } := by
  by_cases href : m.ref = 1
  · rw [put_mount_last h.nodup hm href]
    refine h.release hm handles hothers fun h' hh' => ⟨hheld h' hh', fun hid => ?_⟩
    have hcount : 0 < handles.countP fun h => h.mount = m.id :=
      countP_pos_iff.mpr ⟨h', hh', by simp [hid]⟩
    omega
  · rw [put_mount_shared h.nodup hm href]
    exact h.addRef hm handles (by omega) (by simpa [sub_eq_add_neg] using heq) hothers
      fun h' hh' => .inl (hheld h' hh')

theorem State.Sound.step (h : s.Sound) (hguard : Orderly s c) (hstep : s.step fses c = some s') :
    s'.Sound := by
  cases moves_of_step hstep with
  | idle => exact h
  | lookup _ hm =>
    rw [put_get_mount h.nodup hm (h.ref_pos _ hm)]
    exact h
  | device =>
    rw [bio_close_bio_open]
    exact h
  | forget hmemory =>
    rcases hmemory with hmemory | hmemory
    · exact absurd hguard.1 (by simp [hmemory])
    · exact absurd hguard.2 (by simp [hmemory])
  | mount => exact h.mount ..
  | @unmount path found m hfind =>
    have hm := mem_of_find_mount hfind
    rw [put_get_mount h.nodup hm (h.ref_pos _ hm)]
    have hlt := hguard _ hfind
    have heq := h.ref_eq m hm
    have hput := h.put hm s.handles (.inl ?_) (fun _ _ => rfl) fun _ hh => hh
    · rwa [← handles_put_mount s m.id] at hput
    · show m.ref - 1 = s.openOn m.id
      dsimp only at hlt
      omega
  | format =>
    rw [show deviceOf _ = none from hguard]
    exact h
  | @openHandle _ m hm dir =>
    have heq := h.ref_eq m hm
    refine h.addRef hm _ (by omega) ?_ (fun id hid => ?_) fun h' hh' => ?_
    · rw [countP_cons_of_pos (by simp)]
      show m.ref + 1 = (s.openOn m.id + 1 : ℕ) ∨ m.ref + 1 = (s.openOn m.id + 1 : ℕ) + 1
      omega
    · rw [countP_cons_of_neg (by simp [hid.symm])]
      rfl
    · rcases mem_cons.mp hh' with rfl | hh'
      · exact .inr rfl
      · exact .inl hh'
  | @closeHandle _ m h' hm hh hid =>
    have heq := h.ref_eq m hm
    have hcount := fun id => openOn_erase hh id
    rw [handles_put_mount]
    refine h.put hm _ ?_ (fun id hne => ?_) fun _ hmem => mem_of_mem_erase hmem
    · have hself := hcount m.id
      rw [if_pos hid] at hself
      show m.ref - 1 = State.openOn { s with handles := s.handles.erase h' } m.id ∨
        m.ref - 1 = State.openOn { s with handles := s.handles.erase h' } m.id + 1
      omega
    · have hother := hcount id
      rwa [if_neg (fun hmount => hne (hmount.symm.trans hid)), Nat.add_zero] at hother

/-- The states reached from the boot on by calls in order. -/
def State.Kept (fses : List FsImpl) : State → Prop :=
  Transition.Reachable (State.step fses) Orderly (· = State.initial)

theorem State.Kept.sound (h : s.Kept fses) : s.Sound := by
  refine Transition.Reachable.invariant_from (P := State.Sound) ?_ State.Sound.step h
  have hnone {α : Type} {P : α → Prop} : ∀ x ∈ [], P x := fun _ h => absurd h not_mem_nil
  exact ⟨nodup_nil, hnone, hnone, hnone, hnone,
    fun id => (if_neg fun h => absurd h.1 (Nat.not_lt_zero id)).symm, fun _ => rfl⟩

/-- The unmount hook of a file system that was mounted has run once if its mount is gone and has not
run otherwise, the mount of an open handle is there, and the layer has as many references to a
block device as there are mounts on it. -/
theorem mount_lifetime (h : s.Kept fses) :
    (∀ id < s.next, s.unmounts id = if id ∈ s.ids then 0 else 1) ∧
      (∀ handle ∈ s.handles, handle.mount ∈ s.ids ∧ s.unmounts handle.mount = 0) ∧
      ∀ dev, s.devRefs dev = s.mountsOn dev := by
  have hsound := h.sound
  refine ⟨fun id hid => ?_, fun handle hhandle => ?_, hsound.devs⟩
  · rw [hsound.unmounts id]
    by_cases hmem : id ∈ s.ids <;> simp [hmem, hid]
  · have hmem := hsound.held handle hhandle
    refine ⟨hmem, ?_⟩
    rw [hsound.unmounts]
    exact if_neg fun h => h.2 hmem

/-- A file system with all hooks, called `"g"`, and a device called `"d"`. -/
def fullFs : FsImpl := ⟨[0x67], fun _ => true⟩

def deviceD : List UInt8 := [0x64]

/-- `fs_mount` of that file system on the device. -/
def mountFull (path : List UInt8) (malloc : Bool) : Call :=
  .mount path [0x67] (some deviceD) ⟨true, noError, malloc, true⟩

/-- Two file systems are mounted and unmounted, one with a file open on it. -/
theorem mount_lifetime_held : ∃ s : State, s.Kept [fullFs] ∧
    (s.next = 2 ∧ s.ids = [0] ∧ s.handles = [⟨0, false⟩]) ∧
    (∀ id < s.next, s.unmounts id = if id ∈ s.ids then 0 else 1) ∧
    (∀ handle ∈ s.handles, handle.mount ∈ s.ids ∧ s.unmounts handle.mount = 0) ∧
    ∀ dev, s.devRefs dev = s.mountsOn dev := by
  have hinit : State.initial.Kept [fullFs] := .init rfl
  have hrun : ∃ s ∈ Transition.run (State.step [fullFs]) State.initial
      [mountFull pathA true, mountFull pathBC true, .openFile pathABC noError true, .unmount pathA,
        .unmount pathBC], s.next = 2 ∧ s.ids = [0] ∧ s.handles = [⟨0, false⟩] := by
    decide +kernel
  obtain ⟨s, hs, hstate⟩ := hinit.exists_run (by decide +kernel) hrun
  exact ⟨s, hs, hstate, mount_lifetime hs⟩

/-- The unmount hook runs under an open handle when a file system is unmounted twice; a device that
was formatted stays open; a file system that was mounted without memory for its mount stays
mounted. -/
theorem mount_lifetime_broken :
    (∃ s ∈ Transition.run (State.step [fullFs]) State.initial
      [mountFull pathA true, .openFile pathAB noError true, .unmount pathA, .unmount pathA],
      s.handles = [⟨0, false⟩] ∧ s.ids = [] ∧ s.unmounts 0 = 1) ∧
    (∃ s ∈ Transition.run (State.step [fullFs]) State.initial
      [.formatDevice [0x67] (some deviceD) true noError],
      s.devRefs deviceD = 1 ∧ s.mountsOn deviceD = 0) ∧
    ∃ s ∈ Transition.run (State.step [fullFs]) State.initial [mountFull pathA false],
      s.next = 1 ∧ s.ids = [] ∧ s.unmounts 0 = 0 := by
  refine ⟨?_, ?_, ?_⟩
  · decide +kernel
  · decide +kernel
  · decide +kernel

end NusaKernel.Fs
