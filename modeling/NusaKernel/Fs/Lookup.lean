import NusaKernel.Fs.Mount

/-!
# Which mount a path belongs to (`lib/fs/fs.c`)

`find_mount` returns the first mount of the list whose path is a prefix of the one looked up, up to
a slash or the end. As long as no file system is mounted above one that is there, the mount points
are incomparable and at most one of them is a prefix, so that the order of the list plays no role
(`find_mount_innermost`). `mount` only refuses a path that has a mount point above it: with a file
system mounted at `/a/b` another one can be mounted at `/a`, and is then found for the paths below
`/a/b` too (`outer_mount_hides_inner`).
-/

namespace NusaKernel.Fs

open Bool List Option

/-- The path begins with the components of the mount point; the others are `rest`. -/
def Below (point path : List UInt8) (rest : List (List UInt8)) : Prop :=
  ∃ cs, (∀ c ∈ cs ++ rest, Component c) ∧ point = render cs ∧ path = render (cs ++ rest)

/-- The path that a file system is asked for. -/
def relative : List (List UInt8) → List UInt8
  | [] => [slash]
  | rest => render rest

/-- The path of some components, at least one. -/
def IsPath (path : List UInt8) : Prop :=
  ∃ comps, comps ≠ [] ∧ (∀ c ∈ comps, Component c) ∧ path = render comps

variable {point point' path : List UInt8} {rest rest' : List (List UInt8)} {m : Mount}

theorem is_path_normalized (h : (normalized path).head? = some slash) : IsPath (normalized path) :=
  exists_render h

theorem IsPath.head (h : IsPath path) : path.head? = some slash := by
  obtain ⟨comps, hne, -, rfl⟩ := h
  cases comps with
  | nil => exact absurd rfl hne
  | cons c comps => rfl

section

variable (h : Below point path rest)
include h

theorem Below.is_path (hpoint : IsPath point) : IsPath path := by
  obtain ⟨cs, hcs, rfl, rfl⟩ := h
  refine ⟨cs ++ rest, ?_, hcs, rfl⟩
  rintro hnil
  obtain ⟨rfl, -⟩ := append_eq_nil_iff.mp hnil
  cases hpoint.head

/-- The path begins with the mount point, character by character. -/
theorem Below.take_eq : path.take point.length = point := by
  obtain ⟨cs, -, rfl, rfl⟩ := h
  rw [render_append, take_left]

/-- Of two mount points above one path, one is above the other. -/
theorem Below.comparable (h' : Below point' path rest') :
    (∃ between, Below point point' between) ∨ ∃ between, Below point' point between := by
  obtain ⟨cs, hcs, rfl, rfl⟩ := h
  obtain ⟨ds, hds, rfl, heq⟩ := h'
  have heq : cs ++ rest = ds ++ rest' := render_inj hcs hds heq
  have hcs' : ∀ c ∈ cs, Component c := fun c hc => hcs c (mem_append_left _ hc)
  have hds' : ∀ d ∈ ds, Component d := fun d hd => hds d (mem_append_left _ hd)
  rcases prefix_or_prefix_of_prefix ⟨rest, heq⟩ ⟨rest', rfl⟩ with ⟨es, rfl⟩ | ⟨es, rfl⟩
  · exact .inl ⟨es, cs, hds', rfl, rfl⟩
  · exact .inr ⟨es, ds, hcs', rfl, rfl⟩

/-- What is left of a path below a mount point is determined. -/
theorem Below.rest_unique (h' : Below point path rest') : rest = rest' := by
  obtain ⟨cs, hcs, rfl, rfl⟩ := h
  obtain ⟨ds, hds, hpoint, heq⟩ := h'
  obtain rfl := render_inj (fun c hc => hcs c (mem_append_left _ hc))
    (fun d hd => hds d (mem_append_left _ hd)) hpoint
  exact append_cancel_left (render_inj hcs hds heq)

end

/-- Nothing is left exactly at the mount point. -/
theorem Below.eq_of_nil (h : Below point path []) : path = point := by
  obtain ⟨cs, -, rfl, rfl⟩ := h
  rw [append_nil]

/-! ## The test of `find_mount` -/

/-- The test accepts the paths below the mount point. -/
theorem covers_of_below (h : Below m.path path rest) : m.covers path = true := by
  obtain ⟨cs, -, hpoint, hpath⟩ := h
  rw [render_append, ← hpoint] at hpath
  have hnext : path.getD m.path.length 0 = (render rest).getD 0 0 := by
    simp [hpath, getD_eq_getElem?_getD, getElem?_append_right]
  have hend : path.getD m.path.length 0 = slash ∨ path.getD m.path.length 0 = 0 := by
    rw [hnext]
    cases rest with
    | nil => exact .inr rfl
    | cons c rest => exact .inl rfl
  simp only [Mount.covers, and_eq_true, or_eq_true, beq_iff_eq, decide_eq_true_eq]
  refine ⟨⟨?_, ?_⟩, hend⟩
  · simp [hpath]
  · simp [hpath]

/-- The test accepts no other paths, and what it cuts off is the rest. -/
theorem exists_below_of_covers (hpoint : IsPath m.path) (hpath : IsPath path)
    (h : m.covers path = true) :
    ∃ rest, Below m.path path rest ∧ m.trimmed path = relative rest := by
  simp only [Mount.covers, and_eq_true, or_eq_true, beq_iff_eq, decide_eq_true_eq] at h
  obtain ⟨⟨hle, htake⟩, hend⟩ := h
  obtain ⟨cs, -, hcs, hpoint⟩ := hpoint
  obtain ⟨ds, -, hds, hpath⟩ := hpath
  have hsplit : path = m.path ++ path.drop m.path.length := by
    conv_lhs => rw [← take_append_drop m.path.length path, htake]
  have hnext : path.getD m.path.length 0 = (path.drop m.path.length).getD 0 0 := by
    simp [getD_eq_getElem?_getD]
  have hzero : 0 ∉ path := hpath ▸ zero_not_mem_render hds
  rw [hnext] at hend
  unfold Mount.trimmed
  rw [hnext]
  generalize path.drop m.path.length = tail at *
  have hbound : AtBoundary tail := by
    cases tail with
    | nil => exact .inl rfl
    | cons a tail =>
      refine .inr (congrArg some (hend.resolve_right fun ha => hzero ?_))
      rw [hsplit, ← show a = 0 from ha]
      exact mem_append_right _ mem_cons_self
  obtain ⟨es, rfl, rfl⟩ := exists_append_of_render hcs hds hbound
    (by rw [← hpath, ← hpoint, ← hsplit])
  refine ⟨es, ⟨cs, hds, hpoint, hpath⟩, ?_⟩
  cases es with
  | nil => rfl
  | cons e es => rfl

/-! ## Mount points -/

/-- The mount points, newest first. -/
def State.points (s : State) : List (List UInt8) := s.mounts.map Mount.path

/-- Neither of two mount points is above the other. -/
def Incomparable (point point' : List UInt8) : Prop :=
  ∀ rest, ¬ Below point point' rest ∧ ¬ Below point' point rest

/-- Neither path is above the other. -/
instance : Std.Symm Incomparable := ⟨fun _ _ h rest => (h rest).symm⟩

/-- No mount point is above another. -/
structure State.Spread (s : State) : Prop where
  paths : ∀ point ∈ s.points, IsPath point
  incomparable : s.points.Pairwise Incomparable

variable {s s' : State}

theorem State.Spread.sublist (h : s.Spread) (hsub : s'.points.Sublist s.points) : s'.Spread :=
  ⟨fun point hpoint => h.paths point (hsub.subset hpoint), h.incomparable.sublist hsub⟩

theorem points_add_ref (s : State) (id : ℕ) (n : ℤ) : (s.addRef id n).points = s.points := by
  show (s.mounts.map _).map Mount.path = s.mounts.map Mount.path
  rw [List.map_map]
  refine map_congr_left fun m _ => ?_
  show Mount.path (if m.id = id then _ else m) = m.path
  split <;> rfl

theorem points_bio_open (s : State) (dev : Option (List UInt8)) :
    (s.bioOpen dev).points = s.points := by
  cases dev <;> rfl

theorem points_bio_close (s : State) (dev : Option (List UInt8)) :
    (s.bioClose dev).points = s.points := by
  cases dev <;> rfl

theorem points_put_mount (s : State) (id : ℕ) : (putMount s id).points.Sublist s.points := by
  rw [← points_add_ref s id (-1)]
  unfold putMount
  dsimp only
  split
  · exact .refl _
  next m _ =>
    split
    · rw [State.release, points_bio_close]
      exact filter_sublist.map _
    · exact .refl _

theorem points_get_put (s : State) (id : ℕ) :
    (putMount (s.getMount id) id).points.Sublist s.points := by
  have hput := points_put_mount (s.getMount id) id
  rwa [State.getMount, points_add_ref] at hput

/-! ## What is found -/

/-- What `find_mount` returns is a mount point above the path. -/
theorem below_of_find_mount (h : s.Spread) {found : List UInt8} (hpath : IsPath path)
    (hfind : findMount s path = some (m, found)) :
    m ∈ s.mounts ∧ ∃ rest, Below m.path path rest ∧ found = relative rest := by
  rw [findMount, if_pos hpath.head, map_eq_some_iff] at hfind
  obtain ⟨m', hm, heq⟩ := hfind
  cases heq
  have hmem := mem_of_find?_eq_some hm
  have hpoint := h.paths m.path (List.mem_map_of_mem hmem)
  have hcovers : m.covers path = true := by simpa using find?_some hm
  exact ⟨hmem, exists_below_of_covers hpoint hpath hcovers⟩

theorem not_below_of_find_mount (hpath : IsPath path) (hfind : findMount s path = none)
    (hm : m ∈ s.mounts) : ¬ Below m.path path rest := by
  rw [findMount, if_pos hpath.head, map_eq_none_iff, find?_eq_none] at hfind
  exact fun hbelow => hfind m hm (covers_of_below hbelow)

/-- At most one mount point is above a path. -/
theorem State.Spread.point_unique (h : s.Spread) (hpoint : point ∈ s.points)
    (hpoint' : point' ∈ s.points) (hbelow : Below point path rest)
    (hbelow' : Below point' path rest') : point = point' := by
  by_contra hne
  have hapart := h.incomparable.forall hpoint hpoint' hne
  rcases hbelow.comparable hbelow' with ⟨between, hb⟩ | ⟨between, hb⟩
  · exact (hapart between).1 hb
  · exact (hapart between).2 hb

/-! ## Runs -/

/-- Nothing is mounted above a mount point that is there. -/
def NotAbove (s : State) : Call → Prop
  | .mount path _ _ _ => ∀ point ∈ s.points, ∀ rest, Below (normalized path) point rest → rest = []
  | _ => True

variable {fses : List FsImpl}

theorem State.Spread.step {c : Call} (h : s.Spread) (hguard : NotAbove s c)
    (hstep : s.step fses c = some s') : s'.Spread := by
  cases moves_of_step hstep with
  | idle => exact h
  | lookup => exact h.sublist (points_get_put s _)
  | device =>
    refine h.sublist ?_
    rw [points_bio_close, points_bio_open]
  | forget =>
    refine h.sublist ?_
    rw [points_bio_close]
    exact (points_bio_open s _) ▸ .refl _
  | @mount path fsname device env fs hhead hfind =>
    have hpath := is_path_normalized hhead
    refine ⟨forall_mem_cons.mpr ⟨hpath, h.paths⟩, ?_⟩
    refine pairwise_cons.mpr ⟨fun point hpoint rest => ?_, h.incomparable⟩
    obtain ⟨m, hm, rfl⟩ := List.mem_map.mp hpoint
    have hnot : ∀ rest, ¬ Below m.path (normalized path) rest := fun rest =>
      not_below_of_find_mount hpath hfind hm
    refine ⟨fun hbelow => ?_, hnot rest⟩
    -- a mount point at the same place would have been found
    obtain rfl := hguard _ hpoint rest hbelow
    have heq := hbelow.eq_of_nil
    rw [heq] at hbelow hnot
    exact hnot [] hbelow
  | unmount => exact h.sublist ((points_put_mount _ _).trans (points_get_put s _))
  | format =>
    refine h.sublist ?_
    rw [points_bio_open]
  | openHandle _ hm dir =>
    refine h.sublist ?_
    exact (points_add_ref s _ 1) ▸ .refl _
  | closeHandle => exact h.sublist (points_put_mount s _)

/-- The states reached from the boot on, without a file system mounted above another. -/
def State.Unnested (fses : List FsImpl) : State → Prop :=
  Transition.Reachable (State.step fses) NotAbove (· = State.initial)

theorem State.Unnested.spread (h : s.Unnested fses) : s.Spread := by
  exact Transition.Reachable.invariant_from (P := State.Spread)
    ⟨by simp [State.points, State.initial], .nil⟩ State.Spread.step h

/-- What a lookup should give: a mount point above the path with the rest of it, such that none of
the mount points above the path leaves less of it; or nothing, if there is none above it. -/
def Innermost (s : State) (path : List UInt8) : Option (Mount × List UInt8) → Prop
  | some (m, found) => m ∈ s.mounts ∧ ∃ rest, Below m.path path rest ∧ found = relative rest ∧
      ∀ m' ∈ s.mounts, ∀ rest', Below m'.path path rest' → rest.length ≤ rest'.length
  | none => ∀ m ∈ s.mounts, ∀ rest, ¬ Below m.path path rest

/-- The result of a lookup is the innermost mount. -/
theorem State.Spread.innermost (h : s.Spread) (hpath : path.head? = some slash → IsPath path) :
    Innermost s path (findMount s path) := by
  cases hfind : findMount s path with
  | none =>
    intro m hm rest hbelow
    have hpoint := h.paths _ (List.mem_map_of_mem hm)
    exact not_below_of_find_mount (hbelow.is_path hpoint) hfind hm hbelow
  | some result =>
    have hhead : path.head? = some slash := by
      by_contra hhead
      rw [findMount, if_neg hhead] at hfind
      cases hfind
    obtain ⟨hm, rest, hbelow, hfound⟩ := below_of_find_mount h (hpath hhead) hfind
    refine ⟨hm, rest, hbelow, hfound, fun m' hm' rest' hbelow' => ?_⟩
    have hpoint := h.point_unique (List.mem_map_of_mem hm) (List.mem_map_of_mem hm') hbelow hbelow'
    rw [← hpoint] at hbelow'
    rw [hbelow.rest_unique hbelow']

/-- The mount point that is found and the rest depend only on which mount points there are. -/
theorem Innermost.congr {t : State} {r r' : Option (Mount × List UInt8)}
    (ht : t.Spread) (hpoints : ∀ point, point ∈ s.points ↔ point ∈ t.points)
    (h : Innermost s path r) (h' : Innermost t path r') :
    r.map (fun x => (x.1.path, x.2)) = r'.map fun x => (x.1.path, x.2) := by
  have hto : ∀ m ∈ s.mounts, ∃ m' ∈ t.mounts, m'.path = m.path := fun m hm =>
    List.mem_map.mp ((hpoints m.path).mp (List.mem_map_of_mem hm))
  have hfrom : ∀ m ∈ t.mounts, ∃ m' ∈ s.mounts, m'.path = m.path := fun m hm =>
    List.mem_map.mp ((hpoints m.path).mpr (List.mem_map_of_mem hm))
  cases r with
  | none =>
    cases r' with
    | none => rfl
    | some found' =>
      obtain ⟨hm', rest', hbelow', -⟩ := h'
      obtain ⟨m, hm, heq⟩ := hfrom _ hm'
      exact absurd (heq ▸ hbelow') (h m hm rest')
  | some found =>
    obtain ⟨hm, rest, hbelow, hfound, -⟩ := h
    obtain ⟨m', hm', heq⟩ := hto _ hm
    rw [← heq] at hbelow
    cases r' with
    | none => exact absurd hbelow (h' m' hm' rest)
    | some found' =>
      obtain ⟨hm'', rest'', hbelow'', hfound'', -⟩ := h'
      have hpoint := ht.point_unique (List.mem_map_of_mem hm') (List.mem_map_of_mem hm'') hbelow
        hbelow''
      rw [← hpoint] at hbelow''
      simp only [map_some, hfound, hfound'', hbelow.rest_unique hbelow'', ← heq, hpoint]

/-- As long as no file system is mounted above another, `find_mount` finds for every normalized path
the mount whose point is the longest prefix of the path, component by component, with the rest of
the path, and nothing only if no mount point is a prefix; which mount point that is and what is left
of the path do not depend on the order in which the file systems were mounted. -/
theorem find_mount_innermost (hs : s.Unnested fses) (path : List UInt8) :
    Innermost s (fsNormalizePath path) (findMount s (fsNormalizePath path)) ∧
      ∀ t : State, t.Unnested fses → (∀ point, point ∈ s.points ↔ point ∈ t.points) →
        (findMount s (fsNormalizePath path)).map (fun x => (x.1.path, x.2)) =
          (findMount t (fsNormalizePath path)).map fun x => (x.1.path, x.2) := by
  have hin : ∀ t : State, t.Unnested fses →
      Innermost t (fsNormalizePath path) (findMount t (fsNormalizePath path)) := fun t ht =>
    ht.spread.innermost exists_render
  exact ⟨hin s hs, fun t ht hpoints => (hin s hs).congr ht.spread hpoints (hin t ht)⟩

/-- A file system without the hooks that may be left out. -/
def plainFs : FsImpl := ⟨[0x66], fun _ => false⟩

/-- `fs_mount` of that file system, without a device, where everything succeeds. -/
def mountPlain (path : List UInt8) : Call := .mount path [0x66] none ⟨true, noError, true, true⟩

/-- The paths `"/a"`, `"/a/b"`, `"/a/b/c"` and `"/b/c"`. -/
def pathA : List UInt8 := [0x2f, 0x61]
def pathAB : List UInt8 := [0x2f, 0x61, 0x2f, 0x62]
def pathABC : List UInt8 := [0x2f, 0x61, 0x2f, 0x62, 0x2f, 0x63]
def pathBC : List UInt8 := [0x2f, 0x62, 0x2f, 0x63]

/-- With file systems at `/a/b` and `/b/c`, the first is found for `/a/b/c`. -/
theorem find_mount_innermost_two : ∃ s : State, s.Unnested [plainFs] ∧
    s.points = [pathBC, pathAB] ∧
    Innermost s (fsNormalizePath pathABC) (findMount s (fsNormalizePath pathABC)) ∧
    (findMount s (fsNormalizePath pathABC)).map (fun x => (x.1.path, x.2)) =
      some (pathAB, [0x2f, 0x63]) := by
  have hrun : ∃ s ∈ Transition.run (State.step [plainFs]) State.initial
      [mountPlain pathAB, mountPlain pathBC], s.points = [pathBC, pathAB] ∧
      (findMount s (fsNormalizePath pathABC)).map (fun x => (x.1.path, x.2)) =
        some (pathAB, [0x2f, 0x63]) := by
    decide +kernel
  have hadmits : Transition.Admits (State.step [plainFs]) NotAbove State.initial
      [mountPlain pathAB, mountPlain pathBC] := by
    refine ⟨forall_mem_nil _, fun s hs => ⟨?_, ?_⟩⟩
    · have hpoints : s.points = [pathAB] := by
        have hall : ∀ s ∈ State.step [plainFs] State.initial (mountPlain pathAB),
            s.points = [pathAB] := by
          decide +kernel
        exact hall s hs
      intro point hpoint rest hbelow
      rw [hpoints, mem_singleton] at hpoint
      subst hpoint
      exact absurd hbelow.take_eq (by decide +kernel)
    · exact fun _ _ => trivial
  have hinit : State.initial.Unnested [plainFs] := .init rfl
  obtain ⟨s, hs, hpoints, hfind⟩ := hinit.exists_run hadmits hrun
  exact ⟨s, hs, hpoints, (find_mount_innermost hs pathABC).1, hfind⟩

/-- A file system is mounted at `/a/b`, then another one at `/a`. The path `/a/b/c` is looked up in
the second one, as `/b/c`. -/
theorem outer_mount_hides_inner : ∃ s : State,
    Transition.run (State.step [plainFs]) State.initial [mountPlain pathAB, mountPlain pathA] =
      some s ∧
    fsNormalizePath pathABC = pathABC ∧ (∃ m ∈ s.mounts, Below m.path pathABC [[0x63]]) ∧
    (findMount s pathABC).map (fun x => (x.1.path, x.2)) = some (pathA, pathBC) ∧
    ¬ Innermost s pathABC (findMount s pathABC) := by
  have hrun : ∃ s ∈ Transition.run (State.step [plainFs]) State.initial
      [mountPlain pathAB, mountPlain pathA], (∃ m ∈ s.mounts, m.path = pathAB) ∧
      (findMount s pathABC).map (fun x => (x.1.path, x.2)) = some (pathA, pathBC) := by
    decide +kernel
  obtain ⟨s, hs, ⟨inner, hinner, hpath⟩, hfind⟩ := hrun
  have hbelow : Below inner.path pathABC [[0x63]] := ⟨[[0x61], [0x62]], by decide, hpath, by decide⟩
  have houter : Below pathA pathABC [[0x62], [0x63]] := ⟨[[0x61]], by decide, by decide, by decide⟩
  refine ⟨s, hs, by decide +kernel, ⟨inner, hinner, hbelow⟩, hfind, ?_⟩
  obtain ⟨⟨m, found⟩, hm, heq⟩ := map_eq_some_iff.mp hfind
  rw [hm]
  rintro ⟨-, rest, hrest, -, hshort⟩
  have hlen := hshort inner hinner _ hbelow
  rw [(Prod.mk.inj heq).1] at hrest
  rw [hrest.rest_unique houter] at hlen
  exact absurd hlen (by decide)

end NusaKernel.Fs
