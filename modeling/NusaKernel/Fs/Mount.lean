import NusaKernel.Fs.Path
import NusaKernel.Kernel.Status
import NusaKernel.Lib.Transition

/-!
# Mounted file systems (`lib/fs/fs.c`)

The list of mounts, newest first, and the calls that look a path up in it. A mount has one count
for its own place in the list and for the file and directory handles on it. The hooks of a file
system, the allocator and the registry of block devices are the environment: their results come
with the call.

Strings are the lists of their characters.
-/

namespace NusaKernel.Fs

/-- The hooks that a file system may leave out. -/
inductive Hook where
  | format | create | remove | mkdir | opendir | closedir | fsStat
  deriving DecidableEq

/-- `struct fs_impl`. -/
structure FsImpl where
  name : List UInt8
  has : Hook → Bool

/-- `struct fs_mount`; the number of the mount stands for its address and its cookie. -/
structure Mount where
  id : ℕ
  path : List UInt8
  dev : Option (List UInt8)
  ref : ℤ
  fs : FsImpl

/-- `struct filehandle` and `struct dirhandle`. -/
structure Handle where
  mount : ℕ
  dir : Bool
  deriving DecidableEq

/-- The list of mounts, the number of the next file system, the open handles, how often the unmount
hook of each file system ran, and the references that the layer has to each block device. -/
structure State where
  mounts : List Mount
  next : ℕ
  handles : List Handle
  unmounts : ℕ → ℕ
  devRefs : List UInt8 → ℤ

/-- Nothing is mounted. -/
def State.initial : State := ⟨[], 0, [], fun _ => 0, fun _ => 0⟩

/-! ## Lookup -/

/-- `FS_MAX_PATH_LEN`. -/
def fsMaxPathLen : ℕ := 128

/-- `strlcpy(temppath, path, sizeof(temppath)); fs_normalize_path(temppath)`. -/
def normalized (path : List UInt8) : List UInt8 := fsNormalizePath (path.take (fsMaxPathLen - 1))

/-- The test of `find_mount` for one mount. -/
def Mount.covers (m : Mount) (path : List UInt8) : Bool :=
  m.path.length ≤ path.length && path.take m.path.length == m.path &&
    (path.getD m.path.length 0 == slash || path.getD m.path.length 0 == 0)

/-- The path relative to a mount, or `"/"`. -/
def Mount.trimmed (m : Mount) (path : List UInt8) : List UInt8 :=
  if path.getD m.path.length 0 = 0 then [slash] else path.drop m.path.length

variable (s : State)

variable (path : List UInt8)

/-- `find_mount`, before it takes the reference. -/
def findMount : Option (Mount × List UInt8) :=
  if path.head? = some slash then
    (s.mounts.find? fun m => m.covers path).map fun m => (m, m.trimmed path)
  else none

/-! ## References -/

/-- `mount->ref += n`. -/
def State.addRef (id : ℕ) (n : ℤ) : State :=
  { s with mounts := s.mounts.map fun m => if m.id = id then { m with ref := m.ref + n } else m }

/-- The reference that `find_mount` takes. -/
def State.getMount (id : ℕ) : State := s.addRef id 1

/-- `bio_open` of a device, if there is one. -/
def State.bioOpen : Option (List UInt8) → State
  | none => s
  | some dev => { s with devRefs := Function.update s.devRefs dev (s.devRefs dev + 1) }

/-- `bio_close` of a device, if there is one. -/
def State.bioClose : Option (List UInt8) → State
  | none => s
  | some dev => { s with devRefs := Function.update s.devRefs dev (s.devRefs dev - 1) }

/-- The end of a mount: it leaves the list, the unmount hook runs, the device is closed. -/
def State.release (m : Mount) : State :=
  State.bioClose
    { s with
      mounts := s.mounts.filter fun m' => m'.id ≠ m.id
      unmounts := Function.update s.unmounts m.id (s.unmounts m.id + 1) } m.dev

/-- `put_mount`. -/
def putMount (id : ℕ) : State :=
  let s := s.addRef id (-1)
  match s.mounts.find? fun m => m.id = id with
  | none => s
  | some m => if m.ref = 0 then s.release m else s

/-! ## The calls -/

/-- What the environment does in a call of `mount`: whether the device is registered, the result of
the mount hook, and whether the two allocations succeed. -/
structure MountEnv where
  registered : Bool
  hook : Status
  malloc : Bool
  strdup : Bool

/-- The device that is opened: none if the string is null or empty. -/
def deviceOf : Option (List UInt8) → Option (List UInt8)
  | none => none
  | some [] => none
  | some (c :: name) => some (c :: name)

variable (fses : List FsImpl)

/-- `find_fs`. -/
def findFs (name : List UInt8) : Option FsImpl :=
  fses.find? fun fs => fs.name = name

/-- `mount`. -/
def mount (device : Option (List UInt8)) (fs : FsImpl)
    (env : MountEnv) : Status × State :=
  let temppath := normalized path
  if temppath.head? ≠ some slash then (errBadPath, s)
  else
    match findMount s temppath with
    | some (m, _) => (errAlreadyMounted, putMount (s.getMount m.id) m.id)
    | none =>
      let dev := deviceOf device
      if dev.isSome ∧ env.registered = false then (errNotFound, s)
      else
        let s := s.bioOpen dev
        if env.hook < 0 then (env.hook, s.bioClose dev)
        else
          -- from here on the file system is mounted
          let id := s.next
          let s := { s with next := s.next + 1 }
          if env.malloc = false then (errNoMemory, s.bioClose dev)
          else if env.strdup = false then (errNoMemory, s.bioClose dev)
          else (noError, { s with mounts := ⟨id, temppath, dev, 1, fs⟩ :: s.mounts })

/-- `fs_mount`. -/
def fsMount (s : State) (path fsname : List UInt8)
    (device : Option (List UInt8)) (env : MountEnv) : Status × State :=
  match findFs fses fsname with
  | none => (errNotFound, s)
  | some fs => mount s path device fs env

/-- `fs_unmount`. -/
def fsUnmount : Status × State :=
  match findMount s (normalized path) with
  | none => (errNotFound, s)
  | some (m, _) => (noError, putMount (putMount (s.getMount m.id) m.id) m.id)

/-- `fs_format_device`. -/
def fsFormatDevice (s : State) (fsname : List UInt8)
    (device : Option (List UInt8)) (registered : Bool) (format : Status) : Status × State :=
  match findFs fses fsname with
  | none => (errNotFound, s)
  | some fs =>
    if fs.has .format = false then (errNotSupported, s)
    else
      let dev := deviceOf device
      if dev.isSome ∧ registered = false then (errNotFound, s)
      else (format, s.bioOpen dev)

/-- A call that looks a path up, calls a hook that may be missing and returns its result. -/
def callHook (hook : Hook) (result : Status) : Status × State :=
  match findMount s path with
  | none => (errNotFound, s)
  | some (m, _) =>
    let s := s.getMount m.id
    if m.fs.has hook = false then (errNotSupported, putMount s m.id)
    else (result, putMount s m.id)

/-- `fs_remove_file`. -/
def fsRemoveFile (remove : Status) : Status × State :=
  callHook s (normalized path) .remove remove

/-- `fs_make_dir`. -/
def fsMakeDir (mkdir : Status) : Status × State :=
  callHook s (normalized path) .mkdir mkdir

/-- `fs_stat_fs`, which takes the path as it is. -/
def fsStatFs (mountpoint : List UInt8) (stat : Status) : Status × State :=
  callHook s mountpoint .fsStat stat

/-- A call that looks a path up, calls a hook and keeps the reference in a new handle. `noMemory`
is returned where the handle cannot be allocated. -/
def openHandle (hook : Option Hook) (dir : Bool) (result : Status)
    (malloc : Bool) (noMemory : Status) : Status × State :=
  match findMount s (normalized path) with
  | none => (errNotFound, s)
  | some (m, _) =>
    let s := s.getMount m.id
    if ∃ h ∈ hook, m.fs.has h = false then (errNotSupported, putMount s m.id)
    else if result < 0 then (result, putMount s m.id)
    else if malloc = false then (noMemory, putMount s m.id)
    else (noError, { s with handles := ⟨m.id, dir⟩ :: s.handles })

/-- `fs_open_file`. The allocation of the handle is not checked: without memory it is written to a
null pointer. -/
def fsOpenFile (result : Status) (malloc : Bool) : Option (Status × State) :=
  if malloc = false ∧ ¬ result < 0 ∧ (findMount s (normalized path)).isSome then none
  else some (openHandle s path none false result true result)

/-- `fs_create_file`. Without memory for the handle it returns the result of the hook. -/
def fsCreateFile (result : Status) (malloc : Bool) :
    Status × State :=
  openHandle s path (some .create) false result malloc result

/-- `fs_open_dir`. -/
def fsOpenDir (result : Status) (malloc : Bool) : Status × State :=
  openHandle s path (some .opendir) true result malloc errNoMemory

/-- The part of `fs_close_file` and `fs_close_dir` from the hook on. -/
def closeHandle (h : Handle) (result : Status) : Status × State :=
  if result < 0 then (result, s)
  else
    let s := putMount s h.mount
    (noError, { s with handles := s.handles.erase h })

/-- `fs_close_file` of a handle on a mount. -/
def fsCloseFile (m : Mount) (close : Status) : Status × State :=
  closeHandle s ⟨m.id, false⟩ close

/-- `fs_close_dir` of a handle on a mount. -/
def fsCloseDir (m : Mount) (closedir : Status) : Status × State :=
  if m.fs.has .closedir = false then (errNotSupported, s) else closeHandle s ⟨m.id, true⟩ closedir

/-! ## Runs -/

inductive Call where
  | mount (path fsname : List UInt8) (device : Option (List UInt8)) (env : MountEnv)
  | unmount (path : List UInt8)
  | formatDevice (fsname : List UInt8) (device : Option (List UInt8)) (registered : Bool)
      (format : Status)
  | openFile (path : List UInt8) (result : Status) (malloc : Bool)
  | createFile (path : List UInt8) (result : Status) (malloc : Bool)
  | removeFile (path : List UInt8) (result : Status)
  | makeDir (path : List UInt8) (result : Status)
  | statFs (path : List UInt8) (result : Status)
  | openDir (path : List UInt8) (result : Status) (malloc : Bool)
  | closeHandle (h : Handle) (result : Status)

/-- A call, unless it writes to a null pointer. Closing a handle that is not open, or whose mount is
gone, uses freed memory. -/
def State.step (s : State) : Call → Option State
  | .mount path fsname device env => some (fsMount fses s path fsname device env).2
  | .unmount path => some (fsUnmount s path).2
  | .formatDevice fsname device registered format =>
    some (fsFormatDevice fses s fsname device registered format).2
  | .openFile path result malloc => (fsOpenFile s path result malloc).map Prod.snd
  | .createFile path result malloc => some (fsCreateFile s path result malloc).2
  | .removeFile path result => some (fsRemoveFile s path result).2
  | .makeDir path result => some (fsMakeDir s path result).2
  | .statFs path result => some (fsStatFs s path result).2
  | .openDir path result malloc => some (fsOpenDir s path result malloc).2
  | .closeHandle h result =>
    if h ∈ s.handles then
      (s.mounts.find? fun m => m.id = h.mount).map fun m =>
        if h.dir then (fsCloseDir s m result).2 else (fsCloseFile s m result).2
    else none

/-! ## What a call does -/

/-- The ways in which a call changes the state. -/
inductive Moves (s : State) : Call → State → Prop where
  | idle (c) : Moves s c s
  /-- a mount is looked up and put back -/
  | lookup (c) {m : Mount} (hm : m ∈ s.mounts) : Moves s c (putMount (s.getMount m.id) m.id)
  /-- a device is opened and closed -/
  | device (c) (dev : Option (List UInt8)) : Moves s c ((s.bioOpen dev).bioClose dev)
  /-- a file system is mounted and the mount cannot be allocated -/
  | forget {path fsname : List UInt8} {device : Option (List UInt8)} {env : MountEnv}
      (hmemory : env.malloc = false ∨ env.strdup = false) :
      Moves s (.mount path fsname device env)
        (State.bioClose { s.bioOpen (deviceOf device) with
          next := (s.bioOpen (deviceOf device)).next + 1 } (deviceOf device))
  | mount {path fsname : List UInt8} {device : Option (List UInt8)} {env : MountEnv} {fs : FsImpl}
      (hhead : (normalized path).head? = some slash)
      (hfind : findMount s (normalized path) = none) :
      Moves s (.mount path fsname device env)
        { s.bioOpen (deviceOf device) with
          next := s.next + 1
          mounts := ⟨s.next, normalized path, deviceOf device, 1, fs⟩ :: s.mounts }
  | unmount {path found : List UInt8} {m : Mount}
      (hfind : findMount s (normalized path) = some (m, found)) :
      Moves s (.unmount path) (putMount (putMount (s.getMount m.id) m.id) m.id)
  | format (fsname : List UInt8) (device : Option (List UInt8)) (registered : Bool)
      (format : Status) :
      Moves s (.formatDevice fsname device registered format) (s.bioOpen (deviceOf device))
  | openHandle (c) {m : Mount} (hm : m ∈ s.mounts) (dir : Bool) :
      Moves s c { s.getMount m.id with handles := ⟨m.id, dir⟩ :: s.handles }
  | closeHandle (c) {m : Mount} {h : Handle} (hm : m ∈ s.mounts) (hh : h ∈ s.handles)
      (hid : h.mount = m.id) :
      Moves s c { putMount s m.id with handles := (putMount s m.id).handles.erase h }

variable {s s' : State} {fses : List FsImpl} {c : Call} {m : Mount} {path : List UInt8}

theorem mem_of_find_mount {found : List UInt8} (h : findMount s path = some (m, found)) :
    m ∈ s.mounts := by
  unfold findMount at h
  split at h
  · obtain ⟨m', hm', heq⟩ := Option.map_eq_some_iff.mp h
    cases heq
    exact List.mem_of_find?_eq_some hm'
  · cases h

@[simp] theorem next_bio_open (s : State) (dev : Option (List UInt8)) :
    (s.bioOpen dev).next = s.next := by
  cases dev <;> rfl

@[simp] theorem mounts_bio_open (s : State) (dev : Option (List UInt8)) :
    (s.bioOpen dev).mounts = s.mounts := by
  cases dev <;> rfl

theorem moves_mount (fsname : List UInt8) (device : Option (List UInt8)) (fs : FsImpl)
    (env : MountEnv) :
    Moves s (.mount path fsname device env) (mount s path device fs env).2 := by
  unfold mount
  dsimp only
  by_cases hhead : (normalized path).head? = some slash
  · rw [if_neg (not_not.mpr hhead)]
    cases hfind : findMount s (normalized path) with
    | some found => exact .lookup _ (mem_of_find_mount hfind)
    | none =>
      split_ifs with h1 h2 h3 h4
      · exact .idle _
      · exact .device _ _
      · exact .forget (.inl h3)
      · exact .forget (.inr h4)
      · rw [next_bio_open, mounts_bio_open]
        exact .mount hhead hfind
  · rw [if_pos hhead]
    exact .idle _

theorem moves_call_hook (c : Call) (hook : Hook) (result : Status) :
    Moves s c (callHook s path hook result).2 := by
  unfold callHook
  cases hfind : findMount s path with
  | none => exact .idle _
  | some found =>
    dsimp only
    split_ifs
    · exact .lookup _ (mem_of_find_mount hfind)
    · exact .lookup _ (mem_of_find_mount hfind)

theorem moves_open_handle (c : Call) (hook : Option Hook) (dir : Bool) (result : Status)
    (malloc : Bool) (noMemory : Status) :
    Moves s c (openHandle s path hook dir result malloc noMemory).2 := by
  unfold openHandle
  cases hfind : findMount s (normalized path) with
  | none => exact .idle _
  | some found =>
    have hmem := mem_of_find_mount hfind
    dsimp only
    split_ifs
    · exact .lookup _ hmem
    · exact .lookup _ hmem
    · exact .lookup _ hmem
    · exact .openHandle _ hmem _

theorem moves_format_device (fsname : List UInt8) (device : Option (List UInt8))
    (registered : Bool) (format : Status) :
    Moves s (.formatDevice fsname device registered format)
      (fsFormatDevice fses s fsname device registered format).2 := by
  unfold fsFormatDevice
  cases findFs fses fsname with
  | none => exact .idle _
  | some fs =>
    dsimp only
    split_ifs
    · exact .idle _
    · exact .idle _
    · exact .format ..

theorem moves_close_handle (c : Call) {h : Handle} (hm : m ∈ s.mounts) (hh : h ∈ s.handles)
    (hid : m.id = h.mount) (result : Status) : Moves s c (closeHandle s h result).2 := by
  unfold closeHandle
  split
  · exact .idle _
  · rw [← hid]
    exact .closeHandle _ hm hh hid.symm

theorem moves_of_step (h : s.step fses c = some s') : Moves s c s' := by
  cases c with
  | mount path fsname device env =>
    cases h
    unfold fsMount
    cases findFs fses fsname with
    | none => exact .idle _
    | some fs => exact moves_mount ..
  | unmount path =>
    cases h
    unfold fsUnmount
    cases hfind : findMount s (normalized path) with
    | none => exact .idle _
    | some found => exact .unmount hfind
  | formatDevice fsname device registered format =>
    cases h
    exact moves_format_device ..
  | openFile path result malloc =>
    obtain ⟨after, hopen, rfl⟩ := Option.map_eq_some_iff.mp h
    cases (Option.ite_none_left_eq_some.mp hopen).2
    exact moves_open_handle ..
  | createFile | openDir =>
    cases h
    exact moves_open_handle ..
  | removeFile | makeDir | statFs =>
    cases h
    exact moves_call_hook ..
  | closeHandle h' result =>
    rw [State.step] at h
    split at h
    next hh =>
      obtain ⟨m, hm, heq⟩ := Option.map_eq_some_iff.mp h
      have hid : m.id = h'.mount := by simpa using List.find?_some hm
      have hclose := moves_close_handle (.closeHandle h' result) (List.mem_of_find?_eq_some hm) hh
        hid result
      subst heq
      split
      next hdir =>
        unfold fsCloseDir
        split
        · exact .idle _
        · rwa [hid, ← hdir]
      next hdir =>
        unfold fsCloseFile
        rw [hid]
        rw [Bool.not_eq_true] at hdir
        rwa [← hdir]
    · cases h

end NusaKernel.Fs
