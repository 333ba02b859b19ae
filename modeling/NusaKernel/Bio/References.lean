import NusaKernel.Kernel.Status
import NusaKernel.Lib.Tally
import NusaKernel.Lib.Transition

/-!
# References to block devices (`lib/bio/bio.c`, `lib/bio/subdev.c`, `lib/partition/partition.c`)

A device is counted once for the list of registered devices and once for every open of it. When
the count reaches zero the close hook runs; the one of a subdevice closes the parent that
`bio_publish_subdevice` opened. `partition_publish` and `partition_unpublish` open and close
devices on the way, and a thread may be stopped between any two calls of the block layer.

`references_balance` says that the count is what is held: by users, by the local variables of the
threads, and by subdevices. `partition_publish` leaves through its error exit without closing the
device when the read of the boot sector fails; after that the count is too large for good, and
the close hook never runs (`reference_leaked`). Two threads in `partition_unpublish` can find the
same device, and the second one then unregisters it when it is off the list.
-/

namespace NusaKernel.Bio.References

open Function List Nat Transition

/-- `bdev_t`, with the parent that a subdevice has open and how often the close hook ran. -/
structure Dev where
  name : String
  ref : ℤ
  parent : Option ℕ
  closed : ℕ

/-- Where a thread is. -/
inductive Pc where
  /-- in no call -/
  | idle
  /-- at the top of the loop of `partition_unpublish`, which `partition_publish` calls too -/
  | unpublish (device : String) (i : ℕ) (publish : Bool)
  /-- before `bio_unregister_device` -/
  | unregister (device : String) (i : ℕ) (publish : Bool) (dev : ℕ)
  /-- before the `bio_close` that ends a round of the loop -/
  | close (device : String) (i : ℕ) (publish : Bool) (dev : ℕ)
  /-- before the `bio_open` of `partition_publish` -/
  | openDevice (device : String)
  /-- before the `bio_read` of the boot sector -/
  | read (device : String) (dev : ℕ)
  /-- before `bio_publish_subdevice` for the first of the valid entries that are left -/
  | publish (device : String) (dev : ℕ) (parts : List ℕ)
  /-- in `bio_publish_subdevice`, with the parent open -/
  | allocate (device : String) (dev : ℕ) (i : ℕ) (parts : List ℕ) (parent : ℕ)
  /-- before the `bio_close` of `partition_publish` -/
  | closeDevice (dev : ℕ)
deriving DecidableEq

/-- The references that the local variables of a thread hold. -/
def Pc.held : Pc → List ℕ
  | .idle => []
  | .unpublish _ _ _ => []
  | .unregister _ _ _ dev => [dev]
  | .close _ _ _ dev => [dev]
  | .openDevice _ => []
  | .read _ dev => [dev]
  | .publish _ dev _ => [dev]
  | .allocate _ dev _ _ parent => [dev, parent]
  | .closeDevice dev => [dev]

/-- The thread reads the boot sector. -/
def Pc.reading : Pc → Bool
  | .read _ _ => true
  | _ => false

/-- The device that the thread unregisters. -/
def Pc.unregisters : Pc → Option ℕ
  | .unregister _ _ _ dev => some dev
  | _ => none

/-- What the devices do, and whether memory is there. -/
inductive Outcome where
  /-- `bio_read` returns an error; `bio_publish_subdevice` cannot allocate or refuses the range -/
  | failed
  /-- there is no boot sector -/
  | noTable
  /-- the entries of the table that are valid -/
  | table (parts : List ℕ)
  /-- `bio_publish_subdevice` accepts the range -/
  | accepted
deriving DecidableEq

/-- The devices by number in the order they were set up, `bdevs.list`, the handles that users of
`bio_open` have, and the threads. -/
structure State (Tid : Type*) where
  next : ℕ
  dev : ℕ → Dev
  list : List ℕ
  handles : List ℕ
  pc : Tid → Pc

inductive Action (Tid : Type*) where
  | register (name : String)
  | open (name : String)
  | close (dev : ℕ)
  | unregister (dev : ℕ)
  | partitionPublish (t : Tid) (device : String)
  | partitionUnpublish (t : Tid) (device : String)
  | run (t : Tid) (outcome : Outcome)

/-- `sprintf(devname, "%sp%d", device, i)`. -/
def partName (device : String) (i : ℕ) : String := device ++ "p" ++ toString i

/-- `bdev_dec_ref`. The close hook of a subdevice is `subdev_close`, which closes the parent; its
number is below that of the subdevice, and bounds the recursion. -/
def decRef : ℕ → (ℕ → Dev) → ℕ → ℕ → Dev
  | 0, devs, _ => devs
  | bound + 1, devs, d =>
    let dev := devs d
    if dev.ref = 1 then
      let devs := update devs d ⟨dev.name, dev.ref - 1, none, dev.closed + 1⟩
      match dev.parent with
      | none => devs
      | some parent => decRef bound devs parent
    else update devs d { dev with ref := dev.ref - 1 }

section Model

variable {Tid : Type*} [DecidableEq Tid]

def initial : State Tid := ⟨0, fun _ => ⟨"", 0, none, 0⟩, [], [], fun _ => .idle⟩

variable (s : State Tid)

/-- `bdev_inc_ref`. -/
def incRef (d : ℕ) : State Tid :=
  { s with dev := update s.dev d { s.dev d with ref := (s.dev d).ref + 1 } }

/-- `bio_open`: the device found, whose count is incremented. -/
def bioOpen (name : String) : Option (ℕ × State Tid) :=
  (s.list.find? fun d => (s.dev d).name = name).map fun d => (d, incRef s d)

/-- `bio_close`. -/
def bioClose (d : ℕ) : State Tid := { s with dev := decRef s.next s.dev d }

/-- `bio_initialize_bdev` and `bio_register_device` of a new device. -/
def bioRegisterDevice (name : String) (parent : Option ℕ) : State Tid :=
  incRef { s with
    next := s.next + 1
    dev := update s.dev s.next ⟨name, 0, parent, 0⟩
    list := s.list ++ [s.next] } s.next

/-- `bio_unregister_device`. Taking a node off the list that is not on it is an access through null
pointers, which is taken to do nothing. -/
def bioUnregisterDevice (d : ℕ) : State Tid :=
  bioClose { s with list := s.list.erase d } d

/-- A thread goes to another place. -/
def goTo (t : Tid) (pc : Pc) : State Tid :=
  { s with pc := update s.pc t pc }

/-- One step of a thread, up to the next call of the block layer. -/
def runThread (t : Tid) (outcome : Outcome) : Option (State Tid) :=
  match s.pc t with
  | .idle => none
  | .unpublish device i publish =>
    if i < 16 then
      match bioOpen s (partName device i) with
      | none => some (goTo s t (.unpublish device (i + 1) publish))
      | some (dev, s) => some (goTo s t (.unregister device i publish dev))
    else if publish then some (goTo s t (.openDevice device))
    else some (goTo s t .idle)
  | .unregister device i publish dev =>
    some (goTo (bioUnregisterDevice s dev) t (.close device i publish dev))
  | .close device i publish dev =>
    some (bioClose (goTo s t (.unpublish device (i + 1) publish)) dev)
  | .openDevice device =>
    match bioOpen s device with
    | none => some (goTo s t .idle)
    | some (dev, s) => some (goTo s t (.read device dev))
  | .read device dev =>
    match outcome with
    | .failed => some (goTo s t .idle)
    | .noTable => some (goTo s t (.closeDevice dev))
    | .table parts => some (goTo s t (.publish device dev parts))
    | .accepted => none
  | .publish device dev parts =>
    match parts with
    | [] => some (goTo s t (.closeDevice dev))
    | i :: parts =>
      match bioOpen s device with
      | none => some (goTo s t (.publish device dev parts))
      | some (parent, s) => some (goTo s t (.allocate device dev i parts parent))
  | .allocate device dev i parts parent =>
    match outcome with
    | .failed => some (bioClose (goTo s t (.publish device dev parts)) parent)
    | .accepted =>
      some (bioRegisterDevice (goTo s t (.publish device dev parts)) (partName device i)
        (some parent))
    | .noTable => none
    | .table _ => none
  | .closeDevice dev => some (bioClose (goTo s t .idle) dev)

def step : Action Tid → Option (State Tid)
  | .register name => some (bioRegisterDevice s name none)
  | .open name =>
    match bioOpen s name with
    | none => some s
    | some (dev, s) => some { s with handles := dev :: s.handles }
  | .close dev =>
    if dev ∈ s.handles then some (bioClose { s with handles := s.handles.erase dev } dev)
    else none
  | .unregister dev => some (bioUnregisterDevice s dev)
  | .partitionPublish t device =>
    match s.pc t with
    | .idle => some (goTo s t (.unpublish device 0 true))
    | _ => none
  | .partitionUnpublish t device =>
    match s.pc t with
    | .idle => some (goTo s t (.unpublish device 0 false))
    | _ => none
  | .run t outcome => runThread s t outcome

end Model

/-! ## What is held -/

/-- The subdevices that have a device open as their parent. -/
def children (next : ℕ) (devs : ℕ → Dev) (d : ℕ) : ℕ :=
  (range next).countP fun c => (devs c).parent = some d

section Held

variable {Tid : Type*} [Fintype Tid]

/-- The references that users and threads hold. -/
def State.outside (s : State Tid) (d : ℕ) : ℕ := s.handles.count d + ∑ t, (s.pc t).held.count d

/-- The opens of a device that are not closed yet. -/
def State.opens (s : State Tid) (d : ℕ) : ℕ := s.outside d + children s.next s.dev d

end Held

/-- A device that changes trades its parent. -/
theorem children_update (devs : ℕ → Dev) (dev : Dev) (d : ℕ) {c next : ℕ} (hc : c < next) :
    children next (update devs c dev) d + (if (devs c).parent = some d then 1 else 0) =
      children next devs d + (if dev.parent = some d then 1 else 0) := by
  unfold children
  induction next with
  | zero => omega
  | succ n ih =>
    rw [range_succ, countP_append, countP_append, countP_singleton, countP_singleton]
    rcases Nat.lt_or_eq_of_le (le_of_lt_succ hc) with hlt | rfl
    · rw [update_of_ne (by omega)]
      omega
    have hbelow : (range c).countP
        (fun e => (update devs c dev e).parent = some d) =
          (range c).countP fun e => (devs e).parent = some d := by
      refine countP_congr fun e he => ?_
      have hne : e ≠ c := (mem_range.mp he).ne
      rw [update_of_ne hne]
    rw [hbelow, update_self]
    simp only [decide_eq_true_eq]
    omega

/-- A device that keeps its parent changes no count. -/
theorem children_update_of_parent (devs : ℕ → Dev) {dev : Dev} (d : ℕ) {c next : ℕ}
    (hc : c < next) (h : dev.parent = (devs c).parent) :
    children next (update devs c dev) d = children next devs d := by
  have hupdate := children_update devs dev d hc
  rw [h] at hupdate
  omega

/-- The count of every device is what the list, the users and threads, and subdevices hold, and
the close hook ran where that is nothing. -/
structure Inv (next : ℕ) (devs : ℕ → Dev) (list : List ℕ) (outside : ℕ → ℕ) : Prop where
  nodup : list.Nodup
  list_lt : ∀ d ∈ list, d < next
  parent_lt : ∀ c p, (devs c).parent = some p → p < c ∧ c < next
  outside_lt : ∀ d, next ≤ d → outside d = 0
  ref_eq : ∀ d < next, (devs d).ref = (list.count d + outside d + children next devs d : ℕ)
  closed_eq : ∀ d < next, (devs d).closed = if (devs d).ref = 0 then 1 else 0

variable {next : ℕ} {devs : ℕ → Dev} {list : List ℕ} {outside outside' : ℕ → ℕ} {d : ℕ}
  {parent : Option ℕ}

section

variable (h : Inv next devs list outside)
include h

theorem Inv.lt_next (hd : 0 < outside d) : d < next := by
  by_contra hge
  have hzero := h.outside_lt d (Nat.not_lt.mp hge)
  omega

/-- A count changes, and the parent stays. -/
theorem Inv.recount {dev : Dev} (hd : d < next) (hparent : dev.parent = (devs d).parent)
    (houtside : ∀ e, e ≠ d → outside' e = outside e)
    (href : dev.ref = (list.count d + outside' d + children next devs d : ℕ))
    (hclosed : dev.closed = if dev.ref = 0 then 1 else 0) :
    Inv next (update devs d dev) list outside' where
  __ := h
  parent_lt c p hc := by
    by_cases hcd : c = d
    · subst hcd
      rw [update_self, hparent] at hc
      exact h.parent_lt c p hc
    · rw [update_of_ne hcd] at hc
      exact h.parent_lt c p hc
  outside_lt e he := (houtside e (by omega)).trans (h.outside_lt e he)
  ref_eq e he := by
    rw [children_update_of_parent devs e hd hparent]
    by_cases hed : e = d
    · subst hed
      rw [update_self]
      exact href
    · rw [update_of_ne hed, houtside e hed]
      exact h.ref_eq e he
  closed_eq e he := by
    by_cases hed : e = d
    · subst hed
      rw [update_self]
      exact hclosed
    · rw [update_of_ne hed]
      exact h.closed_eq e he

/-- The close hook of a subdevice: what it held of its parent is now held by the thread that runs
the hook. -/
theorem Inv.close_hook (hd : 0 < outside d) {p : ℕ} (hone : (devs d).ref = 1)
    (hparent : (devs d).parent = some p) :
    Inv next (update devs d ⟨(devs d).name, (devs d).ref - 1, none, (devs d).closed + 1⟩)
      list (update (update outside d (outside d - 1)) p (outside p + 1)) := by
  have hlt := h.lt_next hd
  have hclosed := h.closed_eq d hlt
  have hbelow := (h.parent_lt d p hparent).1
  have hchildren : ∀ e, children next
      (update devs d ⟨(devs d).name, (devs d).ref - 1, none, (devs d).closed + 1⟩) e +
        (if p = e then 1 else 0) = children next devs e := by
    intro e
    have hupdate := children_update devs
      ⟨(devs d).name, (devs d).ref - 1, none, (devs d).closed + 1⟩ e hlt
    simpa [hparent] using hupdate
  refine ⟨h.nodup, h.list_lt, fun c q hc => ?_, fun e he => ?_, fun e he => ?_, fun e he => ?_⟩
  · by_cases hcd : c = d
    · subst hcd
      rw [update_self] at hc
      cases hc
    · rw [update_of_ne hcd] at hc
      exact h.parent_lt c q hc
  · rw [update_of_ne (by omega), update_of_ne (by omega)]
    exact h.outside_lt e he
  · have hcount := hchildren e
    have hold := h.ref_eq e he
    by_cases hed : e = d
    · subst hed
      rw [update_self, update_of_ne (by omega), update_self]
      show (devs e).ref - 1 = _
      omega
    rw [update_of_ne hed]
    by_cases hep : e = p
    · subst hep
      rw [if_pos rfl] at hcount
      rw [update_self]
      omega
    · rw [if_neg (Ne.symm hep)] at hcount
      rw [update_of_ne hep, update_of_ne hed]
      omega
  · by_cases hed : e = d
    · subst hed
      rw [update_self]
      rw [hclosed, hone]
      rfl
    · rw [update_of_ne hed]
      exact h.closed_eq e he

/-- `bdev_dec_ref` gives back a reference that is held. -/
theorem Inv.dec_ref {bound : ℕ} (hd : 0 < outside d) (hbound : d < bound) :
    Inv next (decRef bound devs d) list (update outside d (outside d - 1)) := by
  induction bound generalizing devs d outside with
  | zero => omega
  | succ bound ih =>
    have hlt := h.lt_next hd
    have href := h.ref_eq d hlt
    have hclosed := h.closed_eq d hlt
    unfold decRef
    by_cases hone : (devs d).ref = 1
    · rw [if_pos hone]
      cases hparent : (devs d).parent with
      | none =>
        refine h.recount hlt hparent.symm (fun e he => update_of_ne he _ _) ?_ ?_
        · rw [update_self]
          show (devs d).ref - 1 = _
          omega
        · rw [hclosed, hone]
          rfl
      | some p =>
        have hbelow := (h.parent_lt d p hparent).1
        have hclose := ih (h.close_hook hd hone hparent)
          (by rw [update_self]; omega) (show p < bound by omega)
        rw [update_self, Nat.add_sub_cancel, update_idem] at hclose
        have hback : update (update outside d (outside d - 1)) p (outside p) =
            update outside d (outside d - 1) := by
          rw [update_eq_self_iff, update_of_ne (by omega)]
        rw [hback] at hclose
        exact hclose
    · rw [if_neg hone]
      refine h.recount hlt rfl (fun e he => update_of_ne he _ _) ?_ ?_
      · rw [update_self]
        show (devs d).ref - 1 = _
        omega
      · show (devs d).closed = if (devs d).ref - 1 = 0 then 1 else 0
        rw [hclosed, if_neg (by omega), if_neg (by omega)]

/-- A reference is taken to a device on the list. -/
theorem Inv.inc_ref (hd : d ∈ list) :
    Inv next (update devs d { devs d with ref := (devs d).ref + 1 }) list
      (update outside d (outside d + 1)) := by
  have hlt := h.list_lt d hd
  have href := h.ref_eq d hlt
  have hclosed := h.closed_eq d hlt
  have hlisted : 0 < list.count d := count_pos_iff.mpr hd
  refine h.recount hlt rfl (fun e he => update_of_ne he _ _) ?_ ?_
  · rw [update_self]
    show (devs d).ref + 1 = _
    omega
  · show (devs d).closed = if (devs d).ref + 1 = 0 then 1 else 0
    rw [hclosed, if_neg (by omega), if_neg (by omega)]

/-- A device leaves the list; the reference of the list is now held by the caller. -/
theorem Inv.unlist (hd : d ∈ list) :
    Inv next devs (list.erase d) (update outside d (outside d + 1)) where
  __ := h
  nodup := h.nodup.erase d
  list_lt e he := h.list_lt e (mem_of_mem_erase he)
  outside_lt e he := by
    have hlt := h.list_lt d hd
    rw [update_of_ne (by omega)]
    exact h.outside_lt e he
  ref_eq e he := by
    have href := h.ref_eq e he
    by_cases hed : e = d
    · subst hed
      have hlisted : 0 < list.count e := count_pos_iff.mpr hd
      rw [update_self, count_erase_self]
      omega
    · rw [update_of_ne hed, count_erase_of_ne hed]
      exact href

/-- A new device is registered; what its parent was held by is now the device. -/
theorem Inv.register (name : String) (hparent : ∀ p, parent = some p → 0 < outside p)
    (houtside : ∀ e, outside' e + parent.toList.count e = outside e) :
    Inv (next + 1) (update devs next ⟨name, 1, parent, 0⟩) (list ++ [next]) outside' := by
  have hfresh : next ∉ list := fun hmem => (h.list_lt next hmem).false
  have hzero := h.outside_lt next le_rfl
  have hnone : children next devs next = 0 := by
    refine countP_eq_zero.mpr fun c _ hc => ?_
    have hbelow := h.parent_lt c next (of_decide_eq_true hc)
    omega
  have hchildren : ∀ e, children (next + 1) (update devs next ⟨name, 1, parent, 0⟩) e =
      children next devs e + parent.toList.count e := by
    intro e
    have hrest : (range next).countP
        (fun c => (update devs next ⟨name, 1, parent, 0⟩ c).parent = some e) =
          children next devs e := by
      refine countP_congr fun c hc => ?_
      rw [update_of_ne (mem_range.mp hc).ne]
    rw [children, range_succ, countP_append, hrest, countP_singleton, update_self]
    cases parent with
    | none => rfl
    | some p => simp [count_singleton, beq_iff_eq]
  refine ⟨?_, forall_mem_append.mpr ⟨fun e he => (h.list_lt e he).trans (lt_succ_self next),
    forall_mem_singleton.mpr (lt_succ_self next)⟩, fun c p hc => ?_, fun e he => ?_,
    fun e he => ?_, fun e he => ?_⟩
  · refine h.nodup.append (nodup_singleton next) ?_
    rwa [disjoint_singleton]
  · by_cases hcn : c = next
    · subst hcn
      rw [update_self] at hc
      exact ⟨h.lt_next (hparent p hc), lt_succ_self c⟩
    · rw [update_of_ne hcn] at hc
      have hbelow := h.parent_lt c p hc
      omega
  · have hheld := houtside e
    have hbefore := h.outside_lt e (by omega)
    omega
  · have hheld := houtside e
    have hcount := hchildren e
    rw [count_append]
    by_cases hen : e = next
    · subst hen
      rw [update_self, count_eq_zero.mpr hfresh, count_singleton_self]
      show (1 : ℤ) = _
      omega
    · have href := h.ref_eq e (by omega)
      have hother : [next].count e = 0 := count_eq_zero.mpr (by simpa using hen)
      rw [update_of_ne hen, hother]
      omega
  · by_cases hen : e = next
    · subst hen
      rw [update_self]
      rfl
    · rw [update_of_ne hen]
      exact h.closed_eq e (by omega)

end

/-! ## What a call in progress holds -/

section Run

variable {Tid : Type*} [Fintype Tid] {s s' : State Tid} {t : Tid} {extra extra' : List ℕ}

/-- The invariant in the middle of a step, where the code holds further references. -/
def Owed (s : State Tid) (extra : List ℕ) : Prop :=
  Inv s.next s.dev s.list fun e => s.outside e + extra.count e

theorem Owed.bio_open (h : Owed s []) {name : String} (hopen : bioOpen s name = some (d, s')) :
    Owed s' [d] ∧ s'.pc = s.pc := by
  obtain ⟨found, hfind, hfound⟩ := Option.map_eq_some_iff.mp hopen
  cases hfound
  refine ⟨?_, rfl⟩
  have hinc := Inv.inc_ref h (mem_of_find?_eq_some hfind)
  have houtside : update (fun e => s.outside e + List.count e []) d
      (s.outside d + List.count d [] + 1) = fun e => s.outside e + [d].count e := by
    funext e
    by_cases hed : e = d
    · subst hed
      rw [update_self, count_nil, count_singleton_self]
    · rw [update_of_ne hed, count_nil, count_eq_zero.mpr (by simpa using hed)]
  rw [houtside] at hinc
  exact hinc

/-- Giving back the reference that the code holds. -/
theorem Owed.dec_ref (h : Owed s (d :: extra)) : Owed (bioClose s d) extra := by
  have hheld : 0 < s.outside d + (d :: extra).count d := by
    rw [count_cons_self]
    omega
  have hdec := Inv.dec_ref h hheld (h.lt_next hheld)
  have houtside : update (fun e => s.outside e + (d :: extra).count e) d
      (s.outside d + (d :: extra).count d - 1) = fun e => s.outside e + extra.count e := by
    funext e
    by_cases hed : e = d
    · subst hed
      rw [update_self, count_cons_self]
      omega
    · rw [update_of_ne hed, count_cons_of_ne (Ne.symm hed)]
  rw [houtside] at hdec
  exact hdec

/-- A device that is on the list is unregistered. -/
theorem Owed.bio_unregister (h : Owed s extra) (hmem : d ∈ s.list) :
    Owed (bioUnregisterDevice s d) extra := by
  refine Owed.dec_ref ?_
  have hunlist := Inv.unlist h hmem
  have houtside : update (fun e => s.outside e + extra.count e) d
      (s.outside d + extra.count d + 1) = fun e => s.outside e + (d :: extra).count e := by
    funext e
    by_cases hed : e = d
    · subst hed
      rw [update_self, count_cons_self]
      rfl
    · rw [update_of_ne hed, count_cons_of_ne (Ne.symm hed)]
  rw [houtside] at hunlist
  exact hunlist

theorem Owed.bio_register (h : Owed s parent.toList) (name : String) :
    Owed (bioRegisterDevice s name parent) [] := by
  have hheld : ∀ p, parent = some p → 0 < s.outside p + parent.toList.count p := by
    rintro p rfl
    show 0 < s.outside p + [p].count p
    rw [count_singleton_self]
    omega
  have hdev : update
      (update s.dev s.next ⟨name, 0, parent, 0⟩) s.next
      { update s.dev s.next (⟨name, 0, parent, 0⟩ : Dev) s.next with
        ref := (update s.dev s.next (⟨name, 0, parent, 0⟩ : Dev) s.next).ref + 1 } =
        update s.dev s.next ⟨name, 1, parent, 0⟩ := by
    rw [update_self, update_idem]
    rfl
  unfold Owed bioRegisterDevice incRef
  rw [hdev]
  exact .register h name hheld fun e => rfl

variable [DecidableEq Tid]

/-- The references that the code holds become those of the place it goes to. -/
theorem Owed.go_to (h : Owed s extra) {pc : Pc}
    (hheld : ∀ e, (s.pc t).held.count e + extra.count e = pc.held.count e + extra'.count e) :
    Owed (goTo s t pc) extra' := by
  have houtside : (fun e => (goTo s t pc).outside e + extra'.count e) =
      fun e => s.outside e + extra.count e := by
    funext e
    have hsum := Tally.sum_update s.pc (fun pc => pc.held.count e) t pc
    have hsame := hheld e
    show s.handles.count e + ∑ u, (update s.pc t pc u).held.count e + extra'.count e =
      s.handles.count e + ∑ u, (s.pc u).held.count e + extra.count e
    omega
  unfold Owed
  rw [houtside]
  exact h

/-- One step of a thread, where the boot sector can be read and a device that is unregistered is on
the list. -/
theorem Owed.run_thread (h : Owed s []) {outcome : Outcome}
    (hread : ∀ device dev, s.pc t = .read device dev → outcome ≠ .failed)
    (hlisted : ∀ dev ∈ (s.pc t).unregisters, dev ∈ s.list)
    (hrun : runThread s t outcome = some s') : Owed s' [] := by
  unfold runThread at hrun
  split at hrun
  case h_1 => cases hrun
  case h_2 device i publish hpc =>
    split at hrun
    · split at hrun
      · cases hrun
        exact h.go_to fun e => by rw [hpc]; rfl
      · next dev s₁ hopen =>
        cases hrun
        obtain ⟨hopened, hpcs⟩ := h.bio_open hopen
        exact hopened.go_to fun e => by rw [hpcs, hpc]; simp [Pc.held]
    split at hrun
    · cases hrun
      exact h.go_to fun e => by rw [hpc]; rfl
    · cases hrun
      exact h.go_to fun e => by rw [hpc]; rfl
  case h_3 device i publish dev hpc =>
    cases hrun
    rw [hpc] at hlisted
    have hunregistered := h.bio_unregister (hlisted dev rfl)
    exact hunregistered.go_to fun e => by
      show (s.pc t).held.count e + _ = _
      rw [hpc]
      rfl
  case h_4 device i publish dev hpc =>
    cases hrun
    exact .dec_ref (h.go_to fun e => by rw [hpc]; simp [Pc.held])
  case h_5 device hpc =>
    split at hrun
    · cases hrun
      exact h.go_to fun e => by rw [hpc]; rfl
    · next dev s₁ hopen =>
      cases hrun
      obtain ⟨hopened, hpcs⟩ := h.bio_open hopen
      exact hopened.go_to fun e => by rw [hpcs, hpc]; simp [Pc.held]
  case h_6 device dev hpc =>
    split at hrun
    · exact absurd rfl (hread device dev hpc)
    · cases hrun
      exact h.go_to fun e => by rw [hpc]; rfl
    · cases hrun
      exact h.go_to fun e => by rw [hpc]; rfl
    · cases hrun
  case h_7 device dev parts hpc =>
    split at hrun
    · cases hrun
      exact h.go_to fun e => by rw [hpc]; rfl
    split at hrun
    · cases hrun
      exact h.go_to fun e => by rw [hpc]; rfl
    next parent s₁ hopen =>
    cases hrun
    obtain ⟨hopened, hpcs⟩ := h.bio_open hopen
    exact hopened.go_to fun e => by
      rw [hpcs, hpc]
      simp only [Pc.held, count_cons, count_nil]
      omega
  case h_8 device dev i parts parent hpc =>
    have hleave : Owed (goTo s t (.publish device dev parts)) [parent] := h.go_to fun e => by
      rw [hpc]
      simp only [Pc.held, count_cons, count_nil]
      omega
    split at hrun
    · cases hrun
      exact hleave.dec_ref
    · cases hrun
      have hparent : Owed (goTo s t (.publish device dev parts)) (some parent).toList := hleave
      exact hparent.bio_register (partName device i)
    · cases hrun
    · cases hrun
  case h_9 dev hpc =>
    cases hrun
    exact .dec_ref (h.go_to fun e => by rw [hpc]; simp [Pc.held])

/-- The read of the boot sector does not fail, and a device is unregistered only while it is on the
list. -/
def Orderly (s : State Tid) : Action Tid → Prop
  | .unregister dev => dev ∈ s.list
  | .run t outcome =>
    (outcome = .failed → ¬ (s.pc t).reading) ∧ ∀ dev ∈ (s.pc t).unregisters, dev ∈ s.list
  | _ => True

/-- Whether a step is orderly can be tested. -/
instance (s : State Tid) (action : Action Tid) : Decidable (Orderly s action) := by
  unfold Orderly
  split <;> infer_instance

/-- An orderly step keeps the counts. -/
theorem Owed.step {action : Action Tid} (h : Owed s []) (hguard : Orderly s action)
    (hstep : step s action = some s') : Owed s' [] := by
  cases action with
  | register name =>
    cases hstep
    have hnone : Owed s (none : Option ℕ).toList := h
    exact hnone.bio_register name
  | «open» name =>
    unfold References.step at hstep
    dsimp only at hstep
    split at hstep
    · cases hstep
      exact h
    next dev s₁ hopen =>
    cases hstep
    obtain ⟨hopened, -⟩ := h.bio_open hopen
    have houtside : (fun e => State.outside { s₁ with handles := dev :: s₁.handles } e +
        List.count e []) = fun e => s₁.outside e + [dev].count e := by
      funext e
      show (dev :: s₁.handles).count e + ∑ t, (s₁.pc t).held.count e + 0 =
        s₁.handles.count e + ∑ t, (s₁.pc t).held.count e + [dev].count e
      rw [count_cons, count_singleton]
      omega
    unfold Owed
    rw [houtside]
    exact hopened
  | close dev =>
    unfold References.step at hstep
    obtain ⟨hmem, ⟨⟩⟩ := Option.ite_none_right_eq_some.mp hstep
    refine .dec_ref ?_
    have houtside : (fun e => State.outside { s with handles := s.handles.erase dev } e +
        [dev].count e) = fun e => s.outside e + List.count e [] := by
      funext e
      have hcount := (perm_cons_erase hmem).count_eq e
      show (s.handles.erase dev).count e + ∑ t, (s.pc t).held.count e + [dev].count e =
        s.handles.count e + ∑ t, (s.pc t).held.count e + 0
      rw [count_cons] at hcount
      rw [count_singleton]
      omega
    unfold Owed
    rw [houtside]
    exact h
  | unregister dev =>
    cases hstep
    exact h.bio_unregister hguard
  | partitionPublish t device | partitionUnpublish t device =>
    unfold References.step at hstep
    dsimp only at hstep
    split at hstep
    · next hpc =>
      cases hstep
      exact h.go_to fun e => by rw [hpc]; rfl
    · cases hstep
  | run t outcome =>
    refine h.run_thread (fun device dev hpc hfailed => ?_) hguard.2 hstep
    have hnot := hguard.1 hfailed
    rw [hpc] at hnot
    exact hnot rfl

abbrev Reachable (guard : State Tid → Action Tid → Prop) (s : State Tid) : Prop :=
  Transition.Reachable References.step guard (fun s => s = initial) s

theorem owed_reachable (h : Reachable Orderly s) : Owed s [] := by
  refine Transition.Reachable.invariant_from (P := fun s => Owed s []) ?_ (fun hs => hs.step) h
  refine ⟨nodup_nil, fun d hd => ?_, fun c p hc => ?_, fun d _ => ?_, fun d hd => ?_,
    fun d hd => ?_⟩
  · cases hd
  · cases hc
  · show [].count d + ∑ t : Tid, [].count d + [].count d = 0
    simp
  · exact absurd hd (Nat.not_lt_zero d)
  · exact absurd hd (Nat.not_lt_zero d)

/-- Wherever the threads are, the count of a device is one while it is registered and one for
every open that is not closed, and the close hook ran, once, when neither is left. -/
theorem references_balance (h : Reachable Orderly s) {d : ℕ} (hd : d < s.next) :
    (s.dev d).ref = (if d ∈ s.list then 1 else 0) + s.opens d ∧
      (s.dev d).closed = if d ∉ s.list ∧ s.opens d = 0 then 1 else 0 := by
  have hinv : Inv s.next s.dev s.list s.outside := owed_reachable h
  have hlisted : s.list.count d = if d ∈ s.list then 1 else 0 := by
    rw [hinv.nodup.count]
  have href : (s.dev d).ref = (if d ∈ s.list then 1 else 0) + s.opens d := by
    have hcounted := hinv.ref_eq d hd
    rw [hlisted] at hcounted
    rw [hcounted, State.opens]
    push_cast
    omega
  refine ⟨href, ?_⟩
  rw [hinv.closed_eq d hd, href]
  refine if_congr ?_ rfl rfl
  by_cases hmem : d ∈ s.list
  · rw [if_pos hmem]
    constructor
    · omega
    · exact fun hnot => absurd hmem hnot.1
  rw [if_neg hmem]
  constructor
  · exact fun hzero => ⟨hmem, by omega⟩
  · rintro ⟨-, hzero⟩
    rw [hzero]
    rfl

/-- A partition is published: the device is registered, and its subdevice has it open. After both
are unregistered, each close hook ran once. -/
theorem references_balance_published :
    (∃ s : State Unit, Reachable Orderly s ∧ 0 < s.next ∧ (s.dev 0).ref = 2 ∧
        (s.dev 0).ref = (if 0 ∈ s.list then 1 else 0) + s.opens 0) ∧
      ∃ s : State Unit, Reachable Orderly s ∧ 0 < s.next ∧ (s.dev 0).closed = 1 ∧
        (s.dev 0).closed = if 0 ∉ s.list ∧ s.opens 0 = 0 then 1 else 0 := by
  constructor
  · obtain ⟨s, hreach, hnext, href⟩ := exists_reachable step Orderly initial
      (P := fun s : State Unit => 0 < s.next ∧ (s.dev 0).ref = 2)
      (.register "d" :: .partitionPublish () "d" :: replicate 18 (.run () .noTable) ++
        [.run () (.table [0]), .run () .accepted, .run () .accepted, .run () .accepted,
          .run () .accepted])
      (by decide +kernel) (by decide +kernel)
    exact ⟨s, hreach, hnext, href, (references_balance hreach hnext).1⟩
  · obtain ⟨s, hreach, hnext, hclosed⟩ := exists_reachable step Orderly initial
      (P := fun s : State Unit => 0 < s.next ∧ (s.dev 0).closed = 1)
      [.register "d", .open "d", .unregister 0, .close 0] (by decide +kernel) (by decide +kernel)
    exact ⟨s, hreach, hnext, hclosed, (references_balance hreach hnext).2⟩

/-- The read of the boot sector fails: `partition_publish` returns with the device open. Nobody
holds it after that, it is unregistered, and the close hook has not run. -/
theorem reference_leaked :
    ∃ s : State Unit, Reachable Always s ∧ s.pc () = .idle ∧ 0 < s.next ∧ s.list = [] ∧
      s.opens 0 = 0 ∧ (s.dev 0).ref = 1 ∧ (s.dev 0).closed = 0 :=
  exists_reachable step Always initial
    (.register "d" :: .partitionPublish () "d" :: replicate 18 (.run () .noTable) ++
      [.run () .failed, .unregister 0])
    (admits_always _ _) (by decide +kernel)

end Run

end NusaKernel.Bio.References
