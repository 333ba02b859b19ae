import NusaKernel.Kernel.PortBuffer

/-!
# Delivery through ports

What is written to a port of `kernel/port.c`, and what its read ports return. The state of the
ports is run together with a history: for each write port the packets that wait for a first
reader, and for each read port the packets it found waiting when it was opened, those that were
accepted for it since, and those it returned. The history looks at calls and their results, and
at whether a read port has room, never at the packets in a buffer.

`delivered_in_order` says that a read port returns what it found and what was accepted, in order,
and that a write that reports success has stored its packets for every reader.
-/

namespace NusaKernel.Port

open Placement List Function Option

universe u

/-! ## History -/

/-- The packets that wait at a write port without readers; and for a read port the packets it
took over when it was opened, those accepted for it since, and those it returned. -/
structure History (Pid Packet : Type u) where
  pending : Pid → List Packet
  inherited : Pid → List Packet
  accepted : Pid → List Packet
  returned : Pid → List (Option Packet)

/-- The packet that a call of `port_read` returns. -/
def Outcome.packet? {Packet : Type u} : Outcome Packet → Option (Option Packet)
  | .returned _ (some (_, packet)) => some packet
  | .returned _ none | .blocked => none

variable {Pid Tid Packet : Type u} {object : Option (Object Pid Packet)} {wp : WritePort Pid Packet}
  {rp : ReadPort Pid Packet} {h' : History Pid Packet}

/-- There is room for the packets in the buffer of a read port. -/
def hasRoom (s : State Pid Tid Packet) (packets : List Packet) (r : Pid) : Bool :=
  (readPort? s r).any fun rp => packets.length ≤ rp.buf.avail

/-- The calls that make ports, open them, write, read and close, together with the timeouts and
returns of blocked readers. No groups are made and no port is destroyed. -/
def OnPorts : Action Pid Tid Packet → Prop
  | .create _ _ _ _ | .open _ _ _ _ | .write _ _ | .read _ _ _ | .resume _ | .timeout _
  | .close _ => True
  | .group _ _ _ | .groupAdd _ _ | .groupRemove _ _ | .destroy _ => False

/-- `OnPorts` can be checked along a run. -/
instance (action : Action Pid Tid Packet) : Decidable (OnPorts action) := by
  cases action <;> unfold OnPorts <;> infer_instance

namespace History

/-- Nothing has been written or read. -/
def empty : History Pid Packet := ⟨fun _ => [], fun _ => [], fun _ => [], fun _ => []⟩

variable [DecidableEq Pid]

section

variable (h : History Pid Packet)
include h

/-- A write port has been created. -/
def created (w : Pid) : History Pid Packet :=
  { h with pending := update h.pending w [] }

/-- A read port has been opened. The first reader takes over what waits. -/
def opened (w r : Pid) (first : Bool) : History Pid Packet where
  pending := if first then update h.pending w [] else h.pending
  inherited := update h.inherited r (if first then h.pending w else [])
  accepted := update h.accepted r []
  returned := update h.returned r []

/-- A write has been accepted for those of the readers that have room, or, if there are no
readers, waits at the write port. -/
def wrote (s : State Pid Tid Packet) (w : Pid) (readers : List Pid) (packets : List Packet)
    (status : Status) : History Pid Packet :=
  { h with
    pending :=
      if readers = [] ∧ status = noError then
        update h.pending w (h.pending w ++ packets)
      else h.pending
    accepted := fun r =>
      if r ∈ readers ∧ hasRoom s packets r = true then h.accepted r ++ packets else h.accepted r }

/-- A read port has returned a packet. -/
def took (r : Pid) (packet : Option Packet) : History Pid Packet :=
  { h with returned := update h.returned r (h.returned r ++ [packet]) }

/-- The last reader has been closed. What it did not return waits for the next. -/
def lastClosed (w r : Pid) : History Pid Packet :=
  { h with
    pending := update h.pending w
      ((h.inherited r ++ h.accepted r).drop (h.returned r).length) }

end

end History

/-! ## The invariant -/

/-- The readers of an object, if it is a write port. -/
def readersOf : Option (Object Pid Packet) → List Pid
  | some (.write wp) => wp.rpList
  | some (.read _) | some .group | none => []

/-- The write port that an object is attached to, if it is a read port. -/
def wportOf : Option (Object Pid Packet) → Option Pid
  | some (.read rp) => rp.wport
  | some (.write _) | some .group | none => none

/-- A write port has a buffer of its own as long as it has no readers, with the packets that
wait. -/
structure WriteInv (h : History Pid Packet) (w : Pid) (wp : WritePort Pid Packet) : Prop where
  own : ∀ buf, wp.buf = some buf → wp.rpList = [] ∧ BufInv buf ∧ unread buf = (h.pending w).map some
  handed : wp.buf = none → wp.rpList ≠ []

/-- A read port has returned, or still holds, what it took over and what was accepted. -/
structure ReadInv (h : History Pid Packet) (r : Pid) (rp : ReadPort Pid Packet) : Prop where
  buf : BufInv rp.buf
  attached : rp.wport ≠ none
  stream : (h.inherited r ++ h.accepted r).map some = h.returned r ++ unread rp.buf

/-- What the history says of the object at an address. -/
def ObjectInv (h : History Pid Packet) (p : Pid) : Option (Object Pid Packet) → Prop
  | some (.write wp) => WriteInv h p wp
  | some (.read rp) => ReadInv h p rp
  | some .group => False
  | none => True

/-- The invariant of the ports and their history. -/
structure DeliveryInv (s : State Pid Tid Packet) (h : History Pid Packet) : Prop where
  placed : Placed (readersOf ∘ s.heap) (wportOf ∘ s.heap)
  object : ∀ p, ObjectInv h p (s.heap p)

/-- Two histories say the same about an address. -/
structure History.SameAt (h h' : History Pid Packet) (p : Pid) : Prop where
  pending : h'.pending p = h.pending p
  inherited : h'.inherited p = h.inherited p
  accepted : h'.accepted p = h.accepted p
  returned : h'.returned p = h.returned p

theorem ObjectInv.congr {h : History Pid Packet} {p : Pid} (hinv : ObjectInv h p object)
    (hsame : h.SameAt h' p) : ObjectInv h' p object := by
  match object with
  | none => trivial
  | some .group => exact hinv
  | some (.write wp) =>
    refine ⟨fun buf hbuf => ?_, WriteInv.handed hinv⟩
    rw [hsame.pending]
    exact WriteInv.own hinv buf hbuf
  | some (.read rp) =>
    refine ⟨ReadInv.buf hinv, ReadInv.attached hinv, ?_⟩
    rw [hsame.inherited, hsame.accepted, hsame.returned]
    exact ReadInv.stream hinv

/-! ## What the calls keep -/

variable {s s' : State Pid Tid Packet} {h : History Pid Packet} {w p r : Pid}
  {heap : Pid → Option (Object Pid Packet)} {buf : Buf Packet} {t : Tid}
  {result : Outcome Packet × State Pid Tid Packet} {name : List UInt8} {status : Status}
  {packets : List Packet} {outcome : Outcome Packet} {call : ReadCall Pid}

theorem DeliveryInv.initial : DeliveryInv (initial : State Pid Tid Packet) .empty :=
  ⟨Placed.empty, fun _ => trivial⟩

theorem exists_read_of_wport (hwport : wportOf (s.heap r) = some w) :
    ∃ rp, s.heap r = some (.read rp) := by
  unfold wportOf at hwport
  split at hwport
  · next rp hr => exact ⟨rp, hr⟩
  all_goals cases hwport

theorem has_room_eq (hr : s.heap r = some (.read rp)) (packets : List Packet) :
    hasRoom s packets r = decide (packets.length ≤ rp.buf.avail) := by
  rw [hasRoom, read_port_eq_some.mpr hr]
  rfl

section

variable (hinv : DeliveryInv s h)
include hinv

theorem DeliveryInv.object_at (hp : s.heap p = object) : ObjectInv h p object :=
  hp ▸ hinv.object p

theorem DeliveryInv.write (hw : s.heap w = some (.write wp)) : WriteInv h w wp :=
  hinv.object_at hw

theorem DeliveryInv.read (hr : s.heap r = some (.read rp)) : ReadInv h r rp :=
  hinv.object_at hr

/-- The readers of a write port are the read ports that are attached to it. -/
theorem DeliveryInv.mem_readers_iff (hw : s.heap w = some (.write wp)) :
    r ∈ wp.rpList ↔ wportOf (s.heap r) = some w := by
  have hmem := hinv.placed.mem_iff w r
  rw [comp_apply, hw] at hmem
  exact hmem

theorem DeliveryInv.nodup_readers (hw : s.heap w = some (.write wp)) : wp.rpList.Nodup := by
  have hnodup := hinv.placed.nodup w
  rw [comp_apply, hw] at hnodup
  exact hnodup

theorem DeliveryInv.of_heap_eq (hheap : s'.heap = s.heap) :
    DeliveryInv s' h := by
  refine ⟨?_, ?_⟩
  · rw [hheap]
    exact hinv.placed
  · rw [hheap]
    exact hinv.object

end

variable [DecidableEq Pid] {memory : Bool} {ret : Status}

/-- Replacing an object changes nothing for a function that does not see the difference. -/
theorem comp_update_of_eq {β : Type*} {g : Option (Object Pid Packet) → β}
    (heq : g object = g (heap p)) : g ∘ update heap p object = g ∘ heap := by
  rw [comp_update, heq]
  exact update_eq_self p (g ∘ heap)

theorem object_inv_update (hobject : ObjectInv h p object)
    (hothers : ∀ q, q ≠ p → ObjectInv h q (heap q)) (q : Pid) :
    ObjectInv h q (update heap p object q) :=
  (forall_update_iff heap (ObjectInv h)).mpr ⟨hobject, hothers⟩ q

section

variable (hinv : DeliveryInv s h)
include hinv

/-- Replacing an object by one with the same readers that is attached to the same write port. -/
theorem DeliveryInv.replace (hheap : s'.heap = update s.heap p object)
    (hreaders : readersOf object = readersOf (s.heap p))
    (hwport : wportOf object = wportOf (s.heap p)) (hobject : ObjectInv h' p object)
    (hothers : ∀ q, q ≠ p → h.SameAt h' q) : DeliveryInv s' h' := by
  refine ⟨?_, ?_⟩
  · rw [hheap, comp_update_of_eq hreaders, comp_update_of_eq hwport]
    exact hinv.placed
  · rw [hheap]
    exact object_inv_update hobject fun q hq => (hinv.object q).congr (hothers q hq)

/-- A new write port at a free address. -/
theorem DeliveryInv.create (hfree : s.heap p = none) (hreaders : wp.rpList = [])
    (hbuf : wp.buf = some buf) (hinvBuf : BufInv buf) (hempty : unread buf = [])
    (hheap : s'.heap = update s.heap p (some (.write wp))) :
    DeliveryInv s' (h.created p) := by
  refine hinv.replace hheap (by rw [hfree]; exact hreaders) (by rw [hfree]; rfl) ?_
    fun q hq => ⟨update_of_ne hq _ _, rfl, rfl, rfl⟩
  refine ⟨fun buf' hbuf' => ⟨hreaders, ?_⟩, fun hnone => ?_⟩
  · rw [hbuf] at hbuf'
    cases hbuf'
    refine ⟨hinvBuf, ?_⟩
    show unread buf = (update h.pending p [] p).map some
    rw [hempty, update_self]
    rfl
  · rw [hbuf] at hnone
    cases hnone

/-- A new read port takes over what waits if it is the first, and starts empty otherwise. -/
theorem DeliveryInv.attach (hfree : s.heap p = none) (hw : s.heap w = some (.write wp))
    {first : Bool} (ctx : ℕ) (hbuf : BufInv buf)
    (hunread : unread buf = (if first then h.pending w else []).map some) :
    DeliveryInv (attach s w wp p ctx buf) (h.opened w p first) := by
  have hne : p ≠ w := by
    rintro rfl
    rw [hfree] at hw
    cases hw
  refine ⟨?_, ?_⟩
  · have hnone : (wportOf ∘ s.heap) p = none := by
      rw [comp_apply, hfree]
      rfl
    have hreaders : (readersOf ∘ s.heap) w = wp.rpList := by
      rw [comp_apply, hw]
      rfl
    have hfree' : ∀ object, update s.heap w object p = none := by
      intro object
      rw [update_of_ne hne, hfree]
    show Placed (readersOf ∘ update (update s.heap w _) p _)
      (wportOf ∘ update (update s.heap w _) p _)
    rw [comp_update_of_eq (by rw [hfree']; rfl), comp_update, comp_update,
      comp_update_of_eq (by rw [hw]; rfl)]
    have hplaced := hinv.placed.append hnone (i := w)
    rw [hreaders] at hplaced
    exact hplaced
  · refine object_inv_update ?_ fun q hq => object_inv_update ?_ (fun v hv => ?_) q
    · refine ⟨hbuf, nofun, ?_⟩
      simp [History.opened, hunread]
    · exact ⟨nofun, fun _ => append_ne_nil_of_right_ne_nil _ (cons_ne_nil p [])⟩
    by_cases hvp : v = p
    · rw [hvp, hfree]
      trivial
    refine (hinv.object v).congr ⟨?_, update_of_ne hvp _ _,
      update_of_ne hvp _ _, update_of_ne hvp _ _⟩
    show (if first then update h.pending w [] else h.pending) v = h.pending v
    split
    · exact update_of_ne hv _ _
    · rfl

/-- A read port that returns a packet. -/
theorem DeliveryInv.took (hr : s.heap r = some (.read rp)) {packet : Option Packet}
    (hread : bufRead rp.buf = .ok (packet, buf))
    (hheap : s'.heap = update s.heap r (some (.read { rp with buf }))) :
    DeliveryInv s' (h.took r packet) := by
  have hrinv := hinv.read hr
  obtain ⟨hbuf, hunread⟩ := hrinv.buf.of_buf_read hread
  refine hinv.replace hheap (by rw [hr]; rfl) (by rw [hr]; rfl) ⟨hbuf, hrinv.attached, ?_⟩
    fun q hq => ⟨rfl, rfl, rfl, update_of_ne hq _ _⟩
  show _ = update h.returned r (h.returned r ++ [packet]) r ++ unread buf
  rw [update_self, append_assoc, singleton_append, ← hunread]
  exact hrinv.stream

/-- A write that waits at a port without readers. -/
theorem DeliveryInv.write_own (hw : s.heap w = some (.write wp)) (hown : wp.buf = some buf)
    (packets : List Packet)
    (hheap : s'.heap = update s.heap w
      (some (.write { wp with buf := some (bufWrite buf packets).2 }))) :
    DeliveryInv s' (h.wrote s w wp.rpList packets (bufWrite buf packets).1) := by
  obtain ⟨hreaders, hbuf, hunread⟩ := (hinv.write hw).own buf hown
  have haccepted (q : Pid) :
      (h.wrote s w wp.rpList packets (bufWrite buf packets).1).accepted q = h.accepted q := by
    refine if_neg fun hcond => ?_
    rw [hreaders] at hcond
    cases hcond.1
  refine hinv.replace hheap (by rw [hw]; rfl) (by rw [hw]; rfl) ?_
    fun q hq => ⟨?_, rfl, haccepted q, rfl⟩
  · refine ⟨fun buf' hbuf' => ⟨hreaders, ?_⟩, nofun⟩
    cases hbuf'
    refine ⟨hbuf.of_buf_write packets, ?_⟩
    show unread (bufWrite buf packets).2 = ((if _ then _ else h.pending : Pid → _) w).map some
    rcases Nat.lt_or_ge buf.avail packets.length with hfull | hroom
    · rw [buf_write_of_lt hfull, if_neg fun hcond =>
        absurd hcond.2 (show errNotEnoughBuffer ≠ noError by decide)]
      exact hunread
    · obtain ⟨hstatus, _, _, hwritten⟩ := hbuf.buf_write hroom
      rw [hwritten, if_pos ⟨hreaders, hstatus⟩, update_self, map_append, hunread]
  · show (if _ then _ else h.pending : Pid → _) q = h.pending q
    split
    · exact update_of_ne hq _ _
    · rfl

end

section

variable (hinv : DeliveryInv s h)
include hinv

theorem DeliveryInv.write_readers (hw : s.heap w = some (.write wp))
    (hnone : wp.buf = none) (packets : List Packet) (status : Status)
    (hheap : ∀ q, s'.heap q =
      if q ∈ wp.rpList then (s.heap q).map (Object.deliver packets) else s.heap q) :
    DeliveryInv s' (h.wrote s w wp.rpList packets status) := by
  have hreaders := (hinv.write hw).handed hnone
  have hsame {β : Type u} (g : Option (Object Pid Packet) → β)
      (hg : ∀ object, g (Option.map (Object.deliver packets) object) = g object) :
      g ∘ s'.heap = g ∘ s.heap := by
    funext q
    rw [comp_apply, comp_apply, hheap]
    split
    · exact hg _
    · rfl
  refine ⟨?_, fun q => ?_⟩
  · rw [hsame readersOf, hsame wportOf]
    · exact hinv.placed
    · rintro (_ | _ | _ | _) <;> rfl
    · rintro (_ | _ | _ | _) <;> rfl
  have hpending : (h.wrote s w wp.rpList packets status).pending = h.pending :=
    if_neg fun hcond => hreaders hcond.1
  rw [hheap]
  by_cases hq : q ∈ wp.rpList
  · rw [if_pos hq]
    obtain ⟨rp, hr⟩ := exists_read_of_wport ((hinv.mem_readers_iff hw).mp hq)
    have hrinv := hinv.read hr
    rw [hr]
    refine ⟨hrinv.buf.of_buf_write packets, hrinv.attached, ?_⟩
    show (h.inherited q ++ if _ then h.accepted q ++ packets else h.accepted q).map some =
      h.returned q ++ unread (bufWrite rp.buf packets).2
    rw [has_room_eq hr]
    rcases Nat.lt_or_ge rp.buf.avail packets.length with hfull | hroom
    · rw [buf_write_of_lt hfull, if_neg (by simpa using fun _ => hfull)]
      exact hrinv.stream
    · rw [(hrinv.buf.buf_write hroom).2.2.2, if_pos ⟨hq, decide_eq_true hroom⟩,
        ← append_assoc, ← append_assoc, ← hrinv.stream, map_append]
  · rw [if_neg hq]
    exact (hinv.object q).congr ⟨congrFun hpending q, rfl, if_neg fun hcond => hq hcond.1, rfl⟩

/-- Closing a read port. The last one leaves its packets to the write port. -/
theorem DeliveryInv.close_read (hr : s.heap r = some (.read rp))
    (hwport : rp.wport = some w) (hw : s.heap w = some (.write wp))
    (hheap : s'.heap = update (update s.heap w (some (.write { wp with
      rpList := wp.rpList.erase r
      buf := if (wp.rpList.erase r).isEmpty then some rp.buf else wp.buf }))) r none) :
    DeliveryInv s' (if (wp.rpList.erase r).isEmpty then h.lastClosed w r else h) := by
  have hne : r ≠ w := by
    rintro rfl
    rw [hr] at hw
    cases hw
  have hplace : (wportOf ∘ s.heap) r = some w := by
    rw [comp_apply, hr]
    exact hwport
  have hreaders : (readersOf ∘ s.heap) w = wp.rpList := by
    rw [comp_apply, hw]
    rfl
  have hmem : r ∈ wp.rpList := (hinv.mem_readers_iff hw).mpr hplace
  have hrinv := hinv.read hr
  refine ⟨?_, ?_⟩
  · have hr' : ∀ object, update s.heap w object r = some (.read rp) := by
      intro object
      rw [update_of_ne hne, hr]
    rw [hheap, comp_update_of_eq (by rw [hr']; rfl), comp_update, comp_update,
      comp_update_of_eq (by rw [hw]; rfl)]
    have hplaced := hinv.placed.erase hplace
    rw [hreaders] at hplaced
    exact hplaced
  rw [hheap]
  refine object_inv_update trivial fun q hq => object_inv_update ?_ (fun v hv => ?_) q
  · refine ⟨fun buf hbuf => ?_, fun hnone => ?_⟩
    · by_cases hlast : (wp.rpList.erase r).isEmpty = true
      · rw [if_pos hlast] at hbuf
        cases hbuf
        refine ⟨List.isEmpty_iff.mp hlast, hrinv.buf, ?_⟩
        rw [if_pos hlast]
        show unread rp.buf = (update h.pending w _ w).map some
        rw [update_self, map_drop, hrinv.stream, drop_left]
      · rw [if_neg hlast] at hbuf
        rw [((hinv.write hw).own buf hbuf).1] at hmem
        cases hmem
    · by_cases hlast : (wp.rpList.erase r).isEmpty = true
      · rw [if_pos hlast] at hnone
        cases hnone
      · exact fun hnil => hlast (List.isEmpty_iff.mpr hnil)
  · refine (hinv.object v).congr ?_
    split
    · exact ⟨update_of_ne hv _ _, rfl, rfl, rfl⟩
    · exact ⟨rfl, rfl, rfl, rfl⟩

theorem DeliveryInv.close_write (hw : s.heap w = some (.write wp)) :
    DeliveryInv (store s w (.write { wp with closed := true })) h :=
  hinv.replace (heap_store s w _) (by rw [hw]; rfl) (by rw [hw]; rfl)
    ⟨(hinv.write hw).own, (hinv.write hw).handed⟩ fun _ _ => ⟨rfl, rfl, rfl, rfl⟩

theorem DeliveryInv.port_create (hfree : s.heap p = none)
    (name : List UInt8) (mode : BitVec 32) (memory : Bool) :
    DeliveryInv (portCreate s name mode memory p).2.2
      (if (portCreate s name mode memory p).1 = noError then h.created p else h) := by
  rcases port_create_cases s name mode memory p with
    ⟨_, _, hstatus, heq⟩ | ⟨wp, hreaders, ⟨big, hbuf⟩, heq⟩
  · rw [heq, if_neg hstatus]
    exact hinv
  · rw [heq, if_pos rfl]
    exact hinv.create hfree hreaders hbuf (buf_inv_make_buf big) (unread_make_buf big) rfl

end

/-! ## Recorded runs -/

/-- The history after a call, from the state before it and its outcome. -/
def record (s : State Pid Tid Packet) (h : History Pid Packet) (outcome : Outcome Packet) :
    Action Pid Tid Packet → History Pid Packet
  | .create _ _ _ p =>
    match outcome with
    | .returned status _ => if status = noError then h.created p else h
    | .blocked => h
  | .open name _ _ p =>
    match outcome, lookup s name with
    | .returned status _, some (w, wp) =>
      if status = noError then h.opened w p wp.rpList.isEmpty else h
    | _, _ => h
  | .write w packets =>
    match outcome, writePort? s w with
    | .returned status _, some wp =>
      if wp.closed then h else h.wrote s w wp.rpList packets status
    | _, _ => h
  | .read _ p _ =>
    match outcome.packet? with
    | some packet => h.took p packet
    | none => h
  | .resume t =>
    match outcome.packet?, s.waiters.phase t with
    | some packet, .woken call _ => h.took call.port packet
    | _, _ => h
  | .close p =>
    match (readPort? s p).bind ReadPort.wport with
    | some w =>
      match writePort? s w with
      | some wp => if (wp.rpList.erase p).isEmpty then h.lastClosed w p else h
      | none => h
    | none => h
  | .timeout _ | .group _ _ _ | .groupAdd _ _ | .groupRemove _ _ | .destroy _ => h

theorem record_open {ctx : ℕ} (hlookup : lookup s name = some (w, wp)) :
    record s h (.returned status none) (.open name ctx memory p) =
      if status = noError then h.opened w p wp.rpList.isEmpty else h := by
  unfold record
  simp only [hlookup]

theorem record_open_of_ne {ctx : ℕ} (hstatus : status ≠ noError) :
    record s h (.returned status none) (.open name ctx memory p) = h := by
  cases hlookup : lookup s name with
  | none =>
    unfold record
    simp only [hlookup]
  | some found => rw [record_open hlookup, if_neg hstatus]

theorem DeliveryInv.port_open (hinv : DeliveryInv s h) (hfree : s.heap p = none)
    (name : List UInt8) (ctx : ℕ) (memory : Bool) :
    DeliveryInv (portOpen s name ctx memory p).2
      (record s h (returning (portOpen s name ctx memory p)).1 (.open name ctx memory p)) := by
  rcases port_open_cases s name ctx memory p with
    ⟨status, hstatus, heq⟩ | ⟨w, wp, buf, hlookup, hbuf, heq⟩
  · rw [heq]
    show DeliveryInv s (record s h (.returned status none) _)
    rw [record_open_of_ne hstatus]
    exact hinv
  have hw := write_port_eq_some.mp (write_port_of_lookup hlookup)
  rw [heq]
  show DeliveryInv (Port.attach s w wp p ctx buf) (record s h (.returned noError none) _)
  rw [record_open hlookup, if_pos rfl]
  rcases hbuf with hbuf | ⟨hbuf, rfl⟩
  · obtain ⟨hreaders, hbufInv, hunread⟩ := (hinv.write hw).own buf hbuf
    rw [hreaders]
    exact hinv.attach hfree hw ctx hbufInv hunread
  · rw [isEmpty_eq_false_iff.mpr ((hinv.write hw).handed hbuf)]
    exact hinv.attach hfree hw ctx (buf_inv_make_buf false) (unread_make_buf false)

theorem record_write (hwp : writePort? s w = some wp) :
    record s h (.returned status none) (.write w packets) =
      if wp.closed then h else h.wrote s w wp.rpList packets status := by
  unfold record
  simp only [hwp]

theorem record_close (hr : readPort? s r = some rp) (hwport : rp.wport = some w)
    (hwp : writePort? s w = some wp) :
    record s h outcome (.close r) =
      if (wp.rpList.erase r).isEmpty then h.lastClosed w r else h := by
  unfold record
  simp only [hr, bind_some, hwport, hwp]

theorem record_close_of_none (hr : readPort? s r = none) : record s h outcome (.close r) = h := by
  unfold record
  simp only [hr, bind_none]

/-- The return of a blocked read is recorded as the read itself. -/
theorem record_resume (hphase : s.waiters.phase t = .woken call ret) :
    record s h outcome (.resume t) = record s h outcome (.read t call.port call.timeout) := by
  unfold record
  simp only [hphase]
  cases outcome.packet? with
  | none => rfl
  | some packet => rfl

variable [DecidableEq Tid] {hphase : s.waiters.phase t = .running}

/-- The ports with their history. -/
structure Traced (Pid Tid Packet : Type u) where
  state : State Pid Tid Packet
  history : History Pid Packet

/-- One step, recorded. -/
def Traced.step (x : Traced Pid Tid Packet) (action : Action Pid Tid Packet) :
    Option (Traced Pid Tid Packet) :=
  (perform x.state action).map fun result =>
    ⟨result.2, record x.state x.history result.1 action⟩

/-- The recorded runs of such calls. -/
def Traced.Reachable : Traced Pid Tid Packet → Prop :=
  Transition.Reachable Traced.step (fun _ action => OnPorts action) (· = ⟨initial, .empty⟩)

/-! ## Runs -/

/-- A read either returns the oldest packet of the port, or no packet, with nothing changed. -/
theorem port_read_cases (hgroup : s.heap p ≠ some .group) {timeout : Time}
    (hread : portRead s t p timeout hphase = some result) :
    (result.1.packet? = none ∧ result.2.heap = s.heap) ∨
    ∃ rp packet buf, s.heap p = some (.read rp) ∧ bufRead rp.buf = .ok (packet, buf) ∧
      result.1.packet? = some packet ∧
      result.2.heap = update s.heap p (some (.read { rp with buf })) := by
  unfold portRead at hread
  split at hread
  · next rp hp =>
    cases hread
    unfold readNoLock
    split
    · next packet buf hbuf => exact .inr ⟨rp, packet, buf, hp, hbuf, rfl, rfl⟩
    · left
      unfold blockReader
      split <;> exact ⟨rfl, rfl⟩
  · next hp => exact absurd hp hgroup
  · cases hread
    exact .inl ⟨rfl, rfl⟩

section

variable (hinv : DeliveryInv s h)
include hinv

theorem DeliveryInv.port_write {result : Status × State Pid Tid Packet}
    (hwrite : portWrite s w packets = some result) :
    DeliveryInv result.2 (record s h (returning result).1 (.write w packets)) := by
  unfold portWrite at hwrite
  cases hwp : writePort? s w with
  | none =>
    rw [hwp] at hwrite
    cases hwrite
    unfold record
    simp only [hwp]
    exact hinv
  | some wp =>
    have hw := write_port_eq_some.mp hwp
    simp only [hwp] at hwrite
    show DeliveryInv result.2 (record s h (.returned result.1 none) _)
    rw [record_write hwp]
    by_cases hclosed : wp.closed = true
    · rw [if_pos hclosed] at hwrite ⊢
      cases hwrite
      exact hinv
    rw [if_neg hclosed] at hwrite ⊢
    cases hbuf : wp.buf with
    | some buf =>
      rw [hbuf] at hwrite
      cases hwrite
      exact hinv.write_own hw hbuf packets (heap_store s w _)
    | none =>
      rw [hbuf] at hwrite
      exact hinv.write_readers hw hbuf packets _
        (heap_write_readers packets (hinv.nodup_readers hw) hwrite).1

theorem DeliveryInv.port_read {timeout : Time}
    (hread : portRead s t p timeout hphase = some result) :
    DeliveryInv result.2 (record s h result.1 (.read t p timeout)) := by
  have hgroup : s.heap p ≠ some .group := hinv.object_at
  unfold record
  rcases port_read_cases hgroup hread with
    ⟨hpacket, hheap⟩ | ⟨rp, packet, buf, hr, hbuf, hpacket, hheap⟩
  · rw [hpacket]
    exact hinv.of_heap_eq hheap
  · rw [hpacket]
    exact hinv.took hr hbuf hheap

theorem DeliveryInv.port_close {result : Status × State Pid Tid Packet}
    (hclose : portClose s p = some result) :
    DeliveryInv result.2 (record s h (returning result).1 (.close p)) := by
  have hread {object : Option (Object Pid Packet)} (hp : s.heap p = object)
      (hnot : ∀ rp, object ≠ some (.read rp)) : readPort? s p = none := by
    cases hr : readPort? s p with
    | none => rfl
    | some rp => exact absurd (read_port_eq_some.mp hr) (hp ▸ hnot rp)
  unfold portClose at hclose
  split at hclose
  · next rp hp =>
    have hrinv := hinv.read hp
    obtain ⟨w, hwport⟩ := ne_none_iff_exists'.mp hrinv.attached
    simp only [detach, hwport, bind_eq_bind, bind_eq_some_iff, map_eq_some_iff] at hclose
    obtain ⟨_, ⟨wp, hwp, rfl⟩, links, _, hclose⟩ := hclose
    cases hclose
    rw [record_close (read_port_eq_some.mpr hp) hwport hwp]
    exact hinv.close_read hp hwport (write_port_eq_some.mp hwp) rfl
  · next hp => exact (hinv.object_at hp).elim
  · next wp hp =>
    rw [record_close_of_none (hread hp nofun)]
    split at hclose
    · cases hclose
      exact hinv
    · cases hclose
      exact hinv.close_write hp
  · next hp =>
    rw [record_close_of_none (hread hp nofun)]
    cases hclose
    exact hinv

theorem DeliveryInv.resume_read {hphase : s.waiters.phase t = .woken call ret}
    (hresume : resumeRead s t call ret hphase = some result) :
    DeliveryInv result.2 (record s h result.1 (.resume t)) := by
  rw [record_resume hphase]
  simp only [resumeRead] at hresume
  split at hresume
  · cases hresume
    exact hinv.of_heap_eq rfl
  rw [ite_none_left_eq_some] at hresume
  -- the state differs from `s` in its waiters only, which the invariant does not see
  have hwoken : DeliveryInv { s with waiters := s.waiters.resume t call ret hphase } h :=
    hinv.of_heap_eq rfl
  exact hwoken.port_read hresume.2

theorem DeliveryInv.perform {action : Action Pid Tid Packet}
    (hguard : OnPorts action) (hperform : perform s action = some result) :
    DeliveryInv result.2 (record s h result.1 action) := by
  cases action with
  | create name mode memory p =>
    obtain ⟨hfree, hperform⟩ := ite_none_left_eq_some.mp hperform
    cases hperform
    exact hinv.port_create (by simpa using hfree) name mode memory
  | «open» name ctx memory p =>
    obtain ⟨hfree, hperform⟩ := ite_none_left_eq_some.mp hperform
    cases hperform
    exact hinv.port_open (by simpa using hfree) name ctx memory
  | write w packets =>
    obtain ⟨result, hwrite, rfl⟩ := map_eq_some_iff.mp hperform
    exact hinv.port_write hwrite
  | read t p timeout =>
    obtain ⟨hphase, hread⟩ := dite_none_right_eq_some.mp hperform
    exact hinv.port_read hread
  | resume t =>
    simp only [Port.perform] at hperform
    split at hperform
    · next call ret hphase =>
      exact hinv.resume_read hperform
    · cases hperform
  | timeout t =>
    simp only [Port.perform] at hperform
    split at hperform
    · cases hperform
      exact hinv.of_heap_eq rfl
    · cases hperform
  | close p =>
    obtain ⟨result, hclose, rfl⟩ := map_eq_some_iff.mp hperform
    exact hinv.port_close hclose
  | group | groupAdd | groupRemove | destroy => exact hguard.elim

end

theorem Traced.Reachable.delivery_inv {x : Traced Pid Tid Packet} (hx : Traced.Reachable x) :
    DeliveryInv x.state x.history := by
  refine hx.invariant_from (P := fun x => DeliveryInv x.state x.history) DeliveryInv.initial ?_
  intro x action x' hinv hguard hstep
  obtain ⟨result, hperform, rfl⟩ := map_eq_some_iff.mp hstep
  exact hinv.perform hguard hperform

/-- A write that reports success has appended its packets to the buffer of every reader. -/
theorem DeliveryInv.write_stored (hinv : DeliveryInv s h)
    (hwrite : portWrite s w packets = some (noError, s')) (hr : s.heap r = some (.read rp))
    (hwport : rp.wport = some w) :
    ∃ rp', s'.heap r = some (.read rp') ∧ unread rp'.buf = unread rp.buf ++ packets.map some := by
  unfold portWrite at hwrite
  cases hwp : writePort? s w with
  | none =>
    rw [hwp] at hwrite
    cases hwrite
  | some wp =>
    have hw := write_port_eq_some.mp hwp
    have hmem : r ∈ wp.rpList := by
      rw [hinv.mem_readers_iff hw, hr]
      exact hwport
    simp only [hwp] at hwrite
    split at hwrite
    · cases hwrite
    cases hbuf : wp.buf with
    | some buf =>
      rw [((hinv.write hw).own buf hbuf).1] at hmem
      cases hmem
    | none =>
      rw [hbuf] at hwrite
      obtain ⟨hheap, hstatus⟩ := heap_write_readers packets (hinv.nodup_readers hw) hwrite
      have hroom : packets.length ≤ rp.buf.avail := (hstatus.mp rfl).2 r hmem rp hr
      refine ⟨{ rp with buf := (bufWrite rp.buf packets).2 }, ?_, ?_⟩
      · rw [hheap, if_pos hmem, hr]
        rfl
      · exact ((hinv.read hr).buf.buf_write hroom).2.2.2

/-- In every run of `port_create`, `port_open`, `port_write`, `port_read` and `port_close`: what a
read port has returned, followed by what is in its buffer, is what it found waiting when it was
opened, followed by what was accepted for it since; and a write that reports success appends its
packets to the buffer of every read port attached. -/
theorem delivered_in_order {x : Traced Pid Tid Packet} (hx : Traced.Reachable x) :
    (∀ r rp, readPort? x.state r = some rp →
      (x.history.inherited r ++ x.history.accepted r).map some =
        x.history.returned r ++ unread rp.buf) ∧
    ∀ w packets s', perform x.state (.write w packets) = some (.returned noError none, s') →
      ∀ r rp, readPort? x.state r = some rp → rp.wport = some w →
        ∃ rp', readPort? s' r = some rp' ∧ unread rp'.buf = unread rp.buf ++ packets.map some := by
  have hinv := hx.delivery_inv
  refine ⟨?_, ?_⟩
  · intro r rp hr
    exact (hinv.read (read_port_eq_some.mp hr)).stream
  intro w packets s' hwrite r rp hr hwport
  obtain ⟨⟨status, after⟩, hwrite, heq⟩ := map_eq_some_iff.mp hwrite
  cases heq
  obtain ⟨rp', hr', hunread⟩ := hinv.write_stored hwrite (read_port_eq_some.mp hr) hwport
  exact ⟨rp', read_port_eq_some.mpr hr', hunread⟩

/-- Port 1 is opened on port 0, where a packet waits. Two more are written, and one is read. -/
theorem delivered_in_order_opened :
    ∃ x : Traced (Fin 2) Unit ℕ, (Traced.Reachable x ∧ x.history.returned 1 = [some 7]) ∧
      (readPort? x.state 1).map (fun rp => x.history.returned 1 ++ unread rp.buf) =
        some [some 7, some 8, some 9] := by
  obtain ⟨x, hreach, hreturned, hinherited, haccepted, hread⟩ :=
    Transition.exists_reachable Traced.step (fun _ action => OnPorts action) ⟨initial, .empty⟩
    (P := fun x : Traced (Fin 2) Unit ℕ => x.history.returned 1 = [some 7] ∧
      x.history.inherited 1 = [7] ∧ x.history.accepted 1 = [8, 9] ∧
      (readPort? x.state 1).isSome = true)
    [.create [112] 0#32 true 0, .write 0 [7], .open [112] 0 true 1, .write 0 [8, 9], .read () 1 0]
    (by decide) (by decide)
  obtain ⟨rp, hrp⟩ := isSome_iff_exists.mp hread
  refine ⟨x, ⟨hreach, hreturned⟩, ?_⟩
  rw [hrp, map_some, ← (delivered_in_order hreach).1 1 rp hrp, hinherited, haccepted]
  rfl

end NusaKernel.Port
