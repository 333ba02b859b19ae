import NusaKernel.Kernel.WaitQueue
import NusaKernel.Lib.CircularList
import NusaKernel.Lib.Transition

/-!
# Ports

`kernel/port.c`: write ports with a name, read ports that are attached to them, groups of read
ports, their circular buffers, and the threads that wait for packets. Objects live in a heap and
a handle is an address in it. A freed address holds no object, so that a stale handle fails the
test of its magic number, until the address is allocated again.

The lists of named ports and of the readers of a write port are plain lists. The list of the
members of a group is kept as the source keeps it, in links inside the read ports, since a read
port is also meant to know its group by a pointer of its own, and the two can disagree. A loop
over it that does not end, or that follows a pointer to freed memory, has no result.

A function is one step. A read that blocks is cut at the context switch. A port that is closed after
its reader was woken and before the reader runs is freed memory when the reader goes on with it, so
that such a read has no result. Tests of arguments for the null pointer are left out.
-/

namespace NusaKernel.Port

open CircularList Function

universe u

/-! ## Buffers -/

/-- `PORT_BUFF_SIZE`. -/
def portBuffSize : ℕ := 8

/-- `PORT_BUFF_SIZE_BIG`. -/
def portBuffSizeBig : ℕ := 64

/-- `port_buf_t`. A slot that was never written holds nothing. -/
structure Buf (Packet : Type u) where
  log2 : ℕ
  avail : ℕ
  head : ℕ
  tail : ℕ
  packet : ℕ → Option Packet

section Buffers

variable {Packet : Type u}

/-- `make_buf`. -/
def makeBuf (big : Bool) : Buf Packet :=
  let pkCount := if big then portBuffSizeBig else portBuffSize
  { log2 := pkCount.log2, avail := pkCount, head := 0, tail := 0, packet := fun _ => none }

variable (buf : Buf Packet)

/-- `buf_is_empty`. -/
def bufIsEmpty : Bool := buf.avail = 2 ^ buf.log2

/-- The body of the loop of `buf_write`. -/
def bufPut (packet : Packet) : Buf Packet :=
  { buf with
    packet := update buf.packet buf.tail (some packet)
    tail := (buf.tail + 1) % 2 ^ buf.log2 }

/-- `buf_write`. -/
def bufWrite (packets : List Packet) : Status × Buf Packet :=
  if buf.avail < packets.length then (errNotEnoughBuffer, buf)
  else
    let buf := packets.foldl bufPut buf
    (noError, { buf with avail := buf.avail - packets.length })

/-- `buf_read`. -/
def bufRead : Except Status (Option Packet × Buf Packet) :=
  if bufIsEmpty buf then .error errNoMsg
  else .ok (buf.packet buf.head,
    { buf with head := (buf.head + 1) % 2 ^ buf.log2, avail := buf.avail + 1 })

end Buffers

/-! ## Objects -/

/-- `PORT_MODE_BROADCAST`. -/
def portModeBroadcast : BitVec 32 := 0#32

/-- `PORT_MODE_UNICAST`. -/
def portModeUnicast : BitVec 32 := 1#32

/-- `PORT_MODE_BIG_BUFFER`. -/
def portModeBigBuffer : BitVec 32 := 2#32

/-- `PORT_NAME_LEN`. -/
def portNameLen : ℕ := 12

/-- `MAX_PORT_GROUP_COUNT`. -/
def maxPortGroupCount : ℕ := 256

/-- `write_port_t`. The magic is `WRITEPORT_MAGIC_W`, or `WRITEPORT_MAGIC_X` once closed. -/
structure WritePort (Pid Packet : Type u) where
  closed : Bool
  buf : Option (Buf Packet)
  rpList : List Pid
  mode : BitVec 32
  name : List UInt8

/-- `read_port_t`, but for its wait queue and its node in the list of a group. -/
structure ReadPort (Pid Packet : Type u) where
  buf : Buf Packet
  ctx : ℕ
  wport : Option Pid
  gport : Option Pid

/-- What the magic number of an allocated object says it is. -/
inductive Object (Pid Packet : Type u) where
  | write (wp : WritePort Pid Packet)
  | read (rp : ReadPort Pid Packet)
  | group

/-- The list nodes of groups: `rp_list` of a group and `g_node` of a read port. -/
inductive GroupNode (Pid : Type u) where
  | head (g : Pid)
  | member (r : Pid)
  deriving DecidableEq

/-- The read port that contains a node. -/
def GroupNode.port? {Pid : Type u} : GroupNode Pid → Option Pid
  | .head _ => none
  | .member r => some r

/-- A blocked call of `port_read`. -/
structure ReadCall (Pid : Type u) where
  port : Pid
  timeout : Time
  deriving DecidableEq

/-- The objects, the list of named ports, the links of the groups, and the threads that wait. A
read port and a group have one wait queue each. -/
structure State (Pid Tid Packet : Type u) where
  heap : Pid → Option (Object Pid Packet)
  writePortList : List Pid
  links : Links (GroupNode Pid)
  waiters : Waiters Pid Tid (ReadCall Pid)

/-- How a call ends: it blocks, or returns a status, and from `port_read` a result with the `ctx`
of the port and the packet. -/
inductive Outcome (Packet : Type u) where
  | blocked
  | returned (status : Status) (result : Option (ℕ × Option Packet))

variable {Pid Tid Packet : Type u}

/-- `port_init`. -/
def initial : State Pid Tid Packet := ⟨fun _ => none, [], .empty, .initial⟩

variable (s : State Pid Tid Packet) {wp : WritePort Pid Packet}

/-- The write port at an address. -/
def writePort? (w : Pid) : Option (WritePort Pid Packet) :=
  match s.heap w with
  | some (.write wp) => some wp
  | _ => none

/-- The read port at an address. -/
def readPort? (r : Pid) : Option (ReadPort Pid Packet) :=
  match s.heap r with
  | some (.read rp) => some rp
  | _ => none

/-- There is a group at the address. -/
def isGroup (g : Pid) : Bool :=
  match s.heap g with
  | some .group => true
  | _ => false

/-- The group that a read port names. -/
def gport (r : Pid) : Option Pid := (readPort? s r).bind ReadPort.gport

theorem read_port_eq_some {s : State Pid Tid Packet} {r : Pid} {rp : ReadPort Pid Packet} :
    readPort? s r = some rp ↔ s.heap r = some (.read rp) := by
  unfold readPort?
  split
  · next rp' hheap => simp [hheap]
  · next hnot => exact ⟨nofun, fun h => absurd h (hnot rp)⟩

theorem write_port_eq_some {s : State Pid Tid Packet} {w : Pid} :
    writePort? s w = some wp ↔ s.heap w = some (.write wp) := by
  unfold writePort?
  split
  · next wp' hheap => simp [hheap]
  · next hnot => exact ⟨nofun, fun h => absurd h (hnot wp)⟩

variable [DecidableEq Pid]

section Setup

variable (s : State Pid Tid Packet)

/-- Put an object at an address. -/
def store (p : Pid) (object : Object Pid Packet) : State Pid Tid Packet :=
  { s with heap := update s.heap p (some object) }

/-- Free the object at an address. -/
def release (p : Pid) : State Pid Tid Packet :=
  { s with heap := update s.heap p none }

/-- The read ports that a loop over the list of a group visits. -/
def members (g : Pid) : Option (List Pid) := do
  let nodes ← walk s.links (.head g) (maxPortGroupCount + 1)
  nodes.mapM GroupNode.port?

variable (name : List UInt8)

/-- The search for a named port. -/
def lookup : Option (Pid × WritePort Pid Packet) :=
  s.writePortList.findSome? fun w =>
    (writePort? s w).bind fun wp => if wp.name = name then some (w, wp) else none

omit [DecidableEq Pid] in
theorem write_port_of_lookup {s : State Pid Tid Packet} {name : List UInt8} {w : Pid}
    (h : lookup s name = some (w, wp)) : writePort? s w = some wp := by
  obtain ⟨w', _, hfound⟩ := List.exists_of_findSome?_eq_some h
  obtain ⟨wp', hwp', hname⟩ := Option.bind_eq_some_iff.mp hfound
  split at hname
  · cases hname
    exact hwp'
  · cases hname

/-! ## The functions -/

/-- `port_create`, with the address that the allocator gives for the port, if there is memory. -/
def portCreate (mode : BitVec 32) (memory : Bool) (p : Pid) :
    Status × Option Pid × State Pid Tid Packet :=
  if mode &&& portModeBroadcast ≠ 0#32 ∧ mode &&& portModeBigBuffer ≠ 0#32 then
    (errInvalidArgs, none, s)
  else if portNameLen ≤ name.length then (errInvalidArgs, none, s)
  else
    match lookup s name with
    | some (w, wp) =>
      if wp.closed then (errBusy, none, s) else (errAlreadyExists, some w, s)
    | none =>
      if !memory then (errNoMemory, none, s)
      else
        let wp := ⟨false, some (makeBuf (mode &&& portModeBigBuffer ≠ 0#32)), [], mode, name⟩
        (noError, some p, { store s p (.write wp) with writePortList := s.writePortList ++ [p] })

/-- Add a read port with this buffer to the readers of a write port, which keeps no buffer. -/
def attach (w : Pid) (wp : WritePort Pid Packet) (p : Pid) (ctx : ℕ) (buf : Buf Packet) :
    State Pid Tid Packet :=
  let s := store s w (.write { wp with buf := none, rpList := wp.rpList ++ [p] })
  { store s p (.read ⟨buf, ctx, some w, none⟩) with links := s.links.alloc (.member p) }

/-- `port_open`. -/
def portOpen (ctx : ℕ) (memory : Bool) (p : Pid) :
    Status × State Pid Tid Packet :=
  if !memory then (errNoMemory, s)
  else
    match lookup s name with
    | none => (errNotFound, s)
    | some (w, wp) =>
      match wp.buf with
      -- this is the first read port; transfer the circular buffer
      | some buf => (noError, attach s w wp p ctx buf)
      | none =>
        if wp.mode &&& portModeUnicast ≠ 0#32 then (errNotAllowed, s)
        else (noError, attach s w wp p ctx (makeBuf false))

/-- `port_create` fails and changes nothing, or adds a write port without readers. -/
theorem port_create_cases (mode : BitVec 32) (memory : Bool) (p : Pid) :
    (∃ status found, status ≠ noError ∧ portCreate s name mode memory p = (status, found, s)) ∨
    ∃ wp : WritePort Pid Packet, wp.rpList = [] ∧ (∃ big, wp.buf = some (makeBuf big)) ∧
      portCreate s name mode memory p = (noError, some p,
        { store s p (.write wp) with writePortList := s.writePortList ++ [p] }) := by
  unfold portCreate
  split
  · exact .inl ⟨_, _, by decide, rfl⟩
  split
  · exact .inl ⟨_, _, by decide, rfl⟩
  split
  · split <;> exact .inl ⟨_, _, by decide, rfl⟩
  · split
    · exact .inl ⟨_, _, by decide, rfl⟩
    · exact .inr ⟨_, rfl, ⟨_, rfl⟩, rfl⟩

/-- `port_open` fails and changes nothing, or attaches a read port to the write port, with the
buffer of the write port or a new one. -/
theorem port_open_cases (ctx : ℕ) (memory : Bool) (p : Pid) :
    (∃ status, status ≠ noError ∧ portOpen s name ctx memory p = (status, s)) ∨
    ∃ w wp buf, lookup s name = some (w, wp) ∧
      (wp.buf = some buf ∨ wp.buf = none ∧ buf = makeBuf false) ∧
      portOpen s name ctx memory p = (noError, attach s w wp p ctx buf) := by
  unfold portOpen
  split
  · exact .inl ⟨_, by decide, rfl⟩
  split
  · exact .inl ⟨_, by decide, rfl⟩
  next w wp hlookup =>
  split
  · next buf hbuf => exact .inr ⟨w, wp, buf, hlookup, .inl hbuf, rfl⟩
  · next hbuf =>
    split
    · exact .inl ⟨_, by decide, rfl⟩
    · exact .inr ⟨w, wp, _, hlookup, .inr ⟨hbuf, rfl⟩, rfl⟩

/-- Write the group pointer of a read port. -/
def setGport (r : Pid) (g : Option Pid) : Option (State Pid Tid Packet) :=
  (readPort? s r).map fun rp => store s r (.read { rp with gport := g })

/-- The loop of `port_group` that undoes the changes to the previous read ports, and the loop of
`port_close` over the members of a group. -/
def clearGports (s : State Pid Tid Packet) : List Pid → Option (State Pid Tid Packet)
  | [] => some s
  | r :: rest => do
      let s ← setGport s r none
      clearGports s rest

/-- Link a port group and a read port. -/
def linkPort (g r : Pid) : Option (State Pid Tid Packet) := do
  let s ← setGport s r (some g)
  let links ← addTail s.links (.head g) (.member r)
  some { s with links }

/-- The read port is there and in no group, as far as it says itself. -/
def ungrouped (r : Pid) : Bool := (readPort? s r).any (·.gport.isNone)

/-- The loop of `port_group` over its ports, of which `linked` are behind it. -/
def linkPorts (s : State Pid Tid Packet) (g : Pid) (linked : List Pid) :
    List Pid → Option (Status × State Pid Tid Packet)
  | [] => some (noError, s)
  | r :: rest =>
    if !ungrouped s r then (clearGports s linked).map (errBadHandle, ·)
    else do
      let s ← linkPort s g r
      linkPorts s g (linked ++ [r]) rest

/-- Free a port group. -/
def freeGroup (g : Pid) : State Pid Tid Packet :=
  { release s g with links := s.links.free (.head g) }

/-- `port_group`. -/
def portGroup (ports : List Pid) (memory : Bool) (g : Pid) :
    Option (Status × State Pid Tid Packet) :=
  if maxPortGroupCount < ports.length then some (errTooBig, s)
  else if !memory then some (errNoMemory, s)
  else do
    let links ← makeHead (s.links.alloc (.head g)) (.head g)
    let (rc, s) ← linkPorts { store s g .group with links } g [] ports
    some (if rc = noError then (rc, s) else (rc, freeGroup s g))

end Setup

variable [DecidableEq Tid] (s : State Pid Tid Packet)

/-- `port_group_add`. -/
def portGroupAdd (g r : Pid) : Option (Status × State Pid Tid Packet) :=
  if !isGroup s g then some (errInvalidArgs, s)
  else if !ungrouped s r then some (errBadHandle, s)
  else do
    let ports ← members s g
    if ports.length = maxPortGroupCount then some (errTooBig, s)
    else
      let rp ← readPort? s r
      let s ← linkPort s g r
      -- wake a reader of the group if there is something to read
      let waiters :=
        if !bufIsEmpty rp.buf then (s.waiters.waitQueueWakeOne g noError).2 else s.waiters
      some (noError, { s with waiters })

/-- `port_group_remove`. -/
def portGroupRemove (g r : Pid) : Option (Status × State Pid Tid Packet) :=
  if !isGroup s g then some (errInvalidArgs, s)
  else if gport s r ≠ some g then some (errBadHandle, s)
  else do
    let ports ← members s g
    if r ∉ ports then some (errBadHandle, s)
    else
      let links ← delete s.links (.member r)
      some (noError, { s with links })

/-- Wake a thread that waits on the group of a read port, or else on the port itself. -/
def wakeReader (r : Pid) : Option Pid → Option (State Pid Tid Packet)
  | none => some { s with waiters := (s.waiters.waitQueueWakeOne r noError).2 }
  | some g =>
    if !isGroup s g then none
    else
      let (awaken, waiters) := s.waiters.waitQueueWakeOne g noError
      some { s with
        waiters := if awaken = 0 then (waiters.waitQueueWakeOne r noError).2 else waiters }

/-- The loop of `port_write` over the read ports. -/
def writeReaders (s : State Pid Tid Packet) (packets : List Packet) (status : Status) :
    List Pid → Option (Status × State Pid Tid Packet)
  | [] => some (status, s)
  | r :: rest => do
      let rp ← readPort? s r
      let (written, buf) := bufWrite rp.buf packets
      if written < 0 then writeReaders s packets errPartialWrite rest
      else
        let s ← wakeReader (store s r (.read { rp with buf })) r rp.gport
        writeReaders s packets status rest

/-- `port_write`, without the `thread_yield` that may follow it. -/
def portWrite (w : Pid) (packets : List Packet) : Option (Status × State Pid Tid Packet) :=
  match writePort? s w with
  | none => some (errBadHandle, s)
  | some wp =>
    if wp.closed then some (errBadHandle, s)
    else
      match wp.buf with
      -- there are no read ports, just write to the buffer
      | some buf =>
        let (status, buf) := bufWrite buf packets
        some (status, store s w (.write { wp with buf := some buf }))
      | none => writeReaders s packets noError wp.rpList

/-- Block in `port_read` on the queue of a read port or of a group. -/
def blockReader (t : Tid) (p : Pid) (timeout : Time) (h : s.waiters.phase t = .running) :
    Outcome Packet × State Pid Tid Packet :=
  match s.waiters.waitQueueBlock p t ⟨p, timeout⟩ timeout h with
  | .error ret => (.returned ret none, s)
  | .ok waiters => (.blocked, { s with waiters })

/-- `read_no_lock` up to its return or to the context switch. -/
def readNoLock (t : Tid) (r : Pid) (rp : ReadPort Pid Packet) (timeout : Time)
    (h : s.waiters.phase t = .running) : Outcome Packet × State Pid Tid Packet :=
  match bufRead rp.buf with
  | .ok (packet, buf) =>
    (.returned noError (some (rp.ctx, packet)), store s r (.read { rp with buf }))
  | .error _ => blockReader s t r timeout h

/-- The first packet of the ports of a group. -/
def readMembers (s : State Pid Tid Packet) :
    List Pid → Option (Option ((ℕ × Option Packet) × State Pid Tid Packet))
  | [] => some none
  | r :: rest => do
      let rp ← readPort? s r
      match bufRead rp.buf with
      | .ok (packet, buf) => some (some ((rp.ctx, packet), store s r (.read { rp with buf })))
      | .error _ => readMembers s rest

/-- `port_read` up to its return or to the context switch. -/
def portRead (t : Tid) (p : Pid) (timeout : Time) (h : s.waiters.phase t = .running) :
    Option (Outcome Packet × State Pid Tid Packet) :=
  match s.heap p with
  | some (.read rp) => some (readNoLock s t p rp timeout h)
  | some .group => do
      let ports ← members s p
      match ← readMembers s ports with
      | some (result, s) => some (.returned noError (some result), s)
      | none => some (blockReader s t p timeout h)
  | _ => some (.returned errBadHandle none, s)

/-- Wake the threads that wait on the group of a read port. -/
def cancelGroup (waiters : Waiters Pid Tid (ReadCall Pid)) :
    Option Pid → Option (Waiters Pid Tid (ReadCall Pid))
  | none => some waiters
  | some g => if isGroup s g then some (waiters.waitQueueWakeAll g errCancelled).2 else none

/-- The loop of `port_destroy` over the read ports. -/
def cancelReaders (s : State Pid Tid Packet) : List Pid → Option (State Pid Tid Packet)
  | [] => some s
  | r :: rest => do
      let rp ← readPort? s r
      let waiters ← cancelGroup s (s.waiters.waitQueueWakeAll r errCancelled).2 rp.gport
      cancelReaders { store s r (.read { rp with wport := none }) with waiters } rest

/-- `port_destroy`. -/
def portDestroy (w : Pid) : Option (Status × State Pid Tid Packet) :=
  match writePort? s w with
  | none => some (errBadHandle, s)
  | some wp =>
    if !wp.closed then some (errBadHandle, s)
    else
      let s := { s with writePortList := s.writePortList.erase w }
      (if wp.buf.isSome then some s else cancelReaders s wp.rpList).map
        fun s => (noError, release s w)

/-- Take a read port off the list of its write port, which gets its buffer back with the last. -/
def detach (r : Pid) (rp : ReadPort Pid Packet) : Option (State Pid Tid Packet) :=
  match rp.wport with
  | none => some s
  | some w =>
    (writePort? s w).map fun wp =>
      let rpList := wp.rpList.erase r
      store s w (.write { wp with
        rpList, buf := if rpList.isEmpty then some rp.buf else wp.buf })

/-- Take a read port that is in a group off the list of the group. -/
def unlinkMember (links : Links (GroupNode Pid)) (r : Pid) :
    Option Pid → Option (Links (GroupNode Pid))
  | none => some links
  | some _ => delete links (.member r)

/-- `port_close`. -/
def portClose (p : Pid) : Option (Status × State Pid Tid Packet) :=
  match s.heap p with
  | some (.read rp) => do
      let s ← detach s p rp
      let links ← unlinkMember s.links p rp.gport
      let waiters := (s.waiters.waitQueueWakeAll p errObjectDestroyed).2
      some (noError, { release s p with links := links.free (.member p), waiters })
  | some .group => do
      let waiters := (s.waiters.waitQueueWakeAll p errObjectDestroyed).2
      let ports ← members s p
      let s ← clearGports { s with waiters } ports
      some (noError, freeGroup s p)
  | some (.write wp) =>
    if wp.closed then some (errBadHandle, s)
    else some (noError, store s p (.write { wp with closed := true }))
  | none => some (errBadHandle, s)

/-! ## Runs -/

/-- What a thread or an interrupt does next. `memory` says that the allocator can serve the call,
with the address that follows it. -/
inductive Action (Pid Tid Packet : Type u) where
  | create (name : List UInt8) (mode : BitVec 32) (memory : Bool) (p : Pid)
  | «open» (name : List UInt8) (ctx : ℕ) (memory : Bool) (p : Pid)
  | group (ports : List Pid) (memory : Bool) (g : Pid)
  | groupAdd (g r : Pid)
  | groupRemove (g r : Pid)
  | write (w : Pid) (packets : List Packet)
  | read (t : Tid) (p : Pid) (timeout : Time)
  | resume (t : Tid)
  | timeout (t : Tid)
  | destroy (w : Pid)
  | close (p : Pid)

/-- A thread goes on with `port_read` where it blocked, with the status it was woken with. -/
def resumeRead (t : Tid) (call : ReadCall Pid) (ret : Status)
    (h : s.waiters.phase t = .woken call ret) : Option (Outcome Packet × State Pid Tid Packet) :=
  let s' := { s with waiters := s.waiters.resume t call ret h }
  if ret ≠ noError then some (.returned ret none, s')
  else if (readPort? s call.port).isNone ∧ !isGroup s call.port then none
  else portRead s' t call.port call.timeout (Function.update_self t _ _)

/-- A call that returns a status and does not block. -/
def returning : Status × State Pid Tid Packet → Outcome Packet × State Pid Tid Packet
  | (status, s) => (.returned status none, s)

/-- The call of an action. The allocator gives out free addresses only, and a timeout ends any
blocked read, as its timer may be that of an earlier wait. -/
def perform :
    Action Pid Tid Packet → Option (Outcome Packet × State Pid Tid Packet)
  | .create name mode memory p =>
    if (s.heap p).isSome then none
    else
      let (status, _, s) := portCreate s name mode memory p
      some (.returned status none, s)
  | .open name ctx memory p =>
    if (s.heap p).isSome then none else some (returning (portOpen s name ctx memory p))
  | .group ports memory g =>
    if (s.heap g).isSome then none else (portGroup s ports memory g).map returning
  | .groupAdd g r => (portGroupAdd s g r).map returning
  | .groupRemove g r => (portGroupRemove s g r).map returning
  | .write w packets => (portWrite s w packets).map returning
  | .read t p timeout =>
    if h : s.waiters.phase t = .running then portRead s t p timeout h else none
  | .resume t =>
    match h : s.waiters.phase t with
    | .woken call ret => resumeRead s t call ret h
    | _ => none
  | .timeout t =>
    match s.waiters.phase t with
    | .blocked _ _ _ => some (.returned noError none,
        { s with waiters := (s.waiters.threadUnblockFromWaitQueue t errTimedOut).2 })
    | _ => none
  | .destroy w => (portDestroy s w).map returning
  | .close p => (portClose s p).map returning

/-- One step. -/
def step (action : Action Pid Tid Packet) : Option (State Pid Tid Packet) :=
  (perform s action).map Prod.snd

/-- The states that steps admitted by the guard reach. -/
def Reachable (guard : State Pid Tid Packet → Action Pid Tid Packet → Prop) :
    State Pid Tid Packet → Prop :=
  Transition.Reachable step guard (· = initial)

end NusaKernel.Port
