import NusaKernel.Kernel.Status
import NusaKernel.Lib.Lookup
import NusaKernel.Virtio.Bookkeeping

/-!
# Calls of the virtio 9p client

`dev/virtio/9p`: a device has one request, which `virtio_9p_rpc` uses under `req_lock`. It allocates
the buffers of a call, sends a chain of two descriptors, waits for an event with a timeout, decodes
the reply and frees the buffers. The interrupt callback does not look at which chain was completed:
it takes any reply for the reply to the request, if one was sent.

`own_reply`: as long as the device answers no call that has given up, a call that returns `NO_ERROR`
has decoded the reply to its own request, and replies go to buffers and complete calls that they
belong to. A reply that comes late is written to a buffer that was freed, and the next call takes it
for its own (`late_reply_is_taken`).

Left out: the T-messages and their buffers, which only the device reads, and the fields of the
R-messages.
-/

namespace NusaKernel.Virtio

open List Function Option Lookup
open Transition (Reachable)

/-- `VIRTIO_9P_RING_SIZE`. -/
def virtio9pRingSize : ℕ := 128

/-- `P9_REQ_S_UNKNOWN` and so on. -/
inductive P9Status where
  | unknown
  | initialized
  | sent
  | received
deriving DecidableEq

/-- `p9_req`: `rc.sdata` is the buffer of the reply. -/
structure P9Req where
  status : P9Status
  rc : ℕ
  ioEvent : Bool

/-- What is in a buffer: the call whose request it is the reply to, if any, and what decoding it
returns. -/
structure Message where
  answers : Option ℕ
  ret : Status

/-- Where a call of `virtio_9p_rpc` is: it waits for `req_lock`, has prepared the request, waits for
the event, has given up waiting, or has returned with the reply it has decoded. -/
inductive RpcPhase where
  | called
  | prepared
  | sent
  | timedOut
  | returned (ret : Status) (decoded : Option ℕ)
deriving DecidableEq

/-- `virtio_9p_dev`. In addition, the call that sent each chain, and for each completion the call
that was answered and the call that was using the request. -/
structure P9Dev where
  req : P9Req
  reqLock : Option ℕ
  panicked : Bool
  sender : ℕ → ℕ
  completed : List (ℕ × Option ℕ)

/-- The device with its ring, the calls and the memory for replies: what is in a buffer, and the
call that has allocated it. `target` is the buffer in a chain. Each reply was written for a call, to
a buffer of a call. -/
structure P9State where
  ring : Vring
  dev : P9Dev
  calls : List RpcPhase
  memory : ℕ → Message
  owner : ℕ → Option ℕ
  target : ℕ → ℕ
  written : List (ℕ × Option ℕ)
  fetched : ℕ
  inflight : List ℕ

/-- The assertion of the callback stops the system. -/
def virtio9pIrqDriverCallback (elem : UsedElem) (s : Vring × P9Dev) : Vring × P9Dev :=
  if s.2.req.status ≠ .sent then (s.1, { s.2 with panicked := true })
  else
    let idNext := (s.1.desc elem.id).next
    (virtioFreeDesc (virtioFreeDesc s.1 elem.id) idNext,
      { s.2 with
        req.status := .received
        req.ioEvent := true
        completed := s.2.completed ++ [(s.2.sender elem.id, s.2.reqLock)] })

variable (s : P9State) {elem : UsedElem} {ret : Status} {decoded : Option ℕ} {phase : RpcPhase}

/-- `p9_req_release`, and the end of `virtio_9p_rpc`. -/
def P9State.release (n : ℕ) (ret : Status) (decoded : Option ℕ) : P9State :=
  { s with
    dev.req.status := .unknown
    dev.reqLock := none
    owner := update s.owner s.dev.req.rc none
    calls := s.calls.set n (.returned ret decoded) }

/-- `p9_req_prepare` with the buffer that it gets, which is not allocated. -/
def P9State.prepare (n : ℕ) : Option ℕ → Option P9State
  | none => some { s with calls := s.calls.set n (.returned errNoMemory none) }
  | some rc =>
    if s.owner rc = none then
      some { s with
        dev.req := ⟨.initialized, rc, false⟩
        dev.reqLock := some n
        owner := update s.owner rc (some n)
        calls := s.calls.set n .prepared }
    else none

/-- `virtio_9p_req_send`. Without a free chain it follows a null pointer. -/
def P9State.send (n : ℕ) : P9State :=
  match virtioAllocDescChain s.ring 2 with
  | none => { s with dev.panicked := true }
  | some (idx, ring) => { s with
      ring := virtioSubmitChain ring idx
      dev.req.status := .sent
      dev.sender := update s.dev.sender idx n
      target := update s.target idx s.dev.req.rc
      calls := s.calls.set n .sent }

/-- A call and its steps; a step of the device or an interrupt. A call is rejected if its T-message
cannot be written. -/
inductive P9Action where
  | call
  | prepare (n : ℕ) (rc : Option ℕ)
  | reject (n : ℕ) (err : Status)
  | send (n : ℕ)
  | timeout (n : ℕ)
  | receive (n : ℕ)
  | giveUp (n : ℕ)
  | fetch
  | reply (elem : UsedElem) (ret : Status)
  | irq

def P9State.act : P9Action → Option P9State
  | .call => some { s with calls := s.calls ++ [.called] }
  | .prepare n rc =>
    if s.calls[n]? = some .called ∧ s.dev.reqLock = none then s.prepare n rc else none
  | .reject n err =>
    if s.calls[n]? = some .prepared ∧ err ≠ noError then some (s.release n err none) else none
  | .send n => if s.calls[n]? = some .prepared then some (s.send n) else none
  | .timeout n =>
    if s.calls[n]? = some .sent ∧ s.dev.req.ioEvent = false then
      some { s with calls := s.calls.set n .timedOut }
    else none
  | .receive n =>
    if s.calls[n]? = some .sent ∧ s.dev.req.ioEvent = true then
      some (s.release n (s.memory s.dev.req.rc).ret (s.memory s.dev.req.rc).answers)
    else none
  | .giveUp n =>
    if s.calls[n]? = some .timedOut then some (s.release n errTimedOut none) else none
  | .fetch =>
    if s.fetched = s.ring.availIdx then none
    else some { s with
      fetched := (s.fetched + 1) % 2 ^ 16
      inflight := s.inflight ++ [s.ring.availRing (s.fetched &&& s.ring.numMask)] }
  | .reply elem ret =>
    if elem.id ∈ s.inflight then
      some { s with
        ring := publish s.ring elem
        memory := update s.memory (s.target elem.id) ⟨some (s.dev.sender elem.id), ret⟩
        written := s.written ++ [(s.dev.sender elem.id, s.owner (s.target elem.id))]
        inflight := s.inflight.erase elem.id }
    else none
  | .irq =>
    let (ring, dev) := virtioMmioIrq virtio9pIrqDriverCallback (s.ring, s.dev)
    some { s with ring := ring, dev := dev }

/-- Nothing goes on after a panic. -/
def P9State.step (action : P9Action) : Option P9State :=
  if s.dev.panicked then none else s.act action

/-- The device is initialized. -/
structure P9Init (s : P9State) : Prop where
  ring : s.ring = virtioAllocRing virtio9pRingSize
  reqLock : s.dev.reqLock = none
  completed : s.dev.completed = []
  calls : s.calls = []
  written : s.written = []
  fetched : s.fetched = 0
  inflight : s.inflight = []

/-- The device does not answer a call that has returned, and a call does not give up when its answer
is in the used ring. -/
def Heard : P9Action → Prop
  | .reply elem _ => s.calls[s.dev.sender elem.id]? = some .sent ∨
      s.calls[s.dev.sender elem.id]? = some .timedOut
  | .giveUp _ => s.ring.lastUsed = s.ring.usedIdx &&& s.ring.numMask
  | _ => True

/-- `Heard` can be checked along a run. -/
instance (s : P9State) (action : P9Action) : Decidable (Heard s action) := by
  cases action <;> unfold Heard <;> infer_instance

/-! ## The invariant -/

/-- The call waits for the reply, or has given up and not released the request yet. -/
@[grind] def RpcPhase.Waits : RpcPhase → Prop
  | .sent | .timedOut => True
  | _ => False

/-- The call has `req_lock`. -/
@[grind] def RpcPhase.Holds (phase : RpcPhase) : Prop := phase = .prepared ∨ phase.Waits

@[grind] def RpcPhase.Finished : RpcPhase → Prop
  | .returned _ _ => True
  | _ => False

@[grind →] theorem RpcPhase.Waits.not_finished (h : phase.Waits) :
    ¬ phase.Finished := by
  cases phase <;> first | exact id | exact absurd h id

/-- A chain with its call. The call waits for it, and the chain has the buffer of the request; or
the call has given it up. -/
@[grind cases] structure Requested (dev : P9Dev) (calls : List RpcPhase) (target : ℕ → ℕ) (head : ℕ)
    (phase : RpcPhase) : Prop where
  at_sender : calls[dev.sender head]? = some phase
  waits : phase.Finished ∨ phase.Waits ∧ dev.req.status = .sent ∧ dev.req.ioEvent = false ∧
    target head = dev.req.rc

/-- The calls and the request. -/
structure Session (dev : P9Dev) (calls : List RpcPhase) (memory : ℕ → Message)
    (owner : ℕ → Option ℕ) (target : ℕ → ℕ) (heads : List ℕ) (elems : List UsedElem) : Prop where
  holder : ∀ (n : ℕ) (phase : RpcPhase), calls[n]? = some phase → phase.Holds →
    dev.reqLock = some n ∧ owner dev.req.rc = some n
  request : ∀ head ∈ heads ++ elems.map UsedElem.id, ∃ phase, Requested dev calls target head phase
  sender_inj : ∀ head ∈ heads ++ elems.map UsedElem.id, ∀ other ∈ heads ++ elems.map UsedElem.id,
    dev.sender head = dev.sender other → head = other
  answered : ∀ elem ∈ elems, ∃ phase, calls[dev.sender elem.id]? = some phase ∧ phase.Waits ∧
    (memory dev.req.rc).answers = some (dev.sender elem.id)
  received : dev.req.ioEvent = true → ∀ (n : ℕ) (phase : RpcPhase), calls[n]? = some phase →
    phase.Holds → phase.Waits ∧ (memory dev.req.rc).answers = some n
  returned : ∀ (n : ℕ) decoded, calls[n]? = some (RpcPhase.returned noError decoded) →
    decoded = some n
  completed : ∀ pair ∈ dev.completed, pair.2 = some pair.1

namespace Session

variable {dev : P9Dev} {calls : List RpcPhase} {memory : ℕ → Message} {owner : ℕ → Option ℕ}
  {target : ℕ → ℕ} {heads : List ℕ} {elems : List UsedElem} {n : ℕ} {phase : RpcPhase}
  {heads' : List ℕ}

/-- There is one call that holds the lock. -/
theorem holds_unique (h : Session dev calls memory owner target heads elems) {m : ℕ}
    {phase' : RpcPhase} (hn : calls[n]? = some phase) (hphase : phase.Holds)
    (hm : calls[m]? = some phase') (hphase' : phase'.Holds) : n = m :=
  some.inj ((h.holder n phase hn hphase).1.symm.trans (h.holder m phase' hm hphase').1)

/-- Unless a call waits, all chains have been given up, and none is in the used ring. -/
theorem all_finished (h : Session dev calls memory owner target heads elems)
    (hnone : ∀ (n : ℕ) (phase : RpcPhase), calls[n]? = some phase → ¬ phase.Waits) :
    elems = [] ∧ ∀ head ∈ heads, ∃ phase, calls[dev.sender head]? = some phase ∧
      phase.Finished := by
  have helems : elems = [] := by
    refine eq_nil_iff_forall_not_mem.mpr fun elem helem => ?_
    grind [h.answered elem helem]
  refine ⟨helems, fun head hhead => ?_⟩
  grind [h.request head (mem_append_left _ hhead)]

/-- The chains have been given up, and the lock is free. -/
theorem of_finished {dev' : P9Dev} {calls' : List RpcPhase}
    (hidle : ∀ (n : ℕ) (phase : RpcPhase), calls'[n]? = some phase → ¬ phase.Holds)
    (hfinished : ∀ head ∈ heads, ∃ phase, calls'[dev'.sender head]? = some phase ∧ phase.Finished)
    (hinj : ∀ head ∈ heads, ∀ other ∈ heads, dev'.sender head = dev'.sender other → head = other)
    (hreturned : ∀ (n : ℕ) decoded, calls'[n]? = some (RpcPhase.returned noError decoded) →
      decoded = some n)
    (hcompleted : ∀ pair ∈ dev'.completed, pair.2 = some pair.1) :
    Session dev' calls' memory owner target heads [] := by
  refine ⟨fun n phase hn hholds => absurd hholds (hidle n phase hn), fun head hhead => ?_, ?_,
    forall_mem_nil _, fun _ n phase hn hholds => absurd hholds (hidle n phase hn),
    hreturned, hcompleted⟩
  · rw [map_nil, append_nil] at hhead
    obtain ⟨phase, hat, hfin⟩ := hfinished head hhead
    exact ⟨phase, hat, .inl hfin⟩
  · rw [map_nil, append_nil]
    exact hinj

section

variable (h : Session dev calls memory owner target heads elems)
include h

/-- The chains that are under way, in any order. -/
theorem mono (hsub : ∀ head ∈ heads', head ∈ heads) :
    Session dev calls memory owner target heads' elems := by
  have hmem (head : ℕ) (hhead : head ∈ heads' ++ elems.map UsedElem.id) :
      head ∈ heads ++ elems.map UsedElem.id := by grind
  exact { h with
    request := fun head hhead => h.request head (hmem head hhead)
    sender_inj := fun head hhead other hother =>
      h.sender_inj head (hmem head hhead) other (hmem other hother) }

/-- A new call waits for the lock. -/
theorem call : Session dev (calls ++ [.called]) memory owner target heads elems := by
  obtain ⟨hholder, hrequest, hinj, hanswered, hreceived, hreturned, hcompleted⟩ := h
  refine ⟨?_, fun head hhead => ?_, hinj, fun elem helem => ?_, ?_, ?_, hcompleted⟩
  · grind
  · obtain ⟨phase, hat, hwaits⟩ := hrequest head hhead
    exact ⟨phase, concat hat _, hwaits⟩
  · obtain ⟨phase, hat, hwaits⟩ := hanswered elem helem
    exact ⟨phase, concat hat _, hwaits⟩
  · grind
  · grind

theorem not_holds (hlock : dev.reqLock = none) (n : ℕ) (phase : RpcPhase)
    (hn : calls[n]? = some phase) : ¬ phase.Holds := by
  intro hholds
  exact nomatch hlock.symm.trans (h.holder n phase hn hholds).1

/-- Nobody waits while a request is prepared. -/
theorem not_waits (hn : calls[n]? = some .prepared) (m : ℕ) (phase : RpcPhase)
    (hm : calls[m]? = some phase) : ¬ phase.Waits := by
  intro hwaits
  obtain rfl := h.holds_unique hn (.inl rfl) hm (.inr hwaits)
  cases hn.symm.trans hm
  exact hwaits

/-- There are no buffers for a call that has got the lock. -/
theorem fail (hn : calls[n]? = some .called) (hlock : dev.reqLock = none) :
    Session dev (calls.set n (.returned errNoMemory none)) memory owner target heads elems := by
  have hidle := h.not_holds hlock
  obtain ⟨rfl, hfinished⟩ := h.all_finished fun m phase hm hwaits => hidle m phase hm (.inr hwaits)
  refine of_finished ?_ (fun head hhead => ?_) (fun head hhead other hother => ?_) ?_ h.completed
  · grind
  · obtain ⟨phase, hat, hfin⟩ := hfinished head hhead
    exact ⟨phase, by grind, hfin⟩
  · exact h.sender_inj head (mem_append_left _ hhead) other (mem_append_left _ hother)
  · grind [h.returned, errNoMemory, noError]

theorem prepare (hn : calls[n]? = some .called) (hlock : dev.reqLock = none) (rc : ℕ) :
    Session { dev with req := ⟨.initialized, rc, false⟩, reqLock := some n }
      (calls.set n .prepared) memory (update owner rc (some n)) target heads elems := by
  have hidle := h.not_holds hlock
  obtain ⟨rfl, hfinished⟩ := h.all_finished fun m phase hm hwaits => hidle m phase hm (.inr hwaits)
  refine ⟨?_, fun head hhead => ?_, h.sender_inj, ?_, ?_, ?_, h.completed⟩
  · grind [update_self]
  · obtain ⟨phase, hat, hfin⟩ := hfinished head (by simpa using hhead)
    exact ⟨phase, by grind, .inl hfin⟩
  · grind
  · grind
  · grind [h.returned]

/-- The call that holds the lock sends the request in a chain that was free. -/
theorem send (hn : calls[n]? = some .prepared) {idx : ℕ}
    (hfree : idx ∉ heads ++ elems.map UsedElem.id) :
    Session
      { dev with
        req := { dev.req with status := .sent }
        sender := update dev.sender idx n }
      (calls.set n .sent) memory owner (update target idx dev.req.rc) (heads ++ [idx])
      elems := by
  obtain ⟨rfl, hfinished⟩ := h.all_finished (h.not_waits hn)
  obtain ⟨hholder, hrequest, hinj, hanswered, hreceived, hreturned, hcompleted⟩ := h
  refine ⟨?_, fun head hhead => ?_, ?_, ?_, ?_, ?_, hcompleted⟩
  · grind
  · by_cases hidx : head = idx
    · exact ⟨.sent, by grind [update_self], .inr (by grind [update_self])⟩
    · obtain ⟨phase, hat, hfin⟩ := hfinished head (by grind)
      exact ⟨phase, by grind [update_of_ne], .inl hfin⟩
  · grind [update_apply]
  · grind
  · grind
  · grind

/-- A call gives up waiting. -/
theorem timeout (hn : calls[n]? = some .sent) :
    Session dev (calls.set n .timedOut) memory owner target heads elems := by
  obtain ⟨hholder, hrequest, hinj, hanswered, hreceived, hreturned, hcompleted⟩ := h
  refine ⟨?_, fun head hhead => ?_, hinj, fun elem helem => ?_, ?_, ?_, hcompleted⟩
  · grind
  · obtain ⟨phase, hat, hwaits⟩ := hrequest head hhead
    refine ⟨if dev.sender head = n then .timedOut else phase, ?_, ?_⟩ <;> grind
  · obtain ⟨phase, hat, hwaits⟩ := hanswered elem helem
    refine ⟨if dev.sender elem.id = n then .timedOut else phase, ?_, ?_⟩ <;> grind
  · grind
  · grind

end

/-- The call that holds the lock returns. A chain that it has sent is given up. -/
theorem release (h : Session dev calls memory owner target heads []) (hn : calls[n]? = some phase)
    (hholds : phase.Holds) (hret : ret = noError → decoded = some n) {owner' : ℕ → Option ℕ} :
    Session { dev with req := { dev.req with status := .unknown }, reqLock := none }
      (calls.set n (.returned ret decoded)) memory owner' target heads [] := by
  have hunique {m : ℕ} {phase' : RpcPhase} (hm : calls[m]? = some phase')
      (hholds' : phase'.Holds) :=
    h.holds_unique hm hholds' hn hholds
  refine of_finished ?_ (fun head hhead => ?_) (fun head hhead other hother => ?_) ?_ h.completed
  · grind
  · obtain ⟨phase', hat, hwaits⟩ := h.request head (mem_append_left _ hhead)
    refine ⟨if dev.sender head = n then .returned ret decoded else phase', ?_, ?_⟩ <;> grind
  · exact h.sender_inj head (mem_append_left _ hhead) other (mem_append_left _ hother)
  · grind [h.returned]

/-- When the event has been signaled, no reply is in the used ring. -/
theorem elems_nil_of_event (h : Session dev calls memory owner target heads elems)
    (hevent : dev.req.ioEvent = true) : elems = [] := by
  refine eq_nil_iff_forall_not_mem.mpr fun elem helem => ?_
  obtain ⟨phase, hat, hwaits, -⟩ := h.answered elem helem
  obtain ⟨phase', hat', hrequest⟩ :=
    h.request elem.id (mem_append_right _ (List.mem_map_of_mem helem))
  grind

/-- The device answers a call that waits: the reply goes to the buffer of this call. -/
theorem reply (h : Session dev calls memory owner target heads elems) (hhead : elem.id ∈ heads)
    (hphase : calls[dev.sender elem.id]? = some phase) (hwaits : phase.Waits) (ret : Status)
    (hsub : ∀ head ∈ heads', head ∈ heads) :
    owner (target elem.id) = some (dev.sender elem.id) ∧ Session dev calls
        (update memory (target elem.id) ⟨some (dev.sender elem.id), ret⟩) owner target
        heads' (elems ++ [elem]) := by
  have hmem (head : ℕ) (hh : head ∈ heads' ++ (elems ++ [elem]).map UsedElem.id) :
      head ∈ heads ++ elems.map UsedElem.id := by grind
  have hunique {m : ℕ} {phase' : RpcPhase} (hm : calls[m]? = some phase') (hholds : phase'.Holds) :=
    h.holds_unique hm hholds hphase (.inr hwaits)
  obtain ⟨hevent, htarget⟩ : dev.req.ioEvent = false ∧ target elem.id = dev.req.rc := by
    grind [h.request elem.id (mem_append_left _ hhead)]
  rw [htarget]
  refine ⟨(h.holder _ phase hphase (.inr hwaits)).2, h.holder,
    fun head hh => h.request head (hmem head hh),
    fun head hh other ho => h.sender_inj head (hmem head hh) other (hmem other ho),
    fun other hother => ?_, ?_, h.returned, h.completed⟩
  · refine ⟨phase, ?_, hwaits, ?_⟩ <;> grind [h.answered]
  · grind

/-- The callback finds a request that was sent, and completes the call that waits for this reply. -/
theorem callback {rest : List UsedElem}
    (h : Session dev calls memory owner target heads (elem :: rest))
    (hfresh : elem.id ∉ heads ++ rest.map UsedElem.id) :
    dev.req.status = .sent ∧ Session
        { dev with
          req := { dev.req with status := .received, ioEvent := true }
          completed := dev.completed ++ [(dev.sender elem.id, dev.reqLock)] }
        calls memory owner target heads rest := by
  have hfirst : elem.id ∈ heads ++ (elem :: rest).map UsedElem.id :=
    mem_append_right _ mem_cons_self
  have hmem (head : ℕ) (hh : head ∈ heads ++ rest.map UsedElem.id) :
      head ∈ heads ++ (elem :: rest).map UsedElem.id := by grind
  obtain ⟨phase, hphase, hwaits, hreply⟩ := h.answered elem mem_cons_self
  have hlock := (h.holder _ phase hphase (.inr hwaits)).1
  have hunique {m : ℕ} {phase' : RpcPhase} (hm : calls[m]? = some phase') (hholds : phase'.Holds) :=
    h.holds_unique hm hholds hphase (.inr hwaits)
  -- no other chain belongs to this call
  have hother (head : ℕ) (hh : head ∈ heads ++ rest.map UsedElem.id) {phase' : RpcPhase}
      (hat : calls[dev.sender head]? = some phase') : ¬ phase'.Waits := by
    intro hwaits'
    have hsame := h.sender_inj head (hmem head hh) elem.id hfirst (hunique hat (.inr hwaits'))
    exact hfresh (hsame ▸ hh)
  refine ⟨?_, h.holder, fun head hh => ?_,
    fun head hh other ho => h.sender_inj head (hmem head hh) other (hmem other ho),
    fun other ho => ?_, ?_, h.returned, ?_⟩
  · grind [h.request elem.id hfirst]
  · obtain ⟨phase', hat, hwaits'⟩ := h.request head (hmem head hh)
    exact ⟨phase', hat, .inl (hwaits'.resolve_right fun hw => hother head hh hat hw.1)⟩
  · obtain ⟨phase', hat, hwaits', -⟩ := h.answered other (mem_cons_of_mem _ ho)
    exact absurd hwaits'
      (hother other.id (mem_append_right _ (List.mem_map_of_mem ho)) hat)
  · intro _ m phase' hm hholds
    obtain rfl := hunique hm hholds
    cases hm.symm.trans hphase
    exact ⟨hwaits, hreply⟩
  · exact forall_mem_append.mpr ⟨h.completed, forall_mem_singleton.mpr hlock⟩

end Session

/-- A chain of two descriptors is freed. -/
theorem free_two {r : Vring} {heads : List ℕ} {chains : List (List ℕ)} (h : Held r heads chains)
    (htwo : ∀ chain ∈ chains, chain.length = 2) {head : ℕ} (hhead : head ∈ heads) :
    virtioFreeDesc (virtioFreeDesc r head) (r.desc head).next = freeChain r.num r head := by
  obtain ⟨⟨free, hheap⟩, hne, hheads⟩ := h
  obtain ⟨chain, hchain, rfl⟩ := List.mem_map.mp (hheads.mem_iff.mp hhead)
  obtain ⟨i, x, rfl⟩ := length_eq_two.mp (htwo chain hchain)
  obtain ⟨-, hnext, hlast⟩ := hheap.chain_linked _ hchain
  have hnum : 2 ≤ r.num := by
    have hlength := hheap.length_le
    have hle := (sublist_flatten_of_mem hchain).length_le
    rw [length_cons, length_singleton] at hle
    omega
  have hnodup : [i, x].Nodup := (nodup_flatten.mp (nodup_append.mp hheap.nodup).2.1).1 _ hchain
  have hxi : x ≠ i := by
    rintro rfl
    exact (nodup_cons.mp hnodup).1 mem_cons_self
  have hi : (r.desc i).hasNext = true ∧ (r.desc i).next = x := by
    obtain ⟨hflag, hnext⟩ := ite_none_right_eq_some.mp hnext
    exact ⟨hflag, some.inj hnext⟩
  have hx : (r.desc x).hasNext = false := by
    unfold chainNext at hlast
    split at hlast
    · cases hlast
    · next hflag => exact Bool.eq_false_iff.mpr hflag
  obtain ⟨fuel, hfuel⟩ := Nat.exists_eq_add_of_le' hnum
  have hkept : ((virtioFreeDesc r i).desc x).hasNext = false := by
    show (update r.desc i _ x).hasNext = false
    rw [update_of_ne hxi]
    exact hx
  show virtioFreeDesc (virtioFreeDesc r i) (r.desc i).next = freeChain r.num r i
  rw [hfuel, freeChain, if_pos hi.1, hi.2, freeChain, hkept]
  rfl

/-- The whole device. -/
structure P9State.Inv (s : P9State) (queued : List ℕ) (elems : List UsedElem)
    (chains : List (List ℕ)) : Prop where
  use : InUse s.ring [] queued s.fetched s.inflight elems chains
  two : ∀ chain ∈ chains, chain.length = 2
  session : Session s.dev s.calls s.memory s.owner s.target (queued ++ s.inflight) elems
  written : ∀ pair ∈ s.written, pair.2 = some pair.1

namespace P9State.Inv

variable {s s' : P9State} {queued : List ℕ} {elems : List UsedElem} {chains : List (List ℕ)} {n : ℕ}

section

variable (h : s.Inv queued elems chains)
include h

theorem prepare {rc : Option ℕ} (hn : s.calls[n]? = some .called) (hlock : s.dev.reqLock = none)
    (hstep : s.prepare n rc = some s') : s'.Inv queued elems chains := by
  cases rc with
  | none =>
    cases hstep
    exact ⟨h.use, h.two, h.session.fail hn hlock, h.written⟩
  | some rc =>
    obtain ⟨_, ⟨⟩⟩ := ite_none_right_eq_some.mp hstep
    exact ⟨h.use, h.two, h.session.prepare hn hlock rc, h.written⟩

theorem send (hn : s.calls[n]? = some .prepared) :
    ∃ queued chains, (s.send n).Inv queued elems chains := by
  rw [P9State.send]
  split
  · refine ⟨queued, chains, h.use, h.two, ?_, h.written⟩
    obtain ⟨hholder, hrequest, hinj, hanswered, hreceived, hreturned, hcompleted⟩ := h.session
    refine ⟨hholder, fun head hhead => ?_, hinj, hanswered, hreceived, hreturned, hcompleted⟩
    obtain ⟨phase, hat, hwaits⟩ := hrequest head hhead
    exact ⟨phase, hat, hwaits⟩
  next idx ring halloc =>
  obtain ⟨chain, -, hlength, hheld, hsame, -⟩ := h.use.held.alloc halloc
  obtain ⟨hfree, hsubmit⟩ := h.use.start hsame hheld
  refine ⟨queued ++ [idx], chain :: chains, hsubmit, forall_mem_cons.mpr ⟨hlength, h.two⟩,
    (h.session.send hn hfree).mono fun head hhead => ?_, h.written⟩
  simp only [mem_append, mem_cons, not_mem_nil, or_false] at hhead ⊢
  tauto

theorem reply (hheard : Heard s (.reply elem ret))
    (hflight : elem.id ∈ s.inflight) (hstep : s.act (.reply elem ret) = some s') :
    s'.Inv queued (elems ++ [elem]) chains := by
  rw [P9State.act, if_pos hflight] at hstep
  cases hstep
  obtain ⟨phase, hphase, hwaits⟩ :
      ∃ phase, s.calls[s.dev.sender elem.id]? = some phase ∧ phase.Waits := by
    rcases hheard with hsent | htimed
    · exact ⟨.sent, hsent, trivial⟩
    · exact ⟨.timedOut, htimed, trivial⟩
  -- there are less chains than descriptors
  have hroom : elems.length + 1 < s.ring.num := by
    have hle := h.use.held.mul_length_le fun c hc => Nat.le_of_eq (h.two c hc).symm
    have hpos := length_pos_of_mem hflight
    simp only [length_append, length_map] at hle
    omega
  have hsub (head : ℕ) (hmem : head ∈ queued ++ s.inflight.erase elem.id) :
      head ∈ queued ++ s.inflight := by
    rw [mem_append] at hmem ⊢
    exact hmem.imp_right mem_of_mem_erase
  obtain ⟨howner, hsession⟩ := h.session.reply (mem_append_right _ hflight) hphase hwaits ret hsub
  refine ⟨h.use.publish hroom hflight, h.two, hsession, ?_⟩
  exact forall_mem_append.mpr ⟨h.written, forall_mem_singleton.mpr howner⟩

theorem irq (hstep : s.act .irq = some s') : ∃ chains, s'.Inv queued [] chains := by
  cases hstep
  obtain ⟨chains', huse, htwo, hsession⟩ := h.use.irq virtio9pIrqDriverCallback
    (s := (s.ring, s.dev))
    (P := fun elems chains dev => (∀ chain ∈ chains, chain.length = 2) ∧
      Session dev s.calls s.memory s.owner s.target (queued ++ s.inflight) elems)
    (by
      rintro elem rest chains t huse ⟨htwo, hsession⟩
      have hnodup := huse.held.nodup
      rw [nil_append, ← append_assoc, map_cons] at hnodup
      obtain ⟨hstatus, hnext⟩ := hsession.callback (nodup_cons.mp (nodup_middle.mp hnodup)).1
      rw [virtio9pIrqDriverCallback, if_neg (not_not_intro hstatus)]
      refine ⟨free_two huse.held htwo ?_, fun c hc => htwo c (mem_of_mem_eraseP hc), hnext⟩
      rw [nil_append, ← append_assoc, map_cons]
      exact mem_append_right _ mem_cons_self)
    ⟨h.two, h.session⟩
  exact ⟨chains', huse, htwo, hsession, h.written⟩

end

/-- The call that holds the lock returns. -/
theorem release (h : s.Inv queued [] chains) (hn : s.calls[n]? = some phase) (hholds : phase.Holds)
    (hret : ret = noError → decoded = some n) : (s.release n ret decoded).Inv queued [] chains :=
  ⟨h.use, h.two, h.session.release hn hholds hret, h.written⟩

/-- Every action keeps the invariant. -/
theorem step (h : s.Inv queued elems chains) {action : P9Action} (hheard : Heard s action)
    (hstep : s.step action = some s') : ∃ queued elems chains, s'.Inv queued elems chains := by
  obtain ⟨_, hstep⟩ := ite_none_left_eq_some.mp hstep
  cases action with
  | call =>
    cases hstep
    exact ⟨queued, elems, chains, h.use, h.two, h.session.call, h.written⟩
  | prepare n rc =>
    obtain ⟨hcond, hstep⟩ := ite_none_right_eq_some.mp hstep
    exact ⟨queued, elems, chains, h.prepare hcond.1 hcond.2 hstep⟩
  | reject n err =>
    rw [P9State.act] at hstep
    obtain ⟨hcond, hstep⟩ := ite_none_right_eq_some.mp hstep
    cases hstep
    obtain ⟨rfl, -⟩ := h.session.all_finished (h.session.not_waits hcond.1)
    exact ⟨queued, [], chains, h.release hcond.1 (.inl rfl) fun heq => absurd heq hcond.2⟩
  | send n =>
    obtain ⟨hn, ⟨⟩⟩ := ite_none_right_eq_some.mp hstep
    obtain ⟨queued, chains, hinv⟩ := h.send hn
    exact ⟨queued, elems, chains, hinv⟩
  | timeout n =>
    obtain ⟨hcond, ⟨⟩⟩ := ite_none_right_eq_some.mp hstep
    exact ⟨queued, elems, chains, h.use, h.two, h.session.timeout hcond.1, h.written⟩
  | receive n =>
    obtain ⟨hcond, ⟨⟩⟩ := ite_none_right_eq_some.mp hstep
    obtain rfl := h.session.elems_nil_of_event hcond.2
    exact ⟨queued, [], chains, h.release hcond.1 (.inr trivial)
      fun _ => (h.session.received hcond.2 n .sent hcond.1 (.inr trivial)).2⟩
  | giveUp n =>
    rw [P9State.act] at hstep
    obtain ⟨hn, hstep⟩ := ite_none_right_eq_some.mp hstep
    cases hstep
    have hseen : s.ring.lastUsed = s.ring.usedIdx &&& s.ring.numMask := hheard
    rw [h.use.pending.and_mask] at hseen
    cases elems with
    | nil =>
      exact ⟨queued, [], chains, h.release hn (.inr trivial) fun heq => nomatch heq⟩
    | cons elem rest => exact absurd hseen h.use.pending.first.2
  | fetch =>
    rw [P9State.act] at hstep
    obtain ⟨hmore, hstep⟩ := ite_none_left_eq_some.mp hstep
    cases hstep
    obtain ⟨rest, rfl, huse⟩ := h.use.fetch hmore
    refine ⟨rest, elems, chains, huse, h.two, h.session.mono fun head hmem => ?_, h.written⟩
    simp only [mem_append, mem_cons, not_mem_nil, or_false] at hmem ⊢
    tauto
  | reply elem ret =>
    by_cases hflight : elem.id ∈ s.inflight
    · exact ⟨queued, _, chains, h.reply hheard hflight hstep⟩
    · rw [P9State.act, if_neg hflight] at hstep
      cases hstep
  | irq =>
    obtain ⟨chains, hinv⟩ := h.irq hstep
    exact ⟨queued, [], chains, hinv⟩

end P9State.Inv

theorem p9_init_inv {s : P9State} (h : P9Init s) : s.Inv [] [] [] := by
  have huse := alloc_ring_in_use (by decide : 7 ≤ 15)
  rw [show 2 ^ 7 = virtio9pRingSize from rfl, ← h.ring] at huse
  have hempty (n : ℕ) (phase : RpcPhase) : s.calls[n]? ≠ some phase := by
    rw [h.calls, getElem?_nil]
    exact fun heq => nomatch heq
  refine ⟨?_, forall_mem_nil _, ?_, ?_⟩
  · rw [h.fetched, h.inflight]
    exact huse
  · rw [h.inflight]
    refine .of_finished (fun n phase hn => absurd hn (hempty n phase))
      (forall_mem_nil _) (forall_mem_nil _) (fun n decoded hn => absurd hn (hempty n _)) ?_
    rw [h.completed]
    exact forall_mem_nil _
  · rw [h.written]
    exact forall_mem_nil _

/-! ## Replies -/

/-- In every run in which the device answers no call that has given up: a call that has returned
`NO_ERROR` has decoded the reply to its own request; every reply was written to a buffer of the call
that it answers, which had not returned; and the callback has completed the call that was
answered. -/
theorem own_reply {s : P9State} (h : Reachable P9State.step Heard P9Init s) :
    (∀ (n : ℕ) decoded, s.calls[n]? = some (RpcPhase.returned noError decoded) → decoded = some n) ∧
      (∀ pair ∈ s.written, pair.2 = some pair.1) ∧
      ∀ pair ∈ s.dev.completed, pair.2 = some pair.1 := by
  obtain ⟨queued, elems, chains, hinv⟩ :
      ∃ queued elems chains, s.Inv queued elems chains := by
    refine h.invariant (P := fun s => ∃ queued elems chains, s.Inv queued elems chains)
      (fun hinit => ⟨[], [], [], p9_init_inv hinit⟩) ?_
    rintro s action s' ⟨queued, elems, chains, hinv⟩
    exact hinv.step
  exact ⟨hinv.session.returned, hinv.written, hinv.session.completed⟩

/-- The device before its first use. -/
def p9Start : P9State :=
  ⟨virtioAllocRing virtio9pRingSize, ⟨⟨.unknown, 0, false⟩, none, false, fun _ => 0, []⟩, [],
    fun _ => ⟨none, 0⟩, fun _ => none, fun _ => 0, [], 0, []⟩

/-- The first call is never answered, the second one is answered before it has given up, and the
third one in time. -/
def patientRun : List P9Action :=
  [.call, .call, .prepare 0 (some 7), .send 0, .fetch, .timeout 0, .giveUp 0,
    .prepare 1 (some 7), .send 1, .fetch, .timeout 1, .reply ⟨124, 64⟩ 0, .irq, .giveUp 1,
    .call, .prepare 2 (some 9), .send 2, .fetch, .reply ⟨124, 32⟩ 0, .irq, .receive 2]

theorem own_reply_patient : ∃ s, Reachable P9State.step Heard P9Init s ∧
    s.calls = [.returned errTimedOut none, .returned errTimedOut none,
      .returned noError (some 2)] ∧ s.dev.completed = [(1, some 1), (2, some 2)] ∧
    (∀ pair ∈ s.written, pair.2 = some pair.1) := by
  have hrun : (Transition.run P9State.step p9Start patientRun).map
      (fun s => (s.calls, s.dev.completed)) =
        some ([.returned errTimedOut none, .returned errTimedOut none,
          .returned noError (some 2)], [(1, some 1), (2, some 2)]) := by decide +kernel
  obtain ⟨s, hrun, hend⟩ := map_eq_some_iff.mp hrun
  have hreach : Reachable P9State.step Heard P9Init s :=
    .run (.init ⟨by simp only [p9Start], rfl, rfl, rfl, rfl, rfl, rfl⟩)
      (by decide +kernel : Transition.Admits _ _ p9Start patientRun) hrun
  obtain ⟨hcalls, hcompleted⟩ := Prod.mk.inj hend
  exact ⟨s, hreach, hcalls, hcompleted, (own_reply hreach).2.1⟩

/-- The first call gives up. The second one gets the same buffer and sends its request; then the
device answers the first. The reply is written to the buffer of the second call, which takes it for
its own and returns `NO_ERROR`. -/
theorem late_reply_is_taken :
    (Transition.run P9State.step p9Start
      [.call, .prepare 0 (some 7), .send 0, .fetch, .timeout 0, .giveUp 0, .call,
        .prepare 1 (some 7), .send 1, .reply ⟨126, 64⟩ 0, .irq, .receive 1]).map
          (fun s => (s.calls, s.written, s.dev.completed)) =
      some ([.returned errTimedOut none, .returned noError (some 0)], [(0, some 1)],
        [(0, some 1)]) := by
  decide +kernel

end NusaKernel.Virtio
