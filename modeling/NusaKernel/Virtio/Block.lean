import NusaKernel.Kernel.Status
import NusaKernel.Lib.Lookup
import NusaKernel.Virtio.Bookkeeping

/-!
# Results of the virtio block driver

`dev/virtio/block/virtio-block.c`: a request is a chain of descriptors. What belongs to it is kept
in the transaction with the number of the chain's first descriptor, and the device stores the status
of the request there. `virtio_block_read_write` waits for an event, which the interrupt callback
signals after it has freed the chain, and reads the status when it runs again.

`own_result`: the result of a call is decided by the status of its own request, as long as the
device completes no request in a transaction that a caller has still to read. A later request gets
the same transaction as soon as the chain is free, and if it is done before the caller runs, the
caller reads its status (`status_of_later_request`).

`virtio_block_do_txn` is one step, and so is the callback. Left out: what is transferred.
-/

namespace NusaKernel.Virtio

open List Function Option Lookup
open Transition (Reachable)

/-- `VIRTIO_BLK_S_OK`. -/
def virtioBlkSOk : ℕ := 0

/-- `VIRTIO_BLK_RING_LEN`. -/
def virtioBlkRingLen : ℕ := 256

/-- The callback of a transaction: `sync_completion_cb`, or a function of the block layer. -/
inductive Completion where
  | sync
  | async
deriving DecidableEq

/-- `virtio_block_txn`. The cookie leads to a call. -/
structure Txn where
  callback : Option Completion
  cookie : ℕ
  len : ℕ
  status : ℕ

/-- A call waits for its transaction, is woken up, and returns. -/
inductive Phase where
  | waiting (slot : ℕ)
  | signaled (slot : ℕ)
  | returned (result : Status)
deriving DecidableEq

/-- A call; `own` is the status that the device stored for its request. -/
structure Call where
  len : ℕ
  phase : Phase
  own : Option ℕ
deriving DecidableEq

/-- The transactions, and all calls so far. -/
structure Requests where
  txns : ℕ → Txn
  calls : List Call

/-- What a status says about a transfer. -/
def txnResult (status len : ℕ) : Status := if status = virtioBlkSOk then len else errIo

/-- `sync_completion_cb` signals the event of a call. The result of an asynchronous request is
passed to its callback. -/
def Completion.run (callback : Completion) (bytes : Status) (call : Call) : Call :=
  match callback, call.phase with
  | .sync, .waiting slot => { call with phase := .signaled slot }
  | .sync, _ => call
  | .async, _ => { call with phase := .returned bytes }

def virtioBlockIrqDriverCallback (elem : UsedElem) (s : Vring × Requests) : Vring × Requests :=
  let txn := s.2.txns elem.id
  (freeChain s.1.num s.1 elem.id,
    match txn.callback with
    | none => s.2
    | some callback => { s.2 with
        calls := s.2.calls.modify txn.cookie (callback.run (txnResult txn.status txn.len)) })

/-- The loop of `virtio_block_do_txn` over the further pages of a buffer. A page that is not
contiguous to the last one needs a descriptor of its own. -/
def addPages (r : Vring) (desc : ℕ) : List Bool → Option Vring
  | [] => some r
  | true :: pages => addPages r desc pages
  | false :: pages => (addDesc r desc).bind fun (nextI, r) => addPages r nextI pages

/-- The ring and the requests; the device, with its place in the available ring and the chains it
has fetched; and the call that sent each chain. -/
structure BlockState where
  ring : Vring
  reqs : Requests
  fetched : ℕ
  inflight : List ℕ
  sender : ℕ → ℕ

/-- A call with the pages of its buffer, a step of the device, an interrupt, or a caller that runs
again. -/
inductive BlockAction where
  | start (callback : Completion) (len : ℕ) (pages : List Bool)
  | fetch
  | complete (elem : UsedElem) (status : ℕ)
  | irq
  | resume (call : ℕ)

/-- `virtio_block_do_txn`. If the descriptors run out in the loop, it writes behind the table. -/
def virtioBlockDoTxn (s : BlockState) (callback : Completion) (len : ℕ) (pages : List Bool) :
    Option BlockState :=
  match virtioAllocDescChain s.ring 3 with
  | none =>
    some { s with
      reqs.calls := s.reqs.calls ++ [⟨len, .returned errNoResources, none⟩] }
  | some (i, ring) =>
    (addPages ring (ring.desc i).next pages).map fun ring => { s with
      ring := virtioSubmitChain ring i
      reqs.txns := update s.reqs.txns i
        ⟨some callback, s.reqs.calls.length, len, (s.reqs.txns i).status⟩
      reqs.calls := s.reqs.calls ++ [⟨len, .waiting i, none⟩]
      sender := update s.sender i s.reqs.calls.length }

/-- The end of `virtio_block_read_write`. -/
def Call.resume (txns : ℕ → Txn) (call : Call) : Call :=
  match call.phase with
  | .signaled slot => { call with phase := .returned (txnResult (txns slot).status call.len) }
  | _ => call

def BlockState.step (s : BlockState) : BlockAction → Option BlockState
  | .start callback len pages => virtioBlockDoTxn s callback len pages
  | .fetch =>
    if s.fetched = s.ring.availIdx then none
    else some { s with
      fetched := (s.fetched + 1) % 2 ^ 16
      inflight := s.inflight ++ [s.ring.availRing (s.fetched &&& s.ring.numMask)] }
  | .complete elem status =>
    if elem.id ∈ s.inflight then
      some { s with
        ring := publish s.ring elem
        reqs.txns := update s.reqs.txns elem.id
          { s.reqs.txns elem.id with status := status }
        reqs.calls := s.reqs.calls.modify (s.sender elem.id)
          fun call => { call with own := some status }
        inflight := s.inflight.erase elem.id }
    else none
  | .irq =>
    let (ring, reqs) := virtioMmioIrq virtioBlockIrqDriverCallback (s.ring, s.reqs)
    some { s with ring := ring, reqs := reqs }
  | .resume call =>
    some { s with reqs.calls := s.reqs.calls.modify call (Call.resume s.reqs.txns) }

/-- The driver is initialized. The transactions are not. -/
def BlockInit (s : BlockState) : Prop :=
  ∃ txns sender, s = ⟨virtioAllocRing virtioBlkRingLen, ⟨txns, []⟩, 0, [], sender⟩

/-- No request is completed in a transaction that a caller has still to read, and there are
descriptors for all pages of a request. -/
def Orderly (s : BlockState) : BlockAction → Prop
  | .complete elem _ => ∀ call ∈ s.reqs.calls, call.phase ≠ .signaled elem.id
  | .start _ _ pages => s.ring.freeCount < 3 ∨ 3 + pages.count false ≤ s.ring.freeCount
  | _ => True

/-- `Orderly` can be checked along a run. -/
instance (s : BlockState) (action : BlockAction) : Decidable (Orderly s action) := by
  cases action <;> unfold Orderly <;> infer_instance

/-! ## Pages -/

variable {pages : List Bool} {chains : List (List ℕ)} {f : Call → Call} {elem : UsedElem}

/-- The chain grows behind its second descriptor. -/
theorem Heap.add_pages {r : Vring} {free back : List ℕ} {x : ℕ}
    (front : List ℕ) (h : Heap r free ((front ++ x :: back) :: chains))
    (hback : back ≠ []) (hroom : pages.count false ≤ free.length) :
    ∃ r' free' more, addPages r x pages = some r' ∧
      Heap r' free' ((front ++ x :: (more ++ back)) :: chains) ∧ r.SameQueues r' := by
  induction pages generalizing r free front x with
  | nil => exact ⟨r, free, [], rfl, h, .refl r⟩
  | cons page pages ih =>
    cases page with
    | true => exact ih front h (by simpa using hroom)
    | false =>
      rw [count_cons_self] at hroom
      cases free with
      | nil => cases hroom
      | cons a free =>
        obtain ⟨r₁, hadd, hheap, hsame⟩ := h.add_desc hback
        rw [append_cons] at hheap
        obtain ⟨r₂, free', more, hpages, hheap', hsame'⟩ :=
          ih _ hheap (Nat.le_of_succ_le_succ hroom)
        refine ⟨r₂, free', a :: more, ?_, ?_, hsame.trans hsame'⟩
        · rw [addPages, hadd]
          exact hpages
        · rw [← append_cons] at hheap'
          exact hheap'

/-- The chain of a request, before it is submitted. -/
theorem Held.add_pages {r : Vring} {heads : List ℕ} {chain : List ℕ}
    (h : Held r heads (chain :: chains)) (hlength : chain.length = 3)
    (hroom : pages.count false ≤ r.freeCount) :
    ∃ r' chain', addPages r (r.desc (headOf chain)).next pages = some r' ∧ 3 ≤ chain'.length ∧
      Held r' heads (chain' :: chains) ∧ r.SameQueues r' := by
  obtain ⟨⟨free, hheap⟩, hne, hheads⟩ := h
  obtain ⟨i, x, y, rfl⟩ := length_eq_three.mp hlength
  rw [hheap.count] at hroom
  obtain ⟨-, hnext, -⟩ := hheap.chain_linked _ mem_cons_self
  have hx : (r.desc i).next = x := by
    obtain ⟨_, hnext⟩ := ite_none_right_eq_some.mp hnext
    exact some.inj hnext
  obtain ⟨r', free', more, hpages, hheap', hsame⟩ :=
    Heap.add_pages [i] hheap (cons_ne_nil y []) hroom
  refine ⟨r', [i] ++ x :: (more ++ [y]), ?_, ?_, ⟨⟨free', hheap'⟩, ?_, hheads⟩, hsame⟩
  · show addPages r (r.desc i).next pages = some r'
    rw [hx]
    exact hpages
  · simp
  · exact forall_mem_cons.mpr ⟨cons_ne_nil _ _, (forall_mem_cons.mp hne).2⟩

/-! ## The invariant -/

/-- The result of a call is decided by the status of its own request. Without a free chain there
is no request. -/
def Call.Decided (call : Call) (result : Status) : Prop :=
  match call.own with
  | none => result = errNoResources
  | some status => result = txnResult status call.len

/-- The transaction of a chain belongs to the call that waits for it. -/
structure Serves (txn : Txn) (calls : List Call) (head sender : ℕ) (call : Call) : Prop where
  at_sender : calls[sender]? = some call
  phase : call.phase = .waiting head
  callback : txn.callback.isSome
  cookie : txn.cookie = sender
  len : txn.len = call.len

/-- The requests that are under way, with those in `done` completed; and the calls that have been
woken up or have returned. -/
structure Slots (txns : ℕ → Txn) (calls : List Call) (sender : ℕ → ℕ) (heads done : List ℕ) :
    Prop where
  serves : ∀ head ∈ heads ++ done, ∃ call, Serves (txns head) calls head (sender head) call ∧
    (head ∈ done → call.own = some (txns head).status)
  signaled : ∀ call ∈ calls, ∀ slot, call.phase = .signaled slot →
    call.own = some (txns slot).status
  returned : ∀ call ∈ calls, ∀ result, call.phase = .returned result → call.Decided result

/-- A changed call, or one of the others. -/
theorem mem_modify {calls : List Call} {n : ℕ} {call : Call}
    (h : call ∈ calls.modify n f) : call ∈ calls ∨ ∃ old, calls[n]? = some old ∧ call = f old := by
  obtain ⟨m, hm⟩ := mem_iff_getElem?.mp h
  rcases of_modify hm with ⟨-, hold⟩ | ⟨-, hm⟩
  · exact .inr hold
  · exact .inl (mem_of_getElem? hm)

namespace Serves

variable {txn : Txn} {calls : List Call} {head sender : ℕ} {call : Call}

section

variable (h : Serves txn calls head sender call)
include h

/-- Two chains do not belong to one call. -/
theorem sender_ne {txn' : Txn} {head' sender' : ℕ} {call' : Call}
    (h' : Serves txn' calls head' sender' call') (hne : head ≠ head') : sender ≠ sender' := by
  rintro rfl
  have hcall : call = call' := some.inj (h.at_sender.symm.trans h'.at_sender)
  have hphase := h.phase
  rw [hcall, h'.phase] at hphase
  exact hne (Phase.waiting.inj hphase).symm

/-- Another call has changed. -/
theorem modify_ne {n : ℕ} (hn : n ≠ sender) (f : Call → Call) :
    Serves txn (calls.modify n f) head sender call :=
  { h with at_sender := Lookup.modify_ne h.at_sender (Ne.symm hn) f }

/-- There is one more call. -/
theorem append (new : Call) : Serves txn (calls ++ [new]) head sender call :=
  { h with at_sender := concat h.at_sender new }

theorem call_eq {other : Call} (hother : calls[sender]? = some other) : call = other :=
  some.inj (h.at_sender.symm.trans hother)

end

end Serves

namespace Slots

variable {txns : ℕ → Txn} {calls : List Call} {sender : ℕ → ℕ} {heads done : List ℕ} {i : ℕ}

section

variable (h : Slots txns calls sender heads done)
include h

/-- Without a free chain a call fails at once. -/
theorem refuse (len : ℕ) :
    Slots txns (calls ++ [⟨len, .returned errNoResources, none⟩]) sender heads done := by
  refine ⟨fun head hhead => ?_, forall_mem_append.mpr ⟨h.signaled, ?_⟩,
    forall_mem_append.mpr ⟨h.returned, ?_⟩⟩
  · obtain ⟨call, hserves, hown⟩ := h.serves head hhead
    exact ⟨call, hserves.append _, hown⟩
  · refine forall_mem_singleton.mpr fun slot hslot => ?_
    cases hslot
  · refine forall_mem_singleton.mpr fun result hres => ?_
    cases hres
    rfl

/-- A request starts in the transaction of a chain that was free. The status there stays. -/
theorem start (hfree : i ∉ heads ++ done) (callback : Completion) (len : ℕ) :
    Slots (update txns i ⟨some callback, calls.length, len, (txns i).status⟩)
      (calls ++ [⟨len, .waiting i, none⟩]) (update sender i calls.length) (i :: heads)
      done := by
  refine ⟨forall_mem_cons.mpr ⟨?_, fun head hhead => ?_⟩,
    forall_mem_append.mpr ⟨fun call hcall slot hslot => ?_, ?_⟩,
    forall_mem_append.mpr ⟨h.returned, ?_⟩⟩
  · rw [update_self, update_self]
    exact ⟨⟨len, .waiting i, none⟩, ⟨getElem?_concat_length, rfl, rfl, rfl, rfl⟩,
      fun hdone => absurd (mem_append_right heads hdone) hfree⟩
  · have hne : head ≠ i := fun heq => hfree (heq ▸ hhead)
    obtain ⟨call, hserves, hown⟩ := h.serves head hhead
    rw [update_of_ne hne, update_of_ne hne]
    exact ⟨call, hserves.append _, hown⟩
  · rw [h.signaled call hcall slot hslot]
    by_cases hi : slot = i
    · rw [hi, update_self]
    · rw [update_of_ne hi]
  · refine forall_mem_singleton.mpr fun slot hslot => ?_
    cases hslot
  · refine forall_mem_singleton.mpr fun result hres => ?_
    cases hres

/-- The device stores a status in a transaction that no caller has still to read. -/
theorem complete (hi : i ∈ heads) (hread : ∀ call ∈ calls, call.phase ≠ .signaled i) (status : ℕ)
    {heads' : List ℕ} (hheads : ∀ head ∈ heads', head ∈ heads) :
    Slots (update txns i { txns i with status := status })
      (calls.modify (sender i) fun call => { call with own := some status }) sender heads'
      (done ++ [i]) := by
  obtain ⟨old, hold, -⟩ := h.serves i (mem_append_left _ hi)
  refine ⟨fun head hhead => ?_, fun call hcall slot hslot => ?_, fun call hcall result hres => ?_⟩
  · by_cases hne : head = i
    · subst hne
      rw [update_self]
      exact ⟨{ old with own := some status },
        { hold with at_sender := modify_self hold.at_sender _ }, fun _ => rfl⟩
    · have hmem : head ∈ heads ++ done := by
        simp only [mem_append, mem_singleton] at hhead ⊢
        rcases hhead with hhead | hhead | hhead
        · exact .inl (hheads head hhead)
        · exact .inr hhead
        · exact absurd hhead hne
      obtain ⟨call, hserves, hown⟩ := h.serves head hmem
      rw [update_of_ne hne]
      refine ⟨call, hserves.modify_ne (hold.sender_ne hserves (Ne.symm hne)) _, fun hdone => ?_⟩
      refine hown ((mem_append.mp hdone).resolve_right ?_)
      exact fun hlast => hne (mem_singleton.mp hlast)
  · rcases mem_modify hcall with hcall | ⟨other, hother, rfl⟩
    · have hne : slot ≠ i := fun heq => hread call hcall (heq ▸ hslot)
      rw [update_of_ne hne]
      exact h.signaled call hcall slot hslot
    · obtain rfl := hold.call_eq hother
      exact nomatch hold.phase.symm.trans hslot
  · rcases mem_modify hcall with hcall | ⟨other, hother, rfl⟩
    · exact h.returned call hcall result hres
    · obtain rfl := hold.call_eq hother
      exact nomatch hold.phase.symm.trans hres

end

/-- The callback either wakes up the call that a chain belongs to, with the status of the call in
the transaction, or ends it with this status. -/
theorem finish (h : Slots txns calls sender heads (i :: done)) (hi : i ∉ heads ++ done)
    (hf : ∀ call, call.phase = .waiting i → (f call).own = call.own ∧ (f call).len = call.len ∧
      ((f call).phase = .signaled i ∨
        (f call).phase = .returned (txnResult (txns i).status (txns i).len))) :
    Slots txns (calls.modify (sender i) f) sender heads done := by
  obtain ⟨old, hold, hown⟩ := h.serves i (mem_append_right _ mem_cons_self)
  obtain ⟨hnewOwn, hnewLen, hnewPhase⟩ := hf old hold.phase
  rw [hown mem_cons_self] at hnewOwn
  refine ⟨fun head hhead => ?_, fun call hcall slot hslot => ?_, fun call hcall result hres => ?_⟩
  · have hne : i ≠ head := fun heq => hi (heq ▸ hhead)
    have hmem : head ∈ heads ++ i :: done := by
      rw [mem_append] at hhead ⊢
      exact hhead.imp_right (mem_cons_of_mem _)
    obtain ⟨call, hserves, hcallOwn⟩ := h.serves head hmem
    exact ⟨call, hserves.modify_ne (hold.sender_ne hserves hne) f,
      fun hdone => hcallOwn (mem_cons_of_mem _ hdone)⟩
  · rcases mem_modify hcall with hcall | ⟨other, hother, rfl⟩
    · exact h.signaled call hcall slot hslot
    · obtain rfl := hold.call_eq hother
      rcases hnewPhase with hwoken | hended
      · cases hwoken.symm.trans hslot
        exact hnewOwn
      · exact nomatch hended.symm.trans hslot
  rcases mem_modify hcall with hcall | ⟨other, hother, rfl⟩
  · exact h.returned call hcall result hres
  obtain rfl := hold.call_eq hother
  rcases hnewPhase with hwoken | hended
  · exact nomatch hwoken.symm.trans hres
  · cases hended.symm.trans hres
    rw [Call.Decided, hnewOwn, hnewLen, hold.len]

theorem callback {reqs : Requests} (h : Slots reqs.txns reqs.calls sender heads (elem.id :: done))
    (hi : elem.id ∉ heads ++ done) {ring : Vring} :
    Slots (virtioBlockIrqDriverCallback elem (ring, reqs)).2.txns
      (virtioBlockIrqDriverCallback elem (ring, reqs)).2.calls sender heads done := by
  obtain ⟨old, hold, -⟩ := h.serves elem.id (mem_append_right _ mem_cons_self)
  obtain ⟨kind, hkind⟩ := isSome_iff_exists.mp hold.callback
  rw [virtioBlockIrqDriverCallback]
  rw [hkind]
  rw [hold.cookie]
  refine h.finish hi fun call hcall => ?_
  rw [Completion.run.eq_def, hcall]
  cases kind with
  | sync => exact ⟨rfl, rfl, .inl rfl⟩
  | async => exact ⟨rfl, rfl, .inr rfl⟩

/-- A caller that was woken up finds its own status in the transaction. -/
theorem resume (h : Slots txns calls sender heads done) (n : ℕ) :
    Slots txns (calls.modify n (Call.resume txns)) sender heads done := by
  refine ⟨fun head hhead => ?_, fun call hcall slot hslot => ?_, fun call hcall result hres => ?_⟩
  · obtain ⟨call, hserves, hown⟩ := h.serves head hhead
    by_cases hn : n = sender head
    · -- a call that waits does not go on
      refine ⟨call, { hserves with at_sender := ?_ }, hown⟩
      rw [hn, modify_self hserves.at_sender, Call.resume, hserves.phase]
    · exact ⟨call, hserves.modify_ne hn _, hown⟩
  · rcases mem_modify hcall with hcall | ⟨old, hold, rfl⟩
    · exact h.signaled call hcall slot hslot
    · unfold Call.resume at hslot ⊢
      split at hslot
      · cases hslot
      · exact h.signaled old (mem_of_getElem? hold) slot hslot
  rcases mem_modify hcall with hcall | ⟨old, hold, rfl⟩
  · exact h.returned call hcall result hres
  have hmem := mem_of_getElem? hold
  unfold Call.resume at hres ⊢
  split at hres
  · next slot hslot =>
    cases hres
    rw [Call.Decided]
    rw [h.signaled old hmem slot hslot]
  · exact h.returned old hmem result hres

end Slots

/-- The whole driver. -/
structure BlockState.Inv (s : BlockState) (queued : List ℕ) (elems : List UsedElem)
    (chains : List (List ℕ)) : Prop where
  use : InUse s.ring [] queued s.fetched s.inflight elems chains
  long : ∀ chain ∈ chains, 3 ≤ chain.length
  slots : Slots s.reqs.txns s.reqs.calls s.sender (queued ++ s.inflight) (elems.map UsedElem.id)

namespace BlockState.Inv

variable {s s' : BlockState} {queued : List ℕ} {elems : List UsedElem} {chains : List (List ℕ)}

section

variable (h : s.Inv queued elems chains)
include h

theorem start {callback : Completion} {len : ℕ} (horderly : Orderly s (.start callback len pages))
    (hstep : s.step (.start callback len pages) = some s') :
    ∃ queued chains, s'.Inv queued elems chains := by
  rw [BlockState.step, virtioBlockDoTxn] at hstep
  split at hstep
  · cases hstep
    exact ⟨queued, chains, h.use, h.long, h.slots.refuse len⟩
  next i ring halloc =>
  obtain ⟨chain, hhead, hlength, hheld, hsame, hcount⟩ := h.use.held.alloc halloc
  have hroom : pages.count false ≤ ring.freeCount := by
    have hcases : s.ring.freeCount < 3 ∨ 3 + pages.count false ≤ s.ring.freeCount := horderly
    omega
  obtain ⟨ring', chain', hpages, hlong, hheld', hsame'⟩ := hheld.add_pages hlength hroom
  rw [hhead] at hpages
  rw [hpages] at hstep
  cases hstep
  obtain ⟨hfree, hsubmit⟩ := h.use.start (hsame.trans hsame') hheld'
  refine ⟨queued ++ [i], chain' :: chains, hsubmit, forall_mem_cons.mpr ⟨hlong, h.long⟩, ?_⟩
  obtain ⟨hserves, hsignaled, hreturned⟩ := h.slots.start hfree callback len
  refine ⟨fun head hmem => hserves head ?_, hsignaled, hreturned⟩
  simp only [mem_append, mem_cons, not_mem_nil, or_false] at hmem ⊢
  tauto

theorem complete {status : ℕ} (horderly : Orderly s (.complete elem status))
    (hstep : s.step (.complete elem status) = some s') :
    s'.Inv queued (elems ++ [elem]) chains := by
  obtain ⟨hflight, ⟨⟩⟩ := ite_none_right_eq_some.mp hstep
  -- there are less chains than descriptors
  have hroom : elems.length + 1 < s.ring.num := by
    have hle := h.use.held.mul_length_le h.long
    have hpos := length_pos_of_mem hflight
    simp only [length_append, length_map] at hle
    omega
  refine ⟨h.use.publish hroom hflight, h.long, ?_⟩
  rw [map_append]
  refine h.slots.complete (mem_append_right _ hflight) horderly status fun head hmem => ?_
  rw [mem_append] at hmem ⊢
  exact hmem.imp_right mem_of_mem_erase

theorem irq (hstep : s.step .irq = some s') : ∃ chains, s'.Inv queued [] chains := by
  cases hstep
  obtain ⟨chains', huse, hlong, hslots⟩ := h.use.irq virtioBlockIrqDriverCallback
    (s := (s.ring, s.reqs))
    (P := fun elems chains reqs => (∀ chain ∈ chains, 3 ≤ chain.length) ∧
      Slots reqs.txns reqs.calls s.sender (queued ++ s.inflight) (elems.map UsedElem.id))
    (by
      rintro elem rest chains t huse ⟨hlong, hslots⟩
      refine ⟨rfl, fun c hc => hlong c (mem_of_mem_eraseP hc), ?_⟩
      have hnodup := huse.held.nodup
      rw [nil_append, ← append_assoc, map_cons] at hnodup
      exact hslots.callback (nodup_cons.mp (nodup_middle.mp hnodup)).1)
    ⟨h.long, h.slots⟩
  exact ⟨chains', huse, hlong, hslots⟩

/-- Every action keeps the invariant. -/
theorem step {action : BlockAction} (horderly : Orderly s action)
    (hstep : s.step action = some s') :
    ∃ queued elems chains, s'.Inv queued elems chains := by
  cases action with
  | start callback len pages =>
    obtain ⟨queued, chains, hinv⟩ := h.start horderly hstep
    exact ⟨queued, elems, chains, hinv⟩
  | fetch =>
    obtain ⟨hmore, ⟨⟩⟩ := ite_none_left_eq_some.mp hstep
    obtain ⟨rest, rfl, huse⟩ := h.use.fetch hmore
    obtain ⟨hserves, hsignaled, hreturned⟩ := h.slots
    refine ⟨rest, elems, chains, huse, h.long, fun head hmem => hserves head ?_, hsignaled,
      hreturned⟩
    simp only [mem_append, mem_cons, not_mem_nil, or_false] at hmem ⊢
    tauto
  | complete elem status => exact ⟨queued, _, chains, h.complete horderly hstep⟩
  | irq =>
    obtain ⟨chains, hinv⟩ := h.irq hstep
    exact ⟨queued, [], chains, hinv⟩
  | resume call =>
    cases hstep
    exact ⟨queued, elems, chains, h.use, h.long, h.slots.resume call⟩

end

end BlockState.Inv

theorem block_init_inv {s : BlockState} (h : BlockInit s) : s.Inv [] [] [] := by
  obtain ⟨txns, sender, rfl⟩ := h
  have huse := alloc_ring_in_use (by decide : 8 ≤ 15)
  rw [show 2 ^ 8 = virtioBlkRingLen from rfl] at huse
  generalize virtioAllocRing virtioBlkRingLen = ring at huse
  exact ⟨huse, forall_mem_nil _, forall_mem_nil _, forall_mem_nil _, forall_mem_nil _⟩

/-! ## Results -/

/-- In every run in which the device completes no request in a transaction that a caller has still
to read: if a call has returned, the device has stored the status of its request and the result is
the length or an error by this status, or it found no free chain and made no request. -/
theorem own_result {s : BlockState} (h : Reachable BlockState.step Orderly BlockInit s) :
    ∀ call ∈ s.reqs.calls, ∀ result, call.phase = .returned result →
      match call.own with
      | none => result = errNoResources
      | some status => result = if status = virtioBlkSOk then (call.len : Status) else errIo := by
  obtain ⟨queued, elems, chains, hinv⟩ :
      ∃ queued elems chains, s.Inv queued elems chains := by
    refine h.invariant (P := fun s => ∃ queued elems chains, s.Inv queued elems chains)
      (fun hinit => ⟨[], [], [], block_init_inv hinit⟩) ?_
    rintro s action s' ⟨queued, elems, chains, hinv⟩
    exact hinv.step
  exact hinv.slots.returned

/-- The driver with transactions that are zero. -/
def blockStart : BlockState :=
  ⟨virtioAllocRing virtioBlkRingLen, ⟨fun _ => ⟨none, 0, 0, 0⟩, []⟩, 0, [], fun _ => 0⟩

/-- Two requests in a row with the same transaction, each read before the next is completed; the
second has a page of its own and fails. -/
def rereadRun : List BlockAction :=
  [.start .sync 512 [], .fetch, .complete ⟨253, 513⟩ 0, .irq, .start .sync 8192 [true, false],
    .fetch, .resume 0, .complete ⟨253, 1⟩ 1, .irq, .resume 1]

theorem own_result_reread : ∃ s, Reachable BlockState.step Orderly BlockInit s ∧
    s.reqs.calls = [⟨512, .returned 512, some 0⟩, ⟨8192, .returned errIo, some 1⟩] ∧
    ∀ call ∈ s.reqs.calls, ∀ result, call.phase = .returned result →
      match call.own with
      | none => result = errNoResources
      | some status => result = if status = virtioBlkSOk then (call.len : Status) else errIo := by
  have hrun : (Transition.run BlockState.step blockStart rereadRun).map (fun s => s.reqs.calls) =
      some [⟨512, .returned 512, some 0⟩, ⟨8192, .returned errIo, some 1⟩] := by decide +kernel
  obtain ⟨s, hrun, hcalls⟩ := map_eq_some_iff.mp hrun
  have hreach : Reachable BlockState.step Orderly BlockInit s :=
    .run (.init ⟨_, _, rfl⟩) (by decide +kernel : Transition.Admits _ _ blockStart rereadRun) hrun
  exact ⟨s, hreach, hcalls, own_result hreach⟩

/-- The first request fails. Before its caller runs again, a second one gets the same transaction
and is done, and the first call returns as if all had been transferred. -/
theorem status_of_later_request :
    (Transition.run BlockState.step blockStart
      [.start .sync 512 [], .fetch, .complete ⟨253, 1⟩ 1, .irq, .start .sync 1024 [], .fetch,
        .complete ⟨253, 1025⟩ 0, .resume 0]).map (fun s => s.reqs.calls) =
      some [⟨512, .returned 512, some 1⟩, ⟨1024, .waiting 253, some 0⟩] := by
  decide +kernel

end NusaKernel.Virtio
