import NusaKernel.Lib.Transition
import NusaKernel.Virtio.Vring

/-!
# Bookkeeping of a virtio ring

A driver allocates chains of descriptors and submits them through the available ring. The device
fetches them in this order, completes them in any order, and publishes a used element for each
through the used ring, whose index runs freely. At an interrupt `virtio_mmio_irq` passes the new
used elements to the callback of the driver, which frees their chains. The number of elements it has
seen is kept modulo the size of the ring, and compared modulo this size with the index of the
device.

`ring_sound`: as long as less elements than the ring has entries are published between two
interrupts, the free list and the chains stay apart, and every element is passed on once and in
order. If the device fills the used ring, the interrupt finds nothing to do
(`full_used_ring_is_missed`).

A ring is by itself; `virtio_mmio_irq` goes through all rings of a device one after the other.
-/

namespace NusaKernel.Virtio

open Function List Ring
open Transition (Reachable)

variable {σ : Type} {elems rest : List UsedElem} {fetched : ℕ} {heads queued : List ℕ}
  {chains : List (List ℕ)}

/-! ## Interrupts -/

/-- The element was seen. -/
def advance (s : Vring × σ) : Vring × σ :=
  ({ s.1 with lastUsed := (s.1.lastUsed + 1) &&& s.1.numMask }, s.2)

/-- The loop of `virtio_mmio_irq`, with a callback that changes the ring and the driver. There are
at most `fuel` entries. -/
def irqLoop (callback : UsedElem → Vring × σ → Vring × σ) (target : ℕ) :
    ℕ → ℕ → Vring × σ → Vring × σ
  | 0, _, s => s
  | fuel + 1, i, s =>
    if i = target then s
    else
      let s := advance (callback (s.1.usedRing i) s)
      irqLoop callback target fuel ((i + 1) &&& s.1.numMask) s

/-- `virtio_mmio_irq` for a ring. -/
def virtioMmioIrq (callback : UsedElem → Vring × σ → Vring × σ) (s : Vring × σ) : Vring × σ :=
  irqLoop callback (s.1.usedIdx &&& s.1.numMask) s.1.num s.1.lastUsed s

/-- The device publishes a used element. -/
def publish (r : Vring) (elem : UsedElem) : Vring :=
  { r with
    usedRing := update r.usedRing (r.usedIdx &&& r.numMask) elem
    usedIdx := (r.usedIdx + 1) % 2 ^ 16 }

/-- The size of a ring is a power of two. -/
structure Vring.Sized (r : Vring) : Prop where
  exp : ∃ k ≤ 15, r.num = 2 ^ k
  mask : r.numMask = r.num - 1

namespace Vring.Sized

variable {r r' : Vring} (h : r.Sized)

include h

theorem and_mask (x : ℕ) : x &&& r.numMask = x % r.num := by
  obtain ⟨k, -, hk⟩ := h.exp
  rw [h.mask, hk, Nat.and_two_pow_sub_one_eq_mod]

theorem num_pos : 0 < r.num := by
  obtain ⟨k, -, hk⟩ := h.exp
  rw [hk]
  exact Nat.two_pow_pos k

/-- An index that runs freely in 16 bits goes round with the ring. -/
theorem mod_mod (x : ℕ) : x % 2 ^ 16 % r.num = x % r.num := by
  obtain ⟨k, hle, hk⟩ := h.exp
  rw [hk]
  exact Nat.mod_mod_of_dvd x (Nat.pow_dvd_pow 2 (by omega))

theorem of_same (hsame : r.SameQueues r') : r'.Sized := by
  obtain ⟨hexp, hmask⟩ := h
  refine ⟨?_, ?_⟩
  · rw [hsame.num]
    exact hexp
  · rw [hsame.numMask, hsame.num, hmask]

end Vring.Sized

/-- The elements that were published and not seen yet. -/
structure Pending (r : Vring) (elems : List UsedElem) : Prop extends r.Sized where
  low : r.lastUsed < r.num
  few : elems.length < r.num
  contents : contents r.usedRing r.num r.lastUsed elems.length = elems
  idx : r.usedIdx % r.num = (r.lastUsed + elems.length) % r.num

variable {r : Vring} {elem : UsedElem}

theorem Pending.of_same {r' : Vring} (h : Pending r elems) (hsame : r.SameQueues r') :
    Pending r' elems := by
  refine ⟨h.toSized.of_same hsame, ?_, ?_, ?_, ?_⟩
  · rw [hsame.lastUsed, hsame.num]
    exact h.low
  · rw [hsame.num]
    exact h.few
  · rw [hsame.usedRing, hsame.num, hsame.lastUsed]
    exact h.contents
  · rw [hsame.usedIdx, hsame.num, hsame.lastUsed]
    exact h.idx

/-- One more element, while there is room. -/
theorem Pending.publish (h : Pending r elems) (hroom : elems.length + 1 < r.num) (elem : UsedElem) :
    Pending (publish r elem) (elems ++ [elem]) := by
  have hidx := h.idx
  refine ⟨⟨h.exp, h.mask⟩, h.low, ?_, ?_, ?_⟩
  · rw [length_append]
    exact hroom
  · show Ring.contents (update r.usedRing (r.usedIdx &&& r.numMask) elem) r.num r.lastUsed
      (elems ++ [elem]).length = _
    rw [h.and_mask, hidx, length_append, length_singleton,
      contents_push elem (by omega), h.contents]
  · show (r.usedIdx + 1) % 2 ^ 16 % r.num = (r.lastUsed + (elems ++ [elem]).length) % r.num
    rw [h.mod_mod, length_append, length_singleton, ← Nat.add_assoc, Nat.add_mod, hidx,
      ← Nat.add_mod]

/-- The first element that was not seen yet is where the loop is. -/
theorem Pending.first (h : Pending r (elem :: rest)) :
    r.usedRing r.lastUsed = elem ∧ r.lastUsed ≠ r.usedIdx % r.num := by
  have hcontents := h.contents
  have hfew := h.few
  have hlow := h.low
  rw [length_cons] at hcontents hfew
  refine ⟨?_, fun heq => ?_⟩
  · rw [Nat.add_comm, contents_add, contents_one hlow] at hcontents
    exact (List.cons.inj hcontents).1
  · have hne : (r.lastUsed + 0) % r.num ≠ (r.lastUsed + (rest.length + 1)) % r.num :=
      add_mod_ne (by omega) (by omega)
    rw [Nat.add_zero, Nat.mod_eq_of_lt hlow] at hne
    exact hne (heq.trans h.idx)

/-- The first element is seen. -/
theorem Pending.advance {t : σ} (h : Pending r (elem :: rest)) :
    Pending (advance (r, t)).1 rest := by
  have hcontents := h.contents
  have hfew := h.few
  have hidx := h.idx
  have hlow := h.low
  rw [length_cons] at hcontents hfew hidx
  have hnext : (r.lastUsed + 1) &&& r.numMask = (r.lastUsed + 1) % r.num := h.and_mask _
  refine ⟨⟨h.exp, h.mask⟩, ?_, by dsimp only [Virtio.advance]; omega, ?_, ?_⟩
  · show (r.lastUsed + 1) &&& r.numMask < r.num
    rw [hnext]
    exact Nat.mod_lt _ h.num_pos
  · show Ring.contents r.usedRing r.num ((r.lastUsed + 1) &&& r.numMask) rest.length = rest
    rw [hnext]
    rw [Nat.add_comm, contents_add, contents_one hlow] at hcontents
    exact (List.cons.inj hcontents).2
  · show r.usedIdx % r.num = (((r.lastUsed + 1) &&& r.numMask) + rest.length) % r.num
    rw [hnext, Nat.mod_add_mod, hidx]
    congr 1
    omega

variable {P : List UsedElem → Vring × σ → Prop} {head count : ℕ} {s : Vring × σ}

section

variable {callback : UsedElem → Vring × σ → Vring × σ}
  (hround : ∀ elem rest s, Pending s.1 (elem :: rest) → P (elem :: rest) s →
    s.1.SameQueues (callback elem s).1 ∧ P rest (advance (callback elem s)))
  (hpending : Pending s.1 elems) (hP : P elems s)
include hround hpending hP

/-- The loop passes every element on, in order. What holds with all elements ahead and is kept by
each round holds at the end. -/
theorem irq_loop_induction {fuel : ℕ} (hfuel : elems.length < fuel) {target : ℕ}
    (htarget : target = s.1.usedIdx % s.1.num) :
    Pending (irqLoop callback target fuel s.1.lastUsed s).1 [] ∧
      P [] (irqLoop callback target fuel s.1.lastUsed s) := by
  induction elems generalizing s fuel with
  | nil =>
    have hidx := hpending.idx
    have hseen : s.1.lastUsed = target := by
      rw [htarget, hidx, length_nil, Nat.add_zero, Nat.mod_eq_of_lt hpending.low]
    cases fuel with
    | zero => exact ⟨hpending, hP⟩
    | succ fuel =>
      rw [irqLoop, if_pos hseen]
      exact ⟨hpending, hP⟩
  | cons elem rest ih =>
    cases fuel with
    | zero => cases hfuel
    | succ fuel =>
      obtain ⟨hfirst, hmore⟩ := hpending.first
      obtain ⟨hsame, hnext⟩ := hround elem rest s hpending hP
      have hahead : Pending (advance (callback elem s)).1 rest := (hpending.of_same hsame).advance
      rw [irqLoop, if_neg (htarget ▸ hmore), hfirst]
      have hi : (s.1.lastUsed + 1) &&& (advance (callback elem s)).1.numMask =
          (advance (callback elem s)).1.lastUsed := by
        show _ &&& (callback elem s).1.numMask =
          ((callback elem s).1.lastUsed + 1) &&& (callback elem s).1.numMask
        rw [hsame.lastUsed]
      dsimp only
      rw [hi]
      refine ih hahead hnext (Nat.lt_of_succ_lt_succ hfuel) ?_
      show target = (callback elem s).1.usedIdx % (callback elem s).1.num
      rw [htarget, hsame.usedIdx, hsame.num]

/-- The loop is long enough for all elements. -/
theorem irq_induction :
    Pending (virtioMmioIrq callback s).1 [] ∧ P [] (virtioMmioIrq callback s) :=
  irq_loop_induction hround hpending hP hpending.few (hpending.and_mask _)

end

/-! ## The available ring -/

/-- The chains that were submitted and that the device has not fetched yet. -/
structure Queued (r : Vring) (fetched : ℕ) (heads : List ℕ) : Prop where
  contents : contents r.availRing r.num (fetched % r.num) heads.length = heads
  idx : r.availIdx = (fetched + heads.length) % 2 ^ 16
  fetched_lt : fetched < 2 ^ 16
  length_le : heads.length ≤ r.num

theorem Queued.of_same {r' : Vring} (h : Queued r fetched heads) (hnum : r'.num = r.num)
    (hidx : r'.availIdx = r.availIdx) (hring : r'.availRing = r.availRing) :
    Queued r' fetched heads := by
  obtain ⟨hcontents, havail, hlt, hle⟩ := h
  refine ⟨?_, hidx.trans havail, hlt, hnum ▸ hle⟩
  rw [hring, hnum]
  exact hcontents

/-- A chain is submitted behind the others. -/
theorem Queued.submit (hsized : r.Sized) (h : Queued r fetched heads) (hroom : heads.length < r.num)
    (head : ℕ) : Queued (virtioSubmitChain r head) fetched (heads ++ [head]) := by
  have hidx := h.idx
  refine ⟨?_, ?_, h.fetched_lt, ?_⟩
  · show Ring.contents (update r.availRing (r.availIdx &&& r.numMask) head) r.num
      (fetched % r.num) (heads ++ [head]).length = _
    have hplace : r.availIdx &&& r.numMask = (fetched % r.num + heads.length) % r.num := by
      rw [hsized.and_mask, hidx, hsized.mod_mod, Nat.mod_add_mod]
    rw [hplace, length_append, length_singleton, contents_push head hroom, h.contents]
  · show (r.availIdx + 1) % 2 ^ 16 = _
    rw [hidx, length_append, length_singleton, Nat.mod_add_mod, Nat.add_assoc]
  · rw [length_append]
    exact hroom

/-- The device fetches the chain that was submitted first. -/
theorem Queued.fetch (hsized : r.Sized) (h : Queued r fetched heads) (hmore : fetched ≠
    r.availIdx) :
    ∃ rest, heads = r.availRing (fetched &&& r.numMask) :: rest ∧
      Queued r ((fetched + 1) % 2 ^ 16) rest := by
  obtain ⟨hcontents, hidx, hlt, hle⟩ := h
  have hpos := hsized.num_pos
  cases heads with
  | nil =>
    rw [length_nil, Nat.add_zero, Nat.mod_eq_of_lt hlt] at hidx
    exact absurd hidx.symm hmore
  | cons head rest =>
    rw [length_cons] at hcontents hidx hle
    rw [Nat.add_comm, contents_add, contents_one (Nat.mod_lt _ hpos)] at hcontents
    obtain ⟨hhead, hrest⟩ := List.cons.inj hcontents
    refine ⟨rest, ?_, ?_, ?_, Nat.mod_lt _ (by decide), by omega⟩
    · rw [hsized.and_mask, hhead]
    · rw [hsized.mod_mod, ← Nat.mod_add_mod]
      exact hrest
    · omega

/-! ## A ring in use -/

/-- The first descriptor of a chain. -/
def headOf (chain : List ℕ) : ℕ := chain.head?.getD 0

theorem head_of_mem {chain : List ℕ} (h : chain ≠ []) : chain.head? = some (headOf chain) := by
  cases chain with
  | nil => exact absurd rfl h
  | cons a rest => rfl

/-- The chains of the heap, and their first descriptors in some order. -/
structure Held (r : Vring) (heads : List ℕ) (chains : List (List ℕ)) : Prop where
  heap : ∃ free, Heap r free chains
  nonempty : ∀ chain ∈ chains, chain ≠ []
  heads : heads.Perm (chains.map headOf)

/-- Whose turn it is with each chain: the driver has not submitted the chains of `idle`; `queued` is
in the available ring; the device has fetched the chains of `inflight`; and `elems` is in the used
ring. -/
structure InUse (r : Vring) (idle queued : List ℕ) (fetched : ℕ) (inflight : List ℕ)
    (elems : List UsedElem) (chains : List (List ℕ)) : Prop where
  held : Held r (idle ++ (queued ++ (inflight ++ elems.map UsedElem.id))) chains
  pending : Pending r elems
  queue : Queued r fetched queued

/-- An item moves from one list to the end of the next. -/
theorem perm_move {a : ℕ} {front : List ℕ} (h : a ∈ front) (back rest : List ℕ) :
    (front.erase a ++ ((back ++ [a]) ++ rest)).Perm (front ++ (back ++ rest)) := by
  rw [append_assoc, ← append_assoc, ← append_assoc front]
  refine perm_middle.trans ?_
  exact ((perm_cons_erase h).symm.append_right back).append_right rest

namespace Held

variable {r r' : Vring} {heads : List ℕ} {chains : List (List ℕ)}

section

variable (h : Held r heads chains)
include h

/-- Only the descriptors and the free list matter. -/
theorem of_eq (hnum : r'.num = r.num) (hlist : r'.freeList = r.freeList)
    (hcount : r'.freeCount = r.freeCount) (hdesc : r'.desc = r.desc) : Held r' heads chains := by
  obtain ⟨⟨free, hheap⟩, hne, hheads⟩ := h
  refine ⟨⟨free, ?_, ?_, hcount.trans hheap.count, ?_, ?_⟩, hne, hheads⟩
  · rw [hnum]
    exact hheap.num_le
  · rw [hdesc, hlist]
    exact hheap.free_linked
  · rw [hdesc]
    exact hheap.chain_linked
  · rw [hnum]
    exact hheap.perm

theorem perm_heads {heads' : List ℕ} (hperm : heads'.Perm heads) : Held r heads' chains :=
  ⟨h.heap, h.nonempty, hperm.trans h.heads⟩

/-- If every chain has `count` descriptors there is only room for a part of them. -/
theorem mul_length_le (hcount : ∀ chain ∈ chains, count ≤ chain.length) :
    count * heads.length ≤ r.num := by
  obtain ⟨free, hheap⟩ := h.heap
  have hlength := hheap.length_le
  have hle : count * chains.length ≤ chains.flatten.length := by
    clear hheap hlength h
    induction chains with
    | nil => exact Nat.le_refl 0
    | cons chain chains ih =>
      have hfirst := hcount chain mem_cons_self
      have hrest := ih (forall_mem_cons.mp hcount).2
      rw [flatten_cons, length_append, length_cons, Nat.mul_succ]
      omega
  rw [h.heads.length_eq, length_map]
  omega

/-- A chain has a descriptor. -/
theorem length_le : heads.length ≤ r.num := by
  have hle := h.mul_length_le fun chain hc => length_pos_iff.mpr (h.nonempty chain hc)
  omega

/-- Two chains do not start with the same descriptor. -/
theorem nodup : heads.Nodup := by
  obtain ⟨free, hheap⟩ := h.heap
  have hflat : chains.flatten.Nodup := (nodup_append.mp hheap.nodup).2.1
  refine h.heads.nodup_iff.mpr ?_
  have hne := h.nonempty
  rw [Nodup, pairwise_map]
  refine (nodup_flatten.mp hflat).2.imp_of_mem fun {c d} hc hd hcd heq => ?_
  have hhead (e : List ℕ) (he : e ∈ chains) : headOf e ∈ e :=
    mem_of_mem_head? (head_of_mem (hne e he))
  exact hcd (hhead c hc) (heq ▸ hhead d hd)

/-- A chain that is allocated. -/
theorem alloc (halloc : virtioAllocDescChain r count = some (head, r')) :
    ∃ chain, headOf chain = head ∧ chain.length = count ∧
      Held r' (head :: heads) (chain :: chains) ∧ r.SameQueues r' ∧
      r'.freeCount + count = r.freeCount := by
  obtain ⟨⟨free, hheap⟩, hne, hheads⟩ := h
  have hfull : count ≤ free.length := by
    rw [← hheap.count]
    refine Nat.not_lt.mp fun hlt => ?_
    rw [virtioAllocDescChain, if_pos hlt] at halloc
    cases halloc
  have hpos : 0 < count := by
    refine Nat.pos_of_ne_zero ?_
    rintro rfl
    cases halloc
  obtain ⟨first, chain, r'', hr'', hfirst, hlength, hnew, hsame⟩ := hheap.alloc_chain hpos hfull
  rw [hr''] at halloc
  cases halloc
  have hheadof : headOf chain = head := by
    rw [headOf, hfirst]
    rfl
  refine ⟨chain, hheadof, hlength, ⟨⟨_, hnew⟩, forall_mem_cons.mpr ⟨?_, hne⟩, ?_⟩, hsame, ?_⟩
  · rintro rfl
    cases hfirst
  · rw [map_cons, hheadof]
    exact hheads.cons head
  · rw [hnew.count, hheap.count, length_drop]
    omega

end

/-- A chain is freed. -/
theorem free (h : Held r (head :: heads) chains) :
    r.SameQueues (freeChain r.num r head) ∧
      Held (freeChain r.num r head) heads (chains.eraseP fun chain => headOf chain = head) := by
  obtain ⟨free, hheap⟩ := h.heap
  have hmem : head ∈ chains.map headOf := h.heads.mem_iff.mp mem_cons_self
  obtain ⟨chain, hchain, hhead⟩ := List.mem_map.mp hmem
  obtain ⟨c, before, after, -, hc, hsplit, herase⟩ :=
    exists_of_eraseP (p := fun c => headOf c = head) hchain (decide_eq_true hhead)
  have hid : headOf c = head := of_decide_eq_true hc
  have hfront : (c :: (before ++ after)).Perm chains := by
    rw [hsplit]
    exact perm_middle.symm
  have hne : c ≠ [] := h.nonempty c (hfront.mem_iff.mp mem_cons_self)
  have hmoved := hheap.perm_chains hfront
  have hlength : c.length ≤ r.num := by
    have htotal := hmoved.length_le
    rw [flatten_cons, length_append] at htotal
    omega
  have hfirst : c.head? = some head := hid ▸ head_of_mem hne
  obtain ⟨free', hfree, hsame⟩ := hmoved.free_chain hfirst hlength
  rw [herase]
  refine ⟨hsame, ⟨free', hfree⟩, fun d hd => ?_, ?_⟩
  · exact h.nonempty d (hfront.mem_iff.mp (mem_cons_of_mem _ hd))
  · have hperm := h.heads.trans (hfront.map headOf).symm
    rw [map_cons, hid] at hperm
    exact hperm.cons_inv

end Held

namespace InUse

variable {r r' : Vring} {idle queued : List ℕ} {fetched : ℕ} {inflight : List ℕ}
  {elems : List UsedElem} {chains : List (List ℕ)}

section

variable (h : InUse r idle queued fetched inflight elems chains)
include h

/-- The chains have changed, but not the queues. -/
theorem of_same (hsame : r.SameQueues r') {idle' : List ℕ} {chains' : List (List ℕ)}
    (hheld : Held r' (idle' ++ (queued ++ (inflight ++ elems.map UsedElem.id))) chains') :
    InUse r' idle' queued fetched inflight elems chains' :=
  ⟨hheld, h.pending.of_same hsame, h.queue.of_same hsame.num hsame.availIdx hsame.availRing⟩

theorem submit (hidle : head ∈ idle) :
    InUse (virtioSubmitChain r head) (idle.erase head) (queued ++ [head]) fetched inflight elems
      chains := by
  have hroom : queued.length < r.num := by
    have hlength := h.held.length_le
    have hpos := length_pos_of_mem hidle
    simp only [length_append] at hlength
    omega
  obtain ⟨hheld, hpending, hqueue⟩ := h
  refine ⟨(hheld.perm_heads (perm_move hidle queued _)).of_eq rfl rfl rfl rfl,
    ⟨⟨hpending.exp, hpending.mask⟩, hpending.low, hpending.few, hpending.contents, hpending.idx⟩,
    hqueue.submit hpending.toSized hroom head⟩

/-- The driver submits a chain that it has just allocated. -/
theorem start (hsame : r.SameQueues r') {chains' : List (List ℕ)}
    (hheld : Held r' (head :: (queued ++ (inflight ++ elems.map UsedElem.id))) chains') :
    head ∉ queued ++ inflight ++ elems.map UsedElem.id ∧
      InUse (virtioSubmitChain r' head) [] (queued ++ [head]) fetched inflight elems chains' := by
  have huse : InUse r' [head] queued fetched inflight elems chains' := h.of_same hsame hheld
  have hsubmit := huse.submit mem_cons_self
  rw [erase_cons_head] at hsubmit
  rw [append_assoc]
  exact ⟨(nodup_cons.mp hheld.nodup).1, hsubmit⟩

/-- The device takes the chain that was submitted first. -/
theorem fetch (hmore : fetched ≠ r.availIdx) :
    ∃ rest, queued = r.availRing (fetched &&& r.numMask) :: rest ∧
      InUse r idle rest ((fetched + 1) % 2 ^ 16)
        (inflight ++ [r.availRing (fetched &&& r.numMask)]) elems chains := by
  obtain ⟨hheld, hpending, hqueue⟩ := h
  obtain ⟨rest, hqueued, hrest⟩ := hqueue.fetch hpending.toSized hmore
  refine ⟨rest, hqueued, hheld.perm_heads (Perm.append_left idle ?_), hpending, hrest⟩
  rw [hqueued]
  have hmove := perm_move (mem_cons_self (a := r.availRing (fetched &&& r.numMask))
    (l := rest)) inflight (elems.map UsedElem.id)
  rw [erase_cons_head] at hmove
  exact hmove

/-- The device completes a chain. -/
theorem publish (hroom : elems.length + 1 < r.num) (hflight : elem.id ∈ inflight) :
    InUse (publish r elem) idle queued fetched (inflight.erase elem.id) (elems ++ [elem])
      chains := by
  obtain ⟨hheld, hpending, hqueue⟩ := h
  refine ⟨(hheld.perm_heads ?_).of_eq rfl rfl rfl rfl, hpending.publish hroom elem,
    hqueue.of_same rfl rfl rfl⟩
  have hmove := perm_move hflight (elems.map UsedElem.id) []
  rw [append_nil, append_nil] at hmove
  rw [map_append]
  exact (hmove.append_left queued).append_left idle

end

/-- An interrupt passes all elements on. The callback frees their chains, and what it keeps of the
driver holds at the end. -/
theorem irq (callback : UsedElem → Vring × σ → Vring × σ)
    {P : List UsedElem → List (List ℕ) → σ → Prop}
    (hfree : ∀ elem rest chains s,
      InUse s.1 idle queued fetched inflight (elem :: rest) chains → P (elem :: rest) chains s.2 →
      (callback elem s).1 = freeChain s.1.num s.1 elem.id ∧
        P rest (chains.eraseP fun chain => headOf chain = elem.id) (callback elem s).2)
    (h : InUse s.1 idle queued fetched inflight elems chains)
    (hP : P elems chains s.2) :
    ∃ chains', InUse (virtioMmioIrq callback s).1 idle queued fetched inflight [] chains' ∧
      P [] chains' (virtioMmioIrq callback s).2 := by
  refine (irq_induction
    (P := fun elems s => ∃ chains, InUse s.1 idle queued fetched inflight elems chains ∧
      P elems chains s.2) ?_ h.pending ⟨chains, h, hP⟩).2
  rintro elem rest s hpending ⟨chains, huse, hP⟩
  obtain ⟨hring, hnext⟩ := hfree elem rest chains s huse hP
  have hfront : Held s.1
      (elem.id :: (idle ++ (queued ++ (inflight ++ rest.map UsedElem.id)))) chains := by
    refine huse.held.perm_heads ?_
    rw [map_cons, ← append_assoc, ← append_assoc, ← append_assoc, ← append_assoc]
    exact perm_middle.symm
  obtain ⟨hsame, hheld⟩ := hfront.free
  rw [← hring] at hsame hheld
  refine ⟨hsame, _, ⟨hheld.of_eq rfl rfl rfl rfl, (hpending.of_same hsame).advance,
    huse.queue.of_same hsame.num hsame.availIdx hsame.availRing⟩, hnext⟩

end InUse

theorem alloc_ring_in_use {k : ℕ} (hk : k ≤ 15) :
    InUse (virtioAllocRing (2 ^ k)) [] [] 0 [] [] [] := by
  have hle : 2 ^ k ≤ 2 ^ 15 := Nat.pow_le_pow_right (by decide) hk
  obtain ⟨hheap, hsame⟩ := alloc_ring_heap hle
  have hsized : (vringInit (2 ^ k)).Sized := by
    refine ⟨⟨k, hk, rfl⟩, ?_⟩
    show 2 ^ Nat.log2 (2 ^ k) - 1 = 2 ^ k - 1
    rw [Nat.log2_two_pow]
  have hpos := hsized.num_pos
  have hpending : Pending (vringInit (2 ^ k)) [] := ⟨hsized, hpos, hpos, rfl, rfl⟩
  have hqueued : Queued (vringInit (2 ^ k)) 0 [] := ⟨rfl, rfl, by decide, Nat.zero_le _⟩
  exact ⟨⟨⟨_, hheap⟩, forall_mem_nil _, Perm.refl _⟩, hpending.of_same hsame,
    hqueued.of_same hsame.num hsame.availIdx hsame.availRing⟩

/-! ## A driver and a device -/

/-- A chain that was allocated: its first descriptor, and the number of descriptors that was asked
for. -/
structure Chain where
  head : ℕ
  count : ℕ
deriving DecidableEq

/-- What the callback of a driver has seen, and the chains that are not free. -/
structure Driver where
  delivered : List UsedElem
  outstanding : List Chain

/-- The ring; the driver, with the chains it has not submitted yet; the device, with its place in
the available ring, the chains it has fetched, and all elements it has published. -/
structure State where
  ring : Vring
  driver : Driver
  allocated : List ℕ
  fetched : ℕ
  inflight : List ℕ
  published : List UsedElem

inductive RingAction where
  | alloc (count : ℕ)
  | submit (head : ℕ)
  | fetch
  | complete (head len : ℕ)
  | irq

/-- The callback frees the chain. -/
def callback (elem : UsedElem) (s : Vring × Driver) : Vring × Driver :=
  (freeChain s.1.num s.1 elem.id,
    ⟨s.2.delivered ++ [elem], s.2.outstanding.eraseP fun chain => chain.head = elem.id⟩)

def State.step (s : State) : RingAction → Option State
  | .alloc count =>
    match virtioAllocDescChain s.ring count with
    | none => some s
    | some (head, ring) => some { s with
        ring := ring
        allocated := head :: s.allocated
        driver := { s.driver with outstanding := ⟨head, count⟩ :: s.driver.outstanding } }
  | .submit head =>
    if head ∈ s.allocated then
      some { s with ring := virtioSubmitChain s.ring head, allocated := s.allocated.erase head }
    else none
  | .fetch =>
    if s.fetched = s.ring.availIdx then none
    else some { s with
      fetched := (s.fetched + 1) % 2 ^ 16
      inflight := s.inflight ++ [s.ring.availRing (s.fetched &&& s.ring.numMask)] }
  | .complete head len =>
    if head ∈ s.inflight then
      some { s with
        ring := publish s.ring ⟨head, len⟩
        inflight := s.inflight.erase head
        published := s.published ++ [⟨head, len⟩] }
    else none
  | .irq =>
    let (ring, driver) := virtioMmioIrq callback (s.ring, s.driver)
    some { s with ring := ring, driver := driver }

/-- A new ring with `num` entries. -/
def freshState (num : ℕ) : State := ⟨virtioAllocRing num, ⟨[], []⟩, [], 0, [], []⟩

/-- A ring of some size, before its first use. -/
def Fresh (s : State) : Prop := ∃ k ≤ 15, s = freshState (2 ^ k)

/-- Less elements than the ring has entries are published between two interrupts. -/
def Timely (s : State) : RingAction → Prop
  | .complete _ _ => s.published.length - s.driver.delivered.length + 1 < s.ring.num
  | _ => True

/-- `Timely` can be checked along a run. -/
instance (s : State) (action : RingAction) : Decidable (Timely s action) := by
  cases action <;> unfold Timely <;> infer_instance

/-! ## The invariant -/

/-- The chains of the heap as the driver knows them. -/
def chainOf (chain : List ℕ) : Chain := ⟨headOf chain, chain.length⟩

structure State.Inv (s : State) (chains : List (List ℕ)) (queued : List ℕ) (elems : List UsedElem) :
    Prop where
  use : InUse s.ring s.allocated queued s.fetched s.inflight elems chains
  outstanding : s.driver.outstanding = chains.map chainOf
  published : s.published = s.driver.delivered ++ elems

variable {s : State}

theorem fresh_inv (h : Fresh s) : s.Inv [] [] [] := by
  obtain ⟨k, hk, rfl⟩ := h
  exact ⟨alloc_ring_in_use hk, rfl, rfl⟩

variable {s' : State}

section

variable (h : s.Inv chains queued elems)
include h

/-- Allocating a chain. -/
theorem State.Inv.alloc (hstep : s.step (.alloc count) = some s') :
    ∃ chains, s'.Inv chains queued elems := by
  rw [State.step] at hstep
  split at hstep
  · cases hstep
    exact ⟨chains, h⟩
  next head ring halloc =>
  cases hstep
  obtain ⟨chain, hhead, hlength, hheld, hsame, -⟩ := h.use.held.alloc halloc
  refine ⟨chain :: chains, h.use.of_same hsame hheld, ?_, h.published⟩
  rw [map_cons, chainOf, hhead, hlength, h.outstanding]

/-- A chain is completed. -/
theorem State.Inv.complete {len : ℕ} (htimely : Timely s (.complete head len))
    (hstep : s.step (.complete head len) = some s') :
    s'.Inv chains queued (elems ++ [⟨head, len⟩]) := by
  have hroom : elems.length + 1 < s.ring.num := by
    have hlt : s.published.length - s.driver.delivered.length + 1 < s.ring.num := htimely
    rw [h.published, length_append, Nat.add_sub_cancel_left] at hlt
    exact hlt
  obtain ⟨hflight, ⟨⟩⟩ := Option.ite_none_right_eq_some.mp hstep
  refine ⟨h.use.publish hroom hflight, h.outstanding, ?_⟩
  rw [h.published, append_assoc]

/-- An interrupt passes all elements on. -/
theorem State.Inv.irq (hstep : s.step .irq = some s') : ∃ chains, s'.Inv chains queued [] := by
  cases hstep
  obtain ⟨chains', huse, hout, hlog⟩ := h.use.irq callback (s := (s.ring, s.driver))
    (P := fun elems chains driver => driver.outstanding = chains.map chainOf ∧
      s.published = driver.delivered ++ elems)
    (by
      rintro elem rest chains t - ⟨hout, hlog⟩
      refine ⟨rfl, ?_, ?_⟩
      · show t.2.outstanding.eraseP _ = _
        rw [hout, eraseP_map]
        rfl
      · show s.published = (t.2.delivered ++ [elem]) ++ rest
        rw [hlog, append_assoc]
        rfl)
    ⟨h.outstanding, h.published⟩
  exact ⟨chains', huse, hout, hlog⟩

/-- Every action keeps the invariant. -/
theorem State.Inv.step {action : RingAction} (htimely : Timely s action)
    (hstep : s.step action = some s') : ∃ chains queued elems, s'.Inv chains queued elems := by
  cases action with
  | alloc count =>
    obtain ⟨chains, hinv⟩ := h.alloc hstep
    exact ⟨chains, queued, elems, hinv⟩
  | submit head =>
    obtain ⟨hhead, ⟨⟩⟩ := Option.ite_none_right_eq_some.mp hstep
    exact ⟨chains, _, elems, h.use.submit hhead, h.outstanding, h.published⟩
  | fetch =>
    obtain ⟨hmore, ⟨⟩⟩ := Option.ite_none_left_eq_some.mp hstep
    obtain ⟨rest, -, huse⟩ := h.use.fetch hmore
    exact ⟨chains, rest, elems, huse, h.outstanding, h.published⟩
  | complete head len => exact ⟨chains, queued, _, h.complete htimely hstep⟩
  | irq =>
    obtain ⟨chains, hinv⟩ := h.irq hstep
    exact ⟨chains, queued, [], hinv⟩

end

/-! ## Runs -/

/-- In every state that is reached while less elements than the ring has entries are published
between two interrupts: the free list has no duplicates and `free_count` descriptors; a chain has as
many descriptors as were asked for; chains do not meet each other or the free list; the callback
has seen the published elements in order and once; and an interrupt passes the rest of them on. -/
theorem ring_sound {s : State} (h : Reachable State.step Timely Fresh s) :
    s.ring.freeWalk.Nodup ∧ s.ring.freeWalk.length = s.ring.freeCount ∧
      (∀ chain ∈ s.driver.outstanding,
        (s.ring.chainWalk chain.head).length = chain.count ∧
        (s.ring.chainWalk chain.head).Nodup ∧
        s.ring.freeWalk.Disjoint (s.ring.chainWalk chain.head)) ∧
      s.driver.outstanding.Pairwise (fun chain other =>
        (s.ring.chainWalk chain.head).Disjoint (s.ring.chainWalk other.head)) ∧
      s.driver.delivered <+: s.published ∧
      ∀ s', s.step .irq = some s' → s'.driver.delivered = s'.published := by
  obtain ⟨chains, queued, elems, hinv⟩ : ∃ chains queued elems, s.Inv chains queued elems := by
    refine h.invariant (P := fun s => ∃ chains queued elems, s.Inv chains queued elems)
      (fun hfresh => ⟨[], [], [], fresh_inv hfresh⟩) ?_
    rintro s action s' ⟨chains, queued, elems, hinv⟩
    exact hinv.step
  obtain ⟨free, hheap⟩ := hinv.use.held.heap
  have hlength := hheap.length_le
  have hnodup := hheap.nodup
  obtain ⟨hfree, hflat, hdisjoint⟩ := nodup_append.mp hnodup
  obtain ⟨hchain, hapart⟩ := nodup_flatten.mp hflat
  have hfreeWalk : s.ring.freeWalk = free := hheap.free_linked.walk_eq (by omega)
  have hchainWalk (c : List ℕ) (hc : c ∈ chains) : s.ring.chainWalk (headOf c) = c := by
    have hlinked := hheap.chain_linked c hc
    rw [head_of_mem (hinv.use.held.nonempty c hc)] at hlinked
    have hle := (sublist_flatten_of_mem hc).length_le
    exact hlinked.walk_eq (by omega)
  rw [hfreeWalk, hinv.outstanding]
  refine ⟨hfree, hheap.count.symm, fun chain hmem => ?_, ?_, ?_, fun s' hstep => ?_⟩
  · obtain ⟨c, hc, rfl⟩ := List.mem_map.mp hmem
    rw [chainOf, hchainWalk c hc]
    exact ⟨rfl, hchain c hc, fun i hi hic =>
      hdisjoint i hi i (mem_flatten.mpr ⟨c, hc, hic⟩) rfl⟩
  · rw [pairwise_map]
    refine hapart.imp_of_mem fun {c d} hc hd hcd => ?_
    rw [chainOf, chainOf, hchainWalk c hc, hchainWalk d hd]
    exact hcd
  · rw [hinv.published]
    exact prefix_append _ _
  · obtain ⟨chains', hinv'⟩ := hinv.irq hstep
    rw [hinv'.published, append_nil]

/-- Two chains are completed in the other order. -/
def swapRun : List RingAction :=
  [.alloc 2, .submit 2, .alloc 1, .submit 1, .fetch, .fetch, .complete 1 7, .complete 2 9, .irq]

theorem ring_sound_swap : ∃ s, Reachable State.step Timely Fresh s ∧
    s.driver.delivered = [⟨1, 7⟩, ⟨2, 9⟩] ∧ s.ring.freeWalk.length = 4 ∧
    s.ring.freeWalk.Nodup ∧ s.driver.delivered <+: s.published := by
  have hrun : (Transition.run State.step (freshState 4) swapRun).map
      (fun s => (s.driver.delivered, s.ring.freeWalk.length)) =
        some ([⟨1, 7⟩, ⟨2, 9⟩], 4) := by decide
  obtain ⟨s, hrun, hend⟩ := Option.map_eq_some_iff.mp hrun
  have hreach : Reachable State.step Timely Fresh s :=
    .run (.init ⟨2, by decide, rfl⟩) (by decide) hrun
  obtain ⟨hdelivered, hlength⟩ := Prod.mk.inj hend
  obtain ⟨hnodup, -, -, -, horder, -⟩ := ring_sound hreach
  exact ⟨s, hreach, hdelivered, hlength, hnodup, horder⟩

/-- No descriptor is lost: in every such state those of the free list and of the outstanding chains
are as many as the ring has. -/
theorem descriptors_conserved (h : Reachable State.step Timely Fresh s) :
    s.ring.freeCount + (s.driver.outstanding.map Chain.count).sum = s.ring.num := by
  obtain ⟨chains, queued, elems, hinv⟩ : ∃ chains queued elems, s.Inv chains queued elems := by
    refine h.invariant (P := fun s => ∃ chains queued elems, s.Inv chains queued elems)
      (fun hfresh => ⟨[], [], [], fresh_inv hfresh⟩) ?_
    rintro s action s' ⟨chains, queued, elems, hinv⟩
    exact hinv.step
  obtain ⟨free, hheap⟩ := hinv.use.held.heap
  have hlength := hheap.perm.length_eq
  rw [length_append, length_flatten, length_range, ← hheap.count] at hlength
  rw [hinv.outstanding, map_map]
  exact hlength

theorem descriptors_conserved_two : ∃ s, Reachable State.step Timely Fresh s ∧
    s.driver.outstanding = [⟨2, 2⟩] ∧ s.ring.freeCount + 2 = s.ring.num := by
  have hfresh : Reachable State.step Timely Fresh (freshState 4) := .init ⟨2, by decide, rfl⟩
  obtain ⟨s, hreach, hout⟩ := hfresh.exists_run (P := fun s => s.driver.outstanding = [⟨2, 2⟩])
    (by decide : Transition.Admits _ _ _ [.alloc 2, .alloc 1, .submit 1, .fetch,
      .complete 1 7, .irq])
    (by decide)
  exact ⟨s, hreach, hout, by simpa [hout] using descriptors_conserved hreach⟩

/-- The device completes as many chains as the ring has entries. At the interrupt no element is
passed on. -/
theorem full_used_ring_is_missed :
    (Transition.run State.step (freshState 2)
      [.alloc 1, .alloc 1, .submit 1, .submit 0, .fetch, .fetch, .complete 1 7, .complete 0 9,
        .irq]).map (fun s => (s.published, s.driver.delivered)) =
      some ([⟨1, 7⟩, ⟨0, 9⟩], []) := by
  decide

end NusaKernel.Virtio
