import Mathlib.Data.List.Nodup
import Mathlib.Data.List.Flatten
import NusaKernel.Lib.ForwardList
import NusaKernel.Lib.Ring

/-!
# Descriptors of a virtio ring

`dev/virtio/virtio.c`: the descriptors of a ring that are not in use are linked through their `next`
fields, with 0xffff at the end. A chain of descriptors is linked through the same fields, and ends
at a descriptor without the flag `VRING_DESC_F_NEXT`. A used element of the device names the first
descriptor of a chain.

`Heap` says which descriptors are free and which chains there are. Allocating a chain takes
descriptors from the front of the free list, and freeing it puts them back (`Heap.alloc_chain`,
`Heap.free_chain`).

Left out: the address, the length and the other flags of a descriptor, which belong to the drivers.
-/

namespace NusaKernel.Virtio

open List Function
open ForwardList (Linked walk)

/-- `vring_desc`: whether `VRING_DESC_F_NEXT` is set, and the link. -/
structure Desc where
  hasNext : Bool
  next : ℕ

/-- `vring_used_elem`. -/
structure UsedElem where
  id : ℕ
  len : ℕ
deriving DecidableEq

/-- `vring`, with what its pointers lead to. -/
structure Vring where
  num : ℕ
  numMask : ℕ
  freeList : ℕ
  freeCount : ℕ
  lastUsed : ℕ
  desc : ℕ → Desc
  availIdx : ℕ
  availRing : ℕ → ℕ
  usedIdx : ℕ
  usedRing : ℕ → UsedElem

/-- The end of the free list. -/
def nullIndex : ℕ := 0xffff

variable (r : Vring)

def virtioFreeDesc (descIndex : ℕ) : Vring :=
  { r with
    desc := update r.desc descIndex { r.desc descIndex with next := r.freeList }
    freeList := descIndex
    freeCount := (r.freeCount + 1) % 2 ^ 16 }

def virtioAllocDesc : ℕ × Vring :=
  if r.freeCount = 0 then (nullIndex, r)
  else (r.freeList, { r with freeList := (r.desc r.freeList).next, freeCount := r.freeCount - 1 })

/-- Put a new descriptor behind one of a chain, as the block driver does. Without a free descriptor
the index is outside of the table. -/
def addDesc (desc : ℕ) : Option (ℕ × Vring) :=
  let (nextI, r) := virtioAllocDesc r
  if nextI = nullIndex then none
  else some (nextI, { r with
    desc := update
      (update r.desc nextI ⟨true, (r.desc desc).next⟩)
      desc { r.desc desc with next := nextI } })

/-- One round of the loop in `virtio_alloc_desc_chain`: the descriptor it pops, and the ring. -/
def popDesc (last : Option ℕ) : ℕ × Vring :=
  let i := r.freeList
  (i, { r with
    freeList := (r.desc i).next
    freeCount := (r.freeCount + (2 ^ 16 - 1)) % 2 ^ 16
    desc := update r.desc i
      (match last with
      | some lastIndex => ⟨true, lastIndex⟩
      | none => ⟨false, 0⟩) })

/-- The loop in `virtio_alloc_desc_chain`. -/
def allocLoop : ℕ → Vring → Option ℕ → Option ℕ × Vring
  | 0, r, last => (last, r)
  | count + 1, r, last =>
    let (i, r) := popDesc r last
    allocLoop count r (some i)

/-- `virtio_alloc_desc_chain`: the first descriptor of the chain. A chain of no descriptors is
`NULL`, too. -/
def virtioAllocDescChain (count : ℕ) : Option (ℕ × Vring) :=
  if r.freeCount < count then none
  else
    match allocLoop count r none with
    | (none, _) => none
    | (some startIndex, r) => some (startIndex, r)

def virtioSubmitChain (descIndex : ℕ) : Vring :=
  { r with
    availRing := update r.availRing (r.availIdx &&& r.numMask) descIndex
    availIdx := (r.availIdx + 1) % 2 ^ 16 }

/-- `vring_init`, over memory that is zero. -/
def vringInit (num : ℕ) : Vring where
  num := num
  numMask := 2 ^ Nat.log2 num - 1
  freeList := nullIndex
  freeCount := 0
  lastUsed := 0
  desc := fun _ => ⟨false, 0⟩
  availIdx := 0
  availRing := fun _ => 0
  usedIdx := 0
  usedRing := fun _ => ⟨0, 0⟩

/-- `virtio_alloc_ring`: all descriptors are freed, the first one first. -/
def virtioAllocRing (len : ℕ) : Vring := (range len).foldl virtioFreeDesc (vringInit len)

/-- The loop of the drivers' callbacks that frees the descriptors of a chain. A chain has at most
`fuel` descriptors. -/
def freeChain : ℕ → Vring → ℕ → Vring
  | 0, r, _ => r
  | fuel + 1, r, i =>
    let desc := r.desc i
    let r := virtioFreeDesc r i
    if desc.hasNext then freeChain fuel r desc.next else r

/-! ## Free descriptors and chains -/

/-- An index as a link. -/
def link (i : ℕ) : Option ℕ := if i = nullIndex then none else some i

/-- The link of a free descriptor. -/
def freeNext (desc : ℕ → Desc) (i : ℕ) : Option ℕ := link (desc i).next

/-- The link of a descriptor in a chain. -/
def chainNext (desc : ℕ → Desc) (i : ℕ) : Option ℕ :=
  if (desc i).hasNext then some (desc i).next else none

/-- The free list, as a walk finds it. -/
def Vring.freeWalk : List ℕ := walk (freeNext r.desc) r.num (link r.freeList)

/-- The chain at a descriptor, as a walk finds it. -/
def Vring.chainWalk (head : ℕ) : List ℕ := walk (chainNext r.desc) r.num (some head)

/-- Only descriptors have changed. -/
structure Vring.SameQueues (r r' : Vring) : Prop where
  num : r'.num = r.num
  numMask : r'.numMask = r.numMask
  lastUsed : r'.lastUsed = r.lastUsed
  availIdx : r'.availIdx = r.availIdx
  availRing : r'.availRing = r.availRing
  usedIdx : r'.usedIdx = r.usedIdx
  usedRing : r'.usedRing = r.usedRing

theorem Vring.SameQueues.refl : r.SameQueues r := ⟨rfl, rfl, rfl, rfl, rfl, rfl, rfl⟩

theorem Vring.SameQueues.trans {r r' r'' : Vring} (h : r.SameQueues r') (h' : r'.SameQueues r'') :
    r.SameQueues r'' :=
  ⟨h'.num.trans h.num, h'.numMask.trans h.numMask, h'.lastUsed.trans h.lastUsed,
    h'.availIdx.trans h.availIdx, h'.availRing.trans h.availRing, h'.usedIdx.trans h.usedIdx,
    h'.usedRing.trans h.usedRing⟩

theorem free_desc_same (i : ℕ) : r.SameQueues (virtioFreeDesc r i) :=
  ⟨rfl, rfl, rfl, rfl, rfl, rfl, rfl⟩

theorem pop_desc_same (last : Option ℕ) : r.SameQueues (popDesc r last).2 :=
  ⟨rfl, rfl, rfl, rfl, rfl, rfl, rfl⟩

/-- The free list and the chains, which share the descriptors of the ring. A chain starts with its
first descriptor. -/
structure Heap (r : Vring) (free : List ℕ) (chains : List (List ℕ)) : Prop where
  num_le : r.num ≤ 2 ^ 15
  free_linked : Linked (freeNext r.desc) (link r.freeList) free
  count : r.freeCount = free.length
  chain_linked : ∀ c ∈ chains, Linked (chainNext r.desc) c.head? c
  perm : (free ++ chains.flatten).Perm (range r.num)

namespace Heap

variable {r : Vring} {free built c : List ℕ} {chains : List (List ℕ)} {a : ℕ}

section

variable (h : Heap r free chains)
include h

theorem nodup : (free ++ chains.flatten).Nodup := h.perm.nodup_iff.mpr nodup_range

theorem lt_num {i : ℕ} (hi : i ∈ free ++ chains.flatten) : i < r.num :=
  mem_range.mp (h.perm.mem_iff.mp hi)

theorem length_le : free.length + chains.flatten.length = r.num := by
  have hlength := h.perm.length_eq
  rwa [length_append, length_range] at hlength

/-- The order of the chains does not matter. -/
theorem perm_chains {chains' : List (List ℕ)} (hperm : chains'.Perm chains) : Heap r free chains' :=
  ⟨h.num_le, h.free_linked, h.count, fun c hc => h.chain_linked c (hperm.mem_iff.mp hc),
    (hperm.flatten.append_left free).trans h.perm⟩

end

/-- A chain without descriptors. -/
theorem cons_nil_iff : Heap r free ([] :: chains) ↔ Heap r free chains := by
  constructor
  · intro h
    exact { h with chain_linked := (forall_mem_cons.mp h.chain_linked).2 }
  intro h
  exact { h with chain_linked := forall_mem_cons.mpr ⟨rfl, h.chain_linked⟩ }

/-- An index that is linked is not the end of the free list. -/
theorem link_eq (h : Heap r free chains) {i : ℕ} (hi : i ∈ free ++ chains.flatten) :
    link i = some i := by
  have hlt := h.lt_num hi
  have hnum := h.num_le
  refine if_neg fun hnull => ?_
  rw [nullIndex] at hnull
  omega

theorem free_list_eq (h : Heap r (a :: free) chains) : r.freeList = a := by
  have hfirst := h.free_linked.1
  unfold link at hfirst
  split at hfirst
  · cases hfirst
  · exact Option.some.inj hfirst

/-- The first free descriptor becomes the first of the chain that is built. -/
theorem pop (h : Heap r (a :: free) (built :: chains)) :
    (popDesc r built.head?).1 = a ∧
      Heap (popDesc r built.head?).2 free ((a :: built) :: chains) := by
  obtain ⟨-, hrest⟩ := h.free_linked
  have hlist := h.free_list_eq
  have hnodup := h.nodup
  have hfresh : a ∉ free ++ (built ++ chains.flatten) := (nodup_cons.mp hnodup).1
  have hcount := h.count
  have hlength := h.length_le
  have hnum := h.num_le
  rw [length_cons] at hcount hlength
  refine ⟨hlist, h.num_le, ?_, ?_, ?_, ?_⟩
  · show Linked _ (link (r.desc r.freeList).next) free
    rw [hlist]
    refine hrest.congr fun b hb => ?_
    have hne : b ≠ a := by
      rintro rfl
      exact hfresh (mem_append_left _ hb)
    show link (update r.desc r.freeList _ b).next = link (r.desc b).next
    rw [hlist, update_of_ne hne]
  · show (r.freeCount + (2 ^ 16 - 1)) % 2 ^ 16 = free.length
    omega
  · have hchain (b : ℕ) (hb : b ≠ a) :
        chainNext (popDesc r built.head?).2.desc b = chainNext r.desc b := by
      show chainNext (update r.desc r.freeList _) b = _
      rw [chainNext, hlist, update_of_ne hb, chainNext]
    have hne (c : List ℕ) (hc : c ∈ built :: chains) (b : ℕ) (hb : b ∈ c) : b ≠ a := by
      rintro rfl
      exact hfresh (mem_append_right _ (mem_flatten.mpr ⟨c, hc, hb⟩))
    intro c hc
    rcases mem_cons.mp hc with rfl | hc
    · refine ⟨rfl, ?_⟩
      have hlink : chainNext (popDesc r built.head?).2.desc a = built.head? := by
        show chainNext (update r.desc r.freeList _) a = _
        rw [chainNext, hlist, update_self]
        cases built.head? <;> rfl
      rw [hlink]
      exact (h.chain_linked built mem_cons_self).congr fun b hb =>
        hchain b (hne built mem_cons_self b hb)
    · have hmem : c ∈ built :: chains := mem_cons_of_mem _ hc
      exact (h.chain_linked c hmem).congr fun b hb => hchain b (hne c hmem b hb)
  · refine .trans ?_ h.perm
    exact perm_middle

/-- The loop that builds a chain from the front of the free list. -/
theorem alloc_loop {count : ℕ} (h : Heap r free (built :: chains)) (hcount : count ≤ free.length) :
    ∃ r', allocLoop count r built.head? = (((free.take count).reverse ++ built).head?, r') ∧
      Heap r' (free.drop count) (((free.take count).reverse ++ built) :: chains) ∧
      r.SameQueues r' := by
  induction count generalizing r free built with
  | zero => exact ⟨r, rfl, h, .refl r⟩
  | succ count ih =>
    cases free with
    | nil => cases hcount
    | cons a free =>
      obtain ⟨hfirst, hpop⟩ := h.pop
      obtain ⟨r', hloop, hheap, hsame⟩ := ih hpop (Nat.le_of_succ_le_succ hcount)
      refine ⟨r', ?_, ?_, (pop_desc_same _ _).trans hsame⟩
      · show allocLoop count (popDesc r built.head?).2 (some (popDesc r built.head?).1) = _
        rw [hfirst]
        simpa using hloop
      · simpa using hheap

/-- A chain of free descriptors. The last one that was taken is its first. -/
theorem alloc_chain (h : Heap r free chains) {count : ℕ} (hpos : 0 < count)
    (hcount : count ≤ free.length) :
    ∃ head chain r', virtioAllocDescChain r count = some (head, r') ∧ chain.head? = some head ∧
      chain.length = count ∧ Heap r' (free.drop count) (chain :: chains) ∧ r.SameQueues r' := by
  obtain ⟨r', hloop, hheap, hsame⟩ := (cons_nil_iff.mpr h).alloc_loop hcount
  rw [append_nil] at hloop hheap
  have hlength : (free.take count).reverse.length = count := by
    rw [length_reverse, length_take, Nat.min_eq_left hcount]
  obtain ⟨chain, hchain⟩ : ∃ chain, (free.take count).reverse = chain := ⟨_, rfl⟩
  rw [hchain] at hloop hheap hlength
  cases chain with
  | nil =>
    rw [← hlength] at hpos
    cases hpos
  | cons head rest =>
    refine ⟨head, head :: rest, r', ?_, rfl, hlength, hheap, hsame⟩
    rw [virtioAllocDescChain, h.count, if_neg (Nat.not_lt.mpr hcount)]
    have hstart : allocLoop count r none = (some head, r') := hloop
    rw [hstart]

/-- A free descriptor is put behind one of a chain that has a next one. -/
theorem add_desc {x : ℕ} {front back : List ℕ}
    (h : Heap r (a :: free) ((front ++ x :: back) :: chains)) (hback : back ≠ []) :
    ∃ r', addDesc r x = some (a, r') ∧
      Heap r' free ((front ++ x :: a :: back) :: chains) ∧ r.SameQueues r' := by
  obtain ⟨-, hrest⟩ := h.free_linked
  have hlist := h.free_list_eq
  have hcount := h.count
  rw [length_cons] at hcount
  have hnull : a ≠ nullIndex := by
    intro hnull
    have hlink := h.link_eq (mem_append_left _ mem_cons_self)
    rw [link, if_pos hnull] at hlink
    cases hlink
  have hlinked := h.chain_linked _ mem_cons_self
  have hfresh : a ∉ free ++ ((front ++ x :: back) ++ chains.flatten) := (nodup_cons.mp h.nodup).1
  have hnodup : (free ++ ((front ++ x :: back) ++ chains.flatten)).Nodup :=
    (nodup_cons.mp h.nodup).2
  obtain ⟨-, hrestNodup, hfreeApart⟩ := nodup_append.mp hnodup
  obtain ⟨hchainNodup, -, hapart⟩ := nodup_append.mp hrestNodup
  have hxmem : x ∈ front ++ x :: back := mem_append_right _ mem_cons_self
  have hax : a ≠ x := by
    rintro rfl
    exact hfresh (mem_append_right _ (mem_append_left _ hxmem))
  -- the descriptor that is found has a next one
  obtain ⟨b, rest, rfl⟩ := exists_cons_of_ne_nil hback
  have hxnext := hlinked.next_eq
  have hx : (r.desc x).hasNext = true ∧ (r.desc x).next = b := by
    obtain ⟨hflag, hxnext⟩ := Option.ite_none_right_eq_some.mp hxnext
    exact ⟨hflag, Option.some.inj hxnext⟩
  obtain ⟨desc, hdesc⟩ : ∃ desc, update
      (update r.desc a ⟨true, (r.desc x).next⟩) x { r.desc x with next := a } = desc :=
    ⟨_, rfl⟩
  have hat : desc x = ⟨true, a⟩ := by
    rw [← hdesc, update_self]
    dsimp only
    rw [hx.1]
  have hnew : desc a = ⟨true, b⟩ := by
    rw [← hdesc, update_of_ne hax, update_self, hx.2]
  have hother (c : ℕ) (hca : c ≠ a) (hcx : c ≠ x) : desc c = r.desc c := by
    rw [← hdesc, update_of_ne hcx, update_of_ne hca]
  have hne (c : ℕ) (hc : c ∈ free ++ ((front ++ x :: b :: rest) ++ chains.flatten)) : c ≠ a := by
    rintro rfl
    exact hfresh hc
  refine ⟨{ r with freeList := (r.desc a).next, freeCount := r.freeCount - 1, desc := desc }, ?_,
    ⟨h.num_le, ?_, ?_, fun c hc => ?_, ?_⟩, ⟨rfl, rfl, rfl, rfl, rfl, rfl, rfl⟩⟩
  · rw [addDesc, virtioAllocDesc, if_neg (by omega), hlist]
    dsimp only
    rw [if_neg hnull, hdesc]
  · refine hrest.congr fun c hc => ?_
    have hcx : c ≠ x := by
      rintro rfl
      exact hfreeApart c hc c (mem_append_left _ hxmem) rfl
    show link (desc c).next = link (r.desc c).next
    rw [hother c (hne c (mem_append_left _ hc)) hcx]
  · show r.freeCount - 1 = free.length
    omega
  · have hsame (c : ℕ) (hca : c ≠ a) (hcx : c ≠ x) : chainNext desc c = chainNext r.desc c := by
      rw [chainNext, hother c hca hcx, chainNext]
    rcases mem_cons.mp hc with rfl | hc
    · have hhead : (front ++ x :: a :: b :: rest).head? = (front ++ x :: b :: rest).head? := by
        cases front <;> rfl
      rw [hhead]
      have hmem (c : ℕ) (hc : c ∈ front ++ x :: b :: rest) : c ≠ a :=
        hne c (mem_append_right _ (mem_append_left _ hc))
      obtain ⟨-, hback, hsplit⟩ := nodup_append.mp hchainNodup
      have hxa : chainNext desc x = some a := by
        rw [chainNext, hat]
        rfl
      have hab : chainNext desc a = (b :: rest).head? := by
        rw [chainNext, hnew]
        rfl
      refine hlinked.insert hxa hab
        (fun c hc => hsame c (hmem c (mem_append_left _ hc)) fun hcx => ?_)
        fun c hc => hsame c (hmem c (mem_append_right _ (mem_cons_of_mem _ hc)))
          fun hcx => ?_
      · exact hsplit c hc x mem_cons_self hcx
      · exact (nodup_cons.mp hback).1 (hcx ▸ hc)
    · refine (h.chain_linked c (mem_cons_of_mem _ hc)).congr fun d hd => ?_
      have hflat : d ∈ chains.flatten := mem_flatten.mpr ⟨c, hc, hd⟩
      refine hsame d (hne d (mem_append_right _ (mem_append_right _ hflat))) ?_
      rintro rfl
      exact hapart d hxmem d hflat rfl
  · refine .trans ?_ h.perm
    have hmiddle : (front ++ x :: a :: b :: rest).Perm (a :: (front ++ x :: b :: rest)) := by
      rw [append_cons, append_cons front x (b :: rest)]
      exact perm_middle
    exact ((hmiddle.append_right _).append_left free).trans perm_middle

/-- The first descriptor of a chain is put in front of the free list. -/
theorem push (h : Heap r free ((a :: c) :: chains)) :
    Heap (virtioFreeDesc r a) (a :: free) (c :: chains) ∧ chainNext r.desc a = c.head? := by
  have hperm : (a :: free ++ (c ++ chains.flatten)).Perm
      (free ++ ((a :: c) :: chains).flatten) := perm_middle.symm
  have hnodup := hperm.nodup_iff.mpr h.nodup
  have hfresh : a ∉ free ++ (c ++ chains.flatten) := (nodup_cons.mp hnodup).1
  have hlink : link a = some a := h.link_eq (hperm.mem_iff.mp mem_cons_self)
  have hlength := h.length_le
  have hnum := h.num_le
  have hcount := h.count
  have hchain (b : ℕ) (hb : b ≠ a) :
      chainNext (virtioFreeDesc r a).desc b = chainNext r.desc b := by
    show chainNext (update r.desc a _) b = _
    rw [chainNext, update_of_ne hb, chainNext]
  have hne (d : List ℕ) (hd : d ∈ c :: chains) (b : ℕ) (hb : b ∈ d) : b ≠ a := by
    rintro rfl
    exact hfresh (mem_append_right _ (mem_flatten.mpr ⟨d, hd, hb⟩))
  obtain ⟨-, hrest⟩ := h.chain_linked _ mem_cons_self
  refine ⟨⟨h.num_le, ⟨hlink, ?_⟩, ?_, fun d hd => ?_, hperm.trans h.perm⟩, hrest.start_eq⟩
  · have hnext : freeNext (virtioFreeDesc r a).desc a = link r.freeList := by
      show link (update r.desc a _ a).next = _
      rw [update_self]
    rw [hnext]
    refine h.free_linked.congr fun b hb => ?_
    have hba : b ≠ a := by
      rintro rfl
      exact hfresh (mem_append_left _ hb)
    show link (update r.desc a _ b).next = link (r.desc b).next
    rw [update_of_ne hba]
  · show (r.freeCount + 1) % 2 ^ 16 = free.length + 1
    omega
  · rcases mem_cons.mp hd with rfl | hmem
    · rw [← hrest.start_eq]
      exact hrest.congr fun b hb => hchain b (hne _ hd b hb)
    · exact (h.chain_linked d (mem_cons_of_mem _ hmem)).congr fun b hb =>
        hchain b (hne d hd b hb)

/-- The loop of a driver puts all descriptors of a chain back. -/
theorem free_chain {head fuel : ℕ} (h : Heap r free (c :: chains))
    (hhead : c.head? = some head) (hfuel : c.length ≤ fuel) :
    ∃ free', Heap (freeChain fuel r head) free' chains ∧ r.SameQueues (freeChain fuel r head) := by
  induction fuel generalizing r free c head with
  | zero =>
    rw [length_eq_zero_iff.mp (Nat.le_zero.mp hfuel)] at hhead
    cases hhead
  | succ fuel ih =>
    cases c with
    | nil => cases hhead
    | cons a c =>
      obtain rfl : a = head := Option.some.inj hhead
      obtain ⟨hpush, hnext⟩ := h.push
      rw [freeChain]
      unfold chainNext at hnext
      split at hnext
      · next hflag =>
        obtain ⟨free', hheap, hsame⟩ := ih hpush hnext.symm (Nat.le_of_succ_le_succ hfuel)
        rw [if_pos hflag]
        exact ⟨free', hheap, (free_desc_same r a).trans hsame⟩
      next hflag =>
      have hempty : c = [] := head?_eq_none_iff.mp hnext.symm
      rw [hempty] at hpush
      rw [if_neg hflag]
      exact ⟨_, cons_nil_iff.mp hpush, free_desc_same r a⟩

/-- Freeing descriptors that are chains of their own. -/
theorem free_each {descs : List ℕ} (h : Heap r free (descs.map fun i => [i])) :
    Heap (descs.foldl virtioFreeDesc r) (descs.reverse ++ free) [] ∧
      r.SameQueues (descs.foldl virtioFreeDesc r) := by
  induction descs generalizing r free with
  | nil => exact ⟨h, .refl r⟩
  | cons i descs ih =>
    have hpush := cons_nil_iff.mp h.push.1
    obtain ⟨hheap, hsame⟩ := ih hpush
    rw [foldl_cons, reverse_cons, append_assoc]
    exact ⟨hheap, (free_desc_same r i).trans hsame⟩

end Heap

/-- In a new ring all descriptors are free. -/
theorem alloc_ring_heap {len : ℕ} (hlen : len ≤ 2 ^ 15) :
    Heap (virtioAllocRing len) (range len).reverse [] ∧
      (vringInit len).SameQueues (virtioAllocRing len) := by
  -- before they are freed, each is a chain without a next descriptor
  have hzero : Heap (vringInit len) [] ((range len).map fun i => [i]) := by
    refine ⟨hlen, rfl, rfl, fun c hc => ?_, ?_⟩
    · obtain ⟨i, -, rfl⟩ := List.mem_map.mp hc
      exact ⟨rfl, rfl⟩
    · rw [nil_append, ← flatMap_def, flatMap_singleton']
      exact .refl _
  obtain ⟨hall, hsame⟩ := hzero.free_each
  rw [append_nil] at hall
  exact ⟨hall, hsame⟩

end NusaKernel.Virtio
