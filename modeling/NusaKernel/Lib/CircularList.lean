import Mathlib.Data.List.Chain
import Mathlib.Data.List.Nodup
import Mathlib.Logic.Function.Basic

/-!
# Circular doubly linked lists

Lists whose elements carry their own links, with a head node of the same kind, in a memory of
which some nodes are allocated. Access through a null pointer or to memory that is not allocated
has no result.

`IsList links list items` says that the nodes from the head `list` on are the `items`, in order,
and that both directions agree. Each operation has one lemma: from a list it makes the list it
should, and it leaves every node alone that is not part of it.
-/

namespace CircularList

open List Function Option

universe u

/-- The nodes in memory and their pointers. `none` is the null pointer. -/
structure Links (ν : Type u) where
  allocated : ν → Bool
  prev : ν → Option ν
  next : ν → Option ν

variable {ν : Type u}

/-- No node is allocated. -/
def Links.empty : Links ν := ⟨fun _ => false, fun _ => none, fun _ => none⟩

variable (links : Links ν)

/-- A pointer to an allocated node. -/
def Links.deref (pointer : Option ν) : Option ν := pointer.filter links.allocated

variable [DecidableEq ν]

/-- Allocate a node with its pointers cleared. -/
def Links.alloc (node : ν) : Links ν where
  allocated := update links.allocated node true
  prev := update links.prev node none
  next := update links.next node none

/-- Free a node. Its pointers stay as they are. -/
def Links.free (node : ν) : Links ν :=
  { links with allocated := update links.allocated node false }

/-- Write the backward pointer of a node. -/
def setPrev (node pointer : Option ν) : Option (Links ν) :=
  (links.deref node).map fun x => { links with prev := update links.prev x pointer }

/-- Write the forward pointer of a node. -/
def setNext (node pointer : Option ν) : Option (Links ν) :=
  (links.deref node).map fun x => { links with next := update links.next x pointer }

/-- Make a node the head of an empty list. -/
def makeHead (list : ν) : Option (Links ν) := do
  let links ← setNext links list list
  setPrev links list list

/-- Link a node in before the head. -/
def addTail (list item : ν) : Option (Links ν) := do
  let head ← links.deref list
  let links ← setPrev links item (links.prev head)
  let links ← setNext links item list
  let links ← setNext links (links.prev head) item
  setPrev links list item

/-- Link a node in behind the head. -/
def addHead (list item : ν) : Option (Links ν) := do
  let head ← links.deref list
  let links ← setNext links item (links.next head)
  let links ← setPrev links item list
  let links ← setPrev links (links.next head) item
  setNext links list item

/-- Unlink a node and clear its pointers. -/
def delete (item : ν) : Option (Links ν) := do
  let node ← links.deref item
  let links ← setPrev links (links.next node) (links.prev node)
  let links ← setNext links (links.prev node) (links.next node)
  let links ← setNext links item none
  setPrev links item none

/-- Unlink the first node of a list, if there is one. -/
def removeHead (list : ν) : Option (Option ν × Links ν) := do
  let head ← links.deref list
  if links.next head = some list then some (none, links)
  else do
    let item ← links.next head
    let links ← delete links item
    some (some item, links)

/-- A loop from a pointer on up to the head, which the body can leave. It visits nothing after
`fuel` tests for the head. -/
def loopFrom {σ : Type u} (links : Links ν) (list : ν) (body : ν → σ → Option (σ × Bool)) :
    ℕ → Option ν → σ → Option σ
  | 0, _, _ => none
  | fuel + 1, pointer, state =>
    if pointer = some list then some state
    else do
      let node ← links.deref pointer
      let (state, stay) ← body node state
      if stay then loopFrom links list body fuel (links.next node) state else some state

/-- A loop over the list. -/
def loop {σ : Type u} (list : ν) (body : ν → σ → Option (σ × Bool)) (fuel : ℕ)
    (state : σ) : Option σ := do
  let head ← links.deref list
  loopFrom links list body fuel (links.next head) state

/-- The nodes from a pointer on up to the head. -/
def walkFrom (links : Links ν) (list : ν) : ℕ → Option ν → Option (List ν)
  | 0, _ => none
  | fuel + 1, pointer =>
    if pointer = some list then some []
    else do
      let node ← links.deref pointer
      let rest ← walkFrom links list fuel (links.next node)
      some (node :: rest)

/-- The nodes that a loop over the list visits, if it ends within `fuel` tests for the head. -/
def walk (list : ν) (fuel : ℕ) : Option (List ν) := do
  let head ← links.deref list
  walkFrom links list fuel (links.next head)

/-- The forward pointer of the first node and the backward pointer of the second agree. -/
def Linked (x y : ν) : Prop := links.next x = some y ∧ links.prev y = some x

/-- The head `list` leads through the `items` back to itself, and no node comes twice. -/
structure IsList (links : Links ν) (list : ν) (items : List ν) : Prop where
  chain : (list :: (items ++ [list])).IsChain (Linked links)
  nodup : (list :: items).Nodup
  allocated : ∀ x ∈ list :: items, links.allocated x = true

variable {links links' : Links ν} {list item x y p n : ν} {items : List ν} {nodes : List ν}
  {fuel : ℕ}

omit [DecidableEq ν] in
theorem deref_some (h : links.allocated x = true) : links.deref (some x) = some x := by
  simp [Links.deref, Option.filter, h]

theorem set_prev_some (h : links.allocated x = true) (pointer : Option ν) :
    setPrev links (some x) pointer = some { links with prev := update links.prev x pointer } := by
  rw [setPrev, deref_some h, map_some]

theorem set_next_some (h : links.allocated x = true) (pointer : Option ν) :
    setNext links (some x) pointer = some { links with next := update links.next x pointer } := by
  rw [setNext, deref_some h, map_some]

/-! ## Memory the list does not use -/

omit [DecidableEq ν] in
/-- A chain reads the forward pointers of all its nodes but the last, and the backward pointers
of all but the first. -/
theorem chain_congr (h : nodes.IsChain (Linked links))
    (hnext : ∀ x ∈ nodes.dropLast, links'.next x = links.next x)
    (hprev : ∀ x ∈ nodes.tail, links'.prev x = links.prev x) : nodes.IsChain (Linked links') := by
  induction nodes with
  | nil => exact .nil
  | cons x rest ih =>
    cases rest with
    | nil => exact .singleton x
    | cons y rest =>
      rw [isChain_cons_cons] at h ⊢
      refine ⟨⟨?_, ?_⟩, ih h.2 ?_ ?_⟩
      · rw [hnext x (by simp)]
        exact h.1.1
      · rw [hprev y (by simp)]
        exact h.1.2
      · intro z hz
        exact hnext z (mem_cons_of_mem x hz)
      · intro z hz
        exact hprev z (mem_cons_of_mem y hz)

omit [DecidableEq ν] in
theorem drop_last_ring (list : ν) (items : List ν) :
    (list :: (items ++ [list])).dropLast = list :: items := by
  rw [← cons_append, dropLast_concat]

/-- Two memories agree at a node. -/
structure SameAt (links links' : Links ν) (x : ν) : Prop where
  allocated : links'.allocated x = links.allocated x
  prev : links'.prev x = links.prev x
  next : links'.next x = links.next x

omit [DecidableEq ν] in
theorem SameAt.trans {links₁ links₂ links₃ : Links ν} (h : SameAt links₁ links₂ x)
    (h' : SameAt links₂ links₃ x) : SameAt links₁ links₃ x :=
  ⟨h'.allocated.trans h.allocated, h'.prev.trans h.prev, h'.next.trans h.next⟩

theorem SameAt.alloc (links : Links ν) (hne : x ≠ y) : SameAt links (links.alloc y) x :=
  ⟨update_of_ne hne _ _, update_of_ne hne _ _, update_of_ne hne _ _⟩

theorem SameAt.free (links : Links ν) (hne : x ≠ y) : SameAt links (links.free y) x :=
  ⟨update_of_ne hne _ _, rfl, rfl⟩

/-- Only the listed nodes may have been written. -/
structure Frame (links links' : Links ν) (nodes : List ν) : Prop where
  allocated : links'.allocated = links.allocated
  prev : ∀ x, x ∉ nodes → links'.prev x = links.prev x
  next : ∀ x, x ∉ nodes → links'.next x = links.next x

omit [DecidableEq ν] in
theorem Frame.same_at (h : Frame links links' nodes) (hx : x ∉ nodes) : SameAt links links' x :=
  ⟨congrFun h.allocated x, h.prev x hx, h.next x hx⟩

omit [DecidableEq ν] in
/-- The list is there as long as its own nodes are not changed. -/
theorem IsList.congr (h : IsList links list items)
    (hsame : ∀ x ∈ list :: items, SameAt links links' x) : IsList links' list items := by
  refine ⟨chain_congr h.chain ?_ ?_, h.nodup, ?_⟩
  · rw [drop_last_ring]
    intro x hx
    exact (hsame x hx).next
  · intro x hx
    exact (hsame x (by simpa [or_comm] using hx)).prev
  · intro x hx
    rw [(hsame x hx).allocated]
    exact h.allocated x hx

/-! ## What the operations do -/

section

variable (h : links.allocated list = true)
include h

theorem make_head_eq :
    makeHead links list = some { links with
      next := update links.next list (some list)
      prev := update links.prev list (some list) } := by
  unfold makeHead
  rw [set_next_some h, bind_eq_bind, bind_some]
  refine set_prev_some ?_ _
  exact h

theorem SameAt.make_head
    (hmake : makeHead links list = some links') (hne : x ≠ list) : SameAt links links' x := by
  rw [make_head_eq h] at hmake
  cases hmake
  exact ⟨rfl, update_of_ne hne _ _, update_of_ne hne _ _⟩

/-- A new head is the head of an empty list. -/
theorem IsList.make_head (hmake : makeHead links list = some links') : IsList links' list [] := by
  rw [make_head_eq h] at hmake
  cases hmake
  refine ⟨?_, by simp, by simpa using h⟩
  simp [Linked]

/-- A node can be made a head, and only it is written. -/
theorem exists_make_head :
    ∃ links', makeHead links list = some links' ∧ IsList links' list [] ∧
      Frame links links' [list] := by
  refine ⟨_, make_head_eq h, IsList.make_head h (make_head_eq h), rfl, fun x hx => ?_,
    fun x hx => ?_⟩
  · exact update_of_ne (by simpa using hx) _ _
  · exact update_of_ne (by simpa using hx) _ _

end

theorem add_tail_eq (hlast : links.prev list = some p) (hlist : links.allocated list = true)
    (hp : links.allocated p = true) (hitem : links.allocated item = true) (hne : item ≠ list) :
    addTail links list item = some { links with
      prev := update (update links.prev item (some p)) list (some item)
      next := update (update links.next item (some list)) p (some item) } := by
  unfold addTail
  have hsame : update links.prev item (some p) list = some p := by
    rw [update_of_ne hne.symm, hlast]
  simp [deref_some hlist, set_prev_some, set_next_some, hitem, hlast, hsame, hp, hlist]

theorem delete_eq (hitem : links.allocated item = true) (hprev : links.prev item = some p)
    (hnext : links.next item = some n) (hp : links.allocated p = true)
    (hn : links.allocated n = true) (hne : n ≠ item) :
    delete links item = some { links with
      prev := update (update links.prev n (some p)) item none
      next := update (update links.next p (some n)) item none } := by
  unfold delete
  have hsame : update links.prev n (some p) item = some p := by
    rw [update_of_ne hne.symm, hprev]
  simp [deref_some hitem, set_prev_some, set_next_some, hitem, hprev, hnext, hsame, hp, hn]

omit [DecidableEq ν] in
/-- A list that is not empty has a last node. -/
theorem exists_concat (h : nodes ≠ []) : ∃ pre p, nodes = pre ++ [p] :=
  ⟨_, _, (dropLast_append_getLast h).symm⟩

/-- Linking a node in makes it the last of the list. -/
theorem IsList.add_tail (h : IsList links list items) (hitem : item ∉ list :: items)
    (halloc : links.allocated item = true) :
    ∃ links', addTail links list item = some links' ∧ IsList links' list (items ++ [item]) ∧
      Frame links links' (item :: list :: items) := by
  obtain ⟨pre, p, hsplit⟩ := exists_concat (cons_ne_nil list items)
  have hchain : (pre ++ p :: list :: []).IsChain (Linked links) := by
    have hring : list :: (items ++ [list]) = pre ++ p :: list :: [] := by
      rw [← cons_append, hsplit, append_assoc]
      rfl
    rw [← hring]
    exact h.chain
  obtain ⟨hpre, hlast, _⟩ := isChain_append_cons_cons.mp hchain
  have hp : p ∈ list :: items := by simp [hsplit]
  have hne : item ≠ list := fun heq => hitem (by simp [heq])
  have hnep : item ≠ p := fun heq => hitem (heq ▸ hp)
  have hnodup := h.nodup
  refine ⟨_, add_tail_eq hlast.2 (h.allocated list (by simp)) (h.allocated p hp) halloc hne,
    ⟨?_, ?_, ?_⟩, ⟨rfl, ?_, ?_⟩⟩
  · have hring : list :: (items ++ [item] ++ [list]) = pre ++ p :: item :: [list] := by
      rw [append_assoc, ← cons_append, hsplit, append_assoc]
      rfl
    rw [hring, isChain_append_cons_cons]
    refine ⟨chain_congr hpre ?_ ?_, ?_, ?_⟩
    · -- the forward pointers of all nodes before the last stay
      intro x hx
      rw [dropLast_concat] at hx
      have hxp : x ≠ p := by
        rw [hsplit, nodup_append] at hnodup
        exact hnodup.2.2 x hx p (by simp)
      have hxi : x ≠ item := fun heq => hitem (by rw [hsplit, ← heq]; simp [hx])
      simp [hxp, hxi]
    · -- the backward pointers of all items stay
      intro x hx
      rw [← hsplit, tail_cons] at hx
      have hxl : x ≠ list := fun heq => (nodup_cons.mp hnodup).1 (heq ▸ hx)
      have hxi : x ≠ item := fun heq => hitem (by simp [← heq, hx])
      simp [hxl, hxi]
    · simp [Linked, hne]
    · simp [Linked, hnep]
  · rw [← cons_append, nodup_append]
    refine ⟨hnodup, nodup_singleton item, ?_⟩
    intro x hx y hy heq
    rw [mem_singleton.mp hy] at heq
    exact hitem (heq ▸ hx)
  · intro x hx
    rw [← cons_append, mem_append, mem_singleton] at hx
    rcases hx with hx | hx
    · exact h.allocated x hx
    · rw [hx]
      exact halloc
  · intro x hx
    simp only [mem_cons, not_or] at hx
    simp [hx.1, hx.2.1]
  · intro x hx
    have hxi : x ≠ item := fun heq => hx (by simp [heq])
    have hxp : x ≠ p := fun heq => hx (mem_cons_of_mem item (heq ▸ hp))
    simp [hxi, hxp]

/-- The list read backwards. -/
def Links.mirror (links : Links ν) : Links ν := ⟨links.allocated, links.next, links.prev⟩

omit [DecidableEq ν] in
theorem IsList.mirror (h : IsList links list items) : IsList links.mirror list items.reverse where
  chain := by
    have hring : list :: (items.reverse ++ [list]) = (list :: (items ++ [list])).reverse := by simp
    rw [hring, isChain_reverse]
    exact h.chain.imp fun x y hxy => ⟨hxy.2, hxy.1⟩
  nodup := by
    rw [nodup_cons, mem_reverse, nodup_reverse, ← nodup_cons]
    exact h.nodup
  allocated x hx := h.allocated x (by simpa using hx)

theorem add_head_eq_mirror (hfirst : links.next list = some n) (hlist : links.allocated list = true)
    (hn : links.allocated n = true) (hitem : links.allocated item = true) (hne : item ≠ list) :
    addHead links list item = (addTail links.mirror list item).map Links.mirror := by
  have htail := add_tail_eq (show links.mirror.prev list = some n from hfirst) hlist hn hitem hne
  rw [htail]
  unfold addHead
  have hsame : update links.next item (some n) list = some n := by
    rw [update_of_ne hne.symm, hfirst]
  simp [deref_some hlist, set_prev_some, set_next_some, hitem, hfirst, hsame, hn, hlist,
    Links.mirror]

/-- Linking a node in behind the head makes it the first of the list. -/
theorem IsList.add_head (h : IsList links list items) (hitem : item ∉ list :: items)
    (halloc : links.allocated item = true) :
    ∃ links', addHead links list item = some links' ∧ IsList links' list (item :: items) ∧
      Frame links links' (item :: list :: items) := by
  obtain ⟨n, post, hpost⟩ : ∃ n post, items ++ [list] = n :: post := exists_cons_of_ne_nil (by simp)
  have hfirst : links.next list = some n := by
    have hchain := h.chain
    rw [hpost] at hchain
    exact (isChain_cons_cons.mp hchain).1.1
  have hn : n ∈ list :: items := by
    have hmem : n ∈ items ++ [list] := by simp [hpost]
    simpa [or_comm] using hmem
  have hne : item ≠ list := fun heq => hitem (by simp [heq])
  obtain ⟨links', hadd, hlist, hframe⟩ := h.mirror.add_tail (by simpa using hitem) halloc
  refine ⟨links'.mirror, ?_, ?_, ?_⟩
  · rw [add_head_eq_mirror hfirst (h.allocated list (by simp)) (h.allocated n hn) halloc hne, hadd]
    rfl
  · have hmirror := hlist.mirror
    rwa [reverse_append, reverse_reverse, reverse_singleton, singleton_append] at hmirror
  · refine ⟨hframe.allocated, fun x hx => hframe.next x ?_, fun x hx => hframe.prev x ?_⟩
    · simpa using hx
    · simpa using hx

/-- Around a node of a chain the pointers can be led past it. The forward pointers that the chain
reads are those of different nodes, and so are the backward pointers. -/
theorem chain_bypass {pre post : List ν}
    (hchain : (pre ++ p :: item :: n :: post).IsChain (Linked links))
    (hforward : (pre ++ p :: item :: (n :: post).dropLast).Nodup)
    (hbackward : ((pre ++ [p]).tail ++ item :: n :: post).Nodup) :
    (pre ++ p :: n :: post).IsChain (Linked { links with
      prev := update (update links.prev n (some p)) item none
      next := update (update links.next p (some n)) item none }) := by
  obtain ⟨hfront, _, hrest⟩ := isChain_append_cons_cons.mp hchain
  obtain ⟨_, hback⟩ := isChain_cons_cons.mp hrest
  obtain ⟨_, hforward, hpre⟩ := nodup_append.mp hforward
  obtain ⟨hp, hforward⟩ := nodup_cons.mp hforward
  obtain ⟨_, hbackward, htail⟩ := nodup_append.mp hbackward
  obtain ⟨hitem, hbackward⟩ := nodup_cons.mp hbackward
  rw [isChain_append_cons_cons]
  refine ⟨chain_congr hfront ?_ ?_, ?_, chain_congr hback ?_ ?_⟩
  · -- before `p` no forward pointer is written
    intro x hx
    rw [dropLast_concat] at hx
    simp [hpre x hx p (by simp), hpre x hx item (by simp)]
  · -- up to `p` no backward pointer is written
    intro x hx
    simp [htail x hx n (by simp), htail x hx item (by simp)]
  · have hpi : p ≠ item := fun heq => hp (by simp [heq])
    have hni : n ≠ item := fun heq => hitem (by simp [heq])
    simp [Linked, hpi, hni]
  · -- from `n` on no forward pointer is written
    intro x hx
    have hxp : x ≠ p := fun heq => hp (mem_cons_of_mem item (heq ▸ hx))
    have hxi : x ≠ item := fun heq => (nodup_cons.mp hforward).1 (heq ▸ hx)
    simp [hxp, hxi]
  · -- after `n` no backward pointer is written
    intro x hx
    have hxn : x ≠ n := fun heq => (nodup_cons.mp hbackward).1 (heq ▸ hx)
    have hxi : x ≠ item := fun heq => hitem (mem_cons_of_mem n (heq ▸ hx))
    simp [hxn, hxi]

/-- Unlinking a node takes it out of the list and clears it. -/
theorem IsList.delete (h : IsList links list items) (hitem : item ∈ items) :
    ∃ links', delete links item = some links' ∧ IsList links' list (items.erase item) ∧
      links'.prev item = none ∧ links'.next item = none ∧ Frame links links' (list :: items) := by
  obtain ⟨front, back, rfl⟩ := append_of_mem hitem
  -- `p` and `n` are the neighbours of the node, either of which may be the head
  obtain ⟨pre, p, hpre⟩ := exists_concat (cons_ne_nil list front)
  obtain ⟨n, post, hpost⟩ : ∃ n post, back ++ [list] = n :: post := exists_cons_of_ne_nil (by simp)
  have hchain : (pre ++ p :: item :: n :: post).IsChain (Linked links) := by
    have hring : list :: (front ++ item :: back ++ [list]) = pre ++ p :: item :: n :: post := by
      rw [append_assoc, ← cons_append, hpre, cons_append, hpost, append_assoc]
      rfl
    rw [← hring]
    exact h.chain
  have hforward : (pre ++ p :: item :: (n :: post).dropLast).Nodup := by
    have hnodes : pre ++ p :: item :: (n :: post).dropLast = list :: (front ++ item :: back) := by
      rw [← hpost, dropLast_concat, ← cons_append, hpre, append_assoc]
      rfl
    rw [hnodes]
    exact h.nodup
  have hbackward : ((pre ++ [p]).tail ++ item :: n :: post).Nodup := by
    have hnodes : (pre ++ [p]).tail ++ item :: n :: post = front ++ item :: back ++ [list] := by
      rw [← hpre, ← hpost, tail_cons, append_assoc, cons_append]
    rw [hnodes, (perm_append_singleton list _).nodup_iff]
    exact h.nodup
  obtain ⟨_, hp, hrest⟩ := isChain_append_cons_cons.mp hchain
  have hn := (isChain_cons_cons.mp hrest).1
  have hpMem : p ∈ list :: (front ++ item :: back) := by
    rw [← cons_append, hpre]
    simp
  have hnMem : n ∈ list :: (front ++ item :: back) := by
    have hnBack : n ∈ back ++ [list] := by simp [hpost]
    rw [mem_append, mem_singleton] at hnBack
    rcases hnBack with hx | hx <;> simp [hx]
  have hni : n ≠ item := by
    intro heq
    rw [heq, nodup_append, nodup_cons] at hbackward
    exact hbackward.2.1.1 (by simp)
  have hfront : item ∉ front := by
    intro hx
    obtain ⟨_, hnodup⟩ := nodup_cons.mp h.nodup
    exact (nodup_append.mp hnodup).2.2 item hx item (by simp) rfl
  rw [erase_append_right _ hfront, erase_cons_head]
  refine ⟨_, delete_eq (h.allocated item (by simp)) hp.2 hn.1 (h.allocated p hpMem)
    (h.allocated n hnMem) hni, ⟨?_, ?_, ?_⟩, by simp, by simp, ⟨rfl, ?_, ?_⟩⟩
  · have hring : list :: (front ++ back ++ [list]) = pre ++ p :: n :: post := by
      rw [append_assoc, ← cons_append, hpre, hpost, append_assoc]
      rfl
    rw [hring]
    exact chain_bypass hchain hforward hbackward
  · exact h.nodup.sublist (by simp)
  · intro x hx
    exact h.allocated x (by simp at hx ⊢; tauto)
  · intro x hx
    have hxi : x ≠ item := fun heq => hx (by simp [heq])
    have hxn : x ≠ n := fun heq => hx (heq ▸ hnMem)
    simp [hxi, hxn]
  · intro x hx
    have hxi : x ≠ item := fun heq => hx (by simp [heq])
    have hxp : x ≠ p := fun heq => hx (heq ▸ hpMem)
    simp [hxi, hxp]

/-- Removing the first node of an empty list. -/
theorem IsList.remove_head_nil (h : IsList links list []) :
    removeHead links list = some (none, links) := by
  have hnext : links.next list = some list := (isChain_pair.mp h.chain).1
  unfold removeHead
  rw [deref_some (h.allocated list (by simp))]
  simp [hnext]

/-- Removing the first node. -/
theorem IsList.remove_head_cons (h : IsList links list (item :: items)) :
    ∃ links', removeHead links list = some (some item, links') ∧ IsList links' list items ∧
      Frame links links' (list :: item :: items) := by
  obtain ⟨links', hdelete, hlist, -, -, hframe⟩ := h.delete (show item ∈ item :: items by simp)
  have hnext : links.next list = some item := (isChain_cons_cons.mp h.chain).1.1
  have hne : item ≠ list := fun heq => (nodup_cons.mp h.nodup).1 (by simp [heq])
  rw [erase_cons_head] at hlist
  refine ⟨links', ?_, hlist, hframe⟩
  unfold removeHead
  rw [deref_some (h.allocated list (by simp))]
  simp [hnext, hne, hdelete]

/-! ## Loops over a list -/

/-- What a loop over a list does. -/
def visit {σ : Type u} (body : ν → σ → Option (σ × Bool)) : List ν → σ → Option σ
  | [], state => some state
  | node :: rest, state => do
      let (state, stay) ← body node state
      if stay then visit body rest state else some state

omit [DecidableEq ν] in
/-- What a loop does from the head of a list on follows from what it does at the head and what it
does at another node if the rest is known. -/
theorem IsList.loop_induction {motive : ℕ → Option ν → List ν → Prop}
    (h : IsList links list items) (hfuel : items.length < fuel)
    (nil : ∀ fuel, motive (fuel + 1) (some list) [])
    (cons : ∀ fuel y rest, y ≠ list → links.deref (some y) = some y →
      motive fuel (links.next y) rest → motive (fuel + 1) (some y) (y :: rest)) :
    motive fuel (links.next list) items := by
  obtain ⟨hchain, hnodup, halloc⟩ := h
  have hlist := (nodup_cons.mp hnodup).1
  replace halloc := (forall_mem_cons.mp halloc).2
  clear hnodup
  -- the induction starts from any node in front of the rest
  suffices ∀ x, (x :: (items ++ [list])).IsChain (Linked links) →
      motive fuel (links.next x) items from this list hchain
  clear hchain
  induction items generalizing fuel with
  | nil =>
    intro x hchain
    obtain ⟨fuel, rfl⟩ : ∃ f, fuel = f + 1 := ⟨fuel - 1, by omega⟩
    rw [(isChain_pair.mp hchain).1]
    exact nil fuel
  | cons y rest ih =>
    intro x hchain
    obtain ⟨fuel, rfl⟩ : ∃ f, fuel = f + 1 := ⟨fuel - 1, by omega⟩
    rw [cons_append, isChain_cons_cons] at hchain
    rw [mem_cons, not_or] at hlist
    obtain ⟨hy, hrest⟩ := forall_mem_cons.mp halloc
    rw [hchain.1.1]
    exact cons fuel y rest (Ne.symm hlist.1) (deref_some hy)
      (ih (Nat.lt_of_succ_lt_succ hfuel) hlist.2 hrest y hchain.2)

/-- A loop over a list runs its body on the items, in order. -/
theorem IsList.loop {σ : Type u} (h : IsList links list items) (hfuel : items.length < fuel)
    (body : ν → σ → Option (σ × Bool)) (state : σ) :
    loop links list body fuel state = visit body items state := by
  unfold CircularList.loop
  rw [deref_some (h.allocated list (by simp))]
  revert state
  refine h.loop_induction hfuel
    (motive := fun fuel pointer items => ∀ state, loopFrom links list body fuel pointer state =
      visit body items state) (fun fuel state => ?_) fun fuel y rest hne hy hrest state => ?_
  · rw [loopFrom, if_pos rfl]
    rfl
  rw [loopFrom, if_neg (by simpa using hne), hy]
  show (body y state).bind _ = (body y state).bind _
  refine Option.bind_congr fun ⟨after, stay⟩ _ => ?_
  show (if stay then loopFrom links list body fuel (links.next y) after else _) = _
  rw [hrest]

/-- A loop over a list visits its items in order. -/
theorem IsList.walk (h : IsList links list items) (hfuel : items.length < fuel) :
    walk links list fuel = some items := by
  unfold CircularList.walk
  rw [deref_some (h.allocated list (by simp))]
  refine h.loop_induction hfuel
    (motive := fun fuel pointer items => walkFrom links list fuel pointer = some items)
    (fun fuel => ?_) fun fuel y rest hne hy hrest => ?_
  · rw [walkFrom, if_pos rfl]
  · rw [walkFrom, if_neg (by simpa using hne), hy]
    simp [hrest]

end CircularList
