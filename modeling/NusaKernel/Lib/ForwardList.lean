import Mathlib.Data.List.Basic

/-!
# Singly linked lists

A function gives the link of every node, which is empty at the end of a list. `Linked` says that a
list of nodes is what a link leads to. Only the links of the nodes themselves matter, so a list
stays linked when other nodes are changed, and a walk that is long enough finds it.
-/

namespace ForwardList

universe u

variable {α : Type u} {next next' : α → Option α} {start : Option α} {nodes front back : List α}

/-- The nodes that a link leads to, in order. -/
def Linked (next : α → Option α) : Option α → List α → Prop
  | start, [] => start = none
  | start, a :: rest => start = some a ∧ Linked next (next a) rest

/-- The nodes that are found from a link on, at most `fuel` of them. -/
def walk (next : α → Option α) : ℕ → Option α → List α
  | 0, _ => []
  | _ + 1, none => []
  | fuel + 1, some a => a :: walk next fuel (next a)

theorem Linked.congr (h : Linked next start nodes) (hagree : ∀ a ∈ nodes, next' a = next a) :
    Linked next' start nodes := by
  induction nodes generalizing start with
  | nil => exact h
  | cons a rest ih =>
    obtain ⟨hstart, hrest⟩ := h
    refine ⟨hstart, ?_⟩
    rw [hagree a List.mem_cons_self]
    exact ih hrest fun b hb => hagree b (List.mem_cons_of_mem _ hb)

/-- The link to a list is its first node. -/
theorem Linked.start_eq (h : Linked next start nodes) : start = nodes.head? := by
  cases nodes with
  | nil => exact h
  | cons a rest => exact h.1

/-- The link of a node in a list. -/
theorem Linked.next_eq {x : α} (h : Linked next start (front ++ x :: back)) :
    next x = back.head? := by
  induction front generalizing start with
  | nil => exact h.2.start_eq
  | cons a front ih => exact ih h.2

/-- A node is put behind another one. -/
theorem Linked.insert {x a : α} (h : Linked next start (front ++ x :: back))
    (hx : next' x = some a) (ha : next' a = back.head?) (hfront : ∀ b ∈ front, next' b = next b)
    (hback : ∀ b ∈ back, next' b = next b) : Linked next' start (front ++ x :: a :: back) := by
  induction front generalizing start with
  | nil =>
    obtain ⟨hstart, hrest⟩ := h
    refine ⟨hstart, hx, ?_⟩
    rw [ha, ← hrest.start_eq]
    exact hrest.congr hback
  | cons b front ih =>
    obtain ⟨hstart, hrest⟩ := h
    refine ⟨hstart, ?_⟩
    rw [hfront b List.mem_cons_self]
    exact ih hrest fun c hc => hfront c (List.mem_cons_of_mem _ hc)

theorem Linked.walk_eq (h : Linked next start nodes) {fuel : ℕ} (hfuel : nodes.length ≤ fuel) :
    walk next fuel start = nodes := by
  induction nodes generalizing start fuel with
  | nil =>
    rw [show start = none from h]
    cases fuel <;> rfl
  | cons a rest ih =>
    obtain ⟨hstart, hrest⟩ := h
    cases fuel with
    | zero => cases hfuel
    | succ fuel => rw [hstart, walk, ih hrest (Nat.le_of_succ_le_succ hfuel)]

end ForwardList
