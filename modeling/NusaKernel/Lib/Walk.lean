import Mathlib.Data.List.Basic

/-!
# Walks over a list that change its elements

A loop over a linked list whose body may change the element it is at and a state, and may end the
loop. The rules say what a walk preserves, from what one turn preserves of the whole list, and what
a walk does that passes over elements without a change until it stops.
-/

namespace Walk

open List

universe u v

variable {α : Type u} {σ : Type v}

/-- Take the elements in turn. A turn gives the new element and state, and whether it is the
last. -/
def walk (turn : α → σ → α × σ × Bool) : List α → σ → List α × σ
  | [], state => ([], state)
  | a :: rest, state =>
    match turn a state with
    | (a', state', true) => (a' :: rest, state')
    | (a', state', false) =>
      let (rest', state'') := walk turn rest state'
      (a' :: rest', state'')

variable {turn : α → σ → α × σ × Bool} {P : List α → σ → Prop} {a' a : α} {before after : List α}
  {R : α → α → Prop}

/-- What each turn that is not the last preserves of the list and the state holds after a walk, or
what the last turn makes of it. -/
theorem walk_cases (turn : α → σ → α × σ × Bool) {Q : List α → σ → Prop}
    (hturn : ∀ before a after state a' state' stop, P (before ++ a :: after) state →
      turn a state = (a', state', stop) →
      if stop then Q (before ++ a' :: after) state' else P (before ++ a' :: after) state')
    (before l : List α) (state : σ) (h : P (before ++ l) state) :
    P (before ++ (walk turn l state).1) (walk turn l state).2 ∨
      Q (before ++ (walk turn l state).1) (walk turn l state).2 := by
  -- the elements that had their turn stand in front of the rest
  induction l generalizing before state with
  | nil => exact .inl h
  | cons a rest ih =>
    unfold walk
    rcases hcase : turn a state with ⟨a', state', stop⟩
    have hnext := hturn before a rest state a' state' stop h hcase
    cases stop with
    | true => exact .inr hnext
    | false =>
      have hrest : P ((before ++ [a']) ++ rest) state' := by
        rw [append_assoc, singleton_append]
        exact hnext
      have hwalk := ih (before ++ [a']) state' hrest
      rwa [append_assoc, singleton_append] at hwalk

/-- What each turn preserves of the list and the state, the walk preserves. -/
theorem walk_induction
    (hturn : ∀ before a after state, P (before ++ a :: after) state →
      P (before ++ (turn a state).1 :: after) (turn a state).2.1) (before l : List α) (state : σ)
    (h : P (before ++ l) state) : P (before ++ (walk turn l state).1) (walk turn l state).2 := by
  refine (walk_cases turn (Q := P) ?_ before l state h).elim id id
  intro before a after state a' state' stop hP hcase
  have hnext := hturn before a after state hP
  rw [hcase] at hnext
  cases stop with
  | true => exact hnext
  | false => exact hnext

/-- A walk that passes over some elements and stops at the next one. -/
theorem walk_of_skip {state state' : σ} (after : List α)
    (hskip : ∀ b ∈ before, turn b state = (b, state, false))
    (hstop : turn a state = (a', state', true)) :
    walk turn (before ++ a :: after) state = (before ++ a' :: after, state') := by
  induction before with
  | nil => simp only [nil_append, walk, hstop]
  | cons b before ih =>
    have hb := hskip b mem_cons_self
    have hrest := ih (forall_mem_cons.mp hskip).2
    simp only [cons_append, walk, hb, hrest]

section Middle

variable {after : List α} {a b : α} {Q : α → Prop}

/-- The elements are one in the middle and the others. -/
theorem mem_middle : b ∈ before ++ a :: after ↔ b = a ∨ b ∈ before ∨ b ∈ after := by
  rw [mem_append, mem_cons]
  exact or_left_comm

theorem forall_middle : (∀ b ∈ before ++ a :: after, Q b) ↔
    Q a ∧ ∀ b, b ∈ before ∨ b ∈ after → Q b := by
  simp only [mem_middle, forall_eq_or_imp]

theorem exists_middle : (∃ b ∈ before ++ a :: after, Q b) ↔
    Q a ∨ ∃ b, (b ∈ before ∨ b ∈ after) ∧ Q b := by
  simp only [mem_middle, or_and_right, exists_or, exists_eq_left]

end Middle

/-- An element can be replaced by one that is related to the others. -/
theorem pairwise_exchange (hbefore : ∀ b ∈ before, R b a')
    (hafter : ∀ b ∈ after, R a' b) (h : (before ++ a :: after).Pairwise R) :
    (before ++ a' :: after).Pairwise R := by
  rw [pairwise_append, pairwise_cons] at h ⊢
  obtain ⟨hleft, ⟨_, hright⟩, hcross⟩ := h
  exact ⟨hleft, ⟨hafter, hright⟩, fun b hb =>
    forall_mem_cons.mpr ⟨hbefore b hb, (forall_mem_cons.mp (hcross b hb)).2⟩⟩

/-- An element can be replaced by one that has its relations to the others. -/
theorem pairwise_replace (hleft : ∀ b, R b a → R b a')
    (hright : ∀ b, R a b → R a' b) (h : (before ++ a :: after).Pairwise R) :
    (before ++ a' :: after).Pairwise R := by
  obtain ⟨_, hcons, hcross⟩ := pairwise_append.mp h
  exact pairwise_exchange (fun b hb => hleft b (hcross b hb a mem_cons_self))
    (fun b hb => hright b ((pairwise_cons.mp hcons).1 b hb)) h

end Walk
