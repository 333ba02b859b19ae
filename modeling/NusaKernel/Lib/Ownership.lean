import Mathlib.Algebra.BigOperators.Group.Multiset.Basic
import Mathlib.Algebra.Order.Ring.Nat
import Mathlib.Data.Multiset.AddSub
import NusaKernel.Lib.Transition

/-!
# Programs that own items of a pool

A program takes items from a shared pool, gives them back, and hands them over to a receiver.
`Prog.Owns held prog post` says that the program, which holds `held`, never disposes of an item that
it does not hold, does nothing undefined, and ends with a result and the items it then holds in
`post`. It is computed from the shape of the program, and it composes along `bind`.

Many programs run in any interleaving with each other and with the receiver (`System.step`). If each
of them owns nothing at its start and at its end, then no item is ever lost or in two places
(`System.Sound.conserved`), and a program that has ended has disposed of every item it took as often
as it took it (`System.Sound.settled`).
-/

namespace Ownership

open List

variable {ι α β κ : Type}

/-- A program over items of a pool. `take` gets no item if the pool has none although it was
promised one. What a program does after a `fault` is undefined. -/
inductive Prog (ι α : Type) where
  | done (result : α)
  | panic
  | fault
  | take (next : Option ι → Prog ι α)
  | give (item : ι) (next : Prog ι α)
  | hand (items : List ι) (next : Prog ι α)

namespace Prog

/-- The result of a program that is done. -/
def result : Prog ι α → Option α
  | done result => some result
  | _ => none

def bind : Prog ι α → (α → Prog ι β) → Prog ι β
  | done result, f => f result
  | panic, _ => panic
  | fault, _ => fault
  | take next, f => take fun item => (next item).bind f
  | give item next, f => give item (next.bind f)
  | hand items next, f => hand items (next.bind f)

/-- Programs go on with other programs. -/
instance : Monad (Prog ι) where
  pure := done
  bind := bind

/-- The program disposes of held items only, and ends with what `post` says. -/
def Owns (held : Multiset ι) : Prog ι α → (α → Multiset ι → Prop) → Prop
  | done result, post => post result held
  | panic, _ => True
  | fault, _ => False
  | take next, post => (∀ item, (next (some item)).Owns (item ::ₘ held) post) ∧
      (next none).Owns held post
  | give item next, post => ∃ rest, held = item ::ₘ rest ∧ next.Owns rest post
  | hand items next, post => ∃ rest, held = ↑items + rest ∧ next.Owns rest post

/-- A program followed by another one. -/
theorem Owns.bind {held : Multiset ι} {prog : Prog ι α} {f : α → Prog ι β}
    {post : α → Multiset ι → Prop} {post' : β → Multiset ι → Prop} (h : prog.Owns held post)
    (hf : ∀ result rest, post result rest → (f result).Owns rest post') :
    Owns held (prog >>= f) post' := by
  induction prog generalizing held with
  | done result => exact hf _ _ h
  | panic => trivial
  | fault => exact h.elim
  | take next ih => exact ⟨fun item => ih _ (h.1 item), ih _ h.2⟩
  | give item next ih | hand items next ih =>
    obtain ⟨rest, hheld, hnext⟩ := h
    exact ⟨rest, hheld, ih hnext⟩

end Prog

/-! ## Many programs -/

/-- A program that was started, the items it holds, those it took, and those it gave back or handed
over, each as often as it did. -/
structure Call (ι α : Type) where
  prog : Prog ι α
  held : Multiset ι
  taken : Multiset ι
  disposed : Multiset ι

/-- The pool is a stack with a count of the items in it; the receiver has what was handed over. -/
structure System (ι α : Type) where
  pool : List ι
  count : ℕ
  received : Multiset ι
  calls : List (Call ι α)

/-- A program is started or runs on, or the receiver gives an item back or takes one. -/
inductive Action (ι κ : Type) where
  | start (request : κ)
  | run (i : ℕ)
  | release (item : ι)
  | acquire

variable [DecidableEq ι] {i : ℕ}

/-- One operation of a program. Taking an item waits until the count is positive. A panic stops the
system, nothing is known after a fault, and a program that is done has no step. -/
def System.runCall (s : System ι α) (i : ℕ) : Option (System ι α) :=
  match s.calls[i]? with
  | none => none
  | some call =>
    match call.prog with
    | .done _ => none
    | .panic | .fault => none
    | .take next =>
      if s.count = 0 then none
      else
        match s.pool with
        | [] => some { s with
            count := s.count - 1
            calls := s.calls.set i { call with prog := next none } }
        | item :: pool => some { s with
            count := s.count - 1
            pool := pool
            calls := s.calls.set i
              ⟨next (some item), item ::ₘ call.held, item ::ₘ call.taken, call.disposed⟩ }
    | .give item next => some { s with
        count := s.count + 1
        pool := item :: s.pool
        calls := s.calls.set i
          ⟨next, call.held.erase item, call.taken, item ::ₘ call.disposed⟩ }
    | .hand items next => some { s with
        received := ↑items + s.received
        calls := s.calls.set i
          ⟨next, call.held - ↑items, call.taken, ↑items + call.disposed⟩ }

def System.step (program : κ → Prog ι α) (s : System ι α) : Action ι κ → Option (System ι α)
  | .start request => some { s with calls := s.calls ++ [⟨program request, 0, 0, 0⟩] }
  | .run i => s.runCall i
  | .release item =>
    if item ∈ s.received then
      some { s with
        received := s.received.erase item
        count := s.count + 1
        pool := item :: s.pool }
    else none
  | .acquire =>
    if s.count = 0 then none
    else
      match s.pool with
      | [] => none
      | item :: pool =>
        some { s with count := s.count - 1, pool := pool, received := item ::ₘ s.received }

/-- All items: in the pool, with the receiver, with programs. -/
def System.total (s : System ι α) : Multiset ι := ↑s.pool + s.received + (s.calls.map Call.held).sum

/-- A program owns what it holds and will end without items, and it holds what it took and has not
disposed of. -/
structure Call.Sound (call : Call ι α) : Prop where
  owns : call.prog.Owns call.held fun _ rest => rest = 0
  ledger : call.taken = call.held + call.disposed

structure System.Sound (all : Multiset ι) (s : System ι α) : Prop where
  total : s.total = all
  count : s.count = s.pool.length
  calls : ∀ call ∈ s.calls, call.Sound

omit [DecidableEq ι] in
/-- The items of the programs when one of them changes. -/
theorem sum_held_set {calls : List (Call ι α)} {call : Call ι α}
    (h : calls[i]? = some call) (call' : Call ι α) :
    ((calls.set i call').map Call.held).sum + call.held =
      (calls.map Call.held).sum + call'.held := by
  induction calls generalizing i with
  | nil => cases h
  | cons first rest ih =>
    cases i with
    | zero =>
      cases h
      simp only [set_cons_zero, map_cons, sum_cons]
      rw [add_comm, ← add_assoc, add_right_comm]
    | succ i =>
      simp only [set_cons_succ, map_cons, sum_cons, add_assoc]
      rw [ih h]

namespace System.Sound

variable {all : Multiset ι} {s s' : System ι α} {program : κ → Prog ι α} {call : Call ι α}

section

variable (h : s.Sound all)
include h

omit [DecidableEq ι] in
/-- A program changes, and items move between it, the pool and the receiver. -/
theorem update {call' : Call ι α} (hcall : s.calls[i]? = some call)
    {pool : List ι} {received : Multiset ι}
    (hitems : ↑pool + received + call'.held = ↑s.pool + s.received + call.held)
    (hsound : call'.Sound) :
    System.Sound all ⟨pool, pool.length, received, s.calls.set i call'⟩ := by
  refine ⟨?_, rfl, fun other hother => ?_⟩
  · have hsum := sum_held_set hcall call'
    have htotal := h.total
    refine add_right_cancel (b := call.held) ?_
    calc ↑pool + received + ((s.calls.set i call').map Call.held).sum + call.held
        = ↑pool + received + call'.held + (s.calls.map Call.held).sum := by
          rw [add_assoc, hsum, ← add_assoc, add_right_comm]
      _ = ↑s.pool + s.received + (s.calls.map Call.held).sum + call.held := by
          rw [hitems, add_right_comm]
      _ = all + call.held := by
          rw [← htotal]
          rfl
  · rcases mem_or_eq_of_mem_set hother with hold | rfl
    · exact h.calls other hold
    · exact hsound

/-- One operation of a program. -/
theorem run_call (hrun : s.runCall i = some s') : s'.Sound all := by
  unfold System.runCall at hrun
  split at hrun
  · cases hrun
  next call hcall =>
  obtain ⟨howns, hledger⟩ := h.calls call (mem_of_getElem? hcall)
  have hcount := h.count
  split at hrun
  · cases hrun
  · cases hrun
  · cases hrun
  · next next hprog =>
    rw [hprog] at howns
    split at hrun
    · cases hrun
    split at hrun
    · next hpool =>
      -- the count promised an item
      rw [hpool] at hcount
      contradiction
    next item pool hpool =>
    cases hrun
    rw [hpool] at hcount
    rw [hcount]
    refine h.update hcall ?_ ⟨howns.1 item, ?_⟩
    · rw [hpool, ← Multiset.cons_coe]
      simp only [Multiset.cons_add, Multiset.add_cons]
    · rw [hledger, Multiset.cons_add]
  · next item next hprog =>
    rw [hprog] at howns
    obtain ⟨rest, hheld, hnext⟩ := howns
    cases hrun
    rw [hcount, hheld, Multiset.erase_cons_head]
    refine h.update hcall ?_ ⟨hnext, ?_⟩
    · rw [hheld, ← Multiset.cons_coe]
      simp only [Multiset.cons_add, Multiset.add_cons]
    · rw [hledger, hheld, Multiset.cons_add, Multiset.add_cons]
  · next items next hprog =>
    rw [hprog] at howns
    obtain ⟨rest, hheld, hnext⟩ := howns
    cases hrun
    rw [hcount, hheld, add_tsub_cancel_left]
    refine h.update hcall ?_ ⟨hnext, ?_⟩
    · rw [hheld, add_comm (items : Multiset ι) s.received, ← add_assoc, add_assoc _ _ rest]
    · rw [hledger, hheld, add_assoc, add_left_comm]

/-- An action keeps the account, if programs are started that own nothing at their end. -/
theorem step {action : Action ι κ}
    (hstart : ∀ request, action = .start request → (program request).Owns 0 fun _ rest => rest = 0)
    (hstep : s.step program action = some s') : s'.Sound all := by
  cases action with
  | start request =>
    cases hstep
    refine ⟨?_, h.count, forall_mem_append.mpr
      ⟨h.calls, forall_mem_singleton.mpr ⟨hstart request rfl, rfl⟩⟩⟩
    rw [← h.total]
    show ↑s.pool + s.received + ((s.calls ++ [_]).map Call.held).sum = _
    rw [map_append, sum_append]
    exact congrArg _ (add_zero _)
  | run i => exact h.run_call hstep
  | release item =>
    obtain ⟨hmem, ⟨⟩⟩ := Option.ite_none_right_eq_some.mp hstep
    obtain ⟨rest, hrest⟩ := Multiset.exists_cons_of_mem hmem
    refine ⟨?_, congrArg (· + 1) h.count, h.calls⟩
    rw [← h.total]
    show ↑(item :: s.pool) + s.received.erase item + _ = ↑s.pool + s.received + _
    rw [hrest, Multiset.erase_cons_head, ← Multiset.cons_coe, Multiset.cons_add,
      Multiset.add_cons]
  | acquire =>
    obtain ⟨_, hstep⟩ := Option.ite_none_left_eq_some.mp hstep
    split at hstep
    · cases hstep
    next item pool hpool =>
    cases hstep
    have hcount := h.count
    rw [hpool, length_cons] at hcount
    refine ⟨?_, Nat.sub_eq_of_eq_add hcount, h.calls⟩
    rw [← h.total]
    show ↑pool + item ::ₘ s.received + _ = ↑s.pool + s.received + _
    rw [hpool, ← Multiset.cons_coe, Multiset.cons_add, Multiset.add_cons]

omit [DecidableEq ι] in
/-- The numbers of items in the pool, with the receiver and with programs add up. -/
theorem conserved :
    s.pool.length + Multiset.card s.received +
      (s.calls.map fun call => Multiset.card call.held).sum =
      Multiset.card all := by
  rw [← h.total, System.total, Multiset.card_add, Multiset.card_add, Multiset.coe_card]
  refine congrArg _ ?_
  induction s.calls with
  | nil => rfl
  | cons call rest ih => rw [map_cons, sum_cons, ih, map_cons, sum_cons, Multiset.card_add]

omit [DecidableEq ι] in
/-- A program that is done holds nothing, and has disposed of what it took. -/
theorem settled (hcall : call ∈ s.calls) {result : α}
    (hdone : call.prog = .done result) : call.held = 0 ∧ call.taken = call.disposed := by
  obtain ⟨howns, hledger⟩ := h.calls call hcall
  rw [hdone] at howns
  have hheld : call.held = 0 := howns
  rw [hheld, zero_add] at hledger
  exact ⟨hheld, hledger⟩

omit [DecidableEq ι] in
/-- No program comes to what is undefined. -/
theorem not_fault (hcall : call ∈ s.calls) : call.prog ≠ .fault := by
  intro hfault
  have howns := (h.calls call hcall).owns
  rwa [hfault] at howns

end

end System.Sound

end Ownership
