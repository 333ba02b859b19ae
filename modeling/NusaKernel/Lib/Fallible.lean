import Mathlib.Logic.Basic

/-!
# Stateful computations that may fail

A computation of `ExceptT ε (StateM σ)` passes a state along and may stop with an error. What is
known of the state is its `view`. `Yields` says that from every state with a given view the
computation does not fail, which value it returns, and which view the state has then.
-/

namespace Fallible

universe u v

variable {ε σ α β : Type u} {τ : Type v}

/-- From a state that looks like `before` the computation returns `value`, in a state that looks
like `after`. -/
def Yields (view : σ → τ) (before : τ) (x : ExceptT ε (StateM σ) α) (value : α) (after : τ) :
    Prop :=
  ∀ s, view s = before → ∃ s', x.run.run s = (.ok value, s') ∧ view s' = after

variable {view : σ → τ} {before middle after : τ} {x : ExceptT ε (StateM σ) α} {a : α} {b : β}

theorem Yields.pure : Yields view before (pure a : ExceptT ε (StateM σ) α) a before :=
  fun s hs => ⟨s, rfl, hs⟩

/-- One computation after another. -/
theorem Yields.bind {f : α → ExceptT ε (StateM σ) β} (hx : Yields view before x a middle)
    (hf : Yields view middle (f a) b after) : Yields view before (x >>= f) b after := by
  intro s hs
  obtain ⟨s', hrun, hs'⟩ := hx s hs
  obtain ⟨s'', hrun', hs''⟩ := hf s' hs'
  refine ⟨s'', ?_, hs''⟩
  rw [ExceptT.run_bind, StateT.run_bind, hrun]
  exact hrun'

end Fallible
