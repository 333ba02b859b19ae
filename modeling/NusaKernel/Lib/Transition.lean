import Mathlib.Logic.Function.Basic

/-!
# Guarded transition systems

A system is a partial step function on states and actions, where `none` means that the action
cannot be taken. `run` executes a list of actions. `Reachable` collects the states reached by
steps that a guard admits in the state they are taken from, so that "every run" and "every run
whose steps all meet a condition" are one notion. `Reachable.invariant` is the induction rule
for both.
-/

namespace Transition

universe u v

variable {σ : Type u} {α : Type v}

/-- Take the listed actions one after the other; an action that cannot be taken stops the run. -/
def run (step : σ → α → Option σ) : σ → List α → Option σ
  | state, [] => some state
  | state, action :: rest => (step state action).bind fun next => run step next rest

theorem run_singleton (step : σ → α → Option σ) (state : σ) (action : α) :
    run step state [action] = step state action := by
  exact Option.bind_fun_some _

/-- The guard admits every action of the run in the state it is taken from. -/
def Admits (step : σ → α → Option σ) (guard : σ → α → Prop) : σ → List α → Prop
  | _, [] => True
  | state, action :: rest =>
    guard state action ∧ ∀ next ∈ step state action, Admits step guard next rest

/-- The guard is evaluated along the run. -/
instance Admits.decidable (step : σ → α → Option σ) (guard : σ → α → Prop)
    [∀ state action, Decidable (guard state action)] :
    ∀ state actions, Decidable (Admits step guard state actions)
  | _, [] => isTrue trivial
  | state, action :: rest =>
    have : ∀ next, Decidable (Admits step guard next rest) :=
      fun next => Admits.decidable step guard next rest
    inferInstanceAs (Decidable (guard state action ∧
      ∀ next ∈ step state action, Admits step guard next rest))

/-- The guard that admits everything. -/
def Always : σ → α → Prop := fun _ _ => True

/-- The states reached from an initial state by steps that the guard admits. -/
inductive Reachable (step : σ → α → Option σ) (guard : σ → α → Prop) (init : σ → Prop) :
    σ → Prop where
  | init {state} : init state → Reachable step guard init state
  | step {state next action} : Reachable step guard init state → guard state action →
      step state action = some next → Reachable step guard init next

variable {step : σ → α → Option σ} {guard : σ → α → Prop} {init : σ → Prop} {P : σ → Prop}
  {state : σ} {actions : List α} {β : Type*}

/-- A property of the initial states that every admitted step preserves holds in every reachable
state. -/
theorem Reachable.invariant (hinit : ∀ {state}, init state → P state)
    (hstep : ∀ {state action next}, P state → guard state action →
      step state action = some next → P next) (h : Reachable step guard init state) : P state := by
  induction h with
  | init hi => exact hinit hi
  | step _ hguard hnext ih => exact hstep ih hguard hnext

/-- The same for the runs from one state. -/
theorem Reachable.invariant_from {start : σ} (hinit : P start)
    (hstep : ∀ {state action next}, P state → guard state action →
      step state action = some next → P next) (h : Reachable step guard (· = start) state) :
    P state := by
  refine h.invariant ?_ hstep
  rintro _ rfl
  exact hinit

/-- Running admitted actions from a reachable state ends in a reachable state. -/
theorem Reachable.run {final : σ} (h : Reachable step guard init state)
    (hadmits : Admits step guard state actions) (hrun : run step state actions = some final) :
    Reachable step guard init final := by
  induction actions generalizing state with
  | nil =>
    cases hrun
    exact h
  | cons action rest ih =>
    obtain ⟨hguard, hrest⟩ := hadmits
    obtain ⟨next, hnext, hrun⟩ := Option.bind_eq_some_iff.mp hrun
    exact ih (.step h hguard hnext) (hrest next hnext) hrun

/-- An admitted run from a reachable state shows that what holds at its end is reachable. -/
theorem Reachable.exists_run (h : Reachable step guard init state)
    (hadmits : Admits step guard state actions)
    (hrun : ∃ final ∈ Transition.run step state actions, P final) :
    ∃ final, Reachable step guard init final ∧ P final := by
  obtain ⟨final, hfinal, hP⟩ := hrun
  exact ⟨final, h.run hadmits hfinal, hP⟩

/-- What holds at the end of an admitted run is reachable from its start. -/
theorem exists_reachable (step : σ → α → Option σ) (guard : σ → α → Prop) (start : σ)
    (actions : List α) (hadmits : Admits step guard start actions)
    (hrun : ∃ final ∈ Transition.run step start actions, P final) :
    ∃ final, Reachable step guard (· = start) final ∧ P final :=
  Reachable.exists_run (.init rfl) hadmits hrun

/-- A run of actions that the guard admits in every state. -/
theorem admits_of_forall (h : ∀ action ∈ actions, ∀ state, guard state action) (state : σ) :
    Admits step guard state actions := by
  induction actions generalizing state with
  | nil => trivial
  | cons action rest ih =>
    exact ⟨h action List.mem_cons_self state,
      fun next _ => ih (fun other hother => h other (List.mem_cons_of_mem _ hother)) next⟩

/-- Without a guard every run is admitted. -/
theorem admits_always (state : σ) (actions : List α) : Admits step Always state actions :=
  admits_of_forall (fun _ _ _ => trivial) state

/-! ## Machines with outputs -/

/-- The outputs of a machine on a list of inputs, and the state it ends in. -/
def outputs {β : Type*} (step : σ → α → β × σ) : σ → List α → List β × σ
  | state, [] => ([], state)
  | state, action :: rest =>
    let (output, next) := step state action
    let (others, final) := outputs step next rest
    (output :: others, final)

/-- Every action of the list meets the guard in the state it is taken from. -/
def Meets {β : Type*} (step : σ → α → β × σ) (guard : σ → α → Prop) : σ → List α → Prop
  | _, [] => True
  | state, action :: rest => guard state action ∧ Meets step guard (step state action).2 rest

/-- The guard is evaluated along the run. -/
instance Meets.decidable {β : Type*} (step : σ → α → β × σ) (guard : σ → α → Prop)
    [∀ state action, Decidable (guard state action)] :
    ∀ state actions, Decidable (Meets step guard state actions)
  | _, [] => isTrue trivial
  | state, action :: rest =>
    have : Decidable (Meets step guard (step state action).2 rest) :=
      Meets.decidable step guard (step state action).2 rest
    inferInstanceAs (Decidable (guard state action ∧ Meets step guard (step state action).2 rest))

/-- Two machines whose steps agree where the guard is met have the same outputs on all inputs
that meet it. -/
theorem outputs_eq_of_meets {τ : Type*} {step : σ → α → β × σ} {step' : τ → α → β × τ}
    {R : σ → τ → Prop}
    (hstep : ∀ state other action, R state other → guard state action →
      (step state action).1 = (step' other action).1 ∧
        R (step state action).2 (step' other action).2) {other : τ} (h : R state other)
    (actions : List α) (hmeets : Meets step guard state actions) :
    (outputs step state actions).1 = (outputs step' other actions).1 ∧
      R (outputs step state actions).2 (outputs step' other actions).2 := by
  induction actions generalizing state other with
  | nil => exact ⟨rfl, h⟩
  | cons action rest ih =>
    obtain ⟨hguard, hrest⟩ := hmeets
    obtain ⟨houtput, hnext⟩ := hstep state other action h hguard
    obtain ⟨hothers, hfinal⟩ := ih hnext hrest
    refine ⟨?_, hfinal⟩
    show (step state action).1 :: _ = (step' other action).1 :: _
    rw [houtput, hothers]

theorem meets_always {step : σ → α → β × σ} (state : σ) (actions : List α) :
    Meets step Always state actions := by
  induction actions generalizing state with
  | nil => trivial
  | cons action rest ih => exact ⟨trivial, ih _⟩

end Transition
