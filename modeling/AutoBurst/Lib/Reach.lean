/-
Deterministic step functions driven by a list of actions. The states reached
by runs whose every action meets a side condition, and the invariant rule.
-/

import Mathlib.Data.Option.Basic

namespace AutoBurst.Runs

variable {σ α : Type*}

/-- Perform the actions in order; `none` as soon as one of them is impossible. -/
def run (step : σ → α → Option σ) : σ → List α → Option σ
  | state, [] => some state
  | state, action :: rest => (step state action).bind fun next => run step next rest

/-- A property of the first state that every action of the list keeps holds at
the end. -/
theorem run_invariant {step : σ → α → Option σ} {start state : σ} {actions : List α}
    (ran : run step start actions = some state) (holds : σ → Prop) (initial : holds start)
    (kept : ∀ before after, ∀ action ∈ actions,
      step before action = some after → holds before → holds after) : holds state := by
  induction actions generalizing start with
  | nil =>
      cases ran
      exact initial
  | cons action rest ih =>
      obtain ⟨middle, taken, later⟩ := Option.bind_eq_some_iff.mp ran
      refine ih later (kept start middle action List.mem_cons_self taken initial) ?_
      intro before after other member
      exact kept before after other (List.mem_cons_of_mem _ member)

/-- The states reached from `start` by actions that meet `allowed` in the state
they are taken in. -/
inductive Reach (step : σ → α → Option σ) (allowed : σ → α → Prop) (start : σ) : σ → Prop
  | start : Reach step allowed start start
  | next {state after : σ} (action : α) : Reach step allowed start state →
      allowed state action → step state action = some after →
      Reach step allowed start after

/-- A property of the first state that every allowed step keeps holds in every
state reached. -/
theorem Reach.invariant {step : σ → α → Option σ} {allowed : σ → α → Prop}
    {start state : σ} (reach : Reach step allowed start state)
    (holds : σ → Prop) (initial : holds start)
    (kept : ∀ before action after, step before action = some after →
      allowed before action → holds before → holds after) :
    holds state := by
  induction reach with
  | start => exact initial
  | next action _reach permitted taken ih => exact kept _ action _ taken permitted ih

theorem Reach.trans {step : σ → α → Option σ} {allowed : σ → α → Prop}
    {start middle state : σ} (first : Reach step allowed start middle)
    (second : Reach step allowed middle state) : Reach step allowed start state := by
  induction second with
  | start => exact first
  | next action _reach permitted taken ih => exact .next action ih permitted taken

theorem Reach.mono {step : σ → α → Option σ} {allowed wider : σ → α → Prop} {start state : σ}
    (reach : Reach step allowed start state)
    (le : ∀ state action, allowed state action → wider state action) :
    Reach step wider start state := by
  induction reach with
  | start => exact .start
  | next action _reach permitted taken ih => exact ih.next action (le _ _ permitted) taken

def guarded (step : σ → α → Option σ) (allowed : σ → α → Prop)
    [∀ state action, Decidable (allowed state action)] (state : σ) (action : α) : Option σ :=
  if allowed state action then step state action else none

theorem guarded_eq_some {step : σ → α → Option σ} {allowed : σ → α → Prop}
    [∀ state action, Decidable (allowed state action)] {state after : σ} {action : α} :
    guarded step allowed state action = some after ↔
      allowed state action ∧ step state action = some after := by
  unfold guarded
  split
  · rename_i permitted
    exact ⟨fun taken => ⟨permitted, taken⟩, fun both => both.2⟩
  · rename_i forbidden
    exact ⟨nofun, fun both => absurd both.1 forbidden⟩

/-- A successful run of guarded steps reaches its last state, if the guard makes
the actions of the run allowed. -/
theorem reach_of_guarded_actions {step : σ → α → Option σ} {guard allowed : σ → α → Prop}
    [∀ state action, Decidable (guard state action)] {start state : σ} {actions : List α}
    (ran : run (guarded step guard) start actions = some state)
    (permits : ∀ action ∈ actions, ∀ state, guard state action → allowed state action) :
    Reach step allowed start state := by
  induction actions generalizing start with
  | nil =>
      cases ran
      exact .start
  | cons action rest ih =>
      obtain ⟨middle, taken, later⟩ := Option.bind_eq_some_iff.mp ran
      obtain ⟨here, laterPermits⟩ := List.forall_mem_cons.mp permits
      obtain ⟨permitted, stepped⟩ := guarded_eq_some.mp taken
      exact (Reach.next action .start (here start permitted) stepped).trans (ih later laterPermits)

theorem reach_of_guarded_run {step : σ → α → Option σ} {allowed : σ → α → Prop}
    [∀ state action, Decidable (allowed state action)] {start state : σ} {actions : List α}
    (ran : run (guarded step allowed) start actions = some state) :
    Reach step allowed start state :=
  reach_of_guarded_actions ran fun _action _member _state permitted => permitted

/-! ### Monitors -/

section Monitors

variable {μ : Type*} {step : σ → α → Option σ} {observe : σ → α → σ → μ → μ}

/-- A monitor follows the steps with a memory of its own and never blocks one. -/
def monitored (step : σ → α → Option σ) (observe : σ → α → σ → μ → μ) (state : σ × μ)
    (action : α) : Option (σ × μ) :=
  (step state.1 action).map fun after => (after, observe state.1 action after state.2)

theorem monitored_eq_some {state after : σ × μ} {action : α} :
    monitored step observe state action = some after ↔
      step state.1 action = some after.1 ∧ after.2 = observe state.1 action after.1 state.2 := by
  unfold monitored
  constructor
  · intro taken
    obtain ⟨next, stepped, rfl⟩ := Option.map_eq_some_iff.mp taken
    exact ⟨stepped, rfl⟩
  · intro both
    rw [both.1, Option.map_some, ← both.2]

theorem Reach.unmonitored {allowed : σ × μ → α → Prop} {start state : σ × μ}
    (reach : Reach (monitored step observe) allowed start state) :
    Reach step (fun _ _ => True) start.1 state.1 := by
  induction reach with
  | start => exact .start
  | next action _reach _permitted taken ih =>
      exact ih.next action trivial (monitored_eq_some.mp taken).1

/-- A monitor can be put beside any run. -/
theorem Reach.monitor {allowed : σ → α → Prop} {start state : σ}
    (reach : Reach step allowed start state) (observe : σ → α → σ → μ → μ) (memory : μ) :
    ∃ last, Reach (monitored step observe) (fun tracked => allowed tracked.1) (start, memory)
      (state, last) := by
  induction reach with
  | start => exact ⟨memory, .start⟩
  | @next before after action _reach permitted taken ih =>
      obtain ⟨last, reached⟩ := ih
      exact ⟨observe before action after last,
        reached.next action permitted (monitored_eq_some.mpr ⟨taken, rfl⟩)⟩

end Monitors

end AutoBurst.Runs
