/-
Terminating runs of a `while` loop, as a relation between the state before the
loop and the state after it, and the invariant rule.
-/

import Mathlib.Tactic.TypeStar

namespace AutoBurst.WhileLoop

variable {σ : Type*}

/-- `while guard: body` started in one state ends in the other. -/
inductive Loops (guard : σ → Prop) (body : σ → σ) : σ → σ → Prop
  | done {state : σ} : ¬guard state → Loops guard body state state
  | turn {state last : σ} : guard state → Loops guard body (body state) last →
      Loops guard body state last

variable {guard : σ → Prop} {body : σ → σ} {state last : σ}

theorem Loops.exit (loops : Loops guard body state last) : ¬guard last := by
  induction loops with
  | done stops => exact stops
  | turn _goes _rest ih => exact ih

theorem Loops.invariant (loops : Loops guard body state last) (holds : σ → Prop)
    (entry : holds state) (kept : ∀ state, guard state → holds state → holds (body state)) :
    holds last := by
  induction loops with
  | done _stops => exact entry
  | turn goes _rest ih => exact ih (kept _ goes entry)

end AutoBurst.WhileLoop
