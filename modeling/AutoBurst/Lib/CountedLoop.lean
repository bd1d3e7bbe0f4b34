/-
Counted loops over positions `start, start + 1, ...` below a fixed length,
and the invariant rule for them.
-/

import Mathlib.Data.List.FinRange

namespace AutoBurst.CountedLoop

variable {n : Nat} {σ : Type*}

/-- Run `body` at every position from `start` on, in increasing order. -/
def loopFrom (body : σ → Fin n → σ) (start : Nat) (state : σ) : σ :=
  ((List.finRange n).drop start).foldl body state

theorem loopFrom_done (body : σ → Fin n → σ) {start : Nat} (state : σ)
    (done : n ≤ start) : loopFrom body start state = state := by
  unfold loopFrom
  rw [List.drop_eq_nil_of_le (by rw [List.length_finRange]; exact done)]
  rfl

theorem loopFrom_step (body : σ → Fin n → σ) {start : Nat} (state : σ)
    (within : start < n) :
    loopFrom body start state = loopFrom body (start + 1) (body state ⟨start, within⟩) := by
  unfold loopFrom
  rw [List.drop_eq_getElem_cons (by rw [List.length_finRange]; exact within),
    List.foldl_cons, List.getElem_finRange]
  rfl

/-- A property of the position and the state that every iteration carries on
to the next position holds at the end. -/
theorem loopFrom_invariant (body : σ → Fin n → σ) (invariant : Nat → σ → Prop)
    (carried : ∀ (i : Fin n) (state : σ), invariant i state →
      invariant (i + 1) (body state i))
    {start : Nat} (state : σ) (bounded : start ≤ n) (entry : invariant start state) :
    invariant n (loopFrom body start state) := by
  induction remainingEq : n - start generalizing start state with
  | zero =>
      have finished : start = n := by omega
      rw [loopFrom_done body state (Nat.le_of_eq finished.symm), ← finished]
      exact entry
  | succ remaining ih =>
      have within : start < n := by omega
      rw [loopFrom_step body state within]
      exact ih (body state ⟨start, within⟩) within (carried ⟨start, within⟩ state entry)
        (by omega)

end AutoBurst.CountedLoop
