/-
How many of the open connections each peer has. Loads that are proportional up
to one connection, as least_conn keeps them, leave every peer close to its share
of the weight.
-/

import AutoBurst.Nginx.Proportion
import Mathlib.Algebra.Order.BigOperators.Ring.Finset
import Mathlib.Data.Fintype.BigOperators

namespace AutoBurst.Nginx

variable {n m : Nat}

/-! ### From pairs to shares -/

section Shares

variable {peer : Fin n → RrPeer}

def weightOf (peer : Fin n → RrPeer) : Int := ∑ i, (peer i).weight

def connsOf (peer : Fin n → RrPeer) : Int := ∑ i, ((peer i).conns : Int)

/-- The comparisons of one peer with all others, added up. -/
theorem Proportional.share_le (proportional : Proportional peer) (i : Fin n) :
    (((peer i).conns : Int) - 1) * weightOf peer < (connsOf peer + n) * (peer i).weight := by
  have below : ∑ j, (((peer i).conns : Int) - 1) * (peer j).weight <
      ∑ j, (((peer j).conns : Int) + 1) * (peer i).weight :=
    Finset.sum_lt_sum_of_nonempty ⟨i, Finset.mem_univ i⟩ fun j _listed => proportional i j
  rw [← Finset.mul_sum, ← Finset.sum_mul, Finset.sum_add_distrib, Finset.sum_const,
    Finset.card_univ, Fintype.card_fin, nsmul_eq_mul, mul_one] at below
  exact below

theorem Proportional.le_share (proportional : Proportional peer) (i : Fin n) :
    (connsOf peer - n) * (peer i).weight < (((peer i).conns : Int) + 1) * weightOf peer := by
  have above : ∑ j, (((peer j).conns : Int) - 1) * (peer i).weight <
      ∑ j, (((peer i).conns : Int) + 1) * (peer j).weight :=
    Finset.sum_lt_sum_of_nonempty ⟨i, Finset.mem_univ i⟩ fun j _listed => proportional j i
  rw [← Finset.mul_sum, ← Finset.sum_mul, Finset.sum_sub_distrib, Finset.sum_const,
    Finset.card_univ, Fintype.card_fin, nsmul_eq_mul, mul_one] at above
  exact above

end Shares

/-! ### Requests that stay open -/

structure Spread (weight : Fin n → Int) (count : Nat) (up : Upstream n m) : Prop where
  several : up.primary.single = false
  healthy : Healthy up.primary.peer
  weights : ∀ i, (up.primary.peer i).weight = weight i
  conns : connsOf up.primary.peer = count
  proportional : Proportional up.primary.peer

section Requests

variable {weight : Fin n → Int} {count : Nat} {up : Upstream n m}

theorem Spread.conns_le (spread : Spread weight count up) (i : Fin n) :
    ((up.primary.peer i).conns : Int) ≤ count := by
  rw [← spread.conns]
  exact Finset.single_le_sum (f := fun j => ((up.primary.peer j).conns : Int))
    (fun j _listed => Int.natCast_nonneg _) (Finset.mem_univ i)

theorem Spread.sized (spread : Spread weight count up) (positive : ∀ i, 1 ≤ weight i)
    (room : ∀ i, ((count : Int) + 1) * weight i < 2 ^ 64) : Sized up.primary.peer where
  positive := by
    intro i
    rw [spread.weights]
    exact positive i
  noWrap := by
    intro i j
    rw [spread.weights]
    have most := spread.conns_le i
    have heavy := positive j
    have bound := room j
    nlinarith

/-- One more request. -/
theorem Spread.routeFresh (spread : Spread weight count up) (positive : ∀ i, 1 ≤ weight i)
    (room : ∀ i, ((count : Int) + 1) * weight i < 2 ^ 64) (i : Fin n) (now : Int) :
    Spread weight (count + 1) (routeFresh up now) := by
  have sized := spread.sized positive room
  obtain ⟨s, connects, several, least⟩ :=
    routeFresh_connects spread.several spread.healthy sized i now
  refine ⟨several, connects.healthy spread.healthy, ?_, ?_,
    connects.proportional sized spread.proportional least⟩
  · intro j
    rw [connects.weight, spread.weights]
  · have counted : ∀ j, (((Nginx.routeFresh up now).primary.peer j).conns : Int) =
        ((up.primary.peer j).conns : Int) + if j = s then 1 else 0 := by
      intro j
      rw [connects.conns]
      split
      · have few := spread.conns_le j
        have bound := room j
        have heavy := positive j
        have small : ((up.primary.peer j).conns : Int) + 1 < 2 ^ 64 :=
          calc ((up.primary.peer j).conns : Int) + 1
            _ ≤ (count : Int) + 1 := by omega
            _ ≤ ((count : Int) + 1) * weight j := le_mul_of_one_le_right (by omega) heavy
            _ < 2 ^ 64 := bound
        unfold uintWrap
        omega
      · rw [add_zero]
    unfold connsOf
    rw [Finset.sum_congr rfl fun j _listed => counted j, Finset.sum_add_distrib,
      Finset.sum_ite_eq' Finset.univ s, if_pos (Finset.mem_univ s)]
    have before := spread.conns
    unfold connsOf at before
    rw [before]
    push_cast
    rfl

theorem Spread.routeAll (spread : Spread weight count up) (positive : ∀ i, 1 ≤ weight i)
    (times : List Int) (room : ∀ i, ((count + times.length : Int) + 1) * weight i < 2 ^ 64)
    (i : Fin n) : Spread weight (count + times.length) (routeAll up times) := by
  induction times generalizing up count with
  | nil => exact spread
  | cons now rest ih =>
      have length : ((now :: rest).length : Int) = rest.length + 1 := by
        rw [List.length_cons]
        push_cast
        rfl
      have first : ∀ j, ((count : Int) + 1) * weight j < 2 ^ 64 := by
        intro j
        have bound := room j
        have heavy := positive j
        rw [length] at bound
        nlinarith [Int.natCast_nonneg rest.length]
      have later := ih (spread.routeFresh positive first i now) (by
        intro j
        have bound := room j
        rw [length] at bound
        push_cast
        linarith)
      rw [List.length_cons, ← Nat.add_assoc, Nat.add_right_comm]
      exact later

end Requests

end AutoBurst.Nginx
