/-
Smooth rounds over a finite set of counters. In one round an arbitrary set of
takers gains a share each, a taker that then leads pays the shares of all
takers back. Which counters take part may change from round to round, and so
may the shares, so no single counter is bounded by its own history alone.
The invariant bounds the sum over every subset at once.
-/

import Mathlib.Algebra.BigOperators.Ring.Finset
import Mathlib.Algebra.Order.BigOperators.Ring.Finset
import Mathlib.Data.Fintype.BigOperators
import Mathlib.Tactic.Linarith
import Mathlib.Tactic.Ring

namespace AutoBurst.SmoothRound

section Rounds

variable {ι α : Type*} [DecidableEq ι] [CommRing α] [LinearOrder α]

/-- A round names its takers and a taker that leads once the shares are added. -/
structure Round (current : ι → α) where
  takers : Finset ι
  share : ι → α
  winner : ι
  winnerTakes : winner ∈ takers
  winnerLeads : ∀ i ∈ takers, current i + share i ≤ current winner + share winner

def Round.paid {current : ι → α} (round : Round current) : α :=
  ∑ i ∈ round.takers, round.share i

def Round.next {current : ι → α} (round : Round current) (i : ι) : α :=
  current i + (if i ∈ round.takers then round.share i else 0) -
    (if i = round.winner then round.paid else 0)

theorem Round.sum_next {current : ι → α} (round : Round current) (S : Finset ι) :
    ∑ i ∈ S, round.next i =
      ∑ i ∈ S, current i + ∑ i ∈ S ∩ round.takers, round.share i -
        (if round.winner ∈ S then round.paid else 0) := by
  unfold Round.next
  rw [Finset.sum_sub_distrib, Finset.sum_add_distrib, Finset.sum_ite_mem,
    Finset.sum_ite_eq']

variable [IsStrictOrderedRing α]

/-- The winner is among the summed counters: what it pays covers every share. -/
private theorem Round.sum_next_le_of_winner {current : ι → α} (round : Round current)
    (nonneg : ∀ i ∈ round.takers, 0 ≤ round.share i) (S : Finset ι)
    (inside : round.winner ∈ S) :
    ∑ i ∈ S, round.next i ≤ ∑ i ∈ S, current i := by
  rw [round.sum_next, if_pos inside]
  have covered : ∑ i ∈ S ∩ round.takers, round.share i ≤ round.paid :=
    Finset.sum_le_sum_of_subset_of_nonneg Finset.inter_subset_right
      (fun i taker _outside => nonneg i taker)
  linarith

private theorem Round.takers_le_winner {current : ι → α} (round : Round current)
    (S : Finset ι) :
    ∑ i ∈ S ∩ round.takers, (current i + round.share i) ≤
      (S ∩ round.takers).card *
        (current round.winner + round.share round.winner) := by
  rw [← nsmul_eq_mul]
  exact Finset.sum_le_card_nsmul _ _ _
    (fun i member => round.winnerLeads i (Finset.mem_inter.mp member).2)

private theorem shares_le {bound : α} {current : ι → α} (round : Round current)
    (capped : ∀ i ∈ round.takers, round.share i ≤ bound) (S : Finset ι) :
    ∑ i ∈ S ∩ round.takers, round.share i ≤ (S ∩ round.takers).card * bound := by
  rw [← nsmul_eq_mul]
  exact Finset.sum_le_card_nsmul _ _ _
    (fun i member => capped i (Finset.mem_inter.mp member).2)

end Rounds

section Balance

variable {ι α : Type*} [Fintype ι]
variable [CommRing α] [LinearOrder α] [IsStrictOrderedRing α]

/-- The counters sum to zero, and any `k` of `n` counters sum to at most
`bound * k * (n - k)`. -/
structure Balanced (bound : α) (current : ι → α) : Prop where
  zeroSum : ∑ i, current i = 0
  subsets : ∀ S : Finset ι,
    ∑ i ∈ S, current i ≤ bound * (S.card * (Fintype.card ι - S.card))

theorem Balanced.zero {bound : α} (nonneg : 0 ≤ bound) :
    Balanced bound (fun _ : ι => (0 : α)) where
  zeroSum := Finset.sum_const_zero
  subsets := by
    intro S
    rw [Finset.sum_const_zero]
    have within : (S.card : α) ≤ Fintype.card ι := by
      exact_mod_cast Finset.card_le_univ S
    have room : (0 : α) ≤ Fintype.card ι - S.card := sub_nonneg.mpr within
    exact mul_nonneg nonneg (mul_nonneg (Nat.cast_nonneg _) room)

variable [DecidableEq ι]

/-- The winner is outside: compare the takers in `S` with the winner, and use
the old bound for `S` without its takers and for `S` with the winner. -/
private theorem Balanced.sum_next_le_of_outside {bound : α} {current : ι → α}
    (balanced : Balanced bound current) (round : Round current)
    (capped : ∀ i ∈ round.takers, round.share i ≤ bound) (S : Finset ι)
    (outside : round.winner ∉ S) :
    ∑ i ∈ S, round.next i ≤ bound * (S.card * (Fintype.card ι - S.card)) := by
  rw [round.sum_next, if_neg outside, sub_zero]
  have split : ∑ i ∈ S \ round.takers, current i + ∑ i ∈ S ∩ round.takers, current i =
      ∑ i ∈ S, current i := by
    rw [add_comm]
    exact Finset.sum_inter_add_sum_sdiff S round.takers current
  have counted : ((S \ round.takers).card : α) + (S ∩ round.takers).card = S.card := by
    rw [add_comm]
    exact_mod_cast Finset.card_inter_add_card_sdiff S round.takers
  have leads := round.takers_le_winner S
  rw [Finset.sum_add_distrib] at leads
  have rest := balanced.subsets (S \ round.takers)
  have grown := balanced.subsets (insert round.winner S)
  rw [Finset.sum_insert outside, Finset.card_insert_of_notMem outside,
    Nat.cast_add, Nat.cast_one] at grown
  have shares := shares_le round capped S
  have top := capped round.winner round.winnerTakes
  have taking : (0 : α) ≤ (S ∩ round.takers).card := Nat.cast_nonneg _
  generalize ((S ∩ round.takers).card : α) = t at *
  generalize ((S \ round.takers).card : α) = r at *
  have rEq : r = S.card - t := by linarith
  subst rEq
  generalize (S.card : α) = k at *
  generalize (Fintype.card ι : α) = n at *
  generalize ∑ i ∈ S ∩ round.takers, current i = takerSum at *
  generalize ∑ i ∈ S \ round.takers, current i = restSum at *
  generalize ∑ i ∈ S ∩ round.takers, round.share i = shareSum at *
  rw [← split] at grown ⊢
  have grownTimes := mul_le_mul_of_nonneg_left grown taking
  have sharesTimes := mul_le_mul_of_nonneg_left (add_le_add shares top) taking
  have scaled : (t + 1) * (restSum + takerSum + shareSum) ≤
      (t + 1) * (bound * (k * (n - k))) := by
    calc (t + 1) * (restSum + takerSum + shareSum)
        ≤ restSum + t * (current round.winner + (restSum + takerSum)) +
            t * (shareSum + round.share round.winner) := by linarith
      _ ≤ bound * ((k - t) * (n - (k - t))) +
            t * (bound * ((k + 1) * (n - (k + 1)))) +
            t * (t * bound + bound) := by linarith
      _ = (t + 1) * (bound * (k * (n - k))) := by ring
  exact le_of_mul_le_mul_left scaled (by linarith)

/-- One round keeps the balance, whichever counters take part. -/
theorem Balanced.next {bound : α} {current : ι → α}
    (balanced : Balanced bound current) (round : Round current)
    (nonneg : ∀ i ∈ round.takers, 0 ≤ round.share i)
    (capped : ∀ i ∈ round.takers, round.share i ≤ bound) :
    Balanced bound round.next where
  zeroSum := by
    rw [round.sum_next, if_pos (Finset.mem_univ _), balanced.zeroSum,
      Finset.univ_inter]
    exact (congrArg (· - round.paid) (zero_add round.paid)).trans (sub_self _)
  subsets := by
    intro S
    by_cases inside : round.winner ∈ S
    · exact (round.sum_next_le_of_winner nonneg S inside).trans (balanced.subsets S)
    · exact balanced.sum_next_le_of_outside round capped S inside

/-- Upper bound from a singleton, lower bound from its complement. -/
theorem Balanced.abs_current_le {bound : α} {current : ι → α}
    (balanced : Balanced bound current) (i : ι) :
    |current i| ≤ bound * (Fintype.card ι - 1) := by
  have above := balanced.subsets {i}
  rw [Finset.sum_singleton, Finset.card_singleton, Nat.cast_one, one_mul] at above
  have below := balanced.subsets {i}ᶜ
  have total := balanced.zeroSum
  rw [← Finset.sum_add_sum_compl {i} current, Finset.sum_singleton] at total
  have positive : 1 ≤ Fintype.card ι := Fintype.card_pos_iff.mpr ⟨i⟩
  rw [Finset.card_compl, Finset.card_singleton, Nat.cast_sub positive, Nat.cast_one,
    sub_sub_cancel, mul_one] at below
  exact abs_le.mpr ⟨by linarith, above⟩

end Balance

end AutoBurst.SmoothRound
