/-
Smooth rounds in which all counters take part with fixed shares and the first
leader wins. From zero the counters come back to zero after as many turns as
the shares sum to, so that the winners of any that many turns in a row hold
each counter as often as its share.
-/

import Mathlib.Algebra.BigOperators.Ring.Finset
import Mathlib.Algebra.Order.BigOperators.Ring.Finset
import Mathlib.Data.Finset.Max
import Mathlib.Data.Fintype.BigOperators
import Mathlib.Tactic.Linarith
import Mathlib.Tactic.Ring

namespace AutoBurst.Rotation

variable {ι : Type*} [Fintype ι] [LinearOrder ι] [Nonempty ι]

/-! ### The first leader -/

def leaders (value : ι → ℤ) : Finset ι :=
  Finset.univ.filter fun i => ∀ j, value j ≤ value i

omit [LinearOrder ι] in
theorem leaders_nonempty (value : ι → ℤ) : (leaders value).Nonempty := by
  obtain ⟨top, _listed, leads⟩ :=
    Finset.exists_max_image Finset.univ value Finset.univ_nonempty
  exact ⟨top, Finset.mem_filter.mpr ⟨Finset.mem_univ top, fun j => leads j (Finset.mem_univ j)⟩⟩

noncomputable def leader (value : ι → ℤ) : ι :=
  (leaders value).min' (leaders_nonempty value)

theorem le_leader (value : ι → ℤ) (j : ι) : value j ≤ value (leader value) :=
  (Finset.mem_filter.mp (Finset.min'_mem _ (leaders_nonempty value))).2 j

theorem eq_leader {value : ι → ℤ} {i : ι} (leads : ∀ j, value j ≤ value i)
    (first : ∀ j, j < i → value j < value i) : leader value = i := by
  apply le_antisymm
  · apply Finset.min'_le
    exact Finset.mem_filter.mpr ⟨Finset.mem_univ i, leads⟩
  · by_contra earlier
    exact absurd (le_leader value i) (not_le.mpr (first _ (not_le.mp earlier)))

/-! ### Turns -/

section Turns

variable (share : ι → ℕ)

def whole : ℕ := ∑ i, share i

noncomputable def winner (current : ι → ℤ) : ι := leader fun i => current i + share i

noncomputable def turn (current : ι → ℤ) (i : ι) : ℤ :=
  current i + share i - if i = winner share current then (whole share : ℤ) else 0

noncomputable def winners : (ι → ℤ) → ℕ → List ι
  | _current, 0 => []
  | current, turns + 1 => winner share current :: winners (turn share current) turns

theorem winners_succ (current : ι → ℤ) (turns : ℕ) :
    winners share current (turns + 1) =
      winner share current :: winners share (turn share current) turns := rfl

theorem length_winners (current : ι → ℤ) (turns : ℕ) :
    (winners share current turns).length = turns := by
  induction turns generalizing current with
  | zero => rfl
  | succ turns ih =>
      rw [winners_succ, List.length_cons, ih]

theorem winners_add (current : ι → ℤ) (first second : ℕ) :
    winners share current (first + second) =
      winners share current first ++ winners share ((turn share)^[first] current) second := by
  induction first generalizing current with
  | zero =>
      rw [Nat.zero_add]
      rfl
  | succ first ih =>
      rw [Nat.succ_add, Function.iterate_succ_apply, winners_succ, winners_succ, ih,
        List.cons_append]

variable {share}

/-- What a counter gained and paid. -/
theorem iterate_turn (current : ι → ℤ) (turns : ℕ) (i : ι) :
    (turn share)^[turns] current i =
      current i + turns * share i - whole share * (winners share current turns).count i := by
  induction turns generalizing current with
  | zero => simp [winners]
  | succ turns ih =>
      rw [Function.iterate_succ_apply, ih, winners_succ, List.count_cons, Nat.cast_add,
        Nat.cast_succ]
      generalize (winners share (turn share current) turns).count i = later
      unfold turn
      by_cases won : i = winner share current
      · have same : (winner share current == i) = true := beq_iff_eq.mpr won.symm
        rw [if_pos won, if_pos same]
        push_cast
        ring
      · have other : ¬(winner share current == i) = true :=
          fun same => won (beq_iff_eq.mp same).symm
        rw [if_neg won, if_neg other]
        push_cast
        ring

/-! ### One cycle -/

/-- The counters sum to zero and none of them owes a whole round. -/
structure Afloat (share : ι → ℕ) (current : ι → ℤ) : Prop where
  zeroSum : ∑ i, current i = 0
  above : ∀ i, -(whole share : ℤ) < current i

omit [LinearOrder ι] [Nonempty ι] in
theorem Afloat.zero (positive : 0 < whole share) : Afloat share (fun _ : ι => (0 : ℤ)) where
  zeroSum := Finset.sum_const_zero
  above := by
    intro i
    have cast : (0 : ℤ) < whole share := by exact_mod_cast positive
    linarith

/-- The leader has a positive counter, since the gained counters sum to the
whole. -/
private theorem Afloat.leader_pos {current : ι → ℤ} (afloat : Afloat share current)
    (positive : 0 < whole share) :
    0 < current (winner share current) + share (winner share current) := by
  have gained : ∑ i, (current i + share i) = (whole share : ℤ) := by
    rw [Finset.sum_add_distrib, afloat.zeroSum, zero_add]
    unfold whole
    push_cast
    rfl
  by_contra negative
  have below : ∑ i, (current i + (share i : ℤ)) ≤ 0 := by
    apply Finset.sum_nonpos
    intro i _listed
    exact (le_leader (fun i => current i + (share i : ℤ)) i).trans (not_lt.mp negative)
  have cast : (0 : ℤ) < whole share := by exact_mod_cast positive
  linarith

theorem Afloat.turn {current : ι → ℤ} (afloat : Afloat share current)
    (positive : 0 < whole share) : Afloat share (turn share current) where
  zeroSum := by
    unfold Rotation.turn
    rw [Finset.sum_sub_distrib, Finset.sum_add_distrib, afloat.zeroSum,
      Finset.sum_ite_eq' Finset.univ, if_pos (Finset.mem_univ _)]
    unfold whole
    push_cast
    ring
  above := by
    intro i
    unfold Rotation.turn
    by_cases won : i = winner share current
    · rw [if_pos won, won]
      have leads := afloat.leader_pos positive
      linarith
    · rw [if_neg won]
      have before := afloat.above i
      have gains : (0 : ℤ) ≤ share i := Int.natCast_nonneg _
      linarith

theorem Afloat.iterate {current : ι → ℤ} (afloat : Afloat share current)
    (positive : 0 < whole share) (turns : ℕ) :
    Afloat share ((Rotation.turn share)^[turns] current) := by
  induction turns with
  | zero => exact afloat
  | succ turns ih =>
      rw [Function.iterate_succ_apply']
      exact ih.turn positive

private theorem sum_count_winners (share : ι → ℕ) (current : ι → ℤ) (turns : ℕ) :
    ∑ i, (winners share current turns).count i = turns := by
  have counted := Multiset.sum_count_eq_card (s := Finset.univ)
    (m := (winners share current turns : Multiset ι)) (fun i _listed => Finset.mem_univ i)
  simp only [Multiset.coe_count, Multiset.coe_card, length_winners] at counted
  exact counted

/-- In the first round no counter wins more often than its share, and so none
wins less often. -/
theorem count_winners_zero (i : ι) :
    (winners share (fun _ : ι => (0 : ℤ)) (whole share)).count i = share i := by
  by_cases positive : 0 < whole share
  · have bounded : ∀ j, (winners share (fun _ : ι => (0 : ℤ)) (whole share)).count j ≤ share j := by
      intro j
      have above := ((Afloat.zero positive).iterate positive (whole share)).above j
      rw [iterate_turn, zero_add, ← mul_sub] at above
      have cast : (0 : ℤ) < whole share := by exact_mod_cast positive
      have single : (-1 : ℤ) < share j -
          (winners share (fun _ : ι => (0 : ℤ)) (whole share)).count j := by
        nlinarith
      omega
    have total := sum_count_winners share (fun _ : ι => (0 : ℤ)) (whole share)
    exact (Finset.sum_eq_sum_iff_of_le fun j _listed => bounded j).mp total i (Finset.mem_univ i)
  · have none : whole share = 0 := Nat.eq_zero_of_not_pos positive
    rw [none, (Finset.sum_eq_zero_iff.mp none) i (Finset.mem_univ i)]
    rfl

theorem iterate_turn_whole :
    (turn share)^[whole share] (fun _ : ι => (0 : ℤ)) = fun _ => 0 := by
  funext i
  rw [iterate_turn, count_winners_zero, zero_add, sub_self]

/-- The turns are deterministic, so that the first round repeats itself. -/
theorem iterate_turn_periodic (share : ι → ℕ) (before : ℕ) :
    (turn share)^[whole share] ((turn share)^[before] fun _ : ι => (0 : ℤ)) =
      (turn share)^[before] fun _ => 0 := by
  rw [← Function.iterate_add_apply, Nat.add_comm, Function.iterate_add_apply, iterate_turn_whole]

/-- Wherever a round starts, every counter wins as often as its share. -/
theorem count_winners (before : ℕ) (i : ι) :
    (winners share ((turn share)^[before] fun _ : ι => (0 : ℤ)) (whole share)).count i =
      share i := by
  by_cases positive : 0 < whole share
  · have same := congrFun (iterate_turn_periodic share before) i
    rw [iterate_turn] at same
    have cast : (0 : ℤ) < whole share := by exact_mod_cast positive
    have equal : (whole share : ℤ) * share i = whole share *
        (winners share ((turn share)^[before] fun _ : ι => (0 : ℤ)) (whole share)).count i := by
      linarith
    exact_mod_cast (mul_left_cancel₀ cast.ne' equal).symm
  · have none : whole share = 0 := Nat.eq_zero_of_not_pos positive
    rw [none, (Finset.sum_eq_zero_iff.mp none) i (Finset.mem_univ i)]
    rfl

theorem count_window {turns : ℕ} {before window after : List ι}
    (split : winners share (fun _ : ι => (0 : ℤ)) turns = before ++ window ++ after)
    (round : window.length = whole share) (i : ι) : window.count i = share i := by
  have size : turns = before.length + (whole share + after.length) := by
    rw [← length_winners share (fun _ : ι => (0 : ℤ)) turns, split, List.length_append,
      List.length_append, round, Nat.add_assoc]
  rw [size, winners_add, winners_add, List.append_assoc] at split
  have rest := (List.append_inj split (length_winners share _ _)).2
  have same := (List.append_inj rest ((length_winners share _ _).trans round.symm)).1
  rw [← same]
  exact count_winners before.length i

end Turns

end AutoBurst.Rotation
