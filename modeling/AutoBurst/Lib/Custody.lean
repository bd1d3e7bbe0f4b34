/-
Who holds what. Each of finitely many parties holds at most one resource; the
number of holders of a resource, as parties take resources and drop them.
-/

import Mathlib.Data.Fintype.Card
import Mathlib.Logic.Function.Basic

namespace AutoBurst.Custody

variable {ι κ : Type*} [Fintype ι] [DecidableEq κ]

def holders (held : ι → Option κ) (resource : κ) : Finset ι :=
  Finset.univ.filter (fun party => held party = some resource)

theorem mem_holders {held : ι → Option κ} {resource : κ} {party : ι} :
    party ∈ holders held resource ↔ held party = some resource := by
  unfold holders
  rw [Finset.mem_filter]
  exact and_iff_right (Finset.mem_univ party)

/-- While a party has its hands free, not all parties hold the resource. -/
theorem card_holders_lt {held : ι → Option κ} {party : ι} (free : held party = none)
    (resource : κ) : (holders held resource).card < Fintype.card ι := by
  apply Finset.card_lt_univ_of_notMem
  rw [mem_holders, free]
  exact nofun

variable [DecidableEq ι]

/-- A party with free hands takes `resource`. -/
theorem card_holders_take {held : ι → Option κ} {party : ι} (free : held party = none)
    (resource other : κ) :
    (holders (Function.update held party (some resource)) other).card =
      (holders held other).card + if other = resource then 1 else 0 := by
  have absent : party ∉ holders held other := by
    rw [mem_holders, free]
    nofun
  by_cases same : other = resource
  · subst same
    have added : holders (Function.update held party (some other)) other =
        insert party (holders held other) := by
      ext member
      rw [Finset.mem_insert, mem_holders, mem_holders]
      by_cases here : member = party
      · subst here
        rw [Function.update_self]
        exact iff_of_true rfl (Or.inl rfl)
      · rw [Function.update_of_ne here]
        exact (or_iff_right here).symm
    rw [added, Finset.card_insert_of_notMem absent, if_pos rfl]
  · have kept : holders (Function.update held party (some resource)) other =
        holders held other := by
      ext member
      rw [mem_holders, mem_holders]
      by_cases here : member = party
      · subst here
        rw [Function.update_self, free]
        exact iff_of_false (fun equal => same (Option.some.inj equal).symm) nofun
      · rw [Function.update_of_ne here]
    rw [kept, if_neg same, Nat.add_zero]

/-- A party drops the resource it holds. -/
theorem card_holders_drop {held : ι → Option κ} {party : ι} {resource : κ}
    (holding : held party = some resource) (other : κ) :
    (holders held other).card =
      (holders (Function.update held party none) other).card +
        if other = resource then 1 else 0 := by
  have restored : Function.update (Function.update held party none) party (some resource) =
      held := by
    rw [Function.update_idem, ← holding, Function.update_eq_self]
  have taken := card_holders_take (Function.update_self party none held) resource other
  rw [restored] at taken
  exact taken

theorem card_holders_split (held : ι → Option κ) (party : ι) (resource : κ) :
    (holders held resource).card =
      (holders (Function.update held party none) resource).card +
        if held party = some resource then 1 else 0 := by
  cases holding : held party with
  | none =>
      rw [← holding, Function.update_eq_self, if_neg, Nat.add_zero]
      rw [holding]
      exact nofun
  | some other =>
      rw [card_holders_drop holding resource]
      simp only [Option.some.injEq, eq_comm]

/-- Whatever one party drops and takes, the others holding on. -/
theorem card_holders_change {held after : ι → Option κ} {party : ι}
    (others : ∀ other, other ≠ party → after other = held other) (resource : κ) :
    (holders after resource).card + (if held party = some resource then 1 else 0) =
      (holders held resource).card + (if after party = some resource then 1 else 0) := by
  have same : Function.update after party none = Function.update held party none := by
    funext other
    by_cases here : other = party
    · subst here
      rw [Function.update_self, Function.update_self]
    · rw [Function.update_of_ne here, Function.update_of_ne here, others other here]
  rw [card_holders_split held party, card_holders_split after party, same]
  exact Nat.add_right_comm _ _ _

end AutoBurst.Custody
