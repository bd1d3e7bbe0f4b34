/-
Dictionaries as association lists in insertion order: assignment to a key, what
a lookup finds after one assignment and after a fold of them, and a partial
function on all the items.
-/

import Mathlib.Data.List.Basic

namespace AutoBurst.Dict

variable {κ ν : Type*} [BEq κ]

/-- Assignment keeps the place of a key that is there and appends one that is not. -/
def set (key : κ) (value : ν) : List (κ × ν) → List (κ × ν)
  | [] => [(key, value)]
  | item :: rest => if item.1 == key then (key, value) :: rest else item :: set key value rest

theorem mem_set {key : κ} {value : ν} {dict : List (κ × ν)} {item : κ × ν}
    (member : item ∈ set key value dict) : item ∈ dict ∨ item = (key, value) := by
  induction dict with
  | nil => exact .inr (List.mem_singleton.mp member)
  | cons head rest ih =>
      unfold set at member
      split at member
      · rcases List.mem_cons.mp member with same | later
        · exact .inr same
        · exact .inl (List.mem_cons_of_mem _ later)
      · rcases List.mem_cons.mp member with same | later
        · exact .inl (List.mem_cons.mpr (.inl same))
        · exact (ih later).imp_left (List.mem_cons_of_mem _)

variable [LawfulBEq κ]

theorem lookup_set_self (key : κ) (value : ν) (dict : List (κ × ν)) :
    (set key value dict).lookup key = some value := by
  induction dict with
  | nil => simp [set]
  | cons item rest ih =>
      unfold set
      split
      · simp
      · rename_i other
        rw [List.lookup_cons, ih]
        have apart : (key == item.1) = false := by
          rw [beq_eq_false_iff_ne]
          intro same
          exact other (beq_iff_eq.mpr same.symm)
        rw [apart]

theorem lookup_set_of_ne {key other : κ} (different : other ≠ key) (value : ν)
    (dict : List (κ × ν)) : (set key value dict).lookup other = dict.lookup other := by
  have apart : (other == key) = false := beq_eq_false_iff_ne.mpr different
  induction dict with
  | nil => simp [set, List.lookup_cons, apart]
  | cons item rest ih =>
      unfold set
      split
      · rename_i same
        rw [List.lookup_cons, List.lookup_cons, apart, eq_of_beq same, apart]
      · rw [List.lookup_cons, List.lookup_cons, ih]

theorem mem_of_lookup {key : κ} {value : ν} {dict : List (κ × ν)}
    (found : dict.lookup key = some value) : (key, value) ∈ dict := by
  obtain ⟨earlier, later, rfl, _first⟩ := List.lookup_eq_some_iff.mp found
  exact List.mem_append_right _ List.mem_cons_self

/-! ### Distinct keys -/

/-- With distinct keys a lookup finds every item. -/
theorem lookup_eq_some_iff_mem {dict : List (κ × ν)} (distinct : (dict.map Prod.fst).Nodup)
    {key : κ} {value : ν} : dict.lookup key = some value ↔ (key, value) ∈ dict := by
  refine ⟨mem_of_lookup, ?_⟩
  intro member
  induction dict with
  | nil => exact absurd member List.not_mem_nil
  | cons item rest ih =>
      obtain ⟨fresh, later⟩ := List.nodup_cons.mp distinct
      rcases List.mem_cons.mp member with rfl | inRest
      · exact List.lookup_cons_self
      · have apart : (key == item.1) = false := by
          rw [beq_eq_false_iff_ne]
          rintro rfl
          exact fresh (List.mem_map.mpr ⟨_, inRest, rfl⟩)
        rw [List.lookup_cons, apart]
        exact ih later inRest

theorem set_fresh {key : κ} {dict : List (κ × ν)} (fresh : key ∉ dict.map Prod.fst) (value : ν) :
    set key value dict = dict ++ [(key, value)] := by
  induction dict with
  | nil => rfl
  | cons item rest ih =>
      rw [List.map_cons, List.mem_cons, not_or] at fresh
      obtain ⟨other, later⟩ := fresh
      unfold set
      rw [if_neg fun same => other (eq_of_beq same).symm, ih later]
      rfl

/-- Assignments to keys that are distinct and not there append the items. -/
theorem foldl_set_distinct {pairs dict : List (κ × ν)}
    (distinct : ((dict ++ pairs).map Prod.fst).Nodup) :
    pairs.foldl (fun dict item => set item.1 item.2 dict) dict = dict ++ pairs := by
  induction pairs generalizing dict with
  | nil => exact (List.append_nil dict).symm
  | cons item rest ih =>
      rw [List.append_cons] at distinct
      have fresh : item.1 ∉ dict.map Prod.fst := by
        intro member
        rw [List.map_append, List.map_append] at distinct
        have apart := (List.nodup_append.mp (List.nodup_append.mp distinct).1).2.2
        exact apart _ member _ List.mem_cons_self rfl
      rw [List.foldl_cons, set_fresh fresh, ih distinct, ← List.append_cons]

/-! ### All the items -/

theorem mapM_eq_some {α β : Type*} {f : α → Option β} {items : List α}
    (defined : ∀ item ∈ items, ∃ value, f item = some value) :
    ∃ values, items.mapM f = some values ∧
      ∀ value, value ∈ values ↔ ∃ item ∈ items, f item = some value := by
  induction items with
  | nil =>
      refine ⟨[], rfl, fun value => ⟨fun impossible => absurd impossible List.not_mem_nil, ?_⟩⟩
      rintro ⟨_item, impossible, _same⟩
      exact absurd impossible List.not_mem_nil
  | cons first rest ih =>
      obtain ⟨⟨here, found⟩, later⟩ := List.forall_mem_cons.mp defined
      obtain ⟨values, all, listed⟩ := ih later
      refine ⟨here :: values, ?_, ?_⟩
      · rw [List.mapM_cons, found, all]
        rfl
      · intro value
        rw [List.mem_cons, listed, List.exists_mem_cons_iff, found, Option.some.injEq, eq_comm]

end AutoBurst.Dict
