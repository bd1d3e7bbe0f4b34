/-
The lookup in the throughput table: src/src/throughputTableUtilities.py.

A table is a dict of rows, a row a dict from burstable counts to throughputs,
both keyed by strings. A cell is a finite number or NaN, which is `none`. Dicts
are association lists.
-/

import AutoBurst.Controller.Literals
import Mathlib.Data.Rat.Defs
import Mathlib.Algebra.Order.Ring.Unbundled.Rat

namespace AutoBurst.Controller

abbrev Row := List (String × Option Rat)
abbrev ThroughputTable := List (String × Row)

instance : DecidableEq ThroughputTable := inferInstance

/-! ### Lookup -/

/-- `int(max(keys, key=int))`; an empty row or a key that is no integer raises. -/
def largestCount (row : Row) : Option Int :=
  match row.mapM (fun cell => parseInt cell.1) with
  | some (first :: rest) => some (rest.foldl max first)
  | _ => none

/-- The `while i <= m` loop up to its `break`. -/
def firstSufficient (row : Row) (throughput : Rat) : Nat → Int → Option Int
  | 0, _count => none
  | left + 1, count =>
      match row.lookup (toString count) with
      | some (some value) =>
          if throughput ≤ value then some count else firstSufficient row throughput left (count + 1)
      | some none => firstSufficient row throughput left (count + 1)
      | none => firstSufficient row throughput left (count + 1)

/-- `none` is a `KeyError` of the row lookup or a `ValueError` of `max`. -/
def findNumberOfBurstable (table : ThroughputTable) (onD : Int) (throughput : Rat) (min : Int) :
    Option Int :=
  (table.lookup (toString onD)).bind fun row =>
    (largestCount row).map fun m =>
      let b := (firstSufficient row throughput (m + 1 - min).toNat min).getD (-1)
      if b = -1 then m else b

/-! ### Rows that never answer zero -/

theorem firstSufficient_ge (row : Row) (throughput : Rat) (left : Nat) (count found : Int)
    (result : firstSufficient row throughput left count = some found) :
    count ≤ found ∧ ∃ value, row.lookup (toString found) = some (some value) ∧
      throughput ≤ value := by
  induction left generalizing count with
  | zero => cases result
  | succ left ih =>
      have later : firstSufficient row throughput left (count + 1) = some found →
          count ≤ found ∧ ∃ value, row.lookup (toString found) = some (some value) ∧
            throughput ≤ value := by
        intro continued
        obtain ⟨above, sufficient⟩ := ih (count + 1) continued
        exact ⟨by omega, sufficient⟩
      unfold firstSufficient at result
      split at result
      · rename_i value cell
        split at result
        · rename_i enough
          obtain rfl := Option.some.inj result
          exact ⟨le_refl _, value, cell, enough⟩
        · exact later result
      · exact later result
      · exact later result

/-- A row with a positive count whose count zero, if measured at all, is not
sufficient makes the lookup answer at least one. -/
theorem one_le_findNumberOfBurstable {table : ThroughputTable} {row : Row} {onD b : Int}
    {throughput : Rat} (found : table.lookup (toString onD) = some row)
    (positive : ∀ m, largestCount row = some m → 1 ≤ m)
    (idle : ∀ value, row.lookup "0" = some (some value) → value < throughput)
    (result : findNumberOfBurstable table onD throughput 0 = some b) : 1 ≤ b := by
  unfold findNumberOfBurstable at result
  rw [found] at result
  obtain ⟨m, largest, answer⟩ := Option.map_eq_some_iff.mp result
  have least := positive m largest
  cases scanned : firstSufficient row throughput (m + 1 - 0).toNat 0 with
  | none =>
      rw [scanned] at answer
      simp only [Option.getD_none, if_true] at answer
      omega
  | some count =>
      obtain ⟨nonneg, value, cell, enough⟩ := firstSufficient_ge _ _ _ _ _ scanned
      rw [scanned, Option.getD_some] at answer
      have nonzero : count ≠ 0 := by
        intro zero
        rw [zero] at cell
        exact absurd (idle value cell) (not_lt.mpr enough)
      rw [if_neg (by omega)] at answer
      omega

end AutoBurst.Controller
