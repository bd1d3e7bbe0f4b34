/-
What the lookup in the throughput table answers: the least sufficient count, or
the largest one of the row. The `while` loop of the source, with its running
bound and its `break`, is related to the scan of the model.
-/

import AutoBurst.Controller.TableFile
import AutoBurst.Lib.WhileLoop

namespace AutoBurst.Controller

open WhileLoop

/-! ### The loop -/

/-- The variables of the loop; `none` is `math.inf`. -/
structure Scan where
  i : Int
  b : Int
  currentthroughput : Option Rat
  broken : Bool

/-- `while i <= m`, left by `break` as well. -/
def Scan.Goes (m : Int) (scan : Scan) : Prop := scan.broken = false ∧ scan.i ≤ m

def Scan.below (scan : Scan) (value : Rat) : Bool :=
  match scan.currentthroughput with
  | none => true
  | some bound => decide (value < bound)

def Scan.turn (row : Row) (throughput : Rat) (scan : Scan) : Scan :=
  match row.lookup (toString scan.i) with
  | none => { scan with i := scan.i + 1 }
  | some none => { scan with i := scan.i + 1 }
  | some (some value) =>
      if throughput ≤ value ∧ scan.below value = true then
        { scan with b := scan.i, currentthroughput := some value, broken := true }
      else { scan with i := scan.i + 1 }

/-- The loop ends, and with the count that the scan of the model finds. -/
theorem scan_loops (row : Row) (throughput : Rat) {m : Int} {left : Nat} (i : Int)
    (enough : left = (m + 1 - i).toNat) :
    ∃ last, Loops (Scan.Goes m) (Scan.turn row throughput) ⟨i, -1, none, false⟩ last ∧
      last.b = (firstSufficient row throughput left i).getD (-1) := by
  induction left generalizing i with
  | zero =>
      refine ⟨_, .done ?_, rfl⟩
      rintro ⟨_running, inside⟩
      change i ≤ m at inside
      omega
  | succ left ih =>
      have inside : Scan.Goes m ⟨i, -1, none, false⟩ := ⟨rfl, by dsimp only; omega⟩
      obtain ⟨last, later, same⟩ := ih (i + 1) (by omega)
      have skipped : Scan.turn row throughput ⟨i, -1, none, false⟩ = ⟨i + 1, -1, none, false⟩ →
          Loops (Scan.Goes m) (Scan.turn row throughput) ⟨i, -1, none, false⟩ last := by
        intro turned
        refine .turn inside ?_
        rw [turned]
        exact later
      unfold firstSufficient
      cases cell : row.lookup (toString i) with
      | none =>
          refine ⟨last, skipped ?_, same⟩
          simp only [Scan.turn, cell]
      | some content =>
          cases content with
          | none =>
              refine ⟨last, skipped ?_, same⟩
              simp only [Scan.turn, cell]
          | some value =>
              dsimp only
              by_cases sufficient : throughput ≤ value
              · rw [if_pos sufficient]
                refine ⟨⟨i, i, some value, true⟩, .turn inside ?_, rfl⟩
                have turned : Scan.turn row throughput ⟨i, -1, none, false⟩ =
                    ⟨i, i, some value, true⟩ := by
                  simp only [Scan.turn, cell, Scan.below, sufficient, and_self, if_true]
                rw [turned]
                refine .done ?_
                rintro ⟨running, _inside⟩
                cases running
              · rw [if_neg sufficient]
                refine ⟨last, skipped ?_, same⟩
                simp only [Scan.turn, cell, sufficient, false_and, if_false]

/-! ### The least sufficient count -/

def Row.Sufficient (row : Row) (throughput : Rat) (count : Int) : Prop :=
  ∃ value, row.lookup (toString count) = some (some value) ∧ throughput ≤ value

section Scanning

variable {row : Row} {throughput : Rat}

theorem firstSufficient_cons (row : Row) (throughput : Rat) (left : Nat) (count : Int) :
    (row.Sufficient throughput count ∧
        firstSufficient row throughput (left + 1) count = some count) ∨
      (¬row.Sufficient throughput count ∧
        firstSufficient row throughput (left + 1) count =
          firstSufficient row throughput left (count + 1)) := by
  unfold Row.Sufficient
  cases cell : row.lookup (toString count) with
  | none =>
      refine .inr ⟨?_, by simp only [firstSufficient, cell]⟩
      rintro ⟨value, found, _enough⟩
      cases found
  | some content =>
      cases content with
      | none =>
          refine .inr ⟨?_, by simp only [firstSufficient, cell]⟩
          rintro ⟨value, found, _enough⟩
          cases found
      | some value =>
          by_cases sufficient : throughput ≤ value
          · refine .inl ⟨⟨value, rfl, sufficient⟩, ?_⟩
            simp only [firstSufficient, cell, if_pos sufficient]
          · refine .inr ⟨?_, by simp only [firstSufficient, cell, if_neg sufficient]⟩
            rintro ⟨other, same, enough⟩
            cases same
            exact sufficient enough

/-- None of the columns that were looked at is sufficient. -/
theorem not_sufficient_of_none {left : Nat} {count : Int}
    (result : firstSufficient row throughput left count = none) :
    ∀ i, count ≤ i → i < count + left → ¬row.Sufficient throughput i := by
  induction left generalizing count with
  | zero => intro i above below; omega
  | succ left ih =>
      intro i above below
      rcases firstSufficient_cons row throughput left count with ⟨_here, found⟩ | ⟨notHere, later⟩
      · rw [found] at result
        cases result
      · rw [later] at result
        by_cases same : i = count
        · rw [same]
          exact notHere
        · exact ih result i (by omega) (by push_cast at below ⊢; omega)

theorem firstSufficient_least {left : Nat} {count found : Int}
    (result : firstSufficient row throughput left count = some found) :
    IsLeast {i | count ≤ i ∧ row.Sufficient throughput i} found ∧ found < count + left := by
  induction left generalizing count with
  | zero => cases result
  | succ left ih =>
      rcases firstSufficient_cons row throughput left count with ⟨here, answer⟩ | ⟨notHere, later⟩
      · rw [answer] at result
        cases result
        exact ⟨⟨⟨le_rfl, here⟩, fun i member => member.1⟩, by push_cast; omega⟩
      · rw [later] at result
        obtain ⟨⟨⟨above, sufficient⟩, lower⟩, below⟩ := ih result
        refine ⟨⟨⟨by omega, sufficient⟩, ?_⟩, by push_cast; omega⟩
        rintro i ⟨from_, enough⟩
        have different : i ≠ count := by
          rintro rfl
          exact notHere enough
        exact lower ⟨by omega, enough⟩

end Scanning

/-! ### The answer -/

def Row.Canonical (row : Row) : Prop := ∀ cell ∈ row, ∃ count : Nat, cell.1 = toString count

def Row.Key (row : Row) (count : Int) : Prop := (row.lookup (toString count)).isSome = true

/-- What a lookup that starts at `min` is to answer, `m` being the largest column. -/
structure Row.Answer (row : Row) (throughput : Rat) (min m b : Int) : Prop where
  least : (∃ i, min ≤ i ∧ row.Sufficient throughput i) →
    IsLeast {i | min ≤ i ∧ row.Sufficient throughput i} b
  largest : (¬∃ i, min ≤ i ∧ row.Sufficient throughput i) → b = m

theorem Row.Sufficient.key {row : Row} {throughput : Rat} {count : Int}
    (sufficient : row.Sufficient throughput count) : row.Key count := by
  obtain ⟨value, cell, _enough⟩ := sufficient
  unfold Row.Key
  rw [cell]
  rfl

theorem Row.Sufficient.mono {row : Row} {low high : Rat} {count : Int}
    (sufficient : row.Sufficient high count) (le : low ≤ high) : row.Sufficient low count := by
  obtain ⟨value, cell, enough⟩ := sufficient
  exact ⟨value, cell, le_trans le enough⟩

/-- Less is asked for, so the answer is not larger. -/
theorem Row.Answer.mono {row : Row} {low high : Rat} {min m fewer more : Int}
    (greatest : m ∈ upperBounds {i | row.Key i}) (le : low ≤ high)
    (answerLow : row.Answer low min m fewer) (answerHigh : row.Answer high min m more) :
    fewer ≤ more := by
  by_cases high_ : ∃ i, min ≤ i ∧ row.Sufficient high i
  · obtain ⟨from_, sufficient⟩ := (answerHigh.least high_).1
    have both : min ≤ more ∧ row.Sufficient low more := ⟨from_, sufficient.mono le⟩
    exact (answerLow.least ⟨more, both⟩).2 both
  · rw [answerHigh.largest high_]
    by_cases low_ : ∃ i, min ≤ i ∧ row.Sufficient low i
    · exact greatest (answerLow.least low_).1.2.key
    · exact le_of_eq (answerLow.largest low_)

section Answering

variable {row : Row}

theorem Row.Canonical.numbered (canonical : row.Canonical) : row.Numbered := by
  intro cell member
  obtain ⟨count, same⟩ := canonical cell member
  rw [same]
  exact ⟨count, parseInt_toString count⟩

theorem Row.Canonical.greatest (canonical : row.Canonical) {m : Int}
    (greatest : IsGreatest row.counts m) : IsGreatest {i | row.Key i} m := by
  refine ⟨?_, fun i key => greatest.2 (Row.mem_counts_of_cell key)⟩
  obtain ⟨cell, member, parsed⟩ := greatest.1
  obtain ⟨count, same⟩ := canonical cell member
  have value : (count : Int) = m := by
    rw [same] at parsed
    exact Option.some.inj ((parseInt_toString count).symm.trans parsed)
  have column : cell.1 = toString m := by
    rw [same, ← value]
    rfl
  change (row.lookup (toString m)).isSome = true
  rw [← column, List.lookup_isSome_iff]
  exact ⟨cell, member, beq_self_eq_true _⟩

/-- The scan up to `m`, as the lookup uses it. -/
theorem scan_answer {m : Int} (upper : m ∈ upperBounds {i | row.Key i}) (throughput : Rat)
    {min : Int} (nonneg : 0 ≤ min) :
    let b := (firstSufficient row throughput (m + 1 - min).toNat min).getD (-1)
    row.Answer throughput min m (if b = -1 then m else b) := by
  dsimp only
  cases scanned : firstSufficient row throughput (m + 1 - min).toNat min with
  | none =>
      rw [Option.getD_none, if_pos rfl]
      have nowhere : ¬∃ i, min ≤ i ∧ row.Sufficient throughput i := by
        rintro ⟨i, from_, sufficient⟩
        have below : i ≤ m := upper sufficient.key
        exact not_sufficient_of_none scanned i from_ (by omega) sufficient
      exact ⟨fun some_ => absurd some_ nowhere, fun _none => rfl⟩
  | some count =>
      obtain ⟨least, _below⟩ := firstSufficient_least scanned
      have positive := least.1.1
      rw [Option.getD_some, if_neg (by omega)]
      exact ⟨fun _some => least, fun nowhere => absurd ⟨count, least.1⟩ nowhere⟩

end Answering

/-- The lookup in a row whose largest column is `m`. -/
theorem findNumberOfBurstable_answer {table : ThroughputTable} {row : Row} {onD min m : Int}
    (found : table.lookup (toString onD) = some row) (largest : largestCount row = some m)
    (upper : m ∈ upperBounds {i | row.Key i}) (nonneg : 0 ≤ min) (throughput : Rat) :
    ∃ b, findNumberOfBurstable table onD throughput min = some b ∧
      row.Answer throughput min m b := by
  refine ⟨_, ?_, scan_answer upper throughput nonneg⟩
  unfold findNumberOfBurstable
  rw [found, Option.bind_some, largest, Option.map_some]

/-- The scan ends, with the least sufficient column from `min` on or else the
largest column of the row, and asks for more only if more is wanted. -/
theorem findNumberOfBurstable_least {table : ThroughputTable} {row : Row} {onD min : Int}
    (found : table.lookup (toString onD) = some row) (nonempty : row ≠ [])
    (canonical : row.Canonical) (nonneg : 0 ≤ min) :
    ∃ m, IsGreatest {i | row.Key i} m ∧
      (∀ throughput, ∃ last b,
        Loops (Scan.Goes m) (Scan.turn row throughput) ⟨min, -1, none, false⟩ last ∧
          b = (if last.b = -1 then m else last.b) ∧
          findNumberOfBurstable table onD throughput min = some b ∧
          row.Answer throughput min m b) ∧
      ∀ low high fewer more, low ≤ high →
        findNumberOfBurstable table onD low min = some fewer →
        findNumberOfBurstable table onD high min = some more → fewer ≤ more := by
  obtain ⟨m, largest, counted⟩ := largestCount_greatest canonical.numbered nonempty
  have greatest := canonical.greatest counted
  refine ⟨m, greatest, ?_, ?_⟩
  · intro throughput
    obtain ⟨last, loops, same⟩ := scan_loops row throughput min rfl
    refine ⟨last, _, loops, rfl, ?_, ?_⟩
    · unfold findNumberOfBurstable
      rw [found, Option.bind_some, largest, Option.map_some, same]
    · rw [same]
      exact scan_answer greatest.2 throughput nonneg
  · intro low high fewer more le foundFewer foundMore
    obtain ⟨b, answerLow, low_⟩ := findNumberOfBurstable_answer found largest greatest.2 nonneg low
    obtain ⟨b', answerHigh, high_⟩ :=
      findNumberOfBurstable_answer found largest greatest.2 nonneg high
    rw [Option.some.inj (foundFewer.symm.trans answerLow),
      Option.some.inj (foundMore.symm.trans answerHigh)]
    exact low_.mono greatest.2 le high_

def gappedRow : Row := [("5", some 30), ("0", some 10), ("1", none), ("3", some 40)]

theorem findNumberOfBurstable_least_gapped :
    findNumberOfBurstable [("2", gappedRow)] 2 35 0 = some 3 ∧
      findNumberOfBurstable [("2", gappedRow)] 2 45 0 = some 5 ∧
      findNumberOfBurstable [("2", gappedRow)] 2 20 4 = some 5 ∧
      ∀ low high fewer more, low ≤ high →
        findNumberOfBurstable [("2", gappedRow)] 2 low 0 = some fewer →
        findNumberOfBurstable [("2", gappedRow)] 2 high 0 = some more → fewer ≤ more := by
  have found : List.lookup (toString (2 : Int)) [("2", gappedRow)] = some gappedRow := by decide
  have canonical : gappedRow.Canonical := by
    unfold gappedRow
    intro cell member
    simp only [List.mem_cons, List.not_mem_nil, or_false] at member
    rcases member with rfl | rfl | rfl | rfl
    · exact ⟨5, by decide⟩
    · exact ⟨0, by decide⟩
    · exact ⟨1, by decide⟩
    · exact ⟨3, by decide⟩
  obtain ⟨_m, _greatest, _answers, monotone⟩ :=
    findNumberOfBurstable_least found (by decide) canonical (le_refl 0)
  exact ⟨by decide +kernel, by decide +kernel, by decide +kernel, monotone⟩

end AutoBurst.Controller
