/-
Neighbouring rows of the filled table: whether one more on-demand instance can
make the lookup ask for more burstable instances.
-/

import AutoBurst.Controller.TableLookup
import Mathlib.Analysis.Convex.Hull

namespace AutoBurst.Controller

open Runs

/-! ### The columns of a table -/

def Within (burlim : Int × Int) (table : ThroughputTable) : Prop :=
  ∀ entry ∈ table, ∀ count ∈ Row.counts entry.2, count ∈ rangeOf burlim

theorem Row.counts_set {name : String} {value : Option Rat} {row : Row} {count : Int}
    (member : count ∈ Row.counts (Dict.set name value row)) :
    count ∈ row.counts ∨ parseInt name = some count := by
  obtain ⟨cell, inRow, parsed⟩ := member
  rcases Dict.mem_set inRow with old | rfl
  · exact .inl ⟨cell, old, parsed⟩
  · exact .inr parsed

section Reading

variable {csv : Csv}

def TableReading.Listed (reading : TableReading) : Prop :=
  ∀ entry ∈ reading.throughput, ∀ count ∈ Row.counts entry.2, count ∈ reading.bur

private theorem readCell_listed {bur : List Int} {before after : Row × List Int}
    {field : String × String} (taken : readCell before field = some after)
    (listed : (∀ count ∈ bur, count ∈ before.2) ∧ ∀ count ∈ before.1.counts, count ∈ before.2) :
    (∀ count ∈ bur, count ∈ after.2) ∧ ∀ count ∈ after.1.counts, count ∈ after.2 := by
  rcases readCell_cases taken with rfl | ⟨value, count, parsed, rfl⟩
  · exact listed
  · refine ⟨fun other member => List.mem_append_left _ (listed.1 other member), ?_⟩
    intro other member
    rcases Row.counts_set member with old | new
    · exact List.mem_append_left _ (listed.2 other old)
    · rw [parsed] at new
      exact List.mem_append_right _ (List.mem_singleton.mpr (Option.some.inj new).symm)

private theorem readRow_listed {before after : TableReading} {row : List String}
    (taken : readRow csv before row = some after) (listed : before.Listed) : after.Listed := by
  obtain ⟨record, cells, ond, count, read, rfl⟩ := readRow_cases taken
  obtain ⟨kept, new⟩ := run_invariant read
    (fun cells => (∀ count ∈ before.bur, count ∈ cells.2) ∧
      ∀ count ∈ cells.1.counts, count ∈ cells.2)
    ⟨fun _count member => member,
      fun _count ⟨_cell, impossible, _parsed⟩ => absurd impossible List.not_mem_nil⟩
    (fun _before _after _field _member => readCell_listed)
  intro entry member
  rcases Dict.mem_set member with old | rfl
  · exact fun other inRow => kept other (listed entry old other inRow)
  · exact new

theorem readTable_within {table : ThroughputTable} {onDlim burlim : Int × Int}
    (read : readTable csv = some (table, onDlim, burlim)) : Within burlim table := by
  obtain ⟨reading, rows, rfl, bur⟩ := readTable_cases read
  have listed := run_invariant rows TableReading.Listed
    (fun _entry impossible => absurd impossible List.not_mem_nil)
    (fun _before _after _row _member => readRow_listed)
  obtain ⟨least, greatest⟩ := limits_bounds bur
  intro entry member count inRow
  have collected := listed entry member count inRow
  exact mem_rangeOf.mpr ⟨least.2 collected, greatest.2 collected⟩

end Reading

section Filling

variable {table filled : ThroughputTable} {onDlim burlim : Int × Int}

private theorem addResult_within (within : Within burlim table)
    {result : (Int × Int) × Option Rat} (inside : result.1.2 ∈ rangeOf burlim) :
    Within burlim (addResult table result) := by
  intro entry member count counted
  rcases mem_addResult member with kept | ⟨_label, cells⟩
  · exact within entry kept count counted
  · obtain ⟨cell, inRow, parsed⟩ := counted
    rcases cells cell inRow with ⟨row, there, earlier⟩ | rfl
    · exact within _ there count ⟨cell, earlier, parsed⟩
    · rw [parseInt_toString] at parsed
      rw [← Option.some.inj parsed]
      exact inside

theorem fillUp_within {griddata : Griddata} (within : Within burlim table)
    (fill : fillUpThroughputTable griddata table onDlim burlim = some filled) :
    Within burlim filled := by
  obtain ⟨results, _enough, rfl⟩ := fillUp_cases fill
  refine List.foldlRecOn _ addResult within ?_
  intro table kept result member
  exact addResult_within kept (mem_missingCells.mp (List.of_mem_zip member).1).2.1

structure FilledRow (filled : ThroughputTable) (burlim : Int × Int) (o : Int) (row : Row) :
    Prop where
  found : filled.lookup (toString o) = some row
  largest : largestCount row = some burlim.2
  columns : ∀ b, row.Key b ↔ b ∈ rangeOf burlim

/-- Every row of a filled table has exactly the columns between the limits. -/
theorem fillUp_row {csv : Csv} {griddata : Griddata}
    (read : readTable csv = some (table, onDlim, burlim))
    (fill : fillUpThroughputTable griddata table onDlim burlim = some filled) {o : Int}
    (onD : o ∈ rangeOf onDlim) : ∃ row, FilledRow filled burlim o row := by
  obtain ⟨numbered, range⟩ := readTable_read read
  obtain ⟨numberedFilled, cells⟩ := fillUp_complete numbered fill
  have within := fillUp_within (readTable_within read) fill
  obtain ⟨row, found, last⟩ := cells o onD burlim.2 (mem_rangeOf.mpr ⟨range, le_rfl⟩)
  have inside := within _ (Dict.mem_of_lookup found)
  have nonempty : row ≠ [] := by
    rintro rfl
    cases last
  obtain ⟨m, largest, greatest⟩ :=
    largestCount_greatest (numberedFilled _ (Dict.mem_of_lookup found)) nonempty
  have same : m = burlim.2 := le_antisymm (mem_rangeOf.mp (inside m greatest.1)).2
    (greatest.2 (Row.mem_counts_of_cell last))
  refine ⟨row, found, by rw [largest, same], ?_⟩
  intro b
  constructor
  · intro key
    exact inside b (Row.mem_counts_of_cell key)
  · intro bur
    obtain ⟨row', found', cell⟩ := cells o onD b bur
    rw [found] at found'
    cases found'
    exact cell

end Filling

/-! ### Neighbouring rows -/

def RowsOrdered (table : ThroughputTable) (o : Int) : Prop :=
  ∀ b low high, cellAt table o b = some (some low) → cellAt table (o + 1) b = some (some high) →
    low ≤ high

/-- The row has NaN in the column `b` and no sufficient number left of it. -/
def Hole (table : ThroughputTable) (o : Int) (throughput : Rat) (b : Int) : Prop :=
  cellAt table o b = some none ∧
    ∀ i value, 0 ≤ i → i < b → cellAt table o i = some (some value) → value < throughput

section Comparing

variable {filled : ThroughputTable} {burlim : Int × Int} {o : Int} {row : Row}

theorem FilledRow.cellAt (filledRow : FilledRow filled burlim o row) (b : Int) :
    cellAt filled o b = row.lookup (toString b) := by
  unfold Controller.cellAt
  rw [filledRow.found, Option.bind_some]

theorem FilledRow.upper (filledRow : FilledRow filled burlim o row) :
    burlim.2 ∈ upperBounds {i | row.Key i} :=
  fun b key => (mem_rangeOf.mp ((filledRow.columns b).mp key)).2

theorem Row.Answer.le {throughput : Rat} {min m b : Int} (answer : row.Answer throughput min m b)
    (upper : m ∈ upperBounds {i | row.Key i}) : b ≤ m := by
  by_cases sufficient : ∃ i, min ≤ i ∧ row.Sufficient throughput i
  · exact upper (answer.least sufficient).1.2.key
  · exact le_of_eq (answer.largest sufficient)

theorem Row.Answer.le_of_sufficient {throughput : Rat} {min m b i : Int}
    (answer : row.Answer throughput min m b) (above : min ≤ i)
    (sufficient : row.Sufficient throughput i) : b ≤ i :=
  (answer.least ⟨i, above, sufficient⟩).2 ⟨above, sufficient⟩

/-- Where the second row asks for more, the first one answered with a number
that the second one lacks. -/
theorem hole_of_lt {next : Row} {throughput : Rat} {few more : Int} (ordered : RowsOrdered filled o)
    (first : FilledRow filled burlim o row) (second : FilledRow filled burlim (o + 1) next)
    (answer : row.Answer throughput 0 burlim.2 few)
    (answerNext : next.Answer throughput 0 burlim.2 more) (less : few < more) :
    Hole filled (o + 1) throughput few := by
  have below := answerNext.le second.upper
  have found : ∃ i, 0 ≤ i ∧ row.Sufficient throughput i := by
    by_contra nowhere
    have last := answer.largest nowhere
    omega
  obtain ⟨nonneg, value, cell, enough⟩ := (answer.least found).1
  have insufficient : ∀ i, 0 ≤ i → i ≤ few → ¬next.Sufficient throughput i := by
    intro i above left sufficient
    have smaller := answerNext.le_of_sufficient above sufficient
    omega
  constructor
  · have key : next.Key few :=
      (second.columns few).mpr ((first.columns few).mp (answer.least found).1.2.key)
    rw [second.cellAt]
    obtain ⟨content, there⟩ := Option.isSome_iff_exists.mp key
    rw [there]
    cases content with
    | none => rfl
    | some number =>
        have above := ordered few value number (by rw [first.cellAt, cell])
          (by rw [second.cellAt, there])
        exact absurd ⟨number, there, le_trans enough above⟩ (insufficient few nonneg le_rfl)
  · intro i number above left cellNext
    rw [second.cellAt] at cellNext
    by_contra large
    exact insufficient i above (le_of_lt left) ⟨number, cellNext, not_lt.mp large⟩

theorem lt_of_hole {throughput : Rat} {few more : Int}
    (filledRow : FilledRow filled burlim o row) (answer : row.Answer throughput 0 burlim.2 more)
    (hole : Hole filled o throughput few) (less : few < burlim.2) : few < more := by
  by_cases found : ∃ i, 0 ≤ i ∧ row.Sufficient throughput i
  · obtain ⟨nonneg, value, cell, enough⟩ := (answer.least found).1
    by_contra notMore
    rcases eq_or_lt_of_le (not_lt.mp notMore) with same | left
    · have absent := hole.1
      rw [filledRow.cellAt, ← same, cell] at absent
      cases absent
    · have small := hole.2 more value nonneg left (by rw [filledRow.cellAt, cell])
      exact absurd enough (not_le.mpr small)
  · rw [answer.largest found]
    exact less

end Comparing

/-- One more on-demand instance asks for more burstable instances exactly if its
row has a hole in the column that the row before answers with. -/
theorem more_onDemand_iff {csv : Csv} {griddata : Griddata} {table filled : ThroughputTable}
    {onDlim burlim : Int × Int} (read : readTable csv = some (table, onDlim, burlim))
    (fill : fillUpThroughputTable griddata table onDlim burlim = some filled) {o : Int}
    (least : onDlim.1 ≤ o) (greatest : o + 1 ≤ onDlim.2) (ordered : RowsOrdered filled o)
    (throughput : Rat) :
    ∃ b b', findNumberOfBurstable filled o throughput 0 = some b ∧
      findNumberOfBurstable filled (o + 1) throughput 0 = some b' ∧
      (b' ≤ b ↔ ¬(b < burlim.2 ∧ Hole filled (o + 1) throughput b)) := by
  obtain ⟨row, first⟩ := fillUp_row read fill (mem_rangeOf.mpr ⟨least, by omega⟩)
  have leastNext : onDlim.1 ≤ o + 1 := by omega
  obtain ⟨next, second⟩ := fillUp_row read fill (mem_rangeOf.mpr ⟨leastNext, greatest⟩)
  obtain ⟨b, found, answer⟩ :=
    findNumberOfBurstable_answer first.found first.largest first.upper le_rfl throughput
  obtain ⟨b', foundNext, answerNext⟩ :=
    findNumberOfBurstable_answer second.found second.largest second.upper le_rfl throughput
  refine ⟨b, b', found, foundNext, ?_⟩
  constructor
  · rintro notMore ⟨less, hole⟩
    have more := lt_of_hole second answerNext hole less
    omega
  · intro noHole
    by_contra more
    have less := not_le.mp more
    exact noHole ⟨lt_of_lt_of_le less (answerNext.le second.upper),
      hole_of_lt ordered first second answer answerNext less⟩

/-! ### A triangular table -/

def triangularCsv : Csv :=
  ⟨["ond", "0", "1", "2"], [["0", "10", "20", "30"], ["1", "15", "-1", "-1"]]⟩

def triangularTable : ThroughputTable :=
  [("0", [("0", some 10), ("1", some 20), ("2", some 30)]), ("1", [("0", some 15)])]

def triangularFilled : ThroughputTable :=
  [("0", [("0", some 10), ("1", some 20), ("2", some 30)]),
    ("1", [("0", some 15), ("1", none), ("2", none)])]

def noneInside : Griddata := fun _points _values queries => some (queries.map fun _query => none)

def inPlane (point : Int × Int) : Rat × Rat := (point.1, point.2)

theorem triangular_outside {query : Int × Int}
    (missing : query ∈ missingCells triangularTable (0, 1) (0, 2)) :
    inPlane query ∉ convexHull ℚ
      (Set.image inPlane {(0, 0), (0, 1), (0, 2), (1, 0)}) := by
  have half : Convex ℚ {point : Rat × Rat | 2 * point.1 + point.2 ≤ 2} := by
    apply convex_halfSpace_le
    constructor
    · intro one other
      simp only [Prod.fst_add, Prod.snd_add]
      ring
    · intro factor point
      simp only [Prod.smul_fst, Prod.smul_snd, smul_eq_mul]
      ring
  have inside : Set.image inPlane {(0, 0), (0, 1), (0, 2), (1, 0)} ⊆
      {point : Rat × Rat | 2 * point.1 + point.2 ≤ 2} := by
    rintro _ ⟨point, member, rfl⟩
    simp only [Set.mem_insert_iff, Set.mem_singleton_iff] at member
    rcases member with rfl | rfl | rfl | rfl <;> norm_num [inPlane]
  intro hull
  have below := convexHull_min inside half hull
  have two : missingCells triangularTable (0, 1) (0, 2) = [(1, 1), (1, 2)] := by decide
  rw [two] at missing
  simp only [List.mem_cons, List.not_mem_nil, or_false] at missing
  rcases missing with rfl | rfl <;> norm_num [inPlane] at below

theorem triangular_ordered : RowsOrdered triangularFilled 0 := by
  intro b low high cell cellNext
  obtain ⟨next, found, there⟩ := Option.bind_eq_some_iff.mp cellNext
  have second : triangularFilled.lookup (toString ((0 : Int) + 1)) =
      some [("0", some 15), ("1", none), ("2", none)] := by decide
  rw [second] at found
  cases found
  have member := Dict.mem_of_lookup there
  simp only [List.mem_cons, Prod.mk.injEq, Option.some.injEq, reduceCtorEq, and_false,
    List.not_mem_nil, or_false] at member
  obtain ⟨column, rfl⟩ := member
  unfold cellAt at cell
  rw [column] at cell
  have ten : some (some 10) = some (some low) := cell
  cases ten
  decide

/-- With one on-demand instance more the lookup asks for one burstable instance
more, for the row of the second has no number where the first one answers. -/
theorem more_onDemand_more_burstable :
    readTable triangularCsv = some (triangularTable, (0, 1), (0, 2)) ∧
      (convertDictToArr triangularTable).map (List.map Prod.fst) =
        some [(0, 0), (0, 1), (0, 2), (1, 0)] ∧
      (∀ query ∈ missingCells triangularTable (0, 1) (0, 2), inPlane query ∉ convexHull ℚ
        (Set.image inPlane {(0, 0), (0, 1), (0, 2), (1, 0)})) ∧
      fillUpThroughputTable noneInside triangularTable (0, 1) (0, 2) = some triangularFilled ∧
      RowsOrdered triangularFilled 0 ∧
      findNumberOfBurstable triangularFilled 0 20 0 = some 1 ∧
      findNumberOfBurstable triangularFilled (0 + 1) 20 0 = some 2 :=
  ⟨by decide +kernel, by decide +kernel, fun _query => triangular_outside, by decide +kernel,
    triangular_ordered, by decide +kernel, by decide +kernel⟩

/-- Where less is wanted the second row answers with its only number. -/
theorem more_onDemand_iff_triangular :
    findNumberOfBurstable triangularFilled 0 12 0 = some 1 ∧
      findNumberOfBurstable triangularFilled (0 + 1) 12 0 = some 0 ∧
      ¬Hole triangularFilled (0 + 1) 12 1 := by
  have read : readTable triangularCsv = some (triangularTable, (0, 1), (0, 2)) := by
    decide +kernel
  have fill : fillUpThroughputTable noneInside triangularTable (0, 1) (0, 2) =
      some triangularFilled := by
    decide +kernel
  obtain ⟨b, b', found, foundNext, compared⟩ :=
    more_onDemand_iff read fill (le_refl 0) (le_refl 1) triangular_ordered 12
  have one : findNumberOfBurstable triangularFilled 0 12 0 = some 1 := by decide +kernel
  have zero : findNumberOfBurstable triangularFilled (0 + 1) 12 0 = some 0 := by decide +kernel
  cases found.symm.trans one
  cases foundNext.symm.trans zero
  refine ⟨one, zero, fun hole => ?_⟩
  exact compared.mp (by decide) ⟨by decide, hole⟩

end AutoBurst.Controller
