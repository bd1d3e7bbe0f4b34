/-
The throughput table as the constructor of the policies makes it: the file is
read and the missing cells are interpolated, src/src/throughputTableUtilities.py.

`griddata` belongs to scipy and is a parameter: from points, their values and
the queries to one value per query, NaN being `none`, or an exception. The cells
of the file are kept as the numbers they are read as.
-/

import AutoBurst.Controller.ThroughputTable
import AutoBurst.Lib.Dict
import AutoBurst.Lib.Reach
import Mathlib.Order.Bounds.Basic

namespace AutoBurst.Controller

open Runs

/-! ### Reading -/

/-- The fields of the header and of every row, as `csv.reader` splits them. -/
structure Csv where
  fieldnames : List String
  rows : List (List String)

/-- The dict of one row. A row that is longer or shorter than the header holds
a value that is no string, on which `int` raises. -/
def Csv.record (csv : Csv) (row : List String) : Option (List (String × String)) :=
  if row.length = csv.fieldnames.length then
    some ((csv.fieldnames.zip row).foldl (fun dict field => Dict.set field.1 field.2 dict) [])
  else none

structure TableReading where
  throughput : ThroughputTable
  onD : List Int
  bur : List Int

def readCell (cells : Row × List Int) (field : String × String) : Option (Row × List Int) :=
  if field.1 = "ond" then some cells
  else
    (parseInt field.2).bind fun value =>
      if value = -1 then some cells
      else
        (parseInt field.1).map fun count =>
          (Dict.set field.1 (some (value : Rat)) cells.1, cells.2 ++ [count])

def readRow (csv : Csv) (reading : TableReading) (row : List String) : Option TableReading :=
  (csv.record row).bind fun record =>
    (run readCell ([], reading.bur) record).bind fun cells =>
      (record.lookup "ond").bind fun ond =>
        (parseInt ond).map fun count =>
          { throughput := Dict.set ond cells.1 reading.throughput
            onD := reading.onD ++ [count]
            bur := cells.2 }

/-- `(min(counts), max(counts))`, which raises if there are none. -/
def limits : List Int → Option (Int × Int)
  | [] => none
  | first :: rest => some (rest.foldl min first, rest.foldl max first)

/-- Blank lines are skipped. -/
def readTable (csv : Csv) : Option (ThroughputTable × (Int × Int) × (Int × Int)) :=
  (run (readRow csv) ⟨[], [], []⟩ (csv.rows.filter fun row => !row.isEmpty)).bind fun reading =>
    (limits reading.onD).bind fun onDlim =>
      (limits reading.bur).map fun burlim => (reading.throughput, onDlim, burlim)

/-! ### Filling up -/

/-- `list(range(lim[0], lim[1] + 1))` -/
def rangeOf (lim : Int × Int) : List Int :=
  (List.range (lim.2 + 1 - lim.1).toNat).map fun (offset : Nat) => lim.1 + (offset : Int)

def missingCells (table : ThroughputTable) (onDlim burlim : Int × Int) : List (Int × Int) :=
  (rangeOf onDlim).flatMap fun i =>
    ((rangeOf burlim).filter fun j =>
      match table.lookup (toString i) with
      | none => true
      | some row => (row.lookup (toString j)).isNone).map fun j => (i, j)

def convertDictToArr (table : ThroughputTable) : Option (List ((Int × Int) × Rat)) :=
  (table.mapM fun (entry : String × Row) => entry.2.mapM fun (cell : String × Option Rat) =>
    (parseInt entry.1).bind fun x =>
      (parseInt cell.1).bind fun y => cell.2.map fun z => ((x, y), z)).map List.flatten

/-- Points, values and queries to results. -/
abbrev Griddata := List (Int × Int) → List Rat → List (Int × Int) → Option (List (Option Rat))

def addResult (table : ThroughputTable) (result : (Int × Int) × Option Rat) : ThroughputTable :=
  let row := (table.lookup (toString result.1.1)).getD []
  Dict.set (toString result.1.1) (Dict.set (toString result.1.2) result.2 row) table

/-- `results[i]` raises if there are too few of them. -/
def fillUpThroughputTable (griddata : Griddata) (table : ThroughputTable)
    (onDlim burlim : Int × Int) : Option ThroughputTable :=
  let queries := missingCells table onDlim burlim
  (convertDictToArr table).bind fun points =>
    (griddata (points.map Prod.fst) (points.map Prod.snd) queries).bind fun results =>
      if queries.length ≤ results.length then some ((queries.zip results).foldl addResult table)
      else none

/-! ### What has been read -/

def Row.Numbered (row : Row) : Prop := ∀ cell ∈ row, ∃ count, parseInt cell.1 = some count

def Numbered (table : ThroughputTable) : Prop := ∀ entry ∈ table, Row.Numbered entry.2

section Reading

variable {csv : Csv}

/-- A field is skipped or adds its column. -/
theorem readCell_cases {before after : Row × List Int} {field : String × String}
    (taken : readCell before field = some after) :
    after = before ∨ ∃ value count, parseInt field.1 = some count ∧
      after = (Dict.set field.1 value before.1, before.2 ++ [count]) := by
  unfold readCell at taken
  split at taken
  · exact .inl (Option.some.inj taken).symm
  · obtain ⟨value, _parsed, next⟩ := Option.bind_eq_some_iff.mp taken
    split at next
    · exact .inl (Option.some.inj next).symm
    · obtain ⟨count, parsed, same⟩ := Option.map_eq_some_iff.mp next
      exact .inr ⟨_, count, parsed, same.symm⟩

theorem readRow_cases {before after : TableReading} {row : List String}
    (taken : readRow csv before row = some after) :
    ∃ record cells ond count, run readCell ([], before.bur) record = some cells ∧
      after = ⟨Dict.set ond cells.1 before.throughput, before.onD ++ [count], cells.2⟩ := by
  obtain ⟨record, _made, next⟩ := Option.bind_eq_some_iff.mp taken
  obtain ⟨cells, read, rest⟩ := Option.bind_eq_some_iff.mp next
  obtain ⟨ond, _there, last⟩ := Option.bind_eq_some_iff.mp rest
  obtain ⟨count, _parsed, same⟩ := Option.map_eq_some_iff.mp last
  exact ⟨record, cells, ond, count, read, same.symm⟩

private theorem readCell_numbered {before after : Row × List Int} {field : String × String}
    (taken : readCell before field = some after) (numbered : Row.Numbered before.1) :
    Row.Numbered after.1 := by
  rcases readCell_cases taken with rfl | ⟨value, count, parsed, rfl⟩
  · exact numbered
  · intro cell member
    rcases Dict.mem_set member with old | rfl
    · exact numbered cell old
    · exact ⟨count, parsed⟩

private theorem readRow_numbered {before after : TableReading} {row : List String}
    (taken : readRow csv before row = some after) (numbered : Numbered before.throughput) :
    Numbered after.throughput := by
  obtain ⟨record, cells, ond, count, read, rfl⟩ := readRow_cases taken
  have filled := run_invariant read (fun cells => Row.Numbered cells.1)
    (fun _cell impossible => absurd impossible List.not_mem_nil)
    (fun _before _after _field _member => readCell_numbered)
  intro entry member
  rcases Dict.mem_set member with old | rfl
  · exact numbered entry old
  · exact filled

theorem limits_bounds {counts : List Int} {lim : Int × Int} (found : limits counts = some lim) :
    IsLeast {count | count ∈ counts} lim.1 ∧ IsGreatest {count | count ∈ counts} lim.2 := by
  cases counts with
  | nil => cases found
  | cons first rest =>
      obtain rfl := Option.some.inj found
      exact ⟨List.min?_eq_some_iff.mp List.min?_cons', List.max?_eq_some_iff.mp List.max?_cons'⟩

structure Read (table : ThroughputTable) (burlim : Int × Int) : Prop where
  numbered : Numbered table
  burRange : burlim.1 ≤ burlim.2

theorem readTable_cases {table : ThroughputTable} {onDlim burlim : Int × Int}
    (read : readTable csv = some (table, onDlim, burlim)) :
    ∃ reading, run (readRow csv) ⟨[], [], []⟩ (csv.rows.filter fun row => !row.isEmpty) =
        some reading ∧
      table = reading.throughput ∧ limits reading.bur = some burlim := by
  obtain ⟨reading, rows, next⟩ := Option.bind_eq_some_iff.mp read
  obtain ⟨onDlim', _onD, rest⟩ := Option.bind_eq_some_iff.mp next
  obtain ⟨burlim', bur, same⟩ := Option.map_eq_some_iff.mp rest
  cases same
  exact ⟨reading, rows, rfl, bur⟩

theorem readTable_read {table : ThroughputTable} {onDlim burlim : Int × Int}
    (read : readTable csv = some (table, onDlim, burlim)) : Read table burlim := by
  obtain ⟨reading, rows, rfl, bur⟩ := readTable_cases read
  have numbered := run_invariant rows (fun reading => Numbered reading.throughput)
    (fun _entry impossible => absurd impossible List.not_mem_nil)
    (fun _before _after _row _member => readRow_numbered)
  obtain ⟨least, greatest⟩ := limits_bounds bur
  exact ⟨numbered, least.2 greatest.1⟩

end Reading

/-! ### What has been filled up -/

def HasCell (table : ThroughputTable) (i j : Int) : Prop :=
  ∃ row, table.lookup (toString i) = some row ∧ (row.lookup (toString j)).isSome = true

def cellAt (table : ThroughputTable) (i j : Int) : Option (Option Rat) :=
  (table.lookup (toString i)).bind fun row => row.lookup (toString j)

theorem hasCell_iff {table : ThroughputTable} {i j : Int} :
    HasCell table i j ↔ (cellAt table i j).isSome = true := by
  unfold HasCell cellAt
  cases table.lookup (toString i) with
  | none => exact ⟨nofun, nofun⟩
  | some row =>
      constructor
      · rintro ⟨other, same, found⟩
        cases same
        exact found
      · exact fun found => ⟨row, rfl, found⟩

section Filling

variable {table : ThroughputTable} {onDlim burlim : Int × Int}

theorem cellAt_addResult_self (table : ThroughputTable) (result : (Int × Int) × Option Rat) :
    cellAt (addResult table result) result.1.1 result.1.2 = some result.2 := by
  unfold cellAt addResult
  rw [Dict.lookup_set_self, Option.bind_some, Dict.lookup_set_self]

theorem cellAt_addResult_of_ne {result : (Int × Int) × Option Rat} {i j : Int}
    (different : (i, j) ≠ result.1) : cellAt (addResult table result) i j = cellAt table i j := by
  unfold cellAt addResult
  dsimp only
  by_cases sameRow : i = result.1.1
  · have otherColumn : toString j ≠ toString result.1.2 := by
      intro sameColumn
      exact different (Prod.ext sameRow (toString_injective sameColumn))
    rw [sameRow, Dict.lookup_set_self, Option.bind_some, Dict.lookup_set_of_ne otherColumn]
    cases table.lookup (toString result.1.1) <;> rfl
  · rw [Dict.lookup_set_of_ne fun same => sameRow (toString_injective same)]

theorem addResult_hasCell (table : ThroughputTable) (result : (Int × Int) × Option Rat) :
    HasCell (addResult table result) result.1.1 result.1.2 := by
  rw [hasCell_iff, cellAt_addResult_self]
  rfl

theorem HasCell.addResult {i j : Int} (cell : HasCell table i j)
    (result : (Int × Int) × Option Rat) : HasCell (addResult table result) i j := by
  by_cases same : (i, j) = result.1
  · have here := addResult_hasCell table result
    rw [← same] at here
    exact here
  · rw [hasCell_iff, cellAt_addResult_of_ne same, ← hasCell_iff]
    exact cell

/-- An entry afterwards: one that was there, or the row of the result. -/
theorem mem_addResult {result : (Int × Int) × Option Rat} {entry : String × Row}
    (member : entry ∈ addResult table result) :
    entry ∈ table ∨ entry.1 = toString result.1.1 ∧ ∀ cell ∈ entry.2,
      (∃ row, (toString result.1.1, row) ∈ table ∧ cell ∈ row) ∨
        cell = (toString result.1.2, result.2) := by
  rcases Dict.mem_set member with kept | rfl
  · exact .inl kept
  · refine .inr ⟨rfl, ?_⟩
    intro cell inRow
    rcases Dict.mem_set inRow with earlier | new
    · cases there : table.lookup (toString result.1.1) with
      | none =>
          rw [there] at earlier
          exact absurd earlier List.not_mem_nil
      | some row =>
          rw [there] at earlier
          exact .inl ⟨row, Dict.mem_of_lookup there, earlier⟩
    · exact .inr new

theorem addResult_numbered (numbered : Numbered table) (result : (Int × Int) × Option Rat) :
    Numbered (addResult table result) := by
  intro entry member
  rcases mem_addResult member with kept | ⟨_label, cells⟩
  · exact numbered entry kept
  · intro cell inRow
    rcases cells cell inRow with ⟨row, there, earlier⟩ | rfl
    · exact numbered _ there cell earlier
    · exact ⟨result.1.2, parseInt_toString result.1.2⟩

/-- By induction over the results: cells stay, and every query gets one. -/
theorem foldl_addResult_hasCell (results : List ((Int × Int) × Option Rat)) {i j : Int}
    (either : HasCell table i j ∨ (i, j) ∈ results.map Prod.fst) :
    HasCell (results.foldl addResult table) i j := by
  induction results generalizing table with
  | nil => exact either.resolve_right List.not_mem_nil
  | cons result rest ih =>
      apply ih
      rcases either with there | queried
      · exact .inl (there.addResult result)
      · rcases List.mem_cons.mp queried with same | later
        · have here := addResult_hasCell table result
          rw [← same] at here
          exact .inl here
        · exact .inr later

theorem mem_rangeOf {lim : Int × Int} {count : Int} :
    count ∈ rangeOf lim ↔ lim.1 ≤ count ∧ count ≤ lim.2 := by
  unfold rangeOf
  rw [List.mem_map]
  constructor
  · rintro ⟨offset, member, rfl⟩
    have bound := List.mem_range.mp member
    omega
  · intro bounds
    refine ⟨(count - lim.1).toNat, List.mem_range.mpr (by omega), by omega⟩

theorem mem_missingCells {i j : Int} :
    (i, j) ∈ missingCells table onDlim burlim ↔
      i ∈ rangeOf onDlim ∧ j ∈ rangeOf burlim ∧ cellAt table i j = none := by
  have absent : (match table.lookup (toString i) with
      | none => true
      | some row => (row.lookup (toString j)).isNone) = true ↔ cellAt table i j = none := by
    unfold cellAt
    cases table.lookup (toString i) with
    | none => exact ⟨fun _true => rfl, fun _none => rfl⟩
    | some row => exact Option.isNone_iff_eq_none
  unfold missingCells
  rw [List.mem_flatMap]
  constructor
  · rintro ⟨i', onD, inRow⟩
    obtain ⟨j', kept, same⟩ := List.mem_map.mp inRow
    obtain ⟨rfl, rfl⟩ := Prod.mk.inj same
    obtain ⟨bur, missing⟩ := List.mem_filter.mp kept
    exact ⟨onD, bur, absent.mp missing⟩
  · rintro ⟨onD, bur, missing⟩
    exact ⟨i, onD, List.mem_map.mpr ⟨j, List.mem_filter.mpr ⟨bur, absent.mpr missing⟩, rfl⟩⟩

theorem hasCell_or_missing {i j : Int} (onD : i ∈ rangeOf onDlim) (bur : j ∈ rangeOf burlim) :
    HasCell table i j ∨ (i, j) ∈ missingCells table onDlim burlim := by
  rw [hasCell_iff, mem_missingCells, ← Option.ne_none_iff_isSome]
  by_cases missing : cellAt table i j = none
  · exact .inr ⟨onD, bur, missing⟩
  · exact .inl missing

theorem fillUp_cases {griddata : Griddata} {filled : ThroughputTable}
    (fill : fillUpThroughputTable griddata table onDlim burlim = some filled) :
    ∃ results, (missingCells table onDlim burlim).length ≤ results.length ∧
      filled = ((missingCells table onDlim burlim).zip results).foldl addResult table := by
  obtain ⟨points, _converted, next⟩ := Option.bind_eq_some_iff.mp fill
  obtain ⟨results, _answered, rest⟩ := Option.bind_eq_some_iff.mp next
  split at rest
  · rename_i enough
    exact ⟨results, enough, (Option.some.inj rest).symm⟩
  · cases rest

/-- Every row between the limits has every column between the limits. -/
theorem fillUp_complete {griddata : Griddata} {filled : ThroughputTable}
    (numbered : Numbered table)
    (fill : fillUpThroughputTable griddata table onDlim burlim = some filled) :
    Numbered filled ∧
      ∀ i ∈ rangeOf onDlim, ∀ j ∈ rangeOf burlim, HasCell filled i j := by
  obtain ⟨results, enough, rfl⟩ := fillUp_cases fill
  constructor
  · exact List.foldlRecOn _ addResult numbered
      fun _table kept result _member => addResult_numbered kept result
  · intro i onD j bur
    apply foldl_addResult_hasCell
    rw [List.map_fst_zip enough]
    exact hasCell_or_missing onD bur

end Filling

/-! ### Lookups that succeed -/

def Row.counts (row : Row) : Set Int := {count | ∃ cell ∈ row, parseInt cell.1 = some count}

theorem Row.mem_counts_of_cell {row : Row} {j : Int}
    (cell : (row.lookup (toString j)).isSome = true) : j ∈ row.counts := by
  obtain ⟨value, found⟩ := Option.isSome_iff_exists.mp cell
  exact ⟨_, Dict.mem_of_lookup found, parseInt_toString j⟩

theorem largestCount_greatest {row : Row} (numbered : row.Numbered) (nonempty : row ≠ []) :
    ∃ m, largestCount row = some m ∧ IsGreatest row.counts m := by
  obtain ⟨counts, all, listed⟩ := Dict.mapM_eq_some numbered
  unfold largestCount
  rw [all]
  cases counts with
  | nil =>
      obtain ⟨cell, rest, rfl⟩ := List.exists_cons_of_ne_nil nonempty
      obtain ⟨count, parsed⟩ := numbered cell List.mem_cons_self
      have member := (listed count).mpr ⟨cell, List.mem_cons_self, parsed⟩
      exact absurd member List.not_mem_nil
  | cons first rest =>
      have largest : (first :: rest).max? = some (rest.foldl max first) := List.max?_cons'
      obtain ⟨member, above⟩ := List.max?_eq_some_iff.mp largest
      refine ⟨_, rfl, (listed _).mp member, ?_⟩
      intro count inRow
      exact above count ((listed count).mpr inRow)

/-- A row with a column that is no negative number answers, and not with one. -/
theorem findNumberOfBurstable_isSome {table : ThroughputTable} (numbered : Numbered table)
    {onD j : Int} (cell : HasCell table onD j) (throughput : Rat) :
    ∃ b, findNumberOfBurstable table onD throughput 0 = some b ∧ (0 ≤ j → 0 ≤ b) := by
  obtain ⟨row, there, found⟩ := cell
  have nonempty : row ≠ [] := by
    rintro rfl
    cases found
  obtain ⟨m, largest, greatest⟩ :=
    largestCount_greatest (numbered _ (Dict.mem_of_lookup there)) nonempty
  have above := greatest.2 (Row.mem_counts_of_cell found)
  unfold findNumberOfBurstable
  rw [there, Option.bind_some, largest, Option.map_some]
  refine ⟨_, rfl, fun positive => ?_⟩
  dsimp only
  cases scanned : firstSufficient row throughput (m + 1 - 0).toNat 0 with
  | none =>
      simp only [Option.getD_none, if_true]
      omega
  | some count =>
      have nonneg := (firstSufficient_ge _ _ _ _ _ scanned).1
      rw [Option.getD_some, if_neg (by omega)]
      exact nonneg

end AutoBurst.Controller
