/-
What becomes of a throughput file: the cells that are read from it, and the
table after the missing cells have been interpolated.
-/

import AutoBurst.Controller.TableFile

namespace AutoBurst.Controller

open Runs

/-! ### Files -/

def Csv.data (csv : Csv) : List (List String) := csv.rows.filter fun row => !row.isEmpty

def Csv.Field (csv : Csv) (row : List String) (name text : String) : Prop :=
  (name, text) ∈ csv.fieldnames.zip row

instance (csv : Csv) (row : List String) (name text : String) :
    Decidable (csv.Field row name text) :=
  inferInstanceAs (Decidable ((name, text) ∈ csv.fieldnames.zip row))

def Csv.OnDemand (csv : Csv) (o : Int) : Prop :=
  ∃ row ∈ csv.data, csv.Field row "ond" (toString o)

/-- The file says that `o` on-demand and `b` burstable instances serve `value`. -/
def Csv.Measured (csv : Csv) (o b value : Int) : Prop :=
  ∃ row ∈ csv.data, csv.Field row "ond" (toString o) ∧
    ∃ text, csv.Field row (toString b) text ∧ parseInt text = some value ∧ value ≠ -1

/-- Headers and `ond` values are decimals without repetition, the cells are
integers, and one of them at least was measured. -/
structure Csv.WellFormed (csv : Csv) : Prop where
  headers : csv.fieldnames.Nodup
  columns : ∀ name ∈ csv.fieldnames, name ≠ "ond" → ∃ b : Int, name = toString b
  lengths : ∀ row ∈ csv.data, row.length = csv.fieldnames.length
  onDemand : ∀ row ∈ csv.data, ∃ o : Int, csv.Field row "ond" (toString o)
  distinct : csv.data.Pairwise fun one other =>
    ∀ text, csv.Field one "ond" text → ¬csv.Field other "ond" text
  integers : ∀ row ∈ csv.data, ∀ name text, csv.Field row name text → name ≠ "ond" →
    ∃ value, parseInt text = some value
  measured : ∃ o b value, csv.Measured o b value

/-! ### The lines -/

def measuredCell (field : String × String) : Option (String × Option Rat) :=
  if field.1 = "ond" then none
  else
    (parseInt field.2).bind fun (value : Int) =>
      if value = -1 then none else some (field.1, some (value : Rat))

def Csv.cells (csv : Csv) (row : List String) : Row :=
  (csv.fieldnames.zip row).filterMap measuredCell

def Csv.entry (csv : Csv) (row : List String) : String × Row :=
  (((csv.fieldnames.zip row).lookup "ond").getD "", csv.cells row)

def Row.columns (row : Row) : List Int := row.filterMap fun cell => parseInt cell.1

theorem measuredCell_eq_some {field : String × String} {cell : String × Option Rat} :
    measuredCell field = some cell ↔ field.1 ≠ "ond" ∧
      ∃ value, parseInt field.2 = some value ∧ value ≠ -1 ∧
        cell = (field.1, some (value : Rat)) := by
  unfold measuredCell
  by_cases label : field.1 = "ond"
  · rw [if_pos label]
    exact ⟨nofun, fun both => absurd label both.1⟩
  · rw [if_neg label, Option.bind_eq_some_iff]
    constructor
    · rintro ⟨value, parsed, kept⟩
      split at kept
      · cases kept
      · rename_i known
        exact ⟨label, value, parsed, known, (Option.some.inj kept).symm⟩
    · rintro ⟨_label, value, parsed, known, rfl⟩
      exact ⟨value, parsed, if_neg known⟩

theorem readCell_of_integers {field : String × String} {row : Row} (bur : List Int)
    (column : field.1 ≠ "ond" → ∃ b : Int, field.1 = toString b)
    (integer : field.1 ≠ "ond" → ∃ value, parseInt field.2 = some value)
    (fresh : field.1 ∉ row.map Prod.fst) :
    readCell (row, bur) field =
      some (row ++ (measuredCell field).toList,
        bur ++ Row.columns (measuredCell field).toList) := by
  unfold readCell measuredCell
  by_cases label : field.1 = "ond"
  · rw [if_pos label, if_pos label]
    simp [Row.columns]
  · obtain ⟨b, name⟩ := column label
    obtain ⟨value, parsed⟩ := integer label
    rw [if_neg label, if_neg label, parsed, Option.bind_some, Option.bind_some]
    by_cases unmeasured : value = -1
    · simp [unmeasured, Row.columns]
    · have count : parseInt field.1 = some b := by
        rw [name]
        exact parseInt_toString b
      rw [if_neg unmeasured, count, Option.map_some, Dict.set_fresh fresh]
      simp [unmeasured, Row.columns, count]

/-- By induction over the fields of a line. -/
theorem run_readCell {fields : List (String × String)} {row : Row} {bur : List Int}
    (columns : ∀ field ∈ fields, field.1 ≠ "ond" → ∃ b : Int, field.1 = toString b)
    (integers : ∀ field ∈ fields, field.1 ≠ "ond" → ∃ value, parseInt field.2 = some value)
    (fresh : ∀ field ∈ fields, field.1 ∉ row.map Prod.fst)
    (distinct : (fields.map Prod.fst).Nodup) :
    run readCell (row, bur) fields =
      some (row ++ fields.filterMap measuredCell,
        bur ++ Row.columns (fields.filterMap measuredCell)) := by
  induction fields generalizing row bur with
  | nil => simp [run, Row.columns]
  | cons field rest ih =>
      obtain ⟨column, laterColumns⟩ := List.forall_mem_cons.mp columns
      obtain ⟨integer, laterIntegers⟩ := List.forall_mem_cons.mp integers
      obtain ⟨new, laterFresh⟩ := List.forall_mem_cons.mp fresh
      obtain ⟨once, laterDistinct⟩ := List.nodup_cons.mp distinct
      have stillFresh : ∀ other ∈ rest,
          other.1 ∉ (row ++ (measuredCell field).toList).map Prod.fst := by
        intro other member inRow
        rw [List.map_append, List.mem_append] at inRow
        rcases inRow with old | added
        · exact laterFresh other member old
        · obtain ⟨cell, kept, same⟩ := List.mem_map.mp added
          obtain ⟨_label, _value, _parsed, _known, rfl⟩ :=
            measuredCell_eq_some.mp (Option.mem_toList.mp kept)
          exact once (List.mem_map.mpr ⟨other, member, same.symm⟩)
      have first : (field :: rest).filterMap measuredCell =
          (measuredCell field).toList ++ rest.filterMap measuredCell := by
        cases kept : measuredCell field <;> simp [kept]
      unfold run
      rw [readCell_of_integers bur column integer new, Option.bind_some,
        ih laterColumns laterIntegers stillFresh laterDistinct, first, Row.columns, Row.columns,
        Row.columns, List.filterMap_append, List.append_assoc, List.append_assoc]

section Lines

variable {csv : Csv}

theorem Csv.map_fst_zip {row : List String} (length : row.length = csv.fieldnames.length) :
    (csv.fieldnames.zip row).map Prod.fst = csv.fieldnames :=
  List.map_fst_zip (le_of_eq length.symm)

theorem Csv.lookup_eq_some {row : List String} {name text : String}
    (headers : csv.fieldnames.Nodup) (length : row.length = csv.fieldnames.length) :
    (csv.fieldnames.zip row).lookup name = some text ↔ csv.Field row name text := by
  rw [Dict.lookup_eq_some_iff_mem]
  · rfl
  · rw [Csv.map_fst_zip length]
    exact headers

theorem Csv.WellFormed.entry_fst (formed : csv.WellFormed) {row : List String}
    (member : row ∈ csv.data) {text : String} :
    (csv.entry row).1 = text ↔ csv.Field row "ond" text := by
  obtain ⟨o, field⟩ := formed.onDemand row member
  have found := (Csv.lookup_eq_some formed.headers (formed.lengths row member)).mpr field
  rw [← Csv.lookup_eq_some formed.headers (formed.lengths row member), Csv.entry, found]
  simp

theorem Csv.WellFormed.record (formed : csv.WellFormed) {row : List String}
    (member : row ∈ csv.data) : csv.record row = some (csv.fieldnames.zip row) := by
  have length := formed.lengths row member
  have distinct : (([] ++ csv.fieldnames.zip row).map Prod.fst).Nodup := by
    rw [List.nil_append, Csv.map_fst_zip length]
    exact formed.headers
  unfold Csv.record
  rw [if_pos length, Dict.foldl_set_distinct distinct, List.nil_append]

/-- The reading after a line whose `ond` value is new. -/
theorem Csv.WellFormed.readRow (formed : csv.WellFormed) {reading : TableReading}
    {row : List String} (member : row ∈ csv.data)
    (fresh : (csv.entry row).1 ∉ reading.throughput.map Prod.fst) {o : Int}
    (onDemand : csv.Field row "ond" (toString o)) :
    readRow csv reading row = some
      { throughput := reading.throughput ++ [csv.entry row]
        onD := reading.onD ++ [o]
        bur := reading.bur ++ (csv.cells row).columns } := by
  have length := formed.lengths row member
  have found := (Csv.lookup_eq_some formed.headers length).mpr onDemand
  have label := (formed.entry_fst member).mpr onDemand
  have cells : run readCell ([], reading.bur) (csv.fieldnames.zip row) =
      some ([] ++ csv.cells row, reading.bur ++ (csv.cells row).columns) := by
    apply run_readCell
    · intro field inRow
      exact formed.columns field.1 (List.of_mem_zip inRow).1
    · intro field inRow
      exact formed.integers row member field.1 field.2 inRow
    · intro field _inRow
      exact List.not_mem_nil
    · rw [Csv.map_fst_zip length]
      exact formed.headers
  rw [label] at fresh
  unfold Controller.readRow
  rw [formed.record member, Option.bind_some, cells, Option.bind_some, found, Option.bind_some,
    parseInt_toString, Option.map_some, Dict.set_fresh fresh, List.nil_append, ← label]
  rfl

/-- By induction over the lines. -/
theorem Csv.WellFormed.run_readRow (formed : csv.WellFormed) {rows : List (List String)}
    (inFile : ∀ row ∈ rows, row ∈ csv.data)
    (distinct : rows.Pairwise fun one other => (csv.entry one).1 ≠ (csv.entry other).1)
    {reading : TableReading}
    (fresh : ∀ row ∈ rows, (csv.entry row).1 ∉ reading.throughput.map Prod.fst) :
    run (Controller.readRow csv) reading rows = some
      { throughput := reading.throughput ++ rows.map csv.entry
        onD := reading.onD ++ rows.filterMap fun row => parseInt (csv.entry row).1
        bur := reading.bur ++ rows.flatMap fun row => (csv.cells row).columns } := by
  induction rows generalizing reading with
  | nil => simp [run]
  | cons row rest ih =>
      obtain ⟨here, later⟩ := List.forall_mem_cons.mp inFile
      obtain ⟨new, laterNew⟩ := List.forall_mem_cons.mp fresh
      obtain ⟨apart, laterApart⟩ := List.pairwise_cons.mp distinct
      obtain ⟨o, onDemand⟩ := formed.onDemand row here
      have label : parseInt (csv.entry row).1 = some o := by
        rw [(formed.entry_fst here).mpr onDemand]
        exact parseInt_toString o
      unfold run
      rw [formed.readRow here new onDemand, Option.bind_some, ih later laterApart]
      · simp [label, List.append_assoc]
      · intro other member inTable
        rw [List.map_append, List.mem_append] at inTable
        rcases inTable with old | added
        · exact laterNew other member old
        · exact apart other member (List.mem_singleton.mp added).symm

end Lines

/-! ### The table of a file -/

theorem toString_ne_ond (b : Int) : toString b ≠ "ond" := by
  intro same
  have parsed := parseInt_toString b
  rw [same] at parsed
  cases parsed

def Canonical (table : ThroughputTable) : Prop :=
  ∀ entry ∈ table, (∃ o : Int, entry.1 = toString o) ∧
    ∀ cell ∈ entry.2, ∃ b : Int, cell.1 = toString b

theorem Canonical.numbered {table : ThroughputTable} (canonical : Canonical table) :
    Numbered table := by
  intro entry member cell inRow
  obtain ⟨b, name⟩ := (canonical entry member).2 cell inRow
  rw [name]
  exact ⟨b, parseInt_toString b⟩

section Tables

variable {csv : Csv}

theorem Csv.mem_cells {row : List String} {cell : String × Option Rat} :
    cell ∈ csv.cells row ↔ cell.1 ≠ "ond" ∧ ∃ text value, csv.Field row cell.1 text ∧
      parseInt text = some value ∧ value ≠ -1 ∧ cell.2 = some (value : Rat) := by
  unfold Csv.cells Csv.Field
  rw [List.mem_filterMap]
  constructor
  · rintro ⟨field, member, kept⟩
    obtain ⟨label, value, parsed, known, rfl⟩ := measuredCell_eq_some.mp kept
    exact ⟨label, field.2, value, member, parsed, known, rfl⟩
  · rintro ⟨label, text, value, member, parsed, known, same⟩
    refine ⟨_, member, measuredCell_eq_some.mpr ⟨label, value, parsed, known, ?_⟩⟩
    rw [← same]

theorem Csv.WellFormed.cells_canonical (formed : csv.WellFormed) {row : List String}
    {cell : String × Option Rat} (member : cell ∈ csv.cells row) :
    ∃ b : Int, cell.1 = toString b := by
  obtain ⟨label, _text, _value, field, _known⟩ := Csv.mem_cells.mp member
  exact formed.columns cell.1 (List.of_mem_zip field).1 label

theorem Csv.WellFormed.cells_distinct (formed : csv.WellFormed) {row : List String}
    (member : row ∈ csv.data) : ((csv.cells row).map Prod.fst).Nodup := by
  have headers : ((csv.fieldnames.zip row).map Prod.fst).Nodup := by
    rw [Csv.map_fst_zip (formed.lengths row member)]
    exact formed.headers
  rw [List.Nodup, List.pairwise_map] at headers ⊢
  unfold Csv.cells
  rw [List.pairwise_filterMap]
  refine headers.imp ?_
  intro one other apart cell kept next keptNext
  obtain ⟨_label, _value, _parsed, _known, rfl⟩ := measuredCell_eq_some.mp kept
  obtain ⟨_label, _value, _parsed, _known, rfl⟩ := measuredCell_eq_some.mp keptNext
  exact apart

theorem Csv.WellFormed.entries_distinct (formed : csv.WellFormed) :
    csv.data.Pairwise fun one other => (csv.entry one).1 ≠ (csv.entry other).1 := by
  refine formed.distinct.imp_of_mem ?_
  intro one other here there apart same
  have label := (formed.entry_fst here).mp rfl
  exact apart _ label ((formed.entry_fst there).mp same.symm)

/-- What the table of the file has for these counts. -/
theorem Csv.WellFormed.cellAt_eq_some (formed : csv.WellFormed) {o b : Int} {cell : Option Rat} :
    cellAt (csv.data.map csv.entry) o b = some cell ↔
      ∃ value, csv.Measured o b value ∧ cell = some (value : Rat) := by
  have keys : ((csv.data.map csv.entry).map Prod.fst).Nodup := by
    rw [List.map_map, List.Nodup, List.pairwise_map]
    exact formed.entries_distinct
  unfold cellAt
  rw [Option.bind_eq_some_iff]
  constructor
  · rintro ⟨cells, found, there⟩
    obtain ⟨row, member, same⟩ := List.mem_map.mp (Dict.mem_of_lookup found)
    obtain ⟨label, rfl⟩ := Prod.mk.inj same
    obtain ⟨_apart, text, value, field, parsed, known, rfl⟩ :=
      Csv.mem_cells.mp (Dict.mem_of_lookup there)
    exact ⟨value, ⟨row, member, (formed.entry_fst member).mp label, text, field, parsed, known⟩,
      rfl⟩
  · rintro ⟨value, ⟨row, member, onDemand, text, field, parsed, known⟩, rfl⟩
    refine ⟨csv.cells row, ?_, ?_⟩
    · rw [Dict.lookup_eq_some_iff_mem keys, ← (formed.entry_fst member).mpr onDemand]
      exact List.mem_map.mpr ⟨row, member, rfl⟩
    · rw [Dict.lookup_eq_some_iff_mem (formed.cells_distinct member)]
      exact Csv.mem_cells.mpr ⟨toString_ne_ond b, text, value, field, parsed, known, rfl⟩

theorem Csv.WellFormed.canonical (formed : csv.WellFormed) :
    Canonical (csv.data.map csv.entry) := by
  intro entry inTable
  obtain ⟨row, member, rfl⟩ := List.mem_map.mp inTable
  obtain ⟨o, onDemand⟩ := formed.onDemand row member
  refine ⟨⟨o, (formed.entry_fst member).mpr onDemand⟩, ?_⟩
  intro cell inRow
  exact formed.cells_canonical inRow

/-- The `ond` values that are collected. -/
theorem Csv.WellFormed.mem_onD (formed : csv.WellFormed) {o : Int} :
    (o ∈ csv.data.filterMap fun row => parseInt (csv.entry row).1) ↔ csv.OnDemand o := by
  rw [List.mem_filterMap]
  constructor
  · rintro ⟨row, member, parsed⟩
    obtain ⟨o', onDemand⟩ := formed.onDemand row member
    rw [(formed.entry_fst member).mpr onDemand, parseInt_toString] at parsed
    rw [Option.some.inj parsed] at onDemand
    exact ⟨row, member, onDemand⟩
  · rintro ⟨row, member, onDemand⟩
    refine ⟨row, member, ?_⟩
    rw [(formed.entry_fst member).mpr onDemand]
    exact parseInt_toString o

/-- The burstable counts that are collected. -/
theorem Csv.WellFormed.mem_bur (formed : csv.WellFormed) {b : Int} :
    (b ∈ csv.data.flatMap fun row => (csv.cells row).columns) ↔
      ∃ o value, csv.Measured o b value := by
  rw [List.mem_flatMap]
  constructor
  · rintro ⟨row, member, inColumns⟩
    obtain ⟨cell, inRow, parsed⟩ := List.mem_filterMap.mp inColumns
    obtain ⟨o, onDemand⟩ := formed.onDemand row member
    obtain ⟨b', name⟩ := formed.cells_canonical inRow
    rw [name, parseInt_toString] at parsed
    obtain ⟨_label, text, value, field, integer, known, _same⟩ := Csv.mem_cells.mp inRow
    rw [name, Option.some.inj parsed] at field
    exact ⟨o, value, row, member, onDemand, text, field, integer, known⟩
  · rintro ⟨o, value, row, member, _onDemand, text, field, integer, known⟩
    refine ⟨row, member, List.mem_filterMap.mpr ⟨(toString b, some (value : Rat)), ?_, ?_⟩⟩
    · exact Csv.mem_cells.mpr ⟨toString_ne_ond b, text, value, field, integer, known, rfl⟩
    · exact parseInt_toString b

theorem limits_isSome {counts : List Int} {count : Int} (member : count ∈ counts) :
    ∃ lim, limits counts = some lim := by
  cases counts with
  | nil => exact absurd member List.not_mem_nil
  | cons first rest => exact ⟨_, rfl⟩

structure Csv.Limits (csv : Csv) (onDlim burlim : Int × Int) : Prop where
  onD : IsLeast {o | csv.OnDemand o} onDlim.1 ∧ IsGreatest {o | csv.OnDemand o} onDlim.2
  bur : IsLeast {b | ∃ o value, csv.Measured o b value} burlim.1 ∧
    IsGreatest {b | ∃ o value, csv.Measured o b value} burlim.2

theorem Csv.WellFormed.readTable (formed : csv.WellFormed) :
    ∃ onDlim burlim, readTable csv = some (csv.data.map csv.entry, onDlim, burlim) ∧
      csv.Limits onDlim burlim := by
  have rows : run (Controller.readRow csv) ⟨[], [], []⟩ csv.data = _ :=
    formed.run_readRow (fun _row member => member) formed.entries_distinct
      (fun _row _member => List.not_mem_nil)
  obtain ⟨o, b, value, measured⟩ := formed.measured
  have onDemand : csv.OnDemand o := by
    obtain ⟨row, member, label, _cell⟩ := measured
    exact ⟨row, member, label⟩
  obtain ⟨onDlim, onD⟩ := limits_isSome (formed.mem_onD.mpr onDemand)
  obtain ⟨burlim, bur⟩ := limits_isSome (formed.mem_bur.mpr ⟨o, value, measured⟩)
  have boundsOnD := limits_bounds onD
  have boundsBur := limits_bounds bur
  simp only [formed.mem_onD] at boundsOnD
  simp only [formed.mem_bur] at boundsBur
  refine ⟨onDlim, burlim, ?_, boundsOnD, boundsBur⟩
  unfold Controller.readTable
  rw [← Csv.data, rows, Option.bind_some, List.nil_append, List.nil_append, List.nil_append, onD,
    Option.bind_some, bur]
  rfl

end Tables

/-! ### Interpolation -/

/-- `griddata` answers each query by itself. -/
def pointwise (interpolate : List (Int × Int) → List Rat → Int × Int → Option Rat) : Griddata :=
  fun points values queries => some (queries.map (interpolate points values))

section Interpolation

variable {table : ThroughputTable}

theorem addResult_canonical (canonical : Canonical table) (result : (Int × Int) × Option Rat) :
    Canonical (addResult table result) := by
  intro entry member
  rcases mem_addResult member with kept | ⟨label, cells⟩
  · exact canonical entry kept
  · refine ⟨⟨result.1.1, label⟩, ?_⟩
    intro cell inRow
    rcases cells cell inRow with ⟨row, there, earlier⟩ | rfl
    · exact (canonical _ there).2 cell earlier
    · exact ⟨result.1.2, rfl⟩

/-- By induction over the queries: each gets its answer, the other cells stay. -/
theorem cellAt_foldl_addResult (answer : Int × Int → Option Rat) (queries : List (Int × Int))
    (i j : Int) :
    cellAt ((queries.map fun query => (query, answer query)).foldl addResult table) i j =
      if (i, j) ∈ queries then some (answer (i, j)) else cellAt table i j := by
  induction queries generalizing table with
  | nil => rw [if_neg List.not_mem_nil]; rfl
  | cons query rest ih =>
      rw [List.map_cons, List.foldl_cons, ih]
      by_cases later : (i, j) ∈ rest
      · rw [if_pos later, if_pos (List.mem_cons_of_mem _ later)]
      · rw [if_neg later]
        by_cases same : (i, j) = query
        · have here := cellAt_addResult_self table (query, answer query)
          rw [← same] at here
          rw [← same, if_pos List.mem_cons_self]
          exact here
        · rw [if_neg (List.not_mem_cons_of_ne_of_not_mem same later)]
          exact cellAt_addResult_of_ne same

def pointOf (name : String) (cell : String × Option Rat) : Option ((Int × Int) × Rat) :=
  (parseInt name).bind fun x => (parseInt cell.1).bind fun y => cell.2.map fun z => ((x, y), z)

theorem pointOf_eq_some {name : String} {cell : String × Option Rat} {point : (Int × Int) × Rat} :
    pointOf name cell = some point ↔ parseInt name = some point.1.1 ∧
      parseInt cell.1 = some point.1.2 ∧ cell.2 = some point.2 := by
  unfold pointOf
  constructor
  · intro made
    obtain ⟨x, row, next⟩ := Option.bind_eq_some_iff.mp made
    obtain ⟨y, column, last⟩ := Option.bind_eq_some_iff.mp next
    obtain ⟨z, value, rfl⟩ := Option.map_eq_some_iff.mp last
    exact ⟨row, column, value⟩
  · rintro ⟨row, column, value⟩
    rw [row, column, value]
    rfl

/-- A table whose cells are numbers can be converted, and nothing is lost. -/
theorem convertDictToArr_isSome (canonical : Canonical table)
    (numbers : ∀ entry ∈ table, ∀ cell ∈ entry.2, ∃ value, cell.2 = some value) :
    ∃ points, convertDictToArr table = some points ∧
      ∀ point, point ∈ points ↔ ∃ entry ∈ table, ∃ cell ∈ entry.2,
        pointOf entry.1 cell = some point := by
  have row : ∀ entry ∈ table, ∃ points, entry.2.mapM (pointOf entry.1) = some points ∧
      ∀ point, point ∈ points ↔ ∃ cell ∈ entry.2, pointOf entry.1 cell = some point := by
    intro entry member
    apply Dict.mapM_eq_some
    intro cell inRow
    obtain ⟨⟨o, name⟩, columns⟩ := canonical entry member
    obtain ⟨b, column⟩ := columns cell inRow
    obtain ⟨value, number⟩ := numbers entry member cell inRow
    refine ⟨((o, b), value), pointOf_eq_some.mpr ⟨?_, ?_, number⟩⟩
    · rw [name]
      exact parseInt_toString o
    · rw [column]
      exact parseInt_toString b
  obtain ⟨rows, all, listed⟩ := Dict.mapM_eq_some (f := fun entry : String × Row =>
      entry.2.mapM (pointOf entry.1))
    (fun entry member => (row entry member).imp fun _ both => both.1)
  refine ⟨rows.flatten, congrArg (Option.map List.flatten) all, ?_⟩
  intro point
  rw [List.mem_flatten]
  constructor
  · rintro ⟨points, inRows, inPoints⟩
    obtain ⟨entry, member, made⟩ := (listed points).mp inRows
    obtain ⟨points', made', listed'⟩ := row entry member
    rw [Option.some.inj (made.symm.trans made'), listed'] at inPoints
    exact ⟨entry, member, inPoints⟩
  · rintro ⟨entry, member, inRow⟩
    obtain ⟨points, made, listed'⟩ := row entry member
    exact ⟨points, (listed points).mpr ⟨entry, member, made⟩, (listed' point).mpr inRow⟩

/-- The table that is filled up point by point. -/
theorem fillUp_pointwise (interpolate : List (Int × Int) → List Rat → Int × Int → Option Rat)
    (onDlim burlim : Int × Int) {points : List ((Int × Int) × Rat)}
    (converted : convertDictToArr table = some points) (canonical : Canonical table) :
    ∃ filled, fillUpThroughputTable (pointwise interpolate) table onDlim burlim = some filled ∧
      Canonical filled ∧
      ∀ i j, cellAt filled i j = if (i, j) ∈ missingCells table onDlim burlim then
        some (interpolate (points.map Prod.fst) (points.map Prod.snd) (i, j))
        else cellAt table i j := by
  have paired : ∀ (answer : Int × Int → Option Rat) (queries : List (Int × Int)),
      queries.zip (queries.map answer) = queries.map fun query => (query, answer query) := by
    intro answer queries
    simpa using List.zip_map' (f := id) (g := answer) (l := queries)
  refine ⟨_, ?_, ?_, cellAt_foldl_addResult _ _⟩
  · unfold fillUpThroughputTable pointwise
    dsimp only
    rw [converted, Option.bind_some, Option.bind_some, List.length_map, if_pos le_rfl, paired]
  · exact List.foldlRecOn _ addResult canonical
      fun _table kept result _member => addResult_canonical kept result

end Interpolation

/-! ### The filled table -/

section Filled

variable {csv : Csv}

theorem Csv.Limits.mem_ranges {onDlim burlim : Int × Int} (limits : csv.Limits onDlim burlim)
    {o b value : Int} (measured : csv.Measured o b value) :
    o ∈ rangeOf onDlim ∧ b ∈ rangeOf burlim := by
  have onDemand : csv.OnDemand o := by
    obtain ⟨row, member, label, _cell⟩ := measured
    exact ⟨row, member, label⟩
  have count : ∃ o value, csv.Measured o b value := ⟨o, value, measured⟩
  rw [mem_rangeOf, mem_rangeOf]
  exact ⟨⟨limits.onD.1.2 onDemand, limits.onD.2.2 onDemand⟩,
    ⟨limits.bur.1.2 count, limits.bur.2.2 count⟩⟩

/-- The points of a file are its measured cells. -/
theorem Csv.WellFormed.points (formed : csv.WellFormed) :
    ∃ points, convertDictToArr (csv.data.map csv.entry) = some points ∧
      ∀ o b value, ((o, b), value) ∈ points ↔
        ∃ number : Int, csv.Measured o b number ∧ value = number := by
  have numbers : ∀ entry ∈ csv.data.map csv.entry, ∀ cell ∈ entry.2,
      ∃ value, cell.2 = some value := by
    intro entry inTable cell inRow
    obtain ⟨row, _member, rfl⟩ := List.mem_map.mp inTable
    obtain ⟨_label, _text, value, _field, _parsed, _known, same⟩ := Csv.mem_cells.mp inRow
    exact ⟨value, same⟩
  obtain ⟨points, converted, listed⟩ := convertDictToArr_isSome formed.canonical numbers
  refine ⟨points, converted, ?_⟩
  intro o b value
  rw [listed]
  constructor
  · rintro ⟨entry, inTable, cell, inRow, made⟩
    obtain ⟨name, column, number⟩ := pointOf_eq_some.mp made
    obtain ⟨row, member, rfl⟩ := List.mem_map.mp inTable
    obtain ⟨o', onDemand⟩ := formed.onDemand row member
    rw [(formed.entry_fst member).mpr onDemand, parseInt_toString] at name
    obtain ⟨b', label⟩ := formed.cells_canonical inRow
    obtain ⟨_label, text, known, field, parsed, measured, same⟩ := Csv.mem_cells.mp inRow
    rw [label, parseInt_toString] at column
    rw [label, Option.some.inj column] at field
    rw [Option.some.inj name] at onDemand
    exact ⟨known, ⟨row, member, onDemand, text, field, parsed, measured⟩,
      Option.some.inj (number.symm.trans same)⟩
  · rintro ⟨number, ⟨row, member, onDemand, text, field, parsed, known⟩, rfl⟩
    refine ⟨csv.entry row, List.mem_map.mpr ⟨row, member, rfl⟩, (toString b, some (number : Rat)),
      Csv.mem_cells.mpr ⟨toString_ne_ond b, text, number, field, parsed, known, rfl⟩,
      pointOf_eq_some.mpr ⟨?_, parseInt_toString b, rfl⟩⟩
    rw [(formed.entry_fst member).mpr onDemand]
    exact parseInt_toString o

/-- The filled table has the cells between the limits and no others. A measured
cell keeps its value, any other holds the answer for its own coordinates. -/
theorem fillUp_conservative (formed : csv.WellFormed)
    (interpolate : List (Int × Int) → List Rat → Int × Int → Option Rat) :
    ∃ (table : ThroughputTable) (onDlim burlim : Int × Int) (points : List ((Int × Int) × Rat))
      (filled : ThroughputTable),
      readTable csv = some (table, onDlim, burlim) ∧
      csv.Limits onDlim burlim ∧
      (∀ o b value, ((o, b), value) ∈ points ↔
        ∃ number : Int, csv.Measured o b number ∧ value = number) ∧
      fillUpThroughputTable (pointwise interpolate) table onDlim burlim = some filled ∧
      Canonical filled ∧
      (∀ o b, HasCell filled o b ↔
        (onDlim.1 ≤ o ∧ o ≤ onDlim.2) ∧ burlim.1 ≤ b ∧ b ≤ burlim.2) ∧
      (∀ o b value, csv.Measured o b value → cellAt filled o b = some (some (value : Rat))) ∧
      ∀ o b, (∀ value, ¬csv.Measured o b value) → HasCell filled o b →
        cellAt filled o b =
          some (interpolate (points.map Prod.fst) (points.map Prod.snd) (o, b)) := by
  obtain ⟨onDlim, burlim, read, limits⟩ := formed.readTable
  obtain ⟨points, converted, listed⟩ := formed.points
  obtain ⟨filled, fill, canonical, cells⟩ :=
    fillUp_pointwise interpolate onDlim burlim converted formed.canonical
  have unmeasured : ∀ {o b}, cellAt (csv.data.map csv.entry) o b = none ↔
      ∀ value, ¬csv.Measured o b value := by
    intro o b
    rw [Option.eq_none_iff_forall_ne_some]
    constructor
    · intro absent value measured
      exact absent _ (formed.cellAt_eq_some.mpr ⟨value, measured, rfl⟩)
    · intro never cell found
      obtain ⟨value, measured, _same⟩ := formed.cellAt_eq_some.mp found
      exact never value measured
  have kept : ∀ o b value, csv.Measured o b value →
      cellAt filled o b = some (some (value : Rat)) := by
    intro o b value measured
    have found := formed.cellAt_eq_some.mpr ⟨value, measured, rfl⟩
    rw [cells, if_neg, found]
    intro missing
    rw [(mem_missingCells.mp missing).2.2] at found
    cases found
  have inRange : ∀ o b, HasCell filled o b ↔ o ∈ rangeOf onDlim ∧ b ∈ rangeOf burlim := by
    intro o b
    constructor
    · intro there
      rw [hasCell_iff, cells] at there
      split at there
      · rename_i missing
        obtain ⟨onD, bur, _absent⟩ := mem_missingCells.mp missing
        exact ⟨onD, bur⟩
      · obtain ⟨cell, found⟩ := Option.isSome_iff_exists.mp there
        obtain ⟨value, measured, _same⟩ := formed.cellAt_eq_some.mp found
        exact limits.mem_ranges measured
    · rintro ⟨onD, bur⟩
      exact (fillUp_complete formed.canonical.numbered fill).2 o onD b bur
  refine ⟨_, onDlim, burlim, points, filled, read, limits, listed, fill, canonical, ?_, kept, ?_⟩
  · intro o b
    rw [inRange, mem_rangeOf, mem_rangeOf]
  · intro o b never there
    obtain ⟨onD, bur⟩ := (inRange o b).mp there
    rw [cells, if_pos (mem_missingCells.mpr ⟨onD, bur, unmeasured.mpr never⟩)]

end Filled

def sparseCsv : Csv :=
  ⟨["ond", "0", "2"], [["1", "10", "-1"], [], ["3", "-1", "40"], ["4", "-1", "-1"]]⟩

theorem sparseCsv_data :
    sparseCsv.data = [["1", "10", "-1"], ["3", "-1", "40"], ["4", "-1", "-1"]] := by
  decide

theorem sparseCsv_wellFormed : sparseCsv.WellFormed := by
  refine ⟨by decide, ?_, ?_, ?_, ?_, ?_, ?_⟩
  · intro name member label
    simp only [sparseCsv, List.mem_cons, List.not_mem_nil, or_false] at member
    rcases member with rfl | rfl | rfl
    · exact absurd rfl label
    · exact ⟨0, by decide⟩
    · exact ⟨2, by decide⟩
  · rw [sparseCsv_data]
    decide
  · rw [sparseCsv_data]
    intro row member
    simp only [List.mem_cons, List.not_mem_nil, or_false] at member
    rcases member with rfl | rfl | rfl
    · exact ⟨1, by decide⟩
    · exact ⟨3, by decide⟩
    · exact ⟨4, by decide⟩
  · rw [sparseCsv_data]
    simp [Csv.Field, sparseCsv]
  · have all : ∀ row ∈ sparseCsv.data, ∀ field ∈ sparseCsv.fieldnames.zip row,
        field.1 ≠ "ond" → (parseInt field.2).isSome = true := by
      rw [sparseCsv_data]
      decide
    intro row member name text field label
    exact Option.isSome_iff_exists.mp (all row member (name, text) field label)
  · exact ⟨1, 0, 10, ["1", "10", "-1"], by decide, by decide, "10", by decide, by decide, by decide⟩

theorem fillUp_conservative_sparse :
    sparseCsv.WellFormed ∧ ∃ table filled,
      readTable sparseCsv = some (table, (1, 4), (0, 2)) ∧
      fillUpThroughputTable (pointwise fun _points _values query => some query.1) table (1, 4)
        (0, 2) = some filled ∧
      cellAt filled 3 2 = some (some 40) ∧ cellAt filled 2 1 = some (some 2) := by
  obtain ⟨table, onDlim, burlim, points, filled, read, _limits, _listed, fill, _canonical, cells,
    kept, interpolated⟩ := fillUp_conservative sparseCsv_wellFormed
      fun _points _values query => some (query.1 : Rat)
  have bounds : (readTable sparseCsv).map Prod.snd = some ((1, 4), (0, 2)) := by decide +kernel
  rw [read] at bounds
  cases bounds
  refine ⟨sparseCsv_wellFormed, table, filled, read, fill, ?_, ?_⟩
  · exact kept 3 2 40 ⟨["3", "-1", "40"], by decide, by decide, "40", by decide, by decide,
      by decide⟩
  · have noLine : ∀ row ∈ sparseCsv.data, ¬sparseCsv.Field row "ond" (toString (2 : Int)) := by
      rw [sparseCsv_data]
      decide
    have absent : ∀ value, ¬sparseCsv.Measured 2 1 value := by
      rintro value ⟨row, member, onDemand, _cell⟩
      exact noLine row member onDemand
    exact interpolated 2 1 absent ((cells 2 1).mpr (by decide))

end AutoBurst.Controller
