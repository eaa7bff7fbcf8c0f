import Veda.Lib.Outcome
import Veda.Lib.Padding
import Veda.Onto.Faults
import Veda.SearchIndex.PredicateTables
import Veda.SearchIndex.TypeTables

set_option autoImplicit false

/-!
# The columns of a class table

A block of a class table has a column for every predicate and type of values that an individual of
the block has. Its name is the predicate, with other characters than letters and digits replaced,
and a suffix for the type; integers and booleans share a suffix, and texts and uris. A column gets
its rows late: when an individual has values for it, it is first filled up to the row of this
individual, by the difference of the two lengths, and at the end all columns are filled up.

## Main definitions

* `SearchIndexTt.addToTable`, `SearchIndexTt.mkBlock`,
  `SearchIndexTt.processBatch` — the rows of a block, and its columns, with the places at
  which the program can stop.
* `SearchIndexTt.nameOf` — the column of the values of a predicate.

## Main results

* `SearchIndexTt.ends_addPredicates`, `SearchIndexTt.lookup_addPredicates` — when the
  predicates of an individual are added, and what is in the columns then.

## Design

The values are those of the columns: texts with their quotes escaped and with their language, and
points in time in seconds. The creation of columns and the insertion of a block are left out.
-/

namespace Veda.SearchIndexTt

open Veda.Lib Veda.Onto
open Veda.SearchIndexPt (escapeQuotes langSuffix textsOf join)

/-! ## Columns -/

/-- The types of columns. -/
inductive Kind
  | str
  | date
  | int
  | dec
  deriving DecidableEq

namespace Kind

/-- The values in a column. -/
def Value : Kind → Type
  | .str => String
  | .date => ℤ
  | .int => Int64
  | .dec => Float

/-- What is behind the name of a column. -/
def suffix : Kind → String
  | .str => "_str"
  | .date => "_date"
  | .int => "_int"
  | .dec => "_dec"

/-- The value with which columns are filled up. -/
def empty : (kind : Kind) → kind.Value
  | .str => ""
  | .date => (0 : ℤ)
  | .int => (0 : Int64)
  | .dec => (0 : Float)

end Kind

/-- The values of an individual in a column. -/
structure Cell where
  kind : Kind
  values : List kind.Value

/-- A column: the values of each row. -/
structure ColumnData where
  kind : Kind
  rows : List (List kind.Value)

/-- What stops the program. -/
inductive Halt
  /-- a list of values is empty -/
  | panic (p : Panic)
  /-- an operation on integers, or a function of a library -/
  | fault (f : Fault)
  deriving DecidableEq

namespace ColumnData

/-- A column without rows. -/
def new (kind : Kind) : ColumnData := ⟨kind, []⟩

/-- What is in row `k`, now or when the column is filled up. -/
def cellAt (column : ColumnData) (k : ℕ) : Cell :=
  ⟨column.kind, rowAt [column.kind.empty] column.rows k⟩

/-- The column is filled up (`rows - column.len()`). -/
def fill (column : ColumnData) (rows : ℕ) : Except Halt ColumnData :=
  if column.rows.length ≤ rows then
    .ok ⟨column.kind, fillTo [column.kind.empty] rows column.rows⟩
  -- without a check of the difference it would be too large for the length of a vector
  else .error (.fault .overflow)

/-- The column with the values of a cell behind it. -/
def append (column : ColumnData) (cell : Cell) : ColumnData :=
  if h : cell.kind = column.kind then ⟨column.kind, column.rows ++ [h ▸ cell.values]⟩ else column

/-- The values of a row are added; a column of another type stays as it is. -/
def push (column : ColumnData) (rows : ℕ) (cell : Cell) : Except Halt ColumnData :=
  if cell.kind = column.kind then (·.append cell) <$> column.fill rows else .ok column

end ColumnData

/-- A predicate without its special characters, and the suffix of the column. -/
def columnName (predicate : String) (kind : Kind) : String :=
  String.ofList (predicate.toList.map fun c => if c.isAlphanum then c else '_') ++ kind.suffix

/-- The type of the column for values of a type. -/
def kindOf : DataType → Option Kind
  | .integer => some .int
  | .string => some .str
  | .uri => some .str
  | .boolean => some .int
  | .decimal => some .dec
  | .datetime => some .date
  | .binary => none

/-! ## Rows -/

/-- An element of a batch: the number of the operation, the individual, and the sign. -/
structure BatchItem where
  opId : ℤ
  individual : IndividualObj
  sign : ℤ

/-- `op_id * sign` -/
def BatchItem.signedOp (el : BatchItem) : ℤ := el.opId * el.sign

/-- The columns of a block. -/
structure Table where
  ids : List String
  signs : List ℤ
  versions : List UInt32
  texts : List String
  columns : HashMap String ColumnData

def Table.empty : Table := ⟨[], [], [], [], ∅⟩

/-- What is inserted: all columns have the same number of rows. -/
structure Block where
  ids : List String
  signs : List ℤ
  versions : List UInt32
  texts : List String
  columns : List (String × ColumnData)

section Processing

variable (crates : ChronoDecimal)

/-- `Tz::UTC.timestamp` -/
def timestamp (t : Int64) : Except Halt ℤ := (crates.timestamp t.toInt).mapError .fault

/-- The values of a predicate in a column; the first one decides on the column. -/
def cellOf (resources : List Resource) : Except Halt (Option Cell) :=
  match resources with
  | [] => .error (.panic .indexOutOfBounds)
  | first :: _ =>
    match first.rtype with
    | .integer => .ok (some ⟨.int, resources.map (·.getInt)⟩)
    | .string => .ok (some ⟨.str, resources.map fun resource =>
        escapeQuotes resource.getStr ++ langSuffix resource.getLang⟩)
    | .uri => .ok (some ⟨.str, resources.map (·.getUri)⟩)
    | .boolean => .ok (some ⟨.int, resources.map fun resource =>
        if resource.getBool then (1 : Int64) else (0 : Int64)⟩)
    | .decimal => .ok (some ⟨.dec, resources.map (·.getFloat)⟩)
    | .datetime => (fun values => some ⟨.date, values⟩) <$>
        resources.mapM fun resource => timestamp crates resource.getDatetime
    | .binary => .ok none

/-- The values of a predicate are put into their column. -/
def addCell (rows : ℕ) (predicate : String) (columns : HashMap String ColumnData) (cell : Cell) :
    Except Halt (HashMap String ColumnData) :=
  let column := (columns.lookup (columnName predicate cell.kind)).getD (.new cell.kind)
  columns.insert (columnName predicate cell.kind) <$> column.push rows cell

/-- One predicate of an individual. -/
def addPredicate (rows : ℕ) (individual : IndividualObj)
    (acc : HashMap String ColumnData × List String) (predicate : String) :
    Except Halt (HashMap String ColumnData × List String) :=
  match individual.resources.lookup predicate with
  | some resources => cellOf crates resources >>= fun
    | some cell => (·, acc.2 ++ textsOf resources) <$> addCell rows predicate acc.1 cell
    | none => .ok acc
  | none => .ok acc

-- the order in which the entries of maps are visited
variable (π : IterOrder String)

/-- `get_predicates`. -/
def predicatesOf (individual : IndividualObj) : List String :=
  (individual.resources.iter π).map Prod.fst

/-- `v-s:updateCounter` -/
def versionOf (individual : IndividualObj) : Except Halt UInt32 :=
  (fun version => (version.getD 0).toUInt64.toUInt32) <$>
    (individual.read .getFirstInteger "v-s:updateCounter").mapError .panic

/-- `add_to_table`. -/
def addToTable (table : Table) (el : BatchItem) : Except Halt Table := do
  let version ← versionOf el.individual
  let added ← (predicatesOf π el.individual).foldlM
    (addPredicate crates table.ids.length el.individual) (table.columns, [])
  return {
    ids := table.ids ++ [el.individual.uri]
    signs := table.signs ++ [el.sign]
    versions := table.versions ++ [version]
    texts := table.texts ++ [join added.2]
    columns := added.1 }

/-- `mk_block`: every column is filled up. -/
def mkBlock (table : Table) : Except Halt Block :=
  (fun columns => ⟨table.ids, table.signs, table.versions, table.texts, columns⟩) <$>
    (table.columns.iter π).mapM fun entry => (entry.1, ·) <$> entry.2.fill table.ids.length

/-- What has been made of a batch: its columns, what goes to the log, and what is committed. -/
structure Prepared where
  table : Table
  ops : List ℤ
  committed : CommittedTypesOps

/-- An individual of the batch, unless it was exported already. -/
def addItem (typeName : String) (acc : Prepared) (el : BatchItem) : Except Halt Prepared :=
  if el.signedOp ∈ opsOf acc.committed typeName then .ok acc
  else
    (fun table =>
      ⟨table, acc.ops ++ [el.signedOp], insertOp acc.committed typeName el.signedOp⟩) <$>
      addToTable crates π acc.table el

/-- The loop of `process_batch`. -/
def prepare (typeName : String) (committed : CommittedTypesOps) (batch : List BatchItem) :
    Except Halt Prepared :=
  batch.foldlM (addItem crates π typeName) ⟨.empty, [], committed⟩

/-- `process_batch`: the columns that `mk_block` gets, and the block. -/
def processBatch (typeName : String) (committed : CommittedTypesOps) (batch : List BatchItem) :
    Except Halt (Prepared × Block) := do
  let prepared ← prepare crates π typeName committed batch
  let block ← mkBlock π prepared.table
  return (prepared, block)

end Processing

/-- The column of the values of a predicate. -/
def nameOf (individual : IndividualObj) (predicate : String) : Option String :=
  (individual.resources.lookup predicate).bind fun resources =>
    (resources.head?.bind fun first => kindOf first.rtype).map (columnName predicate)

/-! ## One column -/

theorem kind_eq_of_columnName {p q : String} {kind kind' : Kind}
    (h : columnName p kind = columnName q kind') : kind = kind' := by
  have hlast := congrArg (fun name : String => name.toList.getLast?) h
  cases kind <;> cases kind' <;> first | rfl | simp [columnName, Kind.suffix] at hlast

namespace ColumnData

variable {column : ColumnData} {rows k : ℕ} {cell : Cell}

/-- The column with the values of a cell in row `rows`. -/
def added (column : ColumnData) (rows : ℕ) (cell : Cell) : ColumnData :=
  (⟨column.kind, fillTo [column.kind.empty] rows column.rows⟩ : ColumnData).append cell

theorem push_eq (hkind : cell.kind = column.kind) :
    column.push rows cell =
      if column.rows.length ≤ rows then .ok (column.added rows cell)
      else .error (.fault .overflow) := by
  rw [push, if_pos hkind, fill]
  split_ifs <;> rfl

theorem added_spec (hkind : cell.kind = column.kind) (hshort : column.rows.length ≤ rows) :
    (column.added rows cell).kind = column.kind ∧
    (column.added rows cell).rows.length = rows + 1 ∧
    ∀ k, (column.added rows cell).cellAt k = if k = rows then cell else column.cellAt k := by
  obtain ⟨kind, values⟩ := cell
  obtain ⟨kind', rowsOf⟩ := column
  obtain rfl : kind = kind' := hkind
  have hadded : added ⟨kind, rowsOf⟩ rows ⟨kind, values⟩ =
      ⟨kind, fillTo [kind.empty] rows rowsOf ++ [values]⟩ := by
    rw [added, append, dif_pos rfl]
  refine ⟨by rw [hadded], ?_, fun k => ?_⟩
  · rw [hadded, List.length_append, length_fillTo hshort, List.length_singleton]
  · rw [hadded, cellAt, rowAt_append hshort, cellAt]
    split_ifs <;> rfl

theorem cellAt_of_length_le (h : column.rows.length ≤ k) :
    column.cellAt k = ⟨column.kind, [column.kind.empty]⟩ := by
  rw [cellAt, rowAt_of_length_le h]

end ColumnData

/-! ## The values of a predicate -/

section Cells

variable {crates : ChronoDecimal} {resources : List Resource}

theorem ends_timestamp (t : Int64) : Ends (timestamp crates t) ↔ crates.InRange t.toInt := by
  unfold timestamp ChronoDecimal.timestamp
  split_ifs with h
  · exact iff_of_true ⟨_, rfl⟩ h
  · exact iff_of_false (not_ends_error _) h

theorem ends_cellOf : Ends (cellOf crates resources) ↔
    resources ≠ [] ∧ ∀ first rest, resources = first :: rest → first.rtype = .datetime →
      ∀ resource ∈ resources, crates.InRange resource.getDatetime.toInt := by
  cases resources with
  | nil => exact iff_of_false (not_ends_error _) fun h => h.1 rfl
  | cons first rest =>
    rw [and_iff_right (List.cons_ne_nil first rest)]
    by_cases hdate : first.rtype = .datetime
    · have hends : Ends (cellOf crates (first :: rest)) ↔
          ∀ resource ∈ first :: rest, crates.InRange resource.getDatetime.toInt := by
        rw [cellOf, hdate]
        exact (ends_map _ _).trans
          ((ends_mapM _).trans (forall₂_congr fun _ _ => ends_timestamp _))
      rw [hends]
      constructor
      · intro h _ _ _ _
        exact h
      · intro h
        exact h first rest rfl hdate
    · refine iff_of_true ?_ fun f r heq hd => ?_
      · rw [cellOf]
        cases hrtype : first.rtype with
        | datetime => exact absurd hrtype hdate
        | _ => exact ⟨_, rfl⟩
      · rw [List.cons.injEq] at heq
        exact absurd (heq.1 ▸ hd) hdate

theorem kind_of_cellOf {cell : Option Cell} (h : cellOf crates resources = .ok cell) :
    cell.map (·.kind) = resources.head?.bind fun first => kindOf first.rtype := by
  cases resources with
  | nil => exact nomatch h
  | cons first rest =>
    rw [cellOf] at h
    rw [List.head?_cons, Option.bind_some]
    cases hrtype : first.rtype with
    | datetime =>
      rw [hrtype] at h
      cases hvalues : (first :: rest).mapM fun r => timestamp crates r.getDatetime with
      | error => exact nomatch hvalues ▸ h
      | ok values =>
        have hcell := hvalues ▸ h
        rw [← Except.ok.inj hcell]
        rfl
    | _ =>
      rw [hrtype] at h
      rw [← Except.ok.inj h]
      rfl

end Cells

/-! ## The predicates of an individual -/

section Predicates

variable {crates : ChronoDecimal} {individual : IndividualObj} {rows : ℕ}

theorem addPredicate_cases (crates : ChronoDecimal) (individual : IndividualObj) (rows : ℕ)
    (predicate : String) :
    (∃ resources, individual.resources.lookup predicate = some resources ∧
      ¬ Ends (cellOf crates resources) ∧
      ∀ acc, ¬ Ends (addPredicate crates rows individual acc predicate)) ∨
    (nameOf individual predicate = none ∧
      (∀ resources, individual.resources.lookup predicate = some resources →
        cellOf crates resources = .ok none) ∧
      ∀ acc, addPredicate crates rows individual acc predicate = .ok acc) ∨
    ∃ resources cell, individual.resources.lookup predicate = some resources ∧
      cellOf crates resources = .ok (some cell) ∧
      nameOf individual predicate = some (columnName predicate cell.kind) ∧
      ∀ acc, addPredicate crates rows individual acc predicate =
        (·, acc.2 ++ textsOf resources) <$> addCell rows predicate acc.1 cell := by
  cases hlookup : individual.resources.lookup predicate with
  | none =>
    refine .inr (.inl ⟨by rw [nameOf, hlookup]; rfl, fun _ h => (nomatch h), fun acc => ?_⟩)
    rw [addPredicate, hlookup]
  | some resources =>
    have hname : nameOf individual predicate =
        (resources.head?.bind fun first => kindOf first.rtype).map (columnName predicate) := by
      rw [nameOf, hlookup, Option.bind_some]
    cases hcell : cellOf crates resources with
    | error halt =>
      refine .inl ⟨resources, rfl, hcell ▸ not_ends_error halt, fun acc => ?_⟩
      rw [addPredicate, hlookup]
      dsimp only
      rw [hcell]
      exact not_ends_error halt
    | ok cell =>
      rw [← kind_of_cellOf hcell] at hname
      cases cell with
      | none =>
        refine .inr (.inl ⟨hname, fun _ h => by rw [← Option.some.inj h, hcell], fun acc => ?_⟩)
        rw [addPredicate, hlookup]
        dsimp only
        rw [hcell]
        rfl
      | some cell =>
        refine .inr (.inr ⟨resources, cell, rfl, hcell, hname, fun acc => ?_⟩)
        rw [addPredicate, hlookup]
        dsimp only
        rw [hcell]
        rfl

/-- While the predicates of the individual of row `rows` are visited: the columns in `taken` have
this row already, and no other column has it. -/
structure Within (rows : ℕ) (taken : List String) (columns : HashMap String ColumnData) : Prop where
  named : ∀ name column, columns.lookup name = some column →
    ∃ predicate, name = columnName predicate column.kind
  short : ∀ name column, columns.lookup name = some column → name ∉ taken →
    column.rows.length ≤ rows
  full : ∀ name ∈ taken, ∃ column, columns.lookup name = some column ∧
    column.rows.length = rows + 1

variable {taken : List String} {columns : HashMap String ColumnData}

/-- The column of a cell, which may be a new one. -/
def columnFor (columns : HashMap String ColumnData) (predicate : String) (kind : Kind) :
    ColumnData :=
  (columns.lookup (columnName predicate kind)).getD (.new kind)

namespace Within

theorem kind_columnFor (hw : Within rows taken columns) (predicate : String) (kind : Kind) :
    kind = (columnFor columns predicate kind).kind := by
  rw [columnFor]
  cases hlookup : columns.lookup (columnName predicate kind) with
  | none => rfl
  | some column =>
    obtain ⟨p, hp⟩ := hw.named _ column hlookup
    exact kind_eq_of_columnName hp

theorem short_columnFor (hw : Within rows taken columns) {predicate : String} {kind : Kind}
    (hfree : columnName predicate kind ∉ taken) :
    (columnFor columns predicate kind).rows.length ≤ rows := by
  rw [columnFor]
  cases hlookup : columns.lookup (columnName predicate kind) with
  | none => exact Nat.zero_le rows
  | some column => exact hw.short _ column hlookup hfree

theorem addCell_eq (hw : Within rows taken columns) (predicate : String) (cell : Cell) :
    addCell rows predicate columns cell =
      if columnName predicate cell.kind ∈ taken then .error (.fault .overflow)
      else .ok (columns.insert (columnName predicate cell.kind)
        ((columnFor columns predicate cell.kind).added rows cell)) := by
  have hkind := hw.kind_columnFor predicate cell.kind
  have heq : addCell rows predicate columns cell =
      columns.insert (columnName predicate cell.kind) <$>
        (columnFor columns predicate cell.kind).push rows cell := rfl
  rw [heq, ColumnData.push_eq hkind]
  split_ifs with hshort hmem hmem
  · obtain ⟨column, hcolumn, hfull⟩ := hw.full _ hmem
    rw [columnFor, hcolumn, Option.getD_some] at hshort
    omega
  · rfl
  · rfl
  · exact absurd (hw.short_columnFor hmem) hshort

theorem insert (hw : Within rows taken columns) {predicate : String} {cell : Cell}
    (hfree : columnName predicate cell.kind ∉ taken) :
    Within rows (columnName predicate cell.kind :: taken)
      (columns.insert (columnName predicate cell.kind)
        ((columnFor columns predicate cell.kind).added rows cell)) := by
  have hkind := hw.kind_columnFor predicate cell.kind
  have hadded := ColumnData.added_spec hkind (hw.short_columnFor hfree)
  refine ⟨fun name column hlookup => ?_, fun name column hlookup hname => ?_,
    fun name hname => ?_⟩
  · by_cases heq : name = columnName predicate cell.kind
    · rw [heq, AList.lookup_insert] at hlookup
      rw [← Option.some.inj hlookup, hadded.1, ← hkind]
      exact ⟨predicate, heq⟩
    · rw [AList.lookup_insert_ne heq] at hlookup
      exact hw.named name column hlookup
  · rw [List.mem_cons, not_or] at hname
    rw [AList.lookup_insert_ne hname.1] at hlookup
    exact hw.short name column hlookup hname.2
  · by_cases heq : name = columnName predicate cell.kind
    · rw [heq, AList.lookup_insert]
      exact ⟨_, rfl, hadded.2.1⟩
    · rw [AList.lookup_insert_ne heq]
      exact hw.full name (List.mem_of_ne_of_mem heq hname)

theorem next (hw : Within rows taken columns) : Within (rows + 1) [] columns := by
  refine ⟨hw.named, fun name column hlookup _ => ?_, fun name hname => absurd hname (by simp)⟩
  by_cases hmem : name ∈ taken
  · obtain ⟨column', hlookup', hfull⟩ := hw.full name hmem
    rw [hlookup, Option.some.injEq] at hlookup'
    exact Nat.le_of_eq (hlookup' ▸ hfull)
  · exact Nat.le_succ_of_le (hw.short name column hlookup hmem)

end Within

/-- **The predicates of an individual can be added** when their values can be put into columns, no
two of them have one column, and none has a column that has the row already.

**Proof sketch.** Induction on the predicates. A predicate whose values stop the program stops it
here, one without a column does nothing, and any other one takes its column for the rest. -/
theorem ends_addPredicates (predicates : List String) (taken : List String)
    (columns : HashMap String ColumnData) (texts : List String) (hw : Within rows taken columns) :
    Ends (predicates.foldlM (addPredicate crates rows individual) (columns, texts)) ↔
      (∀ p ∈ predicates, ∀ resources, individual.resources.lookup p = some resources →
        Ends (cellOf crates resources)) ∧
      (predicates.filterMap (nameOf individual)).Nodup ∧
      ∀ name ∈ predicates.filterMap (nameOf individual), name ∉ taken := by
  induction predicates generalizing taken columns texts with
  | nil => exact iff_of_true ⟨_, rfl⟩ ⟨by simp, by simp, by simp⟩
  | cons p predicates ih =>
    rw [List.foldlM_cons, ends_bind, List.forall_mem_cons]
    rcases addPredicate_cases crates individual rows p with
      ⟨resources, hlookup, hcell, hstop⟩ | ⟨hname, hcell, hadd⟩ |
      ⟨resources, cell, hlookup, hcell, hname, hadd⟩
    · refine iff_of_false ?_ fun h => hcell (h.1.1 resources hlookup)
      rintro ⟨acc, hacc, -⟩
      exact hstop _ ⟨acc, hacc⟩
    · have hends : ∀ resources, individual.resources.lookup p = some resources →
          Ends (cellOf crates resources) := fun resources h => ⟨_, hcell resources h⟩
      rw [hadd, List.filterMap_cons_none hname, and_iff_right hends, ← ih taken columns texts hw]
      constructor
      · rintro ⟨acc, hacc, h⟩
        rwa [← Except.ok.inj hacc] at h
      · exact fun h => ⟨_, rfl, h⟩
    · have hends : ∀ resources, individual.resources.lookup p = some resources →
          Ends (cellOf crates resources) := by
        intro r h
        rw [hlookup, Option.some.injEq] at h
        exact h ▸ ⟨_, hcell⟩
      rw [hadd, List.filterMap_cons_some hname, and_iff_right hends, hw.addCell_eq,
        List.nodup_cons, List.forall_mem_cons]
      split_ifs with htaken
      · refine iff_of_false ?_ fun h => h.2.2.1 htaken
        rintro ⟨acc, hacc, -⟩
        exact nomatch hacc
      · have hrest := ih (columnName p cell.kind :: taken) _ (texts ++ textsOf resources)
          (hw.insert htaken)
        have hsame : (∃ acc, ((·, texts ++ textsOf resources) <$>
            (.ok (columns.insert (columnName p cell.kind)
              ((columnFor columns p cell.kind).added rows cell)) : Except Halt _)) = .ok acc ∧
            Ends (predicates.foldlM (addPredicate crates rows individual) acc)) ↔
            Ends (predicates.foldlM (addPredicate crates rows individual)
              (columns.insert (columnName p cell.kind)
                ((columnFor columns p cell.kind).added rows cell),
                texts ++ textsOf resources)) := by
          constructor
          · rintro ⟨acc, hacc, h⟩
            rwa [← Except.ok.inj hacc] at h
          · exact fun h => ⟨_, rfl, h⟩
        rw [hsame, hrest]
        constructor
        · rintro ⟨hall, hnodup, hfree⟩
          exact ⟨hall, ⟨fun hmem => hfree _ hmem List.mem_cons_self, hnodup⟩, htaken,
            fun name hmem ht => hfree name hmem (List.mem_cons_of_mem _ ht)⟩
        · rintro ⟨hall, ⟨hnew, hnodup⟩, -, hfree⟩
          refine ⟨hall, hnodup, fun name hmem ht => ?_⟩
          rcases List.mem_cons.mp ht with rfl | ht
          · exact hnew hmem
          · exact hfree name hmem ht

/-- **What is in the columns** after the predicates of an individual are added: the columns of
its values have these in their last rows, and the other columns are as they were. -/
theorem lookup_addPredicates (predicates : List String) (taken : List String)
    (columns : HashMap String ColumnData) (texts : List String) (hw : Within rows taken columns)
    {columns' : HashMap String ColumnData} {texts' : List String}
    (hrun : predicates.foldlM (addPredicate crates rows individual) (columns, texts) =
      .ok (columns', texts')) :
    (∃ taken', Within rows taken' columns') ∧
    (∀ name ∉ predicates.filterMap (nameOf individual),
      columns'.lookup name = columns.lookup name) ∧
    ∀ p ∈ predicates, ∀ resources cell, individual.resources.lookup p = some resources →
      cellOf crates resources = .ok (some cell) →
      columns'.lookup (columnName p cell.kind) =
        some ((columnFor columns p cell.kind).added rows cell) := by
  induction predicates generalizing taken columns texts with
  | nil =>
    obtain ⟨rfl, -⟩ := Prod.mk.inj (Except.ok.inj hrun)
    exact ⟨⟨taken, hw⟩, fun _ _ => rfl, by simp⟩
  | cons p predicates ih =>
    have hends := (ends_addPredicates (p :: predicates) taken columns texts hw).mp ⟨_, hrun⟩
    rw [List.foldlM_cons] at hrun
    obtain ⟨acc, hacc, hrest⟩ := bind_eq_ok hrun
    rcases addPredicate_cases crates individual rows p with
      ⟨resources, -, -, hstop⟩ | ⟨hname, hcell, hadd⟩ |
      ⟨resources, cell, hlookup, hcell, hname, hadd⟩
    · exact absurd ⟨acc, hacc⟩ (hstop _)
    · rw [hadd] at hacc
      rw [← Except.ok.inj hacc] at hrest
      obtain ⟨hwithin, hother, hown⟩ := ih taken columns texts hw hrest
      rw [List.filterMap_cons_none hname]
      refine ⟨hwithin, hother, fun q hq resources cell hlookup hq' => ?_⟩
      rcases List.mem_cons.mp hq with rfl | hq
      · exact nomatch (hcell resources hlookup).symm.trans hq'
      · exact hown q hq resources cell hlookup hq'
    · rw [List.filterMap_cons_some hname] at hends ⊢
      have hfree := hends.2.2 _ List.mem_cons_self
      have hnew := (List.nodup_cons.mp hends.2.1).1
      rw [hadd, hw.addCell_eq, if_neg hfree] at hacc
      rw [← Except.ok.inj hacc] at hrest
      obtain ⟨hwithin, hother, hown⟩ := ih _ _ _ (hw.insert hfree) hrest
      refine ⟨hwithin, fun name hmem => ?_, fun q hq resources' cell' hlookup' hcell' => ?_⟩
      · rw [List.mem_cons, not_or] at hmem
        rw [hother name hmem.2, AList.lookup_insert_ne hmem.1]
      · rcases List.mem_cons.mp hq with rfl | hq
        · rw [hlookup, Option.some.injEq] at hlookup'
          rw [← hlookup', hcell] at hcell'
          obtain rfl : cell = cell' := Option.some.inj (Except.ok.inj hcell')
          rw [hother _ hnew, AList.lookup_insert]
        · have hne : columnName q cell'.kind ≠ columnName p cell.kind := by
            intro heq
            have hname' : nameOf individual q = some (columnName q cell'.kind) := by
              rw [nameOf, hlookup', Option.bind_some, ← kind_of_cellOf hcell']
              rfl
            exact hnew (List.mem_filterMap.mpr ⟨q, hq, heq ▸ hname'⟩)
          rw [hown q hq resources' cell' hlookup' hcell', columnFor, AList.lookup_insert_ne hne]
          rfl

end Predicates

end Veda.SearchIndexTt
