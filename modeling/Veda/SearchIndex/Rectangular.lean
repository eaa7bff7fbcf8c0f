import Veda.SearchIndex.TableBlocks
import Veda.Xapian.StoredValues

set_option autoImplicit false

/-!
# Rectangular blocks

A block of a class table has a row for every individual that is exported, and in every column the
row has the values of the individual. The program gets there unless an individual has an empty list
of values, a date that is out of range, or two predicates that have one column: for the second of
these the column has the row already, and the difference of the lengths is negative.

## Main definitions

* `SearchIndexTt.exported` — the individuals of a batch that get rows.
* `SearchIndexTt.StaysRectangular` — the program goes on, and every row of a column has the
  values of its individual.
* `SearchIndexTt.Exportable` — no empty lists, no two predicates in one column, and no dates
  that are out of range.

## Main results

* `SearchIndexTt.ends_addToTable`, `SearchIndexTt.ends_prepare` — when an individual, and
  when a batch can be added.
* `SearchIndexTt.RowsOf.addPredicates` — one more individual has its values in its row.
* `SearchIndexTt.staysRectangular_iff` — the blocks are rectangular when the individuals that
  are exported are exportable.
* `SearchIndexTt.exported_selectBlock` — the rows are those of `SearchIndexTt.selectBlock`.
-/

namespace Veda.SearchIndexTt

open Veda.Lib Veda.Onto

/-! ## What is promised -/

/-- The individuals of a batch that get rows: their operations are not committed, and not made
before in the batch. -/
def exported (typeName : String) : CommittedTypesOps → List BatchItem → List BatchItem
  | _, [] => []
  | committed, el :: batch =>
    if el.signedOp ∈ opsOf committed typeName then exported typeName committed batch
    else el :: exported typeName (insertOp committed typeName el.signedOp) batch

/-- A cell of a column has the values of a predicate of the individual that belongs to the column,
or it is empty, and no predicate belongs to the column. -/
def Holds (crates : ChronoDecimal) (individual : IndividualObj) (name : String) (cell : Cell) :
    Prop :=
  (∃ predicate resources, nameOf individual predicate = some name ∧
    individual.resources.lookup predicate = some resources ∧
    cellOf crates resources = .ok (some cell)) ∨
  (∀ predicate, nameOf individual predicate ≠ some name) ∧ cell = ⟨cell.kind, [cell.kind.empty]⟩

/-- The columns of a block are those of the rows of individuals. -/
structure IsRectangular (crates : ChronoDecimal) (els : List BatchItem)
    (handed : HashMap String ColumnData) (columns : List (String × ColumnData)) : Prop where
  /-- no column that `mk_block` gets has more rows -/
  short : ∀ name column, handed.lookup name = some column → column.rows.length ≤ els.length
  /-- the rows of a column, which are added by `mk_block` when they are missing -/
  holds : ∀ name column, handed.lookup name = some column → ∀ k el, els[k]? = some el →
    Holds crates el.individual name (column.cellAt k)
  /-- the values of the individuals are in the columns -/
  found : ∀ el ∈ els, ∀ predicate name, nameOf el.individual predicate = some name →
    (handed.lookup name).isSome
  /-- the columns of the block -/
  filled : ∀ name column, (name, column) ∈ columns ↔
    ∃ c, handed.lookup name = some c ∧ column = ⟨c.kind, fillTo [c.kind.empty] els.length c.rows⟩

/-- The program does not stop at a batch, and its block has a row for every individual that is
exported, with the values of the individual. -/
def StaysRectangular (crates : ChronoDecimal) (π : IterOrder String) (typeName : String)
    (committed : CommittedTypesOps) (batch : List BatchItem) : Prop :=
  ∃ prepared block, processBatch crates π typeName committed batch = .ok (prepared, block) ∧
    block.ids = (exported typeName committed batch).map (·.individual.uri) ∧
    IsRectangular crates (exported typeName committed batch) prepared.table.columns block.columns

/-- The values of an individual can be put into columns. -/
structure Exportable (crates : ChronoDecimal) (individual : IndividualObj) : Prop where
  /-- no list of values is empty -/
  nonempty : ∀ predicate, individual.resources.lookup predicate ≠ some []
  /-- in a list that begins with a date, all dates are in the range of the library -/
  dates : ∀ predicate first rest,
    individual.resources.lookup predicate = some (first :: rest) → first.rtype = .datetime →
    ∀ resource ∈ first :: rest, crates.InRange resource.getDatetime.toInt
  /-- two predicates do not have one column -/
  apart : ∀ p q name, nameOf individual p = some name → nameOf individual q = some name → p = q

/-! ## The rows of a batch -/

section Rows

variable {crates : ChronoDecimal} {π : IterOrder String}

theorem nodup_predicatesOf (individual : IndividualObj) :
    (predicatesOf π individual).Nodup := HashMap.nodup_fst_iter π _

theorem mem_predicatesOf {individual : IndividualObj} {predicate : String}
    {resources : List Resource} (h : individual.resources.lookup predicate = some resources) :
    predicate ∈ predicatesOf π individual :=
  List.mem_map.mpr ⟨(predicate, resources), (HashMap.mem_iter π _ _ _).mpr h, rfl⟩

theorem mem_predicatesOf_of_nameOf {individual : IndividualObj} {predicate name : String}
    (h : nameOf individual predicate = some name) : predicate ∈ predicatesOf π individual := by
  obtain ⟨resources, hlookup, -⟩ := Option.bind_eq_some_iff.mp h
  exact mem_predicatesOf hlookup

theorem nodup_names_iff (individual : IndividualObj) :
    ((predicatesOf π individual).filterMap (nameOf individual)).Nodup ↔
      ∀ p q name, nameOf individual p = some name → nameOf individual q = some name → p = q := by
  unfold List.Nodup
  rw [List.pairwise_filterMap]
  constructor
  · intro h p q name hp hq
    have hsymm : Std.Symm fun p q => ∀ b, nameOf individual p = some b →
        ∀ b', nameOf individual q = some b' → b ≠ b' :=
      ⟨fun p q hpq b hb b' hb' => (hpq b' hb' b hb).symm⟩
    by_contra hne
    exact h.forall (mem_predicatesOf_of_nameOf hp) (mem_predicatesOf_of_nameOf hq) hne name hp
      name hq rfl
  · intro h
    refine (nodup_predicatesOf individual).imp fun hne b hb b' hb' heq => ?_
    exact hne (h _ _ b hb (heq ▸ hb'))

/-- **When an individual can be added** to a table. -/
theorem ends_addToTable (table : Table) (el : BatchItem)
    (hw : Within table.ids.length [] table.columns) :
    Ends (addToTable crates π table el) ↔ Exportable crates el.individual := by
  have hfold := @ends_addPredicates crates el.individual table.ids.length
    (predicatesOf π el.individual) [] table.columns [] hw
  have hends : Ends (addToTable crates π table el) ↔ Ends (versionOf el.individual) ∧
      Ends ((predicatesOf π el.individual).foldlM
        (addPredicate crates table.ids.length el.individual) (table.columns, [])) := by
    rw [addToTable, ends_bind]
    constructor
    · rintro ⟨version, hversion, hrest⟩
      obtain ⟨added, hadded, -⟩ := (ends_bind _ _).mp hrest
      exact ⟨⟨version, hversion⟩, added, hadded⟩
    · rintro ⟨⟨version, hversion⟩, added, hadded⟩
      exact ⟨version, hversion, (ends_bind _ _).mpr ⟨added, hadded, ends_ok _⟩⟩
  rw [hends, hfold, nodup_names_iff]
  constructor
  · rintro ⟨-, hcells, hapart, -⟩
    have hcell : ∀ predicate resources, el.individual.resources.lookup predicate = some resources →
        Ends (cellOf crates resources) := fun predicate resources h =>
      hcells predicate (mem_predicatesOf h) resources h
    refine ⟨fun predicate h => (ends_cellOf.mp (hcell predicate [] h)).1 rfl,
      fun predicate first rest h hdate => ?_, hapart⟩
    exact (ends_cellOf.mp (hcell predicate _ h)).2 first rest rfl hdate
  · intro h
    refine ⟨?_, fun predicate _ resources hlookup => ends_cellOf.mpr ⟨?_, ?_⟩, h.apart, by simp⟩
    · rw [versionOf, ends_map, IndividualObj.read]
      cases hlookup : el.individual.resources.lookup "v-s:updateCounter" with
      | none => exact ⟨_, rfl⟩
      | some resources =>
        cases resources with
        | nil => exact absurd hlookup (h.nonempty _)
        | cons first rest =>
          obtain ⟨answer, hanswer⟩ := Getter.Answers.getFirstInteger first rest
          dsimp only
          rw [hanswer]
          exact ⟨_, rfl⟩
    · rintro rfl
      exact h.nonempty predicate hlookup
    · rintro first rest rfl hdate
      exact h.dates predicate first rest hlookup hdate

/-- The columns that have been made of individuals. -/
structure RowsOf (crates : ChronoDecimal) (els : List BatchItem)
    (columns : HashMap String ColumnData) : Prop where
  within : Within els.length [] columns
  holds : ∀ name column, columns.lookup name = some column → ∀ k el, els[k]? = some el →
    Holds crates el.individual name (column.cellAt k)
  found : ∀ el ∈ els, ∀ predicate name, nameOf el.individual predicate = some name →
    (columns.lookup name).isSome

theorem RowsOf.holds_added {els : List BatchItem} {columns : HashMap String ColumnData}
    (hrows : RowsOf crates els columns) {el : BatchItem} {predicate : String}
    {resources : List Resource} {cell : Cell}
    (hlookup : el.individual.resources.lookup predicate = some resources)
    (hcell : cellOf crates resources = .ok (some cell)) {k : ℕ} {x : BatchItem}
    (hk : (els ++ [el])[k]? = some x) :
    Holds crates x.individual (columnName predicate cell.kind)
      (((columnFor columns predicate cell.kind).added els.length cell).cellAt k) := by
  have hkind := hrows.within.kind_columnFor predicate cell.kind
  have hshort : (columnFor columns predicate cell.kind).rows.length ≤ els.length :=
    hrows.within.short_columnFor (by simp)
  rw [(ColumnData.added_spec hkind hshort).2.2 k]
  by_cases hlt : k < els.length
  · rw [List.getElem?_append_left hlt] at hk
    rw [if_neg (Nat.ne_of_lt hlt), columnFor]
    cases hcolumn : columns.lookup (columnName predicate cell.kind) with
    | some column => exact hrows.holds _ column hcolumn k x hk
    | none =>
      refine .inr ⟨fun p hp => ?_, rfl⟩
      have hsome := hrows.found x (List.mem_of_getElem? hk) p _ hp
      rw [hcolumn] at hsome
      cases hsome
  · obtain ⟨hkeq, rfl⟩ : k = els.length ∧ el = x := by
      rw [List.getElem?_append_right (Nat.le_of_not_lt hlt)] at hk
      obtain ⟨hzero, heq⟩ := List.getElem?_eq_some_iff.mp hk
      rw [List.length_singleton] at hzero
      have hk0 : k - els.length = 0 := by omega
      simp only [hk0, List.getElem_cons_zero] at heq
      exact ⟨by omega, heq⟩
    rw [if_pos hkeq]
    refine .inl ⟨predicate, resources, ?_, hlookup, hcell⟩
    rw [nameOf, hlookup, Option.bind_some, ← kind_of_cellOf hcell]
    rfl

/-- **One more individual**: its values are in its row. -/
theorem RowsOf.addPredicates {els : List BatchItem} {columns columns' : HashMap String ColumnData}
    {texts : List String} (hrows : RowsOf crates els columns) (el : BatchItem)
    (hrun : (predicatesOf π el.individual).foldlM
      (addPredicate crates els.length el.individual) (columns, []) = .ok (columns', texts)) :
    RowsOf crates (els ++ [el]) columns' := by
  have hends := (ends_addPredicates (predicatesOf π el.individual) [] columns [] hrows.within).mp
    ⟨_, hrun⟩
  obtain ⟨⟨taken, hwithin⟩, hother, hown⟩ :=
    lookup_addPredicates (predicatesOf π el.individual) [] columns [] hrows.within hrun
  -- a name of the individual has a predicate with a cell
  have hcell : ∀ name predicate, nameOf el.individual predicate = some name →
      ∃ resources cell, el.individual.resources.lookup predicate = some resources ∧
        cellOf crates resources = .ok (some cell) ∧ columnName predicate cell.kind = name ∧
        columns'.lookup name =
          some ((columnFor columns predicate cell.kind).added els.length cell) := by
    intro name predicate hname
    have hmem := mem_predicatesOf_of_nameOf (π := π) hname
    rcases addPredicate_cases crates el.individual els.length predicate with
      ⟨resources, hlookup, hstop, -⟩ | ⟨hnone, -⟩ | ⟨resources, cell, hlookup, hcell, hsome, -⟩
    · exact absurd (hends.1 predicate hmem resources hlookup) hstop
    · exact nomatch hnone.symm.trans hname
    · obtain rfl := Option.some.inj (hsome.symm.trans hname)
      exact ⟨resources, cell, hlookup, hcell, rfl, hown predicate hmem resources cell hlookup hcell⟩
  have hnames : ∀ name, name ∈ (predicatesOf π el.individual).filterMap (nameOf el.individual) →
      ∃ predicate, nameOf el.individual predicate = some name := fun name hname =>
    let ⟨predicate, _, h⟩ := List.mem_filterMap.mp hname
    ⟨predicate, h⟩
  refine ⟨?_, fun name column hlookup k x hk => ?_, fun x hx predicate name hname => ?_⟩
  · rw [List.length_append, List.length_singleton]
    exact hwithin.next
  · by_cases hmem : name ∈ (predicatesOf π el.individual).filterMap (nameOf el.individual)
    · obtain ⟨predicate, hname⟩ := hnames name hmem
      obtain ⟨resources, cell, hresources, hcellOf, rfl, hadded⟩ := hcell name predicate hname
      rw [hlookup, Option.some.injEq] at hadded
      rw [hadded]
      exact hrows.holds_added hresources hcellOf hk
    · rw [hother name hmem] at hlookup
      by_cases hlt : k < els.length
      · rw [List.getElem?_append_left hlt] at hk
        exact hrows.holds name column hlookup k x hk
      · have hshort := hrows.within.short name column hlookup (by simp)
        rw [ColumnData.cellAt_of_length_le (by omega)]
        refine .inr ⟨fun predicate hname => hmem ?_, rfl⟩
        obtain rfl : el = x := by
          rw [List.getElem?_append_right (Nat.le_of_not_lt hlt)] at hk
          exact (List.mem_singleton.mp (List.mem_of_getElem? hk)).symm
        exact List.mem_filterMap.mpr ⟨predicate, mem_predicatesOf_of_nameOf hname, hname⟩
  · rcases List.mem_append.mp hx with hx | hx
    · by_cases hmem : name ∈ (predicatesOf π el.individual).filterMap (nameOf el.individual)
      · obtain ⟨p, hp⟩ := hnames name hmem
        obtain ⟨_, _, -, -, -, hadded⟩ := hcell name p hp
        rw [hadded]
        rfl
      · rw [hother name hmem]
        exact hrows.found x hx predicate name hname
    · rw [List.mem_singleton.mp hx] at hname
      obtain ⟨_, _, -, -, -, hadded⟩ := hcell name predicate hname
      rw [hadded]
      rfl

/-- The individuals that were added before a part of a batch is. -/
structure PreparedOf (crates : ChronoDecimal) (els : List BatchItem) (acc : Prepared) : Prop where
  ids : acc.table.ids = els.map (·.individual.uri)
  signs : acc.table.signs = els.map (·.sign)
  versions : acc.table.versions.map .ok = els.map (versionOf ·.individual)
  rows : RowsOf crates els acc.table.columns

theorem PreparedOf.length_ids {els : List BatchItem} {acc : Prepared}
    (hacc : PreparedOf crates els acc) : acc.table.ids.length = els.length := by
  rw [hacc.ids, List.length_map]

theorem PreparedOf.addToTable {els : List BatchItem} {acc : Prepared}
    (hacc : PreparedOf crates els acc) (el : BatchItem) {table : Table}
    (hrun : addToTable crates π acc.table el = .ok table) (ops : List ℤ)
    (committed : CommittedTypesOps) :
    PreparedOf crates (els ++ [el]) ⟨table, ops, committed⟩ := by
  obtain ⟨version, hversion, hrest⟩ := bind_eq_ok hrun
  obtain ⟨added, hadded, htable⟩ := bind_eq_ok hrest
  rw [hacc.length_ids] at hadded
  rw [← Except.ok.inj htable]
  refine ⟨?_, ?_, ?_, hacc.rows.addPredicates el hadded⟩
  · dsimp only
    rw [hacc.ids, List.map_append, List.map_singleton]
  · dsimp only
    rw [hacc.signs, List.map_append, List.map_singleton]
  · dsimp only
    rw [List.map_append, hacc.versions, List.map_append, List.map_singleton, List.map_singleton,
      hversion]

/-- **The loop over a batch** goes on when the individuals that are exported are exportable, and
then they are in the table.

**Proof sketch.** Induction on the batch. An element whose operation is committed changes nothing
and is not exported; any other one is added when it is exportable. -/
theorem ends_prepare (typeName : String) (batch els : List BatchItem) (acc : Prepared)
    (hacc : PreparedOf crates els acc) :
    (Ends (batch.foldlM (addItem crates π typeName) acc) ↔
      ∀ el ∈ exported typeName acc.committed batch, Exportable crates el.individual) ∧
    ∀ prepared, batch.foldlM (addItem crates π typeName) acc = .ok prepared →
      PreparedOf crates (els ++ exported typeName acc.committed batch) prepared := by
  induction batch generalizing els acc with
  | nil =>
    refine ⟨iff_of_true ⟨_, rfl⟩ (by simp [exported]), fun prepared h => ?_⟩
    rw [← Except.ok.inj h, exported, List.append_nil]
    exact hacc
  | cons el batch ih =>
    rw [List.foldlM_cons, exported, addItem]
    split_ifs with hcommitted
    · exact ih els acc hacc
    · have hends : Ends (SearchIndexTt.addToTable crates π acc.table el) ↔
          Exportable crates el.individual := by
        refine ends_addToTable acc.table el ?_
        rw [hacc.length_ids]
        exact hacc.rows.within
      rw [List.forall_mem_cons, ← hends]
      cases hrun : SearchIndexTt.addToTable crates π acc.table el with
      | error halt =>
        refine ⟨iff_of_false (not_ends_error halt) fun h => not_ends_error halt h.1,
          fun prepared h => ?_⟩
        exact nomatch h
      | ok table =>
        rw [and_iff_right (ends_ok table)]
        have hrest := ih (els ++ [el]) _ (hacc.addToTable el hrun
          (acc.ops ++ [el.signedOp]) (insertOp acc.committed typeName el.signedOp))
        rw [List.append_assoc, List.singleton_append] at hrest
        exact hrest

theorem preparedOf_empty (crates : ChronoDecimal) (committed : CommittedTypesOps) :
    PreparedOf crates [] ⟨.empty, [], committed⟩ :=
  ⟨rfl, rfl, rfl, ⟨⟨fun _ _ h => (nomatch h), fun _ _ h => (nomatch h), by simp⟩, fun _ _ h => (nomatch h),
    by simp⟩⟩

/-- **The columns are filled up** to the number of rows. -/
theorem mkBlock_spec (π : IterOrder String) (table : Table)
    (hshort : ∀ name column, table.columns.lookup name = some column →
      column.rows.length ≤ table.ids.length) :
    ∃ block, mkBlock π table = .ok block ∧ block.ids = table.ids ∧
      ∀ name column, (name, column) ∈ block.columns ↔ ∃ c, table.columns.lookup name = some c ∧
        column = ⟨c.kind, fillTo [c.kind.empty] table.ids.length c.rows⟩ := by
  have hfill : ∀ entries : List (String × ColumnData),
      (∀ entry ∈ entries, entry.2.rows.length ≤ table.ids.length) →
      (entries.mapM fun entry =>
        ((entry.1, ·) <$> entry.2.fill table.ids.length : Except Halt (String × ColumnData))) =
      .ok (entries.map fun entry =>
        (entry.1, ⟨entry.2.kind, fillTo [entry.2.kind.empty] table.ids.length entry.2.rows⟩)) := by
    intro entries hentries
    induction entries with
    | nil => rfl
    | cons entry entries ih =>
      rw [List.forall_mem_cons] at hentries
      rw [List.mapM_cons, ColumnData.fill, if_pos hentries.1, ih hentries.2]
      rfl
  have hcolumns := hfill (table.columns.iter π) fun entry hentry =>
    hshort entry.1 entry.2 ((HashMap.mem_iter π _ _ _).mp hentry)
  rw [mkBlock, hcolumns]
  refine ⟨_, rfl, rfl, fun name column => ?_⟩
  constructor
  · intro hmem
    obtain ⟨⟨name', c⟩, hentry, heq⟩ := List.mem_map.mp hmem
    obtain ⟨rfl, rfl⟩ := Prod.mk.inj heq
    exact ⟨c, (HashMap.mem_iter π _ _ _).mp hentry, rfl⟩
  · rintro ⟨c, hlookup, rfl⟩
    exact List.mem_map.mpr ⟨(name, c), (HashMap.mem_iter π _ _ _).mpr hlookup, rfl⟩

/-- **The program goes on at a batch, and its block is rectangular, when and only when every
individual that is exported is exportable**: no list of values is empty, no two predicates have one
column, and no date is out of range. -/
theorem staysRectangular_iff (crates : ChronoDecimal) (π : IterOrder String) (typeName : String)
    (committed : CommittedTypesOps) (batch : List BatchItem) :
    StaysRectangular crates π typeName committed batch ↔
      ∀ el ∈ exported typeName committed batch, Exportable crates el.individual := by
  obtain ⟨hends, hspec⟩ := ends_prepare (π := π) typeName batch [] ⟨.empty, [], committed⟩
    (preparedOf_empty crates committed)
  rw [List.nil_append] at hspec
  constructor
  · rintro ⟨prepared, block, hrun, -⟩
    obtain ⟨prepared', hprepared, -⟩ := bind_eq_ok hrun
    exact hends.mp ⟨prepared', hprepared⟩
  · intro h
    obtain ⟨prepared, hprepared⟩ := hends.mpr h
    have hrows : PreparedOf crates (exported typeName committed batch) prepared :=
      hspec prepared hprepared
    have hshort := fun name column hlookup => hrows.rows.within.short name column hlookup (by simp)
    obtain ⟨block, hblock, hids, hcolumns⟩ :=
      mkBlock_spec π prepared.table (hrows.length_ids ▸ hshort)
    rw [hrows.length_ids] at hcolumns
    refine ⟨prepared, block, ?_, hids.trans hrows.ids, hshort, hrows.rows.holds, hrows.rows.found,
      hcolumns⟩
    rw [processBatch, prepare, hprepared]
    exact congrArg (· >>= fun block => .ok (prepared, block)) hblock

/-! ## The rows that are selected -/

/-- The element of a batch of states. -/
def BatchItem.ofElement (el : BatchElement) : BatchItem := ⟨el.1, el.2.1.obj, el.2.2⟩

/-- **The individuals that get rows** are those that are selected of a block. -/
theorem exported_selectBlock (typeName : String) (committed : CommittedTypesOps)
    (block : List BatchElement) :
    exported typeName committed (block.map .ofElement) =
      (selectBlock typeName committed block).1.map .ofElement := by
  induction block generalizing committed with
  | nil => rfl
  | cons el block ih =>
    have hop : (BatchItem.ofElement el).signedOp = signedOp el := rfl
    rw [List.map_cons, exported, selectBlock_cons, hop]
    split_ifs
    · exact ih committed
    · rw [List.map_cons, ih]

/-- **The columns of ids, signs and versions** are those of the rows of the elements. -/
theorem rows_prepare {typeName : String} {committed : CommittedTypesOps}
    {block : List BatchElement} {prepared : Prepared}
    (hrun : prepare crates π typeName committed (block.map .ofElement) = .ok prepared) :
    let rows := (selectBlock typeName committed block).1.map (rowOf typeName)
    prepared.table.ids = rows.map (·.id) ∧ prepared.table.signs = rows.map (·.sign) ∧
      prepared.table.versions = rows.map (·.version) := by
  have hprepared := (ends_prepare typeName (block.map .ofElement) [] ⟨.empty, [], committed⟩
    (preparedOf_empty crates committed)).2 prepared hrun
  rw [List.nil_append, exported_selectBlock] at hprepared
  have hversion : ∀ el : BatchElement, versionOf (BatchItem.ofElement el).individual =
      .ok (rowOf typeName el).version := by
    intro el
    have hread := el.2.1.read_eq Getter.Answers.getFirstInteger "v-s:updateCounter"
    rw [versionOf]
    change _ <$> (el.2.1.obj.read .getFirstInteger "v-s:updateCounter").mapError Halt.panic = _
    rw [hread]
    rfl
  refine ⟨?_, ?_, ?_⟩
  · rw [hprepared.ids, List.map_map, List.map_map]
    rfl
  · rw [hprepared.signs, List.map_map, List.map_map]
    rfl
  · have hversions := hprepared.versions
    rw [List.map_map] at hversions
    refine List.map_injective_iff.mpr (fun _ _ => Except.ok.inj) (hversions.trans ?_)
    rw [List.map_map, List.map_map]
    exact List.map_congr_left fun el _ => hversion el

/-- A block with a document. -/
def documentBlock : List BatchElement :=
  [(1, (State.named "d:doc").addValue "rdf:type" .uri (.uri "d:Document"), 1)]

theorem rows_prepare_documentBlock : ∃ prepared,
    prepare Xapian.utcCrates (.stored _) "d:Document" ∅ (documentBlock.map .ofElement) =
      .ok prepared ∧ prepared.table.ids = ["d:doc"] ∧ prepared.table.signs = [1] ∧
        prepared.table.versions = [0] :=
  ⟨_, rfl, @rows_prepare Xapian.utcCrates (.stored _) "d:Document" ∅ documentBlock _ rfl⟩

/-! ## Two predicates in one column -/

/-- An individual with the predicates `v-s:title` and `v-s_title`. -/
def twoTitles : IndividualObj :=
  (IndividualObj.empty.addString "v-s:title" "a" .none).addString "v-s_title" "b" .none

/-- **Two predicates of one individual** have the column `v_s_title_str`, and the program stops. -/
theorem not_staysRectangular_twoTitles :
    ¬ StaysRectangular Xapian.utcCrates (.stored _) "d:Document" ∅ [⟨1, twoTitles, 1⟩] := by
  rintro ⟨prepared, block, hrun, -⟩
  have hstop : processBatch Xapian.utcCrates (.stored _) "d:Document" ∅ [⟨1, twoTitles, 1⟩] =
      .error (.fault .overflow) := by
    rfl
  exact nomatch hstop.symm.trans hrun

end Rows

end Veda.SearchIndexTt
