import Veda.Lib.Grouping
import Veda.Mstorage.Changes
import Veda.Xapian.QueryTranslation
import Mathlib.Data.Finset.Insert

set_option autoImplicit false

/-!
# The predicate tables

`veda-search-index-pt` keeps a table for every predicate. The elements of the queue are collected in
batches of types, and these are inserted block by block: the values of the individuals are put under
their predicates, and the texts of an individual, joined, into one more table `text`. After the
rows of a table are inserted, their operations are written to a log, with the type and the
predicate. When the program is started again, the log is read, and a predicate of an element whose
operation is there is skipped.

## Main definitions

* `SearchIndexPt.addToTypedBatch` — an element is collected.
* `SearchIndexPt.addToTables` — the rows of an individual.
* `SearchIndexPt.processUnits` — the tables of the blocks, one after another.
* `SearchIndexPt.readLog` — what is read of the log.

## Main results

* `SearchIndexPt.addToTables_eq`, `SearchIndexPt.mem_opsOf_addToTables` — what one element
  adds to the tables, and to what is committed.
* `SearchIndexPt.mem_opsOf_readLog` — what is read of a log.

## Design

A row has the values of its own column; the other columns of its block are filled up, in a way that
only depends on the rows of the block. The predicates of individuals are visited in any order, which
may be another one when they are read again. The creation of tables and columns is left out.
-/

namespace Veda.SearchIndexPt

open Veda.Lib Veda.Onto Veda.Mstorage

/-! ## Batches -/

/-- The number of the operation, the individual, and the sign. -/
abbrev BatchElement := ℕ × State × ℤ

abbrev TypedBatch := HashMap String (List BatchElement)

/-- `op_id * sign` -/
def signedOp (el : BatchElement) : ℤ := el.1 * el.2.2

/-- The state is not the actual version. -/
def isSkipped (newState : State) : Bool :=
  let actualVersion := (newState.get .getFirstLiteral "v-s:actualVersion").getD ""
  !actualVersion.isEmpty && actualVersion ≠ newState.uri

section Batches

-- the types that are below `v-s:Exportable`
variable (exported : String → Bool)

/-- The types of a state that are exported. -/
def typesOf (s : State) : List String :=
  ((s.get .getLiterals "rdf:type").getD []).filter exported

/-- A state is added to the batch of each of its types. -/
def addState (opId : ℕ) (s : State) (sign : ℤ) (typedBatch : TypedBatch) : TypedBatch :=
  (typesOf exported s).foldl
    (fun typedBatch typeName => typedBatch.pushAt typeName (opId, s, sign)) typedBatch

/-- `add_to_typed_batch`. -/
def addToTypedBatch (typedBatch : TypedBatch) (queueElement : Element) : TypedBatch :=
  if isSkipped queueElement.new then typedBatch
  else
    let typedBatch :=
      match queueElement.prevState with
      | some prevState => addState exported queueElement.opId prevState (-1) typedBatch
      | none => typedBatch
    if queueElement.cmd = .remove then typedBatch
    else addState exported queueElement.opId queueElement.new 1 typedBatch

end Batches

def blockLimit : ℕ := 20000

/-! ## Rows -/

/-- The column of a row, and what is in it. -/
inductive Column
  | int (values : List Int64)
  | str (values : List String)
  | dec (values : List (Int64 × Int64))
  | date (values : List Int64)
  /-- the type of the values is not supported -/
  | unsupported
  deriving DecidableEq

/-- `replace("'", "\\'")` -/
def escapeQuotes (text : String) : String :=
  String.ofList (text.toList.flatMap fun c => if c = '\'' then ['\\', '\''] else [c])

/-- The language of a text behind it. -/
def langSuffix : Lang → String
  | .none => ""
  | .ru => "@ru"
  | .en => "@en"

/-- The column of the values of a predicate; the first one decides. -/
def columnOf (resources : List Resource) : Column :=
  match resources.head?.map Resource.rtype with
  | some .integer => .int (resources.map (·.getInt))
  | some .string =>
    .str (resources.map fun resource => escapeQuotes resource.getStr ++ langSuffix resource.getLang)
  | some .uri => .str (resources.map (·.getUri))
  | some .boolean => .int (resources.map fun resource => if resource.getBool then 1 else 0)
  | some .decimal => .dec (resources.map (·.getNum))
  | some .datetime => .date (resources.map (·.getDatetime))
  | _ => .unsupported

/-- The texts among the values of a predicate. -/
def textsOf (resources : List Resource) : List String :=
  if resources.head?.map Resource.rtype = some .string then
    resources.map fun resource => String.ofList (Xapian.trim resource.getStr)
  else []

/-- A row of the table of a predicate. -/
structure Row where
  typeName : String
  created : Int64
  id : String
  sign : ℤ
  version : UInt32
  op : ℤ
  column : Column
  deriving DecidableEq

/-- The row of an individual with the values of a predicate. -/
def rowOf (typeName : String) (el : BatchElement) (resources : List Resource) : Row where
  typeName := typeName
  created := (el.2.1.get .getFirstDatetime "v-s:created").getD 0
  id := el.2.1.uri
  sign := el.2.2
  version := ((el.2.1.get .getFirstInteger "v-s:updateCounter").getD 0).toUInt64.toUInt32
  op := signedOp el
  column := columnOf resources

/-! ## The log -/

structure TypePropOps where
  typeName : String
  predicate : String
  ops : List ℤ
  deriving DecidableEq

abbrev CommittedTypesPropsOps := HashMap String (HashMap String (Finset ℤ))

/-- The operations of a type and a predicate that were committed. -/
def opsOf (committed : CommittedTypesPropsOps) (typeName predicate : String) : Finset ℤ :=
  (((committed.lookup typeName).getD ∅).lookup predicate).getD ∅

def insertOp (committed : CommittedTypesPropsOps) (typeName predicate : String) (op : ℤ) :
    CommittedTypesPropsOps :=
  committed.insert typeName
    (((committed.lookup typeName).getD ∅).insert predicate
      (insert op (opsOf committed typeName predicate)))

/-- One record of the log. -/
def readRecord (committed : CommittedTypesPropsOps) (record : TypePropOps) :
    CommittedTypesPropsOps :=
  record.ops.foldl (fun committed op => insertOp committed record.typeName record.predicate op)
    committed

def readLog (log : List TypePropOps) : CommittedTypesPropsOps := log.foldl readRecord ∅

/-! ## Tables -/

abbrev PredicateTables := HashMap String (List Row)

/-- `add_to_predicate_table`. -/
def addToPredicateTable (typeName : String) (el : BatchElement) (individual : IndividualObj)
    (predicate : String) (acc : PredicateTables × List String) : PredicateTables × List String :=
  match individual.resources.lookup predicate with
  | some resources =>
    (acc.1.pushAt predicate (rowOf typeName el resources), acc.2 ++ textsOf resources)
  | none => acc

/-- The texts with blanks between (`join`). -/
def join (texts : List String) : String :=
  String.ofList ([' '].intercalate (texts.map String.toList))

section Processing

-- the order in which the predicates of an individual are visited
variable (π : IterOrder String)

/-- `get_predicates`. -/
def getPredicates (el : BatchElement) : List String := (el.2.1.obj.resources.iter π).map Prod.fst

/-- A predicate of an individual, unless it was committed. -/
def addPredicate (typeName : String) (el : BatchElement)
    (acc : CommittedTypesPropsOps × PredicateTables × List String) (predicate : String) :
    CommittedTypesPropsOps × PredicateTables × List String :=
  if signedOp el ∈ opsOf acc.1 typeName predicate then acc
  else (insertOp acc.1 typeName predicate (signedOp el),
    addToPredicateTable typeName el el.2.1.obj predicate acc.2)

/-- `add_to_tables`. -/
def addToTables (typeName : String) (acc : CommittedTypesPropsOps × PredicateTables)
    (el : BatchElement) : CommittedTypesPropsOps × PredicateTables :=
  let added := (getPredicates π el).foldl (addPredicate typeName el) (acc.1, acc.2, [])
  if added.2.2.isEmpty then (added.1, added.2.1)
  else
    let individual := el.2.1.obj.setString "text" (join added.2.2) .none
    (added.1, (addToPredicateTable typeName el individual "text" added.2).1)

/-- `process_batch`: the tables of a block. -/
def processBatch (committed : CommittedTypesPropsOps) (typeName : String)
    (batch : List BatchElement) : CommittedTypesPropsOps × PredicateTables :=
  batch.foldl (addToTables π typeName) (committed, ∅)

/-- The tables of the blocks, one after another (`process_typed_batch`). -/
def processUnits (committed : CommittedTypesPropsOps) :
    List (String × List BatchElement) → List PredicateTables
  | [] => []
  | unit :: work =>
    (processBatch π committed unit.1 unit.2).2 ::
      processUnits (processBatch π committed unit.1 unit.2).1 work

end Processing

/-- The rows of a table of a block. -/
def tableAt (tables : List PredicateTables) (k : ℕ) (predicate : String) : List Row :=
  ((tables[k]?.getD ∅).lookup predicate).getD []

/-- The record of a table in the log. -/
def recordOf (typeName predicate : String) (rows : List Row) : TypePropOps :=
  ⟨typeName, predicate, rows.map (·.op)⟩

/-! ## What is committed -/

theorem mem_opsOf_insertOp {committed : CommittedTypesPropsOps} {t p t' p' : String} {op op' : ℤ} :
    op' ∈ opsOf (insertOp committed t p op) t' p' ↔
      (t' = t ∧ p' = p ∧ op' = op) ∨ op' ∈ opsOf committed t' p' := by
  by_cases ht : t' = t
  · subst ht
    by_cases hp : p' = p
    · subst hp
      simp [opsOf, insertOp]
    · simp [opsOf, insertOp, hp]
  · simp [opsOf, insertOp, ht]

theorem mem_opsOf_readRecord {committed : CommittedTypesPropsOps} {record : TypePropOps}
    {t p : String} {op : ℤ} :
    op ∈ opsOf (readRecord committed record) t p ↔
      (t = record.typeName ∧ p = record.predicate ∧ op ∈ record.ops) ∨
        op ∈ opsOf committed t p := by
  obtain ⟨typeName, predicate, ops⟩ := record
  unfold readRecord
  dsimp only
  induction ops generalizing committed with
  | nil => simp
  | cons op' ops ih =>
    rw [List.foldl_cons, ih, mem_opsOf_insertOp, List.mem_cons]
    tauto

/-- **What is read of a log**: the operations of its records. -/
theorem mem_opsOf_readLog {log : List TypePropOps} {t p : String} {op : ℤ} :
    op ∈ opsOf (readLog log) t p ↔
      ∃ record ∈ log, t = record.typeName ∧ p = record.predicate ∧ op ∈ record.ops := by
  have hfrom : ∀ committed : CommittedTypesPropsOps,
      op ∈ opsOf (log.foldl readRecord committed) t p ↔
        (∃ record ∈ log, t = record.typeName ∧ p = record.predicate ∧ op ∈ record.ops) ∨
          op ∈ opsOf committed t p := by
    induction log with
    | nil => simp
    | cons record log ih =>
      intro committed
      rw [List.foldl_cons, ih, mem_opsOf_readRecord, List.exists_mem_cons_iff, or_left_comm,
        or_assoc]
  rw [readLog, hfrom]
  exact or_iff_left (Finset.notMem_empty op)

/-! ## What one element adds -/

section Element

variable (π : IterOrder String) (typeName : String) (el : BatchElement)

/-- The values of a predicate. -/
def valuesAt (el : BatchElement) (predicate : String) : List Resource :=
  (el.2.1.obj.resources.lookup predicate).getD []

/-- The predicates of an individual that were not committed. -/
def keptBy (committed : CommittedTypesPropsOps) : List String :=
  (getPredicates π el).filter fun predicate => signedOp el ∉ opsOf committed typeName predicate

/-- The rows of the predicates that are kept. -/
def ownRows (kept : List String) : List (String × Row) :=
  kept.map fun predicate => (predicate, rowOf typeName el (valuesAt el predicate))

/-- The texts of the predicates that are kept. -/
def textsAt (kept : List String) : List String :=
  kept.flatMap fun predicate => textsOf (valuesAt el predicate)

/-- The row of the texts. -/
def textRows (texts : List String) : List (String × Row) :=
  if texts.isEmpty then []
  else [("text", rowOf typeName el [⟨.string, .str (join texts) .none, 0⟩])]

/-- All rows of an element. -/
def rowsFor (kept : List String) : List (String × Row) :=
  ownRows typeName el kept ++ textRows typeName el (textsAt el kept)

variable {π typeName el}

theorem nodup_getPredicates : (getPredicates π el).Nodup := HashMap.nodup_fst_iter π _

theorem lookup_of_mem_getPredicates {predicate : String} (h : predicate ∈ getPredicates π el) :
    el.2.1.obj.resources.lookup predicate = some (valuesAt el predicate) := by
  obtain ⟨⟨p, resources⟩, hentry, rfl⟩ := List.mem_map.mp h
  have hlookup := (HashMap.mem_iter π _ p resources).mp hentry
  rw [valuesAt, hlookup]
  rfl

theorem foldl_addPredicate {predicates : List String} (hnodup : predicates.Nodup)
    (hvalues : ∀ p ∈ predicates, el.2.1.obj.resources.lookup p = some (valuesAt el p))
    (committed : CommittedTypesPropsOps) (tables : PredicateTables) (texts : List String) :
    let kept := predicates.filter fun p => signedOp el ∉ opsOf committed typeName p
    let added := predicates.foldl (addPredicate typeName el) (committed, tables, texts)
    added.2 = ((ownRows typeName el kept).foldl (fun m p => m.pushAt p.1 p.2) tables,
      texts ++ textsAt el kept) ∧
    ∀ t p op, op ∈ opsOf added.1 t p ↔
      (t = typeName ∧ p ∈ predicates ∧ op = signedOp el) ∨ op ∈ opsOf committed t p := by
  induction predicates generalizing committed tables texts with
  | nil => simp [ownRows, textsAt]
  | cons predicate predicates ih =>
    obtain ⟨hnot, hnodup⟩ := List.nodup_cons.mp hnodup
    have hvalues' : ∀ p ∈ predicates, el.2.1.obj.resources.lookup p = some (valuesAt el p) :=
      fun p hp => hvalues p (List.mem_cons_of_mem _ hp)
    dsimp only
    rw [List.foldl_cons, addPredicate]
    split_ifs with hcommitted
    · obtain ⟨hrows, hops⟩ := ih hnodup hvalues' committed tables texts
      refine ⟨?_, fun t p op => ?_⟩
      · rw [hrows, List.filter_cons_of_neg (by simpa using hcommitted)]
      · rw [hops, List.mem_cons]
        constructor
        · rintro (⟨ht, hp, hop⟩ | hop)
          · exact .inl ⟨ht, .inr hp, hop⟩
          · exact .inr hop
        · rintro (⟨rfl, rfl | hp, rfl⟩ | hop)
          · exact .inr hcommitted
          · exact .inl ⟨rfl, hp, rfl⟩
          · exact .inr hop
    · rw [addToPredicateTable, hvalues predicate List.mem_cons_self]
      obtain ⟨hrows, hops⟩ := ih hnodup hvalues'
        (insertOp committed typeName predicate (signedOp el))
        (tables.pushAt predicate (rowOf typeName el (valuesAt el predicate)))
        (texts ++ textsOf (valuesAt el predicate))
      -- the other predicates are kept as before
      have hkept : (predicates.filter fun p =>
          signedOp el ∉ opsOf (insertOp committed typeName predicate (signedOp el)) typeName p) =
          predicates.filter fun p => signedOp el ∉ opsOf committed typeName p := by
        refine List.filter_congr fun p hp => ?_
        rw [decide_eq_decide, mem_opsOf_insertOp, not_or, and_iff_right]
        rintro ⟨-, rfl, -⟩
        exact hnot hp
      rw [hkept] at hrows
      refine ⟨?_, fun t p op => ?_⟩
      · rw [hrows, List.filter_cons_of_pos (by simpa using hcommitted)]
        simp only [ownRows, textsAt, List.map_cons, List.foldl_cons, List.flatMap_cons,
          List.append_assoc]
      · rw [hops, mem_opsOf_insertOp, List.mem_cons]
        tauto

/-- **What one element adds** to the tables. -/
theorem addToTables_eq (committed : CommittedTypesPropsOps) (tables : PredicateTables) :
    (addToTables π typeName (committed, tables) el).2 =
      (rowsFor typeName el (keptBy π typeName el committed)).foldl (fun m p => m.pushAt p.1 p.2)
        tables := by
  have hrows : ((getPredicates π el).foldl (addPredicate typeName el) (committed, tables, [])).2 =
      ((ownRows typeName el (keptBy π typeName el committed)).foldl (fun m p => m.pushAt p.1 p.2)
        tables, textsAt el (keptBy π typeName el committed)) :=
    (@foldl_addPredicate typeName el (getPredicates π el) nodup_getPredicates
      (fun p hp => lookup_of_mem_getPredicates hp) committed tables []).1
  unfold addToTables rowsFor textRows
  dsimp only
  rw [hrows, List.foldl_append]
  by_cases htexts : (textsAt el (keptBy π typeName el committed)).isEmpty
  · rw [if_pos htexts, if_pos htexts]
    rfl
  · rw [if_neg htexts, if_neg htexts, addToPredicateTable, IndividualObj.setString,
      IndividualObj.lookup_setValue, if_pos rfl]
    rfl

/-- **What one element adds** to what is committed. -/
theorem mem_opsOf_addToTables {committed : CommittedTypesPropsOps} {tables : PredicateTables}
    {t p : String} {op : ℤ} :
    op ∈ opsOf (addToTables π typeName (committed, tables) el).1 t p ↔
      (t = typeName ∧ p ∈ getPredicates π el ∧ op = signedOp el) ∨ op ∈ opsOf committed t p := by
  obtain ⟨-, hops⟩ := @foldl_addPredicate typeName el (getPredicates π el) nodup_getPredicates
    (fun p hp => lookup_of_mem_getPredicates hp) committed tables []
  rw [← hops]
  unfold addToTables
  dsimp only
  split_ifs <;> rfl

theorem op_of_mem_rowsFor {kept : List String} {entry : String × Row}
    (h : entry ∈ rowsFor typeName el kept) : entry.2.op = signedOp el := by
  rcases List.mem_append.mp h with h | h
  · obtain ⟨predicate, -, rfl⟩ := List.mem_map.mp h
    rfl
  · unfold textRows at h
    split_ifs at h
    · cases h
    · rw [List.mem_singleton.mp h]
      rfl

end Element

end Veda.SearchIndexPt
