import Veda.Lib.Utf8
import Veda.Mstorage.Changes
import Veda.Onto.Hierarchy

set_option autoImplicit false

/-!
# The export to SQL

`veda-fanout-sql` keeps the states of the exportable individuals in a database with a table for
every predicate. For an element of the queue it deletes, in one transaction, the rows of the
individual from the tables of the previous state and inserts the rows of the new one. When a
statement fails the others are tried nevertheless, and the transaction is rolled back.

## Main definitions

* `FanoutSql.Database`, `FanoutSql.Transaction` — the tables, and a transaction on them.
* `FanoutSql.Attempt` — what the database answers while one element is handled.
* `FanoutSql.exportState`, `FanoutSql.process` — the handling of an element.
* `FanoutSql.rowsOf` — the rows of a state.

## Main results

* `FanoutSql.rows_deleteItems`, `FanoutSql.rows_insertItems` — the statements of a
  transaction in which none fails.
* `FanoutSql.rows_process_of_ne_committed` — a transaction that is not committed.
* `FanoutSql.docRows_committed` — a transaction that is committed.

## Design

Which statements succeed is an input; a statement on a table that is not there, or that creates one
that is there or has no type for its values, fails in any case. A transaction is atomic in the
rows: until it is committed the rows are those before it. The tables that were created in it stay.
The functions of the standard library and of the library for dates that make texts of names, times
and numbers are parameters; a time can be out of the range of the library, and a name can be cut
inside of a character, which makes the program panic. A program that has panicked is started again
and reads the names of the tables. The index, the engine and the numbers of the rows are left out,
and so is the number of the element that is written to the file of the module.
-/

namespace Veda.FanoutSql

open Veda.Lib Veda.Onto Veda.Mstorage

/-! ## Data -/

/-- The functions that make texts. -/
structure Formats where
  toLowercase : String → String
  /-- `NaiveDateTime::from_timestamp(_, 0).to_string()`, `none` when it panics -/
  datetime : Int64 → Option String
  float : Float → String

structure Context where
  onto : Onto
  tables : HashMap String Bool

/-- A row of a predicate table, as the statement that inserts it has it. -/
structure Row where
  docId : String
  docType : String
  created : String
  value : String
  lang : String
  deleted : String
  deriving DecidableEq

/-- The tables with the types of their values, and the rows with the tables they are in. -/
structure Database where
  tables : HashMap String String
  rows : List (String × Row)

/-- What the database answers in one run of `process`, and the orders in which the predicates of
the two states are visited. -/
structure Attempt where
  getConn : Bool
  startTransaction : Bool
  /-- the statements, in the order in which they are issued -/
  statement : ℕ → Bool
  rollback : Bool
  commit : Bool
  prevOrder : IterOrder String
  order : IterOrder String

structure Transaction where
  tables : HashMap String Bool
  db : Database
  /-- the number of the statements so far -/
  issued : ℕ
  trError : Bool

/-! ## Statements -/

/-- Issue a statement. -/
def Transaction.query (tr : Transaction) (a : Attempt) (statement : Database → Option Database) :
    Bool × Transaction :=
  match if a.statement tr.issued then statement tr.db else none with
  | some db => (true, { tr with db, issued := tr.issued + 1 })
  | none => (false, { tr with issued := tr.issued + 1 })

/-- Remember that something failed. -/
def Transaction.check (tr : Transaction) (ok : Bool) : Transaction :=
  if ok then tr else { tr with trError := true }

/-- The type of the column with the values; binary values have none. -/
def sqlType : DataType → Option String
  | .boolean => some "BOOL"
  | .datetime => some "DATETIME"
  | .decimal => some "DECIMAL (14,4)"
  | .integer => some "INTEGER"
  | .string => some "TEXT"
  | .uri => some "CHAR(128)"
  | .binary => none

def createTable (table : String) (type : Option String) (db : Database) : Option Database :=
  if table ∈ db.tables then none
  else type.map fun type => { db with tables := db.tables.insert table type }

def deleteFrom (table uri : String) (db : Database) : Option Database :=
  if table ∈ db.tables then
    some { db with rows := db.rows.filter fun x => !(x.1 = table && x.2.docId = uri) }
  else none

def insertInto (table : String) (row : Row) (db : Database) : Option Database :=
  if table ∈ db.tables then some { db with rows := db.rows ++ [(table, row)] } else none

def checkCreatePredicateTable (a : Attempt) (predicate : String) (resource : Resource)
    (tr : Transaction) : Bool × Transaction :=
  if predicate ∈ tr.tables then (true, tr)
  else
    match tr.query a (createTable predicate (sqlType resource.rtype)) with
    | (true, tr) => (true, { tr with tables := tr.tables.insert predicate true })
    | (false, tr) => (false, tr)

/-! ## Texts -/

/-- `String::truncate`, which panics when it would cut a character. -/
def truncate (s : String) (length : ℕ) : Option String :=
  if (utf8 s).length ≤ length then some s else fromUtf8 ((utf8 s).take length)

/-- The name of the table of a predicate. -/
def tableName (f : Formats) (predicate : String) : Option String :=
  truncate (f.toLowercase predicate) 64

def quoted (s : String) : String := "'" ++ s ++ "'"

/-- `replace` of a character by two of it. -/
def doubled (c s : String) : String :=
  String.join (s.toList.map fun x => if x.toString = c then c ++ c else x.toString)

/-- A text in quotes, with its own quotes and backslashes doubled. -/
def quotedText (s : String) : String := quoted (doubled "\\" (doubled "'" s))

def sqlValue (f : Formats) (resource : Resource) : Option String :=
  match resource.value with
  | .bool true => some "1"
  | .bool false => some "0"
  | .int i => some (toString i)
  | .str s _ => some (quotedText s)
  | .uri s => some (quotedText s)
  | .num _ _ => some (f.float resource.getFloat)
  | .datetime t => (f.datetime t).map quoted
  | .binary _ => some "NULL"

def sqlLang : Lang → String
  | .none => quoted "NO"
  | .ru => quoted "RU"
  | .en => quoted "EN"

/-- The text of the time at which the individual was created. -/
def createdOf (f : Formats) (newState : State) : Option String :=
  match newState.get .getFirstDatetime "v-s:created" with
  | some t => (f.datetime t).map quoted
  | none => some "NULL"

def deletedOf (newState : State) : String :=
  if newState.get (.isExistsBool true) "v-s:deleted" then "1" else "NULL"

/-! ## The export of a state -/

/-- The values of a state with their predicates, as they are visited. -/
def entries (π : IterOrder String) (s : State) : List (String × Resource) :=
  (s.obj.resources.iter π).flatMap fun e => e.2.map fun resource => (e.1, resource)

/-- The values with the classes for which they are inserted. -/
def items (π : IterOrder String) (classes : List String) (s : State) :
    List (String × String × Resource) :=
  classes.flatMap fun cls => (entries π s).map fun e => (cls, e)

/-- The row of a value, and its table. -/
def itemRow (f : Formats) (uri created deleted : String) (item : String × String × Resource) :
    Option (String × Row) := do
  let table ← tableName f item.2.1
  let value ← sqlValue f item.2.2
  return (table, ⟨uri, item.1, created, value, sqlLang item.2.2.getLang, deleted⟩)

/-- Delete the individual from the table of one of its predicates; a panic leaves the transaction as
it is. -/
def deleteItem (f : Formats) (a : Attempt) (uri : String) (tr : Transaction)
    (entry : String × Resource) : Except Transaction Transaction :=
  if entry.2.order = 0 then
    match tableName f entry.1 with
    | none => .error tr
    | some predicate =>
      let (checked, tr) := checkCreatePredicateTable a predicate entry.2 tr
      let (done, tr) := (tr.check checked).query a (deleteFrom predicate uri)
      .ok (tr.check done)
  else .ok tr

/-- The check of the table of a value. -/
def checkItem (f : Formats) (a : Attempt) (tr : Transaction)
    (item : String × String × Resource) : Except Transaction Transaction :=
  match tableName f item.2.1 with
  | none => .error tr
  | some predicate =>
    if item.2.2.order = 0 then
      let (checked, tr) := checkCreatePredicateTable a predicate item.2.2 tr
      .ok (tr.check checked)
    else .ok tr

/-- Insert a value into the table of its predicate. -/
def insertItem (f : Formats) (a : Attempt) (uri created deleted : String) (tr : Transaction)
    (item : String × String × Resource) : Except Transaction Transaction := do
  let tr ← checkItem f a tr item
  match itemRow f uri created deleted item with
  | none => .error tr
  | some (predicate, row) =>
    let (done, tr) := tr.query a (insertInto predicate row)
    .ok (tr.check done)

/-- Delete a previous state. -/
def removePrevious (f : Formats) (a : Attempt) (uri : String) (prevState : State) (isNew : Bool)
    (tr : Transaction) : Except Transaction Transaction :=
  if isNew then .ok tr else (entries a.prevOrder prevState).foldlM (deleteItem f a uri) tr

/-- The statements of a transaction. -/
def exportStatements (f : Formats) (a : Attempt) (newState prevState : State)
    (classes : List String) (isNew : Bool) (tr : Transaction) :
    Except Transaction Transaction := do
  let tr ← removePrevious f a newState.uri prevState isNew tr
  match createdOf f newState with
  | none => .error tr
  | some created =>
    (items a.order classes newState).foldlM
      (insertItem f a newState.uri created (deletedOf newState)) tr

/-- The ways in which the handling of an element ends. -/
inductive Ending
  | skipped | noConnection | notStarted | panicked | rolledBack | rollbackFailed | committed
  | commitFailed
  deriving DecidableEq

inductive PrepareError
  | fatal | recoverable
  deriving DecidableEq

/-- The answer of `process`, none when it panics. -/
def Ending.answer : Ending → Option (Except PrepareError Bool)
  | .skipped => some (.ok true)
  | .noConnection => some (.error .recoverable)
  | .notStarted => some (.error .recoverable)
  | .panicked => none
  | .rolledBack => some (.ok true)
  | .rollbackFailed => some (.error .fatal)
  | .committed => some (.ok true)
  | .commitFailed => some (.error .fatal)

structure World where
  ctx : Context
  db : Database

/-- The database when a transaction is not committed: the rows are those before it. -/
def Database.rolledBack (before after : Database) : Database := { after with rows := before.rows }

/-- `read_tables` -/
def readTables (db : Database) : HashMap String Bool := HashMap.insertAll ∅
  (db.tables.keys.map fun name => (name, true))

/-- The individual is the actual version of itself. -/
def isActual (s : State) : Bool :=
  let actualVersion := (s.get .getFirstLiteral "v-s:actualVersion").getD ""
  actualVersion.isEmpty || actualVersion = s.uri

/-- The end of a transaction: it is rolled back when a statement failed, and else committed. A program
that panics is started again. -/
def endTransaction (a : Attempt) (w : World) : Except Transaction Transaction → Ending × World
  | .error tr =>
    let db := w.db.rolledBack tr.db
    (.panicked, ⟨{ w.ctx with tables := readTables db }, db⟩)
  | .ok tr =>
    let ctx := { w.ctx with tables := tr.tables }
    if tr.trError then
      (if a.rollback then .rolledBack else .rollbackFailed, ⟨ctx, w.db.rolledBack tr.db⟩)
    else if a.commit then (.committed, ⟨ctx, tr.db⟩)
    else (.commitFailed, ⟨ctx, w.db.rolledBack tr.db⟩)

/-- `export` of the source. -/
def exportState (f : Formats) (a : Attempt) (newState prevState : State) (classes : List String)
    (isNew : Bool) (w : World) : Ending × World :=
  if !isActual newState then (.skipped, w)
  else if !a.getConn then (.noConnection, w)
  else if !a.startTransaction then (.notStarted, w)
  else endTransaction a w
    (exportStatements f a newState prevState classes isNew ⟨w.ctx.tables, w.db, 0, false⟩)

def isExportable (onto : Onto) (cls : String) : Bool :=
  onto.isSomeEntered cls ["v-s:Exportable"]

/-- Handle an element. -/
def process (f : Formats) (a : Attempt) (w : World) (queueElement : Element) : Ending × World :=
  let isNew := queueElement.prevState.isNone
  match queueElement.new.get .getLiterals "rdf:type" with
  | some classes =>
    if classes.any (isExportable w.ctx.onto) then
      exportState f a queueElement.new queueElement.prev classes isNew w
    else (.skipped, w)
  | none => (.skipped, w)

/-! ## The rows of a state -/

/-- The classes of a state. -/
def classesOf (s : State) : List String := (s.get .getLiterals "rdf:type").getD []

/-- The rows of a state: one for each class, predicate and value. -/
def rowsOf (f : Formats) (π : IterOrder String) (s : State) : Option (List (String × Row)) := do
  let created ← createdOf f s
  (items π (classesOf s) s).mapM (itemRow f s.uri created (deletedOf s))

theorem exists_of_mem_rows {f : Formats} {uri created deleted : String}
    {items : List (String × String × Resource)} {rows : List (String × Row)}
    (h : items.mapM (itemRow f uri created deleted) = some rows) {x : String × Row} (hx : x ∈ rows) :
    ∃ item ∈ items, tableName f item.2.1 = some x.1 ∧ x.2.docId = uri := by
  obtain ⟨item, hitem, hrow⟩ := exists_of_mem_mapM h hx
  obtain ⟨table, htable, hrow⟩ := Option.bind_eq_some_iff.mp hrow
  obtain ⟨value, -, hrow⟩ := Option.bind_eq_some_iff.mp hrow
  obtain rfl := Option.some.inj hrow
  exact ⟨item, hitem, htable, rfl⟩

/-- The rows of an individual. -/
def docRows (db : Database) (id : String) : List (String × Row) :=
  db.rows.filter fun x => x.2.docId = id

/-! ## What the statements do -/

section Statements

variable {f : Formats} {a : Attempt} {uri created deleted : String} {tr tr' : Transaction}

theorem check_of_noError {ok : Bool} (h : (tr.check ok).trError = false) :
    tr.trError = false ∧ ok = true := by
  cases ok
  · cases h
  · exact ⟨h, rfl⟩

@[simp] theorem db_check (tr : Transaction) (ok : Bool) : (tr.check ok).db = tr.db := by
  cases ok <;> rfl

@[simp] theorem trError_query (tr : Transaction) (a : Attempt)
    (statement : Database → Option Database) :
    (tr.query a statement).2.trError = tr.trError := by
  unfold Transaction.query
  split <;> rfl

theorem query_of_done {statement : Database → Option Database}
    (h : (tr.query a statement).1 = true) : statement tr.db = some (tr.query a statement).2.db := by
  unfold Transaction.query at h ⊢
  cases hrun : if a.statement tr.issued then statement tr.db else none with
  | none =>
    rw [hrun] at h
    cases h
  | some db =>
    split_ifs at hrun
    exact hrun

theorem checkCreatePredicateTable_snd (predicate : String) (resource : Resource) :
    (checkCreatePredicateTable a predicate resource tr).2.db.rows = tr.db.rows ∧
      (checkCreatePredicateTable a predicate resource tr).2.trError = tr.trError := by
  unfold checkCreatePredicateTable Transaction.query createTable
  split_ifs with hknown hissued hthere
  · exact ⟨rfl, rfl⟩
  · exact ⟨rfl, rfl⟩
  · cases sqlType resource.rtype <;> exact ⟨rfl, rfl⟩
  · exact ⟨rfl, rfl⟩

/-- The tables from which an individual is deleted. -/
def deletedTables (f : Formats) (entries : List (String × Resource)) : List String :=
  entries.filterMap fun e => if e.2.order = 0 then tableName f e.1 else none

theorem rows_deleteItem {entry : String × Resource}
    (h : deleteItem f a uri tr entry = .ok tr') (hnone : tr'.trError = false) :
    tr.trError = false ∧ tr'.db.rows = tr.db.rows.filter fun x =>
      !(x.2.docId = uri && x.1 ∈ deletedTables f [entry]) := by
  unfold deleteItem at h
  split_ifs at h with horder
  · cases hname : tableName f entry.1 with
    | none =>
      rw [hname] at h
      cases h
    | some predicate =>
      rw [hname] at h
      obtain ⟨hrows, herror⟩ := @checkCreatePredicateTable_snd a tr predicate entry.2
      dsimp only at h
      generalize checkCreatePredicateTable a predicate entry.2 tr = checked at h hrows herror
      obtain rfl := Except.ok.inj h
      obtain ⟨hquery, hdone⟩ := check_of_noError hnone
      rw [trError_query] at hquery
      obtain ⟨hchecked, -⟩ := check_of_noError hquery
      have hdelete := query_of_done hdone
      rw [db_check, deleteFrom] at hdelete
      split_ifs at hdelete
      refine ⟨herror.symm.trans hchecked, ?_⟩
      rw [db_check, ← Option.some.inj hdelete, ← hrows]
      refine List.filter_congr fun x _ => ?_
      have htables : deletedTables f [entry] = [predicate] := by
        simp [deletedTables, horder, hname]
      rw [htables, Bool.and_comm]
      simp
  · obtain rfl := Except.ok.inj h
    refine ⟨hnone, ?_⟩
    have htables : deletedTables f [entry] = [] := by simp [deletedTables, horder]
    rw [htables]
    simp

/-- **The deletions** take the individual out of the tables of its previous state. -/
theorem rows_deleteItems {entries : List (String × Resource)}
    (h : entries.foldlM (deleteItem f a uri) tr = .ok tr') (hnone : tr'.trError = false) :
    tr.trError = false ∧ tr'.db.rows = tr.db.rows.filter fun x =>
      !(x.2.docId = uri && x.1 ∈ deletedTables f entries) := by
  induction entries generalizing tr with
  | nil =>
    obtain rfl := Except.ok.inj h
    exact ⟨hnone, by simp [deletedTables]⟩
  | cons entry entries ih =>
    rw [List.foldlM_cons] at h
    obtain ⟨tr₁, hfirst, hrest⟩ := bind_eq_ok h
    obtain ⟨hnone₁, hrows⟩ := ih hrest
    obtain ⟨hnone₀, hrows₁⟩ := rows_deleteItem hfirst hnone₁
    refine ⟨hnone₀, ?_⟩
    rw [hrows, hrows₁, List.filter_filter]
    refine List.filter_congr fun x _ => ?_
    have htables : deletedTables f (entry :: entries) =
        deletedTables f [entry] ++ deletedTables f entries := by
      rw [← List.singleton_append, deletedTables, List.filterMap_append]
      rfl
    rw [htables]
    by_cases huri : x.2.docId = uri <;>
      by_cases hfirst : x.1 ∈ deletedTables f [entry] <;> simp [huri, hfirst]

theorem rows_removePrevious {prevState : State} {isNew : Bool}
    (h : removePrevious f a uri prevState isNew tr = .ok tr') (hnone : tr'.trError = false) :
    tr'.db.rows = tr.db.rows.filter fun x =>
      !(x.2.docId = uri && (!isNew && x.1 ∈ deletedTables f (entries a.prevOrder prevState))) := by
  unfold removePrevious at h
  cases isNew with
  | true =>
    obtain rfl := Except.ok.inj h
    simp
  | false =>
    rw [(rows_deleteItems h hnone).2]
    simp

theorem rows_insertItem {item : String × String × Resource}
    (h : insertItem f a uri created deleted tr item = .ok tr') (hnone : tr'.trError = false) :
    tr.trError = false ∧ ∃ row, itemRow f uri created deleted item = some row ∧
      tr'.db.rows = tr.db.rows ++ [row] := by
  unfold insertItem at h
  obtain ⟨tr₁, hcheck, h⟩ := bind_eq_ok h
  have hcheck' : tr₁.db.rows = tr.db.rows ∧ (tr₁.trError = false → tr.trError = false) := by
    unfold checkItem at hcheck
    cases hname : tableName f item.2.1 with
    | none =>
      rw [hname] at hcheck
      cases hcheck
    | some predicate =>
      rw [hname] at hcheck
      obtain ⟨hrows, herror⟩ := @checkCreatePredicateTable_snd a tr predicate item.2.2
      dsimp only at hcheck
      split_ifs at hcheck
      · generalize checkCreatePredicateTable a predicate item.2.2 tr = checked at hcheck hrows herror
        obtain rfl := Except.ok.inj hcheck
        rw [db_check]
        exact ⟨hrows, fun hnone => herror.symm.trans (check_of_noError hnone).1⟩
      · obtain rfl := Except.ok.inj hcheck
        exact ⟨rfl, id⟩
  cases hrow : itemRow f uri created deleted item with
  | none =>
    rw [hrow] at h
    cases h
  | some row =>
    rw [hrow] at h
    obtain ⟨table, row⟩ := row
    have htr' : (tr₁.query a (insertInto table row)).2.check
        (tr₁.query a (insertInto table row)).1 = tr' := Except.ok.inj h
    rw [← htr'] at hnone ⊢
    obtain ⟨hquery, hdone⟩ := check_of_noError hnone
    rw [trError_query] at hquery
    have hinsert := query_of_done hdone
    rw [insertInto] at hinsert
    split_ifs at hinsert
    refine ⟨hcheck'.2 hquery, (table, row), rfl, ?_⟩
    rw [db_check, ← Option.some.inj hinsert, hcheck'.1]

/-- **The insertions** put in a row for every value. -/
theorem rows_insertItems {items : List (String × String × Resource)}
    (h : items.foldlM (insertItem f a uri created deleted) tr = .ok tr')
    (hnone : tr'.trError = false) :
    tr.trError = false ∧ ∃ rows, items.mapM (itemRow f uri created deleted) = some rows ∧
      tr'.db.rows = tr.db.rows ++ rows := by
  induction items generalizing tr with
  | nil =>
    obtain rfl := Except.ok.inj h
    exact ⟨hnone, [], rfl, (List.append_nil _).symm⟩
  | cons item items ih =>
    rw [List.foldlM_cons] at h
    obtain ⟨tr₁, hfirst, hrest⟩ := bind_eq_ok h
    obtain ⟨hnone₁, rows, hmap, hrows⟩ := ih hrest
    obtain ⟨hnone₀, row, hrow, hrows₁⟩ := rows_insertItem hfirst hnone₁
    refine ⟨hnone₀, row :: rows, ?_, ?_⟩
    · rw [List.mapM_cons, hrow, hmap]
      rfl
    · rw [hrows, hrows₁, List.append_assoc]
      rfl

end Statements

/-! ## The handling of an element -/

section Process

variable {f : Formats} {a : Attempt} {w : World} {e : Element}

/-- The state is exported: it has a class that is, and is the actual version. -/
def isExported (onto : Onto) (s : State) : Bool :=
  (classesOf s).any (isExportable onto) && isActual s

theorem process_eq (f : Formats) (a : Attempt) (w : World) (e : Element) :
    process f a w e =
      if isExported w.ctx.onto e.new then
        exportState f a e.new e.prev (classesOf e.new) e.prevState.isNone w
      else (.skipped, w) := by
  unfold process isExported classesOf
  cases e.new.get .getLiterals "rdf:type" with
  | none => rfl
  | some classes =>
    dsimp only [Option.getD_some]
    by_cases hclass : classes.any (isExportable w.ctx.onto) = true
    · rw [if_pos hclass]
      cases hactual : isActual e.new with
      | false => rw [exportState, hactual, if_pos (by rfl), if_neg (by simp)]
      | true => rw [if_pos (by simp only [hclass, Bool.and_true])]
    · rw [if_neg hclass, if_neg fun hboth => hclass (Bool.and_eq_true_iff.mp hboth).1]

theorem process_of_not_exported (h : isExported w.ctx.onto e.new = false) :
    process f a w e = (.skipped, w) := by
  rw [process_eq, h]
  rfl

theorem endTransaction_of_committed {result : Except Transaction Transaction}
    (h : (endTransaction a w result).1 = .committed) :
    ∃ tr, result = .ok tr ∧ tr.trError = false ∧ (endTransaction a w result).2.db = tr.db := by
  cases result with
  | error tr => cases h
  | ok tr =>
    unfold endTransaction at h ⊢
    dsimp only at h ⊢
    split_ifs at h with herror hrollback hcommit
    rw [if_neg herror]
    exact ⟨tr, rfl, Bool.eq_false_iff.mpr herror, by rw [if_pos hcommit]⟩

theorem rows_endTransaction {result : Except Transaction Transaction}
    (h : (endTransaction a w result).1 ≠ .committed) :
    (endTransaction a w result).2.db.rows = w.db.rows := by
  cases result with
  | error tr => rfl
  | ok tr =>
    unfold endTransaction at h ⊢
    dsimp only at h ⊢
    by_cases herror : tr.trError = true
    · rw [if_pos herror]
      rfl
    · rw [if_neg herror] at h ⊢
      by_cases hcommit : a.commit = true
      · rw [if_pos hcommit] at h
        exact absurd rfl h
      · rw [if_neg hcommit]
        rfl

@[simp] theorem onto_endTransaction (a : Attempt) (w : World)
    (result : Except Transaction Transaction) :
    (endTransaction a w result).2.ctx.onto = w.ctx.onto := by
  cases result with
  | error tr => rfl
  | ok tr =>
    unfold endTransaction
    dsimp only
    split_ifs <;> rfl

/-- **A transaction that is not committed** changes no rows. -/
theorem rows_process_of_ne_committed (h : (process f a w e).1 ≠ .committed) :
    (process f a w e).2.db.rows = w.db.rows := by
  rw [process_eq] at h ⊢
  unfold exportState at h ⊢
  split_ifs at h ⊢
  · rfl
  · rfl
  · rfl
  · exact rows_endTransaction h
  · rfl

@[simp] theorem onto_process (f : Formats) (a : Attempt) (w : World) (e : Element) :
    (process f a w e).2.ctx.onto = w.ctx.onto := by
  rw [process_eq]
  unfold exportState
  split_ifs
  · rfl
  · rfl
  · rfl
  · exact onto_endTransaction _ _ _
  · rfl

theorem exists_statements_of_committed (h : (process f a w e).1 = .committed) :
    isExported w.ctx.onto e.new = true ∧ ∃ tr,
      exportStatements f a e.new e.prev (classesOf e.new) e.prevState.isNone
        ⟨w.ctx.tables, w.db, 0, false⟩ = .ok tr ∧
      tr.trError = false ∧ (process f a w e).2.db = tr.db := by
  rw [process_eq] at h ⊢
  unfold exportState at h ⊢
  split_ifs at h with hexported hactual hconn hstart
  rw [if_pos hexported, if_neg hactual, if_neg hconn, if_neg hstart]
  exact ⟨hexported, endTransaction_of_committed h⟩

/-- **A transaction that is committed**: when the rows of the individual are in the tables of its
previous state, they are replaced by the rows of the new one, and the others stay. -/
theorem docRows_committed (h : (process f a w e).1 = .committed)
    (hprev : ∀ x ∈ docRows w.db e.new.uri, e.prevState.isNone = false ∧
      x.1 ∈ deletedTables f (entries a.prevOrder e.prev)) :
    (∃ rows, rowsOf f a.order e.new = some rows ∧
      docRows (process f a w e).2.db e.new.uri = rows) ∧
    ∀ id, id ≠ e.new.uri → docRows (process f a w e).2.db id = docRows w.db id := by
  obtain ⟨-, tr, hstatements, hnone, hdb⟩ := exists_statements_of_committed h
  rw [hdb]
  unfold exportStatements at hstatements
  obtain ⟨tr₁, hdelete, hinsert⟩ := bind_eq_ok hstatements
  cases hcreated : createdOf f e.new with
  | none =>
    rw [hcreated] at hinsert
    cases hinsert
  | some created =>
    rw [hcreated] at hinsert
    obtain ⟨hnone₁, rows, hmap, hrows⟩ := rows_insertItems hinsert hnone
    have hids : ∀ x ∈ rows, x.2.docId = e.new.uri := by
      intro x hx
      obtain ⟨item, -, -, hdoc⟩ := exists_of_mem_rows hmap hx
      exact hdoc
    have hremoved := rows_removePrevious hdelete hnone₁
    constructor
    · refine ⟨rows, ?_, ?_⟩
      · rw [rowsOf, hcreated]
        exact hmap
      · rw [docRows, hrows, List.filter_append, hremoved, List.filter_filter,
          List.filter_eq_nil_iff.mpr, List.nil_append, List.filter_eq_self.mpr]
        · exact fun x hx => decide_eq_true (hids x hx)
        · intro x hx hdoc
          rw [Bool.and_eq_true, decide_eq_true_eq] at hdoc
          obtain ⟨hsome, htable⟩ := hprev x (List.mem_filter.mpr ⟨hx, decide_eq_true hdoc.1⟩)
          simp [hdoc.1, hsome, htable] at hdoc
    · intro id hid
      have hnew : rows.filter (fun x => decide (x.2.docId = id)) = [] := by
        refine List.filter_eq_nil_iff.mpr fun x hx => ?_
        rw [hids x hx, decide_eq_true_eq]
        exact fun heq => hid heq.symm
      rw [docRows, docRows, hrows, List.filter_append, hnew, List.append_nil, hremoved,
        List.filter_filter]
      refine List.filter_congr fun x _ => ?_
      by_cases hdoc : x.2.docId = id
      · simp [hdoc, hid]
      · simp [hdoc]

end Process

end Veda.FanoutSql
