import Veda.Lib.Grouping
import Veda.Mstorage.Changes
import Mathlib.Algebra.BigOperators.Group.Finset.Basic
import Mathlib.Algebra.BigOperators.Ring.Finset
import Mathlib.Data.Int.Basic

set_option autoImplicit false

/-!
# The class tables

`veda-search-index-tt` keeps a table for every class. It never deletes rows: a row with the sign
`-1` cancels the one of a previous state. The elements of the queue are collected in a batch, and the
batch is inserted block by block. After every block a record is appended to a log, which is read when
the program starts again, so that rows are not inserted twice; the log is removed at the end of the
batch, and then the position in the queue is saved.

## Main definitions

* `SearchIndexTt.addToTypedBatch` — an element is collected.
* `SearchIndexTt.readLog`, `SearchIndexTt.selectBlock` — what the log keeps out of a block.
* `SearchIndexTt.Tables` — the storage, the queue, the program and the tables.
* `SearchIndexTt.Tables.step` — a step of any of them, or a crash.

## Main results

* `SearchIndexTt.mem_opsOf_readLog` — what is read of a log.
* `SearchIndexTt.mem_selectBlock` — what is selected of a block.

## Design

Elements are numbered from one, so that the element at position `k` of the queue has the number
`k + 1`. Of a row only the id, the sign and the version are kept, and the number of its element, which
is not a column; the columns of the values are left out. An insertion, the writing of a record, the
removal of the log and the saving of the position are steps of their own, and a crash can come between
any two of them. An insertion that fails ends the program like a crash before it. A record that is
not written completely cannot be read, and neither can what is written behind it.
-/

namespace Veda.SearchIndexTt

open Veda.Lib Veda.Onto Veda.Mstorage

/-! ## Batches -/

/-- The number of the operation, the individual, and the sign. -/
abbrev BatchElement := ℕ × State × ℤ

abbrev TypedBatch := HashMap String (List BatchElement)

/-- `op_id * sign` -/
def signedOp (el : BatchElement) : ℤ := el.1 * el.2.2

/-- The uris among the types of a state. -/
def typesOf (s : State) : List String :=
  ((s.get .getResources "rdf:type").getD []).filterMap fun resource =>
    match resource.value with
    | .uri typeName => some typeName
    | _ => none

/-- The state is not the actual version. -/
def isSkipped (newState : State) : Bool :=
  let actualVersion := (newState.get .getFirstLiteral "v-s:actualVersion").getD ""
  !actualVersion.isEmpty && actualVersion ≠ newState.uri

/-- A state is added to the batch of each of its types. -/
def addState (opId : ℕ) (s : State) (sign : ℤ) (typedBatch : TypedBatch) : TypedBatch :=
  (typesOf s).foldl (fun typedBatch typeName => typedBatch.pushAt typeName (opId, s, sign))
    typedBatch

def addToTypedBatch (typedBatch : TypedBatch) (queueElement : Element) : TypedBatch :=
  if isSkipped queueElement.new then typedBatch
  else
    let typedBatch :=
      match queueElement.prevState with
      | some prevState => addState queueElement.opId prevState (-1) typedBatch
      | none => typedBatch
    if queueElement.cmd = .remove then typedBatch
    else addState queueElement.opId queueElement.new 1 typedBatch

/-! ## The log -/

structure TypeOps where
  typeName : String
  ops : List ℤ
  deriving DecidableEq

/-- What a write to the log leaves. -/
inductive LogRecord
  | whole (record : TypeOps)
  | torn
  deriving DecidableEq

abbrev CommittedTypesOps := HashMap String (Finset ℤ)

/-- The operations of a type that were committed. -/
def opsOf (committed : CommittedTypesOps) (typeName : String) : Finset ℤ :=
  (committed.lookup typeName).getD ∅

def insertOp (committed : CommittedTypesOps) (typeName : String) (op : ℤ) : CommittedTypesOps :=
  committed.insert typeName (insert op (opsOf committed typeName))

/-- The records of the log are read until one cannot be. -/
def readFrom : List LogRecord → CommittedTypesOps → CommittedTypesOps
  | .whole record :: log, committed =>
    readFrom log (record.ops.foldl (fun committed op => insertOp committed record.typeName op)
      committed)
  | _, committed => committed

def readLog (log : List LogRecord) : CommittedTypesOps := readFrom log ∅

/-- The elements of a block that are not committed, and the operations with them. -/
def selectBlock (typeName : String) (committed : CommittedTypesOps) (block : List BatchElement) :
    List BatchElement × CommittedTypesOps :=
  block.foldl (fun acc el =>
    if signedOp el ∈ opsOf acc.2 typeName then acc
    else (acc.1 ++ [el], insertOp acc.2 typeName (signedOp el))) ([], committed)

/-! ## The tables -/

/-- A row of the table of a class. -/
structure Row where
  table : String
  id : String
  sign : ℤ
  version : UInt32
  /-- the number of the element; not a column -/
  opId : ℕ
  deriving DecidableEq

/-- The row of an element of a batch. -/
def rowOf (typeName : String) (el : BatchElement) : Row where
  table := typeName
  id := el.2.1.uri
  sign := el.2.2
  version := ((el.2.1.get .getFirstInteger "v-s:updateCounter").getD 0).toUInt64.toUInt32
  opId := el.1

def blockLimit : ℕ := 20000

def batchSize : ℕ := 3000000

/-- Where the program is. -/
inductive Phase
  | down
  | idle
  /-- elements are taken from the queue -/
  | reading (taken : ℕ) (typedBatch : TypedBatch)
  /-- the blocks of the batch are inserted -/
  | inserting (taken : ℕ) (committed : CommittedTypesOps) (work : List (String × List BatchElement))
  /-- a block was inserted, and its record is not yet in the log -/
  | inserted (taken : ℕ) (committed : CommittedTypesOps) (record : TypeOps)
    (work : List (String × List BatchElement))
  /-- nothing was collected -/
  | processed (taken : ℕ)
  /-- the log was removed, and the position is not yet saved -/
  | removed (taken : ℕ)

/-- The states in the storage, the queue with the saved position, the program, its log and the
tables. -/
structure Tables where
  states : States
  queue : List Element
  position : ℕ
  phase : Phase
  /-- `none` when there is no file -/
  log : Option (List LogRecord)
  rows : List Row

inductive Op
  | change (c : Change)
  | restart
  | startBatch
  | read
  | endReading (π : IterOrder String)
  | insertBlock
  | writeRecord
  | tearRecord
  | removeLog
  | commit
  | crash

namespace Tables

/-- Nothing is stored, and the program has not been started. -/
def empty : Tables := ⟨.none, [], 0, .down, none, []⟩

/-- A change in the main storage. -/
def change (s : Tables) (c : Change) : Tables :=
  { s with
    states := s.states.apply c
    queue := s.queue ++ c.elements s.states s.queue.length }

/-- An element is taken from the queue. -/
def read (s : Tables) : Tables :=
  match s.phase with
  | .reading taken typedBatch =>
    match s.queue[taken]? with
    | some queueElement =>
      if taken - s.position < batchSize then
        { s with phase := .reading (taken + 1) (addToTypedBatch typedBatch queueElement) }
      else s
    | none => s
  | _ => s

/-- The batch ends; when something was collected, the log is opened and read. -/
def endReading (s : Tables) (π : IterOrder String) : Tables :=
  match s.phase with
  | .reading taken typedBatch =>
    if typedBatch.keys.isEmpty then { s with phase := .processed taken }
    else
      let log := s.log.getD []
      { s with
        log := some log
        phase := .inserting taken (readLog log) (typedBatch.units π blockLimit) }
  | _ => s

/-- The next block is inserted, unless everything in it is committed. -/
def insertBlock (s : Tables) : Tables :=
  match s.phase with
  | .inserting taken committed ((typeName, block) :: work) =>
    let (selected, committed) := selectBlock typeName committed block
    if selected.isEmpty then { s with phase := .inserting taken committed work }
    else
      { s with
        rows := s.rows ++ selected.map (rowOf typeName)
        phase := .inserted taken committed ⟨typeName, selected.map signedOp⟩ work }
  | _ => s

/-- The record of a block is written, completely or not. -/
def writeRecord (s : Tables) : Tables :=
  match s.phase with
  | .inserted taken committed record work =>
    { s with
      log := some (s.log.getD [] ++ [.whole record])
      phase := .inserting taken committed work }
  | _ => s

/-- The program crashes while it writes a record. -/
def tearRecord (s : Tables) : Tables :=
  match s.phase with
  | .inserted _ _ _ _ => { s with log := some (s.log.getD [] ++ [.torn]), phase := .down }
  | _ => s

/-- The log is removed when all blocks are inserted. -/
def removeLog (s : Tables) : Tables :=
  match s.phase with
  | .inserting taken _ [] => { s with log := none, phase := .removed taken }
  | _ => s

/-- The position is saved. -/
def commit (s : Tables) : Tables :=
  match s.phase with
  | .processed taken => { s with position := taken, phase := .idle }
  | .removed taken => { s with position := taken, phase := .idle }
  | _ => s

def restart (s : Tables) : Tables :=
  match s.phase with
  | .down => { s with phase := .idle }
  | _ => s

def startBatch (s : Tables) : Tables :=
  match s.phase with
  | .idle => { s with phase := .reading s.position ∅ }
  | _ => s

def step (s : Tables) : Op → Tables
  | .change c => s.change c
  | .restart => s.restart
  | .startBatch => s.startBatch
  | .read => s.read
  | .endReading π => s.endReading π
  | .insertBlock => s.insertBlock
  | .writeRecord => s.writeRecord
  | .tearRecord => s.tearRecord
  | .removeLog => s.removeLog
  | .commit => s.commit
  | .crash => { s with phase := .down }

end Tables

/-! ## What is committed -/

theorem opsOf_insertOp (committed : CommittedTypesOps) (typeName t : String) (op : ℤ) :
    opsOf (insertOp committed typeName op) t =
      if t = typeName then insert op (opsOf committed typeName) else opsOf committed t := by
  unfold insertOp
  rw [opsOf]
  split_ifs with h
  · rw [h, AList.lookup_insert, Option.getD_some]
  · rw [AList.lookup_insert_ne h, opsOf]

theorem mem_opsOf_insertOp {committed : CommittedTypesOps} {typeName t : String} {op k : ℤ} :
    k ∈ opsOf (insertOp committed typeName op) t ↔
      (t = typeName ∧ k = op) ∨ k ∈ opsOf committed t := by
  rw [opsOf_insertOp]
  by_cases h : t = typeName
  · simp [h]
  · simp [h]

theorem mem_opsOf_insertOps {typeName : String} (ops : List ℤ) (committed : CommittedTypesOps)
    {t : String} {k : ℤ} :
    k ∈ opsOf (ops.foldl (fun committed op => insertOp committed typeName op) committed) t ↔
      (t = typeName ∧ k ∈ ops) ∨ k ∈ opsOf committed t := by
  induction ops generalizing committed with
  | nil => simp
  | cons op ops ih =>
    rw [List.foldl_cons, ih, mem_opsOf_insertOp, List.mem_cons]
    tauto

theorem mem_opsOf_readFrom (records : List TypeOps) (committed : CommittedTypesOps) {t : String}
    {k : ℤ} :
    k ∈ opsOf (readFrom (records.map .whole) committed) t ↔
      (∃ record ∈ records, record.typeName = t ∧ k ∈ record.ops) ∨ k ∈ opsOf committed t := by
  induction records generalizing committed with
  | nil => simp [readFrom]
  | cons record records ih =>
    rw [List.map_cons, readFrom, ih, mem_opsOf_insertOps]
    simp only [List.mem_cons, exists_eq_or_imp]
    constructor
    · rintro (h | ⟨rfl, h⟩ | h)
      · exact .inl (.inr h)
      · exact .inl (.inl ⟨rfl, h⟩)
      · exact .inr h
    · rintro ((⟨rfl, h⟩ | h) | h)
      · exact .inr (.inl ⟨rfl, h⟩)
      · exact .inl h
      · exact .inr (.inr h)

/-- **A log** of whole records is read completely. -/
theorem mem_opsOf_readLog (records : List TypeOps) {t : String} {k : ℤ} :
    k ∈ opsOf (readLog (records.map .whole)) t ↔
      ∃ record ∈ records, record.typeName = t ∧ k ∈ record.ops := by
  rw [readLog, mem_opsOf_readFrom]
  exact or_iff_left (Finset.notMem_empty k)

theorem foldl_select (typeName : String) (block : List BatchElement) (before : List BatchElement)
    (committed : CommittedTypesOps) :
    block.foldl (fun acc el =>
      if signedOp el ∈ opsOf acc.2 typeName then acc
      else (acc.1 ++ [el], insertOp acc.2 typeName (signedOp el))) (before, committed) =
      (before ++ (selectBlock typeName committed block).1,
        (selectBlock typeName committed block).2) := by
  unfold selectBlock
  induction block generalizing before committed with
  | nil => simp
  | cons el block ih =>
    rw [List.foldl_cons, List.foldl_cons]
    split_ifs
    · exact ih before committed
    · rw [ih, ih ([] ++ [el]), List.nil_append, List.append_assoc]

theorem selectBlock_cons (typeName : String) (committed : CommittedTypesOps) (el : BatchElement)
    (block : List BatchElement) :
    selectBlock typeName committed (el :: block) =
      if signedOp el ∈ opsOf committed typeName then selectBlock typeName committed block
      else
        (el :: (selectBlock typeName (insertOp committed typeName (signedOp el)) block).1,
          (selectBlock typeName (insertOp committed typeName (signedOp el)) block).2) := by
  rw [selectBlock, List.foldl_cons]
  split_ifs
  · rfl
  · rw [foldl_select]
    rfl

/-- **What is selected** of a block: elements of the block that were not committed, each operation
once; and then their operations are committed. -/
theorem mem_selectBlock (typeName : String) (committed : CommittedTypesOps)
    (block : List BatchElement) :
    (∀ el ∈ (selectBlock typeName committed block).1,
      el ∈ block ∧ signedOp el ∉ opsOf committed typeName) ∧
    ((selectBlock typeName committed block).1.map signedOp).Nodup ∧
    (∀ t k, k ∈ opsOf (selectBlock typeName committed block).2 t ↔
      (t = typeName ∧ k ∈ (selectBlock typeName committed block).1.map signedOp) ∨
        k ∈ opsOf committed t) ∧
    ∀ el ∈ block, signedOp el ∈ opsOf (selectBlock typeName committed block).2 typeName := by
  induction block generalizing committed with
  | nil =>
    exact ⟨by simp [selectBlock], by simp [selectBlock], by simp [selectBlock],
      by simp [selectBlock]⟩
  | cons el block ih =>
    rw [selectBlock_cons]
    split_ifs with hel
    · obtain ⟨hsub, hnodup, hops, hall⟩ := ih committed
      refine ⟨fun x hx => ⟨List.mem_cons_of_mem _ (hsub x hx).1, (hsub x hx).2⟩, hnodup, hops,
        fun x hx => ?_⟩
      rcases List.mem_cons.mp hx with rfl | hx
      · exact (hops _ _).mpr (.inr hel)
      · exact hall x hx
    · obtain ⟨hsub, hnodup, hops, hall⟩ := ih (insertOp committed typeName (signedOp el))
      have hfresh : ∀ x ∈ (selectBlock typeName (insertOp committed typeName (signedOp el)) block).1,
          signedOp x ≠ signedOp el ∧ signedOp x ∉ opsOf committed typeName := by
        intro x hx
        have hnot := (hsub x hx).2
        rw [mem_opsOf_insertOp, not_or] at hnot
        exact ⟨fun heq => hnot.1 ⟨rfl, heq⟩, hnot.2⟩
      refine ⟨fun x hx => ?_, ?_, fun t k => ?_, fun x hx => ?_⟩
      · rcases List.mem_cons.mp hx with rfl | hx
        · exact ⟨List.mem_cons_self, hel⟩
        · exact ⟨List.mem_cons_of_mem _ (hsub x hx).1, (hfresh x hx).2⟩
      · rw [List.map_cons, List.nodup_cons]
        refine ⟨fun hmem => ?_, hnodup⟩
        obtain ⟨x, hx, heq⟩ := List.mem_map.mp hmem
        exact (hfresh x hx).1 heq
      · rw [hops, mem_opsOf_insertOp, List.map_cons, List.mem_cons]
        tauto
      · rcases List.mem_cons.mp hx with rfl | hx
        · exact (hops _ _).mpr (.inr (mem_opsOf_insertOp.mpr (.inl ⟨rfl, rfl⟩)))
        · exact hall x hx

end Veda.SearchIndexTt
