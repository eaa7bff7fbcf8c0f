import Veda.Lib.Decimal
import Veda.Lib.Utf8
import Veda.VQueue.Record

set_option autoImplicit false

/-!
# A queue and its files

The write side of a queue, after `queue.rs`. A queue is a sequence of parts; each part has a
directory with a file of records and a file with one line, which says how many bytes and messages
are published. One more file names the newest part. The same structure reads a queue for a consumer.

## Main definitions

* `VQueue.Disk` — the files of a queue and of its consumer.
* `VQueue.Crates` — the crates that compute checksums and scan lines.
* `VQueue.Queue` — an open queue, with `getInfoOfPart`, `getInfoQueue`, `openPart`, `newRead`,
  `newReadWrite` and `push`.

## Main results

* `VQueue.readPushInfo_written`, `VQueue.readQueueInfo_written`,
  `VQueue.readPopInfo_written` — a line that was written is read.

## Design

The lines carry names; all files belong to one queue and one consumer, whose names are variables.
A line is written over the beginning of its file and read up to its end, so that the rest of an
older line does not matter. A part that was removed has no directory any more, but an open file of
it can still be read. Each write has an outcome; the operations of a queue without failures use
`Write.full`. The file that excludes a second writer is left out.
-/

namespace Veda.VQueue

open Veda.Lib

/-! ## Files -/

inductive ErrorQueue
  | notReady | alreadyOpen | failWrite | invalidChecksum | failReadTailMessage | failOpen | failRead
  | notFound | other
  deriving DecidableEq, Repr

inductive Mode
  | read | readWrite
  deriving DecidableEq, Repr

/-- The files of a part. -/
structure Part where
  infoPush : List Char
  data : List UInt8
  deriving DecidableEq

/-- The files of a queue and of its consumer. Parts that do not exist yet have empty files. -/
structure Disk where
  /-- the file that names the newest part, if it exists -/
  infoQueue : Option (List Char)
  parts : ℕ → Part
  /-- the parts whose directories exist -/
  linked : ℕ → Bool
  /-- the saved position of the consumer; an empty file for a new one -/
  infoPop : List Char

/-- An open file. -/
inductive Handle
  | infoQueue
  | part (id : ℕ)
  deriving DecidableEq

namespace Disk

/-- The text of an open info file. -/
def textOf (d : Disk) : Handle → List Char
  | .infoQueue => d.infoQueue.getD []
  | .part id => (d.parts id).infoPush

/-- The bytes of an open file of records. -/
def bytesOf (d : Disk) : Handle → List UInt8
  | .infoQueue => utf8 (String.ofList (d.infoQueue.getD []))
  | .part id => (d.parts id).data

/-- Change the text of an open info file. -/
def setText (d : Disk) (text : List Char) : Handle → Disk
  | .infoQueue => { d with infoQueue := some text }
  | .part id => { d with parts := Function.update d.parts id { d.parts id with infoPush := text } }

/-- Change the bytes of an open file of records. -/
def setBytes (d : Disk) (data : List UInt8) : Handle → Disk
  | .infoQueue => d
  | .part id => { d with parts := Function.update d.parts id { d.parts id with data } }

end Disk

/-- What becomes of a write: everything, some of it, or an error. -/
inductive Write
  | full
  | short (n : ℕ)
  | fail
  deriving DecidableEq, Repr

/-- What is written. -/
def Write.taken {α : Type} (w : Write) (content : List α) : List α :=
  match w with
  | .full => content
  | .short n => content.take n
  | .fail => []

/-- Write at a place of a file. -/
def writeAt {α : Type} (file : List α) (offset : ℕ) (content : List α) : List α :=
  file.take offset ++ (content ++ file.drop (offset + content.length))

/-- The first line of a text (`lines().next()`). -/
def firstLine (text : List Char) : Option (List Char) :=
  if text.isEmpty then none else some (text.takeWhile fun c => c ≠ '\n')

/-! ## Lines -/

/-- A name that is scanned as it was printed. -/
def PlainName (name : List Char) : Prop :=
  name ≠ [] ∧ ∀ c ∈ name, c ≠ ';' ∧ ¬ c.isWhitespace

instance (name : List Char) : Decidable (PlainName name) :=
  have : Decidable (∀ c ∈ name, c ≠ ';' ∧ ¬ c.isWhitespace) := List.decidableBAll _ name
  inferInstanceAs (Decidable (_ ∧ _))

/-- The digits of a number. -/
def digits (n : ℕ) : List Char := Nat.toDigits 10 n

/-- The text in front of a checksum in the line that names the newest part. -/
def queueText (name : List Char) (id : ℕ) : List Char := name ++ (';' :: (digits id ++ [';']))

/-- The text in front of a checksum in the line of a part. -/
def pushText (name : List Char) (rightEdge countPushed : ℕ) : List Char :=
  name ++ (';' :: (digits rightEdge ++ (';' :: (digits countPushed ++ [';']))))

/-- The line of a consumer. -/
def popLine (name consumerName : List Char) (position countPopped id : ℕ) : List Char :=
  name ++ (';' :: (consumerName ++ (';' :: (digits position ++ (';' :: (digits countPopped ++
    (';' :: digits id)))))))

/-- A text with its checksum. -/
def withCrc (crc32 : List UInt8 → UInt32) (text : List Char) : List Char :=
  text ++ digits (crc32 (utf8 (String.ofList text))).toNat

/-- The checksums and the scans of lines. What is scanned is the name of the queue, the name of the
consumer and numbers of 32 or 64 bits; the scan of a line that was printed gives what was
printed. -/
structure Crates where
  crc32 : List UInt8 → UInt32
  scanQueueInfo : List Char → Option (List Char) × Option ℕ
  scanPushInfo : List Char → Option (List Char) × Option ℕ × Option ℕ
  scanPopInfo : List Char →
    Option (List Char) × Option (List Char) × Option ℕ × Option ℕ × Option ℕ
  scan_queueText : ∀ {name id}, PlainName name → id < 2 ^ 32 →
    scanQueueInfo (withCrc crc32 (queueText name id)) = (some name, some id)
  scan_pushText : ∀ {name rightEdge countPushed}, PlainName name → rightEdge < 2 ^ 64 →
    countPushed < 2 ^ 32 → scanPushInfo (withCrc crc32 (pushText name rightEdge countPushed)) =
      (some name, some rightEdge, some countPushed)
  scan_popLine : ∀ {name consumerName position countPopped id}, PlainName name →
    PlainName consumerName → position < 2 ^ 64 → countPopped < 2 ^ 32 → id < 2 ^ 32 →
    scanPopInfo (popLine name consumerName position countPopped id) =
      (some name, some consumerName, some position, some countPopped, some id)

section Lines

variable (crates : Crates) (name consumerName : List Char)

/-- What is read of the file that names the newest part. -/
def readQueueInfo (text : List Char) : Option ℕ :=
  match firstLine text with
  | none => none
  | some ll =>
    match crates.scanQueueInfo ll with
    | (some q, some id) => if q = name then some id else none
    | _ => none

/-- What is read of the line of a part: the published bytes and messages. An empty file stands for
an empty part. -/
def readPushInfo (text : List Char) : Option (ℕ × ℕ) :=
  match firstLine text with
  | none => some (0, 0)
  | some ll =>
    match crates.scanPushInfo ll with
    | (some q, some position, some pushed) => if q = name then some (position, pushed) else none
    | _ => none

/-- What is read of the line of a consumer: the position, the count and the part. An empty file
stands for a consumer that has not popped anything. -/
def readPopInfo (text : List Char) : Option (ℕ × ℕ × ℕ) :=
  match firstLine text with
  | none => some (0, 0, 0)
  | some ll =>
    match crates.scanPopInfo ll with
    | (some q, some c, some position, some countPopped, some id) =>
      if q = name ∧ c = consumerName then some (position, countPopped, id) else none
    | _ => none

variable {crates name consumerName}

theorem firstLine_written {line : List Char} (h : '\n' ∉ line) (file : List Char) :
    firstLine (writeAt file 0 (line ++ ['\n'])) = some line := by
  have hfirst : writeAt file 0 (line ++ ['\n']) =
      line ++ '\n' :: file.drop (line.length + 1) := by
    simp [writeAt]
  have htake : (line ++ '\n' :: file.drop (line.length + 1)).takeWhile
      (fun c => decide (c ≠ '\n')) = line := by
    rw [List.takeWhile_append_of_pos]
    · simp
    · intro c hc
      rw [decide_eq_true_eq]
      rintro rfl
      exact h hc
  rw [firstLine, hfirst, htake, if_neg (by simp)]

theorem newline_notMem_digits (n : ℕ) : '\n' ∉ digits n := by
  intro hmem
  have hdigit := List.all_eq_true.mp (all_isDigit_toDigits n) _ hmem
  exact absurd hdigit (by decide)

theorem PlainName.newline_notMem (h : PlainName name) : '\n' ∉ name := fun hmem =>
  (h.2 _ hmem).2 (by decide)

/-- **The line of a part is read** as it was written. -/
theorem readPushInfo_written (hname : PlainName name) {rightEdge countPushed : ℕ}
    (hedge : rightEdge < 2 ^ 64) (hcount : countPushed < 2 ^ 32) (file : List Char) :
    readPushInfo crates name
        (writeAt file 0 (withCrc crates.crc32 (pushText name rightEdge countPushed) ++ ['\n'])) =
      some (rightEdge, countPushed) := by
  have hline : '\n' ∉ withCrc crates.crc32 (pushText name rightEdge countPushed) := by
    simp [withCrc, pushText, newline_notMem_digits, hname.newline_notMem]
  rw [readPushInfo, firstLine_written hline]
  dsimp only
  rw [crates.scan_pushText hname hedge hcount]
  dsimp only
  rw [if_pos rfl]

/-- **The line that names the newest part is read** as it was written. -/
theorem readQueueInfo_written (hname : PlainName name) {id : ℕ} (hid : id < 2 ^ 32)
    (file : List Char) :
    readQueueInfo crates name
        (writeAt file 0 (withCrc crates.crc32 (queueText name id) ++ ['\n'])) = some id := by
  have hline : '\n' ∉ withCrc crates.crc32 (queueText name id) := by
    simp [withCrc, queueText, newline_notMem_digits, hname.newline_notMem]
  rw [readQueueInfo, firstLine_written hline]
  dsimp only
  rw [crates.scan_queueText hname hid]
  dsimp only
  rw [if_pos rfl]

/-- **The line of a consumer is read** as it was written. -/
theorem readPopInfo_written (crates : Crates) (hname : PlainName name)
    (hconsumer : PlainName consumerName)
    {position countPopped id : ℕ} (hposition : position < 2 ^ 64) (hcount : countPopped < 2 ^ 32)
    (hid : id < 2 ^ 32) (file : List Char) :
    readPopInfo crates name consumerName
        (writeAt file 0 (popLine name consumerName position countPopped id ++ ['\n'])) =
      some (position, countPopped, id) := by
  have hline : '\n' ∉ popLine name consumerName position countPopped id := by
    simp [popLine, newline_notMem_digits, hname.newline_notMem, hconsumer.newline_notMem]
  rw [readPopInfo, firstLine_written hline]
  dsimp only
  rw [crates.scan_popLine hname hconsumer hposition hcount hid]
  dsimp only
  rw [if_pos ⟨rfl, rfl⟩]

end Lines

/-! ## An open queue -/

/-- An open queue. -/
structure Queue where
  mode : Mode
  isReady : Bool
  ffQueue : Handle
  /-- the place in the file of records -/
  offset : ℕ
  ffInfoPush : Handle
  rightEdge : ℕ
  countPushed : ℕ
  id : ℕ
  deriving DecidableEq

/-- Wrapping addition of 32 bits. -/
def addU32 (a b : ℕ) : ℕ := (a + b) % 2 ^ 32

/-- Wrapping addition of 64 bits. -/
def addU64 (a b : ℕ) : ℕ := (a + b) % 2 ^ 64

namespace Queue

variable (crates : Crates) (name : List Char)

def openInfoPush (q : Queue) (d : Disk) (partId : ℕ) : Except ErrorQueue Unit × Queue :=
  if d.linked partId then (.ok (), { q with ffInfoPush := .part partId })
  else (.error .failOpen, { q with isReady := false })

def getInfoOfPart (q : Queue) (d : Disk) (partId : ℕ) (reopen : Bool) :
    Except ErrorQueue Unit × Queue :=
  match if q.id ≠ partId ∨ reopen then q.openInfoPush d partId else (.ok (), q) with
  | (.error e, q) => (.error e, q)
  | (.ok (), q) =>
    match readPushInfo crates name (d.textOf q.ffInfoPush) with
    | some (rightEdge, countPushed) => (.ok (), { q with rightEdge, countPushed })
    | none => (.error .other, q)

def getInfoQueue (q : Queue) (d : Disk) : Bool × Queue :=
  match readQueueInfo crates name (d.infoQueue.getD []) with
  | some id => (true, { q with id, rightEdge := 0, countPushed := 0 })
  | none => (false, q)

/-- Open a part; its directory has both files. -/
def openPart (q : Queue) (d : Disk) (partId : ℕ) : Except ErrorQueue Unit × Queue :=
  if !q.isReady then (.error .notReady, q)
  else
    match q.openInfoPush d partId with
    | (.error e, q) => (.error e, q)
    | (.ok (), q) =>
      Queue.getInfoOfPart crates name
        { q with ffQueue := .part partId, offset := 0, id := partId } d partId false

/-- A queue whose files are those of the queue itself. -/
def opened (mode : Mode) : Queue := ⟨mode, true, .infoQueue, 0, .infoQueue, 0, 0, 0⟩

/-- `Queue::new` for a reader. -/
def newRead (d : Disk) : Except ErrorQueue Queue :=
  match d.infoQueue with
  | none => .error .notReady
  | some _ =>
    match (opened .read).getInfoQueue crates name d with
    | (true, q) => .ok (q.getInfoOfPart crates name d q.id true).2
    | (false, q) => .ok q

def putInfoPush (q : Queue) (d : Disk) (w : Write) : Except ErrorQueue Unit × Disk × Queue :=
  match w with
  | .fail => (.error .failWrite, d, { q with isReady := false })
  | w =>
    let line := withCrc crates.crc32 (pushText name q.rightEdge q.countPushed) ++ ['\n']
    (.ok (), d.setText (writeAt (d.textOf q.ffInfoPush) 0 (w.taken line)) q.ffInfoPush, q)

def putInfoQueue (q : Queue) (d : Disk) (w : Write) : Except ErrorQueue Unit × Disk × Queue :=
  match w with
  | .fail => (.error .failWrite, d, { q with isReady := false })
  | w =>
    let line := withCrc crates.crc32 (queueText name q.id) ++ ['\n']
    (.ok (), { d with infoQueue := some (writeAt (d.infoQueue.getD []) 0 (w.taken line)) }, q)

/-- `Queue::new` for the writer: the part behind the newest one is created and opened. -/
def newReadWrite (d : Disk) (w w' : Write) : Except ErrorQueue Queue × Disk :=
  let d := { d with infoQueue := some (d.infoQueue.getD []) }
  let info := (opened .readWrite).getInfoQueue crates name d
  let q := if info.1 then { info.2 with id := addU32 info.2.id 1 } else info.2
  let d := { d with linked := Function.update d.linked q.id true }
  match q.openPart crates name d q.id with
  | (.error _, _) => (.error .failOpen, d)
  | (.ok (), q) =>
    match q.putInfoPush crates name d w with
    | (.error _, d, _) => (.error .failWrite, d)
    | (.ok (), d, q) =>
      match q.putInfoQueue crates name d w' with
      | (.error _, d, _) => (.error .failWrite, d)
      | (.ok (), d, q) =>
        (.ok (if info.1 then (q.getInfoOfPart crates name d q.id true).2 else q), d)

/-- Write to the file of records, at the place where the last write ended. -/
def writeRecord (q : Queue) (d : Disk) (content : List UInt8) (w : Write) : Disk × Queue :=
  (d.setBytes (writeAt (d.bytesOf q.ffQueue) q.offset (w.taken content)) q.ffQueue,
    { q with offset := q.offset + (w.taken content).length })

/-- The first half of `push`: the header and the body are written. -/
def pushRecord (q : Queue) (d : Disk) (m : Message) (wHeader wBody : Write) :
    Except ErrorQueue Unit × Disk × Queue :=
  if !q.isReady ∨ q.mode = .read ∨ 2 ^ 31 - 1 < m.body.length then (.error .notReady, d, q)
  else
    let header := headerOf crates.crc32 q.rightEdge (addU32 q.countPushed 1) m
    if wHeader = .fail then (.error .failWrite, d, q)
    else
      let (d, q) := q.writeRecord d header wHeader
      if wBody = .fail then (.error .failWrite, d, q)
      else
        let (d, q) := q.writeRecord d m.body wBody
        (.ok (), d, q)

/-- The second half of `push`: the record is published. When this fails, the edge and the count are
what they were. -/
def publish (q : Queue) (d : Disk) (m : Message) (wInfo : Write) : Disk × Queue :=
  let q' := { q with
    rightEdge := addU64 q.rightEdge (headerSize + m.body.length)
    countPushed := addU32 q.countPushed 1 }
  match q'.putInfoPush crates name d wInfo with
  | (.ok (), d, q) => (d, q)
  | (.error _, d, q'') => (d, { q'' with rightEdge := q.rightEdge, countPushed := q.countPushed })

/-- The outcomes of the writes of `push`. -/
structure PushWrites where
  header : Write
  body : Write
  info : Write
  deriving DecidableEq, Repr

def push (q : Queue) (d : Disk) (m : Message) (w : PushWrites) :
    Except ErrorQueue ℕ × Disk × Queue :=
  match q.pushRecord crates d m w.header w.body with
  | (.error e, d, q) => (.error e, d, q)
  | (.ok (), d, q) =>
    let (d, q) := q.publish crates name d m w.info
    (.ok q.rightEdge, d, q)

end Queue

end Veda.VQueue
