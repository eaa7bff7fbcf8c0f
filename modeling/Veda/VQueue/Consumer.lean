import Veda.VQueue.Files

set_option autoImplicit false

/-!
# A consumer of a queue

The read side of a queue, after `consumer.rs`. A consumer reads the records of one part after
another. Its position in the part, the number of the messages that it took of the part and the id
of the part are saved in a file when a message is committed and when a part is entered.

## Main definitions

* `VQueue.Consumer` — a consumer, with `new`, `popHeader`, `popBody` and `next`.

## Design

`readHeader` is made of the steps between which other programs can change the files (`prepare` is
what comes in front of the header): `refresh` reads the line of the part, `lookAhead` the file that
names the newest part, `findPart` the lines of later parts, `enterPart` saves the position and opens
the part, and `takeHeader` reads a header. The file that excludes a second consumer with the same
name is left out.
-/

namespace Veda.VQueue

open Veda.Lib

structure Consumer where
  queue : Queue
  countPopped : ℕ
  id : ℕ
  isReady : Bool
  posRecord : ℕ
  header : Header
  /-- the bytes of which the checksum is computed -/
  hash : List UInt8
  deriving DecidableEq

namespace Consumer

variable (crates : Crates) (name consumerName : List Char)

/-- Set the place in the file of records. -/
def seek (c : Consumer) (pos : ℕ) : Consumer := { c with queue := { c.queue with offset := pos } }

/-- Open the part of the consumer, or else the newest one. -/
def openSaved (c : Consumer) (d : Disk) : Except ErrorQueue Consumer :=
  match c.queue.openPart crates name d c.id with
  | (.ok (), q) => .ok ({ c with queue := q }.seek c.posRecord)
  | (.error _, q) =>
    let c := { c with queue := { q with isReady := true }, id := q.id }
    match c.queue.openPart crates name d c.id with
    | (.ok (), q) => .ok ({ c with queue := q }.seek c.posRecord)
    | (.error _, _) => .error .notReady

/-- `Consumer::new`. -/
def new (d : Disk) : Except ErrorQueue Consumer :=
  match Queue.newRead crates name d with
  | .error _ => .error .notReady
  | .ok q =>
    match readPopInfo crates name consumerName d.infoPop with
    | none => .error .notReady
    | some (pos, countPopped, id) =>
      openSaved crates name ⟨q, countPopped, id, true, pos, .empty, []⟩ d

/-- `open(true)`: the file with the position is emptied. -/
def openInfoPop (c : Consumer) (d : Disk) : Disk × Consumer :=
  if !c.queue.isReady then (d, { c with isReady := false })
  else ({ d with infoPop := [] }, c)

/-- Write the position over the beginning of its file. -/
def commit (c : Consumer) (d : Disk) : Disk :=
  { d with
    infoPop := writeAt d.infoPop 0
      (popLine name consumerName c.posRecord c.countPopped c.id ++ ['\n']) }

/-- The end of the part is read again when everything that was known is popped. The answer is
false when the line of the part cannot be read. -/
def refresh (c : Consumer) (d : Disk) : Bool × Consumer :=
  if c.queue.countPushed ≤ c.countPopped then
    match c.queue.getInfoOfPart crates name d c.id false with
    | (.ok (), q) => (true, { c with queue := q })
    | (.error _, q) => (false, { c with queue := q })
  else (true, c)

/-- The newest part is looked for when the queue is at the part of the consumer. -/
def lookAhead (c : Consumer) (d : Disk) : Consumer :=
  if c.queue.id = c.id then { c with queue := (c.queue.getInfoQueue crates name d).2 } else c

/-- The loop over the ids of the next parts; it ends at a part whose line can be read, and the
answer is false when one cannot be read. -/
def findPart (d : Disk) : ℕ → Consumer → Bool × Consumer
  | 0, c => (true, c)
  | left + 1, c =>
    match c.queue.getInfoOfPart crates name d (c.id + 1) false with
    | (.ok (), q) => (true, { c with queue := q, id := c.id + 1 })
    | (.error .notFound, q) => findPart d left { c with queue := q, id := c.id + 1 }
    | (.error _, q) => (false, { c with queue := q, id := c.id + 1 })

/-- Begin with a part: the position is saved and the part is opened. -/
def enterPart (c : Consumer) (d : Disk) : Disk × Consumer :=
  let c := { c with countPopped := 0, posRecord := 0 }
  let (d, c) := c.openInfoPop d
  let d := c.commit name consumerName d
  (d, { c with queue := (c.queue.openPart crates name d c.id).2 })

/-- Read a header at the place of the queue. -/
def takeHeader (c : Consumer) (d : Disk) : Bool × Consumer :=
  let buf := ((d.bytesOf c.queue.ffQueue).drop c.queue.offset).take headerSize
  let c := c.seek (c.queue.offset + buf.length)
  if buf.length < headerSize then (false, c)
  else
    let header := createFromBuf buf
    if c.queue.countPushed < header.countPushed then (false, c)
    else if c.queue.rightEdge ≤ header.startPos then (false, c)
    else (true, { c with hash := clearCrc buf, header })

/-- What is done at the end of a part: the next part is looked for and entered. -/
def advance (c : Consumer) (d : Disk) : Bool × Disk × Consumer :=
  let c := c.lookAhead crates name d
  if c.id < c.queue.id then
    match findPart crates name d (c.queue.id - c.id) c with
    | (false, c) => (false, d, c)
    | (true, c) => (true, c.enterPart crates name consumerName d)
  else (true, d, c)

/-- The steps of `readHeader` in front of the header. -/
def prepare (c : Consumer) (d : Disk) : Bool × Disk × Consumer :=
  match c.refresh crates name d with
  | (false, c) => (false, d, c)
  | (true, c) =>
    if c.queue.countPushed ≤ c.countPopped then c.advance crates name consumerName d
    else (true, d, c)

def readHeader (c : Consumer) (d : Disk) : Bool × Disk × Consumer :=
  match c.prepare crates name consumerName d with
  | (false, d, c) => (false, d, c)
  | (true, d, c) => ((c.takeHeader d).1, d, (c.takeHeader d).2)

def popHeader (c : Consumer) (d : Disk) : Bool × Disk × Consumer :=
  match c.readHeader crates name consumerName d with
  | (true, d, c) => (true, d, c)
  | (false, d, c) => (false, d, c.seek c.posRecord)

/-- Read a body into a buffer of `size` bytes. -/
def popBody (c : Consumer) (d : Disk) (size : ℕ) : Except ErrorQueue (List UInt8) × Consumer :=
  if !c.isReady then (.error .notReady, c)
  else
    let msg := ((d.bytesOf c.queue.ffQueue).drop c.queue.offset).take size
    let c := c.seek (c.queue.offset + msg.length)
    if msg.length ≠ size then
      if c.countPopped = c.queue.countPushed then
        (.error .failReadTailMessage, c.seek c.posRecord)
      else (.error .failRead, c)
    else
      let c := { c with
        posRecord := addU64 (addU64 c.posRecord headerSize) msg.length
        hash := c.hash ++ msg }
      if crates.crc32 c.hash ≠ c.header.crc then
        if c.countPopped = c.queue.countPushed then
          (.error .failReadTailMessage, c.seek c.posRecord)
        else (.error .invalidChecksum, { c with isReady := false })
      else (.ok msg, c)

/-- `next(true)`. -/
def next (c : Consumer) (d : Disk) : Bool × Disk × Consumer :=
  if !c.isReady then (false, d, c)
  else
    let c := { c with countPopped := addU32 c.countPopped 1 }
    (true, c.commit name consumerName d, c)

end Consumer

end Veda.VQueue
