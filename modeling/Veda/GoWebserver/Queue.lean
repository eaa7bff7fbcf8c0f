import Veda.VQueue.Lines
import Veda.VQueue.Producing

set_option autoImplicit false

/-!
# The queue of the Go web server

A second reader of the files of a queue, after `queue.go`. It divides the lines of a queue itself,
keeps its own numbers and has one handle for the file of records.

## Main definitions

* `GoWebserver.GoQueue`, `GoWebserver.GoConsumer` — a queue that is read and its consumer.
* `GoWebserver.GoQueue.getInfoPush`, `GoWebserver.GoQueue.getInfoQueue` — the lines of a
  part and of the queue.
* `GoWebserver.GoQueue.setRQueueFile` — the file of records.
* `GoWebserver.GoConsumer.readMessage`, `GoWebserver.GoConsumer.commitAndNext` — the end of
  `pop`, and `commit_and_next`.

## Main results

* `GoWebserver.getInfoPush_eq`, `GoWebserver.getInfoQueue_eq` — the lines of a producer are
  read.
* `GoWebserver.readMessage_eq` — the message at the place of the consumer in the open file.
* `GoWebserver.commitAndNext_eq` — the message is committed.

## Design

The queue is opened with the mode `R` and the consumer with `RW`. A line is cut by its last
character, which is a digit, before it is divided. A buffer is a number of bytes of which some are
written; the others are zeros.
-/

namespace Veda.GoWebserver

open Veda.Lib Veda.VQueue

/-! ## Numbers and buffers -/

/-- The value that `ParseInt` answers beside an error. -/
def nearestInt (cs : List Char) : Int :=
  let digits := if cs.head? = some '-' ∨ cs.head? = some '+' then cs.tail else cs
  if digits = [] ∨ !digits.all Char.isDigit then 0
  else if cs.head? = some '-' then -2 ^ 63
  else 2 ^ 63 - 1

/-- `strconv.ParseInt`, with base 10 and the size of `int`; the second component says that there is
no error. -/
def parseInt (cs : List Char) : Int × Bool :=
  match parseSigned (2 ^ 63 - 1) cs with
  | some n => (n, true)
  | none => (nearestInt cs, false)

/-- Conversion to `uint32`. -/
def toUint32 (n : Int) : ℕ := (n % 2 ^ 32).toNat

/-- Conversion to `uint64`. -/
def toUint64 (n : Int) : ℕ := (n % 2 ^ 64).toNat

/-- The number of bytes that one call of `Read` takes of a file at most. -/
def maxRW : ℕ := 2 ^ 30

/-- One call of `Read` at a place of a file, for `n` bytes. -/
def readFile (file : List UInt8) (pos n : ℕ) : List UInt8 := (file.drop pos).take (min n maxRW)

/-- Bytes that are put at the beginning of others. -/
def putInto (buff bytes : List UInt8) : List UInt8 := bytes ++ buff.drop bytes.length

/-- A buffer. -/
structure Buffer where
  size : ℕ
  /-- the bytes up to the last one that was written -/
  written : List UInt8
  deriving DecidableEq

namespace Buffer

/-- The first `n` bytes. -/
def get (b : Buffer) (n : ℕ) : List UInt8 :=
  b.written.take n ++ List.replicate (n - b.written.length) 0

def put (b : Buffer) (bytes : List UInt8) : Buffer :=
  { b with written := putInto b.written bytes }

end Buffer

/-! ## Headers -/

structure GoHeader where
  startPos : ℕ
  msgLength : ℕ
  countPushed : ℕ
  msgType : UInt8
  crc : List UInt8
  deriving DecidableEq

/-- `from_buff`. -/
def GoHeader.fromBuff (buff : List UInt8) : GoHeader where
  startPos := ofLittleEndian (buff.take 8)
  msgLength := ofLittleEndian ((buff.drop 8).take 4)
  countPushed := ofLittleEndian ((buff.drop 16).take 4)
  msgType := (buff.drop 20).headD 0
  crc := (buff.drop 21).take 4

/-! ## The queue -/

/-- A queue that is read. -/
structure GoQueue where
  isReady : Bool
  id : ℕ
  rightEdge : ℕ
  countPushed : ℕ
  /-- the part whose file of records is open -/
  ffQueueR : Option ℕ
  deriving DecidableEq

/-- `Readln` at the beginning of a file. -/
def readln (text : List Char) : List Char := (firstLine text).getD []

namespace GoQueue

variable (name : List Char)

/-- `NewQueue`. -/
def new : GoQueue := ⟨false, 0, 0, 0, none⟩

/-- What the line of a part says. -/
def takeInfoPush (q : GoQueue) (str : List Char) : Bool × GoQueue :=
  if str = [] then (true, q)
  else
    match fieldsOf str.dropLast with
    | [queueName, rightEdge, countPushed, _] =>
      if queueName ≠ name then (false, { q with isReady := false })
      else (true, { q with
        rightEdge := toUint64 (parseInt rightEdge).1
        countPushed := toUint32 (parseInt countPushed).1 })
    | _ => (false, { q with isReady := false })

/-- `get_info_push`. -/
def getInfoPush (q : GoQueue) (d : Disk) (partId : ℕ) : Bool × GoQueue :=
  if !q.isReady then (false, q)
  else if !d.linked partId then (false, { q with isReady := false })
  else q.takeInfoPush name (readln (d.parts partId).infoPush)

/-- What the line of the queue says. -/
def takeInfoQueue (q : GoQueue) (str : List Char) : Bool × GoQueue :=
  if str = [] then (true, q)
  else
    match fieldsOf str.dropLast with
    | [queueName, id, _] =>
      if queueName ≠ name then (false, { q with isReady := false })
      else (true, { q with id := toUint32 (parseInt id).1 })
    | _ => (false, { q with isReady := false })

/-- `get_info_queue`. -/
def getInfoQueue (q : GoQueue) (d : Disk) : Bool × GoQueue :=
  match d.infoQueue with
  | none => (false, { q with isReady := false })
  | some text => q.takeInfoQueue name (readln text)

/-- `open(R)`. -/
def openR (q : GoQueue) (d : Disk) : GoQueue :=
  let (ready, q) := { q with isReady := true }.getInfoQueue name d
  { q with isReady := ready }

/-- `set_r_queue_file`. -/
def setRQueueFile (q : GoQueue) (d : Disk) (partId : ℕ) : GoQueue :=
  if q.id ≠ partId ∨ q.ffQueueR = none then
    { q with id := partId, ffQueueR := if d.linked partId then some partId else none }
  else q

/-- The bytes of the open file of records. -/
def file (q : GoQueue) (d : Disk) : List UInt8 :=
  match q.ffQueueR with
  | some k => (d.parts k).data
  | none => []

end GoQueue

/-! ## The consumer -/

/-- A consumer, with the buffers of the package. -/
structure GoConsumer where
  isReady : Bool
  id : ℕ
  startPosRecord : ℕ
  countPopped : ℕ
  lastReadMsg : List UInt8
  header : GoHeader
  headerBuff : List UInt8
  buff : Buffer
  deriving DecidableEq

namespace GoConsumer

variable (crc32 : List UInt8 → UInt32) (name consumerName : List Char)

/-- `NewConsumer`. -/
def new : GoConsumer where
  isReady := false
  id := 0
  startPosRecord := 0
  countPopped := 0
  lastReadMsg := []
  header := ⟨0, 0, 0, 0, [0, 0, 0, 0]⟩
  headerBuff := List.replicate headerSize 0
  buff := ⟨4096 * 100, []⟩

/-- The numbers of the line of a consumer; the first one that cannot be parsed ends this. -/
def takeInfo (c : GoConsumer) (position countPopped id : List Char) : Bool × GoConsumer :=
  if !(parseInt position).2 then (false, { c with isReady := false })
  else
    let c := { c with startPosRecord := toUint64 (parseInt position).1 }
    if !(parseInt countPopped).2 then (false, { c with isReady := false })
    else
      let c := { c with countPopped := toUint32 (parseInt countPopped).1 }
      if !(parseInt id).2 then (false, { c with isReady := false })
      else (true, { c with id := toUint32 (parseInt id).1 })

/-- `get_info`. -/
def getInfo (c : GoConsumer) (q : GoQueue) (infoPop : List Char) : Bool × GoConsumer :=
  if !q.isReady then (false, c)
  else if readln infoPop = [] then (true, c)
  else
    match fieldsOf (readln infoPop) with
    | [queueName, ownName, position, countPopped, id] =>
      if queueName ≠ name ∨ ownName ≠ consumerName then (false, { c with isReady := false })
      else c.takeInfo position countPopped id
    | _ => (false, { c with isReady := false })

/-- `open`: the file with the position is created when it does not exist. -/
def openRW (c : GoConsumer) (q : GoQueue) (d : Disk) : GoConsumer :=
  if !q.isReady then { c with isReady := false }
  else
    let (ready, c) := c.getInfo name consumerName q d.infoPop
    { c with isReady := ready }

/-- `put_info`. -/
def putInfo (c : GoConsumer) (q : GoQueue) (d : Disk) : Disk :=
  if !q.isReady ∨ !c.isReady then d
  else
    { d with
      infoPop := writeAt d.infoPop 0
        (popLine name consumerName c.startPosRecord c.countPopped c.id) }

/-- The next part is entered, when its line can be read: the end of `pop` behind the last message of
a part. -/
def enterPart (c : GoConsumer) (q : GoQueue) (d : Disk) : Disk × GoQueue × GoConsumer :=
  let c := { c with id := addU32 c.id 1 }
  match { q with id := c.id }.getInfoPush name d c.id with
  | (false, q) => (d, q, c)
  | (true, q) =>
    let d := { d with infoPop := [] }
    let c := { c with countPopped := 0, startPosRecord := 0 }.openRW name consumerName q d
    (c.putInfo name consumerName q d, q, c)

/-- The end of `pop` in front of a message. -/
def readMessage (c : GoConsumer) (q : GoQueue) (d : Disk) : List UInt8 × GoQueue × GoConsumer :=
  let q := q.setRQueueFile d c.id
  let bytes := readFile (q.file d) c.startPosRecord headerSize
  let headerBuff := putInto c.headerBuff bytes
  let c := { c with headerBuff, header := .fromBuff headerBuff }
  if c.header.startPos ≠ c.startPosRecord then ([], q, c)
  else
    let buff : Buffer :=
      if c.buff.size ≤ c.header.msgLength then ⟨addU32 c.header.msgLength 1, []⟩ else c.buff
    if buff.size ≤ c.header.msgLength then ([], q, { c with buff })
    else
      let body := readFile (q.file d) (c.startPosRecord + bytes.length) c.header.msgLength
      let buff := buff.put body
      let lastReadMsg := buff.get c.header.msgLength
      (lastReadMsg, q, { c with buff, lastReadMsg })

/-- `commit_and_next`. -/
def commitAndNext (c : GoConsumer) (q : GoQueue) (d : Disk) : Disk × GoQueue × GoConsumer :=
  if !q.isReady ∨ !c.isReady then (d, q, c)
  else
    let q := (q.getInfoPush name d c.id).2
    if q.countPushed ≤ c.countPopped then (d, q, c)
    else
      let c := { c with headerBuff := clearCrc c.headerBuff }
      if c.header.crc ≠ littleEndian 4 (crc32 (c.headerBuff ++ c.lastReadMsg)).toNat then (d, q, c)
      else
        let c := { c with
          countPopped := addU32 c.countPopped 1
          startPosRecord := addU64 c.startPosRecord (headerSize + c.header.msgLength) }
        (c.putInfo name consumerName q d, q, c)

end GoConsumer

/-! ## The lines of a producer -/

theorem parseInt_digits {n : ℕ} (h : n < 2 ^ 63) : parseInt (digits n) = ((n : Int), true) := by
  rw [parseInt, digits, parseSigned_toDigits, if_pos (by omega)]

theorem toUint32_natCast {n : ℕ} (h : n < 2 ^ 32) : toUint32 (n : Int) = n := by
  unfold toUint32
  omega

theorem dropLast_withCrc (crc32 : List UInt8 → UInt32) (text : List Char) :
    (withCrc crc32 text).dropLast =
      text ++ (digits (crc32 (utf8 (String.ofList text))).toNat).dropLast := by
  rw [withCrc, List.dropLast_append_of_ne_nil]
  exact Nat.toDigits_ne_nil

theorem semicolon_notMem_dropLast (n : ℕ) : ';' ∉ (digits n).dropLast := fun hmem =>
  semicolon_notMem_digits n (List.mem_of_mem_dropLast hmem)

/-- The lines as they are divided here, and the numbers of 32 bits as they are read. -/
def goLines (crc32 : List UInt8 → UInt32) : Crates where
  crc32 := crc32
  scanQueueInfo line :=
    match fieldsOf line.dropLast with
    | [queueName, id, _] => (some queueName, some (toUint32 (parseInt id).1))
    | _ => (none, none)
  scanPushInfo line :=
    match fieldsOf line.dropLast with
    | [queueName, rightEdge, countPushed, _] =>
      (some queueName, parseU64 rightEdge, some (toUint32 (parseInt countPushed).1))
    | _ => (none, none, none)
  scanPopInfo := lineCrates.scanPopInfo
  scan_queueText := by
    intro name id hname hid
    rw [dropLast_withCrc, queueText, List.append_assoc, List.cons_append, List.append_assoc,
      List.singleton_append, fieldsOf_append hname.semicolon_notMem,
      fieldsOf_append (semicolon_notMem_digits id), fieldsOf_last (semicolon_notMem_dropLast _)]
    dsimp only
    rw [parseInt_digits (by omega), toUint32_natCast hid]
  scan_pushText := by
    intro name rightEdge countPushed hname hedge hcount
    have hline : (withCrc crc32 (pushText name rightEdge countPushed)).dropLast =
        name ++ ';' :: (digits rightEdge ++ ';' :: (digits countPushed ++ ';' ::
          (digits (crc32 (utf8 (String.ofList
            (pushText name rightEdge countPushed)))).toNat).dropLast)) := by
      rw [dropLast_withCrc]
      simp [pushText]
    rw [hline, fieldsOf_append hname.semicolon_notMem,
      fieldsOf_append (semicolon_notMem_digits rightEdge),
      fieldsOf_append (semicolon_notMem_digits countPushed),
      fieldsOf_last (semicolon_notMem_dropLast _)]
    dsimp only
    rw [parseU64_digits hedge, parseInt_digits (by omega), toUint32_natCast hcount]
  scan_popLine := lineCrates.scan_popLine

section Lines

variable {crc32 : List UInt8 → UInt32} {name : List Char} {d : Disk}
  {pushed : ℕ → List Message} {published : ℕ → ℕ} {newest k n : ℕ} {q : GoQueue}

theorem readln_of_readPushInfo {text : List Char} {position : ℕ}
    (h : readPushInfo (goLines crc32) name text = some (position, n)) (htext : text ≠ []) :
    ∃ line, readln text = line ∧ line ≠ [] ∧
      ∃ rightEdge countPushed rest, fieldsOf line.dropLast = [name, rightEdge, countPushed, rest] ∧
        toUint32 (parseInt countPushed).1 = n := by
  have hline : firstLine text = some (readln text) := by
    rw [readln, firstLine, if_neg (by simpa using htext), Option.getD_some]
  rw [readPushInfo, hline] at h
  dsimp only [goLines] at h
  refine ⟨_, rfl, ?_, ?_⟩
  · intro hempty
    rw [hempty, show fieldsOf ([] : List Char).dropLast = [[]] from rfl] at h
    exact absurd h (by simp)
  · split at h
    · rename_i hscan
      split at hscan
      · rename_i queueName rightEdge countPushed rest hfields
        rw [Prod.mk.injEq, Prod.mk.injEq] at hscan
        split_ifs at h with hq
        rw [Option.some.injEq, Prod.mk.injEq] at h
        obtain ⟨hqueue, -, hcount⟩ := hscan
        rw [Option.some.injEq] at hqueue hcount
        exact ⟨rightEdge, countPushed, rest, by rw [hfields, hqueue, hq], hcount.trans h.2⟩
      · exact absurd (congrArg Prod.fst hscan) (by simp)
    · exact absurd h (by simp)

/-- **The line of a part** is read. -/
theorem getInfoPush_eq (hready : q.isReady = true)
    (hlinked : d.linked k = true) (htext : (d.parts k).infoPush ≠ [])
    (h : Stored (goLines crc32) name d pushed published newest) :
    ∃ rightEdge, q.getInfoPush name d k =
      (true, { q with rightEdge, countPushed := published k }) := by
  obtain ⟨line, hline, hne, rightEdge, countPushed, rest, hfields, hcount⟩ :=
    readln_of_readPushInfo (h.pushInfo k) htext
  refine ⟨toUint64 (parseInt rightEdge).1, ?_⟩
  rw [GoQueue.getInfoPush, if_neg (by simp [hready]), if_neg (by simp [hlinked]), hline,
    GoQueue.takeInfoPush, if_neg hne, hfields]
  dsimp only
  rw [if_neg (by simp), hcount]

/-- **The line of the queue** is read. -/
theorem getInfoQueue_eq (h : Stored (goLines crc32) name d pushed published newest) (q : GoQueue) :
    q.getInfoQueue name d = (true, { q with id := newest }) := by
  have hread := h.queueInfo
  cases hinfo : d.infoQueue with
  | none =>
    rw [hinfo] at hread
    exact absurd hread (by simp [readQueueInfo, firstLine])
  | some text =>
    rw [hinfo, Option.getD_some, readQueueInfo] at hread
    rw [GoQueue.getInfoQueue, hinfo]
    dsimp only [goLines] at hread ⊢
    rw [readln]
    cases hfirst : firstLine text with
    | none =>
      rw [hfirst] at hread
      exact absurd hread (by simp)
    | some line =>
      rw [hfirst] at hread
      dsimp only at hread
      rw [Option.getD_some, GoQueue.takeInfoQueue]
      split at hread
      · rename_i hscan
        split at hscan
        · rename_i queueName id rest hfields
          rw [Prod.mk.injEq, Option.some.injEq, Option.some.injEq] at hscan
          split_ifs at hread with hq
          rw [Option.some.injEq] at hread
          have hne : line ≠ [] := by
            rintro rfl
            exact absurd hfields (by simp [fieldsOf])
          rw [if_neg hne]
          rw [if_neg (by simp [hscan.1, hq]), hscan.2, hread]
        · exact absurd (congrArg Prod.fst hscan) (by simp)
      · exact absurd hread (by simp)

end Lines

/-! ## Messages -/

theorem Buffer.get_put (b : Buffer) (bytes : List UInt8) :
    (b.put bytes).get bytes.length = bytes := by
  rw [Buffer.put, Buffer.get, putInto, List.take_left, List.length_append,
    Nat.sub_eq_zero_of_le (Nat.le_add_right _ _), List.replicate_zero, List.append_nil]

section Messages

variable {crates : Crates} {name : List Char} {d : Disk} {written : ℕ → List Message}
  {published : ℕ → ℕ} {newest k count : ℕ} {m : Message} {q : GoQueue} {c : GoConsumer}

theorem fromBuff_headerOf (h : Stored crates name d written published newest)
    (hm : (written k)[count]? = some m) :
    (GoHeader.fromBuff (headerOf crates.crc32 (lengthOf ((written k).take count)) (count + 1)
        m)).startPos = lengthOf ((written k).take count) ∧
      (GoHeader.fromBuff (headerOf crates.crc32 (lengthOf ((written k).take count)) (count + 1)
        m)).msgLength = m.body.length ∧
      (GoHeader.fromBuff (headerOf crates.crc32 (lengthOf ((written k).take count)) (count + 1)
        m)).crc = littleEndian 4 (crates.crc32 ((pushedHeader (lengthOf ((written k).take count))
          (count + 1) m).toBuf ++ m.body)).toNat := by
  obtain ⟨hstart, -, hlength⟩ := h.readHeaderOf_eq hm
  refine ⟨hstart, hlength, ?_⟩
  have htake : ((pushedHeader (lengthOf ((written k).take count)) (count + 1) m).toBuf.take
      21).length = 21 := by
    rw [List.length_take, length_toBuf]
    rfl
  rw [GoHeader.fromBuff, headerOf]
  dsimp only
  rw [setCrc, List.drop_append_of_le_length (by omega), List.drop_of_length_le (by omega),
    List.nil_append, List.take_of_length_le (by simp)]

/-- The consumer after a message was read. -/
structure MessageTaken (crates : Crates) (start count : ℕ) (m : Message) (c : GoConsumer) : Prop
    where
  headerBuff : c.headerBuff = headerOf crates.crc32 start count m
  header : c.header = .fromBuff (headerOf crates.crc32 start count m)
  lastReadMsg : c.lastReadMsg = m.body

/-- **The message at the place of the consumer** is read in the file that is open. -/
theorem readMessage_eq (h : Stored crates name d written published newest)
    (hm : (written k)[count]? = some m)
    (hfile : (q.setRQueueFile d c.id).ffQueueR = some k)
    (hstart : c.startPosRecord = lengthOf ((written k).take count))
    (hbuff : c.headerBuff.length = headerSize) (hbody : m.body.length ≤ maxRW) :
    ∃ c', c.readMessage q d = (m.body, q.setRQueueFile d c.id, c') ∧
      MessageTaken crates (lengthOf ((written k).take count)) (count + 1) m c' ∧
      c'.isReady = c.isReady ∧ c'.id = c.id ∧ c'.startPosRecord = c.startPosRecord ∧
      c'.countPopped = c.countPopped := by
  obtain ⟨hheader, hlength, -⟩ := fromBuff_headerOf h hm
  obtain ⟨rest, hrecord⟩ := h.read_record hm
  set header := headerOf crates.crc32 (lengthOf ((written k).take count)) (count + 1) m
    with hdef
  have hsize : header.length = headerSize := length_headerOf ..
  have hbytes : readFile ((q.setRQueueFile d c.id).file d) c.startPosRecord headerSize =
      header := by
    rw [readFile, GoQueue.file, hfile, hstart]
    dsimp only
    rw [show (d.parts k).data = d.bytesOf (.part k) from rfl, hrecord,
      show min headerSize maxRW = header.length by rw [hsize]; rfl, List.take_left]
  have hmessage : readFile ((q.setRQueueFile d c.id).file d)
      (c.startPosRecord + header.length) m.body.length = m.body := by
    rw [readFile, GoQueue.file, hfile, hstart]
    dsimp only
    rw [show (d.parts k).data = d.bytesOf (.part k) from rfl, ← List.drop_drop, hrecord,
      List.drop_left, Nat.min_eq_left hbody, List.take_left]
  have hput : putInto c.headerBuff header = header := by
    rw [putInto, List.drop_of_length_le (by omega), List.append_nil]
  rw [GoConsumer.readMessage]
  dsimp only
  rw [hbytes, hput, hheader, hlength, hmessage, if_neg (by simp [hstart])]
  by_cases hbig : c.buff.size ≤ m.body.length
  · have hnumber : addU32 m.body.length 1 = m.body.length + 1 := by
      rw [maxRW] at hbody
      exact Nat.mod_eq_of_lt (by omega)
    rw [if_pos hbig]
    dsimp only
    rw [hnumber, if_neg (by omega), Buffer.get_put]
    exact ⟨_, rfl, ⟨rfl, rfl, rfl⟩, rfl, rfl, rfl, rfl⟩
  · rw [if_neg hbig, if_neg hbig, Buffer.get_put]
    exact ⟨_, rfl, ⟨rfl, rfl, rfl⟩, rfl, rfl, rfl, rfl⟩

/-- **The message is committed.** -/
theorem commitAndNext_eq (h : Stored crates name d written published newest)
    (hm : (written k)[count]? = some m) (consumerName : List Char) {q' : GoQueue}
    (hinfo : q.getInfoPush name d c.id = (true, q')) (hqueue : q.isReady = true)
    (hready : q'.isReady = true) (hconsumer : c.isReady = true)
    (hknown : count < q'.countPushed) (hcount : c.countPopped = count)
    (hstart : c.startPosRecord = lengthOf ((written k).take count))
    (htaken : MessageTaken crates (lengthOf ((written k).take count)) (count + 1) m c) :
    ∃ infoPop c', c.commitAndNext crates.crc32 name consumerName q d =
        ({ d with infoPop }, q', c') ∧
      c'.isReady = true ∧ c'.id = c.id ∧ c'.countPopped = count + 1 ∧
      c'.startPosRecord = lengthOf ((written k).take (count + 1)) ∧
      c'.headerBuff.length = headerSize := by
  obtain ⟨hheader, hlength, hcrc⟩ := fromBuff_headerOf h hm
  obtain ⟨hlt, -⟩ := List.getElem?_eq_some_iff.mp hm
  have hnumber : addU32 count 1 = count + 1 := by
    have := h.count_lt k
    exact Nat.mod_eq_of_lt (by omega)
  have hposition : addU64 (lengthOf ((written k).take count)) (headerSize + m.body.length) =
      lengthOf ((written k).take (count + 1)) := by
    rw [lengthOf_take_succ hm, addU64]
    refine Nat.mod_eq_of_lt ?_
    rw [← lengthOf_take_succ hm]
    exact h.lengthOf_take_lt k (count + 1)
  have hclear : clearCrc c.headerBuff =
      (pushedHeader (lengthOf ((written k).take count)) (count + 1) m).toBuf := by
    rw [htaken.headerBuff, headerOf]
    exact clearCrc_setCrc _ _
  rw [GoConsumer.commitAndNext, if_neg (by simp [hqueue, hconsumer]), hinfo]
  dsimp only
  rw [if_neg (by omega), hclear, htaken.header, htaken.lastReadMsg, if_neg (by simp [hcrc]),
    hlength, hcount, hnumber, hstart, hposition, GoConsumer.putInfo,
    if_neg (by simp [hready, hconsumer])]
  exact ⟨_, _, rfl, hconsumer, rfl, rfl, rfl, length_toBuf _⟩

theorem enterPart_eq (consumerName : List Char) {q' : GoQueue} {next : ℕ}
    (hnext : addU32 c.id 1 = next)
    (hinfo : { q with id := next }.getInfoPush name d next = (true, q'))
    (hready : q'.isReady = true) :
    ∃ infoPop, c.enterPart name consumerName q d =
      ({ d with infoPop }, q',
        { c with id := next, countPopped := 0, startPosRecord := 0, isReady := true }) := by
  rw [GoConsumer.enterPart]
  dsimp only
  rw [hnext, hinfo]
  dsimp only [GoConsumer.openRW]
  rw [if_neg (by simp [hready]), GoConsumer.getInfo, if_neg (by simp [hready]),
    if_pos (by rfl)]
  dsimp only
  rw [GoConsumer.putInfo, if_neg (by simp [hready])]
  exact ⟨_, rfl⟩

end Messages

end Veda.GoWebserver
