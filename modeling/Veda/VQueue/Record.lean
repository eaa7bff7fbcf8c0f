import Veda.Lib.Reader

set_option autoImplicit false

/-!
# Records of a queue

A message is stored as a header of 25 bytes and its body, after `record.rs` and the first half of
`Queue::push`. The header has a place for the checksum of the record, which is computed with zeros
in this place. A consumer reads the header, puts zeros there and computes the checksum again. The
functions without a byte order are those of machines with the lowest byte first.

## Main definitions

* `VQueue.Header` — a header, with `toBuf` and `createFromBuf`.
* `VQueue.ByteOrder` — the byte order of a machine, with `Header.toBufIn` and `createFromBufIn`.
* `VQueue.Message`, `VQueue.recordOf` — a message and its record in the file.
* `VQueue.recordsOf`, `VQueue.lengthOf` — the records of messages and their length.

## Main results

* `VQueue.createFromBufIn_setCrcIn`, `VQueue.clearCrc_setCrcIn` — a header is read back.
* `VQueue.drop_recordsOf` — where a record starts.
-/

namespace Veda.VQueue

open Veda.Lib

/-! ## Headers -/

/-- The number of the bytes of a header (`HEADER_SIZE`). -/
def headerSize : ℕ := 25

inductive MsgType
  | string | object
  deriving DecidableEq, Repr

def MsgType.from (t : UInt8) : MsgType := if t = 79 then .object else .string

def MsgType.asU8 : MsgType → UInt8
  | .object => 79
  | .string => 83

theorem MsgType.from_asU8 (t : MsgType) : MsgType.from t.asU8 = t := by
  cases t <;> rfl

structure Header where
  startPos : ℕ
  msgLength : ℕ
  magicMarker : ℕ
  countPushed : ℕ
  crc : UInt32
  msgType : MsgType
  deriving DecidableEq

/-- The empty header of a new consumer. -/
def Header.empty : Header := ⟨0, 0, 0, 0, 0, .string⟩

/-- The marker as it is written. -/
def markerBytes : List UInt8 := [0xEE, 0xFE, 0xEF, 0xEE]

/-- The bytes of a header, with zeros in the place of the checksum. -/
def Header.toBuf (h : Header) : List UInt8 :=
  littleEndian 8 h.startPos ++ (littleEndian 4 h.msgLength ++ (markerBytes ++
    (littleEndian 4 h.countPushed ++ (h.msgType.asU8 :: List.replicate 4 0))))

/-- The header in the first bytes of a buffer. -/
def createFromBuf (buf : List UInt8) : Header where
  startPos := ofLittleEndian (buf.take 8)
  msgLength := ofLittleEndian ((buf.drop 8).take 4)
  magicMarker := ofLittleEndian ((buf.drop 12).take 4)
  countPushed := ofLittleEndian ((buf.drop 16).take 4)
  msgType := MsgType.from ((buf.drop 20).headD 0)
  crc := UInt32.ofNat (ofLittleEndian ((buf.drop 21).take 4))

/-- Put a checksum into its place. -/
def setCrc (buf : List UInt8) (crc : UInt32) : List UInt8 :=
  buf.take 21 ++ littleEndian 4 crc.toNat

/-- Put zeros into the place of the checksum. -/
def clearCrc (buf : List UInt8) : List UInt8 := buf.take 21 ++ List.replicate 4 0

/-! ### In either byte order -/

/-- The byte order of a machine. -/
inductive ByteOrder
  | little | big
  deriving DecidableEq

namespace ByteOrder

/-- `to_ne_bytes`. -/
def toNeBytes : ByteOrder → ℕ → ℕ → List UInt8
  | .little => littleEndian
  | .big => bigEndian

/-- `from_ne_bytes`. -/
def fromNeBytes : ByteOrder → List UInt8 → ℕ
  | .little => ofLittleEndian
  | .big => ofBigEndian

@[simp] theorem length_toNeBytes (e : ByteOrder) (k n : ℕ) : (e.toNeBytes k n).length = k := by
  cases e
  · exact length_littleEndian k n
  · exact length_bigEndian k n

theorem fromNeBytes_toNeBytes (e : ByteOrder) (k n : ℕ) :
    e.fromNeBytes (e.toNeBytes k n) = n % 256 ^ k := by
  cases e with
  | little => exact ofLittleEndian_littleEndian k n
  | big =>
    rw [toNeBytes, ← bigEndian_mod]
    exact ofBigEndian_bigEndian k _ (Nat.mod_lt _ (by positivity))

end ByteOrder

/-- `Header.toBuf` on a machine with a byte order. The marker is written byte by byte. -/
def Header.toBufIn (e : ByteOrder) (h : Header) : List UInt8 :=
  e.toNeBytes 8 h.startPos ++ (e.toNeBytes 4 h.msgLength ++ (markerBytes ++
    (e.toNeBytes 4 h.countPushed ++ (h.msgType.asU8 :: List.replicate 4 0))))

/-- `createFromBuf` on a machine with a byte order. -/
def createFromBufIn (e : ByteOrder) (buf : List UInt8) : Header where
  startPos := e.fromNeBytes (buf.take 8)
  msgLength := e.fromNeBytes ((buf.drop 8).take 4)
  magicMarker := e.fromNeBytes ((buf.drop 12).take 4)
  countPushed := e.fromNeBytes ((buf.drop 16).take 4)
  msgType := MsgType.from ((buf.drop 20).headD 0)
  crc := UInt32.ofNat (e.fromNeBytes ((buf.drop 21).take 4))

/-- `setCrc` on a machine with a byte order. -/
def setCrcIn (e : ByteOrder) (buf : List UInt8) (crc : UInt32) : List UInt8 :=
  buf.take 21 ++ e.toNeBytes 4 crc.toNat

section ByteOrders

variable (e : ByteOrder) (h : Header)

@[simp] theorem length_toBufIn : (h.toBufIn e).length = headerSize := by
  simp [Header.toBufIn, markerBytes, headerSize]

/-- **A header is read back** from its bytes with a checksum; numbers that do not fit are read
modulo what fits. -/
theorem createFromBufIn_setCrcIn (crc : UInt32) :
    createFromBufIn e (setCrcIn e (h.toBufIn e) crc) =
      { startPos := h.startPos % 256 ^ 8, msgLength := h.msgLength % 256 ^ 4,
        magicMarker := e.fromNeBytes markerBytes, countPushed := h.countPushed % 256 ^ 4,
        crc := crc, msgType := h.msgType } := by
  simp [setCrcIn, Header.toBufIn, createFromBufIn, List.take_append, List.drop_append,
    List.take_of_length_le, List.drop_of_length_le, ByteOrder.fromNeBytes_toNeBytes,
    MsgType.from_asU8, markerBytes]

theorem clearCrc_setCrcIn (crc : UInt32) :
    clearCrc (setCrcIn e (h.toBufIn e) crc) = h.toBufIn e := by
  have hlen : ((h.toBufIn e).take 21).length = 21 := by
    rw [List.length_take, length_toBufIn]
    rfl
  have htake : (setCrcIn e (h.toBufIn e) crc).take 21 = (h.toBufIn e).take 21 := by
    rw [setCrcIn, List.take_append_of_le_length (by omega), List.take_take]
    rfl
  have hdrop : (h.toBufIn e).drop 21 = List.replicate 4 0 := by
    simp [Header.toBufIn, List.drop_append, List.drop_of_length_le, markerBytes]
  rw [clearCrc, htake, ← hdrop, List.take_append_drop]

@[simp] theorem length_toBuf : h.toBuf.length = headerSize := length_toBufIn .little h

theorem createFromBuf_setCrc (crc : UInt32) :
    createFromBuf (setCrc h.toBuf crc) =
      { startPos := h.startPos % 256 ^ 8, msgLength := h.msgLength % 256 ^ 4,
        magicMarker := ofLittleEndian markerBytes, countPushed := h.countPushed % 256 ^ 4,
        crc := crc, msgType := h.msgType } :=
  createFromBufIn_setCrcIn .little h crc

theorem clearCrc_setCrc (crc : UInt32) : clearCrc (setCrc h.toBuf crc) = h.toBuf :=
  clearCrc_setCrcIn .little h crc

end ByteOrders

/-! ## Records -/

/-- A message with its type. -/
structure Message where
  msgType : MsgType
  body : List UInt8
  deriving DecidableEq

section Records

variable (crc32 : List UInt8 → UInt32)

/-- The header that is pushed for a message at the position `start`, as number `count` of its
part; its checksum is not set yet. -/
def pushedHeader (start count : ℕ) (m : Message) : Header where
  startPos := start
  msgLength := m.body.length
  magicMarker := 0xEEFEEFEE
  countPushed := count
  crc := 0
  msgType := m.msgType

/-- The bytes of the header that is pushed. -/
def headerOf (start count : ℕ) (m : Message) : List UInt8 :=
  let bheader := (pushedHeader start count m).toBuf
  setCrc bheader (crc32 (bheader ++ m.body))

/-- The record of a message. -/
def recordOf (start count : ℕ) (m : Message) : List UInt8 := headerOf crc32 start count m ++ m.body

/-- The number of bytes that messages take in a file. -/
def lengthOf (ms : List Message) : ℕ := (ms.map fun m => headerSize + m.body.length).sum

/-- The records of messages, the first at the position `start` behind `count` others. -/
def recordsFrom : ℕ → ℕ → List Message → List UInt8
  | _, _, [] => []
  | start, count, m :: ms =>
    recordOf crc32 start (count + 1) m ++
      recordsFrom (start + (headerSize + m.body.length)) (count + 1) ms

/-- The file of a part. -/
def recordsOf (ms : List Message) : List UInt8 := recordsFrom crc32 0 0 ms

@[simp] theorem length_headerOf (start count : ℕ) (m : Message) :
    (headerOf crc32 start count m).length = headerSize := by
  simp [headerOf, setCrc, headerSize]

@[simp] theorem lengthOf_cons (m : Message) (ms : List Message) :
    lengthOf (m :: ms) = headerSize + m.body.length + lengthOf ms := rfl

theorem lengthOf_append (ms ms' : List Message) :
    lengthOf (ms ++ ms') = lengthOf ms + lengthOf ms' := by
  rw [lengthOf, List.map_append, List.sum_append]
  rfl

theorem lengthOf_take_le (ms : List Message) (n : ℕ) : lengthOf (ms.take n) ≤ lengthOf ms := by
  calc lengthOf (ms.take n) ≤ lengthOf (ms.take n) + lengthOf (ms.drop n) := Nat.le_add_right _ _
    _ = lengthOf ms := by rw [← lengthOf_append, List.take_append_drop]

theorem lengthOf_take_succ {ms : List Message} {n : ℕ} {m : Message} (h : ms[n]? = some m) :
    lengthOf (ms.take (n + 1)) = lengthOf (ms.take n) + (headerSize + m.body.length) := by
  rw [List.take_add_one, h, lengthOf_append]
  rfl

theorem length_recordsFrom (start count : ℕ) (ms : List Message) :
    (recordsFrom crc32 start count ms).length = lengthOf ms := by
  induction ms generalizing start count with
  | nil => rfl
  | cons m ms ih =>
    rw [recordsFrom, List.length_append, ih, recordOf, List.length_append, length_headerOf,
      lengthOf_cons]

theorem recordsFrom_append (start count : ℕ) (ms ms' : List Message) :
    recordsFrom crc32 start count (ms ++ ms') =
      recordsFrom crc32 start count ms ++
        recordsFrom crc32 (start + lengthOf ms) (count + ms.length) ms' := by
  induction ms generalizing start count with
  | nil => rfl
  | cons m ms ih =>
    rw [List.cons_append, recordsFrom, ih, recordsFrom, List.append_assoc, lengthOf_cons,
      List.length_cons, Nat.add_assoc start, Nat.add_right_comm count, Nat.add_assoc count]

theorem length_recordsOf (ms : List Message) : (recordsOf crc32 ms).length = lengthOf ms :=
  length_recordsFrom crc32 0 0 ms

theorem recordsOf_concat (ms : List Message) (m : Message) :
    recordsOf crc32 (ms ++ [m]) =
      recordsOf crc32 ms ++ recordOf crc32 (lengthOf ms) (ms.length + 1) m := by
  rw [recordsOf, recordsFrom_append, Nat.zero_add, Nat.zero_add, recordsFrom, recordsFrom,
    List.append_nil]
  rfl

/-- **Where a record starts**: behind the messages in front of it. -/
theorem drop_recordsOf {ms : List Message} {n : ℕ} {m : Message} (h : ms[n]? = some m) :
    ∃ rest, (recordsOf crc32 ms).drop (lengthOf (ms.take n)) =
      recordOf crc32 (lengthOf (ms.take n)) (n + 1) m ++ rest := by
  obtain ⟨hlt, hm⟩ := List.getElem?_eq_some_iff.mp h
  have hsplit : ms = ms.take n ++ m :: ms.drop (n + 1) := by
    rw [← hm, ← List.drop_eq_getElem_cons hlt, List.take_append_drop]
  have hlen : (ms.take n).length = n := List.length_take_of_le (by omega)
  have hrecords := recordsFrom_append crc32 0 0 (ms.take n) (m :: ms.drop (n + 1))
  rw [← hsplit, Nat.zero_add, Nat.zero_add, hlen, recordsFrom] at hrecords
  refine ⟨recordsFrom crc32 (lengthOf (ms.take n) + (headerSize + m.body.length)) (n + 1)
    (ms.drop (n + 1)), ?_⟩
  rw [recordsOf, hrecords, ← length_recordsFrom crc32 0 0 (ms.take n), List.drop_left]

end Records

end Veda.VQueue
