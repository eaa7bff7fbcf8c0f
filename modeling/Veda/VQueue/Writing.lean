import Veda.VQueue.Reading

set_option autoImplicit false

/-!
# What a producer writes

A producer writes at the end of the newest part. A message is first written to the file of records
and then published in the line of the part; a new part starts with an empty file and a line that
says so.

## Main definitions

* `VQueue.Writer` — an open queue that writes at the end of the newest part.
* `VQueue.partOpened` — the files when a part has been opened by a producer.

## Main results

* `VQueue.Writer.pushRecord_complete`, `VQueue.Writer.publish_eq` — the two halves of
  `push`.
* `VQueue.Writer.push_complete` — `push` appends a message to the newest part.
* `VQueue.newReadWrite_eq`, `VQueue.QueueFiles.opened` — `Queue::new` opens the part
  behind the newest one.
-/

namespace Veda.VQueue

/-- An open queue that writes at the end of the newest part, whose file has nothing else in it. -/
structure Writer (crates : Crates) (d : Disk) (pushed : ℕ → List Message) (newest : ℕ)
    (q : Queue) : Prop where
  data : (d.parts newest).data = recordsOf crates.crc32 (pushed newest)
  isReady : q.isReady = true
  mode : q.mode = .readWrite
  id : q.id = newest
  ffQueue : q.ffQueue = .part newest
  ffInfoPush : q.ffInfoPush = .part newest
  offset : q.offset = lengthOf (pushed newest)
  rightEdge : q.rightEdge = lengthOf (pushed newest)
  countPushed : q.countPushed = (pushed newest).length

/-- The messages of the parts, with one more in the part `k`. -/
def addMessage (written : ℕ → List Message) (k : ℕ) (m : Message) : ℕ → List Message :=
  Function.update written k (written k ++ [m])

@[simp] theorem addMessage_self (written : ℕ → List Message) (k : ℕ) (m : Message) :
    addMessage written k m k = written k ++ [m] := Function.update_self ..

theorem addMessage_of_ne (written : ℕ → List Message) {k i : ℕ} (m : Message) (h : i ≠ k) :
    addMessage written k m i = written i := Function.update_of_ne h ..

theorem forall_addMessage {P : ℕ → List Message → Prop} {written : ℕ → List Message} {newest : ℕ}
    {m : Message} (hnewest : P newest (written newest ++ [m]))
    (hother : ∀ k, k ≠ newest → P k (written k)) (k : ℕ) : P k (addMessage written newest m k) := by
  by_cases hk : k = newest
  · rw [hk, addMessage_self]
    exact hnewest
  · rw [addMessage_of_ne _ _ hk]
    exact hother k hk

theorem forall_mem_addMessage {P : Message → Prop} {written : ℕ → List Message} {newest : ℕ}
    {m : Message} (h : ∀ k, ∀ m ∈ written k, P m) (hm : P m) :
    ∀ k, ∀ m' ∈ addMessage written newest m k, P m' := by
  refine forall_addMessage (P := fun _ ms => ∀ m' ∈ ms, P m') (fun m' hm' => ?_) fun k _ => h k
  rcases List.mem_append.mp hm' with hold | hnew
  · exact h newest m' hold
  · exact List.mem_singleton.mp hnew ▸ hm

theorem lengthOf_concat (ms : List Message) (m : Message) :
    lengthOf (ms ++ [m]) = lengthOf ms + (headerSize + m.body.length) := by
  rw [lengthOf_append]
  rfl

theorem writeAt_end {α : Type} (file content : List α) :
    writeAt file file.length content = file ++ content := by
  rw [writeAt, List.take_length, List.drop_of_length_le (Nat.le_add_right _ _), List.append_nil]

/-! ## The file of records -/

@[simp] theorem Disk.bytesOf_setBytes (d : Disk) (data : List UInt8) (k : ℕ) :
    (d.setBytes data (.part k)).bytesOf (.part k) = data := by
  simp [Disk.setBytes, Disk.bytesOf]

@[simp] theorem Disk.setBytes_setBytes (d : Disk) (data data' : List UInt8) (k : ℕ) :
    (d.setBytes data (.part k)).setBytes data' (.part k) = d.setBytes data' (.part k) := by
  simp [Disk.setBytes]

@[simp] theorem Disk.infoPush_setBytes (d : Disk) (data : List UInt8) (k i : ℕ) :
    ((d.setBytes data (.part k)).parts i).infoPush = (d.parts i).infoPush := by
  by_cases hi : i = k
  · subst hi
    simp [Disk.setBytes]
  · simp [Disk.setBytes, hi]

theorem Disk.data_setBytes_of_ne (d : Disk) (data : List UInt8) {k i : ℕ} (hi : i ≠ k) :
    ((d.setBytes data (.part k)).parts i).data = (d.parts i).data := by
  simp [Disk.setBytes, hi]

@[simp] theorem Disk.data_setText (d : Disk) (text : List Char) (k i : ℕ) :
    ((d.setText text (.part k)).parts i).data = (d.parts i).data := by
  by_cases hi : i = k
  · subst hi
    simp [Disk.setText]
  · simp [Disk.setText, hi]

@[simp] theorem Disk.infoPush_setText_self (d : Disk) (text : List Char) (k : ℕ) :
    ((d.setText text (.part k)).parts k).infoPush = text := by
  simp [Disk.setText]

theorem Disk.infoPush_setText_of_ne (d : Disk) (text : List Char) {k i : ℕ} (hi : i ≠ k) :
    ((d.setText text (.part k)).parts i).infoPush = (d.parts i).infoPush := by
  simp [Disk.setText, hi]

/-- A write that takes everything. -/
def Write.Complete {α : Type} (w : Write) (content : List α) : Prop :=
  w ≠ .fail ∧ w.taken content = content

theorem Write.complete_full {α : Type} (content : List α) : Write.full.Complete content :=
  ⟨by decide, rfl⟩

theorem Queue.writeRecord_eq {q : Queue} {d : Disk} {k : ℕ} {data : List UInt8}
    (hfile : q.ffQueue = .part k) (hdata : d.bytesOf (.part k) = data)
    (hoffset : q.offset = data.length) (content : List UInt8) (w : Write) :
    q.writeRecord d content w =
      (d.setBytes (data ++ w.taken content) (.part k),
        { q with offset := (data ++ w.taken content).length }) := by
  rw [Queue.writeRecord, hfile, hdata, hoffset, List.length_append, writeAt_end]

namespace Writer

variable {crates : Crates} {d : Disk} {written : ℕ → List Message} {newest : ℕ} {q : Queue}
  {m : Message}

theorem header_eq (hw : Writer crates d written newest q)
    (hcount : (written newest).length + 1 < 2 ^ 32) (m : Message) :
    headerOf crates.crc32 q.rightEdge (addU32 q.countPushed 1) m =
      headerOf crates.crc32 (lengthOf (written newest)) ((written newest).length + 1) m := by
  rw [addU32, hw.countPushed, Nat.mod_eq_of_lt hcount, hw.rightEdge]

theorem writeHeader (hw : Writer crates d written newest q) (header : List UInt8) (w : Write) :
    q.writeRecord d header w =
      (d.setBytes (recordsOf crates.crc32 (written newest) ++ w.taken header) (.part newest),
        { q with offset := (recordsOf crates.crc32 (written newest) ++ w.taken header).length }) :=
  Queue.writeRecord_eq hw.ffQueue hw.data
    (hw.offset.trans (length_recordsOf crates.crc32 (written newest)).symm) header w

/-- **The first half of `push`** appends the record of the message. -/
theorem pushRecord_complete (hw : Writer crates d written newest q)
    (hsize : m.body.length ≤ 2 ^ 31 - 1) (hcount : (written newest).length + 1 < 2 ^ 32)
    {wHeader wBody : Write} (hheader : wHeader.Complete
      (headerOf crates.crc32 (lengthOf (written newest)) ((written newest).length + 1) m))
    (hbody : wBody.Complete m.body) :
    q.pushRecord crates d m wHeader wBody =
      (.ok (), d.setBytes (recordsOf crates.crc32 (written newest ++ [m])) (.part newest),
        { q with offset := lengthOf (written newest ++ [m]) }) := by
  have hsecond := Queue.writeRecord_eq
    (q := { q with offset := (recordsOf crates.crc32 (written newest) ++
      headerOf crates.crc32 (lengthOf (written newest)) ((written newest).length + 1) m).length })
    (d := d.setBytes (recordsOf crates.crc32 (written newest) ++
      headerOf crates.crc32 (lengthOf (written newest)) ((written newest).length + 1) m)
      (.part newest)) hw.ffQueue (Disk.bytesOf_setBytes _ _ _) rfl m.body wBody
  rw [hbody.2, Disk.setBytes_setBytes, List.append_assoc, ← recordOf, ← recordsOf_concat,
    length_recordsOf] at hsecond
  unfold Queue.pushRecord
  rw [if_neg (by simp [hw.isReady, hw.mode]; omega), hw.header_eq hcount]
  dsimp only
  rw [if_neg hheader.1, hw.writeHeader, hheader.2]
  dsimp only
  rw [if_neg hbody.1, hsecond]

end Writer

namespace Stored

variable {crates : Crates} {name : List Char} {d : Disk} {written : ℕ → List Message}
  {published : ℕ → ℕ} {newest : ℕ} {q : Queue} {m : Message}

theorem recorded (h : Stored crates name d written published newest)
    (hbody : m.body.length ≤ 2 ^ 31 - 1) (hcount : (written newest).length + 1 < 2 ^ 32)
    (hlength : lengthOf (written newest) + headerSize + m.body.length < 2 ^ 64) :
    Stored crates name
      (d.setBytes (recordsOf crates.crc32 (written newest ++ [m])) (.part newest))
      (addMessage written newest m) published newest where
  queueInfo := h.queueInfo
  pushInfo := by
    intro k
    rw [Disk.infoPush_setBytes]
    by_cases hk : k = newest
    · subst hk
      rw [addMessage_self, List.take_append_of_le_length (h.published_le k)]
      exact h.pushInfo k
    · rw [addMessage_of_ne _ _ hk]
      exact h.pushInfo k
  data := by
    intro k
    by_cases hk : k = newest
    · subst hk
      rw [addMessage_self]
      refine ⟨[], ?_, fun hlong => absurd hlong (by decide)⟩
      rw [List.append_nil]
      exact Disk.bytesOf_setBytes d _ k
    · rw [addMessage_of_ne _ _ hk, Disk.data_setBytes_of_ne _ _ hk]
      exact h.data k
  published_le := forall_addMessage (P := fun k ms => published k ≤ ms.length)
    (by
      rw [List.length_append]
      exact (h.published_le newest).trans (Nat.le_add_right _ _))
    fun k _ => h.published_le k
  count_lt := forall_addMessage (P := fun _ ms => ms.length < 2 ^ 32)
    (by
      rw [List.length_append]
      exact hcount)
    fun k _ => h.count_lt k
  length_lt := forall_addMessage (P := fun _ ms => lengthOf ms < 2 ^ 64)
    (by
      rw [lengthOf_concat, ← Nat.add_assoc]
      exact hlength)
    fun k _ => h.length_lt k
  body_lt := forall_mem_addMessage h.body_lt (by omega)
  newest_lt := h.newest_lt

theorem setLine (h : Stored crates name d written published newest) {k n : ℕ}
    (hn : n ≤ (written k).length) {text : List Char}
    (hread : readPushInfo crates name text = some (lengthOf ((written k).take n), n)) :
    Stored crates name (d.setText text (.part k)) written (Function.update published k n)
      newest where
  queueInfo := h.queueInfo
  pushInfo := by
    intro i
    by_cases hi : i = k
    · subst hi
      rw [Function.update_self, Disk.infoPush_setText_self, hread]
    · rw [Function.update_of_ne hi, Disk.infoPush_setText_of_ne _ _ hi]
      exact h.pushInfo i
  data := by
    intro i
    rw [Disk.data_setText]
    exact h.data i
  published_le := by
    intro i
    by_cases hi : i = k
    · subst hi
      rw [Function.update_self]
      exact hn
    · rw [Function.update_of_ne hi]
      exact h.published_le i
  count_lt := h.count_lt
  length_lt := h.length_lt
  body_lt := h.body_lt
  newest_lt := h.newest_lt

end Stored

/-- The line of a part with one more message. -/
def nextLine (crates : Crates) (name : List Char) (ms : List Message) (m : Message) : List Char :=
  withCrc crates.crc32 (pushText name (lengthOf (ms ++ [m])) (ms.length + 1)) ++ ['\n']

namespace Writer

variable {crates : Crates} {name : List Char} {d : Disk} {written : ℕ → List Message}
  {published : ℕ → ℕ} {newest : ℕ} {q : Queue} {m : Message}

/-- **The second half of `push`** writes the line of the part. -/
theorem publish_eq (hw : Writer crates d written newest q) (name : List Char) (d' : Disk)
    (offset : ℕ) (hcount : (written newest).length + 1 < 2 ^ 32)
    (hlength : lengthOf (written newest) + headerSize + m.body.length < 2 ^ 64)
    {wInfo : Write} (hinfo : wInfo ≠ .fail) :
    Queue.publish crates name { q with offset } d' m wInfo =
      (d'.setText (writeAt (d'.parts newest).infoPush 0
          (wInfo.taken (nextLine crates name (written newest) m))) (.part newest),
        { q with
          offset
          rightEdge := lengthOf (written newest ++ [m])
          countPushed := (written newest).length + 1 }) := by
  have hedge : addU64 q.rightEdge (headerSize + m.body.length) =
      lengthOf (written newest ++ [m]) := by
    rw [hw.rightEdge, addU64, Nat.mod_eq_of_lt (by omega), lengthOf_concat]
  have hnumber : addU32 q.countPushed 1 = (written newest).length + 1 := by
    rw [hw.countPushed, addU32, Nat.mod_eq_of_lt hcount]
  rw [Queue.publish]
  dsimp only
  rw [hedge, hnumber]
  cases wInfo with
  | fail => exact absurd rfl hinfo
  | full =>
    dsimp only [Queue.putInfoPush]
    rw [hw.ffInfoPush]
    rfl
  | short n =>
    dsimp only [Queue.putInfoPush]
    rw [hw.ffInfoPush]
    rfl

/-- The files behind a push. -/
def filesAfter (crates : Crates) (name : List Char) (d : Disk) (ms : List Message) (newest : ℕ)
    (m : Message) (wInfo : Write) : Disk :=
  (d.setBytes (recordsOf crates.crc32 (ms ++ [m])) (.part newest)).setText
    (writeAt (d.parts newest).infoPush 0 (wInfo.taken (nextLine crates name ms m))) (.part newest)

/-- **`push`** when the header and the body are written as a whole: the writer is at the end of the
part with one more message. -/
theorem push_eq (hw : Writer crates d written newest q) (name : List Char)
    (hsize : m.body.length ≤ 2 ^ 31 - 1) (hcount : (written newest).length + 1 < 2 ^ 32)
    (hlength : lengthOf (written newest) + headerSize + m.body.length < 2 ^ 64)
    {w : Queue.PushWrites} (hheader : w.header.Complete
      (headerOf crates.crc32 (lengthOf (written newest)) ((written newest).length + 1) m))
    (hbody : w.body.Complete m.body) (hinfo : w.info ≠ .fail) :
    ∃ q', q.push crates name d m w =
        (.ok q'.rightEdge, filesAfter crates name d (written newest) newest m w.info, q') ∧
      Writer crates (filesAfter crates name d (written newest) newest m w.info)
        (addMessage written newest m) newest q' := by
  have hrecord := hw.pushRecord_complete hsize hcount hheader hbody
  have hpublish := hw.publish_eq name
    (d.setBytes (recordsOf crates.crc32 (written newest ++ [m])) (.part newest))
    (lengthOf (written newest ++ [m])) hcount hlength hinfo
  rw [Disk.infoPush_setBytes] at hpublish
  refine ⟨{ q with
    offset := lengthOf (written newest ++ [m])
    rightEdge := lengthOf (written newest ++ [m])
    countPushed := (written newest).length + 1 }, ?_, ?_⟩
  · rw [Queue.push, hrecord]
    dsimp only
    rw [hpublish]
    rfl
  · exact {
      data := by
        rw [filesAfter, Disk.data_setText, addMessage_self]
        exact Disk.bytesOf_setBytes d _ newest
      isReady := hw.isReady
      mode := hw.mode
      id := hw.id
      ffQueue := hw.ffQueue
      ffInfoPush := hw.ffInfoPush
      offset := by rw [addMessage_self]
      rightEdge := by rw [addMessage_self]
      countPushed := by rw [addMessage_self, List.length_append]; rfl }

/-- **`push` appends a message** to the newest part and publishes it, when its header and its body
are written as a whole and the line of the part can be read behind it. -/
theorem push_complete (h : Stored crates name d written published newest)
    (hw : Writer crates d written newest q) (hsize : m.body.length ≤ 2 ^ 31 - 1)
    (hcount : (written newest).length + 1 < 2 ^ 32)
    (hlength : lengthOf (written newest) + headerSize + m.body.length < 2 ^ 64)
    {w : Queue.PushWrites} (hheader : w.header.Complete
      (headerOf crates.crc32 (lengthOf (written newest)) ((written newest).length + 1) m))
    (hbody : w.body.Complete m.body) (hinfo : w.info ≠ .fail)
    (hread : readPushInfo crates name (writeAt (d.parts newest).infoPush 0
      (w.info.taken (nextLine crates name (written newest) m))) =
        some (lengthOf (written newest ++ [m]), (written newest).length + 1)) :
    ∃ d' q', q.push crates name d m w = (.ok q'.rightEdge, d', q') ∧
      Stored crates name d' (addMessage written newest m)
        (Function.update published newest ((written newest).length + 1)) newest ∧
      Writer crates d' (addMessage written newest m) newest q' ∧
      d'.linked = d.linked ∧ d'.infoPop = d.infoPop ∧
      ∀ k, k ≠ newest → d'.parts k = d.parts k := by
  obtain ⟨q', hpush, hwriter⟩ := hw.push_eq (d := d) name hsize hcount hlength hheader hbody hinfo
  have htake : (addMessage written newest m newest).take ((written newest).length + 1) =
      written newest ++ [m] := by
    rw [addMessage_self, List.take_of_length_le (by simp)]
  have hstored := (h.recorded hsize hcount hlength).setLine (k := newest)
    (n := (written newest).length + 1) (by rw [addMessage_self, List.length_append]; rfl)
    (by rw [htake]; exact hread)
  refine ⟨_, q', hpush, hstored, hwriter, rfl, rfl, ?_⟩
  intro k hk
  exact (Function.update_of_ne hk ..).trans (Function.update_of_ne hk ..)

theorem read_nextLine (hname : PlainName name) (ms : List Message) (m : Message)
    (hcount : ms.length + 1 < 2 ^ 32) (hlength : lengthOf ms + headerSize + m.body.length < 2 ^ 64)
    (file : List Char) :
    readPushInfo crates name (writeAt file 0 (nextLine crates name ms m)) =
      some (lengthOf (ms ++ [m]), ms.length + 1) := by
  refine readPushInfo_written hname ?_ hcount file
  rw [lengthOf_concat, ← Nat.add_assoc]
  exact hlength

end Writer

/-! ## `Queue::new` for the producer -/

section Opening

variable (crates : Crates) (name : List Char)

/-- No files at all. -/
def Disk.empty : Disk := ⟨none, fun _ => ⟨[], []⟩, fun _ => false, []⟩

/-- The part that a producer creates. -/
def nextPart (d : Disk) : ℕ :=
  match readQueueInfo crates name (d.infoQueue.getD []) with
  | some newest => addU32 newest 1
  | none => 0

/-- The files when a part has been opened by a producer. -/
def partOpened (d : Disk) (id : ℕ) : Disk :=
  { d.setText (writeAt (d.parts id).infoPush 0
      (withCrc crates.crc32 (pushText name 0 0) ++ ['\n'])) (.part id) with
    infoQueue := some (writeAt (d.infoQueue.getD []) 0
      (withCrc crates.crc32 (queueText name id) ++ ['\n']))
    linked := Function.update d.linked id true }

variable {crates name}

/-- **The part behind the newest one is opened.** -/
theorem newReadWrite_eq (hname : PlainName name) (d : Disk) {id : ℕ}
    (hid : nextPart crates name d = id)
    (hempty : readPushInfo crates name (d.parts id).infoPush = some (0, 0)) :
    Queue.newReadWrite crates name d .full .full =
      (.ok ⟨.readWrite, true, .part id, 0, .part id, 0, 0, id⟩, partOpened crates name d id) := by
  have hopen : ∀ q : Queue, q.isReady = true →
      ∀ linked infoPop, q.openPart crates name
        ⟨some (d.infoQueue.getD []), d.parts, Function.update linked id true, infoPop⟩ id =
          (.ok (), { q with
            ffInfoPush := .part id, ffQueue := .part id, offset := 0, id := id
            rightEdge := 0, countPushed := 0 }) := by
    intro q hready linked infoPop
    rw [Queue.openPart, if_neg (by simp [hready]), Queue.openInfoPush,
      if_pos (Function.update_self ..)]
    dsimp only
    rw [Queue.getInfoOfPart, if_neg (by simp)]
    dsimp only [Disk.textOf]
    rw [hempty]
  have hreopen : ∀ q : Queue,
      (q.getInfoOfPart crates name (partOpened crates name d id) id true).2 =
        { q with ffInfoPush := .part id, rightEdge := 0, countPushed := 0 } := by
    intro q
    have hlinked : (partOpened crates name d id).linked id = true := Function.update_self ..
    have hline : readPushInfo crates name
        ((partOpened crates name d id).textOf (.part id)) = some (0, 0) := by
      have htext : (partOpened crates name d id).textOf (.part id) =
          writeAt (d.parts id).infoPush 0 (withCrc crates.crc32 (pushText name 0 0) ++ ['\n']) :=
        Disk.infoPush_setText_self d _ id
      rw [htext]
      exact readPushInfo_written hname (by decide) (by decide) _
    rw [Queue.getInfoOfPart, if_pos (.inr rfl), Queue.openInfoPush, if_pos hlinked]
    dsimp only
    rw [hline]
  unfold Queue.newReadWrite
  dsimp only [Option.getD_some]
  cases hinfo : readQueueInfo crates name (d.infoQueue.getD []) with
  | some newest =>
    have hget : (Queue.opened .readWrite).getInfoQueue crates name
        ⟨some (d.infoQueue.getD []), d.parts, d.linked, d.infoPop⟩ =
          (true, { Queue.opened .readWrite with id := newest }) := by
      rw [Queue.getInfoQueue]
      dsimp only [Option.getD_some]
      rw [hinfo]
      rfl
    rw [nextPart, hinfo] at hid
    dsimp only at hid
    rw [hget]
    dsimp only
    rw [if_pos rfl, hid, hopen _ rfl]
    dsimp only [Queue.putInfoPush, Queue.putInfoQueue, Write.taken]
    rw [if_pos rfl]
    exact congrArg (fun q => (Except.ok q, partOpened crates name d id)) (hreopen _)
  | none =>
    have hget : (Queue.opened .readWrite).getInfoQueue crates name
        ⟨some (d.infoQueue.getD []), d.parts, d.linked, d.infoPop⟩ =
          (false, Queue.opened .readWrite) := by
      rw [Queue.getInfoQueue]
      dsimp only [Option.getD_some]
      rw [hinfo]
    rw [nextPart, hinfo] at hid
    dsimp only at hid
    subst hid
    rw [hget]
    dsimp only
    rw [if_neg (by decide), show (Queue.opened .readWrite).id = 0 from rfl, hopen _ rfl]
    dsimp only [Queue.putInfoPush, Queue.putInfoQueue, Write.taken]
    rw [if_neg (by decide)]
    rfl

theorem Stored.partOpened {d d₀ : Disk} {written : ℕ → List Message} {published : ℕ → ℕ}
    {newest id : ℕ} (h : Stored crates name d written published newest) (hname : PlainName name)
    (hparts : d₀.parts = d.parts) (hid : id < 2 ^ 32) (hempty : published id = 0) :
    Stored crates name (partOpened crates name d₀ id) written published id := by
  have hread : readPushInfo crates name (writeAt (d.parts id).infoPush 0
      (withCrc crates.crc32 (pushText name 0 0) ++ ['\n'])) =
        some (lengthOf ((written id).take 0), 0) :=
    readPushInfo_written hname (by decide) (by decide) _
  have hline := h.setLine (Nat.zero_le _) hread
  have hsame : Function.update published id 0 = published := by
    rw [← hempty, Function.update_eq_self]
  rw [hsame] at hline
  have hfiles : (VQueue.partOpened crates name d₀ id).parts =
      (d.setText (writeAt (d.parts id).infoPush 0
        (withCrc crates.crc32 (pushText name 0 0) ++ ['\n'])) (.part id)).parts := by
    rw [VQueue.partOpened, Disk.setText, Disk.setText, hparts]
  exact {
    queueInfo := readQueueInfo_written hname hid _
    pushInfo := by
      rw [hfiles]
      exact hline.pushInfo
    data := by
      rw [hfiles]
      exact hline.data
    published_le := h.published_le
    count_lt := h.count_lt
    length_lt := h.length_lt
    body_lt := h.body_lt
    newest_lt := hid }

theorem writer_opened {d : Disk} {pushed : ℕ → List Message} {id : ℕ} (hempty : pushed id = [])
    (hdata : (d.parts id).data = []) :
    Writer crates (partOpened crates name d id) pushed id
      ⟨.readWrite, true, .part id, 0, .part id, 0, 0, id⟩ where
  data := by
    rw [hempty]
    exact (Disk.data_setText d _ id id).trans hdata
  isReady := rfl
  mode := rfl
  id := rfl
  ffQueue := rfl
  ffInfoPush := rfl
  offset := by rw [hempty]; rfl
  rightEdge := by rw [hempty]; rfl
  countPushed := by rw [hempty]; rfl

theorem stored_empty (crates : Crates) (hname : PlainName name) :
    Stored crates name
      { Disk.empty with
        infoQueue := some (writeAt [] 0 (withCrc crates.crc32 (queueText name 0) ++ ['\n'])) }
      (fun _ => []) (fun _ => 0) 0 where
  queueInfo := readQueueInfo_written hname (by decide) _
  pushInfo := fun _ => rfl
  data := fun _ => ⟨[], rfl, fun hlong => absurd hlong (by decide)⟩
  published_le := fun _ => Nat.le_refl _
  count_lt := fun _ => by decide
  length_lt := fun _ => by decide
  body_lt := fun _ _ hm => absurd hm List.not_mem_nil
  newest_lt := by decide

/-- No files at all, or those of a queue whose next part has no files yet. -/
def QueueFiles (crates : Crates) (name : List Char) (d : Disk) : Prop :=
  d = .empty ∨ ∃ written published newest, Stored crates name d written published newest ∧
    newest + 1 < 2 ^ 32 ∧ written (newest + 1) = [] ∧ (d.parts (newest + 1)).data = []

/-- **`Queue::new`** for the producer opens an empty part. -/
theorem QueueFiles.opened {d : Disk} (h : QueueFiles crates name d) (hname : PlainName name) :
    ∃ id written published, Queue.newReadWrite crates name d .full .full =
        (.ok ⟨.readWrite, true, .part id, 0, .part id, 0, 0, id⟩, partOpened crates name d id) ∧
      Stored crates name (VQueue.partOpened crates name d id) written published id ∧
      Writer crates (VQueue.partOpened crates name d id) written id
        ⟨.readWrite, true, .part id, 0, .part id, 0, 0, id⟩ ∧
      written id = [] ∧ published id = 0 := by
  rcases h with rfl | ⟨written, published, newest, hstored, hlt, hempty, hdata⟩
  · exact ⟨0, fun _ => [], fun _ => 0, newReadWrite_eq hname .empty rfl rfl,
      (stored_empty crates hname).partOpened hname rfl (by decide) rfl, writer_opened rfl rfl, rfl,
      rfl⟩
  · have hcount : published (newest + 1) = 0 := by
      have hle := hstored.published_le (newest + 1)
      rw [hempty] at hle
      exact Nat.le_zero.mp hle
    have hnext : nextPart crates name d = newest + 1 := by
      rw [nextPart, hstored.queueInfo]
      exact Nat.mod_eq_of_lt hlt
    have hread : readPushInfo crates name (d.parts (newest + 1)).infoPush = some (0, 0) := by
      rw [hstored.pushInfo, hcount]
      rfl
    exact ⟨newest + 1, written, published, newReadWrite_eq hname d hnext hread,
      hstored.partOpened hname rfl hlt hcount, writer_opened hempty hdata, hempty, hcount⟩

end Opening

end Veda.VQueue
