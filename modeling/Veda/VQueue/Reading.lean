import Veda.VQueue.Consumer

set_option autoImplicit false

/-!
# What a consumer reads

The files of a queue between two writes: a part has the records of the messages that were written
to it, and its line says how many of them are published. A consumer that stands behind some messages
of its part reads the next one; at the end of the published messages it looks for a later part.

## Main definitions

* `VQueue.Stored` — the files hold messages.
* `VQueue.At` — a consumer stands behind some messages of a part.
* `VQueue.Opened` — what a new consumer is.

## Main results

* `VQueue.Stored.getInfoOfPart_linked`, `VQueue.Stored.openPart_linked` — a part is read.
* `VQueue.Stored.takeHeader_next`, `VQueue.Stored.takeHeader_end` — a header is read, or
  there is none.
* `VQueue.Stored.popBody_next` — the body behind a header.
* `VQueue.Stored.popHeader_next`, `VQueue.Stored.popHeader_end` — the whole of
  `pop_header`.
* `VQueue.Stored.new_opens` — the part that a new consumer opens.
-/

namespace Veda.VQueue

/-- Bytes behind the records of `n` messages, which do not start with the header of one of them. -/
def Unread (n : ℕ) (rest : List UInt8) : Prop :=
  headerSize ≤ rest.length → n < (createFromBuf (rest.take headerSize)).countPushed

/-- The files of a queue: to every part messages were written, of which some are published, and the
file of the queue names the newest part. All numbers fit. What is left of a write that failed may
stand behind the records. -/
structure Stored (crates : Crates) (name : List Char) (d : Disk) (written : ℕ → List Message)
    (published : ℕ → ℕ) (newest : ℕ) : Prop where
  queueInfo : readQueueInfo crates name (d.infoQueue.getD []) = some newest
  pushInfo : ∀ k, readPushInfo crates name (d.parts k).infoPush =
    some (lengthOf ((written k).take (published k)), published k)
  data : ∀ k, ∃ rest, (d.parts k).data = recordsOf crates.crc32 (written k) ++ rest ∧
    Unread (written k).length rest
  published_le : ∀ k, published k ≤ (written k).length
  count_lt : ∀ k, (written k).length < 2 ^ 32
  length_lt : ∀ k, lengthOf (written k) < 2 ^ 64
  body_lt : ∀ k, ∀ m ∈ written k, m.body.length < 2 ^ 32
  newest_lt : newest < 2 ^ 32

/-- A consumer stands behind `count` messages of the part `k`; what it knows of the part is true of
its first messages. -/
structure Stands (written : ℕ → List Message) (published : ℕ → ℕ) (k count : ℕ) (c : Consumer) :
    Prop where
  isReady : c.isReady = true
  queueReady : c.queue.isReady = true
  id : c.id = k
  ffQueue : c.queue.ffQueue = .part k
  ffInfoPush : c.queue.ffInfoPush = .part k
  countPopped : c.countPopped = count
  posRecord : c.posRecord = lengthOf ((written k).take count)
  count_le : count ≤ published k
  known_le : c.queue.countPushed ≤ published k
  rightEdge : c.queue.rightEdge = lengthOf ((written k).take c.queue.countPushed)

/-- A consumer stands behind `count` messages of the part `k`, and its queue is at this part. -/
structure At (written : ℕ → List Message) (published : ℕ → ℕ) (k count : ℕ) (c : Consumer) : Prop
    extends Stands written published k count c where
  queueId : c.queue.id = k

/-- The header of the message behind `count` messages of the part `k` has been read. -/
structure HeaderTaken (crates : Crates) (written : ℕ → List Message) (k count : ℕ) (m : Message)
    (c : Consumer) : Prop where
  next : (written k)[count]? = some m
  offset : c.queue.offset = lengthOf ((written k).take count) + headerSize
  hash : c.hash = (pushedHeader (lengthOf ((written k).take count)) (count + 1) m).toBuf
  header : c.header =
    createFromBuf (headerOf crates.crc32 (lengthOf ((written k).take count)) (count + 1) m)

/-- A consumer has been opened at the part `k`, with a position and a count that need not be those
of the part. -/
structure Opened (written : ℕ → List Message) (published : ℕ → ℕ) (k pos count : ℕ)
    (c : Consumer) : Prop where
  isReady : c.isReady = true
  queueReady : c.queue.isReady = true
  id : c.id = k
  queueId : c.queue.id = k
  ffQueue : c.queue.ffQueue = .part k
  ffInfoPush : c.queue.ffInfoPush = .part k
  countPopped : c.countPopped = count
  posRecord : c.posRecord = pos
  offset : c.queue.offset = pos
  countPushed : c.queue.countPushed = published k
  rightEdge : c.queue.rightEdge = lengthOf ((written k).take (published k))

/-- A consumer that has come to the end of its part looks for a part that does not exist. -/
structure Stuck (d : Disk) (newest : ℕ) (c : Consumer) : Prop where
  unlinked : d.linked c.id = false
  id_le : c.id ≤ newest
  queueId : c.queue.id ≠ c.id
  known_le : c.queue.countPushed ≤ c.countPopped

/-- The files when a part has been entered. -/
def Disk.entered (d : Disk) (name consumerName : List Char) (k : ℕ) : Disk :=
  { d with infoPop := writeAt [] 0 (popLine name consumerName 0 0 k ++ ['\n']) }

/-- The part `k` is entered, and its first header is read if it has a message; afterwards the
consumer is as `P` says. -/
def Enters (crates : Crates) (name consumerName : List Char) (written : ℕ → List Message)
    (published : ℕ → ℕ) (d : Disk) (k : ℕ) (c : Consumer) (P : Consumer → Prop) : Prop :=
  (0 < published k ∧ ∃ c' m,
    c.popHeader crates name consumerName d = (true, d.entered name consumerName k, c') ∧
      P c' ∧ HeaderTaken crates written k 0 m c') ∨
    (published k = 0 ∧ ∃ c',
      c.popHeader crates name consumerName d = (false, d.entered name consumerName k, c') ∧
        P c' ∧ c'.queue.offset = c'.posRecord)

theorem Enters.mono {crates : Crates} {name consumerName : List Char}
    {written : ℕ → List Message} {published : ℕ → ℕ} {d : Disk} {k : ℕ} {c : Consumer}
    {P Q : Consumer → Prop} (h : Enters crates name consumerName written published d k c P)
    (hPQ : ∀ c, P c → Q c) :
    Enters crates name consumerName written published d k c Q := by
  rcases h with ⟨hpos, c', m, hpop, hP, htaken⟩ | ⟨hzero, c', hpop, hP, hoffset⟩
  · exact .inl ⟨hpos, c', m, hpop, hPQ c' hP, htaken⟩
  · exact .inr ⟨hzero, c', hpop, hPQ c' hP, hoffset⟩

/-- The queue with the line of a part. -/
def Queue.informed (q : Queue) (written : ℕ → List Message) (published : ℕ → ℕ) (k : ℕ) : Queue :=
  { q with
    rightEdge := lengthOf ((written k).take (published k))
    countPushed := published k }

theorem At.informed {written : ℕ → List Message} {published : ℕ → ℕ} {k count : ℕ} {c : Consumer}
    (hat : At written published k count c) :
    At written published k count { c with queue := c.queue.informed written published k } :=
  { hat with known_le := Nat.le_refl _, rightEdge := rfl }

theorem Opened.at {written : ℕ → List Message} {published : ℕ → ℕ} {k pos count : ℕ} {c : Consumer}
    (hopen : Opened written published k pos count c)
    (hpos : pos = lengthOf ((written k).take count)) (hcount : count ≤ published k) :
    At written published k count c where
  isReady := hopen.isReady
  queueReady := hopen.queueReady
  id := hopen.id
  queueId := hopen.queueId
  ffQueue := hopen.ffQueue
  ffInfoPush := hopen.ffInfoPush
  countPopped := hopen.countPopped
  posRecord := hopen.posRecord.trans hpos
  count_le := hcount
  known_le := hopen.countPushed.le
  rightEdge := by rw [hopen.rightEdge, hopen.countPushed]

namespace Stored

variable {crates : Crates} {name consumerName : List Char} {d : Disk}
  {written : ℕ → List Message} {published : ℕ → ℕ} {newest : ℕ} {q : Queue} {c : Consumer}
  {k count : ℕ} {m : Message}

/-! ## The queue of a consumer -/

theorem getInfoOfPart_open (h : Stored crates name d written published newest)
    (hfile : q.ffInfoPush = .part k) :
    q.getInfoOfPart crates name d q.id false = (.ok (), q.informed written published k) := by
  have htext : readPushInfo crates name (d.textOf q.ffInfoPush) =
      some (lengthOf ((written k).take (published k)), published k) := by
    rw [hfile]
    exact h.pushInfo k
  rw [Queue.getInfoOfPart, if_neg (by simp)]
  dsimp only
  rw [htext]
  rfl

theorem getInfoOfPart_linked (h : Stored crates name d written published newest)
    (hid : q.id ≠ k) (hlinked : d.linked k = true) :
    q.getInfoOfPart crates name d k false =
      (.ok (), { q with ffInfoPush := .part k }.informed written published k) := by
  rw [Queue.getInfoOfPart, if_pos (.inl hid), Queue.openInfoPush, if_pos hlinked]
  dsimp only
  rw [Disk.textOf, h.pushInfo]
  rfl

theorem getInfoOfPart_unlinked (crates : Crates) (name : List Char) (hid : q.id ≠ k)
    (hlinked : d.linked k = false) :
    q.getInfoOfPart crates name d k false = (.error .failOpen, { q with isReady := false }) := by
  rw [Queue.getInfoOfPart, if_pos (.inl hid), Queue.openInfoPush, if_neg (by simp [hlinked])]

theorem openPart_linked (h : Stored crates name d written published newest)
    (hready : q.isReady = true) (hlinked : d.linked k = true) :
    q.openPart crates name d k =
      (.ok (), { q with
        ffInfoPush := .part k, ffQueue := .part k, offset := 0, id := k }.informed
          written published k) := by
  rw [Queue.openPart, if_neg (by simp [hready]), Queue.openInfoPush, if_pos hlinked]
  exact h.getInfoOfPart_open (q := { q with
    ffInfoPush := .part k, ffQueue := .part k, offset := 0, id := k }) rfl

theorem openPart_unlinked (crates : Crates) (name : List Char) (hready : q.isReady = true)
    (hlinked : d.linked k = false) :
    q.openPart crates name d k = (.error .failOpen, { q with isReady := false }) := by
  rw [Queue.openPart, if_neg (by simp [hready]), Queue.openInfoPush, if_neg (by simp [hlinked])]

theorem getInfoQueue_eq (h : Stored crates name d written published newest) (q : Queue) :
    q.getInfoQueue crates name d =
      (true, { q with id := newest, rightEdge := 0, countPushed := 0 }) := by
  rw [Queue.getInfoQueue, h.queueInfo]

/-! ## Headers and bodies -/

/-- The header that is read for a message. -/
def readHeaderOf (crates : Crates) (start count : ℕ) (m : Message) : Header :=
  createFromBuf (headerOf crates.crc32 start count m)

theorem lengthOf_take_lt (h : Stored crates name d written published newest) (k n : ℕ) :
    lengthOf ((written k).take n) < 2 ^ 64 :=
  (lengthOf_take_le _ _).trans_lt (h.length_lt k)

theorem readHeaderOf_eq (h : Stored crates name d written published newest)
    (hm : (written k)[count]? = some m) :
    (readHeaderOf crates (lengthOf ((written k).take count)) (count + 1) m).startPos =
        lengthOf ((written k).take count) ∧
      (readHeaderOf crates (lengthOf ((written k).take count)) (count + 1) m).countPushed =
        count + 1 ∧
      (readHeaderOf crates (lengthOf ((written k).take count)) (count + 1) m).msgLength =
        m.body.length := by
  obtain ⟨hlt, hget⟩ := List.getElem?_eq_some_iff.mp hm
  have hcount := h.count_lt k
  have hbody := h.body_lt k m (hget ▸ List.getElem_mem hlt)
  have hstart := h.lengthOf_take_lt k count
  rw [readHeaderOf, headerOf, createFromBuf_setCrc]
  refine ⟨Nat.mod_eq_of_lt ?_, Nat.mod_eq_of_lt ?_, Nat.mod_eq_of_lt ?_⟩
  · show lengthOf ((written k).take count) < 256 ^ 8
    omega
  · show count + 1 < 256 ^ 4
    omega
  · show m.body.length < 256 ^ 4
    omega

theorem read_record (h : Stored crates name d written published newest)
    (hm : (written k)[count]? = some m) :
    ∃ rest, ((d.bytesOf (.part k)).drop (lengthOf ((written k).take count))) =
      headerOf crates.crc32 (lengthOf ((written k).take count)) (count + 1) m ++
        (m.body ++ rest) := by
  obtain ⟨rest, hdrop⟩ := drop_recordsOf crates.crc32 hm
  obtain ⟨behind, hdata, -⟩ := h.data k
  refine ⟨rest ++ behind, ?_⟩
  rw [Disk.bytesOf, hdata, List.drop_append_of_le_length, hdrop, recordOf, List.append_assoc,
    List.append_assoc]
  rw [length_recordsOf]
  exact lengthOf_take_le _ _

theorem take_header (h : Stored crates name d written published newest)
    (hfile : c.queue.ffQueue = .part k)
    (hoffset : c.queue.offset = lengthOf ((written k).take count))
    (hm : (written k)[count]? = some m) :
    ((d.bytesOf c.queue.ffQueue).drop c.queue.offset).take headerSize =
      headerOf crates.crc32 (lengthOf ((written k).take count)) (count + 1) m := by
  obtain ⟨rest, hread⟩ := h.read_record hm
  rw [hfile, hoffset, hread, List.take_append_of_le_length (by simp)]
  exact List.take_of_length_le (by simp)

/-- **The next header** is read when the queue knows of its message. -/
theorem takeHeader_next (h : Stored crates name d written published newest)
    (hfile : c.queue.ffQueue = .part k)
    (hoffset : c.queue.offset = lengthOf ((written k).take count))
    (hm : (written k)[count]? = some m) (hknown : count < c.queue.countPushed)
    (hedge : lengthOf ((written k).take count) < c.queue.rightEdge) :
    c.takeHeader d =
      (true, { c.seek (lengthOf ((written k).take count) + headerSize) with
        hash := (pushedHeader (lengthOf ((written k).take count)) (count + 1) m).toBuf
        header := readHeaderOf crates (lengthOf ((written k).take count)) (count + 1) m }) := by
  obtain ⟨hstart, hcount, -⟩ := h.readHeaderOf_eq hm
  have hclear : clearCrc (headerOf crates.crc32 (lengthOf ((written k).take count)) (count + 1) m) =
      (pushedHeader (lengthOf ((written k).take count)) (count + 1) m).toBuf := by
    rw [headerOf, clearCrc_setCrc]
  unfold Consumer.takeHeader
  dsimp only
  rw [h.take_header hfile hoffset hm, hclear, length_headerOf, if_neg (Nat.lt_irrefl _), hoffset]
  rw [readHeaderOf] at hstart hcount
  rw [if_neg, if_neg]
  · rfl
  · show ¬ c.queue.rightEdge ≤ _
    omega
  · show ¬ c.queue.countPushed < _
    omega

/-- **No header** is read behind the messages that the queue knows of. -/
theorem takeHeader_end (h : Stored crates name d written published newest)
    (hfile : c.queue.ffQueue = .part k)
    (hoffset : c.queue.offset = lengthOf ((written k).take count))
    (hcount : count ≤ (written k).length) (hknown : c.queue.countPushed ≤ count) :
    ∃ offset, c.takeHeader d = (false, c.seek offset) := by
  unfold Consumer.takeHeader
  dsimp only
  rcases Nat.lt_or_eq_of_le hcount with hlt | heq
  · obtain ⟨m, hm⟩ : ∃ m, (written k)[count]? = some m := ⟨_, List.getElem?_eq_getElem hlt⟩
    obtain ⟨-, hnumber, -⟩ := h.readHeaderOf_eq hm
    rw [h.take_header hfile hoffset hm, length_headerOf, if_neg (Nat.lt_irrefl _), if_pos]
    · exact ⟨_, rfl⟩
    · rw [readHeaderOf] at hnumber
      show c.queue.countPushed < _
      omega
  · obtain ⟨rest, hdata, hunread⟩ := h.data k
    have hbuf : (d.bytesOf c.queue.ffQueue).drop c.queue.offset = rest := by
      rw [hfile, hoffset, Disk.bytesOf, hdata, heq, List.take_length,
        ← length_recordsOf crates.crc32, List.drop_left]
    rw [hbuf]
    rcases Nat.lt_or_ge rest.length headerSize with hshort | hlong
    · rw [List.take_of_length_le hshort.le, if_pos hshort]
      exact ⟨_, rfl⟩
    · rw [List.length_take_of_le hlong, if_neg (Nat.lt_irrefl _), if_pos]
      · exact ⟨_, rfl⟩
      · have hnumber := hunread hlong
        show c.queue.countPushed < _
        omega

/-- **The next body** is read behind its header. -/
theorem popBody_next (h : Stored crates name d written published newest)
    (hready : c.isReady = true) (hfile : c.queue.ffQueue = .part k)
    (hpos : c.posRecord = lengthOf ((written k).take count))
    (htaken : HeaderTaken crates written k count m c) :
    c.popBody crates d c.header.msgLength =
      (.ok m.body, { c.seek (lengthOf ((written k).take (count + 1))) with
        posRecord := lengthOf ((written k).take (count + 1))
        hash := c.hash ++ m.body }) := by
  obtain ⟨hm, hoffset, hhash, hheader⟩ := htaken
  obtain ⟨rest, hread⟩ := h.read_record hm
  have hlength : c.header.msgLength = m.body.length := by
    rw [hheader]
    exact (h.readHeaderOf_eq hm).2.2
  have hmsg : ((d.bytesOf c.queue.ffQueue).drop c.queue.offset).take m.body.length = m.body := by
    rw [hfile, hoffset, ← List.drop_drop, hread, List.drop_append_of_le_length (by simp),
      List.drop_of_length_le (by simp), List.nil_append,
      List.take_append_of_le_length (Nat.le_refl _), List.take_length]
  have hnext := lengthOf_take_succ hm
  have hlt := h.lengthOf_take_lt k (count + 1)
  have hposition : addU64 (addU64 c.posRecord headerSize) m.body.length =
      lengthOf ((written k).take (count + 1)) := by
    rw [addU64, addU64, hpos, Nat.mod_add_mod, hnext, Nat.add_assoc, Nat.mod_eq_of_lt (by omega)]
  have hcrc : crates.crc32 (c.hash ++ m.body) = c.header.crc := by
    rw [hhash, hheader, headerOf, createFromBuf_setCrc]
  have hplace : lengthOf ((written k).take count) + headerSize + m.body.length =
      lengthOf ((written k).take (count + 1)) := by omega
  unfold Consumer.popBody
  rw [if_neg (by simp [hready]), hlength]
  dsimp only
  rw [hmsg, if_neg (by simp), hoffset, hplace]
  rw [if_neg (fun hne => hne hcrc)]
  show (Except.ok m.body, { c.seek (lengthOf ((written k).take (count + 1))) with
    posRecord := addU64 (addU64 c.posRecord headerSize) m.body.length
    hash := c.hash ++ m.body }) = _
  rw [hposition]

theorem next_of_ready (name consumerName : List Char) (d : Disk) (hready : c.isReady = true) :
    c.next name consumerName d =
      (true, Consumer.commit name consumerName { c with countPopped := addU32 c.countPopped 1 } d,
        { c with countPopped := addU32 c.countPopped 1 }) := by
  rw [Consumer.next, if_neg (by simp [hready])]

/-! ## The steps of `readHeader` -/

theorem refresh_known (crates : Crates) (name : List Char) (d : Disk)
    (hknown : c.countPopped < c.queue.countPushed) : c.refresh crates name d = (true, c) := by
  rw [Consumer.refresh, if_neg (Nat.not_le.mpr hknown)]

theorem refresh_end (h : Stored crates name d written published newest)
    (hat : At written published k count c) (hknown : c.queue.countPushed ≤ c.countPopped) :
    c.refresh crates name d = (true, { c with queue := c.queue.informed written published k }) := by
  have hinfo := h.getInfoOfPart_open hat.ffInfoPush
  rw [hat.queueId, ← hat.id] at hinfo
  rw [Consumer.refresh, if_pos hknown, hinfo]
  dsimp only
  rw [hat.id]

theorem lookAhead_eq (h : Stored crates name d written published newest)
    (hat : At written published k count c) :
    c.lookAhead crates name d =
      { c with queue := { c.queue with id := newest, rightEdge := 0, countPushed := 0 } } := by
  rw [Consumer.lookAhead, if_pos (hat.queueId.trans hat.id.symm), h.getInfoQueue_eq]

theorem findPart_linked (h : Stored crates name d written published newest)
    (hready : c.queue.isReady = true) (hid : c.id = k) (hfile : c.queue.ffInfoPush = .part k)
    (hlinked : d.linked (k + 1) = true) (left : ℕ) :
    ∃ q, Consumer.findPart crates name d (left + 1) c = (true, { c with queue := q, id := k + 1 }) ∧
      q.isReady = true := by
  rw [Consumer.findPart, hid]
  by_cases hqueue : c.queue.id = k + 1
  · have hinfo := h.getInfoOfPart_open hfile
    rw [hqueue] at hinfo
    rw [hinfo]
    exact ⟨_, rfl, hready⟩
  · rw [h.getInfoOfPart_linked hqueue hlinked]
    exact ⟨_, rfl, hready⟩

theorem findPart_unlinked (crates : Crates) (name : List Char) (hid : c.id = k)
    (hqueue : c.queue.id ≠ k + 1) (hlinked : d.linked (k + 1) = false) (left : ℕ) :
    Consumer.findPart crates name d (left + 1) c =
      (false, { c with queue := { c.queue with isReady := false }, id := k + 1 }) := by
  rw [Consumer.findPart, hid, getInfoOfPart_unlinked crates name hqueue hlinked]

theorem enterPart_linked (h : Stored crates name d written published newest)
    (consumerName : List Char) (hconsumer : c.isReady = true) (hready : c.queue.isReady = true)
    (hid : c.id = k)
    (hlinked : d.linked k = true) :
    ∃ c', c.enterPart crates name consumerName d = (d.entered name consumerName k, c') ∧
      At written published k 0 c' ∧ c'.queue.offset = 0 ∧
      c'.queue.countPushed = published k := by
  have hstored : Stored crates name (d.entered name consumerName k) written published newest :=
    { h with }
  have hopen := hstored.openPart_linked hready (k := k) hlinked
  have henter : c.enterPart crates name consumerName d = (d.entered name consumerName k,
      { c with
        countPopped := 0
        posRecord := 0
        queue := (c.queue.openPart crates name (d.entered name consumerName k) k).2 }) := by
    subst hid
    unfold Consumer.enterPart
    dsimp only
    rw [Consumer.openInfoPop, if_neg (by simp [hready])]
    rfl
  rw [hopen] at henter
  refine ⟨_, henter, ?_, rfl, rfl⟩
  exact {
    isReady := hconsumer
    queueReady := hready
    id := hid
    queueId := rfl
    ffQueue := rfl
    ffInfoPush := rfl
    countPopped := rfl
    posRecord := rfl
    count_le := Nat.zero_le _
    known_le := Nat.le_refl _
    rightEdge := rfl }

/-! ## `pop_header` -/

theorem popHeader_of_taken {c₁ c₂ : Consumer} {d₁ : Disk}
    (hprepare : c.prepare crates name consumerName d = (true, d₁, c₁))
    (htake : c₁.takeHeader d₁ = (true, c₂)) :
    c.popHeader crates name consumerName d = (true, d₁, c₂) := by
  rw [Consumer.popHeader, Consumer.readHeader, hprepare]
  dsimp only
  rw [htake]

theorem popHeader_of_not_taken {c₁ c₂ : Consumer} {d₁ : Disk}
    (hprepare : c.prepare crates name consumerName d = (true, d₁, c₁))
    (htake : c₁.takeHeader d₁ = (false, c₂)) :
    c.popHeader crates name consumerName d = (false, d₁, c₂.seek c₂.posRecord) := by
  rw [Consumer.popHeader, Consumer.readHeader, hprepare]
  dsimp only
  rw [htake]

theorem popHeader_of_not_prepared {c₁ : Consumer} {d₁ : Disk}
    (hprepare : c.prepare crates name consumerName d = (false, d₁, c₁)) :
    c.popHeader crates name consumerName d = (false, d₁, c₁.seek c₁.posRecord) := by
  rw [Consumer.popHeader, Consumer.readHeader, hprepare]

theorem takeHeader_stands (h : Stored crates name d written published newest)
    (hat : Stands written published k count c) (hoffset : c.queue.offset = c.posRecord)
    (hknown : count < c.queue.countPushed) :
    ∃ c' m, c.takeHeader d = (true, c') ∧ Stands written published k count c' ∧
      c'.queue.id = c.queue.id ∧ HeaderTaken crates written k count m c' := by
  have hlt : count < (written k).length :=
    (hknown.trans_le hat.known_le).trans_le (h.published_le k)
  obtain ⟨m, hm⟩ : ∃ m, (written k)[count]? = some m := ⟨_, List.getElem?_eq_getElem hlt⟩
  have hedge : lengthOf ((written k).take count) < c.queue.rightEdge := by
    have hsplit : (written k).take c.queue.countPushed =
        (written k).take (count + 1) ++
          ((written k).take c.queue.countPushed).drop (count + 1) := by
      have htake : ((written k).take c.queue.countPushed).take (count + 1) =
          (written k).take (count + 1) := by
        rw [List.take_take, Nat.min_eq_left hknown]
      rw [← htake, List.take_append_drop]
    rw [hat.rightEdge, hsplit, lengthOf_append, lengthOf_take_succ hm]
    have hpos : 0 < headerSize := by decide
    omega
  have htake := h.takeHeader_next hat.ffQueue (hoffset.trans hat.posRecord) hm hknown hedge
  exact ⟨_, m, htake, { hat with }, rfl, ⟨hm, rfl, rfl, rfl⟩⟩

theorem popHeader_of_refresh (h : Stored crates name d written published newest)
    (consumerName : List Char) (hat : Stands written published k count c)
    (hrefresh : c.queue.countPushed ≤ c.countPopped → c.refresh crates name d =
      (true, { c with queue := c.queue.informed written published k }))
    (hoffset : c.queue.offset = c.posRecord) (hlt : count < published k) :
    ∃ c' m, c.popHeader crates name consumerName d = (true, d, c') ∧
      Stands written published k count c' ∧ c'.queue.id = c.queue.id ∧
      HeaderTaken crates written k count m c' := by
  rcases Nat.lt_or_ge count c.queue.countPushed with hknown | hend
  · have hprepare : c.prepare crates name consumerName d = (true, d, c) := by
      rw [← hat.countPopped] at hknown
      rw [Consumer.prepare, refresh_known crates name d hknown]
      exact if_neg (Nat.not_le.mpr hknown)
    obtain ⟨c', m, htake, hat', hid, htaken⟩ := h.takeHeader_stands hat hoffset hknown
    exact ⟨c', m, popHeader_of_taken hprepare htake, hat', hid, htaken⟩
  · have hprepare : c.prepare crates name consumerName d =
        (true, d, { c with queue := c.queue.informed written published k }) := by
      rw [← hat.countPopped] at hend hlt
      rw [Consumer.prepare, hrefresh hend]
      exact if_neg (Nat.not_le.mpr hlt)
    have hinformed : Stands written published k count
        { c with queue := c.queue.informed written published k } :=
      { hat with known_le := Nat.le_refl _, rightEdge := rfl }
    obtain ⟨c', m, htake, hat', hid, htaken⟩ := h.takeHeader_stands hinformed hoffset hlt
    exact ⟨c', m, popHeader_of_taken hprepare htake, hat', hid, htaken⟩

/-- **The next message of the part**: its header is read. -/
theorem popHeader_next (h : Stored crates name d written published newest) (consumerName : List Char)
    (hat : At written published k count c) (hoffset : c.queue.offset = c.posRecord)
    (hlt : count < published k) :
    ∃ c' m, c.popHeader crates name consumerName d = (true, d, c') ∧
      At written published k count c' ∧ HeaderTaken crates written k count m c' := by
  obtain ⟨c', m, hpop, hstands, hid, htaken⟩ := h.popHeader_of_refresh consumerName hat.toStands
    (h.refresh_end hat) hoffset hlt
  exact ⟨c', m, hpop, ⟨hstands, hid.trans hat.queueId⟩, htaken⟩

theorem prepare_of_end (h : Stored crates name d written published newest)
    (consumerName : List Char) (hat : At written published k count c) (hend : count = published k) :
    c.prepare crates name consumerName d =
      if k < newest then
        match Consumer.findPart crates name d (newest - k) { c with
            queue := { c.queue with id := newest, rightEdge := 0, countPushed := 0 } } with
        | (false, c) => (false, d, c)
        | (true, c) => (true, c.enterPart crates name consumerName d)
      else (true, d, { c with
        queue := { c.queue with id := newest, rightEdge := 0, countPushed := 0 } }) := by
  have hknown : c.queue.countPushed ≤ c.countPopped := by
    rw [hat.countPopped, hend]
    exact hat.known_le
  have hpopped : published k ≤ c.countPopped := by
    rw [hat.countPopped, hend]
  rw [Consumer.prepare, h.refresh_end hat hknown]
  dsimp only
  rw [if_pos (show (c.queue.informed written published k).countPushed ≤ c.countPopped from hpopped),
    Consumer.advance, h.lookAhead_eq hat.informed]
  dsimp only
  rw [hat.id]
  rfl

/-- **The end of the newest part**: there is no header, and the consumer stays where it is. -/
theorem popHeader_end (h : Stored crates name d written published k) (consumerName : List Char)
    (hat : At written published k count c) (hoffset : c.queue.offset = c.posRecord)
    (hend : count = published k) :
    ∃ c', c.popHeader crates name consumerName d = (false, d, c') ∧
      At written published k count c' ∧ c'.queue.offset = c'.posRecord := by
  have hprepare := h.prepare_of_end consumerName hat hend
  rw [if_neg (Nat.lt_irrefl k)] at hprepare
  obtain ⟨offset, htake⟩ := h.takeHeader_end (c := { c with
    queue := { c.queue with id := k, rightEdge := 0, countPushed := 0 } }) hat.ffQueue
    (hoffset.trans hat.posRecord) (hat.count_le.trans (h.published_le k)) (Nat.zero_le _)
  refine ⟨_, popHeader_of_not_taken hprepare htake, ?_, rfl⟩
  exact { hat with queueId := rfl, known_le := Nat.zero_le _, rightEdge := rfl }

theorem popHeader_of_entered (h : Stored crates name d written published newest)
    {c₁ : Consumer} (hprepare : c.prepare crates name consumerName d =
      (true, d.entered name consumerName k, c₁))
    (hat₁ : At written published k 0 c₁) (hzero : c₁.queue.offset = 0)
    (hcount : c₁.queue.countPushed = published k) :
    Enters crates name consumerName written published d k c (At written published k 0) := by
  have hstored : Stored crates name (d.entered name consumerName k) written published newest :=
    { h with }
  have hoffset : c₁.queue.offset = c₁.posRecord := by
    rw [hzero, hat₁.posRecord]
    rfl
  rcases Nat.eq_zero_or_pos (published k) with hempty | hpos
  · obtain ⟨offset, htake⟩ := hstored.takeHeader_end hat₁.ffQueue (hoffset.trans hat₁.posRecord)
      (Nat.zero_le _) (by rw [hcount, hempty])
    exact .inr ⟨hempty, _, popHeader_of_not_taken hprepare htake, { hat₁ with }, rfl⟩
  · obtain ⟨c', m, htake, hstands, hid, htaken⟩ := hstored.takeHeader_stands hat₁.toStands hoffset
      (by rw [hcount]; exact hpos)
    exact .inl ⟨hpos, c', m, popHeader_of_taken hprepare htake, ⟨hstands, hid.trans hat₁.queueId⟩,
      htaken⟩

theorem popHeader_of_found (h : Stored crates name d written published newest)
    {c₀ : Consumer} {later : ℕ} (hprepare : c.prepare crates name consumerName d =
      match Consumer.findPart crates name d (later - k) c₀ with
      | (false, c) => (false, d, c)
      | (true, c) => (true, c.enterPart crates name consumerName d))
    (hready : c₀.isReady = true) (hqueue : c₀.queue.isReady = true) (hid : c₀.id = k)
    (hfile : c₀.queue.ffInfoPush = .part k) (hlater : k < later)
    (hlinked : d.linked (k + 1) = true) :
    Enters crates name consumerName written published d (k + 1) c
      (At written published (k + 1) 0) := by
  obtain ⟨left, hleft⟩ := Nat.exists_eq_add_of_lt hlater
  obtain ⟨q, hfind, hq⟩ := h.findPart_linked hqueue hid hfile hlinked left
  obtain ⟨c₁, henter, hat₁, hzero, hcount⟩ := h.enterPart_linked consumerName
    (c := { c₀ with queue := q, id := k + 1 }) hready hq rfl hlinked
  rw [show later - k = left + 1 by omega, hfind] at hprepare
  dsimp only at hprepare
  rw [henter] at hprepare
  exact h.popHeader_of_entered hprepare hat₁ hzero hcount

/-- **The end of an older part, and the next one exists**: it is entered. -/
theorem popHeader_enter (h : Stored crates name d written published newest) (consumerName : List Char)
    (hat : At written published k count c) (hend : count = published k) (hnewest : k < newest)
    (hlinked : d.linked (k + 1) = true) :
    Enters crates name consumerName written published d (k + 1) c
      (At written published (k + 1) 0) := by
  have hprepare := h.prepare_of_end consumerName hat hend
  rw [if_pos hnewest] at hprepare
  exact h.popHeader_of_found hprepare hat.isReady hat.queueReady hat.id hat.ffInfoPush hnewest
    hlinked

/-- **The end of an older part, and the next one does not exist**: the consumer is stuck. -/
theorem popHeader_stuck (h : Stored crates name d written published newest) (consumerName : List Char)
    (hat : At written published k count c) (hend : count = published k) (hnewest : k < newest)
    (hlinked : d.linked (k + 1) = false) (hne : newest ≠ k + 1) :
    ∃ c', c.popHeader crates name consumerName d = (false, d, c') ∧ Stuck d newest c' := by
  obtain ⟨left, hleft⟩ := Nat.exists_eq_add_of_lt hnewest
  have hfind := findPart_unlinked crates name (c := { c with
    queue := { c.queue with id := newest, rightEdge := 0, countPushed := 0 } }) hat.id hne hlinked
    left
  have hprepare := h.prepare_of_end consumerName hat hend
  rw [if_pos hnewest, show newest - k = left + 1 by omega, hfind] at hprepare
  refine ⟨_, popHeader_of_not_prepared hprepare, ?_⟩
  exact ⟨hlinked, hnewest, hne, Nat.zero_le _⟩

/-! ## `Consumer::new` -/

theorem newRead_eq (h : Stored crates name d written published newest)
    (hnewest : d.linked newest = true) :
    Queue.newRead crates name d =
      .ok { Queue.opened .read with
        ffInfoPush := .part newest
        id := newest
        rightEdge := lengthOf ((written newest).take (published newest))
        countPushed := published newest } := by
  have hexists : ∃ text, d.infoQueue = some text := by
    cases hinfo : d.infoQueue with
    | some text => exact ⟨text, rfl⟩
    | none =>
      have hread := h.queueInfo
      rw [hinfo] at hread
      exact absurd hread (by simp [readQueueInfo, firstLine])
  obtain ⟨text, htext⟩ := hexists
  rw [Queue.newRead, htext]
  dsimp only
  rw [h.getInfoQueue_eq]
  dsimp only
  rw [Queue.getInfoOfPart, if_pos (.inr rfl), Queue.openInfoPush, if_pos hnewest]
  dsimp only
  rw [Disk.textOf, h.pushInfo]

/-- **A new consumer** opens its saved part when it exists, and the newest part otherwise; the
saved position and count are used in both cases. -/
theorem new_opens (h : Stored crates name d written published newest) {pos id : ℕ}
    (hsaved : readPopInfo crates name consumerName d.infoPop = some (pos, count, id))
    (hnewest : d.linked newest = true) (hk : k = if d.linked id then id else newest) :
    ∃ c, Consumer.new crates name consumerName d = .ok c ∧
      Opened written published k pos count c := by
  rw [Consumer.new, h.newRead_eq hnewest]
  dsimp only
  rw [hsaved]
  dsimp only
  rw [Consumer.openSaved]
  dsimp only
  cases hlinked : d.linked id with
  | true =>
    rw [hlinked, if_pos rfl] at hk
    subst hk
    rw [h.openPart_linked rfl hlinked]
    exact ⟨_, rfl, ⟨rfl, rfl, rfl, rfl, rfl, rfl, rfl, rfl, rfl, rfl, rfl⟩⟩
  | false =>
    rw [hlinked, if_neg (by decide)] at hk
    subst hk
    rw [openPart_unlinked crates name rfl hlinked]
    dsimp only
    rw [h.openPart_linked rfl hnewest]
    exact ⟨_, rfl, ⟨rfl, rfl, rfl, rfl, rfl, rfl, rfl, rfl, rfl, rfl, rfl⟩⟩

end Stored

theorem Stuck.popHeader {d : Disk} {newest : ℕ} {c : Consumer} (h : Stuck d newest c)
    (crates : Crates) (name consumerName : List Char) :
    ∃ c', c.popHeader crates name consumerName d = (false, d, c') ∧ Stuck d newest c' := by
  have hprepare : c.prepare crates name consumerName d =
      (false, d, { c with queue := { c.queue with isReady := false } }) := by
    rw [Consumer.prepare, Consumer.refresh, if_pos h.known_le,
      Stored.getInfoOfPart_unlinked crates name h.queueId h.unlinked]
  exact ⟨_, Stored.popHeader_of_not_prepared hprepare, ⟨h.unlinked, h.id_le, h.queueId, h.known_le⟩⟩

end Veda.VQueue
