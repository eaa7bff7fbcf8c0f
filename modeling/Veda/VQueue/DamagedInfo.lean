import Veda.VQueue.Batches
import Veda.VQueue.Runs

set_option autoImplicit false

/-!
# A consumer of a queue with damaged info files

The info files of a queue may be unreadable, and parts may be missing. What a consumer knows is then
still true of the file of records that it reads: it is behind some messages of it, and the pushed
count that it knows is not below the popped one, unless it was zeroed. A consumer may turn to a part
that does not exist and go on with the file that it has.

## Main definitions

* `VQueue.Files` — the files, whose lines say the truth when they can be read.
* `VQueue.Steady` — what a consumer knows is true of the file that it reads.
* `VQueue.Sound` — what a consumer is, by its phase.

## Main results

* `VQueue.Steady.getInfoOfPart` — the line of the part is read.
* `VQueue.Steady.advance`, `VQueue.Steady.popHeader`, `VQueue.Sound.popBody` — the
  steps of a consumer keep what it knows.
* `VQueue.Files.new` — a new consumer.
-/

namespace Veda.VQueue

/-- A position and a count are those behind some of the messages. -/
structure Place (ms : List Message) (pos count : ℕ) : Prop where
  count_le : count ≤ ms.length
  pos_eq : pos = lengthOf (ms.take count)

/-! ## What a consumer knows -/

section Invariant

variable (crates : Crates) (name : List Char)

/-- The files of a queue: the records of the messages that were pushed, and info files that say the
truth when they can be read. -/
structure Files (d : Disk) (pushed : ℕ → List Message) (newest : ℕ) : Prop where
  queueInfo : ∀ id, readQueueInfo crates name (d.infoQueue.getD []) = some id → id = newest
  pushInfo : ∀ k line, readPushInfo crates name (d.parts k).infoPush = some line →
    line = (lengthOf (pushed k), (pushed k).length)
  data : ∀ k, (d.parts k).data = recordsOf crates.crc32 (pushed k)
  count_lt : ∀ k, (pushed k).length < 2 ^ 32
  length_lt : ∀ k, lengthOf (pushed k) < 2 ^ 64
  body_lt : ∀ k, ∀ m ∈ pushed k, m.body.length < 2 ^ 32
  newest_lt : newest < 2 ^ 32
  unopened : ∀ k, newest < k → d.linked k = false ∧ pushed k = [] ∧
    readPushInfo crates name (d.parts k).infoPush = some (0, 0)

/-- The consumer reads the part `j` and is behind some messages of it. It is at this part, or at one
that does not exist. -/
structure Follows (d : Disk) (pushed : ℕ → List Message) (j : ℕ) (c : Consumer) : Prop where
  ffQueue : c.queue.ffQueue = .part j
  ffInfoPush : c.queue.ffInfoPush = .part j
  place : Place (pushed j) c.posRecord c.countPopped
  here : c.id = j ∨ d.linked c.id = false

/-- **What a consumer knows** is true of the file that it reads: the pushed count is not below the
popped one, unless it was zeroed. A consumer that is not ready has popped nothing of its part. -/
structure Steady (d : Disk) (pushed : ℕ → List Message) (newest : ℕ) (c : Consumer) : Prop where
  id_le : c.id ≤ newest
  queueId_le : c.queue.id ≤ newest
  unready : c.isReady = false → c.countPopped = 0 ∧ c.posRecord = 0
  follows : c.isReady = true → ∃ j, Follows d pushed j c
  known : c.countPopped ≤ c.queue.countPushed ∨ c.queue.countPushed = 0

/-- What a consumer is, by its phase. -/
inductive Sound (d : Disk) (pushed : ℕ → List Message) (newest : ℕ) (c : Consumer) : Phase → Prop
  | idle : Steady d pushed newest c → (c.isReady = true → c.queue.offset = c.posRecord) →
      Sound d pushed newest c .idle
  | header : Steady d pushed newest c → (c.isReady = true → ∃ j m, c.queue.ffQueue = .part j ∧
      HeaderTaken crates pushed j c.countPopped m c ∧ c.countPopped < c.queue.countPushed) →
      Sound d pushed newest c .header
  | body {msg : List UInt8} : c.isReady = true →
      Steady d pushed newest { c with countPopped := c.countPopped + 1 } →
      c.queue.offset = c.posRecord → Sound d pushed newest c (.body msg)

end Invariant

/-! ## Records -/

section Records

variable {crates : Crates} {name consumerName : List Char} {d : Disk}
  {pushed : ℕ → List Message} {newest j : ℕ} {c : Consumer}

theorem Place.zero (ms : List Message) : Place ms 0 0 := ⟨Nat.zero_le _, rfl⟩

theorem Place.append {ms : List Message} {pos count : ℕ} (h : Place ms pos count)
    (ms' : List Message) : Place (ms ++ ms') pos count where
  count_le := by
    rw [List.length_append]
    exact h.count_le.trans (Nat.le_add_right _ _)
  pos_eq := by rw [List.take_append_of_le_length h.count_le, h.pos_eq]

theorem Files.stored (h : Files crates name d pushed newest) (hname : PlainName name) :
    ∃ d', Stored crates name d' pushed (fun _ => 0) newest ∧
      ∀ k, d'.bytesOf (.part k) = d.bytesOf (.part k) := by
  refine ⟨⟨some (writeAt [] 0 (withCrc crates.crc32 (queueText name newest) ++ ['\n'])),
    fun k => ⟨[], (d.parts k).data⟩, d.linked, d.infoPop⟩, ?_, fun _ => rfl⟩
  exact {
    queueInfo := readQueueInfo_written hname h.newest_lt _
    pushInfo := fun _ => rfl
    data := fun k => ⟨[], by rw [h.data k, List.append_nil], fun hlong => absurd hlong (by decide)⟩
    published_le := fun _ => Nat.zero_le _
    count_lt := h.count_lt
    length_lt := h.length_lt
    body_lt := h.body_lt
    newest_lt := h.newest_lt }

theorem takeHeader_congr {d' : Disk}
    (h : d'.bytesOf c.queue.ffQueue = d.bytesOf c.queue.ffQueue) :
    c.takeHeader d' = c.takeHeader d := by
  unfold Consumer.takeHeader
  rw [h]

theorem popBody_congr {d' : Disk} (h : d'.bytesOf c.queue.ffQueue = d.bytesOf c.queue.ffQueue)
    (size : ℕ) : c.popBody crates d' size = c.popBody crates d size := by
  unfold Consumer.popBody
  rw [h]

theorem takeHeader_keeps (c : Consumer) (d : Disk) :
    ∃ offset hash header, (c.takeHeader d).2 = { c.seek offset with hash, header } := by
  unfold Consumer.takeHeader
  dsimp only
  split_ifs
  · exact ⟨_, c.hash, c.header, rfl⟩
  · exact ⟨_, c.hash, c.header, rfl⟩
  · exact ⟨_, c.hash, c.header, rfl⟩
  · exact ⟨_, _, _, rfl⟩

theorem of_takeHeader_true (htake : (c.takeHeader d).1 = true) :
    ∃ buf, ((d.bytesOf c.queue.ffQueue).drop c.queue.offset).take headerSize = buf ∧
      headerSize ≤ buf.length ∧ (createFromBuf buf).countPushed ≤ c.queue.countPushed ∧
      (createFromBuf buf).startPos < c.queue.rightEdge := by
  refine ⟨_, rfl, ?_⟩
  unfold Consumer.takeHeader at htake
  dsimp only at htake
  split_ifs at htake with hshort hcount hedge
  exact ⟨Nat.le_of_not_lt hshort, Nat.le_of_not_lt hcount, Nat.lt_of_not_le hedge⟩

theorem Files.takeHeader_end (h : Files crates name d pushed newest)
    (hfile : c.queue.ffQueue = .part j) (hoffset : c.queue.offset = lengthOf (pushed j)) :
    (c.takeHeader d).1 = false := by
  rw [Bool.eq_false_iff]
  intro htake
  obtain ⟨buf, rfl, hlong, -⟩ := of_takeHeader_true htake
  have hnil : (d.bytesOf c.queue.ffQueue).drop c.queue.offset = [] := by
    rw [hfile, Disk.bytesOf, h.data j, hoffset, List.drop_eq_nil_iff, length_recordsOf]
  rw [hnil] at hlong
  exact absurd hlong (by decide)

/-- **A header that is read** at a place of the file is that of the next message, and the queue
knows of it. -/
theorem Files.takeHeader_true (h : Files crates name d pushed newest) (hname : PlainName name)
    (hfile : c.queue.ffQueue = .part j) (hplace : Place (pushed j) c.posRecord c.countPopped)
    (hoffset : c.queue.offset = c.posRecord) (htake : (c.takeHeader d).1 = true) :
    c.countPopped < c.queue.countPushed ∧
      ∃ m, HeaderTaken crates pushed j c.countPopped m (c.takeHeader d).2 := by
  have hplaced := hoffset.trans hplace.pos_eq
  have hlt : c.countPopped < (pushed j).length := by
    refine Nat.lt_of_le_of_ne hplace.count_le fun heq => ?_
    rw [heq, List.take_length] at hplaced
    rw [h.takeHeader_end hfile hplaced] at htake
    cases htake
  obtain ⟨m, hm⟩ : ∃ m, (pushed j)[c.countPopped]? = some m := ⟨_, List.getElem?_eq_getElem hlt⟩
  obtain ⟨d', hstored, hbytes⟩ := h.stored hname
  obtain ⟨rest, hread⟩ := hstored.read_record hm
  obtain ⟨hstart, hnumber, -⟩ := hstored.readHeaderOf_eq hm
  obtain ⟨buf, hbuf, -, hknown, hedge⟩ := of_takeHeader_true htake
  have hheader : buf = headerOf crates.crc32 (lengthOf ((pushed j).take c.countPopped))
      (c.countPopped + 1) m := by
    rw [← hbuf, hfile, hplaced, ← hbytes, hread, List.take_append_of_le_length (by simp)]
    exact List.take_of_length_le (by simp)
  rw [Stored.readHeaderOf, ← hheader] at hstart hnumber
  rw [hnumber] at hknown
  rw [hstart] at hedge
  refine ⟨hknown, m, ?_⟩
  have hcongr : c.takeHeader d' = c.takeHeader d := takeHeader_congr (by rw [hfile, hbytes])
  rw [← hcongr, hstored.takeHeader_next hfile hplaced hm hknown hedge]
  exact ⟨hm, rfl, rfl, rfl⟩

end Records

/-! ## Steps of a consumer -/

section Steps

variable {crates : Crates} {name consumerName : List Char} {d : Disk}
  {pushed : ℕ → List Message} {newest j k : ℕ} {c : Consumer} {q q' : Queue}

/-- What becomes of a queue when the line of a part is read. -/
inductive LineRead (crates : Crates) (name : List Char) (d : Disk) (q : Queue) (k : ℕ)
    (reopen : Prop) : Except ErrorQueue Unit × Queue → Prop
  | missing : reopen → d.linked k = false →
      LineRead crates name d q k reopen (.error .failOpen, { q with isReady := false })
  | reopened (e : Except ErrorQueue Unit) {rightEdge countPushed : ℕ} : reopen →
      d.linked k = true →
      (e = .ok () ∧ readPushInfo crates name (d.parts k).infoPush = some (rightEdge, countPushed) ∨
        e = .error .other ∧ readPushInfo crates name (d.parts k).infoPush = none ∧
          rightEdge = q.rightEdge ∧ countPushed = q.countPushed) →
      LineRead crates name d q k reopen (e, { q with
        ffInfoPush := .part k, rightEdge, countPushed })
  | same (e : Except ErrorQueue Unit) {rightEdge countPushed : ℕ} : q.id = k →
      (e = .ok () ∧ readPushInfo crates name (d.textOf q.ffInfoPush) =
          some (rightEdge, countPushed) ∨
        e = .error .other ∧ readPushInfo crates name (d.textOf q.ffInfoPush) = none ∧
          rightEdge = q.rightEdge ∧ countPushed = q.countPushed) →
      LineRead crates name d q k reopen (e, { q with rightEdge, countPushed })

/-- **The line of a part is read**: from the file of the part, when it exists, or from the file that
is open. -/
theorem lineRead (crates : Crates) (name : List Char) (d : Disk) (q : Queue) (k : ℕ)
    (reopen : Bool) :
    LineRead crates name d q k (q.id ≠ k ∨ reopen) (q.getInfoOfPart crates name d k reopen) := by
  unfold Queue.getInfoOfPart
  by_cases hreopen : q.id ≠ k ∨ reopen
  · rw [if_pos hreopen, Queue.openInfoPush]
    cases hlinked : d.linked k with
    | false => exact .missing hreopen hlinked
    | true =>
      rw [if_pos rfl]
      dsimp only [Disk.textOf]
      cases hline : readPushInfo crates name (d.parts k).infoPush with
      | none => exact .reopened _ hreopen hlinked (.inr ⟨rfl, hline, rfl, rfl⟩)
      | some line => exact .reopened _ hreopen hlinked (.inl ⟨rfl, hline⟩)
  · rw [if_neg hreopen]
    rw [not_or, not_not] at hreopen
    dsimp only
    cases hline : readPushInfo crates name (d.textOf q.ffInfoPush) with
    | none => exact .same _ hreopen.1 (.inr ⟨rfl, hline, rfl, rfl⟩)
    | some line => exact .same _ hreopen.1 (.inl ⟨rfl, hline⟩)

theorem Steady.queue (h : Steady d pushed newest c) (hid : q.id ≤ newest)
    (hfile : q.ffQueue = c.queue.ffQueue)
    (hinfo : c.isReady = true → q.ffInfoPush = c.queue.ffInfoPush)
    (hknown : c.countPopped ≤ q.countPushed ∨ q.countPushed = 0) :
    Steady d pushed newest { c with queue := q } where
  id_le := h.id_le
  queueId_le := hid
  unready := h.unready
  follows := by
    intro hready
    obtain ⟨j, hfollows⟩ := h.follows hready
    exact ⟨j, { hfollows with
      ffQueue := hfile.trans hfollows.ffQueue
      ffInfoPush := (hinfo hready).trans hfollows.ffInfoPush }⟩
  known := hknown

/-- The line of the part that a consumer reads has been read. -/
def Informed (crates : Crates) (name : List Char) (d : Disk) (pushed : ℕ → List Message)
    (c : Consumer) : Prop :=
  ∃ j, Follows d pushed j c ∧ c.queue.countPushed = (pushed j).length ∧
    readPushInfo crates name (d.parts j).infoPush ≠ none

/-- **The line of its part is read** by a consumer. When this succeeds, the pushed count is not
below the popped one.

**Proof sketch.** A line that is read from the part of the consumer is that of the file it reads,
as the part exists; and a line that is read from the open file is, too. -/
theorem Steady.getInfoOfPart (h : Steady d pushed newest c)
    (hfiles : Files crates name d pushed newest) {reopen : Bool} {e : Except ErrorQueue Unit}
    (hread : c.queue.getInfoOfPart crates name d c.id reopen = (e, q)) :
    Steady d pushed newest { c with queue := q } ∧ q.offset = c.queue.offset ∧
      (e = .ok () → c.countPopped ≤ q.countPushed ∧
        (c.isReady = true → Informed crates name d pushed { c with queue := q })) := by
  have hcases := lineRead crates name d c.queue c.id reopen
  rw [hread] at hcases
  have hzero : c.isReady = false → c.countPopped = 0 := fun hready => (h.unready hready).1
  cases hcases with
  | missing _ _ =>
    exact ⟨h.queue h.queueId_le rfl (fun _ => rfl) h.known, rfl, fun he => nomatch he⟩
  | @reopened _ rightEdge countPushed _ hlinked hline =>
    -- the part exists, so it is the one that is read
    have hsame : ∀ j, Follows d pushed j c → c.id = j := by
      intro j hfollows
      refine hfollows.here.resolve_right ?_
      rw [hlinked]
      decide
    have hinfo : c.isReady = true → Handle.part c.id = c.queue.ffInfoPush := by
      intro hready
      obtain ⟨j, hfollows⟩ := h.follows hready
      rw [hfollows.ffInfoPush, hsame j hfollows]
    rcases hline with ⟨rfl, hline⟩ | ⟨rfl, -, -, rfl⟩
    · have hcounts := hfiles.pushInfo _ _ hline
      have hle : c.countPopped ≤ countPushed := by
        cases hready : c.isReady with
        | false =>
          rw [hzero hready]
          exact Nat.zero_le _
        | true =>
          obtain ⟨j, hfollows⟩ := h.follows hready
          have hplace := hfollows.place.count_le
          rw [← hsame j hfollows] at hplace
          rw [(Prod.mk.inj hcounts).2]
          exact hplace
      refine ⟨h.queue h.queueId_le rfl hinfo (.inl hle), rfl, fun _ => ⟨hle, fun hready => ?_⟩⟩
      obtain ⟨j, hfollows⟩ := h.follows hready
      obtain rfl := hsame j hfollows
      exact ⟨c.id, { hfollows with ffInfoPush := rfl }, (Prod.mk.inj hcounts).2, by
        rw [hline]
        exact Option.some_ne_none _⟩
    · exact ⟨h.queue h.queueId_le rfl hinfo h.known, rfl, fun he => nomatch he⟩
  | @same _ rightEdge countPushed _ hline =>
    rcases hline with ⟨rfl, hline⟩ | ⟨rfl, -, -, rfl⟩
    · have hcounts : ∀ j, Follows d pushed j c → countPushed = (pushed j).length ∧
          readPushInfo crates name (d.parts j).infoPush ≠ none := by
        intro j hfollows
        rw [hfollows.ffInfoPush] at hline
        refine ⟨(Prod.mk.inj (hfiles.pushInfo j _ hline)).2, ?_⟩
        rw [show (d.parts j).infoPush = d.textOf (.part j) from rfl, hline]
        exact Option.some_ne_none _
      have hle : c.countPopped ≤ countPushed := by
        cases hready : c.isReady with
        | false =>
          rw [hzero hready]
          exact Nat.zero_le _
        | true =>
          obtain ⟨j, hfollows⟩ := h.follows hready
          rw [(hcounts j hfollows).1]
          exact hfollows.place.count_le
      refine ⟨h.queue h.queueId_le rfl (fun _ => rfl) (.inl hle), rfl,
        fun _ => ⟨hle, fun hready => ?_⟩⟩
      obtain ⟨j, hfollows⟩ := h.follows hready
      exact ⟨j, { hfollows with }, (hcounts j hfollows).1, (hcounts j hfollows).2⟩
    · exact ⟨h.queue h.queueId_le rfl (fun _ => rfl) h.known, rfl, fun he => nomatch he⟩

theorem Steady.getInfoQueue (h : Steady d pushed newest c)
    (hfiles : Files crates name d pushed newest) :
    Steady d pushed newest { c with queue := (c.queue.getInfoQueue crates name d).2 } ∧
      (c.queue.getInfoQueue crates name d).2.offset = c.queue.offset := by
  unfold Queue.getInfoQueue
  cases hread : readQueueInfo crates name (d.infoQueue.getD []) with
  | none => exact ⟨h, rfl⟩
  | some id =>
    exact ⟨h.queue (hfiles.queueInfo id hread).le rfl (fun _ => rfl) (.inr rfl), rfl⟩

theorem Steady.getBatchSize (h : Steady d pushed newest c)
    (hfiles : Files crates name d pushed newest) :
    Steady d pushed newest (c.getBatchSize crates name d).2 ∧
      (c.getBatchSize crates name d).2.queue.offset = c.queue.offset ∧
      (c.getBatchSize crates name d).2.posRecord = c.posRecord ∧
      (c.getBatchSize crates name d).2.isReady = c.isReady := by
  rw [Consumer.getBatchSize]
  split_ifs
  · exact ⟨(h.getInfoQueue hfiles).1, (h.getInfoQueue hfiles).2, rfl, rfl⟩
  · exact ⟨h, rfl, rfl, rfl⟩
  · exact ⟨h, rfl, rfl, rfl⟩

/-- A consumer in front of a header: it is at its position, or at the end of the file. -/
structure Prepared (d : Disk) (pushed : ℕ → List Message) (newest : ℕ) (c : Consumer) : Prop
    extends Steady d pushed newest c where
  offset : c.isReady = true → c.queue.offset = c.posRecord ∨
    ∃ j, c.queue.ffQueue = .part j ∧ c.queue.offset = lengthOf (pushed j)

/-- The position is saved as the beginning of a part. -/
def Disk.begun (d : Disk) (name consumerName : List Char) (old : List Char) (k : ℕ) : Disk :=
  { d with infoPop := writeAt old 0 (popLine name consumerName 0 0 k ++ ['\n']) }

/-- **A part is entered.** The consumer begins with it, or it is not ready any more, or the part
does not exist and it goes on with the file that it has.

**Proof sketch.** The part is opened when it exists; then its file is read from the beginning. When
it does not exist, the line that led to it was read from the file that is open. -/
theorem prepared_enterPart (crates : Crates) (name consumerName : List Char) (d : Disk)
    (pushed : ℕ → List Message) (hid : c.id ≤ newest)
    (hqueue : c.queue.id ≤ newest)
    (hfile : c.isReady = true → ∃ j, c.queue.ffQueue = .part j ∧
      c.queue.offset = lengthOf (pushed j) ∧
      (d.linked c.id = true ∨ c.queue.ffInfoPush = .part j)) :
    (∃ old, (c.enterPart crates name consumerName d).1 = d.begun name consumerName old c.id) ∧
      Prepared d pushed newest (c.enterPart crates name consumerName d).2 := by
  unfold Consumer.enterPart Consumer.openInfoPop
  dsimp only
  cases hready : c.queue.isReady with
  | false =>
    rw [Bool.not_false, if_pos rfl]
    dsimp only [Consumer.commit]
    rw [Queue.openPart, hready, Bool.not_false, if_pos rfl]
    refine ⟨⟨d.infoPop, rfl⟩, ?_⟩
    exact {
      id_le := hid
      queueId_le := hqueue
      unready := fun _ => ⟨rfl, rfl⟩
      follows := fun h => absurd h Bool.false_ne_true
      known := .inl (Nat.zero_le _)
      offset := fun h => absurd h Bool.false_ne_true }
  | true =>
    rw [Bool.not_true, if_neg Bool.false_ne_true]
    dsimp only [Consumer.commit]
    refine ⟨⟨[], rfl⟩, ?_⟩
    rw [Queue.openPart, hready, Bool.not_true, if_neg Bool.false_ne_true, Queue.openInfoPush]
    dsimp only
    cases hlinked : d.linked c.id with
    | false =>
      rw [if_neg Bool.false_ne_true]
      dsimp only
      exact {
        id_le := hid
        queueId_le := hqueue
        unready := fun _ => ⟨rfl, rfl⟩
        follows := by
          intro h
          obtain ⟨j, hj, -, hinfo⟩ := hfile h
          refine ⟨j, hj, hinfo.resolve_left ?_, Place.zero _, .inr hlinked⟩
          rw [hlinked]
          decide
        known := .inl (Nat.zero_le _)
        offset := by
          intro h
          obtain ⟨j, hj, hoffset, -⟩ := hfile h
          exact .inr ⟨j, hj, hoffset⟩ }
    | true =>
      rw [if_pos rfl]
      dsimp only
      have hline := lineRead crates name (d.begun name consumerName [] c.id)
        { c.queue with ffInfoPush := .part c.id, ffQueue := .part c.id, offset := 0, id := c.id }
        c.id false
      have hopened : ∀ q : Queue, q.ffInfoPush = .part c.id → q.ffQueue = .part c.id →
          q.offset = 0 → q.id = c.id → Prepared d pushed newest
            { c with countPopped := 0, posRecord := 0, queue := q } := by
        intro q hinfo hrecords hoffset hsame
        exact {
          id_le := hid
          queueId_le := hsame.trans_le hid
          unready := fun _ => ⟨rfl, rfl⟩
          follows := fun _ => ⟨c.id, hrecords, hinfo, Place.zero _, .inl rfl⟩
          known := .inl (Nat.zero_le _)
          offset := fun _ => .inl hoffset }
      unfold Disk.begun at hline
      generalize Queue.getInfoOfPart crates name _ _ c.id false = r at hline ⊢
      cases hline with
      | missing _ _ => exact hopened _ rfl rfl rfl rfl
      | reopened _ _ _ _ => exact hopened _ rfl rfl rfl rfl
      | same _ _ _ => exact hopened _ rfl rfl rfl rfl

/-- The disk behind the steps in front of a header. -/
def DiskKept (name consumerName : List Char) (newest : ℕ) (d d' : Disk) : Prop :=
  d' = d ∨ ∃ old k, k ≤ newest ∧ d' = d.begun name consumerName old k

theorem lookAhead_keeps (crates : Crates) (name : List Char) (d : Disk) (c : Consumer) :
    ∃ q, c.lookAhead crates name d = { c with queue := q } ∧ q.offset = c.queue.offset ∧
      q.ffInfoPush = c.queue.ffInfoPush ∧ q.ffQueue = c.queue.ffQueue := by
  unfold Consumer.lookAhead Queue.getInfoQueue
  split_ifs
  · split
    · exact ⟨_, rfl, rfl, rfl, rfl⟩
    · exact ⟨_, rfl, rfl, rfl, rfl⟩
  · exact ⟨_, rfl, rfl, rfl, rfl⟩

theorem Steady.lookAhead (h : Steady d pushed newest c)
    (hfiles : Files crates name d pushed newest) :
    Steady d pushed newest (c.lookAhead crates name d) := by
  unfold Consumer.lookAhead
  split_ifs
  · exact (h.getInfoQueue hfiles).1
  · exact h

/-- The consumer is at the end of the file that it reads, and the line of this file can be read. -/
def AtEnd (crates : Crates) (name : List Char) (d : Disk) (pushed : ℕ → List Message)
    (c : Consumer) : Prop :=
  c.queue.offset = c.posRecord ∧ ∃ j, c.queue.ffQueue = .part j ∧ c.queue.ffInfoPush = .part j ∧
    c.queue.offset = lengthOf (pushed j) ∧ readPushInfo crates name (d.parts j).infoPush ≠ none

theorem Steady.turned (h : Steady d pushed newest c) (hoffset : c.isReady = true →
    c.queue.offset = c.posRecord) (hle : c.id + 1 ≤ newest) (hid : q.id = c.queue.id)
    (hfile : q.ffQueue = c.queue.ffQueue) (hplace : q.offset = c.queue.offset)
    (hcount : q.countPushed = c.queue.countPushed)
    (hmissing : c.isReady = true → q.ffInfoPush = c.queue.ffInfoPush ∧
      d.linked (c.id + 1) = false) :
    Prepared d pushed newest { c with queue := q, id := c.id + 1 } where
  id_le := hle
  queueId_le := hid.trans_le h.queueId_le
  unready := h.unready
  follows := by
    intro hready
    obtain ⟨j, hfollows⟩ := h.follows hready
    obtain ⟨hinfo, hunlinked⟩ := hmissing hready
    exact ⟨j, hfile.trans hfollows.ffQueue, hinfo.trans hfollows.ffInfoPush, hfollows.place,
      .inr hunlinked⟩
  known := by
    show c.countPopped ≤ q.countPushed ∨ q.countPushed = 0
    rw [hcount]
    exact h.known
  offset := fun hready => .inl (hplace.trans (hoffset hready))

/-- **The next part is looked for** at the end of a part.

**Proof sketch.** The search stops at the first id. When the line of the next part is read, the part
is entered; otherwise the part does not exist, since its line could be read if it did. -/
theorem Steady.advance (h : Steady d pushed newest c) (hfiles : Files crates name d pushed newest)
    (consumerName : List Char) (hend : c.isReady = true → AtEnd crates name d pushed c)
    (hnext : d.linked (c.id + 1) = true →
      readPushInfo crates name (d.parts (c.id + 1)).infoPush ≠ none) :
    DiskKept name consumerName newest d (c.advance crates name consumerName d).2.1 ∧
      Prepared d pushed newest (c.advance crates name consumerName d).2.2 := by
  obtain ⟨q₁, hlook, hoffset, hinfo, hrecords⟩ := lookAhead_keeps crates name d c
  have hsteady := h.lookAhead hfiles
  rw [hlook] at hsteady
  have hplace : c.isReady = true → q₁.offset = c.posRecord := fun hr =>
    hoffset.trans (hend hr).1
  unfold Consumer.advance
  rw [hlook]
  dsimp only
  split_ifs with hlater
  swap
  · exact ⟨.inl rfl, hsteady, fun hr => .inl (hplace hr)⟩
  obtain ⟨left, hleft⟩ : ∃ left, q₁.id - c.id = left + 1 :=
    ⟨_, (Nat.succ_pred (by omega)).symm⟩
  have hle : c.id + 1 ≤ newest := hlater.trans_le hsteady.queueId_le
  have hline := lineRead crates name d q₁ (c.id + 1) false
  -- the part is entered
  have henter : ∀ q : Queue, q.id = q₁.id → q.ffQueue = q₁.ffQueue → q.offset = q₁.offset →
      (c.isReady = true → d.linked (c.id + 1) = true ∨ q.ffInfoPush = q₁.ffInfoPush) →
      DiskKept name consumerName newest d
          (Consumer.enterPart crates name consumerName { c with queue := q, id := c.id + 1 } d).1 ∧
        Prepared d pushed newest (Consumer.enterPart crates name consumerName
          { c with queue := q, id := c.id + 1 } d).2 := by
    intro q hqid hqfile hqoffset hthere
    obtain ⟨⟨old, hdisk⟩, hprepared⟩ := prepared_enterPart crates name consumerName d pushed
      (c := { c with queue := q, id := c.id + 1 }) hle (hqid.trans_le hsteady.queueId_le) (by
        intro hr
        obtain ⟨-, j, hfile, hinfoj, hoffsetEnd, -⟩ := hend hr
        exact ⟨j, (hqfile.trans hrecords).trans hfile, (hqoffset.trans hoffset).trans hoffsetEnd,
          (hthere hr).imp id fun heq => (heq.trans hinfo).trans hinfoj⟩)
    exact ⟨.inr ⟨old, c.id + 1, hle, hdisk⟩, hprepared⟩
  rw [hleft, Consumer.findPart]
  dsimp only
  generalize q₁.getInfoOfPart crates name d (c.id + 1) false = r at hline ⊢
  cases hline with
  | missing _ hunlinked =>
    exact ⟨.inl rfl, hsteady.turned hplace hle rfl rfl rfl rfl fun _ => ⟨rfl, hunlinked⟩⟩
  | reopened _ _ hlinked hread =>
    rcases hread with ⟨rfl, -⟩ | ⟨-, hnone, -⟩
    · exact henter _ rfl rfl rfl fun _ => .inl hlinked
    · exact absurd hnone (hnext hlinked)
  | same _ _ hread =>
    rcases hread with ⟨rfl, -⟩ | ⟨rfl, hnone, -, rfl⟩
    · exact henter _ rfl rfl rfl fun _ => .inr rfl
    · refine ⟨.inl rfl, hsteady.turned hplace hle rfl rfl rfl rfl fun hr => ?_⟩
      obtain ⟨-, j, -, hinfoj, -, hreadable⟩ := hend hr
      rw [hinfo, hinfoj] at hnone
      exact absurd hnone hreadable

/-- **The steps in front of a header.** -/
theorem Steady.prepare (h : Steady d pushed newest c) (hfiles : Files crates name d pushed newest)
    (consumerName : List Char) (hoffset : c.isReady = true → c.queue.offset = c.posRecord)
    (hnext : d.linked (c.id + 1) = true →
      readPushInfo crates name (d.parts (c.id + 1)).infoPush ≠ none) :
    DiskKept name consumerName newest d (c.prepare crates name consumerName d).2.1 ∧
      Prepared d pushed newest (c.prepare crates name consumerName d).2.2 := by
  unfold Consumer.prepare Consumer.refresh
  by_cases hknown : c.queue.countPushed ≤ c.countPopped
  · rw [if_pos hknown]
    obtain ⟨e, q, hread⟩ : ∃ e q, c.queue.getInfoOfPart crates name d c.id false = (e, q) :=
      ⟨_, _, rfl⟩
    obtain ⟨hsteady, hplace, hinformed⟩ := h.getInfoOfPart hfiles hread
    rw [hread]
    cases e with
    | error e => exact ⟨.inl rfl, hsteady, fun hr => .inl (hplace.trans (hoffset hr))⟩
    | ok _ =>
      dsimp only
      split_ifs with hend
      · refine hsteady.advance hfiles consumerName (fun hr => ?_) hnext
        obtain ⟨j, hfollows, hcount, hreadable⟩ := (hinformed rfl).2 hr
        refine ⟨hplace.trans (hoffset hr), j, hfollows.ffQueue, hfollows.ffInfoPush, ?_, hreadable⟩
        have hpopped : c.countPopped = (pushed j).length :=
          Nat.le_antisymm hfollows.place.count_le (hcount ▸ hend)
        have hpos := hfollows.place.pos_eq
        dsimp only at hpos
        rw [hpopped, List.take_length] at hpos
        exact (hplace.trans (hoffset hr)).trans hpos
      · exact ⟨.inl rfl, hsteady, fun hr => .inl (hplace.trans (hoffset hr))⟩
  · rw [if_neg hknown]
    dsimp only
    rw [if_neg hknown]
    exact ⟨.inl rfl, h, fun hr => .inl (hoffset hr)⟩

theorem Steady.later {d' : Disk} {pushed' : ℕ → List Message} {newest' : ℕ}
    (h : Steady d pushed newest c) (hnewest : newest ≤ newest')
    (hpushed : ∀ k, ∃ ms, pushed' k = pushed k ++ ms)
    (hlinked : d.linked c.id = false → d'.linked c.id = false ∨ c.queue.ffQueue = .part c.id) :
    Steady d' pushed' newest' c where
  id_le := h.id_le.trans hnewest
  queueId_le := h.queueId_le.trans hnewest
  unready := h.unready
  follows := by
    intro hready
    obtain ⟨j, hfollows⟩ := h.follows hready
    obtain ⟨ms, hms⟩ := hpushed j
    refine ⟨j, hfollows.ffQueue, hfollows.ffInfoPush, hms ▸ hfollows.place.append ms, ?_⟩
    rcases hfollows.here with hid | hunlinked
    · exact .inl hid
    · rcases hlinked hunlinked with hunlinked' | hfile
      · exact .inr hunlinked'
      · rw [hfollows.ffQueue] at hfile
        exact .inl (Handle.part.inj hfile).symm
  known := h.known

/-- **A header is read** by a consumer that is in front of one, or it returns to its position. -/
theorem Prepared.takeHeader (h : Prepared d pushed newest c)
    (hfiles : Files crates name d pushed newest) (hname : PlainName name) :
    ((c.takeHeader d).1 = true → Sound crates d pushed newest (c.takeHeader d).2 .header) ∧
      Sound crates d pushed newest ((c.takeHeader d).2.seek (c.takeHeader d).2.posRecord)
        .idle := by
  obtain ⟨offset, hash, header, hresult⟩ := takeHeader_keeps c d
  have hsteady : Steady d pushed newest { c.seek offset with hash, header } :=
    { h.toSteady with
      follows := fun hready => (h.follows hready).imp fun _ hfollows => { hfollows with } }
  constructor
  · intro htake
    have htaken : c.isReady = true → ∃ j m, c.queue.ffQueue = .part j ∧
        HeaderTaken crates pushed j c.countPopped m (c.takeHeader d).2 ∧
        c.countPopped < c.queue.countPushed := by
      intro hready
      obtain ⟨j, hfollows⟩ := h.follows hready
      rcases h.offset hready with hoffset | ⟨i, hfile, hoffset⟩
      · obtain ⟨hknown, m, hm⟩ :=
          hfiles.takeHeader_true hname hfollows.ffQueue hfollows.place hoffset htake
        exact ⟨j, m, hfollows.ffQueue, hm, hknown⟩
      · rw [hfiles.takeHeader_end hfile hoffset] at htake
        cases htake
    rw [hresult] at htaken ⊢
    exact .header hsteady htaken
  · rw [hresult]
    refine .idle ?_ fun _ => rfl
    exact { hsteady with
      follows := fun hready => (hsteady.follows hready).imp fun _ hfollows => { hfollows with } }

/-- **`pop_header`.** -/
theorem Steady.popHeader (h : Steady d pushed newest c) (hfiles : Files crates name d pushed newest)
    (hname : PlainName name) (consumerName : List Char)
    (hoffset : c.isReady = true → c.queue.offset = c.posRecord)
    (hnext : d.linked (c.id + 1) = true →
      readPushInfo crates name (d.parts (c.id + 1)).infoPush ≠ none) {b : Bool} {d' : Disk}
    {c' : Consumer} (hpop : c.popHeader crates name consumerName d = (b, d', c')) :
    DiskKept name consumerName newest d d' ∧
      Sound crates d pushed newest c' (if b then .header else .idle) := by
  obtain ⟨hdisk, hprepared⟩ := h.prepare hfiles consumerName hoffset hnext
  unfold Consumer.popHeader Consumer.readHeader at hpop
  generalize c.prepare crates name consumerName d = r at hdisk hprepared hpop
  obtain ⟨b₁, d₁, c₁⟩ := r
  dsimp only at hdisk hprepared hpop
  have hbytes : c₁.takeHeader d₁ = c₁.takeHeader d := by
    refine takeHeader_congr ?_
    rcases hdisk with rfl | ⟨old, i, -, rfl⟩
    · rfl
    · cases c₁.queue.ffQueue <;> rfl
  have htaken := hprepared.takeHeader hfiles hname
  cases b₁ with
  | false =>
    obtain ⟨rfl, rfl, rfl⟩ := Prod.mk.inj hpop |>.imp id Prod.mk.inj
    refine ⟨hdisk, .idle ?_ fun _ => rfl⟩
    exact { hprepared.toSteady with
      follows := fun hready => (hprepared.follows hready).imp fun _ hfollows => { hfollows with } }
  | true =>
    dsimp only at hpop
    rw [hbytes] at hpop
    cases htake : (c₁.takeHeader d).1 with
    | true =>
      rw [htake] at hpop
      obtain ⟨rfl, rfl, rfl⟩ := Prod.mk.inj hpop |>.imp id Prod.mk.inj
      exact ⟨hdisk, htaken.1 htake⟩
    | false =>
      rw [htake] at hpop
      obtain ⟨rfl, rfl, rfl⟩ := Prod.mk.inj hpop |>.imp id Prod.mk.inj
      exact ⟨hdisk, htaken.2⟩

/-- **`pop_body`**: the body of the message whose header was read. -/
theorem Sound.popBody (h : Sound crates d pushed newest c .header)
    (hfiles : Files crates name d pushed newest) (hname : PlainName name)
    {result : Except ErrorQueue (List UInt8)} {c' : Consumer}
    (hpop : c.popBody crates d c.header.msgLength = (result, c')) :
    match result with
    | .ok msg => Sound crates d pushed newest c' (.body msg)
    | .error _ => Sound crates d pushed newest c' .idle := by
  cases h with
  | header hsteady htaken =>
  cases hready : c.isReady with
  | false =>
    rw [Consumer.popBody, hready, Bool.not_false, if_pos rfl] at hpop
    obtain ⟨rfl, rfl⟩ := Prod.mk.inj hpop
    refine .idle hsteady fun hr => ?_
    rw [hready] at hr
    cases hr
  | true =>
    obtain ⟨j, m, hfile, hm, hknown⟩ := htaken hready
    obtain ⟨i, hfollows⟩ := hsteady.follows hready
    obtain rfl : j = i := Handle.part.inj (hfile.symm.trans hfollows.ffQueue)
    obtain ⟨d', hstored, hbytes⟩ := hfiles.stored hname
    have hcongr : c.popBody crates d' c.header.msgLength =
        c.popBody crates d c.header.msgLength := popBody_congr (by rw [hfile, hbytes]) _
    rw [← hcongr, hstored.popBody_next hready hfile hfollows.place.pos_eq hm] at hpop
    obtain ⟨rfl, rfl⟩ := Prod.mk.inj hpop
    obtain ⟨hlt, -⟩ := List.getElem?_eq_some_iff.mp hm.next
    refine .body hready ?_ rfl
    exact { hsteady with
      unready := fun hr => absurd (hready.symm.trans hr) (by decide)
      follows := fun _ => ⟨j, { hfollows with place := ⟨hlt, rfl⟩ }⟩
      known := .inl hknown }

/-- **A message is counted.** -/
theorem Sound.counted {msg : List UInt8} (h : Sound crates d pushed newest c (.body msg))
    (hfiles : Files crates name d pushed newest) :
    c.isReady = true ∧ addU32 c.countPopped 1 = c.countPopped + 1 ∧
      Sound crates d pushed newest { c with countPopped := addU32 c.countPopped 1 } .idle := by
  cases h with
  | body hready hsteady hoffset =>
    obtain ⟨j, hfollows⟩ := hsteady.follows hready
    have hcount : addU32 c.countPopped 1 = c.countPopped + 1 :=
      Nat.mod_eq_of_lt (hfollows.place.count_le.trans_lt (hfiles.count_lt j))
    rw [hcount]
    exact ⟨hready, rfl, .idle hsteady fun _ => hoffset⟩

theorem Steady.saved (h : Steady d pushed newest c) (hfiles : Files crates name d pushed newest)
    (hname : PlainName name) (hconsumer : PlainName consumerName) (old : List Char) :
    ∀ pos count id, readPopInfo crates name consumerName
        (writeAt old 0 (popLine name consumerName c.posRecord c.countPopped c.id ++ ['\n'])) =
          some (pos, count, id) →
      (count = 0 → pos = 0) ∧
        (Place (pushed id) pos count ∨ (d.linked id = false ∧ id ≤ newest)) := by
  have hplaced : ∃ j, Place (pushed j) c.posRecord c.countPopped ∧
      (c.id = j ∨ d.linked c.id = false) := by
    cases hready : c.isReady with
    | false =>
      obtain ⟨hcount, hpos⟩ := h.unready hready
      rw [hcount, hpos]
      exact ⟨c.id, Place.zero _, .inl rfl⟩
    | true =>
      obtain ⟨j, hfollows⟩ := h.follows hready
      exact ⟨j, hfollows.place, hfollows.here⟩
  obtain ⟨j, hplace, hhere⟩ := hplaced
  have hpos : c.posRecord < 2 ^ 64 := by
    rw [hplace.pos_eq]
    exact (lengthOf_take_le _ _).trans_lt (hfiles.length_lt j)
  intro pos count id hread
  rw [readPopInfo_written crates hname hconsumer hpos
    (hplace.count_le.trans_lt (hfiles.count_lt j)) (h.id_le.trans_lt hfiles.newest_lt)] at hread
  cases hread
  refine ⟨fun hzero => ?_, ?_⟩
  · rw [hplace.pos_eq, hzero]
    rfl
  · rcases hhere with rfl | hunlinked
    · exact .inl hplace
    · exact .inr ⟨hunlinked, h.id_le⟩

theorem openPart_ok (hopen : q.openPart crates name d k = (.ok (), q')) :
    d.linked k = true ∧ Queue.getInfoOfPart crates name
      { q with ffInfoPush := .part k, ffQueue := .part k, offset := 0, id := k } d k false =
        (.ok (), q') := by
  unfold Queue.openPart Queue.openInfoPush at hopen
  cases hready : q.isReady with
  | false =>
    rw [hready, Bool.not_false, if_pos rfl] at hopen
    cases hopen
  | true =>
    rw [hready, Bool.not_true, if_neg Bool.false_ne_true] at hopen
    cases hlinked : d.linked k with
    | false =>
      rw [hlinked, if_neg Bool.false_ne_true] at hopen
      cases hopen
    | true =>
      rw [hlinked, if_pos rfl] at hopen
      exact ⟨rfl, hready ▸ hopen⟩

theorem openPart_error {e : ErrorQueue} (hopen : q.openPart crates name d k = (.error e, q')) :
    (d.linked k = true ∧ q'.id = k) ∨
      (q'.id = q.id ∧ (q.isReady = false ∨ d.linked k = false)) := by
  unfold Queue.openPart Queue.openInfoPush at hopen
  cases hready : q.isReady with
  | false =>
    rw [hready, Bool.not_false, if_pos rfl] at hopen
    obtain ⟨-, rfl⟩ := Prod.mk.inj hopen
    exact .inr ⟨rfl, .inl rfl⟩
  | true =>
    rw [hready, Bool.not_true, if_neg Bool.false_ne_true] at hopen
    cases hlinked : d.linked k with
    | false =>
      rw [hlinked, if_neg Bool.false_ne_true] at hopen
      obtain ⟨-, rfl⟩ := Prod.mk.inj hopen
      exact .inr ⟨rfl, .inr rfl⟩
    | true =>
      rw [hlinked, if_pos rfl] at hopen
      dsimp only at hopen
      have hline := lineRead crates name d { q with
        isReady := true, ffInfoPush := .part k, ffQueue := .part k, offset := 0, id := k } k false
      rw [hopen] at hline
      refine .inl ⟨rfl, ?_⟩
      cases hline <;> rfl

theorem steady_of_openPart (h : Files crates name d pushed newest) (c : Consumer)
    (hready : c.isReady = true) (hopen : q.openPart crates name d c.id = (.ok (), q'))
    (hle : c.id ≤ newest) (hplace : Place (pushed c.id) c.posRecord c.countPopped) :
    Steady d pushed newest ({ c with queue := q' }.seek c.posRecord) := by
  have hline := lineRead crates name d { q with
    ffInfoPush := .part c.id, ffQueue := .part c.id, offset := 0, id := c.id } c.id false
  rw [(openPart_ok hopen).2] at hline
  have hsteady : ∀ q : Queue, q.ffInfoPush = .part c.id → q.ffQueue = .part c.id →
      q.id = c.id → c.countPopped ≤ q.countPushed →
      Steady d pushed newest ({ c with queue := q }.seek c.posRecord) := by
    intro q hinfo hfile hid hknown
    exact {
      id_le := hle
      queueId_le := hid.trans_le hle
      unready := fun hr => absurd (hready.symm.trans hr) (by decide)
      follows := fun _ => ⟨c.id, hfile, hinfo, hplace, .inl rfl⟩
      known := .inl hknown }
  cases hline with
  | reopened _ _ _ hread =>
    rcases hread with ⟨-, hread⟩ | ⟨he, -⟩
    · exact hsteady _ rfl rfl rfl
        ((Prod.mk.inj (h.pushInfo _ _ hread)).2 ▸ hplace.count_le)
    · cases he
  | same _ _ hread =>
    rcases hread with ⟨-, hread⟩ | ⟨he, -⟩
    · exact hsteady _ rfl rfl rfl
        ((Prod.mk.inj (h.pushInfo c.id _ hread)).2 ▸ hplace.count_le)
    · cases he

theorem Files.newRead (h : Files crates name d pushed newest)
    (hnew : Queue.newRead crates name d = .ok q) :
    q.id ≤ newest ∧ (q.isReady = false → d.linked q.id = false) := by
  unfold Queue.newRead Queue.getInfoQueue at hnew
  cases hqueue : d.infoQueue with
  | none =>
    rw [hqueue] at hnew
    cases hnew
  | some text =>
    rw [hqueue] at hnew
    dsimp only [Option.getD_some] at hnew
    cases hread : readQueueInfo crates name text with
    | none =>
      rw [hread] at hnew
      obtain rfl := Except.ok.inj hnew
      exact ⟨Nat.zero_le _, fun hready => nomatch hready⟩
    | some id =>
      rw [hread] at hnew
      have hid : id = newest := h.queueInfo id (by rw [hqueue]; exact hread)
      obtain rfl := Except.ok.inj hnew
      have hline := lineRead crates name d
        { Queue.opened .read with id, rightEdge := 0, countPushed := 0 } id true
      dsimp only at hline ⊢
      generalize Queue.getInfoOfPart crates name _ d id true = r at hline ⊢
      cases hline with
      | missing _ hunlinked => exact ⟨hid.le, fun _ => hunlinked⟩
      | reopened _ _ _ _ => exact ⟨hid.le, fun hready => nomatch hready⟩
      | same _ _ _ => exact ⟨hid.le, fun hready => nomatch hready⟩

/-- **A new consumer** goes on at what was saved, or at the beginning of another part.

**Proof sketch.** The part that was saved is opened when it exists. Otherwise the newest part is,
or the first one, and nothing was popped of the part that was saved. -/
theorem Files.new (h : Files crates name d pushed newest)
    (hsaved : ∀ pos count id, readPopInfo crates name consumerName d.infoPop =
      some (pos, count, id) → (count = 0 → pos = 0) ∧
        (Place (pushed id) pos count ∨ (d.linked id = false ∧ id ≤ newest)))
    (hallowed : ∀ pos count id, readPopInfo crates name consumerName d.infoPop =
      some (pos, count, id) → d.linked id = true ∨ count = 0)
    (hnew : Consumer.new crates name consumerName d = .ok c) :
    Sound crates d pushed newest c .idle := by
  unfold Consumer.new at hnew
  cases hqueue : Queue.newRead crates name d with
  | error e =>
    rw [hqueue] at hnew
    cases hnew
  | ok q =>
    obtain ⟨hid, hunready⟩ := h.newRead hqueue
    rw [hqueue] at hnew
    dsimp only at hnew
    cases hpop : readPopInfo crates name consumerName d.infoPop with
    | none =>
      rw [hpop] at hnew
      cases hnew
    | some saved =>
      obtain ⟨pos, count, id⟩ := saved
      rw [hpop] at hnew
      obtain ⟨hzero, hplace⟩ := hsaved pos count id hpop
      have hexists : d.linked id = true → Place (pushed id) pos count ∧ id ≤ newest := by
        intro hlinked
        refine ⟨hplace.resolve_right fun hmissing => ?_, ?_⟩
        · rw [hlinked] at hmissing
          exact absurd hmissing.1 (by decide)
        · by_contra hlt
          rw [(h.unopened id (Nat.lt_of_not_le hlt)).1] at hlinked
          cases hlinked
      unfold Consumer.openSaved at hnew
      dsimp only at hnew
      cases hopen : q.openPart crates name d id with
      | mk result q₁ =>
      rw [hopen] at hnew
      cases result with
      | ok _ =>
        obtain rfl := Except.ok.inj hnew
        obtain ⟨hplaced, hle⟩ := hexists (openPart_ok hopen).1
        exact .idle (steady_of_openPart h ⟨q, count, id, true, pos, .empty, []⟩ rfl hopen hle
          hplaced) fun _ => rfl
      | error e =>
        dsimp only at hnew
        cases hopen' : Queue.openPart crates name { q₁ with isReady := true } d q₁.id with
        | mk result' q₂ =>
        rw [hopen'] at hnew
        cases result' with
        | error _ => cases hnew
        | ok _ =>
          obtain rfl := Except.ok.inj hnew
          have hlinked := (openPart_ok hopen').1
          have hplaced : Place (pushed q₁.id) pos count ∧ q₁.id ≤ newest := by
            rcases openPart_error hopen with ⟨hthere, heq⟩ | ⟨heq, hcause⟩
            · rw [heq]
              exact hexists hthere
            · rw [heq] at hlinked ⊢
              have hmissing : d.linked id = false := by
                refine hcause.resolve_left fun hready => ?_
                rw [hunready hready] at hlinked
                cases hlinked
              have hcount : count = 0 := by
                refine (hallowed pos count id hpop).resolve_left fun hthere => ?_
                rw [hmissing] at hthere
                cases hthere
              rw [hzero hcount, hcount]
              exact ⟨Place.zero _, hid⟩
          exact .idle (steady_of_openPart h
            ⟨{ q₁ with isReady := true }, count, q₁.id, true, pos, .empty, []⟩ rfl hopen' hplaced.2
            hplaced.1) fun _ => rfl

theorem Sound.id_le {phase : Phase} (h : Sound crates d pushed newest c phase) :
    c.id ≤ newest := by
  cases h with
  | idle hsteady _ => exact hsteady.id_le
  | header hsteady _ => exact hsteady.id_le
  | body _ hsteady _ => exact hsteady.id_le

theorem Sound.later {d' : Disk} {pushed' : ℕ → List Message} {newest' : ℕ} {phase : Phase}
    (h : Sound crates d pushed newest c phase) (hnewest : newest ≤ newest')
    (hpushed : ∀ k, ∃ ms, pushed' k = pushed k ++ ms)
    (hlinked : d.linked c.id = false → d'.linked c.id = false ∨ c.queue.ffQueue = .part c.id) :
    Sound crates d' pushed' newest' c phase := by
  cases h with
  | idle hsteady hoffset => exact .idle (hsteady.later hnewest hpushed hlinked) hoffset
  | header hsteady htaken =>
    refine .header (hsteady.later hnewest hpushed hlinked) fun hready => ?_
    obtain ⟨j, m, hfile, hm, hknown⟩ := htaken hready
    obtain ⟨ms, hms⟩ := hpushed j
    obtain ⟨hlt, -⟩ := List.getElem?_eq_some_iff.mp hm.next
    have htake : (pushed' j).take c.countPopped = (pushed j).take c.countPopped := by
      rw [hms, List.take_append_of_le_length hlt.le]
    refine ⟨j, m, hfile, ⟨?_, ?_, ?_, ?_⟩, hknown⟩
    · rw [hms, List.getElem?_append_left hlt, hm.next]
    · rw [htake, hm.offset]
    · rw [htake, hm.hash]
    · rw [htake, hm.header]
  | body hready hsteady hoffset =>
    exact .body hready (hsteady.later hnewest hpushed hlinked) hoffset

theorem Sound.relinked {d' : Disk} {phase : Phase} (h : Sound crates d pushed newest c phase)
    (hlinked : d'.linked = d.linked) : Sound crates d' pushed newest c phase :=
  h.later le_rfl (fun _ => ⟨[], (List.append_nil _).symm⟩) fun hmissing => .inl (hlinked ▸ hmissing)

end Steps

end Veda.VQueue
