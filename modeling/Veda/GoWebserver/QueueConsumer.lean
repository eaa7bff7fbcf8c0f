import Veda.GoWebserver.Queue

set_option autoImplicit false

/-!
# The consumer of the web server beside a producer

A producer opens parts and pushes messages while a consumer calls `pop` again and again, and
`commit_and_next` behind each message that `pop` returned. The handle of the file of records is
opened once: when the consumer enters a part, the queue already has the id of this part, and the
file of an older one stays open.

## Main definitions

* `GoWebserver.QueueReading` — a queue with its producer and its consumer.
* `GoWebserver.QueueReading.consume` — the next step of the consumer.
* `GoWebserver.QueueReading.Delivers` — every message is returned once and in order.
* `GoWebserver.QueueReading.Allowed` — the condition of a step.
* `GoWebserver.QueueReading.Inv` — what is true between two steps.

## Main results

* `GoWebserver.QueueReading.Inv.openQueue`, `GoWebserver.QueueReading.Inv.push` — the steps
  of the producer keep the invariant.

## Design

`pop` is made of the steps between which the producer can act: `inform` reads the line of the part,
`look` the file that names the newest part, `enter` goes on to the next part, and `read` takes a
message.
-/

namespace Veda.GoWebserver

open Veda.Lib Veda.VQueue

/-- Where the consumer stands in its loop. -/
inductive Stage
  | closed
  | idle
  /-- `pop` has read the line of the part -/
  | informed
  /-- `pop` knows a newer part -/
  | looked
  /-- `pop` has returned a message -/
  | returned
  deriving DecidableEq, Repr

/-- A queue with its producer and its consumer. -/
structure QueueReading where
  disk : Disk
  producer : Option Queue
  /-- the messages that were pushed to each part -/
  pushed : ℕ → List Message
  queue : GoQueue
  consumer : GoConsumer
  stage : Stage
  /-- what `pop` returned -/
  returned : List (List UInt8)

/-- A step of the producer or of the consumer. -/
inductive ReadingOp
  | openQueue
  | push (m : Message)
  | consume
  deriving DecidableEq

namespace QueueReading

/-! ## Steps -/

section Steps

variable (crates : Crates) (name consumerName : List Char)

/-- Nothing exists. -/
def empty : QueueReading where
  disk := .empty
  producer := none
  pushed := fun _ => []
  queue := .new
  consumer := .new
  stage := .closed
  returned := []

/-- `Queue::new` for the producer. -/
def openQueue (s : QueueReading) : QueueReading :=
  match Queue.newReadWrite crates name s.disk .full .full with
  | (.ok q, disk) => { s with disk, producer := some q }
  | (.error _, disk) => { s with disk, producer := none }

/-- `Queue::push`. -/
def push (s : QueueReading) (m : Message) : QueueReading :=
  match s.producer with
  | none => s
  | some q =>
    match q.push crates name s.disk m ⟨.full, .full, .full⟩ with
    | (.ok _, disk, q') =>
      { s with disk, producer := some q', pushed := addMessage s.pushed q.id m }
    | (.error _, disk, q') => { s with disk, producer := some q' }

/-- The queue and the consumer are opened. -/
def openConsumer (s : QueueReading) : QueueReading :=
  let queue := s.queue.openR name s.disk
  { s with queue, consumer := s.consumer.openRW name consumerName queue s.disk, stage := .idle }

/-- `pop` reads the line of the part. -/
def inform (s : QueueReading) : QueueReading :=
  if !s.queue.isReady ∨ !s.consumer.isReady then s
  else
    { s with queue := (s.queue.getInfoPush name s.disk s.consumer.id).2, stage := .informed }

/-- `pop` looks for a newer part. -/
def look (s : QueueReading) : QueueReading :=
  let queue :=
    if s.queue.id = s.consumer.id then (s.queue.getInfoQueue name s.disk).2 else s.queue
  { s with queue, stage := if s.consumer.id < queue.id then .looked else .idle }

/-- `pop` goes on to the next part. -/
def enter (s : QueueReading) : QueueReading :=
  let (disk, queue, consumer) := s.consumer.enterPart name consumerName s.queue s.disk
  { s with disk, queue, consumer, stage := .idle }

/-- `pop` takes a message. An empty text stands for none. -/
def read (s : QueueReading) : QueueReading :=
  match s.consumer.readMessage s.queue s.disk with
  | ([], queue, consumer) => { s with queue, consumer, stage := .idle }
  | (msg, queue, consumer) =>
    { s with queue, consumer, stage := .returned, returned := s.returned ++ [msg] }

/-- `commit_and_next`. -/
def commit (s : QueueReading) : QueueReading :=
  let (disk, queue, consumer) :=
    s.consumer.commitAndNext crates.crc32 name consumerName s.queue s.disk
  { s with disk, queue, consumer, stage := .idle }

/-- The next step of the consumer. -/
def consume (s : QueueReading) : QueueReading :=
  match s.stage with
  | .closed => s.openConsumer name consumerName
  | .idle => s.inform name
  | .informed =>
    if s.queue.countPushed ≤ s.consumer.countPopped then s.look name else s.read
  | .looked => s.enter name consumerName
  | .returned => s.commit crates name consumerName

def step (s : QueueReading) : ReadingOp → QueueReading
  | .openQueue => s.openQueue crates name
  | .push m => s.push crates name m
  | .consume => s.consume crates name consumerName

/-- The state behind the first `Queue::new`. -/
def start : QueueReading := empty.openQueue crates name

/-! ## What the consumer owes -/

/-- The bodies of the messages of the first parts. -/
def bodiesUpTo (pushed : ℕ → List Message) (k : ℕ) : List (List UInt8) :=
  (List.range k).flatMap fun i => (pushed i).map Message.body

/-- What was returned are messages of the parts, each once and in order. -/
def InOrder (s : QueueReading) : Prop := ∃ k, s.returned <+: bodiesUpTo s.pushed k

/-- What was returned is in order, and the consumer comes to the end of all parts. -/
def Delivers (s : QueueReading) : Prop :=
  s.InOrder ∧ ∃ n, ∀ k,
    bodiesUpTo s.pushed k <+: ((consume crates name consumerName)^[n] s).returned

/-- The condition of a step. A new part is not opened while `pop` has seen the end of the newest
part and a message was pushed to it since. A message is not empty, `Read` takes its body at once,
the numbers fit, and no other part has a message. -/
def Allowed (s : QueueReading) : ReadingOp → Prop
  | .openQueue =>
    (∀ newest, readQueueInfo crates name (s.disk.infoQueue.getD []) = some newest →
      newest + 1 < 2 ^ 32) ∧
    ¬ (s.stage = .informed ∧ s.queue.countPushed ≤ s.consumer.countPopped ∧
      s.consumer.countPopped < (s.pushed s.consumer.id).length)
  | .push m =>
    m.body ≠ [] ∧ m.body.length ≤ maxRW ∧
    ∀ q, s.producer = some q →
      q.countPushed + 1 < 2 ^ 32 ∧ q.rightEdge + headerSize + m.body.length < 2 ^ 64 ∧
      ∀ k, s.pushed k ≠ [] → k = q.id
  | .consume => True

/-- A state of a run whose steps meet their conditions. -/
inductive Reached : QueueReading → Prop
  | start : Reached (start crates name)
  | step {s : QueueReading} (op : ReadingOp) : Reached s → s.Allowed crates name op →
      Reached (s.step crates name consumerName op)

/-! ## The invariant -/

/-- What is true of the files and of the producer: what one reader of lines finds, the other one
finds as well, and at most one part has messages. -/
structure Files (s : QueueReading) (newest : ℕ) : Prop where
  producing : Producing crates name s.disk s.producer s.pushed newest
  lines : Producing (goLines crates.crc32) name s.disk s.producer s.pushed newest
  linked : ∀ k ≤ newest, s.disk.linked k = true
  line_ne : ∀ k ≤ newest, (s.disk.parts k).infoPush ≠ []
  single : ∀ i j, s.pushed i ≠ [] → s.pushed j ≠ [] → i = j
  bodies : ∀ k, ∀ m ∈ s.pushed k, m.body ≠ [] ∧ m.body.length ≤ maxRW

/-- The bodies up to a message of a part. -/
def bodiesAt (pushed : ℕ → List Message) (k count : ℕ) : List (List UInt8) :=
  bodiesUpTo pushed k ++ ((pushed k).take count).map Message.body

/-- The consumer stands behind `count` messages of the part `k`. -/
structure Stands (s : QueueReading) (newest k count : ℕ) : Prop where
  queueReady : s.queue.isReady = true
  consumerReady : s.consumer.isReady = true
  id : s.consumer.id = k
  le_id : k ≤ s.queue.id
  id_le : s.queue.id ≤ newest
  count_le : count ≤ (s.pushed k).length
  countPopped : s.consumer.countPopped = count
  startPosRecord : s.consumer.startPosRecord = lengthOf ((s.pushed k).take count)
  file : ∀ j, s.queue.ffQueueR = some j → s.pushed j ≠ []
  headerBuff : s.consumer.headerBuff.length = headerSize

/-- What is true at a stage of the loop. -/
inductive Reads (s : QueueReading) (newest k count : ℕ) : Prop
  | idle : s.stage = .idle → s.returned = bodiesAt s.pushed k count → Reads s newest k count
  | informed : s.stage = .informed → s.returned = bodiesAt s.pushed k count →
      s.queue.countPushed ≤ (s.pushed k).length →
      (s.queue.countPushed ≤ count → k < newest → count = (s.pushed k).length) →
      Reads s newest k count
  | looked : s.stage = .looked → s.returned = bodiesAt s.pushed k count → k < newest →
      count = (s.pushed k).length → Reads s newest k count
  | returned {m : Message} : s.stage = .returned → (s.pushed k)[count]? = some m →
      MessageTaken crates (lengthOf ((s.pushed k).take count)) (count + 1) m s.consumer →
      s.returned = bodiesAt s.pushed k (count + 1) → Reads s newest k count

/-- Nothing was read yet. -/
structure Closed (s : QueueReading) : Prop where
  stage : s.stage = .closed
  queue : s.queue = .new
  consumer : s.consumer = .new
  infoPop : s.disk.infoPop = []
  returned : s.returned = []

/-- What is true between two steps. -/
structure Inv (s : QueueReading) (newest : ℕ) : Prop where
  files : s.Files crates name newest
  reads : s.Closed ∨ ∃ k count, s.Stands newest k count ∧ s.Reads crates newest k count

end Steps

variable {crates : Crates} {name : List Char} {s s' : QueueReading}
  {newest newest' k count : ℕ} {m : Message}

/-! ## Bodies -/

theorem bodiesUpTo_succ (pushed : ℕ → List Message) (k : ℕ) :
    bodiesUpTo pushed (k + 1) = bodiesUpTo pushed k ++ (pushed k).map Message.body := by
  rw [bodiesUpTo, List.range_succ, List.flatMap_append, List.flatMap_singleton, ← bodiesUpTo]

theorem bodiesUpTo_mono (pushed : ℕ → List Message) {k k' : ℕ} (h : k ≤ k') :
    bodiesUpTo pushed k <+: bodiesUpTo pushed k' := by
  induction h with
  | refl => exact List.prefix_rfl
  | step _ ih =>
    rw [bodiesUpTo_succ]
    exact ih.trans (List.prefix_append _ _)

theorem bodiesUpTo_congr {pushed pushed' : ℕ → List Message} {k : ℕ}
    (h : ∀ i < k, pushed' i = pushed i) : bodiesUpTo pushed' k = bodiesUpTo pushed k := by
  induction k with
  | zero => rfl
  | succ k ih =>
    rw [bodiesUpTo_succ, bodiesUpTo_succ, ih fun i hi => h i (Nat.lt_succ_of_lt hi),
      h k (Nat.lt_succ_self k)]

theorem bodiesUpTo_of_empty {pushed : ℕ → List Message} {newest : ℕ}
    (h : ∀ k, newest < k → pushed k = []) (k : ℕ) :
    bodiesUpTo pushed k <+: bodiesUpTo pushed (newest + 1) := by
  rcases Nat.le_total k (newest + 1) with hle | hle
  · exact bodiesUpTo_mono pushed hle
  · induction hle with
    | refl => exact List.prefix_rfl
    | @step k hle ih =>
      rw [bodiesUpTo_succ, h k hle, List.map_nil, List.append_nil]
      exact ih

@[simp] theorem bodiesAt_zero (pushed : ℕ → List Message) (k : ℕ) :
    bodiesAt pushed k 0 = bodiesUpTo pushed k := List.append_nil _

theorem bodiesAt_length (pushed : ℕ → List Message) (k : ℕ) :
    bodiesAt pushed k (pushed k).length = bodiesUpTo pushed (k + 1) := by
  rw [bodiesAt, List.take_length, bodiesUpTo_succ]

theorem bodiesAt_succ {pushed : ℕ → List Message} (hm : (pushed k)[count]? = some m) :
    bodiesAt pushed k (count + 1) = bodiesAt pushed k count ++ [m.body] := by
  rw [bodiesAt, bodiesAt, List.take_add_one, hm, List.map_append, List.append_assoc]
  rfl

theorem bodiesAt_le (pushed : ℕ → List Message) (k count : ℕ) :
    bodiesAt pushed k count <+: bodiesUpTo pushed (k + 1) := by
  rw [bodiesAt, bodiesUpTo_succ]
  exact List.prefix_append_right_inj _ |>.mpr ((List.take_prefix _ _).map _)

/-! ## Steps of the producer -/

theorem bodiesAt_grown {pushed pushed' : ℕ → List Message} (h : Grown pushed newest pushed' newest')
    (hk : k ≤ newest) (hcount : count ≤ (pushed k).length) :
    bodiesAt pushed' k count = bodiesAt pushed k count := by
  rw [bodiesAt, bodiesAt, h.take_eq hcount,
    bodiesUpTo_congr fun i hi => h.older i (Nat.lt_of_lt_of_le hi hk)]

theorem Stands.grown (h : s.Stands newest k count) (hgrown : Grown s.pushed newest s'.pushed newest')
    (hqueue : s'.queue = s.queue) (hconsumer : s'.consumer = s.consumer) :
    s'.Stands newest' k count where
  queueReady := by rw [hqueue, h.queueReady]
  consumerReady := by rw [hconsumer, h.consumerReady]
  id := by rw [hconsumer, h.id]
  le_id := by rw [hqueue]; exact h.le_id
  id_le := by rw [hqueue]; exact h.id_le.trans hgrown.newest_le
  count_le := h.count_le.trans (hgrown.lengths_le k)
  countPopped := by rw [hconsumer, h.countPopped]
  startPosRecord := by rw [hconsumer, h.startPosRecord, hgrown.take_eq h.count_le]
  file := by
    intro j hj
    rw [hqueue] at hj
    obtain ⟨ms, hms⟩ := hgrown.extend j
    rw [hms]
    exact List.append_ne_nil_of_left_ne_nil (h.file j hj) _
  headerBuff := by rw [hconsumer, h.headerBuff]

theorem Reads.ended (h : s.Reads crates newest k count) (hstage : s.stage = .informed)
    (hend : s.queue.countPushed ≤ count) (hk : k < newest) : count = (s.pushed k).length := by
  cases h with
  | idle h => exact absurd (hstage.symm.trans h) (by decide)
  | informed _ _ _ h => exact h hend hk
  | looked h => exact absurd (hstage.symm.trans h) (by decide)
  | returned h => exact absurd (hstage.symm.trans h) (by decide)

theorem Reads.grown (h : s.Reads crates newest k count) (hstands : s.Stands newest k count)
    (hgrown : Grown s.pushed newest s'.pushed newest') (hqueue : s'.queue = s.queue)
    (hconsumer : s'.consumer = s.consumer) (hstage : s'.stage = s.stage)
    (hreturned : s'.returned = s.returned)
    (hend : s.stage = .informed → s.queue.countPushed ≤ count → k < newest' →
      count = (s'.pushed k).length) : s'.Reads crates newest' k count := by
  have hk : k ≤ newest := hstands.le_id.trans hstands.id_le
  have hbodies := bodiesAt_grown hgrown hk hstands.count_le
  cases h with
  | idle hs hret => exact .idle (hstage.trans hs) (by rw [hreturned, hret, hbodies])
  | informed hs hret hknown _ =>
    refine .informed (hstage.trans hs) (by rw [hreturned, hret, hbodies]) ?_ ?_
    · rw [hqueue]
      exact hknown.trans (hgrown.lengths_le k)
    · rw [hqueue]
      exact hend hs
  | looked hs hret hlt hlast =>
    refine .looked (hstage.trans hs) (by rw [hreturned, hret, hbodies])
      (Nat.lt_of_lt_of_le hlt hgrown.newest_le) ?_
    rw [hgrown.older k hlt]
    exact hlast
  | returned hs hm htaken hret =>
    obtain ⟨hlt, -⟩ := List.getElem?_eq_some_iff.mp hm
    refine .returned (hstage.trans hs) (hgrown.getElem? hm) ?_ ?_
    · rw [hconsumer, hgrown.take_eq hstands.count_le]
      exact htaken
    · rw [hreturned, hret, bodiesAt_grown hgrown hk hlt]

theorem Closed.grown (h : s.Closed) (hqueue : s'.queue = s.queue)
    (hconsumer : s'.consumer = s.consumer) (hstage : s'.stage = s.stage)
    (hreturned : s'.returned = s.returned) (hpop : s'.disk.infoPop = s.disk.infoPop) :
    s'.Closed where
  stage := hstage.trans h.stage
  queue := hqueue.trans h.queue
  consumer := hconsumer.trans h.consumer
  infoPop := hpop.trans h.infoPop
  returned := hreturned.trans h.returned

theorem infoPush_ne_of_pushInfo {text : List Char} {position n : ℕ}
    (h : readPushInfo crates name text = some (position, n)) (hn : n ≠ 0) : text ≠ [] := by
  rintro rfl
  have hzero : some (0, 0) = some (position, n) := h
  rw [Option.some.injEq, Prod.mk.injEq] at hzero
  exact hn hzero.2.symm

theorem writeAt_ne {text : List Char} {content : List Char} (h : content ≠ []) :
    writeAt text 0 content ≠ [] := by
  rw [writeAt, List.take_zero, List.nil_append]
  exact List.append_ne_nil_of_left_ne_nil h _

/-- **A new part** is opened. -/
theorem Files.openQueue (h : s.Files crates name newest) (hname : PlainName name)
    (hnewest : newest + 1 < 2 ^ 32) :
    ∃ q, s.openQueue crates name =
        { s with disk := partOpened crates name s.disk (newest + 1), producer := some q } ∧
      (s.openQueue crates name).Files crates name (newest + 1) := by
  obtain ⟨q, hq, hproducing, hlinked⟩ := h.producing.openQueue hname hnewest
  obtain ⟨q', hq', hlines, -⟩ := h.lines.openQueue hname hnewest
  have hopen : s.openQueue crates name =
      { s with disk := partOpened crates name s.disk (newest + 1), producer := some q } := by
    rw [QueueReading.openQueue, hq]
  refine ⟨q, hopen, ?_⟩
  rw [hopen]
  exact {
    producing := hproducing
    lines := { hlines with
      writer := fun w hw => { hproducing.writer w hw with } }
    linked := by
      intro k hk
      by_cases hnew : k = newest + 1
      · rw [hnew]
        exact hproducing.newest_linked
      · exact (hlinked k hnew).trans (h.linked k (by omega))
    line_ne := by
      intro k hk
      by_cases hnew : k = newest + 1
      · subst hnew
        show ((partOpened crates name s.disk (newest + 1)).parts (newest + 1)).infoPush ≠ []
        rw [partOpened, Disk.infoPush_setText_self]
        exact writeAt_ne (List.append_ne_nil_of_right_ne_nil _ (List.cons_ne_nil _ _))
      · show ((partOpened crates name s.disk (newest + 1)).parts k).infoPush ≠ []
        rw [partOpened, Disk.infoPush_setText_of_ne _ _ hnew]
        exact h.line_ne k (by omega)
    single := h.single
    bodies := h.bodies }

/-- **A message** is pushed. -/
theorem Files.push (h : s.Files crates name newest) (hname : PlainName name)
    (hallowed : s.Allowed crates name (.push m)) :
    (s.push crates name m).Files crates name newest ∧
      Grown s.pushed newest (s.push crates name m).pushed newest ∧
      (s.push crates name m).queue = s.queue ∧ (s.push crates name m).consumer = s.consumer ∧
      (s.push crates name m).stage = s.stage ∧ (s.push crates name m).returned = s.returned ∧
      (s.push crates name m).disk.infoPop = s.disk.infoPop := by
  obtain ⟨hne, hbody, hnumbers⟩ := hallowed
  cases hq : s.producer with
  | none =>
    have hpushed : s.push crates name m = s := by rw [QueueReading.push, hq]
    rw [hpushed]
    exact ⟨h, Grown.refl .., rfl, rfl, rfl, rfl, rfl⟩
  | some q =>
    have hproducing := h.producing
    have hlines := h.lines
    rw [hq] at hproducing hlines
    obtain ⟨hcount, hlength, hsingle⟩ := hnumbers q hq
    rcases hproducing.push hname hcount hlength with
      hlong | ⟨d', q', hpush, hid, hproducing', hlinked, hpop, hparts⟩
    · have hpushed : s.push crates name m = s := by
        rw [QueueReading.push, hq]
        dsimp only
        rw [hlong]
        dsimp only
        rw [← hq]
      rw [hpushed]
      exact ⟨h, Grown.refl .., rfl, rfl, rfl, rfl, rfl⟩
    · have hpushed : s.push crates name m = { s with
          disk := d', producer := some q', pushed := addMessage s.pushed newest m } := by
        rw [QueueReading.push, hq]
        dsimp only
        rw [hpush, ← hid]
      have hpush' : q.push (goLines crates.crc32) name s.disk m ⟨.full, .full, .full⟩ =
          (.ok q'.rightEdge, d', q') := hpush
      rcases hlines.push hname hcount hlength with
        hlong | ⟨d₂, q₂, hpush₂, -, hlines', -, -, -⟩
      · rw [hpush'] at hlong
        exact absurd (congrArg Prod.fst hlong) (by simp)
      have hsame := hpush'.symm.trans hpush₂
      rw [Prod.mk.injEq, Prod.mk.injEq] at hsame
      obtain ⟨-, rfl, rfl⟩ := hsame
      rw [hpushed]
      refine ⟨?_, Grown.message s.pushed newest m, rfl, rfl, rfl, rfl, hpop⟩
      exact {
        producing := hproducing'
        lines := hlines'
        linked := by
          intro k hk
          show d'.linked k = true
          rw [hlinked]
          exact h.linked k hk
        line_ne := by
          intro k hk
          show (d'.parts k).infoPush ≠ []
          by_cases hnew : k = newest
          · refine infoPush_ne_of_pushInfo (hproducing'.stored.pushInfo k) ?_
            rw [hnew, lengths, addMessage_self, List.length_append]
            exact Nat.succ_ne_zero _
          · rw [hparts k hnew]
            exact h.line_ne k hk
        single := by
          have honly : ∀ k, addMessage s.pushed newest m k ≠ [] → k = newest := by
            intro k hk
            by_contra hnew
            rw [addMessage_of_ne _ _ hnew] at hk
            exact hnew ((hsingle k hk).trans hid)
          intro i j hi hj
          rw [honly i hi, honly j hj]
        bodies := forall_mem_addMessage h.bodies ⟨hne, hbody⟩ }

/-- **A new part** keeps the invariant, unless a message was pushed since `pop` saw the end of the
newest part. -/
theorem Inv.openQueue (h : s.Inv crates name newest) (hname : PlainName name)
    (hallowed : s.Allowed crates name .openQueue) :
    (s.openQueue crates name).Inv crates name (newest + 1) := by
  obtain ⟨hnewest, hrace⟩ := hallowed
  obtain ⟨q, hopen, hfiles⟩ := h.files.openQueue hname
    (hnewest newest h.files.producing.stored.queueInfo)
  refine ⟨hfiles, ?_⟩
  rw [hopen]
  rcases h.reads with hclosed | ⟨k, count, hstands, hreads⟩
  · exact .inl (hclosed.grown rfl rfl rfl rfl rfl)
  · have hgrown := Grown.succ s.pushed newest
    refine .inr ⟨k, count, hstands.grown hgrown rfl rfl,
      hreads.grown hstands hgrown rfl rfl rfl rfl ?_⟩
    intro hstage hend hk
    rcases Nat.lt_or_ge k newest with hlt | hge
    · exact hreads.ended hstage hend hlt
    · by_contra hne
      refine hrace ⟨hstage, by rw [hstands.countPopped]; exact hend, ?_⟩
      rw [hstands.countPopped, hstands.id]
      exact Nat.lt_of_le_of_ne hstands.count_le hne

/-- **A message** keeps the invariant. -/
theorem Inv.push (h : s.Inv crates name newest) (hname : PlainName name)
    (hallowed : s.Allowed crates name (.push m)) : (s.push crates name m).Inv crates name newest := by
  obtain ⟨hfiles, hgrown, hqueue, hconsumer, hstage, hreturned, hpop⟩ :=
    h.files.push hname hallowed
  refine ⟨hfiles, ?_⟩
  rcases h.reads with hclosed | ⟨k, count, hstands, hreads⟩
  · exact .inl (hclosed.grown hqueue hconsumer hstage hreturned hpop)
  · refine .inr ⟨k, count, hstands.grown hgrown hqueue hconsumer,
      hreads.grown hstands hgrown hqueue hconsumer hstage hreturned ?_⟩
    intro hinformed hend hk
    rw [hgrown.older k hk]
    exact hreads.ended hinformed hend hk

end QueueReading

end Veda.GoWebserver
