import Veda.Onto.CborLazy
import Veda.VQueue.Batches
import Veda.VQueue.Lines
import Veda.VQueue.Producing

set_option autoImplicit false

/-!
# The loop of a module over its queue

`listen_queue` asks for the size of a batch, takes the messages of the batch one after another,
gives each of them to `prepare`, and saves its position when `prepare` says so or when the batch
ends. The position that is saved is the place of the consumer, so that it is behind every message
that was taken before. An error of `prepare` that is not fatal is not an answer to the question
whether the position shall be saved, and the question was answered with yes in front of the call.

## Main definitions

* `VModule.Listener`, `VModule.Listener.step` — a queue, its producer and the loop.
* `VModule.Listener.NoneGivenUp` — the saved position is behind handled messages only.
* `VModule.Listener.Allowed` — the condition of a step.

## Main results

* `VModule.Listener.noneGivenUp_of_reached` — no message is given up when every step meets its
  condition.

## Design

`before_batch`, `prepare` and `after_batch` are given by the caller; what they answer is a part of
the operation. A step is one call of the consumer or of one of these functions, and operations of the
producer come between any two steps. A restart is a new consumer with the loop at its beginning.
Waiting for notifications and the log are left out.
-/

namespace Veda.VModule

open Veda.VQueue Veda.Onto

inductive PrepareError
  | fatal
  | recoverable
  deriving DecidableEq

/-- What happens to messages. -/
inductive Event
  /-- the body of message `i` of part `k` was given to `prepare` -/
  | prepared (k i : ℕ) (msg : List UInt8) (answer : Except PrepareError Bool)
  /-- the position was saved behind a batch -/
  | batchCommitted
  deriving DecidableEq

/-- The batch in which the loop is. -/
structure Batch where
  sizeBatch : ℕ
  /-- the rounds that are left -/
  left : ℕ
  preparedBatchSize : ℕ
  deriving DecidableEq

/-- Where the loop is. -/
inductive Phase
  | top
  | batch (b : Batch)
  | header (b : Batch)
  | body (b : Batch) (msg : List UInt8)
  | answered (b : Batch) (needCommit : Bool)
  | stopped
  deriving DecidableEq

/-- A queue with its producer, and a module that listens to it. -/
structure Listener where
  disk : Disk
  producer : Option Queue
  consumer : Option Consumer
  phase : Phase
  /-- the messages that were pushed to each part -/
  pushed : ℕ → List Message
  trace : List Event

inductive Op
  | openQueue
  | push (m : Message)
  | restart
  | startBatch (newSize : Option ℕ)
  | popHeader
  | popBody
  | prepare (answer : Except PrepareError Bool)
  | next
  | endBatch (commit : Bool)
  deriving DecidableEq

/-- The message can be read as an individual. -/
def parses (cbor : CborParser) (msg : List UInt8) : Bool :=
  match (Individual.newRaw (.new msg)).parseRaw cbor with
  | (.ok (), _) => true
  | (.error _, _) => false

/-- `next(commit)`. -/
def nextCommit (name consumerName : List Char) (c : Consumer) (d : Disk) (commit : Bool) :
    Disk × Consumer :=
  if !c.isReady then (d, c)
  else
    let c := { c with countPopped := addU32 c.countPopped 1 }
    (if commit then c.commit name consumerName d else d, c)

theorem nextCommit_of_ready (name consumerName : List Char) {c : Consumer} (hready : c.isReady = true)
    (d : Disk) (commit : Bool) :
    nextCommit name consumerName c d commit =
      (if commit then
          Consumer.commit name consumerName { c with countPopped := addU32 c.countPopped 1 } d
        else d,
        { c with countPopped := addU32 c.countPopped 1 }) := by
  rw [nextCommit, if_neg (by simp [hready])]

namespace Listener

/-! ## Steps -/

section Steps

variable (crates : Crates) (cbor : CborParser) (name consumerName : List Char)

/-- Nothing exists. -/
def empty : Listener where
  disk := .empty
  producer := none
  consumer := none
  phase := .stopped
  pushed := fun _ => []
  trace := []

/-- `Queue::new` for the producer. -/
def openQueue (s : Listener) : Listener :=
  match Queue.newReadWrite crates name s.disk .full .full with
  | (.ok q, disk) => { s with disk, producer := some q }
  | (.error _, disk) => { s with disk, producer := none }

/-- `Queue::push`, with all writes. -/
def push (s : Listener) (m : Message) : Listener :=
  match s.producer with
  | none => s
  | some q =>
    match q.push crates name s.disk m ⟨.full, .full, .full⟩ with
    | (.ok _, disk, q') =>
      { s with disk, producer := some q', pushed := addMessage s.pushed q.id m }
    | (.error _, disk, q') => { s with disk, producer := some q' }

/-- `Consumer::new`, and the loop begins. -/
def restart (s : Listener) : Listener :=
  match Consumer.new crates name consumerName s.disk with
  | .ok c => { s with consumer := some c, phase := .top }
  | .error _ => { s with consumer := none, phase := .stopped }

/-- The information on the part is read, and a batch begins; `newSize` is what `before_batch`
answers. -/
def startBatch (s : Listener) (newSize : Option ℕ) : Listener :=
  match s.consumer, s.phase with
  | some c, .top =>
    match c.queue.getInfoOfPart crates name s.disk c.id true with
    | (.error _, q) => { s with consumer := some { c with queue := q } }
    | (.ok (), q) =>
      let (sizeBatch, c) := { c with queue := q }.getBatchSize crates name s.disk
      let maxSizeBatch := if 0 < sizeBatch then newSize.getD sizeBatch else sizeBatch
      { s with consumer := some c, phase := .batch ⟨sizeBatch, maxSizeBatch, 0⟩ }
  | _, _ => s

/-- A round of the batch begins with `pop_header`; the batch ends when there is no header. -/
def popHeader (s : Listener) : Listener :=
  match s.consumer, s.phase with
  | some c, .batch b =>
    if b.left = 0 then s
    else
      match c.popHeader crates name consumerName s.disk with
      | (true, disk, c) => { s with disk, consumer := some c, phase := .header b }
      | (false, disk, c) => { s with disk, consumer := some c, phase := .batch { b with left := 0 } }
  | _, _ => s

/-- `pop_body`, with a buffer of the length that the header gives; every error ends the batch. -/
def popBody (s : Listener) : Listener :=
  match s.consumer, s.phase with
  | some c, .header b =>
    match c.popBody crates s.disk c.header.msgLength with
    | (.ok msg, c) => { s with consumer := some c, phase := .body b msg }
    | (.error _, c) => { s with consumer := some c, phase := .batch { b with left := 0 } }
  | _, _ => s

/-- `prepare` answers, when the message can be read. The position is to be saved unless the answer
says otherwise. -/
def prepare (s : Listener) (answer : Except PrepareError Bool) : Listener :=
  match s.consumer, s.phase with
  | some c, .body b msg =>
    if parses cbor msg then
      let s := { s with trace := s.trace ++ [Event.prepared c.id c.countPopped msg answer] }
      match answer with
      | .error .fatal => { s with phase := .stopped }
      | .error .recoverable => { s with phase := .answered b true }
      | .ok needCommit => { s with phase := .answered b needCommit }
    else { s with phase := .answered b true }
  | _, _ => s

/-- `next`, at the end of a round. -/
def next (s : Listener) : Listener :=
  match s.consumer, s.phase with
  | some c, .answered b needCommit =>
    let (disk, c) := nextCommit name consumerName c s.disk needCommit
    { s with
      disk, consumer := some c
      phase := .batch ⟨b.sizeBatch, b.left - 1, b.preparedBatchSize + 1⟩ }
  | _, _ => s

/-- The batch ends; `commit` is what `after_batch` answers. -/
def endBatch (s : Listener) (commit : Bool) : Listener :=
  match s.consumer, s.phase with
  | some c, .batch b =>
    if b.left ≠ 0 then s
    else if 0 < b.sizeBatch ∧ commit then
      { s with
        disk := c.commit name consumerName s.disk
        phase := .top
        trace := s.trace ++ [.batchCommitted] }
    else { s with phase := .top }
  | _, _ => s

def step (s : Listener) : Op → Listener
  | .openQueue => s.openQueue crates name
  | .push m => s.push crates name m
  | .restart => s.restart crates name consumerName
  | .startBatch newSize => s.startBatch crates name newSize
  | .popHeader => s.popHeader crates name consumerName
  | .popBody => s.popBody crates
  | .prepare answer => s.prepare cbor answer
  | .next => s.next name consumerName
  | .endBatch commit => s.endBatch name consumerName commit

/-- The state behind the first `Queue::new`. -/
def start : Listener := empty.openQueue crates name

end Steps

/-! ## Messages that are given up -/

/-- A message was prepared with the answer `Ok(true)`, or with `Ok(false)` and a batch was committed
later. -/
def Handled (trace : List Event) (k i : ℕ) (msg : List UInt8) : Prop :=
  Event.prepared k i msg (.ok true) ∈ trace ∨
    ∃ before behind, trace = before ++ Event.prepared k i msg (.ok false) :: behind ∧
      Event.batchCommitted ∈ behind

/-- The saved position is behind `count` messages of the part `id`. -/
def SavedAt (crates : Crates) (name consumerName : List Char) (s : Listener) (count id : ℕ) : Prop :=
  ∃ pos, readPopInfo crates name consumerName s.disk.infoPop = some (pos, count, id)

/-- **No message is given up**: every message in front of the saved position is handled. -/
def NoneGivenUp (crates : Crates) (name consumerName : List Char) (s : Listener) : Prop :=
  ∀ count id, s.SavedAt crates name consumerName count id →
    ∀ k i m, (s.pushed k)[i]? = some m → k < id ∨ k = id ∧ i < count →
      Handled s.trace k i m.body

/-! ## Conditions of the steps -/

/-- The saved position is the place of the consumer. -/
def Saved (crates : Crates) (name consumerName : List Char) (s : Listener) : Prop :=
  ∀ c, s.consumer = some c → s.SavedAt crates name consumerName c.countPopped c.id

/-- The consumer has taken everything of a part that is not the newest. -/
def AtEnd (crates : Crates) (name : List Char) (s : Listener) : Prop :=
  ∃ c newest, s.consumer = some c ∧
    readQueueInfo crates name (s.disk.infoQueue.getD []) = some newest ∧ c.id < newest ∧
    (s.pushed c.id).length ≤ c.countPopped

/-- The condition of a step. Messages are well-formed and numbers do not overflow. `prepare` answers
no recoverable error, and it answers `Ok(true)` only when the position is saved up to the message; a
part is left only when the position is saved up to its end. -/
def Allowed (crates : Crates) (cbor : CborParser) (name consumerName : List Char) (s : Listener) :
    Op → Prop
  | .openQueue => ∀ newest,
    readQueueInfo crates name (s.disk.infoQueue.getD []) = some newest → newest + 1 < 2 ^ 32
  | .push m => parses cbor m.body = true ∧ ∀ q, s.producer = some q →
    q.countPushed + 1 < 2 ^ 32 ∧ q.rightEdge + headerSize + m.body.length < 2 ^ 64
  | .popHeader => s.AtEnd crates name → s.Saved crates name consumerName
  | .prepare answer =>
    answer ≠ .error .recoverable ∧ (answer = .ok true → s.Saved crates name consumerName)
  | .restart | .startBatch _ | .popBody | .next | .endBatch _ => True

/-- A state of a run whose steps meet their conditions. -/
inductive Reached (crates : Crates) (cbor : CborParser) (name consumerName : List Char) :
    Listener → Prop
  | start : Reached crates cbor name consumerName (start crates name)
  | step {s : Listener} (op : Op) : Reached crates cbor name consumerName s →
      s.Allowed crates cbor name consumerName op →
      Reached crates cbor name consumerName (s.step crates cbor name consumerName op)

/-! ## The invariant -/

section Invariant

variable (crates : Crates) (name consumerName : List Char)

/-- The saved position is behind `saved` messages of the part `k`, and what is in front of it is
handled. -/
structure HandledUpTo (s : Listener) (newest k saved : ℕ) : Prop where
  read : readPopInfo crates name consumerName s.disk.infoPop =
    some (lengthOf ((s.pushed k).take saved), saved, k)
  part_le : k ≤ newest
  saved_le : saved ≤ (s.pushed k).length
  handled : ∀ j i m, (s.pushed j)[i]? = some m → j < k ∨ j = k ∧ i < saved →
    Handled s.trace j i m.body

/-- The messages between the saved position and the place of the consumer were answered with
`Ok(false)`. -/
structure Between (s : Listener) (newest k saved count : ℕ) : Prop
    extends HandledUpTo crates name consumerName s newest k saved where
  le : saved ≤ count
  count_le : count ≤ (s.pushed k).length
  seen : ∀ i m, saved ≤ i → i < count → (s.pushed k)[i]? = some m →
    Event.prepared k i m.body (.ok false) ∈ s.trace

/-- What the consumer is, by the place of the loop. -/
inductive Listens (s : Listener) (newest : ℕ) (c : Consumer) : Phase → Prop
  | top {k saved count : ℕ} : Between crates name consumerName s newest k saved count →
      Near newest s.pushed (lengths s.pushed) k count c → c.queue.offset = c.posRecord →
      Listens s newest c .top
  | batch {k saved count : ℕ} {b : Batch} :
      Between crates name consumerName s newest k saved count →
      Near newest s.pushed (lengths s.pushed) k count c → c.queue.offset = c.posRecord →
      Listens s newest c (.batch b)
  | header {k saved count : ℕ} {b : Batch} {m : Message} :
      Between crates name consumerName s newest k saved count →
      Near newest s.pushed (lengths s.pushed) k count c →
      HeaderTaken crates s.pushed k count m c → Listens s newest c (.header b)
  | body {k saved count : ℕ} {b : Batch} {m : Message} :
      Between crates name consumerName s newest k saved count →
      (s.pushed k)[count]? = some m → c.countPopped = count →
      Near newest s.pushed (lengths s.pushed) k (count + 1) { c with countPopped := count + 1 } →
      c.queue.offset = c.posRecord → Listens s newest c (.body b m.body)
  | answered {k saved count : ℕ} {b : Batch} {m : Message} {needCommit : Bool} :
      Between crates name consumerName s newest k saved count →
      (s.pushed k)[count]? = some m → c.countPopped = count →
      Near newest s.pushed (lengths s.pushed) k (count + 1) { c with countPopped := count + 1 } →
      c.queue.offset = c.posRecord →
      Event.prepared k count m.body (.ok needCommit) ∈ s.trace →
      (needCommit = true → saved = count) → Listens s newest c (.answered b needCommit)
  | stopped : Listens s newest c .stopped

/-- **The invariant** of the runs whose steps meet their conditions. -/
structure Inv (cbor : CborParser) (s : Listener) (newest : ℕ) : Prop where
  producing : Producing crates name s.disk s.producer s.pushed newest
  linked : ∀ k ≤ newest, s.disk.linked k = true
  parses : ∀ k, ∀ m ∈ s.pushed k, parses cbor m.body = true
  saved : ∃ k saved, HandledUpTo crates name consumerName s newest k saved
  listens : ∀ c, s.consumer = some c → Listens crates name consumerName s newest c s.phase

end Invariant

variable {crates : Crates} {cbor : CborParser} {name consumerName : List Char} {s s' : Listener}
  {newest newest' k saved count i : ℕ} {c : Consumer} {m : Message} {msg : List UInt8}
  {trace : List Event}

/-! ## Handled messages -/

theorem Handled.append (h : Handled trace k i msg) (events : List Event) :
    Handled (trace ++ events) k i msg := by
  rcases h with hin | ⟨before, behind, htrace, hcommitted⟩
  · exact .inl (List.mem_append_left _ hin)
  · refine .inr ⟨before, behind ++ events, ?_, List.mem_append_left _ hcommitted⟩
    rw [htrace, List.append_assoc, List.cons_append]

theorem Handled.of_committed (h : Event.prepared k i msg (.ok false) ∈ trace) :
    Handled (trace ++ [.batchCommitted]) k i msg := by
  obtain ⟨before, behind, rfl⟩ := List.append_of_mem h
  refine .inr ⟨before, behind ++ [.batchCommitted], ?_, ?_⟩
  · rw [List.append_assoc, List.cons_append]
  · exact List.mem_append_right _ (List.mem_singleton_self _)

theorem Inv.noneGivenUp (h : Inv crates name consumerName cbor s newest) :
    s.NoneGivenUp crates name consumerName := by
  obtain ⟨k, saved, hsaved⟩ := h.saved
  rintro count id ⟨pos, hread⟩ j i m hm hfront
  rw [hsaved.read] at hread
  cases hread
  exact hsaved.handled j i m hm hfront

theorem Between.saved_eq (h : Between crates name consumerName s newest k saved count)
    (hsaved : s.SavedAt crates name consumerName count k) : saved = count := by
  obtain ⟨pos, hread⟩ := hsaved
  rw [h.read] at hread
  cases hread
  rfl

/-! ## Steps of the producer -/

/-- **Messages are appended**: what was handled stays so. -/
theorem HandledUpTo.grown (h : HandledUpTo crates name consumerName s newest k saved)
    (hgrown : Grown s.pushed newest s'.pushed newest') (htrace : s'.trace = s.trace)
    (hpop : s'.disk.infoPop = s.disk.infoPop) :
    HandledUpTo crates name consumerName s' newest' k saved where
  read := by rw [hpop, h.read, hgrown.take_eq h.saved_le]
  part_le := h.part_le.trans hgrown.newest_le
  saved_le := h.saved_le.trans (hgrown.lengths_le k)
  handled := by
    intro j i m hm hfront
    rw [htrace]
    apply h.handled j i m _ hfront
    rcases hfront with hlt | ⟨rfl, hlt⟩
    · rw [← hgrown.older j (hlt.trans_le h.part_le), hm]
    · have hin : i < (s.pushed j).length := hlt.trans_le h.saved_le
      rw [List.getElem?_eq_getElem hin] at *
      rw [hgrown.getElem? (List.getElem?_eq_getElem hin)] at hm
      exact hm

theorem Between.grown (h : Between crates name consumerName s newest k saved count)
    (hgrown : Grown s.pushed newest s'.pushed newest') (htrace : s'.trace = s.trace)
    (hpop : s'.disk.infoPop = s.disk.infoPop) :
    Between crates name consumerName s' newest' k saved count where
  toHandledUpTo := h.toHandledUpTo.grown hgrown htrace hpop
  le := h.le
  count_le := h.count_le.trans (hgrown.lengths_le k)
  seen := by
    intro i m hi hlt hm
    have hin : i < (s.pushed k).length := hlt.trans_le h.count_le
    rw [hgrown.getElem? (List.getElem?_eq_getElem hin)] at hm
    rw [htrace]
    apply h.seen i m hi hlt
    rw [List.getElem?_eq_getElem hin, hm]

/-- **The consumer is what it was**, with respect to the new state. -/
theorem Listens.grown {phase : Phase} (h : Listens crates name consumerName s newest c phase)
    (hgrown : Grown s.pushed newest s'.pushed newest') (htrace : s'.trace = s.trace)
    (hpop : s'.disk.infoPop = s.disk.infoPop) :
    Listens crates name consumerName s' newest' c phase := by
  have hnear : ∀ {k count : ℕ} {c : Consumer}, Near newest s.pushed (lengths s.pushed) k count c →
      Near newest' s'.pushed (lengths s'.pushed) k count c := by
    intro k count c hat
    exact ⟨hgrown.stands hat.toStands,
      hat.queueId.imp_right fun ⟨hlt, hle⟩ => ⟨hlt, hle.trans hgrown.newest_le⟩⟩
  cases h with
  | top hbetween hat hoffset =>
    exact .top (hbetween.grown hgrown htrace hpop) (hnear hat) hoffset
  | batch hbetween hat hoffset =>
    exact .batch (hbetween.grown hgrown htrace hpop) (hnear hat) hoffset
  | header hbetween hat htaken =>
    exact .header (hbetween.grown hgrown htrace hpop) (hnear hat)
      (hgrown.headerTaken hbetween.count_le htaken)
  | body hbetween hm hcount hat hoffset =>
    exact .body (hbetween.grown hgrown htrace hpop) (hgrown.getElem? hm) hcount (hnear hat) hoffset
  | answered hbetween hm hcount hat hoffset hin hneed =>
    rw [← htrace] at hin
    exact .answered (hbetween.grown hgrown htrace hpop) (hgrown.getElem? hm) hcount (hnear hat)
      hoffset hin hneed
  | stopped => exact .stopped

theorem Inv.grown (h : Inv crates name consumerName cbor s newest)
    (hproducing : Producing crates name s'.disk s'.producer s'.pushed newest')
    (hgrown : Grown s.pushed newest s'.pushed newest')
    (hlinked : ∀ k ≤ newest', s'.disk.linked k = true)
    (hparses : ∀ k, ∀ m ∈ s'.pushed k, VModule.parses cbor m.body = true)
    (hpop : s'.disk.infoPop = s.disk.infoPop) (hconsumer : s'.consumer = s.consumer)
    (hphase : s'.phase = s.phase) (htrace : s'.trace = s.trace) :
    Inv crates name consumerName cbor s' newest' where
  producing := hproducing
  linked := hlinked
  parses := hparses
  saved := by
    obtain ⟨k, saved, hsaved⟩ := h.saved
    exact ⟨k, saved, hsaved.grown hgrown htrace hpop⟩
  listens := by
    intro c hc
    rw [hphase]
    rw [hconsumer] at hc
    exact (h.listens c hc).grown hgrown htrace hpop

theorem start_eq (crates : Crates) (hname : PlainName name) :
    start crates name = { empty with
      disk := partOpened crates name .empty 0
      producer := some ⟨.readWrite, true, .part 0, 0, .part 0, 0, 0, 0⟩ } := by
  rw [start, openQueue, show empty.disk = Disk.empty from rfl, (Producing.start crates hname).1]

/-- **The first part** is opened. -/
theorem inv_start (crates : Crates) (cbor : CborParser) (consumerName : List Char)
    (hname : PlainName name) : Inv crates name consumerName cbor (start crates name) 0 := by
  obtain ⟨-, hproducing⟩ := Producing.start crates hname
  rw [start_eq crates hname]
  exact {
    producing := hproducing
    linked := by
      intro k hk
      obtain rfl : k = 0 := Nat.le_zero.mp hk
      exact hproducing.newest_linked
    parses := by
      rintro k m ⟨⟩
    saved := by
      refine ⟨0, 0, rfl, Nat.le_refl _, Nat.le_refl _, ?_⟩
      intro j i m _ hfront
      omega
    listens := by
      rintro c ⟨⟩ }

/-- **A new part** is opened by the producer. -/
theorem Inv.openQueue (hname : PlainName name) (h : Inv crates name consumerName cbor s newest)
    (hnewest : newest + 1 < 2 ^ 32) :
    Inv crates name consumerName cbor (s.openQueue crates name) (newest + 1) := by
  obtain ⟨q, hopen, hproducing, hlinked⟩ := h.producing.openQueue hname hnewest
  have hopened : s.openQueue crates name =
      { s with disk := partOpened crates name s.disk (newest + 1), producer := some q } := by
    rw [Listener.openQueue, hopen]
  rw [hopened]
  refine h.grown hproducing (Grown.succ s.pushed newest) ?_ h.parses rfl rfl rfl rfl
  intro k hk
  rcases Nat.lt_or_eq_of_le hk with hlt | rfl
  · have hold := h.linked k (Nat.le_of_lt_succ hlt)
    rw [← hlinked k hlt.ne] at hold
    exact hold
  · exact hproducing.newest_linked

/-- **A message** is pushed. -/
theorem Inv.push (hname : PlainName name) (h : Inv crates name consumerName cbor s newest)
    (hallowed : s.Allowed crates cbor name consumerName (.push m)) :
    Inv crates name consumerName cbor (s.push crates name m) newest := by
  obtain ⟨hparses, hnumbers⟩ := hallowed
  cases hq : s.producer with
  | none =>
    rw [Listener.push, hq]
    exact h
  | some q =>
    have hproducing := h.producing
    rw [hq] at hproducing
    obtain ⟨hcount, hlength⟩ := hnumbers q hq
    rcases hproducing.push hname hcount hlength with
      hlong | ⟨d', q', hpush, hid, hproducing', hlinked, hpop, -⟩
    · have hpushed : s.push crates name m = s := by
        rw [Listener.push, hq]
        dsimp only
        rw [hlong]
        dsimp only
        rw [← hq]
      rw [hpushed]
      exact h
    · have hpushed : s.push crates name m = { s with
          disk := d', producer := some q', pushed := addMessage s.pushed newest m } := by
        rw [Listener.push, hq]
        dsimp only
        rw [hpush, ← hid]
      rw [hpushed]
      refine h.grown hproducing' (Grown.message s.pushed newest m) ?_ ?_ hpop rfl rfl rfl
      · intro k hk
        show d'.linked k = true
        rw [hlinked]
        exact h.linked k hk
      · exact forall_mem_addMessage h.parses hparses

/-! ## Steps of the loop -/

theorem Inv.moved (h : Inv crates name consumerName cbor s newest) {phase : Phase}
    (hlistens : Listens crates name consumerName { s with consumer := some c, phase } newest c
      phase) :
    Inv crates name consumerName cbor { s with consumer := some c, phase } newest where
  producing := h.producing
  linked := h.linked
  parses := h.parses
  saved := by
    obtain ⟨k, saved, hsaved⟩ := h.saved
    exact ⟨k, saved, { hsaved with }⟩
  listens := by
    rintro c' ⟨⟩
    exact hlistens

theorem Inv.restart_eq (h : Inv crates name consumerName cbor s newest) :
    ∃ k saved c, HandledUpTo crates name consumerName s newest k saved ∧
      s.restart crates name consumerName = { s with consumer := some c, phase := .top } ∧
      At s.pushed (lengths s.pushed) k saved c ∧ c.queue.offset = c.posRecord := by
  obtain ⟨k, saved, hsaved⟩ := h.saved
  obtain ⟨c, hnew, hopened⟩ := h.producing.stored.new_opens hsaved.read
    (h.linked newest (Nat.le_refl _)) rfl
  rw [h.linked k hsaved.part_le, if_pos rfl] at hopened
  refine ⟨k, saved, c, hsaved, ?_, hopened.at rfl hsaved.saved_le,
    hopened.offset.trans hopened.posRecord.symm⟩
  rw [Listener.restart, hnew]

/-- **A new consumer** begins at the saved position. -/
theorem Inv.restart (h : Inv crates name consumerName cbor s newest) :
    Inv crates name consumerName cbor (s.restart crates name consumerName) newest := by
  obtain ⟨k, saved, c, hsaved, hrestart, hat, hoffset⟩ := h.restart_eq
  have hbetween : Between crates name consumerName s newest k saved saved :=
    { hsaved with
      le := Nat.le_refl _
      count_le := hsaved.saved_le
      seen := fun i m hi hlt => absurd hlt (Nat.not_lt.mpr hi) }
  rw [hrestart]
  apply h.moved
  exact .top { hbetween with } hat.near hoffset

/-- **A batch begins.** -/
theorem Inv.startBatch (h : Inv crates name consumerName cbor s newest) (newSize : Option ℕ) :
    Inv crates name consumerName cbor (s.startBatch crates name newSize) newest := by
  unfold Listener.startBatch
  split
  case h_2 => exact h
  case h_1 c hc hphase =>
  have hlistens := h.listens c hc
  rw [hphase] at hlistens
  cases hlistens with
  | @top k saved count hbetween hnear hoffset =>
    obtain ⟨q, hinfo, hnear', hplace, hpos⟩ := hnear.batch h.producing.stored hbetween.part_le
      (h.linked k hbetween.part_le)
    rw [hinfo]
    apply h.moved
    exact .batch { hbetween with } hnear' (hplace.trans (hoffset.trans hpos.symm))

theorem HandledUpTo.entered (hname : PlainName name) (hconsumer : PlainName consumerName)
    (h : HandledUpTo crates name consumerName s newest k saved)
    (hend : saved = (s.pushed k).length) (hk : k < newest) (hnewest : newest < 2 ^ 32)
    (hdisk : s'.disk = s.disk.entered name consumerName (k + 1)) (hpushed : s'.pushed = s.pushed)
    (htrace : s'.trace = s.trace) :
    Between crates name consumerName s' newest (k + 1) 0 0 where
  read := by
    rw [hdisk]
    exact readPopInfo_written crates hname hconsumer (by decide) (by decide) (by omega) []
  part_le := hk
  saved_le := Nat.zero_le _
  handled := by
    intro j i m hm hfront
    rw [hpushed] at hm
    rw [htrace]
    apply h.handled j i m hm
    rcases Nat.lt_or_ge j k with hlt | hge
    · exact .inl hlt
    · obtain rfl : j = k := by omega
      obtain ⟨hin, -⟩ := List.getElem?_eq_some_iff.mp hm
      exact .inr ⟨rfl, hend ▸ hin⟩
  le := Nat.le_refl _
  count_le := Nat.zero_le _
  seen := fun i m _ hlt => absurd hlt (Nat.not_lt_zero i)

/-- **`pop_header`** at the beginning of a round. -/
theorem Inv.popHeader (hname : PlainName name) (hconsumer : PlainName consumerName)
    (h : Inv crates name consumerName cbor s newest)
    (hallowed : s.AtEnd crates name → s.Saved crates name consumerName) :
    Inv crates name consumerName cbor (s.popHeader crates name consumerName) newest := by
  unfold Listener.popHeader
  split
  case h_2 => exact h
  case h_1 c b hc hphase =>
  have hstored := h.producing.stored
  have hlistens := h.listens c hc
  rw [hphase] at hlistens
  split
  case isTrue => exact h
  case isFalse =>
  cases hlistens with
  | @batch k saved count _ hbetween hnear hoffset =>
    have hlinked := h.linked k hbetween.part_le
    rcases Nat.lt_or_eq_of_le hbetween.count_le with hlt | hend
    · obtain ⟨c', m, hpop, hnear', htaken⟩ :=
        hnear.popHeader_next hstored consumerName hlinked hoffset hlt
      rw [hpop]
      exact h.moved (.header { hbetween with } hnear' htaken)
    · rcases Nat.lt_or_eq_of_le hbetween.part_le with hk | rfl
      · -- the part is left, so everything of it is handled
        have hsaved : saved = (s.pushed k).length := by
          have hatEnd : s.AtEnd crates name := by
            refine ⟨c, newest, hc, hstored.queueInfo, ?_, ?_⟩
            · rw [hnear.id]
              exact hk
            · rw [hnear.id, hnear.countPopped]
              exact hend.ge
          have hat := hallowed hatEnd c hc
          rw [hnear.id, hnear.countPopped] at hat
          exact (hbetween.saved_eq hat).trans hend
        have hentered : ∀ s' : Listener,
            s'.disk = s.disk.entered name consumerName (k + 1) → s'.pushed = s.pushed →
            s'.trace = s.trace → Between crates name consumerName s' newest (k + 1) 0 0 :=
          fun s' hdisk hpushed htrace => hbetween.toHandledUpTo.entered hname hconsumer hsaved hk
            hstored.newest_lt hdisk hpushed htrace
        have hinv : ∀ (c' : Consumer) (phase : Phase), Listens crates name consumerName
              { s with
                disk := s.disk.entered name consumerName (k + 1), consumer := some c', phase }
              newest c' phase →
            Inv crates name consumerName cbor
              { s with
                disk := s.disk.entered name consumerName (k + 1), consumer := some c', phase }
              newest := by
          intro c' phase hlistens
          exact {
            producing := h.producing.withPop _
            linked := h.linked
            parses := h.parses
            saved := by
              have hbetween' := hentered
                { s with
                  disk := s.disk.entered name consumerName (k + 1), consumer := some c', phase }
                rfl rfl rfl
              exact ⟨k + 1, 0, hbetween'.toHandledUpTo⟩
            listens := by
              rintro c'' ⟨⟩
              exact hlistens }
        rcases hnear.popHeader_enter hstored consumerName hlinked hend hk (h.linked (k + 1) hk) with
          ⟨-, c', m, hpop, hnear', htaken⟩ | ⟨-, c', hpop, hnear', hoffset'⟩
        · rw [hpop]
          exact hinv c' _ (.header (hentered _ rfl rfl rfl) hnear' htaken)
        · rw [hpop]
          exact hinv c' _ (.batch (hentered _ rfl rfl rfl) hnear' hoffset')
      · obtain ⟨c', hpop, hnear', hoffset'⟩ :=
          hnear.popHeader_end hstored consumerName hoffset hend
        rw [hpop]
        exact h.moved (.batch { hbetween with } hnear' hoffset')

/-- **`pop_body`** behind a header. -/
theorem Inv.popBody (h : Inv crates name consumerName cbor s newest) :
    Inv crates name consumerName cbor (s.popBody crates) newest := by
  unfold Listener.popBody
  split
  case h_2 => exact h
  case h_1 c b hc hphase =>
  have hlistens := h.listens c hc
  rw [hphase] at hlistens
  cases hlistens with
  | @header k saved count _ m hbetween hnear htaken =>
    obtain ⟨hlt, -⟩ := List.getElem?_eq_some_iff.mp htaken.next
    rw [h.producing.stored.popBody_next hnear.isReady hnear.ffQueue hnear.posRecord htaken]
    apply h.moved
    refine .body { hbetween with } htaken.next hnear.countPopped ?_ rfl
    exact { hnear with
      countPopped := rfl
      posRecord := rfl
      count_le := hlt }

/-- **`prepare`** answers. -/
theorem Inv.prepare (h : Inv crates name consumerName cbor s newest)
    {answer : Except PrepareError Bool} (hnot : answer ≠ .error .recoverable)
    (hok : answer = .ok true → s.Saved crates name consumerName) :
    Inv crates name consumerName cbor (s.prepare cbor answer) newest := by
  unfold Listener.prepare
  split
  case h_2 => exact h
  case h_1 c b msg hc hphase =>
  have hlistens := h.listens c hc
  rw [hphase] at hlistens
  cases hlistens with
  | @body k saved count _ m hbetween hm hcount hnear hoffset =>
    have hmem : m ∈ s.pushed k := List.mem_of_getElem? hm
    have hid : c.id = k := hnear.id
    have hparses : VModule.parses cbor m.body = true := h.parses k m hmem
    rw [hparses, if_pos rfl, hid, hcount]
    -- the trace is longer, and the position is where it was
    have hbetween' : ∀ phase, Between crates name consumerName
        { s with
          trace := s.trace ++ [Event.prepared k count m.body answer], phase }
        newest k saved count := by
      intro phase
      exact {
        read := hbetween.read
        part_le := hbetween.part_le
        saved_le := hbetween.saved_le
        handled := fun j i m' hm' hfront => (hbetween.handled j i m' hm' hfront).append _
        le := hbetween.le
        count_le := hbetween.count_le
        seen := fun i m' hi hlt hm' => List.mem_append_left _ (hbetween.seen i m' hi hlt hm') }
    have hinv : ∀ phase, Listens crates name consumerName
          { s with
            trace := s.trace ++ [Event.prepared k count m.body answer], phase } newest c phase →
        Inv crates name consumerName cbor
          { s with
            trace := s.trace ++ [Event.prepared k count m.body answer], phase } newest := by
      intro phase hlistens
      exact {
        producing := h.producing
        linked := h.linked
        parses := h.parses
        saved := ⟨k, saved, (hbetween' phase).toHandledUpTo⟩
        listens := by
          intro c' hc'
          have hc' : s.consumer = some c' := hc'
          rw [hc] at hc'
          cases hc'
          exact hlistens }
    match answer with
    | .error .fatal => exact hinv _ .stopped
    | .error .recoverable => exact absurd rfl hnot
    | .ok needCommit =>
      apply hinv
      refine .answered (hbetween' _) hm hcount hnear hoffset ?_ ?_
      · exact List.mem_append_right _ (List.mem_singleton_self _)
      · rintro rfl
        have hat := hok rfl c hc
        rw [hid, hcount] at hat
        exact hbetween.saved_eq hat

theorem Inv.read_committed (hname : PlainName name) (hconsumer : PlainName consumerName)
    (h : Inv crates name consumerName cbor s newest) (hk : k ≤ newest)
    (hat : Stands s.pushed (lengths s.pushed) k count { c with countPopped := count }) :
    readPopInfo crates name consumerName
      (Consumer.commit name consumerName { c with countPopped := count } s.disk).infoPop =
        some (lengthOf ((s.pushed k).take count), count, k) := by
  have hstored := h.producing.stored
  have hwritten := readPopInfo_written crates hname hconsumer (hstored.lengthOf_take_lt k count)
    (hat.count_le.trans_lt (hstored.count_lt k)) (hk.trans_lt hstored.newest_lt) s.disk.infoPop
  rw [← hat.posRecord, ← show c.id = k from hat.id] at hwritten ⊢
  exact hwritten

/-- **`next`** at the end of a round: with `commit` the message is in front of the saved position,
and otherwise it is one of those that were answered with `Ok(false)`. -/
theorem Inv.next (hname : PlainName name) (hconsumer : PlainName consumerName)
    (h : Inv crates name consumerName cbor s newest) :
    Inv crates name consumerName cbor (s.next name consumerName) newest := by
  unfold Listener.next
  split
  case h_2 => exact h
  case h_1 c b needCommit hc hphase =>
  have hstored := h.producing.stored
  have hlistens := h.listens c hc
  rw [hphase] at hlistens
  cases hlistens with
  | @answered k saved count _ m _ hbetween hm hcount hnear hoffset hprepared hneed =>
    have hfits : count + 1 < 2 ^ 32 := hnear.count_le.trans_lt (hstored.count_lt k)
    have hnumber : addU32 c.countPopped 1 = count + 1 := by
      rw [hcount, addU32, Nat.mod_eq_of_lt hfits]
    have hready : c.isReady = true := hnear.isReady
    obtain ⟨hin, -⟩ := List.getElem?_eq_some_iff.mp hm
    have hsame : ∀ m', (s.pushed k)[count]? = some m' → m' = m := by
      intro m' hm'
      rw [hm] at hm'
      exact (Option.some.inj hm').symm
    rw [nextCommit_of_ready name consumerName hready, hnumber]
    cases needCommit with
    | true =>
      obtain rfl := hneed rfl
      have hread := h.read_committed hname hconsumer hbetween.part_le hnear.toStands
      have hhandled : ∀ j i m', (s.pushed j)[i]? = some m' → j < k ∨ j = k ∧ i < saved + 1 →
          Handled s.trace j i m'.body := by
        intro j i m' hm' hfront
        by_cases hlast : j = k ∧ i = saved
        · obtain ⟨rfl, rfl⟩ := hlast
          rw [hsame m' hm']
          exact .inl hprepared
        · exact hbetween.handled j i m' hm' (by omega)
      exact {
        producing := h.producing.withPop _
        linked := h.linked
        parses := h.parses
        saved := ⟨k, saved + 1, ⟨hread, hbetween.part_le, hin, hhandled⟩⟩
        listens := by
          rintro c' ⟨⟩
          exact .batch (show Between crates name consumerName _ newest k (saved + 1) (saved + 1) from {
            read := hread
            part_le := hbetween.part_le
            saved_le := hin
            handled := hhandled
            le := Nat.le_refl _
            count_le := hin
            seen := fun i m' hi hlt => absurd hlt (Nat.not_lt.mpr hi) }) hnear hoffset }
    | false =>
      apply h.moved
      have hbetween' : Between crates name consumerName s newest k saved (count + 1) :=
        { hbetween with
          le := hbetween.le.trans (Nat.le_succ _)
          count_le := hin
          seen := by
            intro i m' hi hlt hm'
            rcases Nat.lt_or_eq_of_le (Nat.le_of_lt_succ hlt) with hlt' | rfl
            · exact hbetween.seen i m' hi hlt' hm'
            · rw [hsame m' hm']
              exact hprepared }
      exact .batch { hbetween' with } hnear hoffset

/-- **The batch ends**: when it is committed, everything in front of the consumer is handled. -/
theorem Inv.endBatch (hname : PlainName name) (hconsumer : PlainName consumerName)
    (h : Inv crates name consumerName cbor s newest) (commit : Bool) :
    Inv crates name consumerName cbor (s.endBatch name consumerName commit) newest := by
  unfold Listener.endBatch
  split
  case h_2 => exact h
  case h_1 c b hc hphase =>
  have hstored := h.producing.stored
  have hlistens := h.listens c hc
  rw [hphase] at hlistens
  cases hlistens with
  | @batch k saved count _ hbetween hnear hoffset =>
    split
    case isTrue => exact h
    case isFalse =>
    split
    case isFalse =>
      have hmoved : Inv crates name consumerName cbor
          { s with consumer := some c, phase := .top } newest :=
        h.moved (.top { hbetween with } hnear hoffset)
      rw [← hc] at hmoved
      exact hmoved
    case isTrue =>
      have hread : readPopInfo crates name consumerName
          (c.commit name consumerName s.disk).infoPop =
            some (lengthOf ((s.pushed k).take count), count, k) := by
        have hwritten := readPopInfo_written crates hname hconsumer
          (hstored.lengthOf_take_lt k count) (hbetween.count_le.trans_lt (hstored.count_lt k))
          (hbetween.part_le.trans_lt hstored.newest_lt) s.disk.infoPop
        rw [Consumer.commit, hnear.posRecord, hnear.countPopped, hnear.id]
        exact hwritten
      have hhandled : ∀ j i m, (s.pushed j)[i]? = some m → j < k ∨ j = k ∧ i < count →
          Handled (s.trace ++ [.batchCommitted]) j i m.body := by
        intro j i m hm hfront
        by_cases hbehind : j = k ∧ saved ≤ i
        · obtain ⟨rfl, hi⟩ := hbehind
          exact .of_committed (hbetween.seen i m hi (by omega) hm)
        · exact (hbetween.handled j i m hm (by omega)).append _
      exact {
        producing := h.producing.withPop _
        linked := h.linked
        parses := h.parses
        saved := ⟨k, count, ⟨hread, hbetween.part_le, hbetween.count_le, hhandled⟩⟩
        listens := by
          intro c' hc'
          have hc' : s.consumer = some c' := hc'
          rw [hc] at hc'
          cases hc'
          exact .top (show Between crates name consumerName _ newest k count count from {
            read := hread
            part_le := hbetween.part_le
            saved_le := hbetween.count_le
            handled := hhandled
            le := Nat.le_refl _
            count_le := hbetween.count_le
            seen := fun i m hi hlt => absurd hlt (Nat.not_lt.mpr hi) }) hnear hoffset }

/-! ## Runs -/

/-- **A step** that meets its condition keeps the invariant. -/
theorem Inv.step (hname : PlainName name) (hconsumer : PlainName consumerName) {op : Op}
    (h : Inv crates name consumerName cbor s newest)
    (hallowed : s.Allowed crates cbor name consumerName op) :
    ∃ newest', Inv crates name consumerName cbor (s.step crates cbor name consumerName op)
      newest' := by
  cases op with
  | openQueue =>
    exact ⟨newest + 1, h.openQueue hname (hallowed newest h.producing.stored.queueInfo)⟩
  | push m => exact ⟨newest, h.push hname hallowed⟩
  | restart => exact ⟨newest, h.restart⟩
  | startBatch newSize => exact ⟨newest, h.startBatch newSize⟩
  | popHeader => exact ⟨newest, h.popHeader hname hconsumer hallowed⟩
  | popBody => exact ⟨newest, h.popBody⟩
  | prepare answer => exact ⟨newest, h.prepare hallowed.1 hallowed.2⟩
  | next => exact ⟨newest, h.next hname hconsumer⟩
  | endBatch commit => exact ⟨newest, h.endBatch hname hconsumer commit⟩

/-- **The states of a run** whose steps meet their conditions. -/
theorem Reached.inv (hname : PlainName name) (hconsumer : PlainName consumerName)
    (hreached : Reached crates cbor name consumerName s) :
    ∃ newest, Inv crates name consumerName cbor s newest := by
  induction hreached with
  | start => exact ⟨0, inv_start crates cbor consumerName hname⟩
  | step _ _ hallowed ih =>
    obtain ⟨newest, hinv⟩ := ih
    exact hinv.step hname hconsumer hallowed

/-- **No message is given up** in a run in which `prepare` answers no recoverable error, answers
`Ok(true)` only when the position is saved up to the message, and a part is left only when the
position is saved up to its end. -/
theorem noneGivenUp_of_reached (hname : PlainName name) (hconsumer : PlainName consumerName)
    (h : Reached crates cbor name consumerName s) : s.NoneGivenUp crates name consumerName := by
  obtain ⟨newest, hinv⟩ := h.inv hname hconsumer
  exact hinv.noneGivenUp

theorem allowed_push (hparses : VModule.parses cbor m.body = true)
    (h : (s.producer.all fun q => decide (q.countPushed + 1 < 2 ^ 32 ∧
      q.rightEdge + headerSize + m.body.length < 2 ^ 64)) = true) :
    s.Allowed crates cbor name consumerName (.push m) := by
  refine ⟨hparses, ?_⟩
  intro q hq
  rw [hq] at h
  exact of_decide_eq_true h

theorem allowed_popHeader_of_first
    (hqueue : readQueueInfo crates name (s.disk.infoQueue.getD []) = some 0) :
    s.Allowed crates cbor name consumerName .popHeader := by
  rintro ⟨c, newest, -, hnewest, hlt, -⟩
  rw [hqueue] at hnewest
  cases hnewest
  exact absurd hlt (Nat.not_lt_zero _)

theorem saved_of_read (pos : ℕ)
    (h : (s.consumer.all fun c => decide (readPopInfo crates name consumerName s.disk.infoPop =
      some (pos, c.countPopped, c.id))) = true) : s.Saved crates name consumerName := by
  intro c hc
  rw [hc] at h
  exact ⟨pos, of_decide_eq_true h⟩

/-- A run of small operations. -/
def run (ops : List Op) : Listener :=
  ops.foldl (step lineCrates smallCrate.parser ['q'] ['c']) (start lineCrates ['q'])

theorem reached_run {ops : List Op} (op : Op)
    (h : Reached lineCrates smallCrate.parser ['q'] ['c'] (run ops))
    (hallowed : (run ops).Allowed lineCrates smallCrate.parser ['q'] ['c'] op) :
    Reached lineCrates smallCrate.parser ['q'] ['c'] (run (ops ++ [op])) := by
  rw [run, List.foldl_append]
  exact h.step op hallowed

/-- An individual without values. -/
def smallMessage : Message := ⟨.object, [msgpackMagicHeader, 161, 97, 128]⟩

/-- Two messages are pushed, and the body of the first one is taken. -/
def firstTaken : List Op :=
  [.push smallMessage, .push smallMessage, .restart, .startBatch none, .popHeader, .popBody]

theorem plain_q_c : PlainName ['q'] ∧ PlainName ['c'] := by decide +kernel

theorem reached_firstTaken :
    Reached lineCrates smallCrate.parser ['q'] ['c'] (run firstTaken) := by
  have hparses : VModule.parses smallCrate.parser smallMessage.body = true := by decide +kernel
  have h₀ : Reached lineCrates smallCrate.parser ['q'] ['c'] (run []) := .start
  have h₁ := reached_run (.push smallMessage) h₀ (allowed_push hparses (by decide +kernel))
  have h₂ := reached_run (.push smallMessage) h₁ (allowed_push hparses (by decide +kernel))
  have h₃ := reached_run .restart h₂ trivial
  have h₄ := reached_run (.startBatch none) h₃ trivial
  have h₅ := reached_run .popHeader h₄ (allowed_popHeader_of_first (by decide +kernel))
  have h₆ := reached_run .popBody h₅ trivial
  simpa only [firstTaken, List.nil_append, List.cons_append] using h₆

/-- The first message is prepared and committed. -/
theorem noneGivenUp_prepared :
    (run (firstTaken ++ [.prepare (.ok true)] ++ [.next])).NoneGivenUp
      lineCrates ['q'] ['c'] := by
  have hsaved : (run firstTaken).Saved lineCrates ['q'] ['c'] :=
    saved_of_read 0 (by decide +kernel)
  have hprepared := reached_run (.prepare (.ok true)) reached_firstTaken
    ⟨by decide, fun _ => hsaved⟩
  exact noneGivenUp_of_reached plain_q_c.1 plain_q_c.2
    (reached_run .next hprepared trivial)

theorem not_noneGivenUp_of_passed {s : Listener} (pos count : ℕ) (m : Message)
    (hread : readPopInfo lineCrates ['q'] ['c'] s.disk.infoPop = some (pos, count, 0))
    (hm : (s.pushed 0)[0]? = some m) (hcount : 0 < count)
    (hnot : ∀ event ∈ s.trace, event ≠ .batchCommitted ∧ event ≠ .prepared 0 0 m.body (.ok true)) :
    ¬ s.NoneGivenUp lineCrates ['q'] ['c'] := by
  intro hnone
  rcases hnone count 0 ⟨pos, hread⟩ 0 0 m hm (.inr ⟨rfl, hcount⟩) with
    hin | ⟨before, behind, htrace, hcommitted⟩
  · exact (hnot _ hin).2 rfl
  · have hin : Event.batchCommitted ∈ s.trace := by
      rw [htrace]
      exact List.mem_append_right _ (List.mem_cons_of_mem _ hcommitted)
    exact (hnot _ hin).1 rfl

/-- **A recoverable error**: the saved position is behind the message. **A message behind it**: the
answer `Ok(true)` saves the position behind the message that was answered with `Ok(false)` too. -/
theorem not_noneGivenUp_recoverable :
    ¬ (run (firstTaken ++ [.prepare (.error .recoverable), .next])).NoneGivenUp
        lineCrates ['q'] ['c'] ∧
      ¬ (run (firstTaken ++ [.prepare (.ok false), .next, .popHeader, .popBody,
        .prepare (.ok true), .next])).NoneGivenUp lineCrates ['q'] ['c'] := by
  constructor
  · exact not_noneGivenUp_of_passed 29 1 smallMessage
      (by decide +kernel) (by decide +kernel) (by decide) (by decide +kernel)
  · exact not_noneGivenUp_of_passed 58 2 smallMessage
      (by decide +kernel) (by decide +kernel) (by decide) (by decide +kernel)

end Listener

end Veda.VModule
