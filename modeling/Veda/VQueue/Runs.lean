import Veda.VQueue.Producing

set_option autoImplicit false

/-!
# Runs of a queue

A queue with one producer, one consumer and a program that removes parts. A run starts with the
first part and goes on with operations of all three in any order; the consumer reads a header, then
the body, and then commits the message. The producer and the consumer can be started again at any
time, so that a producer begins with a new part and a consumer with what it saved.

## Main definitions

* `VQueue.System`, `VQueue.System.step` — the system and its operations.
* `VQueue.System.RestartsWell` — when a new consumer goes on where the old one stopped.
* `VQueue.System.Reached` — the states of the runs in which consumers are started only then.

## Main results

* `VQueue.System.Reached.inv` — what is true in these states.

## Design

An operation is one step; other operations do not come between the reads and writes of one call.
The messages that were pushed to a part and the bodies that were committed of it are kept beside the
files. Removing a part takes its directory away; open files of it can still be read.
-/

namespace Veda.VQueue

/-- How far the consumer is with a message. -/
inductive Phase
  | idle
  | header
  | body (msg : List UInt8)
  deriving DecidableEq

/-- A queue with its producer and its consumer. -/
structure System where
  disk : Disk
  producer : Option Queue
  consumer : Option Consumer
  phase : Phase
  /-- the messages that were pushed to each part -/
  pushed : ℕ → List Message
  /-- the bodies that were committed of each part -/
  committed : ℕ → List (List UInt8)

inductive Op
  | openQueue
  | push (m : Message)
  | remove (k : ℕ)
  | openConsumer
  | popHeader
  | popBody
  | next
  deriving DecidableEq

namespace System

/-! ## Steps -/

section Steps

variable (crates : Crates) (name consumerName : List Char)

/-- Nothing exists. -/
def empty : System where
  disk := .empty
  producer := none
  consumer := none
  phase := .idle
  pushed := fun _ => []
  committed := fun _ => []

/-- `Queue::new` for the producer. -/
def openQueue (s : System) : System :=
  match Queue.newReadWrite crates name s.disk .full .full with
  | (.ok q, disk) => { s with disk, producer := some q }
  | (.error _, disk) => { s with disk, producer := none }

/-- `Queue::push`, with all writes. -/
def push (s : System) (m : Message) : System :=
  match s.producer with
  | none => s
  | some q =>
    match q.push crates name s.disk m ⟨.full, .full, .full⟩ with
    | (.ok _, disk, q') =>
      { s with disk, producer := some q', pushed := addMessage s.pushed q.id m }
    | (.error _, disk, q') => { s with disk, producer := some q' }

/-- A part is removed. -/
def remove (s : System) (k : ℕ) : System :=
  { s with disk := { s.disk with linked := Function.update s.disk.linked k false } }

/-- `Consumer::new`. -/
def openConsumer (s : System) : System :=
  match Consumer.new crates name consumerName s.disk with
  | .ok c => { s with consumer := some c, phase := .idle }
  | .error _ => { s with consumer := none, phase := .idle }

def popHeader (s : System) : System :=
  match s.consumer, s.phase with
  | some c, .idle =>
    match c.popHeader crates name consumerName s.disk with
    | (true, disk, c) => { s with disk, consumer := some c, phase := .header }
    | (false, disk, c) => { s with disk, consumer := some c, phase := .idle }
  | _, _ => s

/-- `pop_body`, with a buffer of the length that the header gives. -/
def popBody (s : System) : System :=
  match s.consumer, s.phase with
  | some c, .header =>
    match c.popBody crates s.disk c.header.msgLength with
    | (.ok msg, c) => { s with consumer := some c, phase := .body msg }
    | (.error _, c) => { s with consumer := some c, phase := .idle }
  | _, _ => s

/-- `next(true)`. -/
def next (s : System) : System :=
  match s.consumer, s.phase with
  | some c, .body msg =>
    match c.next name consumerName s.disk with
    | (true, disk, c') =>
      { s with
        disk, consumer := some c', phase := .idle
        committed := Function.update s.committed c.id (s.committed c.id ++ [msg]) }
    | (false, disk, c') => { s with disk, consumer := some c', phase := .idle }
  | _, _ => s

def step (s : System) : Op → System
  | .openQueue => s.openQueue crates name
  | .push m => s.push crates name m
  | .remove k => s.remove k
  | .openConsumer => s.openConsumer crates name consumerName
  | .popHeader => s.popHeader crates name consumerName
  | .popBody => s.popBody crates
  | .next => s.next name consumerName

/-- The state behind the first `Queue::new`. -/
def start : System := empty.openQueue crates name

/-! ## Conditions of the steps -/

/-- The part with the first message that is not committed, among the parts that exist. -/
def FirstPart (s : System) (k : ℕ) : Prop :=
  s.disk.linked k = true ∧ (s.committed k).length < (s.pushed k).length ∧
    ∀ j < k, s.disk.linked j = true → (s.pushed j).length ≤ (s.committed j).length

/-- A new consumer goes on where the old one stopped: the saved part exists, and so do the parts
between it and the first message that is not committed; or it does not exist, nothing of it was
popped, and no message is in a later part except for the newest. -/
def RestartsWell (s : System) : Prop :=
  ∃ pos count id newest,
    readPopInfo crates name consumerName s.disk.infoPop = some (pos, count, id) ∧
    readQueueInfo crates name (s.disk.infoQueue.getD []) = some newest ∧
    ((s.disk.linked id = true ∧
        ∀ k, s.FirstPart k → ∀ j, id < j → j < k → s.disk.linked j = true) ∨
      (s.disk.linked id = false ∧ count = 0 ∧
        ∀ k, id < k → k < newest → s.disk.linked k = true → s.pushed k = []))

/-- The condition of a step: numbers do not overflow, the newest part is not removed, and a new
consumer goes on where the old one stopped. -/
def Allowed (s : System) : Op → Prop
  | .openQueue => ∀ newest,
    readQueueInfo crates name (s.disk.infoQueue.getD []) = some newest → newest + 1 < 2 ^ 32
  | .push m => ∀ q, s.producer = some q →
    q.countPushed + 1 < 2 ^ 32 ∧ q.rightEdge + headerSize + m.body.length < 2 ^ 64
  | .remove k => readQueueInfo crates name (s.disk.infoQueue.getD []) ≠ some k
  | .openConsumer => s.RestartsWell crates name consumerName
  | .popHeader | .popBody | .next => True

/-- A state of a run whose steps meet their conditions. -/
inductive Reached : System → Prop
  | start : Reached (start crates name)
  | step {s : System} (op : Op) : Reached s → s.Allowed crates name consumerName op →
      Reached (s.step crates name consumerName op)

/-! ## The invariant -/

/-- Exactly the messages in front of the message `count` of the part `k` are committed, as far as
their parts exist. -/
structure UpTo (s : System) (k count : ℕ) : Prop where
  count_le : count ≤ (s.pushed k).length
  here : s.committed k = ((s.pushed k).take count).map Message.body
  before : ∀ i < k, s.disk.linked i = true → s.committed i = (s.pushed i).map Message.body
  behind : ∀ i, k < i → s.committed i = []

/-- The numbers of the messages that were pushed. -/
def counts (s : System) (k : ℕ) : ℕ := (s.pushed k).length

/-- What the consumer is, by its phase. -/
inductive Reads (s : System) (newest : ℕ) (c : Consumer) : Phase → Prop
  | idle {k count : ℕ} : k ≤ newest → s.UpTo k count → At s.pushed s.counts k count c →
      c.queue.offset = c.posRecord → Reads s newest c .idle
  | header {k count : ℕ} {m : Message} : k ≤ newest → s.UpTo k count →
      At s.pushed s.counts k count c → HeaderTaken crates s.pushed k count m c →
      Reads s newest c .header
  | body {k count : ℕ} {m : Message} : k ≤ newest → s.UpTo k count →
      (s.pushed k)[count]? = some m → c.countPopped = count →
      At s.pushed s.counts k (count + 1) { c with countPopped := count + 1 } →
      c.queue.offset = c.posRecord → Reads s newest c (.body m.body)
  | stuck : Stuck s.disk newest c → Reads s newest c .idle

/-- What is true between two operations. -/
structure Inv (s : System) (newest : ℕ) : Prop where
  stored : Stored crates name s.disk s.pushed s.counts newest
  newest_linked : s.disk.linked newest = true
  unopened : ∀ k, newest < k →
    s.disk.linked k = false ∧ s.pushed k = [] ∧ (s.disk.parts k).data = []
  writer : ∀ q, s.producer = some q → Writer crates s.disk s.pushed newest q
  saved : ∃ k count, k ≤ newest ∧ s.UpTo k count ∧
    readPopInfo crates name consumerName s.disk.infoPop =
      some (lengthOf ((s.pushed k).take count), count, k)
  reads : ∀ c, s.consumer = some c → s.Reads crates newest c s.phase

end Steps

variable {crates : Crates} {name consumerName : List Char} {s s' : System} {newest newest' k count : ℕ}
  {c : Consumer} {m : Message}

/-! ## Steps of other programs -/

/-- What the producer and the removal of parts change for a consumer: messages are appended to the
newest part or to a new one, and parts vanish. -/
structure Later (s s' : System) (newest newest' : ℕ) : Prop where
  committed_eq : s'.committed = s.committed
  newest_le : newest ≤ newest'
  pushed_extend : ∀ k, ∃ ms, s'.pushed k = s.pushed k ++ ms
  pushed_eq : ∀ k < newest, s'.pushed k = s.pushed k
  linked_of : ∀ k ≤ newest, s'.disk.linked k = true → s.disk.linked k = true

theorem Later.grown (h : Later s s' newest newest') : Grown s.pushed newest s'.pushed newest' :=
  ⟨h.newest_le, h.pushed_extend, h.pushed_eq⟩

theorem Later.of_grown (h : Grown s.pushed newest s'.pushed newest')
    (hcommitted : s'.committed = s.committed)
    (hlinked : ∀ k ≤ newest, s'.disk.linked k = true → s.disk.linked k = true) :
    Later s s' newest newest' :=
  ⟨hcommitted, h.newest_le, h.extend, h.older, hlinked⟩

theorem UpTo.later (hup : s.UpTo k count) (h : Later s s' newest newest') (hk : k ≤ newest) :
    s'.UpTo k count where
  count_le := hup.count_le.trans (h.grown.lengths_le k)
  here := by rw [h.committed_eq, h.grown.take_eq hup.count_le, hup.here]
  before := by
    intro i hi hlinked
    rw [h.committed_eq, h.pushed_eq i (by omega)]
    exact hup.before i hi (h.linked_of i (by omega) hlinked)
  behind := by
    intro i hi
    rw [h.committed_eq]
    exact hup.behind i hi

theorem Later.at (h : Later s s' newest newest') (hat : At s.pushed s.counts k count c) :
    At s'.pushed s'.counts k count c :=
  ⟨h.grown.stands hat.toStands, hat.queueId⟩

/-- **The consumer is what it was**, with respect to the new state. -/
theorem Reads.later {phase : Phase} (hreads : s.Reads crates newest c phase)
    (h : Later s s' newest newest') : s'.Reads crates newest' c phase := by
  cases hreads with
  | idle hk hup hat hoffset => exact .idle (hk.trans h.newest_le) (hup.later h hk) (h.at hat) hoffset
  | header hk hup hat htaken =>
    exact .header (hk.trans h.newest_le) (hup.later h hk) (h.at hat)
      (h.grown.headerTaken hup.count_le htaken)
  | body hk hup hm hcount hat hoffset =>
    exact .body (hk.trans h.newest_le) (hup.later h hk) (h.grown.getElem? hm) hcount (h.at hat) hoffset
  | stuck hstuck =>
    exact .stuck {
      unlinked := by
        rw [Bool.eq_false_iff]
        intro hlinked
        have hunlinked := hstuck.unlinked
        rw [h.linked_of c.id hstuck.id_le hlinked] at hunlinked
        exact absurd hunlinked (by decide)
      id_le := hstuck.id_le.trans h.newest_le
      queueId := hstuck.queueId
      known_le := hstuck.known_le }

theorem Inv.saved_later (hinv : s.Inv crates name consumerName newest)
    (h : Later s s' newest newest') (hpop : s'.disk.infoPop = s.disk.infoPop) :
    ∃ k count, k ≤ newest' ∧ s'.UpTo k count ∧
      readPopInfo crates name consumerName s'.disk.infoPop =
        some (lengthOf ((s'.pushed k).take count), count, k) := by
  obtain ⟨k, count, hk, hup, hread⟩ := hinv.saved
  refine ⟨k, count, hk.trans h.newest_le, hup.later h hk, ?_⟩
  rw [hpop, hread, h.grown.take_eq hup.count_le]

theorem Inv.producing (hinv : s.Inv crates name consumerName newest) :
    Producing crates name s.disk s.producer s.pushed newest :=
  ⟨hinv.stored, hinv.newest_linked, hinv.unopened, hinv.writer⟩

theorem Inv.produced (hinv : s.Inv crates name consumerName newest)
    (h : Producing crates name s'.disk s'.producer s'.pushed newest')
    (hlater : Later s s' newest newest') (hpop : s'.disk.infoPop = s.disk.infoPop)
    (hconsumer : s'.consumer = s.consumer) (hphase : s'.phase = s.phase) :
    s'.Inv crates name consumerName newest' where
  stored := h.stored
  newest_linked := h.newest_linked
  unopened := h.unopened
  writer := h.writer
  saved := hinv.saved_later hlater hpop
  reads := by
    rw [hconsumer, hphase]
    exact fun c hc => (hinv.reads c hc).later hlater

theorem start_eq (crates : Crates) (hname : PlainName name) :
    start crates name = { empty with
      disk := partOpened crates name empty.disk 0
      producer := some ⟨.readWrite, true, .part 0, 0, .part 0, 0, 0, 0⟩ } := by
  rw [start, openQueue, show empty.disk = Disk.empty from rfl, (Producing.start crates hname).1]

/-- **The first part** is opened. -/
theorem inv_start (crates : Crates) (name consumerName : List Char) (hname : PlainName name) :
    (start crates name).Inv crates name consumerName 0 := by
  have hproducing := (Producing.start crates hname).2
  rw [start_eq crates hname]
  exact {
    stored := hproducing.stored
    newest_linked := hproducing.newest_linked
    unopened := hproducing.unopened
    writer := hproducing.writer
    saved := by
      refine ⟨0, 0, Nat.le_refl _, ?_, rfl⟩
      exact {
        count_le := Nat.zero_le _
        here := rfl
        before := fun i hi => absurd hi (Nat.not_lt_zero i)
        behind := fun _ _ => rfl }
    reads := by
      rintro c ⟨⟩ }

/-- **A new part** is opened. -/
theorem Inv.openQueue (hname : PlainName name) (hinv : s.Inv crates name consumerName newest)
    (hnewest : newest + 1 < 2 ^ 32) :
    (s.openQueue crates name).Inv crates name consumerName (newest + 1) := by
  obtain ⟨q, hopen, hproducing, hlinked⟩ := hinv.producing.openQueue hname hnewest
  have hopened : s.openQueue crates name = { s with
      disk := partOpened crates name s.disk (newest + 1)
      producer := some q } := by
    rw [System.openQueue, hopen]
  rw [hopened]
  refine hinv.produced hproducing (.of_grown (.succ _ _) rfl fun k hk hkl => ?_) rfl rfl rfl
  rw [← hlinked k (by omega)]
  exact hkl

theorem push_refused {q : Queue} (hproducer : s.producer = some q)
    (hpush : q.push crates name s.disk m ⟨.full, .full, .full⟩ = (.error .notReady, s.disk, q)) :
    s.push crates name m = s := by
  rw [System.push, hproducer]
  dsimp only
  rw [hpush]
  dsimp only
  rw [← hproducer]

/-- **A message** is pushed, or it is too long. -/
theorem Inv.push (hname : PlainName name) (hinv : s.Inv crates name consumerName newest)
    (hallowed : ∀ q, s.producer = some q →
      q.countPushed + 1 < 2 ^ 32 ∧ q.rightEdge + headerSize + m.body.length < 2 ^ 64) :
    (s.push crates name m).Inv crates name consumerName newest := by
  cases hproducer : s.producer with
  | none =>
    rw [System.push, hproducer]
    exact hinv
  | some q =>
    obtain ⟨hcount, hlength⟩ := hallowed q hproducer
    have hproducing := hinv.producing
    rw [hproducer] at hproducing
    rcases hproducing.push hname hcount hlength with
      hrefused | ⟨d', q', hpush, hid, hproducing', hlinked, hpop, -⟩
    · rw [push_refused hproducer hrefused]
      exact hinv
    · have hpushed : s.push crates name m = { s with
          disk := d'
          producer := some q'
          pushed := addMessage s.pushed newest m } := by
        rw [System.push, hproducer]
        dsimp only
        rw [hpush, hid]
      rw [hpushed]
      refine hinv.produced hproducing' (.of_grown (.message _ _ m) rfl fun k _ hkl => ?_) hpop rfl
        rfl
      rw [← hlinked]
      exact hkl

theorem linked_remove (s : System) (k i : ℕ) :
    (s.remove k).disk.linked i = (decide (i ≠ k) && s.disk.linked i) := by
  by_cases hi : i = k
  · subst hi
    simp [System.remove]
  · simp [System.remove, hi]

/-- **A part** that is not the newest is removed. -/
theorem Inv.remove (hinv : s.Inv crates name consumerName newest) (hk : k ≠ newest) :
    (s.remove k).Inv crates name consumerName newest := by
  have hlater : Later s (s.remove k) newest newest := by
    exact {
      committed_eq := rfl
      newest_le := Nat.le_refl _
      pushed_extend := fun i => ⟨[], (List.append_nil _).symm⟩
      pushed_eq := fun _ _ => rfl
      linked_of := by
        intro i _ hi
        rw [linked_remove, Bool.and_eq_true] at hi
        exact hi.2 }
  exact {
    stored := { hinv.stored with }
    newest_linked := by
      rw [linked_remove, hinv.newest_linked, Bool.and_true, decide_eq_true_eq]
      exact hk.symm
    unopened := by
      intro i hi
      rw [linked_remove, (hinv.unopened i hi).1, Bool.and_false]
      exact ⟨rfl, (hinv.unopened i hi).2⟩
    writer := fun q hq => { hinv.writer q hq with }
    saved := hinv.saved_later hlater rfl
    reads := fun c hc => (hinv.reads c hc).later hlater }

/-! ## Steps of the consumer -/

theorem UpTo.next_part (hup : s.UpTo k count) (hend : count = s.counts k) :
    s.UpTo (k + 1) 0 where
  count_le := Nat.zero_le _
  here := hup.behind (k + 1) (Nat.lt_succ_self k)
  before := by
    intro i hi hlinked
    rcases Nat.lt_or_eq_of_le (Nat.le_of_lt_succ hi) with hlt | rfl
    · exact hup.before i hlt hlinked
    · rw [hup.here, hend, counts, List.take_length]
  behind := fun i hi => hup.behind i (by omega)

theorem UpTo.next (hup : s.UpTo k count) (hm : (s.pushed k)[count]? = some m)
    (hcommitted : s'.committed = Function.update s.committed k (s.committed k ++ [m.body]))
    (hpushed : s'.pushed = s.pushed) (hlinked : s'.disk.linked = s.disk.linked) :
    s'.UpTo k (count + 1) where
  count_le := by
    obtain ⟨hlt, -⟩ := List.getElem?_eq_some_iff.mp hm
    rw [hpushed]
    exact hlt
  here := by
    rw [hcommitted, hpushed, Function.update_self, hup.here, List.take_add_one, hm,
      List.map_append]
    rfl
  before := by
    intro i hi hl
    rw [hlinked] at hl
    rw [hcommitted, hpushed, Function.update_of_ne hi.ne]
    exact hup.before i hi hl
  behind := by
    intro i hi
    rw [hcommitted, Function.update_of_ne hi.ne']
    exact hup.behind i hi

theorem UpTo.to_newest (hup : s.UpTo k 0) (hunlinked : s.disk.linked k = false) (hk : k < newest)
    (hempty : ∀ i, k < i → i < newest → s.disk.linked i = true → s.pushed i = []) :
    s.UpTo newest 0 where
  count_le := Nat.zero_le _
  here := hup.behind newest hk
  before := by
    intro i hi hlinked
    rcases Nat.lt_trichotomy i k with hlt | rfl | hgt
    · exact hup.before i hlt hlinked
    · rw [hunlinked] at hlinked
      exact absurd hlinked (by decide)
    · rw [hup.behind i hgt, hempty i hgt hi hlinked]
      rfl
  behind := fun i hi => hup.behind i (hk.trans hi)

theorem Inv.consumer (hinv : s.Inv crates name consumerName newest) {d : Disk} {phase : Phase}
    (hstored : Stored crates name d s.pushed s.counts newest)
    (hlinked : d.linked = s.disk.linked) (hparts : d.parts = s.disk.parts)
    (hsaved : ∃ k count, k ≤ newest ∧ s.UpTo k count ∧
      readPopInfo crates name consumerName d.infoPop =
        some (lengthOf ((s.pushed k).take count), count, k))
    (hreads : s.Reads crates newest c phase) :
    Inv crates name consumerName { s with disk := d, consumer := some c, phase } newest := by
  have hlater : Later s { s with disk := d, consumer := some c, phase } newest newest := by
    exact {
      committed_eq := rfl
      newest_le := Nat.le_refl _
      pushed_extend := fun i => ⟨[], (List.append_nil _).symm⟩
      pushed_eq := fun _ _ => rfl
      linked_of := by
        intro i _ hi
        rw [← hlinked]
        exact hi }
  exact {
    stored := hstored
    newest_linked := by
      rw [hlinked]
      exact hinv.newest_linked
    unopened := by
      rw [hlinked, hparts]
      exact hinv.unopened
    writer := by
      intro q hq
      exact { hinv.writer q hq with
        data := by
          rw [hparts]
          exact (hinv.writer q hq).data }
    saved := by
      obtain ⟨k, count, hk, hup, hread⟩ := hsaved
      exact ⟨k, count, hk, hup.later hlater hk, hread⟩
    reads := by
      rintro c' ⟨⟩
      exact hreads.later hlater }

theorem Inv.consumer_only (hinv : s.Inv crates name consumerName newest) {phase : Phase}
    (hreads : s.Reads crates newest c phase) :
    Inv crates name consumerName { s with consumer := some c, phase } newest :=
  hinv.consumer hinv.stored rfl rfl hinv.saved hreads

theorem Inv.restarts (hinv : s.Inv crates name consumerName newest)
    (hwell : s.RestartsWell crates name consumerName) :
    ∃ c k count, Consumer.new crates name consumerName s.disk = .ok c ∧ k ≤ newest ∧
      s.UpTo k count ∧ At s.pushed s.counts k count c ∧ c.queue.offset = c.posRecord := by
  obtain ⟨id, count, hid, hup, hread⟩ := hinv.saved
  obtain ⟨pos, count', id', newest', hpop, hqueue, hwell⟩ := hwell
  rw [hread] at hpop
  obtain ⟨rfl, rfl, rfl⟩ : lengthOf ((s.pushed id).take count) = pos ∧ count = count' ∧ id = id' := by
    simpa using hpop
  rw [hinv.stored.queueInfo] at hqueue
  obtain rfl : newest = newest' := by simpa using hqueue
  obtain ⟨c, hnew, hopened⟩ := hinv.stored.new_opens hread hinv.newest_linked rfl
  rcases hwell with ⟨hlinked, -⟩ | ⟨hunlinked, rfl, hempty⟩
  · rw [hlinked, if_pos rfl] at hopened
    exact ⟨c, id, count, hnew, hid, hup, hopened.at rfl hup.count_le,
      hopened.offset.trans hopened.posRecord.symm⟩
  · rw [hunlinked, if_neg (by decide)] at hopened
    have hlt : id < newest := by
      rcases Nat.lt_or_eq_of_le hid with hlt | rfl
      · exact hlt
      · rw [hinv.newest_linked] at hunlinked
        exact absurd hunlinked (by decide)
    exact ⟨c, newest, 0, hnew, Nat.le_refl _, hup.to_newest hunlinked hlt hempty,
      hopened.at rfl (Nat.zero_le _), hopened.offset.trans hopened.posRecord.symm⟩

/-- **A new consumer** is at the place of the old one. -/
theorem Inv.openConsumer (hinv : s.Inv crates name consumerName newest)
    (hwell : s.RestartsWell crates name consumerName) :
    (s.openConsumer crates name consumerName).Inv crates name consumerName newest := by
  obtain ⟨c, k, count, hnew, hk, hup, hat, hoffset⟩ := hinv.restarts hwell
  have hopened : s.openConsumer crates name consumerName =
      { s with consumer := some c, phase := .idle } := by
    rw [System.openConsumer, hnew]
  rw [hopened]
  exact hinv.consumer_only (.idle hk hup hat hoffset)

/-- **`pop_header`**: the header of the next message, the place of the consumer, or the next
part. -/
theorem Inv.popHeader (hname : PlainName name) (hconsumer : PlainName consumerName)
    (hinv : s.Inv crates name consumerName newest) :
    (s.popHeader crates name consumerName).Inv crates name consumerName newest := by
  unfold System.popHeader
  split
  case h_2 => exact hinv
  case h_1 c hc hidle =>
  have hreads := hinv.reads c hc
  rw [hidle] at hreads
  cases hreads with
  | stuck hstuck =>
    obtain ⟨c', hpop, hstuck'⟩ := hstuck.popHeader crates name consumerName
    rw [hpop]
    dsimp only
    exact hinv.consumer_only (.stuck hstuck')
  | @idle k count hk hup hat hoffset =>
    have hcount := hup.count_le
    rcases Nat.lt_or_eq_of_le hcount with hlt | hend
    · obtain ⟨c', m, hpop, hat', htaken⟩ :=
        hinv.stored.popHeader_next consumerName hat hoffset hlt
      rw [hpop]
      exact hinv.consumer_only (.header hk hup hat' htaken)
    · rcases Nat.lt_or_eq_of_le hk with hlt | rfl
      · cases hlinked : s.disk.linked (k + 1) with
        | true =>
          have hsaved : ∃ i n, i ≤ newest ∧ s.UpTo i n ∧
              readPopInfo crates name consumerName
                (s.disk.entered name consumerName (k + 1)).infoPop =
                  some (lengthOf ((s.pushed i).take n), n, i) := by
            have hid : k + 1 < 2 ^ 32 := by
              have := hinv.stored.newest_lt
              omega
            exact ⟨k + 1, 0, hlt, hup.next_part hend,
              readPopInfo_written crates hname hconsumer (by decide) (by decide) hid []⟩
          rcases hinv.stored.popHeader_enter consumerName hat hend hlt hlinked with
            ⟨-, c', m, hpop, hat', htaken⟩ | ⟨-, c', hpop, hat', hoffset'⟩
          · rw [hpop]
            exact hinv.consumer { hinv.stored with } rfl rfl hsaved
              (.header hlt (hup.next_part hend) hat' htaken)
          · rw [hpop]
            exact hinv.consumer { hinv.stored with } rfl rfl hsaved
              (.idle hlt (hup.next_part hend) hat' hoffset')
        | false =>
          have hne : newest ≠ k + 1 := by
            rintro rfl
            rw [hinv.newest_linked] at hlinked
            exact absurd hlinked (by decide)
          obtain ⟨c', hpop, hstuck⟩ :=
            hinv.stored.popHeader_stuck consumerName hat hend hlt hlinked hne
          rw [hpop]
          exact hinv.consumer_only (.stuck hstuck)
      · obtain ⟨c', hpop, hat', hoffset'⟩ :=
          hinv.stored.popHeader_end consumerName hat hoffset hend
        rw [hpop]
        exact hinv.consumer_only (.idle hk hup hat' hoffset')

/-- **`pop_body`**: the body of the next message. -/
theorem Inv.popBody (hinv : s.Inv crates name consumerName newest) :
    (s.popBody crates).Inv crates name consumerName newest := by
  unfold System.popBody
  split
  case h_2 => exact hinv
  case h_1 c hc hphase =>
  have hreads := hinv.reads c hc
  rw [hphase] at hreads
  cases hreads with
  | @header k count m hk hup hat htaken =>
    obtain ⟨hlt, -⟩ := List.getElem?_eq_some_iff.mp htaken.next
    rw [hinv.stored.popBody_next hat.isReady hat.ffQueue hat.posRecord htaken]
    refine hinv.consumer_only (.body hk hup htaken.next hat.countPopped ?_ rfl)
    exact { hat with
      countPopped := rfl
      posRecord := rfl
      count_le := hlt }

/-- **`next(true)`**: the message is committed. -/
theorem Inv.next (hname : PlainName name) (hconsumer : PlainName consumerName)
    (hinv : s.Inv crates name consumerName newest) :
    (s.next name consumerName).Inv crates name consumerName newest := by
  unfold System.next
  split
  case h_2 => exact hinv
  case h_1 c msg hc hphase =>
  have hreads := hinv.reads c hc
  rw [hphase] at hreads
  cases hreads with
  | @body k count m hk hup hm hcount hat hoffset =>
    have hlt : count + 1 < 2 ^ 32 := hat.count_le.trans_lt (hinv.stored.count_lt k)
    have hnumber : addU32 c.countPopped 1 = count + 1 := by
      rw [hcount, addU32, Nat.mod_eq_of_lt hlt]
    have hready : c.isReady = true := hat.isReady
    have hid : c.id = k := hat.id
    have hposition : c.posRecord = lengthOf ((s.pushed k).take (count + 1)) := hat.posRecord
    have hnext : c.next name consumerName s.disk =
        (true, Consumer.commit name consumerName { c with countPopped := count + 1 } s.disk,
          { c with countPopped := count + 1 }) := by
      rw [Stored.next_of_ready name consumerName s.disk hready, hnumber]
    have hcommitted : Function.update s.committed c.id (s.committed c.id ++ [m.body]) =
        Function.update s.committed k (s.committed k ++ [m.body]) := by rw [hid]
    rw [hnext]
    exact {
      stored := { hinv.stored with }
      newest_linked := hinv.newest_linked
      unopened := hinv.unopened
      writer := fun q hq => { hinv.writer q hq with }
      saved := by
        refine ⟨k, count + 1, hk, hup.next hm hcommitted rfl rfl, ?_⟩
        have hread := readPopInfo_written crates hname hconsumer
          (hinv.stored.lengthOf_take_lt k (count + 1)) hlt (hk.trans_lt hinv.stored.newest_lt)
          s.disk.infoPop
        rw [← hposition, ← hid] at hread ⊢
        exact hread
      reads := by
        rintro c' ⟨⟩
        exact .idle hk (hup.next hm hcommitted rfl rfl) hat hoffset }

/-! ## Runs -/

/-- **A step** that meets its condition keeps the invariant. -/
theorem Inv.step (hname : PlainName name) (hconsumer : PlainName consumerName) {op : Op}
    (hinv : s.Inv crates name consumerName newest)
    (hallowed : s.Allowed crates name consumerName op) :
    ∃ newest', (s.step crates name consumerName op).Inv crates name consumerName newest' := by
  cases op with
  | openQueue => exact ⟨newest + 1, hinv.openQueue hname (hallowed newest hinv.stored.queueInfo)⟩
  | push m => exact ⟨newest, hinv.push hname hallowed⟩
  | remove k =>
    have hk : k ≠ newest := by
      rintro rfl
      exact hallowed hinv.stored.queueInfo
    exact ⟨newest, hinv.remove hk⟩
  | openConsumer => exact ⟨newest, hinv.openConsumer hallowed⟩
  | popHeader => exact ⟨newest, hinv.popHeader hname hconsumer⟩
  | popBody => exact ⟨newest, hinv.popBody⟩
  | next => exact ⟨newest, hinv.next hname hconsumer⟩

/-- **The states of a run** whose steps meet their conditions. -/
theorem Reached.inv (hname : PlainName name) (hconsumer : PlainName consumerName)
    (hreached : Reached crates name consumerName s) :
    ∃ newest, s.Inv crates name consumerName newest := by
  induction hreached with
  | start => exact ⟨0, inv_start crates name consumerName hname⟩
  | step _ _ hallowed ih =>
    obtain ⟨newest, hinv⟩ := ih
    exact hinv.step hname hconsumer hallowed

end System

end Veda.VQueue
