import Veda.VQueue.Writing

set_option autoImplicit false

/-!
# Consumers that look ahead

A program that reads messages in batches asks for the size of a batch first. When nothing is left
in the part of the consumer, this question reads the id of the newest part, so that the queue of the
consumer is already at a later part while the consumer still reads its own.

## Main definitions

* `VQueue.Consumer.getBatchSize` — the size of the next batch.
* `VQueue.Near` — a consumer whose queue is at its part or at a later one.

## Main results

* `VQueue.Near.batch` — the question for the size of a batch leaves such a consumer.
* `VQueue.Near.popHeader_next`, `VQueue.Near.popHeader_end`,
  `VQueue.Near.popHeader_enter` — what `pop_header` does for it.
-/

namespace Veda.VQueue

/-- `get_batch_size`: the number of messages that are left in the part, or one when there is a later
part. The difference of the counts does not wrap. -/
def Consumer.getBatchSize (crates : Crates) (name : List Char) (c : Consumer) (d : Disk) :
    ℕ × Consumer :=
  if c.queue.countPushed = c.countPopped then
    let q := (c.queue.getInfoQueue crates name d).2
    (if c.id < q.id then 1 else 0, { c with queue := q })
  else if c.queue.id ≠ c.id then (1, c)
  else (c.queue.countPushed - c.countPopped, c)

/-- A consumer stands behind messages of a part, and its queue is at this part or at a later one. -/
structure Near (newest : ℕ) (written : ℕ → List Message) (published : ℕ → ℕ) (k count : ℕ)
    (c : Consumer) : Prop extends Stands written published k count c where
  queueId : c.queue.id = k ∨ (k < c.queue.id ∧ c.queue.id ≤ newest)

theorem At.near {newest : ℕ} {written : ℕ → List Message} {published : ℕ → ℕ} {k count : ℕ}
    {c : Consumer} (h : At written published k count c) : Near newest written published k count c :=
  ⟨h.toStands, .inl h.queueId⟩

namespace Stored

variable {crates : Crates} {name consumerName : List Char} {d : Disk}
  {written : ℕ → List Message} {published : ℕ → ℕ} {newest : ℕ} {c : Consumer}
  {k count : ℕ}

theorem refresh_ahead (h : Stored crates name d written published newest)
    (hat : Stands written published k count c) (hahead : k < c.queue.id)
    (hlinked : d.linked k = true) (hknown : c.queue.countPushed ≤ c.countPopped) :
    c.refresh crates name d = (true, { c with queue := c.queue.informed written published k }) := by
  have hinfo := h.getInfoOfPart_linked (q := c.queue) hahead.ne' hlinked
  have hsame : { c.queue with ffInfoPush := .part k } = c.queue := by
    rw [← hat.ffInfoPush]
  rw [hsame, ← hat.id] at hinfo
  rw [Consumer.refresh, if_pos hknown, hinfo]
  dsimp only
  rw [hat.id]

theorem prepare_of_end_ahead (h : Stored crates name d written published newest)
    (consumerName : List Char) (hat : Stands written published k count c)
    (hahead : k < c.queue.id) (hlinked : d.linked k = true) (hend : count = published k) :
    c.prepare crates name consumerName d =
      match Consumer.findPart crates name d (c.queue.id - k) { c with
          queue := c.queue.informed written published k } with
      | (false, c) => (false, d, c)
      | (true, c) => (true, c.enterPart crates name consumerName d) := by
  have hknown : c.queue.countPushed ≤ c.countPopped := by
    rw [hat.countPopped, hend]
    exact hat.known_le
  have hpopped : published k ≤ c.countPopped := by
    rw [hat.countPopped, hend]
  have hlook : ({ c with queue := c.queue.informed written published k }.lookAhead crates name
      d) = { c with queue := c.queue.informed written published k } := by
    rw [Consumer.lookAhead, if_neg]
    rw [hat.id]
    exact hahead.ne'
  rw [Consumer.prepare, h.refresh_ahead hat hahead hlinked hknown]
  dsimp only
  rw [if_pos (show (c.queue.informed written published k).countPushed ≤ c.countPopped from hpopped),
    Consumer.advance, hlook]
  dsimp only
  rw [hat.id, if_pos (show k < (c.queue.informed written published k).id from hahead)]
  rfl

theorem popHeader_enter_of_near (h : Stored crates name d written published newest)
    (consumerName : List Char) (hnear : Near newest written published k count c)
    (hthere : c.queue.id = k ∨ d.linked k = true) (hend : count = published k) (hk : k < newest)
    (hnext : d.linked (k + 1) = true) :
    Enters crates name consumerName written published d (k + 1) c
      (At written published (k + 1) 0) := by
  rcases hnear.queueId with hid | ⟨hahead, -⟩
  · exact h.popHeader_enter consumerName ⟨hnear.toStands, hid⟩ hend hk hnext
  · exact h.popHeader_of_found (h.prepare_of_end_ahead consumerName hnear.toStands hahead
      (hthere.resolve_left hahead.ne') hend) hnear.isReady hnear.queueReady hnear.id
      hnear.ffInfoPush hahead hnext

theorem getInfoOfPart_again {q : Queue} (h : Stored crates name d written published newest)
    (hlinked : d.linked k = true) :
    q.getInfoOfPart crates name d k true =
      (.ok (), { q with ffInfoPush := .part k }.informed written published k) := by
  rw [Queue.getInfoOfPart, if_pos (.inr rfl), Queue.openInfoPush, if_pos hlinked]
  dsimp only
  rw [Disk.textOf, h.pushInfo]
  rfl

end Stored

namespace Near

variable {crates : Crates} {name consumerName : List Char} {d : Disk}
  {written : ℕ → List Message} {published : ℕ → ℕ} {newest : ℕ} {c : Consumer}
  {k count : ℕ}

theorem getBatchSize (hnear : Near newest written published k count c)
    (h : Stored crates name d written published newest) (hk : k ≤ newest) :
    Near newest written published k count (c.getBatchSize crates name d).2 ∧
      (c.getBatchSize crates name d).2.queue.offset = c.queue.offset ∧
      (c.getBatchSize crates name d).2.posRecord = c.posRecord := by
  rw [Consumer.getBatchSize]
  split
  case isTrue =>
    rw [h.getInfoQueue_eq]
    refine ⟨?_, rfl, rfl⟩
    exact { hnear with
      known_le := Nat.zero_le _
      rightEdge := rfl
      queueId := by
        rcases Nat.lt_or_eq_of_le hk with hlt | heq
        · exact .inr ⟨hlt, Nat.le_refl _⟩
        · exact .inl heq.symm }
  case isFalse =>
    split
    · exact ⟨hnear, rfl, rfl⟩
    · exact ⟨hnear, rfl, rfl⟩

/-- **A batch begins**: the line of the part is read and the size of the batch is asked for. The
consumer stays at its place. -/
theorem batch (hnear : Near newest written published k count c)
    (h : Stored crates name d written published newest) (hk : k ≤ newest)
    (hlinked : d.linked k = true) :
    ∃ q, c.queue.getInfoOfPart crates name d c.id true = (.ok (), q) ∧
      Near newest written published k count
        ({ c with queue := q }.getBatchSize crates name d).2 ∧
      ({ c with queue := q }.getBatchSize crates name d).2.queue.offset = c.queue.offset ∧
      ({ c with queue := q }.getBatchSize crates name d).2.posRecord = c.posRecord := by
  have hinfo : c.queue.getInfoOfPart crates name d c.id true =
      (.ok (), { c.queue with ffInfoPush := .part k }.informed written published k) := by
    rw [hnear.id]
    exact h.getInfoOfPart_again hlinked
  have hknown : Near newest written published k count
      { c with queue := { c.queue with ffInfoPush := .part k }.informed written published k } :=
    { hnear with ffInfoPush := rfl, known_le := Nat.le_refl _, rightEdge := rfl }
  exact ⟨_, hinfo, hknown.getBatchSize h hk⟩

/-- **The next message of the part**: its header is read. -/
theorem popHeader_next (hnear : Near newest written published k count c)
    (h : Stored crates name d written published newest) (consumerName : List Char)
    (hlinked : d.linked k = true) (hoffset : c.queue.offset = c.posRecord)
    (hlt : count < published k) :
    ∃ c' m, c.popHeader crates name consumerName d = (true, d, c') ∧
      Near newest written published k count c' ∧ HeaderTaken crates written k count m c' := by
  rcases hnear.queueId with hid | ⟨hahead, hle⟩
  · obtain ⟨c', m, hpop, hat, htaken⟩ :=
      h.popHeader_next consumerName ⟨hnear.toStands, hid⟩ hoffset hlt
    exact ⟨c', m, hpop, hat.near, htaken⟩
  · obtain ⟨c', m, hpop, hstands, hid, htaken⟩ :=
      h.popHeader_of_refresh consumerName hnear.toStands
        (h.refresh_ahead hnear.toStands hahead hlinked) hoffset hlt
    refine ⟨c', m, hpop, ⟨hstands, .inr ?_⟩, htaken⟩
    rw [hid]
    exact ⟨hahead, hle⟩

/-- **The end of the newest part**: there is no header, and the consumer stays where it is. -/
theorem popHeader_end (hnear : Near k written published k count c)
    (h : Stored crates name d written published k) (consumerName : List Char)
    (hoffset : c.queue.offset = c.posRecord) (hend : count = published k) :
    ∃ c', c.popHeader crates name consumerName d = (false, d, c') ∧
      Near k written published k count c' ∧ c'.queue.offset = c'.posRecord := by
  have hid : c.queue.id = k := by
    rcases hnear.queueId with hid | ⟨hahead, hle⟩
    · exact hid
    · exact absurd hahead (Nat.not_lt.mpr hle)
  obtain ⟨c', hpop, hat, hoffset'⟩ :=
    h.popHeader_end consumerName ⟨hnear.toStands, hid⟩ hoffset hend
  exact ⟨c', hpop, hat.near, hoffset'⟩

/-- **The end of an older part, and the next one exists**: it is entered. -/
theorem popHeader_enter (hnear : Near newest written published k count c)
    (h : Stored crates name d written published newest) (consumerName : List Char)
    (hlinked : d.linked k = true) (hend : count = published k) (hk : k < newest)
    (hnext : d.linked (k + 1) = true) :
    Enters crates name consumerName written published d (k + 1) c
      (Near newest written published (k + 1) 0) :=
  (h.popHeader_enter_of_near consumerName hnear (.inr hlinked) hend hk hnext).mono fun _ => At.near

end Near

end Veda.VQueue
