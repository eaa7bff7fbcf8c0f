import Veda.GoWebserver.QueueConsumer

set_option autoImplicit false

/-!
# What the consumer of the web server returns

Every step of the consumer keeps the invariant. From any state the consumer comes back to the
beginning of its loop, and a round of the loop returns a message, enters the next part, or finds
that nothing is left.

## Main definitions

* `GoWebserver.QueueReading.Beside` — a step that changes nothing for the producer.
* `GoWebserver.QueueReading.Idle` — a state in which `pop` is called.

## Main results

* `GoWebserver.QueueReading.Inv.consume` — a step of the consumer keeps the invariant.
* `GoWebserver.QueueReading.Idle.catchesUp` — the consumer comes to the end of all parts.
* `GoWebserver.QueueReading.returnsAll_of_reached` — the messages in a run whose steps meet their
  conditions.
-/

namespace Veda.GoWebserver

open Veda.Lib Veda.VQueue

namespace QueueReading

variable {crates : Crates} {name : List Char} {s s' : QueueReading} {newest k count : ℕ}
  {m : Message}

/-! ## Steps of the consumer -/

/-- A step of the consumer changes nothing for the producer. -/
structure Beside (s s' : QueueReading) : Prop where
  pushed : s'.pushed = s.pushed
  producer : s'.producer = s.producer
  disk : ∃ infoPop, s'.disk = { s.disk with infoPop }

theorem Beside.refl (s : QueueReading) : Beside s s := ⟨rfl, rfl, s.disk.infoPop, rfl⟩

theorem Beside.trans {s'' : QueueReading} (h : Beside s s') (h' : Beside s' s'') : Beside s s'' := by
  obtain ⟨infoPop, hdisk⟩ := h.disk
  obtain ⟨infoPop', hdisk'⟩ := h'.disk
  refine ⟨h'.pushed.trans h.pushed, h'.producer.trans h.producer, infoPop', ?_⟩
  rw [hdisk', hdisk]

theorem Files.beside (h : s.Files crates name newest) (hs : Beside s s') :
    s'.Files crates name newest := by
  obtain ⟨infoPop, hdisk⟩ := hs.disk
  exact {
    producing := by
      rw [hdisk, hs.pushed, hs.producer]
      exact h.producing.withPop infoPop
    lines := by
      rw [hdisk, hs.pushed, hs.producer]
      exact h.lines.withPop infoPop
    linked := by
      rw [hdisk]
      exact h.linked
    line_ne := by
      rw [hdisk]
      exact h.line_ne
    single := by
      rw [hs.pushed]
      exact h.single
    bodies := by
      rw [hs.pushed]
      exact h.bodies }

theorem Files.getInfoPush (h : s.Files crates name newest) (hk : k ≤ newest) {q : GoQueue}
    (hready : q.isReady = true) : ∃ rightEdge, q.getInfoPush name s.disk k =
      (true, { q with rightEdge, countPushed := (s.pushed k).length }) :=
  getInfoPush_eq hready (h.linked k hk) (h.line_ne k hk) h.lines.stored

/-- A state in which `pop` is called. -/
structure Idle (s : QueueReading) (newest k count : ℕ) : Prop extends s.Stands newest k count where
  stage : s.stage = .idle
  returned : s.returned = bodiesAt s.pushed k count

theorem consume_closed (consumerName : List Char) (h : s.Files crates name newest) (hs : s.Closed) :
    Beside s (s.consume crates name consumerName) ∧
      (s.consume crates name consumerName).Idle newest 0 0 := by
  have hqueue : s.queue.openR name s.disk = ⟨true, newest, 0, 0, none⟩ := by
    rw [hs.queue, GoQueue.openR, getInfoQueue_eq h.lines.stored]
    rfl
  have hconsumer : s.consumer.openRW name consumerName ⟨true, newest, 0, 0, none⟩ s.disk =
      { GoConsumer.new with isReady := true } := by
    rw [hs.consumer, GoConsumer.openRW, if_neg (by simp), GoConsumer.getInfo, if_neg (by simp),
      hs.infoPop, if_pos (by rfl)]
  have hopen : s.consume crates name consumerName =
      { s with
        queue := ⟨true, newest, 0, 0, none⟩
        consumer := { GoConsumer.new with isReady := true }
        stage := .idle } := by
    rw [consume, hs.stage]
    dsimp only [openConsumer]
    rw [hqueue, hconsumer]
  rw [hopen]
  refine ⟨⟨rfl, rfl, s.disk.infoPop, rfl⟩, ?_⟩
  exact {
    queueReady := rfl
    consumerReady := rfl
    id := rfl
    le_id := Nat.zero_le _
    id_le := Nat.le_refl _
    count_le := Nat.zero_le _
    countPopped := rfl
    startPosRecord := rfl
    file := fun j hj => absurd hj (by simp)
    headerBuff := List.length_replicate
    stage := rfl
    returned := hs.returned }

theorem beside_and_eq {s'' : QueueReading} (h : Beside s s'') (heq : s' = s'') :
    Beside s s' ∧ s' = s'' :=
  ⟨heq ▸ h, heq⟩

theorem consume_idle (consumerName : List Char)
    (h : s.Files crates name newest) (hs : s.Stands newest k count)
    (hstage : s.stage = .idle) :
    ∃ rightEdge, Beside s (s.consume crates name consumerName) ∧
      s.consume crates name consumerName =
        { s with
          queue := { s.queue with rightEdge, countPushed := (s.pushed k).length }
          stage := .informed } := by
  obtain ⟨rightEdge, hinfo⟩ := h.getInfoPush (hs.le_id.trans hs.id_le) hs.queueReady
  refine ⟨rightEdge, beside_and_eq ⟨rfl, rfl, s.disk.infoPop, rfl⟩ ?_⟩
  rw [consume, hstage]
  dsimp only
  rw [inform, if_neg (by simp [hs.queueReady, hs.consumerReady]), hs.id, hinfo]

theorem consume_end (consumerName : List Char)
    (h : s.Files crates name newest) (hs : s.Stands newest k count)
    (hstage : s.stage = .informed) (hend : s.queue.countPushed ≤ count) :
    ∃ id, k ≤ id ∧ id ≤ newest ∧ Beside s (s.consume crates name consumerName) ∧
      s.consume crates name consumerName =
        { s with
          queue := { s.queue with id }
          stage := if k < newest then .looked else .idle } := by
  have hle := hs.le_id
  have hle' := hs.id_le
  rw [consume, hstage]
  dsimp only
  rw [hs.countPopped, if_pos hend, look, hs.id]
  by_cases hid : s.queue.id = k
  · refine ⟨newest, by omega, Nat.le_refl _, beside_and_eq ⟨rfl, rfl, s.disk.infoPop, rfl⟩ ?_⟩
    rw [if_pos hid, getInfoQueue_eq h.lines.stored]
  · refine ⟨s.queue.id, hle, hle', beside_and_eq ⟨rfl, rfl, s.disk.infoPop, rfl⟩ ?_⟩
    rw [if_neg hid, if_pos (by omega), if_pos (by omega)]

theorem Stands.setRQueueFile (hs : s.Stands newest k count) (h : s.Files crates name newest)
    (hne : s.pushed k ≠ []) :
    s.queue.setRQueueFile s.disk s.consumer.id =
        { s.queue with
          id := (s.queue.setRQueueFile s.disk s.consumer.id).id, ffQueueR := some k } ∧
      (s.queue.setRQueueFile s.disk s.consumer.id).id = k := by
  have hlinked := h.linked k (hs.le_id.trans hs.id_le)
  rw [hs.id, GoQueue.setRQueueFile]
  by_cases hopen : s.queue.id ≠ k ∨ s.queue.ffQueueR = none
  · rw [if_pos hopen, if_pos hlinked]
    exact ⟨rfl, rfl⟩
  · rw [if_neg hopen]
    rw [not_or, not_not] at hopen
    obtain ⟨j, hj⟩ := Option.ne_none_iff_exists'.mp hopen.2
    have hjk : j = k := h.single j k (hs.file j hj) hne
    rw [hjk] at hj
    exact ⟨by rw [← hj], hopen.1⟩

theorem consume_read (consumerName : List Char)
    (h : s.Files crates name newest) (hs : s.Stands newest k count)
    (hstage : s.stage = .informed) (hless : count < s.queue.countPushed)
    (hknown : s.queue.countPushed ≤ (s.pushed k).length) :
    ∃ m, (s.pushed k)[count]? = some m ∧ Beside s (s.consume crates name consumerName) ∧
      (s.consume crates name consumerName).Stands newest k count ∧
      (s.consume crates name consumerName).stage = .returned ∧
      (s.consume crates name consumerName).returned = s.returned ++ [m.body] ∧
      MessageTaken crates (lengthOf ((s.pushed k).take count)) (count + 1) m
        (s.consume crates name consumerName).consumer := by
  have hlt : count < (s.pushed k).length := Nat.lt_of_lt_of_le hless hknown
  have hm : (s.pushed k)[count]? = some (s.pushed k)[count] := List.getElem?_eq_getElem hlt
  have hne : s.pushed k ≠ [] := List.ne_nil_of_length_pos (Nat.zero_lt_of_lt hlt)
  obtain ⟨hfile, hid⟩ := hs.setRQueueFile h hne
  obtain ⟨hbody, hsize⟩ := h.bodies k _ (List.getElem_mem hlt)
  obtain ⟨c', hread, htaken, hready, hcid, hstart, hcount⟩ :=
    readMessage_eq (q := s.queue) (c := s.consumer) h.producing.stored hm
      (by rw [hfile]) hs.startPosRecord hs.headerBuff hsize
  generalize (s.pushed k)[count] = m at hm hbody hread htaken
  have hconsume : s.consume crates name consumerName =
      { s with
        queue := s.queue.setRQueueFile s.disk s.consumer.id
        consumer := c'
        stage := .returned
        returned := s.returned ++ [m.body] } := by
    rw [consume, hstage]
    dsimp only
    rw [hs.countPopped, if_neg (by omega), QueueReading.read, hread]
    cases hcases : m.body with
    | nil => exact absurd hcases hbody
    | cons b bs => rfl
  rw [hconsume]
  refine ⟨m, hm, ⟨rfl, rfl, s.disk.infoPop, rfl⟩, ?_, rfl, rfl, htaken⟩
  exact {
    queueReady := by
      show (s.queue.setRQueueFile s.disk s.consumer.id).isReady = true
      rw [hfile]
      exact hs.queueReady
    consumerReady := hready.trans hs.consumerReady
    id := hcid.trans hs.id
    le_id := hid.ge
    id_le := hid.le.trans (hs.le_id.trans hs.id_le)
    count_le := hs.count_le
    countPopped := hcount.trans hs.countPopped
    startPosRecord := hstart.trans hs.startPosRecord
    file := by
      intro j hj
      have hj : (s.queue.setRQueueFile s.disk s.consumer.id).ffQueueR = some j := hj
      rw [hfile, Option.some.injEq] at hj
      rw [← hj]
      exact hne
    headerBuff := by
      show c'.headerBuff.length = headerSize
      rw [htaken.headerBuff, length_headerOf] }

theorem consume_looked (consumerName : List Char)
    (h : s.Files crates name newest) (hs : s.Stands newest k count)
    (hstage : s.stage = .looked) (hk : k < newest) (hlast : count = (s.pushed k).length)
    (hreturned : s.returned = bodiesAt s.pushed k count) :
    Beside s (s.consume crates name consumerName) ∧
      (s.consume crates name consumerName).Idle newest (k + 1) 0 := by
  have hlt := h.producing.stored.newest_lt
  have hnext : addU32 s.consumer.id 1 = k + 1 := by
    rw [hs.id]
    exact Nat.mod_eq_of_lt (by omega)
  obtain ⟨rightEdge, hinfo⟩ :=
    h.getInfoPush (q := { s.queue with id := k + 1 }) (Nat.succ_le_of_lt hk) hs.queueReady
  obtain ⟨infoPop, henter⟩ := enterPart_eq consumerName hnext hinfo hs.queueReady
  have hconsume : s.consume crates name consumerName =
      { s with
        disk := { s.disk with infoPop }
        queue := { s.queue with
          id := k + 1, rightEdge, countPushed := (s.pushed (k + 1)).length }
        consumer := { s.consumer with
          id := k + 1, countPopped := 0, startPosRecord := 0, isReady := true }
        stage := .idle } := by
    rw [consume, hstage]
    dsimp only [enter]
    rw [henter]
  rw [hconsume]
  refine ⟨⟨rfl, rfl, infoPop, rfl⟩, ?_⟩
  exact {
    queueReady := hs.queueReady
    consumerReady := rfl
    id := rfl
    le_id := Nat.le_refl _
    id_le := Nat.succ_le_of_lt hk
    count_le := Nat.zero_le _
    countPopped := rfl
    startPosRecord := rfl
    file := hs.file
    headerBuff := hs.headerBuff
    stage := rfl
    returned := by
      show s.returned = bodiesAt s.pushed (k + 1) 0
      rw [hreturned, hlast, bodiesAt_length, bodiesAt_zero] }

theorem consume_returned (consumerName : List Char)
    (h : s.Files crates name newest) (hs : s.Stands newest k count)
    (hstage : s.stage = .returned) (hm : (s.pushed k)[count]? = some m)
    (htaken : MessageTaken crates (lengthOf ((s.pushed k).take count)) (count + 1) m s.consumer)
    (hreturned : s.returned = bodiesAt s.pushed k (count + 1)) :
    Beside s (s.consume crates name consumerName) ∧
      (s.consume crates name consumerName).Idle newest k (count + 1) := by
  obtain ⟨hlt, -⟩ := List.getElem?_eq_some_iff.mp hm
  obtain ⟨rightEdge, hinfo⟩ := h.getInfoPush (hs.le_id.trans hs.id_le) hs.queueReady
  rw [← hs.id] at hinfo
  obtain ⟨infoPop, c', hcommit, hready, hid, hcount, hstart, hbuff⟩ :=
    commitAndNext_eq h.producing.stored hm consumerName hinfo hs.queueReady hs.queueReady
      hs.consumerReady (by rw [hs.id]; exact hlt) hs.countPopped hs.startPosRecord htaken
  have hconsume : s.consume crates name consumerName =
      { s with
        disk := { s.disk with infoPop }
        queue := { s.queue with rightEdge, countPushed := (s.pushed s.consumer.id).length }
        consumer := c'
        stage := .idle } := by
    rw [consume, hstage]
    dsimp only [commit]
    rw [hcommit]
  rw [hconsume]
  refine ⟨⟨rfl, rfl, infoPop, rfl⟩, ?_⟩
  exact {
    queueReady := hs.queueReady
    consumerReady := hready
    id := hid.trans hs.id
    le_id := hs.le_id
    id_le := hs.id_le
    count_le := hlt
    countPopped := hcount
    startPosRecord := hstart
    file := hs.file
    headerBuff := hbuff
    stage := rfl
    returned := hreturned }

/-! ## Runs -/

theorem Idle.inv (h : s.Files crates name newest) (hidle : s.Idle newest k count) :
    s.Inv crates name newest :=
  ⟨h, .inr ⟨k, count, hidle.toStands, .idle hidle.stage hidle.returned⟩⟩

/-- **A step of the consumer** keeps the invariant. -/
theorem Inv.consume (h : s.Inv crates name newest) (consumerName : List Char) :
    Beside s (s.consume crates name consumerName) ∧
      (s.consume crates name consumerName).Inv crates name newest := by
  rcases h.reads with hclosed | ⟨k, count, hs, hreads⟩
  · obtain ⟨hbeside, hidle⟩ := consume_closed consumerName h.files hclosed
    exact ⟨hbeside, hidle.inv (h.files.beside hbeside)⟩
  cases hreads with
  | idle hstage hreturned =>
    obtain ⟨rightEdge, hbeside, hconsume⟩ := consume_idle consumerName h.files hs hstage
    refine ⟨hbeside, h.files.beside hbeside, .inr ⟨k, count, ?_, ?_⟩⟩
    · rw [hconsume]
      exact { hs with }
    · rw [hconsume]
      exact .informed rfl hreturned (Nat.le_refl _) fun hend _ => Nat.le_antisymm hs.count_le hend
  | informed hstage hreturned hknown hended =>
    rcases Nat.lt_or_ge count s.queue.countPushed with hless | hend
    · obtain ⟨m, hm, hbeside, hstands, hstage', hreturned', htaken⟩ :=
        consume_read consumerName h.files hs hstage hless hknown
      refine ⟨hbeside, h.files.beside hbeside, .inr ⟨k, count, hstands, ?_⟩⟩
      refine .returned hstage' (by rw [hbeside.pushed]; exact hm)
        (by rw [hbeside.pushed]; exact htaken) ?_
      rw [hreturned', hreturned, hbeside.pushed, bodiesAt_succ hm]
    · obtain ⟨id, hle, hle', hbeside, hconsume⟩ :=
        consume_end consumerName h.files hs hstage hend
      refine ⟨hbeside, h.files.beside hbeside, .inr ⟨k, count, ?_, ?_⟩⟩
      · rw [hconsume]
        exact { hs with le_id := hle, id_le := hle' }
      · rw [hconsume]
        by_cases hk : k < newest
        · rw [if_pos hk]
          exact .looked rfl hreturned hk (hended hend hk)
        · rw [if_neg hk]
          exact .idle rfl hreturned
  | looked hstage hreturned hk hlast =>
    obtain ⟨hbeside, hidle⟩ :=
      consume_looked consumerName h.files hs hstage hk hlast hreturned
    exact ⟨hbeside, hidle.inv (h.files.beside hbeside)⟩
  | returned hstage hm htaken hreturned =>
    obtain ⟨hbeside, hidle⟩ :=
      consume_returned consumerName h.files hs hstage hm htaken hreturned
    exact ⟨hbeside, hidle.inv (h.files.beside hbeside)⟩

theorem inv_start (crates : Crates) (hname : PlainName name) :
    (start crates name).Inv crates name 0 := by
  obtain ⟨hq, hproducing⟩ := Producing.start crates hname
  obtain ⟨-, hlines⟩ := Producing.start (goLines crates.crc32) hname
  have hstart : start crates name = { empty with
      disk := partOpened crates name .empty 0
      producer := some ⟨.readWrite, true, .part 0, 0, .part 0, 0, 0, 0⟩ } := by
    rw [start, QueueReading.openQueue]
    dsimp only [empty]
    rw [hq]
  rw [hstart]
  refine ⟨?_, .inl ⟨rfl, rfl, rfl, rfl, rfl⟩⟩
  exact {
    producing := hproducing
    lines := hlines
    linked := by
      intro k hk
      rw [Nat.le_zero.mp hk]
      rfl
    line_ne := by
      intro k hk
      rw [Nat.le_zero.mp hk]
      show ((partOpened crates name .empty 0).parts 0).infoPush ≠ []
      rw [partOpened, Disk.infoPush_setText_self]
      exact writeAt_ne (List.append_ne_nil_of_right_ne_nil _ (List.cons_ne_nil _ _))
    single := fun i _ hi => absurd rfl hi
    bodies := fun _ _ hm => absurd hm List.not_mem_nil }

/-- **A step** whose condition is met keeps the invariant. -/
theorem Inv.step (h : s.Inv crates name newest) (hname : PlainName name)
    (consumerName : List Char) {op : ReadingOp}
    (hallowed : s.Allowed crates name op) :
    ∃ newest', (s.step crates name consumerName op).Inv crates name newest' := by
  cases op with
  | openQueue => exact ⟨newest + 1, h.openQueue hname hallowed⟩
  | push m => exact ⟨newest, h.push hname hallowed⟩
  | consume => exact ⟨newest, (h.consume consumerName).2⟩

theorem Reached.inv {consumerName : List Char} (hname : PlainName name)
    (h : Reached crates name consumerName s) :
    ∃ newest, s.Inv crates name newest := by
  induction h with
  | start => exact ⟨0, inv_start crates hname⟩
  | step op _ hallowed ih =>
    obtain ⟨newest, hinv⟩ := ih
    exact hinv.step hname consumerName hallowed

/-! ## The end of the parts -/

theorem Inv.inOrder (h : s.Inv crates name newest) : s.InOrder := by
  rcases h.reads with hclosed | ⟨k, count, -, hreads⟩
  · exact ⟨0, by rw [hclosed.returned]; exact List.nil_prefix⟩
  · refine ⟨k + 1, ?_⟩
    cases hreads with
    | idle _ hreturned => rw [hreturned]; exact bodiesAt_le ..
    | informed _ hreturned => rw [hreturned]; exact bodiesAt_le ..
    | looked _ hreturned => rw [hreturned]; exact bodiesAt_le ..
    | returned _ _ _ hreturned => rw [hreturned]; exact bodiesAt_le ..

theorem consume_informed (consumerName : List Char)
    (h : s.Files crates name newest) (hs : s.Stands newest k count)
    (hstage : s.stage = .informed) (hreturned : s.returned = bodiesAt s.pushed k count)
    (hknown : s.queue.countPushed ≤ (s.pushed k).length)
    (hended : s.queue.countPushed ≤ count → k < newest → count = (s.pushed k).length) :
    (count < (s.pushed k).length ∧ Beside s ((consume crates name consumerName)^[2] s) ∧
        ((consume crates name consumerName)^[2] s).Idle newest k (count + 1)) ∨
      (k < newest ∧ count = (s.pushed k).length ∧
        Beside s ((consume crates name consumerName)^[2] s) ∧
        ((consume crates name consumerName)^[2] s).Idle newest (k + 1) 0) ∨
      (newest ≤ k ∧ s.queue.countPushed ≤ count ∧
        Beside s (s.consume crates name consumerName) ∧
        (s.consume crates name consumerName).Idle newest k count) := by
  rcases Nat.lt_or_ge count s.queue.countPushed with hless | hend
  · left
    obtain ⟨m, hm, hbeside, hstands, hstage', hreturned', htaken⟩ :=
      consume_read consumerName h hs hstage hless hknown
    have hpushed := hbeside.pushed
    have hcommit := consume_returned consumerName (m := m)
      (h.beside hbeside) hstands hstage' (by rw [hpushed]; exact hm)
      (by rw [hpushed]; exact htaken)
      (by rw [hreturned', hreturned, hpushed, bodiesAt_succ hm])
    exact ⟨Nat.lt_of_lt_of_le hless hknown, hbeside.trans hcommit.1, hcommit.2⟩
  · right
    obtain ⟨id, hle, hle', hbeside, hconsume⟩ :=
      consume_end consumerName h hs hstage hend
    have hstands : (s.consume crates name consumerName).Stands newest k count := by
      rw [hconsume]
      exact { hs with le_id := hle, id_le := hle' }
    have hsame : (s.consume crates name consumerName).returned =
        bodiesAt (s.consume crates name consumerName).pushed k count := by
      rw [hconsume]
      exact hreturned
    rcases Nat.lt_or_ge k newest with hk | hk
    · left
      have hstage' : (s.consume crates name consumerName).stage = .looked := by
        rw [hconsume]
        exact if_pos hk
      have henter := consume_looked consumerName (h.beside hbeside) hstands
        hstage' hk (by rw [hbeside.pushed]; exact hended hend hk) hsame
      exact ⟨hk, hended hend hk, hbeside.trans henter.1, henter.2⟩
    · right
      have hstage' : (s.consume crates name consumerName).stage = .idle := by
        rw [hconsume]
        exact if_neg (Nat.not_lt.mpr hk)
      exact ⟨hk, hend, hbeside, { hstands with stage := hstage', returned := hsame }⟩

theorem Inv.idle (h : s.Inv crates name newest) (consumerName : List Char) :
    ∃ n k count, Beside s ((QueueReading.consume crates name consumerName)^[n] s) ∧
      ((QueueReading.consume crates name consumerName)^[n] s).Idle newest k count := by
  rcases h.reads with hclosed | ⟨k, count, hs, hreads⟩
  · exact ⟨1, 0, 0, consume_closed consumerName h.files hclosed⟩
  cases hreads with
  | idle hstage hreturned =>
    exact ⟨0, k, count, .refl s, { hs with stage := hstage, returned := hreturned }⟩
  | informed hstage hreturned hknown hended =>
    rcases consume_informed consumerName h.files hs hstage hreturned hknown
      hended with ⟨-, hread⟩ | ⟨-, -, henter⟩ | ⟨-, -, hend⟩
    · exact ⟨2, k, count + 1, hread⟩
    · exact ⟨2, k + 1, 0, henter⟩
    · exact ⟨1, k, count, hend⟩
  | looked hstage hreturned hk hlast =>
    exact ⟨1, k + 1, 0, consume_looked consumerName h.files hs hstage hk hlast hreturned⟩
  | returned hstage hm htaken hreturned =>
    exact ⟨1, k, count + 1, consume_returned consumerName h.files hs hstage hm htaken hreturned⟩

theorem Idle.round (hs : s.Idle newest k count) (h : s.Files crates name newest)
    (consumerName : List Char) :
    (count < (s.pushed k).length ∧ Beside s ((consume crates name consumerName)^[3] s) ∧
        ((consume crates name consumerName)^[3] s).Idle newest k (count + 1)) ∨
      (k < newest ∧ count = (s.pushed k).length ∧
        Beside s ((consume crates name consumerName)^[3] s) ∧
        ((consume crates name consumerName)^[3] s).Idle newest (k + 1) 0) ∨
      (k = newest ∧ count = (s.pushed k).length) := by
  obtain ⟨rightEdge, hbeside, hconsume⟩ :=
    consume_idle consumerName h hs.toStands hs.stage
  have hstands : (s.consume crates name consumerName).Stands newest k count := by
    rw [hconsume]
    exact { hs.toStands with }
  have hstage : (s.consume crates name consumerName).stage = .informed := by rw [hconsume]
  have hreturned : (s.consume crates name consumerName).returned =
      bodiesAt (s.consume crates name consumerName).pushed k count := by
    rw [hconsume]
    exact hs.returned
  have hknown : (s.consume crates name consumerName).queue.countPushed =
      ((s.consume crates name consumerName).pushed k).length := by
    rw [hconsume]
  rcases consume_informed consumerName (h.beside hbeside) hstands hstage
    hreturned hknown.le (fun hend _ => Nat.le_antisymm hstands.count_le (hknown ▸ hend))
    with ⟨hlt, hread⟩ | ⟨hk, hlast, henter⟩ | ⟨hk, hend, -⟩
  · rw [hbeside.pushed] at hlt
    exact .inl ⟨hlt, hbeside.trans hread.1, hread.2⟩
  · rw [hbeside.pushed] at hlast
    exact .inr (.inl ⟨hk, hlast, hbeside.trans henter.1, henter.2⟩)
  · rw [hknown, hbeside.pushed] at hend
    exact .inr (.inr ⟨Nat.le_antisymm (hs.le_id.trans hs.id_le) hk,
      Nat.le_antisymm hs.count_le hend⟩)

theorem Stands.length_bodiesAt (hs : s.Stands newest k count) (hlt : count < (s.pushed k).length) :
    (bodiesAt s.pushed k (count + 1)).length = (bodiesAt s.pushed k count).length + 1 ∧
      (bodiesAt s.pushed k count).length < (bodiesUpTo s.pushed (newest + 1)).length := by
  have hsucc : (bodiesAt s.pushed k (count + 1)).length =
      (bodiesAt s.pushed k count).length + 1 := by
    rw [bodiesAt_succ (List.getElem?_eq_getElem hlt), List.length_append]
    rfl
  have hle := (bodiesAt_le s.pushed k (count + 1)).trans
    (bodiesUpTo_mono s.pushed (Nat.add_le_add_right (hs.le_id.trans hs.id_le) 1))
  have hlength := hle.length_le
  exact ⟨hsucc, by omega⟩

theorem Idle.bodiesUpTo_returned (h : s.Files crates name newest)
    (hs : s.Idle newest newest (s.pushed newest).length) (j : ℕ) :
    bodiesUpTo s.pushed j <+: s.returned := by
  rw [hs.returned, bodiesAt_length]
  exact bodiesUpTo_of_empty (fun i hi => (h.producing.unopened i hi).2.1) j

/-- **The consumer comes to the end of all parts.**

**Proof sketch.** Induction on a bound for the bodies that are not returned and the parts that are
not entered. A round returns a body or enters a part, and otherwise nothing is left. -/
theorem Idle.catchesUp {fuel : ℕ} (hs : s.Idle newest k count) (h : s.Files crates name newest)
    (consumerName : List Char)
    (hfuel : (bodiesUpTo s.pushed (newest + 1)).length - (bodiesAt s.pushed k count).length +
      (newest - k) ≤ fuel) :
    ∃ n, ∀ j, bodiesUpTo s.pushed j <+: ((consume crates name consumerName)^[n] s).returned := by
  induction fuel generalizing s k count with
  | zero =>
    rcases hs.round h consumerName with ⟨hlt, -⟩ | ⟨hk, -⟩ | ⟨rfl, rfl⟩
    · have hcounted := hs.length_bodiesAt hlt
      omega
    · omega
    · exact ⟨0, hs.bodiesUpTo_returned h⟩
  | succ fuel ih =>
    rcases hs.round h consumerName with
      ⟨hlt, hbeside, hidle⟩ | ⟨hk, hlast, hbeside, hidle⟩ | ⟨rfl, rfl⟩
    · have hcounted := hs.length_bodiesAt hlt
      obtain ⟨n, hn⟩ := ih hidle (h.beside hbeside) (by rw [hbeside.pushed]; omega)
      refine ⟨n + 3, fun j => ?_⟩
      rw [Function.iterate_add_apply, ← hbeside.pushed]
      exact hn j
    · have hentered : bodiesAt s.pushed (k + 1) 0 = bodiesAt s.pushed k count := by
        rw [bodiesAt_zero, ← bodiesAt_length, ← hlast]
      obtain ⟨n, hn⟩ := ih hidle (h.beside hbeside) (by rw [hbeside.pushed, hentered]; omega)
      refine ⟨n + 3, fun j => ?_⟩
      rw [Function.iterate_add_apply, ← hbeside.pushed]
      exact hn j
    · exact ⟨0, hs.bodiesUpTo_returned h⟩

/-- **What the consumer returns.** In a run in which only one part gets messages, which are not
empty and are read at once, and no part is opened between the end of the newest part that `pop` saw
and its look for a newer one when a message came in between, the consumer returns every message once
and in order.

**Proof sketch.** Each step keeps the invariant: the file that is open is that of the only part with
messages, and what `pop` saw as the end of an older part is its end. So what was returned are the
messages up to a place, and rounds of the loop lead to the last one. -/
theorem returnsAll_of_reached {consumerName : List Char} (hname : PlainName name)
    (h : Reached crates name consumerName s) : s.Delivers crates name consumerName := by
  obtain ⟨newest, hinv⟩ := h.inv hname
  obtain ⟨n, k, count, hbeside, hidle⟩ := hinv.idle consumerName
  obtain ⟨n', hn'⟩ := hidle.catchesUp (hinv.files.beside hbeside) consumerName le_rfl
  refine ⟨hinv.inOrder, n' + n, fun j => ?_⟩
  rw [Function.iterate_add_apply, ← hbeside.pushed]
  exact hn' j

/-! ## One part and two parts -/

/-- A run. -/
def run (ops : List ReadingOp) : QueueReading :=
  ops.foldl (step lineCrates ['q'] ['c']) (start lineCrates ['q'])

def messageA : Message := ⟨.string, [65]⟩

def messageB : Message := ⟨.string, [66]⟩

theorem reached_run {ops : List ReadingOp} (op : ReadingOp)
    (h : Reached lineCrates ['q'] ['c'] (run ops)) (hop : (run ops).Allowed lineCrates ['q'] op) :
    Reached lineCrates ['q'] ['c'] (run (ops ++ [op])) := by
  rw [run, List.foldl_append]
  exact .step op h hop

/-- A second part without messages. -/
theorem delivers_emptyPart : (run [.openQueue, .push messageA, .consume, .consume]).Delivers
    lineCrates ['q'] ['c'] := by
  have h₀ : Reached lineCrates ['q'] ['c'] (run []) := .start
  have hopen : (run []).Allowed lineCrates ['q'] .openQueue := by
    refine ⟨?_, fun hrace => absurd hrace.1 (by decide)⟩
    intro newest hnewest
    have hzero : readQueueInfo lineCrates ['q'] ((run []).disk.infoQueue.getD []) = some 0 := by
      decide +kernel
    rw [hzero, Option.some.injEq] at hnewest
    rw [← hnewest]
    decide
  have h₁ := reached_run .openQueue h₀ hopen
  have hpush : (run [.openQueue]).Allowed lineCrates ['q'] (.push messageA) := by
    refine ⟨by decide, by decide, ?_⟩
    have hproducer : (run [.openQueue]).producer =
        some ⟨.readWrite, true, .part 1, 0, .part 1, 0, 0, 1⟩ := by
      decide +kernel
    intro q hq
    rw [hproducer, Option.some.injEq] at hq
    rw [← hq]
    exact ⟨by decide, by decide, fun k hk => absurd rfl hk⟩
  have h₂ := reached_run (.push messageA) h₁ hpush
  have h₃ := reached_run .consume h₂ trivial
  have h₄ := reached_run .consume h₃ trivial
  exact returnsAll_of_reached (by decide +kernel) h₄

/-- Two parts with a message each: the message of the first part is returned again in place of that
of the second one. -/
theorem not_delivers_twoParts :
    ¬ (run ([.push messageA, .openQueue, .push messageB] ++ List.replicate 9 .consume)).Delivers
      lineCrates ['q'] ['c'] := by
  rintro ⟨⟨k, hk⟩, -⟩
  have hreturned : (run ([.push messageA, .openQueue, .push messageB] ++
      List.replicate 9 .consume)).returned = [[65], [65]] := by
    decide +kernel
  have hbodies : bodiesUpTo (run ([.push messageA, .openQueue, .push messageB] ++
      List.replicate 9 .consume)).pushed 2 = [[65], [66]] := by
    decide +kernel
  rw [hreturned] at hk
  rcases Nat.le_total k 2 with hle | hle
  · have hprefix := hk.trans (bodiesUpTo_mono _ hle)
    rw [hbodies] at hprefix
    exact absurd hprefix (by decide)
  · have hprefix := bodiesUpTo_mono (run ([.push messageA, .openQueue, .push messageB] ++
      List.replicate 9 .consume)).pushed hle
    rw [hbodies] at hprefix
    obtain ⟨rest, hrest⟩ := hk
    obtain ⟨rest', hrest'⟩ := hprefix
    rw [← hrest', List.cons_append, List.cons_append, List.cons_append, List.cons_append] at hrest
    simp at hrest

end QueueReading

end Veda.GoWebserver
