import Veda.VQueue.DamagedInfo
import Veda.VQueue.Restart

set_option autoImplicit false

/-!
# The size of a batch

A reader subtracts the messages that it popped of a part from those that were pushed to it. The
pushed count is read from the line of a part, or is zeroed when the file that names the newest part
is read; the popped count is saved by the consumer. In a run info files may be missing or unreadable
at any moment, parts may be removed, and both programs may be started again; the subtraction does
not go below zero as long as a consumer keeps its count for the part it was counted in.

## Main definitions

* `VQueue.System.Event`, `VQueue.System.happens` — a run with damaged info files.
* `VQueue.System.Underflows` — the subtraction goes below zero.
* `VQueue.System.Permitted` — the condition of an event.

## Main results

* `VQueue.System.Kept.happens` — what every event keeps.
* `VQueue.System.not_underflows` — the size of a batch does not underflow.

## Design

The question for a batch (`batch`) is asked the way the three programs do: the line of the part is
read, and when this succeeds, `get_batch_size` or the same subtraction follows. The question alone
is an event of its own (`getBatchSize`). A line that can be read says what was published; an
unreadable one is any other text. Files that are missing are those of a part that was removed; they
may come back.
-/

namespace Veda.VQueue

namespace System

/-! ## Events -/

/-- What happens to a queue: the operations of the programs, questions for the size of a batch, and
damages of info files and their repair. -/
inductive Event
  | op (o : Op)
  /-- `next(false)` -/
  | nextOnly
  | commit
  /-- `get_info_of_part(id, true)` and then `get_batch_size` -/
  | batch
  | getBatchSize
  /-- the files of a part are there again -/
  | restore (k : ℕ)
  | setQueueInfo (text : List Char)
  | setPushInfo (k : ℕ) (text : List Char)
  | setPopInfo (text : List Char)

section Events

variable (crates : Crates) (name consumerName : List Char)

/-- `next(false)`. -/
def nextOnly (s : System) : System :=
  match s.consumer, s.phase with
  | some c, .body _ =>
    if c.isReady then
      { s with consumer := some { c with countPopped := addU32 c.countPopped 1 }, phase := .idle }
    else { s with phase := .idle }
  | _, _ => s

def commit (s : System) : System :=
  match s.consumer, s.phase with
  | some c, .idle => { s with disk := c.commit name consumerName s.disk }
  | _, _ => s

def batch (s : System) : System :=
  match s.consumer, s.phase with
  | some c, .idle =>
    match c.queue.getInfoOfPart crates name s.disk c.id true with
    | (.error _, q) => { s with consumer := some { c with queue := q } }
    | (.ok (), q) =>
      { s with consumer := some ({ c with queue := q }.getBatchSize crates name s.disk).2 }
  | _, _ => s

def getBatchSize (s : System) : System :=
  match s.consumer, s.phase with
  | some c, .idle => { s with consumer := some (c.getBatchSize crates name s.disk).2 }
  | _, _ => s

def restore (s : System) (k : ℕ) : System :=
  { s with disk := { s.disk with linked := Function.update s.disk.linked k true } }

def happens (s : System) : Event → System
  | .op o => s.step crates name consumerName o
  | .nextOnly => s.nextOnly
  | .commit => s.commit name consumerName
  | .batch => s.batch crates name
  | .getBatchSize => s.getBatchSize crates name
  | .restore k => s.restore k
  | .setQueueInfo text => { s with disk := { s.disk with infoQueue := some text } }
  | .setPushInfo k text => { s with disk := s.disk.setText text (.part k) }
  | .setPopInfo text => { s with disk := { s.disk with infoPop := text } }

/-- **The subtraction goes below zero**: fewer messages are pushed than popped when the size of a
batch is asked for. -/
def Underflows (s : System) : Event → Prop
  | .batch => ∃ c q, s.consumer = some c ∧ s.phase = .idle ∧
      c.queue.getInfoOfPart crates name s.disk c.id true = (.ok (), q) ∧
      q.countPushed < c.countPopped
  | .getBatchSize => ∃ c, s.consumer = some c ∧ s.phase = .idle ∧
      c.queue.countPushed < c.countPopped
  | _ => False

end Events

section Conditions

variable (crates : Crates) (name consumerName : List Char)

/-- **The condition of an event.** Numbers do not overflow, and:
* a producer is started when the newest part can be read;
* a consumer is started when the part that it saved exists, or nothing was popped of it;
* a header is popped when the line of the next part can be read, if this part exists;
* the size of a batch is asked for, without reading the line of the part before, when the pushed
  count was not zeroed or nothing was popped;
* a part that comes back is not one that a consumer has turned to without reading it, and what is
  saved for it is a place of it;
* a damaged line cannot be read, or says the truth. -/
def Permitted (s : System) : Event → Prop
  | .op .openQueue => ∃ newest,
    readQueueInfo crates name (s.disk.infoQueue.getD []) = some newest ∧ newest + 1 < 2 ^ 32
  | .op (.push m) => ∀ q, s.producer = some q →
    q.countPushed + 1 < 2 ^ 32 ∧ q.rightEdge + headerSize + m.body.length < 2 ^ 64
  | .op .openConsumer => ∀ pos count id,
    readPopInfo crates name consumerName s.disk.infoPop = some (pos, count, id) →
      s.disk.linked id = true ∨ count = 0
  | .op .popHeader => ∀ c, s.consumer = some c → s.disk.linked (c.id + 1) = true →
    readPushInfo crates name (s.disk.parts (c.id + 1)).infoPush ≠ none
  | .getBatchSize => ∀ c, s.consumer = some c → c.queue.countPushed ≠ 0 ∨ c.countPopped = 0
  | .restore k => (∀ q, s.producer = some q → k ≤ q.id) ∧
    (∀ c, s.consumer = some c → c.id = k → c.queue.ffQueue = .part k) ∧
    ∀ pos count, readPopInfo crates name consumerName s.disk.infoPop = some (pos, count, k) →
      Place (s.pushed k) pos count
  | .setQueueInfo text => ∀ newest, readQueueInfo crates name text = some newest →
    ∀ q, s.producer = some q → newest = q.id
  | .setPushInfo k text => s.disk.linked k = true ∧
    ∀ line, readPushInfo crates name text = some line →
      line = (lengthOf (s.pushed k), (s.pushed k).length)
  | .setPopInfo text => ∀ pos count id,
    readPopInfo crates name consumerName text = some (pos, count, id) →
      Place (s.pushed id) pos count
  | _ => True

/-- A state of a run whose events meet their conditions. -/
inductive Watched : System → Prop
  | start : Watched (start crates name)
  | step {s : System} (e : Event) : Watched s → s.Permitted crates name consumerName e →
      Watched (s.happens crates name consumerName e)

end Conditions

/-- What every event keeps. -/
structure Kept (crates : Crates) (name consumerName : List Char) (s : System) (newest : ℕ) :
    Prop where
  files : Files crates name s.disk s.pushed newest
  writer : ∃ q, s.producer = some q ∧ Writer crates s.disk s.pushed newest q
  saved : ∀ pos count id,
    readPopInfo crates name consumerName s.disk.infoPop = some (pos, count, id) →
      (count = 0 → pos = 0) ∧
        (Place (s.pushed id) pos count ∨ (s.disk.linked id = false ∧ id ≤ newest))
  sound : ∀ c, s.consumer = some c → Sound crates s.disk s.pushed newest c s.phase

variable {crates : Crates} {name consumerName : List Char} {s : System} {newest : ℕ}

/-! ## Events of other programs -/

/-- **The first part** is opened. -/
theorem kept_start (crates : Crates) (consumerName : List Char) (hname : PlainName name) :
    (start crates name).Kept crates name consumerName 0 := by
  have hinv := inv_start crates name consumerName hname
  have hlines := hinv.stored.pushInfo
  have hqueue := hinv.stored.queueInfo
  have hunopened := hinv.unopened
  rw [start_eq crates hname] at hlines hqueue hunopened ⊢
  exact {
    files := {
      queueInfo := by
        intro id hid
        rw [hqueue] at hid
        exact (Option.some.inj hid).symm
      pushInfo := by
        intro k line hline
        rw [hlines] at hline
        exact (Option.some.inj hline).symm
      data := fun k => Disk.data_setText _ _ 0 k
      count_lt := fun _ => Nat.two_pow_pos 32
      length_lt := fun _ => Nat.two_pow_pos 64
      body_lt := fun _ _ hm => absurd hm List.not_mem_nil
      newest_lt := by decide
      unopened := fun k hk => ⟨(hunopened k hk).1, rfl, hlines k⟩ }
    writer := ⟨_, rfl, writer_opened rfl rfl⟩
    saved := by
      rintro pos count id hsaved
      cases hsaved
      exact ⟨fun _ => rfl, .inl (Place.zero _)⟩
    sound := by
      rintro c ⟨⟩ }

/-- **A new part** is opened. -/
theorem Kept.openQueue (hname : PlainName name) (h : s.Kept crates name consumerName newest)
    {last : ℕ} (hread : readQueueInfo crates name (s.disk.infoQueue.getD []) = some last)
    (hlast : last + 1 < 2 ^ 32) :
    (s.openQueue crates name).Kept crates name consumerName (newest + 1) := by
  obtain rfl := h.files.queueInfo last hread
  obtain ⟨hfresh, hempty, hline⟩ := h.files.unopened (last + 1) (Nat.lt_succ_self last)
  have hnext : nextPart crates name s.disk = last + 1 := by
    rw [nextPart, hread]
    exact Nat.mod_eq_of_lt hlast
  have hopened : s.openQueue crates name = { s with
      disk := partOpened crates name s.disk (last + 1)
      producer := some ⟨.readWrite, true, .part (last + 1), 0, .part (last + 1), 0, 0,
        last + 1⟩ } := by
    rw [System.openQueue, newReadWrite_eq hname s.disk hnext hline]
  have hlinked : ∀ k, k ≠ last + 1 →
      (partOpened crates name s.disk (last + 1)).linked k = s.disk.linked k :=
    fun k hk => Function.update_of_ne hk ..
  have hlines : ∀ k, k ≠ last + 1 →
      ((partOpened crates name s.disk (last + 1)).parts k).infoPush =
        (s.disk.parts k).infoPush :=
    fun k hk => Disk.infoPush_setText_of_ne s.disk _ hk
  have hwritten : readPushInfo crates name
      ((partOpened crates name s.disk (last + 1)).parts (last + 1)).infoPush = some (0, 0) := by
    rw [partOpened]
    dsimp only
    rw [Disk.infoPush_setText_self]
    exact readPushInfo_written hname (by decide) (by decide) _
  have hdata : ∀ k, ((partOpened crates name s.disk (last + 1)).parts k).data =
      (s.disk.parts k).data := fun k => Disk.data_setText s.disk _ (last + 1) k
  rw [hopened]
  exact {
    files := {
      queueInfo := by
        intro i hi
        have hnamed : readQueueInfo crates name
            ((partOpened crates name s.disk (last + 1)).infoQueue.getD []) = some (last + 1) :=
          readQueueInfo_written hname hlast _
        exact Option.some.inj (hi.symm.trans hnamed)
      pushInfo := by
        intro k line hk
        by_cases heq : k = last + 1
        · subst heq
          dsimp only at hk ⊢
          rw [hwritten] at hk
          rw [hempty]
          exact (Option.some.inj hk).symm
        · exact h.files.pushInfo k line (hlines k heq ▸ hk)
      data := fun k => (hdata k).trans (h.files.data k)
      count_lt := h.files.count_lt
      length_lt := h.files.length_lt
      body_lt := h.files.body_lt
      newest_lt := hlast
      unopened := by
        intro k hk
        obtain ⟨hunlinked, hnone, hinfo⟩ := h.files.unopened k (by omega)
        have hne : k ≠ last + 1 := by omega
        refine ⟨(hlinked k hne).trans hunlinked, hnone, ?_⟩
        dsimp only
        rw [hlines k hne, hinfo] }
    writer := by
      refine ⟨_, rfl, writer_opened hempty ?_⟩
      rw [h.files.data, hempty]
      rfl
    saved := by
      intro pos count i hi
      obtain ⟨hzero, hplace⟩ := h.saved pos count i hi
      refine ⟨hzero, hplace.imp id fun hmissing => ⟨?_, by omega⟩⟩
      exact (hlinked i (by omega)).trans hmissing.1
    sound := by
      intro c hc
      have hsound := h.sound c hc
      have hle := hsound.id_le
      exact hsound.later (Nat.le_succ _) (fun k => ⟨[], (List.append_nil _).symm⟩) fun hmissing =>
        .inl ((hlinked c.id (by omega)).trans hmissing) }

/-- **A message** is pushed, or it is too long. -/
theorem Kept.push (hname : PlainName name) (h : s.Kept crates name consumerName newest)
    {m : Message} (hallowed : ∀ q, s.producer = some q →
      q.countPushed + 1 < 2 ^ 32 ∧ q.rightEdge + headerSize + m.body.length < 2 ^ 64) :
    (s.push crates name m).Kept crates name consumerName newest := by
  obtain ⟨q, hproducer, hwriter⟩ := h.writer
  obtain ⟨hcount, hlength⟩ := hallowed q hproducer
  rcases Nat.lt_or_ge (2 ^ 31 - 1) m.body.length with hlong | hbody
  · have hrefused : q.push crates name s.disk m ⟨.full, .full, .full⟩ =
        (.error .notReady, s.disk, q) := by
      rw [Queue.push, Queue.pushRecord, if_pos (.inr (.inr hlong))]
    rw [push_refused hproducer hrefused]
    exact h
  · rw [hwriter.countPushed] at hcount
    rw [hwriter.rightEdge] at hlength
    obtain ⟨q', hpush, hwriter'⟩ := hwriter.push_eq (d := s.disk) name hbody hcount hlength
      (w := ⟨.full, .full, .full⟩) (Write.complete_full _) (Write.complete_full _) (by decide)
    have hpushed : s.push crates name m = { s with
        disk := Writer.filesAfter crates name s.disk (s.pushed newest) newest m .full
        producer := some q'
        pushed := addMessage s.pushed newest m } := by
      rw [System.push, hproducer]
      dsimp only
      rw [hpush, hwriter.id]
    have hline : readPushInfo crates name (writeAt (s.disk.parts newest).infoPush 0
        (nextLine crates name (s.pushed newest) m)) = some _ :=
      Writer.read_nextLine hname (s.pushed newest) m hcount hlength _
    have hlonger : (addMessage s.pushed newest m newest).length =
        (s.pushed newest).length + 1 := by
      rw [addMessage_self, List.length_append]
      rfl
    have hother : ∀ k, k ≠ newest →
        (Writer.filesAfter crates name s.disk (s.pushed newest) newest m .full).parts k =
          s.disk.parts k :=
      fun k hk => (Function.update_of_ne hk ..).trans (Function.update_of_ne hk ..)
    rw [hpushed]
    exact {
      files := {
        queueInfo := h.files.queueInfo
        pushInfo := by
          intro k line hk
          by_cases heq : k = newest
          · subst heq
            dsimp only at hk ⊢
            rw [Writer.filesAfter, Disk.infoPush_setText_self] at hk
            rw [hlonger, addMessage_self]
            exact (Option.some.inj (hline.symm.trans hk)).symm
          · dsimp only at hk ⊢
            rw [hother k heq] at hk
            rw [addMessage_of_ne _ _ heq]
            exact h.files.pushInfo k line hk
        data := by
          intro k
          by_cases heq : k = newest
          · subst heq
            exact hwriter'.data
          · dsimp only
            rw [hother k heq, addMessage_of_ne _ _ heq]
            exact h.files.data k
        count_lt := forall_addMessage (P := fun _ ms => ms.length < 2 ^ 32)
          (by
            rw [List.length_append]
            exact hcount)
          fun k _ => h.files.count_lt k
        length_lt := forall_addMessage (P := fun _ ms => lengthOf ms < 2 ^ 64)
          (by
            rw [lengthOf_concat, ← Nat.add_assoc]
            exact hlength)
          fun k _ => h.files.length_lt k
        body_lt := forall_mem_addMessage h.files.body_lt (by omega)
        newest_lt := h.files.newest_lt
        unopened := by
          intro k hk
          obtain ⟨hunlinked, hnone, hinfo⟩ := h.files.unopened k hk
          refine ⟨hunlinked, ?_, ?_⟩
          · dsimp only
            rw [addMessage_of_ne _ _ hk.ne', hnone]
          · dsimp only
            rw [hother k hk.ne', hinfo] }
      writer := ⟨q', rfl, hwriter'⟩
      saved := by
        intro pos count i hi
        obtain ⟨hzero, hplace⟩ := h.saved pos count i hi
        refine ⟨hzero, hplace.imp (fun hplaced => ?_) id⟩
        obtain ⟨ms, hms⟩ := (Grown.message s.pushed newest m).extend i
        dsimp only
        rw [hms]
        exact hplaced.append ms
      sound := fun c hc => (h.sound c hc).later le_rfl
        (Grown.message s.pushed newest m).extend fun hmissing => .inl hmissing }

theorem Kept.relink (h : s.Kept crates name consumerName newest) {k : ℕ} {b : Bool}
    (hle : b = true → k ≤ newest)
    (hturned : b = true → ∀ c, s.consumer = some c → c.id = k → c.queue.ffQueue = .part k)
    (hsaved : b = true → ∀ pos count,
      readPopInfo crates name consumerName s.disk.infoPop = some (pos, count, k) →
        Place (s.pushed k) pos count) :
    Kept crates name consumerName
      { s with disk := { s.disk with linked := Function.update s.disk.linked k b } } newest := by
  have hsame : ∀ i, i ≠ k → Function.update s.disk.linked k b i = s.disk.linked i :=
    fun i hi => Function.update_of_ne hi ..
  have hself : Function.update s.disk.linked k b k = b := Function.update_self ..
  exact {
    files := { h.files with
      unopened := by
        intro i hi
        obtain ⟨hunlinked, hrest⟩ := h.files.unopened i hi
        refine ⟨?_, hrest⟩
        dsimp only
        by_cases heq : i = k
        · subst heq
          rw [hself]
          cases b with
          | false => rfl
          | true => exact absurd (hle rfl) (Nat.not_le.mpr hi)
        · rw [hsame i heq, hunlinked] }
    writer := by
      obtain ⟨q, hq, hw⟩ := h.writer
      exact ⟨q, hq, { hw with }⟩
    saved := by
      intro pos count i hi
      obtain ⟨hzero, hplace⟩ := h.saved pos count i hi
      refine ⟨hzero, ?_⟩
      dsimp only
      by_cases heq : i = k
      · subst heq
        rw [hself]
        cases b with
        | false => exact hplace.imp id fun hmissing => ⟨rfl, hmissing.2⟩
        | true => exact .inl (hsaved rfl pos count hi)
      · rw [hsame i heq]
        exact hplace
    sound := by
      intro c hc
      refine (h.sound c hc).later le_rfl (fun i => ⟨[], (List.append_nil _).symm⟩)
        fun hmissing => ?_
      by_cases heq : c.id = k
      · cases b with
        | false => exact .inl (heq ▸ hself)
        | true =>
          right
          rw [hturned rfl c hc heq, heq]
      · exact .inl ((hsame c.id heq).trans hmissing) }

/-- **The file that names the newest part** is damaged or repaired. -/
theorem Kept.setQueueInfo (h : s.Kept crates name consumerName newest) {text : List Char}
    (htext : ∀ last, readQueueInfo crates name text = some last →
      ∀ q, s.producer = some q → last = q.id) :
    Kept crates name consumerName { s with disk := { s.disk with infoQueue := some text } }
      newest := by
  obtain ⟨q, hq, hw⟩ := h.writer
  exact {
    files := { h.files with
      queueInfo := fun last hlast => (htext last hlast q hq).trans hw.id }
    writer := ⟨q, hq, { hw with }⟩
    saved := h.saved
    sound := fun c hc => (h.sound c hc).relinked rfl }

/-- **The line of a part** is damaged or repaired. -/
theorem Kept.setPushInfo (h : s.Kept crates name consumerName newest) {k : ℕ} {text : List Char}
    (hlinked : s.disk.linked k = true)
    (htext : ∀ line, readPushInfo crates name text = some line →
      line = (lengthOf (s.pushed k), (s.pushed k).length)) :
    Kept crates name consumerName { s with disk := s.disk.setText text (.part k) } newest := by
  have hdata : ∀ i, ((s.disk.setText text (.part k)).parts i).data = (s.disk.parts i).data :=
    fun i => Disk.data_setText s.disk text k i
  obtain ⟨q, hq, hw⟩ := h.writer
  exact {
    files := { h.files with
      pushInfo := by
        intro i line hi
        by_cases heq : i = k
        · subst heq
          dsimp only at hi
          rw [Disk.infoPush_setText_self] at hi
          exact htext line hi
        · dsimp only at hi
          rw [Disk.infoPush_setText_of_ne _ _ heq] at hi
          exact h.files.pushInfo i line hi
      data := fun i => (hdata i).trans (h.files.data i)
      unopened := by
        intro i hi
        obtain ⟨hunlinked, hnone, hinfo⟩ := h.files.unopened i hi
        have hne : i ≠ k := by
          rintro rfl
          rw [hlinked] at hunlinked
          cases hunlinked
        refine ⟨hunlinked, hnone, ?_⟩
        dsimp only
        rw [Disk.infoPush_setText_of_ne _ _ hne, hinfo] }
    writer := ⟨q, hq, { hw with data := (hdata newest).trans hw.data }⟩
    saved := h.saved
    sound := fun c hc => (h.sound c hc).relinked rfl }

/-- **The saved position** is damaged or repaired, or is written. -/
theorem Kept.setPopInfo (h : s.Kept crates name consumerName newest) {text : List Char}
    (hsaved : ∀ pos count id, readPopInfo crates name consumerName text = some (pos, count, id) →
      (count = 0 → pos = 0) ∧
        (Place (s.pushed id) pos count ∨ (s.disk.linked id = false ∧ id ≤ newest))) :
    Kept crates name consumerName { s with disk := { s.disk with infoPop := text } } newest := by
  obtain ⟨q, hq, hw⟩ := h.writer
  exact {
    files := { h.files with }
    writer := ⟨q, hq, { hw with }⟩
    saved := hsaved
    sound := fun c hc => (h.sound c hc).relinked rfl }

/-! ## Events of the consumer -/

theorem Kept.consumer (h : s.Kept crates name consumerName newest) {c : Option Consumer}
    {phase : Phase} {committed : ℕ → List (List UInt8)}
    (hsound : ∀ c', c = some c' → Sound crates s.disk s.pushed newest c' phase) :
    Kept crates name consumerName { s with consumer := c, phase, committed } newest :=
  { h with sound := hsound }

/-- **A consumer is started.** -/
theorem Kept.openConsumer (h : s.Kept crates name consumerName newest)
    (hallowed : ∀ pos count id,
      readPopInfo crates name consumerName s.disk.infoPop = some (pos, count, id) →
        s.disk.linked id = true ∨ count = 0) :
    (s.openConsumer crates name consumerName).Kept crates name consumerName newest := by
  unfold System.openConsumer
  cases hnew : Consumer.new crates name consumerName s.disk with
  | error e => exact h.consumer fun c hc => nomatch hc
  | ok c =>
    refine h.consumer fun c' hc' => ?_
    cases hc'
    exact h.files.new h.saved hallowed hnew

theorem Kept.steady (h : s.Kept crates name consumerName newest) {c : Consumer}
    (hc : s.consumer = some c) (hphase : s.phase = .idle) :
    Steady s.disk s.pushed newest c ∧ (c.isReady = true → c.queue.offset = c.posRecord) := by
  have hsound := h.sound c hc
  rw [hphase] at hsound
  cases hsound with
  | idle hsteady hoffset => exact ⟨hsteady, hoffset⟩

/-- **`pop_header`.** -/
theorem Kept.popHeader (hname : PlainName name) (hconsumer : PlainName consumerName)
    (h : s.Kept crates name consumerName newest)
    (hallowed : ∀ c, s.consumer = some c → s.disk.linked (c.id + 1) = true →
      readPushInfo crates name (s.disk.parts (c.id + 1)).infoPush ≠ none) :
    (s.popHeader crates name consumerName).Kept crates name consumerName newest := by
  unfold System.popHeader
  split
  case h_2 => exact h
  case h_1 c hc hidle =>
  obtain ⟨hsteady, hoffset⟩ := h.steady hc hidle
  obtain ⟨b, d, c', hpop⟩ : ∃ b d c', c.popHeader crates name consumerName s.disk = (b, d, c') :=
    ⟨_, _, _, rfl⟩
  obtain ⟨hdisk, hsound⟩ :=
    hsteady.popHeader h.files hname consumerName hoffset (hallowed c hc) hpop
  have hkept : Kept crates name consumerName { s with disk := d } newest := by
    rcases hdisk with rfl | ⟨old, k, hk, rfl⟩
    · exact h
    · refine h.setPopInfo fun pos count id hread => ?_
      rw [readPopInfo_written crates hname hconsumer (by decide) (by decide)
        (hk.trans_lt h.files.newest_lt)] at hread
      cases hread
      exact ⟨fun _ => rfl, .inl (Place.zero _)⟩
  have hlinked : ∀ k, s.disk.linked k = d.linked k := by
    rcases hdisk with rfl | ⟨old, k, -, rfl⟩ <;> exact fun _ => rfl
  have hsound' : Sound crates d s.pushed newest c' (if b then .header else .idle) :=
    hsound.later le_rfl (fun k => ⟨[], (List.append_nil _).symm⟩) fun hmissing =>
      .inl (hlinked _ ▸ hmissing)
  rw [hpop]
  cases b with
  | true => exact hkept.consumer fun c₁ hc₁ => Option.some.inj hc₁ ▸ hsound'
  | false => exact hkept.consumer fun c₁ hc₁ => Option.some.inj hc₁ ▸ hsound'

/-- **`pop_body`.** -/
theorem Kept.popBody (hname : PlainName name) (h : s.Kept crates name consumerName newest) :
    (s.popBody crates).Kept crates name consumerName newest := by
  unfold System.popBody
  split
  case h_2 => exact h
  case h_1 c hc hphase =>
  have hsound := h.sound c hc
  rw [hphase] at hsound
  obtain ⟨result, c', hpop⟩ : ∃ result c',
      c.popBody crates s.disk c.header.msgLength = (result, c') := ⟨_, _, rfl⟩
  have hsound' := hsound.popBody h.files hname hpop
  rw [hpop]
  cases result with
  | ok msg => exact h.consumer fun c₁ hc₁ => Option.some.inj hc₁ ▸ hsound'
  | error e => exact h.consumer fun c₁ hc₁ => Option.some.inj hc₁ ▸ hsound'

/-- **`next(true)`**: a message is counted and saved. -/
theorem Kept.next (hname : PlainName name) (hconsumer : PlainName consumerName)
    (h : s.Kept crates name consumerName newest) :
    (s.next name consumerName).Kept crates name consumerName newest := by
  unfold System.next
  split
  case h_2 => exact h
  case h_1 c msg hc hphase =>
  have hsound := h.sound c hc
  rw [hphase] at hsound
  obtain ⟨hready, -, hcounted⟩ := hsound.counted h.files
  rw [Stored.next_of_ready name consumerName s.disk hready]
  have hsteady : Steady s.disk s.pushed newest
      { c with countPopped := addU32 c.countPopped 1 } := by
    cases hcounted with
    | idle hsteady _ => exact hsteady
  have hsaved := h.setPopInfo (hsteady.saved h.files hname hconsumer s.disk.infoPop)
  refine hsaved.consumer fun c₁ hc₁ => ?_
  cases hc₁
  exact hcounted.later le_rfl (fun k => ⟨[], (List.append_nil _).symm⟩) fun hmissing =>
    .inl hmissing

/-- **`next(false)`**: a message is counted. -/
theorem Kept.nextOnly (h : s.Kept crates name consumerName newest) :
    s.nextOnly.Kept crates name consumerName newest := by
  unfold System.nextOnly
  split
  case h_2 => exact h
  case h_1 c msg hc hphase =>
  have hsound := h.sound c hc
  rw [hphase] at hsound
  obtain ⟨hready, -, hcounted⟩ := hsound.counted h.files
  rw [if_pos hready]
  exact h.consumer fun c₁ hc₁ => Option.some.inj hc₁ ▸ hcounted

/-- **The position is saved** between two messages. -/
theorem Kept.commit (hname : PlainName name) (hconsumer : PlainName consumerName)
    (h : s.Kept crates name consumerName newest) :
    (s.commit name consumerName).Kept crates name consumerName newest := by
  unfold System.commit
  split
  case h_2 => exact h
  case h_1 c hc hidle =>
  exact h.setPopInfo ((h.steady hc hidle).1.saved h.files hname hconsumer s.disk.infoPop)

theorem Kept.asked (h : s.Kept crates name consumerName newest) {c : Consumer}
    (hsteady : Steady s.disk s.pushed newest c)
    (hoffset : c.isReady = true → c.queue.offset = c.posRecord) :
    Sound crates s.disk s.pushed newest (c.getBatchSize crates name s.disk).2 .idle := by
  obtain ⟨hafter, hplace, hpos, hready⟩ := hsteady.getBatchSize h.files
  refine .idle hafter fun hr => ?_
  rw [hplace, hpos]
  exact hoffset (hready ▸ hr)

/-- **A batch begins**: the line of the part is read, and the size is asked for. -/
theorem Kept.batch (h : s.Kept crates name consumerName newest) :
    (s.batch crates name).Kept crates name consumerName newest := by
  unfold System.batch
  split
  case h_2 => exact h
  case h_1 c hc hidle =>
  obtain ⟨hsteady, hoffset⟩ := h.steady hc hidle
  obtain ⟨e, q, hread⟩ : ∃ e q, c.queue.getInfoOfPart crates name s.disk c.id true = (e, q) :=
    ⟨_, _, rfl⟩
  obtain ⟨hafter, hplace, -⟩ := hsteady.getInfoOfPart h.files hread
  have hoffset' : c.isReady = true → q.offset = c.posRecord := fun hr =>
    hplace.trans (hoffset hr)
  rw [hread]
  cases e with
  | error e =>
    refine h.consumer fun c₁ hc₁ => ?_
    cases hc₁
    rw [hidle]
    exact .idle hafter hoffset'
  | ok _ =>
    refine h.consumer fun c₁ hc₁ => ?_
    cases hc₁
    rw [hidle]
    exact h.asked hafter hoffset'

/-- **The size of a batch** is asked for. -/
theorem Kept.getBatchSize (h : s.Kept crates name consumerName newest) :
    (s.getBatchSize crates name).Kept crates name consumerName newest := by
  unfold System.getBatchSize
  split
  case h_2 => exact h
  case h_1 c hc hidle =>
  obtain ⟨hsteady, hoffset⟩ := h.steady hc hidle
  refine h.consumer fun c₁ hc₁ => ?_
  cases hc₁
  rw [hidle]
  exact h.asked hsteady hoffset

/-! ## Runs -/

/-- **An event** that meets its condition keeps the invariant. -/
theorem Kept.happens (hname : PlainName name) (hconsumer : PlainName consumerName)
    (h : s.Kept crates name consumerName newest) {e : Event}
    (hpermitted : s.Permitted crates name consumerName e) :
    ∃ newest', (s.happens crates name consumerName e).Kept crates name consumerName newest' := by
  cases e with
  | op o =>
    cases o with
    | openQueue =>
      obtain ⟨last, hread, hlast⟩ := hpermitted
      exact ⟨newest + 1, h.openQueue hname hread hlast⟩
    | push m => exact ⟨newest, h.push hname hpermitted⟩
    | remove k =>
      exact ⟨newest, h.relink (b := false) (fun hb => nomatch hb) (fun hb => nomatch hb)
        fun hb => nomatch hb⟩
    | openConsumer => exact ⟨newest, h.openConsumer hpermitted⟩
    | popHeader => exact ⟨newest, h.popHeader hname hconsumer hpermitted⟩
    | popBody => exact ⟨newest, h.popBody hname⟩
    | next => exact ⟨newest, h.next hname hconsumer⟩
  | nextOnly => exact ⟨newest, h.nextOnly⟩
  | commit => exact ⟨newest, h.commit hname hconsumer⟩
  | batch => exact ⟨newest, h.batch⟩
  | getBatchSize => exact ⟨newest, h.getBatchSize⟩
  | restore k =>
    obtain ⟨hle, hturned, hsaved⟩ := hpermitted
    obtain ⟨q, hq, hw⟩ := h.writer
    exact ⟨newest, h.relink (fun _ => (hle q hq).trans hw.id.le) (fun _ => hturned)
      fun _ => hsaved⟩
  | setQueueInfo text => exact ⟨newest, h.setQueueInfo hpermitted⟩
  | setPushInfo k text => exact ⟨newest, h.setPushInfo hpermitted.1 hpermitted.2⟩
  | setPopInfo text =>
    refine ⟨newest, h.setPopInfo fun pos count id hread => ?_⟩
    have hplace := hpermitted pos count id hread
    refine ⟨?_, .inl hplace⟩
    rintro rfl
    exact hplace.pos_eq

/-- **The states of a run** whose events meet their conditions. -/
theorem Watched.kept (hname : PlainName name) (hconsumer : PlainName consumerName)
    (h : Watched crates name consumerName s) :
    ∃ newest, s.Kept crates name consumerName newest := by
  induction h with
  | start => exact ⟨0, kept_start crates consumerName hname⟩
  | step e _ hpermitted ih =>
    obtain ⟨newest, hkept⟩ := ih
    exact hkept.happens hname hconsumer hpermitted

theorem permitted_popHeader
    (h : (s.consumer.all fun c => !s.disk.linked (c.id + 1)) = true) :
    s.Permitted crates name consumerName (.op .popHeader) := by
  intro c hc hlinked
  rw [hc, Option.all_some, hlinked] at h
  cases h

/-- A message is pushed and popped. -/
def onePopped : System :=
  [Op.openConsumer, .push ⟨.string, [1]⟩, .popHeader, .popBody, .next].foldl
    (step lineCrates ['q'] ['c']) (start lineCrates ['q'])

/-- Then the line of the part becomes unreadable. -/
def lineDamaged : System := onePopped.happens lineCrates ['q'] ['c'] (.setPushInfo 0 ['?'])

theorem watched_onePopped : Watched lineCrates ['q'] ['c'] onePopped := by
  have hopen : (start lineCrates ['q']).Permitted lineCrates ['q'] ['c'] (.op .openConsumer) := by
    rintro pos count id hread
    cases hread
    exact .inr rfl
  have h₁ := Watched.start.step (.op .openConsumer) hopen
  have h₂ := h₁.step (.op (.push ⟨.string, [1]⟩)) (@allowed_push lineCrates ['q'] ['c'] _ _
    (by decide +kernel))
  have h₃ := h₂.step (.op .popHeader) (permitted_popHeader (by decide +kernel))
  have h₄ := (h₃.step (.op .popBody) trivial).step (.op .next) trivial
  simpa only [onePopped, List.foldl_cons, List.foldl_nil, happens] using h₄

theorem watched_lineDamaged : Watched lineCrates ['q'] ['c'] lineDamaged := by
  refine watched_onePopped.step (.setPushInfo 0 ['?']) ⟨by decide +kernel, fun line hline => ?_⟩
  rw [show readPushInfo lineCrates ['q'] ['?'] = none by decide +kernel] at hline
  cases hline

/-- The producer is started again, the part that was read is removed, and the consumer is started
again. -/
def partReplaced : System :=
  [Op.openQueue, .remove 0, .openConsumer].foldl (step lineCrates ['q'] ['c']) onePopped

/-- The end of the part is read again, and then the file that names the newest part. -/
def endRead : System := onePopped.step lineCrates ['q'] ['c'] .popHeader

end System

end Veda.VQueue
