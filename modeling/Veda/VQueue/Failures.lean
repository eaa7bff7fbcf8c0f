import Veda.VQueue.Lines
import Veda.VQueue.Writing

set_option autoImplicit false

/-!
# Writes that fail

`push` writes a header, a body and the line of the part. When the header is not written, nothing
has changed. When the body is not written, the header stays in the file and the next record is
written behind it, while the header of that record says that it starts where the first one does.
When the line is not written, `push` still answers that the message was pushed.

## Main definitions

* `VQueue.PartRun` — pushes to a part, with outcomes for every write.
* `VQueue.PartState.PushHolds` — the condition on a push.
* `VQueue.Given` — what a consumer that reads a part is given.

## Main results

* `VQueue.Stored.given_iff` — a consumer is given the published messages.
* `VQueue.givenAccepted_of_partRun` — a consumer is given the messages whose push returned
  without an error, when every push meets the condition.
-/

namespace Veda.VQueue

/-! ## What a consumer is given -/

/-- The bodies that a consumer is given when it calls `pop_header`, `pop_body` and `next(true)` until
there is no header. -/
inductive Given (crates : Crates) (name consumerName : List Char) :
    Disk → Consumer → List (List UInt8) → Prop
  | done {d d' : Disk} {c c' : Consumer} :
      c.popHeader crates name consumerName d = (false, d', c') →
      Given crates name consumerName d c []
  | more {d d' d'' : Disk} {c c' c'' c₃ : Consumer} {body : List UInt8}
      {bodies : List (List UInt8)} :
      c.popHeader crates name consumerName d = (true, d', c') →
      c'.popBody crates d' c'.header.msgLength = (.ok body, c'') →
      c''.next name consumerName d' = (true, d'', c₃) →
      Given crates name consumerName d'' c₃ bodies →
      Given crates name consumerName d c (body :: bodies)

theorem Given.unique {crates : Crates} {name consumerName : List Char} {d : Disk} {c : Consumer}
    {bodies bodies' : List (List UInt8)} (h : Given crates name consumerName d c bodies)
    (h' : Given crates name consumerName d c bodies') : bodies = bodies' := by
  induction h generalizing bodies' with
  | done hpop =>
    cases h' with
    | done _ => rfl
    | more hpop' _ _ _ =>
      rw [hpop] at hpop'
      cases hpop'
  | more hpop hbody hnext _ ih =>
    cases h' with
    | done hpop' =>
      rw [hpop] at hpop'
      cases hpop'
    | more hpop' hbody' hnext' hgiven =>
      rw [hpop] at hpop'
      cases hpop'
      rw [hbody] at hbody'
      cases hbody'
      rw [hnext] at hnext'
      cases hnext'
      rw [ih hgiven]

namespace Stored

variable {crates : Crates} {name consumerName : List Char} {d : Disk}
  {written : ℕ → List Message} {published : ℕ → ℕ} {newest count : ℕ} {c : Consumer} {m : Message}

theorem next_of_header (h : Stored crates name d written published newest) (consumerName : List Char)
    (hat : At written published newest count c)
    (htaken : HeaderTaken crates written newest count m c) (hlt : count < published newest) :
    ∃ c₁ d' c₂, c.popBody crates d c.header.msgLength = (.ok m.body, c₁) ∧
      c₁.next name consumerName d = (true, d', c₂) ∧
      Stored crates name d' written published newest ∧
      At written published newest (count + 1) c₂ ∧ c₂.queue.offset = c₂.posRecord := by
  have hnumber : addU32 c.countPopped 1 = count + 1 := by
    have hle := h.published_le newest
    have hfits := h.count_lt newest
    rw [hat.countPopped, addU32, Nat.mod_eq_of_lt (by omega)]
  rw [h.popBody_next hat.isReady hat.ffQueue hat.posRecord htaken]
  refine ⟨_, _, _, rfl, next_of_ready name consumerName d hat.isReady, { h with }, ?_, rfl⟩
  exact { hat with
    countPopped := hnumber
    posRecord := rfl
    count_le := hlt }

/-- **A consumer is given the published messages** behind its place, in the newest part. -/
theorem given_at (h : Stored crates name d written published newest)
    (consumerName : List Char) (hat : At written published newest count c)
    (hoffset : c.queue.offset = c.posRecord) :
    Given crates name consumerName d c
      ((((written newest).take (published newest)).drop count).map Message.body) := by
  induction hleft : published newest - count generalizing d c count with
  | zero =>
    have hend : count = published newest := by
      have := hat.count_le
      omega
    obtain ⟨c', hpop, -, -⟩ := h.popHeader_end consumerName hat hoffset hend
    rw [List.drop_of_length_le (by rw [List.length_take]; omega)]
    exact .done hpop
  | succ left ih =>
    have hlt : count < published newest := by omega
    obtain ⟨c', m, hpop, hat', htaken⟩ := h.popHeader_next consumerName hat hoffset hlt
    obtain ⟨c₁, d', c₂, hbody, hnext, hstored, hat₂, hoffset₂⟩ :=
      h.next_of_header consumerName hat' htaken hlt
    have hm : ((written newest).take (published newest))[count]? = some m := by
      rw [List.getElem?_take_of_lt hlt, htaken.next]
    obtain ⟨hin, hget⟩ := List.getElem?_eq_some_iff.mp hm
    rw [List.drop_eq_getElem_cons hin, hget, List.map_cons]
    exact .more hpop hbody hnext (ih hstored hat₂ hoffset₂ (by omega))

theorem given_iff (h : Stored crates name d written published newest)
    (hat : At written published newest 0 c) (hoffset : c.queue.offset = c.posRecord)
    (bodies : List (List UInt8)) :
    Given crates name consumerName d c bodies ↔
      bodies = ((written newest).take (published newest)).map Message.body := by
  have hgiven := h.given_at consumerName hat hoffset
  rw [List.drop_zero] at hgiven
  constructor
  · exact fun hother => hother.unique hgiven
  · rintro rfl
    exact hgiven

end Stored

/-! ## Pushes to a part -/

/-- A queue, its files and the messages whose push returned without an error. -/
structure PartState where
  disk : Disk
  queue : Queue
  accepted : List Message

namespace PartState

section Pushes

variable (crates : Crates) (name : List Char)

/-- `push`, with the outcomes of its writes. -/
def push (s : PartState) (m : Message) (w : Queue.PushWrites) : PartState :=
  match s.queue.push crates name s.disk m w with
  | (.ok _, disk, queue) => ⟨disk, queue, s.accepted ++ [m]⟩
  | (.error _, disk, queue) => ⟨disk, queue, s.accepted⟩

/-- The header that `push` writes. -/
def header (s : PartState) (m : Message) : List UInt8 :=
  headerOf crates.crc32 s.queue.rightEdge (addU32 s.queue.countPushed 1) m

/-- The line that `push` writes. -/
def line (s : PartState) (m : Message) : List Char :=
  withCrc crates.crc32 (pushText name (addU64 s.queue.rightEdge (headerSize + m.body.length))
    (addU32 s.queue.countPushed 1)) ++ ['\n']

/-- The condition on a push: it is refused; or its header is not written; or it writes at the right
edge, and either its body is not written or everything is written and the line can be read. -/
def PushHolds (s : PartState) (m : Message) (w : Queue.PushWrites) : Prop :=
  s.queue.isReady = false ∨ 2 ^ 31 - 1 < m.body.length ∨ w.header = .fail ∨
    (s.queue.offset = s.queue.rightEdge ∧ s.queue.countPushed + 1 < 2 ^ 32 ∧
      s.queue.rightEdge + headerSize + m.body.length < 2 ^ 64 ∧
      (w.body = .fail ∨
        (w.header.Complete (s.header crates m) ∧ w.body.Complete m.body ∧ w.info ≠ .fail ∧
          readPushInfo crates name
              (writeAt (s.disk.textOf s.queue.ffInfoPush) 0 (w.info.taken (s.line crates name m))) =
            some (s.queue.rightEdge + (headerSize + m.body.length), s.queue.countPushed + 1))))

/-- A consumer that begins with the part is given the messages whose push returned without an
error, in the order of the pushes. -/
def GivenAccepted (s : PartState) : Prop :=
  ∀ consumerName text,
    readPopInfo crates name consumerName text = some (0, 0, s.queue.id) →
    ∃ c, Consumer.new crates name consumerName { s.disk with infoPop := text } = .ok c ∧
      ∀ bodies, Given crates name consumerName { s.disk with infoPop := text } c bodies ↔
        bodies = s.accepted.map Message.body

/-- What is true between two pushes to the part `k`. -/
structure Inv (s : PartState) (k : ℕ) (written : ℕ → List Message) (published : ℕ → ℕ) : Prop where
  stored : Stored crates name s.disk written published k
  linked : s.disk.linked k = true
  accepted : written k = s.accepted
  published_eq : published k = s.accepted.length
  isReady : s.queue.isReady = true
  mode : s.queue.mode = .readWrite
  id : s.queue.id = k
  ffQueue : s.queue.ffQueue = .part k
  ffInfoPush : s.queue.ffInfoPush = .part k
  rightEdge : s.queue.rightEdge = lengthOf s.accepted
  countPushed : s.queue.countPushed = s.accepted.length
  /-- nothing stands behind the records when the next one is written behind them -/
  clean : s.queue.offset = s.queue.rightEdge →
    (s.disk.parts k).data = recordsOf crates.crc32 s.accepted

end Pushes

variable {crates : Crates} {name : List Char} {s : PartState} {k : ℕ} {written : ℕ → List Message}
  {published : ℕ → ℕ} {m : Message} {w : Queue.PushWrites}

theorem Inv.writer (hinv : s.Inv crates name k written published)
    (hoffset : s.queue.offset = s.queue.rightEdge) :
    Writer crates s.disk written k s.queue where
  data := by rw [hinv.clean hoffset, hinv.accepted]
  isReady := hinv.isReady
  mode := hinv.mode
  id := hinv.id
  ffQueue := hinv.ffQueue
  ffInfoPush := hinv.ffInfoPush
  offset := by rw [hoffset, hinv.rightEdge, hinv.accepted]
  rightEdge := by rw [hinv.rightEdge, hinv.accepted]
  countPushed := by rw [hinv.countPushed, hinv.accepted]

theorem push_of_refused (hrefused : s.queue.isReady = false ∨ 2 ^ 31 - 1 < m.body.length) :
    s.push crates name m w = s := by
  have hpush : s.queue.push crates name s.disk m w = (.error .notReady, s.disk, s.queue) := by
    rw [Queue.push, Queue.pushRecord, if_pos]
    rcases hrefused with hready | hlong
    · exact .inl (by simp [hready])
    · exact .inr (.inr hlong)
  rw [PartState.push, hpush]

theorem push_of_header (hheader : w.header = .fail) :
    s.push crates name m w = s := by
  have hpush : ∃ e, s.queue.push crates name s.disk m w = (.error e, s.disk, s.queue) := by
    rw [Queue.push, Queue.pushRecord]
    split_ifs with hrefused
    · exact ⟨_, rfl⟩
    · exact ⟨_, rfl⟩
  obtain ⟨e, hpush⟩ := hpush
  rw [PartState.push, hpush]

theorem unread_taken (crates : Crates) (m : Message) (start : ℕ) {count : ℕ}
    (hcount : count + 1 < 2 ^ 32) (wHeader : Write) :
    Unread count (wHeader.taken (headerOf crates.crc32 start (count + 1) m)) := by
  intro hlong
  have hwhole : wHeader.taken (headerOf crates.crc32 start (count + 1) m) =
      headerOf crates.crc32 start (count + 1) m := by
    cases wHeader with
    | full => rfl
    | fail =>
      rw [Write.taken, List.length_nil] at hlong
      exact absurd hlong (by decide)
    | short n =>
      rw [Write.taken, List.length_take, length_headerOf] at hlong
      rw [Write.taken, List.take_of_length_le]
      rw [length_headerOf]
      omega
  rw [hwhole, List.take_of_length_le (by simp), headerOf, createFromBuf_setCrc]
  show count < (count + 1) % 256 ^ 4
  rw [Nat.mod_eq_of_lt (by omega)]
  exact Nat.lt_succ_self count

/-- **A push whose body is not written** leaves its header behind the records. -/
theorem Inv.push_of_body (hinv : s.Inv crates name k written published)
    (hsize : m.body.length ≤ 2 ^ 31 - 1) (hheader : w.header ≠ .fail) (hbody : w.body = .fail)
    (hoffset : s.queue.offset = s.queue.rightEdge) (hcount : s.queue.countPushed + 1 < 2 ^ 32) :
    (s.push crates name m w).Inv crates name k written published := by
  have hw := hinv.writer hoffset
  rw [hinv.countPushed] at hcount
  have hunread := unread_taken crates m (lengthOf (written k)) hcount w.header
  have hpushed : s.push crates name m w = ⟨s.disk.setBytes (recordsOf crates.crc32 (written k) ++
        w.header.taken (s.header crates m)) (.part k),
      { s.queue with offset := (recordsOf crates.crc32 (written k) ++
        w.header.taken (s.header crates m)).length }, s.accepted⟩ := by
    rw [PartState.push, Queue.push, Queue.pushRecord,
      if_neg (by simp [hinv.isReady, hinv.mode]; omega), if_neg hheader]
    dsimp only
    rw [hw.writeHeader, if_pos hbody]
    rfl
  have hheader_eq : s.header crates m =
      headerOf crates.crc32 (lengthOf (written k)) (s.accepted.length + 1) m := by
    rw [header, hw.header_eq (by rw [hinv.accepted]; exact hcount), hinv.accepted]
  rw [hpushed, hheader_eq]
  exact {
    stored := {
      queueInfo := hinv.stored.queueInfo
      pushInfo := by
        intro i
        rw [Disk.infoPush_setBytes]
        exact hinv.stored.pushInfo i
      data := by
        intro i
        by_cases hi : i = k
        · subst hi
          refine ⟨_, Disk.bytesOf_setBytes s.disk _ i, ?_⟩
          rw [hinv.accepted] at hunread ⊢
          exact hunread
        · rw [Disk.data_setBytes_of_ne _ _ hi]
          exact hinv.stored.data i
      published_le := hinv.stored.published_le
      count_lt := hinv.stored.count_lt
      length_lt := hinv.stored.length_lt
      body_lt := hinv.stored.body_lt
      newest_lt := hinv.stored.newest_lt }
    linked := hinv.linked
    accepted := hinv.accepted
    published_eq := hinv.published_eq
    isReady := hinv.isReady
    mode := hinv.mode
    id := hinv.id
    ffQueue := hinv.ffQueue
    ffInfoPush := hinv.ffInfoPush
    rightEdge := hinv.rightEdge
    countPushed := hinv.countPushed
    clean := by
      -- the offset is at the right edge only when nothing of the header was written
      intro hedge
      dsimp only at hedge
      rw [List.length_append, length_recordsOf, hinv.rightEdge, hinv.accepted] at hedge
      have hnone := List.eq_nil_of_length_eq_zero (Nat.add_eq_left.mp hedge)
      rw [hinv.accepted, hnone, List.append_nil]
      exact Disk.bytesOf_setBytes s.disk _ k }

/-- **A push that writes everything** is accepted, and its message is published. -/
theorem Inv.push_of_complete (hinv : s.Inv crates name k written published)
    (hsize : m.body.length ≤ 2 ^ 31 - 1) (hoffset : s.queue.offset = s.queue.rightEdge)
    (hcount : s.queue.countPushed + 1 < 2 ^ 32)
    (hlength : s.queue.rightEdge + headerSize + m.body.length < 2 ^ 64)
    (hheader : w.header.Complete (s.header crates m)) (hbody : w.body.Complete m.body)
    (hinfo : w.info ≠ .fail)
    (hread : readPushInfo crates name
        (writeAt (s.disk.textOf s.queue.ffInfoPush) 0 (w.info.taken (s.line crates name m))) =
      some (s.queue.rightEdge + (headerSize + m.body.length), s.queue.countPushed + 1)) :
    (s.push crates name m w).Inv crates name k (addMessage written k m)
      (Function.update published k (s.accepted.length + 1)) := by
  have hw := hinv.writer hoffset
  have hline : s.line crates name m = nextLine crates name (written k) m := by
    rw [line, nextLine, addU32, Nat.mod_eq_of_lt hcount, addU64, Nat.mod_eq_of_lt (by omega),
      hw.rightEdge, hw.countPushed, lengthOf_concat]
  rw [hw.countPushed] at hcount
  rw [hw.rightEdge] at hlength
  rw [header, hw.header_eq hcount] at hheader
  rw [hline, hinv.ffInfoPush, hw.rightEdge, hw.countPushed, ← lengthOf_concat] at hread
  obtain ⟨d', q', hpush, hstored, hwriter, hlinked, -, -⟩ :=
    hw.push_complete hinv.stored hsize hcount hlength hheader hbody hinfo hread
  have hpushed : s.push crates name m w = ⟨d', q', s.accepted ++ [m]⟩ := by
    rw [PartState.push, hpush]
  have haccepted : addMessage written k m k = s.accepted ++ [m] := by
    rw [addMessage_self, hinv.accepted]
  rw [hpushed, ← hinv.accepted]
  exact {
    stored := hstored
    linked := by
      rw [hlinked]
      exact hinv.linked
    accepted := addMessage_self ..
    published_eq := by
      rw [Function.update_self, List.length_append]
      rfl
    isReady := hwriter.isReady
    mode := hwriter.mode
    id := hwriter.id
    ffQueue := hwriter.ffQueue
    ffInfoPush := hwriter.ffInfoPush
    rightEdge := by rw [hwriter.rightEdge, addMessage_self]
    countPushed := by rw [hwriter.countPushed, addMessage_self]
    clean := by
      intro _
      rw [hwriter.data, addMessage_self] }

/-- **Every push that meets the condition** keeps what is true between two pushes. -/
theorem Inv.push (hinv : s.Inv crates name k written published)
    (hholds : s.PushHolds crates name m w) :
    ∃ written published, (s.push crates name m w).Inv crates name k written published := by
  by_cases hlong : 2 ^ 31 - 1 < m.body.length
  · rw [push_of_refused (.inr hlong)]
    exact ⟨written, published, hinv⟩
  have hsize := Nat.not_lt.mp hlong
  by_cases hheader : w.header = .fail
  · rw [push_of_header hheader]
    exact ⟨written, published, hinv⟩
  rcases hholds with hready | hlong' | hheader' | ⟨hoffset, hcount, hlength, hwrites⟩
  · rw [push_of_refused (.inl hready)]
    exact ⟨written, published, hinv⟩
  · exact absurd hlong' hlong
  · exact absurd hheader' hheader
  · rcases hwrites with hbody | ⟨hwhole, hbody, hinfo, hread⟩
    · exact ⟨written, published, hinv.push_of_body hsize hheader hbody hoffset hcount⟩
    · exact ⟨_, _, hinv.push_of_complete hsize hoffset hcount hlength hwhole hbody hinfo hread⟩

end PartState

/-- The states of a part that a producer has opened, behind pushes that meet the condition. -/
inductive PartRun (crates : Crates) (name : List Char) : PartState → Prop
  | opened {d₀ d : Disk} {q : Queue} : QueueFiles crates name d₀ →
      Queue.newReadWrite crates name d₀ .full .full = (.ok q, d) → PartRun crates name ⟨d, q, []⟩
  | push {s : PartState} {m : Message} {w : Queue.PushWrites} : PartRun crates name s →
      s.PushHolds crates name m w → PartRun crates name (s.push crates name m w)

variable {crates : Crates} {name : List Char} {s : PartState}

theorem PartRun.inv (hname : PlainName name) (h : PartRun crates name s) :
    ∃ k written published, s.Inv crates name k written published := by
  induction h with
  | opened hfiles hopen =>
    obtain ⟨id, written, published, hopened, hstored, hwriter, hempty, hnone⟩ := hfiles.opened hname
    rw [hopened] at hopen
    cases hopen
    exact ⟨id, written, published, {
      stored := hstored
      linked := Function.update_self ..
      accepted := hempty
      published_eq := hnone
      isReady := rfl
      mode := rfl
      id := rfl
      ffQueue := rfl
      ffInfoPush := rfl
      rightEdge := rfl
      countPushed := rfl
      clean := by
        intro _
        rw [hwriter.data, hempty] }⟩
  | push _ hholds ih =>
    obtain ⟨k, written, published, hinv⟩ := ih
    exact ⟨k, hinv.push hholds⟩

/-- **Failed pushes.** In every run whose pushes meet the condition, a consumer that reads the part
is given exactly the messages whose push returned without an error, in the order of the pushes and
with their own bodies. -/
theorem givenAccepted_of_partRun (hname : PlainName name) (h : PartRun crates name s) :
    s.GivenAccepted crates name := by
  obtain ⟨k, written, published, hinv⟩ := h.inv hname
  intro consumerName text hread
  have hstored : Stored crates name { s.disk with infoPop := text } written published k :=
    { hinv.stored with }
  have hpart : k = if s.disk.linked s.queue.id then s.queue.id else k := by
    rw [hinv.id, hinv.linked, if_pos rfl]
  obtain ⟨c, hnew, hopened⟩ := hstored.new_opens hread hinv.linked hpart
  refine ⟨c, hnew, fun bodies => ?_⟩
  rw [hstored.given_iff (hopened.at rfl (Nat.zero_le _))
    (hopened.offset.trans hopened.posRecord.symm), hinv.published_eq, hinv.accepted,
    List.take_length]

/-- A part that has just been opened. -/
def openedPart : PartState where
  disk := partOpened lineCrates ['q'] .empty 0
  queue := ⟨.readWrite, true, .part 0, 0, .part 0, 0, 0, 0⟩
  accepted := []

/-- A push whose header is not written, one that is accepted, and one whose body is not written. -/
def harmless : PartState :=
  ((openedPart.push lineCrates ['q'] ⟨.string, [1]⟩ ⟨.fail, .full, .full⟩).push lineCrates ['q']
    ⟨.string, [2]⟩ ⟨.full, .full, .full⟩).push lineCrates ['q'] ⟨.string, [3]⟩ ⟨.full, .fail, .full⟩

theorem plainName_q : PlainName ['q'] := by decide +kernel

theorem partRun_openedPart : PartRun lineCrates ['q'] openedPart :=
  .opened (.inl rfl) (newReadWrite_eq plainName_q .empty rfl rfl)

theorem givenAccepted_harmless : harmless.GivenAccepted lineCrates ['q'] := by
  have h₁ := partRun_openedPart.push (m := ⟨.string, [1]⟩) (w := ⟨.fail, .full, .full⟩)
    (.inr (.inr (.inl rfl)))
  have h₂ := h₁.push (m := ⟨.string, [2]⟩) (w := ⟨.full, .full, .full⟩)
    (.inr (.inr (.inr ⟨by decide +kernel, by decide +kernel, by decide +kernel,
      .inr ⟨Write.complete_full _, Write.complete_full _, by decide, by decide +kernel⟩⟩)))
  have h₃ := h₂.push (m := ⟨.string, [3]⟩) (w := ⟨.full, .fail, .full⟩)
    (.inr (.inr (.inr ⟨by decide +kernel, by decide +kernel, by decide +kernel, .inl rfl⟩)))
  exact givenAccepted_of_partRun plainName_q h₃

/-- The first body that a consumer is given. -/
def firstGiven (crates : Crates) (name consumerName : List Char) (d : Disk) (c : Consumer) :
    Option (List UInt8) :=
  match c.popHeader crates name consumerName d with
  | (true, d', c') =>
    match (c'.popBody crates d' c'.header.msgLength).1 with
    | .ok body => some body
    | .error _ => none
  | (false, _, _) => none

theorem firstGiven_of_given {consumerName : List Char} {d : Disk} {c : Consumer} {body : List UInt8}
    {bodies : List (List UInt8)} (h : Given crates name consumerName d c (body :: bodies)) :
    firstGiven crates name consumerName d c = some body := by
  cases h with
  | more hpop hbody _ _ =>
    rw [firstGiven, hpop]
    dsimp only
    rw [hbody]

/-- A push whose body is not written, and one that is accepted. -/
def damaged : PartState :=
  (openedPart.push lineCrates ['q'] ⟨.string, [1]⟩ ⟨.full, .fail, .full⟩).push lineCrates ['q']
    ⟨.string, [2]⟩ ⟨.full, .full, .full⟩

/-- **A failed push damages the queue**: the next message is accepted, but a consumer reads the header
that was left in front of it. -/
theorem not_givenAccepted_damaged :
    damaged.accepted = [⟨.string, [2]⟩] ∧ ¬ damaged.GivenAccepted lineCrates ['q'] := by
  have haccepted : damaged.accepted = [⟨.string, [2]⟩] := by decide +kernel
  refine ⟨haccepted, fun h => ?_⟩
  obtain ⟨c, hnew, hgiven⟩ := h ['c'] [] (by decide +kernel)
  have hsecond := (hgiven [[2]]).mpr (by rw [haccepted]; rfl)
  have hfirst := firstGiven_of_given hsecond
  have hnothing : ((Consumer.new lineCrates ['q'] ['c']
      { damaged.disk with infoPop := [] }).toOption.bind
        (firstGiven lineCrates ['q'] ['c'] { damaged.disk with infoPop := [] })) = none := by
    decide +kernel
  rw [hnew] at hnothing
  exact absurd (hfirst.symm.trans hnothing) (by decide)

end Veda.VQueue
