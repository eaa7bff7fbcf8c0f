import Veda.VQueue.MissingParts

set_option autoImplicit false

/-!
# Bodies that cannot be read

What `pop_body` leaves behind when the file ends inside of the body, or when the checksum is wrong.
The position is set back only when the consumer has popped as many messages as its queue knows of,
which is one more than there are in front of the last message; and a wrong checksum moves the saved
position behind the body.

## Main definitions

* `VQueue.AtBody` — the header of a record has been read.
* `VQueue.Repeats` — a call that fails is repeated with the same message.
* `VQueue.Announces` — the line of the part announces the message again.

## Main results

* `VQueue.AtBody.failed_cases` — the consumer behind a call that fails.
* `VQueue.repeats_iff` — when a failed call can be repeated.
-/

namespace Veda.VQueue

open Veda.Lib

/-- The header of the record at the position of the consumer has been read; `bheader` are its
bytes. -/
structure AtBody (bheader : List UInt8) (c : Consumer) : Prop where
  length_eq : bheader.length = headerSize
  isReady : c.isReady = true
  offset : c.queue.offset = c.posRecord + headerSize
  header : c.header = createFromBuf bheader
  hash : c.hash = clearCrc bheader

/-- The file of the consumer has the whole message. -/
structure Complete (crates : Crates) (d : Disk) (bheader body : List UInt8) (c : Consumer) :
    Prop where
  length_eq : body.length = c.header.msgLength
  crc : crates.crc32 (c.hash ++ body) = c.header.crc
  file : ∃ rest, (d.bytesOf c.queue.ffQueue).drop c.posRecord = bheader ++ (body ++ rest)

/-- The file of the consumer ends inside of the body. -/
def EndsInside (d : Disk) (c : Consumer) : Prop :=
  ((d.bytesOf c.queue.ffQueue).drop c.queue.offset).length < c.header.msgLength

instance (d : Disk) (c : Consumer) : Decidable (EndsInside d c) :=
  inferInstanceAs (Decidable (_ < _))

section Calls

variable (crates : Crates) (name consumerName : List Char)

/-- The consumer behind `pop_body`. -/
def afterBody (d : Disk) (c : Consumer) : Consumer := (c.popBody crates d c.header.msgLength).2

/-- The next `pop_header` of the consumer `c₁` reads the header that `c` has read, at the same place
of the same file, and `pop_body` returns its body. -/
def Gives (d : Disk) (c : Consumer) (body : List UInt8) (c₁ : Consumer) : Prop :=
  ∃ d' c₂ c₃, c₁.popHeader crates name consumerName d = (true, d', c₂) ∧
    c₂.id = c.id ∧ c₂.queue.ffQueue = c.queue.ffQueue ∧ c₂.queue.offset = c.queue.offset ∧
    c₂.header = c.header ∧ c₂.popBody crates d' c₂.header.msgLength = (.ok body, c₃)

/-- `pop_body` is called with the files `d`, and the message is read again with the files `d'`. -/
def Repeats (d d' : Disk) (c : Consumer) (body : List UInt8) : Prop :=
  (afterBody crates d c).countPopped = c.countPopped ∧
    (afterBody crates d c).posRecord = c.posRecord ∧
    Gives crates name consumerName d' c body (afterBody crates d c)

/-- The line that is read when the end of the part is read again. -/
def lineOf (d : Disk) (c : Consumer) : Option (ℕ × ℕ) :=
  if c.queue.id = c.id then readPushInfo crates name (d.textOf c.queue.ffInfoPush)
  else if d.linked c.id then readPushInfo crates name (d.parts c.id).infoPush
  else none

/-- The line of the part has room for the message, and it says that more messages are there than
were popped; or else no newer part is known of. -/
def Announces (d : Disk) (c : Consumer) : Prop :=
  ∃ rightEdge countPushed, lineOf crates name d c = some (rightEdge, countPushed) ∧
    c.header.startPos < rightEdge ∧ c.header.countPushed ≤ countPushed ∧
    (c.countPopped < countPushed ∨
      (c.queue.id = c.id ∧ readQueueInfo crates name (d.infoQueue.getD []) = none) ∨
      c.queue.id < c.id)

end Calls

variable {crates : Crates} {name consumerName : List Char} {d d' : Disk} {c c₁ : Consumer}
  {bheader body : List UInt8}

/-! ## The call that fails -/

theorem msgLength_lt (bheader : List UInt8) : (createFromBuf bheader).msgLength < 2 ^ 32 := by
  have hlt := ofBigEndian_lt ((bheader.drop 8).take 4).reverse
  have hle : ((bheader.drop 8).take 4).reverse.length ≤ 4 := by
    rw [List.length_reverse]
    exact List.length_take_le _ _
  exact hlt.trans_le (Nat.pow_le_pow_right (by decide) hle)

namespace AtBody

theorem position_ne (h : AtBody bheader c) :
    addU64 (addU64 c.posRecord headerSize) c.header.msgLength ≠ c.posRecord := by
  have hlt := msgLength_lt bheader
  rw [← h.header] at hlt
  intro heq
  have hpos : c.posRecord < 2 ^ 64 := by
    rw [← heq]
    exact Nat.mod_lt _ (by decide)
  rw [addU64, addU64, Nat.mod_add_mod] at heq
  have hsize : headerSize = 25 := rfl
  omega

/-- **The consumer behind a call that fails**: at the beginning of the record, behind the end of the
file, or with another position.

**Proof sketch.** The three branches of `pop_body` that give an error. -/
theorem failed_cases (h : AtBody bheader c) {e : ErrorQueue}
    (hfail : (c.popBody crates d c.header.msgLength).1 = .error e) :
    (EndsInside d c ∧ c.countPopped = c.queue.countPushed ∧
        afterBody crates d c = c.seek c.posRecord) ∨
      (EndsInside d c ∧ c.countPopped ≠ c.queue.countPushed ∧
        ∃ n, afterBody crates d c = c.seek (c.queue.offset + n)) ∨
      (¬ EndsInside d c ∧ (afterBody crates d c).posRecord ≠ c.posRecord) := by
  have hposition := h.position_ne
  revert hfail
  unfold afterBody Consumer.popBody
  rw [if_neg (by simp [h.isReady])]
  dsimp only
  have hlength : ((List.drop c.queue.offset (d.bytesOf c.queue.ffQueue)).take
      c.header.msgLength).length ≠ c.header.msgLength ↔ EndsInside d c := by
    rw [EndsInside, List.length_take]
    omega
  split_ifs with hshort htail hcrc htail'
  · intro _
    exact .inl ⟨hlength.mp hshort, htail, rfl⟩
  · intro _
    exact .inr (.inl ⟨hlength.mp hshort, htail, _, rfl⟩)
  · intro _
    refine .inr (.inr ⟨fun hends => hshort (hlength.mpr hends), ?_⟩)
    show addU64 (addU64 c.posRecord headerSize) _ ≠ c.posRecord
    rw [not_not.mp hshort]
    exact hposition
  · intro _
    refine .inr (.inr ⟨fun hends => hshort (hlength.mpr hends), ?_⟩)
    show addU64 (addU64 c.posRecord headerSize) _ ≠ c.posRecord
    rw [not_not.mp hshort]
    exact hposition
  · nofun

end AtBody

/-! ## The next call -/

theorem offset_prepare (crates : Crates) (name consumerName : List Char) (d : Disk) (c : Consumer) :
    c.id < (c.prepare crates name consumerName d).2.2.id ∨
      (c.prepare crates name consumerName d).2.2.queue.offset = c.queue.offset := by
  have hinfo : ∀ (q : Queue) (i : ℕ),
      (q.getInfoOfPart crates name d i false).2.offset = q.offset := by
    intro q i
    rw [Queue.getInfoOfPart, Queue.openInfoPush]
    split_ifs
    all_goals
      dsimp only
      try cases readPushInfo crates name _
    all_goals rfl
  have hadvance : ∀ c : Consumer, c.id < (c.advance crates name consumerName d).2.2.id ∨
      (c.advance crates name consumerName d).2.2.queue.offset = c.queue.offset := by
    intro c
    have hlook : (c.lookAhead crates name d).id = c.id ∧
        (c.lookAhead crates name d).queue.offset = c.queue.offset := by
      rw [Consumer.lookAhead, Queue.getInfoQueue]
      split_ifs
      · cases readQueueInfo crates name (d.infoQueue.getD []) with
        | none => exact ⟨rfl, rfl⟩
        | some id => exact ⟨rfl, rfl⟩
      · exact ⟨rfl, rfl⟩
    rw [Consumer.advance, ← hlook.1, ← hlook.2]
    generalize c.lookAhead crates name d = c₁
    split_ifs with hlt
    · obtain ⟨left, hleft⟩ := Nat.exists_eq_add_of_lt hlt
      rw [show c₁.queue.id - c₁.id = left + 1 by omega]
      exact .inl (lt_id_entered crates name consumerName d left c₁)
    · exact .inr rfl
  have hrefresh := hinfo c.queue c.id
  rw [Consumer.prepare, Consumer.refresh]
  split_ifs
  · generalize c.queue.getInfoOfPart crates name d c.id false = result at hrefresh
    obtain ⟨answer, q⟩ := result
    cases answer with
    | error e => exact .inr hrefresh
    | ok u =>
      dsimp only
      split_ifs
      · rcases hadvance { c with queue := q } with hlt | heq
        · exact .inl hlt
        · exact .inr (heq.trans hrefresh)
      · exact .inr hrefresh
  · dsimp only
    rw [if_neg (by assumption)]
    exact .inr rfl

theorem popHeader_true {d₁ : Disk} {c₂ : Consumer}
    (h : c.popHeader crates name consumerName d = (true, d₁, c₂)) :
    (c.prepare crates name consumerName d).1 = true ∧
      c₂.id = (c.prepare crates name consumerName d).2.2.id ∧
      c₂.queue.offset = (c.prepare crates name consumerName d).2.2.queue.offset + headerSize := by
  rw [Consumer.popHeader, Consumer.readHeader] at h
  generalize c.prepare crates name consumerName d = result at h
  obtain ⟨ok, d', c'⟩ := result
  cases ok with
  | false => cases h
  | true =>
    dsimp only at h
    have htake : (c'.takeHeader d').1 = true → (c'.takeHeader d').2.id = c'.id ∧
        (c'.takeHeader d').2.queue.offset = c'.queue.offset + headerSize := by
      rw [Consumer.takeHeader]
      dsimp only
      have hle := List.length_take_le headerSize (List.drop c'.queue.offset
        (d'.bytesOf c'.queue.ffQueue))
      split_ifs with hshort
      · exact fun h => by cases h
      · exact fun h => by cases h
      · exact fun h => by cases h
      · intro _
        exact ⟨rfl, congrArg _ (Nat.le_antisymm hle (Nat.not_lt.mp hshort))⟩
    generalize c'.takeHeader d' = taken at h htake
    obtain ⟨ok, c₃⟩ := taken
    cases ok with
    | false => cases h
    | true =>
      cases h
      exact ⟨rfl, htake rfl⟩

theorem not_gives_of_offset (hid : c₁.id = c.id)
    (hoffset : c₁.queue.offset + headerSize ≠ c.queue.offset) :
    ¬ Gives crates name consumerName d c body c₁ := by
  rintro ⟨d₁, c₂, c₃, hpop, hid₂, -, hoffset₂, -⟩
  obtain ⟨-, hsame, hplace⟩ := popHeader_true hpop
  rcases offset_prepare crates name consumerName d c₁ with hlt | heq
  · omega
  · rw [heq, hoffset₂] at hplace
    exact hoffset hplace.symm

theorem not_gives_of_lt (hlt : c.id < (c₁.prepare crates name consumerName d).2.2.id) :
    ¬ Gives crates name consumerName d c body c₁ := by
  rintro ⟨d₁, c₂, c₃, hpop, hid₂, -⟩
  obtain ⟨-, hsame, -⟩ := popHeader_true hpop
  omega

theorem not_gives_of_not_prepared (h : (c₁.prepare crates name consumerName d).1 = false) :
    ¬ Gives crates name consumerName d c body c₁ := by
  rintro ⟨d₁, c₂, c₃, hpop, -⟩
  rw [(popHeader_true hpop).1] at h
  cases h

namespace AtBody

theorem popBody_complete (h : AtBody bheader c) (hcomplete : Complete crates d bheader body c) :
    (c.popBody crates d c.header.msgLength).1 = .ok body := by
  obtain ⟨hlength, hcrc, rest, hfile⟩ := hcomplete
  have hmsg : ((d.bytesOf c.queue.ffQueue).drop c.queue.offset).take c.header.msgLength =
      body := by
    rw [h.offset, ← List.drop_drop, hfile, ← h.length_eq, List.drop_left, ← hlength,
      List.take_left]
  unfold Consumer.popBody
  rw [if_neg (by simp [h.isReady])]
  dsimp only
  rw [hmsg, if_neg (fun hne => hne hlength), if_neg (fun hne => hne hcrc)]

/-- **The header of a whole record** is read again if the queue knows of the message. -/
theorem gives_iff_of_prepared (h : AtBody bheader c)
    (hcomplete : Complete crates d bheader body c) {q : Queue}
    (hprepare : c₁.prepare crates name consumerName d = (true, d, { c₁ with queue := q }))
    (hready : c₁.isReady = true) (hid : c₁.id = c.id) (hpos : c₁.posRecord = c.posRecord)
    (hfile : q.ffQueue = c.queue.ffQueue) (hoffset : q.offset = c.posRecord) :
    Gives crates name consumerName d c body c₁ ↔
      c.header.startPos < q.rightEdge ∧ c.header.countPushed ≤ q.countPushed := by
  obtain ⟨rest, hbytes⟩ := hcomplete.file
  have hbuf : ((d.bytesOf q.ffQueue).drop q.offset).take headerSize = bheader := by
    rw [hfile, hoffset, hbytes, ← h.length_eq, List.take_left]
  have htake : ({ c₁ with queue := q } : Consumer).takeHeader d =
      if q.countPushed < c.header.countPushed ∨ q.rightEdge ≤ c.header.startPos then
        (false, { c₁ with queue := { q with offset := c.queue.offset } })
      else (true, { c₁ with
        queue := { q with offset := c.queue.offset }, hash := c.hash, header := c.header }) := by
    unfold Consumer.takeHeader
    dsimp only
    rw [hbuf, h.length_eq, if_neg (Nat.lt_irrefl _), ← h.header, ← h.hash]
    have hplace : q.offset + headerSize = c.queue.offset := by rw [hoffset, h.offset]
    split_ifs with h₁ h₂ h₃ h₄ h₅
    all_goals first | (exfalso; tauto) | simp only [Consumer.seek, hplace]
  have hbody : AtBody bheader ({ c₁ with
      queue := { q with offset := c.queue.offset }, hash := c.hash, header := c.header } :
      Consumer) := by
    refine ⟨h.length_eq, hready, ?_, h.header, h.hash⟩
    show c.queue.offset = c₁.posRecord + headerSize
    rw [h.offset, hpos]
  have hwhole : Complete crates d bheader body ({ c₁ with
      queue := { q with offset := c.queue.offset }, hash := c.hash, header := c.header } :
      Consumer) := by
    refine ⟨hcomplete.length_eq, hcomplete.crc, rest, ?_⟩
    show (d.bytesOf q.ffQueue).drop c₁.posRecord = _
    rw [hfile, hpos]
    exact hbytes
  by_cases hknown : q.countPushed < c.header.countPushed ∨ q.rightEdge ≤ c.header.startPos
  · rw [if_pos hknown] at htake
    refine iff_of_false ?_ (by omega)
    rintro ⟨d₁, c₂, c₃, hpop, -⟩
    rw [Stored.popHeader_of_not_taken hprepare htake] at hpop
    cases hpop
  · rw [if_neg hknown] at htake
    refine iff_of_true ?_ (by omega)
    have hpop := Stored.popHeader_of_taken hprepare htake
    exact ⟨d, _, _, hpop, hid, hfile, rfl, rfl,
      Prod.ext (hbody.popBody_complete hwhole) rfl⟩

end AtBody

/-! ## The end of the part is read again -/

theorem getInfoOfPart_of_line {rightEdge countPushed : ℕ}
    (h : lineOf crates name d c = some (rightEdge, countPushed)) :
    ∃ file, c.queue.getInfoOfPart crates name d c.id false =
      (.ok (), { c.queue with ffInfoPush := file, rightEdge, countPushed }) := by
  rw [lineOf] at h
  rw [Queue.getInfoOfPart]
  by_cases hid : c.queue.id = c.id
  · rw [if_pos hid] at h
    rw [if_neg (by simp [hid])]
    dsimp only
    rw [h]
    exact ⟨_, rfl⟩
  · rw [if_neg hid] at h
    rw [if_pos (.inl hid), Queue.openInfoPush]
    split_ifs at h with hlinked
    rw [if_pos hlinked]
    dsimp only [Disk.textOf]
    rw [h]
    exact ⟨_, rfl⟩

theorem getInfoOfPart_of_no_line (h : lineOf crates name d c = none) :
    ∃ e q, c.queue.getInfoOfPart crates name d c.id false = (.error e, q) := by
  rw [lineOf] at h
  rw [Queue.getInfoOfPart]
  by_cases hid : c.queue.id = c.id
  · rw [if_pos hid] at h
    rw [if_neg (by simp [hid])]
    dsimp only
    rw [h]
    exact ⟨_, _, rfl⟩
  · rw [if_neg hid] at h
    rw [if_pos (.inl hid), Queue.openInfoPush]
    split_ifs at h with hlinked
    · rw [if_pos hlinked]
      dsimp only [Disk.textOf]
      rw [h]
      exact ⟨_, _, rfl⟩
    · rw [if_neg hlinked]
      exact ⟨_, _, rfl⟩

theorem not_gives_of_ahead (c₂ : Consumer)
    (hprepare : c₁.prepare crates name consumerName d =
      match Consumer.findPart crates name d (c₂.queue.id - c₂.id) c₂ with
      | (false, c) => (false, d, c)
      | (true, c) => (true, c.enterPart crates name consumerName d))
    (hid : c₂.id = c.id) (hlt : c₂.id < c₂.queue.id) :
    ¬ Gives crates name consumerName d c body c₁ := by
  obtain ⟨left, hleft⟩ := Nat.exists_eq_add_of_lt hlt
  have hpast := lt_id_entered crates name consumerName d left c₂
  rw [show c₂.queue.id - c₂.id = left + 1 by omega] at hprepare
  refine not_gives_of_lt ?_
  rw [hprepare, ← hid]
  exact hpast

namespace AtBody

/-- **From the beginning of the record** the message is read again exactly when the part announces
it.

**Proof sketch.** The line of the part is read first. When it says no more messages than were
popped, the newest part is looked for: a newer one is entered, and otherwise the counts of the queue
are set to zero, so that no header passes. -/
theorem gives_iff_announces (h : AtBody bheader c) (hcomplete : Complete crates d bheader body c)
    (htail : c.countPopped = c.queue.countPushed) (consumerName : List Char) :
    Gives crates name consumerName d c body (c.seek c.posRecord) ↔ Announces crates name d c := by
  have hknown : (c.seek c.posRecord).queue.countPushed ≤ (c.seek c.posRecord).countPopped :=
    htail.ge
  have hsame : lineOf crates name d (c.seek c.posRecord) = lineOf crates name d c := rfl
  cases hline : lineOf crates name d c with
  | none =>
    obtain ⟨e, q, hinfo⟩ := getInfoOfPart_of_no_line (hsame.trans hline)
    refine iff_of_false (not_gives_of_not_prepared ?_) ?_
    · rw [Consumer.prepare, Consumer.refresh, if_pos hknown, hinfo]
    · rintro ⟨rightEdge, countPushed, hsome, -⟩
      rw [hline] at hsome
      cases hsome
  | some line =>
    obtain ⟨rightEdge, countPushed⟩ := line
    obtain ⟨file, hinfo⟩ := getInfoOfPart_of_line (hsame.trans hline)
    have hannounces : Announces crates name d c ↔ c.header.startPos < rightEdge ∧
        c.header.countPushed ≤ countPushed ∧ (c.countPopped < countPushed ∨
          (c.queue.id = c.id ∧ readQueueInfo crates name (d.infoQueue.getD []) = none) ∨
          c.queue.id < c.id) := by
      constructor
      · rintro ⟨rightEdge', countPushed', hsome, hrest⟩
        rw [hline] at hsome
        cases hsome
        exact hrest
      · exact fun hrest => ⟨_, _, hline, hrest⟩
    obtain ⟨c₁, hc₁⟩ : ∃ c₁ : Consumer, c₁ = { c.seek c.posRecord with
        queue := { (c.seek c.posRecord).queue with ffInfoPush := file, rightEdge, countPushed } } :=
      ⟨_, rfl⟩
    have hprepare : (c.seek c.posRecord).prepare crates name consumerName d =
        if countPushed ≤ c.countPopped then c₁.advance crates name consumerName d
        else (true, d, c₁) := by
      rw [Consumer.prepare, Consumer.refresh, if_pos hknown, hinfo, hc₁]
      rfl
    have hstays : (c.seek c.posRecord).prepare crates name consumerName d = (true, d, c₁) →
        (Gives crates name consumerName d c body (c.seek c.posRecord) ↔
          c.header.startPos < rightEdge ∧ c.header.countPushed ≤ countPushed) := by
      intro hstays
      rw [hc₁] at hstays
      exact h.gives_iff_of_prepared hcomplete hstays h.isReady rfl rfl rfl rfl
    rcases Nat.lt_or_ge c.countPopped countPushed with hmore | hend
    · rw [if_neg (Nat.not_le.mpr hmore)] at hprepare
      rw [hstays hprepare, hannounces]
      exact ⟨fun hcond => ⟨hcond.1, hcond.2, .inl hmore⟩, fun hcond => ⟨hcond.1, hcond.2.1⟩⟩
    · rw [if_pos hend, Consumer.advance] at hprepare
      rcases Nat.lt_trichotomy c.queue.id c.id with hlt | heq | hgt
      · have hlook : c₁.lookAhead crates name d = c₁ := by
          rw [Consumer.lookAhead, if_neg (by rw [hc₁]; exact hlt.ne)]
        rw [hlook, if_neg (by rw [hc₁]; exact hlt.not_gt)] at hprepare
        rw [hstays hprepare, hannounces]
        exact ⟨fun hcond => ⟨hcond.1, hcond.2, .inr (.inr hlt)⟩, fun hcond => ⟨hcond.1, hcond.2.1⟩⟩
      · have hlook : c₁.lookAhead crates name d =
            { c₁ with queue := (c₁.queue.getInfoQueue crates name d).2 } := by
          rw [Consumer.lookAhead, if_pos (by rw [hc₁]; exact heq)]
        rw [hlook, Queue.getInfoQueue] at hprepare
        cases hqueue : readQueueInfo crates name (d.infoQueue.getD []) with
        | none =>
          rw [hqueue] at hprepare
          dsimp only at hprepare
          rw [if_neg (by rw [hc₁]; exact heq.not_gt)] at hprepare
          rw [hstays hprepare, hannounces]
          exact ⟨fun hcond => ⟨hcond.1, hcond.2, .inr (.inl ⟨heq, hqueue⟩)⟩,
            fun hcond => ⟨hcond.1, hcond.2.1⟩⟩
        | some id =>
          rw [hqueue] at hprepare
          dsimp only at hprepare
          refine iff_of_false ?_ ?_
          · by_cases hnewer : c.id < id
            · rw [if_pos (by rw [hc₁]; exact hnewer)] at hprepare
              exact not_gives_of_ahead { c₁ with
                queue := { c₁.queue with id := id, rightEdge := 0, countPushed := 0 } } hprepare
                (by rw [hc₁]; rfl) (by rw [hc₁]; exact hnewer)
            · rw [if_neg (by rw [hc₁]; exact hnewer), hc₁] at hprepare
              rw [h.gives_iff_of_prepared hcomplete hprepare h.isReady rfl rfl rfl rfl]
              exact fun hcond => absurd hcond.1 (Nat.not_lt_zero _)
          · rw [hannounces]
            rintro ⟨-, -, hmore | ⟨-, hnone⟩ | hlt⟩
            · omega
            · rw [hqueue] at hnone
              cases hnone
            · omega
      · have hlook : c₁.lookAhead crates name d = c₁ := by
          rw [Consumer.lookAhead, if_neg (by rw [hc₁]; exact hgt.ne')]
        rw [hlook, if_pos (by rw [hc₁]; exact hgt)] at hprepare
        refine iff_of_false ?_ ?_
        · exact not_gives_of_ahead c₁ hprepare (by rw [hc₁]; rfl) (by rw [hc₁]; exact hgt)
        · rw [hannounces]
          rintro ⟨-, -, hmore | ⟨heq, -⟩ | hlt⟩
          · omega
          · omega
          · omega

end AtBody

/-- **A failed call can be repeated** exactly when the file ended inside of the body, the consumer
had popped as many messages as its queue knew of, and the line of the part announces the message.

**Proof sketch.** Only in this branch of `pop_body` the place in the file is set back to the
beginning of the record. When more messages are known of, the next header is read behind the bytes
that were there; and a wrong checksum is found when the position has been moved already. -/
theorem repeats_iff (h : AtBody bheader c) {e : ErrorQueue}
    (hfail : (c.popBody crates d c.header.msgLength).1 = .error e)
    (hcomplete : Complete crates d' bheader body c) (name consumerName : List Char) :
    Repeats crates name consumerName d d' c body ↔
      EndsInside d c ∧ c.countPopped = c.queue.countPushed ∧ Announces crates name d' c := by
  rw [Repeats]
  rcases h.failed_cases hfail with ⟨hends, htail, heq⟩ | ⟨hends, hmore, n, heq⟩ | ⟨hends, hpos⟩
  · rw [heq, and_iff_right hends, and_iff_right htail]
    rw [← h.gives_iff_announces hcomplete htail consumerName]
    exact ⟨fun hgives => hgives.2.2, fun hgives => ⟨rfl, rfl, hgives⟩⟩
  · refine iff_of_false ?_ fun hcond => hmore hcond.2.1
    rintro ⟨-, -, hgives⟩
    rw [heq] at hgives
    have hplace : (c.seek (c.queue.offset + n)).queue.offset + headerSize ≠ c.queue.offset := by
      show c.queue.offset + n + headerSize ≠ c.queue.offset
      have hsize : headerSize = 25 := rfl
      omega
    have hid : (c.seek (c.queue.offset + n)).id = c.id := rfl
    exact not_gives_of_offset hid hplace hgives
  · exact iff_of_false (fun hcond => hpos hcond.2.1) fun hcond => hends hcond.1

/-! ## A part with one message -/

/-- The header of a message with two bytes. -/
def twoBytesHeader : List UInt8 := headerOf crc32Of 0 1 ⟨.string, [1, 2]⟩

/-- A queue with one part, whose file and line are given. -/
def partWith (data : List UInt8) (rightEdge pushed : ℕ) : Disk where
  infoQueue := some (withCrc crc32Of (queueText ['q'] 0))
  parts := fun _ => ⟨withCrc crc32Of (pushText ['q'] rightEdge pushed), data⟩
  linked := fun k => decide (k = 0)
  infoPop := []

/-- A consumer of it that has read the header. -/
def behindHeader (popped : ℕ) : Consumer :=
  ⟨⟨.read, true, .part 0, 25, .part 0, 27, 1, 0⟩, popped, 0, true, 0, createFromBuf twoBytesHeader,
    clearCrc twoBytesHeader⟩

theorem atBody_behindHeader (popped : ℕ) : AtBody twoBytesHeader (behindHeader popped) :=
  ⟨length_headerOf .., rfl, rfl, rfl, rfl⟩

theorem complete_behindHeader (popped rightEdge pushed : ℕ) (rest : List UInt8) :
    Complete lineCrates (partWith (twoBytesHeader ++ ([1, 2] ++ rest)) rightEdge pushed)
      twoBytesHeader [1, 2] (behindHeader popped) where
  length_eq := by
    show [1, 2].length = (createFromBuf twoBytesHeader).msgLength
    decide +kernel
  crc := by
    show crc32Of (clearCrc twoBytesHeader ++ [1, 2]) = (createFromBuf twoBytesHeader).crc
    decide +kernel
  file := ⟨rest, rfl⟩

/-- A consumer whose saved count is ahead of its position. -/
theorem repeats_countAhead :
    Repeats lineCrates ['q'] ['c'] (partWith (twoBytesHeader ++ [1]) 27 1)
      (partWith (twoBytesHeader ++ ([1, 2] ++ [])) 27 2) (behindHeader 1) [1, 2] :=
  (repeats_iff (e := .failReadTailMessage) (atBody_behindHeader 1) (by decide +kernel)
    (complete_behindHeader 1 27 2 []) ['q'] ['c']).mpr
    ⟨by decide +kernel, rfl, 27, 2, by decide +kernel, by decide +kernel, by decide +kernel,
      .inl (by decide)⟩

/-- **A short read and a wrong checksum** of the last message of a part: the next header is read
behind the bytes that were there, and the position is moved behind the body. -/
theorem not_repeats_lastMessage :
    ((Consumer.new lineCrates ['q'] ['c'] (partWith (twoBytesHeader ++ [1]) 27 1)).toOption.map
        fun c => (c.popHeader lineCrates ['q'] ['c'] (partWith (twoBytesHeader ++ [1]) 27 1)).2.2) =
        some (behindHeader 0) ∧
      ((behindHeader 0).popBody lineCrates (partWith (twoBytesHeader ++ [1]) 27 1) 2).1 =
        .error .failRead ∧
      ¬ Repeats lineCrates ['q'] ['c'] (partWith (twoBytesHeader ++ [1]) 27 1)
        (partWith (twoBytesHeader ++ [1, 2]) 27 1) (behindHeader 0) [1, 2] ∧
      ((behindHeader 0).popBody lineCrates (partWith (twoBytesHeader ++ [1, 0]) 27 1) 2).1 =
        .error .invalidChecksum ∧
      ¬ Repeats lineCrates ['q'] ['c'] (partWith (twoBytesHeader ++ [1, 0]) 27 1)
        (partWith (twoBytesHeader ++ [1, 2]) 27 1) (behindHeader 0) [1, 2] := by
  refine ⟨by decide +kernel, by decide +kernel, ?_, by decide +kernel, ?_⟩
  · rintro ⟨-, -, d₁, c₂, c₃, hpop, -⟩
    have hfalse : ((afterBody lineCrates (partWith (twoBytesHeader ++ [1]) 27 1)
        (behindHeader 0)).popHeader lineCrates ['q'] ['c']
        (partWith (twoBytesHeader ++ [1, 2]) 27 1)).1 = false := by
      decide +kernel
    rw [hpop] at hfalse
    cases hfalse
  · rintro ⟨-, hpos, -⟩
    revert hpos
    decide +kernel

end Veda.VQueue
