import Veda.VQueue.Batches
import Veda.VQueue.Restart

set_option autoImplicit false

/-!
# Missing parts

A consumer that has read everything of its part looks for a later one. The loop over the ids goes
on behind a part that is reported as not found, but opening a part that is missing reports
something else, so that the consumer ends there. The queue is not ready then, and no file is opened
with it any more.

## Main definitions

* `VQueue.NextPart` — the smallest existing part behind another one.
* `VQueue.MovesTo` — a consumer goes on with the first header of a part.

## Main results

* `VQueue.Unready.popHeader` — a queue that is not ready keeps its file.
* `VQueue.movesTo_iff` — when a consumer goes on with the next part that exists.
-/

namespace Veda.VQueue

/-- The part `t` is the smallest existing one behind the part `k`, and not newer than the newest. -/
structure NextPart (d : Disk) (k newest t : ℕ) : Prop where
  lt : k < t
  le : t ≤ newest
  linked : d.linked t = true
  missing : ∀ i, k < i → i < t → d.linked i = false

section Calls

variable (crates : Crates) (name consumerName : List Char)

/-- Calls of `pop_header` that give no header. -/
inductive Tries : Disk → Consumer → Disk → Consumer → Prop
  | refl (d : Disk) (c : Consumer) : Tries d c d c
  | call {d d' d'' : Disk} {c c' c'' : Consumer} :
      c.popHeader crates name consumerName d = (false, d', c') → Tries d' c' d'' c'' →
      Tries d c d'' c''

/-- The first header that `pop_header` gives is the first one of the part `t`, and the consumer is
at the beginning of this part then. -/
def MovesTo (written : ℕ → List Message) (d : Disk) (c : Consumer) (t : ℕ) : Prop :=
  ∃ d₁ c₁ d₂ c₂ m, Tries crates name consumerName d c d₁ c₁ ∧
    c₁.popHeader crates name consumerName d₁ = (true, d₂, c₂) ∧
    c₂.id = t ∧ c₂.queue.ffQueue = .part t ∧ c₂.posRecord = 0 ∧ c₂.countPopped = 0 ∧
    HeaderTaken crates written t 0 m c₂

end Calls

variable {crates : Crates} {name consumerName : List Char} {d : Disk} {c : Consumer} {q : Queue}
  {written : ℕ → List Message} {published : ℕ → ℕ} {newest k count t : ℕ}

/-! ## What a call leaves alone -/

theorem popHeader_from_prepare (crates : Crates) (name consumerName : List Char) (d : Disk)
    (c : Consumer) : ∃ offset hash header, (c.popHeader crates name consumerName d).2.2 =
      { (c.prepare crates name consumerName d).2.2 with
        queue := { (c.prepare crates name consumerName d).2.2.queue with offset }, hash, header } := by
  rw [Consumer.popHeader, Consumer.readHeader]
  obtain ⟨ok, d₁, c₁⟩ := c.prepare crates name consumerName d
  cases ok with
  | false => exact ⟨_, _, _, rfl⟩
  | true =>
    have htake : ∃ offset hash header,
        (c₁.takeHeader d₁).2 = { c₁ with queue := { c₁.queue with offset }, hash, header } := by
      rw [Consumer.takeHeader]
      dsimp only
      split_ifs
      all_goals exact ⟨_, _, _, rfl⟩
    obtain ⟨offset, hash, header, heq⟩ := htake
    dsimp only
    rw [heq]
    cases (c₁.takeHeader d₁).1 with
    | false => exact ⟨_, _, _, rfl⟩
    | true => exact ⟨_, _, _, rfl⟩

/-- The queue is not ready, and its open file is `file`. -/
structure Unready (file : Handle) (q : Queue) : Prop where
  isReady : q.isReady = false
  ffQueue : q.ffQueue = file

namespace Unready

variable {file : Handle}

theorem getInfoOfPart (h : Unready file q) (crates : Crates) (name : List Char) (d : Disk) (i : ℕ)
    (reopen : Bool) : Unready file (q.getInfoOfPart crates name d i reopen).2 := by
  rw [Queue.getInfoOfPart]
  split_ifs
  · rw [Queue.openInfoPush]
    split_ifs
    · dsimp only
      generalize readPushInfo crates name _ = line
      cases line <;> exact ⟨h.isReady, h.ffQueue⟩
    · exact ⟨rfl, h.ffQueue⟩
  · dsimp only
    generalize readPushInfo crates name _ = line
    cases line <;> exact ⟨h.isReady, h.ffQueue⟩

theorem getInfoQueue (h : Unready file q) (crates : Crates) (name : List Char) (d : Disk) :
    Unready file (q.getInfoQueue crates name d).2 := by
  rw [Queue.getInfoQueue]
  cases readQueueInfo crates name (d.infoQueue.getD []) with
  | none => exact h
  | some id => exact ⟨h.isReady, h.ffQueue⟩

theorem findPart (crates : Crates) (name : List Char) (d : Disk) (left : ℕ)
    (h : Unready file c.queue) : Unready file (Consumer.findPart crates name d left c).2.queue := by
  induction left generalizing c with
  | zero => exact h
  | succ left ih =>
    have hinfo := h.getInfoOfPart crates name d (c.id + 1) false
    rw [Consumer.findPart]
    generalize c.queue.getInfoOfPart crates name d (c.id + 1) false = result at hinfo
    obtain ⟨answer, q⟩ := result
    cases answer with
    | ok u => exact hinfo
    | error e =>
      cases e with
      | notFound => exact ih (c := { c with queue := q, id := c.id + 1 }) hinfo
      | _ => exact hinfo

theorem enterPart (h : Unready file c.queue) (crates : Crates) (name consumerName : List Char)
    (d : Disk) : Unready file (c.enterPart crates name consumerName d).2.queue := by
  unfold Consumer.enterPart
  dsimp only
  have hopen : ∀ (q : Queue) (d : Disk) (i : ℕ), Unready file q →
      Unready file (q.openPart crates name d i).2 := by
    intro q d i hq
    rw [Queue.openPart, if_pos (by rw [hq.isReady]; rfl)]
    exact hq
  rw [Consumer.openInfoPop, if_pos (by rw [h.isReady]; rfl)]
  exact hopen _ _ _ h

theorem prepare (h : Unready file c.queue) (crates : Crates) (name consumerName : List Char)
    (d : Disk) : Unready file (c.prepare crates name consumerName d).2.2.queue := by
  have hadvance : ∀ c : Consumer, Unready file c.queue →
      Unready file (c.advance crates name consumerName d).2.2.queue := by
    intro c hc
    have hlook : Unready file (c.lookAhead crates name d).queue := by
      rw [Consumer.lookAhead]
      split_ifs
      · exact hc.getInfoQueue crates name d
      · exact hc
    rw [Consumer.advance]
    generalize c.lookAhead crates name d = c₁ at hlook
    split_ifs
    · have hfind := findPart crates name d (c₁.queue.id - c₁.id) hlook
      generalize Consumer.findPart crates name d (c₁.queue.id - c₁.id) c₁ = result at hfind
      obtain ⟨found, c₂⟩ := result
      cases found with
      | false => exact hfind
      | true => exact hfind.enterPart crates name consumerName d
    · exact hlook
  rw [Consumer.prepare, Consumer.refresh]
  split_ifs
  · have hinfo := h.getInfoOfPart crates name d c.id false
    generalize c.queue.getInfoOfPart crates name d c.id false = result at hinfo
    obtain ⟨answer, q⟩ := result
    cases answer with
    | error e => exact hinfo
    | ok u =>
      dsimp only
      split_ifs
      · exact hadvance _ hinfo
      · exact hinfo
  · dsimp only
    rw [if_neg (by assumption)]
    exact h

/-- **A queue that is not ready** stays so, and no other file is opened with it. -/
theorem popHeader (h : Unready file c.queue) (crates : Crates) (name consumerName : List Char)
    (d : Disk) : Unready file (c.popHeader crates name consumerName d).2.2.queue := by
  have hprepare := h.prepare crates name consumerName d
  obtain ⟨offset, hash, header, hpop⟩ := popHeader_from_prepare crates name consumerName d c
  rw [hpop]
  exact ⟨hprepare.isReady, hprepare.ffQueue⟩

theorem not_movesTo (h : Unready (.part k) c.queue) (hne : k ≠ t) :
    ¬ MovesTo crates name consumerName written d c t := by
  rintro ⟨d₁, c₁, d₂, c₂, m, htries, hpop, -, hfile, -⟩
  have htried : Unready (.part k) c₁.queue := by
    clear hpop
    induction htries with
    | refl d c => exact h
    | @call d d' d'' c c' c'' hcall _ ih =>
      have hnext := h.popHeader crates name consumerName d
      rw [hcall] at hnext
      exact ih hnext
  have hlast := (htried.popHeader crates name consumerName d₁).ffQueue
  rw [hpop, hfile] at hlast
  exact hne (Handle.part.inj hlast).symm

end Unready

/-! ## The ids of the parts -/

theorem id_le_findPart (crates : Crates) (name : List Char) (d : Disk) (left : ℕ) (c : Consumer) :
    c.id ≤ (Consumer.findPart crates name d left c).2.id := by
  induction left generalizing c with
  | zero => exact Nat.le_refl _
  | succ left ih =>
    rw [Consumer.findPart]
    obtain ⟨answer, q⟩ := c.queue.getInfoOfPart crates name d (c.id + 1) false
    cases answer with
    | ok u => exact Nat.le_succ _
    | error e =>
      cases e with
      | notFound => exact (Nat.le_succ _).trans (ih { c with queue := q, id := c.id + 1 })
      | _ => exact Nat.le_succ _

theorem lt_id_findPart (crates : Crates) (name : List Char) (d : Disk) (left : ℕ) (c : Consumer) :
    c.id < (Consumer.findPart crates name d (left + 1) c).2.id := by
  rw [Consumer.findPart]
  obtain ⟨answer, q⟩ := c.queue.getInfoOfPart crates name d (c.id + 1) false
  cases answer with
  | ok u => exact Nat.lt_succ_self _
  | error e =>
    cases e with
    | notFound => exact Nat.lt_of_succ_le (id_le_findPart crates name d left
        { c with queue := q, id := c.id + 1 })
    | _ => exact Nat.lt_succ_self _

theorem id_enterPart (crates : Crates) (name consumerName : List Char) (d : Disk) (c : Consumer) :
    (c.enterPart crates name consumerName d).2.id = c.id := by
  unfold Consumer.enterPart
  dsimp only
  rw [Consumer.openInfoPop]
  split_ifs
  all_goals rfl

theorem lt_id_entered (crates : Crates) (name consumerName : List Char) (d : Disk) (left : ℕ)
    (c : Consumer) : c.id < (match Consumer.findPart crates name d (left + 1) c with
      | (false, c) => (false, d, c)
      | (true, c) => (true, c.enterPart crates name consumerName d)).2.2.id := by
  have hfind := lt_id_findPart crates name d left c
  generalize Consumer.findPart crates name d (left + 1) c = result at hfind
  obtain ⟨found, c₂⟩ := result
  cases found with
  | false => exact hfind
  | true => exact hfind.trans_eq (id_enterPart crates name consumerName d c₂).symm

theorem id_le_popHeader (crates : Crates) (name consumerName : List Char) (d : Disk)
    (c : Consumer) : c.id ≤ (c.popHeader crates name consumerName d).2.2.id := by
  have hadvance : ∀ c : Consumer, c.id ≤ (c.advance crates name consumerName d).2.2.id := by
    intro c
    have hlook : (c.lookAhead crates name d).id = c.id := by
      rw [Consumer.lookAhead]
      split_ifs
      all_goals rfl
    rw [Consumer.advance, ← hlook]
    generalize c.lookAhead crates name d = c₁
    split_ifs
    · have hfind := id_le_findPart crates name d (c₁.queue.id - c₁.id) c₁
      generalize Consumer.findPart crates name d (c₁.queue.id - c₁.id) c₁ = result at hfind
      obtain ⟨found, c₂⟩ := result
      cases found with
      | false => exact hfind
      | true => exact hfind.trans (id_enterPart crates name consumerName d c₂).ge
    · exact Nat.le_refl _
  obtain ⟨offset, hash, header, hpop⟩ := popHeader_from_prepare crates name consumerName d c
  rw [hpop]
  show c.id ≤ (c.prepare crates name consumerName d).2.2.id
  rw [Consumer.prepare, Consumer.refresh]
  split_ifs
  · obtain ⟨answer, q⟩ := c.queue.getInfoOfPart crates name d c.id false
    cases answer with
    | error e => exact Nat.le_refl _
    | ok u =>
      dsimp only
      split_ifs
      · exact hadvance { c with queue := q }
      · exact Nat.le_refl _
  · dsimp only
    rw [if_neg (by assumption)]

theorem not_movesTo_of_lt (h : t < c.id) : ¬ MovesTo crates name consumerName written d c t := by
  rintro ⟨d₁, c₁, d₂, c₂, m, htries, hpop, hid, -⟩
  have htried : t < c₁.id := by
    clear hpop
    induction htries with
    | refl d c => exact h
    | @call d d' d'' c c' c'' hcall _ ih =>
      have hle := id_le_popHeader crates name consumerName d c
      rw [hcall] at hle
      exact ih (h.trans_le hle)
  have hle := id_le_popHeader crates name consumerName d₁ c₁
  rw [hpop, hid] at hle
  exact absurd htried (Nat.not_lt.mpr hle)

theorem movesTo_of_call {d' : Disk} {c' : Consumer}
    (hcall : c.popHeader crates name consumerName d = (false, d', c')) :
    MovesTo crates name consumerName written d c t ↔
      MovesTo crates name consumerName written d' c' t := by
  constructor
  · rintro ⟨d₁, c₁, d₂, c₂, m, htries, hpop, hrest⟩
    cases htries with
    | refl d c =>
      rw [hcall] at hpop
      cases hpop
    | call hcall' htries =>
      rw [hcall] at hcall'
      cases hcall'
      exact ⟨d₁, c₁, d₂, c₂, m, htries, hpop, hrest⟩
  · rintro ⟨d₁, c₁, d₂, c₂, m, htries, hpop, hrest⟩
    exact ⟨d₁, c₁, d₂, c₂, m, .call hcall htries, hpop, hrest⟩

theorem not_movesTo_of_call
    (hlater : ∀ d', ¬ MovesTo crates name consumerName written d'
      (c.popHeader crates name consumerName d).2.2 t)
    (hnow : (c.popHeader crates name consumerName d).2.2.id = t →
      (c.popHeader crates name consumerName d).2.2.queue.ffQueue ≠ .part t) :
    ¬ MovesTo crates name consumerName written d c t := by
  rintro ⟨d₁, c₁, d₂, c₂, m, htries, hpop, hid, hfile, hrest⟩
  cases htries with
  | refl d c =>
    rw [hpop] at hnow
    exact hnow hid hfile
  | call hcall htries =>
    rw [hcall] at hlater
    exact hlater _ ⟨d₁, c₁, d₂, c₂, m, htries, hpop, hid, hfile, hrest⟩

theorem not_movesTo_of_unready
    (h : Unready (.part k) (c.popHeader crates name consumerName d).2.2.queue) (hne : k ≠ t) :
    ¬ MovesTo crates name consumerName written d c t :=
  not_movesTo_of_call (fun _ => h.not_movesTo hne)
    fun _ hfile => hne (Handle.part.inj (h.ffQueue.symm.trans hfile))

/-! ## The end of a part -/

theorem unready_enterPart (crates : Crates) (name consumerName : List Char)
    (hmissing : d.linked c.id = false) :
    Unready c.queue.ffQueue (c.enterPart crates name consumerName d).2.queue := by
  cases hready : c.queue.isReady with
  | false => exact Unready.enterPart ⟨hready, rfl⟩ crates name consumerName d
  | true =>
    have hopen : ∀ d : Disk, d.linked c.id = false →
        Unready c.queue.ffQueue (c.queue.openPart crates name d c.id).2 := by
      intro d hmissing
      rw [Stored.openPart_unlinked crates name hready hmissing]
      exact ⟨rfl, rfl⟩
    unfold Consumer.enterPart
    dsimp only
    rw [Consumer.openInfoPop, if_neg (by simp [hready])]
    exact hopen _ hmissing

namespace Stored

/-- The loop over the ids ends at a part that is missing.

**Proof sketch.** When the queue is at a later part, the file of the missing one cannot be opened.
When it is at the missing part itself, the line of the old part is read once more, and the part is
not opened when it is entered. -/
theorem unready_findPart (h : Stored crates name d written published newest)
    (consumerName : List Char) (hid : c.id = k) (hinfo : c.queue.ffInfoPush = .part k)
    (hfile : c.queue.ffQueue = .part k) (hahead : k < c.queue.id)
    (hmissing : d.linked (k + 1) = false) :
    Unready (.part k) (match Consumer.findPart crates name d (c.queue.id - k) c with
      | (false, c) => (false, d, c)
      | (true, c) => (true, c.enterPart crates name consumerName d)).2.2.queue := by
  obtain ⟨left, hleft⟩ := Nat.exists_eq_add_of_lt hahead
  rw [show c.queue.id - k = left + 1 by omega]
  by_cases hqueue : c.queue.id = k + 1
  · have hopen := h.getInfoOfPart_open hinfo
    rw [hqueue] at hopen
    rw [Consumer.findPart, hid, hopen]
    dsimp only
    have henter := unready_enterPart crates name consumerName (d := d)
      (c := { c with queue := c.queue.informed written published k, id := k + 1 }) hmissing
    rw [show ({ c with queue := c.queue.informed written published k, id := k + 1 } :
      Consumer).queue.ffQueue = .part k from hfile] at henter
    exact henter
  · rw [findPart_unlinked crates name hid hqueue hmissing left]
    exact ⟨rfl, hfile⟩

theorem unready_refresh (crates : Crates) (name consumerName : List Char)
    (hstands : Stands written published k count c) (hend : count = published k)
    (hahead : k < c.queue.id) (hmissing : d.linked k = false) :
    Unready (.part k) (c.popHeader crates name consumerName d).2.2.queue := by
  have hknown : c.queue.countPushed ≤ c.countPopped := by
    rw [hstands.countPopped, hend]
    exact hstands.known_le
  have hprepare : c.prepare crates name consumerName d =
      (false, d, { c with queue := { c.queue with isReady := false } }) := by
    have hinfo := getInfoOfPart_unlinked crates name hahead.ne' hmissing
    rw [← hstands.id] at hinfo
    rw [Consumer.prepare, Consumer.refresh, if_pos hknown, hinfo]
  rw [popHeader_of_not_prepared hprepare]
  exact ⟨rfl, hstands.ffQueue⟩

/-- **The next part is missing**: the queue is not ready after the next call, and its file is still
that of the old part. -/
theorem popHeader_missing (h : Stored crates name d written published newest)
    (consumerName : List Char) (hnear : Near newest written published k count c)
    (hend : count = published k) (hk : k < newest) (hmissing : d.linked (k + 1) = false) :
    Unready (.part k) (c.popHeader crates name consumerName d).2.2.queue := by
  have hpop : Unready (.part k) (c.prepare crates name consumerName d).2.2.queue →
      Unready (.part k) (c.popHeader crates name consumerName d).2.2.queue := by
    intro hprepare
    obtain ⟨offset, hash, header, hpop⟩ := popHeader_from_prepare crates name consumerName d c
    rw [hpop]
    exact ⟨hprepare.isReady, hprepare.ffQueue⟩
  rcases hnear.queueId with hid | ⟨hahead, -⟩
  · apply hpop
    rw [h.prepare_of_end consumerName ⟨hnear.toStands, hid⟩ hend, if_pos hk]
    exact h.unready_findPart consumerName (c := { c with
      queue := { c.queue with id := newest, rightEdge := 0, countPushed := 0 } }) hnear.id
      hnear.ffInfoPush hnear.ffQueue hk hmissing
  · cases hlinked : d.linked k with
    | true =>
      apply hpop
      rw [h.prepare_of_end_ahead consumerName hnear.toStands hahead hlinked hend]
      exact h.unready_findPart consumerName (c := { c with
        queue := c.queue.informed written published k }) hnear.id hnear.ffInfoPush hnear.ffQueue
        hahead hmissing
    | false => exact unready_refresh crates name consumerName hnear.toStands hend hahead hlinked

/-- A part without messages has no first header.

**Proof sketch.** In the newest part the consumer stays at the end. In an older one the next call
moves on to a later part, and a consumer does not go back. -/
theorem not_movesTo_of_empty (h : Stored crates name d written published newest)
    (hat : At written published t 0 c) (hoffset : c.queue.offset = c.posRecord)
    (hempty : published t = 0) (hle : t ≤ newest) :
    ¬ MovesTo crates name consumerName written d c t := by
  rcases Nat.lt_or_eq_of_le hle with hlt | rfl
  · have hpast : t < (c.popHeader crates name consumerName d).2.2.id := by
      obtain ⟨left, hleft⟩ := Nat.exists_eq_add_of_lt hlt
      obtain ⟨offset, hash, header, hpop⟩ := popHeader_from_prepare crates name consumerName d c
      rw [hpop]
      show t < (c.prepare crates name consumerName d).2.2.id
      rw [h.prepare_of_end consumerName hat hempty.symm, if_pos hlt,
        show newest - t = left + 1 by omega]
      exact hat.id.symm.trans_lt (lt_id_entered crates name consumerName d left { c with
        queue := { c.queue with id := newest, rightEdge := 0, countPushed := 0 } })
    exact not_movesTo_of_call (fun _ => not_movesTo_of_lt hpast) fun hid => absurd hid hpast.ne'
  · rintro ⟨d₁, c₁, d₂, c₂, m, htries, hpop, -⟩
    induction htries with
    | refl d c =>
      obtain ⟨c', hend, -, -⟩ := h.popHeader_end consumerName hat hoffset hempty.symm
      rw [hend] at hpop
      cases hpop
    | call hcall _ ih =>
      obtain ⟨c', hend, hat', hoffset'⟩ := h.popHeader_end consumerName hat hoffset hempty.symm
      rw [hend] at hcall
      cases hcall
      exact ih hat' hoffset' h hpop

end Stored

/-- **A consumer goes on with the next part that exists** exactly when no id is left out: the next
part has the next id, and it has a message. When the queue is at a later part already, the line of
the old part is read again, so that this part must exist, too.

**Proof sketch.** The part with the next id is found and entered. When it is missing, the queue is
not ready any more, and no other file is opened with it. -/
theorem movesTo_iff (h : Stored crates name d written published newest)
    (hnear : Near newest written published k count c) (hend : count = published k)
    (ht : NextPart d k newest t) :
    MovesTo crates name consumerName written d c t ↔
      t = k + 1 ∧ 0 < published t ∧ (c.queue.id = k ∨ d.linked k = true) := by
  have hk : k < newest := ht.lt.trans_le ht.le
  by_cases hnext : t = k + 1
  · subst hnext
    by_cases hthere : c.queue.id = k ∨ d.linked k = true
    · rcases h.popHeader_enter_of_near consumerName hnear hthere hend hk ht.linked with
        ⟨hpos, c', m, hpop, hat, htaken⟩ | ⟨hempty, c', hpop, hat, hoffset⟩
      · refine iff_of_true ?_ ⟨rfl, hpos, hthere⟩
        exact ⟨d, c, _, c', m, .refl d c, hpop, hat.id, hat.ffQueue, hat.posRecord,
          hat.countPopped, htaken⟩
      · refine iff_of_false ?_ fun hcond => absurd hcond.2.1 (by omega)
        rw [movesTo_of_call hpop]
        have hentered : Stored crates name (d.entered name consumerName (k + 1)) written published
            newest := { h with }
        exact hentered.not_movesTo_of_empty hat hoffset hempty ht.le
    · refine iff_of_false ?_ fun hcond => hthere hcond.2.2
      obtain ⟨hid, hmissing⟩ := not_or.mp hthere
      have hahead : k < c.queue.id := (hnear.queueId.resolve_left hid).1
      exact not_movesTo_of_unready (Stored.unready_refresh crates name consumerName hnear.toStands
        hend hahead (Bool.not_eq_true _ ▸ hmissing)) ht.lt.ne
  · refine iff_of_false ?_ fun hcond => hnext hcond.1
    have hmissing := ht.missing (k + 1) (Nat.lt_succ_self k)
      (Nat.lt_of_le_of_ne ht.lt (Ne.symm hnext))
    exact not_movesTo_of_unready (h.popHeader_missing consumerName hnear hend hk hmissing) ht.lt.ne

namespace System

theorem Inv.at_of_idle {s : System} (hinv : s.Inv crates name consumerName newest)
    (hc : s.consumer = some c) (hphase : s.phase = .idle) (hlinked : s.disk.linked c.id = true) :
    At s.pushed s.counts c.id c.countPopped c := by
  have hreads := hinv.reads c hc
  rw [hphase] at hreads
  cases hreads with
  | idle _ _ hat _ =>
    rw [hat.id, hat.countPopped]
    exact hat
  | stuck hstuck =>
    rw [hstuck.unlinked] at hlinked
    exact absurd hlinked (by decide)

/-- The consumer has finished the first part, and two more have a message each. -/
def finished : System :=
  [Op.openConsumer, .push ⟨.string, [1]⟩, .popHeader, .popBody, .next, .openQueue,
    .push ⟨.string, [2]⟩, .openQueue, .push ⟨.string, [3]⟩].foldl
    (step lineCrates ['q'] ['c']) (start lineCrates ['q'])

/-- Then the second part is removed. -/
def withGap : System := finished.step lineCrates ['q'] ['c'] (.remove 1)

theorem reached_finished : Reached lineCrates ['q'] ['c'] finished := by
  have h₂ := reached_openConsumer.step (.push ⟨.string, [1]⟩) (allowed_push (by decide +kernel))
  have h₃ := ((h₂.step .popHeader trivial).step .popBody trivial).step .next trivial
  have h₄ := h₃.step .openQueue (allowed_openQueue 0 (by decide +kernel) (by decide))
  have h₅ := h₄.step (.push ⟨.string, [2]⟩) (allowed_push (by decide +kernel))
  have h₆ := h₅.step .openQueue (allowed_openQueue 1 (by decide +kernel) (by decide))
  have h₇ := h₆.step (.push ⟨.string, [3]⟩) (allowed_push (by decide +kernel))
  simpa only [finished, List.foldl_cons, List.foldl_nil] using h₇

theorem exists_at_first {s : System} (hinv : s.Inv lineCrates ['q'] ['c'] newest)
    (hc : s.consumer.map (fun c => (c.id, c.countPopped)) = some (0, 1)) (hphase : s.phase = .idle)
    (hlinked : s.disk.linked 0 = true) : ∃ c, s.consumer = some c ∧ At s.pushed s.counts 0 1 c := by
  obtain ⟨c, hsome, hpair⟩ := Option.map_eq_some_iff.mp hc
  obtain ⟨hid, hcount⟩ := Prod.mk.inj hpair
  have hat := hinv.at_of_idle hsome hphase (by rw [hid]; exact hlinked)
  rw [hid, hcount] at hat
  exact ⟨c, hsome, hat⟩

/-- No part is missing. -/
theorem movesTo_finished : ∃ c, finished.consumer = some c ∧
    MovesTo lineCrates ['q'] ['c'] finished.pushed finished.disk c 1 := by
  obtain ⟨newest, hinv⟩ := reached_finished.inv plain_names.1 plain_names.2
  have hnewest := hinv.stored.queueInfo
  rw [show readQueueInfo lineCrates ['q'] (finished.disk.infoQueue.getD []) = some 2 by
    decide +kernel] at hnewest
  obtain ⟨c, hc, hat⟩ := exists_at_first hinv (by decide +kernel) (by decide +kernel)
    (by decide +kernel)
  have hnext : NextPart finished.disk 0 newest 1 := by
    rw [← Option.some.inj hnewest]
    exact ⟨by decide, by decide, by decide +kernel, fun i hi hi' => by omega⟩
  exact ⟨c, hc, (movesTo_iff hinv.stored hat.near (by decide +kernel) hnext).mpr
    ⟨rfl, by decide +kernel, .inl hat.queueId⟩⟩

/-- **The second part is missing**: the consumer does not come to the third one. -/
theorem not_movesTo_withGap : ∃ c, withGap.consumer = some c ∧ NextPart withGap.disk 0 2 2 ∧
    ¬ MovesTo lineCrates ['q'] ['c'] withGap.pushed withGap.disk c 2 := by
  have hreached : Reached lineCrates ['q'] ['c'] withGap := reached_finished.step (.remove 1) (by
    show readQueueInfo lineCrates ['q'] _ ≠ some 1
    decide +kernel)
  obtain ⟨newest, hinv⟩ := Reached.inv plain_names.1 plain_names.2 hreached
  have hnewest := hinv.stored.queueInfo
  rw [show readQueueInfo lineCrates ['q'] (withGap.disk.infoQueue.getD []) = some 2 by
    decide +kernel] at hnewest
  cases hnewest
  obtain ⟨c, hc, hat⟩ := exists_at_first hinv (by decide +kernel) (by decide +kernel)
    (by decide +kernel)
  have hmissing : withGap.disk.linked 1 = false := by decide +kernel
  refine ⟨c, hc, ⟨by decide, by decide, by decide +kernel, fun i hi hi' => ?_⟩, ?_⟩
  · obtain rfl : i = 1 := by omega
    exact hmissing
  · exact not_movesTo_of_unready (hinv.stored.popHeader_missing ['c'] hat.near (by decide +kernel)
      (by decide) hmissing) (by decide)

end System

end Veda.VQueue
