import Veda.VModule.ListenQueue

set_option autoImplicit false

/-!
# A loop that saves its position behind every message

When every message is answered with `Ok(true)`, the saved position is the place of the consumer in
every state, and it never goes back.

## Main definitions

* `VModule.Listener.Committing` — the saved position is the place of the consumer.
* `VModule.Listener.Later` — the saved position did not go back.

## Main results

* `VModule.Listener.Inv.committing_restart`, `VModule.Listener.Inv.committing_startBatch`,
  `VModule.Listener.Inv.committing_popHeader`, `VModule.Listener.Inv.committing_popBody`,
  `VModule.Listener.Inv.committing_prepare`, `VModule.Listener.Inv.committing_next` — the
  steps of the loop.
-/

namespace Veda.VModule.Listener

open Veda.VQueue Veda.Onto

section Committing

variable (crates : Crates) (name consumerName : List Char)

/-- The saved position is the place of the consumer, and it will be saved behind the message that
was answered last. -/
structure Committing (s : Listener) : Prop where
  saved : s.Saved crates name consumerName
  answered : ∀ b needCommit, s.phase = .answered b needCommit → needCommit = true

/-- The saved position did not go back. -/
def Later (s s' : Listener) : Prop :=
  ∀ count' id', s'.SavedAt crates name consumerName count' id' →
    ∃ count id, s.SavedAt crates name consumerName count id ∧
      (id < id' ∨ id = id' ∧ count ≤ count')

/-- A step keeps that the saved position is the place of the consumer, and it does not go back. -/
def Commits (s s' : Listener) : Prop :=
  s'.Committing crates name consumerName ∧ Later crates name consumerName s s'

end Committing

variable {crates : Crates} {cbor : CborParser} {name consumerName : List Char} {s s' : Listener}
  {newest k saved count : ℕ} {c : Consumer} {phase : Phase}

theorem Later.of_infoPop (h : s'.disk.infoPop = s.disk.infoPop) :
    Later crates name consumerName s s' := by
  rintro count' id' ⟨pos, hread⟩
  rw [h] at hread
  exact ⟨count', id', ⟨pos, hread⟩, .inr ⟨rfl, Nat.le_refl _⟩⟩

theorem Committing.of_same (h : s.Committing crates name consumerName)
    (hpop : s'.disk.infoPop = s.disk.infoPop) (hconsumer : s'.consumer = s.consumer)
    (hphase : ∀ b needCommit, s'.phase = .answered b needCommit → needCommit = true) :
    Commits crates name consumerName s s' := by
  refine ⟨⟨fun c hc => ?_, hphase⟩, .of_infoPop hpop⟩
  rw [hconsumer] at hc
  obtain ⟨pos, hread⟩ := h.saved c hc
  exact ⟨pos, by rw [hpop]; exact hread⟩

theorem saved_of_place (hsaved : s.SavedAt crates name consumerName count k) (hid : c.id = k)
    (hcount : c.countPopped = count) (phase : Phase) :
    Saved crates name consumerName { s with consumer := some c, phase } := by
  rintro c' ⟨⟩
  rw [hid, hcount]
  exact hsaved

theorem Committing.savedAt (h : s.Committing crates name consumerName) (hc : s.consumer = some c)
    (hid : c.id = k) (hcount : c.countPopped = count) :
    s.SavedAt crates name consumerName count k := by
  have hsaved := h.saved c hc
  rwa [hid, hcount] at hsaved

/-- **A new part** is opened by the producer. -/
theorem Inv.committing_openQueue (hname : PlainName name)
    (h : Inv crates name consumerName cbor s newest) (hs : s.Committing crates name consumerName)
    (hnewest : newest + 1 < 2 ^ 32) :
    Commits crates name consumerName s (s.openQueue crates name) := by
  obtain ⟨q, hopen, -, -⟩ := h.producing.openQueue hname hnewest
  have hopened : s.openQueue crates name = { s with
      disk := partOpened crates name s.disk (newest + 1), producer := some q } := by
    rw [Listener.openQueue, hopen]
  rw [hopened]
  exact hs.of_same rfl rfl hs.answered

theorem Inv.push_same (hname : PlainName name) (h : Inv crates name consumerName cbor s newest)
    {m : Message} (hallowed : s.Allowed crates cbor name consumerName (.push m)) :
    (s.push crates name m).disk.infoPop = s.disk.infoPop ∧
      (s.push crates name m).consumer = s.consumer ∧ (s.push crates name m).phase = s.phase ∧
      (s.push crates name m).trace = s.trace := by
  cases hq : s.producer with
  | none =>
    rw [Listener.push, hq]
    exact ⟨rfl, rfl, rfl, rfl⟩
  | some q =>
    have hproducing := h.producing
    rw [hq] at hproducing
    obtain ⟨hcount, hlength⟩ := hallowed.2 q hq
    rcases hproducing.push hname hcount hlength with hlong | ⟨d', q', hpush, -, -, -, hpop, -⟩
    · rw [Listener.push, hq]
      dsimp only
      rw [hlong]
      exact ⟨rfl, rfl, rfl, rfl⟩
    · rw [Listener.push, hq]
      dsimp only
      rw [hpush]
      exact ⟨hpop, rfl, rfl, rfl⟩

/-- **A message** is pushed. -/
theorem Inv.committing_push (hname : PlainName name)
    (h : Inv crates name consumerName cbor s newest) (hs : s.Committing crates name consumerName)
    {m : Message} (hallowed : s.Allowed crates cbor name consumerName (.push m)) :
    Commits crates name consumerName s (s.push crates name m) := by
  obtain ⟨hpop, hconsumer, hphase, -⟩ := h.push_same hname hallowed
  apply hs.of_same hpop hconsumer
  rw [hphase]
  exact hs.answered

/-- **A new consumer** begins at the saved position. -/
theorem Inv.committing_restart (h : Inv crates name consumerName cbor s newest) :
    Commits crates name consumerName s (s.restart crates name consumerName) := by
  obtain ⟨k, saved, c, hsaved, hrestart, hat, -⟩ := h.restart_eq
  rw [hrestart]
  refine ⟨⟨saved_of_place ⟨_, hsaved.read⟩ hat.id hat.countPopped _, ?_⟩, .of_infoPop rfl⟩
  rintro b needCommit ⟨⟩

/-- **A batch begins.** -/
theorem Inv.committing_startBatch (h : Inv crates name consumerName cbor s newest)
    (hs : s.Committing crates name consumerName) (newSize : Option ℕ) :
    Commits crates name consumerName s (s.startBatch crates name newSize) := by
  unfold Listener.startBatch
  split
  case h_2 => exact ⟨hs, .of_infoPop rfl⟩
  case h_1 c hc hphase =>
  have hlistens := h.listens c hc
  rw [hphase] at hlistens
  cases hlistens with
  | @top k saved count hbetween hnear hoffset =>
    obtain ⟨q, hinfo, hnear', -, -⟩ := hnear.batch h.producing.stored hbetween.part_le
      (h.linked k hbetween.part_le)
    rw [hinfo]
    refine ⟨⟨?_, ?_⟩, .of_infoPop rfl⟩
    · exact saved_of_place (hs.savedAt hc hnear.id hnear.countPopped) hnear'.id hnear'.countPopped _
    · rintro b needCommit ⟨⟩

/-- **`pop_header`** at the beginning of a round. -/
theorem Inv.committing_popHeader (hname : PlainName name) (hconsumer : PlainName consumerName)
    (h : Inv crates name consumerName cbor s newest) (hs : s.Committing crates name consumerName) :
    Commits crates name consumerName s (s.popHeader crates name consumerName) := by
  unfold Listener.popHeader
  split
  case h_2 => exact ⟨hs, .of_infoPop rfl⟩
  case h_1 c b hc hphase =>
  have hstored := h.producing.stored
  have hlistens := h.listens c hc
  rw [hphase] at hlistens
  split
  case isTrue => exact ⟨hs, .of_infoPop rfl⟩
  case isFalse =>
  cases hlistens with
  | @batch k saved count _ hbetween hnear hoffset =>
    have hplace := hs.savedAt hc hnear.id hnear.countPopped
    have hlinked := h.linked k hbetween.part_le
    rcases Nat.lt_or_eq_of_le hbetween.count_le with hlt | hend
    · obtain ⟨c', m, hpop, hnear', -⟩ :=
        hnear.popHeader_next hstored consumerName hlinked hoffset hlt
      rw [hpop]
      refine ⟨⟨saved_of_place hplace hnear'.id hnear'.countPopped _, ?_⟩, .of_infoPop rfl⟩
      rintro b needCommit ⟨⟩
    · rcases Nat.lt_or_eq_of_le hbetween.part_le with hk | rfl
      · -- the next part is entered, and its beginning is saved
        have hread : readPopInfo crates name consumerName
            (s.disk.entered name consumerName (k + 1)).infoPop = some (0, 0, k + 1) :=
          readPopInfo_written crates hname hconsumer (by decide) (by decide)
            (by have := hstored.newest_lt; omega) []
        have hentered : ∀ (c' : Consumer) (b' : Phase), c'.id = k + 1 → c'.countPopped = 0 →
            (∀ b needCommit, b' = .answered b needCommit → needCommit = true) →
            Commits crates name consumerName s
              { s with
                disk := s.disk.entered name consumerName (k + 1), consumer := some c'
                phase := b' } := by
          intro c' b' hid hcount hphase'
          refine ⟨⟨?_, hphase'⟩, ?_⟩
          · rintro c'' ⟨⟩
            rw [hid, hcount]
            exact ⟨0, hread⟩
          · rintro count' id' ⟨pos, hread'⟩
            rw [hread] at hread'
            cases hread'
            exact ⟨count, k, hplace, .inl (Nat.lt_succ_self k)⟩
        rcases hnear.popHeader_enter hstored consumerName hlinked hend hk (h.linked (k + 1) hk) with
          ⟨-, c', m, hpop, hnear', -⟩ | ⟨-, c', hpop, hnear', -⟩
        · rw [hpop]
          exact hentered c' _ hnear'.id hnear'.countPopped (by rintro b needCommit ⟨⟩)
        · rw [hpop]
          exact hentered c' _ hnear'.id hnear'.countPopped (by rintro b needCommit ⟨⟩)
      · obtain ⟨c', hpop, hnear', -⟩ := hnear.popHeader_end hstored consumerName hoffset hend
        rw [hpop]
        refine ⟨⟨saved_of_place hplace hnear'.id hnear'.countPopped _, ?_⟩, .of_infoPop rfl⟩
        rintro b needCommit ⟨⟩

theorem popBody_place (crates : Crates) (d : Disk) (c : Consumer) (size : ℕ) :
    (c.popBody crates d size).2.id = c.id ∧
      (c.popBody crates d size).2.countPopped = c.countPopped := by
  unfold Consumer.popBody
  dsimp only
  split_ifs <;> exact ⟨rfl, rfl⟩

/-- **`pop_body`** behind a header. -/
theorem Committing.popBody (hs : s.Committing crates name consumerName) :
    Commits crates name consumerName s (s.popBody crates) := by
  unfold Listener.popBody
  split
  case h_2 => exact ⟨hs, .of_infoPop rfl⟩
  case h_1 c b hc hphase =>
  obtain ⟨hid, hcount⟩ := popBody_place crates s.disk c c.header.msgLength
  have hplace := hs.saved c hc
  rcases hpop : c.popBody crates s.disk c.header.msgLength with ⟨msg | e, c'⟩
  all_goals
    rw [hpop] at hid hcount
    refine ⟨⟨saved_of_place hplace hid hcount _, ?_⟩, .of_infoPop rfl⟩
    rintro b needCommit ⟨⟩

/-- **`next`** at the end of a round: the position is saved behind the message. -/
theorem Inv.committing_next (hname : PlainName name) (hconsumer : PlainName consumerName)
    (h : Inv crates name consumerName cbor s newest) (hs : s.Committing crates name consumerName) :
    Commits crates name consumerName s (s.next name consumerName) := by
  unfold Listener.next
  split
  case h_2 => exact ⟨hs, .of_infoPop rfl⟩
  case h_1 c b needCommit hc hphase =>
  obtain rfl := hs.answered b needCommit hphase
  have hstored := h.producing.stored
  have hlistens := h.listens c hc
  rw [hphase] at hlistens
  cases hlistens with
  | @answered k saved count _ m _ hbetween hm hcount hnear hoffset hprepared hneed =>
    have hplace := hs.savedAt hc hnear.id hcount
    have hfits : count + 1 < 2 ^ 32 := hnear.count_le.trans_lt (hstored.count_lt k)
    have hnumber : addU32 c.countPopped 1 = count + 1 := by
      rw [hcount, addU32, Nat.mod_eq_of_lt hfits]
    have hid : c.id = k := hnear.id
    have hready : c.isReady = true := hnear.isReady
    rw [nextCommit_of_ready name consumerName hready, hnumber]
    have hread := h.read_committed hname hconsumer hbetween.part_le hnear.toStands
    refine ⟨⟨?_, ?_⟩, ?_⟩
    · rintro c' ⟨⟩
      rw [← hid] at hread
      exact ⟨_, hread⟩
    · rintro b needCommit ⟨⟩
    · rintro count' id' ⟨pos, hread'⟩
      change readPopInfo crates name consumerName (Consumer.commit name consumerName
        { c with countPopped := count + 1 } s.disk).infoPop = _ at hread'
      rw [hread] at hread'
      cases hread'
      exact ⟨count, k, hplace, .inr ⟨rfl, Nat.le_succ count⟩⟩

/-! ## A round of a batch -/

variable {b : Batch} {m : Message}

theorem Inv.popBody_of_header (h : Inv crates name consumerName cbor s newest)
    (hc : s.consumer = some c) (hphase : s.phase = .header b)
    (hm : (s.pushed c.id)[c.countPopped]? = some m) :
    (s.popBody crates).phase = .body b m.body ∧
      ∃ c', (s.popBody crates).consumer = some c' ∧ c'.id = c.id ∧
        c'.countPopped = c.countPopped := by
  have hlistens := h.listens c hc
  rw [hphase] at hlistens
  cases hlistens with
  | @header k saved count _ m' hbetween hnear htaken =>
    obtain rfl : c.id = k := hnear.id
    obtain rfl : c.countPopped = count := hnear.countPopped
    obtain rfl : m' = m := Option.some.inj (htaken.next.symm.trans hm)
    have hpop : s.popBody crates = { s with
        consumer := some (c.popBody crates s.disk c.header.msgLength).2
        phase := .body b m'.body } := by
      rw [Listener.popBody, hc, hphase]
      dsimp only
      rw [h.producing.stored.popBody_next hnear.isReady hnear.ffQueue hnear.posRecord htaken]
    rw [hpop]
    obtain ⟨hid, hcount⟩ := popBody_place crates s.disk c c.header.msgLength
    exact ⟨rfl, _, rfl, hid, hcount⟩

theorem Inv.prepare_of_body {body : List UInt8} (h : Inv crates name consumerName cbor s newest)
    (hc : s.consumer = some c) (hphase : s.phase = .body b body) :
    s.prepare cbor (.ok true) = { s with
      phase := .answered b true
      trace := s.trace ++ [Event.prepared c.id c.countPopped body (.ok true)] } := by
  have hlistens := h.listens c hc
  rw [hphase] at hlistens
  cases hlistens with
  | @body k saved count _ m hbetween hm hcount hnear hoffset =>
    have hparses := h.parses k m (List.mem_of_getElem? hm)
    rw [Listener.prepare, hc, hphase]
    dsimp only
    rw [if_pos hparses, ← hc]

/-- **`prepare`** answers `Ok(true)`. -/
theorem Inv.committing_prepare (h : Inv crates name consumerName cbor s newest)
    (hs : s.Committing crates name consumerName) :
    Commits crates name consumerName s (s.prepare cbor (.ok true)) := by
  cases hc : s.consumer with
  | none =>
    rw [Listener.prepare, hc]
    exact ⟨hs, .of_infoPop rfl⟩
  | some c =>
    cases hphase : s.phase with
    | body b body =>
      rw [h.prepare_of_body hc hphase]
      refine hs.of_same rfl rfl ?_
      rintro b' needCommit ⟨⟩
      rfl
    | top | batch | header | answered | stopped =>
      rw [Listener.prepare, hc, hphase]
      exact ⟨hs, .of_infoPop rfl⟩

theorem Committing.fatal (hs : s.Committing crates name consumerName) :
    Commits crates name consumerName s (s.prepare cbor (.error .fatal)) := by
  unfold Listener.prepare
  split
  case h_2 => exact ⟨hs, .of_infoPop rfl⟩
  case h_1 =>
    dsimp only
    split_ifs
    · exact hs.of_same rfl rfl (by rintro b needCommit ⟨⟩)
    · exact hs.of_same rfl rfl (by rintro b needCommit ⟨⟩; rfl)

theorem Committing.endBatch (hs : s.Committing crates name consumerName) :
    Commits crates name consumerName s (s.endBatch name consumerName false) := by
  unfold Listener.endBatch
  split
  case h_2 => exact ⟨hs, .of_infoPop rfl⟩
  case h_1 =>
    split_ifs with hleft hcommit
    · exact ⟨hs, .of_infoPop rfl⟩
    · exact hcommit.2.elim
    · exact hs.of_same rfl rfl (by rintro b needCommit ⟨⟩)

theorem Inv.next_of_answered (h : Inv crates name consumerName cbor s newest)
    (hc : s.consumer = some c) (hphase : s.phase = .answered b true) :
    ∃ c', (s.next name consumerName).consumer = some c' ∧ c'.id = c.id ∧
      c'.countPopped = c.countPopped + 1 := by
  have hlistens := h.listens c hc
  rw [hphase] at hlistens
  cases hlistens with
  | @answered k saved count _ m _ hbetween hm hcount hnear hoffset hprepared hneed =>
    have hready : c.isReady = true := hnear.isReady
    have hfits : count + 1 < 2 ^ 32 :=
      hnear.count_le.trans_lt (h.producing.stored.count_lt k)
    refine ⟨{ c with countPopped := addU32 c.countPopped 1 }, ?_, rfl, ?_⟩
    · rw [Listener.next, hc, hphase]
      dsimp only
      rw [nextCommit_of_ready name consumerName hready]
    · rw [hcount]
      exact Nat.mod_eq_of_lt hfits

end Veda.VModule.Listener
