import Veda.VQueue.Lines
import Veda.VQueue.Runs

set_option autoImplicit false

/-!
# A consumer that is started again

A new consumer opens the part that was saved, at the position and behind the count that were saved
with it. When this part was removed, it opens the newest part instead and keeps both numbers, so
that they describe a record of a part that is gone, and older parts that still exist are skipped.

## Main definitions

* `VQueue.NextDelivered` — the message that a consumer delivers next.
* `VQueue.System.FirstUncommitted` — the message that it should deliver.
* `VQueue.System.ContinuesRight` — a new consumer goes on where the old one stopped.

## Main results

* `VQueue.System.nextDelivered_iff` — a consumer delivers the first message that is not
  committed exactly when no part is missing in front of it.
* `VQueue.System.continuesRight_iff` — when a new consumer goes on where the old one stopped.
-/

namespace Veda.VQueue

/-- The next message that a consumer delivers when it calls `pop_header` again and again: the part
of its file, its number in the part and its body. -/
inductive NextDelivered (crates : Crates) (name consumerName : List Char) :
    Disk → Consumer → ℕ → ℕ → List UInt8 → Prop
  | here {d d' : Disk} {c c' c'' : Consumer} {k : ℕ} {body : List UInt8} :
      c.popHeader crates name consumerName d = (true, d', c') → c'.queue.ffQueue = .part k →
      c'.popBody crates d' c'.header.msgLength = (.ok body, c'') →
      NextDelivered crates name consumerName d c k c'.header.countPushed body
  | later {d d' : Disk} {c c' : Consumer} {k n : ℕ} {body : List UInt8} :
      c.popHeader crates name consumerName d = (false, d', c') →
      NextDelivered crates name consumerName d' c' k n body →
      NextDelivered crates name consumerName d c k n body

/-- The body of a message behind `count` others. -/
def bodyAt (ms : List Message) (count : ℕ) : Option (List UInt8) := ms[count]?.map Message.body

namespace NextDelivered

variable {crates : Crates} {name consumerName : List Char} {d d' : Disk}
  {written : ℕ → List Message} {published : ℕ → ℕ} {newest k count i n : ℕ} {c c' : Consumer}
  {m : Message} {body : List UInt8}

theorem iff_of_header (h : Stored crates name d' written published newest)
    (hpop : c.popHeader crates name consumerName d = (true, d', c'))
    (hat : At written published k count c') (htaken : HeaderTaken crates written k count m c') :
    NextDelivered crates name consumerName d c i n body ↔
      i = k ∧ n = count + 1 ∧ bodyAt (written k) count = some body := by
  have hread := h.popBody_next hat.isReady hat.ffQueue hat.posRecord htaken
  obtain ⟨-, hnumber, -⟩ := h.readHeaderOf_eq htaken.next
  have hcount : c'.header.countPushed = count + 1 := by
    rw [htaken.header]
    exact hnumber
  have hbody : bodyAt (written k) count = some m.body := by
    rw [bodyAt, htaken.next]
    rfl
  constructor
  · intro hnext
    cases hnext with
    | here hpop' hfile hbody' =>
      rw [hpop] at hpop'
      obtain ⟨-, rfl, rfl⟩ := hpop'
      rw [hat.ffQueue] at hfile
      rw [hread] at hbody'
      cases hfile
      cases hbody'
      exact ⟨rfl, hcount, hbody⟩
    | later hpop' _ =>
      rw [hpop] at hpop'
      cases hpop'
  · rintro ⟨rfl, rfl, hsome⟩
    rw [hbody] at hsome
    cases hsome
    rw [← hcount]
    exact .here hpop hat.ffQueue hread

theorem iff_of_none (hpop : c.popHeader crates name consumerName d = (false, d', c')) :
    NextDelivered crates name consumerName d c i n body ↔
      NextDelivered crates name consumerName d' c' i n body := by
  constructor
  · intro hnext
    cases hnext with
    | here hpop' _ _ =>
      rw [hpop] at hpop'
      cases hpop'
    | later hpop' hnext =>
      rw [hpop] at hpop'
      cases hpop'
      exact hnext
  · exact .later hpop

theorem not_of_end (h : Stored crates name d written published newest)
    (hat : At written published newest count c) (hoffset : c.queue.offset = c.posRecord)
    (hend : count = published newest) : ¬ NextDelivered crates name consumerName d c i n body := by
  intro hnext
  induction hnext with
  | here hpop _ _ =>
    obtain ⟨c', hpop', -, -⟩ := h.popHeader_end consumerName hat hoffset hend
    rw [hpop'] at hpop
    cases hpop
  | later hpop _ ih =>
    obtain ⟨c', hpop', hat', hoffset'⟩ :=
      h.popHeader_end consumerName hat hoffset hend
    rw [hpop'] at hpop
    cases hpop
    exact ih h hat' hoffset'

theorem not_of_stuck (h : Stuck d newest c) :
    ¬ NextDelivered crates name consumerName d c i n body := by
  intro hnext
  induction hnext with
  | here hpop _ _ =>
    obtain ⟨c', hpop', -⟩ := h.popHeader crates name consumerName
    rw [hpop'] at hpop
    cases hpop
  | later hpop _ ih =>
    obtain ⟨c', hpop', hstuck⟩ := h.popHeader crates name consumerName
    rw [hpop'] at hpop
    cases hpop
    exact ih hstuck

end NextDelivered

namespace System

variable {crates : Crates} {name consumerName : List Char} {s : System} {d : Disk}
  {newest k count i n : ℕ} {c : Consumer} {body : List UInt8}

/-- The first message that is not committed, of the parts that exist. -/
def FirstUncommitted (s : System) (k n : ℕ) (body : List UInt8) : Prop :=
  s.FirstPart k ∧ n = (s.committed k).length + 1 ∧
    bodyAt (s.pushed k) (s.committed k).length = some body

/-- The position and the count of a consumer describe the same record of its part. -/
structure SameRecord (s : System) (c : Consumer) : Prop where
  queueId : c.queue.id = c.id
  ffQueue : c.queue.ffQueue = .part c.id
  offset : c.queue.offset = c.posRecord
  count_le : c.countPopped ≤ (s.pushed c.id).length
  posRecord : c.posRecord = lengthOf ((s.pushed c.id).take c.countPopped)

/-- The next message of a consumer is the first one that is not committed. -/
def DeliversFirst (crates : Crates) (name consumerName : List Char) (s : System) (d : Disk)
    (c : Consumer) : Prop :=
  ∀ k n body, NextDelivered crates name consumerName d c k n body ↔ s.FirstUncommitted k n body

/-- **Restart continues where the consumer stopped**: its next message is the first one that is not
committed. -/
def ContinuesRight (crates : Crates) (name consumerName : List Char) (s : System) : Prop :=
  ∃ c, Consumer.new crates name consumerName s.disk = .ok c ∧ s.SameRecord c ∧
    s.DeliversFirst crates name consumerName s.disk c

/-- No part is missing between the part `k` and the first message that is not committed. -/
def Gapless (s : System) (k : ℕ) : Prop :=
  ∀ i, s.FirstPart i → ∀ j, k < j → j < i → s.disk.linked j = true

/-! ## The first message that is not committed -/

theorem FirstPart.exists_uncommitted (h : s.FirstPart k) :
    ∃ n body, s.FirstUncommitted k n body := by
  obtain ⟨m, hm⟩ : ∃ m, (s.pushed k)[(s.committed k).length]? = some m :=
    ⟨_, List.getElem?_eq_getElem h.2.1⟩
  refine ⟨(s.committed k).length + 1, m.body, h, rfl, ?_⟩
  rw [bodyAt, hm]
  rfl

theorem exists_firstPart (hlinked : s.disk.linked k = true)
    (hlt : (s.committed k).length < (s.pushed k).length) : ∃ i ≤ k, s.FirstPart i := by
  induction k using Nat.strong_induction_on with
  | _ k ih =>
    by_cases hfirst : ∀ j < k, s.disk.linked j = true →
        (s.pushed j).length ≤ (s.committed j).length
    · exact ⟨k, Nat.le_refl k, hlinked, hlt, hfirst⟩
    · push Not at hfirst
      obtain ⟨j, hj, hjl, hjlt⟩ := hfirst
      obtain ⟨i, hi, hpart⟩ := ih j hj hjl hjlt
      exact ⟨i, hi.trans hj.le, hpart⟩

theorem UpTo.committed_length (hup : s.UpTo k count) : (s.committed k).length = count := by
  rw [hup.here, List.length_map, List.length_take_of_le hup.count_le]

theorem UpTo.le_firstPart (hup : s.UpTo k count) (h : s.FirstPart i) : k ≤ i := by
  rcases Nat.lt_or_ge i k with hlt | hge
  · have hcommitted := congrArg List.length (hup.before i hlt h.1)
    rw [List.length_map] at hcommitted
    have := h.2.1
    omega
  · exact hge

theorem UpTo.lt_firstPart (hup : s.UpTo k count) (hend : count = s.counts k) (h : s.FirstPart i) :
    k < i := by
  rcases Nat.lt_or_eq_of_le (hup.le_firstPart h) with hlt | rfl
  · exact hlt
  · have hlt := h.2.1
    rw [hup.committed_length, hend] at hlt
    exact absurd hlt (Nat.lt_irrefl _)

theorem UpTo.firstUncommitted_iff (hup : s.UpTo k count) (hlinked : s.disk.linked k = true)
    (hlt : count < s.counts k) : s.FirstUncommitted i n body ↔
      i = k ∧ n = count + 1 ∧ bodyAt (s.pushed k) count = some body := by
  have hlength := hup.committed_length
  constructor
  · rintro ⟨hpart, hn, hbody⟩
    obtain rfl : i = k := by
      rcases Nat.lt_or_eq_of_le (hup.le_firstPart hpart) with hki | rfl
      · have hfull := hpart.2.2 k hki hlinked
        rw [hlength] at hfull
        exact absurd hlt (Nat.not_lt.mpr hfull)
      · rfl
    rw [hlength] at hn hbody
    exact ⟨rfl, hn, hbody⟩
  · rintro ⟨rfl, rfl, hbody⟩
    refine ⟨⟨hlinked, ?_, ?_⟩, ?_, ?_⟩
    · rw [hlength]
      exact hlt
    · intro j hj hjl
      rw [hup.before j hj hjl, List.length_map]
    · rw [hlength]
    · rw [hlength]
      exact hbody

theorem gapless_succ_iff (hlinked : s.disk.linked (k + 1) = true) :
    s.Gapless k ↔ s.Gapless (k + 1) := by
  constructor
  · intro h i hi j hj hji
    exact h i hi j (by omega) hji
  · intro h i hi j hj hji
    rcases Nat.lt_or_eq_of_le (Nat.succ_le_of_lt hj) with hlt | heq
    · exact h i hi j hlt hji
    · rw [← heq]
      exact hlinked

/-! ## What a consumer delivers -/

theorem UpTo.gapless (hup : s.UpTo k count) (hlinked : s.disk.linked k = true)
    (hlt : count < s.counts k) : s.Gapless k := by
  intro i hi j hj hji
  obtain ⟨n, body, hfirst⟩ := hi.exists_uncommitted
  obtain ⟨rfl, -, -⟩ := (hup.firstUncommitted_iff hlinked hlt).mp hfirst
  omega

theorem deliversFirst_of_header {d' : Disk} {c' : Consumer} {m : Message}
    (h : Stored crates name d' s.pushed s.counts newest) (hlinked : s.disk.linked k = true)
    (hup : s.UpTo k count) (hpop : c.popHeader crates name consumerName d = (true, d', c'))
    (hat : At s.pushed s.counts k count c') (htaken : HeaderTaken crates s.pushed k count m c') :
    s.DeliversFirst crates name consumerName d c := by
  obtain ⟨hlt, -⟩ := List.getElem?_eq_some_iff.mp htaken.next
  intro i n body
  rw [NextDelivered.iff_of_header h hpop hat htaken, hup.firstUncommitted_iff hlinked hlt]

/-- **The next message of a consumer** is the first one that is not committed, exactly when no part
in front of it is missing.

**Proof sketch.** Induction on the number of later parts. A part with more messages delivers the
next one. At the end of a part the next part is entered, and the consumer has committed everything
in front of it; when the next part does not exist, nothing is delivered any more. -/
theorem deliversFirst_iff (consumerName : List Char) (hnewest : s.disk.linked newest = true)
    (hunopened : ∀ i, newest < i → s.disk.linked i = false)
    (h : Stored crates name d s.pushed s.counts newest) (hdisk : d.linked = s.disk.linked)
    (hlinked : s.disk.linked k = true) (hk : k ≤ newest) (hup : s.UpTo k count)
    (hat : At s.pushed s.counts k count c) (hoffset : c.queue.offset = c.posRecord) :
    s.DeliversFirst crates name consumerName d c ↔ s.Gapless k := by
  induction hleft : newest - k generalizing d c k count with
  | zero =>
    obtain rfl : k = newest := by omega
    have hle : ∀ i, s.FirstPart i → i ≤ k := by
      intro i hi
      by_contra hgt
      have hlinked := hi.1
      rw [hunopened i (by omega)] at hlinked
      exact absurd hlinked (by decide)
    refine ⟨fun _ i hi j hj hji => absurd (hle i hi) (by omega), fun _ => ?_⟩
    rcases Nat.lt_or_eq_of_le hup.count_le with hlt | hend
    · obtain ⟨c', m, hpop, hat', htaken⟩ :=
        h.popHeader_next consumerName hat hoffset hlt
      exact deliversFirst_of_header h hlinked hup hpop hat' htaken
    · intro i n body
      refine iff_of_false (NextDelivered.not_of_end h hat hoffset hend) ?_
      rintro ⟨hpart, -⟩
      exact absurd (hle i hpart) (by have := hup.lt_firstPart hend hpart; omega)
  | succ left ih =>
    have hlt : k < newest := by omega
    rcases Nat.lt_or_eq_of_le hup.count_le with hmore | hend
    · obtain ⟨c', m, hpop, hat', htaken⟩ :=
        h.popHeader_next consumerName hat hoffset hmore
      exact iff_of_true (deliversFirst_of_header h hlinked hup hpop hat' htaken)
        (hup.gapless hlinked hmore)
    have hup' := hup.next_part hend
    cases hnext : s.disk.linked (k + 1) with
    | true =>
      have hstored : Stored crates name (d.entered name consumerName (k + 1)) s.pushed s.counts
          newest := { h with }
      rcases h.popHeader_enter consumerName hat hend hlt
          (by rw [hdisk]; exact hnext) with
        ⟨hmore, c', m, hpop, hat', htaken⟩ | ⟨-, c', hpop, hat', hoffset'⟩
      · refine iff_of_true (deliversFirst_of_header hstored hnext hup' hpop hat' htaken) ?_
        rw [gapless_succ_iff hnext]
        exact hup'.gapless hnext hmore
      · rw [gapless_succ_iff hnext, ← ih hstored hdisk hnext hlt hup' hat' hoffset' (by omega)]
        unfold DeliversFirst
        simp only [NextDelivered.iff_of_none hpop]
    | false =>
      have hne : newest ≠ k + 1 := by
        rintro rfl
        rw [hnewest] at hnext
        exact absurd hnext (by decide)
      obtain ⟨c', hpop, hstuck⟩ := h.popHeader_stuck consumerName hat hend hlt
        (by rw [hdisk]; exact hnext) hne
      have hnothing : ∀ i n body, ¬ NextDelivered crates name consumerName d c i n body := by
        intro i n body
        rw [NextDelivered.iff_of_none hpop]
        exact NextDelivered.not_of_stuck hstuck
      constructor
      · intro hfirst i hi
        obtain ⟨n, body, huncommitted⟩ := hi.exists_uncommitted
        exact absurd ((hfirst i n body).mpr huncommitted) (hnothing i n body)
      · intro hgapless i n body
        refine iff_of_false (hnothing i n body) ?_
        rintro ⟨hpart, -⟩
        have hgt := hup.lt_firstPart hend hpart
        have hlinked' : s.disk.linked (k + 1) = true := by
          rcases Nat.lt_or_eq_of_le (Nat.succ_le_of_lt hgt) with hlt' | heq
          · exact hgapless i hpart (k + 1) (Nat.lt_succ_self k) hlt'
          · rw [show k + 1 = i from heq]
            exact hpart.1
        rw [hnext] at hlinked'
        exact absurd hlinked' (by decide)

/-! ## Restart -/

theorem sameRecord_of_at (hat : At s.pushed s.counts k count c)
    (hoffset : c.queue.offset = c.posRecord) : s.SameRecord c where
  queueId := hat.queueId.trans hat.id.symm
  ffQueue := by rw [hat.ffQueue, hat.id]
  offset := hoffset
  count_le := by
    rw [hat.countPopped, hat.id]
    exact hat.count_le
  posRecord := by rw [hat.id, hat.countPopped, hat.posRecord]

theorem Inv.continuesRight_of_linked {id : ℕ} (hinv : s.Inv crates name consumerName newest)
    (hread : readPopInfo crates name consumerName s.disk.infoPop =
      some (lengthOf ((s.pushed id).take count), count, id))
    (hid : id ≤ newest) (hup : s.UpTo id count) (hlinked : s.disk.linked id = true) :
    s.ContinuesRight crates name consumerName ↔ s.Gapless id := by
  obtain ⟨c, hnew, hopened⟩ := hinv.stored.new_opens hread hinv.newest_linked rfl
  rw [hlinked, if_pos rfl] at hopened
  have hat := hopened.at rfl hup.count_le
  have hoffset := hopened.offset.trans hopened.posRecord.symm
  have hiff := deliversFirst_iff consumerName hinv.newest_linked
    (fun i hi => (hinv.unopened i hi).1) hinv.stored rfl hlinked hid hup hat hoffset
  rw [← hiff]
  constructor
  · rintro ⟨c', hnew', -, hfirst⟩
    rw [hnew] at hnew'
    cases hnew'
    exact hfirst
  · intro hfirst
    exact ⟨c, hnew, sameRecord_of_at hat hoffset, hfirst⟩

theorem nextDelivered_of_newest (h : Stored crates name d s.pushed s.counts newest)
    (hat : At s.pushed s.counts newest count c) (hoffset : c.queue.offset = c.posRecord)
    (hnext : NextDelivered crates name consumerName d c i n body) : i = newest ∧ n = count + 1 := by
  rcases Nat.lt_or_eq_of_le hat.count_le with hlt | hend
  · obtain ⟨c', m, hpop, hat', htaken⟩ :=
      h.popHeader_next consumerName hat hoffset hlt
    obtain ⟨hi, hn, -⟩ := (NextDelivered.iff_of_header h hpop hat' htaken).mp hnext
    exact ⟨hi, hn⟩
  · exact absurd hnext (NextDelivered.not_of_end h hat hoffset hend)

theorem Inv.continuesRight_of_unlinked {id : ℕ} (hinv : s.Inv crates name consumerName newest)
    (hread : readPopInfo crates name consumerName s.disk.infoPop =
      some (lengthOf ((s.pushed id).take count), count, id))
    (hid : id < newest) (hup : s.UpTo id count) (hunlinked : s.disk.linked id = false) :
    s.ContinuesRight crates name consumerName ↔
      count = 0 ∧ ∀ k, id < k → k < newest → s.disk.linked k = true → s.pushed k = [] := by
  obtain ⟨c, hnew, hopened⟩ := hinv.stored.new_opens hread hinv.newest_linked rfl
  rw [hunlinked, if_neg (by decide)] at hopened
  constructor
  · rintro ⟨c', hnew', hsame, hfirst⟩
    rw [hnew] at hnew'
    cases hnew'
    have hcount := hsame.count_le
    have hpos := hsame.posRecord
    rw [hopened.id, hopened.countPopped] at hcount hpos
    have hat := hopened.at (hopened.posRecord.symm.trans hpos) hcount
    -- what is not committed would be delivered, but only the newest part is read
    have hdelivered : ∀ k, id < k → s.disk.linked k = true → s.pushed k ≠ [] →
        newest ≤ k ∧ count = 0 := by
      intro k hk hlinked hne
      have hlt : (s.committed k).length < (s.pushed k).length := by
        rw [hup.behind k hk]
        exact List.length_pos_iff.mpr hne
      obtain ⟨i, hi, hpart⟩ := exists_firstPart hlinked hlt
      obtain ⟨n, body, hun⟩ := hpart.exists_uncommitted
      obtain ⟨rfl, hn⟩ := nextDelivered_of_newest hinv.stored hat
        (hopened.offset.trans hopened.posRecord.symm) ((hfirst i n body).mpr hun)
      refine ⟨hi, ?_⟩
      have hnumber := hun.2.1
      rw [hup.behind i hid] at hnumber
      simp only [List.length_nil] at hnumber
      omega
    constructor
    · by_contra hne
      have hpushed : s.pushed newest ≠ [] := by
        intro hempty
        rw [hempty] at hcount
        exact hne (Nat.le_zero.mp hcount)
      exact hne (hdelivered newest hid hinv.newest_linked hpushed).2
    · intro k hk hkn hlinked
      by_contra hne
      exact absurd (hdelivered k hk hlinked hne).1 (Nat.not_le.mpr hkn)
  · rintro ⟨rfl, hempty⟩
    have hup' := hup.to_newest hunlinked hid hempty
    have hat := hopened.at rfl (Nat.zero_le _)
    have hoffset := hopened.offset.trans hopened.posRecord.symm
    have hiff := deliversFirst_iff consumerName hinv.newest_linked
      (fun i hi => (hinv.unopened i hi).1) hinv.stored rfl hinv.newest_linked (Nat.le_refl _) hup'
      hat hoffset
    refine ⟨c, hnew, sameRecord_of_at hat hoffset, hiff.mpr ?_⟩
    intro i hi j hj hji
    have hlinked := hi.1
    rw [(hinv.unopened i (hj.trans hji)).1] at hlinked
    exact absurd hlinked (by decide)

theorem Inv.continues_iff (hinv : s.Inv crates name consumerName newest) :
    s.ContinuesRight crates name consumerName ↔ s.RestartsWell crates name consumerName := by
  obtain ⟨id, count, hid, hup, hread⟩ := hinv.saved
  have hwell : s.RestartsWell crates name consumerName ↔
      (s.disk.linked id = true ∧ s.Gapless id) ∨ (s.disk.linked id = false ∧ count = 0 ∧
        ∀ k, id < k → k < newest → s.disk.linked k = true → s.pushed k = []) := by
    constructor
    · rintro ⟨pos, count', id', newest', hread', hqueue, hcases⟩
      rw [hread] at hread'
      cases hread'
      rw [hinv.stored.queueInfo] at hqueue
      cases hqueue
      exact hcases
    · intro hcases
      exact ⟨_, count, id, newest, hread, hinv.stored.queueInfo, hcases⟩
  rw [hwell]
  cases hlinked : s.disk.linked id with
  | true =>
    rw [hinv.continuesRight_of_linked hread hid hup hlinked]
    simp
  | false =>
    have hlt : id < newest := by
      rcases Nat.lt_or_eq_of_le hid with hlt | rfl
      · exact hlt
      · rw [hinv.newest_linked] at hlinked
        exact absurd hlinked (by decide)
    rw [hinv.continuesRight_of_unlinked hread hlt hup hlinked]
    simp

/-- **Restart.** In every state of a run in which numbers do not overflow, the newest part stays
and consumers were started again only where they went on, a new consumer goes on where the old one
stopped exactly when its part exists and no part is missing in front of the next message, or
nothing of its part was popped and the newest part is the only later one with messages. -/
theorem continuesRight_iff (crates : Crates) (hname : PlainName name)
    (hconsumer : PlainName consumerName) (h : Reached crates name consumerName s) :
    s.ContinuesRight crates name consumerName ↔ s.RestartsWell crates name consumerName := by
  obtain ⟨newest, hinv⟩ := h.inv hname hconsumer
  exact hinv.continues_iff

theorem allowed_push {m : Message}
    (h : (s.producer.all fun q => decide (q.countPushed + 1 < 2 ^ 32 ∧
      q.rightEdge + headerSize + m.body.length < 2 ^ 64)) = true) :
    s.Allowed crates name consumerName (.push m) := by
  intro q hq
  rw [hq] at h
  exact of_decide_eq_true h

theorem gapless_of_first (hinv : s.Inv crates name consumerName 0) : s.Gapless 0 := by
  intro i hi j hj hji
  have hlinked := hi.1
  rw [(hinv.unopened i (hj.trans hji)).1] at hlinked
  exact absurd hlinked (by decide)

/-- Two messages are pushed to the first part, and one of them is popped. -/
def popped : System :=
  [Op.openConsumer, .push ⟨.string, [1]⟩, .push ⟨.string, [2]⟩, .popHeader, .popBody, .next].foldl
    (step lineCrates ['q'] ['c']) (start lineCrates ['q'])

/-- Then the producer is started again and pushes a message, and the first part is removed. -/
def partLost : System :=
  [Op.openQueue, .push ⟨.string, [3]⟩, .remove 0].foldl (step lineCrates ['q'] ['c']) popped

theorem plain_names : PlainName ['q'] ∧ PlainName ['c'] := by decide +kernel

theorem reached_openConsumer : Reached lineCrates ['q'] ['c']
    ((start lineCrates ['q']).step lineCrates ['q'] ['c'] .openConsumer) := by
  have hstart := inv_start lineCrates ['q'] ['c'] plain_names.1
  exact Reached.start.step .openConsumer ⟨0, 0, 0, 0, rfl, hstart.stored.queueInfo,
    .inl ⟨hstart.newest_linked, gapless_of_first hstart⟩⟩

theorem allowed_openQueue {s : System} (id : ℕ)
    (hread : readQueueInfo lineCrates ['q'] (s.disk.infoQueue.getD []) = some id)
    (hid : id + 1 < 2 ^ 32) : s.Allowed lineCrates ['q'] ['c'] .openQueue := by
  intro newest hnewest
  rw [hread] at hnewest
  cases hnewest
  exact hid

theorem reached_popped : Reached lineCrates ['q'] ['c'] popped := by
  have h₂ := reached_openConsumer.step (.push ⟨.string, [1]⟩) (allowed_push (by decide +kernel))
  have h₃ := h₂.step (.push ⟨.string, [2]⟩) (allowed_push (by decide +kernel))
  have h₄ := h₃.step .popHeader trivial
  have h₅ := h₄.step .popBody trivial
  have h₆ := h₅.step .next trivial
  simpa only [popped, List.foldl_cons, List.foldl_nil] using h₆

theorem reached_partLost : Reached lineCrates ['q'] ['c'] partLost := by
  have h₁ := reached_popped.step .openQueue (allowed_openQueue 0 (by decide +kernel) (by decide))
  have h₂ := h₁.step (.push ⟨.string, [3]⟩) (allowed_push (by decide +kernel))
  have h₃ := h₂.step (.remove 0) (by
    show readQueueInfo lineCrates ['q'] _ ≠ some 0
    decide +kernel)
  simpa only [partLost, List.foldl_cons, List.foldl_nil] using h₃

/-- The second message of a part that exists is delivered behind the first one. -/
theorem continuesRight_popped : ContinuesRight lineCrates ['q'] ['c'] popped := by
  have hqueue : readQueueInfo lineCrates ['q'] (popped.disk.infoQueue.getD []) = some 0 := by
    decide +kernel
  obtain ⟨newest, hinv⟩ := reached_popped.inv plain_names.1 plain_names.2
  obtain rfl : newest = 0 := by
    rw [hinv.stored.queueInfo] at hqueue
    exact Option.some.inj hqueue
  exact (continuesRight_iff lineCrates plain_names.1 plain_names.2 reached_popped).mpr
    ⟨26, 1, 0, 0, by decide +kernel, hqueue, .inl ⟨hinv.newest_linked, gapless_of_first hinv⟩⟩

/-- **The part was removed behind its first message**: the newest part is opened at the position
behind its own first message, which was never delivered. -/
theorem not_continuesRight_partLost : Reached lineCrates ['q'] ['c'] partLost ∧
    ¬ ContinuesRight lineCrates ['q'] ['c'] partLost := by
  refine ⟨reached_partLost, ?_⟩
  obtain ⟨newest, hinv⟩ := reached_partLost.inv plain_names.1 plain_names.2
  rw [hinv.continues_iff]
  rintro ⟨pos, count, id, newest, hread, -, hcases⟩
  rw [show readPopInfo lineCrates ['q'] ['c'] partLost.disk.infoPop = some (26, 1, 0) by
    decide +kernel] at hread
  cases hread
  rcases hcases with ⟨hlinked, -⟩ | ⟨-, hcount, -⟩
  · rw [show partLost.disk.linked 0 = false by decide +kernel] at hlinked
    exact absurd hlinked (by decide)
  · exact absurd hcount (by decide)

end System

end Veda.VQueue
