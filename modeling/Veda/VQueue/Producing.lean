import Veda.VQueue.Writing

set_option autoImplicit false

/-!
# A queue and its producer

What is true of the files of a queue while one producer at a time pushes messages to the newest part
or is started again with a new part, and what of it a consumer notices: messages are appended to the
newest part or to later ones, and nothing else changes.

## Main definitions

* `VQueue.Producing` — the files and the producer between two operations.
* `VQueue.Grown` — messages are appended to the newest part or to later ones.

## Main results

* `VQueue.Producing.openQueue`, `VQueue.Producing.push` — the operations of a producer.
* `VQueue.Grown.stands`, `VQueue.Grown.headerTaken` — a consumer is where it was.
-/

namespace Veda.VQueue

/-- The numbers of the messages of the parts. -/
def lengths (pushed : ℕ → List Message) (k : ℕ) : ℕ := (pushed k).length

/-! ## Appended messages -/

/-- Messages are appended to the newest part or to later ones. -/
structure Grown (pushed : ℕ → List Message) (newest : ℕ) (pushed' : ℕ → List Message)
    (newest' : ℕ) : Prop where
  newest_le : newest ≤ newest'
  extend : ∀ k, ∃ ms, pushed' k = pushed k ++ ms
  older : ∀ k < newest, pushed' k = pushed k

namespace Grown

variable {crates : Crates} {pushed pushed' : ℕ → List Message} {newest newest' k count n : ℕ}
  {c : Consumer} {m : Message}

theorem refl (pushed : ℕ → List Message) (newest : ℕ) : Grown pushed newest pushed newest where
  newest_le := Nat.le_refl _
  extend := fun _ => ⟨[], (List.append_nil _).symm⟩
  older := fun _ _ => rfl

theorem succ (pushed : ℕ → List Message) (newest : ℕ) :
    Grown pushed newest pushed (newest + 1) where
  newest_le := Nat.le_succ _
  extend := fun _ => ⟨[], (List.append_nil _).symm⟩
  older := fun _ _ => rfl

theorem message (pushed : ℕ → List Message) (newest : ℕ) (m : Message) :
    Grown pushed newest (addMessage pushed newest m) newest where
  newest_le := Nat.le_refl _
  extend := by
    intro k
    by_cases hk : k = newest
    · subst hk
      exact ⟨[m], addMessage_self ..⟩
    · refine ⟨[], ?_⟩
      rw [List.append_nil]
      exact addMessage_of_ne _ _ hk
  older := fun _ hk => addMessage_of_ne _ _ hk.ne

theorem take_eq (h : Grown pushed newest pushed' newest') (hn : n ≤ (pushed k).length) :
    (pushed' k).take n = (pushed k).take n := by
  obtain ⟨ms, hms⟩ := h.extend k
  rw [hms, List.take_append_of_le_length hn]

theorem lengths_le (h : Grown pushed newest pushed' newest') (k : ℕ) :
    lengths pushed k ≤ lengths pushed' k := by
  obtain ⟨ms, hms⟩ := h.extend k
  rw [lengths, lengths, hms, List.length_append]
  exact Nat.le_add_right _ _

theorem getElem? (h : Grown pushed newest pushed' newest') (hm : (pushed k)[count]? = some m) :
    (pushed' k)[count]? = some m := by
  obtain ⟨ms, hms⟩ := h.extend k
  obtain ⟨hlt, -⟩ := List.getElem?_eq_some_iff.mp hm
  rw [hms, List.getElem?_append_left hlt, hm]

theorem stands (h : Grown pushed newest pushed' newest')
    (hat : Stands pushed (lengths pushed) k count c) :
    Stands pushed' (lengths pushed') k count c :=
  { hat with
    posRecord := by rw [h.take_eq hat.count_le, hat.posRecord]
    count_le := hat.count_le.trans (h.lengths_le k)
    known_le := hat.known_le.trans (h.lengths_le k)
    rightEdge := by rw [h.take_eq hat.known_le, hat.rightEdge] }

theorem headerTaken (h : Grown pushed newest pushed' newest') (hcount : count ≤ (pushed k).length)
    (htaken : HeaderTaken crates pushed k count m c) :
    HeaderTaken crates pushed' k count m c where
  next := h.getElem? htaken.next
  offset := by rw [h.take_eq hcount, htaken.offset]
  hash := by rw [h.take_eq hcount, htaken.hash]
  header := by rw [h.take_eq hcount, htaken.header]

end Grown

/-! ## The producer -/

/-- What is true of the files and of the producer between two operations. -/
structure Producing (crates : Crates) (name : List Char) (d : Disk) (producer : Option Queue)
    (pushed : ℕ → List Message) (newest : ℕ) : Prop where
  stored : Stored crates name d pushed (lengths pushed) newest
  newest_linked : d.linked newest = true
  unopened : ∀ k, newest < k → d.linked k = false ∧ pushed k = [] ∧ (d.parts k).data = []
  writer : ∀ q, producer = some q → Writer crates d pushed newest q

namespace Producing

variable {crates : Crates} {name : List Char} {d : Disk} {producer : Option Queue}
  {pushed : ℕ → List Message} {newest : ℕ} {m : Message}

/-- **The first part** is opened. -/
theorem start (crates : Crates) (hname : PlainName name) :
    Queue.newReadWrite crates name .empty .full .full =
        (.ok ⟨.readWrite, true, .part 0, 0, .part 0, 0, 0, 0⟩, partOpened crates name .empty 0) ∧
      Producing crates name (partOpened crates name .empty 0)
        (some ⟨.readWrite, true, .part 0, 0, .part 0, 0, 0, 0⟩) (fun _ => []) 0 := by
  refine ⟨newReadWrite_eq hname .empty rfl rfl, ?_⟩
  exact {
    stored := (stored_empty crates hname).partOpened hname rfl (by decide) rfl
    newest_linked := rfl
    unopened := by
      intro k hk
      exact ⟨Function.update_of_ne hk.ne' .., rfl, Disk.data_setText .empty _ 0 k⟩
    writer := by
      rintro q ⟨⟩
      exact writer_opened rfl rfl }

/-- **A new part** is opened. -/
theorem openQueue (h : Producing crates name d producer pushed newest) (hname : PlainName name)
    (hnewest : newest + 1 < 2 ^ 32) :
    ∃ q, Queue.newReadWrite crates name d .full .full =
        (.ok q, partOpened crates name d (newest + 1)) ∧
      Producing crates name (partOpened crates name d (newest + 1)) (some q) pushed (newest + 1) ∧
      ∀ k, k ≠ newest + 1 →
        (partOpened crates name d (newest + 1)).linked k = d.linked k := by
  have hfresh := h.unopened (newest + 1) (Nat.lt_succ_self newest)
  have hcount : lengths pushed (newest + 1) = 0 := by
    rw [lengths, hfresh.2.1]
    rfl
  have hnext : nextPart crates name d = newest + 1 := by
    rw [nextPart, h.stored.queueInfo]
    exact Nat.mod_eq_of_lt hnewest
  have hempty : readPushInfo crates name (d.parts (newest + 1)).infoPush = some (0, 0) := by
    rw [h.stored.pushInfo, hcount]
    rfl
  have hlinked : ∀ k, k ≠ newest + 1 →
      (partOpened crates name d (newest + 1)).linked k = d.linked k := fun k hk =>
    Function.update_of_ne hk ..
  refine ⟨_, newReadWrite_eq hname d hnext hempty, ?_, hlinked⟩
  exact {
    stored := h.stored.partOpened hname rfl hnewest hcount
    newest_linked := Function.update_self ..
    unopened := by
      intro k hk
      obtain ⟨hunlinked, hpushed, hdata⟩ := h.unopened k (by omega)
      rw [hlinked k (by omega)]
      exact ⟨hunlinked, hpushed, (Disk.data_setText d _ _ k).trans hdata⟩
    writer := by
      rintro q ⟨⟩
      exact writer_opened hfresh.2.1 hfresh.2.2 }

/-- **A message** is pushed, or it is too long. -/
theorem push {q : Queue} (h : Producing crates name d (some q) pushed newest)
    (hname : PlainName name) (hcount : q.countPushed + 1 < 2 ^ 32)
    (hlength : q.rightEdge + headerSize + m.body.length < 2 ^ 64) :
    q.push crates name d m ⟨.full, .full, .full⟩ = (.error .notReady, d, q) ∨
      ∃ d' q', q.push crates name d m ⟨.full, .full, .full⟩ = (.ok q'.rightEdge, d', q') ∧
        q.id = newest ∧
        Producing crates name d' (some q') (addMessage pushed newest m) newest ∧
        d'.linked = d.linked ∧ d'.infoPop = d.infoPop ∧
        ∀ k, k ≠ newest → d'.parts k = d.parts k := by
  have hwriter := h.writer q rfl
  rcases Nat.lt_or_ge (2 ^ 31 - 1) m.body.length with hlong | hbody
  · left
    rw [Queue.push, Queue.pushRecord, if_pos (.inr (.inr hlong))]
  · right
    rw [hwriter.countPushed] at hcount
    rw [hwriter.rightEdge] at hlength
    obtain ⟨d', q', hpush, hstored, hwriter', hlinked, hpop, hparts⟩ :=
      hwriter.push_complete (w := ⟨.full, .full, .full⟩) h.stored hbody hcount hlength
        (Write.complete_full _) (Write.complete_full _) (by decide)
        (Writer.read_nextLine hname (pushed newest) m hcount hlength _)
    have hlengths : Function.update (lengths pushed) newest ((pushed newest).length + 1) =
        lengths (addMessage pushed newest m) := by
      funext k
      by_cases hk : k = newest
      · subst hk
        rw [Function.update_self, lengths, addMessage_self, List.length_append]
        rfl
      · rw [Function.update_of_ne hk, lengths, lengths, addMessage_of_ne _ _ hk]
    rw [hlengths] at hstored
    refine ⟨d', q', hpush, hwriter.id, ?_, hlinked, hpop, hparts⟩
    exact {
      stored := hstored
      newest_linked := by
        rw [hlinked]
        exact h.newest_linked
      unopened := by
        intro k hk
        rw [hlinked, addMessage_of_ne _ _ hk.ne', hparts k hk.ne']
        exact h.unopened k hk
      writer := by
        rintro q ⟨⟩
        exact hwriter' }

theorem withPop (h : Producing crates name d producer pushed newest) (infoPop : List Char) :
    Producing crates name { d with infoPop } producer pushed newest where
  stored := { h.stored with }
  newest_linked := h.newest_linked
  unopened := h.unopened
  writer := fun q hq => { h.writer q hq with }

end Producing

end Veda.VQueue
