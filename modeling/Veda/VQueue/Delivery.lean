import Mathlib.Algebra.BigOperators.Group.Finset.Basic
import Mathlib.Algebra.Order.BigOperators.Group.Finset
import Veda.VQueue.Restart

set_option autoImplicit false

/-!
# What a consumer delivers

As long as no part is removed, messages are delivered once and in order: in every run the bodies
that were committed, over all parts and all consumers, are the first of the bodies that were pushed.
A consumer that is started gets to the end when the producer pauses.

## Main definitions

* `VQueue.System.Undisturbed` — the states of the runs in which no part is removed.
* `VQueue.System.round` — `pop_header`, `pop_body` and `next(true)`.

## Main results

* `VQueue.System.committed_prefix` — what was committed comes first.
* `VQueue.System.getsToEnd` — a consumer gets to the end.
-/

namespace Veda.VQueue

theorem flatMap_range_prefix {α : Type} {f g : ℕ → List α} {k : ℕ} (hbefore : ∀ i < k, f i = g i)
    (hhere : f k <+: g k) (hbehind : ∀ i, k < i → f i = []) (n : ℕ) :
    (List.range n).flatMap f <+: (List.range n).flatMap g := by
  have hsame : ∀ n ≤ k, (List.range n).flatMap f = (List.range n).flatMap g := fun n hn =>
    List.flatMap_congr fun i hi => hbefore i ((List.mem_range.mp hi).trans_le hn)
  induction n with
  | zero => exact List.prefix_rfl
  | succ n ih =>
    simp only [List.range_succ, List.flatMap_append, List.flatMap_singleton]
    rcases Nat.lt_trichotomy n k with hlt | rfl | hgt
    · rw [hsame n hlt.le, hbefore n hlt]
    · rw [hsame n le_rfl]
      exact (List.prefix_append_right_inj _).mpr hhere
    · rw [hbehind n hgt, List.append_nil]
      exact ih.trans (List.prefix_append _ _)

theorem linked_popHeader (crates : Crates) (name consumerName : List Char) (c : Consumer)
    (d : Disk) : (c.popHeader crates name consumerName d).2.1.linked = d.linked := by
  have henter : ∀ c : Consumer, (c.enterPart crates name consumerName d).1.linked = d.linked := by
    intro c
    unfold Consumer.enterPart Consumer.openInfoPop
    dsimp only
    split_ifs <;> rfl
  have hadvance : ∀ c : Consumer, (c.advance crates name consumerName d).2.1.linked = d.linked := by
    intro c
    unfold Consumer.advance
    dsimp only
    split_ifs
    · split
      · rfl
      · exact henter _
    · rfl
  have hprepare : (c.prepare crates name consumerName d).2.1.linked = d.linked := by
    unfold Consumer.prepare
    split
    · rfl
    · split_ifs
      · exact hadvance _
      · rfl
  rw [← hprepare]
  unfold Consumer.popHeader Consumer.readHeader
  generalize c.prepare crates name consumerName d = result
  obtain ⟨ok, d', c'⟩ := result
  cases ok with
  | false => rfl
  | true =>
    dsimp only
    cases (c'.takeHeader d').1 <;> rfl

namespace System

variable {crates : Crates} {name consumerName : List Char} {s : System} {newest k count i n : ℕ}
  {c : Consumer} {d : Disk} {body : List UInt8}

/-! ## Runs in which no part is removed -/

/-- No part is removed, and numbers do not overflow. -/
def Undisturbs (crates : Crates) (name consumerName : List Char) (s : System) : Op → Prop
  | .remove _ => False
  | .openConsumer => True
  | op => s.Allowed crates name consumerName op

/-- A state of a run in which no part is removed; consumers are started at any time. -/
inductive Undisturbed (crates : Crates) (name consumerName : List Char) : System → Prop
  | start : Undisturbed crates name consumerName (start crates name)
  | step {s : System} (op : Op) : Undisturbed crates name consumerName s →
      s.Undisturbs crates name consumerName op →
      Undisturbed crates name consumerName (s.step crates name consumerName op)

/-- The invariant, with all parts. -/
structure Whole (crates : Crates) (name consumerName : List Char) (s : System) (newest : ℕ) :
    Prop extends s.Inv crates name consumerName newest where
  linked : ∀ k ≤ newest, s.disk.linked k = true

theorem Whole.restartsWell (h : s.Whole crates name consumerName newest) :
    s.RestartsWell crates name consumerName := by
  obtain ⟨k, count, hk, -, hread⟩ := h.saved
  refine ⟨_, _, k, newest, hread, h.stored.queueInfo, .inl ⟨h.linked k hk, ?_⟩⟩
  intro i hi j _ hji
  refine h.linked j (hji.le.trans ?_)
  by_contra hgt
  have hlinked := (h.unopened i (Nat.not_le.mp hgt)).1
  rw [hi.1] at hlinked
  cases hlinked

theorem linked_popHeader_step (s : System) :
    (s.popHeader crates name consumerName).disk.linked = s.disk.linked := by
  unfold System.popHeader
  split
  · rename_i c _ _
    rw [← linked_popHeader crates name consumerName c s.disk]
    rcases c.popHeader crates name consumerName s.disk with ⟨_ | _, d, c'⟩ <;> rfl
  · rfl

theorem linked_next (s : System) : (s.next name consumerName).disk.linked = s.disk.linked := by
  unfold System.next Consumer.next
  split
  · split_ifs <;> rfl
  · rfl

theorem Whole.popHeader (hname : PlainName name) (hconsumer : PlainName consumerName)
    (h : s.Whole crates name consumerName newest) :
    (s.popHeader crates name consumerName).Whole crates name consumerName newest where
  toInv := h.toInv.popHeader hname hconsumer
  linked k hk := by
    rw [linked_popHeader_step]
    exact h.linked k hk

theorem Whole.popBody (h : s.Whole crates name consumerName newest) :
    (s.popBody crates).Whole crates name consumerName newest where
  toInv := h.toInv.popBody
  linked k hk := by
    rw [← h.linked k hk]
    unfold System.popBody
    split
    · split <;> rfl
    · rfl

theorem Whole.next (hname : PlainName name) (hconsumer : PlainName consumerName)
    (h : s.Whole crates name consumerName newest) :
    (s.next name consumerName).Whole crates name consumerName newest where
  toInv := h.toInv.next hname hconsumer
  linked k hk := by
    rw [linked_next]
    exact h.linked k hk

theorem Whole.openConsumer (h : s.Whole crates name consumerName newest) :
    (s.openConsumer crates name consumerName).Whole crates name consumerName newest where
  toInv := h.toInv.openConsumer h.restartsWell
  linked k hk := by
    rw [← h.linked k hk, System.openConsumer]
    split <;> rfl

theorem Whole.openQueue (hname : PlainName name) (h : s.Whole crates name consumerName newest)
    (hnewest : newest + 1 < 2 ^ 32) :
    (s.openQueue crates name).Whole crates name consumerName (newest + 1) where
  toInv := h.toInv.openQueue hname hnewest
  linked k hk := by
    obtain ⟨q, hopen, -, hlinked⟩ := h.toInv.producing.openQueue hname hnewest
    rcases Nat.lt_or_eq_of_le hk with hlt | rfl
    · rw [System.openQueue, hopen]
      exact (hlinked k (by omega)).trans (h.linked k (Nat.le_of_lt_succ hlt))
    · exact (h.toInv.openQueue hname hnewest).newest_linked

theorem Whole.push (hname : PlainName name) {m : Message}
    (h : s.Whole crates name consumerName newest)
    (hallowed : s.Allowed crates name consumerName (.push m)) :
    (s.push crates name m).Whole crates name consumerName newest where
  toInv := h.toInv.push hname hallowed
  linked k hk := by
    rw [← h.linked k hk, System.push]
    cases hproducer : s.producer with
    | none => rfl
    | some q =>
      obtain ⟨hcount, hlength⟩ := hallowed q hproducer
      have hproducing := h.toInv.producing
      rw [hproducer] at hproducing
      rcases hproducing.push hname hcount hlength with hpush | ⟨d', q', hpush, -, -, hlinked, -⟩
      · simp only [hpush]
      · simp only [hpush, hlinked]

theorem Whole.pushed_push (hname : PlainName name) {m : Message} {q : Queue}
    (h : s.Whole crates name consumerName newest)
    (hallowed : s.Allowed crates name consumerName (.push m)) (hproducer : s.producer = some q)
    (hbody : m.body.length ≤ 2 ^ 31 - 1) :
    ∃ q', (s.push crates name m).producer = some q' ∧
      (s.push crates name m).pushed = addMessage s.pushed newest m := by
  obtain ⟨hcount, hlength⟩ := hallowed q hproducer
  have hproducing := h.toInv.producing
  rw [hproducer] at hproducing
  rcases hproducing.push hname hcount hlength with hrefused | ⟨d', q', hpush, hid, -⟩
  · -- a refusal is not the answer that a message of this length gets
    have hwriter := h.writer q hproducer
    rw [hwriter.countPushed] at hcount
    rw [hwriter.rightEdge] at hlength
    obtain ⟨d', q', hpush, -⟩ :=
      hwriter.push_complete (w := ⟨.full, .full, .full⟩) h.stored hbody hcount hlength
        (Write.complete_full _) (Write.complete_full _) (by decide)
        (Writer.read_nextLine hname (s.pushed newest) m hcount hlength _)
    rw [hrefused] at hpush
    cases (Prod.mk.inj hpush).1
  · rw [System.push, hproducer]
    dsimp only
    rw [hpush, hid]
    exact ⟨q', rfl, rfl⟩

/-- **A step** in which no part is removed. -/
theorem Whole.step (hname : PlainName name) (hconsumer : PlainName consumerName) {op : Op}
    (h : s.Whole crates name consumerName newest) (hop : s.Undisturbs crates name consumerName op) :
    ∃ newest', (s.step crates name consumerName op).Whole crates name consumerName newest' := by
  cases op with
  | openQueue => exact ⟨newest + 1, h.openQueue hname (hop newest h.stored.queueInfo)⟩
  | push m => exact ⟨newest, h.push hname hop⟩
  | remove k => exact hop.elim
  | openConsumer => exact ⟨newest, h.openConsumer⟩
  | popHeader => exact ⟨newest, h.popHeader hname hconsumer⟩
  | popBody => exact ⟨newest, h.popBody⟩
  | next => exact ⟨newest, h.next hname hconsumer⟩

theorem Whole.start (hname : PlainName name) :
    (start crates name).Whole crates name consumerName 0 where
  toInv := inv_start crates name consumerName hname
  linked k hk := by
    rw [Nat.le_zero.mp hk]
    exact (inv_start crates name consumerName hname).newest_linked

theorem Undisturbed.whole (hname : PlainName name) (hconsumer : PlainName consumerName)
    (h : Undisturbed crates name consumerName s) : ∃ newest, s.Whole crates name consumerName newest := by
  induction h with
  | start => exact ⟨0, .start hname⟩
  | step op _ hop ih =>
    obtain ⟨newest, hwhole⟩ := ih
    exact hwhole.step hname hconsumer hop

/-- The bodies that were pushed to a part. -/
def bodies (s : System) (k : ℕ) : List (List UInt8) := (s.pushed k).map Message.body

theorem Whole.flatMap_prefix (h : s.Whole crates name consumerName newest) (n : ℕ) :
    (List.range n).flatMap s.committed <+: (List.range n).flatMap s.bodies := by
  obtain ⟨k, count, hk, hup, -⟩ := h.saved
  refine flatMap_range_prefix (k := k) (fun i hi => ?_) ?_ hup.behind n
  · exact hup.before i hi (h.linked i (hi.le.trans hk))
  · rw [hup.here]
    exact (List.take_prefix count _).map _

theorem Whole.bodies_unopened (h : s.Whole crates name consumerName newest) (k : ℕ)
    (hk : newest + 1 ≤ k) : s.bodies k = [] := by
  rw [bodies, (h.unopened k hk).2.1, List.map_nil]

/-- **Messages are delivered once and in order**: the bodies that were committed, part by part, are
the first ones of those that were pushed. -/
theorem committed_prefix (hname : PlainName name) (hconsumer : PlainName consumerName)
    (h : Undisturbed crates name consumerName s) (n : ℕ) :
    (List.range n).flatMap s.committed <+: (List.range n).flatMap s.bodies := by
  obtain ⟨newest, hwhole⟩ := h.whole hname hconsumer
  exact hwhole.flatMap_prefix n

/-! ## Getting to the end -/

/-- The consumer takes a message, if there is one. -/
def round (crates : Crates) (name consumerName : List Char) (s : System) : System :=
  ((s.popHeader crates name consumerName).popBody crates).next name consumerName

/-- **The next message** is committed after some rounds.

**Proof sketch.** Induction on the calls of `pop_header` that give no header: the rounds of these
change nothing but the place of the consumer. -/
theorem exists_rounds (hname : PlainName name) (hconsumer : PlainName consumerName)
    (hnext : NextDelivered crates name consumerName d c i n body)
    (h : s.Whole crates name consumerName newest) (hdisk : s.disk = d)
    (hc : s.consumer = some c) (hidle : s.phase = .idle) :
    ∃ m c', ((round crates name consumerName)^[m] s).Whole crates name consumerName newest ∧
      ((round crates name consumerName)^[m] s).consumer = some c' ∧
      ((round crates name consumerName)^[m] s).phase = .idle ∧
      ((round crates name consumerName)^[m] s).pushed = s.pushed ∧
      ((round crates name consumerName)^[m] s).committed =
        Function.update s.committed i (s.committed i ++ [body]) := by
  induction hnext generalizing s with
  | @later d d' c c' i n body hpop _ ih =>
    have hpopped : s.popHeader crates name consumerName =
        { s with disk := d', consumer := some c', phase := .idle } := by
      rw [System.popHeader, hc, hidle]
      simp only [hdisk, hpop]
    have hwhole := h.popHeader hname hconsumer
    rw [hpopped] at hwhole
    obtain ⟨m, c'', hrest⟩ := ih hwhole rfl rfl rfl
    refine ⟨m + 1, c'', ?_⟩
    rw [Function.iterate_succ_apply, round, hpopped]
    exact hrest
  | @here d d' c c' c'' k body hpop hfile hbody =>
    have hpopped : s.popHeader crates name consumerName =
        { s with disk := d', consumer := some c', phase := .header } := by
      rw [System.popHeader, hc, hidle]
      simp only [hdisk, hpop]
    have hwhole := h.popHeader hname hconsumer
    rw [hpopped] at hwhole
    have hreads := hwhole.reads c' rfl
    cases hreads with
    | @header k' count m hk hup hat htaken =>
      rw [hat.ffQueue] at hfile
      obtain rfl := Handle.part.inj hfile
      have hread := hwhole.stored.popBody_next hat.isReady hat.ffQueue hat.posRecord htaken
      rw [hread] at hbody
      have hready : c''.isReady = true := by
        rw [← (Prod.mk.inj hbody).2]
        exact hat.isReady
      have hid : c''.id = k' := by
        rw [← (Prod.mk.inj hbody).2]
        exact hat.id
      obtain rfl := Except.ok.inj (Prod.mk.inj hbody).1
      have htaken : (s.popHeader crates name consumerName).popBody crates =
          { s with disk := d', consumer := some c'', phase := .body m.body } := by
        rw [hpopped, System.popBody]
        simp only [hread, hbody]
      have hwhole' := ((h.popHeader hname hconsumer).popBody).next hname hconsumer
      rw [htaken] at hwhole'
      refine ⟨1, { c'' with countPopped := addU32 c''.countPopped 1 }, ?_⟩
      rw [Function.iterate_one, round, htaken]
      refine ⟨hwhole', ?_⟩
      rw [System.next]
      simp only [Stored.next_of_ready name consumerName d' hready, hid]
      exact ⟨trivial, trivial, trivial, trivial⟩

theorem Whole.prefix_bodies (h : s.Whole crates name consumerName newest) (k : ℕ) :
    s.committed k <+: s.bodies k := by
  obtain ⟨i, count, hi, hup, -⟩ := h.saved
  rcases Nat.lt_trichotomy k i with hlt | rfl | hgt
  · rw [hup.before k hlt (h.linked k (hlt.le.trans hi))]
    exact List.prefix_rfl
  · rw [hup.here]
    exact (List.take_prefix count _).map _
  · rw [hup.behind k hgt]
    exact List.nil_prefix

theorem Whole.committed_eq (h : s.Whole crates name consumerName newest)
    (hnone : ∀ k, ¬ s.FirstPart k) (k : ℕ) : s.committed k = s.bodies k := by
  refine (h.prefix_bodies k).eq_of_length_le ?_
  rw [bodies, List.length_map]
  by_contra hlt
  rcases Nat.lt_or_ge newest k with hgt | hle
  · rw [(h.unopened k hgt).2.1] at hlt
    exact hlt (Nat.zero_le _)
  · obtain ⟨i, -, hi⟩ := exists_firstPart (h.linked k hle) (Nat.not_le.mp hlt)
    exact hnone i hi

/-- The messages that are not committed. -/
def left (s : System) (newest : ℕ) : ℕ :=
  ∑ k ∈ Finset.range (newest + 1), ((s.pushed k).length - (s.committed k).length)

/-- **The rounds of a consumer** get to the end. -/
theorem Whole.exists_rounds_all (hname : PlainName name) (hconsumer : PlainName consumerName)
    (h : s.Whole crates name consumerName newest) (hc : s.consumer = some c)
    (hidle : s.phase = .idle) :
    ∃ m, ∀ k, ((round crates name consumerName)^[m] s).committed k = s.bodies k := by
  induction hleft : s.left newest using Nat.strong_induction_on generalizing s c with
  | _ left ih =>
    by_cases hfirst : ∃ k, s.FirstPart k
    · obtain ⟨i, hpart⟩ := hfirst
      obtain ⟨n, body, huncommitted⟩ := hpart.exists_uncommitted
      have hi : i ≤ newest := by
        by_contra hgt
        have hlinked := (h.unopened i (Nat.not_le.mp hgt)).1
        rw [hpart.1] at hlinked
        cases hlinked
      have hdelivers : s.DeliversFirst crates name consumerName s.disk c := by
        have hreads := h.reads c hc
        rw [hidle] at hreads
        cases hreads with
        | idle hk hup hat hoffset =>
          refine (deliversFirst_iff consumerName h.newest_linked
            (fun i hi => (h.unopened i hi).1) h.stored rfl (h.linked _ hk) hk hup hat hoffset).mpr ?_
          intro i' hi' j _ hji
          refine h.linked j (hji.le.trans ?_)
          by_contra hgt
          have hlinked := (h.unopened i' (Nat.not_le.mp hgt)).1
          rw [hi'.1] at hlinked
          cases hlinked
        | stuck hstuck =>
          have hunlinked := hstuck.unlinked
          rw [h.linked _ hstuck.id_le] at hunlinked
          cases hunlinked
      obtain ⟨m, c', hwhole, hc', hidle', hpushed, hcommitted⟩ := exists_rounds hname hconsumer
        ((hdelivers i n body).mpr huncommitted) h rfl hc hidle
      have hlt : ((round crates name consumerName)^[m] s).left newest < left := by
        rw [← hleft, System.left, System.left, hpushed, hcommitted]
        refine Finset.sum_lt_sum (fun j _ => ?_) ⟨i, Finset.mem_range.mpr (by omega), ?_⟩
        · by_cases hj : j = i
          · rw [hj, Function.update_self, List.length_append]
            omega
          · rw [Function.update_of_ne hj]
        · have := hpart.2.1
          rw [Function.update_self, List.length_append, List.length_singleton]
          omega
      obtain ⟨m', hall⟩ := ih _ hlt hwhole hc' hidle' rfl
      refine ⟨m' + m, fun k => ?_⟩
      rw [Function.iterate_add_apply, hall k, bodies, hpushed, bodies]
    · exact ⟨0, h.committed_eq (not_exists.mp hfirst)⟩

theorem Whole.exists_rounds_opened (hname : PlainName name) (hconsumer : PlainName consumerName)
    (h : s.Whole crates name consumerName newest) :
    ∃ m, ∀ k, ((round crates name consumerName)^[m]
      (s.openConsumer crates name consumerName)).committed k = s.bodies k := by
  obtain ⟨c, -, -, hnew, -⟩ := h.toInv.restarts h.restartsWell
  have hopened : s.openConsumer crates name consumerName =
      { s with consumer := some c, phase := .idle } := by
    rw [System.openConsumer, hnew]
  have hwhole := h.openConsumer
  rw [hopened] at hwhole ⊢
  exact hwhole.exists_rounds_all hname hconsumer rfl rfl

/-- **A consumer gets to the end**: started in any state, it has committed everything after some
rounds. -/
theorem getsToEnd (hname : PlainName name) (hconsumer : PlainName consumerName)
    (h : Undisturbed crates name consumerName s) :
    ∃ m, ∀ k, ((round crates name consumerName)^[m]
      (s.openConsumer crates name consumerName)).committed k = s.bodies k := by
  obtain ⟨newest, hwhole⟩ := h.whole hname hconsumer
  exact hwhole.exists_rounds_opened hname hconsumer

/-! ### Two messages -/

theorem undisturbed_popped : Undisturbed lineCrates ['q'] ['c'] popped := by
  have h₁ : Undisturbed lineCrates ['q'] ['c']
      ((start lineCrates ['q']).step lineCrates ['q'] ['c'] .openConsumer) :=
    Undisturbed.start.step .openConsumer trivial
  have h₂ := h₁.step (.push ⟨.string, [1]⟩) (@allowed_push lineCrates ['q'] ['c'] _ _
    (by decide +kernel))
  have h₃ := h₂.step (.push ⟨.string, [2]⟩) (@allowed_push lineCrates ['q'] ['c'] _ _
    (by decide +kernel))
  have h₄ := h₃.step .popHeader trivial
  have h₅ := h₄.step .popBody trivial
  have h₆ := h₅.step .next trivial
  simpa only [popped, List.foldl_cons, List.foldl_nil] using h₆

theorem committed_prefix_popped :
    (List.range 1).flatMap popped.committed <+: (List.range 1).flatMap popped.bodies :=
  committed_prefix plain_names.1 plain_names.2 undisturbed_popped 1

theorem getsToEnd_popped : ∃ m, ∀ k, ((round lineCrates ['q'] ['c'])^[m]
    (popped.openConsumer lineCrates ['q'] ['c'])).committed k = popped.bodies k :=
  getsToEnd plain_names.1 plain_names.2 undisturbed_popped

end System

end Veda.VQueue
