import Veda.Indexer.KeyCounts

set_option autoImplicit false

/-!
# The marks of memberships

The entry of a group in the record of a resource carries one mark, which every change that visits
the entry overwrites with the mark of its new state, also when that state takes references back.
The mark is right as long as each change leaves the mark of the memberships that remain.

## Main definitions

* `Indexer.MarksFollow` — the marks are those of the memberships in force.
* `Indexer.MarksFit` — the changes of a history leave the right marks.

## Main results

* `Indexer.MarksAt.writes` — the marks after some writes.
* `Indexer.marksFollow_of_marksFit` — a history whose changes leave the right marks.
-/

namespace Veda.Indexer

open Veda.Lib Veda.Onto Veda.Authorization

/-! ## One write -/

/-- Every entry of the index has some bits and a given mark. -/
structure MarksAt (ctx : Context) (mark : String → String → Char) : Prop where
  version : ctx.versionOfIndexFormat = 2
  entry : ∀ key s r, (entriesAt ctx key).lookup s = some r → r.access ≠ 0 ∧ r.marker = mark key s

/-- A mark, or none. -/
def IsMarker (c : Char) : Prop := IsMark c ∨ c = noMarker

theorem marker_touch (marker : Char) (p x : U8) (isDeleted : Bool) (id : String)
    (e : Option Right) : (touch marker p x isDeleted id e).marker = marker := by
  cases e with
  | none => rfl
  | some r => cases isDeleted <;> rfl

theorem access_touch {marker : Char} {p x : U8} {isDeleted : Bool} {id : String}
    {e : Option Right} (hx : isDeleted = true ∨ x ≠ 0)
    (hlive : (touch marker p x isDeleted id e).isDeleted = false) :
    (touch marker p x isDeleted id e).access ≠ 0 := by
  cases e with
  | none =>
    obtain rfl : isDeleted = false := hlive
    exact hx.resolve_left Bool.false_ne_true
  | some r =>
    cases isDeleted with
    | true =>
      rw [touch_withdraw] at hlive ⊢
      simp only [Bool.not_eq_false', decide_eq_true_iff] at hlive
      exact hlive.1
    | false =>
      rw [touch_grant]
      have hbits : (updateCounters r.counters p x false).2 = x := by
        apply ext_has
        intro a
        rw [has_updateCounters]
        cases r.counters.lookup a.letter <;> simp [nextBit]
      dsimp only
      rw [hbits]
      exact hx.resolve_left Bool.false_ne_true

theorem access_decode (π : IterOrder Char) {s : String} {r : Right} (hw : Writable s r 2)
    (h : r.access ≠ 0) : (decodeValue s (encodeValue π r 2) true).access ≠ 0 := by
  intro h0
  have hreads := decodeValue_encodeValue π s r 2 hw.value
  have hnone : ∀ a, has (0 : U8) a = false := has_zero
  have hzero : ∀ a, writtenCount r 2 a = 0 := by
    intro a
    have ha := hreads.has_access a
    rw [h0, hnone] at ha
    simpa using ha.symm
  refine h ?_
  unfold writtenCount at hzero
  by_cases hx : hexForm r 2
  · have hread : readHex r.access = 0 := by
      apply ext_has
      intro a
      have ha := hzero a
      rw [if_pos hx] at ha
      rw [hnone]
      split_ifs at ha with hset
      · exact absurd ha (by decide)
      · exact Bool.eq_false_of_not_eq_true hset
    revert hread
    generalize r.access = x
    revert x
    decide
  · apply ext_has
    intro a
    have ha := hzero a
    rw [if_neg hx, letterCount] at ha
    rw [hnone]
    split_ifs at ha with hcount hset
    · exact absurd ha hcount
    · exact absurd ha (by decide)
    · exact Bool.eq_false_of_not_eq_true hset

section Write

variable {ctx : Context} {mark : String → String → Char}

/-- **The marks after one write**: the entries it visits have its mark. -/
theorem MarksAt.write (h : MarksAt ctx mark) (hmark : ∀ key s, IsMarker (mark key s)) {v : Visit}
    (hw : ∀ s r, v.entry s ((entriesAt ctx v.key).lookup s) = some r → r.isDeleted = false →
      Writable s r 2)
    (hv : IsMarker v.marker) (hx : v.isDeleted = true ∨ v.newAccess ≠ 0) :
    MarksAt (write ctx v) fun key s =>
      if key = v.key ∧ s ∈ v.inSet then v.marker else mark key s := by
  refine ⟨h.version, fun key s r' hr' => ?_⟩
  by_cases hkey : key = v.key
  · subst hkey
    rw [lookup_write ctx v h.version hw s] at hr'
    -- the entry before it was written
    cases he : v.entry s ((entriesAt ctx v.key).lookup s) with
    | none =>
      rw [he] at hr'
      cases hr'
    | some r =>
      rw [he] at hr'
      have hlive : r.isDeleted = false := by
        by_contra hdel
        simp [rewritten, Option.filter_some, hdel] at hr'
      simp only [rewritten, Option.filter_some, hlive, decide_true, if_true,
        Option.map_some, Option.some.injEq] at hr'
      have hread := decodeValue_encodeValue ((ctx.orders 0).counters s) s r 2
        (hw s r he hlive).value
      have hmarker : IsMarker r.marker → r'.marker = r.marker := by
        intro hr
        rw [← hr', hread.marker_eq]
        split_ifs with hm
        · rfl
        · exact (hr.resolve_left hm).symm
      have haccess : r.access ≠ 0 → r'.access ≠ 0 := by
        rw [← hr']
        exact access_decode _ (hw s r he hlive)
      by_cases hs : s ∈ v.inSet
      · obtain ⟨n, hn⟩ := Nat.exists_eq_succ_of_ne_zero (List.count_pos_iff.mpr hs).ne'
        rw [Visit.entry, hn, Function.iterate_succ_apply', Option.some.injEq] at he
        rw [if_pos ⟨rfl, hs⟩]
        rw [← he] at hlive hmarker haccess
        rw [marker_touch] at hmarker
        exact ⟨haccess (access_touch hx hlive), hmarker hv⟩
      · rw [Visit.entry, List.count_eq_zero.mpr hs] at he
        obtain ⟨hr, hm⟩ := h.entry v.key s r he
        rw [if_neg fun h => hs h.2]
        rw [hm] at hmarker
        exact ⟨haccess hr, hmarker (hmark _ _)⟩
  · rw [entriesAt_write_of_ne ctx v hkey] at hr'
    rw [if_neg fun h => hkey h.1]
    exact h.entry key s r' hr'

/-- Some writes visit an entry. -/
def Touches (vs : List Visit) (key s : String) : Prop := ∃ v ∈ vs, key = v.key ∧ s ∈ v.inSet

instance (vs : List Visit) (key s : String) : Decidable (Touches vs key s) := by
  unfold Touches
  infer_instance

/-- **The marks after some writes** with one mark: the entries they visit have it. -/
theorem MarksAt.writes (vs : List Visit) (h : MarksAt ctx mark)
    (hmark : ∀ key s, IsMarker (mark key s)) {m : Char} (hm : IsMarker m)
    (hvs : ∀ v ∈ vs, v.marker = m ∧ (v.isDeleted = true ∨ v.newAccess ≠ 0))
    (hw : WritesWhole vs ctx) :
    MarksAt (vs.foldl Indexer.write ctx) fun key s =>
      if Touches vs key s then m else mark key s := by
  induction vs generalizing ctx mark with
  | nil =>
    refine ⟨h.version, fun key s r hr => ?_⟩
    rw [if_neg fun ht => by simp [Touches] at ht]
    exact h.entry key s r hr
  | cons v vs ih =>
    obtain ⟨hwhole, hrest⟩ := hw
    obtain ⟨hv, hx⟩ := hvs v List.mem_cons_self
    have hnext := ih (h.write hmark hwhole (hv ▸ hm) hx)
      (fun key s => by
        split_ifs
        · exact hv ▸ hm
        · exact hmark key s)
      (fun u hu => hvs u (List.mem_cons_of_mem _ hu)) hrest
    refine ⟨hnext.version, fun key s r hr => ?_⟩
    obtain ⟨haccess, hmarker⟩ := hnext.entry key s r hr
    refine ⟨haccess, hmarker.trans ?_⟩
    by_cases ht : Touches vs key s
    · obtain ⟨u, hu, hkey⟩ := id ht
      rw [if_pos ht, if_pos ⟨u, List.mem_cons_of_mem _ hu, hkey⟩]
    · by_cases hfirst : key = v.key ∧ s ∈ v.inSet
      · rw [if_neg ht, if_pos hfirst, if_pos ⟨v, List.mem_cons_self, hfirst⟩, hv]
      · rw [if_neg ht, if_neg hfirst, if_neg]
        rintro ⟨u, hu, hkey⟩
        rcases List.mem_cons.mp hu with rfl | hu
        · exact hfirst hkey
        · exact ht ⟨u, hu, hkey⟩

end Write

/-! ## Memberships -/

theorem exists_has {x : U8} (h : x ≠ 0) : ∃ a, has x a = true := by
  by_contra hno
  refine h (ext_has fun a => ?_)
  have hnone : has (0 : U8) a = false := has_zero a
  rw [hnone]
  exact Bool.eq_false_of_not_eq_true fun ha => hno ⟨a, ha⟩

theorem access_membership_ne_zero (st : Statement) : Kind.membership.access st ≠ 0 := by
  unfold Kind.access
  split_ifs with h
  · decide
  · exact h

theorem isMarker_marker (st : Statement) : IsMarker st.marker := by
  unfold Statement.marker
  split_ifs
  · exact .inl (.inl rfl)
  · exact .inl (.inr rfl)
  · exact .inr rfl

/-- The state is in force and names a key and a set. -/
def Kind.Lists (k : Kind) (st : Statement) (key s : String) : Prop :=
  st.deleted = false ∧ key ∈ k.keys st ∧ s ∈ k.sets st

instance (k : Kind) (st : Statement) (key s : String) : Decidable (k.Lists st key s) := by
  unfold Kind.Lists
  infer_instance

/-- The state has `v-s:isExclusive` true. -/
def Statement.Exclusive (st : Statement) : Prop :=
  (st.answer .getFirstBool "v-s:isExclusive").getD false = true

/-- The state has `v-s:ignoreExclusive` true. -/
def Statement.IgnoresExclusive (st : Statement) : Prop :=
  (st.answer .getFirstBool "v-s:ignoreExclusive").getD false = true

/-- The mark that an entry may carry: the one for exclusive memberships exactly when one is in
force, the other one only when none is and one that ignores exclusive ones is. -/
structure RightMark (k : Kind) (latest : String → Statement) (key s : String) (mark : Char) :
    Prop where
  exclusive : mark = mIsExclusive ↔ ∃ id, k.Lists (latest id) key s ∧ (latest id).Exclusive
  ignores : mark = mIgnoreExclusive →
    (¬ ∃ id, k.Lists (latest id) key s ∧ (latest id).Exclusive) ∧
      ∃ id, k.Lists (latest id) key s ∧ (latest id).IgnoresExclusive

/-- A change leaves the right mark in the entries it visits, where a membership remains. -/
def Kind.LeavesMarks (k : Kind) (latest : String → Statement) (prev st : Statement) : Prop :=
  ∀ key s, Touches (k.visits prev st) key s → (∃ id, k.Lists (latest id) key s) →
    RightMark k latest key s st.marker

/-- Every change of a history leaves the right marks. -/
def MarksFit (k : Kind) : List (String × Statement) → World → Prop
  | [], _ => True
  | c :: hist, w => k.LeavesMarks (k.after w c).latest (w.latest c.1) c.2 ∧
    MarksFit k hist (k.after w c)

theorem touches_of_totalReferences {vs : List Visit} {key s : String} {a : Access}
    (h : totalReferences vs key s a ≠ 0) : Touches vs key s := by
  by_contra hno
  refine h (List.sum_eq_zero fun n hn => ?_)
  obtain ⟨v, hv, rfl⟩ := List.mem_map.mp hn
  by_cases hkey : key = v.key
  · subst hkey
    have hs : s ∉ v.inSet := fun hs => hno ⟨v, hv, rfl, hs⟩
    rw [references_self, List.count_eq_zero.mpr hs, Nat.zero_mul]
  · exact references_of_ne hkey s a

theorem touches_of_lists {prev st : Statement} (hback : Kind.membership.TakesBack prev st)
    {key s : String}
    (h : Kind.membership.Lists prev key s ∨ Kind.membership.Lists st key s) :
    Touches (Kind.membership.visits prev st) key s := by
  have hbit : ∀ st, ∃ a, has (Kind.membership.access st) a = true := fun st =>
    exists_has (access_membership_ne_zero st)
  have happend : ∀ {vs us : List Visit}, Touches vs key s ∨ Touches us key s →
      Touches (vs ++ us) key s := by
    rintro vs us (⟨v, hv, h⟩ | ⟨v, hv, h⟩)
    · exact ⟨v, List.mem_append_left _ hv, h⟩
    · exact ⟨v, List.mem_append_right _ hv, h⟩
  rcases h with ⟨hlive, hkey, hs⟩ | ⟨hlive, hkey, hs⟩
  · obtain ⟨a, ha⟩ := hbit prev
    refine happend (.inl (touches_of_totalReferences (a := a) ?_))
    rw [hback.totalReferences]
    exact (Kind.contribution_ne_zero _ _ _ _ _).mpr ⟨hlive, hkey, hs, ha⟩
  · obtain ⟨a, ha⟩ := hbit st
    refine happend (.inr (touches_of_totalReferences (a := a) ?_))
    rw [Kind.totalReferences_grants]
    exact (Kind.contribution_ne_zero _ _ _ _ _).mpr ⟨hlive, hkey, hs, ha⟩

/-- What a history keeps: the counts, and the right marks. -/
structure MarksLatest (ids : Finset String) (w : World) : Prop where
  counts : CountsLatest .membership ids w
  marks : ∃ mark, MarksAt w.ctx mark ∧ ∀ key s, IsMarker (mark key s) ∧
    ((∃ id, Kind.membership.Lists (w.latest id) key s) →
      RightMark .membership w.latest key s (mark key s))

theorem MarksLatest.lists {ids : Finset String} {w : World} (h : MarksLatest ids w)
    {key s : String} {r : Right} (hr : (entriesAt w.ctx key).lookup s = some r) :
    ∃ id, Kind.membership.Lists (w.latest id) key s := by
  obtain ⟨mark, hmarks, -⟩ := h.marks
  obtain ⟨haccess, -⟩ := hmarks.entry key s r hr
  obtain ⟨a, ha⟩ := exists_has haccess
  have hat : has (accessAt w.ctx key s) a = true := by
    rw [accessAt, hr]
    exact ha
  rw [h.counts.counts.has_accessAt, h.counts.ne_zero_iff] at hat
  obtain ⟨id, hid⟩ := hat
  obtain ⟨hlive, hkey, hs, -⟩ := (Kind.contribution_ne_zero _ _ _ _ _).mp hid
  exact ⟨id, hlive, hkey, hs⟩

/-- **One delivery**: the entries that are visited get the mark of the new state, which is right,
and the memberships of the others are those before.

**Proof sketch.** The memberships over a pair change only when the previous state or the new one
lists it, and then the change visits its entry. -/
theorem MarksLatest.after {ids : Finset String} {w : World} (h : MarksLatest ids w)
    {c : String × Statement} (hid : c.1 ∈ ids)
    (hback : Kind.membership.TakesBack (w.latest c.1) c.2)
    (hf : RecordsFit (Kind.membership.visits (w.latest c.1) c.2) w.ctx)
    (hm : Kind.membership.LeavesMarks (Kind.membership.after w c).latest (w.latest c.1) c.2) :
    MarksLatest ids (Kind.membership.after w c) := by
  refine ⟨h.counts.after hid hback hf, ?_⟩
  obtain ⟨mark, hmarks, hmark⟩ := h.marks
  have hwhole := (h.counts.counts.change hback (fun key s a => Finset.single_le_sum
    (f := fun id => Kind.membership.contribution (w.latest id) key s a)
    (fun _ _ => Nat.zero_le _) hid) hf).1
  have hvisits : ∀ v ∈ Kind.membership.visits (w.latest c.1) c.2,
      v.marker = c.2.marker ∧ (v.isDeleted = true ∨ v.newAccess ≠ 0) := by
    intro v hv
    rcases List.mem_append.mp hv with hv | hv
    · refine ⟨?_, .inl (Kind.isDeleted_of_mem_withdrawals hv)⟩
      unfold Kind.withdrawals Kind.visitsTo at hv
      split_ifs at hv
      · cases hv
      all_goals
        obtain ⟨rs, -, rfl⟩ := List.mem_map.mp hv
        rfl
    · unfold Kind.grants Kind.visitsTo at hv
      split_ifs at hv
      · cases hv
      · obtain ⟨rs, -, rfl⟩ := List.mem_map.mp hv
        exact ⟨rfl, .inr (access_membership_ne_zero _)⟩
  refine ⟨_, hmarks.writes _ (fun key s => (hmark key s).1) (isMarker_marker c.2) hvisits hwhole,
    fun key s => ?_⟩
  by_cases ht : Touches (Kind.membership.visits (w.latest c.1) c.2) key s
  · rw [if_pos ht]
    exact ⟨isMarker_marker c.2, hm key s ht⟩
  · rw [if_neg ht]
    refine ⟨(hmark key s).1, ?_⟩
    -- neither state of the individual lists the pair
    have hsame : ∀ id, Kind.membership.Lists ((Kind.membership.after w c).latest id) key s ↔
        Kind.membership.Lists (w.latest id) key s := by
      intro id
      rw [Kind.latest_after]
      by_cases hc : id = c.1
      · subst hc
        rw [Function.update_self]
        exact ⟨fun hl => absurd (touches_of_lists hback (.inr hl)) ht,
          fun hl => absurd (touches_of_lists hback (.inl hl)) ht⟩
      · rw [Function.update_of_ne hc]
    have hstate : ∀ id, Kind.membership.Lists (w.latest id) key s →
        (Kind.membership.after w c).latest id = w.latest id := by
      intro id hl
      rw [Kind.latest_after]
      refine Function.update_of_ne ?_ _ _
      rintro rfl
      exact ht (touches_of_lists hback (.inl hl))
    have hiff : ∀ P : Statement → Prop,
        (∃ id, Kind.membership.Lists ((Kind.membership.after w c).latest id) key s ∧
          P ((Kind.membership.after w c).latest id)) ↔
        ∃ id, Kind.membership.Lists (w.latest id) key s ∧ P (w.latest id) := by
      intro P
      refine exists_congr fun id => ?_
      rw [hsame]
      refine and_congr_right fun hl => ?_
      rw [hstate id hl]
    intro hlists
    have hold := (hmark key s).2 ((exists_congr hsame).mp hlists)
    refine ⟨?_, ?_⟩
    · rw [hiff]
      exact hold.exclusive
    · rw [hiff, hiff]
      exact hold.ignores

theorem MarksLatest.run {ids : Finset String} (hist : List (String × Statement)) {w : World}
    (h : MarksLatest ids w) (hids : ∀ c ∈ hist, c.1 ∈ ids)
    (hf : Kind.membership.RunFits hist w) (hm : MarksFit .membership hist w) :
    MarksLatest ids (hist.foldl Kind.membership.after w) := by
  induction hist generalizing w with
  | nil => exact h
  | cons c hist ih =>
    obtain ⟨⟨hback, hfit⟩, hrest⟩ := hf
    exact ih (h.after (hids c List.mem_cons_self) hback hfit hm.1)
      (fun d hd => hids d (List.mem_cons_of_mem _ hd)) hrest hm.2

/-! ## The marks of a resource -/

/-- The entry of a group in the record of a resource carries a mark. -/
def Carries (ctx : Context) (r g : String) (mark : Char) : Prop :=
  ∃ e, (entriesAt ctx (membershipPrefix ++ r)).lookup g = some e ∧ e.marker = mark

/-- The membership is in force and puts a resource into a group. -/
def Statement.Joins (st : Statement) (r g : String) : Prop :=
  st.deleted = false ∧ r ∈ Kind.membership.resources st ∧ g ∈ Kind.membership.sets st

instance (st : Statement) : Decidable st.Exclusive := by
  unfold Statement.Exclusive
  infer_instance

instance (st : Statement) (r g : String) : Decidable (st.Joins r g) := by
  unfold Statement.Joins
  infer_instance

/-- The marks are those of the memberships in force. -/
def MarksFollow (w : World) : Prop :=
  ∀ r g, (Carries w.ctx r g mIsExclusive ↔
      ∃ id, (w.latest id).Joins r g ∧ (w.latest id).Exclusive) ∧
    (Carries w.ctx r g mIgnoreExclusive →
      (¬ ∃ id, (w.latest id).Joins r g ∧ (w.latest id).Exclusive) ∧
        ∃ id, (w.latest id).Joins r g ∧ (w.latest id).IgnoresExclusive)

theorem joins_iff {st : Statement} (hu : st.useFilter = "") (r g : String) :
    st.Joins r g ↔ Kind.membership.Lists st (membershipPrefix ++ r) g := by
  unfold Statement.Joins Kind.Lists Kind.keys Kind.keysOf
  refine and_congr_right fun _ => and_congr_left fun _ => ?_
  rw [hu, List.mem_map]
  constructor
  · intro hr
    exact ⟨r, hr, by rw [String.append_empty]; rfl⟩
  · rintro ⟨r', hr', heq⟩
    rw [String.append_empty] at heq
    rwa [← (String.append_right_inj _).mp heq]

/-- **Marks follow memberships** in a history without filters, each of whose changes takes back
what its previous state granted, fits the records it meets and leaves the right marks.

**Proof sketch.** The invariant is `MarksLatest`: an entry stands for a membership in force, and
its mark is right for the memberships over its pair. -/
theorem marksFollow_of_marksFit (hist : List (String × Statement)) (orders : ℕ → HashOrder)
    (hu : ∀ c ∈ hist, c.2.useFilter = "") (hf : Kind.membership.RunFits hist (.initial orders))
    (hm : MarksFit .membership hist (.initial orders)) :
    ∃ w, hist.foldlM Kind.membership.deliver (.initial orders) = .ok w ∧ MarksFollow w := by
  have h0 : MarksLatest (hist.map Prod.fst).toFinset (.initial orders) := by
    refine ⟨countsLatest_initial _ _ orders, fun _ _ => noMarker, ⟨rfl, ?_⟩, fun key s => ?_⟩
    · intro key s r hr
      cases hr
    · refine ⟨.inr rfl, ?_⟩
      rintro ⟨id, -, hkey, -⟩
      cases (show key ∈ [] from hkey)
  have h := h0.run hist (fun c hc => List.mem_toFinset.mpr (List.mem_map_of_mem hc)) hf hm
  refine ⟨_, Kind.membership.deliver_run hist _, fun r g => ?_⟩
  generalize hw : hist.foldl Kind.membership.after (.initial orders) = w at h
  have hlatest : ∀ id, (w.latest id).useFilter = "" := by
    intro id
    rw [← hw]
    rcases Kind.membership.latest_run hist (.initial orders) id with h | ⟨c, hc, h⟩
    · rw [h]
      rfl
    · rw [h]
      exact hu c hc
  obtain ⟨mark, hmarks, hmark⟩ := id h.marks
  have hjoins := fun id => joins_iff (hlatest id) r g
  simp only [hjoins]
  -- a mark that is carried is right
  have hright : ∀ m, Carries w.ctx r g m →
      RightMark .membership w.latest (membershipPrefix ++ r) g m := by
    rintro m ⟨e, he, rfl⟩
    rw [(hmarks.entry _ _ e he).2]
    exact (hmark _ _).2 (h.lists he)
  refine ⟨⟨fun hx => (hright _ hx).exclusive.mp rfl, fun hx => ?_⟩,
    fun hn => (hright _ hn).ignores rfl⟩
  -- a membership in force has an entry
  obtain ⟨id, hl, hexclusive⟩ := hx
  obtain ⟨a, ha⟩ : ∃ a, has (Kind.membership.access (w.latest id)) a = true :=
    exists_has (access_membership_ne_zero _)
  have hat : has (accessAt w.ctx (membershipPrefix ++ r) g) a = true := by
    rw [h.counts.counts.has_accessAt, h.counts.ne_zero_iff]
    exact ⟨id, (Kind.contribution_ne_zero _ _ _ _ _).mpr ⟨hl.1, hl.2.1, hl.2.2, ha⟩⟩
  cases he : (entriesAt w.ctx (membershipPrefix ++ r)).lookup g with
  | none =>
    rw [accessAt, he, Option.map_none, Option.getD_none] at hat
    exact absurd hat (by rw [show has (0 : U8) a = false from has_zero a]; decide)
  | some e =>
    refine ⟨e, he, ?_⟩
    rw [(hmarks.entry _ _ e he).2]
    exact ((hmark _ _).2 ⟨id, hl⟩).exclusive.mpr ⟨id, hl, hexclusive⟩

/-- A membership of a resource in a group, with some flags. -/
def simpleMembership (flags : List (String × Bool)) : Statement :=
  flags.foldl (fun st f => st.addValue f.1 .boolean (.bool f.2))
    ((Statement.empty.addValue "v-s:resource" .uri (.uri "d:doc")).addValue
      "v-s:memberOf" .uri (.uri "d:group"))

/-- An exclusive membership that is deleted again. -/
theorem marksFollow_deleted :
    ∃ w, [("d:m1", simpleMembership [("v-s:isExclusive", true)]),
        ("d:m1", simpleMembership [("v-s:deleted", true)])].foldlM Kind.membership.deliver
          (.initial fun _ => .stored) = .ok w ∧ MarksFollow w := by
  refine marksFollow_of_marksFit
    [("d:m1", simpleMembership [("v-s:isExclusive", true)]),
      ("d:m1", simpleMembership [("v-s:deleted", true)])] (fun _ => .stored)
    (by decide) (by decide) ⟨?_, ?_, trivial⟩
  all_goals
    rintro key s - ⟨id, hl⟩
    by_cases hid : id = "d:m1"
  · subst hid
    exact ⟨⟨fun _ => ⟨_, hl, rfl⟩, fun _ => rfl⟩, fun h => absurd h (by decide)⟩
  · rw [Kind.latest_after, Function.update_of_ne hid] at hl
    cases (show key ∈ [] from hl.2.1)
  · subst hid
    exact absurd hl.1 (show (true = false) → False by decide)
  · rw [Kind.latest_after, Function.update_of_ne hid, Kind.latest_after,
      Function.update_of_ne hid] at hl
    cases (show key ∈ [] from hl.2.1)

/-- A second membership over the same pair overwrites the mark of an exclusive one. -/
theorem not_marksFollow_overwritten :
    ¬ ∀ (hist : List (String × Statement)) (orders : ℕ → HashOrder) (w : World),
      hist.foldlM Kind.membership.deliver (.initial orders) = .ok w → MarksFollow w := by
  intro h
  have hfollows := h _ _ _ (Kind.membership.deliver_run
    [("d:m1", simpleMembership [("v-s:isExclusive", true)]), ("d:m2", simpleMembership [])]
    (.initial fun _ => .stored)) "d:doc" "d:group"
  obtain ⟨e, he, hmark⟩ := hfollows.1.mpr ⟨"d:m1", by decide, by decide⟩
  have hdec : ((entriesAt (([("d:m1", simpleMembership [("v-s:isExclusive", true)]),
      ("d:m2", simpleMembership [])].foldl Kind.membership.after
        (.initial fun _ => .stored)).ctx) (membershipPrefix ++ "d:doc")).lookup "d:group").map
          Right.marker = some noMarker := by decide
  rw [he, Option.map_some, hmark] at hdec
  exact absurd hdec (by decide)

end Veda.Indexer
