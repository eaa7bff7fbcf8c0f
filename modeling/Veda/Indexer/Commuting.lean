import Veda.Indexer.FormatOne
import Veda.Indexer.Marks

set_option autoImplicit false

/-!
# Grants commute and cancel

In the second format of the index a record has the counts of the bits of each subject. Two grants
on one record lead to the same counts in either order, and a grant that is taken back leaves the
counts that were there. An entry without bits is the exception: it is there before the grant, and
it is dropped when the grant is taken back.

## Main definitions

* `Indexer.AllowOnlyRights` — rights of allow bits without marks.
* `Indexer.revokeGrant` — a grant is taken back.
* `Indexer.SameRights` — two records decode to the same rights.
* `Indexer.Commutes`, `Indexer.Cancels` — the two laws.

## Main results

* `Indexer.PlainAt.grant`, `Indexer.PlainAt.revoke` — the counts after one call.
* `Indexer.commutes_and_cancels_iff` — when the two laws hold.
-/

namespace Veda.Indexer

open Veda.Lib Veda.Authorization

/-! ## The laws -/

/-- The rights of a record: their bits and the bits that they count are allow bits, and they have no
marks. -/
structure AllowOnlyRights (rights : RightSet) : Prop where
  id_eq : ∀ s r, rights.lookup s = some r → r.id = s
  access_lt : ∀ s r, rights.lookup s = some r → r.access.toNat < 16
  counters : ∀ s r, rights.lookup s = some r →
    ∀ c ∈ r.counters, ∃ a : Access, a.toU8.toNat < 16 ∧ c = a.letter
  marker : ∀ s r, rights.lookup s = some r → ¬ IsMark r.marker

/-- A call of `update_right_set` that takes back what a grant has added. -/
def revokeGrant (filter keyPrefix rs : String) (newAccess : U8) (ctx : Context) (g : Grant) :
    Context :=
  (updateRightSet [rs] g.inSet noMarker true filter keyPrefix g.access newAccess .none (ctx, ∅)).1

/-- What is compared of an entry: its access byte and its counts. -/
def rightView (r : Right) : U8 × (Access → BitVec 16) := (r.access, refCount r)

/-- The same subjects with the same access bytes and counts. -/
def SameRights (a b : RightSet) : Prop :=
  ∀ s, (a.lookup s).map rightView = (b.lookup s).map rightView

section Laws

variable (filter keyPrefix rs : String) (ctx : Context)

/-- Two grants in either order. -/
def Commutes (g h : Grant) : Prop :=
  SameRights
    (entriesAt (applyGrants filter keyPrefix rs ctx [g, h]) (keyPrefix ++ filter ++ rs))
    (entriesAt (applyGrants filter keyPrefix rs ctx [h, g]) (keyPrefix ++ filter ++ rs))

/-- A grant that is taken back. -/
def Cancels (newAccess : U8) (g : Grant) : Prop :=
  SameRights
    (entriesAt (revokeGrant filter keyPrefix rs newAccess (applyGrant filter keyPrefix rs ctx g) g)
      (keyPrefix ++ filter ++ rs))
    (entriesAt ctx (keyPrefix ++ filter ++ rs))

end Laws

/-! ## Entries without marks -/

/-- The counts together. -/
def total (cnt : Access → ℕ) : ℕ := (Access.all.map cnt).sum

/-- An entry as it is read from a record, with its counts, which are those of allow bits, and
without a mark; `here` says whether there is an entry. -/
structure Plain (s : String) (cnt : Access → ℕ) (here : Prop) (e : Option Right) : Prop where
  tallies : Tallies s cnt e
  marker : ∀ r ∈ e, r.marker = noMarker
  allow : ∀ a : Access, 16 ≤ a.toU8.toNat → cnt a = 0
  isSome_iff : e.isSome ↔ here

section Entry

variable {s : String} {cnt : Access → ℕ} {here : Prop} {e : Option Right} {x : U8} {n : ℕ}

theorem has_of_lt (hx : x.toNat < 16) {a : Access} (ha : 16 ≤ a.toU8.toNat) :
    has x a = false := by
  have hdec : ∀ a ∈ Access.all, ∀ x : U8, x.toNat < 16 → 16 ≤ a.toU8.toNat → has x a = false := by
    decide +kernel
  exact hdec a (Access.mem_all a) x hx ha

theorem markCount_of_reads {r : Right} {marker : Char}
    (h : ReadsAs r s marker fun a => BitVec.ofNat 16 (cnt a)) (hmarker : r.marker = noMarker) :
    markCount r = 0 := by
  have hmark : ¬ IsMark marker := by
    intro hmark
    have heq := h.marker_eq
    rw [if_pos hmark, hmarker] at heq
    rw [← heq] at hmark
    revert hmark
    decide
  have hnone : ∀ c, IsMark c → r.counters.lookup c = none := by
    intro c hc
    cases hlookup : r.counters.lookup c with
    | none => rfl
    | some k =>
      rcases h.lookup_other c k hlookup with ⟨a, rfl⟩ | ⟨rfl, hm, -⟩
      · exact (hc.elim (letter_ne_marker a).1 (letter_ne_marker a).2).elim
      · exact absurd hm hmark
  rw [markCount, hnone _ (.inl rfl), hnone _ (.inr rfl)]
  rfl

theorem Plain.entry_eq (h : Plain s cnt here e) {r : Right} (hr : r ∈ e) :
    r.id = s ∧ r.isDeleted = false := by
  have hreads := h.tallies
  rw [Option.mem_def.mp hr] at hreads
  cases hreads with
  | entry _ hreads _ => exact ⟨hreads.id_eq, hreads.isDeleted_eq⟩

theorem Plain.totalCount_eq (h : Plain s cnt here e) {r : Right} (hr : r ∈ e) :
    totalCount r = total cnt := by
  obtain ⟨htallies, hmarker, -, -⟩ := h
  obtain rfl := Option.mem_def.mp hr
  cases htallies with
  | entry htext hreads hb =>
    rw [(tidy_of_reads hreads).total_eq, markCount_of_reads hreads (hmarker r rfl), total,
      Nat.add_zero]
    exact congrArg List.sum (List.map_congr_left fun a _ => refs_of_reads hreads hb a)

theorem Plain.view_eq_iff {here' : Prop} {e' : Option Right} (h : Plain s cnt here e)
    (h' : Plain s cnt here' e') :
    e.map rightView = e'.map rightView ↔ (here ↔ here') := by
  rw [← h.isSome_iff, ← h'.isSome_iff]
  have hview : ∀ {r r' : Right}, Tallies s cnt (some r) → Tallies s cnt (some r') →
      rightView r = rightView r' := by
    intro r r' hr hr'
    cases hr with
    | entry _ hreads hb =>
      cases hr' with
      | entry _ hreads' hb' =>
        refine Prod.ext (ext_has fun a => ?_) (funext fun a => ?_)
        · exact (hreads.has_access a).trans (hreads'.has_access a).symm
        · show refCount r a = refCount r' a
          rw [refCount, refCount, hreads.lookup_letter, hreads'.lookup_letter]
  cases e with
  | none => cases e' <;> simp
  | some r =>
    cases e' with
    | none => simp
    | some r' => simp [hview h.tallies h'.tallies]

theorem marker_rewritten (π : IterOrder Char) {e' : Option Right}
    (hw : ∀ r, e' = some r → r.isDeleted = false → Writable s r 2)
    (hmarker : ∀ r ∈ e', r.marker = noMarker) : ∀ d ∈ rewritten π s e', d.marker = noMarker := by
  intro d hd
  obtain ⟨r, hr, rfl⟩ := Option.map_eq_some_iff.mp hd
  obtain ⟨hr, hlive⟩ := Option.filter_eq_some_iff.mp hr
  have hreads := decodeValue_encodeValue π s r 2 (hw r hr (of_decide_eq_true hlive)).value
  rw [hreads.marker_eq, hmarker r hr, if_neg (by decide)]

theorem marker_iterate_touch (prev new : U8) (isDeleted : Bool)
    (hmarker : ∀ r ∈ e, r.marker = noMarker) :
    ∀ r ∈ (fun e => some (touch noMarker prev new isDeleted s e))^[n] e,
      r.marker = noMarker := by
  cases n with
  | zero => exact hmarker
  | succ n =>
    rw [Function.iterate_succ_apply']
    intro r hr
    rw [← Option.mem_some_iff.mp hr, marker_touch]

theorem isSome_rewritten (π : IterOrder Char) {e' : Option Right} :
    (rewritten π s e').isSome ↔ ∃ r ∈ e', r.isDeleted = false := by
  rw [rewritten, Option.isSome_map]
  cases e' with
  | none => simp
  | some r => by_cases h : r.isDeleted = false <;> simp [h]

/-- **A grant** adds its bits to the counts. -/
theorem Plain.grant (h : Plain s cnt here e) (hx : AllowOnly x) (hn : n ≤ 1)
    (htext : n ≠ 0 → ';' ∉ s.toList) (htotal : total cnt + n * weight x < 2 ^ 16) (prev : U8)
    (π : IterOrder Char) {e' : Option Right}
    (he' : (fun e => some (touch noMarker prev x false s e))^[n] e = e') :
    (∀ r, e' = some r → r.isDeleted = false → Writable s r 2) ∧
      Plain s (fun a => cnt a + n * bitOf x a) (here ∨ n ≠ 0) (rewritten π s e') := by
  have hstable : HexStable x := .inl (Nat.lt_succ_of_le hx.2)
  have hfits : GrantFits x s n e := by
    cases he : e with
    | none =>
      by_cases h0 : n = 0
      · exact .inl h0
      · exact .inr ⟨htext h0, hstable, .inl (by omega)⟩
    | some r =>
      have hsum := h.totalCount_eq he
      have hreads := h.tallies
      rw [he] at hreads
      refine ⟨by rw [hsum]; exact htotal, fun _ => ?_⟩
      split_ifs
      · cases hreads with
        | entry _ hreads hb =>
          refine hexStable_of_allow r.access fun a ha => ?_
          by_contra hlt
          rw [hreads.has_access, h.allow a (not_lt.mp hlt)] at ha
          exact absurd ha (by decide)
      · refine ⟨hstable, fun hzero => ?_⟩
        rw [hzero] at hx
        exact absurd hx.1 (by decide)
  obtain ⟨hw, htallies⟩ := tallies_grant noMarker π h.tallies hfits e' he'
  refine ⟨hw, htallies, marker_rewritten π hw ?_, ?_, ?_⟩
  · rw [← he']
    exact marker_iterate_touch prev x false h.marker
  · intro a ha
    rw [h.allow a ha, bitOf, has_of_lt (Nat.lt_succ_of_le hx.2) ha]
    simp
  · rw [isSome_rewritten, ← h.isSome_iff, ← he']
    cases n with
    | zero =>
      rw [Function.iterate_zero_apply]
      cases e with
      | none => simp
      | some r => simpa using (h.entry_eq rfl).2
    | succ n =>
      obtain ⟨r, hr, -, -, hlive⟩ :=
        iterate_touch_grant (x := x) prev (fun r hr => (h.entry_eq hr).1) n
      rw [hr]
      simp [hlive]

/-- **A withdrawal** takes its bits from the counts; the entry stays only if some are left. -/
theorem Plain.withdraw (h : Plain s cnt here e) (hp : ∀ a, n * bitOf x a ≤ cnt a)
    (htotal : total cnt < 2 ^ 16) (new : U8) (π : IterOrder Char) {e' : Option Right}
    (he' : (fun e => some (touch noMarker x new true s e))^[n] e = e') :
    (∀ r, e' = some r → r.isDeleted = false → Writable s r 2) ∧
      Plain s (fun a => cnt a - n * bitOf x a)
        (if n = 0 then here else ∃ a, cnt a - n * bitOf x a ≠ 0) (rewritten π s e') := by
  have hfits : WithdrawalFits x n e := by
    cases he : e with
    | none => trivial
    | some r =>
      have hreads := h.tallies
      rw [he] at hreads
      refine ⟨by rw [h.totalCount_eq he]; exact htotal, fun _ a ha _ => ?_⟩
      cases hreads with
      | entry _ hreads hb =>
        by_contra hlt
        rw [hreads.has_access, h.allow a (not_lt.mp hlt)] at ha
        exact absurd ha (by decide)
  obtain ⟨hw, htallies⟩ := tallies_withdraw noMarker π h.tallies hfits hp e' he'
  refine ⟨hw, htallies, marker_rewritten π hw ?_, ?_, ?_⟩
  · rw [← he']
    exact marker_iterate_touch x new true h.marker
  · intro a ha
    rw [h.allow a ha, Nat.zero_sub]
  · cases n with
    | zero =>
      rw [if_pos rfl, ← h.isSome_iff, isSome_rewritten, ← he', Function.iterate_zero_apply]
      cases e with
      | none => simp
      | some r => simpa using (h.entry_eq rfl).2
    | succ n =>
      rw [if_neg (Nat.succ_ne_zero n)]
      constructor
      · intro hsome
        obtain ⟨r, hr, hlive⟩ := (isSome_rewritten π).mp hsome
        obtain rfl := Option.mem_def.mp hr
        have haccess : r.access ≠ 0 := by
          rw [Function.iterate_succ_apply'] at he'
          rw [← Option.some.inj he'] at hlive ⊢
          exact access_touch (.inl rfl) hlive
        have hdecoded := access_decode π (hw r rfl hlive) haccess
        rw [rewritten, Option.filter_some, if_pos (decide_eq_true hlive), Option.map_some]
          at htallies
        cases htallies with
        | entry _ hreads hb =>
          by_contra hnone
          refine hdecoded (ext_has fun a => ?_)
          have hzero : cnt a - (n + 1) * bitOf x a = 0 := not_not.mp (not_exists.mp hnone a)
          rw [hreads.has_access, hzero]
          exact (has_zero a).symm
      · rintro ⟨a, ha⟩
        cases hrewritten : rewritten π s e' with
        | some r => rfl
        | none =>
          rw [hrewritten] at htallies
          cases htallies with
          | absent hzero => exact absurd (hzero a) ha

end Entry

/-! ## Records -/

/-- Every entry of the record of a key is one that was read, with the given counts. -/
structure PlainAt (ctx : Context) (key : String) (cnt : String → Access → ℕ)
    (here : String → Prop) : Prop where
  version : ctx.versionOfIndexFormat = 2
  entry : ∀ s, Plain s (cnt s) (here s) ((entriesAt ctx key).lookup s)

/-- The counts of a record. -/
def countsOf (ctx : Context) (key s : String) (a : Access) : ℕ :=
  (((entriesAt ctx key).lookup s).map fun r => refs r a).getD 0

section Written

variable {r : Right}

theorem value_of_letters (h : ∀ c ∈ r.counters, ∃ a : Access, c = a.letter) :
    hexForm r 2 ∨ ∃ a, letterCount r a ≠ 0 := by
  by_cases hx : hexForm r 2
  · exact .inl hx
  · right
    have h2 : ¬ summCounters r < 2 := fun h2 => hx (.inl h2)
    rw [BitVec.lt_def, toNat_summCounters] at h2
    have hpos : totalCount r ≠ 0 := by
      intro h0
      rw [h0] at h2
      exact h2 (by decide)
    have hexists : ∃ e ∈ r.counters.entries, e.2.toNat ≠ 0 := by
      by_contra hnone
      push Not at hnone
      refine hpos (List.sum_eq_zero fun n hn => ?_)
      obtain ⟨e, he, rfl⟩ := List.mem_map.mp hn
      exact hnone e he
    obtain ⟨⟨c, n⟩, he, hn⟩ := hexists
    have hlookup : r.counters.lookup c = some n := AList.mem_lookup_iff.mpr he
    obtain ⟨a, rfl⟩ := h c (AList.lookup_isSome.mp (by rw [hlookup]; rfl))
    have hcount : refCount r a ≠ 0 := by
      rw [refCount, hlookup, Option.getD_some]
      exact fun h0 => hn (by rw [h0]; rfl)
    exact ⟨a, by rw [letterCount, if_pos hcount]; exact hcount⟩

theorem writtenCount_of_deny (haccess : r.access.toNat < 16)
    (hcounters : ∀ c ∈ r.counters, ∃ a : Access, a.toU8.toNat < 16 ∧ c = a.letter) {a : Access}
    (ha : 16 ≤ a.toU8.toNat) : writtenCount r 2 a = 0 := by
  have hbit := has_of_lt haccess ha
  have hcount : refCount r a = 0 := by
    have hnone : r.counters.lookup a.letter = none := by
      rw [AList.lookup_eq_none]
      intro hmem
      obtain ⟨b, hb, hletter⟩ := hcounters _ hmem
      rw [letter_injective.mp hletter] at ha
      omega
    rw [refCount, hnone]
    rfl
  rw [writtenCount, letterCount, hcount, (readHex_eq_self _).mpr (.inl haccess), hbit]
  simp

end Written

section Records

variable {filter keyPrefix rs : String} {ctx : Context} {cnt : String → Access → ℕ}
  {here : String → Prop} {g h : Grant}

theorem count_le_one (hnodup : g.inSet.Nodup) (s : String) : g.inSet.count s ≤ 1 :=
  List.nodup_iff_count_le_one.mp hnodup s

/-- **A grant** on a record. -/
theorem PlainAt.grant (hplain : PlainAt ctx (keyPrefix ++ filter ++ rs) cnt here)
    (hg : AllowOnly g.access) (hnodup : g.inSet.Nodup) (htext : ∀ s ∈ g.inSet, ';' ∉ s.toList)
    (htotal : ∀ s, total (cnt s) + g.inSet.count s * weight g.access < 2 ^ 16) :
    PlainAt (applyGrant filter keyPrefix rs ctx g) (keyPrefix ++ filter ++ rs)
      (fun s a => cnt s a + g.inSet.count s * bitOf g.access a)
      (fun s => here s ∨ g.inSet.count s ≠ 0) := by
  rw [applyGrant_eq]
  refine ⟨hplain.version, fun s => ?_⟩
  have hvisit := fun s => (hplain.entry s).grant hg (count_le_one hnodup s)
    (fun hcount => htext s (List.count_pos_iff.mp (Nat.pos_of_ne_zero hcount))) (htotal s)
    g.prevAccess ((ctx.orders 0).counters s) rfl
  have hread := lookup_write ctx
    ⟨keyPrefix ++ filter ++ rs, g.inSet, noMarker, false, g.prevAccess, g.access⟩ hplain.version
    (fun s => (hvisit s).1) s
  dsimp only at hread
  rw [hread]
  exact (hvisit s).2

/-- **A grant that is taken back** from a record. -/
theorem PlainAt.revoke (hplain : PlainAt ctx (keyPrefix ++ filter ++ rs) cnt here)
    (hcounted : ∀ s a, g.inSet.count s * bitOf g.access a ≤ cnt s a)
    (htotal : ∀ s, total (cnt s) < 2 ^ 16) (newAccess : U8) :
    PlainAt (revokeGrant filter keyPrefix rs newAccess ctx g) (keyPrefix ++ filter ++ rs)
      (fun s a => cnt s a - g.inSet.count s * bitOf g.access a)
      (fun s => if g.inSet.count s = 0 then here s
        else ∃ a, cnt s a - g.inSet.count s * bitOf g.access a ≠ 0) := by
  rw [revokeGrant, updateRightSet, List.foldl_cons, List.foldl_nil, updateRecord_eq (by decide)]
  refine ⟨hplain.version, fun s => ?_⟩
  have hvisit := fun s => (hplain.entry s).withdraw (hcounted s) (htotal s) newAccess
    ((ctx.orders 0).counters s) rfl
  have hread := lookup_write ctx
    ⟨keyPrefix ++ filter ++ rs, g.inSet, noMarker, true, g.access, newAccess⟩ hplain.version
    (fun s => (hvisit s).1) s
  dsimp only at hread
  rw [hread]
  exact (hvisit s).2

/-- **A record of allow bits** is read with its counts. -/
theorem plainAt_of_record {key : String} (hversion : ctx.versionOfIndexFormat = 2)
    {rights : RightSet} (hrights : AllowOnlyRights rights) {π : HashOrder}
    (hrecord : ctx.storage.lookup key = some (nonEmptyRecord (encodeRightset π rights 2)))
    (htext : ∀ s ∈ rights, ';' ∉ s.toList) :
    PlainAt ctx key (countsOf ctx key) fun s => ((entriesAt ctx key).lookup s).isSome := by
  have hwritable : ∀ s r, rights.lookup s = some r → r.isDeleted = false → Writable s r 2 :=
    fun s r hr _ => ⟨hrights.id_eq s r hr,
      htext s (AList.lookup_isSome.mp (by rw [hr]; rfl)), value_of_letters (fun c hc => by
        obtain ⟨a, -, ha⟩ := hrights.counters s r hr c hc
        exact ⟨a, ha⟩)⟩
  have hlookup : ∀ s, (entriesAt ctx key).lookup s =
      ((rights.lookup s).filter fun r => r.isDeleted = false).map fun r =>
        decodeValue s (encodeValue (π.counters s) r 2) true := by
    intro s
    rw [entriesAt, readRightSet, AList.lookup_empty]
    dsimp only
    rw [hrecord]
    dsimp only
    rw [decode_nonEmptyRecord]
    exact lookup_decode_encode π rights 2 hwritable s
  refine ⟨hversion, fun s => ?_⟩
  unfold countsOf
  cases hdecoded : (entriesAt ctx key).lookup s with
  | none => exact ⟨.absent fun _ => rfl, fun _ h => (by cases h), fun _ _ => rfl, Iff.rfl⟩
  | some d =>
    rw [hlookup] at hdecoded
    obtain ⟨r, hr, rfl⟩ := Option.map_eq_some_iff.mp hdecoded
    obtain ⟨hr, hlive⟩ := Option.filter_eq_some_iff.mp hr
    have hw := hwritable s r hr (of_decide_eq_true hlive)
    have hreads := decodeValue_encodeValue (π.counters s) s r 2 hw.value
    have hcount : ∀ a, refCount (decodeValue s (encodeValue (π.counters s) r 2) true) a =
        writtenCount r 2 a := by
      intro a
      rw [refCount, hreads.lookup_letter]
      split_ifs with h0
      · exact h0.symm
      · rfl
    refine ⟨@Tallies.entry _ _ _ r.marker hw.id_text ?_ fun a => (refCount _ a).isLt, ?_, ?_,
      Iff.rfl⟩
    · have hsame : (fun a => BitVec.ofNat 16 (refs (decodeValue s
          (encodeValue (π.counters s) r 2) true) a)) = writtenCount r 2 :=
        funext fun a => by rw [refs, hcount, BitVec.ofNat_toNat, BitVec.setWidth_eq]
      show ReadsAs _ s r.marker fun a => BitVec.ofNat 16 (refs _ a)
      rw [hsame]
      exact hreads
    · intro d hd
      rw [← Option.mem_some_iff.mp hd, hreads.marker_eq, if_neg (hrights.marker s r hr)]
    · intro a ha
      show refs _ a = 0
      rw [refs, hcount, writtenCount_of_deny (hrights.access_lt s r hr) (fun c hc => ?_) ha]
      · rfl
      · exact hrights.counters s r hr c hc

theorem sameRights_iff {ctx' : Context} {key : String} {here' : String → Prop}
    (hplain : PlainAt ctx key cnt here) (hplain' : PlainAt ctx' key cnt here') :
    SameRights (entriesAt ctx key) (entriesAt ctx' key) ↔ ∀ s, here s ↔ here' s :=
  forall_congr' fun s => (hplain.entry s).view_eq_iff (hplain'.entry s)

theorem total_add (cnt : Access → ℕ) (n : ℕ) (x : U8) :
    total (fun a => cnt a + n * bitOf x a) = total cnt + n * weight x := by
  rw [total, total, weight, ← List.sum_map_mul_left, ← List.sum_map_add]

theorem Plain.access_ne_zero_iff {s : String} {cnt : Access → ℕ} {here : Prop} {r : Right}
    (h : Plain s cnt here (some r)) : r.access ≠ 0 ↔ ∃ a, cnt a ≠ 0 := by
  have hreads := h.tallies
  cases hreads with
  | entry _ hreads hb =>
    have hbit : ∀ a, has r.access a = true ↔ cnt a ≠ 0 := fun a => by
      rw [hreads.has_access, decide_eq_true_iff, ne_eq, ofNat_eq_zero (hb a)]
    constructor
    · intro hne
      obtain ⟨a, ha⟩ := exists_has hne
      exact ⟨a, (hbit a).mp ha⟩
    · rintro ⟨a, ha⟩ hzero
      have hset := (hbit a).mpr ha
      rw [hzero] at hset
      exact absurd (hset.symm.trans (has_zero a)) (by decide)

theorem PlainAt.grants (hplain : PlainAt ctx (keyPrefix ++ filter ++ rs) cnt here)
    (hg : AllowOnly g.access) (hh : AllowOnly h.access) (hgn : g.inSet.Nodup)
    (hhn : h.inSet.Nodup) (hgt : ∀ s ∈ g.inSet, ';' ∉ s.toList)
    (hht : ∀ s ∈ h.inSet, ';' ∉ s.toList)
    (hcounts : ∀ s, total (cnt s) + g.inSet.count s * weight g.access +
      h.inSet.count s * weight h.access < 2 ^ 16) :
    PlainAt (applyGrants filter keyPrefix rs ctx [g, h]) (keyPrefix ++ filter ++ rs)
      (fun s a => cnt s a + g.inSet.count s * bitOf g.access a +
        h.inSet.count s * bitOf h.access a)
      (fun s => (here s ∨ g.inSet.count s ≠ 0) ∨ h.inSet.count s ≠ 0) :=
  (hplain.grant hg hgn hgt fun s => by have := hcounts s; omega).grant hh hhn hht fun s => by
    rw [total_add]
    exact hcounts s

/-- **Grants commute and cancel**: two grants lead to the same record in either order, and a grant
that is taken back leaves the record that was there unless it lists a subject whose entry has no
bits.

**Proof sketch.** A grant adds its bits to the counts and a withdrawal subtracts them, in whatever
form the record is written between. What is read is determined by the counts and by which entries
are there. An entry that is visited by a withdrawal stays only if it has bits then. -/
theorem commutes_and_cancels_iff (hversion : ctx.versionOfIndexFormat = 2) {rights : RightSet}
    (hrights : AllowOnlyRights rights) {π : HashOrder}
    (hrecord : ctx.storage.lookup (keyPrefix ++ filter ++ rs) =
      some (nonEmptyRecord (encodeRightset π rights 2)))
    (hg : AllowOnly g.access) (hh : AllowOnly h.access) (hgn : g.inSet.Nodup)
    (hhn : h.inSet.Nodup)
    (hcounts : ∀ s, total (countsOf ctx (keyPrefix ++ filter ++ rs) s) +
      g.inSet.count s * weight g.access + h.inSet.count s * weight h.access < 2 ^ 16)
    (htext : ∀ s, s ∈ rights ∨ s ∈ g.inSet ∨ s ∈ h.inSet → ';' ∉ s.toList) (newAccess : U8) :
    Commutes filter keyPrefix rs ctx g h ∧ Cancels filter keyPrefix rs ctx newAccess g ↔
      ∀ s ∈ g.inSet, ∀ r ∈ (entriesAt ctx (keyPrefix ++ filter ++ rs)).lookup s,
        r.access ≠ 0 := by
  have hplain := plainAt_of_record hversion hrights hrecord fun s hs => htext s (.inl hs)
  have hgt : ∀ s ∈ g.inSet, ';' ∉ s.toList := fun s hs => htext s (.inr (.inl hs))
  have hht : ∀ s ∈ h.inSet, ';' ∉ s.toList := fun s hs => htext s (.inr (.inr hs))
  have hcommutes : Commutes filter keyPrefix rs ctx g h := by
    have hgh := hplain.grants hg hh hgn hhn hgt hht hcounts
    have hhg := hplain.grants hh hg hhn hgn hht hgt fun s => by
      rw [Nat.add_right_comm]
      exact hcounts s
    have hcnt : (fun s a => countsOf ctx (keyPrefix ++ filter ++ rs) s a +
        h.inSet.count s * bitOf h.access a + g.inSet.count s * bitOf g.access a) =
        fun s a => countsOf ctx (keyPrefix ++ filter ++ rs) s a +
          g.inSet.count s * bitOf g.access a + h.inSet.count s * bitOf h.access a :=
      funext fun s => funext fun a => Nat.add_right_comm _ _ _
    rw [hcnt] at hhg
    exact (sameRights_iff hgh hhg).mpr fun s => or_right_comm
  have hback := (hplain.grant hg hgn hgt fun s => by have := hcounts s; omega).revoke
    (fun s a => Nat.le_add_left _ _) (fun s => by
      rw [total_add]
      have := hcounts s
      omega) newAccess
  simp only [Nat.add_sub_cancel] at hback
  rw [and_iff_right hcommutes, Cancels, sameRights_iff hback hplain]
  refine forall_congr' fun s => ?_
  have hentry := hplain.entry s
  by_cases hs : s ∈ g.inSet
  · have hcount : g.inSet.count s ≠ 0 := (List.count_pos_iff.mpr hs).ne'
    rw [if_neg hcount, imp_iff_right hs]
    cases hlookup : (entriesAt ctx (keyPrefix ++ filter ++ rs)).lookup s with
    | none => simp [countsOf, hlookup]
    | some r =>
      rw [hlookup] at hentry
      simpa using hentry.access_ne_zero_iff.symm
  · have hcount := List.count_eq_zero_of_not_mem hs
    simp [hcount, hs]

end Records

/-! ## Records with one subject -/

/-- An index in the second format with one record. -/
def indexWith (rights : RightSet) : Context :=
  ⟨(∅ : HashMap String String).insert "Po" (nonEmptyRecord (encodeRightset .stored rights 2)), 2,
    fun _ => .stored⟩

/-- The rights of one subject. -/
def rightsOf (s : String) (access : U8) : RightSet :=
  (∅ : RightSet).insert s ⟨s, access, noMarker, false, 0, ∅⟩

theorem allowOnlyRights_rightsOf (s : String) {access : U8} (h : access.toNat < 16) :
    AllowOnlyRights (rightsOf s access) := by
  have hlookup : ∀ t r, (rightsOf s access).lookup t = some r →
      t = s ∧ r = ⟨s, access, noMarker, false, 0, ∅⟩ := fun t r hr =>
    HashMap.lookup_insert_empty.mp hr
  constructor
  all_goals
    intro t r hr
    obtain ⟨rfl, rfl⟩ := hlookup t r hr
  · rfl
  · exact h
  · exact fun c hc => absurd hc (AList.notMem_empty c)
  · exact (by decide : ¬ IsMark noMarker)

theorem lookup_entriesAt_read {s : String} (hs : s ≠ "s") :
    (entriesAt (indexWith (rightsOf "s" 2)) "Po").lookup s = none := by
  have hkeys : (entriesAt (indexWith (rightsOf "s" 2)) "Po").keys = ["s"] := by decide +kernel
  refine AList.lookup_eq_none.mpr fun hmem => hs ?_
  rw [AList.mem_keys, hkeys] at hmem
  exact List.mem_singleton.mp hmem

/-- Two grants to a subject that can read. -/
theorem commutes_and_cancels_read :
    Commutes "" permissionPrefix "o" (indexWith (rightsOf "s" 2)) ⟨0, 2, ["s"]⟩ ⟨0, 4, ["s"]⟩ ∧
      Cancels "" permissionPrefix "o" (indexWith (rightsOf "s" 2)) 0 ⟨0, 2, ["s"]⟩ := by
  refine (commutes_and_cancels_iff rfl (allowOnlyRights_rightsOf "s" (by decide)) rfl (by decide)
    (by decide) (by decide) (by decide) ?_ ?_ 0).mpr ?_
  · intro s
    by_cases hs : s = "s"
    · subst hs
      decide +kernel
    · have hnone : countsOf (indexWith (rightsOf "s" 2)) "Po" s = fun _ => 0 := by
        funext a
        rw [countsOf, lookup_entriesAt_read hs]
        rfl
      have hcount : List.count s ["s"] = 0 := List.count_eq_zero.mpr (by simpa using hs)
      show total (countsOf _ "Po" s) + List.count s ["s"] * _ + List.count s ["s"] * _ < _
      rw [hnone, hcount]
      decide
  · rintro s (hs | hs | hs)
    · rcases (AList.mem_insert _).mp hs with rfl | hmem
      · decide
      · exact absurd hmem (AList.notMem_empty s)
    all_goals
      obtain rfl := List.mem_singleton.mp hs
      decide
  · intro s hs r hr
    obtain rfl := List.mem_singleton.mp hs
    have haccess : ((entriesAt (indexWith (rightsOf "s" 2)) "Po").lookup "s").map Right.access =
        some 2 := by
      decide +kernel
    have hr : (entriesAt (indexWith (rightsOf "s" 2)) "Po").lookup "s" = some r := hr
    rw [hr] at haccess
    rw [Option.some.inj haccess]
    decide

/-- **A subject without bits** has an entry in the record, which is dropped with the grant; and a
subject with the separator is read as another one, which keeps the grant. -/
theorem not_cancels_withoutBits :
    ¬ Cancels "" permissionPrefix "o" (indexWith (rightsOf "s" 0)) 0 ⟨0, 2, ["s"]⟩ ∧
      ¬ Cancels "" permissionPrefix "o" (indexWith ∅) 0 ⟨0, 2, ["s;F"]⟩ := by
  constructor
  · intro h
    have hs := congrArg Option.isSome (h "s")
    revert hs
    decide +kernel
  · intro h
    have hs := congrArg Option.isSome (h "s")
    revert hs
    decide +kernel

end Veda.Indexer
