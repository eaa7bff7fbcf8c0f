import Veda.Authorization.Counting
import Veda.Indexer.Common
import Mathlib.Algebra.BigOperators.Ring.List

set_option autoImplicit false

/-!
# One entry of an index record

A change visits the entry of a subject once for every time the subject is listed. This file
follows the reference counts of one entry through these visits, through the text form in which
the record is stored and through the reader that produces the entry for the next change.

## Main definitions

* `Indexer.refs` — the number of references of a bit.
* `Indexer.Tidy` — counters of letters and of at most one mark.
* `Indexer.touch` — one visit of a change to an entry.
* `Indexer.Tallies` — an entry as it is read from a record, with its references.

## Main results

* `Indexer.iterate_grant`, `Indexer.iterate_withdraw` — the entry after some visits.
* `Indexer.tallies_written` — the entry that is read back from a written one.
-/

namespace Veda.Indexer

open Veda.Lib Veda.Authorization

/-! ## Counting references -/

/-- The number of references of a bit. -/
def refs (r : Right) (a : Access) : ℕ := (refCount r a).toNat

/-- The number of references that an access byte makes to a bit. -/
def bitOf (x : U8) (a : Access) : ℕ := if has x a then 1 else 0

/-- The number of references that an access byte makes. -/
def weight (x : U8) : ℕ := (Access.all.map (bitOf x)).sum

/-- The counts of the marks. -/
def markCount (r : Right) : ℕ :=
  ((r.counters.lookup mIsExclusive).map BitVec.toNat).getD 0 +
    ((r.counters.lookup mIgnoreExclusive).map BitVec.toNat).getD 0

/-- The counters are those of letters and of at most one mark, which counts once. -/
structure Tidy (r : Right) : Prop where
  keys : ∀ c ∈ r.counters, (∃ a : Access, c = a.letter) ∨ IsMark c
  marks : markCount r ≤ 1

/-- The letters and the marks. -/
def tags : List Char := Access.all.map Access.letter ++ [mIsExclusive, mIgnoreExclusive]

theorem nodup_tags : tags.Nodup := by decide

theorem refs_eq (r : Right) (a : Access) :
    refs r a = ((r.counters.lookup a.letter).map BitVec.toNat).getD 0 := by
  unfold refs refCount
  cases r.counters.lookup a.letter <;> rfl

theorem Tidy.total_eq {r : Right} (h : Tidy r) :
    totalCount r = (Access.all.map (refs r)).sum + markCount r := by
  have hsub : ∀ c ∈ r.counters, c ∈ tags := by
    intro c hc
    rcases h.keys c hc with ⟨a, rfl⟩ | rfl | rfl
    · exact List.mem_append_left _ (List.mem_map_of_mem (Access.mem_all a))
    · decide
    · decide
  rw [totalCount, HashMap.sum_values BitVec.toNat r.counters tags nodup_tags hsub, tags,
    List.map_append, List.sum_append, List.map_map]
  congr 1
  exact congrArg List.sum (List.map_congr_left fun a _ => (refs_eq r a).symm)

theorem Tidy.refs_le {r : Right} (h : Tidy r) (a : Access) : refs r a ≤ totalCount r := by
  rw [h.total_eq]
  have := List.single_le_sum (fun _ _ => Nat.zero_le _) (refs r a)
    (List.mem_map_of_mem (Access.mem_all a))
  omega

theorem Tidy.exists_refs {r : Right} (h : Tidy r) (h2 : 2 ≤ totalCount r) :
    ∃ a, refs r a ≠ 0 := by
  by_contra hno
  have h0 : ∀ a, refs r a = 0 := fun a => by
    by_contra ha
    exact hno ⟨a, ha⟩
  have hs : (Access.all.map (refs r)).sum = 0 :=
    List.sum_eq_zero fun n hn => by
      obtain ⟨a, _, rfl⟩ := List.mem_map.mp hn
      exact h0 a
  have := h.total_eq
  have := h.marks
  omega

/-! ## The visits of a change -/

section Touch

variable (marker : Char) (prev new : U8)

/-- One visit of a change to the entry of a subject. -/
def touch (isDeleted : Bool) (id : String) : Option Right → Right
  | some rr =>
    if isDeleted then
      let (counters, access) :=
        updateCounters rr.counters prev (rr.access ||| prev) isDeleted
      { rr with
        marker := marker
        access := access
        counters := counters
        isDeleted := !(access ≠ 0 ∧ counters.entries ≠ []) }
    else
      let (counters, access) := updateCounters rr.counters prev new isDeleted
      { rr with
        marker := marker
        access := access
        counters := counters
        isDeleted := isDeleted }
  | none =>
    { id := id, access := new, marker := marker, isDeleted := isDeleted, level := 0,
      counters := ∅ }

theorem touch_grant (id : String) (r : Right) :
    touch marker prev new false id (some r) =
      { r with
        marker := marker
        access := (updateCounters r.counters prev new false).2
        counters := (updateCounters r.counters prev new false).1
        isDeleted := false } := by
  simp only [touch, Bool.false_eq_true, if_false]

theorem touch_withdraw (id : String) (r : Right) :
    touch marker prev new true id (some r) =
      { r with
        marker := marker
        access := (updateCounters r.counters prev (r.access ||| prev) true).2
        counters := (updateCounters r.counters prev (r.access ||| prev) true).1
        isDeleted := !((updateCounters r.counters prev (r.access ||| prev) true).2 ≠ 0 ∧
          (updateCounters r.counters prev (r.access ||| prev) true).1.entries ≠ []) } := by
  simp only [touch, if_true]

theorem updateEntry_eq (isDeleted : Bool) (rs : RightSet) (id : String) :
    updateEntry marker isDeleted prev new rs id =
      rs.insert id (touch marker prev new isDeleted id (rs.lookup id)) := by
  unfold updateEntry touch
  cases rs.lookup id with
  | none => rfl
  | some rr => cases isDeleted <;> rfl

/-- The visits of a list of subjects: each subject is visited as often as it is listed.

**Proof sketch.** Induction on the list; a visit to another subject leaves the entry alone. -/
theorem lookup_foldl_updateEntry (isDeleted : Bool) (l : List String) (rs : RightSet)
    (s : String) :
    (l.foldl (updateEntry marker isDeleted prev new) rs).lookup s =
      (fun e => some (touch marker prev new isDeleted s e))^[l.count s] (rs.lookup s) := by
  induction l generalizing rs with
  | nil => rfl
  | cons t l ih =>
    rw [List.foldl_cons, ih, updateEntry_eq]
    by_cases hts : t = s
    · subst hts
      rw [AList.lookup_insert, List.count_cons_self, Function.iterate_succ_apply]
    · rw [AList.lookup_insert_ne (fun h => hts h.symm), List.count_cons_of_ne hts]

end Touch

/-! ## Preservation of the counters -/

theorem Tidy.congr {r : Right} (h : Tidy r) (r' : Right)
    (hc : ∀ c, (∀ a : Access, c ≠ a.letter) → r'.counters.lookup c = r.counters.lookup c) :
    Tidy r' ∧ markCount r' = markCount r := by
  have hmark : markCount r' = markCount r := by
    unfold markCount
    rw [hc _ fun a => (letter_ne_marker a).1.symm, hc _ fun a => (letter_ne_marker a).2.symm]
  refine ⟨⟨?_, hmark ▸ h.marks⟩, hmark⟩
  intro c hmem
  by_cases hl : ∃ a : Access, c = a.letter
  · exact .inl hl
  · have hl' : ∀ a : Access, c ≠ a.letter := fun a ha => hl ⟨a, ha⟩
    refine h.keys c (AList.lookup_isSome.mp ?_)
    rw [← hc c hl']
    exact AList.lookup_isSome.mpr hmem

theorem bitOf_le_weight (x : U8) (a : Access) : bitOf x a ≤ weight x :=
  List.single_le_sum (fun _ _ => Nat.zero_le _) _ (List.mem_map_of_mem (Access.mem_all a))

theorem eq_zero_of_weight {x : U8} (h : weight x = 0) : x = 0 := by
  refine ext_has fun a => ?_
  have ha := bitOf_le_weight x a
  unfold bitOf at ha
  split_ifs at ha with hx
  · omega
  · simpa using hx

theorem Tidy.total_add {r r' : Right} (h : Tidy r) (h' : Tidy r')
    (hm : markCount r' = markCount r) {x : U8} {n : ℕ}
    (hr : ∀ a, refs r' a = refs r a + n * bitOf x a) :
    totalCount r' = totalCount r + n * weight x := by
  have hsum : (Access.all.map (refs r')).sum = (Access.all.map (refs r)).sum + n * weight x := by
    rw [weight, ← List.sum_map_mul_left, ← List.sum_map_add]
    exact congrArg List.sum (List.map_congr_left fun a _ => hr a)
  have h1 := h.total_eq
  have h2 := h'.total_eq
  omega

/-! ## Granting -/

/-- An entry that was last visited to grant the bits of `x`. -/
structure Granted (s : String) (x : U8) (cnt : Access → ℕ) (marks : ℕ) (r : Right) : Prop where
  id_eq : r.id = s
  live : r.isDeleted = false
  access_eq : r.access = x
  tidy : Tidy r
  refs_eq : ∀ a, refs r a = cnt a
  marks_eq : markCount r = marks

section Grant

variable (marker : Char) (prev : U8) {x : U8} {s : String}

theorem toNat_nextCount_grant (p c : Bool) (n : Option (BitVec 16))
    (h : (n.getD 0).toNat + (if c then 1 else 0) < 2 ^ 16) :
    ((nextCount p c false n).getD 0).toNat = (n.getD 0).toNat + if c then 1 else 0 := by
  cases n with
  | none => cases c <;> simp [nextCount]
  | some m =>
    cases c with
    | false => simp [nextCount]
    | true =>
      simp only [Option.getD_some, if_true] at h
      simp only [nextCount, if_true, Option.getD_some, Bool.false_eq_true, if_false]
      rw [BitVec.toNat_add]
      exact Nat.mod_eq_of_lt h

theorem granted_touch {r : Right} (hid : r.id = s) (ht : Tidy r)
    (hb : ∀ a, refs r a + bitOf x a < 2 ^ 16) :
    Granted s x (fun a => refs r a + bitOf x a) (markCount r)
      (touch marker prev x false s (some r)) := by
  generalize hr' : touch marker prev x false s (some r) = r'
  rw [touch_grant] at hr'
  have hcounters : r'.counters = (updateCounters r.counters prev x false).1 := by rw [← hr']
  have haccess : r'.access = (updateCounters r.counters prev x false).2 := by rw [← hr']
  have hlive : r'.isDeleted = false := by rw [← hr']
  have hid' : r'.id = r.id := by rw [← hr']
  clear hr'
  obtain ⟨ht', hm⟩ := ht.congr r' fun c hc => by
    rw [hcounters]
    exact lookup_updateCounters_other _ _ _ _ hc
  refine ⟨hid'.trans hid, hlive, ?_, ht', ?_, hm⟩
  · refine ext_has fun a => ?_
    rw [haccess, has_updateCounters]
    cases r.counters.lookup a.letter <;> simp [nextBit]
  · intro a
    rw [refs, refCount, hcounters, lookup_updateCounters]
    exact toNat_nextCount_grant _ _ _ (hb a)

theorem granted_fresh : Granted s x (fun _ => 0) 0 (touch marker prev x false s none) where
  id_eq := rfl
  live := rfl
  access_eq := rfl
  tidy := ⟨fun c hc => absurd hc (AList.notMem_empty c), Nat.zero_le 1⟩
  refs_eq _ := rfl
  marks_eq := rfl

theorem iterate_grant (n : ℕ) {cnt : Access → ℕ} {marks : ℕ} {r : Right}
    (h : Granted s x cnt marks r) (hb : ∀ a, cnt a + n * bitOf x a < 2 ^ 16) :
    ∃ r', (fun e => some (touch marker prev x false s e))^[n] (some r) = some r' ∧
      Granted s x (fun a => cnt a + n * bitOf x a) marks r' := by
  induction n with
  | zero => exact ⟨r, rfl, by simpa using h⟩
  | succ n ih =>
    have hstep : ∀ a, cnt a + (n + 1) * bitOf x a = cnt a + n * bitOf x a + bitOf x a := fun a => by
      rw [Nat.succ_mul, Nat.add_assoc]
    obtain ⟨r₁, hr₁, hg⟩ := ih fun a => by have := hb a; rw [hstep] at this; omega
    refine ⟨touch marker prev x false s (some r₁), ?_, ?_⟩
    · rw [Function.iterate_succ_apply', hr₁]
    · have hg' := granted_touch marker prev hg.id_eq hg.tidy
        fun a => by rw [hg.refs_eq, ← hstep]; exact hb a
      rw [hg.marks_eq] at hg'
      refine ⟨hg'.id_eq, hg'.live, hg'.access_eq, hg'.tidy, fun a => ?_, hg'.marks_eq⟩
      rw [hg'.refs_eq, hg.refs_eq, hstep]

end Grant

/-! ## Taking back -/

/-- An entry whose access byte holds the bits with references. -/
structure Balanced (s : String) (cnt : Access → ℕ) (marks : ℕ) (r : Right) : Prop where
  id_eq : r.id = s
  tidy : Tidy r
  refs_eq : ∀ a, refs r a = cnt a
  has_access : ∀ a, has r.access a = decide (cnt a ≠ 0)
  deleted : r.isDeleted = true → r.access = 0
  marks_eq : markCount r = marks

section Withdraw

variable (marker : Char) (x : U8) {p : U8} {s : String}

theorem nextCount_withdraw (pr c : Bool) (n : Option (BitVec 16))
    (hc : c = decide ((n.getD 0).toNat ≠ 0)) (h : (if pr then 1 else 0) ≤ (n.getD 0).toNat) :
    ((nextCount pr (c || pr) true n).getD 0).toNat =
        (n.getD 0).toNat - (if pr then 1 else 0) ∧
      nextBit pr (c || pr) true n =
        decide ((n.getD 0).toNat - (if pr then 1 else 0) ≠ 0) := by
  cases n with
  | none =>
    cases pr with
    | true => simp at h
    | false => simp [nextCount, nextBit, hc]
  | some m =>
    cases pr with
    | false => subst hc; by_cases h0 : m = 0#16 <;> simp [nextCount, nextBit, h0]
    | true =>
      simp only [Option.getD_some, if_true] at h
      have hsub : (m - 1).toNat = m.toNat - 1 := by
        rw [BitVec.toNat_sub]
        have := m.isLt
        have h1 : (1 : BitVec 16).toNat = 1 := rfl
        omega
      have hz : (m - 1 == 0) = decide (m.toNat - 1 = 0) := by
        rw [Bool.eq_iff_iff, beq_iff_eq, decide_eq_true_iff, ← hsub]
        exact ⟨fun h => by rw [h]; rfl, fun h => BitVec.eq_of_toNat_eq h⟩
      refine ⟨?_, ?_⟩
      · simpa [nextCount] using hsub
      · simp only [nextBit, hz, Option.getD_some]
        by_cases h0 : m.toNat - 1 = 0 <;> simp [h0]

theorem balanced_touch {cnt : Access → ℕ} {marks : ℕ} {r : Right} (h : Balanced s cnt marks r)
    (hp : ∀ a, bitOf p a ≤ cnt a) :
    Balanced s (fun a => cnt a - bitOf p a) marks (touch marker p x true s (some r)) := by
  generalize hr' : touch marker p x true s (some r) = r'
  rw [touch_withdraw] at hr'
  have hcounters : r'.counters =
      (updateCounters r.counters p (r.access ||| p) true).1 := by rw [← hr']
  have haccess : r'.access = (updateCounters r.counters p (r.access ||| p) true).2 := by
    rw [← hr']
  have hdeleted : r'.isDeleted = !(r'.access ≠ 0 ∧ r'.counters.entries ≠ [] : Bool) := by
    rw [hcounters, haccess, ← hr']
  have hid : r'.id = r.id := by rw [← hr']
  clear hr'
  obtain ⟨ht, hm⟩ := h.tidy.congr r' fun c hc => by
    rw [hcounters]
    exact lookup_updateCounters_other _ _ _ _ hc
  have hnext := fun a => nextCount_withdraw (has p a) (has r.access a)
    (r.counters.lookup a.letter) (by rw [h.has_access, ← h.refs_eq]; rfl)
    (by have := hp a; rw [← h.refs_eq] at this; exact this)
  have hrefs : ∀ a, refs r' a = cnt a - bitOf p a := by
    intro a
    rw [refs, refCount, hcounters, lookup_updateCounters, has_or, (hnext a).1, ← h.refs_eq]
    rfl
  have hbits : ∀ a, has r'.access a = decide (cnt a - bitOf p a ≠ 0) := by
    intro a
    rw [haccess, has_updateCounters, has_or, (hnext a).2, ← h.refs_eq]
    rfl
  refine ⟨hid.trans h.id_eq, ht, hrefs, hbits, ?_, hm.trans h.marks_eq⟩
  intro hdel
  have hdel' : ¬ (r'.access ≠ 0 ∧ r'.counters.entries ≠ []) := by
    rintro ⟨ha, hc⟩
    simp only [hdeleted, hc, ne_eq, not_false_eq_true, and_true, Bool.not_eq_true',
      decide_eq_false_iff_not, not_not] at hdel
    exact ha hdel
  by_contra hne
  -- without counters there are no references and hence no bits
  refine hne (ext_has fun a => ?_)
  have hemp : r'.counters.entries = [] := not_not.mp fun he => hdel' ⟨hne, he⟩
  rw [hbits, ← hrefs, refs, refCount, AList.lookup, hemp]
  exact (has_zero a).symm

theorem iterate_withdraw (n : ℕ) {cnt : Access → ℕ} {marks : ℕ} {r : Right}
    (h : Balanced s cnt marks r) (hp : ∀ a, n * bitOf p a ≤ cnt a) :
    ∃ r', (fun e => some (touch marker p x true s e))^[n] (some r) = some r' ∧
      Balanced s (fun a => cnt a - n * bitOf p a) marks r' := by
  induction n with
  | zero => exact ⟨r, rfl, by simpa using h⟩
  | succ n ih =>
    have hp' : ∀ a, n * bitOf p a + bitOf p a ≤ cnt a := fun a => by
      rw [← Nat.succ_mul]
      exact hp a
    obtain ⟨r₁, hr₁, hb⟩ := ih fun a => by have := hp' a; omega
    refine ⟨touch marker p x true s (some r₁), ?_, ?_⟩
    · rw [Function.iterate_succ_apply', hr₁]
    · have hb' := balanced_touch marker x (p := p) hb
        fun a => by have := hp' a; omega
      refine ⟨hb'.id_eq, hb'.tidy, fun a => ?_, fun a => ?_, hb'.deleted, hb'.marks_eq⟩
      · rw [hb'.refs_eq, Nat.succ_mul, Nat.sub_sub]
      · rw [hb'.has_access, Nat.succ_mul, Nat.sub_sub]

theorem entries_eq_nil {m : Counters} (h : ∀ c, m.lookup c = none) : m.entries = [] := by
  cases he : m.entries with
  | nil => rfl
  | cons e es =>
    have hmem : e.1 ∈ m := AList.mem_keys.mpr (by rw [AList.keys, he]; simp)
    exact absurd hmem (AList.lookup_eq_none.mp (h e.1))

theorem lookup_updateCounters_none {m : Counters} {cur : U8} (h : ∀ c, m.lookup c = none)
    (c : Char) : (updateCounters m p cur true).1.lookup c = none := by
  by_cases hl : ∃ a : Access, c = a.letter
  · obtain ⟨a, rfl⟩ := hl
    rw [lookup_updateCounters, h]
    rfl
  · rw [lookup_updateCounters_other _ _ _ _ fun a ha => hl ⟨a, ha⟩, h]

theorem iterate_withdraw_none (n : ℕ) :
    ∃ r', (fun e => some (touch marker p x true s e))^[n + 1] none = some r' ∧
      r'.isDeleted = true ∧ ∀ c, r'.counters.lookup c = none := by
  induction n with
  | zero => exact ⟨_, rfl, rfl, fun c => rfl⟩
  | succ n ih =>
    obtain ⟨r₁, hr₁, hdel, hnone⟩ := ih
    refine ⟨touch marker p x true s (some r₁), ?_, ?_, fun c => ?_⟩
    · rw [Function.iterate_succ_apply', hr₁]
    · rw [touch_withdraw]
      have hemp : (updateCounters r₁.counters p (r₁.access ||| p) true).1.entries = [] :=
        entries_eq_nil (lookup_updateCounters_none hnone)
      simp [hemp]
    · rw [touch_withdraw]
      dsimp only
      exact lookup_updateCounters_none hnone c

end Withdraw

/-! ## Entries as they are read -/

/-- An entry as it is read from a record, with its references; a missing entry has none. -/
inductive Tallies (s : String) (cnt : Access → ℕ) : Option Right → Prop
  | absent (unused : ∀ a, cnt a = 0) : Tallies s cnt none
  | entry {r : Right} {marker : Char} (text : ';' ∉ s.toList)
    (reads : ReadsAs r s marker fun a => BitVec.ofNat 16 (cnt a))
    (bound : ∀ a, cnt a < 2 ^ 16) : Tallies s cnt (some r)

section Reads

variable {r : Right} {s : String} {marker : Char} {cnt : Access → ℕ}

theorem ofNat_eq_zero {n : ℕ} (hn : n < 2 ^ 16) : BitVec.ofNat 16 n = 0 ↔ n = 0 := by
  constructor
  · intro h
    have := congrArg BitVec.toNat h
    rw [BitVec.toNat_ofNat, Nat.mod_eq_of_lt hn] at this
    exact this
  · rintro rfl
    rfl

theorem Tallies.has_access {e : Option Right} (h : Tallies s cnt e) (a : Access) :
    has ((e.map Right.access).getD 0) a = true ↔ cnt a ≠ 0 := by
  cases h with
  | absent h0 => simp [h0]
  | entry _ hreads hb =>
    rw [Option.map_some, Option.getD_some, hreads.has_access, decide_eq_true_iff, ne_eq,
      ofNat_eq_zero (hb a)]

theorem refs_of_reads (h : ReadsAs r s marker fun a => BitVec.ofNat 16 (cnt a))
    (hb : ∀ a, cnt a < 2 ^ 16) (a : Access) : refs r a = cnt a := by
  rw [refs, refCount, h.lookup_letter]
  split_ifs with h0
  · exact ((ofNat_eq_zero (hb a)).mp h0).symm
  · rw [Option.getD_some, BitVec.toNat_ofNat, Nat.mod_eq_of_lt (hb a)]

theorem tidy_of_reads (h : ReadsAs r s marker fun a => BitVec.ofNat 16 (cnt a)) : Tidy r := by
  constructor
  · intro c hc
    obtain ⟨n, hn⟩ := Option.isSome_iff_exists.mp (AList.lookup_isSome.mpr hc)
    rcases h.lookup_other c n hn with hl | ⟨rfl, hm, -⟩
    · exact .inl hl
    · exact .inr hm
  · have hmark : ∀ c, IsMark c →
        ((r.counters.lookup c).map BitVec.toNat).getD 0 ≤ if c = marker then 1 else 0 := by
      intro c hc
      cases hl : r.counters.lookup c with
      | none => exact Nat.zero_le _
      | some n =>
        rcases h.lookup_other c n hl with ⟨a, rfl⟩ | ⟨rfl, -, rfl⟩
        · rcases hc with hc | hc
          · exact absurd hc (letter_ne_marker a).1
          · exact absurd hc (letter_ne_marker a).2
        · simp
    have h1 := hmark mIsExclusive (.inl rfl)
    have h2 := hmark mIgnoreExclusive (.inr rfl)
    unfold markCount
    by_cases hx : mIsExclusive = marker
    · rw [if_neg fun h => absurd (hx.trans h.symm) (by decide)] at h2
      split_ifs at h1
      omega
    · rw [if_neg hx] at h1
      split_ifs at h2
      · omega
      · omega

theorem balanced_of_reads (h : ReadsAs r s marker fun a => BitVec.ofNat 16 (cnt a))
    (hb : ∀ a, cnt a < 2 ^ 16) : Balanced s cnt (markCount r) r where
  id_eq := h.id_eq
  tidy := tidy_of_reads h
  refs_eq := refs_of_reads h hb
  has_access a := by
    rw [h.has_access, decide_eq_decide, not_iff_not, ofNat_eq_zero (hb a)]
  deleted hd := by rw [h.isDeleted_eq] at hd; exact absurd hd (by decide)
  marks_eq := rfl

end Reads

/-! ## Entries as they are written -/

/-- The entry of a subject after its record is written and read again. -/
def rewritten (π : IterOrder Char) (s : String) (e : Option Right) : Option Right :=
  (e.filter fun r => r.isDeleted = false).map fun r =>
    decodeValue s (encodeValue π r 2) true

/-- **What is read back from a written entry**: its references, and one for a bit of the access
byte without references.

**Proof sketch.** In the letter form these are the counts that are written. The hex form is
used when the counters sum to at most `1`; the byte survives it, and each of its bits is read
with the count `1`. -/
theorem tallies_written (π : IterOrder Char) {s : String} (cnt : Access → ℕ) {r : Right}
    (hid : r.id = s) (htext : ';' ∉ s.toList) (hlive : r.isDeleted = false) (ht : Tidy r)
    (hlt : totalCount r < 2 ^ 16)
    (hcnt : ∀ a, cnt a = if refs r a ≠ 0 then refs r a else if has r.access a then 1 else 0)
    (hhex : totalCount r < 2 →
      HexStable r.access ∧ ∀ a, refs r a ≠ 0 → has r.access a = true) :
    Writable s r 2 ∧ Tallies s cnt (rewritten π s (some r)) := by
  have hform : hexForm r 2 ↔ totalCount r < 2 := by
    unfold hexForm
    rw [BitVec.lt_def, toNat_summCounters, Nat.mod_eq_of_lt hlt]
    exact ⟨fun h => h.resolve_right (by decide), .inl⟩
  have hzero : ∀ a, refs r a = 0 ↔ refCount r a = 0 := fun a =>
    ⟨fun h => BitVec.eq_of_toNat_eq h, fun h => by rw [refs, h]; rfl⟩
  have hbound : ∀ a, cnt a < 2 ^ 16 := by
    intro a
    have := ht.refs_le a
    rw [hcnt a]
    split_ifs <;> omega
  have hvalue : hexForm r 2 ∨ ∃ a, letterCount r a ≠ 0 := by
    by_cases hx : totalCount r < 2
    · exact .inl (hform.mpr hx)
    · obtain ⟨a, ha⟩ := ht.exists_refs (by omega)
      refine .inr ⟨a, ?_⟩
      have ha' : refCount r a ≠ 0 := fun h => ha ((hzero a).mpr h)
      rwa [letterCount, if_pos ha']
  refine ⟨⟨hid, htext, hvalue⟩, ?_⟩
  have hread := decodeValue_encodeValue π s r 2 hvalue
  have hcount : writtenCount r 2 = fun a => BitVec.ofNat 16 (cnt a) := by
    funext a
    refine BitVec.eq_of_toNat_eq ?_
    rw [BitVec.toNat_ofNat, Nat.mod_eq_of_lt (hbound a), hcnt a, writtenCount]
    by_cases hx : totalCount r < 2
    · obtain ⟨hs, hin⟩ := hhex hx
      rw [if_pos (hform.mpr hx), (readHex_eq_self _).mpr hs]
      have hle := ht.refs_le a
      by_cases hr : refs r a = 0
      · rw [if_neg (not_not.mpr hr)]
        split_ifs <;> rfl
      · rw [if_pos hr, if_pos (hin a hr)]
        show 1 = refs r a
        omega
    · rw [if_neg fun h => hx (hform.mp h), letterCount]
      by_cases hr : refs r a = 0
      · rw [if_neg (not_not.mpr ((hzero a).mp hr)), if_neg (not_not.mpr hr)]
        split_ifs <;> rfl
      · rw [if_pos fun h => hr ((hzero a).mpr h), if_pos hr]
        rfl
  rw [hcount] at hread
  simp only [rewritten, Option.filter_some, hlive]
  exact .entry htext hread hbound

/-! ## Changes of an entry -/

/-- A change may grant the bits of `x` by `n` visits to an entry: the counters do not overflow,
a byte that is written in the hex form survives it, an entry with a reference is not replaced
by one without, and a subject without an entry is visited at most once. -/
def GrantFits (x : U8) (s : String) (n : ℕ) : Option Right → Prop
  | none => n = 0 ∨ (';' ∉ s.toList ∧ HexStable x ∧ (n = 1 ∨ x = 0))
  | some r => totalCount r + n * weight x < 2 ^ 16 ∧
    (totalCount r + n * weight x < 2 →
      if n = 0 then HexStable r.access else HexStable x ∧ (x = 0 → r.access = 0))

/-- A change may take the bits of `p` back by `n` visits to an entry: a byte that is written in
the hex form survives it. -/
def WithdrawalFits (p : U8) (n : ℕ) : Option Right → Prop
  | none => True
  | some r => totalCount r < 2 ^ 16 ∧
    (totalCount r - n * weight p < 2 → ∀ a, has r.access a = true →
      ¬ (has p a = true ∧ refs r a = n) → a.toU8.toNat < 16)

section Changes

variable (marker : Char) {s : String} {cnt : Access → ℕ} {e : Option Right}

theorem tallies_kept (π : IterOrder Char) {r : Right} (h : Tallies s cnt (some r))
    (hlt : totalCount r < 2 ^ 16) (hhex : totalCount r < 2 → HexStable r.access) :
    Writable s r 2 ∧ Tallies s cnt (rewritten π s (some r)) := by
  cases h with
  | entry htext hreads hb =>
    have hbal := balanced_of_reads hreads hb
    refine tallies_written π cnt hbal.id_eq htext hreads.isDeleted_eq hbal.tidy hlt ?_ ?_
    · intro a
      rw [hbal.refs_eq, hbal.has_access]
      by_cases h0 : cnt a = 0 <;> simp [h0]
    · refine fun h2 => ⟨hhex h2, fun a ha => ?_⟩
      rw [hbal.has_access]
      simpa [hbal.refs_eq] using ha

/-- **A grant adds its references**, one for each visit and bit. -/
theorem tallies_grant (π : IterOrder Char) {p x : U8} {n : ℕ} (h : Tallies s cnt e)
    (hf : GrantFits x s n e) (e' : Option Right)
    (he' : (fun e => some (touch marker p x false s e))^[n] e = e') :
    (∀ r, e' = some r → r.isDeleted = false → Writable s r 2) ∧
      Tallies s (fun a => cnt a + n * bitOf x a) (rewritten π s e') := by
  cases n with
  | zero =>
    obtain rfl : e = e' := he'
    simp only [Nat.zero_mul, Nat.add_zero]
    cases e with
    | none =>
      cases h with
      | absent h0 => exact ⟨by simp, .absent h0⟩
    | some r =>
      obtain ⟨hlt, hhex⟩ := hf
      simp only [Nat.zero_mul, Nat.add_zero, if_true] at hlt hhex
      obtain ⟨hw, ht⟩ := tallies_kept π h hlt hhex
      exact ⟨fun r' hr' _ => Option.some.inj hr' ▸ hw, ht⟩
  | succ n =>
    cases h with
    | absent h0 =>
      obtain ⟨htext, hs, hn⟩ := hf.resolve_left (Nat.succ_ne_zero n)
      have hmul : ∀ a, n * bitOf x a = 0 := by
        intro a
        rcases hn with hn | rfl
        · rw [Nat.succ.inj hn, Nat.zero_mul]
        · simp [bitOf]
      obtain ⟨r', hr', hg⟩ := iterate_grant marker p (s := s) n
        (granted_fresh marker p (x := x)) fun a => by rw [hmul]; decide
      rw [Function.iterate_succ_apply] at he'
      obtain rfl : some r' = e' := hr'.symm.trans he'
      have htotal : totalCount r' = 0 := by
        rw [hg.tidy.total_eq, hg.marks_eq]
        refine Nat.add_eq_zero_iff.mpr ⟨List.sum_eq_zero fun m hm => ?_, rfl⟩
        obtain ⟨a, -, rfl⟩ := List.mem_map.mp hm
        rw [hg.refs_eq, Nat.zero_add, hmul]
      have hrefs : ∀ a, refs r' a = 0 := fun a => by
        have := hg.tidy.refs_le a
        omega
      obtain ⟨hw, ht⟩ := tallies_written π (fun a => cnt a + (n + 1) * bitOf x a)
        hg.id_eq htext hg.live hg.tidy (by omega)
        (fun a => by
          have := hmul a
          rw [h0 a, Nat.succ_mul, this, hrefs, hg.access_eq]
          simp [bitOf])
        fun _ => ⟨by rw [hg.access_eq]; exact hs, fun a ha => absurd (hrefs a) ha⟩
      exact ⟨fun r hr _ => Option.some.inj hr ▸ hw, ht⟩
    | @entry r m htext hreads hb =>
      obtain ⟨hlt, hhex⟩ := hf
      rw [if_neg (Nat.succ_ne_zero n)] at hhex
      have hbal := balanced_of_reads hreads hb
      have hbound : ∀ a, refs r a + (n + 1) * bitOf x a < 2 ^ 16 := fun a => by
        have h1 := hbal.tidy.refs_le a
        have h2 := Nat.mul_le_mul_left (n + 1) (bitOf_le_weight x a)
        omega
      have hstep : ∀ a, (n + 1) * bitOf x a = bitOf x a + n * bitOf x a := fun a => by
        rw [Nat.succ_mul, Nat.add_comm]
      have hg := granted_touch marker p (x := x) hbal.id_eq hbal.tidy
        fun a => by have := hbound a; rw [hstep] at this; omega
      obtain ⟨r', hr', hg⟩ := iterate_grant marker p n hg fun a => by
        have := hbound a
        rw [hstep] at this
        omega
      rw [Function.iterate_succ_apply] at he'
      obtain rfl : some r' = e' := hr'.symm.trans he'
      have hrefs : ∀ a, refs r' a = refs r a + (n + 1) * bitOf x a := fun a => by
        rw [hg.refs_eq, hstep, Nat.add_assoc]
      have htotal := hbal.tidy.total_add hg.tidy hg.marks_eq hrefs
      have hin : totalCount r' < 2 → ∀ a, refs r' a ≠ 0 → has x a = true := by
        intro h2 a ha
        by_contra hx
        have hbit : bitOf x a = 0 := if_neg hx
        rw [hrefs, hbit, Nat.mul_zero, Nat.add_zero] at ha
        have hle := hbal.tidy.refs_le a
        have hw : weight x = 0 := by
          by_contra hw
          have := Nat.mul_le_mul (Nat.le_add_left 1 n) (Nat.one_le_iff_ne_zero.mpr hw)
          omega
        have hzero := (hhex (htotal ▸ h2)).2 (eq_zero_of_weight hw)
        have hacc := hbal.has_access a
        rw [hzero, ← hbal.refs_eq] at hacc
        simp [ha] at hacc
      obtain ⟨hw, ht⟩ := tallies_written π (fun a => cnt a + (n + 1) * bitOf x a)
        hg.id_eq htext hg.live hg.tidy (htotal ▸ hlt)
        (fun a => by
          rw [hrefs, hbal.refs_eq, hg.access_eq]
          by_cases hx : has x a = true
          · have hbit : bitOf x a = 1 := if_pos hx
            rw [hbit, if_pos (by omega)]
          · have hbit : bitOf x a = 0 := if_neg hx
            rw [hbit, Nat.mul_zero, Nat.add_zero, if_neg hx]
            split_ifs with h0
            · rfl
            · exact not_not.mp h0)
        fun h2 => by
          rw [hg.access_eq]
          exact ⟨(hhex (htotal ▸ h2)).1, hin h2⟩
      exact ⟨fun r hr _ => Option.some.inj hr ▸ hw, ht⟩

theorem hexStable_of_allow (x : U8) (h : ∀ a, has x a = true → a.toU8.toNat < 16) :
    HexStable x := by
  refine .inl ?_
  have hdec : ∀ x : U8, (∀ a ∈ Access.all, has x a = true → a.toU8.toNat < 16) →
      x.toNat < 16 := by decide
  exact hdec x fun a _ => h a

/-- **A withdrawal takes its references back**, one for each visit and bit. -/
theorem tallies_withdraw (π : IterOrder Char) {p x : U8} {n : ℕ} (h : Tallies s cnt e)
    (hf : WithdrawalFits p n e) (hp : ∀ a, n * bitOf p a ≤ cnt a) (e' : Option Right)
    (he' : (fun e => some (touch marker p x true s e))^[n] e = e') :
    (∀ r, e' = some r → r.isDeleted = false → Writable s r 2) ∧
      Tallies s (fun a => cnt a - n * bitOf p a) (rewritten π s e') := by
  cases h with
  | absent h0 =>
    cases n with
    | zero =>
      obtain rfl : none = e' := he'
      exact ⟨by simp, .absent fun a => by rw [h0, Nat.zero_sub]⟩
    | succ n =>
      obtain ⟨r', hr', hdel, -⟩ := iterate_withdraw_none marker x (p := p) (s := s) n
      obtain rfl : some r' = e' := hr'.symm.trans he'
      refine ⟨fun r hr hlive => ?_, ?_⟩
      · obtain rfl := Option.some.inj hr
        rw [hdel] at hlive
        exact absurd hlive (by decide)
      · simp only [rewritten, Option.filter_some, hdel]
        exact .absent fun a => by rw [h0, Nat.zero_sub]
  | @entry r m htext hreads hb =>
    obtain ⟨hlt, hhex⟩ := hf
    have hbal := balanced_of_reads hreads hb
    obtain ⟨r', hr', hbal'⟩ := iterate_withdraw marker x n hbal hp
    obtain rfl : some r' = e' := hr'.symm.trans he'
    cases hdel : r'.isDeleted with
    | true =>
      refine ⟨fun r hr hlive => ?_, ?_⟩
      · obtain rfl := Option.some.inj hr
        rw [hdel] at hlive
        exact absurd hlive (by decide)
      · simp only [rewritten, Option.filter_some, hdel]
        refine .absent fun a => ?_
        have := hbal'.has_access a
        rw [hbal'.deleted hdel] at this
        simpa using this
    | false =>
      have htotal : totalCount r = totalCount r' + n * weight p :=
        hbal'.tidy.total_add hbal.tidy (hbal'.marks_eq.symm) fun a => by
          rw [hbal.refs_eq, hbal'.refs_eq, Nat.sub_add_cancel (hp a)]
      obtain ⟨hw, ht⟩ := tallies_written π (fun a => cnt a - n * bitOf p a)
        hbal'.id_eq htext hdel hbal'.tidy (by omega)
        (fun a => by
          rw [hbal'.refs_eq, hbal'.has_access]
          by_cases h0 : cnt a - n * bitOf p a = 0 <;> simp [h0])
        fun h2 => by
          refine ⟨hexStable_of_allow _ fun a ha => hhex (by omega) a ?_ ?_, fun a ha => ?_⟩
          · have h1 := hbal'.has_access a
            rw [ha] at h1
            have h1' := of_decide_eq_true h1.symm
            rw [hbal.has_access]
            exact decide_eq_true fun h0 => h1' (by rw [h0, Nat.zero_sub])
          · rintro ⟨hpa, hn⟩
            have hbit : bitOf p a = 1 := if_pos hpa
            have h1 := hbal'.has_access a
            rw [ha, hbit, ← hbal.refs_eq, hn] at h1
            simp at h1
          · rw [hbal'.has_access]
            rw [hbal'.refs_eq] at ha
            exact decide_eq_true ha
      refine ⟨fun r hr _ => ?_, ht⟩
      obtain rfl := Option.some.inj hr
      exact hw

end Changes

end Veda.Indexer
