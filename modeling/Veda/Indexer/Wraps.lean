import Veda.Indexer.Visits

set_option autoImplicit false

/-!
# Reference counts that do not wrap

The counters are 16-bit numbers. A change takes references back once for every place of a subject
in a list, and the first place of a subject in a new entry is not counted, so that a subject that
is listed twice is counted once and taken back twice. This file says which records a change may
meet without a counter, or the sum that the writer makes of the counters, leaving its range.

## Main definitions

* `Indexer.UpdateSafe` — one call of `updateCounters` without a wrap.
* `Indexer.NeverWraps` — a history without a wrap.
* `Indexer.CountsFit` — the entries that the changes of a history may meet.

## Main results

* `Indexer.neverWraps_of_countsFit` — a history whose changes fit the entries never wraps.
-/

namespace Veda.Indexer

open Veda.Lib Veda.Onto Veda.Authorization

/-! ## What must not happen -/

/-- A round of the loop of `updateCounters` subtracts nothing from `0` and adds nothing to
`65535`. -/
def RoundSafe (prevAccess : U8) (isDeleted : Bool) (st : Counters × U8) (accessC : Char) : Prop :=
  match access8FromChar accessC, st.1.lookup accessC with
  | some checkBit, some cc =>
    st.2 &&& checkBit ≠ 0 →
      if isDeleted then prevAccess &&& checkBit ≠ 0 → cc ≠ 0 else cc ≠ 65535
  | _, _ => True

/-- The rounds for some letters. -/
def RoundsSafe (prevAccess : U8) (isDeleted : Bool) : List Char → Counters × U8 → Prop
  | [], _ => True
  | c :: l, st => RoundSafe prevAccess isDeleted st c ∧
    RoundsSafe prevAccess isDeleted l (updateCounter prevAccess isDeleted st c)

/-- A call of `updateCounters` without a wrap. -/
def UpdateSafe (counters : Counters) (prevAccess curAccess : U8) (isDeleted : Bool) : Prop :=
  RoundsSafe prevAccess isDeleted accessCFullList (counters, curAccess)

/-- A visit to an entry calls `updateCounters` without a wrap. -/
def Visit.TouchSafe (v : Visit) : Option Right → Prop
  | some rr => UpdateSafe rr.counters v.prevAccess
    (if v.isDeleted then rr.access ||| v.prevAccess else v.newAccess) v.isDeleted
  | none => True

/-- The visits of a write, one after another. -/
def Visit.TouchesSafe (v : Visit) : List String → RightSet → Prop
  | [], _ => True
  | s :: l, rights => v.TouchSafe (rights.lookup s) ∧
    v.TouchesSafe l (updateEntry v.marker v.isDeleted v.prevAccess v.newAccess rights s)

/-- The sum that the writer makes of the counters of each entry is a 16-bit number. -/
def SumsFit (rights : RightSet) : Prop :=
  ∀ s r, rights.lookup s = some r → r.isDeleted = false → totalCount r < 2 ^ 16

/-- The writes of a change, one after another. -/
def WritesSafe : List Visit → Context → Prop
  | [], _ => True
  | v :: vs, ctx => (v.TouchesSafe v.inSet (entriesAt ctx v.key) ∧
    SumsFit (v.entries (entriesAt ctx v.key))) ∧ WritesSafe vs (write ctx v)

/-- A history without a wrap. -/
def NeverWraps (k : Kind) : List (String × Statement) → World → Prop
  | [], _ => True
  | c :: hist, w => WritesSafe (k.visits (w.latest c.1) c.2) w.ctx ∧
    NeverWraps k hist (k.after w c)

/-! ## The entries that a change may meet -/

/-- A write may visit an entry `n` times. A write that takes back finds, for each of its bits, no
counter or at least `n` references; one that grants leaves a sum of counters below `2 ^ 16`, the
first visit to a subject without an entry being uncounted. -/
def Visit.Fits (v : Visit) (n : ℕ) : Option Right → Prop
  | none => v.isDeleted = true ∨ (n - 1) * weight v.newAccess < 2 ^ 16
  | some r =>
    if v.isDeleted then totalCount r < 2 ^ 16 ∧
      ∀ a ∈ Access.all, has v.prevAccess a = true →
        r.counters.lookup a.letter = none ∨ n ≤ refs r a
    else totalCount r + n * weight v.newAccess < 2 ^ 16

/-- The writes of a change fit the records that they meet. -/
def VisitsFit : List Visit → Context → Prop
  | [], _ => True
  | v :: vs, ctx => (∀ s ∈ (entriesAt ctx v.key).keys ++ v.inSet,
      v.Fits (v.inSet.count s) ((entriesAt ctx v.key).lookup s)) ∧ VisitsFit vs (write ctx v)

/-- The changes of a history fit the records that they meet. -/
def CountsFit (k : Kind) : List (String × Statement) → World → Prop
  | [], _ => True
  | c :: hist, w => VisitsFit (k.visits (w.latest c.1) c.2) w.ctx ∧ CountsFit k hist (k.after w c)

instance (v : Visit) (n : ℕ) : ∀ e, Decidable (v.Fits n e)
  | none => by unfold Visit.Fits; infer_instance
  | some r => by unfold Visit.Fits; infer_instance

instance VisitsFit.instDecidable : ∀ vs ctx, Decidable (VisitsFit vs ctx)
  | [], _ => .isTrue trivial
  | v :: vs, ctx =>
    have := VisitsFit.instDecidable vs (write ctx v)
    inferInstanceAs (Decidable (_ ∧ _))

instance CountsFit.instDecidable (k : Kind) : ∀ hist w, Decidable (CountsFit k hist w)
  | [], _ => .isTrue trivial
  | c :: hist, w =>
    have := CountsFit.instDecidable k hist (k.after w c)
    inferInstanceAs (Decidable (_ ∧ _))

instance (p : U8) (isDeleted : Bool) (st : Counters × U8) (c : Char) :
    Decidable (RoundSafe p isDeleted st c) := by
  unfold RoundSafe
  split <;> infer_instance

instance RoundsSafe.instDecidable (p : U8) (isDeleted : Bool) :
    ∀ l st, Decidable (RoundsSafe p isDeleted l st)
  | [], _ => .isTrue trivial
  | c :: l, st =>
    have := RoundsSafe.instDecidable p isDeleted l (updateCounter p isDeleted st c)
    inferInstanceAs (Decidable (_ ∧ _))

instance (v : Visit) : ∀ e, Decidable (v.TouchSafe e)
  | none => .isTrue trivial
  | some _ => by unfold Visit.TouchSafe UpdateSafe; infer_instance

instance Visit.TouchesSafe.instDecidable (v : Visit) :
    ∀ l rights, Decidable (v.TouchesSafe l rights)
  | [], _ => .isTrue trivial
  | s :: l, rights =>
    have := Visit.TouchesSafe.instDecidable v l
      (updateEntry v.marker v.isDeleted v.prevAccess v.newAccess rights s)
    inferInstanceAs (Decidable (_ ∧ _))

instance : DecidablePred SumsFit := fun rights =>
  decidable_of_iff (∀ s ∈ rights.keys, ∀ r ∈ rights.lookup s,
      r.isDeleted = false → totalCount r < 2 ^ 16)
    ⟨fun h s r hs => h s (AList.mem_keys.mp (AList.lookup_isSome.mp (by rw [hs]; rfl))) r hs,
      fun h s _ r hs => h s r hs⟩

instance WritesSafe.instDecidable : ∀ vs ctx, Decidable (WritesSafe vs ctx)
  | [], _ => .isTrue trivial
  | v :: vs, ctx =>
    have := WritesSafe.instDecidable vs (write ctx v)
    inferInstanceAs (Decidable (_ ∧ _))

instance NeverWraps.instDecidable (k : Kind) : ∀ hist w, Decidable (NeverWraps k hist w)
  | [], _ => .isTrue trivial
  | c :: hist, w =>
    have := NeverWraps.instDecidable k hist (k.after w c)
    inferInstanceAs (Decidable (_ ∧ _))

/-! ## One call of `updateCounters` -/

/-- The sum of some counters. -/
def countersSum (m : Counters) : ℕ := (m.entries.map fun e => e.2.toNat).sum

theorem totalCount_eq (r : Right) : totalCount r = countersSum r.counters := rfl

theorem le_countersSum {m : Counters} {c : Char} {n : BitVec 16} (h : m.lookup c = some n) :
    n.toNat ≤ countersSum m :=
  List.single_le_sum (fun _ _ => Nat.zero_le _) _
    (List.mem_map_of_mem (AList.mem_lookup_iff.mp h))

/-- What keeps the round of a letter from wrapping. -/
def LetterSafe (prev cur isDeleted : Bool) : Option (BitVec 16) → Prop
  | some cc => cur = true → if isDeleted then prev = true → cc ≠ 0 else cc ≠ 65535
  | none => True

theorem roundSafe_letter (prev : U8) (isDeleted : Bool) (m : Counters) (out : U8) (a : Access) :
    RoundSafe prev isDeleted (m, out) a.letter ↔
      LetterSafe (has prev a) (has out a) isDeleted (m.lookup a.letter) := by
  have hbit : ∀ x : U8, x &&& a.toU8 ≠ 0 ↔ has x a = true := fun x => by
    rw [and_toU8_ne_zero]
  unfold RoundSafe LetterSafe
  simp only [access8FromChar_letter]
  cases m.lookup a.letter with
  | none => rfl
  | some cc =>
    dsimp only
    rw [hbit, hbit]

theorem roundsSafe_letters (prev : U8) (isDeleted : Bool) (l : List Access) (hl : l.Nodup)
    (m : Counters) (out : U8) :
    RoundsSafe prev isDeleted (l.map Access.letter) (m, out) ↔
      ∀ a ∈ l, LetterSafe (has prev a) (has out a) isDeleted (m.lookup a.letter) := by
  induction l generalizing m out with
  | nil => simp [RoundsSafe]
  | cons b l ih =>
    rw [List.nodup_cons] at hl
    obtain ⟨-, -, hcounters, hbits⟩ := updateCounter_letter prev isDeleted m out b
    rw [List.map_cons, RoundsSafe, roundSafe_letter, ih hl.2, List.forall_mem_cons]
    refine and_congr_right fun _ => forall₂_congr fun a ha => ?_
    have hab : a ≠ b := fun h => hl.1 (h ▸ ha)
    rw [hcounters a.letter fun h => hab (letter_injective.mp h), hbits a hab]

/-- **A call without a wrap**: each letter depends on its own counter and bit. -/
theorem updateSafe_iff (counters : Counters) (prev cur : U8) (isDeleted : Bool) :
    UpdateSafe counters prev cur isDeleted ↔
      ∀ a, LetterSafe (has prev a) (has cur a) isDeleted (counters.lookup a.letter) := by
  rw [UpdateSafe, accessCFullList_eq, roundsSafe_letters prev isDeleted _ Access.nodup_all]
  exact ⟨fun h a => h a (Access.mem_all a), fun h a _ => h a⟩

theorem countersSum_letter (prev : U8) (isDeleted : Bool) (m : Counters) (out : U8) (a : Access)
    (h : LetterSafe (has prev a) (has out a) isDeleted (m.lookup a.letter)) :
    countersSum (updateCounter prev isDeleted (m, out) a.letter).1 ≤
      countersSum m + if isDeleted then 0 else bitOf out a := by
  have hinsert : ∀ n : BitVec 16, countersSum (m.insert a.letter n) +
      ((m.lookup a.letter).map BitVec.toNat).getD 0 = countersSum m + n.toNat :=
    HashMap.sum_insert BitVec.toNat m a.letter
  have hbit : ∀ x : U8, x &&& a.toU8 ≠ 0 ↔ has x a = true := fun x => by
    rw [and_toU8_ne_zero]
  unfold updateCounter
  simp only [access8FromChar_letter, hbit]
  cases hm : m.lookup a.letter with
  | none =>
    rw [hm, Option.map_none, Option.getD_none] at hinsert
    dsimp only
    by_cases hset : (!isDeleted) = true ∧ has out a = true
    · have h1 := hinsert 1
      rw [if_pos hset, if_neg (by simpa using hset.1), bitOf, if_pos hset.2]
      exact h1.le
    · rw [if_neg hset]
      exact Nat.le_add_right _ _
  | some cc =>
    rw [hm] at h hinsert
    rw [Option.map_some, Option.getD_some] at hinsert
    unfold LetterSafe at h
    dsimp only at h ⊢
    by_cases hout : has out a = true
    · simp only [hout, if_true, forall_const] at h ⊢
      cases isDeleted with
      | true =>
        by_cases hp : has prev a = true
        · simp only [hp, if_true, forall_const] at h ⊢
          have h1 := hinsert (cc - 1)
          have hsub : (cc - 1).toNat ≤ cc.toNat := by
            have hne : cc.toNat ≠ 0 := fun h0 => h (BitVec.eq_of_toNat_eq h0)
            bv_omega
          omega
        · simp [hp]
      | false =>
        simp only [Bool.false_eq_true, if_false] at h ⊢
        have h1 := hinsert (cc + 1)
        have hadd : (cc + 1).toNat ≤ cc.toNat + 1 := by
          rw [BitVec.toNat_add]
          exact Nat.mod_le _ _
        rw [bitOf, if_pos hout]
        omega
    · simp only [hout, Bool.false_eq_true, if_false]
      omega

theorem countersSum_letters (prev : U8) (isDeleted : Bool) (l : List Access) (hl : l.Nodup)
    (m : Counters) (out : U8)
    (h : ∀ a ∈ l, LetterSafe (has prev a) (has out a) isDeleted (m.lookup a.letter)) :
    countersSum ((l.map Access.letter).foldl (updateCounter prev isDeleted) (m, out)).1 ≤
      countersSum m + if isDeleted then 0 else (l.map (bitOf out)).sum := by
  induction l generalizing m out with
  | nil => simp
  | cons b l ih =>
    rw [List.nodup_cons] at hl
    obtain ⟨-, -, hcounters, hbits⟩ := updateCounter_letter prev isDeleted m out b
    have hb := countersSum_letter prev isDeleted m out b (h b List.mem_cons_self)
    have hne : ∀ a ∈ l, a ≠ b := fun a ha hab => hl.1 (hab ▸ ha)
    have hrest := ih hl.2 (updateCounter prev isDeleted (m, out) b.letter).1
      (updateCounter prev isDeleted (m, out) b.letter).2 fun a ha => by
        rw [hbits a (hne a ha),
          hcounters a.letter fun h => hne a ha (letter_injective.mp h)]
        exact h a (List.mem_cons_of_mem _ ha)
    have hsum : (l.map (bitOf (updateCounter prev isDeleted (m, out) b.letter).2)).sum =
        (l.map (bitOf out)).sum := by
      apply congrArg
      apply List.map_congr_left
      intro a ha
      rw [bitOf, bitOf, hbits a (hne a ha)]
    rw [Prod.mk.eta, hsum] at hrest
    rw [List.map_cons, List.foldl_cons, List.map_cons, List.sum_cons]
    split_ifs at hb hrest ⊢ <;> omega

theorem countersSum_updateCounters {counters : Counters} {prev cur : U8} {isDeleted : Bool}
    (h : UpdateSafe counters prev cur isDeleted) :
    countersSum (updateCounters counters prev cur isDeleted).1 ≤
      countersSum counters + if isDeleted then 0 else weight cur := by
  rw [updateSafe_iff] at h
  rw [updateCounters, accessCFullList_eq]
  exact countersSum_letters prev isDeleted _ Access.nodup_all counters cur fun a _ => h a

/-! ## The visits of a write -/

theorem updateSafe_of_room {counters : Counters} (prev : U8) {x : U8}
    (h : countersSum counters + weight x < 2 ^ 16) : UpdateSafe counters prev x false := by
  rw [updateSafe_iff]
  intro a
  cases hc : counters.lookup a.letter with
  | none => trivial
  | some cc =>
    intro hx hmax
    have h1 := le_countersSum hc
    have h2 := bitOf_le_weight x a
    rw [bitOf, if_pos hx] at h2
    rw [hmax] at h1
    have h3 : (65535 : BitVec 16).toNat = 65535 := rfl
    omega

namespace Visit

variable {v : Visit} {n : ℕ}

/-- **A visit to an entry that it fits** does not wrap, and leaves an entry that the other visits
of the write fit. -/
theorem Fits.touch {e : Option Right} (h : v.Fits (n + 1) e) (s : String) :
    v.TouchSafe e ∧
      v.Fits n (some (touch v.marker v.prevAccess v.newAccess v.isDeleted s e)) := by
  cases e with
  | none =>
    refine ⟨trivial, ?_⟩
    have hzero : totalCount
        (Indexer.touch v.marker v.prevAccess v.newAccess v.isDeleted s none) = 0 := rfl
    unfold Fits at h ⊢
    dsimp only at h ⊢
    rw [hzero]
    split_ifs with hdel
    · exact ⟨by decide, fun a _ _ => .inl rfl⟩
    · have hroom := h.resolve_left hdel
      rwa [Nat.add_sub_cancel, ← Nat.zero_add (n * weight v.newAccess)] at hroom
  | some r =>
    unfold Fits at h ⊢
    unfold TouchSafe
    dsimp only at h ⊢
    by_cases hdel : v.isDeleted = true
    · rw [if_pos hdel] at h ⊢
      rw [if_pos hdel, hdel]
      obtain ⟨htotal, hrefs⟩ := h
      have hsafe : UpdateSafe r.counters v.prevAccess (r.access ||| v.prevAccess) true := by
        rw [updateSafe_iff]
        intro a
        cases hc : r.counters.lookup a.letter with
        | none => trivial
        | some cc =>
          intro _ hp h0
          have hle := hrefs a (Access.mem_all a) hp
          rw [hc, refs_eq, hc, h0] at hle
          simp at hle
      refine ⟨hsafe, ?_⟩
      rw [touch_withdraw]
      have hsum := countersSum_updateCounters hsafe
      rw [if_pos rfl, Nat.add_zero] at hsum
      rw [totalCount_eq] at htotal
      refine ⟨?_, fun a ha hp => ?_⟩
      · rw [totalCount_eq]
        dsimp only
        omega
      have hle := hrefs a ha hp
      rw [lookup_updateCounters, refs_eq, lookup_updateCounters, has_or, hp, Bool.or_true]
      rw [refs_eq] at hle
      cases hc : r.counters.lookup a.letter with
      | none => exact .inl rfl
      | some cc =>
        rw [hc] at hle
        simp only [reduceCtorEq, false_or, Option.map_some, Option.getD_some] at hle
        refine .inr ?_
        simp only [nextCount, if_true, Option.map_some, Option.getD_some]
        bv_omega
    · rw [if_neg hdel] at h ⊢
      have hfalse : v.isDeleted = false := Bool.eq_false_of_not_eq_true hdel
      rw [if_neg hdel, hfalse]
      have hroom : countersSum r.counters + weight v.newAccess < 2 ^ 16 := by
        rw [Nat.succ_mul, totalCount_eq] at h
        omega
      have hsafe := updateSafe_of_room v.prevAccess hroom
      refine ⟨hsafe, ?_⟩
      rw [touch_grant]
      have hsum := countersSum_updateCounters hsafe
      rw [if_neg Bool.false_ne_true] at hsum
      rw [Nat.succ_mul, totalCount_eq] at h
      rw [totalCount_eq]
      dsimp only
      omega

theorem Fits.total_lt {r : Right} (h : v.Fits n (some r)) : totalCount r < 2 ^ 16 := by
  unfold Fits at h
  dsimp only at h
  split_ifs at h with hdel
  · exact h.1
  · omega

/-- The visits of a write to a record that it fits.

**Proof sketch.** Induction on the list of subjects. The visit to the first one leaves an entry
that its other visits fit, and the entries of the others as they are. -/
theorem touchesSafe_of_fits (l : List String) (rights : RightSet)
    (h : ∀ s, v.Fits (l.count s) (rights.lookup s)) :
    v.TouchesSafe l rights ∧
      SumsFit (l.foldl (updateEntry v.marker v.isDeleted v.prevAccess v.newAccess) rights) := by
  induction l generalizing rights with
  | nil =>
    refine ⟨trivial, fun s r hs _ => ?_⟩
    have hs' := h s
    rw [show rights.lookup s = some r from hs] at hs'
    exact hs'.total_lt
  | cons t l ih =>
    have ht := h t
    rw [List.count_cons_self] at ht
    obtain ⟨hsafe, hfits⟩ := ht.touch t
    obtain ⟨htouches, hsums⟩ := ih
      (updateEntry v.marker v.isDeleted v.prevAccess v.newAccess rights t) fun s => by
        rw [updateEntry_eq]
        by_cases hst : s = t
        · subst hst
          rw [AList.lookup_insert]
          exact hfits
        · have hs := h s
          rw [List.count_cons_of_ne fun h => hst h.symm] at hs
          rw [AList.lookup_insert_ne hst]
          exact hs
    exact ⟨⟨hsafe, htouches⟩, hsums⟩

theorem fits_of_mem {rights : RightSet}
    (h : ∀ s ∈ rights.keys ++ v.inSet, v.Fits (v.inSet.count s) (rights.lookup s)) (s : String) :
    v.Fits (v.inSet.count s) (rights.lookup s) := by
  by_cases hs : s ∈ rights.keys ++ v.inSet
  · exact h s hs
  · rw [List.mem_append, not_or] at hs
    rw [AList.lookup_eq_none.mpr fun hm => hs.1 (AList.mem_keys.mp hm),
      List.count_eq_zero.mpr hs.2]
    refine .inr ?_
    rw [Nat.zero_sub, Nat.zero_mul]
    decide

end Visit

/-! ## Histories -/

theorem writesSafe_of_fits (vs : List Visit) (ctx : Context) (h : VisitsFit vs ctx) :
    WritesSafe vs ctx := by
  induction vs generalizing ctx with
  | nil => trivial
  | cons v vs ih =>
    obtain ⟨hfits, hrest⟩ := h
    exact ⟨Visit.touchesSafe_of_fits v.inSet _ (Visit.fits_of_mem hfits), ih _ hrest⟩

/-- **Reference counts never wrap** in a history whose changes fit the records that they meet: a
change that takes back finds for each of its bits no counter or as many references as it takes,
and one that grants finds room for them.

**Proof sketch.** Every change is a list of writes, and a write a list of visits to entries. A
visit to an entry that fits subtracts from positive counters only and adds to a sum below
`2 ^ 16`, and leaves an entry that the remaining visits fit. -/
theorem neverWraps_of_countsFit (k : Kind) (hist : List (String × Statement)) (w : World)
    (h : CountsFit k hist w) : NeverWraps k hist w := by
  induction hist generalizing w with
  | nil => trivial
  | cons c hist ih =>
    obtain ⟨hfits, hrest⟩ := h
    exact ⟨writesSafe_of_fits _ _ hfits, ih _ hrest⟩

/-- A statement about reading a document, about two subjects, and its deletion. -/
def readStatement (subjects : List String) (flags : List (String × Bool)) : Statement :=
  flags.foldl (fun st f => st.addValue f.1 .boolean (.bool f.2))
    (subjects.foldl (fun st s => st.addValue "v-s:permissionSubject" .uri (.uri s))
      (Statement.empty.addValue "v-s:permissionObject" .uri (.uri "d:doc")))

/-- Two statements that share a subject, of which one is deleted. -/
theorem neverWraps_shared : NeverWraps .permissionStatement
    [("d:r1", readStatement ["d:u1", "d:u2"] [("v-s:canRead", true)]),
      ("d:r2", readStatement ["d:u2"] [("v-s:canRead", true)]),
      ("d:r1", readStatement ["d:u1", "d:u2"] [("v-s:canRead", true), ("v-s:deleted", true)])]
    (.initial fun _ => .stored) :=
  neverWraps_of_countsFit _ _ _ (by decide)

/-- A statement that lists a subject twice counts it once and takes it back twice. -/
theorem not_neverWraps_listedTwice :
    ¬ ∀ (hist : List (String × Statement)) (orders : ℕ → HashOrder),
      (hist.map Prod.fst).dedup.length < 2 ^ 16 →
        NeverWraps .permissionStatement hist (.initial orders) := by
  intro h
  have hwraps := h
    [("d:r1", readStatement ["d:user", "d:user"] [("v-s:canRead", true)]),
      ("d:r1", readStatement ["d:user", "d:user"] [("v-s:canRead", true), ("v-s:deleted", true)])]
    (fun _ => .stored) (by decide)
  revert hwraps
  decide

end Veda.Indexer
