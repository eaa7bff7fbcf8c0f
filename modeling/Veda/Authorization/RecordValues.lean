import Veda.Authorization.AccessBits

set_option autoImplicit false

/-!
# What a value of an index record says

The reader of records applied to a value the writer produced. In both forms the result is
described by one count for each access bit: the *hex form* gives the count `1` to the bits of
the byte it reads, the *letter form* gives each letter its own count.

## Main definitions

* `Authorization.ReadsAs` — a decoded right, described by its counts.
* `Authorization.readHex` — the byte that is read back from its hexadecimal text.
* `Authorization.letterCount` — the count the letter form writes for a bit.

## Main results

* `Authorization.decodeValueV1_encode` — the hex form is read as `readHex`.
* `Authorization.decodeValueV2_encode` — the letter form is read as `letterCount`.

## Design

The two digits of a hexadecimal byte are written high digit first and read low digit first,
so `readHex` swaps the two halves of a byte of two digits.
-/

namespace Veda.Authorization

open Veda.Lib

/-- The marker `c` is one of the two marks. -/
def IsMark (c : Char) : Prop := c = mIsExclusive ∨ c = mIgnoreExclusive

instance (c : Char) : Decidable (IsMark c) := by unfold IsMark; infer_instance

/-- A right as the reader produces it: its access byte holds exactly the bits with a nonzero
count, and its counters hold these counts and possibly one for its mark. -/
structure ReadsAs (d : Right) (id : String) (marker : Char) (count : Access → BitVec 16) :
    Prop where
  id_eq : d.id = id
  isDeleted_eq : d.isDeleted = false
  level_eq : d.level = 0
  marker_eq : d.marker = if IsMark marker then marker else noMarker
  has_access : ∀ a, has d.access a = decide (count a ≠ 0)
  lookup_letter : ∀ a, d.counters.lookup a.letter = if count a = 0 then none else some (count a)
  lookup_other : ∀ c n, d.counters.lookup c = some n →
    (∃ a : Access, c = a.letter) ∨ (c = marker ∧ IsMark marker ∧ n = 1)

/-! ## Entries inserted by the reader -/

theorem foldl_insert_letters (x : U8) (l : List Access) (m : Counters) :
    (l.map Access.toU8).foldl (fun counters a =>
      if a &&& x ≠ 0 then
        match access8ToChar a with
        | some ac => counters.insert ac 1
        | none => counters
      else counters) m =
    HashMap.insertAll m ((l.filter (has x)).map fun a => (a.letter, 1)) := by
  induction l generalizing m with
  | nil => rfl
  | cons a l ih =>
    simp only [List.map_cons, List.foldl_cons, ih]
    rw [access8ToChar_toU8]
    by_cases h : has x a
    · rw [if_pos ((toU8_and_ne_zero x a).mpr h), List.filter_cons_of_pos h]
      rfl
    · rw [if_neg (fun hx => h ((toU8_and_ne_zero x a).mp hx)), List.filter_cons_of_neg h]

/-! ## The hex form -/

/-- The byte the reader makes of the hexadecimal text of `x`. -/
def readHex (x : U8) : U8 := if x.toNat < 16 then x else x.rotateLeft 4

/-- The number of digits of the hexadecimal text of `x`, in bits. -/
def hexShift (x : U8) : ℕ := if x.toNat < 16 then 4 else 8

theorem foldl_decodeCharV1_formatHex (x : U8) :
    (formatHex x).foldl decodeCharV1 (0, noMarker, 0) =
      ((readHex x).setWidth 32, noMarker, hexShift x) := by
  revert x
  decide

theorem foldl_decodeCharV1_encodeMarker (access : BitVec 32) (shift : ℕ) (marker : Char) :
    (encodeMarker marker).foldl decodeCharV1 (access, noMarker, shift) =
      (access, if IsMark marker then marker else noMarker, shift) := by
  by_cases h : IsMark marker
  · have h' : marker = mIsExclusive ∨ marker = mIgnoreExclusive := h
    rw [if_pos h, encodeMarker, if_pos h', List.foldl_cons, List.foldl_nil]
    simp only [decodeCharV1, if_pos h']
  · have h' : ¬ (marker = mIsExclusive ∨ marker = mIgnoreExclusive) := h
    rw [if_neg h, encodeMarker, if_neg h', List.foldl_nil]

theorem head_formatHex (x : U8) :
    ∃ c cs, formatHex x = c :: cs ∧ accessFromChar c = none ∧ c ≠ ';' ∧ ';' ∉ cs := by
  have h : ∀ x : U8, accessFromChar ((formatHex x).headD 'M') = none ∧ ';' ∉ formatHex x := by
    decide
  obtain ⟨h1, h2⟩ := h x
  cases hx : formatHex x with
  | nil => rw [hx] at h1; simp [accessFromChar] at h1
  | cons c cs =>
    rw [hx] at h1 h2
    simp only [List.mem_cons, not_or] at h2
    exact ⟨c, cs, rfl, h1, fun h => h2.1 h.symm, h2.2⟩

/-- **The hex form is read back with its halves swapped.** Each bit read counts once. -/
theorem decodeValueV1_encode (id : String) (right : Right) :
    ReadsAs (decodeValueV1 (encodeValueV1 right) (Right.new id) true) id right.marker
      fun a => if has (readHex right.access) a then 1 else 0 := by
  have hfold : (encodeValueV1 right).foldl decodeCharV1 (0, noMarker, 0) =
      ((readHex right.access).setWidth 32,
        if IsMark right.marker then right.marker else noMarker, hexShift right.access) := by
    rw [encodeValueV1, List.foldl_append, foldl_decodeCharV1_formatHex,
      foldl_decodeCharV1_encodeMarker]
  have hset : ((readHex right.access).setWidth 32).setWidth 8 = readHex right.access := by
    rw [BitVec.setWidth_setWidth_of_le _ (by decide), BitVec.setWidth_eq]
  have hnd : (((Access.all.filter (has (readHex right.access))).map
      fun a => (a.letter, (1 : BitVec 16))).map Prod.fst).Nodup := by
    rw [List.map_map]
    exact (Access.nodup_all.filter _).map fun a b h => letter_injective.mp h
  have hcounters : (decodeValueV1 (encodeValueV1 right) (Right.new id) true).counters =
      HashMap.insertAll ∅ ((Access.all.filter (has (readHex right.access))).map
        fun a => (a.letter, 1)) := by
    simp only [decodeValueV1, hfold, hset, if_true, access8FullList_eq]
    exact foldl_insert_letters _ _ _
  constructor
  · rfl
  · rfl
  · rfl
  · simp only [decodeValueV1, hfold]
  · intro a
    simp only [decodeValueV1, hfold, hset]
    by_cases h : has (readHex right.access) a <;> simp [h]
  · intro a
    rw [hcounters]
    by_cases h : has (readHex right.access) a
    · simp only [h, if_true]
      rw [if_neg (by decide)]
      exact HashMap.lookup_insertAll_of_mem _ _ hnd
        (List.mem_map.mpr ⟨a, List.mem_filter.mpr ⟨Access.mem_all a, h⟩, rfl⟩)
    · simp only [h]
      rw [HashMap.lookup_insertAll_of_notMem _ _ fun hmem => ?_]
      · simp
      · obtain ⟨p, hp, hpa⟩ := List.mem_map.mp hmem
        obtain ⟨b, hb, rfl⟩ := List.mem_map.mp hp
        exact h (letter_injective.mp hpa ▸ (List.mem_filter.mp hb).2)
  · intro c n hc
    left
    rw [hcounters] at hc
    by_contra hno
    rw [HashMap.lookup_insertAll_of_notMem _ _ fun hmem => ?_] at hc
    · simp at hc
    · obtain ⟨p, hp, hpc⟩ := List.mem_map.mp hmem
      obtain ⟨b, _, rfl⟩ := List.mem_map.mp hp
      exact hno ⟨b, hpc.symm⟩

/-! ## The letter form -/

/-- The number of references of a bit. -/
def refCount (right : Right) (a : Access) : BitVec 16 :=
  (right.counters.lookup a.letter).getD 0

/-- The count the letter form writes for a bit: its references, and one for a bit of the access
byte without references. -/
def letterCount (right : Right) (a : Access) : BitVec 16 :=
  if refCount right a ≠ 0 then refCount right a else if has right.access a then 1 else 0

/-- The letters written for an entry, with their counts. -/
def writtenLetters (π : IterOrder Char) (right : Right) : List (Char × BitVec 16) :=
  ((HashMap.iter π right.counters).filter fun p => (accessFromChar p.1).isSome ∧ p.2 ≠ 0) ++
  ((Access.all.filter fun a => has right.access a ∧ refCount right a = 0).map
    fun a => (a.letter, 1))

theorem has_setAccess (l : List (Char × BitVec 16)) (a : Access) :
    has (setAccess l) a = true ↔ ∃ n, (a.letter, n) ∈ l ∧ n ≠ 0 := by
  have hfold : ∀ (l : List (Char × BitVec 16)) (x : U8),
      has (l.foldl addSetAccess x) a = true ↔
        has x a = true ∨ ∃ n, (a.letter, n) ∈ l ∧ n ≠ 0 := by
    intro l
    induction l with
    | nil => simp
    | cons p l ih =>
      intro x
      obtain ⟨c, n⟩ := p
      rw [List.foldl_cons, ih]
      simp only [List.mem_cons, Prod.mk.injEq, addSetAccess]
      rcases hc : accessFromChar c with _ | b
      · have hne : ∀ m, ¬ (a.letter = c ∧ m = n) := by
          rintro m ⟨rfl, _⟩
          simp at hc
        simp [hne]
      · obtain rfl := accessFromChar_eq_some.mp hc
        by_cases hn : n = 0
        · subst hn
          simp only [ne_eq, not_true_eq_false, if_false]
          constructor
          · rintro (h | ⟨m, h, hm⟩)
            · exact .inl h
            · exact .inr ⟨m, .inr h, hm⟩
          · rintro (h | ⟨m, ⟨_, rfl⟩ | h, hm⟩)
            · exact .inl h
            · exact absurd rfl hm
            · exact .inr ⟨m, h, hm⟩
        · simp only [ne_eq, hn, not_false_eq_true, if_true, has_or, has_toU8, Bool.or_eq_true,
            decide_eq_true_eq]
          constructor
          · rintro ((h | rfl) | ⟨m, h, hm⟩)
            · exact .inl h
            · exact .inr ⟨n, .inl ⟨rfl, rfl⟩, hn⟩
            · exact .inr ⟨m, .inr h, hm⟩
          · rintro (h | ⟨m, ⟨h, rfl⟩ | h, hm⟩)
            · exact .inl (.inl h)
            · exact .inl (.inr (letter_injective.mp h).symm)
            · exact .inr ⟨m, h, hm⟩
  simpa [setAccess] using hfold l 0

theorem has_setAccess_iter (π : IterOrder Char) (right : Right) (a : Access) :
    has (setAccess (HashMap.iter π right.counters)) a = decide (refCount right a ≠ 0) := by
  rw [Bool.eq_iff_iff, has_setAccess, decide_eq_true_iff]
  simp only [HashMap.mem_iter, refCount]
  constructor
  · rintro ⟨n, hn, h0⟩
    simpa [hn] using h0
  · intro h
    cases hl : right.counters.lookup a.letter with
    | none => simp [hl] at h
    | some n => exact ⟨n, rfl, by simpa [hl] using h⟩

theorem flatMap_counted (l : List (Char × BitVec 16)) :
    (l.flatMap fun p =>
      if (accessFromChar p.1).isSome ∧ p.2 ≠ 0 then encodeCount p.1 p.2 else []) =
    (l.filter fun p => (accessFromChar p.1).isSome ∧ p.2 ≠ 0).flatMap
      fun p => encodeCount p.1 p.2 := by
  induction l with
  | nil => rfl
  | cons p l ih =>
    by_cases h : (accessFromChar p.1).isSome ∧ p.2 ≠ 0
    · rw [List.flatMap_cons, if_pos h, List.filter_cons_of_pos (by simpa using h),
        List.flatMap_cons, ih]
    · rw [List.flatMap_cons, if_neg h, List.filter_cons_of_neg (by simpa using h), ih]
      rfl

theorem flatMap_uncounted (π : IterOrder Char) (right : Right) (l : List Access) :
    ((l.map Access.toU8).flatMap fun a =>
      if a &&& right.access &&& setAccess (HashMap.iter π right.counters) = 0 then
        (access8ToChar (a &&& right.access)).toList
      else []) =
    ((l.filter fun a => has right.access a ∧ refCount right a = 0).map
      fun a => (a.letter, (1 : BitVec 16))).flatMap fun p => encodeCount p.1 p.2 := by
  induction l with
  | nil => rfl
  | cons a l ih =>
    have hmask : a.toU8 &&& right.access &&& setAccess (HashMap.iter π right.counters) = 0 ↔
        ¬ (has right.access a ∧ refCount right a ≠ 0) := by
      rw [BitVec.and_assoc, ← not_iff_not, not_not, ← ne_eq, toU8_and_ne_zero, has_and,
        has_setAccess_iter]
      simp
    rw [List.map_cons, List.flatMap_cons, ih]
    by_cases h1 : has right.access a
    · by_cases h2 : refCount right a = 0
      · rw [if_pos (hmask.mpr fun h => h.2 h2), and_toU8, if_pos h1, access8ToChar_toU8,
          List.filter_cons_of_pos (by simp [h1, h2]), List.map_cons, List.flatMap_cons]
        rfl
      · rw [if_neg (fun h => hmask.mp h ⟨h1, h2⟩), List.filter_cons_of_neg (by simpa using fun _ => h2)]
        rfl
    · rw [if_pos (hmask.mpr (by simp [h1])), and_toU8, if_neg h1,
        List.filter_cons_of_neg (by simp [h1])]
      rfl

theorem encodeValueV2_eq (π : IterOrder Char) (right : Right) :
    encodeValueV2 π right = (writtenLetters π right).flatMap (fun p => encodeCount p.1 p.2) ++
      encodeMarker right.marker := by
  rw [encodeValueV2, writtenLetters, List.flatMap_append, ← flatMap_counted,
    ← flatMap_uncounted π right Access.all, access8FullList_eq]

theorem mem_writtenLetters {π : IterOrder Char} {right : Right} {c : Char} {n : BitVec 16} :
    (c, n) ∈ writtenLetters π right ↔
      ∃ a : Access, c = a.letter ∧ n = letterCount right a ∧ n ≠ 0 := by
  simp only [writtenLetters, List.mem_append, List.mem_filter, HashMap.mem_iter, List.mem_map,
    decide_eq_true_eq, Prod.mk.injEq]
  constructor
  · rintro (⟨hc, hl, hn⟩ | ⟨a, ⟨_, ha, h0⟩, rfl, rfl⟩)
    · obtain ⟨a, ha⟩ := Option.isSome_iff_exists.mp hl
      obtain rfl := accessFromChar_eq_some.mp ha
      have hr : refCount right a = n := by simp [refCount, hc]
      exact ⟨a, rfl, by rw [letterCount, hr, if_pos hn], hn⟩
    · exact ⟨a, rfl, by simp [letterCount, h0, ha], by decide⟩
  · rintro ⟨a, rfl, rfl, hn⟩
    by_cases h : refCount right a = 0
    · right
      have ha : has right.access a = true := by
        by_contra ha
        simp [letterCount, h, ha] at hn
      exact ⟨a, ⟨Access.mem_all a, ha, h⟩, rfl, by simp [letterCount, h, ha]⟩
    · left
      have hl : letterCount right a = refCount right a := by rw [letterCount, if_pos h]
      refine ⟨?_, by simp, hn⟩
      rw [hl]
      cases hc : right.counters.lookup a.letter with
      | none => simp [refCount, hc] at h
      | some n => simp [refCount, hc]

theorem nodup_writtenLetters (π : IterOrder Char) (right : Right) :
    ((writtenLetters π right).map Prod.fst).Nodup := by
  rw [writtenLetters, List.map_append, List.nodup_append]
  refine ⟨?_, ?_, ?_⟩
  · exact (List.filter_sublist.map _).nodup (HashMap.nodup_fst_iter π right.counters)
  · rw [List.map_map]
    exact (Access.nodup_all.filter _).map fun a b h => letter_injective.mp h
  · rintro c hc d hd rfl
    simp only [List.mem_map, List.mem_filter, decide_eq_true_eq, Prod.exists, exists_and_right,
      exists_eq_right, HashMap.mem_iter] at hc hd
    obtain ⟨n, hn, _, h0⟩ := hc
    obtain ⟨m, a, ⟨_, _, hz⟩, hp⟩ := hd
    obtain ⟨rfl, _⟩ := Prod.mk.injEq .. ▸ hp
    exact h0 (by simpa [refCount, hn] using hz)

/-! ## Reading the letter form -/

theorem isDigit_not_tag {c : Char} (h : c.isDigit) :
    ¬ ((accessFromChar c).isSome ∨ c = mIsExclusive ∨ c = mIgnoreExclusive) := by
  rintro (hs | rfl | rfl)
  · obtain ⟨a, ha⟩ := Option.isSome_iff_exists.mp hs
    obtain rfl := accessFromChar_eq_some.mp ha
    revert h
    cases a <;> decide
  · exact absurd h (by decide)
  · exact absurd h (by decide)

theorem foldl_decodeCharV2_digits (w : Bool) (ds : List Char) (hds : ds.all Char.isDigit)
    (st : V2State) : ds.foldl (decodeCharV2 w) st = { st with val := st.val ++ ds } := by
  induction ds generalizing st with
  | nil => simp
  | cons d ds ih =>
    rw [List.all_cons, Bool.and_eq_true] at hds
    rw [List.foldl_cons, ih hds.2]
    unfold decodeCharV2
    rw [if_neg (isDigit_not_tag hds.1)]
    simp

/-- The digits written after a letter. -/
def countDigits (n : BitVec 16) : List Char :=
  if 1 < n.toNat then Nat.toDigits 10 n.toNat else []

theorem parse_countDigits {n : BitVec 16} (h : n ≠ 0) :
    BitVec.ofNat 16 ((parseUnsigned 65535 (countDigits n)).getD 1) = n := by
  have hpos : n.toNat ≠ 0 := fun h0 => h (BitVec.eq_of_toNat_eq (by simpa using h0))
  unfold countDigits
  split_ifs with h1
  · rw [parseUnsigned_toDigits (by omega), Option.getD_some, BitVec.ofNat_toNat,
      BitVec.setWidth_eq]
  · have h1' : n.toNat = 1 := by omega
    apply BitVec.eq_of_toNat_eq
    rw [h1', parseUnsigned_nil]
    rfl

theorem foldl_decodeCharV2_encodeCount (st : V2State) (a : Access) (n : BitVec 16) :
    (encodeCount a.letter n).foldl (decodeCharV2 true) st =
      ⟨st.access ||| a.toU8, st.marker, some a.letter, countDigits n, st.flush⟩ := by
  have hd : (countDigits n).all Char.isDigit := by
    unfold countDigits
    split_ifs
    · exact all_isDigit_toDigits _
    · rfl
  have hm : ¬ (a.letter = mIsExclusive ∨ a.letter = mIgnoreExclusive) := by
    simp [letter_ne_marker]
  rw [encodeCount, List.foldl_cons, ← countDigits, foldl_decodeCharV2_digits true _ hd]
  simp [decodeCharV2, hm]

/-- Reading letters with their counts: all counts are stored, the last one pending.

**Proof sketch.** Induction on the list. By `foldl_decodeCharV2_encodeCount` reading a letter
stores the pending count and leaves this one pending, so that after it the stored counters with
the pending one are the earlier ones with one more entry. -/
theorem foldl_decodeCharV2_letters (l : List (Char × BitVec 16))
    (hl : ∀ p ∈ l, (∃ a : Access, p.1 = a.letter) ∧ p.2 ≠ 0) (st : V2State) :
    ((l.flatMap fun p => encodeCount p.1 p.2).foldl (decodeCharV2 true) st).flush =
        HashMap.insertAll st.flush l ∧
      ((l.flatMap fun p => encodeCount p.1 p.2).foldl (decodeCharV2 true) st).marker =
        st.marker ∧
      ∀ b, has ((l.flatMap fun p => encodeCount p.1 p.2).foldl (decodeCharV2 true) st).access b =
        (has st.access b || decide (∃ n, (b.letter, n) ∈ l)) := by
  induction l generalizing st with
  | nil => simp
  | cons p l ih =>
    obtain ⟨c, n⟩ := p
    obtain ⟨⟨a, rfl⟩, hn⟩ := hl (c, n) List.mem_cons_self
    rw [List.flatMap_cons, List.foldl_append, foldl_decodeCharV2_encodeCount]
    obtain ⟨h1, h2, h3⟩ := ih (fun p hp => hl p (List.mem_cons_of_mem _ hp))
      ⟨st.access ||| a.toU8, st.marker, some a.letter, countDigits n, st.flush⟩
    refine ⟨?_, h2, fun b => ?_⟩
    · rw [h1]
      simp only [V2State.flush, HashMap.insertAll_cons, parse_countDigits hn]
    · rw [h3]
      simp only [has_or, has_toU8, Bool.or_assoc]
      congr 1
      rw [Bool.eq_iff_iff]
      simp only [Bool.or_eq_true, decide_eq_true_eq, List.mem_cons, Prod.mk.injEq]
      constructor
      · rintro (rfl | ⟨m, hm⟩)
        · exact ⟨n, .inl ⟨rfl, rfl⟩⟩
        · exact ⟨m, .inr hm⟩
      · rintro ⟨m, ⟨hb, _⟩ | hm⟩
        · exact .inl (letter_injective.mp hb).symm
        · exact .inr ⟨m, hm⟩

/-- The entries the reader inserts for a mark. -/
def markEntries (marker : Char) : List (Char × BitVec 16) :=
  if IsMark marker then [(marker, 1)] else []

theorem foldl_decodeCharV2_encodeMarker (marker : Char) (st : V2State) :
    ((encodeMarker marker).foldl (decodeCharV2 true) st).flush =
        HashMap.insertAll st.flush (markEntries marker) ∧
      ((encodeMarker marker).foldl (decodeCharV2 true) st).marker =
        (if IsMark marker then marker else st.marker) ∧
      ((encodeMarker marker).foldl (decodeCharV2 true) st).access = st.access := by
  by_cases h : IsMark marker
  · have h' : marker = mIsExclusive ∨ marker = mIgnoreExclusive := h
    have ha : accessFromChar marker = none := by rcases h' with rfl | rfl <;> rfl
    simp only [encodeMarker, markEntries, if_pos h, if_pos h', List.foldl_cons, List.foldl_nil,
      decodeCharV2, ha, HashMap.insertAll_cons, HashMap.insertAll_nil]
    simp [V2State.flush, h']
  · have h' : ¬ (marker = mIsExclusive ∨ marker = mIgnoreExclusive) := h
    simp [encodeMarker, markEntries, if_neg h, if_neg h']

/-- **The letter form is read back.** Each letter has the count that was written. -/
theorem decodeValueV2_encode (π : IterOrder Char) (id : String) (right : Right) :
    ReadsAs (decodeValueV2 (encodeValueV2 π right) (Right.new id) true) id right.marker
      (letterCount right) := by
  obtain ⟨h1, h2, h3⟩ := foldl_decodeCharV2_letters (writtenLetters π right)
    (fun p hp => by
      obtain ⟨a, ha, _, hn⟩ := mem_writtenLetters.mp hp
      exact ⟨⟨a, ha⟩, hn⟩) ⟨0, noMarker, none, [], ∅⟩
  obtain ⟨g1, g2, g3⟩ := foldl_decodeCharV2_encodeMarker right.marker
    (((writtenLetters π right).flatMap fun p => encodeCount p.1 p.2).foldl (decodeCharV2 true)
      ⟨0, noMarker, none, [], ∅⟩)
  have hc : (decodeValueV2 (encodeValueV2 π right) (Right.new id) true).counters =
      HashMap.insertAll ∅ (writtenLetters π right ++ markEntries right.marker) := by
    rw [decodeValueV2, encodeValueV2_eq, List.foldl_append]
    simp only [if_true, Right.new]
    rw [g1, h1, HashMap.insertAll, HashMap.insertAll, HashMap.insertAll, List.foldl_append]
    rfl
  have hmark : ∀ a : Access, a.letter ∉ (markEntries right.marker).map Prod.fst := by
    intro a
    unfold markEntries
    split_ifs with h
    · have h' : right.marker = mIsExclusive ∨ right.marker = mIgnoreExclusive := h
      rcases h' with h' | h' <;> rw [h'] <;> simp [letter_ne_marker]
    · simp
  have hnd : ((writtenLetters π right ++ markEntries right.marker).map Prod.fst).Nodup := by
    rw [List.map_append, List.nodup_append]
    refine ⟨nodup_writtenLetters π right, ?_, ?_⟩
    · unfold markEntries
      split_ifs <;> simp
    · rintro c hcl d hd rfl
      obtain ⟨⟨c, n⟩, hp, rfl⟩ := List.mem_map.mp hcl
      obtain ⟨a, rfl, _⟩ := mem_writtenLetters.mp hp
      exact hmark a hd
  constructor
  · rfl
  · rfl
  · rfl
  · rw [decodeValueV2, encodeValueV2_eq, List.foldl_append]
    simp only [Right.new]
    rw [g2, h2]
  · intro a
    rw [decodeValueV2, encodeValueV2_eq, List.foldl_append]
    simp only [Right.new]
    rw [g3, h3]
    simp [mem_writtenLetters, letter_injective]
  · intro a
    rw [hc]
    split_ifs with h
    · rw [HashMap.lookup_insertAll_of_notMem _ _ fun hmem => ?_]
      · rfl
      · rw [List.map_append, List.mem_append] at hmem
        rcases hmem with hmem | hmem
        · obtain ⟨⟨c, n⟩, hp, hpa⟩ := List.mem_map.mp hmem
          obtain ⟨b, rfl, rfl, hn⟩ := mem_writtenLetters.mp hp
          exact hn (letter_injective.mp hpa ▸ h)
        · exact hmark a hmem
    · exact HashMap.lookup_insertAll_of_mem _ _ hnd
        (List.mem_append_left _ (mem_writtenLetters.mpr ⟨a, rfl, rfl, h⟩))
  · intro c n hcn
    rw [hc] at hcn
    by_cases hmem : c ∈ (writtenLetters π right ++ markEntries right.marker).map Prod.fst
    · obtain ⟨⟨d, m⟩, hp, rfl⟩ := List.mem_map.mp hmem
      rw [HashMap.lookup_insertAll_of_mem _ _ hnd hp, Option.some.injEq] at hcn
      rcases List.mem_append.mp hp with hp | hp
      · obtain ⟨a, ha, _⟩ := mem_writtenLetters.mp hp
        exact .inl ⟨a, ha⟩
      · unfold markEntries at hp
        split_ifs at hp with h
        · simp only [List.mem_singleton, Prod.mk.injEq] at hp
          exact .inr ⟨hp.1, h, by rw [← hcn, hp.2]⟩
        · simp at hp
    · rw [HashMap.lookup_insertAll_of_notMem _ _ hmem] at hcn
      simp at hcn

end Veda.Authorization
