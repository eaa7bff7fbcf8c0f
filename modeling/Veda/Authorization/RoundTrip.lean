import Veda.Authorization.RecordValues
import Mathlib.Algebra.Order.BigOperators.Group.List

set_option autoImplicit false

/-!
# Reading back an index record

The reader of records applied to the text the writer produced for a right set, whatever the
order in which the writer visited the entries and their counters. The entries that are not
deleted come back, each as its own value comes back (`Authorization.ReadsAs`). A value in
the hex form comes back with its halves swapped, which changes the bytes from `16` on unless
their two halves agree.

## Main definitions

* `Authorization.writtenCount` — the count a record says for a bit.
* `Authorization.CountedRightSet` — right sets whose counters agree with their access
  bytes.
* `Authorization.ReadsBack` — a right set survives the text format.

## Main results

* `Authorization.lookup_decode_encode` — the entries of a record read back.
* `Authorization.readsBack_iff` — exactly when a right set survives the text format.
-/

namespace Veda.Authorization

open Veda.Lib

/-! ## One value -/

/-- The count that the value of an entry says for a bit. -/
def writtenCount (right : Right) (version : U8) (a : Access) : BitVec 16 :=
  if hexForm right version then if has (readHex right.access) a then 1 else 0
  else letterCount right a

theorem head_encodeValueV2 (π : IterOrder Char) (right : Right)
    (h : ∃ a, letterCount right a ≠ 0) :
    ∃ (a : Access) (cs : List Char), encodeValueV2 π right = a.letter :: cs := by
  obtain ⟨a, ha⟩ := h
  have hmem := (mem_writtenLetters (π := π)).mpr ⟨a, rfl, rfl, ha⟩
  rw [encodeValueV2_eq]
  cases hw : writtenLetters π right with
  | nil => simp [hw] at hmem
  | cons p l =>
    obtain ⟨b, hb, _⟩ := mem_writtenLetters.mp (show (p.1, p.2) ∈ writtenLetters π right by
      rw [hw]; exact List.mem_cons_self)
    rw [List.flatMap_cons, encodeCount, hb]
    exact ⟨b, _, rfl⟩

/-- **A value is read as it was written**, in the form that was chosen for it. -/
theorem decodeValue_encodeValue (π : IterOrder Char) (id : String) (right : Right) (version : U8)
    (h : hexForm right version ∨ ∃ a, letterCount right a ≠ 0) :
    ReadsAs (decodeValue id (encodeValue π right version) true) id right.marker
      (writtenCount right version) := by
  unfold encodeValue writtenCount
  by_cases hx : hexForm right version
  · simp only [if_pos hx]
    obtain ⟨c, cs, hc, hnone, _⟩ := head_formatHex right.access
    have hdec : decodeValue id (encodeValueV1 right) true =
        decodeValueV1 (encodeValueV1 right) (Right.new id) true := by
      simp only [decodeValue, encodeValueV1, hc, List.cons_append, List.head?_cons, hnone]
      rfl
    rw [hdec]
    exact decodeValueV1_encode id right
  · simp only [if_neg hx]
    obtain ⟨a, cs, ha⟩ := head_encodeValueV2 π right (h.resolve_left hx)
    have hdec : decodeValue id (encodeValueV2 π right) true =
        decodeValueV2 (encodeValueV2 π right) (Right.new id) true := by
      simp only [decodeValue, ha, List.head?_cons, accessFromChar_letter]
      rfl
    rw [hdec]
    exact decodeValueV2_encode π id right

theorem semicolon_notMem_encodeMarker (marker : Char) : ';' ∉ encodeMarker marker := by
  unfold encodeMarker
  split_ifs with h
  · rcases h with rfl | rfl <;> decide
  · simp

theorem semicolon_ne_letter (a : Access) : ';' ≠ a.letter := by cases a <;> decide

theorem semicolon_notMem_encodeValue (π : IterOrder Char) (right : Right) (version : U8)
    (h : hexForm right version ∨ ∃ a, letterCount right a ≠ 0) :
    ';' ∉ encodeValue π right version ∧ encodeValue π right version ≠ [] := by
  unfold encodeValue
  split_ifs with hx
  · obtain ⟨c, cs, hc, _, h1, h2⟩ := head_formatHex right.access
    rw [encodeValueV1, hc]
    refine ⟨?_, by simp⟩
    simp only [List.cons_append, List.mem_cons, List.mem_append, not_or]
    exact ⟨fun h => h1 h.symm, h2, semicolon_notMem_encodeMarker _⟩
  · obtain ⟨a, cs, ha⟩ := head_encodeValueV2 π right (h.resolve_left hx)
    refine ⟨?_, by rw [ha]; simp⟩
    rw [encodeValueV2_eq, List.mem_append, not_or, List.mem_flatMap]
    refine ⟨?_, semicolon_notMem_encodeMarker _⟩
    rintro ⟨⟨c, n⟩, hp, hs⟩
    obtain ⟨b, rfl, _⟩ := mem_writtenLetters.mp hp
    rw [encodeCount, ← countDigits, List.mem_cons] at hs
    rcases hs with hs | hs
    · exact semicolon_ne_letter b hs
    · unfold countDigits at hs
      split_ifs at hs
      · have := List.all_eq_true.mp (all_isDigit_toDigits n.toNat) _ hs
        exact absurd this (by decide)
      · simp at hs

/-! ## The tokens of a record -/

/-- The text of a list of entries. -/
def recordText (l : List (String × List Char)) : List Char :=
  l.flatMap fun p => p.1.toList ++ ';' :: p.2 ++ [';']

theorem drainTokens_recordText {σ : Type} (w : Bool) (drain : σ → String → Right → σ)
    (l : List (String × List Char))
    (hl : ∀ p ∈ l, ';' ∉ p.1.toList ∧ ';' ∉ p.2 ∧ p.2 ≠ []) (s : σ) :
    drainTokens w drain ((recordText l).splitOn ';') s =
      l.foldl (fun s p => drain s p.1 (decodeValue p.1 p.2 w)) s := by
  induction l generalizing s with
  | nil => rfl
  | cons p l ih =>
    obtain ⟨h1, h2, h3⟩ := hl p List.mem_cons_self
    have htext : recordText (p :: l) = p.1.toList ++ ';' :: (p.2 ++ ';' :: recordText l) := by
      simp [recordText]
    rw [htext, List.splitOn_append_cons_self_of_not_mem h1,
      List.splitOn_append_cons_self_of_not_mem h2, drainTokens, if_neg h3,
      ih fun q hq => hl q (List.mem_cons_of_mem _ hq)]
    simp

theorem decodeIndexRecord_recordText {σ : Type} (w : Bool) (drain : σ → String → Right → σ)
    (l : List (String × List Char))
    (hl : ∀ p ∈ l, ';' ∉ p.1.toList ∧ ';' ∉ p.2 ∧ p.2 ≠ []) (s : σ) :
    (decodeIndexRecord (String.ofList (recordText l)) w drain s).2 =
      l.foldl (fun s p => drain s p.1 (decodeValue p.1 p.2 w)) s := by
  unfold decodeIndexRecord
  rw [String.toList_ofList]
  split_ifs with h
  · cases l with
    | nil => rfl
    | cons p l => simp [recordText] at h
  · exact drainTokens_recordText w drain l hl s

/-! ## A whole record -/

/-- What the reader and the writer need of an entry: the id is the key and does not contain the
separator, and the value says something. -/
structure Writable (key : String) (right : Right) (version : U8) : Prop where
  id_eq : right.id = key
  id_text : ';' ∉ key.toList
  value : hexForm right version ∨ ∃ a, letterCount right a ≠ 0

/-- The live entries of a right set in the order they are visited, with their values. -/
def liveValues (π : HashOrder) (rights : RightSet) (version : U8) : List (String × List Char) :=
  ((HashMap.iter π.rights rights).filter fun p => p.2.isDeleted = false).map
    fun p => (p.1, encodeValue (π.counters p.1) p.2 version)

theorem encodeRightset_eq (π : HashOrder) (rights : RightSet) (version : U8)
    (hid : ∀ k r, rights.lookup k = some r → r.isDeleted = false → r.id = k) :
    encodeRightset π rights version =
      String.ofList (recordText (liveValues π rights version)) := by
  unfold encodeRightset liveValues
  have hmem : ∀ p ∈ HashMap.iter π.rights rights, p.2.isDeleted = false → p.2.id = p.1 :=
    fun p hp => hid p.1 p.2 ((HashMap.mem_iter _ _ _ _).mp hp)
  congr 1
  generalize HashMap.iter π.rights rights = l at hmem
  induction l with
  | nil => rfl
  | cons p l ih =>
    obtain ⟨k, r⟩ := p
    rw [List.flatMap_cons, ih fun q hq => hmem q (List.mem_cons_of_mem _ hq)]
    by_cases h : r.isDeleted
    · rw [List.filter_cons_of_neg (by simpa using h)]
      simp [h]
    · have hid' : r.id = k := hmem (k, r) List.mem_cons_self (by simpa using h)
      rw [List.filter_cons_of_pos (by simpa using h), List.map_cons]
      simp [recordText, h, hid']

/-- **A record reads back**: a key is present exactly when its entry is live, and the entry is
what its value says, whatever the order of the hash maps.

**Proof sketch.** The text is a list of ids and values (`encodeRightset_eq`); the reader inserts
them one by one (`decodeIndexRecord_recordText`). The keys of a right set are distinct, so each
inserted entry is found under its key (`HashMap.lookup_insertAll_of_mem`). -/
theorem lookup_decode_encode (π : HashOrder) (rights : RightSet) (version : U8)
    (hw : ∀ k r, rights.lookup k = some r → r.isDeleted = false → Writable k r version)
    (k : String) :
    (decodeRecToRightset (encodeRightset π rights version) ∅).2.lookup k =
      ((rights.lookup k).filter fun r => r.isDeleted = false).map fun r =>
        decodeValue k (encodeValue (π.counters k) r version) true := by
  have hmem : ∀ p ∈ liveValues π rights version, ∃ r, rights.lookup p.1 = some r ∧
      r.isDeleted = false ∧ p.2 = encodeValue (π.counters p.1) r version := by
    intro p hp
    obtain ⟨⟨k, r⟩, hq, rfl⟩ := List.mem_map.mp hp
    obtain ⟨hq, hlive⟩ := List.mem_filter.mp hq
    exact ⟨r, (HashMap.mem_iter _ _ _ _).mp hq, by simpa using hlive, rfl⟩
  have hdec : (decodeRecToRightset (encodeRightset π rights version) ∅).2 =
      HashMap.insertAll ∅ ((liveValues π rights version).map
        fun p => (p.1, decodeValue p.1 p.2 true)) := by
    rw [encodeRightset_eq π rights version fun k r h hl => (hw k r h hl).id_eq,
      decodeRecToRightset, decodeIndexRecord_recordText, HashMap.insertAll, List.foldl_map]
    intro p hp
    obtain ⟨r, hr, hlive, hv⟩ := hmem p hp
    have hwr := hw _ _ hr hlive
    rw [hv]
    exact ⟨hwr.id_text, semicolon_notMem_encodeValue _ _ _ hwr.value⟩
  have hkeys : (((liveValues π rights version).map
      fun p => (p.1, decodeValue p.1 p.2 true)).map Prod.fst).Nodup := by
    rw [List.map_map, liveValues, List.map_map]
    exact (List.filter_sublist.map _).nodup (HashMap.nodup_fst_iter π.rights rights)
  rw [hdec]
  cases hk : ((rights.lookup k).filter fun r => r.isDeleted = false) with
  | none =>
    rw [HashMap.lookup_insertAll_of_notMem _ _ fun hin => ?_]
    · rfl
    · obtain ⟨q, hq, rfl⟩ := List.mem_map.mp hin
      obtain ⟨p, hp, rfl⟩ := List.mem_map.mp hq
      obtain ⟨r, hr, hlive, _⟩ := hmem p hp
      simp [hr, hlive] at hk
  | some r =>
    obtain ⟨hr, hlive⟩ := Option.filter_eq_some_iff.mp hk
    refine HashMap.lookup_insertAll_of_mem _ _ hkeys ?_
    refine List.mem_map.mpr ⟨(k, encodeValue (π.counters k) r version), ?_, rfl⟩
    exact List.mem_map.mpr ⟨(k, r), List.mem_filter.mpr
      ⟨(HashMap.mem_iter _ _ _ _).mpr hr, by simpa using hlive⟩, rfl⟩

/-! ## Right sets whose counters agree with their access bytes -/

/-- The sum of the counters of an entry, as a natural number. -/
def totalCount (right : Right) : ℕ := (right.counters.entries.map fun e => e.2.toNat).sum

theorem toNat_summCounters (right : Right) :
    (summCounters right).toNat = totalCount right % 2 ^ 16 := by
  unfold summCounters totalCount
  induction right.counters.entries with
  | nil => rfl
  | cons e es ih =>
    rw [List.map_cons, List.sum_cons, BitVec.toNat_add, ih, List.map_cons, List.sum_cons]
    omega

/-- The counters of an entry are positive for exactly the bits of its access byte. -/
structure WellCounted (right : Right) : Prop where
  marker : right.marker = noMarker ∨ IsMark right.marker
  letters : ∀ c ∈ right.counters, ∃ a : Access, c = a.letter
  positive : ∀ a : Access, has right.access a = true →
    ∃ n, right.counters.lookup a.letter = some n ∧ n ≠ 0
  absent : ∀ a : Access, has right.access a = false → right.counters.lookup a.letter = none
  total : totalCount right < 2 ^ 16

/-- A right set as the writer is meant to get it. -/
structure CountedRightSet where
  rights : RightSet
  id_eq : ∀ k r, rights.lookup k = some r → r.id = k
  id_text : ∀ k ∈ rights, k ≠ "" ∧ ';' ∉ k.toList
  counted : ∀ k r, rights.lookup k = some r → WellCounted r

/-- The right set `ds` holds exactly the live entries of `rs`, with the same access bytes and
marks and, unless the format is that of version 1, with the same counts. -/
structure ReadsBack (rs ds : RightSet) (version : U8) : Prop where
  live : ∀ k, k ∈ ds ↔ ∃ r, rs.lookup k = some r ∧ r.isDeleted = false
  same : ∀ k r d, rs.lookup k = some r → ds.lookup k = some d →
    d.id = k ∧ d.access = r.access ∧ d.marker = r.marker ∧
      (version ≠ 1 → ∀ a : Access, d.counters.lookup a.letter = r.counters.lookup a.letter)

/-- An access byte that survives the hex form: it has one digit, or two equal ones. -/
def HexStable (x : U8) : Prop := x.toNat < 16 ∨ x.toNat / 16 = x.toNat % 16

theorem readHex_eq_self (x : U8) : readHex x = x ↔ HexStable x := by
  unfold HexStable
  revert x
  decide

namespace WellCounted

variable {right : Right}

theorem refCount_ne_zero (h : WellCounted right) (a : Access) :
    refCount right a ≠ 0 ↔ has right.access a = true := by
  unfold refCount
  cases ha : has right.access a with
  | false => simp [h.absent a ha]
  | true =>
    obtain ⟨n, hn, h0⟩ := h.positive a ha
    simpa [hn] using h0

theorem letterCount_eq (h : WellCounted right) (a : Access) :
    letterCount right a = refCount right a := by
  unfold letterCount
  split_ifs with h0 ha
  · rfl
  · exact absurd ((h.refCount_ne_zero a).mpr ha) h0
  · exact (not_not.mp h0).symm

theorem toNat_le_total {a : Access} {n : BitVec 16}
    (hn : right.counters.lookup a.letter = some n) : n.toNat ≤ totalCount right := by
  have hmem : (⟨a.letter, n⟩ : Sigma fun _ : Char => BitVec 16) ∈ right.counters.entries :=
    (AList.mem_lookup_iff).mp hn
  exact List.single_le_sum (fun _ _ => Nat.zero_le _) _ (List.mem_map.mpr ⟨_, hmem, rfl⟩)

theorem exists_letterCount (h : WellCounted right) (h2 : 0 < totalCount right) :
    ∃ a, letterCount right a ≠ 0 := by
  unfold totalCount at h2
  cases he : right.counters.entries with
  | nil => simp [he] at h2
  | cons e es =>
    obtain ⟨c, n⟩ := e
    have hc : c ∈ right.counters.keys := by rw [AList.keys, he]; simp
    obtain ⟨a, rfl⟩ := h.letters c (AList.mem_keys.mpr hc)
    refine ⟨a, ?_⟩
    rw [h.letterCount_eq, h.refCount_ne_zero]
    by_contra ha
    exact AList.lookup_eq_none.mp (h.absent a (by simpa using ha)) (AList.mem_keys.mpr hc)

theorem writable (h : WellCounted right) (version : U8) :
    hexForm right version ∨ ∃ a, letterCount right a ≠ 0 := by
  by_cases hx : hexForm right version
  · exact .inl hx
  · refine .inr (h.exists_letterCount ?_)
    have h2 : ¬ summCounters right < 2 := fun h2 => hx (.inl h2)
    rw [BitVec.lt_def, toNat_summCounters, Nat.mod_eq_of_lt h.total] at h2
    have : (2 : BitVec 16).toNat = 2 := rfl
    omega

end WellCounted

/-- The value of a well-counted entry keeps the counts of an entry whose byte survives.

**Proof sketch.** The letter form writes the counts themselves. An entry of a version other than
1 is in the hex form only when its counts sum to at most `1`, so each is the `1` that the reader
gives to a bit of the byte. -/
theorem writtenCount_eq {right : Right} (h : WellCounted right) {version : U8}
    (hv : hexForm right version → version ≠ 1 ∧ HexStable right.access) (a : Access) :
    writtenCount right version a = refCount right a := by
  unfold writtenCount
  split_ifs with hx ha
  · obtain ⟨h1, hs⟩ := hv hx
    rw [(readHex_eq_self _).mpr hs] at ha
    obtain ⟨n, hn, h0⟩ := h.positive a ha
    have hlt : totalCount right < 2 := by
      have h2 := hx.resolve_right h1
      rw [BitVec.lt_def, toNat_summCounters, Nat.mod_eq_of_lt h.total] at h2
      exact h2
    have hle := WellCounted.toNat_le_total hn
    have hne : n.toNat ≠ 0 := fun h' => h0 (BitVec.eq_of_toNat_eq (by simpa using h'))
    have h1' : n.toNat = 1 := by omega
    rw [refCount, hn, Option.getD_some]
    exact BitVec.eq_of_toNat_eq (by rw [h1']; rfl)
  · rw [(readHex_eq_self _).mpr (hv hx).2] at ha
    exact (not_not.mp (fun h0 => ha ((h.refCount_ne_zero a).mp h0))).symm
  · exact h.letterCount_eq a

theorem writtenCount_ne_zero {right : Right} (h : WellCounted right) {version : U8}
    (hv : hexForm right version → HexStable right.access) (a : Access) :
    writtenCount right version a ≠ 0 ↔ has right.access a = true := by
  unfold writtenCount
  split_ifs with hx ha
  · rw [(readHex_eq_self _).mpr (hv hx)] at ha
    simp [ha]
  · rw [(readHex_eq_self _).mpr (hv hx)] at ha
    simp [ha]
  · rw [h.letterCount_eq]
    exact h.refCount_ne_zero a

/-- **When a right set survives the text format**: whatever the order of the hash maps, exactly
when every live entry that is written in the hex form has an access byte of one digit or of two
equal ones.

**Proof sketch.** By `lookup_decode_encode` each live entry comes back as its value. The letter
form returns the counts and hence the byte (`WellCounted.letterCount_eq`), the hex form returns
`readHex` of the byte, which is the byte itself exactly under `HexStable`. -/
theorem readsBack_iff (rs : CountedRightSet) (version : U8) (π : HashOrder) :
    ReadsBack rs.rights (decodeRecToRightset (encodeRightset π rs.rights version) ∅).2 version ↔
      ∀ k r, rs.rights.lookup k = some r → r.isDeleted = false → hexForm r version →
        HexStable r.access := by
  have hw : ∀ k r, rs.rights.lookup k = some r → r.isDeleted = false → Writable k r version :=
    fun k r hk _ => ⟨rs.id_eq k r hk,
      (rs.id_text k (AList.lookup_isSome.mp (by simp [hk]))).2, (rs.counted k r hk).writable _⟩
  have hdec := lookup_decode_encode π rs.rights version hw
  have hread : ∀ k r, rs.rights.lookup k = some r → ReadsAs
      (decodeValue k (encodeValue (π.counters k) r version) true) k r.marker
      (writtenCount r version) :=
    fun k r hk => decodeValue_encodeValue _ _ _ _ ((rs.counted k r hk).writable _)
  constructor
  · intro h k r hk hlive hx
    obtain ⟨-, hacc, -⟩ := h.same k r _ hk (by rw [hdec, hk]; simp [hlive]; rfl)
    rw [← readHex_eq_self]
    refine ext_has fun a => ?_
    rw [← hacc, (hread k r hk).has_access a, hacc, writtenCount, if_pos hx]
    cases has (readHex r.access) a <;> simp
  · intro h
    constructor
    · intro k
      rw [← AList.lookup_isSome, hdec]
      cases hk : rs.rights.lookup k with
      | none => simp
      | some r => cases hr : r.isDeleted <;> simp [hr]
    · intro k r d hk hd
      rw [hdec, hk] at hd
      have hwc := rs.counted k r hk
      have hlive : r.isDeleted = false := by
        by_contra hr
        simp [hr] at hd
      obtain rfl : decodeValue k (encodeValue (π.counters k) r version) true = d := by
        simpa [hlive] using hd
      have hr := hread k r hk
      have hs : hexForm r version → HexStable r.access := h k r hk hlive
      refine ⟨hr.id_eq, ?_, ?_, ?_⟩
      · refine ext_has fun a => ?_
        rw [hr.has_access, Bool.eq_iff_iff, decide_eq_true_iff]
        exact writtenCount_ne_zero hwc hs a
      · rw [hr.marker_eq]
        rcases hwc.marker with hm | hm
        · rw [hm]
          decide
        · rw [if_pos hm]
      · intro hv a
        rw [hr.lookup_letter, writtenCount_eq hwc (fun hx => ⟨hv, hs hx⟩)]
        cases ha : has r.access a with
        | false => simp [refCount, hwc.absent a ha]
        | true =>
          obtain ⟨n, hn, h0⟩ := hwc.positive a ha
          rw [refCount, hn, Option.getD_some, if_neg h0]

/-- A single statement that forbids reading, counted once. -/
def denyRead : Right :=
  { Right.new "cfg:Guest" with access := Access.cantRead.toU8, counters := .insert 'r' 1 ∅ }

theorem wellCounted_denyRead : WellCounted denyRead where
  marker := .inl rfl
  letters := by
    intro c hc
    exact ⟨.cantRead, (AList.mem_insert _).mp hc |>.resolve_right (AList.notMem_empty c)⟩
  positive := by
    intro a ha
    cases a
    case cantRead => exact ⟨1, by decide, by decide⟩
    all_goals exact absurd ha (by decide)
  absent := by intro a; cases a <;> decide
  total := by decide

/-- The record of an object on which guests may not read. -/
def denyReadSet : CountedRightSet where
  rights := .insert "cfg:Guest" denyRead ∅
  id_eq := by
    intro k r hk
    obtain ⟨rfl, rfl⟩ := HashMap.lookup_insert_empty.mp hk
    rfl
  id_text := by
    intro k hk
    obtain rfl := (AList.mem_insert _).mp hk |>.resolve_right (AList.notMem_empty k)
    decide
  counted := by
    intro k r hk
    obtain ⟨rfl, rfl⟩ := HashMap.lookup_insert_empty.mp hk
    exact wellCounted_denyRead

/-- The record that forbids reading is read back as one that allows it: the byte `0x20` is
written `20` and read as `0x02`. -/
theorem not_readsBack_denyRead :
    ¬ ReadsBack denyReadSet.rights
      (decodeRecToRightset (encodeRightset .stored denyReadSet.rights 2) ∅).2 2 := by
  intro h
  have hd : ((decodeRecToRightset (encodeRightset .stored denyReadSet.rights 2) ∅).2.lookup
      "cfg:Guest").map Right.access = some Access.canRead.toU8 := by decide
  obtain ⟨d, hl, hacc⟩ := Option.map_eq_some_iff.mp hd
  obtain ⟨-, hsame, -⟩ := h.same "cfg:Guest" denyRead d (AList.lookup_insert _) hl
  rw [hsame] at hacc
  exact absurd hacc (by decide)

end Veda.Authorization
