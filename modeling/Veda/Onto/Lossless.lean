import Veda.Onto.Damage

set_option autoImplicit false

/-!
# What storing keeps

An individual is stored and decoded again. Its uri and its values come back when their lengths
fit into 32 bits; a field that does not fit is read wrongly and stays so. The number of the
predicates is different: a wrong number is harmless as long as it is not zero, because `parse_all`
starts a new read as long as there are bytes, and each read takes a predicate. With the number zero
it never ends.

## Main definitions

* `Onto.IndividualObj.WellFormed` — the individuals that are meant to be stored.
* `Onto.IndividualObj.NamesFit`, `Onto.IndividualObj.SizesFit` — the lengths fit.
* `Onto.Lossless` — decoding gives back the uri and the values of every predicate.

## Main results

* `Onto.lossless_of_fits` — storing is lossless when everything fits.
* `Onto.lossless_iff` — storing is lossless exactly when everything fits.
-/

namespace Veda.Onto

open Veda.Lib Veda.Lib.Msgpack

/-! ## Individuals that are stored -/

/-- The value has the variant that the type names. -/
def Resource.WellTyped (r : Resource) : Prop :=
  match r.rtype, r.value with
  | .uri, .uri _ => True
  | .string, .str _ _ => True
  | .integer, .int _ => True
  | .datetime, .datetime _ => True
  | .decimal, .num _ _ => True
  | .boolean, .bool _ => True
  | .binary, .binary _ => True
  | _, _ => False

theorem Resource.WellTyped.written_eq {r : Resource} (h : r.WellTyped) : r.written = r.value := by
  obtain ⟨rtype, value, order⟩ := r
  cases rtype <;> cases value <;> first | rfl | exact h.elim

/-- Every predicate has values, and the values have the variants that their types name. -/
structure IndividualObj.WellFormed (obj : IndividualObj) : Prop where
  filled : ∀ p rs, obj.resources.lookup p = some rs → rs ≠ []
  typed : ∀ p rs, obj.resources.lookup p = some rs → ∀ r ∈ rs, r.WellTyped

/-- The lengths of the predicates fit into 32 bits. -/
def IndividualObj.NamesFit (obj : IndividualObj) : Prop :=
  ∀ p rs, obj.resources.lookup p = some rs → (utf8 p).length < 4294967296

/-- The lengths of the uri, the lists and the values fit into 32 bits, and the number of the
predicates is not a multiple of `2 ^ 32` other than zero. -/
structure IndividualObj.SizesFit (obj : IndividualObj) : Prop where
  uri : (utf8 obj.uri).length < 4294967296
  lists : ∀ p rs, obj.resources.lookup p = some rs →
    rs.length < 4294967296 ∧ ∀ r ∈ rs, r.Fits
  count : obj.resources.keys.length % 4294967296 = 0 → obj.resources.keys.length = 0

/-- Decoding the stored individual gives the uri and, for every predicate, the types and the values
in their order. -/
def Lossless (cbor : CborParser) (π : IterOrder String) (obj : IndividualObj) : Prop :=
  ∃ start fuel full, (recordOf π obj).parseRaw cbor = (.ok (), start) ∧
    start.parseAll cbor fuel = some full ∧ full.obj.uri = obj.uri ∧
    ∀ p, (full.obj.resources.lookup p).map (List.map Resource.content) =
      (obj.resources.lookup p).map (List.map Resource.content)

namespace IndividualObj

variable {obj : IndividualObj}

theorem WellFormed.writtenOf_eq (hwf : obj.WellFormed) {p : String} {rs : List Resource}
    (h : obj.resources.lookup p = some rs) : writtenOf rs = rs.map Resource.content :=
  List.map_congr_left fun r hr => by
    rw [(hwf.typed p rs h r hr).written_eq]
    rfl

theorem entryFits_of_mem (hnames : obj.NamesFit) (hsizes : obj.SizesFit) {π : IterOrder String}
    {e : String × List Resource} (he : e ∈ obj.resources.iter π) : EntryFits e := by
  have hlookup := (HashMap.mem_iter π obj.resources e.1 e.2).mp he
  obtain ⟨hcount, hvalues⟩ := hsizes.lists _ _ hlookup
  exact ⟨hnames _ _ hlookup, hcount, hvalues⟩

end IndividualObj

/-! ## Everything fits -/

theorem lookup_full {obj : IndividualObj} (π : IterOrder String) (p : String) :
    ((withoutValues obj).addEntries (obj.resources.iter π)).resources.lookup p =
      (obj.resources.lookup p).bind fun rs => if rs = [] then none else some (storedFrom 0 rs) := by
  have hnone : (withoutValues obj).resources.lookup p = none := AList.lookup_empty p
  cases hl : obj.resources.lookup p with
  | some rs =>
    rw [IndividualObj.lookup_addEntries _ (HashMap.nodup_fst_iter π obj.resources)
      ((HashMap.mem_iter π obj.resources p rs).mpr hl) hnone]
    rfl
  | none =>
    rw [IndividualObj.lookup_addEntries_of_notMem, hnone]
    · rfl
    · intro hmem
      obtain ⟨⟨q, rs⟩, he, rfl⟩ := List.mem_map.mp hmem
      rw [HashMap.mem_iter, hl] at he
      cases he

theorem uri_addStored (obj : IndividualObj) (p : String) (rs : List Resource) :
    (obj.addStored p rs).uri = obj.uri := by
  induction rs generalizing obj with
  | nil => rfl
  | cons r rs ih => rw [IndividualObj.addStored, ih, IndividualObj.push_uri]

theorem uri_addEntries (obj : IndividualObj) (es : List (String × List Resource)) :
    (obj.addEntries es).uri = obj.uri := by
  induction es generalizing obj with
  | nil => rfl
  | cons e es ih => rw [IndividualObj.addEntries, ih, uri_addStored]

/-- **Storing is lossless** when all lengths fit. -/
theorem lossless_of_fits {obj : IndividualObj} (hwf : obj.WellFormed) (hnames : obj.NamesFit)
    (hsizes : obj.SizesFit) (cbor : CborParser) (π : IterOrder String) : Lossless cbor π obj := by
  obtain ⟨start, hstart, hbetween⟩ := parseRaw_toMsgpack cbor π obj hsizes.uri
  obtain ⟨fuel, full, hfull, hend⟩ := hbetween.parseAll_some
    (fun e he => IndividualObj.entryFits_of_mem hnames hsizes he)
    (fun hne hzero => by
      rw [List.nil_append, length_iter] at hzero
      have hkeys := hsizes.count hzero
      rw [← length_iter π, List.length_eq_zero_iff] at hkeys
      exact hne hkeys) cbor
  refine ⟨start, fuel, full, hstart, hfull, ?_, fun p => ?_⟩
  · rw [hend.obj, uri_addEntries]
    rfl
  · rw [hend.obj, List.nil_append, lookup_full π p]
    cases hl : obj.resources.lookup p with
    | none => rfl
    | some rs =>
      rw [Option.bind_some, if_neg (hwf.filled p rs hl), Option.map_some, Option.map_some,
        content_storedFrom, hwf.writtenOf_eq hl]

/-! ## Something does not fit -/

theorem uri_ne_of_parseRaw {cbor : CborParser} {π : IterOrder String} {obj : IndividualObj}
    (huri : ¬ (utf8 obj.uri).length < 4294967296) {start : Individual}
    (h : (recordOf π obj).parseRaw cbor = (.ok (), start)) :
    start.obj.uri ≠ obj.uri ∧ start.raw.rawType = .msgpack := by
  rw [parseRaw_of_data cbor (show (recordOf π obj).raw.data = _ from rfl), readHeader_toMsgpack] at h
  cases hmap : readMapLen.run ((utf8 obj.uri).drop (asU32 (utf8 obj.uri).length) ++
      (writeMapLen (asU32 obj.resources.keys.length) ++
        bytesOfEntries (obj.resources.iter π))) with
  | error e cur =>
    rw [hmap] at h
    cases h
  | ok size cur =>
    rw [hmap] at h
    cases h
    exact ⟨textOf_take_ne (Nat.le_of_not_lt huri), rfl⟩

theorem uri_fits_of_lossless {cbor : CborParser} {π : IterOrder String} {obj : IndividualObj}
    (h : Lossless cbor π obj) : (utf8 obj.uri).length < 4294967296 := by
  obtain ⟨start, fuel, full, hstart, hfull, huri, -⟩ := h
  by_contra hlong
  obtain ⟨hne, htype⟩ := uri_ne_of_parseRaw hlong hstart
  exact hne ((extends_parseAll htype hfull).uri.symm.trans huri)

theorem count_fits_of_lossless {cbor : CborParser} {π : IterOrder String} {obj : IndividualObj}
    (h : Lossless cbor π obj) (hcount : obj.resources.keys.length % 4294967296 = 0) :
    obj.resources.keys.length = 0 := by
  obtain ⟨start, hstart, hbetween⟩ := parseRaw_toMsgpack cbor π obj (uri_fits_of_lossless h)
  obtain ⟨start', fuel, full, hstart', hfull, -⟩ := h
  obtain ⟨-, rfl⟩ := Prod.mk.inj (hstart.symm.trans hstart')
  by_contra hne
  have hnil : obj.resources.iter π ≠ [] := by
    rw [← length_iter π, List.length_eq_zero_iff] at hne
    exact hne
  rw [← length_iter π] at hcount
  rw [hbetween.parseAll_none hnil hcount cbor fuel] at hfull
  cases hfull

theorem lists_fit_of_lossless {cbor : CborParser} {π : IterOrder String} {obj : IndividualObj}
    (hwf : obj.WellFormed) (hnames : obj.NamesFit) (h : Lossless cbor π obj) (p : String)
    (rs : List Resource) (hlookup : obj.resources.lookup p = some rs) :
    rs.length < 4294967296 ∧ ∀ r ∈ rs, r.Fits := by
  obtain ⟨start, hstart, hbetween⟩ := parseRaw_toMsgpack cbor π obj (uri_fits_of_lossless h)
  have hcount := fun hzero => count_fits_of_lossless h hzero
  obtain ⟨start', fuel, full, hstart', hfull, -, hvalues⟩ := h
  obtain ⟨-, rfl⟩ := Prod.mk.inj (hstart.symm.trans hstart')
  by_contra hbad
  -- the first predicate whose values do not fit
  have hfirst : ∀ es : List (String × List Resource),
      (∃ e ∈ es, ¬ (e.2.length < 4294967296 ∧ ∀ r ∈ e.2, r.Fits)) →
      ∃ es₁ e es₂, es = es₁ ++ e :: es₂ ∧
        ¬ (e.2.length < 4294967296 ∧ ∀ r ∈ e.2, r.Fits) ∧
        ∀ e' ∈ es₁, e'.2.length < 4294967296 ∧ ∀ r ∈ e'.2, r.Fits := by
    intro es
    induction es with
    | nil => rintro ⟨e, he, -⟩; cases he
    | cons e es ih =>
      rintro ⟨e', he', hne'⟩
      by_cases he : e.2.length < 4294967296 ∧ ∀ r ∈ e.2, r.Fits
      · rcases List.mem_cons.mp he' with rfl | he'
        · exact absurd he hne'
        · obtain ⟨es₁, e₁, es₂, rfl, hbad₁, hgood⟩ := ih ⟨e', he', hne'⟩
          refine ⟨e :: es₁, e₁, es₂, rfl, hbad₁, fun x hx => ?_⟩
          rcases List.mem_cons.mp hx with rfl | hx
          · exact he
          · exact hgood x hx
      · exact ⟨[], e, es, rfl, he, fun x hx => by cases hx⟩
  obtain ⟨es₁, ⟨q, qs⟩, es₂, hsplit, hbadq, hgood⟩ := hfirst (obj.resources.iter π)
    ⟨(p, rs), (HashMap.mem_iter π obj.resources p rs).mpr hlookup, hbad⟩
  have hmem : ∀ e ∈ obj.resources.iter π, obj.resources.lookup e.1 = some e.2 :=
    fun e he => (HashMap.mem_iter π obj.resources e.1 e.2).mp he
  have hlookupq : obj.resources.lookup q = some qs :=
    hmem (q, qs) (by rw [hsplit]; simp)
  have hnodup := HashMap.nodup_fst_iter π obj.resources
  rw [hsplit, List.map_append, List.map_cons] at hnodup
  rw [hsplit] at hbetween hmem
  have hwrong := wrong_of_parseAll hbetween
    (fun e he => ⟨hnames _ _ (hmem e (List.mem_append_left _ he)), (hgood e he).1,
      (hgood e he).2⟩) (hnames _ _ hlookupq) hbadq (AList.lookup_empty q)
    (by
      rw [List.nil_append]
      intro hq
      exact (List.disjoint_of_nodup_append hnodup) hq List.mem_cons_self)
    (by
      intro hzero
      rw [List.nil_append, ← hsplit, length_iter] at hzero
      have hkeys := hcount hzero
      rw [← length_iter π, hsplit] at hkeys
      simp at hkeys) hfull
  refine ne_of_spoiled_or_short hwrong ?_
  have hq := hvalues q
  rw [hlookupq, Option.map_some, Option.map_eq_some_iff] at hq
  obtain ⟨values, hl, hcontent⟩ := hq
  rw [IndividualObj.valuesOf, hl, Option.getD_some, hcontent, hwf.writtenOf_eq hlookupq]

/-- **What storing keeps**: an individual whose predicates have names that fit is stored without
loss exactly when the lengths of its uri, its lists and its values fit and the number of its
predicates is not taken for zero. -/
theorem lossless_iff {obj : IndividualObj} (hwf : obj.WellFormed) (hnames : obj.NamesFit)
    (cbor : CborParser) (π : IterOrder String) : Lossless cbor π obj ↔ obj.SizesFit := by
  constructor
  · intro h
    exact ⟨uri_fits_of_lossless h, lists_fit_of_lossless hwf hnames h, count_fits_of_lossless h⟩
  · intro h
    exact lossless_of_fits hwf hnames h cbor π

/-! ## Documents -/

/-- A decoder of the other stored form that accepts nothing. -/
def noCbor : CborParser := ⟨fun raw => (.error (-1), raw), fun _ iraw => (false, iraw)⟩

/-- A document with the given content. -/
def document (content : List UInt8) : IndividualObj :=
  ⟨"d:doc", AList.insert "v-s:content" [⟨.binary, .binary content, 0⟩] ∅⟩

theorem wellFormed_document (content : List UInt8) : (document content).WellFormed := by
  constructor
  · intro p rs h
    obtain ⟨-, rfl⟩ := HashMap.lookup_insert_empty.mp h
    exact List.cons_ne_nil _ _
  · intro p rs h r hr
    obtain ⟨-, rfl⟩ := HashMap.lookup_insert_empty.mp h
    rw [List.mem_singleton] at hr
    subst hr
    trivial

theorem namesFit_document (content : List UInt8) : (document content).NamesFit := by
  intro p rs h
  obtain ⟨rfl, -⟩ := HashMap.lookup_insert_empty.mp h
  decide

/-- A small document is stored without loss. -/
theorem lossless_document : Lossless noCbor (.stored String) (document [255, 0, 216]) := by
  refine (lossless_iff (wellFormed_document _) (namesFit_document _) noCbor _).mpr ⟨?_, ?_, ?_⟩
  · decide
  · intro p rs h
    obtain ⟨-, rfl⟩ := HashMap.lookup_insert_empty.mp h
    refine ⟨by decide, fun r hr => ?_⟩
    rw [List.mem_singleton] at hr
    subst hr
    show 3 < 4294967296
    omega
  · exact fun h => absurd h (by decide)

/-- A document of `2 ^ 32` bytes is stored as one without content. -/
theorem not_lossless_document :
    (document (List.replicate 4294967296 0)).WellFormed ∧
      ¬ Lossless noCbor (.stored String) (document (List.replicate 4294967296 0)) := by
  refine ⟨wellFormed_document _, fun h => ?_⟩
  have hfits := (lists_fit_of_lossless (wellFormed_document _) (namesFit_document _) h
    "v-s:content" _ (AList.lookup_insert _)).2 _ (List.mem_singleton_self _)
  have hlength : (List.replicate 4294967296 (0 : UInt8)).length < 4294967296 := hfits
  rw [List.length_replicate] at hlength
  omega

end Veda.Onto
