import Veda.Onto.Opened

set_option autoImplicit false

/-!
# An individual that is used again

The storage puts the bytes of a record into an individual that the caller hands in and parses the
header. The bytes, the cursor and the uri are then those of the new record. The values that were
decoded before stay, as does the index of the last predicate, from which the decoder goes on. So
values of the old record are found in the new one, and an index that is not below the number of the
new predicates leaves the decoder without rounds, again and again.

## Main definitions

* `Onto.Individual.setRaw` — put in the bytes of a record.
* `Onto.IsRecord` — the bytes of a record with a uri and predicates.
* `Onto.Forgets` — an individual is decoded as a new one would be.
* `Onto.Blank`, `Onto.StartsBelow` — the conditions on what was there before.

## Main results

* `Onto.IsRecord.parseAll_some` — what is decoded, behind what was there.
* `Onto.parseAll_endless` — an index that is too large.
* `Onto.forgets_iff` — when the old record is forgotten.
-/

namespace Veda.Onto

open Veda.Lib Veda.Lib.Msgpack

/-- `Individual::set_raw`. -/
def Individual.setRaw (iraw : Individual) (data : List UInt8) : Individual :=
  { iraw with raw := { iraw.raw with data } }

/-- `Individual::default`. -/
def Individual.default : Individual := .newRaw (.new [])

/-- The bytes of a record: an array of the uri and a map of the entries. -/
def IsRecord (data : List UInt8) (uri : String) (entries : List (String × List Resource)) : Prop :=
  ∃ wUri wCount parts, data = msgpackMagicHeader :: (wUri ++ (wCount ++ List.flatten parts)) ∧
    Reads readStringFromMsgpack wUri uri ∧ Reads readMapLen wCount entries.length ∧
    List.Forall₂ ReadsEntry parts entries

/-- A record is put into an individual and decoded. -/
def Individual.reread (cbor : CborParser) (fuel : ℕ) (iraw : Individual) (data : List UInt8) :
    Option Individual :=
  ((iraw.setRaw data).parseRaw cbor).2.parseAll cbor fuel

/-- A record that is put into an individual is decoded, with the uri, the predicates and the values
of one that is put into a new individual. -/
def Forgets (cbor : CborParser) (iraw : Individual) (data : List UInt8) : Prop :=
  ∃ fuel used fresh, iraw.reread cbor fuel data = some used ∧
    Individual.default.reread cbor fuel data = some fresh ∧ used.obj.uri = fresh.obj.uri ∧
    ∀ p, used.obj.resources.lookup p = fresh.obj.resources.lookup p

/-! ## The values of a record -/

/-- The values of a predicate among some entries. -/
def recordValues (entries : List (String × List Resource)) (predicate : String) : List Resource :=
  (entries.filter (·.1 = predicate)).flatMap (·.2)

section Values

variable {obj : IndividualObj} {entries : List (String × List Resource)} {p : String}

theorem addStored_append (obj : IndividualObj) (p : String) (rs rs' : List Resource) :
    obj.addStored p (rs ++ rs') = (obj.addStored p rs).addStored p rs' := by
  induction rs generalizing obj with
  | nil => rfl
  | cons r rs ih => exact ih _

theorem lookup_addEntries_eq (obj : IndividualObj) (entries : List (String × List Resource))
    (p : String) :
    (obj.addEntries entries).resources.lookup p =
      (obj.addStored p (recordValues entries p)).resources.lookup p := by
  induction entries generalizing obj with
  | nil => rfl
  | cons e es ih =>
    rw [IndividualObj.addEntries, ih, recordValues, recordValues]
    by_cases he : e.1 = p
    · subst he
      rw [List.filter_cons_of_pos (by simp), List.flatMap_cons, addStored_append]
    · rw [List.filter_cons_of_neg (by simpa using he), IndividualObj.lookup_addStored,
        IndividualObj.lookup_addStored, IndividualObj.valuesOf, IndividualObj.valuesOf,
        IndividualObj.lookup_addStored_ne _ _ (Ne.symm he)]

theorem lookup_addEntries_empty (uri : String) (entries : List (String × List Resource))
    (p : String) :
    (IndividualObj.addEntries ⟨uri, ∅⟩ entries).resources.lookup p =
      if recordValues entries p = [] then none
      else some (storedFrom 0 (recordValues entries p)) := by
  rw [lookup_addEntries_eq, IndividualObj.lookup_addStored]
  rfl

/-- The values that an individual holds are none, and an empty list is one that the record fills. -/
def Blank (obj : IndividualObj) (entries : List (String × List Resource)) : Prop :=
  ∀ p, obj.resources.lookup p = none ∨
    obj.resources.lookup p = some [] ∧ recordValues entries p ≠ []

variable (obj) in
theorem lookup_addEntries_iff_blank (uri : String) :
    (∀ p, (obj.addEntries entries).resources.lookup p =
      (IndividualObj.addEntries ⟨uri, ∅⟩ entries).resources.lookup p) ↔ Blank obj entries := by
  refine forall_congr' fun p => ?_
  rw [lookup_addEntries_empty, lookup_addEntries_eq, IndividualObj.lookup_addStored,
    IndividualObj.valuesOf]
  cases hlookup : obj.resources.lookup p with
  | none =>
    rw [Option.getD_none]
    exact iff_of_true rfl (.inl rfl)
  | some old =>
    rw [Option.getD_some]
    by_cases hnil : recordValues entries p = []
    · rw [if_pos hnil, if_pos hnil]
      simp [hnil]
    · rw [if_neg hnil, if_neg hnil]
      constructor
      · intro heq
        have hlen := congrArg List.length (Option.some.inj heq)
        rw [List.length_append, length_storedFrom, length_storedFrom] at hlen
        exact .inr ⟨congrArg some (List.length_eq_zero_iff.mp (by omega)), hnil⟩
      · rintro (hnone | ⟨hempty, -⟩)
        · cases hnone
        · obtain rfl := Option.some.inj hempty
          rfl

end Values

/-! ## Decoding what is left -/

/-- An individual in front of the entries of a record that are left: the last predicate that was
read has an index below their number. -/
structure Ahead (parts : List (List UInt8)) (iraw : Individual) : Prop where
  rawType : iraw.raw.rawType = .msgpack
  cur : iraw.raw.data.length = iraw.raw.cur + parts.flatten.length
  bytes : iraw.raw.data.drop iraw.raw.cur = parts.flatten
  index : parts ≠ [] → iraw.raw.curPredicates < iraw.raw.lenPredicates

section Ahead

variable {w : List UInt8} {parts : List (List UInt8)} {e : String × List Resource}
  {entries : List (String × List Resource)} {iraw : Individual} {expect : String} {left i : ℕ}

theorem ReadsEntry.ne_nil (h : ReadsEntry w e) : w ≠ [] := by
  obtain ⟨name, values, rfl, hname, -⟩ := h
  intro hnil
  obtain ⟨rfl, rfl⟩ := List.append_eq_nil_iff.mp hnil
  cases hname []

theorem predicateLoop_parts (h : List.Forall₂ ReadsEntry (w :: parts) entries) (expect : String)
    (left i : ℕ) (iraw : Individual) :
    ∃ n b, n ≤ parts.length ∧ n ≤ left ∧ (b = true ∨ n = parts.length) ∧
      predicateLoop expect (left + 1) i (w :: parts).flatten iraw =
        (if b then .ok () else .error .endOfData,
          (iraw.advance i (entries.take (n + 1))).setCur (parts.drop n).flatten) := by
  induction parts generalizing w entries left i iraw with
  | nil =>
    obtain ⟨e, es, he, hes, rfl⟩ := List.forall₂_cons_left_iff.mp h
    obtain rfl := List.forall₂_nil_left_iff.mp hes
    rw [List.flatten_cons, he.predicateLoop]
    split_ifs with hexpect
    · exact ⟨0, true, le_rfl, Nat.zero_le _, .inl rfl, rfl⟩
    · cases left with
      | zero => exact ⟨0, true, le_rfl, le_rfl, .inl rfl, rfl⟩
      | succ left => exact ⟨0, false, le_rfl, Nat.zero_le _, .inr rfl, rfl⟩
  | cons w' parts ih =>
    obtain ⟨e, es, he, hes, rfl⟩ := List.forall₂_cons_left_iff.mp h
    rw [List.flatten_cons, he.predicateLoop]
    split_ifs with hexpect
    · exact ⟨0, true, Nat.zero_le _, Nat.zero_le _, .inl rfl, rfl⟩
    · cases left with
      | zero => exact ⟨0, true, Nat.zero_le _, le_rfl, .inl rfl, rfl⟩
      | succ left =>
        obtain ⟨n, b, hn, hleft, hb, heq⟩ := ih hes left (i + 1) (iraw.advance i [e])
        refine ⟨n + 1, b, Nat.succ_le_succ hn, Nat.succ_le_succ hleft, ?_, heq⟩
        exact hb.imp_right fun hn => congrArg (· + 1) hn

theorem Ahead.parse (h : Ahead (w :: parts) iraw)
    (hreads : List.Forall₂ ReadsEntry (w :: parts) entries) (cbor : CborParser) (expect : String) :
    ∃ n b iraw', n ≤ parts.length ∧ (b = true ∨ n = parts.length) ∧
      parseToPredicate cbor expect iraw = (b, iraw') ∧ Ahead (parts.drop n) iraw' ∧
      iraw'.obj = iraw.obj.addEntries (entries.take (n + 1)) := by
  obtain ⟨e, es, he, hes, rfl⟩ := List.forall₂_cons_left_iff.mp hreads
  have hne := List.length_pos_iff.mpr he.ne_nil
  have hcur := h.cur
  have hindex := h.index (List.cons_ne_nil _ _)
  obtain ⟨left, hleft⟩ : ∃ left, iraw.raw.lenPredicates - iraw.raw.curPredicates = left + 1 :=
    ⟨iraw.raw.lenPredicates - iraw.raw.curPredicates - 1, by omega⟩
  obtain ⟨n, b, hn, hnleft, hb, hloop⟩ :=
    predicateLoop_parts hreads expect left iraw.raw.curPredicates iraw
  have hlt : iraw.raw.cur < iraw.raw.data.length := by
    rw [hcur, List.flatten_cons, List.length_append]
    omega
  have hsuffix : (parts.drop n).flatten <:+ iraw.raw.data := by
    rw [← List.take_append_drop iraw.raw.cur iraw.raw.data, h.bytes, List.flatten_cons]
    nth_rewrite 2 [← List.take_append_drop n parts]
    rw [List.flatten_append]
    exact ⟨iraw.raw.data.take iraw.raw.cur ++ (w ++ (parts.take n).flatten), by simp⟩
  have hraw := Individual.advance_raw iraw.raw.curPredicates ((e :: es).take (n + 1)) iraw
  have hlen := hes.length_eq
  refine ⟨n, b, (iraw.advance iraw.raw.curPredicates ((e :: es).take (n + 1))).setCur
    (parts.drop n).flatten, hn, hb, ?_, ⟨?_, ?_, ?_, ?_⟩, ?_⟩
  · rw [parseToPredicate_of_lt cbor expect h.rawType hlt, h.bytes, hleft, hloop]
    cases b with
    | true => rfl
    | false => rfl
  · rw [Individual.setCur, hraw]
    exact h.rawType
  · have hle := hsuffix.length_le
    rw [Individual.setCur, hraw]
    dsimp only
    omega
  · have hdata : (iraw.advance iraw.raw.curPredicates ((e :: es).take (n + 1))).raw.data =
        iraw.raw.data := by rw [hraw]
    exact drop_setCur (hdata ▸ hsuffix)
  · intro _
    rw [Individual.setCur, hraw]
    dsimp only
    rw [if_neg (by simp), List.length_take, List.length_cons]
    omega
  · rw [Individual.setCur, Individual.advance_obj]

/-- **Everything that is left** is decoded, behind what was there. -/
theorem Ahead.parseAll_some (h : Ahead parts iraw) (hreads : List.Forall₂ ReadsEntry parts entries)
    (cbor : CborParser) :
    ∃ fuel full, iraw.parseAll cbor fuel = some full ∧
      full.obj = iraw.obj.addEntries entries := by
  induction hn : parts.length using Nat.strong_induction_on generalizing parts entries iraw with
  | _ size ih =>
    subst hn
    cases parts with
    | nil =>
      obtain rfl := List.forall₂_nil_left_iff.mp hreads
      have hcur := h.cur
      refine ⟨1, iraw, ?_, rfl⟩
      rw [Individual.parseAll, if_neg]
      rw [List.flatten_nil, List.length_nil] at hcur
      omega
    | cons w parts =>
      obtain ⟨n, b, iraw', hle, hb, hparse, hahead, hobj⟩ := h.parse hreads cbor "?"
      obtain ⟨e, es, he, hes, rfl⟩ := List.forall₂_cons_left_iff.mp hreads
      have hcur := h.cur
      have hlt : iraw.raw.cur < iraw.raw.data.length := by
        have hpos := List.length_pos_iff.mpr he.ne_nil
        rw [hcur, List.flatten_cons, List.length_append]
        omega
      have hall : iraw'.obj.addEntries (es.drop n) = iraw.obj.addEntries (e :: es) := by
        rw [hobj, ← IndividualObj.addEntries_append, List.take_succ_cons, List.cons_append,
          List.take_append_drop]
      obtain ⟨fuel, full, hfull, hfullObj⟩ := ih (parts.drop n).length
        (by rw [List.length_drop, List.length_cons]; omega) hahead
        (List.forall₂_drop n hes) rfl
      cases b with
      | true =>
        refine ⟨fuel + 1, full, ?_, hfullObj.trans hall⟩
        rw [Individual.parseAll, if_pos hlt, hparse]
        exact hfull
      | false =>
        have hend : es.drop n = [] := by
          rw [List.drop_eq_nil_iff, ← hes.length_eq, hb.resolve_left Bool.false_ne_true]
        rw [hend] at hall
        refine ⟨1, iraw', ?_, hall⟩
        rw [Individual.parseAll, if_pos hlt, hparse]

/-- **An index that is too large** leaves no rounds, and the decoding never ends. -/
theorem parseAll_endless (htype : iraw.raw.rawType = .msgpack)
    (hlt : iraw.raw.cur < iraw.raw.data.length)
    (hindex : iraw.raw.lenPredicates ≤ iraw.raw.curPredicates) (cbor : CborParser) (fuel : ℕ) :
    iraw.parseAll cbor fuel = none := by
  have hsame : iraw.setCur (iraw.raw.data.drop iraw.raw.cur) = iraw := by
    rw [Individual.setCur, List.length_drop, Nat.sub_sub_self hlt.le]
  have hparse : parseToPredicate cbor "?" iraw = (true, iraw) := by
    rw [parseToPredicate_of_lt cbor "?" htype hlt, Nat.sub_eq_zero_of_le hindex, predicateLoop,
      hsame]
    rfl
  induction fuel with
  | zero => rfl
  | succ fuel ih =>
    rw [Individual.parseAll, if_pos hlt, hparse]
    exact ih

end Ahead

/-! ## The old record -/

/-- The record has no predicates, or more than the index of the last one that was read before. -/
def StartsBelow (raw : RawObj) (entries : List (String × List Resource)) : Prop :=
  entries = [] ∨ raw.curPredicates < entries.length

section Forgets

variable {data : List UInt8} {uri : String} {entries : List (String × List Resource)}
  {iraw : Individual}

theorem IsRecord.parseRaw (h : IsRecord data uri entries) (cbor : CborParser)
    (iraw : Individual) :
    ∃ parts cur, List.Forall₂ ReadsEntry parts entries ∧ data.length = cur + parts.flatten.length ∧
      data.drop cur = parts.flatten ∧
      (iraw.setRaw data).parseRaw cbor = (.ok (), ⟨{ iraw.obj with uri },
        ⟨data, cur, entries.length, iraw.raw.curPredicates, .msgpack⟩⟩) := by
  obtain ⟨wUri, wCount, parts, rfl, huri, hcount, hparts⟩ := h
  have hheader : readHeader.run (msgpackMagicHeader :: (wUri ++ (wCount ++ parts.flatten))) =
      .ok (uri, entries.length) parts.flatten := by
    have hmarker : readMarker.run (msgpackMagicHeader :: (wUri ++ (wCount ++ parts.flatten))) =
        .ok (.fixArray 2) (wUri ++ (wCount ++ parts.flatten)) :=
      reads_marker (m := .fixArray 2) rfl _
    simp only [readHeader, EStateM.run_bind, run_attempt, hmarker, ne_eq, not_true, if_false,
      huri (wCount ++ parts.flatten), hcount parts.flatten]
    rfl
  have hlen : (msgpackMagicHeader :: (wUri ++ (wCount ++ parts.flatten))).length =
      1 + wUri.length + wCount.length + parts.flatten.length := by
    simp only [List.length_cons, List.length_append]
    omega
  refine ⟨parts, 1 + wUri.length + wCount.length, hparts, hlen, ?_, ?_⟩
  · rw [show msgpackMagicHeader :: (wUri ++ (wCount ++ parts.flatten)) =
      (msgpackMagicHeader :: (wUri ++ wCount)) ++ parts.flatten by simp]
    exact List.drop_left' (by simp only [List.length_cons, List.length_append]; omega)
  · rw [Individual.parseRaw, Individual.setRaw]
    dsimp only
    rw [if_pos rfl, parseMsgpack, if_neg (by simp)]
    dsimp only
    rw [hheader]
    dsimp only
    rw [hlen, Nat.add_sub_cancel]

/-- **A record that is put in** is decoded behind what was there, if the index is small enough. -/
theorem IsRecord.reread_some (h : IsRecord data uri entries) (cbor : CborParser)
    (hbelow : StartsBelow iraw.raw entries) :
    ∃ fuel used, iraw.reread cbor fuel data = some used ∧
      used.obj = IndividualObj.addEntries { iraw.obj with uri } entries := by
  obtain ⟨parts, cur, hparts, hcur, hdrop, hparse⟩ := h.parseRaw cbor iraw
  have hlen := hparts.length_eq
  have hahead : Ahead parts ⟨{ iraw.obj with uri },
      ⟨data, cur, entries.length, iraw.raw.curPredicates, .msgpack⟩⟩ := by
    refine ⟨rfl, hcur, hdrop, fun hne => ?_⟩
    refine hbelow.resolve_left fun hnil => hne ?_
    rw [hnil, List.length_nil] at hlen
    exact List.length_eq_zero_iff.mp hlen
  obtain ⟨fuel, used, hused, hobj⟩ := hahead.parseAll_some hparts cbor
  refine ⟨fuel, used, ?_, hobj⟩
  rw [Individual.reread, hparse]
  exact hused

theorem IsRecord.reread_none (h : IsRecord data uri entries) (cbor : CborParser)
    (habove : ¬ StartsBelow iraw.raw entries) (fuel : ℕ) :
    iraw.reread cbor fuel data = none := by
  obtain ⟨parts, cur, hparts, hcur, hdrop, hparse⟩ := h.parseRaw cbor iraw
  obtain ⟨hne, hindex⟩ := not_or.mp habove
  obtain ⟨e, es, rfl⟩ := List.exists_cons_of_ne_nil hne
  obtain ⟨w, parts, he, -, rfl⟩ := List.forall₂_cons_right_iff.mp hparts
  have hpos := List.length_pos_iff.mpr he.ne_nil
  rw [Individual.reread, hparse]
  refine parseAll_endless rfl ?_ (not_lt.mp hindex) cbor fuel
  dsimp only
  rw [hcur, List.flatten_cons, List.length_append]
  omega

theorem Forgets.startsBelow {cbor : CborParser} (hforgets : Forgets cbor iraw data)
    (h : IsRecord data uri entries) : StartsBelow iraw.raw entries := by
  obtain ⟨fuel, used, -, hused, -⟩ := hforgets
  by_contra habove
  rw [h.reread_none cbor habove] at hused
  cases hused

theorem IsRecord.default_some (h : IsRecord data uri entries) (cbor : CborParser) :
    ∃ fuel fresh, Individual.default.reread cbor fuel data = some fresh ∧
      fresh.obj = IndividualObj.addEntries ⟨uri, ∅⟩ entries := by
  have hbelow : StartsBelow Individual.default.raw entries := by
    rcases entries with _ | ⟨e, es⟩
    · exact .inl rfl
    · exact .inr (Nat.succ_pos _)
  exact h.reread_some cbor hbelow

theorem Forgets.blank {cbor : CborParser} (hforgets : Forgets cbor iraw data)
    (h : IsRecord data uri entries) : Blank iraw.obj entries := by
  obtain ⟨fuel, used, hused, hobj⟩ := h.reread_some cbor (hforgets.startsBelow h)
  obtain ⟨fuelFresh, fresh, hfresh, hfreshObj⟩ := h.default_some cbor
  obtain ⟨fuel', used', fresh', hused', hfresh', -, hlookup⟩ := hforgets
  obtain rfl := parseAll_unique hused hused'
  obtain rfl := parseAll_unique hfresh hfresh'
  refine (lookup_addEntries_iff_blank { iraw.obj with uri } uri).mp fun p => ?_
  rw [← hobj, hlookup p, hfreshObj]

/-- **When the old record is forgotten.**

**Proof sketch.** The header sets everything but the decoded values and the index of the last
predicate (`IsRecord.parseRaw`). With an index below the number of the new predicates each read
takes at least one of them, so that all are decoded, their values behind the old ones
(`IsRecord.reread_some`); else no read takes any (`IsRecord.reread_none`). The lengths of the lists
tell whether there were old values (`lookup_addEntries_iff_blank`). -/
theorem forgets_iff (cbor : CborParser) (h : IsRecord data uri entries) :
    Forgets cbor iraw data ↔ Blank iraw.obj entries ∧ StartsBelow iraw.raw entries := by
  refine ⟨fun hforgets => ⟨hforgets.blank h, hforgets.startsBelow h⟩, ?_⟩
  rintro ⟨hblank, hbelow⟩
  obtain ⟨fuel, used, hused, hobj⟩ := h.reread_some cbor hbelow
  obtain ⟨fuelFresh, fresh, hfresh, hfreshObj⟩ := h.default_some cbor
  refine ⟨max fuel fuelFresh, used, fresh, parseAll_mono hused (le_max_left _ _),
    parseAll_mono hfresh (le_max_right _ _), ?_, fun p => ?_⟩
  · rw [hobj, hfreshObj, uri_addEntries, uri_addEntries]
  · rw [hobj, hfreshObj]
    exact (lookup_addEntries_iff_blank { iraw.obj with uri } uri).mpr hblank p

end Forgets

/-! ## Stored individuals -/

theorem isRecord_toMsgpack {obj : IndividualObj} (hfits : obj.AllFit) (π : IterOrder String) :
    IsRecord (toMsgpack π obj) obj.uri (obj.resources.iter π) := by
  refine ⟨writeStr obj.uri, writeMapLen (asU32 obj.resources.keys.length),
    (obj.resources.iter π).map writePredicate, ?_, reads_writeStr hfits.uri, ?_, ?_⟩
  · rw [← List.flatMap_def]
    rfl
  · rw [asU32_of_lt hfits.count, length_iter]
    exact reads_mapLen hfits.count
  · rw [List.forall₂_map_left_iff, List.forall₂_same]
    exact fun e he => readsEntry_writePredicate
      (hfits.entries _ _ ((HashMap.mem_iter π obj.resources e.1 e.2).mp he))

/-- A new individual takes a document as it is, and so does one that was emptied in the middle of a
record. -/
theorem forgets_document :
    Forgets noCbor .default (toMsgpack (.stored String) (document [255, 0, 216])) ∧
      Forgets noCbor ⟨⟨"d:old", ∅⟩, ⟨[146, 0], 1, 9, 0, .msgpack⟩⟩
        (toMsgpack (.stored String) (document [255, 0, 216])) :=
  ⟨(forgets_iff noCbor (isRecord_toMsgpack allFit_document _)).mpr
      ⟨fun p => .inl (AList.lookup_empty p), .inr (by decide)⟩,
    (forgets_iff noCbor (isRecord_toMsgpack allFit_document _)).mpr
      ⟨fun p => .inl (AList.lookup_empty p), .inr (by decide)⟩⟩

/-- A person with a department. -/
def person : IndividualObj :=
  ⟨"d:person", AList.insert "v-s:parentUnit" [⟨.uri, .uri "d:department", 0⟩] ∅⟩

theorem allFit_person : person.AllFit :=
  IndividualObj.allFit_single (by decide) (by decide) (by decide)

/-- After a person was read, a document that is put in has the department of the person. -/
theorem not_forgets_person :
    ∃ fuel old, Individual.default.reread noCbor fuel (toMsgpack (.stored String) person) =
        some old ∧
      ¬ Forgets noCbor old (toMsgpack (.stored String) (document [255, 0, 216])) := by
  obtain ⟨fuel, old, hold, hobj⟩ :=
    (isRecord_toMsgpack allFit_person (.stored String)).default_some noCbor
  refine ⟨fuel, old, hold, fun hforgets => ?_⟩
  have hblank := hforgets.blank (isRecord_toMsgpack allFit_document _) "v-s:parentUnit"
  rw [hobj, lookup_addEntries_empty] at hblank
  have hvalues : recordValues (person.resources.iter (.stored String)) "v-s:parentUnit" =
      [⟨.uri, .uri "d:department", 0⟩] := rfl
  rw [hvalues, if_neg (List.cons_ne_nil _ _)] at hblank
  rcases hblank with hnone | ⟨hempty, -⟩
  · cases hnone
  · cases hempty

end Veda.Onto
