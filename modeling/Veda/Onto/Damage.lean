import Veda.Onto.Stored

set_option autoImplicit false

/-!
# Fields that do not fit

The encoder converts lengths to 32 bits without a check, so that a longer value, or a longer list
of values, is written with a wrong length. What the decoder makes of the bytes behind it is
arbitrary, but it only appends to the individual. So a value that was read wrongly stays where it
is. When values are missing, the next bytes are those of a value, and where a predicate should
come the decoder does not accept them.

## Main definitions

* `Onto.Extends` — an individual with more values.
* `Onto.Spoiled`, `Onto.Short` — a value was read wrongly; values are missing.
* `Onto.Broken` — the state of an individual in which a predicate stays wrong.

## Main results

* `Onto.extends_parseAll` — the decoder only appends.
* `Onto.damaged_values` — the values of a predicate that does not fit are read wrongly.
* `Onto.wrong_of_parseAll` — and they stay so.
-/

namespace Veda.Onto

open Veda.Lib Veda.Lib.Msgpack

/-! ## The decoder only appends -/

/-- The individual has the same uri and, for every predicate, the values of the other one first. -/
structure Extends (obj obj' : IndividualObj) : Prop where
  uri : obj'.uri = obj.uri
  values : ∀ p, obj.valuesOf p <+: obj'.valuesOf p

namespace Extends

theorem refl (obj : IndividualObj) : Extends obj obj := ⟨rfl, fun _ => List.prefix_rfl⟩

theorem trans {obj₁ obj₂ obj₃ : IndividualObj} (h : Extends obj₁ obj₂) (h' : Extends obj₂ obj₃) :
    Extends obj₁ obj₃ :=
  ⟨h'.uri.trans h.uri, fun p => (h.values p).trans (h'.values p)⟩

theorem push (obj : IndividualObj) (predicate : String) (r : Resource) :
    Extends obj (obj.push predicate r) := by
  refine ⟨rfl, fun p => ?_⟩
  by_cases hp : p = predicate
  · subst hp
    rw [IndividualObj.valuesOf_push]
    exact List.prefix_append _ _
  · rw [IndividualObj.valuesOf, IndividualObj.valuesOf, obj.lookup_push_ne r hp]

theorem entryOrDefault (obj : IndividualObj) (predicate : String) :
    Extends obj (obj.entryOrDefault predicate) := by
  refine ⟨rfl, fun p => ?_⟩
  unfold IndividualObj.valuesOf IndividualObj.entryOrDefault
  by_cases hp : p = predicate
  · subst hp
    rw [AList.lookup_insert, Option.getD_some]
  · rw [AList.lookup_insert_ne hp]

theorem pushBinary (obj : IndividualObj) (predicate : String) (v : List UInt8) :
    Extends obj (obj.pushBinary predicate v) :=
  push obj predicate ⟨.binary, .binary v, 0⟩

end Extends

/-- The decoder extends the individual, also when it fails. -/
def Grows {α : Type} (x : Decoder α) : Prop := ∀ st : Decoding,
  match x.run st with
  | .ok _ st' => Extends st.obj st'.obj
  | .error _ st' => Extends st.obj st'.obj

namespace Grows

variable {α β ε : Type}

theorem pure (a : α) : Grows (Pure.pure a) := fun st => Extends.refl st.obj

theorem throw (e : ParseError) : Grows (MonadExcept.throw e : Decoder α) :=
  fun st => Extends.refl st.obj

theorem bind {x : Decoder α} {f : α → Decoder β} (hx : Grows x) (hf : ∀ a, Grows (f a)) :
    Grows (x >>= f) := by
  intro st
  have hst := hx st
  rw [EStateM.run_bind]
  cases hrun : x.run st with
  | error e st' =>
    rw [hrun] at hst
    exact hst
  | ok a st' =>
    rw [hrun] at hst
    have hst' := hf a st'
    dsimp only at hst ⊢
    cases hrun' : (f a).run st' with
    | error e st'' =>
      rw [hrun'] at hst'
      exact hst.trans hst'
    | ok b st'' =>
      rw [hrun'] at hst'
      exact hst.trans hst'

theorem reading (x : Reader ε α) (toError : ε → ParseError) : Grows (reading x toError) := by
  intro st
  rw [run_reading]
  cases x.run st.cur with
  | ok a cur => exact Extends.refl st.obj
  | error e cur => exact Extends.refl st.obj

theorem adding {f : IndividualObj → IndividualObj} (h : ∀ obj, Extends obj (f obj)) :
    Grows (adding f) := fun st => h st.obj

theorem readingAdding (x : Reader ε α) (toError : ε → ParseError) (predicate : String)
    (rtype : DataType) (value : α → Value) :
    Grows (do
      let res ← Onto.reading x toError
      Onto.adding fun obj => obj.addValue predicate rtype (value res)) :=
  bind (reading x toError) fun res => adding fun obj => by
    rw [obj.addValue_eq_push]
    exact Extends.push obj _ _

theorem parseValue2 (predicate : String) (vType : UInt8) :
    Grows (parseValue2 predicate vType) := by
  unfold Onto.parseValue2
  split_ifs
  · exact readingAdding readBool _ predicate .boolean Value.bool
  · exact readingAdding readIntI64 _ predicate .datetime Value.datetime
  · exact readingAdding readIntI64 _ predicate .integer Value.int
  · exact readingAdding readStringFromMsgpack _ predicate .uri Value.uri
  · exact bind (adding fun obj => Extends.entryOrDefault obj predicate) fun _ =>
      bind (reading readRaw _) fun v => adding fun obj => Extends.pushBinary obj predicate v
  · exact readingAdding readStringFromMsgpack _ predicate .string fun s => Value.str s .none
  · exact throw _

theorem parseValue3 (predicate : String) (vType : UInt8) :
    Grows (parseValue3 predicate vType) := by
  unfold Onto.parseValue3
  split_ifs
  · exact bind (reading readIntI64 _) fun m =>
      readingAdding readIntI64 _ predicate .decimal fun e => Value.num m e
  · exact bind (reading readStringFromMsgpack _) fun s =>
      readingAdding readIntI64 _ predicate .string fun l => Value.str s (Lang.newFromI64 l)
  · exact pure _

theorem parseValue (predicate : String) : Grows (parseValue predicate) := by
  refine bind (reading readMarker _) fun marker => ?_
  split
  · split_ifs
    · exact throw _
    · exact bind (reading readIntU8 _) fun vType => parseValue2 predicate vType
    · exact bind (reading readIntU8 _) fun vType => parseValue3 predicate vType
  · exact throw _

theorem parseValueList (predicate : String) (size : ℕ) :
    Grows (parseValueList predicate size) := by
  induction size with
  | zero => exact pure _
  | succ size ih => exact bind (parseValue predicate) fun _ => ih

theorem parseValues (predicate : String) : Grows (parseValues predicate) :=
  bind (reading readArrayLen _) fun size => parseValueList predicate size

end Grows

theorem extends_predicateLoop (expect : String) (left i : ℕ) (cur : List UInt8)
    (iraw : Individual) :
    Extends iraw.obj (predicateLoop expect left i cur iraw).2.obj ∧
      (predicateLoop expect left i cur iraw).2.raw.rawType = iraw.raw.rawType := by
  induction left generalizing i cur iraw with
  | zero => exact ⟨Extends.refl _, rfl⟩
  | succ left ih =>
    rw [predicateLoop]
    cases readStringFromMsgpack.run cur with
    | error e cur => exact ⟨Extends.refl _, rfl⟩
    | ok predicate cur =>
      have hgrows := Grows.parseValues predicate ⟨cur, iraw.obj⟩
      dsimp only
      cases hrun : (parseValues predicate).run ⟨cur, iraw.obj⟩ with
      | error e st =>
        rw [hrun] at hgrows
        exact ⟨hgrows, rfl⟩
      | ok u st =>
        rw [hrun] at hgrows
        dsimp only at hgrows ⊢
        split_ifs
        · exact ⟨hgrows, rfl⟩
        · obtain ⟨hext, htype⟩ := ih (i + 1) st.cur
            ⟨st.obj, { iraw.raw with curPredicates := i }⟩
          exact ⟨hgrows.trans hext, htype⟩

theorem extends_parseToPredicate (cbor : CborParser) (expect : String) {iraw : Individual}
    (htype : iraw.raw.rawType = .msgpack) :
    Extends iraw.obj (parseToPredicate cbor expect iraw).2.obj ∧
      (parseToPredicate cbor expect iraw).2.raw.rawType = .msgpack := by
  have hloop : Extends iraw.obj (parseMsgpackToPredicate expect iraw).2.obj ∧
      (parseMsgpackToPredicate expect iraw).2.raw.rawType = .msgpack := by
    unfold parseMsgpackToPredicate
    split_ifs
    · exact ⟨Extends.refl _, htype⟩
    · rw [← htype]
      exact extends_predicateLoop _ _ _ _ _
  rw [parseToPredicate, if_pos htype]
  rcases hparse : parseMsgpackToPredicate expect iraw with ⟨_ | _, iraw'⟩
  all_goals
    rw [hparse] at hloop
    exact hloop

theorem extends_parseAll {cbor : CborParser} {fuel : ℕ} {iraw full : Individual}
    (htype : iraw.raw.rawType = .msgpack) (h : iraw.parseAll cbor fuel = some full) :
    Extends iraw.obj full.obj := by
  induction fuel generalizing iraw with
  | zero => cases h
  | succ fuel ih =>
    rw [Individual.parseAll] at h
    split_ifs at h
    · obtain ⟨hext, htype'⟩ := extends_parseToPredicate cbor "?" htype
      rcases hparse : parseToPredicate cbor "?" iraw with ⟨answer, iraw'⟩
      rw [hparse] at h hext htype'
      cases answer with
      | true => exact hext.trans (ih htype' h)
      | false => exact Option.some.inj h ▸ hext
    · exact Option.some.inj h ▸ Extends.refl _

/-! ## Damage -/

section Damage

variable {p : String} {rs : List Resource} {obj obj' : IndividualObj}

/-- A value of the predicate was read wrongly. -/
def Spoiled (p : String) (rs : List Resource) (obj : IndividualObj) : Prop :=
  ∃ (n : ℕ) (x y : Resource), (obj.valuesOf p)[n]? = some x ∧ rs[n]? = some y ∧
    x.content ≠ (y.rtype, y.written)

/-- Values of the predicate are missing. -/
def Short (p : String) (rs : List Resource) (obj : IndividualObj) : Prop :=
  (obj.valuesOf p).length < rs.length

theorem ne_of_spoiled_or_short (h : Spoiled p rs obj ∨ Short p rs obj) :
    (obj.valuesOf p).map Resource.content ≠ writtenOf rs := by
  intro heq
  rcases h with ⟨n, x, y, hx, hy, hne⟩ | hlt
  · have hn := congrArg (·[n]?) heq
    simp only [writtenOf, List.getElem?_map, hx, hy, Option.map_some, Option.some.injEq] at hn
    exact hne hn
  · have hlen := congrArg List.length heq
    rw [writtenOf, List.length_map, List.length_map] at hlen
    unfold Short at hlt
    omega

theorem Spoiled.of_extends (h : Spoiled p rs obj) (hext : Extends obj obj') :
    Spoiled p rs obj' := by
  obtain ⟨n, x, y, hx, hy, hne⟩ := h
  obtain ⟨more, hmore⟩ := hext.values p
  refine ⟨n, x, y, ?_, hy, hne⟩
  rw [← hmore, List.getElem?_append_left (List.getElem?_eq_some_iff.mp hx).1, hx]

/-- No string can be read. -/
def NoString (cur : List UInt8) : Prop :=
  ∃ cur', readStringFromMsgpack.run cur = .error (-1) cur'

theorem writeResource_eq_cons (r : Resource) :
    ∃ size tail, size < 16 ∧ writeResource r = (Marker.fixArray size).toU8 :: tail := by
  obtain ⟨rtype, value, order⟩ := r
  cases rtype with
  | string =>
    unfold writeResource
    dsimp only
    split_ifs
    · exact ⟨2, _, by omega, rfl⟩
    · exact ⟨3, _, by omega, rfl⟩
  | decimal => exact ⟨3, _, by omega, rfl⟩
  | _ => exact ⟨2, _, by omega, rfl⟩

theorem noString_writeResource (r : Resource) (rest : List UInt8) :
    NoString (writeResource r ++ rest) := by
  obtain ⟨size, tail, hsize, hw⟩ := writeResource_eq_cons r
  have hmarker : readMarker.run (writeResource r ++ rest) = .ok (.fixArray size) (tail ++ rest) := by
    rw [hw]
    exact reads_marker (fromU8_fixArray hsize) (tail ++ rest)
  refine ⟨tail ++ rest, ?_⟩
  simp only [readStringFromMsgpack, EStateM.run_bind, EStateM.run_get, run_attempt, hmarker]
  rfl

/-- The values were read wrongly, or they are missing and `input` goes on with a value. -/
def Damaged (p : String) (rs : List Resource) (input : List UInt8) :
    EStateM.Result ParseError Decoding Unit → Prop
  | .error _ st => Spoiled p rs st.obj ∨ Short p rs st.obj
  | .ok _ st =>
    Spoiled p rs st.obj ∨ (Short p rs st.obj ∧ NoString st.cur ∧ st.cur <:+ input)

theorem Damaged.of_suffix {input input' : List UInt8}
    {res : EStateM.Result ParseError Decoding Unit} (h : Damaged p rs input res)
    (hsuffix : input <:+ input') : Damaged p rs input' res := by
  cases res with
  | error e st => exact h
  | ok u st =>
    rcases h with h | ⟨hshort, hno, hcur⟩
    · exact .inl h
    · exact .inr ⟨hshort, hno, hcur.trans hsuffix⟩

theorem writeText_of_not_fits {s : String} (h : ¬ (utf8 s).length < 4294967296)
    (rest : List UInt8) :
    ∃ t cur, readStringFromMsgpack.run (writeText s ++ rest) = .ok t cur ∧ t ≠ s := by
  have hne : s.isEmpty ≠ true := by
    intro he
    rw [String.isEmpty_iff] at he
    subst he
    exact h (by decide)
  have hread := readStringFromMsgpack_writeStr s rest
  rw [← show writeText s = writeStr s from if_neg hne] at hread
  exact ⟨_, _, hread, textOf_take_ne (Nat.le_of_not_lt h)⟩

/-- **A value that does not fit** is read as another one, or the read fails and appends nothing. -/
theorem run_parseValue_of_not_fits {r : Resource} (h : ¬ r.Fits) (p : String)
    (rest : List UInt8) (obj : IndividualObj) :
    (∃ e st, (parseValue p).run ⟨writeResource r ++ rest, obj⟩ = .error e st ∧
      st.obj.valuesOf p = obj.valuesOf p) ∨
    ∃ st x, (parseValue p).run ⟨writeResource r ++ rest, obj⟩ = .ok () st ∧
      st.obj.valuesOf p = obj.valuesOf p ++ [x] ∧ x.content ≠ (r.rtype, r.written) := by
  obtain ⟨rtype, value, order⟩ := r
  cases rtype with
  | integer => exact absurd trivial h
  | datetime => exact absurd trivial h
  | decimal => exact absurd trivial h
  | boolean => exact absurd trivial h
  | uri =>
    obtain ⟨t, cur, hread, hne⟩ := writeText_of_not_fits h rest
    refine .inr ⟨⟨cur, obj.addUri p t⟩, _, ?_, obj.valuesOf_push p _, fun hc => hne ?_⟩
    · have hvalue := run_parseValue2 p .uri
        (writeText (Resource.getUri ⟨.uri, value, order⟩) ++ rest) obj
      rw [writeResource, List.append_assoc, List.append_assoc]
      refine hvalue.trans ?_
      show (reading readStringFromMsgpack _ >>= _).run _ = _
      rw [EStateM.run_bind, run_reading, hread]
      rfl
    · exact Value.uri.inj (congrArg Prod.snd hc)
  | binary =>
    have hlen : ¬ (Resource.getBinary ⟨.binary, value, order⟩).length < 4294967296 := h
    generalize hdata : Resource.getBinary ⟨.binary, value, order⟩ = data at hlen
    refine .inr ⟨⟨(data ++ rest).drop (asU32 data.length),
      obj.push p ⟨.binary, .binary (data.take (asU32 data.length)), 0⟩⟩, _, ?_,
      obj.valuesOf_push p _, fun hc => ?_⟩
    · rw [writeResource]
      dsimp only
      rw [hdata, List.append_assoc, List.append_assoc, List.append_assoc]
      exact run_parseValue_binary p data rest obj
    · have hv : data.take (asU32 data.length) = Resource.getBinary ⟨.binary, value, order⟩ :=
        Value.binary.inj (congrArg Prod.snd hc)
      rw [hdata] at hv
      have hl := congrArg List.length hv
      have hlt := asU32_lt data.length
      rw [List.length_take] at hl
      omega
  | string =>
    unfold writeResource
    dsimp only
    split_ifs with hlang
    · obtain ⟨t, cur, hread, hne⟩ := writeText_of_not_fits h rest
      refine .inr ⟨⟨cur, obj.addString p t .none⟩, _, ?_, obj.valuesOf_push p _, fun hc => hne ?_⟩
      · have hvalue := run_parseValue2 p .string
          (writeText (Resource.getStr ⟨.string, value, order⟩) ++ rest) obj
        rw [List.append_assoc, List.append_assoc]
        refine hvalue.trans ?_
        show (reading readStringFromMsgpack _ >>= _).run _ = _
        rw [EStateM.run_bind, run_reading, hread]
        rfl
      · exact (Value.str.inj (congrArg Prod.snd hc)).1
    · obtain ⟨t, cur, hread, hne⟩ := writeText_of_not_fits h
        (writeU8 (Resource.getLang ⟨.string, value, order⟩).toU8 ++ rest)
      have hvalue := run_parseValue3 p .string
        (writeText (Resource.getStr ⟨.string, value, order⟩) ++
          (writeU8 (Resource.getLang ⟨.string, value, order⟩).toU8 ++ rest)) obj
      have hrun : (parseValue3 p DataType.string.toU8).run
          ⟨writeText (Resource.getStr ⟨.string, value, order⟩) ++
            (writeU8 (Resource.getLang ⟨.string, value, order⟩).toU8 ++ rest), obj⟩ =
          (do
            let lang ← reading readIntI64 .failReadLang
            adding fun o => o.addString p t (Lang.newFromI64 lang)).run ⟨cur, obj⟩ := by
        show (reading readStringFromMsgpack _ >>= _).run _ = _
        rw [EStateM.run_bind, run_reading, hread]
      rw [List.append_assoc, List.append_assoc, List.append_assoc]
      rw [hrun, EStateM.run_bind, run_reading] at hvalue
      dsimp only at hvalue
      cases hint : readIntI64.run cur with
      | error e cur' =>
        rw [hint] at hvalue
        exact .inl ⟨_, _, hvalue, rfl⟩
      | ok lang cur' =>
        rw [hint] at hvalue
        refine .inr ⟨_, _, hvalue, obj.valuesOf_push p _, fun hc => hne ?_⟩
        exact (Value.str.inj (congrArg Prod.snd hc)).1

/-- The values that were read so far are those in front, and not all others can be read: then they
are read wrongly.

**Proof sketch.** Induction on the values that are left. A value that fits is read. One that does
not fit is read wrongly, and what follows only appends, or the read fails and values are missing.
When the number of the values that are read is too small, values are missing and the next one
follows. -/
theorem damaged_valueList (before rs : List Resource) (k : ℕ) (hk : k ≤ rs.length)
    (hbad : ¬ (k = rs.length ∧ ∀ r ∈ rs, r.Fits)) (obj : IndividualObj) (rest : List UInt8)
    (hobj : (obj.valuesOf p).map Resource.content = writtenOf before) :
    Damaged p (before ++ rs) (rs.flatMap writeResource ++ rest)
      ((parseValueList p k).run ⟨rs.flatMap writeResource ++ rest, obj⟩) := by
  have hlength : (obj.valuesOf p).length = before.length := by
    have hlen := congrArg List.length hobj
    rwa [writtenOf, List.length_map, List.length_map] at hlen
  induction rs generalizing before k obj with
  | nil => exact absurd ⟨Nat.le_zero.mp hk, fun r hr => by cases hr⟩ hbad
  | cons r rs ih =>
    have hshort : ∀ o : IndividualObj, o.valuesOf p = obj.valuesOf p →
        Short p (before ++ r :: rs) o := by
      intro o ho
      rw [Short, ho, hlength, List.length_append, List.length_cons]
      omega
    cases k with
    | zero =>
      refine .inr ⟨hshort obj rfl, ?_, List.suffix_rfl⟩
      show NoString ((r :: rs).flatMap writeResource ++ rest)
      rw [List.flatMap_cons, List.append_assoc]
      exact noString_writeResource r _
    | succ k =>
      rw [List.flatMap_cons, List.append_assoc, parseValueList, EStateM.run_bind]
      by_cases hfits : r.Fits
      · rw [decodes_value hfits]
        dsimp only
        have hcontent : ((obj.push p (r.stored (obj.valuesOf p).length)).valuesOf p).map
            Resource.content = writtenOf (before ++ [r]) := by
          rw [IndividualObj.valuesOf_push, List.map_append, hobj, writtenOf, writtenOf,
            List.map_append]
          rfl
        have hrest := ih (before ++ [r]) k (by rw [List.length_cons] at hk; omega) ?_ _ hcontent
          (by rw [IndividualObj.valuesOf_push, List.length_append, List.length_append, hlength]
              rfl)
        · rw [List.append_assoc, List.singleton_append] at hrest
          exact hrest.of_suffix (List.suffix_append _ _)
        · rintro ⟨rfl, hall⟩
          refine hbad ⟨rfl, fun x hx => ?_⟩
          rcases List.mem_cons.mp hx with rfl | hx
          · exact hfits
          · exact hall x hx
      · rcases run_parseValue_of_not_fits hfits p (rs.flatMap writeResource ++ rest) obj with
          ⟨e, st, hrun, hst⟩ | ⟨st, x, hrun, hst, hne⟩
        · rw [hrun]
          exact .inr (hshort st.obj hst)
        · have hspoiled : Spoiled p (before ++ r :: rs) st.obj := by
            refine ⟨before.length, x, r, ?_, ?_, hne⟩
            · rw [hst, ← hlength, List.getElem?_concat_length]
            · rw [List.getElem?_append_right (Nat.le_refl _), Nat.sub_self]
              rfl
          have hgrows := Grows.parseValueList p k st
          rw [hrun]
          dsimp only
          cases hlist : (parseValueList p k).run st with
          | error e st' =>
            rw [hlist] at hgrows
            exact .inl (hspoiled.of_extends hgrows)
          | ok u st' =>
            rw [hlist] at hgrows
            exact .inl (hspoiled.of_extends hgrows)

/-- **The values of a predicate that does not fit** are read wrongly. -/
theorem damaged_values (hbad : ¬ (rs.length < 4294967296 ∧ ∀ r ∈ rs, r.Fits))
    (hobj : obj.valuesOf p = []) (rest : List UInt8) :
    Damaged p rs (rs.flatMap writeResource ++ rest)
      ((parseValues p).run
        ⟨writeArrayLen (asU32 rs.length) ++ (rs.flatMap writeResource ++ rest), obj⟩) := by
  rw [parseValues, run_reading_bind (reads_arrayLen (asU32_lt _))]
  refine damaged_valueList [] rs _ (asU32_le _) (fun h => hbad ⟨?_, h.2⟩) obj rest ?_
  · rw [← h.1]
    exact asU32_lt _
  · rw [hobj]
    rfl

/-! ## What becomes of it -/

/-- The predicate stays wrong: a value was read wrongly, or values are missing and no predicate can
be read at the cursor. -/
structure Broken (p : String) (rs : List Resource) (iraw : Individual) : Prop where
  rawType : iraw.raw.rawType = .msgpack
  wrong : Spoiled p rs iraw.obj ∨
    (Short p rs iraw.obj ∧ NoString (iraw.raw.data.drop iraw.raw.cur))

theorem Broken.spoiled_or_short {iraw : Individual} (h : Broken p rs iraw) :
    Spoiled p rs iraw.obj ∨ Short p rs iraw.obj :=
  h.wrong.imp_right And.left

theorem noString_setCur {iraw : Individual} {cur : List UInt8} (h : cur <:+ iraw.raw.data)
    (hno : NoString cur) :
    NoString ((iraw.setCur cur).raw.data.drop (iraw.setCur cur).raw.cur) := by
  rw [drop_setCur h]
  exact hno

theorem Broken.parse {iraw : Individual} (h : Broken p rs iraw) (cbor : CborParser)
    (expect : String) {answer : Bool} {iraw' : Individual}
    (hparse : parseToPredicate cbor expect iraw = (answer, iraw')) :
    (Spoiled p rs iraw'.obj ∨ Short p rs iraw'.obj) ∧ (answer = true → Broken p rs iraw') := by
  rcases h.wrong with hspoiled | ⟨hshort, cur', hno⟩
  · obtain ⟨hext, htype⟩ := extends_parseToPredicate cbor expect h.rawType
    rw [hparse] at hext htype
    exact ⟨.inl (hspoiled.of_extends hext), fun _ => ⟨htype, .inl (hspoiled.of_extends hext)⟩⟩
  · rw [parseToPredicate, if_pos h.rawType, parseMsgpackToPredicate] at hparse
    split_ifs at hparse with hlen
    · obtain ⟨rfl, rfl⟩ := Prod.mk.inj hparse
      exact ⟨.inr hshort, fun hf => by cases hf⟩
    · cases hrounds : iraw.raw.lenPredicates - iraw.raw.curPredicates with
      | zero =>
        rw [hrounds, predicateLoop] at hparse
        obtain ⟨rfl, rfl⟩ := Prod.mk.inj hparse
        exact ⟨.inr hshort, fun _ => ⟨h.rawType,
          .inr ⟨hshort, noString_setCur (List.drop_suffix _ _) ⟨cur', hno⟩⟩⟩⟩
      | succ rounds =>
        rw [hrounds, predicateLoop, hno] at hparse
        obtain ⟨rfl, rfl⟩ := Prod.mk.inj hparse
        exact ⟨.inr hshort, fun hf => by cases hf⟩

theorem broken_predicateLoop (hname : (utf8 p).length < 4294967296)
    (hbad : ¬ (rs.length < 4294967296 ∧ ∀ r ∈ rs, r.Fits)) (expect : String) (left i : ℕ)
    (rest : List UInt8) {iraw : Individual} (hobj : iraw.obj.valuesOf p = [])
    (htype : iraw.raw.rawType = .msgpack)
    (hdata : writePredicate (p, rs) ++ rest <:+ iraw.raw.data) :
    (Spoiled p rs (predicateLoop expect (left + 1) i (writePredicate (p, rs) ++ rest) iraw).2.obj ∨
      Short p rs (predicateLoop expect (left + 1) i (writePredicate (p, rs) ++ rest) iraw).2.obj) ∧
    ((predicateLoop expect (left + 1) i (writePredicate (p, rs) ++ rest) iraw).1.isOk = true →
      Broken p rs (predicateLoop expect (left + 1) i (writePredicate (p, rs) ++ rest) iraw).2) := by
  have hread := reads_writeStr hname
  have hvalues := damaged_values hbad hobj rest
  have hsuffix : rs.flatMap writeResource ++ rest <:+ iraw.raw.data := by
    rw [writePredicate, List.append_assoc, List.append_assoc] at hdata
    exact ((List.suffix_append _ _).trans (List.suffix_append _ _)).trans hdata
  rw [predicateLoop, writePredicate, List.append_assoc, hread]
  dsimp only
  rw [List.append_assoc]
  cases hrun : (parseValues p).run
      ⟨writeArrayLen (asU32 rs.length) ++ (rs.flatMap writeResource ++ rest), iraw.obj⟩ with
  | error e st =>
    rw [hrun] at hvalues
    exact ⟨hvalues, fun hf => by cases hf⟩
  | ok u st =>
    rw [hrun] at hvalues
    dsimp only
    split_ifs
    · refine ⟨hvalues.imp_right And.left, fun _ => ⟨htype, ?_⟩⟩
      rcases hvalues with hspoiled | ⟨hshort, hno, hcur⟩
      · exact .inl hspoiled
      · exact .inr ⟨hshort, noString_setCur (hcur.trans hsuffix) hno⟩
    · rcases hvalues with hspoiled | ⟨hshort, hno, hcur⟩
      · obtain ⟨hext, htype'⟩ := extends_predicateLoop expect left (i + 1) st.cur
          ⟨st.obj, { iraw.raw with curPredicates := i }⟩
        exact ⟨.inl (hspoiled.of_extends hext),
          fun _ => ⟨htype'.trans htype, .inl (hspoiled.of_extends hext)⟩⟩
      · cases left with
        | zero =>
          exact ⟨.inr hshort, fun _ => ⟨htype,
            .inr ⟨hshort, noString_setCur (hcur.trans hsuffix) hno⟩⟩⟩
        | succ left =>
          obtain ⟨cur', hno⟩ := hno
          rw [predicateLoop, hno]
          exact ⟨.inr hshort, fun hf => by cases hf⟩

theorem wrong_of_broken {iraw full : Individual} (h : Broken p rs iraw) {cbor : CborParser}
    {fuel : ℕ} (hfull : iraw.parseAll cbor fuel = some full) :
    Spoiled p rs full.obj ∨ Short p rs full.obj := by
  induction fuel generalizing iraw with
  | zero => cases hfull
  | succ fuel ih =>
    rw [Individual.parseAll] at hfull
    split_ifs at hfull
    · rcases hparse : parseToPredicate cbor "?" iraw with ⟨answer, iraw'⟩
      obtain ⟨hwrong, hbroken⟩ := h.parse cbor "?" hparse
      rw [hparse] at hfull
      cases answer with
      | true => exact ih (hbroken rfl) hfull
      | false => exact Option.some.inj hfull ▸ hwrong
    · exact Option.some.inj hfull ▸ h.spoiled_or_short

variable {header : List UInt8} {base : IndividualObj}
  {taken block left : List (String × List Resource)} {iraw : Individual}
  (h : Between header base taken (block ++ (p, rs) :: left) iraw)
  (hblock : ∀ e ∈ block, EntryFits e) (hname : (utf8 p).length < 4294967296)
  (hbad : ¬ (rs.length < 4294967296 ∧ ∀ r ∈ rs, r.Fits))
  (hbase : base.resources.lookup p = none) (hnew : p ∉ (taken ++ block).map Prod.fst)
  (hcount : asU32 (taken ++ (block ++ (p, rs) :: left)).length ≠ 0)

include h hblock hname hbad hbase hnew hcount

theorem broken_of_parse (cbor : CborParser) (expect : String) {answer : Bool} {iraw' : Individual}
    (hparse : parseToPredicate cbor expect iraw = (answer, iraw')) :
    (answer = true ∧ ∃ es block', block = es ++ block' ∧
      Between header base (taken ++ es) (block' ++ (p, rs) :: left) iraw') ∨
    ((Spoiled p rs iraw'.obj ∨ Short p rs iraw'.obj) ∧ (answer = true → Broken p rs iraw')) := by
  rcases h.parse_cases hblock hcount cbor expect with
    ⟨es, block', iraw'', hsplit, -, hparse', hbetween⟩ | ⟨hes, hrounds⟩
  · obtain ⟨rfl, rfl⟩ := Prod.mk.inj (hparse.symm.trans hparse')
    exact .inl ⟨rfl, es, block', hsplit, hbetween⟩
  · right
    obtain ⟨k, hk⟩ : ∃ k, asU32 (taken ++ (block ++ (p, rs) :: left)).length -
        iraw.raw.curPredicates = block.length + (k + 1) :=
      ⟨asU32 (taken ++ (block ++ (p, rs) :: left)).length - iraw.raw.curPredicates -
        block.length - 1, by omega⟩
    rw [h.parse_eq (by simp) cbor, hk, bytesOfEntries_append, predicateLoop_append hblock hes,
      bytesOfEntries_cons] at hparse
    obtain ⟨rfl, rfl⟩ := Prod.mk.inj hparse
    have hraw := Individual.advance_raw iraw.raw.curPredicates block iraw
    apply broken_predicateLoop hname hbad
    · rw [Individual.advance_obj, h.obj, ← IndividualObj.addEntries_append,
        IndividualObj.valuesOf, IndividualObj.lookup_addEntries_of_notMem _ hnew, hbase]
      rfl
    · rw [hraw]
      exact h.rawType
    · rw [hraw]
      show _ <:+ iraw.raw.data
      rw [h.data, ← bytesOfEntries_cons, bytesOfEntries_append, bytesOfEntries_append]
      exact ((List.suffix_append _ _).trans (List.suffix_append _ _)).trans
        (List.suffix_append _ _)

/-- **A predicate whose values do not fit is decoded wrongly.** -/
theorem wrong_of_parseAll {full : Individual} {cbor : CborParser} {fuel : ℕ}
    (hfull : iraw.parseAll cbor fuel = some full) :
    Spoiled p rs full.obj ∨ Short p rs full.obj := by
  induction fuel generalizing taken block iraw with
  | zero => cases hfull
  | succ fuel ih =>
    rw [Individual.parseAll, if_pos (h.cur_lt_iff.mpr (by simp))] at hfull
    rcases hparse : parseToPredicate cbor "?" iraw with ⟨answer, iraw'⟩
    rw [hparse] at hfull
    rcases broken_of_parse h hblock hname hbad hbase hnew hcount cbor "?" hparse with
      ⟨rfl, es, block', rfl, hbetween⟩ | ⟨hwrong, hbroken⟩
    · refine ih hbetween (fun e he => hblock e (List.mem_append_right _ he)) ?_ ?_ hfull
      · rwa [List.append_assoc]
      · rwa [List.append_assoc, ← List.append_assoc es]
    · cases answer with
      | true => exact wrong_of_broken (hbroken rfl) hfull
      | false => exact Option.some.inj hfull ▸ hwrong

end Damage

/-! ## The number of the predicates -/

theorem Between.parse_none {header : List UInt8} {base : IndividualObj}
    {taken left : List (String × List Resource)} {iraw : Individual}
    (h : Between header base taken left iraw) (hne : left ≠ [])
    (hcount : asU32 (taken ++ left).length = 0) (cbor : CborParser) (expect : String) :
    ∃ iraw', parseToPredicate cbor expect iraw = (true, iraw') ∧
      Between header base taken left iraw' := by
  have hlength := h.length_data
  rw [h.parse_eq hne cbor, hcount, Nat.zero_sub, predicateLoop]
  refine ⟨_, rfl, ⟨h.data, ?_, h.obj, h.rawType, h.lenPredicates, h.curPredicates, h.rounds⟩⟩
  rw [← h.cur, Individual.setCur]
  dsimp only
  omega

theorem Between.parseAll_none {header : List UInt8} {base : IndividualObj}
    {taken left : List (String × List Resource)} {iraw : Individual}
    (h : Between header base taken left iraw) (hne : left ≠ [])
    (hcount : asU32 (taken ++ left).length = 0) (cbor : CborParser) (fuel : ℕ) :
    iraw.parseAll cbor fuel = none := by
  induction fuel generalizing iraw with
  | zero => rfl
  | succ fuel ih =>
    obtain ⟨iraw', hparse, hbetween⟩ := h.parse_none hne hcount cbor "?"
    rw [Individual.parseAll, if_pos (h.cur_lt_iff.mpr hne), hparse]
    exact ih hbetween

end Veda.Onto
