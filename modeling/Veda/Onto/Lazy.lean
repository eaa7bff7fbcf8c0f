import Veda.Onto.Lossless

set_option autoImplicit false

/-!
# Lazy reading

A getter of an individual decodes its record only as far as it needs to. It visits its predicate at
most twice: when the first visit finds nothing and bytes are left, it decodes up to the predicate
and visits it again. For a stored individual whose lengths fit, every getter gives in every state
what it would give after everything was decoded.

## Main definitions

* `Onto.Individual.get` — a getter with its loop.
* `Onto.Reached` — the states that calls can lead to.
* `Onto.ReadsAsDecoded` — every call gives what it gives after everything was decoded.

## Main results

* `Onto.Between.get` — one call.
* `Onto.between_of_reached` — the invariant in every state.
* `Onto.readsAsDecoded` — lazy reading is reading.
-/

namespace Veda.Onto

open Veda.Lib Veda.Lib.Msgpack

section Get

variable {ρ : Type} (cbor : CborParser) (g : Getter ρ) (predicate : String)

/-- The loop of a getter, with the visits that are left. -/
def Individual.getLoop : ℕ → Individual → Except Panic ρ × Individual
  | 0, iraw => (.ok g.notFound, iraw)
  | visits + 1, iraw =>
    match iraw.obj.resources.lookup predicate with
    | some v =>
      match g.inspect v with
      | .error panic => (.error panic, iraw)
      | .ok (some answer) => (.ok answer, iraw)
      | .ok none => getLoop visits iraw
    | none =>
      if iraw.raw.cur < iraw.raw.data.length then
        match parseToPredicate cbor predicate iraw with
        | (true, iraw) => getLoop visits iraw
        | (false, iraw) => (.ok g.notFound, iraw)
      else (.ok g.notFound, iraw)

/-- A getter; it visits its predicate at most twice. -/
def Individual.get (iraw : Individual) : Except Panic ρ × Individual :=
  Individual.getLoop cbor g predicate 2 iraw

end Get

/-- The states that calls of getters and of `parse_all` can lead to. -/
inductive Reached (cbor : CborParser) (start : Individual) : Individual → Prop
  | start : Reached cbor start start
  | get {ρ : Type} (g : Getter ρ) (predicate : String) {iraw : Individual} :
    Reached cbor start iraw → Reached cbor start (iraw.get cbor g predicate).2
  | parseAll (fuel : ℕ) {iraw full : Individual} :
    Reached cbor start iraw → iraw.parseAll cbor fuel = some full → Reached cbor start full

/-- After the header everything can be decoded, and in every state that calls lead to: every getter
gives what it gives when everything is decoded, so does decoding everything, and every predicate
that is decoded has the values that were written, each once. -/
def ReadsAsDecoded (cbor : CborParser) (π : IterOrder String) (obj : IndividualObj) : Prop :=
  ∃ start fuel full, (recordOf π obj).parseRaw cbor = (.ok (), start) ∧
    start.parseAll cbor fuel = some full ∧
    ∀ iraw, Reached cbor start iraw →
      (∀ (ρ : Type) (g : Getter ρ) (predicate : String),
        (iraw.get cbor g predicate).1 = (full.get cbor g predicate).1) ∧
      (∃ fuel full', iraw.parseAll cbor fuel = some full' ∧ full'.obj = full.obj) ∧
      ∀ predicate values, iraw.obj.resources.lookup predicate = some values →
        (obj.resources.lookup predicate).map writtenOf = some (values.map Resource.content)

/-- All lengths of an individual fit into 32 bits, the number of its predicates too. -/
structure IndividualObj.AllFit (obj : IndividualObj) : Prop where
  uri : (utf8 obj.uri).length < 4294967296
  count : obj.resources.keys.length < 4294967296
  entries : ∀ p rs, obj.resources.lookup p = some rs → EntryFits (p, rs)

theorem IndividualObj.AllFit.length_iter_lt {obj : IndividualObj} (hfits : obj.AllFit)
    (π : IterOrder String) : (obj.resources.iter π).length < 4294967296 := by
  rw [length_iter]
  exact hfits.count

theorem IndividualObj.AllFit.of_left {obj : IndividualObj} (hfits : obj.AllFit)
    {π : IterOrder String} {taken left : List (String × List Resource)}
    (heq : taken ++ left = obj.resources.iter π) : ∀ e ∈ left, EntryFits e := fun e he =>
  hfits.entries _ _ ((HashMap.mem_iter π obj.resources e.1 e.2).mp
    (heq ▸ List.mem_append_right _ he))

theorem IndividualObj.allFit_single {uri p : String} {r : Resource}
    (huri : (utf8 uri).length < 4294967296) (hp : (utf8 p).length < 4294967296) (hr : r.Fits) :
    IndividualObj.AllFit ⟨uri, AList.insert p [r] ∅⟩ := by
  have hone : 1 < 4294967296 := by decide
  refine ⟨huri, hone, fun p' rs h => ?_⟩
  obtain ⟨rfl, rfl⟩ := HashMap.lookup_insert_empty.mp h
  exact ⟨hp, hone, fun r' hr' => List.mem_singleton.mp hr' ▸ hr⟩

/-! ## One call -/

section Loop

variable {ρ : Type} {cbor : CborParser} {g : Getter ρ} {p : String}

theorem getLoop_some {iraw : Individual} {v : List Resource}
    (h : iraw.obj.resources.lookup p = some v) (visits : ℕ) :
    Individual.getLoop cbor g p (visits + 1) iraw = (iraw.obj.read g p, iraw) := by
  have hread : iraw.obj.read g p = (g.inspect v).map fun answer => answer.getD g.notFound := by
    rw [IndividualObj.read, h]
  rw [hread]
  clear hread
  induction visits with
  | zero =>
    rw [Individual.getLoop, h]
    dsimp only
    cases g.inspect v with
    | error panic => rfl
    | ok answer => cases answer <;> rfl
  | succ visits ih =>
    rw [Individual.getLoop, h]
    dsimp only
    cases hinspect : g.inspect v with
    | error panic => rfl
    | ok answer =>
      cases answer with
      | none =>
        rw [hinspect] at ih
        exact ih
      | some answer => rfl

variable {header : List UInt8} {base : IndividualObj}
  {taken left : List (String × List Resource)} {iraw : Individual}

theorem Between.rounds_left (h : Between header base taken left iraw) (hne : left ≠ [])
    (hcount : (taken ++ left).length < 4294967296) :
    iraw.raw.curPredicates + left.length ≤ asU32 (taken ++ left).length := by
  have hcur := h.curPredicates
  have hpos : 0 < left.length := List.length_pos_iff.mpr hne
  rw [asU32_of_lt hcount, List.length_append]
  omega

theorem Between.parse_absent (h : Between header base taken left iraw) (hne : left ≠ [])
    (hfits : ∀ e ∈ left, EntryFits e) (habsent : ∀ e ∈ left, e.1 ≠ p)
    (hcount : (taken ++ left).length < 4294967296)
    (hnone : iraw.obj.resources.lookup p = none) (cbor : CborParser) :
    ∃ answer iraw', parseToPredicate cbor p iraw = (answer, iraw') ∧
      Between header base (taken ++ left) [] iraw' ∧ iraw'.obj.resources.lookup p = none := by
  have hkept : ∀ {iraw'}, Between header base (taken ++ left) [] iraw' →
      iraw'.obj.resources.lookup p = none := by
    intro iraw' hbetween
    have hnew : p ∉ left.map Prod.fst := by
      intro hmem
      obtain ⟨e, he, heq⟩ := List.mem_map.mp hmem
      exact habsent e he heq
    rw [hbetween.obj, IndividualObj.addEntries_append, ← h.obj,
      IndividualObj.lookup_addEntries_of_notMem _ hnew, hnone]
  rcases Nat.lt_or_eq_of_le (h.rounds_left hne hcount) with hlt | heq
  · obtain ⟨iraw', hparse, hbetween⟩ := h.parse_end hne hfits habsent hlt cbor
    exact ⟨false, iraw', hparse, hbetween, hkept hbetween⟩
  · have hleft : left ++ [] = left := List.append_nil left
    rw [← hleft] at h
    obtain ⟨iraw', hparse, hbetween⟩ := h.parse_rounds hne hfits habsent
      (by rw [hleft]; exact heq) cbor
    exact ⟨true, iraw', hparse, hbetween, hkept hbetween⟩

theorem Between.getLoop_absent (h : Between header base taken left iraw)
    (hfits : ∀ e ∈ left, EntryFits e) (hcount : (taken ++ left).length < 4294967296)
    (hnone : iraw.obj.resources.lookup p = none) (habsent : ∀ e ∈ left, e.1 ≠ p) (visits : ℕ) :
    ∃ iraw' taken' left', Individual.getLoop cbor g p visits iraw = (.ok g.notFound, iraw') ∧
      taken' ++ left' = taken ++ left ∧ Between header base taken' left' iraw' := by
  induction visits generalizing taken left iraw with
  | zero => exact ⟨iraw, taken, left, rfl, rfl, h⟩
  | succ visits ih =>
    rw [Individual.getLoop, hnone]
    dsimp only
    split_ifs with hlt
    · have hne := h.cur_lt_iff.mp hlt
      obtain ⟨answer, iraw', hparse, hbetween, hnone'⟩ :=
        h.parse_absent hne hfits habsent hcount hnone cbor
      rw [hparse]
      cases answer with
      | true =>
        obtain ⟨iraw'', taken', left', hget, heq, hbetween'⟩ := ih hbetween
          (fun e he => by cases he) (by rwa [List.append_nil]) hnone' (fun e he => by cases he)
        exact ⟨iraw'', taken', left', hget, by rw [heq, List.append_nil], hbetween'⟩
      | false => exact ⟨iraw', _, _, rfl, List.append_nil _, hbetween⟩
    · exact ⟨iraw, taken, left, rfl, rfl, h⟩

theorem lookup_addEntries_of_some {es es' : List (String × List Resource)}
    (hnodup : ((es ++ es').map Prod.fst).Nodup) (hbase : base.resources.lookup p = none)
    {v : List Resource} (h : (base.addEntries es).resources.lookup p = some v) :
    (base.addEntries (es ++ es')).resources.lookup p = some v := by
  have hmem : p ∈ es.map Prod.fst := by
    by_contra hnew
    rw [IndividualObj.lookup_addEntries_of_notMem _ hnew, hbase] at h
    cases h
  rw [List.map_append] at hnodup
  rw [IndividualObj.addEntries_append, IndividualObj.lookup_addEntries_of_notMem, h]
  exact fun hnew => List.disjoint_of_nodup_append hnodup hmem hnew

/-- **One call**: a getter reads what is there after everything was decoded, and the invariant is
kept.

**Proof sketch.** A predicate that is decoded is read at the first visit. One that is left is
decoded by the first visit; the second one reads it, or finds that it has no values. One that is
neither decoded nor left is not found, whatever the visits decode. -/
theorem Between.get (h : Between header base taken left iraw)
    (hfits : ∀ e ∈ left, EntryFits e) (hcount : (taken ++ left).length < 4294967296)
    (hnodup : ((taken ++ left).map Prod.fst).Nodup) (hbase : base.resources.lookup p = none) :
    ∃ iraw' taken' left', iraw.get cbor g p = ((base.addEntries (taken ++ left)).read g p, iraw') ∧
      taken' ++ left' = taken ++ left ∧ Between header base taken' left' iraw' := by
  cases hlookup : iraw.obj.resources.lookup p with
  | some v =>
    have hfull : (base.addEntries (taken ++ left)).resources.lookup p = some v :=
      lookup_addEntries_of_some hnodup hbase (by rw [← h.obj]; exact hlookup)
    refine ⟨iraw, taken, left, ?_, rfl, h⟩
    rw [Individual.get, getLoop_some hlookup, IndividualObj.read, IndividualObj.read, hlookup,
      hfull]
  | none =>
    rcases exists_first_or_forall_ne left p with ⟨es, e, left', rfl, rfl, hes⟩ | habsent
    · have hlt := h.cur_lt_iff.mpr (by simp)
      have hrounds := h.rounds_left (by simp) hcount
      obtain ⟨iraw', hparse, hbetween⟩ := h.parse_found
        (fun x hx => hfits x (by
          rw [List.mem_append, List.mem_singleton] at hx
          rw [List.mem_append, List.mem_cons]
          exact hx.imp_right .inl)) hes
        (by
          rw [List.length_append, List.length_cons] at hrounds
          omega) cbor
      have hsplit : taken ++ (es ++ [e]) ++ left' = taken ++ (es ++ e :: left') := by
        rw [List.append_assoc, List.append_assoc, List.singleton_append]
      have hget : iraw.get cbor g e.1 = Individual.getLoop cbor g e.1 1 iraw' := by
        rw [Individual.get, Individual.getLoop, hlookup]
        dsimp only
        rw [if_pos hlt, hparse]
      rw [← hsplit] at hnodup hcount ⊢
      cases hlookup' : iraw'.obj.resources.lookup e.1 with
      | some v =>
        have hfull := lookup_addEntries_of_some hnodup hbase
          (by rw [← hbetween.obj]; exact hlookup')
        refine ⟨iraw', _, _, ?_, rfl, hbetween⟩
        rw [hget, getLoop_some hlookup', IndividualObj.read, IndividualObj.read, hlookup', hfull]
      | none =>
        have hleft : ∀ x ∈ left', x.1 ≠ e.1 := by
          intro x hx heq
          rw [List.map_append] at hnodup
          have hmem : e.1 ∈ left'.map Prod.fst := List.mem_map.mpr ⟨x, hx, heq⟩
          exact List.disjoint_of_nodup_append hnodup (by simp) hmem
        have hnew : e.1 ∉ left'.map Prod.fst := by
          intro hmem
          obtain ⟨x, hx, heq⟩ := List.mem_map.mp hmem
          exact hleft x hx heq
        have hfull : (base.addEntries (taken ++ (es ++ [e]) ++ left')).resources.lookup e.1 =
            none := by
          rw [IndividualObj.addEntries_append, IndividualObj.lookup_addEntries_of_notMem _ hnew,
            ← hbetween.obj, hlookup']
        obtain ⟨iraw'', taken', left'', hloop, heq, hbetween'⟩ := hbetween.getLoop_absent
          (fun x hx => hfits x (List.mem_append_right _ (List.mem_cons_of_mem _ hx))) hcount
          hlookup' hleft 1
        refine ⟨iraw'', taken', left'', ?_, heq, hbetween'⟩
        rw [hget, hloop, IndividualObj.read, hfull]
    · have hnew : p ∉ left.map Prod.fst := by
        intro hmem
        obtain ⟨x, hx, heq⟩ := List.mem_map.mp hmem
        exact habsent x hx heq
      have hfull : (base.addEntries (taken ++ left)).resources.lookup p = none := by
        rw [IndividualObj.addEntries_append, IndividualObj.lookup_addEntries_of_notMem _ hnew,
          ← h.obj, hlookup]
      obtain ⟨iraw', taken', left', hloop, heq, hbetween'⟩ :=
        h.getLoop_absent hfits hcount hlookup habsent 2
      refine ⟨iraw', taken', left', ?_, heq, hbetween'⟩
      rw [Individual.get, hloop, IndividualObj.read, hfull]

theorem Between.get_fst (h : Between header base taken left iraw)
    (hfits : ∀ e ∈ left, EntryFits e) (hcount : (taken ++ left).length < 4294967296)
    (hnodup : ((taken ++ left).map Prod.fst).Nodup) (hbase : base.resources.lookup p = none) :
    (iraw.get cbor g p).1 = (base.addEntries (taken ++ left)).read g p := by
  obtain ⟨iraw', taken', left', hget, -⟩ :=
    show ∃ iraw' taken' left', iraw.get cbor g p = (_, iraw') ∧ _ from
      h.get hfits hcount hnodup hbase
  rw [hget]

end Loop

/-! ## Every call -/

section Calls

variable {cbor : CborParser} {π : IterOrder String} {obj : IndividualObj}

theorem Between.parseAll_stored {taken left : List (String × List Resource)} {iraw : Individual}
    (h : Between (headerOf obj) (withoutValues obj) taken left iraw) (hfits : obj.AllFit)
    (heq : taken ++ left = obj.resources.iter π) (cbor : CborParser) :
    ∃ fuel full, iraw.parseAll cbor fuel = some full ∧
      Between (headerOf obj) (withoutValues obj) (obj.resources.iter π) [] full := by
  rw [← heq]
  refine h.parseAll_some (hfits.of_left heq) (fun hne hzero => ?_) cbor
  rw [heq, asU32_of_lt (hfits.length_iter_lt π), List.length_eq_zero_iff] at hzero
  rw [hzero, List.append_eq_nil_iff] at heq
  exact hne heq.2

theorem between_of_reached (hfits : obj.AllFit) {start iraw : Individual}
    (hstart : Between (headerOf obj) (withoutValues obj) [] (obj.resources.iter π) start)
    (h : Reached cbor start iraw) :
    ∃ taken left, taken ++ left = obj.resources.iter π ∧
      Between (headerOf obj) (withoutValues obj) taken left iraw := by
  have hcount := hfits.length_iter_lt π
  induction h with
  | start => exact ⟨[], _, rfl, hstart⟩
  | get g predicate _ ih =>
    obtain ⟨taken, left, heq, hbetween⟩ := ih
    obtain ⟨iraw', taken', left', hget, heq', hbetween'⟩ := hbetween.get
      (hfits.of_left heq) (heq ▸ hcount) (heq ▸ HashMap.nodup_fst_iter π obj.resources)
      (AList.lookup_empty predicate)
    rw [hget]
    exact ⟨taken', left', heq'.trans heq, hbetween'⟩
  | parseAll fuel _ hfull ih =>
    obtain ⟨taken, left, heq, hbetween⟩ := ih
    obtain ⟨fuel', full', hfull', hend⟩ := hbetween.parseAll_stored hfits heq cbor
    obtain rfl := parseAll_unique hfull hfull'
    exact ⟨_, [], List.append_nil _, hend⟩

/-- **Lazy reading is reading**: on a stored individual whose lengths fit, every sequence of calls
gives what it gives after everything was decoded. -/
theorem readsAsDecoded (hfits : obj.AllFit) (cbor : CborParser) (π : IterOrder String) :
    ReadsAsDecoded cbor π obj := by
  have hcount := hfits.length_iter_lt π
  have hnodup := HashMap.nodup_fst_iter π obj.resources
  obtain ⟨start, hstart, hbetween⟩ := parseRaw_toMsgpack cbor π obj hfits.uri
  -- everything can be decoded from every state between two reads
  obtain ⟨fuel, full, hfull, hend⟩ := hbetween.parseAll_stored hfits (List.nil_append _) cbor
  refine ⟨start, fuel, full, hstart, hfull, fun iraw hreached => ?_⟩
  obtain ⟨taken, left, heq, h⟩ := between_of_reached hfits hbetween hreached
  refine ⟨fun ρ g predicate => ?_, ?_, fun predicate values hlookup => ?_⟩
  · have hnone : (withoutValues obj).resources.lookup predicate = none :=
      AList.lookup_empty predicate
    rw [h.get_fst (hfits.of_left heq) (heq ▸ hcount) (heq ▸ hnodup) hnone,
      hend.get_fst (fun e he => by cases he) (by rwa [List.append_nil])
      (by rwa [List.append_nil]) hnone, heq, List.append_nil]
  · obtain ⟨fuel', full', hfull', hend'⟩ := h.parseAll_stored hfits heq cbor
    exact ⟨fuel', full', hfull', by rw [hend'.obj, hend.obj]⟩
  · have hlookup' := lookup_addEntries_of_some (heq ▸ hnodup) (AList.lookup_empty predicate)
      (by rw [← h.obj]; exact hlookup)
    rw [heq, lookup_full π predicate] at hlookup'
    obtain ⟨rs, hrs, hvalues⟩ := Option.bind_eq_some_iff.mp hlookup'
    split_ifs at hvalues
    rw [hrs, Option.map_some, ← Option.some.inj hvalues, content_storedFrom]

end Calls

theorem allFit_document : (document [255, 0, 216]).AllFit :=
  IndividualObj.allFit_single (by decide) (by decide) (by decide)

/-- A small document is read lazily as it is read after decoding. -/
theorem readsAsDecoded_document :
    ReadsAsDecoded noCbor (.stored String) (document [255, 0, 216]) :=
  readsAsDecoded allFit_document noCbor (.stored String)

/-! ## A document that contains a predicate -/

/-- A predicate that is written in the content of a document. -/
def hiddenEntry : String × List Resource := ("v-s:canRead", [⟨.boolean, .bool true, 0⟩])

theorem entryFits_hiddenEntry : EntryFits hiddenEntry := by
  refine ⟨by decide, by decide, fun r hr => ?_⟩
  rw [hiddenEntry, List.mem_singleton] at hr
  subst hr
  trivial

section Document

variable {content : List UInt8}

theorem iter_document (content : List UInt8) :
    (document content).resources.iter (.stored String) =
      [("v-s:content", [⟨.binary, .binary content, 0⟩])] := rfl

theorem suffix_writePredicate (p : String) (content : List UInt8) :
    content <:+ writePredicate (p, [⟨.binary, .binary content, 0⟩]) := by
  rw [writePredicate, List.flatMap_singleton]
  have hresource : content <:+ writeResource ⟨.binary, .binary content, 0⟩ :=
    ((List.suffix_append _ _).trans (List.suffix_append _ _)).trans (List.suffix_append _ _)
  exact (hresource.trans (List.suffix_append _ _)).trans (List.suffix_append _ _)

theorem run_parseValues_document (hlen : content.length = 4294967296) (rest : List UInt8)
    (obj : IndividualObj) :
    (parseValues "v-s:content").run
        ⟨writeArrayLen 1 ++ (writeResource ⟨.binary, .binary content, 0⟩ ++ rest), obj⟩ =
      .ok () ⟨content ++ rest, obj.push "v-s:content" ⟨.binary, .binary [], 0⟩⟩ := by
  have hzero : asU32 content.length = 0 := by rw [hlen]; rfl
  have hvalue := run_parseValue_binary "v-s:content" content rest obj
  rw [hzero, List.take_zero, List.drop_zero] at hvalue
  have hwritten : writeResource ⟨.binary, .binary content, 0⟩ ++ rest = writeArrayLen 2 ++
      (writeU8 DataType.binary.toU8 ++ (writeStrLen 0 ++ (content ++ rest))) := by
    rw [← hzero]
    simp [writeResource, Resource.getBinary]
  have hcount : Reads readArrayLen (writeArrayLen 1) 1 := reads_arrayLen (by omega)
  rw [parseValues, run_reading_bind hcount, parseValueList, EStateM.run_bind, hwritten, hvalue]
  rfl

theorem parse_document (hlen : content.length = 4294967296) {start : Individual}
    (h : Between (headerOf (document content)) (withoutValues (document content)) []
      ((document content).resources.iter (.stored String)) start)
    (cbor : CborParser) {expect : String} (hne : "v-s:content" ≠ expect) :
    parseToPredicate cbor expect start =
      (true, Individual.setCur ⟨start.obj.push "v-s:content" ⟨.binary, .binary [], 0⟩,
        { start.raw with curPredicates := 0 }⟩ content) := by
  have hzero : start.raw.curPredicates = 0 := Nat.le_zero.mp h.curPredicates
  have hname : Reads readStringFromMsgpack (writeStr "v-s:content") "v-s:content" :=
    reads_writeStr (by decide)
  have hbytes : bytesOfEntries ((document content).resources.iter (.stored String)) =
      writeStr "v-s:content" ++ (writeArrayLen 1 ++
        (writeResource ⟨.binary, .binary content, 0⟩ ++ [])) := by
    rw [iter_document, bytesOfEntries_cons, writePredicate, bytesOfEntries_nil,
      List.append_nil, List.flatMap_singleton, List.append_nil]
    rfl
  rw [h.parse_eq (by simp [iter_document]) cbor, hbytes, hzero]
  have hrounds : asU32 ([] ++ (document content).resources.iter (.stored String)).length - 0 = 1 :=
    rfl
  rw [hrounds, predicateLoop, hname]
  dsimp only
  rw [run_parseValues_document hlen, List.append_nil]
  dsimp only
  rw [if_neg hne, predicateLoop]
  rfl

end Document

section Hidden

variable {zeros : List UInt8} {iraw : Individual}

theorem parse_hidden (htype : iraw.raw.rawType = .msgpack)
    (hdata : writePredicate hiddenEntry ++ 0 :: zeros <:+ iraw.raw.data)
    (hlen : iraw.raw.lenPredicates = 1) (hcur : iraw.raw.curPredicates = 0) (cbor : CborParser)
    (expect : String) :
    parseToPredicate cbor expect (iraw.setCur (writePredicate hiddenEntry ++ 0 :: zeros)) =
      (true, ((iraw.setCur (writePredicate hiddenEntry ++ 0 :: zeros)).advance 0
        [hiddenEntry]).setCur (0 :: zeros)) := by
  have hne : writePredicate hiddenEntry ++ 0 :: zeros ≠ [] := by simp
  have hrounds : (iraw.setCur (writePredicate hiddenEntry ++ 0 :: zeros)).raw.lenPredicates -
      (iraw.setCur (writePredicate hiddenEntry ++ 0 :: zeros)).raw.curPredicates = 0 + 1 := by
    rw [Individual.setCur, hlen, hcur]
  have hindex : (iraw.setCur (writePredicate hiddenEntry ++ 0 :: zeros)).raw.curPredicates = 0 :=
    hcur
  have htype' : (iraw.setCur (writePredicate hiddenEntry ++ 0 :: zeros)).raw.rawType = .msgpack :=
    htype
  rw [parseToPredicate_of_lt cbor expect htype' (setCur_lt hdata hne), drop_setCur hdata, hrounds,
    hindex, predicateLoop_cons entryFits_hiddenEntry]
  split_ifs
  · rfl
  · rfl

theorem parse_zeros (htype : iraw.raw.rawType = .msgpack)
    (hdata : 0 :: zeros <:+ iraw.raw.data)
    (hrounds : iraw.raw.curPredicates < iraw.raw.lenPredicates) (cbor : CborParser)
    (expect : String) :
    parseToPredicate cbor expect (iraw.setCur (0 :: zeros)) =
      (false, (iraw.setCur (0 :: zeros)).setCur zeros) := by
  have hread : readStringFromMsgpack.run (0 :: zeros) = .error (-1) zeros := rfl
  obtain ⟨left, hleft⟩ : ∃ left, (iraw.setCur (0 :: zeros)).raw.lenPredicates -
      (iraw.setCur (0 :: zeros)).raw.curPredicates = left + 1 := by
    refine ⟨iraw.raw.lenPredicates - iraw.raw.curPredicates - 1, ?_⟩
    show iraw.raw.lenPredicates - iraw.raw.curPredicates = _
    omega
  have htype' : (iraw.setCur (0 :: zeros)).raw.rawType = .msgpack := htype
  rw [parseToPredicate_of_lt cbor expect htype' (setCur_lt hdata (List.cons_ne_nil _ _)),
    drop_setCur hdata, hleft, predicateLoop, hread]
  rfl

theorem not_readsAsDecoded_of_hidden
    (hlength : (writePredicate hiddenEntry ++ 0 :: zeros).length = 4294967296) :
    ¬ ReadsAsDecoded noCbor (.stored String)
      (document (writePredicate hiddenEntry ++ 0 :: zeros)) := by
  rintro ⟨start, fuel, full, hstart, hfull, hreached⟩
  obtain ⟨start', hstart', h⟩ := parseRaw_toMsgpack noCbor (.stored String)
    (document (writePredicate hiddenEntry ++ 0 :: zeros)) (by show (utf8 "d:doc").length < _; decide)
  obtain ⟨-, rfl⟩ := Prod.mk.inj (hstart.symm.trans hstart')
  have hlt := h.cur_lt_iff.mpr (by rw [iter_document]; exact List.cons_ne_nil _ _)
  have hdata : writePredicate hiddenEntry ++ 0 :: zeros <:+ start.raw.data := by
    rw [h.data, List.nil_append, iter_document, bytesOfEntries_cons, bytesOfEntries_nil,
      List.append_nil]
    exact (suffix_writePredicate _ _).trans (List.suffix_append _ _)
  have hlookup : start.obj.resources.lookup "v-s:canRead" = none := by
    rw [h.obj]
    exact AList.lookup_empty _
  -- the individuals after the document and after the hidden predicate
  obtain ⟨first, hfirst⟩ : ∃ first, first = Individual.mk
    (start.obj.push "v-s:content" ⟨.binary, .binary [], 0⟩)
    { start.raw with curPredicates := 0 } := ⟨_, rfl⟩
  obtain ⟨second, hsecond⟩ : ∃ second, second =
    (first.setCur (writePredicate hiddenEntry ++ 0 :: zeros)).advance 0 [hiddenEntry] := ⟨_, rfl⟩
  have hfirstRaw : first.raw = { start.raw with curPredicates := 0 } := by rw [hfirst]
  have hsecondRaw : second.raw =
      { (first.setCur (writePredicate hiddenEntry ++ 0 :: zeros)).raw with curPredicates := 0 } := by
    rw [hsecond]
    rfl
  have htype₁ : first.raw.rawType = .msgpack := by rw [hfirstRaw]; exact h.rawType
  have hdata₁ : writePredicate hiddenEntry ++ 0 :: zeros <:+ first.raw.data := by
    rw [hfirstRaw]
    exact hdata
  have hlen₁ : first.raw.lenPredicates = 1 := by rw [hfirstRaw]; exact h.lenPredicates
  have htype₂ : second.raw.rawType = .msgpack := by rw [hsecondRaw]; exact htype₁
  have hdata₂ : 0 :: zeros <:+ second.raw.data := by
    rw [hsecondRaw]
    exact (List.suffix_append _ _).trans hdata₁
  have hlen₂ : second.raw.lenPredicates = 1 := by rw [hsecondRaw]; exact hlen₁
  -- the reads, one after another
  have hparse₁ : ∀ expect, "v-s:content" ≠ expect → parseToPredicate noCbor expect start =
      (true, first.setCur (writePredicate hiddenEntry ++ 0 :: zeros)) := by
    intro expect hne
    rw [hfirst]
    exact parse_document hlength h noCbor hne
  have hparse₂ : ∀ expect, parseToPredicate noCbor expect
      (first.setCur (writePredicate hiddenEntry ++ 0 :: zeros)) =
      (true, second.setCur (0 :: zeros)) := by
    intro expect
    rw [hsecond]
    exact parse_hidden htype₁ hdata₁ hlen₁ (by rw [hfirstRaw]) noCbor expect
  obtain ⟨last, hparse₃, hlast⟩ : ∃ last, parseToPredicate noCbor "?"
      (second.setCur (0 :: zeros)) = (false, last) ∧ last.obj = second.obj :=
    ⟨_, parse_zeros htype₂ hdata₂ (by rw [hlen₂, hsecondRaw]; exact Nat.one_pos) noCbor "?", rfl⟩
  have hlt₁ := setCur_lt hdata₁ (by simp)
  have hlt₂ := setCur_lt hdata₂ (List.cons_ne_nil _ _)
  have hall : start.parseAll noCbor 3 = some last := by
    rw [Individual.parseAll, if_pos hlt, hparse₁ "?" (by decide)]
    dsimp only
    rw [Individual.parseAll, if_pos hlt₁, hparse₂ "?"]
    dsimp only
    rw [Individual.parseAll, if_pos hlt₂, hparse₃]
  obtain rfl := parseAll_unique hfull hall
  have hlookup₁ : first.obj.resources.lookup "v-s:canRead" = none := by
    rw [hfirst, IndividualObj.lookup_push_ne _ _ (by decide), hlookup]
  have hlookup₂ : full.obj.resources.lookup "v-s:canRead" =
      some [⟨.boolean, .bool true, 0⟩] := by
    have hstored := first.obj.lookup_addStored "v-s:canRead" [⟨.boolean, .bool true, 0⟩]
    rw [if_neg (List.cons_ne_nil _ _), IndividualObj.valuesOf, hlookup₁] at hstored
    rw [hlast, hsecond, Individual.advance_obj]
    exact hstored
  have hlazy : (start.get noCbor Getter.getFirstBool "v-s:canRead").1 = .ok none := by
    rw [Individual.get, Individual.getLoop, hlookup]
    dsimp only
    rw [if_pos hlt, hparse₁ "v-s:canRead" (by decide)]
    dsimp only
    rw [Individual.getLoop, show (first.setCur (writePredicate hiddenEntry ++
      0 :: zeros)).obj.resources.lookup "v-s:canRead" = none from hlookup₁]
    dsimp only
    rw [if_pos hlt₁, hparse₂ "v-s:canRead"]
    rfl
  have hdecoded : (full.get noCbor Getter.getFirstBool "v-s:canRead").1 = .ok (some true) := by
    rw [Individual.get, getLoop_some hlookup₂, IndividualObj.read, hlookup₂]
    rfl
  have hsame := (hreached start .start).1 _ Getter.getFirstBool "v-s:canRead"
  rw [hlazy, hdecoded] at hsame
  cases hsame

end Hidden

/-- A document of `2 ^ 32` bytes whose content starts with a predicate. -/
theorem not_readsAsDecoded_document :
    ¬ ReadsAsDecoded noCbor (.stored String)
      (document (writePredicate hiddenEntry ++ 0 :: List.replicate 4294967278 0)) := by
  apply not_readsAsDecoded_of_hidden
  have hlength : (writePredicate hiddenEntry).length = 17 := by decide
  rw [List.length_append, List.length_cons, List.length_replicate, hlength]

end Veda.Onto
