import Veda.Onto.CborEntries
import Veda.Onto.Decoded

set_option autoImplicit false

/-!
# Lazy reading of CBOR records

A search that does not find its predicate decodes everything that is left and leaves the cursor
where it was. The next search decodes the same bytes again, and the values are there twice. So lazy
reading is reading as long as no call decodes in an individual in which something that is left has
been decoded already: after the first search that came to the end of the record, predicates that
have values can be read, but nothing else can be asked for.

## Main definitions

* `Onto.WellFormedRecord` — the record of an individual and its entries.
* `Onto.Call` — the calls of getters and of `parse_all`.
* `Onto.ReachedBy` — the states that calls lead to.
* `Onto.TakesNew` — the call decodes nothing again.
* `Onto.ReadsOnce` — every call gives what it gives after one decoding.

## Main results

* `Onto.CborAt.get_found`, `Onto.CborAt.get_absent`, `Onto.CborAt.parseAll` —
  one call.
* `Onto.readsOnce_iff` — when lazy reading is reading.
* `Onto.addValue_levels` — the recursion on arrays ends.
-/

namespace Veda.Onto

open Veda.Lib

/-! ## Calls -/

/-- A call of a getter or of `parse_all`. -/
inductive Call : Type 1
  | get {ρ : Type} (g : Getter ρ) (predicate : String)
  | parseAll

/-- The states that a call can end in. -/
def Call.Leads (cbor : CborParser) (iraw : Individual) : Call → Individual → Prop
  | .get g predicate, iraw' => (iraw.get cbor g predicate).2 = iraw'
  | .parseAll, iraw' => ∃ fuel, iraw.parseAll cbor fuel = some iraw'

/-- The call gives what it gives on the decoded individual; for `parse_all` this is the
individual. -/
def Call.AnswersAs (cbor : CborParser) (full : IndividualObj) (iraw : Individual) : Call → Prop
  | .get g predicate => (iraw.get cbor g predicate).1 = full.read g predicate
  | .parseAll => ∃ fuel full', iraw.parseAll cbor fuel = some full' ∧ full'.obj = full

/-- The states that calls lead to, when each of them is allowed in the state before it. -/
inductive ReachedBy (cbor : CborParser) (allowed : Individual → Call → Prop)
    (start : Individual) : Individual → Prop
  | start : ReachedBy cbor allowed start start
  | call {iraw iraw' : Individual} (call : Call) :
    ReachedBy cbor allowed start iraw → allowed iraw call → call.Leads cbor iraw iraw' →
    ReachedBy cbor allowed start iraw'

/-- What the individual holds is what the decoded one holds, each value once. -/
def HoldsOnce (full : IndividualObj) (iraw : Individual) : Prop :=
  ∀ predicate values, iraw.obj.resources.lookup predicate = some values →
    full.resources.lookup predicate = some values

/-- The call looks for something that the individual does not hold. -/
def Call.Wants (iraw : Individual) : Call → Prop
  | .get _ predicate => iraw.obj.resources.lookup predicate = none
  | .parseAll => True

/-- If the call decodes, nothing that is left has been decoded already. -/
def TakesNew (crate : CborCrate) (iraw : Individual) (call : Call) : Prop :=
  call.Wants iraw → ∀ left, Holds crate iraw.raw.data (iraw.raw.data.drop iraw.raw.cur) left →
    ∀ e ∈ left, iraw.obj.resources.lookup e.1 = none

/-! ## The record -/

/-- The record of an individual: a map, whose first key is `@` with the uri, and the other keys,
which are distinct, with their values. The entries are those that the decoder comes to: all the
other keys, or those in front of a value that it does not take. -/
structure WellFormedRecord (crate : CborCrate) (data : List UInt8) (uri : String)
    (es : List (String × List Resource)) : Prop where
  map : ∃ first rest, data = first :: rest ∧ first ≠ msgpackMagicHeader
  read : ∃ len cur rest, crate.object.1.run data = .ok len cur ∧
    (readCborUri crate).run cur = .ok uri rest ∧ es.length < len ∧ Holds crate data rest es
  distinct : (es.map Prod.fst).Nodup

/-- The decoded individual. -/
def ofEntries (uri : String) (es : List (String × List Resource)) : IndividualObj :=
  (⟨uri, ∅⟩ : IndividualObj).addEntries es

/-- After the header everything can be decoded, and in every state that calls lead to the individual
holds each value once and every call gives what it gives on the decoded individual. -/
def ReadsOnce (crate : CborCrate) (data : List UInt8) : Prop :=
  ∃ start full, (Individual.newRaw (.new data)).parseRaw crate.parser = (.ok (), start) ∧
    (∃ fuel, start.parseAll crate.parser fuel = some full) ∧
    ∀ iraw, ReachedBy crate.parser (fun _ _ => True) start iraw →
      HoldsOnce full.obj iraw ∧ ∀ call : Call, call.AnswersAs crate.parser full.obj iraw

/-- The individual has a record in which the entries `left` are left. -/
structure CborAt (crate : CborCrate) (data : List UInt8) (left : List (String × List Resource))
    (iraw : Individual) : Prop where
  bytes : iraw.raw.data = data
  rawType : iraw.raw.rawType = .cbor
  holds : Holds crate data (data.drop iraw.raw.cur) left
  rounds : left.length ≤ iraw.raw.lenPredicates - iraw.raw.curPredicates

section Reads

variable (crate : CborCrate)

theorem suffix_of_readCborUri {cur rest : List UInt8} {uri : String}
    (h : (readCborUri crate).run cur = .ok uri rest) : rest <:+ cur := by
  rw [readCborUri, EStateM.run_bind] at h
  have hfirst := crate.typeinfo.2 cur
  cases hti : crate.typeinfo.1.run cur with
  | error e cur₁ => rw [hti] at h; cases h
  | ok ti cur₁ =>
    rw [hti] at h hfirst
    dsimp only at h
    rw [EStateM.run_bind] at h
    have hsecond := (crate.text ti).2 cur₁
    cases hkey : (crate.text ti).1.run cur₁ with
    | error e cur₂ => rw [hkey] at h; cases h
    | ok key cur₂ =>
      rw [hkey] at h hsecond
      dsimp only at h
      split_ifs at h
      · rw [EStateM.run_bind] at h
        have hthird := crate.typeinfo.2 cur₂
        cases hti' : crate.typeinfo.1.run cur₂ with
        | error e cur₃ => rw [hti'] at h; cases h
        | ok ti' cur₃ =>
          rw [hti'] at h hthird
          dsimp only at h
          have hfourth := (crate.text ti').2 cur₃
          rw [h] at hfourth
          exact ((hfourth.trans hthird).trans hsecond).trans hfirst
      · cases h

variable {crate} {data : List UInt8} {uri : String} {es : List (String × List Resource)}

theorem WellFormedRecord.parseRaw (h : WellFormedRecord crate data uri es) :
    ∃ start, (Individual.newRaw (.new data)).parseRaw crate.parser = (.ok (), start) ∧
      CborAt crate data es start ∧ start.obj = ⟨uri, ∅⟩ := by
  obtain ⟨first, tail, hdata, hfirst⟩ := h.map
  obtain ⟨len, cur, rest, hlen, huri, hcount, hholds⟩ := h.read
  have hforward := crate.object.2 data
  rw [hlen] at hforward
  have hsuffix : rest <:+ data := (suffix_of_readCborUri crate huri).trans hforward
  refine ⟨⟨⟨uri, ∅⟩, ⟨data, data.length - rest.length, asU32 len, 0, .cbor⟩⟩, ?_, ?_, rfl⟩
  · have hempty : ¬ (data.isEmpty = true) := by rw [hdata]; simp
    have hparse : crate.parser.parseCbor ⟨data, 0, 0, 0, .cbor⟩ =
        (.ok uri, ⟨data, data.length - rest.length, asU32 len, 0, .cbor⟩) := by
      show parseCbor crate _ = _
      rw [parseCbor, if_neg (by simpa using hempty)]
      dsimp only
      rw [hlen]
      dsimp only
      rw [huri]
    rw [Individual.newRaw, RawObj.new, Individual.parseRaw]
    dsimp only
    rw [hdata]
    dsimp only
    rw [if_neg hfirst, ← hdata]
    rw [hparse]
    rfl
  · refine ⟨rfl, rfl, ?_, ?_⟩
    · obtain ⟨before, hbefore⟩ := hsuffix
      have hdrop : data.drop (data.length - rest.length) = rest := by
        rw [← hbefore, List.length_append, Nat.add_sub_cancel, List.drop_left]
      show Holds crate data (data.drop (data.length - rest.length)) es
      rw [hdrop]
      exact hholds
    · show es.length ≤ asU32 len - 0
      rw [asU32_of_lt (crate.object_lt hlen)]
      omega

end Reads

/-! ## One call -/

theorem ne_of_nodup_split {es left : List (String × List Resource)}
    {e : String × List Resource} (hnodup : ((es ++ e :: left).map Prod.fst).Nodup) :
    ∀ x ∈ left, x.1 ≠ e.1 := by
  intro x hx heq
  rw [List.map_append, List.map_cons] at hnodup
  have htail := (List.nodup_cons.mp (List.Nodup.of_append_right hnodup)).1
  exact htail (List.mem_map.mpr ⟨x, hx, heq⟩)

theorem IndividualObj.lookup_addEntries_none (obj : IndividualObj)
    {es : List (String × List Resource)} {p : String} (hnone : obj.resources.lookup p = none)
    (hp : ∀ x ∈ es, x.1 = p → x.2 = []) :
    (obj.addEntries es).resources.lookup p = none := by
  induction es generalizing obj with
  | nil => exact hnone
  | cons x es ih =>
    apply ih _ _ fun y hy => hp y (List.mem_cons_of_mem _ hy)
    by_cases hx : x.1 = p
    · rw [hp x List.mem_cons_self hx]
      exact hnone
    · rw [IndividualObj.lookup_addStored_ne _ _ (Ne.symm hx), hnone]

namespace CborAt

variable {crate : CborCrate} {data : List UInt8} {es left : List (String × List Resource)}
  {e : String × List Resource} {iraw : Individual} {p : String}

theorem cur_lt (h : CborAt crate data (e :: left) iraw) :
    iraw.raw.cur < iraw.raw.data.length := by
  by_contra hle
  have hdrop := h.holds.ne_nil
  rw [← h.bytes, List.drop_eq_nil_of_le (Nat.le_of_not_lt hle)] at hdrop
  exact hdrop rfl

theorem cur_lt_of_append (h : CborAt crate data (es ++ e :: left) iraw) :
    iraw.raw.cur < iraw.raw.data.length := by
  cases es with
  | nil => exact h.cur_lt
  | cons x es => exact h.cur_lt

theorem left_eq_nil (h : CborAt crate data left iraw)
    (hlt : ¬ iraw.raw.cur < iraw.raw.data.length) : left = [] := by
  cases left with
  | nil => rfl
  | cons e left => exact absurd h.cur_lt hlt

theorem parse_eq (h : CborAt crate data left iraw) (hlt : iraw.raw.cur < iraw.raw.data.length)
    (p : String) :
    parseToPredicate crate.parser p iraw =
      cborLoop crate p (iraw.raw.lenPredicates - iraw.raw.curPredicates)
        (data.drop iraw.raw.cur) iraw := by
  have htype : ¬ iraw.raw.rawType = .msgpack := by rw [h.rawType]; exact RawType.noConfusion
  rw [parseToPredicate, if_neg htype, if_pos h.rawType]
  show parseCborToPredicate crate p iraw = _
  rw [parseCborToPredicate, if_neg (Nat.not_le.mpr hlt), h.bytes]

theorem parse_found (h : CborAt crate data (es ++ e :: left) iraw)
    (hes : ∀ x ∈ es, x.1 ≠ e.1) :
    ∃ iraw', parseToPredicate crate.parser e.1 iraw = (true, iraw') ∧
      CborAt crate data left iraw' ∧ iraw'.obj = iraw.obj.addEntries (es ++ [e]) := by
  have hlt := h.cur_lt_of_append
  have hrounds := h.rounds
  rw [List.length_append, List.length_cons] at hrounds
  have hpos : es.length < iraw.raw.lenPredicates - iraw.raw.curPredicates := by omega
  obtain ⟨rest, hleft, hsuffix, hloop⟩ := h.holds.loop_found hes _ hpos iraw h.bytes
  have hdata : rest <:+ iraw.raw.data := by
    rw [h.bytes]
    exact hsuffix.trans (List.drop_suffix _ _)
  refine ⟨Individual.setCur ⟨iraw.obj.addEntries (es ++ [e]), iraw.raw⟩ rest,
    (h.parse_eq hlt e.1).trans hloop, ⟨h.bytes, h.rawType, ?_, ?_⟩, rfl⟩
  · show Holds crate data (data.drop (iraw.raw.data.length - rest.length)) left
    have hplace : data.drop (iraw.raw.data.length - rest.length) = rest := by
      rw [← h.bytes]
      exact drop_setCur hdata
    rw [hplace]
    exact hleft
  · show left.length ≤ iraw.raw.lenPredicates - iraw.raw.curPredicates
    omega

theorem parse_missed (h : CborAt crate data left iraw)
    (hlt : iraw.raw.cur < iraw.raw.data.length) (hp : ∀ x ∈ left, x.1 ≠ p) :
    parseToPredicate crate.parser p iraw = (false, ⟨iraw.obj.addEntries left, iraw.raw⟩) :=
  (h.parse_eq hlt p).trans (h.holds.loop_missed hp _ h.rounds iraw h.bytes)

theorem withObj (h : CborAt crate data left iraw) (obj : IndividualObj) :
    CborAt crate data left ⟨obj, iraw.raw⟩ := ⟨h.bytes, h.rawType, h.holds, h.rounds⟩

section Get

variable {ρ : Type} {g : Getter ρ}

theorem getLoop_missed (h : CborAt crate data left iraw)
    (hnone : iraw.obj.resources.lookup p = none) (hp : ∀ x ∈ left, x.1 ≠ p) (visits : ℕ) :
    Individual.getLoop crate.parser g p (visits + 1) iraw =
      (.ok g.notFound, ⟨iraw.obj.addEntries left, iraw.raw⟩) := by
  rw [Individual.getLoop, hnone]
  dsimp only
  split_ifs with hlt
  · rw [h.parse_missed hlt hp]
  · rw [h.left_eq_nil hlt]
    rfl

/-- **A getter of a predicate with values that are left** decodes up to it. -/
theorem get_found (h : CborAt crate data (es ++ e :: left) iraw) (hes : ∀ x ∈ es, x.1 ≠ e.1)
    (hvalues : e.2 ≠ []) (hnone : iraw.obj.resources.lookup e.1 = none) :
    ∃ iraw', iraw.get crate.parser g e.1 = (iraw'.obj.read g e.1, iraw') ∧
      CborAt crate data left iraw' ∧ iraw'.obj = iraw.obj.addEntries (es ++ [e]) := by
  have hlt := h.cur_lt_of_append
  obtain ⟨iraw', hparse, hat, hobj⟩ := h.parse_found hes
  refine ⟨iraw', ?_, hat, hobj⟩
  obtain ⟨v, hv⟩ : ∃ v, iraw'.obj.resources.lookup e.1 = some v := by
    rw [hobj, IndividualObj.addEntries_append]
    show ∃ v, ((iraw.obj.addEntries es).addStored e.1 e.2).resources.lookup e.1 = some v
    rw [IndividualObj.lookup_addStored, if_neg hvalues]
    exact ⟨_, rfl⟩
  rw [Individual.get, Individual.getLoop, hnone]
  dsimp only
  rw [if_pos hlt, hparse]
  dsimp only
  rw [getLoop_some hv]

/-- **A getter of a predicate that has no values** decodes everything that is left. -/
theorem get_absent (h : CborAt crate data left iraw) (hnodup : (left.map Prod.fst).Nodup)
    (hnone : iraw.obj.resources.lookup p = none) (hp : ∀ x ∈ left, x.1 = p → x.2 = []) :
    ∃ iraw' left', iraw.get crate.parser g p = (.ok g.notFound, iraw') ∧ left' <:+ left ∧
      CborAt crate data left' iraw' ∧ iraw'.obj = iraw.obj.addEntries left := by
  rcases exists_first_or_forall_ne left p with ⟨es, e, left', rfl, rfl, hes⟩ | hne
  · have hlt : iraw.raw.cur < iraw.raw.data.length := by
      cases es with
      | nil => exact h.cur_lt
      | cons x es => exact h.cur_lt
    obtain ⟨iraw', hparse, hat, hobj⟩ := h.parse_found hes
    have hsplit : es ++ e :: left' = (es ++ [e]) ++ left' := by
      rw [List.append_assoc, List.singleton_append]
    have hnone' : iraw'.obj.resources.lookup e.1 = none := by
      rw [hobj]
      apply IndividualObj.lookup_addEntries_none _ hnone
      intro x hx
      rw [hsplit] at hp
      exact hp x (List.mem_append_left _ hx)
    have hne := ne_of_nodup_split hnodup
    refine ⟨⟨iraw'.obj.addEntries left', iraw'.raw⟩, left', ?_, ?_, hat.withObj _, ?_⟩
    · rw [Individual.get, Individual.getLoop, hnone]
      dsimp only
      rw [if_pos hlt, hparse]
      exact hat.getLoop_missed hnone' hne 0
    · rw [hsplit]
      exact List.suffix_append _ _
    · rw [hsplit, IndividualObj.addEntries_append, ← hobj]
  · exact ⟨_, left, h.getLoop_missed hnone hne 1, List.suffix_rfl, h.withObj _, rfl⟩

end Get

/-- **`parse_all`** decodes everything that is left. -/
theorem parseAll (h : CborAt crate data left iraw) (hnodup : (left.map Prod.fst).Nodup) :
    ∃ fuel full left', iraw.parseAll crate.parser fuel = some full ∧ left' <:+ left ∧
      CborAt crate data left' full ∧ full.obj = iraw.obj.addEntries left := by
  -- the last search, which finds nothing, or no search at all
  have hlast : ∀ {left : List (String × List Resource)} {iraw : Individual},
      CborAt crate data left iraw → (∀ x ∈ left, x.1 ≠ "?") →
      iraw.parseAll crate.parser 1 = some ⟨iraw.obj.addEntries left, iraw.raw⟩ := by
    intro left iraw h hne
    rw [Individual.parseAll]
    split_ifs with hlt
    · rw [h.parse_missed hlt hne]
    · rw [h.left_eq_nil hlt]
      rfl
  rcases exists_first_or_forall_ne left "?" with ⟨es, e, left', rfl, he, hes⟩ | hne
  · have hlt : iraw.raw.cur < iraw.raw.data.length := by
      cases es with
      | nil => exact h.cur_lt
      | cons x es => exact h.cur_lt
    have hsplit : es ++ e :: left' = (es ++ [e]) ++ left' := by
      rw [List.append_assoc, List.singleton_append]
    obtain ⟨iraw', hparse, hat, hobj⟩ := h.parse_found (by rw [he]; exact hes)
    have hne := ne_of_nodup_split hnodup
    rw [he] at hne
    refine ⟨2, ⟨iraw'.obj.addEntries left', iraw'.raw⟩, left', ?_, ?_, hat.withObj _, ?_⟩
    · rw [he] at hparse
      rw [Individual.parseAll, if_pos hlt, hparse]
      exact hlast hat hne
    · rw [hsplit]
      exact List.suffix_append _ _
    · rw [hsplit, IndividualObj.addEntries_append, ← hobj]
  · exact ⟨1, _, left, hlast h hne, List.suffix_rfl, h.withObj _, rfl⟩

end CborAt

/-! ## Runs -/

section Run

variable {crate : CborCrate} {data : List UInt8} {uri : String}
  {es taken left : List (String × List Resource)} {iraw : Individual} {p : String}

theorem ofEntries_append (uri : String) (taken left : List (String × List Resource)) :
    ofEntries uri (taken ++ left) = (ofEntries uri taken).addEntries left :=
  IndividualObj.addEntries_append _ _ _

theorem addEntries_of_empty {obj : IndividualObj} (h : ∀ e ∈ left, e.2 = []) :
    obj.addEntries left = obj := by
  induction left with
  | nil => rfl
  | cons e left ih =>
    rw [IndividualObj.addEntries, h e List.mem_cons_self]
    exact ih fun x hx => h x (List.mem_cons_of_mem _ hx)

theorem holdsOnce_of_taken (hnodup : ((taken ++ left).map Prod.fst).Nodup)
    (hobj : iraw.obj = ofEntries uri taken) : HoldsOnce (ofEntries uri (taken ++ left)) iraw := by
  intro q values hq
  rw [hobj] at hq
  exact lookup_addEntries_of_some hnodup (AList.lookup_empty q) hq

theorem lookup_ofEntries_left (hnodup : ((taken ++ left).map Prod.fst).Nodup)
    {e : String × List Resource} (he : e ∈ left) :
    (ofEntries uri taken).resources.lookup e.1 = none := by
  rw [List.map_append] at hnodup
  have hnew : e.1 ∉ taken.map Prod.fst := fun hmem =>
    List.disjoint_of_nodup_append hnodup hmem (List.mem_map_of_mem he)
  rw [ofEntries, IndividualObj.lookup_addEntries_of_notMem _ hnew]
  exact AList.lookup_empty e.1

theorem values_eq_nil (hnodup : (es.map Prod.fst).Nodup) {e : String × List Resource}
    (he : e ∈ es) (hnone : (ofEntries uri es).resources.lookup e.1 = none) : e.2 = [] := by
  by_contra hne
  rw [ofEntries, IndividualObj.lookup_addEntries _ hnodup (p := e.1) he (AList.lookup_empty e.1),
    if_neg hne] at hnone
  cases hnone

/-- The states of runs in which no call decodes anything again: the individual has the entries that
were taken, or a search has come to the end of the record. -/
structure LazyState (crate : CborCrate) (data : List UInt8) (uri : String)
    (taken left : List (String × List Resource)) (iraw : Individual) : Prop where
  place : CborAt crate data left iraw
  obj : iraw.obj = ofEntries uri taken ∨ iraw.obj = ofEntries uri (taken ++ left)

namespace LazyState

theorem holdsOnce (h : LazyState crate data uri taken left iraw)
    (hnodup : ((taken ++ left).map Prod.fst).Nodup) :
    HoldsOnce (ofEntries uri (taken ++ left)) iraw := by
  rcases h.obj with hobj | hobj
  · exact holdsOnce_of_taken hnodup hobj
  · intro q values hq
    rwa [hobj] at hq

theorem obj_of_new (h : LazyState crate data uri taken left iraw)
    (hnodup : ((taken ++ left).map Prod.fst).Nodup)
    (hnew : ∀ e ∈ left, iraw.obj.resources.lookup e.1 = none) :
    iraw.obj = ofEntries uri taken := by
  rcases h.obj with hobj | hobj
  · exact hobj
  · have hempty : ∀ e ∈ left, e.2 = [] := fun e he =>
      values_eq_nil hnodup (List.mem_append_right _ he) (hobj ▸ hnew e he)
    rw [hobj, ofEntries_append, addEntries_of_empty hempty]

end LazyState

/-- The answers and the states of a call that decodes nothing again. -/
structure StepsTo (crate : CborCrate) (data : List UInt8) (uri : String)
    (es : List (String × List Resource)) (iraw : Individual) (call : Call) : Prop where
  answers : call.AnswersAs crate.parser (ofEntries uri es) iraw
  leads : ∀ iraw', call.Leads crate.parser iraw iraw' →
    ∃ taken left, taken ++ left = es ∧ LazyState crate data uri taken left iraw'

theorem stepsTo_held (h : LazyState crate data uri taken left iraw)
    (hnodup : ((taken ++ left).map Prod.fst).Nodup) {ρ : Type} (g : Getter ρ) {v : List Resource}
    (hv : iraw.obj.resources.lookup p = some v) :
    StepsTo crate data uri (taken ++ left) iraw (.get g p) := by
  have hget : iraw.get crate.parser g p = (iraw.obj.read g p, iraw) := getLoop_some hv 1
  have hfull := h.holdsOnce hnodup p v hv
  refine ⟨?_, ?_⟩
  · show (iraw.get crate.parser g p).1 = _
    rw [hget, IndividualObj.read, IndividualObj.read, hv, hfull]
  · intro iraw' hleads
    obtain rfl : (iraw.get crate.parser g p).2 = iraw' := hleads
    rw [hget]
    exact ⟨taken, left, rfl, h⟩

theorem nodup_left (hnodup : ((taken ++ left).map Prod.fst).Nodup) :
    (left.map Prod.fst).Nodup :=
  (List.map_append ▸ hnodup).of_append_right

/-- A getter of a predicate that is not held, when nothing that is left has been decoded.

**Proof sketch.** When the predicate is left and has values, the search stops behind it and the
getter reads what was decoded. Otherwise everything is decoded, and the predicate is not there. -/
theorem stepsTo_get (h : CborAt crate data left iraw) (hobj : iraw.obj = ofEntries uri taken)
    (hnodup : ((taken ++ left).map Prod.fst).Nodup) {ρ : Type} (g : Getter ρ)
    (hnone : iraw.obj.resources.lookup p = none) :
    StepsTo crate data uri (taken ++ left) iraw (.get g p) := by
  have hnodupLeft := nodup_left hnodup
  by_cases hp : ∀ x ∈ left, x.1 = p → x.2 = []
  · obtain ⟨iraw', left', hget, ⟨before, hbefore⟩, hat, hobj'⟩ :=
      h.get_absent (g := g) hnodupLeft hnone hp
    have hfull : iraw'.obj = ofEntries uri (taken ++ left) := by
      rw [hobj', hobj, ofEntries_append]
    refine ⟨?_, ?_⟩
    · have hlookup : (ofEntries uri (taken ++ left)).resources.lookup p = none := by
        rw [← hfull, hobj']
        exact iraw.obj.lookup_addEntries_none hnone hp
      show (iraw.get crate.parser g p).1 = _
      rw [hget, IndividualObj.read, hlookup]
    · intro iraw'' hleads
      obtain rfl : (iraw.get crate.parser g p).2 = iraw'' := hleads
      rw [hget]
      have hsplit : taken ++ before ++ left' = taken ++ left := by
        rw [List.append_assoc, hbefore]
      exact ⟨taken ++ before, left', hsplit, hat, .inr (hsplit ▸ hfull)⟩
  · rcases exists_first_or_forall_ne left p with ⟨es, e, left', rfl, rfl, hes⟩ | hne
    · have hvalues : e.2 ≠ [] := by
        intro hnil
        refine hp fun x hx hxe => ?_
        rcases List.mem_append.mp hx with hx | hx
        · exact absurd hxe (hes x hx)
        · rcases List.mem_cons.mp hx with rfl | hx
          · exact hnil
          · exact absurd hxe (ne_of_nodup_split hnodupLeft x hx)
      obtain ⟨iraw', hget, hat, hobj'⟩ := h.get_found (g := g) hes hvalues hnone
      have hsplit : taken ++ (es ++ [e]) ++ left' = taken ++ (es ++ e :: left') := by
        rw [List.append_assoc, List.append_assoc, List.singleton_append]
      have htaken : iraw'.obj = ofEntries uri (taken ++ (es ++ [e])) := by
        rw [hobj', hobj, ofEntries_append]
      rw [← hsplit] at hnodup ⊢
      refine ⟨?_, ?_⟩
      · have hstored : iraw'.obj = (iraw.obj.addEntries es).addStored e.1 e.2 := by
          rw [hobj', IndividualObj.addEntries_append]
          rfl
        have hheld := (iraw.obj.addEntries es).lookup_addStored e.1 e.2
        rw [if_neg hvalues, ← hstored] at hheld
        have hfull := holdsOnce_of_taken hnodup htaken _ _ hheld
        show (iraw.get crate.parser g e.1).1 = _
        rw [hget, IndividualObj.read, IndividualObj.read, hheld, hfull]
      · intro iraw'' hleads
        obtain rfl : (iraw.get crate.parser g e.1).2 = iraw'' := hleads
        rw [hget]
        exact ⟨_, left', rfl, hat, .inl htaken⟩
    · exact absurd (fun x hx hxp => absurd hxp (hne x hx)) hp

theorem stepsTo_parseAll (h : CborAt crate data left iraw) (hobj : iraw.obj = ofEntries uri taken)
    (hnodup : ((taken ++ left).map Prod.fst).Nodup) :
    StepsTo crate data uri (taken ++ left) iraw .parseAll := by
  rw [List.map_append] at hnodup
  obtain ⟨fuel, full, left', hfull, ⟨before, hbefore⟩, hat, hobj'⟩ :=
    h.parseAll (List.Nodup.of_append_right hnodup)
  have hall : full.obj = ofEntries uri (taken ++ left) := by
    rw [hobj', hobj, ofEntries_append]
  refine ⟨⟨fuel, full, hfull, hall⟩, ?_⟩
  rintro iraw' ⟨fuel', hleads⟩
  obtain rfl := parseAll_unique hfull hleads
  have hsplit : taken ++ before ++ left' = taken ++ left := by
    rw [List.append_assoc, hbefore]
  exact ⟨taken ++ before, left', hsplit, hat, .inr (hsplit ▸ hall)⟩

/-- **One call that decodes nothing again** gives what it gives on the decoded individual. -/
theorem LazyState.stepsTo (h : LazyState crate data uri taken left iraw)
    (hnodup : ((taken ++ left).map Prod.fst).Nodup) {call : Call}
    (hnew : TakesNew crate iraw call) : StepsTo crate data uri (taken ++ left) iraw call := by
  have hplace : Holds crate iraw.raw.data (iraw.raw.data.drop iraw.raw.cur) left := by
    rw [h.place.bytes]
    exact h.place.holds
  cases call with
  | get g p =>
    cases hlookup : iraw.obj.resources.lookup p with
    | some v => exact stepsTo_held h hnodup g hlookup
    | none =>
      exact stepsTo_get h.place (h.obj_of_new hnodup (hnew hlookup left hplace)) hnodup g hlookup
  | parseAll =>
    exact stepsTo_parseAll h.place (h.obj_of_new hnodup (hnew trivial left hplace)) hnodup

theorem not_holdsOnce_again {iraw' : Individual} (hnodup : ((taken ++ left).map Prod.fst).Nodup)
    {e : String × List Resource} (he : e ∈ left)
    (hheld : (ofEntries uri (taken ++ left)).resources.lookup e.1 ≠ none)
    (hobj : iraw'.obj = (ofEntries uri (taken ++ left)).addEntries left) :
    ¬ HoldsOnce (ofEntries uri (taken ++ left)) iraw' := by
  intro honce
  have hvalues : e.2 ≠ [] := by
    intro hnil
    refine hheld ?_
    rw [ofEntries, IndividualObj.lookup_addEntries _ hnodup (p := e.1)
      (List.mem_append_right _ he) (AList.lookup_empty e.1), if_pos hnil]
  have hnodupLeft := nodup_left hnodup
  have hagain := (ofEntries uri (taken ++ left)).lookup_addEntries_of_mem hnodupLeft (p := e.1) he
  rw [if_neg hvalues, ← hobj] at hagain
  have hsame := honce _ _ hagain
  have hlength := congrArg List.length
    (show IndividualObj.valuesOf _ e.1 = _ by rw [IndividualObj.valuesOf, hsame, Option.getD_some])
  rw [List.length_append, length_storedFrom] at hlength
  have hpos := List.length_pos_iff.mpr hvalues
  omega

theorem LazyState.again (h : LazyState crate data uri taken left iraw)
    (hnodup : ((taken ++ left).map Prod.fst).Nodup) {call : Call}
    (hagain : ¬ TakesNew crate iraw call) :
    ∃ iraw', call.Leads crate.parser iraw iraw' ∧
      ¬ HoldsOnce (ofEntries uri (taken ++ left)) iraw' := by
  unfold TakesNew at hagain
  push Not at hagain
  obtain ⟨hwants, left₂, hholds, e₂, he₂, hheld⟩ := hagain
  rw [h.place.bytes] at hholds
  have hkeys := hholds.keys_eq h.place.holds
  obtain ⟨e, he, heq⟩ : ∃ e ∈ left, e.1 = e₂.1 := by
    have hmem : e₂.1 ∈ left.map Prod.fst := hkeys ▸ List.mem_map_of_mem he₂
    exact List.mem_map.mp hmem
  rw [← heq] at hheld
  have hobj : iraw.obj = ofEntries uri (taken ++ left) := by
    rcases h.obj with hobj | hobj
    · rw [hobj] at hheld
      exact absurd (lookup_ofEntries_left hnodup he) hheld
    · exact hobj
  have hnodupLeft := nodup_left hnodup
  rw [hobj] at hheld
  cases call with
  | get g p =>
    have hnone : iraw.obj.resources.lookup p = none := hwants
    have hp : ∀ x ∈ left, x.1 = p → x.2 = [] := by
      intro x hx hxp
      have hx' : (ofEntries uri (taken ++ left)).resources.lookup x.1 = none := by
        rw [hxp, ← hobj]
        exact hnone
      exact values_eq_nil hnodup (List.mem_append_right taken hx) hx'
    obtain ⟨iraw', left', hget, -, -, hobj'⟩ := h.place.get_absent (g := g) hnodupLeft hnone hp
    refine ⟨iraw', ?_, not_holdsOnce_again hnodup he hheld (by rw [hobj', hobj])⟩
    show (iraw.get crate.parser g p).2 = iraw'
    rw [hget]
  | parseAll =>
    obtain ⟨fuel, full, left', hfull, -, -, hobj'⟩ := h.place.parseAll hnodupLeft
    exact ⟨full, ⟨fuel, hfull⟩, not_holdsOnce_again hnodup he hheld (by rw [hobj', hobj])⟩

theorem lazyState_of_reachedBy {start : Individual} (hnodup : (es.map Prod.fst).Nodup)
    (hstart : LazyState crate data uri [] es start)
    (h : ReachedBy crate.parser (TakesNew crate) start iraw) :
    ∃ taken left, taken ++ left = es ∧ LazyState crate data uri taken left iraw := by
  induction h with
  | start => exact ⟨[], es, rfl, hstart⟩
  | call call _ hnew hleads ih =>
    obtain ⟨taken, left, rfl, hstate⟩ := ih
    exact (hstate.stepsTo hnodup hnew).leads _ hleads

/-- **When lazy reading of a CBOR record is reading**: after the header everything can be decoded,
and this gives the values of the entries. In every state that calls lead to of which none decodes
anything again, the individual holds each value once, and a call gives what it gives on the decoded
individual, and leaves each value once, exactly when it does not decode anything again. -/
theorem readsOnce_iff (h : WellFormedRecord crate data uri es) :
    ∃ start full, (Individual.newRaw (.new data)).parseRaw crate.parser = (.ok (), start) ∧
      (∃ fuel, start.parseAll crate.parser fuel = some full) ∧ full.obj = ofEntries uri es ∧
      ∀ iraw, ReachedBy crate.parser (TakesNew crate) start iraw →
        HoldsOnce full.obj iraw ∧ ∀ call : Call,
          (call.AnswersAs crate.parser full.obj iraw ∧
            ∀ iraw', call.Leads crate.parser iraw iraw' → HoldsOnce full.obj iraw') ↔
          TakesNew crate iraw call := by
  obtain ⟨start, hstart, hplace, hobj⟩ := h.parseRaw
  obtain ⟨fuel, full, left', hfull, -, -, hfullObj⟩ := hplace.parseAll h.distinct
  have hall : full.obj = ofEntries uri es := by rw [hfullObj, hobj, ofEntries]
  refine ⟨start, full, hstart, ⟨fuel, hfull⟩, hall, fun iraw hreached => ?_⟩
  obtain ⟨taken, left, rfl, hstate⟩ :=
    lazyState_of_reachedBy h.distinct ⟨hplace, .inl hobj⟩ hreached
  rw [hall]
  refine ⟨hstate.holdsOnce h.distinct, fun call => ⟨fun hgood => ?_, fun hnew => ?_⟩⟩
  · by_contra hagain
    obtain ⟨iraw', hleads, htwice⟩ := hstate.again h.distinct hagain
    exact htwice (hgood.2 iraw' hleads)
  · have hstep := hstate.stepsTo h.distinct hnew
    refine ⟨hstep.answers, fun iraw' hleads => ?_⟩
    obtain ⟨taken', left'', heq, hstate'⟩ := hstep.leads iraw' hleads
    have honce := hstate'.holdsOnce (heq ▸ h.distinct)
    rwa [heq] at honce

end Run

/-! ## A record that is read twice -/

/-- The type of an item that starts with a byte, without tags and with lengths below 24. -/
def smallTypeInfo (b : UInt8) : TypeInfo where
  type :=
    if b / 32 = 0 then .uint8
    else if b / 32 = 2 then .bytes
    else if b / 32 = 3 then .text
    else if b / 32 = 4 then .array
    else if b = 244 ∨ b = 245 then .bool
    else .other
  info := b % 32

/-- Read a byte and make something of it. -/
def readByte {α : Type} (f : UInt8 → Option α) : CborRead α where
  val := fun cur =>
    match cur with
    | [] => .error () []
    | b :: rest =>
      match f b with
      | some a => .ok a rest
      | none => .error () rest
  property := by
    intro cur
    cases cur with
    | nil => exact List.suffix_rfl
    | cons b rest =>
      show leftOf (match f b with | some a => _ | none => _) <:+ b :: rest
      cases f b with
      | some a => exact List.suffix_cons b rest
      | none => exact List.suffix_cons b rest

theorem eq_cons_of_readByte {α : Type} {f : UInt8 → Option α} {cur rest : List UInt8} {a : α}
    (h : (readByte f).1.run cur = .ok a rest) : ∃ b, cur = b :: rest ∧ f b = some a := by
  cases cur with
  | nil => cases h
  | cons b tail =>
    unfold readByte EStateM.run at h
    dsimp only at h
    cases hf : f b with
    | none => rw [hf] at h; cases h
    | some a' =>
      rw [hf] at h
      cases h
      exact ⟨b, rfl, hf⟩

theorem lt_of_readByte {α : Type} {f : UInt8 → Option α} {cur rest : List UInt8} {a : α}
    (h : (readByte f).1.run cur = .ok a rest) : rest.length < cur.length := by
  obtain ⟨b, rfl, -⟩ := eq_cons_of_readByte h
  exact Nat.lt_succ_self _

/-- Read what the type info says. -/
def readInfo {α : Type} (a : Option α) : CborRead α where
  val := fun cur =>
    match a with
    | some a => .ok a cur
    | none => .error () cur
  property := by
    intro cur
    cases a with
    | some a => exact List.suffix_rfl
    | none => exact List.suffix_rfl

/-- Read a text of a length below 24. -/
def readSmallText (ti : TypeInfo) : CborRead String where
  val := fun cur =>
    match fromUtf8 (cur.take ti.info.toNat) with
    | some s => .ok s (cur.drop ti.info.toNat)
    | none => .error () (cur.drop ti.info.toNat)
  property := by
    intro cur
    show leftOf (match fromUtf8 (cur.take ti.info.toNat) with | some s => _ | none => _) <:+ cur
    cases fromUtf8 (cur.take ti.info.toNat) with
    | some s => exact List.drop_suffix _ _
    | none => exact List.drop_suffix _ _

/-- The reads of small items. -/
def smallCrate : CborCrate where
  object := readByte fun b => if b / 32 = 5 then some (b % 32).toNat else none
  typeinfo := readByte fun b => some (smallTypeInfo b)
  typeinfoAndTag := readByte fun b => some (smallTypeInfo b, 255)
  text := readSmallText
  bool := fun ti => readInfo (some (ti.info = 21))
  i64 := fun ti => readInfo (some (Int64.ofInt ti.info.toNat))
  array := fun _ ti => readInfo (some ti.info.toNat)
  object_lt := by
    intro cur len rest h
    obtain ⟨b, -, hlen⟩ := eq_cons_of_readByte h
    split_ifs at hlen
    have hlt := (b % 32).toNat_lt
    have heq := Option.some.inj hlen
    omega
  typeinfo_lt := lt_of_readByte
  typeinfoAndTag_lt := lt_of_readByte

/-- **The recursion ends**: values are decoded in at most as many levels as there are bytes. -/
theorem addValue_levels {crate : CborCrate} {maxLenArray : Option ℕ} {predicate : String}
    {cur : List UInt8} {obj : IndividualObj} {levels : ℕ} (hlevels : cur.length ≤ levels) :
    addValue crate maxLenArray predicate levels ⟨cur, obj⟩ =
      addValue crate maxLenArray predicate cur.length ⟨cur, obj⟩ := by
  induction levels, hlevels using Nat.le_induction with
  | base => rfl
  | succ levels hlevels ih =>
    rw [addValue_succ crate maxLenArray predicate levels cur hlevels obj, ih]

/-- An array in an array has two levels. -/
theorem addValue_levels_nested : addValue smallCrate none "p" 9 ⟨[129, 129, 245], .empty⟩ =
    addValue smallCrate none "p" 3 ⟨[129, 129, 245], .empty⟩ :=
  addValue_levels (show [129, 129, 245].length ≤ 9 by decide)

/-- The record of `d:a` with a truth value. -/
def flagRecord : List UInt8 := [162, 97, 64, 99, 100, 58, 97, 97, 112, 245]

/-- Its entries. -/
def flagEntries : List (String × List Resource) := [("p", [⟨.boolean, .bool true, 0⟩])]

theorem wellFormed_flagRecord : WellFormedRecord smallCrate flagRecord "d:a" flagEntries where
  map := ⟨162, _, rfl, by decide⟩
  read := by
    refine ⟨2, _, _, rfl, rfl, by decide, ?_⟩
    exact .entry rfl rfl (fun _ => rfl) .done
  distinct := by decide

/-- The record holds its truth value once after the header. -/
theorem readsOnce_flagRecord :
    ∃ start full : Individual,
      (Individual.newRaw (.new flagRecord)).parseRaw smallCrate.parser = (.ok (), start) ∧
      full.obj = ofEntries "d:a" flagEntries ∧ HoldsOnce full.obj start := by
  obtain ⟨start, full, hstart, -, hobj, hall⟩ := readsOnce_iff wellFormed_flagRecord
  exact ⟨start, full, hstart, hobj, (hall start .start).1⟩

/-- After two searches for a predicate that is not there the record holds its truth value twice. -/
theorem not_readsOnce_flagRecord :
    WellFormedRecord smallCrate flagRecord "d:a" flagEntries ∧
      ¬ ReadsOnce smallCrate flagRecord := by
  refine ⟨wellFormed_flagRecord, ?_⟩
  rintro ⟨start, full, hstart, ⟨fuel, hfull⟩, hall⟩
  have hparse : (Individual.newRaw (.new flagRecord)).parseRaw smallCrate.parser =
      (.ok (), ⟨⟨"d:a", ∅⟩, ⟨flagRecord, 7, 2, 0, .cbor⟩⟩) := rfl
  obtain ⟨-, rfl⟩ := Prod.mk.inj (hstart.symm.trans hparse)
  have honce : Individual.parseAll smallCrate.parser 1
      ⟨⟨"d:a", ∅⟩, ⟨flagRecord, 7, 2, 0, .cbor⟩⟩ =
      some ⟨ofEntries "d:a" flagEntries, ⟨flagRecord, 7, 2, 0, .cbor⟩⟩ := rfl
  obtain rfl := parseAll_unique hfull honce
  -- the two searches
  have hsecond := hall _
    (.call (.get Getter.isExists "q") (.call (.get Getter.isExists "q") .start trivial rfl)
      trivial rfl)
  have htwice := hsecond.1 "p" [⟨.boolean, .bool true, 0⟩, ⟨.boolean, .bool true, 1⟩] rfl
  have hfullOnce : (ofEntries "d:a" flagEntries).resources.lookup "p" =
      some [⟨.boolean, .bool true, 0⟩] := rfl
  rw [hfullOnce] at htwice
  cases htwice

end Veda.Onto
