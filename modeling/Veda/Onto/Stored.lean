import Veda.Onto.Reading

set_option autoImplicit false

/-!
# A stored individual between two reads

The decoder goes through the predicates of a stored individual in the order in which they were
written. Between two reads it has taken some predicates and the others are left. `Between` is the
invariant: the individual holds the values of the predicates that were taken, each once, and the
cursor stands in front of the first one that is left. The index that the decoder saves stays
behind the number of the predicates taken, because it is the index of the last predicate and not
of the next one; so the loop of the next read has rounds to spare, and it ends with an error at
the end of the record.

## Main definitions

* `Onto.EntryFits` — the lengths of a predicate and its values fit into 32 bits.
* `Onto.ReadsEntry` — bytes that are taken as a predicate with its values.
* `Onto.IndividualObj.addEntries` — the individual with the stored values of predicates.
* `Onto.Between` — the invariant.

## Main results

* `Onto.predicateLoop_cons`, `Onto.predicateLoop_append` — rounds of the loop.
* `Onto.Between.parse_found`, `Onto.Between.parse_rounds`,
  `Onto.Between.parse_end` — the ways in which a read can end.
* `Onto.Between.parseAll_some` — everything that is left is decoded.
* `Onto.parseRaw_toMsgpack` — the header of a stored individual.
* `Onto.lookup_addEntries` — what is found under a predicate.
-/

namespace Veda.Onto

open Veda.Lib Veda.Lib.Msgpack

/-- The lengths of a predicate, of its values and of their number fit into 32 bits. -/
structure EntryFits (entry : String × List Resource) : Prop where
  name : (utf8 entry.1).length < 4294967296
  count : entry.2.length < 4294967296
  values : ∀ r ∈ entry.2, r.Fits

/-- The bytes of some predicates. -/
def bytesOfEntries (entries : List (String × List Resource)) : List UInt8 :=
  entries.flatMap writePredicate

@[simp] theorem bytesOfEntries_nil : bytesOfEntries [] = [] := rfl

@[simp] theorem bytesOfEntries_cons (e : String × List Resource)
    (es : List (String × List Resource)) :
    bytesOfEntries (e :: es) = writePredicate e ++ bytesOfEntries es := rfl

@[simp] theorem bytesOfEntries_append (es es' : List (String × List Resource)) :
    bytesOfEntries (es ++ es') = bytesOfEntries es ++ bytesOfEntries es' :=
  List.flatMap_append

namespace IndividualObj

/-- Append the stored values of some predicates. -/
def addEntries (obj : IndividualObj) : List (String × List Resource) → IndividualObj
  | [] => obj
  | e :: es => (obj.addStored e.1 e.2).addEntries es

theorem addEntries_append (obj : IndividualObj) (es es' : List (String × List Resource)) :
    obj.addEntries (es ++ es') = (obj.addEntries es).addEntries es' := by
  induction es generalizing obj with
  | nil => rfl
  | cons e es ih => exact ih _

end IndividualObj

/-! ## Rounds of the loop -/

/-- The individual after the predicates `es`, the first of them with the index `i`. -/
def Individual.advance : ℕ → List (String × List Resource) → Individual → Individual
  | _, [], iraw => iraw
  | i, e :: es, iraw =>
    Individual.advance (i + 1) es
      ⟨iraw.obj.addStored e.1 e.2, { iraw.raw with curPredicates := i }⟩

theorem Individual.advance_obj (i : ℕ) (es : List (String × List Resource)) (iraw : Individual) :
    (iraw.advance i es).obj = iraw.obj.addEntries es := by
  induction es generalizing i iraw with
  | nil => rfl
  | cons e es ih => exact ih _ _

theorem Individual.advance_raw (i : ℕ) (es : List (String × List Resource)) (iraw : Individual) :
    (iraw.advance i es).raw =
      { iraw.raw with
        curPredicates := if es = [] then iraw.raw.curPredicates else i + es.length - 1 } := by
  induction es generalizing i iraw with
  | nil => rfl
  | cons e es ih =>
    rw [Individual.advance, ih, if_neg (List.cons_ne_nil e es), List.length_cons]
    cases es with
    | nil => simp
    | cons e' es =>
      rw [if_neg (List.cons_ne_nil e' es)]
      simp only [RawObj.mk.injEq, true_and, and_true]
      omega

theorem Individual.advance_append (i : ℕ) (es es' : List (String × List Resource))
    (iraw : Individual) :
    iraw.advance i (es ++ es') = (iraw.advance i es).advance (i + es.length) es' := by
  induction es generalizing i iraw with
  | nil => rfl
  | cons e es ih =>
    rw [List.cons_append, Individual.advance, ih, List.length_cons,
      show i + 1 + es.length = i + (es.length + 1) by omega]
    rfl

/-- The decoder takes the bytes `w` as the predicate `entry` with its values, whatever follows. -/
def ReadsEntry (w : List UInt8) (entry : String × List Resource) : Prop :=
  ∃ name values, w = name ++ values ∧ Reads readStringFromMsgpack name entry.1 ∧
    Decodes (parseValues entry.1) values fun obj => obj.addStored entry.1 entry.2

theorem readsEntry_writePredicate {e : String × List Resource} (h : EntryFits e) :
    ReadsEntry (writePredicate e) e :=
  ⟨_, _, rfl, reads_writeStr h.name, decodes_values h.values h.count⟩

theorem ReadsEntry.predicateLoop {w : List UInt8} {e : String × List Resource}
    (h : ReadsEntry w e) (expect : String) (left i : ℕ) (rest : List UInt8) (iraw : Individual) :
    predicateLoop expect (left + 1) i (w ++ rest) iraw =
      if e.1 = expect then (.ok (), (iraw.advance i [e]).setCur rest)
      else Veda.Onto.predicateLoop expect left (i + 1) rest (iraw.advance i [e]) := by
  obtain ⟨name, values, rfl, hname, hvalues⟩ := h
  rw [Veda.Onto.predicateLoop, List.append_assoc, hname]
  dsimp only
  rw [hvalues]
  rfl

theorem predicateLoop_cons {e : String × List Resource} (h : EntryFits e) (expect : String)
    (left i : ℕ) (rest : List UInt8) (iraw : Individual) :
    predicateLoop expect (left + 1) i (writePredicate e ++ rest) iraw =
      if e.1 = expect then (.ok (), (iraw.advance i [e]).setCur rest)
      else predicateLoop expect left (i + 1) rest (iraw.advance i [e]) :=
  (readsEntry_writePredicate h).predicateLoop expect left i rest iraw

theorem predicateLoop_append {es : List (String × List Resource)} (h : ∀ e ∈ es, EntryFits e)
    {expect : String} (hne : ∀ e ∈ es, e.1 ≠ expect) (left i : ℕ) (rest : List UInt8)
    (iraw : Individual) :
    predicateLoop expect (es.length + left) i (bytesOfEntries es ++ rest) iraw =
      predicateLoop expect left (i + es.length) rest (iraw.advance i es) := by
  induction es generalizing i iraw with
  | nil => simp [Individual.advance]
  | cons e es ih =>
    have hround := predicateLoop_cons (h e List.mem_cons_self) expect (es.length + left) i
      (bytesOfEntries es ++ rest) iraw
    rw [if_neg (hne e List.mem_cons_self)] at hround
    rw [List.length_cons, show es.length + 1 + left = es.length + left + 1 by omega,
      bytesOfEntries_cons, List.append_assoc, hround,
      ih (fun e' he' => h e' (List.mem_cons_of_mem _ he'))
        (fun e' he' => hne e' (List.mem_cons_of_mem _ he')),
      show i + 1 + es.length = i + (es.length + 1) by omega]
    rfl

theorem predicateLoop_nil (expect : String) (left i : ℕ) (iraw : Individual) :
    predicateLoop expect (left + 1) i [] iraw = (.error .endOfData, iraw.setCur []) := rfl

theorem parseToPredicate_of_lt (cbor : CborParser) (expect : String) {iraw : Individual}
    (htype : iraw.raw.rawType = .msgpack) (hlt : iraw.raw.cur < iraw.raw.data.length) :
    parseToPredicate cbor expect iraw =
      ((predicateLoop expect (iraw.raw.lenPredicates - iraw.raw.curPredicates)
          iraw.raw.curPredicates (iraw.raw.data.drop iraw.raw.cur) iraw).1.isOk,
        (predicateLoop expect (iraw.raw.lenPredicates - iraw.raw.curPredicates)
          iraw.raw.curPredicates (iraw.raw.data.drop iraw.raw.cur) iraw).2) := by
  rw [parseToPredicate, if_pos htype, parseMsgpackToPredicate, if_neg (by omega)]
  generalize predicateLoop expect (iraw.raw.lenPredicates - iraw.raw.curPredicates)
    iraw.raw.curPredicates (iraw.raw.data.drop iraw.raw.cur) iraw = result
  obtain ⟨answer, iraw'⟩ := result
  cases answer with
  | ok u => rfl
  | error e => rfl

theorem drop_setCur {iraw : Individual} {cur : List UInt8} (h : cur <:+ iraw.raw.data) :
    (iraw.setCur cur).raw.data.drop (iraw.setCur cur).raw.cur = cur := by
  obtain ⟨before, hdata⟩ := h
  show iraw.raw.data.drop (iraw.raw.data.length - cur.length) = cur
  rw [← hdata, List.length_append, Nat.add_sub_cancel, List.drop_left]

theorem setCur_lt {iraw : Individual} {cur : List UInt8} (h : cur <:+ iraw.raw.data)
    (hne : cur ≠ []) : (iraw.setCur cur).raw.cur < (iraw.setCur cur).raw.data.length := by
  have hle := h.length_le
  have hpos : 0 < cur.length := List.length_pos_iff.mpr hne
  show iraw.raw.data.length - cur.length < iraw.raw.data.length
  omega

/-! ## The invariant -/

/-- The record consists of the bytes `header` and the predicates `taken` and `left`; the individual
`base` with the values of `taken` is what has been decoded. -/
structure Between (header : List UInt8) (base : IndividualObj)
    (taken left : List (String × List Resource)) (iraw : Individual) : Prop where
  data : iraw.raw.data = header ++ bytesOfEntries (taken ++ left)
  cur : iraw.raw.cur = (header ++ bytesOfEntries taken).length
  obj : iraw.obj = base.addEntries taken
  rawType : iraw.raw.rawType = .msgpack
  lenPredicates : iraw.raw.lenPredicates = asU32 (taken ++ left).length
  curPredicates : iraw.raw.curPredicates ≤ taken.length - 1
  rounds : asU32 (taken ++ left).length ≠ 0 →
    iraw.raw.curPredicates < asU32 (taken ++ left).length

namespace Between

variable {header : List UInt8} {base : IndividualObj}
  {taken left : List (String × List Resource)} {iraw : Individual}

theorem drop_cur (h : Between header base taken left iraw) :
    iraw.raw.data.drop iraw.raw.cur = bytesOfEntries left := by
  rw [h.data, h.cur, bytesOfEntries_append, ← List.append_assoc, List.drop_left]

theorem length_data (h : Between header base taken left iraw) :
    iraw.raw.data.length = iraw.raw.cur + (bytesOfEntries left).length := by
  rw [h.data, h.cur, bytesOfEntries_append, ← List.append_assoc, List.length_append]

theorem cur_lt_iff (h : Between header base taken left iraw) :
    iraw.raw.cur < iraw.raw.data.length ↔ left ≠ [] := by
  rw [h.length_data]
  constructor
  · rintro hlt rfl
    simp at hlt
  · intro hne
    obtain ⟨e, es, rfl⟩ := List.exists_cons_of_ne_nil hne
    obtain ⟨m, tail, hw, -⟩ := writeStrLen_eq_cons (asU32 (utf8 e.1).length)
    rw [bytesOfEntries_cons, writePredicate, writeStr, hw]
    simp only [List.length_append, List.length_cons]
    omega

theorem advance {es : List (String × List Resource)} (hes : es ≠ [])
    (h : Between header base taken (es ++ left) iraw)
    (hrounds : iraw.raw.curPredicates + es.length ≤ asU32 (taken ++ (es ++ left)).length) :
    Between header base (taken ++ es) left
      ((iraw.advance iraw.raw.curPredicates es).setCur (bytesOfEntries left)) := by
  have hpos : 0 < es.length := List.length_pos_iff.mpr hes
  have hcur := h.curPredicates
  have hraw := Individual.advance_raw iraw.raw.curPredicates es iraw
  have hdata := h.data
  have hlen := h.length_data
  rw [if_neg hes] at hraw
  refine ⟨?_, ?_, ?_, ?_, ?_, ?_, ?_⟩
  · rw [Individual.setCur, hraw, List.append_assoc]
    exact hdata
  · rw [Individual.setCur, hraw]
    dsimp only
    rw [hdata, ← List.append_assoc taken, bytesOfEntries_append, ← List.append_assoc,
      List.length_append, Nat.add_sub_cancel]
  · rw [Individual.setCur, Individual.advance_obj, h.obj, IndividualObj.addEntries_append]
  · rw [Individual.setCur, hraw]
    exact h.rawType
  · rw [Individual.setCur, hraw, List.append_assoc]
    exact h.lenPredicates
  · rw [Individual.setCur, hraw, List.length_append]
    dsimp only
    omega
  · intro _
    rw [Individual.setCur, hraw, List.append_assoc]
    dsimp only
    omega

theorem parse_eq (h : Between header base taken left iraw) (hne : left ≠ []) (cbor : CborParser)
    (expect : String) :
    parseToPredicate cbor expect iraw =
      ((predicateLoop expect (asU32 (taken ++ left).length - iraw.raw.curPredicates)
          iraw.raw.curPredicates (bytesOfEntries left) iraw).1.isOk,
        (predicateLoop expect (asU32 (taken ++ left).length - iraw.raw.curPredicates)
          iraw.raw.curPredicates (bytesOfEntries left) iraw).2) := by
  rw [parseToPredicate_of_lt cbor expect h.rawType (h.cur_lt_iff.mpr hne), h.drop_cur,
    h.lenPredicates]

theorem parse_found {es : List (String × List Resource)} {e : String × List Resource}
    (h : Between header base taken (es ++ e :: left) iraw)
    (hfits : ∀ x ∈ es ++ [e], EntryFits x) (hes : ∀ x ∈ es, x.1 ≠ e.1)
    (hrounds : iraw.raw.curPredicates + es.length < asU32 (taken ++ (es ++ e :: left)).length)
    (cbor : CborParser) :
    ∃ iraw', parseToPredicate cbor e.1 iraw = (true, iraw') ∧
      Between header base (taken ++ (es ++ [e])) left iraw' := by
  have hloop : predicateLoop e.1
      (asU32 (taken ++ (es ++ e :: left)).length - iraw.raw.curPredicates)
      iraw.raw.curPredicates (bytesOfEntries (es ++ e :: left)) iraw =
      (.ok (), (iraw.advance iraw.raw.curPredicates (es ++ [e])).setCur (bytesOfEntries left)) := by
    obtain ⟨k, hk⟩ : ∃ k, asU32 (taken ++ (es ++ e :: left)).length - iraw.raw.curPredicates =
        es.length + (k + 1) :=
      ⟨asU32 (taken ++ (es ++ e :: left)).length - iraw.raw.curPredicates - es.length - 1,
        by omega⟩
    rw [hk, bytesOfEntries_append,
      predicateLoop_append (fun x hx => hfits x (List.mem_append_left _ hx)) hes,
      bytesOfEntries_cons, predicateLoop_cons (hfits e (by simp)), if_pos rfl,
      Individual.advance_append]
  rw [h.parse_eq (by simp) cbor, hloop]
  refine ⟨_, rfl, Between.advance (by simp) ?_ ?_⟩
  · rwa [List.append_assoc, List.singleton_append]
  · rw [List.append_assoc, List.singleton_append, List.length_append, List.length_singleton]
    omega

theorem parse_rounds {es : List (String × List Resource)}
    (h : Between header base taken (es ++ left) iraw) (hne : es ≠ [])
    (hfits : ∀ x ∈ es, EntryFits x) {expect : String} (hes : ∀ x ∈ es, x.1 ≠ expect)
    (hrounds : iraw.raw.curPredicates + es.length = asU32 (taken ++ (es ++ left)).length)
    (cbor : CborParser) :
    ∃ iraw', parseToPredicate cbor expect iraw = (true, iraw') ∧
      Between header base (taken ++ es) left iraw' := by
  have hloop : predicateLoop expect
      (asU32 (taken ++ (es ++ left)).length - iraw.raw.curPredicates)
      iraw.raw.curPredicates (bytesOfEntries (es ++ left)) iraw =
      (.ok (), (iraw.advance iraw.raw.curPredicates es).setCur (bytesOfEntries left)) := by
    rw [show asU32 (taken ++ (es ++ left)).length - iraw.raw.curPredicates = es.length + 0 by omega,
      bytesOfEntries_append, predicateLoop_append hfits hes]
    rfl
  rw [h.parse_eq (by simp [hne]) cbor, hloop]
  exact ⟨_, rfl, h.advance hne (by omega)⟩

theorem parse_end (h : Between header base taken left iraw) (hne : left ≠ [])
    (hfits : ∀ x ∈ left, EntryFits x) {expect : String} (hes : ∀ x ∈ left, x.1 ≠ expect)
    (hrounds : iraw.raw.curPredicates + left.length < asU32 (taken ++ left).length)
    (cbor : CborParser) :
    ∃ iraw', parseToPredicate cbor expect iraw = (false, iraw') ∧
      Between header base (taken ++ left) [] iraw' := by
  have hloop : predicateLoop expect (asU32 (taken ++ left).length - iraw.raw.curPredicates)
      iraw.raw.curPredicates (bytesOfEntries left) iraw =
      (.error .endOfData, (iraw.advance iraw.raw.curPredicates left).setCur []) := by
    obtain ⟨k, hk⟩ : ∃ k, asU32 (taken ++ left).length - iraw.raw.curPredicates =
        left.length + (k + 1) :=
      ⟨asU32 (taken ++ left).length - iraw.raw.curPredicates - left.length - 1, by omega⟩
    have happend := predicateLoop_append hfits hes (k + 1) iraw.raw.curPredicates [] iraw
    rw [List.append_nil, predicateLoop_nil] at happend
    rw [hk, happend]
  rw [h.parse_eq hne cbor, hloop]
  refine ⟨_, rfl, Between.advance hne ?_ ?_⟩
  · rwa [List.append_nil]
  · rw [List.append_nil]
    omega

end Between

theorem exists_first_or_forall_ne (es : List (String × List Resource)) (p : String) :
    (∃ es₁ e es₂, es = es₁ ++ e :: es₂ ∧ e.1 = p ∧ ∀ x ∈ es₁, x.1 ≠ p) ∨
      ∀ x ∈ es, x.1 ≠ p := by
  induction es with
  | nil => exact .inr fun x hx => by cases hx
  | cons e es ih =>
    by_cases he : e.1 = p
    · exact .inl ⟨[], e, es, rfl, he, fun x hx => by cases hx⟩
    · rcases ih with ⟨es₁, e', es₂, rfl, he', h⟩ | h
      · refine .inl ⟨e :: es₁, e', es₂, rfl, he', fun x hx => ?_⟩
        rcases List.mem_cons.mp hx with rfl | hx
        · exact he
        · exact h x hx
      · refine .inr fun x hx => ?_
        rcases List.mem_cons.mp hx with rfl | hx
        · exact he
        · exact h x hx

namespace Between

variable {header : List UInt8} {base : IndividualObj}
  {taken left : List (String × List Resource)} {iraw : Individual}

theorem parse_cases {block : List (String × List Resource)}
    (h : Between header base taken (block ++ left) iraw) (hfits : ∀ x ∈ block, EntryFits x)
    (hcount : asU32 (taken ++ (block ++ left)).length ≠ 0) (cbor : CborParser)
    (expect : String) :
    (∃ es block' iraw', block = es ++ block' ∧ es ≠ [] ∧
      parseToPredicate cbor expect iraw = (true, iraw') ∧
      Between header base (taken ++ es) (block' ++ left) iraw') ∨
    ((∀ x ∈ block, x.1 ≠ expect) ∧
      iraw.raw.curPredicates + block.length < asU32 (taken ++ (block ++ left)).length) := by
  have hrounds := h.rounds hcount
  -- the rounds are used up by predicates that are not asked for
  have hblock : ∀ es block', block = es ++ block' → (∀ x ∈ es, x.1 ≠ expect) →
      asU32 (taken ++ (block ++ left)).length - iraw.raw.curPredicates ≤ es.length →
      ∃ es block' iraw', block = es ++ block' ∧ es ≠ [] ∧
        parseToPredicate cbor expect iraw = (true, iraw') ∧
        Between header base (taken ++ es) (block' ++ left) iraw' := by
    rintro es block' rfl hes hlong
    obtain ⟨k, hk⟩ : ∃ k, k = asU32 (taken ++ (es ++ block' ++ left)).length -
      iraw.raw.curPredicates := ⟨_, rfl⟩
    have hlen : (es.take k).length = k := by rw [List.length_take]; omega
    have hsplit : es ++ block' = es.take k ++ (es.drop k ++ block') := by
      rw [← List.append_assoc, List.take_append_drop]
    have hnonempty : es.take k ≠ [] := by
      intro hnil
      rw [hnil, List.length_nil] at hlen
      omega
    rw [hsplit, List.append_assoc] at h hk hrounds
    obtain ⟨iraw', hparse, hbetween⟩ := h.parse_rounds hnonempty
      (fun x hx => hfits x (List.mem_append_left _ (List.mem_of_mem_take hx)))
      (fun x hx => hes x (List.mem_of_mem_take hx)) (by omega) cbor
    exact ⟨_, _, iraw', hsplit, hnonempty, hparse, hbetween⟩
  rcases exists_first_or_forall_ne block expect with ⟨es, e, block', rfl, rfl, hes⟩ | hes
  · left
    by_cases hshort : es.length <
        asU32 (taken ++ (es ++ e :: block' ++ left)).length - iraw.raw.curPredicates
    · rw [List.append_assoc, List.cons_append] at h hshort
      obtain ⟨iraw', hparse, hbetween⟩ := h.parse_found
        (fun x hx => hfits x (by
          rw [List.mem_append, List.mem_singleton] at hx
          rw [List.mem_append, List.mem_cons]
          exact hx.imp_right .inl)) hes (by omega) cbor
      refine ⟨es ++ [e], block', iraw', ?_, by simp, hparse, hbetween⟩
      rw [List.append_assoc, List.singleton_append]
    · exact hblock es _ rfl hes (by omega)
  · by_cases hshort : block.length <
        asU32 (taken ++ (block ++ left)).length - iraw.raw.curPredicates
    · exact .inr ⟨hes, by omega⟩
    · exact .inl (hblock block [] (by rw [List.append_nil]) hes (by omega))

theorem parse_some (h : Between header base taken left iraw) (hne : left ≠ [])
    (hfits : ∀ x ∈ left, EntryFits x) (hcount : asU32 (taken ++ left).length ≠ 0)
    (cbor : CborParser) (expect : String) :
    ∃ es left' answer iraw', left = es ++ left' ∧ es ≠ [] ∧
      parseToPredicate cbor expect iraw = (answer, iraw') ∧
      Between header base (taken ++ es) left' iraw' ∧ (answer = false → left' = []) := by
  have hcases : (∃ es left' iraw', left = es ++ left' ∧ es ≠ [] ∧
      parseToPredicate cbor expect iraw = (true, iraw') ∧
      Between header base (taken ++ es) (left' ++ []) iraw') ∨
      ((∀ x ∈ left, x.1 ≠ expect) ∧
        iraw.raw.curPredicates + left.length < asU32 (taken ++ (left ++ [])).length) :=
    parse_cases (by rwa [List.append_nil]) hfits (by rwa [List.append_nil]) cbor expect
  simp only [List.append_nil] at hcases
  rcases hcases with ⟨es, left', iraw', hleft, hes, hparse, hbetween⟩ | ⟨hes, hlong⟩
  · exact ⟨es, left', true, iraw', hleft, hes, hparse, hbetween, fun hf => by cases hf⟩
  · obtain ⟨iraw', hparse, hbetween⟩ := h.parse_end hne hfits hes hlong cbor
    exact ⟨left, [], false, iraw', by rw [List.append_nil], hne, hparse, hbetween, fun _ => rfl⟩

theorem parseAll_nil (h : Between header base taken [] iraw) (cbor : CborParser) (fuel : ℕ) :
    iraw.parseAll cbor (fuel + 1) = some iraw := by
  have hend : ¬ iraw.raw.cur < iraw.raw.data.length := by
    rw [h.cur_lt_iff]
    exact fun hne => hne rfl
  rw [Individual.parseAll, if_neg hend]

/-- **Everything is decoded**: reading on takes all predicates that are left. -/
theorem parseAll_some (h : Between header base taken left iraw) (hfits : ∀ x ∈ left, EntryFits x)
    (hcount : left ≠ [] → asU32 (taken ++ left).length ≠ 0) (cbor : CborParser) :
    ∃ fuel full, iraw.parseAll cbor fuel = some full ∧
      Between header base (taken ++ left) [] full := by
  generalize hn : left.length = n
  induction n using Nat.strongRecOn generalizing taken left iraw with
  | ind n ih =>
    by_cases hne : left = []
    · subst hne
      refine ⟨1, iraw, h.parseAll_nil cbor 0, ?_⟩
      rwa [List.append_nil]
    · obtain ⟨es, left', answer, iraw', rfl, hes, hparse, hbetween, hanswer⟩ :=
        h.parse_some hne hfits (hcount hne) cbor "?"
      have hlt := h.cur_lt_iff.mpr hne
      cases answer with
      | false =>
        obtain rfl := hanswer rfl
        refine ⟨1, iraw', ?_, ?_⟩
        · rw [Individual.parseAll, if_pos hlt, hparse]
        · rwa [List.append_nil]
      | true =>
        have hpos : 0 < es.length := List.length_pos_iff.mpr hes
        rw [List.length_append] at hn
        obtain ⟨fuel, full, hfull, hend⟩ := ih left'.length (by omega) hbetween
          (fun x hx => hfits x (List.mem_append_right _ hx))
          (fun _ => by rw [List.append_assoc]; exact hcount hne) rfl
        refine ⟨fuel + 1, full, ?_, ?_⟩
        · rw [Individual.parseAll, if_pos hlt, hparse]
          exact hfull
        · rwa [← List.append_assoc]

end Between

theorem parseAll_unique {cbor : CborParser} {fuel fuel' : ℕ} {iraw full full' : Individual}
    (h : iraw.parseAll cbor fuel = some full) (h' : iraw.parseAll cbor fuel' = some full') :
    full = full' := by
  induction fuel generalizing fuel' iraw with
  | zero => cases h
  | succ fuel ih =>
    cases fuel' with
    | zero => cases h'
    | succ fuel' =>
      rw [Individual.parseAll] at h h'
      split_ifs at h h' with hlt
      · rcases hparse : parseToPredicate cbor "?" iraw with ⟨answer, iraw'⟩
        rw [hparse] at h h'
        cases answer with
        | true => exact ih h h'
        | false => exact (Option.some.inj h).symm.trans (Option.some.inj h')
      · exact (Option.some.inj h).symm.trans (Option.some.inj h')

/-! ## What is found under a predicate -/

/-- The resources that the decoder makes of the values of a predicate. -/
def storedFrom : ℕ → List Resource → List Resource
  | _, [] => []
  | n, r :: rs => r.stored n :: storedFrom (n + 1) rs

/-- The types and the values that are written for some resources. -/
def writtenOf (rs : List Resource) : List (DataType × Value) :=
  rs.map fun r => (r.rtype, r.written)

theorem content_storedFrom (n : ℕ) (rs : List Resource) :
    (storedFrom n rs).map Resource.content = writtenOf rs := by
  induction rs generalizing n with
  | nil => rfl
  | cons r rs ih =>
    rw [storedFrom, List.map_cons, ih]
    rfl

namespace IndividualObj

theorem lookup_addStored (obj : IndividualObj) (predicate : String) (rs : List Resource) :
    (obj.addStored predicate rs).resources.lookup predicate =
      if rs = [] then obj.resources.lookup predicate
      else some (obj.valuesOf predicate ++ storedFrom (obj.valuesOf predicate).length rs) := by
  induction rs generalizing obj with
  | nil => rfl
  | cons r rs ih =>
    rw [addStored, ih, if_neg (List.cons_ne_nil r rs), lookup_push, valuesOf_push]
    cases rs with
    | nil => rfl
    | cons r' rs =>
      rw [if_neg (List.cons_ne_nil r' rs), List.append_assoc, List.length_append]
      rfl

theorem lookup_addStored_ne (obj : IndividualObj) {predicate p : String} (rs : List Resource)
    (h : p ≠ predicate) :
    (obj.addStored predicate rs).resources.lookup p = obj.resources.lookup p := by
  induction rs generalizing obj with
  | nil => rfl
  | cons r rs ih => rw [addStored, ih, lookup_push_ne _ _ h]

theorem lookup_addEntries_of_notMem (obj : IndividualObj)
    {es : List (String × List Resource)} {p : String} (h : p ∉ es.map Prod.fst) :
    (obj.addEntries es).resources.lookup p = obj.resources.lookup p := by
  induction es generalizing obj with
  | nil => rfl
  | cons e es ih =>
    rw [List.map_cons, List.mem_cons, not_or] at h
    rw [addEntries, ih _ h.2, lookup_addStored_ne _ _ h.1]

theorem lookup_addEntries_of_mem (obj : IndividualObj) {es : List (String × List Resource)}
    (hnodup : (es.map Prod.fst).Nodup) {p : String} {rs : List Resource} (h : (p, rs) ∈ es) :
    (obj.addEntries es).resources.lookup p =
      if rs = [] then obj.resources.lookup p
      else some (obj.valuesOf p ++ storedFrom (obj.valuesOf p).length rs) := by
  induction es generalizing obj with
  | nil => cases h
  | cons e es ih =>
    rw [List.map_cons, List.nodup_cons] at hnodup
    rw [addEntries]
    rcases List.mem_cons.mp h with rfl | h
    · rw [lookup_addEntries_of_notMem _ hnodup.1, lookup_addStored]
    · have hne : p ≠ e.1 := fun he => hnodup.1 (he ▸ List.mem_map_of_mem h)
      rw [ih _ hnodup.2 h, valuesOf, valuesOf, lookup_addStored_ne _ _ hne]

theorem lookup_addEntries (obj : IndividualObj) {es : List (String × List Resource)}
    (hnodup : (es.map Prod.fst).Nodup) {p : String} {rs : List Resource} (h : (p, rs) ∈ es)
    (hnone : obj.resources.lookup p = none) :
    (obj.addEntries es).resources.lookup p = if rs = [] then none else some (storedFrom 0 rs) := by
  have hvalues : obj.valuesOf p = [] := by rw [valuesOf, hnone, Option.getD_none]
  rw [obj.lookup_addEntries_of_mem hnodup h, hnone, hvalues]
  rfl

end IndividualObj

/-! ## The header -/

theorem readHeader_written (uri : String) (rest : List UInt8) :
    readHeader.run (writeArrayLen 2 ++ (writeStr uri ++ rest)) =
      match readMapLen.run ((utf8 uri).drop (asU32 (utf8 uri).length) ++ rest) with
      | .ok size cur => .ok (textOf ((utf8 uri).take (asU32 (utf8 uri).length)), size) cur
      | .error _ cur => .error (-1) cur := by
  have hmarker : readMarker.run (writeArrayLen 2 ++ (writeStr uri ++ rest)) =
      .ok (.fixArray 2) (writeStr uri ++ rest) :=
    reads_marker (m := .fixArray 2) rfl _
  have hstr := readStringFromMsgpack_writeStr uri rest
  simp only [readHeader, EStateM.run_bind, run_attempt, hmarker, ne_eq, not_true, if_false, hstr]
  cases readMapLen.run ((utf8 uri).drop (asU32 (utf8 uri).length) ++ rest) with
  | ok size cur => rfl
  | error e cur => rfl

/-- The bytes in front of the predicates. -/
def headerOf (obj : IndividualObj) : List UInt8 :=
  writeArrayLen 2 ++ (writeStr obj.uri ++ writeMapLen (asU32 obj.resources.keys.length))

theorem length_iter (π : IterOrder String) (obj : IndividualObj) :
    (obj.resources.iter π).length = obj.resources.keys.length := by
  rw [← List.length_map Prod.fst, HashMap.map_fst_iter, (π.perm _).length_eq]

theorem toMsgpack_eq (π : IterOrder String) (obj : IndividualObj) :
    toMsgpack π obj = headerOf obj ++ bytesOfEntries (obj.resources.iter π) := by
  rw [toMsgpack, headerOf, List.append_assoc, List.append_assoc]
  rfl

/-- The record of an individual, before it is parsed. -/
def recordOf (π : IterOrder String) (obj : IndividualObj) : Individual :=
  .newRaw (.new (toMsgpack π obj))

theorem readHeader_toMsgpack (π : IterOrder String) (obj : IndividualObj) :
    readHeader.run (toMsgpack π obj) =
      match readMapLen.run ((utf8 obj.uri).drop (asU32 (utf8 obj.uri).length) ++
          (writeMapLen (asU32 obj.resources.keys.length) ++
            bytesOfEntries (obj.resources.iter π))) with
      | .ok size cur => .ok (textOf ((utf8 obj.uri).take (asU32 (utf8 obj.uri).length)), size) cur
      | .error _ cur => .error (-1) cur :=
  readHeader_written obj.uri _

theorem parseRaw_of_data (cbor : CborParser) {π : IterOrder String} {obj : IndividualObj}
    {iraw : Individual} (hdata : iraw.raw.data = toMsgpack π obj) :
    iraw.parseRaw cbor =
      match readHeader.run (toMsgpack π obj) with
      | .ok (uri, size) cur =>
        (.ok (), ⟨{ iraw.obj with uri }, { iraw.raw with
          rawType := .msgpack
          lenPredicates := size
          cur := (toMsgpack π obj).length - cur.length }⟩)
      | .error _ _ => (.error (-1), { iraw with raw := { iraw.raw with rawType := .msgpack } }) := by
  have hcons : toMsgpack π obj = msgpackMagicHeader :: (toMsgpack π obj).tail := rfl
  rw [Individual.parseRaw, hdata, hcons]
  dsimp only
  rw [if_pos rfl, parseMsgpack, ← hcons, hdata, if_neg (by rw [hcons]; simp)]
  cases readHeader.run (toMsgpack π obj) <;> rfl

/-- The individual that has the uri alone. -/
def withoutValues (obj : IndividualObj) : IndividualObj := ⟨obj.uri, ∅⟩

theorem parseRaw_toMsgpack (cbor : CborParser) (π : IterOrder String) (obj : IndividualObj)
    (huri : (utf8 obj.uri).length < 4294967296) :
    ∃ start, (recordOf π obj).parseRaw cbor = (.ok (), start) ∧
      Between (headerOf obj) (withoutValues obj) [] (obj.resources.iter π) start := by
  have hheader := readHeader_toMsgpack π obj
  rw [asU32_of_lt huri, List.drop_length, List.nil_append, reads_mapLen (asU32_lt _),
    List.take_length, textOf_utf8] at hheader
  have hlength : (toMsgpack π obj).length =
      (headerOf obj).length + (bytesOfEntries (obj.resources.iter π)).length := by
    rw [toMsgpack_eq, List.length_append]
  refine ⟨⟨withoutValues obj, ⟨toMsgpack π obj,
    (toMsgpack π obj).length - (bytesOfEntries (obj.resources.iter π)).length,
    asU32 obj.resources.keys.length, 0, .msgpack⟩⟩, ?_, ?_⟩
  · rw [parseRaw_of_data cbor (show (recordOf π obj).raw.data = _ from rfl), hheader]
    rfl
  · refine ⟨toMsgpack_eq π obj, ?_, rfl, rfl, ?_, Nat.zero_le _, Nat.pos_of_ne_zero⟩
    · rw [bytesOfEntries_nil, List.append_nil]
      show (toMsgpack π obj).length - _ = _
      omega
    · rw [List.nil_append, length_iter]

end Veda.Onto
