import Veda.Onto.Decoded

set_option autoImplicit false

/-!
# A stored individual that is read

A program parses the header of a stored individual and calls getters. Whatever it has read before,
a getter gives what it gives on the decoded individual. What was found is read at the same place
when the header is parsed again, although the cursor is at the first predicate then.

## Main definitions

* `Onto.Opened` — a stored individual between calls of getters.
* `Onto.Fetched` — an answer that a getter finds without decoding.

## Main results

* `Onto.Opened.get` — one call of a getter.
* `Onto.Fetched.get`, `Onto.Fetched.of_get` — an answer that was found is found again.
* `Onto.parseAll_mono` — more fuel does not change what is decoded.
-/

namespace Veda.Onto

open Veda.Lib Veda.Lib.Msgpack

/-- A stored individual between calls of getters: some predicates are decoded. -/
def Opened (π : IterOrder String) (obj : IndividualObj) (iraw : Individual) : Prop :=
  ∃ taken left, taken ++ left = obj.resources.iter π ∧
    Between (headerOf obj) (withoutValues obj) taken left iraw

section Opened

variable {π : IterOrder String} {obj : IndividualObj} {iraw : Individual}

theorem opened_of_parseRaw (hfits : obj.AllFit) (cbor : CborParser) (π : IterOrder String) :
    ∃ start, (recordOf π obj).parseRaw cbor = (.ok (), start) ∧ Opened π obj start := by
  obtain ⟨start, hstart, hbetween⟩ := parseRaw_toMsgpack cbor π obj hfits.uri
  exact ⟨start, hstart, [], _, rfl, hbetween⟩

theorem Opened.uri (h : Opened π obj iraw) : iraw.obj.uri = obj.uri := by
  obtain ⟨taken, left, -, hbetween⟩ := h
  rw [hbetween.obj, uri_addEntries]
  rfl

theorem Opened.data (h : Opened π obj iraw) : iraw.raw.data = toMsgpack π obj := by
  obtain ⟨taken, left, heq, hbetween⟩ := h
  rw [hbetween.data, heq, toMsgpack_eq]

theorem Opened.rawType (h : Opened π obj iraw) : iraw.raw.rawType = .msgpack := by
  obtain ⟨taken, left, -, hbetween⟩ := h
  exact hbetween.rawType

theorem Opened.lookup (h : Opened π obj iraw) {p : String} {v : List Resource}
    (hlookup : iraw.obj.resources.lookup p = some v) :
    (decoded π obj).resources.lookup p = some v := by
  obtain ⟨taken, left, heq, hbetween⟩ := h
  rw [decoded, ← heq]
  apply lookup_addEntries_of_some
  · rw [heq]
    exact HashMap.nodup_fst_iter π obj.resources
  · exact AList.lookup_empty p
  · rw [← hbetween.obj]
    exact hlookup

/-- **One call** of a getter. -/
theorem Opened.get (h : Opened π obj iraw) (hfits : obj.AllFit) {ρ : Type} (cbor : CborParser)
    (g : Getter ρ) (predicate : String) :
    ∃ iraw', iraw.get cbor g predicate = ((decoded π obj).read g predicate, iraw') ∧
      Opened π obj iraw' := by
  obtain ⟨taken, left, heq, hbetween⟩ := h
  obtain ⟨iraw', taken', left', hget, heq', hbetween'⟩ : ∃ iraw' taken' left',
      iraw.get cbor g predicate =
          (((withoutValues obj).addEntries (taken ++ left)).read g predicate, iraw') ∧
        taken' ++ left' = taken ++ left ∧
        Between (headerOf obj) (withoutValues obj) taken' left' iraw' := hbetween.get
    (hfits.of_left heq) (heq ▸ hfits.length_iter_lt π) (heq ▸ HashMap.nodup_fst_iter π obj.resources)
    (AList.lookup_empty predicate)
  refine ⟨iraw', ?_, taken', left', heq'.trans heq, hbetween'⟩
  rw [hget, heq]
  rfl

end Opened

/-! ## Answers that were found -/

section Fetched

variable {ρ : Type} {cbor : CborParser} {g : Getter ρ} {p : String} {answer : ρ}
  {iraw iraw' : Individual}

/-- A getter finds an answer in the values that are decoded. -/
def Fetched (g : Getter ρ) (p : String) (answer : ρ) (iraw : Individual) : Prop :=
  ∃ v, iraw.obj.resources.lookup p = some v ∧ g.inspect v = .ok (some answer)

theorem Fetched.get (h : Fetched g p answer iraw) (cbor : CborParser) :
    iraw.get cbor g p = (.ok answer, iraw) := by
  obtain ⟨v, hlookup, hinspect⟩ := h
  rw [Individual.get, Individual.getLoop, hlookup]
  dsimp only
  rw [hinspect]

theorem Fetched.of_getLoop {visits : ℕ}
    (h : Individual.getLoop cbor g p visits iraw = (.ok answer, iraw'))
    (hne : answer ≠ g.notFound) : Fetched g p answer iraw' := by
  induction visits generalizing iraw with
  | zero =>
    cases h
    exact absurd rfl hne
  | succ visits ih =>
    rw [Individual.getLoop] at h
    cases hlookup : iraw.obj.resources.lookup p with
    | some v =>
      rw [hlookup] at h
      dsimp only at h
      cases hinspect : g.inspect v with
      | error panic =>
        rw [hinspect] at h
        cases h
      | ok found =>
        rw [hinspect] at h
        cases found with
        | none => exact ih h
        | some found =>
          cases h
          exact ⟨v, hlookup, hinspect⟩
    | none =>
      rw [hlookup] at h
      dsimp only at h
      split_ifs at h with hlt
      · rcases hparse : parseToPredicate cbor p iraw with ⟨more, iraw''⟩
        rw [hparse] at h
        cases more with
        | true => exact ih h
        | false =>
          cases h
          exact absurd rfl hne
      · cases h
        exact absurd rfl hne

theorem Fetched.of_get (h : iraw.get cbor g p = (.ok answer, iraw')) (hne : answer ≠ g.notFound) :
    Fetched g p answer iraw' :=
  Fetched.of_getLoop h hne

theorem Fetched.of_resources (h : Fetched g p answer iraw)
    (hsame : iraw'.obj.resources = iraw.obj.resources) : Fetched g p answer iraw' := by
  obtain ⟨v, hlookup, hinspect⟩ := h
  exact ⟨v, hsame ▸ hlookup, hinspect⟩

end Fetched

/-- **The header is read again**: the individual keeps the values that it has. -/
theorem parseRaw_again {obj : IndividualObj} {π : IterOrder String} {iraw : Individual}
    (hdata : iraw.raw.data = toMsgpack π obj) (hfits : obj.AllFit) (cbor : CborParser) :
    ∃ iraw', iraw.parseRaw cbor = (.ok (), iraw') ∧ iraw'.raw.data = toMsgpack π obj ∧
      iraw'.obj.resources = iraw.obj.resources := by
  have hheader := readHeader_toMsgpack π obj
  rw [asU32_of_lt hfits.uri, List.drop_length, List.nil_append, reads_mapLen (asU32_lt _)]
    at hheader
  rw [parseRaw_of_data cbor hdata, hheader]
  exact ⟨_, rfl, hdata, rfl⟩

/-! ## More decoding -/

section More

variable {cbor : CborParser} {iraw full : Individual}

theorem extends_getLoop {ρ : Type} (cbor : CborParser) (g : Getter ρ) (p : String) (visits : ℕ)
    (htype : iraw.raw.rawType = .msgpack) :
    Extends iraw.obj (Individual.getLoop cbor g p visits iraw).2.obj := by
  induction visits generalizing iraw with
  | zero => exact Extends.refl _
  | succ visits ih =>
    rw [Individual.getLoop]
    cases iraw.obj.resources.lookup p with
    | some v =>
      dsimp only
      cases g.inspect v with
      | error panic => exact Extends.refl _
      | ok found =>
        cases found with
        | none => exact ih htype
        | some answer => exact Extends.refl _
    | none =>
      dsimp only
      split_ifs with hlt
      · have hextends := extends_parseToPredicate cbor p htype
        rcases hparse : parseToPredicate cbor p iraw with ⟨more, iraw'⟩
        rw [hparse] at hextends
        cases more with
        | true => exact hextends.1.trans (ih hextends.2)
        | false => exact hextends.1
      · exact Extends.refl _

theorem parseAll_mono {fuel fuel' : ℕ} (h : iraw.parseAll cbor fuel = some full)
    (hle : fuel ≤ fuel') : iraw.parseAll cbor fuel' = some full := by
  induction fuel generalizing fuel' iraw with
  | zero => cases h
  | succ fuel ih =>
    obtain ⟨fuel', rfl⟩ := Nat.exists_eq_add_one_of_ne_zero (by omega : fuel' ≠ 0)
    rw [Individual.parseAll] at h ⊢
    split_ifs at h ⊢ with hlt
    · rcases hparse : parseToPredicate cbor "?" iraw with ⟨more, iraw'⟩
      rw [hparse] at h
      cases more with
      | true => exact ih h (by omega)
      | false => exact h
    · exact h

end More

theorem Opened.fetched_get {π : IterOrder String} {obj : IndividualObj} {iraw : Individual}
    (h : Opened π obj iraw) (hfits : obj.AllFit) {ρ σ : Type} {g : Getter ρ} {p : String}
    {answer : ρ} (hfetched : Fetched g p answer iraw) (cbor : CborParser) (g' : Getter σ)
    (p' : String) : Fetched g p answer (iraw.get cbor g' p').2 := by
  obtain ⟨v, hlookup, hinspect⟩ := hfetched
  obtain ⟨iraw', hget, hopened⟩ := h.get hfits cbor g' p'
  have hvalues := (extends_getLoop cbor g' p' 2 h.rawType).values p
  change iraw.obj.valuesOf p <+: (iraw.get cbor g' p').2.obj.valuesOf p at hvalues
  have hdecoded := h.lookup hlookup
  have hfilled : v ≠ [] := by
    rw [lookup_decoded, Option.bind_eq_some_iff] at hdecoded
    obtain ⟨rs, -, hrs⟩ := hdecoded
    split_ifs at hrs with hnil
    obtain rfl := Option.some.inj hrs
    cases rs with
    | nil => exact absurd rfl hnil
    | cons r rs => exact List.cons_ne_nil _ _
  rw [hget] at hvalues ⊢
  rw [IndividualObj.valuesOf, hlookup, Option.getD_some] at hvalues
  cases hlookup' : iraw'.obj.resources.lookup p with
  | none =>
    rw [IndividualObj.valuesOf, hlookup', Option.getD_none, List.prefix_nil] at hvalues
    exact absurd hvalues hfilled
  | some v' =>
    rw [hopened.lookup hlookup'] at hdecoded
    obtain rfl := Option.some.inj hdecoded
    exact ⟨v', hlookup', hinspect⟩

end Veda.Onto
