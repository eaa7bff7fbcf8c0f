import Mathlib.Data.Multiset.OrderedMonoid
import Veda.Onto.CborLazy
import Veda.Onto.DamagedCalls
import Veda.Onto.JsonExchange
import Veda.Onto.Values

set_option autoImplicit false

/-!
# Getters after edits

A getter that takes the first value of a predicate panics when the list of its values is empty. Some
mutators create the list of a predicate, or empty it, and leave it in the individual without values.
So does the decoder when the first value of a predicate is binary and its bytes are cut off.

## Main definitions

* `Onto.Edit`, `Onto.Individual.edit` — the mutators.
* `Onto.MayEdit` — the condition of a mutator.
* `Onto.Intact` — no value list that can be decoded is left empty.
* `Onto.Edited` — the states of a run whose mutators meet their conditions.

## Main results

* `Onto.filled_edit_iff` — which mutators leave no empty list.
* `Onto.neverPanics_of_edited` — no getter panics in such a run.

## Design

Calls of getters and of `parse_all` are steps of a run, too, since they decode. The getters that are
not named apart are `any_exists_v`, which does what `any_exists` does, `get_literals_nm`, which does
not decode, and `get_first_literal_or_err`, which asks `get_first_literal`. Whether a text is a date
or a decimal is up to the libraries.
-/

namespace Veda.Onto

open Veda.Lib Veda.Lib.Msgpack

/-! ## The mutators -/

namespace IndividualObj

def setDatetime (obj : IndividualObj) (predicate : String) (i : Int64) : IndividualObj :=
  obj.setValue predicate .datetime (.datetime i)

def setDecimalD (obj : IndividualObj) (predicate : String) (mantissa exponent : Int64) :
    IndividualObj :=
  obj.setValue predicate .decimal (.num mantissa exponent)

/-- `set_uris`; every uri has the order 0. -/
def setUris (obj : IndividualObj) (predicate : String) (ss : List String) : IndividualObj :=
  obj.setResources predicate (ss.map fun s => ⟨.uri, .uri s, 0⟩)

def clear (obj : IndividualObj) (predicate : String) : IndividualObj :=
  obj.setResources predicate []

def addResources (obj : IndividualObj) (predicate : String) (b : List Resource) : IndividualObj :=
  let values := obj.valuesOf predicate
  obj.setResources predicate
    (values ++ b.mapIdx fun n el => { el with order := UInt16.ofNat (values.length + n) })

/-- The first value that equals `el` is removed. -/
def removeValue (values : List Resource) (el : Resource) : List Resource :=
  values.eraseP fun v => v.content = el.content

def removeResources (obj : IndividualObj) (predicate : String) (b : List Resource) :
    IndividualObj :=
  obj.setResources predicate (b.foldl removeValue (obj.valuesOf predicate))

/-- A value is set as its type says; bytes are passed over. -/
def setResource (predicate : String) (obj : IndividualObj) (el : Resource) : IndividualObj :=
  match el.rtype with
  | .string => obj.setString predicate el.getStr el.getLang
  | .uri => obj.setUri predicate el.getUri
  | .datetime => obj.setDatetime predicate el.getDatetime
  | .integer => obj.setInteger predicate el.getInt
  | .decimal => obj.setDecimalD predicate el.getNum.1 el.getNum.2
  | .boolean => obj.setBool predicate el.getBool
  | .binary => obj

/-- A value is added when there is one. -/
def addParsed (obj : IndividualObj) (predicate : String) (rtype : DataType) :
    Option Value → IndividualObj
  | some value => obj.addValue predicate rtype value
  | none => obj

end IndividualObj

/-- The mutators with their arguments. Those of `IndividualObj` that are named as one of
`Individual` and do something else have `Of` in their names. -/
inductive Edit
  | addBool (predicate : String) (b : Bool)
  | setBool (predicate : String) (b : Bool)
  | addDatetime (predicate : String) (i : Int64)
  | addDatetimeFromStr (predicate value : String)
  | setDatetime (predicate : String) (i : Int64)
  | addBinary (predicate : String) (v : List UInt8)
  | setBinary (predicate : String) (v : List UInt8)
  | addInteger (predicate : String) (i : Int64)
  | setInteger (predicate : String) (i : Int64)
  | addDecimalD (predicate : String) (mantissa exponent : Int64)
  | addDecimalFromStr (predicate value : String)
  | addDecimalFromI64 (predicate : String) (value : Int64)
  | addDecimalFromF64 (predicate : String) (value : Float)
  | setDecimalD (predicate : String) (mantissa exponent : Int64)
  | addUri (predicate s : String)
  | setUri (predicate s : String)
  | setUris (predicate : String) (ss : List String)
  | addString (predicate s : String) (lang : Lang)
  | setString (predicate s : String) (lang : Lang)
  | setResources (predicate : String) (v : List Resource)
  | setResourcesOfObj (predicate : String) (b : List Resource)
  | clear (predicate : String)
  | remove (predicate : String)
  | addUniqueResources (predicate : String) (b : List Resource)
  | removeResources (predicate : String) (b : List Resource)
  | addResources (predicate : String) (b : List Resource)
  | excludeAndSetResources (predicate : String) (exclude : List Resource)
  | applyPredicateAsSet (predicate : String) (newData : Individual)
  | applyPredicateAsAddUnique (predicate : String) (newData : Individual)
  | applyPredicateAsRemove (predicate : String) (newData : Individual)
  | setId (id : String)
  | setRaw (data : List UInt8)

/-- What a mutator makes of the decoded part of an individual. -/
def IndividualObj.edit (libs : Libraries) (obj : IndividualObj) : Edit → IndividualObj
  | .addBool p b => obj.addBool p b
  | .setBool p b => obj.setBool p b
  | .addDatetime p i => obj.addDatetime p i
  | .addDatetimeFromStr p value =>
    obj.addParsed p .datetime ((datetimeFromStr libs value).map .datetime)
  | .setDatetime p i => obj.setDatetime p i
  | .addBinary p v => obj.addBinary p v
  | .setBinary p v => obj.setBinary p v
  | .addInteger p i => obj.addInteger p i
  | .setInteger p i => obj.setInteger p i
  | .addDecimalD p m e => obj.addDecimalD p m e
  | .addDecimalFromStr p value =>
    obj.addParsed p .decimal ((decimalFromStr libs value).map fun d => .num d.1 d.2)
  | .addDecimalFromI64 p value => obj.addDecimalD p value 0
  | .addDecimalFromF64 p value =>
    obj.addParsed p .decimal ((decimalFromF64 libs value).map fun d => .num d.1 d.2)
  | .setDecimalD p m e => obj.setDecimalD p m e
  | .addUri p s => obj.addUri p s
  | .setUri p s => obj.setUri p s
  | .setUris p ss => obj.setUris p ss
  | .addString p s lang => obj.addString p s lang
  | .setString p s lang => obj.setString p s lang
  | .setResources p v => v.foldl (setResource p) obj
  | .setResourcesOfObj p b => obj.setResources p b
  | .clear p => obj.clear p
  | .remove p => obj.remove p
  | .addUniqueResources p b => obj.addUniqueResources p b
  | .removeResources p b => obj.removeResources p b
  | .addResources p b => obj.addResources p b
  | .excludeAndSetResources p exclude => obj.excludeAndSetResources p exclude
  | .applyPredicateAsSet p newData =>
    match newData.obj.resources.lookup p with
    | some v => obj.setResources p v
    | none => obj
  | .applyPredicateAsAddUnique p newData =>
    match newData.obj.resources.lookup p with
    | some v => obj.addUniqueResources p v
    | none => obj
  | .applyPredicateAsRemove p newData =>
    match newData.obj.resources.lookup p with
    | some exclude => obj.excludeAndSetResources p exclude
    | none => obj
  | .setId id => { obj with uri := id }
  | .setRaw _ => obj

/-- A mutator on an individual. -/
def Individual.edit (libs : Libraries) (iraw : Individual) (e : Edit) : Individual where
  obj := iraw.obj.edit libs e
  raw :=
    match e with
    | .setRaw data => { iraw.raw with data }
    | _ => iraw.raw

/-- **The condition of a mutator** on the values: it sets at least one value, it adds at least one
when it creates a list, and it does not remove all values of a list that it keeps. -/
def MayEdit (obj : IndividualObj) : Edit → Prop
  | .clear _ => False
  | .setUris _ ss => ss ≠ []
  | .setResourcesOfObj _ b => b ≠ []
  | .addUniqueResources p b => b = [] → obj.resources.lookup p ≠ none
  | .addResources p b => b = [] → obj.resources.lookup p ≠ none
  | .removeResources p b =>
    ¬ ((obj.valuesOf p).map Resource.content).Subperm (b.map Resource.content)
  | .applyPredicateAsSet p newData => newData.obj.resources.lookup p ≠ some []
  | .applyPredicateAsAddUnique p newData =>
    newData.obj.resources.lookup p = some [] → obj.resources.lookup p ≠ none
  | _ => True

/-! ## Lists that are not empty -/

section Erase

variable {α β : Type} [DecidableEq β] (f : α → β)

theorem map_foldl_eraseP (values b : List α) :
    (b.foldl (fun vs el => vs.eraseP fun v => f v = f el) values).map f =
      (values.map f).diff (b.map f) := by
  induction b generalizing values with
  | nil => rfl
  | cons el b ih =>
    have herase : (values.eraseP fun v => f v = f el).map f = (values.map f).erase (f el) := by
      rw [List.erase_eq_eraseP', List.eraseP_map]
      rfl
    rw [List.foldl_cons, ih, herase, List.map_cons, List.diff_cons]

theorem foldl_eraseP_eq_nil_iff (values b : List α) :
    b.foldl (fun vs el => vs.eraseP fun v => f v = f el) values = [] ↔
      (values.map f).Subperm (b.map f) := by
  rw [← List.map_eq_nil_iff, map_foldl_eraseP, ← Multiset.coe_le, ← tsub_eq_zero_iff_le,
    Multiset.coe_sub, Multiset.coe_eq_zero]

end Erase

section Filled

variable {obj : IndividualObj} {p : String}

theorem filled_setResources_iff (h : Filled obj) (values : List Resource) :
    Filled (obj.setResources p values) ↔ values ≠ [] := by
  constructor
  · intro hfilled hnil
    refine hfilled p ?_
    rw [IndividualObj.setResources, AList.lookup_insert, hnil]
  · intro hne q
    rw [IndividualObj.setResources]
    by_cases hq : q = p
    · rw [hq, AList.lookup_insert]
      simpa using hne
    · rw [AList.lookup_insert_ne hq]
      exact h q

theorem Filled.valuesOf_eq_nil_iff (h : Filled obj) :
    obj.valuesOf p = [] ↔ obj.resources.lookup p = none := by
  rw [IndividualObj.valuesOf]
  cases hlookup : obj.resources.lookup p with
  | none => simp
  | some values =>
    have hne : values ≠ [] := fun hnil => h p (hnil ▸ hlookup)
    simpa using hne

theorem Filled.addValue (h : Filled obj) (rtype : DataType) (value : Value) :
    Filled (obj.addValue p rtype value) := by
  rw [IndividualObj.addValue_eq_push]
  exact h.push p _

theorem Filled.setValue (h : Filled obj) (rtype : DataType) (value : Value) :
    Filled (obj.setValue p rtype value) :=
  (filled_setResources_iff h [⟨rtype, value, 0⟩]).mpr (List.cons_ne_nil _ _)

theorem Filled.addParsed (h : Filled obj) (rtype : DataType) (value : Option Value) :
    Filled (obj.addParsed p rtype value) := by
  cases value with
  | none => exact h
  | some value => exact h.addValue rtype value

theorem Filled.remove (h : Filled obj) : Filled (obj.remove p) := by
  intro q
  rw [IndividualObj.remove]
  by_cases hq : q = p
  · rw [hq, AList.lookup_erase]
    exact nofun
  · rw [AList.lookup_erase_ne hq]
    exact h q

theorem Filled.excludeAndSetResources (h : Filled obj) (exclude : List Resource) :
    Filled (obj.excludeAndSetResources p exclude) := by
  unfold IndividualObj.excludeAndSetResources
  dsimp only
  split_ifs with hempty
  · exact h.remove
  · exact (filled_setResources_iff h _).mpr fun hnil => hempty (List.isEmpty_iff.mpr hnil)

theorem Filled.setResource (h : Filled obj) (el : Resource) :
    Filled (IndividualObj.setResource p obj el) := by
  unfold IndividualObj.setResource
  split
  case h_7 => exact h
  all_goals exact h.setValue _ _

theorem Filled.foldl_setResource (h : Filled obj) (v : List Resource) :
    Filled (v.foldl (IndividualObj.setResource p) obj) := by
  induction v generalizing obj with
  | nil => exact h
  | cons el v ih => exact ih (h.setResource el)

theorem Filled.addStored (h : Filled obj) (rs : List Resource) : Filled (obj.addStored p rs) := by
  induction rs generalizing obj with
  | nil => exact h
  | cons r rs ih => exact ih (h.push p _)

theorem pushUnique_eq_nil_iff (values b : List Resource) :
    IndividualObj.pushUnique values b = [] ↔ values = [] ∧ b = [] := by
  induction b generalizing values with
  | nil => simp [IndividualObj.pushUnique]
  | cons el b ih =>
    change IndividualObj.pushUnique (if values.any fun v => v.content = el.content then values
      else values ++ [el]) b = [] ↔ _
    rw [ih]
    split_ifs with hany
    · have hne : values ≠ [] := by
        rintro rfl
        cases hany
      simp [hne]
    · simp

theorem filled_addUniqueResources_iff (h : Filled obj) (b : List Resource) :
    Filled (obj.addUniqueResources p b) ↔ (b = [] → obj.resources.lookup p ≠ none) := by
  refine (filled_setResources_iff h _).trans ?_
  rw [Ne, pushUnique_eq_nil_iff, ← IndividualObj.valuesOf, h.valuesOf_eq_nil_iff]
  tauto

theorem foldl_removeValue_eq_nil_iff (values b : List Resource) :
    b.foldl IndividualObj.removeValue values = [] ↔
      (values.map Resource.content).Subperm (b.map Resource.content) :=
  foldl_eraseP_eq_nil_iff Resource.content values b

/-- **A mutator leaves no empty list** exactly when it meets its condition. -/
theorem filled_edit_iff (libs : Libraries) (h : Filled obj) (e : Edit) :
    Filled (obj.edit libs e) ↔ MayEdit obj e := by
  cases e
  case clear p => exact (filled_setResources_iff h []).trans (by simp [MayEdit])
  case setUris p ss => exact (filled_setResources_iff h _).trans (by simp [MayEdit])
  case setResourcesOfObj p b => exact filled_setResources_iff h b
  case addUniqueResources p b => exact filled_addUniqueResources_iff h b
  case removeResources p b =>
    exact (filled_setResources_iff h _).trans (not_congr (foldl_removeValue_eq_nil_iff _ _))
  case addResources p b =>
    refine (filled_setResources_iff h _).trans ?_
    rw [Ne, List.append_eq_nil_iff, h.valuesOf_eq_nil_iff, List.mapIdx_eq_nil_iff, MayEdit]
    tauto
  case applyPredicateAsSet p newData =>
    rw [IndividualObj.edit, MayEdit]
    cases newData.obj.resources.lookup p with
    | none => simpa using h
    | some v => simpa using filled_setResources_iff h v
  case applyPredicateAsAddUnique p newData =>
    rw [IndividualObj.edit, MayEdit]
    cases newData.obj.resources.lookup p with
    | none => simpa using h
    | some v => simpa using filled_addUniqueResources_iff h v
  case applyPredicateAsRemove p newData =>
    refine iff_of_true ?_ trivial
    rw [IndividualObj.edit]
    cases newData.obj.resources.lookup p with
    | none => exact h
    | some exclude => exact h.excludeAndSetResources exclude
  case setResources p v => exact iff_of_true (h.foldl_setResource v) trivial
  case remove p => exact iff_of_true h.remove trivial
  case excludeAndSetResources p exclude =>
    exact iff_of_true (h.excludeAndSetResources exclude) trivial
  case setId | setRaw => exact iff_of_true h trivial
  case addDatetimeFromStr | addDecimalFromStr | addDecimalFromF64 =>
    exact iff_of_true (h.addParsed _ _) trivial
  case setBool | setDatetime | setBinary | setInteger | setDecimalD | setUri | setString =>
    exact iff_of_true (h.setValue _ _) trivial
  all_goals exact iff_of_true (h.addValue _ _) trivial

end Filled

/-! ## The decoder -/

/-- The decoder goes on at the second place after the first one: behind a predicate with its values,
or behind the bytes of a name that cannot be read. -/
def Advances (cur cur' : List UInt8) : Prop :=
  (∃ e, readStringFromMsgpack.run cur = .error e cur') ∨
    ∃ predicate rest obj obj', readStringFromMsgpack.run cur = .ok predicate rest ∧
      (parseValues predicate).run ⟨rest, obj⟩ = .ok () ⟨cur', obj'⟩

/-- The decoder stops at a value here and leaves the list of its predicate empty. -/
def LeavesEmpty (cur : List UInt8) : Prop :=
  ∃ predicate rest obj e st, readStringFromMsgpack.run cur = .ok predicate rest ∧ Filled obj ∧
    (parseValues predicate).run ⟨rest, obj⟩ = .error e st ∧ ¬ Filled st.obj

/-- **Intact bytes**: at no place to which the decoder can come a list is left empty. -/
def Intact (cur : List UInt8) : Prop :=
  ∀ cur', Relation.ReflTransGen Advances cur cur' → ¬ LeavesEmpty cur'

/-- The bytes that are left of an individual in the newer form are intact. -/
def IntactRaw (raw : RawObj) : Prop := raw.rawType = .msgpack → Intact (raw.data.drop raw.cur)

theorem Intact.advance {cur cur' : List UInt8} (h : Intact cur) (hstep : Advances cur cur') :
    Intact cur' :=
  fun _ hleads => h _ (hleads.head hstep)

/-- What a getter needs: no list is empty, and none will be left empty. -/
structure Safe (iraw : Individual) : Prop where
  filled : Filled iraw.obj
  intact : IntactRaw iraw.raw

section Decoder

variable {iraw iraw' : Individual} (crate : CborCrate)

theorem intactRaw_setCur {cur : List UInt8} (hcur : cur <:+ iraw.raw.data) (h : Intact cur) :
    IntactRaw (iraw.setCur cur).raw := fun _ => by
  rw [drop_setCur hcur]
  exact h

/-- The rounds of the decoder over intact bytes.

**Proof sketch.** Induction on the rounds. A name that cannot be read and a predicate with its
values lead to a place with intact bytes; a value that cannot be read leaves the cursor in front,
and no empty list. -/
theorem safe_predicateLoop (expect : String) {left i : ℕ} {cur : List UInt8} (h : Safe iraw)
    (hcur : cur <:+ iraw.raw.data) (hintact : Intact cur) :
    Safe (predicateLoop expect left i cur iraw).2 := by
  induction left generalizing i cur iraw with
  | zero => exact ⟨h.filled, intactRaw_setCur hcur hintact⟩
  | succ left ih =>
    rw [predicateLoop]
    have hforward := forward_readStringFromMsgpack cur
    cases hname : readStringFromMsgpack.run cur with
    | error e cur' =>
      rw [hname] at hforward
      exact ⟨h.filled, intactRaw_setCur (hforward.trans hcur) (hintact.advance (.inl ⟨e, hname⟩))⟩
    | ok predicate rest =>
      rw [hname] at hforward
      dsimp only
      cases hvalues : (parseValues predicate).run ⟨rest, iraw.obj⟩ with
      | error e st =>
        refine ⟨?_, h.intact⟩
        by_contra hempty
        exact hintact cur .refl ⟨predicate, rest, iraw.obj, e, st, hname, h.filled, hvalues, hempty⟩
      | ok u st =>
        obtain ⟨hsuffix, hfilled⟩ := Succeeds.parseValues predicate _ _ _ hvalues
        have hcur' : st.cur <:+ iraw.raw.data := hsuffix.trans (hforward.trans hcur)
        have hintact' : Intact st.cur :=
          hintact.advance (.inr ⟨predicate, rest, iraw.obj, st.obj, hname, hvalues⟩)
        dsimp only
        split_ifs
        · exact ⟨hfilled h.filled, @intactRaw_setCur ⟨st.obj, _⟩ _ hcur' hintact'⟩
        · exact @ih ⟨st.obj, { iraw.raw with curPredicates := i }⟩ _ _
            ⟨hfilled h.filled, h.intact⟩ hcur' hintact'

theorem filled_cborLoop (expect : String) {left : ℕ} {cur : List UInt8} (h : Filled iraw.obj) :
    Filled (cborLoop crate expect left cur iraw).2.obj ∧
      (cborLoop crate expect left cur iraw).2.raw.rawType = iraw.raw.rawType := by
  induction left generalizing cur iraw with
  | zero => exact ⟨h, rfl⟩
  | succ left ih =>
    rw [cborLoop]
    cases crate.typeinfo.1.run cur with
    | error e cur => exact ih h
    | ok typeInfo cur =>
      dsimp only
      cases (crate.text typeInfo).1.run cur with
      | error e cur => exact ih h
      | ok predicate cur =>
        obtain ⟨answer, rs, cur', -, hvalue⟩ := Appends.addValue crate
          (maxLenArrayOf iraw.raw.data) iraw.raw.data.length cur
        have hfilled : Filled (iraw.obj.addStored predicate rs) := h.addStored rs
        dsimp only
        rw [hvalue]
        cases answer with
        | false => exact ⟨hfilled, rfl⟩
        | true =>
          dsimp only
          split_ifs
          · exact ⟨hfilled, rfl⟩
          · exact @ih ⟨iraw.obj.addStored predicate rs, iraw.raw⟩ _ hfilled

/-- **A read** of a safe individual. -/
theorem Safe.parse (h : Safe iraw) (expect : String) :
    Safe (parseToPredicate crate.parser expect iraw).2 := by
  unfold parseToPredicate
  split_ifs with hmsgpack hcbor
  · have hread : Safe (parseMsgpackToPredicate expect iraw).2 := by
      unfold parseMsgpackToPredicate
      split_ifs
      · exact h
      · exact safe_predicateLoop expect h (List.drop_suffix _ _) (h.intact hmsgpack)
    generalize parseMsgpackToPredicate expect iraw = result at hread
    obtain ⟨_ | _, _⟩ := result <;> exact hread
  · show Safe (parseCborToPredicate crate expect iraw).2
    unfold parseCborToPredicate
    split_ifs
    · exact h
    · obtain ⟨hfilled, htype⟩ := filled_cborLoop crate expect h.filled
      exact ⟨hfilled, fun hmsgpack' => absurd (htype.symm.trans hmsgpack') hmsgpack⟩
  · exact h

theorem Safe.getLoop {ρ : Type} {g : Getter ρ} {takesFirst : Bool} (h : Safe iraw)
    (hg : g.Tame takesFirst) (predicate : String) (visits : ℕ) :
    (∃ answer, (Individual.getLoop crate.parser g predicate visits iraw).1 = .ok answer) ∧
      Safe (Individual.getLoop crate.parser g predicate visits iraw).2 := by
  induction visits generalizing iraw with
  | zero => exact ⟨⟨_, rfl⟩, h⟩
  | succ visits ih =>
    rw [Individual.getLoop]
    cases hlookup : iraw.obj.resources.lookup predicate with
    | some v =>
      have hne : v ≠ [] := fun hnil => h.filled predicate (hnil ▸ hlookup)
      obtain ⟨answer, hanswer⟩ := hg v fun hnil => absurd hnil hne
      dsimp only
      rw [hanswer]
      cases answer with
      | none => exact ih h
      | some answer => exact ⟨⟨_, rfl⟩, h⟩
    | none =>
      dsimp only
      split_ifs
      · have hparse := h.parse crate predicate
        generalize parseToPredicate crate.parser predicate iraw = result at hparse
        obtain ⟨_ | _, iraw'⟩ := result
        · exact ⟨⟨_, rfl⟩, hparse⟩
        · exact ih hparse
      · exact ⟨⟨_, rfl⟩, h⟩

/-- **A call on a safe individual** does not panic. -/
theorem Safe.call (h : Safe iraw) (name : GetterName) (predicate : String) :
    (iraw.call crate.parser predicate name).1 = .ok () ∧
      Safe (iraw.call crate.parser predicate name).2 := by
  obtain ⟨ρ, g, htame, hcall⟩ := exists_getter crate.parser name
  rw [hcall]
  obtain ⟨⟨answer, hanswer⟩, hsafe⟩ := Safe.getLoop crate h htame predicate 2
  refine ⟨?_, hsafe⟩
  show (Individual.getLoop crate.parser g predicate 2 iraw).1.map (fun _ => ()) = .ok ()
  rw [hanswer]
  rfl

theorem Safe.parseAll {fuel : ℕ} {full : Individual} (h : Safe iraw)
    (hall : iraw.parseAll crate.parser fuel = some full) : Safe full := by
  induction fuel generalizing iraw with
  | zero => cases hall
  | succ fuel ih =>
    rw [Individual.parseAll] at hall
    split_ifs at hall
    · have hparse := h.parse crate "?"
      generalize parseToPredicate crate.parser "?" iraw = result at hparse hall
      obtain ⟨_ | _, iraw'⟩ := result
      · exact Option.some.inj hall ▸ hparse
      · exact ih hparse hall
    · exact Option.some.inj hall ▸ h

end Decoder

/-! ## Runs -/

/-- The condition of a mutator on an individual: bytes that are set are intact. -/
def Individual.MayEdit (iraw : Individual) (e : Edit) : Prop :=
  Onto.MayEdit iraw.obj e ∧
    ∀ data, e = .setRaw data → IntactRaw { iraw.raw with data }

/-- An individual without contents, or a record behind `parse_raw`. -/
inductive Fresh (crate : CborCrate) : Individual → Prop
  | default : Fresh crate (.newRaw (.new []))
  | parsed (data : List UInt8) (h : IntactRaw (parsedRaw crate.parser data).raw) :
    Fresh crate (parsedRaw crate.parser data)

/-- The states of a run whose mutators meet their conditions. -/
inductive Edited (libs : Libraries) (crate : CborCrate) : Individual → Prop
  | fresh {start : Individual} (h : Fresh crate start) : Edited libs crate start
  | edit {iraw : Individual} (e : Edit) : Edited libs crate iraw → iraw.MayEdit e →
    Edited libs crate (iraw.edit libs e)
  | get {iraw : Individual} (name : GetterName) (predicate : String) :
    Edited libs crate iraw → Edited libs crate (iraw.call crate.parser predicate name).2
  | parseAll {iraw full : Individual} (fuel : ℕ) : Edited libs crate iraw →
    iraw.parseAll crate.parser fuel = some full → Edited libs crate full

section Runs

variable {libs : Libraries} {crate : CborCrate} {iraw : Individual}

theorem filled_parsedRaw (cbor : CborParser) (data : List UInt8) :
    Filled (parsedRaw cbor data).obj := by
  have hempty : ∀ uri, Filled { IndividualObj.empty with uri } := fun uri p hp => by cases hp
  unfold parsedRaw Individual.parseRaw
  dsimp only [Individual.newRaw, RawObj.new]
  cases data with
  | nil => exact hempty _
  | cons first rest =>
    dsimp only
    split_ifs
    · generalize parseMsgpack _ = result
      cases result <;> exact hempty _
    · generalize cbor.parseCbor _ = result
      obtain ⟨_ | _, _⟩ := result <;> exact hempty _

theorem Fresh.safe (h : Fresh crate iraw) : Safe iraw := by
  cases h with
  | default =>
    refine ⟨fun p hp => ?_, fun htype => ?_⟩
    · cases hp
    · cases htype
  | parsed data hintact => exact ⟨filled_parsedRaw _ data, hintact⟩

theorem Safe.edit (h : Safe iraw) {e : Edit} (hmay : iraw.MayEdit e) :
    Safe (iraw.edit libs e) := by
  refine ⟨(filled_edit_iff libs h.filled e).mpr hmay.1, ?_⟩
  cases e
  case setRaw data => exact hmay.2 data rfl
  all_goals exact h.intact

theorem Edited.safe (h : Edited libs crate iraw) : Safe iraw := by
  induction h with
  | fresh h => exact h.safe
  | edit e _ hmay ih => exact ih.edit hmay
  | get name predicate _ ih => exact (ih.call crate name predicate).2
  | parseAll fuel _ hall ih => exact ih.parseAll crate hall

/-- **Getters survive edits**: in a run whose mutators set, add and leave values as their conditions
say, no getter panics.

**Proof sketch.** No value list is empty, in every state of the run. A mutator keeps this exactly
when it meets its condition, and the decoder keeps it on intact bytes. A getter panics only at an
empty list. -/
theorem neverPanics_of_edited (h : Edited libs crate iraw) (name : GetterName)
    (predicate : String) : (iraw.call crate.parser predicate name).1 = .ok () :=
  (h.safe.call crate name predicate).1

end Runs

/-! ## Runs on fixed edits -/

/-- A uri is set after the predicate was removed. -/
theorem neverPanics_removed :
    ((((Individual.newRaw (.new [])).edit plainLibraries (.remove "p")).edit plainLibraries
      (.setUris "p" ["d:a"])).call smallCrate.parser "p" .getFirstLiteral).1 = .ok () := by
  have hremove : (Individual.newRaw (.new [])).MayEdit (.remove "p") :=
    ⟨trivial, fun data h => nomatch h⟩
  have hset : ((Individual.newRaw (.new [])).edit plainLibraries (.remove "p")).MayEdit
      (.setUris "p" ["d:a"]) :=
    ⟨List.cons_ne_nil _ _, fun data h => nomatch h⟩
  exact neverPanics_of_edited (.edit _ (.edit _ (.fresh .default) hremove) hset) _ _

/-- **A predicate that is cleared** has an empty list. -/
theorem panics_cleared :
    (((Individual.newRaw (.new [])).edit plainLibraries (.clear "p")).call smallCrate.parser "p"
      .getFirstLiteral).1 = .error .indexOutOfBounds := rfl

end Veda.Onto
