import Veda.Onto.Opened

set_option autoImplicit false

/-!
# What an individual says

Two individuals say the same when their predicates have the same types and values in the same order.
Storing and decoding keeps what a well-formed individual says, and the decoded individual is stored
in as many bytes. A getter of a first value depends on what an individual says.

## Main definitions

* `Onto.IndividualObj.contents` — the types and the values of a predicate.
* `Onto.FirstIs`, `Onto.FirstLiteral` — the first value of a predicate.

## Main results

* `Onto.contents_decoded` — what is decoded of a well-formed individual.
* `Onto.length_toMsgpack_decoded` — the bytes of what is decoded.
* `Onto.IndividualObj.AllFit.decoded`, `Onto.IndividualObj.WellFormed.decoded` — what is
  decoded can be stored again.
* `Onto.IndividualObj.AllFit.addValue`, `Onto.IndividualObj.WellFormed.addValue` —
  a value of a new predicate.
-/

namespace Veda.Onto

open Veda.Lib Veda.Lib.Msgpack

/-! ## Contents -/

/-- The types and the values of a predicate. -/
def IndividualObj.contents (obj : IndividualObj) (p : String) :
    Option (List (DataType × Value)) :=
  (obj.resources.lookup p).map (List.map Resource.content)

theorem IndividualObj.WellFormed.lookup_decoded {obj : IndividualObj} (hwf : obj.WellFormed)
    (π : IterOrder String) (p : String) :
    (decoded π obj).resources.lookup p = (obj.resources.lookup p).map (storedFrom 0) := by
  rw [Veda.Onto.lookup_decoded]
  cases hlookup : obj.resources.lookup p with
  | none => rfl
  | some rs => rw [Option.bind_some, if_neg (hwf.filled p rs hlookup), Option.map_some]

/-- **Decoding keeps what is said.** -/
theorem contents_decoded {obj : IndividualObj} (hwf : obj.WellFormed) (π : IterOrder String)
    (p : String) : (decoded π obj).contents p = obj.contents p := by
  rw [IndividualObj.contents, hwf.lookup_decoded, IndividualObj.contents]
  cases hlookup : obj.resources.lookup p with
  | none => rfl
  | some rs =>
    rw [Option.map_some, Option.map_some, Option.map_some, content_storedFrom,
      hwf.writtenOf_eq hlookup]

/-! ## First values -/

/-- The first value of a predicate. -/
def FirstIs (obj : IndividualObj) (p : String) (value : Value) : Prop :=
  ∃ r rs, obj.resources.lookup p = some (r :: rs) ∧ r.value = value

/-- The first value of a predicate is a text or a uri. -/
def FirstLiteral (obj : IndividualObj) (p s : String) : Prop :=
  FirstIs obj p (.uri s) ∨ ∃ lang, FirstIs obj p (.str s lang)

section First

variable {obj : IndividualObj} {p s : String} {value : Value}

theorem FirstIs.decoded (h : FirstIs obj p value) (hwf : obj.WellFormed) (π : IterOrder String) :
    FirstIs (decoded π obj) p value := by
  obtain ⟨r, rs, hlookup, hvalue⟩ := h
  refine ⟨r.stored 0, storedFrom 1 rs, ?_, ?_⟩
  · rw [hwf.lookup_decoded, hlookup]
    rfl
  · rw [← hvalue]
    exact (hwf.typed p _ hlookup r List.mem_cons_self).written_eq

theorem FirstLiteral.decoded (h : FirstLiteral obj p s) (hwf : obj.WellFormed)
    (π : IterOrder String) : FirstLiteral (decoded π obj) p s :=
  h.imp (·.decoded hwf π) fun ⟨lang, hfirst⟩ => ⟨lang, hfirst.decoded hwf π⟩

theorem FirstLiteral.read (h : FirstLiteral obj p s) :
    obj.read .getFirstLiteral p = .ok (some s) := by
  rcases h with ⟨r, rs, hlookup, hvalue⟩ | ⟨lang, r, rs, hlookup, hvalue⟩
  all_goals
    rw [IndividualObj.read, hlookup]
    simp only [Getter.getFirstLiteral, firstValue, hvalue]
    rfl

theorem FirstIs.read_integer {i : Int64} (h : FirstIs obj p (.int i)) :
    obj.read .getFirstInteger p = .ok (some i) := by
  obtain ⟨r, rs, hlookup, hvalue⟩ := h
  rw [IndividualObj.read, hlookup]
  simp only [Getter.getFirstInteger, firstValue, hvalue]
  rfl

theorem FirstIs.read_binobj {data : List UInt8} (h : FirstIs obj p (.binary data)) :
    obj.read .getFirstBinobj p = .ok (some data) := by
  obtain ⟨r, rs, hlookup, hvalue⟩ := h
  rw [IndividualObj.read, hlookup]
  simp only [Getter.getFirstBinobj, firstValue, hvalue]
  rfl

theorem read_of_lookup_none {ρ : Type} (g : Getter ρ) (h : obj.resources.lookup p = none) :
    obj.read g p = .ok g.notFound := by
  rw [IndividualObj.read, h]

end First

/-! ## The bytes of what is decoded -/

theorem writeResource_stored (r : Resource) (n : ℕ) :
    writeResource (r.stored n) = writeResource r := by
  obtain ⟨rtype, value, order⟩ := r
  cases rtype <;> cases value <;> rfl

theorem flatMap_writeResource_storedFrom (rs : List Resource) (n : ℕ) :
    (storedFrom n rs).flatMap writeResource = rs.flatMap writeResource := by
  induction rs generalizing n with
  | nil => rfl
  | cons r rs ih =>
    rw [storedFrom, List.flatMap_cons, List.flatMap_cons, writeResource_stored, ih]

theorem iter_decoded_perm {obj : IndividualObj} (hwf : obj.WellFormed) (π π' : IterOrder String) :
    ((decoded π obj).resources.iter π').Perm
      ((obj.resources.iter π).map fun e => (e.1, storedFrom 0 e.2)) := by
  apply (List.perm_ext_iff_of_nodup _ _).mpr
  · rintro ⟨p, rs⟩
    rw [HashMap.mem_iter, hwf.lookup_decoded, Option.map_eq_some_iff]
    simp only [List.mem_map, Prod.exists, HashMap.mem_iter, Prod.mk.injEq]
    constructor
    · rintro ⟨values, hvalues, rfl⟩
      exact ⟨p, values, hvalues, rfl, rfl⟩
    · rintro ⟨p, values, hvalues, rfl, rfl⟩
      exact ⟨values, hvalues, rfl⟩
  · exact (HashMap.nodup_fst_iter π' _).of_map
  · apply List.Nodup.of_map Prod.fst
    rw [List.map_map]
    exact HashMap.nodup_fst_iter π _

/-- **The bytes of what is decoded** are as many as those it was decoded from. -/
theorem length_toMsgpack_decoded {obj : IndividualObj} (hwf : obj.WellFormed)
    (π π' : IterOrder String) :
    (toMsgpack π' (decoded π obj)).length = (toMsgpack π obj).length := by
  have hperm := iter_decoded_perm hwf π π'
  have hcount : (decoded π obj).resources.keys.length = obj.resources.keys.length := by
    rw [← length_iter π', hperm.length_eq, List.length_map, length_iter]
  have hentry : ∀ e ∈ obj.resources.iter π,
      writePredicate (e.1, storedFrom 0 e.2) = writePredicate e := by
    rintro ⟨p, rs⟩ -
    rw [writePredicate, writePredicate, length_storedFrom, flatMap_writeResource_storedFrom]
  have hbytes : (((decoded π obj).resources.iter π').flatMap writePredicate).length =
      ((obj.resources.iter π).flatMap writePredicate).length := by
    rw [(hperm.flatMap_right writePredicate).length_eq, List.flatMap_map, List.flatMap_congr hentry]
  rw [toMsgpack, toMsgpack, hcount, uri_decoded]
  simp only [List.length_append, hbytes]

/-! ## What is decoded can be stored -/

theorem IndividualObj.AllFit.decoded {obj : IndividualObj} (hfits : obj.AllFit)
    (hwf : obj.WellFormed) (π : IterOrder String) : (Veda.Onto.decoded π obj).AllFit where
  uri := by
    rw [uri_decoded]
    exact hfits.uri
  count := by
    rw [← length_iter π, (iter_decoded_perm hwf π π).length_eq, List.length_map, length_iter]
    exact hfits.count
  entries := fun _ _ hlookup => entryFits_decoded hfits π hlookup

theorem Resource.wellTyped_stored (r : Resource) (n : ℕ) : (r.stored n).WellTyped := by
  obtain ⟨rtype, value, order⟩ := r
  cases rtype <;> trivial

theorem wellTyped_of_mem_storedFrom {r : Resource} {rs : List Resource} {n : ℕ}
    (h : r ∈ storedFrom n rs) : r.WellTyped := by
  induction rs generalizing n with
  | nil => cases h
  | cons r' rs ih =>
    rcases List.mem_cons.mp h with rfl | h
    · exact r'.wellTyped_stored n
    · exact ih h

theorem IndividualObj.WellFormed.decoded {obj : IndividualObj} (hwf : obj.WellFormed)
    (π : IterOrder String) : (Veda.Onto.decoded π obj).WellFormed := by
  constructor
  all_goals
    intro p rs hlookup
    rw [hwf.lookup_decoded, Option.map_eq_some_iff] at hlookup
    obtain ⟨values, hvalues, rfl⟩ := hlookup
  · intro hnil
    apply hwf.filled p values hvalues
    rw [← List.length_eq_zero_iff, ← length_storedFrom 0, hnil]
    rfl
  · exact fun r hr => wellTyped_of_mem_storedFrom hr

/-! ## Values that fit -/

section Fits

variable {obj : IndividualObj} {p s : String}

theorem first_fits {r : Resource} {rs : List Resource}
    (hlookup : obj.resources.lookup p = some (r :: rs)) (hfits : obj.AllFit)
    (hwf : obj.WellFormed) : r.Fits ∧ r.WellTyped :=
  ⟨(hfits.entries p _ hlookup).values r List.mem_cons_self,
    hwf.typed p _ hlookup r List.mem_cons_self⟩

theorem FirstLiteral.fits (h : FirstLiteral obj p s) (hfits : obj.AllFit) (hwf : obj.WellFormed) :
    (utf8 s).length < 4294967296 := by
  rcases h with ⟨r, rs, hlookup, hvalue⟩ | ⟨lang, r, rs, hlookup, hvalue⟩
  all_goals
    obtain ⟨hfit, htyped⟩ := first_fits hlookup hfits hwf
    obtain ⟨rtype, value, order⟩ := r
    obtain rfl : value = _ := hvalue
    cases rtype <;> first | exact hfit | exact htyped.elim

theorem FirstIs.binary_fits {data : List UInt8} (h : FirstIs obj p (.binary data))
    (hfits : obj.AllFit) (hwf : obj.WellFormed) : data.length < 4294967296 := by
  obtain ⟨r, rs, hlookup, hvalue⟩ := h
  obtain ⟨hfit, htyped⟩ := first_fits hlookup hfits hwf
  obtain ⟨rtype, value, order⟩ := r
  obtain rfl : value = _ := hvalue
  cases rtype <;> first | exact hfit | exact htyped.elim

end Fits

/-! ## A value of a new predicate -/

namespace IndividualObj

variable {obj : IndividualObj} {p : String} {rtype : DataType} {value : Value}

theorem resources_addValue_new (h : obj.resources.lookup p = none) :
    (obj.addValue p rtype value).resources =
      obj.resources.insert p [⟨rtype, value, 0⟩] := by
  rw [addValue, h]
  rfl

theorem AllFit.addValue (h : obj.AllFit) (hnew : obj.resources.lookup p = none)
    (hname : (utf8 p).length < 4294967296) (hcount : obj.resources.keys.length + 1 < 4294967296)
    (hvalue : Resource.Fits ⟨rtype, value, 0⟩) : (obj.addValue p rtype value).AllFit where
  uri := h.uri
  count := by
    rw [resources_addValue_new hnew, AList.keys_insert, List.length_cons]
    exact (Nat.add_le_add_right List.length_erase_le 1).trans_lt hcount
  entries := by
    intro q rs hlookup
    rw [resources_addValue_new hnew] at hlookup
    by_cases hq : q = p
    · rw [hq, AList.lookup_insert] at hlookup
      cases hlookup
      rw [hq]
      refine ⟨hname, Nat.one_lt_two_pow (n := 32) (by decide), fun r hr => ?_⟩
      rw [List.mem_singleton] at hr
      exact hr ▸ hvalue
    · rw [AList.lookup_insert_ne hq] at hlookup
      exact h.entries q rs hlookup

theorem WellFormed.addValue (h : obj.WellFormed) (hnew : obj.resources.lookup p = none)
    (hvalue : Resource.WellTyped ⟨rtype, value, 0⟩) : (obj.addValue p rtype value).WellFormed := by
  have hcases : ∀ q rs, (obj.addValue p rtype value).resources.lookup q = some rs →
      rs = [⟨rtype, value, 0⟩] ∨ obj.resources.lookup q = some rs := by
    intro q rs hlookup
    rw [resources_addValue_new hnew] at hlookup
    by_cases hq : q = p
    · rw [hq, AList.lookup_insert] at hlookup
      exact .inl (Option.some.inj hlookup).symm
    · rw [AList.lookup_insert_ne hq] at hlookup
      exact .inr hlookup
  constructor
  · intro q rs hlookup
    rcases hcases q rs hlookup with rfl | hold
    · exact List.cons_ne_nil _ _
    · exact h.filled q rs hold
  · intro q rs hlookup r hr
    rcases hcases q rs hlookup with rfl | hold
    · rw [List.mem_singleton] at hr
      exact hr ▸ hvalue
    · exact h.typed q rs hold r hr

theorem lookup_addValue_ne {q : String} (h : q ≠ p) :
    (obj.addValue p rtype value).resources.lookup q = obj.resources.lookup q := by
  rw [lookup_addValue, if_neg h]

theorem keys_addValue_le :
    (obj.addValue p rtype value).resources.keys.length ≤ obj.resources.keys.length + 1 := by
  show (obj.resources.insert p _).keys.length ≤ _
  rw [AList.keys_insert, List.length_cons]
  exact Nat.add_le_add_right List.length_erase_le 1

end IndividualObj

end Veda.Onto
