import Veda.V8.Common

set_option autoImplicit false

/-!
# The readers of stored values

What is accepted of a JSON document is read again by every module: it is written as JSON, it becomes
an object of a script, and its dates are indexed. Each of these calculates with the numbers that
were accepted.

## Main definitions

* `Xapian.indexDate` — the terms of a date.
* `Xapian.NeverStops` — a document is read, and none of the readers stops at it.
* `Xapian.SafeDocument` — the condition on the values of a document.

## Main results

* `Xapian.neverStops_iff` — when no reader stops.
-/

namespace Veda.Xapian

open Veda.Lib Veda.Onto Veda.V8

/-! ## Dates in the index -/

/-- What is indexed of a date. -/
structure DateTerms where
  slotValue : Int64
  text : List Char
  number : Int64

def indexDate (crates : ChronoDecimal) (oo : Resource) : Except Fault DateTerms :=
  (fun t => ⟨oo.getDatetime, (timeText t).dropLast, oo.getDatetime⟩) <$>
    crates.timestamp oo.getDatetime.toInt

/-! ## The values of a document -/

section Document

variable {crates : ChronoDecimal}

/-- The document is read, and neither the writer of JSON nor the conversion for scripts nor the
index of dates stops at the individual. -/
def NeverStops (crates : ChronoDecimal) (engine : Engine) (src : Json) : Prop :=
  ∀ π : IterOrder (String × Json), ∃ s, parseJsonToIndividualChecked crates π src .empty = .ok s ∧
    (∀ π', Ends (s.2.asJsonChecked crates π')) ∧
    (∀ π', Ends (individual2v8obj engine π' s.2)) ∧
    ∀ p, ∀ rs ∈ s.2.resources.lookup p, ∀ r ∈ rs, r.rtype = .datetime → Ends (indexDate crates r)

/-- The number of a date is a point in time, a text of a date is not moved out of the range of time
by its zone, and a number in floating point has at most 18 digits behind the point. -/
def SafeJson (crates : ChronoDecimal) : Json → Prop
  | .obj members => ∀ vdata ∈ members.lookup "data", ∀ ptype,
      getDatatypeFromJson (members.lookup "type") = .ok ptype →
        SafeRead crates vdata ptype ∧ SafeNumber crates vdata ptype
  | _ => True

/-- All values of a document are safe. -/
def SafeDocument (crates : ChronoDecimal) : Json → Prop
  | .obj members => ∀ m ∈ members, m.1 ≠ "@" → ∀ values, m.2 = .arr values →
      ∀ val ∈ values, SafeJson crates val
  | _ => True

theorem safeReadJson_of_safeJson {val : Json} (h : SafeJson crates val) :
    SafeReadJson crates val := by
  cases val with
  | obj members => exact fun vdata hvdata ptype hptype => (h vdata hvdata ptype hptype).1
  | _ => trivial

theorem safeJson_iff {val : Json} (hread : SafeReadJson crates val) :
    SafeJson crates val ↔
      ∀ c, readJson crates.libraries val = some (some c) → Writable crates c.2 := by
  cases val with
  | obj members =>
    unfold SafeReadJson at hread
    unfold SafeJson readJson
    dsimp only at hread ⊢
    cases hdata : members.lookup "data" with
    | none => exact iff_of_true (fun vdata hvdata => nomatch hvdata) fun c hc => nomatch hc
    | some vdata =>
      dsimp only
      cases htype : getDatatypeFromJson (members.lookup "type") with
      | error e => exact iff_of_true (fun _ _ ptype hptype => nomatch hptype) fun c hc => nomatch hc
      | ok ptype =>
        have hsafe := hread vdata hdata ptype htype
        have hwritable : (∀ c ∈ readValue crates.libraries members vdata ptype,
            Writable crates c.2) ↔ SafeNumber crates vdata ptype := writable_readValue hsafe
        constructor
        · intro h c hc
          exact hwritable.mpr (h vdata rfl ptype rfl).2 c (Option.some.inj hc)
        · rintro h vdata' hvdata ptype' hptype
          obtain rfl := Option.some.inj hvdata
          obtain rfl := Except.ok.inj hptype
          exact ⟨hsafe, hwritable.mp fun c hc => h c (congrArg some hc)⟩
  | _ => exact iff_of_true trivial fun c hc => nomatch hc

theorem forall_values_iff (libs : Libraries) (members : List (String × Json))
    (P : DataType × Value → Prop) :
    (∀ p, ∀ rs ∈ (parseMembers libs members (true, .empty)).2.resources.lookup p,
        ∀ r ∈ rs, P r.content) ↔
      ∀ m ∈ members, m.1 ≠ "@" → ∀ values, m.2 = .arr values →
        ∀ val ∈ values, ∀ c, readJson libs val = some (some c) → P c := by
  have hcontents := contents_parseMembers libs members (true, .empty)
  simp only [IndividualObj.empty, AList.lookup_empty, Option.getD_none, List.map_nil,
    List.nil_append] at hcontents
  rw [IndividualObj.empty]
  constructor
  · intro h m hm hid values hvalues val hval c hc
    have hmem : c ∈ members.flatMap fun m' =>
        if m.1 = m'.1 then memberContents libs m' else [] := by
      refine List.mem_flatMap.mpr ⟨m, hm, ?_⟩
      rw [if_pos rfl, memberContents, if_neg hid, hvalues]
      exact List.mem_filterMap.mpr ⟨val, hval, by rw [hc, Option.join_some]⟩
    rw [← hcontents m.1] at hmem
    obtain ⟨r, hr, rfl⟩ := List.mem_map.mp hmem
    cases hlookup : (parseMembers libs members (true, ⟨"", ∅⟩)).2.resources.lookup m.1 with
    | none =>
      rw [hlookup] at hr
      exact absurd hr List.not_mem_nil
    | some rs =>
      rw [hlookup, Option.getD_some] at hr
      exact h m.1 rs hlookup r hr
  · intro h p rs hrs r hr
    have hmem : r.content ∈ members.flatMap fun m =>
        if p = m.1 then memberContents libs m else [] := by
      rw [← hcontents p, Option.mem_def.mp hrs, Option.getD_some]
      exact List.mem_map_of_mem hr
    obtain ⟨m, hm, hc⟩ := List.mem_flatMap.mp hmem
    split_ifs at hc with hp
    · unfold memberContents at hc
      by_cases hid : m.1 = "@"
      · rw [if_pos hid] at hc
        exact absurd hc List.not_mem_nil
      · rw [if_neg hid] at hc
        cases hvalues : m.2 with
        | arr values =>
          rw [hvalues] at hc
          obtain ⟨val, hval, hread⟩ := List.mem_filterMap.mp hc
          exact h m hm hid values hvalues val hval _ (Option.join_eq_some_iff.mp hread)
        | _ =>
          rw [hvalues] at hc
          exact absurd hc List.not_mem_nil
    · exact absurd hc List.not_mem_nil

theorem ends_valueObject_of_writable {engine : Engine} {value : Value}
    (h : Writable crates value) : Ends (valueObject engine value) := by
  cases value with
  | num m e => exact (ends_map _ _).mpr h
  | datetime i =>
    obtain ⟨hlow, hhigh⟩ := crates.thousandfold
    have hthousand : (1000 : Int64).toInt = 1000 := rfl
    refine (ends_map _ _).mpr ?_
    rw [checkedMul, hthousand, ends_ite]
    have hfirst := h.1
    have hlast := h.2
    omega
  | _ => exact ends_ok _

theorem ends_indexDate_of_writable {r : Resource} (h : Writable crates r.value) :
    Ends (indexDate crates r) := by
  refine (ends_map _ _).mpr ((ends_timestamp _).mpr ?_)
  have hzero : crates.InRange 0 :=
    ⟨crates.years.1.trans (by decide), le_trans (by decide) crates.years.2⟩
  unfold Resource.getDatetime
  cases hvalue : r.value with
  | datetime i =>
    rw [hvalue] at h
    exact h
  | _ => exact hzero

theorem readersEnd_iff (engine : Engine) (obj : IndividualObj) :
    ((∀ π', Ends (obj.asJsonChecked crates π')) ∧ (∀ π', Ends (individual2v8obj engine π' obj)) ∧
        ∀ p, ∀ rs ∈ obj.resources.lookup p, ∀ r ∈ rs, r.rtype = .datetime →
          Ends (indexDate crates r)) ↔
      ∀ p, ∀ rs ∈ obj.resources.lookup p, ∀ r ∈ rs, Writable crates r.content.2 := by
  constructor
  · rintro ⟨hjson, -, -⟩
    exact (ends_asJsonChecked (.stored _) obj).mp (hjson _)
  · intro h
    refine ⟨fun π' => (ends_asJsonChecked π' obj).mpr h, fun π' => ?_, fun p rs hrs r hr _ => ?_⟩
    · exact (ends_individual2v8obj π' obj).mpr fun p rs hrs r hr =>
        ends_valueObject_of_writable (h p rs hrs r hr)
    · exact ends_indexDate_of_writable (h p rs hrs r hr)

theorem parsed_iff (π : IterOrder (String × Json)) (members : List (String × Json)) :
    (∃ s, parseJsonToIndividualChecked crates π (.obj members) .empty = .ok s ∧
        ∀ p, ∀ rs ∈ s.2.resources.lookup p, ∀ r ∈ rs, Writable crates r.content.2) ↔
      SafeDocument crates (.obj members) := by
  constructor
  · rintro ⟨s, hs, hwritable⟩ m hm hid values hvals val hval
    have hm' : m ∈ π.order members := (π.perm members).mem_iff.mpr hm
    have hread := (ends_parseMembersChecked _ _).mp ⟨s, hs⟩ m hm' hid values hvals val hval
    rw [eq_of_parseMembersChecked hs,
      forall_values_iff crates.libraries _ fun c => Writable crates c.2] at hwritable
    exact (safeJson_iff hread).mpr (hwritable m hm' hid values hvals val hval)
  · intro h
    have hsafe : ∀ m ∈ π.order members, SafeReadMember crates m :=
      fun m hm hid values hvals val hval => safeReadJson_of_safeJson
        (h m ((π.perm members).mem_iff.mp hm) hid values hvals val hval)
    obtain ⟨s, hs⟩ := (ends_parseMembersChecked (π.order members) (true, .empty)).mpr hsafe
    refine ⟨s, hs, ?_⟩
    rw [eq_of_parseMembersChecked hs,
      forall_values_iff crates.libraries _ fun c => Writable crates c.2]
    intro m hm hid values hvals val hval
    exact (safeJson_iff (hsafe m hm hid values hvals val hval)).mp
      (h m ((π.perm members).mem_iff.mp hm) hid values hvals val hval)

/-- **No reader stops** at a document exactly when its values are safe.

**Proof sketch.** The reader stops at the texts and the numbers in floating point that are not safe.
Of the values that it accepts the writer of JSON stops at the dates outside of the range of time;
at any other value none of the readers stops. -/
theorem neverStops_iff (crates : ChronoDecimal) (engine : Engine) (src : Json) :
    NeverStops crates engine src ↔ SafeDocument crates src := by
  unfold NeverStops
  simp only [readersEnd_iff]
  cases src with
  | obj members =>
    exact ⟨fun h => (parsed_iff (.stored _) members).mp (h (.stored _)),
      fun h π => (parsed_iff π members).mpr h⟩
  | _ =>
    refine iff_of_true (fun π => ⟨(true, .empty), rfl, fun p rs hrs => ?_⟩) trivial
    exact nomatch hrs

end Document

/-! ## A date after the range of time -/

/-- The range of time from the year -262144 to the year 262143, and no zone. -/
def utcCrates : ChronoDecimal where
  minTime := -8334632851200
  maxTime := 8210298412799
  years := by decide
  thousandfold := by decide
  parseNaive _ := none
  offset _ := .ok none
  otherScale _ := none
  scaleOfF64 _ := none

/-- A document with one date. -/
def dateMembers (t : Int) : List (String × Json) :=
  [("@", .str "d:1"),
    ("v-s:created", .arr [.obj [("data", .int t), ("type", .str "Datetime")]])]

/-- The date `9000000000000` is accepted, and the document cannot be written as JSON. -/
theorem not_neverStops_lateDate :
    ¬ ∀ src : Json, (parseJsonToIndividual utcCrates.libraries (.stored _) src .empty).1 = true →
      NeverStops utcCrates plainEngine src := by
  intro hall
  obtain ⟨s, hs, hjson, -⟩ :=
    hall (.obj (dateMembers 9000000000000)) (by decide +kernel) (.stored _)
  have hlookup : (parseMembers utcCrates.libraries (dateMembers 9000000000000)
      (true, .empty)).2.resources.lookup "v-s:created" =
        some [⟨.datetime, .datetime 9000000000000, 0⟩] := by decide +kernel
  rw [eq_of_parseMembersChecked hs] at hjson
  have hwritable := (ends_asJsonChecked (.stored _) _).mp (hjson (.stored _)) "v-s:created" _
    hlookup _ List.mem_cons_self
  exact absurd hwritable.2 (by decide)

end Veda.Xapian
