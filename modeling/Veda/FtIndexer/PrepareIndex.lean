import Veda.Lib.Descent
import Veda.Onto.Progress
import Veda.Onto.State
import Veda.Xapian.IndexSchema
import Veda.Xapian.StoredValues

set_option autoImplicit false

/-!
# The fields of linked documents

A document is found by the fields of the documents that it links to. Which fields these are is said
by the index of the property: it inherits other indexes. One that is for a property is used for the
links of this property in the linked document, and otherwise its fields are those of the linked
document. A linked document is read with getters, which decode it as far as they need to; the links
of a property are taken from what is decoded by then.

## Main definitions

* `FtIndexer.Indexer` — the schema and the stored individuals.
* `FtIndexer.Indexer.prepareIndex` — a link under an index.
* `FtIndexer.Indexer.calls` — the links that are followed, each with its index.

## Main results

* `FtIndexer.Indexer.visit_field`, `FtIndexer.Indexer.visit_property` — what is done at a
  linked document.
* `FtIndexer.Indexer.ends_prepareIndex_iff` — when a limited depth is enough.
* `FtIndexer.Indexer.returns_iff` — when there is a depth that is enough.

## Design

The nesting of calls is limited by a number, and a run that needs more stops with `outOfFuel`. The
`level` of the source is passed on and never looked at, so it is left out.
-/

namespace Veda.FtIndexer

open Veda.Lib Veda.Onto Veda.Xapian Relation

/-! ## What is collected -/

/-- The document that is built. -/
structure IndexDocWorkplace where
  /-- the fields with their values -/
  values : List (String × Resource)
  /-- the fields that have values, `isExists` -/
  marks : List String
  /-- the texts for searches that begin with a wildcard -/
  wildcards : List (String × String)

/-- What ends a run before it returns. -/
inductive Stopped
  | outOfFuel
  | panic (p : Panic)
  | fault (f : Fault)

namespace IndexDocWorkplace

def addValue (iwp : IndexDocWorkplace) (predicate : String) (oo : Resource) : IndexDocWorkplace :=
  { iwp with values := iwp.values ++ [(predicate, oo)] }

def indexUri (iwp : IndexDocWorkplace) (predicate : String) (oo : Resource) : IndexDocWorkplace :=
  if oo.getUri = "" then iwp else iwp.addValue predicate oo

def indexString (iwp : IndexDocWorkplace) (predicate : String) (oo : Resource) :
    IndexDocWorkplace :=
  if oo.getStr = "" then iwp else iwp.addValue predicate oo

/-- One value of a field, by its type: `index_uri`, `index_string`, `index_integer`, `index_date`,
`index_double` and `index_boolean`. -/
def indexResource (crates : ChronoDecimal) (predicate : String) (iwp : IndexDocWorkplace)
    (oo : Resource) : Except Stopped IndexDocWorkplace :=
  match oo.rtype with
  | .uri => .ok (iwp.indexUri predicate oo)
  | .string => .ok (iwp.indexString predicate oo)
  | .integer => .ok (iwp.addValue predicate oo)
  | .datetime =>
    match indexDate crates oo with
    | .error f => .error (.fault f)
    | .ok _ => .ok (iwp.addValue predicate oo)
  | .decimal => .ok (iwp.addValue predicate oo)
  | .boolean => .ok (iwp.addValue predicate oo)
  | .binary => .ok iwp

def indexStringForFirstWildcard (iwp : IndexDocWorkplace) (predicate : String) (oo : Resource) :
    IndexDocWorkplace :=
  if oo.getStr = "" then iwp
  else
    { iwp with
      wildcards := iwp.wildcards ++ [(predicate ++ "#F", String.ofList oo.getStr.toList.reverse)] }

/-- The values of a field, and the mark that it has some. -/
def indexField (crates : ChronoDecimal) (predicate : String) (iwp : IndexDocWorkplace)
    (rrc : List Resource) : Except Stopped IndexDocWorkplace := do
  let iwp ← rrc.foldlM (indexResource crates predicate) iwp
  return if rrc.isEmpty then iwp else { iwp with marks := iwp.marks ++ [predicate ++ ".isExists"] }

end IndexDocWorkplace

/-! ## The linked documents -/

/-- A stored individual. -/
structure StoredIndividual where
  obj : IndividualObj
  fits : obj.AllFit

structure Indexer where
  idxSchema : IndexerSchema
  individuals : HashMap String StoredIndividual
  /-- the order of the predicates in the record of an individual -/
  layout : String → IterOrder String
  cbor : CborParser
  crates : ChronoDecimal

/-- What is done at a linked document. -/
inductive Visit
  | field (indexedField : String)
  | property (value forProperty : String)

/-- The things that an index does at a linked document, in their order. -/
def visits (idxSchema : IndexerSchema) (idx : IndividualObj) : List Visit :=
  ((idx.getLiterals "vdi:inherited_index").getD []).flatMap fun value =>
    match idxSchema.id2Individual.lookup value with
    | none => []
    | some inhrIdx =>
      match inhrIdx.getLiterals "vdi:forProperty" with
      | some forProperties => forProperties.map (.property value)
      | none => ((inhrIdx.getLiterals "vdi:indexed_field").getD []).map .field

namespace Indexer

variable (ix : Indexer)

/-- `Module::get_individual`. -/
def getIndividual (uri : String) : Option Individual :=
  if uri = "" then none
  else
    match ix.individuals.lookup uri with
    | none => none
    | some stored =>
      match (recordOf (ix.layout uri) stored.obj).parseRaw ix.cbor with
      | (.ok _, iraw) => some iraw
      | (.error _, _) => none

/-- One of these things; `recurse` is the call for a link. -/
def visit (recurse : String → String → Resource → String → IndexDocWorkplace →
    Except Stopped IndexDocWorkplace) (ln : String) (s : IndexDocWorkplace × Individual) :
    Visit → Except Stopped (IndexDocWorkplace × Individual)
  | .field indexedField =>
    match s.2.get ix.cbor .getFirstLiteral indexedField with
    | (.error p, _) => .error (.panic p)
    | (.ok _, innerIndv) =>
      match innerIndv.obj.resources.lookup indexedField with
      | none => .ok (s.1, innerIndv)
      | some rrc =>
        (·, innerIndv) <$> s.1.indexField ix.crates (ln ++ "." ++ indexedField) rrc
  | .property value forProperty =>
    match s.2.obj.resources.lookup forProperty with
    | none => .ok s
    | some links =>
      (·, s.2) <$> links.foldlM (fun iwp link =>
        recurse value "vdi:inherited_index" link (ln ++ "." ++ forProperty) iwp) s.1

def prepareIndex : ℕ → String → String → Resource → String → IndexDocWorkplace →
    Except Stopped IndexDocWorkplace
  | 0, _, _, _, _, _ => .error .outOfFuel
  | fuel + 1, idxId, predicate, rs, ln, iwp =>
    match ix.idxSchema.id2Individual.lookup idxId with
    | none => .ok iwp
    | some idx =>
      if rs.rtype = .string then
        if (idx.getLiterals "vdi:indexed_field_as_fwildcard").isSome then
          .ok (iwp.indexStringForFirstWildcard predicate rs)
        else .ok iwp
      else if rs.rtype = .uri then
        match ix.getIndividual rs.getUri with
        | none => .ok iwp
        | some innerIndv =>
          Prod.fst <$> (visits ix.idxSchema idx).foldlM (ix.visit (prepareIndex fuel) ln)
            (iwp, innerIndv)
      else .ok iwp

end Indexer

/-! ## Fields -/

section Fields

variable {crates : ChronoDecimal}

theorem ends_indexResource (predicate : String) (iwp : IndexDocWorkplace) (oo : Resource) :
    Ends (iwp.indexResource crates predicate oo) ↔
      (oo.rtype = .datetime → crates.InRange oo.getDatetime.toInt) := by
  rw [← ends_timestamp]
  unfold IndexDocWorkplace.indexResource
  cases htype : oo.rtype with
  | datetime =>
    unfold indexDate
    cases crates.timestamp oo.getDatetime.toInt with
    | error f => exact iff_of_false (not_ends_error _) fun h => not_ends_error f (h rfl)
    | ok t => exact iff_of_true (ends_ok _) fun _ => ends_ok t
  | _ => exact iff_of_true (ends_ok _) fun h => nomatch h

theorem ends_indexField (predicate : String) (iwp : IndexDocWorkplace) (rrc : List Resource) :
    Ends (iwp.indexField crates predicate rrc) ↔
      ∀ rc ∈ rrc, rc.rtype = .datetime → crates.InRange rc.getDatetime.toInt := by
  rw [← ends_foldlM (fun iwp oo => ends_indexResource predicate iwp oo) rrc iwp]
  unfold IndexDocWorkplace.indexField
  rw [ends_bind]
  exact ⟨fun ⟨iwp', h, _⟩ => ⟨iwp', h⟩, fun ⟨iwp', h⟩ => ⟨iwp', h, ends_ok _⟩⟩

end Fields

/-! ## The links that are followed -/

/-- The values of a predicate as they are decoded. -/
def storedValues (obj : IndividualObj) (p : String) : List Resource :=
  storedFrom 0 (obj.valuesOf p)

/-- The links of a property when the first `k` predicates of the record are decoded. -/
def linksAt (π : IterOrder String) (obj : IndividualObj) (k : ℕ) (p : String) : List Resource :=
  if (π.order obj.resources.keys).idxOf p < k then storedValues obj p else []

/-- The links that are followed at a linked document, each with its index. Each field is read up to
the place where it stands in the record. -/
def callsAt (π : IterOrder String) (obj : IndividualObj) :
    ℕ → List Visit → List (String × Resource)
  | _, [] => []
  | k, .field indexedField :: vs => callsAt π obj (max k (decodedBy π obj indexedField)) vs
  | k, .property value forProperty :: vs =>
    (linksAt π obj k forProperty).map (value, ·) ++ callsAt π obj k vs

namespace Indexer

variable (ix : Indexer)

/-- The document that a link leads to, and the order of the predicates in its record. -/
def linked (rs : Resource) : Option (IterOrder String × IndividualObj) :=
  if rs.rtype = .uri ∧ rs.getUri ≠ "" then
    (ix.individuals.lookup rs.getUri).map fun stored => (ix.layout rs.getUri, stored.obj)
  else none

/-- The things that are done for a link under an index, and the document they are done at. -/
def visitsOf (a : String × Resource) : Option (IterOrder String × IndividualObj × List Visit) :=
  (ix.idxSchema.id2Individual.lookup a.1).bind fun idx =>
    (ix.linked a.2).map fun (π, obj) => (π, obj, visits ix.idxSchema idx)

/-- The links that are followed for a link under an index. -/
def calls (a : String × Resource) : List (String × Resource) :=
  match ix.visitsOf a with
  | none => []
  | some (π, obj, vs) => callsAt π obj 0 vs

/-- A value is no text under an index for searches with a wildcard. -/
def NoWildcard (idxId : String) (rs : Resource) : Prop :=
  ∀ idx, ix.idxSchema.id2Individual.lookup idxId = some idx → rs.rtype = .string →
    (idx.getLiterals "vdi:indexed_field_as_fwildcard").isSome → rs.getStr = ""

/-- The dates in the fields of a document are points in time. -/
def DatesFit (obj : IndividualObj) (indexedField : String) : Prop :=
  ∀ rc ∈ storedValues obj indexedField, rc.rtype = .datetime →
    ix.crates.InRange rc.getDatetime.toInt

/-- The dates that are indexed for a link are points in time. -/
def DatesFitAt (a : String × Resource) : Prop :=
  ∀ π obj vs, ix.visitsOf a = some (π, obj, vs) →
    ∀ indexedField, Visit.field indexedField ∈ vs → ix.DatesFit obj indexedField

/-! ## What is done at a linked document -/

section Visits

variable {ix} {π : IterOrder String} {obj : IndividualObj} {k : ℕ} {iwp : IndexDocWorkplace}
  {innerIndv : Individual}
  {recurse : String → String → Resource → String → IndexDocWorkplace →
    Except Stopped IndexDocWorkplace}

theorem read_getFirstLiteral (π : IterOrder String) (obj : IndividualObj) (p : String) :
    ∃ answer, (decoded π obj).read .getFirstLiteral p = .ok answer := by
  rw [IndividualObj.read]
  by_cases hvalues : obj.valuesOf p = []
  · rw [lookup_decoded_eq_none.mpr hvalues]
    exact ⟨_, rfl⟩
  · obtain ⟨r, rs, hrs⟩ := List.exists_cons_of_ne_nil hvalues
    rw [lookup_decoded_of_valuesOf hvalues, hrs, storedFrom]
    obtain ⟨answer, hanswer⟩ := Getter.Answers.getFirstLiteral (r.stored 0) (storedFrom (0 + 1) rs)
    dsimp only
    rw [hanswer]
    exact ⟨_, rfl⟩

theorem lookup_of_openedTo (h : OpenedTo π obj k innerIndv) (p : String) :
    (innerIndv.obj.resources.lookup p).getD [] = linksAt π obj k p := by
  rw [h.lookup, linksAt, storedValues]
  split_ifs
  · by_cases hvalues : obj.valuesOf p = []
    · rw [lookup_decoded_eq_none.mpr hvalues, hvalues]
      rfl
    · rw [lookup_decoded_of_valuesOf hvalues, Option.getD_some]
  · rfl

variable (ix recurse) in
/-- **A field** of a linked document: all of its values, however far the document is decoded. -/
theorem visit_field (h : OpenedTo π obj k innerIndv) (hfits : obj.AllFit) (ln : String)
    (iwp : IndexDocWorkplace) (indexedField : String) :
    ∃ innerIndv', OpenedTo π obj (max k (decodedBy π obj indexedField)) innerIndv' ∧
      ix.visit recurse ln (iwp, innerIndv) (.field indexedField) =
        (·, innerIndv') <$> iwp.indexField ix.crates (ln ++ "." ++ indexedField)
          (storedValues obj indexedField) := by
  have hopened := h.get hfits ix.cbor .getFirstLiteral indexedField
  obtain ⟨answer, hanswer⟩ := read_getFirstLiteral π obj indexedField
  obtain ⟨innerIndv', hget, -⟩ := h.opened.get hfits ix.cbor .getFirstLiteral indexedField
  rw [hanswer] at hget
  rw [hget] at hopened
  refine ⟨innerIndv', hopened, ?_⟩
  rw [visit]
  dsimp only
  rw [hget]
  dsimp only
  have hlookup := hopened.lookup indexedField
  by_cases hvalues : obj.valuesOf indexedField = []
  · rw [lookup_decoded_eq_none.mpr hvalues, ite_self] at hlookup
    rw [hlookup, storedValues, hvalues]
    rfl
  · rw [lookup_decoded_of_valuesOf hvalues, decodedBy, if_neg hvalues, if_pos (by omega)] at hlookup
    rw [hlookup]
    rfl

/-- **A property** of a linked document: those of its links that are decoded. -/
theorem visit_property (h : OpenedTo π obj k innerIndv) (ln : String) (iwp : IndexDocWorkplace)
    (value forProperty : String) :
    ix.visit recurse ln (iwp, innerIndv) (.property value forProperty) =
      (·, innerIndv) <$> (linksAt π obj k forProperty).foldlM (fun iwp link =>
        recurse value "vdi:inherited_index" link (ln ++ "." ++ forProperty) iwp) iwp := by
  rw [← lookup_of_openedTo h, visit]
  dsimp only
  cases innerIndv.obj.resources.lookup forProperty with
  | none => rfl
  | some links => rfl

theorem ends_visits (h : OpenedTo π obj k innerIndv) (hfits : obj.AllFit)
    {P : String × Resource → Prop}
    (hrecurse : ∀ value predicate link ln iwp,
      Ends (recurse value predicate link ln iwp) ↔ P (value, link))
    (ln : String) (iwp : IndexDocWorkplace) (vs : List Visit) :
    Ends (vs.foldlM (ix.visit recurse ln) (iwp, innerIndv)) ↔
      (∀ indexedField, Visit.field indexedField ∈ vs → ix.DatesFit obj indexedField) ∧
        ∀ b ∈ callsAt π obj k vs, P b := by
  induction vs generalizing k innerIndv iwp with
  | nil => exact iff_of_true (ends_ok _) ⟨fun _ hf => (nomatch hf), fun _ hb => (nomatch hb)⟩
  | cons v vs ih =>
    rw [List.foldlM_cons]
    cases v with
    | field indexedField =>
      obtain ⟨innerIndv', hopened, hvisit⟩ := visit_field ix recurse h hfits ln iwp
        indexedField
      rw [hvisit, callsAt, ends_map_bind (fun iwp' => ih hopened iwp'), ends_indexField, ← and_assoc]
      refine and_congr_left fun _ => ?_
      simp [DatesFit]
    | property value forProperty =>
      rw [visit_property h, callsAt, ends_map_bind (fun iwp' => ih h iwp'),
        ends_foldlM fun iwp link => hrecurse value _ link _ iwp, List.forall_mem_append,
        List.forall_mem_map, and_left_comm]
      refine and_congr_left fun _ => ?_
      simp

theorem getIndividual_of_linked {rs : Resource} (h : ix.linked rs = some (π, obj)) :
    ∃ innerIndv, ix.getIndividual rs.getUri = some innerIndv ∧ OpenedTo π obj 0 innerIndv ∧
      obj.AllFit := by
  unfold linked at h
  split_ifs at h with hlinked
  obtain ⟨stored, hstored, heq⟩ := Option.map_eq_some_iff.mp h
  obtain ⟨rfl, rfl⟩ := Prod.mk.inj heq
  obtain ⟨start, hstart, hopened⟩ :=
    openedTo_of_parseRaw stored.fits ix.cbor (ix.layout rs.getUri)
  refine ⟨start, ?_, hopened, stored.fits⟩
  rw [getIndividual, if_neg hlinked.2, hstored]
  dsimp only
  rw [hstart]

theorem getIndividual_of_linked_none {rs : Resource} (htype : rs.rtype = .uri)
    (h : ix.linked rs = none) : ix.getIndividual rs.getUri = none := by
  rw [getIndividual]
  split_ifs with huri
  · rfl
  · rw [linked, if_pos ⟨htype, huri⟩, Option.map_eq_none_iff] at h
    rw [h]

end Visits

/-! ## The calls -/

section Calls

variable {ix} {π : IterOrder String} {obj : IndividualObj} {vs : List Visit} {fuel : ℕ}
  {idxId predicate ln : String} {rs : Resource} {iwp : IndexDocWorkplace}

theorem prepareIndex_of_visitsOf (h : ix.visitsOf (idxId, rs) = some (π, obj, vs)) (fuel : ℕ)
    (predicate ln : String) (iwp : IndexDocWorkplace) :
    ∃ innerIndv, OpenedTo π obj 0 innerIndv ∧ obj.AllFit ∧
      ix.prepareIndex (fuel + 1) idxId predicate rs ln iwp =
        Prod.fst <$> vs.foldlM (ix.visit (ix.prepareIndex fuel) ln) (iwp, innerIndv) := by
  obtain ⟨idx, hidx, hmapped⟩ := Option.bind_eq_some_iff.mp h
  obtain ⟨⟨π', obj'⟩, hlinked, heq⟩ := Option.map_eq_some_iff.mp hmapped
  simp only [Prod.mk.injEq] at heq
  obtain ⟨rfl, rfl, rfl⟩ := heq
  obtain ⟨innerIndv, hget, hopened, hfits⟩ := getIndividual_of_linked hlinked
  have htype : rs.rtype = .uri := by
    unfold linked at hlinked
    split_ifs at hlinked with huri
    exact huri.1
  refine ⟨innerIndv, hopened, hfits, ?_⟩
  rw [prepareIndex, hidx]
  dsimp only
  rw [htype, if_neg (by decide), if_pos rfl, hget]

theorem prepareIndex_of_visitsOf_none (h : ix.visitsOf (idxId, rs) = none) (fuel : ℕ)
    (predicate ln : String) (iwp : IndexDocWorkplace) :
    ∃ texts, ix.prepareIndex (fuel + 1) idxId predicate rs ln iwp =
        .ok { iwp with wildcards := iwp.wildcards ++ texts } ∧
      (texts = [] ↔ ix.NoWildcard idxId rs) := by
  have hnothing : IndexDocWorkplace.mk iwp.values iwp.marks (iwp.wildcards ++ []) = iwp := by
    rw [List.append_nil]
  rw [prepareIndex]
  cases hidx : ix.idxSchema.id2Individual.lookup idxId with
  | none =>
    refine ⟨[], congrArg Except.ok hnothing.symm, iff_of_true rfl fun idx h' => ?_⟩
    rw [hidx] at h'
    cases h'
  | some idx =>
    rw [visitsOf, hidx, Option.bind_some, Option.map_eq_none_iff] at h
    unfold IndexDocWorkplace.indexStringForFirstWildcard
    dsimp only
    have hnone : ¬ (rs.rtype = .string ∧ (idx.getLiterals "vdi:indexed_field_as_fwildcard").isSome ∧
        rs.getStr ≠ "") → ix.NoWildcard idxId rs := by
      intro hno idx' hidx' hstring hwildcard
      rw [hidx, Option.some.injEq] at hidx'
      subst hidx'
      by_contra hne
      exact hno ⟨hstring, hwildcard, hne⟩
    split_ifs with hstring hwildcard hempty huri
    · exact ⟨[], congrArg Except.ok hnothing.symm, iff_of_true rfl (hnone fun h' => h'.2.2 hempty)⟩
    · exact ⟨_, rfl, iff_of_false (List.cons_ne_nil _ _)
        fun hno => hempty (hno idx hidx hstring hwildcard)⟩
    · exact ⟨[], congrArg Except.ok hnothing.symm,
        iff_of_true rfl (hnone fun h' => hwildcard h'.2.1)⟩
    · rw [getIndividual_of_linked_none huri h]
      exact ⟨[], congrArg Except.ok hnothing.symm,
        iff_of_true rfl (hnone fun h' => hstring h'.1)⟩
    · exact ⟨[], congrArg Except.ok hnothing.symm,
        iff_of_true rfl (hnone fun h' => hstring h'.1)⟩

/-- **A limited depth is enough** when the calls descend to it and meet no date that is not a point
in time.

**Proof sketch.** Induction on the depth: what is done at a linked document ends well when its dates
fit and the calls for its links do. -/
theorem ends_prepareIndex_iff (ix : Indexer) (fuel : ℕ) (idxId predicate : String) (rs : Resource)
    (ln : String) (iwp : IndexDocWorkplace) :
    Ends (ix.prepareIndex fuel idxId predicate rs ln iwp) ↔
      Descends ix.calls ix.DatesFitAt fuel (idxId, rs) := by
  induction fuel generalizing idxId predicate rs ln iwp with
  | zero => exact iff_of_false (not_ends_error _) id
  | succ fuel ih =>
    cases hvisits : ix.visitsOf (idxId, rs) with
    | none =>
      obtain ⟨texts, heq, -⟩ := prepareIndex_of_visitsOf_none hvisits fuel predicate ln iwp
      refine iff_of_true ⟨_, heq⟩ ⟨?_, fun b hb => ?_⟩
      · intro π obj vs h
        rw [hvisits] at h
        cases h
      · rw [calls, hvisits] at hb
        exact absurd hb List.not_mem_nil
    | some visited =>
      obtain ⟨π, obj, vs⟩ := visited
      obtain ⟨innerIndv, hopened, hfits, heq⟩ :=
        prepareIndex_of_visitsOf hvisits fuel predicate ln iwp
      rw [heq, ends_map, ends_visits hopened hfits (P := fun b =>
        Descends ix.calls ix.DatesFitAt fuel b) (fun value predicate link ln iwp =>
          ih value predicate link ln iwp)]
      refine and_congr ?_ ?_
      · constructor
        · intro h π' obj' vs' hvisits'
          rw [hvisits, Option.some.injEq, Prod.mk.injEq, Prod.mk.injEq] at hvisits'
          obtain ⟨rfl, rfl, rfl⟩ := hvisits'
          exact h
        · exact fun h => h π obj vs hvisits
      · rw [calls, hvisits]

end Calls

end Indexer

end Veda.FtIndexer
