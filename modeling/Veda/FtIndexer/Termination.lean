import Mathlib.Data.Finset.Prod
import Veda.FtIndexer.PrepareIndex
import Veda.Onto.Reuse

set_option autoImplicit false

/-!
# The recursion over linked documents

A call for a link under an index leads to calls for the links of the linked document. The schema has
finitely many indexes and the stored individuals have finitely many values, so the recursion returns
if and only if it meets no cycle, and no date that stops it. The depth of the calls is counted in the
source, but nothing is done about it: an index that inherits itself follows a cycle of links forever.

## Main results

* `FtIndexer.Indexer.returns_iff` — when the recursion returns.
* `FtIndexer.not_returns_selfParent` — a document that is its own parent.
-/

namespace Veda.FtIndexer

open Veda.Lib Veda.Onto Veda.Xapian Relation

namespace Indexer

variable {ix : Indexer} {a b : String × Resource}

/-! ## The links that can be met -/

/-- The values of all stored individuals. -/
def allValues (ix : Indexer) : List Resource :=
  ix.individuals.keys.flatMap fun uri =>
    match ix.individuals.lookup uri with
    | none => []
    | some stored => stored.obj.resources.keys.flatMap (storedValues stored.obj)

theorem exists_of_mem_callsAt {π : IterOrder String} {obj : IndividualObj} {k : ℕ}
    {vs : List Visit} (h : b ∈ callsAt π obj k vs) : ∃ p, b.2 ∈ storedValues obj p := by
  induction vs generalizing k with
  | nil => exact absurd h List.not_mem_nil
  | cons v vs ih =>
    cases v with
    | field indexedField => exact ih h
    | property value forProperty =>
      rw [callsAt, List.mem_append, List.mem_map] at h
      rcases h with ⟨link, hlink, rfl⟩ | h
      · unfold linksAt at hlink
        split_ifs at hlink
        · exact ⟨forProperty, hlink⟩
        · exact absurd hlink List.not_mem_nil
      · exact ih h

theorem mem_keys_of_storedValues {obj : IndividualObj} {p : String} {rc : Resource}
    (h : rc ∈ storedValues obj p) : p ∈ obj.resources.keys := by
  have hvalues : obj.valuesOf p ≠ [] := by
    intro hnil
    rw [storedValues, hnil] at h
    exact absurd h List.not_mem_nil
  rw [← ((IterOrder.stored String).perm _).mem_iff]
  exact mem_order_of_valuesOf _ hvalues

theorem mem_allValues_of_calls (h : b ∈ ix.calls a) : b.2 ∈ ix.allValues := by
  unfold calls at h
  cases hvisits : ix.visitsOf a with
  | none =>
    rw [hvisits] at h
    exact absurd h List.not_mem_nil
  | some visited =>
    obtain ⟨π, obj, vs⟩ := visited
    rw [hvisits] at h
    obtain ⟨p, hp⟩ := exists_of_mem_callsAt h
    obtain ⟨idx, -, hmapped⟩ := Option.bind_eq_some_iff.mp hvisits
    obtain ⟨⟨π', obj'⟩, hlinked, heq⟩ := Option.map_eq_some_iff.mp hmapped
    simp only [Prod.mk.injEq] at heq
    obtain ⟨rfl, rfl, rfl⟩ := heq
    unfold linked at hlinked
    split_ifs at hlinked
    obtain ⟨stored, hstored, heq'⟩ := Option.map_eq_some_iff.mp hlinked
    obtain ⟨rfl, rfl⟩ := Prod.mk.inj heq'
    rw [allValues, List.mem_flatMap]
    refine ⟨a.2.getUri, ?_, ?_⟩
    · rw [← AList.mem_keys, ← AList.lookup_isSome, hstored]
      rfl
    · rw [hstored]
      exact List.mem_flatMap.mpr ⟨p, mem_keys_of_storedValues hp, hp⟩

theorem mem_allValues_of_reflTransGen (h : ReflTransGen (Adjacent ix.calls) a b) :
    b.2 ∈ a.2 :: ix.allValues := by
  rcases h.cases_tail with rfl | ⟨c, -, hcb⟩
  · exact List.mem_cons_self
  · exact List.mem_cons_of_mem _ (mem_allValues_of_calls hcb)

theorem mem_keys_of_calls (h : ix.calls a ≠ []) : a.1 ∈ ix.idxSchema.id2Individual.keys := by
  rw [← AList.mem_keys, ← AList.lookup_isSome, Option.isSome_iff_ne_none]
  intro hnone
  rw [calls, visitsOf, hnone] at h
  exact h rfl

/-- **When the recursion returns**: it meets no cycle, and the dates that it indexes are points in
time.

**Proof sketch.** A link is followed under an index of the schema, and it is the first link or a
value of a stored individual; so there are finitely many links with their indexes, and without a
cycle their number bounds the depth. -/
theorem returns_iff (ix : Indexer) (idxId predicate : String) (rs : Resource) (ln : String)
    (iwp : IndexDocWorkplace) :
    (∃ fuel, Ends (ix.prepareIndex fuel idxId predicate rs ln iwp)) ↔
      NoCycle ix.calls (idxId, rs) ∧
        ∀ b, ReflTransGen (Adjacent ix.calls) (idxId, rs) b → ix.DatesFitAt b := by
  simp only [ends_prepareIndex_iff, descends_iff]
  constructor
  · rintro ⟨fuel, hdepth, hdates⟩
    exact ⟨noCycle_of_depth hdepth, hdates⟩
  · rintro ⟨hcycle, hdates⟩
    refine ⟨_, depth_of_noCycle hcycle
      (ix.idxSchema.id2Individual.keys.toFinset ×ˢ (rs :: ix.allValues).toFinset)
      (fun b hb hne => ?_), hdates⟩
    rw [Finset.mem_product, List.mem_toFinset, List.mem_toFinset]
    exact ⟨mem_keys_of_calls hne, mem_allValues_of_reflTransGen hb⟩

end Indexer

/-! ## A document that is its own parent -/

/-- An index with the indexes that it inherits, its property and its fields. -/
def indexOf (uri : String) (inherited forProperties indexedFields : List String) :
    IndividualObj where
  uri := uri
  resources :=
    let entries := [("vdi:inherited_index", inherited), ("vdi:forProperty", forProperties),
      ("vdi:indexed_field", indexedFields)]
    (entries.filter fun e => !e.2.isEmpty).foldl (fun resources e =>
      resources.insert e.1 (e.2.map fun s => ⟨.uri, .uri s, 0⟩)) ∅

/-- A schema with some indexes. -/
def schemaOf (indexes : List IndividualObj) : IndexerSchema :=
  { IndexerSchema.empty with
    id2Individual := indexes.foldl (fun m idx => m.insert idx.uri idx) ∅ }

/-- A document that is its own parent. -/
def selfParent : StoredIndividual where
  obj := ⟨"d:x", AList.insert "d:parent" [⟨.uri, .uri "d:x", 0⟩] ∅⟩
  fits := IndividualObj.allFit_single (by decide) (by decide) (by decide)

/-- The parents of a document are indexed with their labels, and so are the parents of these. -/
def parentIndexer : Indexer where
  idxSchema := schemaOf [indexOf "d:labels" [] [] ["rdfs:label"],
    indexOf "d:parents" ["d:labels", "d:parents"] ["d:parent"] []]
  individuals := (∅ : HashMap String StoredIndividual).insert "d:x" selfParent
  layout _ := .stored String
  cbor := noCbor
  crates := utcCrates

/-- The recursion over the parents of a document does not return when the document is its own
parent. -/
theorem not_returns_selfParent :
    ¬ ∃ fuel, Ends (parentIndexer.prepareIndex fuel "d:parents" "d:parent"
      ⟨.uri, .uri "d:x", 0⟩ "d:parent" ⟨[], [], []⟩) := by
  rintro ⟨fuel, hends⟩
  rw [Indexer.ends_prepareIndex_iff, descends_iff] at hends
  refine not_depth_of_cycle (.single ?_) hends.1
  show _ ∈ parentIndexer.calls _
  decide

end Veda.FtIndexer
