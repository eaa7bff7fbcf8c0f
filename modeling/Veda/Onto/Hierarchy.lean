import Veda.Lib.Collect
import Veda.Lib.HashMap
import Veda.Onto.Individual

set_option autoImplicit false
set_option linter.dupNamespace false

/-!
# The hierarchy of classes and properties

The individuals of the ontology are put into one map: under the name of an element it has the names
that the element is below of (`Super`) and those that are below of it (`Sub`). A pair of names has
one entry, so the last individual that relates the two decides which way it points. Behind the
individuals, everything that can be reached over `Sub` entries is put into the map as well.

## Main definitions

* `Onto.Onto` — the map, with `update`, `getSubs`, `updateSubs` and `isSomeEntered`.
* `Onto.loadOnto` — the individuals of the ontology are loaded.
* `Onto.AnswersMatch` — the answers are the elements that can be reached.
* `Onto.LoadFits` — the condition on a load.

## Main results

* `Onto.Onto.collects_subs_supers` — `get_subs` and `get_supers` end, and are exact.
* `Onto.isSub_closeSubs` — what is put into the map behind the individuals.
* `Onto.isSub_update` — what one individual puts into the map.
* `Onto.answersMatch_iff` — when the answers are right.

## Design

The individuals are given decoded, in the order in which they are loaded; an individual that cannot
be read from the storage is not among them. The getter of the type panics on an empty list of
values, and the load with it.
-/

namespace Veda.Onto

open Veda.Lib Relation

inductive RelType
  | sub | super
  deriving DecidableEq, Repr

structure Onto where
  relations : HashMap String (HashMap String RelType)
  prefixes : HashMap String String
  deriving DecidableEq

/-- The texts of the values of a predicate (`get_literals` of a decoded individual). -/
def IndividualObj.getLiterals (obj : IndividualObj) (predicate : String) : Option (List String) :=
  (obj.resources.lookup predicate).map fun v => v.map fun el => literalOf el.value

/-- The types of an individual that is an element of the ontology. -/
def elementTypes : List String :=
  ["owl:Class", "rdfs:Class", "rdf:Property", "rdfs:Datatype", "owl:ObjectProperty",
    "owl:DatatypeProperty"]

/-- The elements that an element with a given type is below of. -/
def superNames (vtype : String) (indv : IndividualObj) : List String :=
  if vtype = "owl:Class" ∨ vtype = "rdfs:Class" then
    (indv.getLiterals "rdfs:subClassOf").getD []
  else if vtype = "rdf:Property" ∨ vtype = "owl:ObjectProperty" ∨ vtype = "owl:DatatypeProperty" then
    (indv.getLiterals "rdfs:subPropertyOf").getD []
  else []

namespace Onto

/-- `Onto::default`. -/
def empty : Onto := ⟨∅, ∅⟩

/-- `relations.entry(el).or_default()`. -/
def entry (onto : Onto) (el : String) : Onto :=
  { onto with relations := onto.relations.insert el ((onto.relations.lookup el).getD ∅) }

/-- Set the entry of a pair of names. -/
def relate (onto : Onto) (el x : String) (t : RelType) : Onto :=
  { onto with
    relations := onto.relations.insert el (((onto.relations.lookup el).getD ∅).insert x t) }

/-- An individual is put into the map. -/
def update (onto : Onto) (indv : IndividualObj) : Except Panic Onto := do
  match ← indv.read .getFirstLiteral "rdf:type" with
  | none => return onto
  | some vtype =>
    if vtype ∈ elementTypes then
      let subs := superNames vtype indv
      let onto := onto.entry indv.uri
      let onto := subs.foldl (fun onto sub => onto.relate indv.uri sub .super) onto
      return subs.foldl (fun onto sub => onto.relate sub indv.uri .sub) onto
    else if vtype = "owl:Ontology" then
      match ← indv.read .getFirstLiteral "v-s:fullUrl" with
      | some fullUrl => return { onto with prefixes := onto.prefixes.insert indv.uri fullUrl }
      | none => return onto
    else return onto

/-- The entry of a pair of names. -/
def rel (onto : Onto) (el x : String) : Option RelType :=
  (onto.relations.lookup el).bind fun related => related.lookup x

def isSomeEntered (onto : Onto) (el : String) (subs : List String) : Bool :=
  subs.any fun sub => onto.rel sub el = some .sub

/-- The names with entries of one kind under an element, as they are visited. -/
def relatedBy (π : IterOrder String) (onto : Onto) (t : RelType) (el : String) : List String :=
  match onto.relations.lookup el with
  | none => []
  | some related => (related.iter π).filterMap fun e => if e.2 = t then some e.1 else none

/-- The names with `Sub` entries under an element, as they are visited. -/
def subsOf (π : IterOrder String) (onto : Onto) (el : String) : List String :=
  match onto.relations.lookup el with
  | none => []
  | some related => (related.iter π).filterMap fun e => if e.2 = .sub then some e.1 else none

/-- The names in the map. -/
def names (onto : Onto) : Finset String :=
  (onto.relations.entries.flatMap fun e => e.2.keys).toFinset

/-- `get_subs`: the calls are nested as deeply as there are names. -/
def getSubs (π : IterOrder String) (onto : Onto) (el : String) (collector : List String) :
    List String :=
  (collect (onto.subsOf π) (onto.names.card + 1) el collector).getD []

/-- `get_subs`, if its calls are not nested more deeply than `n`. -/
def getSubsWithin (π : IterOrder String) (onto : Onto) (n : ℕ) (el : String)
    (collector : List String) : Option (List String) :=
  collect (onto.relatedBy π .sub) n el collector

/-- `get_supers`, if its calls are not nested more deeply than `n`. -/
def getSupersWithin (π : IterOrder String) (onto : Onto) (n : ℕ) (el : String)
    (collector : List String) : Option (List String) :=
  collect (onto.relatedBy π .super) n el collector

def updateSubs (onto : Onto) (el : String) (subs : List String) : Onto :=
  if el ∈ onto.relations then subs.foldl (fun onto sub => onto.relate el sub .sub) onto else onto

/-- Everything that can be reached from an element is put into the map. -/
def closeSubs (π : IterOrder String) (onto : Onto) (el : String) : Onto :=
  let buf := onto.getSubs π el []
  if buf.isEmpty then onto else onto.updateSubs el buf

end Onto

def loadOnto (π : IterOrder String) (indvs : List IndividualObj) (onto : Onto) :
    Except Panic Onto := do
  let onto ← indvs.foldlM Onto.update onto
  return (π.order onto.relations.keys).foldl (Onto.closeSubs π) onto

/-! ## The ontology -/

/-- The elements that an individual is below of. -/
def IndividualObj.supers (indv : IndividualObj) : List String :=
  match indv.read .getFirstLiteral "rdf:type" with
  | .ok (some vtype) => superNames vtype indv
  | _ => []

/-- An individual says that `el` is below of `c`. -/
def SubOf (indvs : List IndividualObj) (c el : String) : Prop :=
  ∃ indv ∈ indvs, indv.uri = el ∧ c ∈ indv.supers

/-- The answers are the elements that can be reached over the individuals. -/
def AnswersMatch (onto : Onto) (indvs : List IndividualObj) : Prop :=
  ∀ el c, onto.isSomeEntered el [c] = true ↔ TransGen (SubOf indvs) c el

/-- An individual relates two names, one way or the other. -/
def IndividualObj.Relates (indv : IndividualObj) (c el : String) : Prop :=
  (indv.uri = el ∧ c ∈ indv.supers) ∨ (indv.uri = c ∧ el ∈ indv.supers)

instance (indv : IndividualObj) (c el : String) : Decidable (indv.Relates c el) :=
  inferInstanceAs (Decidable (_ ∨ _))

/-- An entry of one kind. -/
def Onto.Related (onto : Onto) (t : RelType) (a b : String) : Prop := onto.rel a b = some t

/-- A `Sub` entry. -/
def Onto.IsSub (onto : Onto) (c el : String) : Prop := onto.rel c el = some .sub

/-- The last individual that relates two names says that `el` is below of `c`; when there is none,
this was so before the load. -/
def Kept (onto : Onto) (indvs : List IndividualObj) (c el : String) : Prop :=
  match indvs.reverse.find? fun indv => indv.Relates c el with
  | some indv => indv.uri = el ∧ c ∈ indv.supers
  | none => onto.IsSub c el

/-- The condition on a load: what is left of earlier loads for two names that no individual relates
can be reached over the individuals, and where a later individual says the opposite of an earlier
one, there is another way from the one name to the other. -/
structure LoadFits (onto : Onto) (indvs : List IndividualObj) : Prop where
  old : ∀ c el, onto.IsSub c el → (∀ indv ∈ indvs, ¬ indv.Relates c el) →
    TransGen (SubOf indvs) c el
  opposite : ∀ c el, SubOf indvs c el → ¬ Kept onto indvs c el →
    TransGen (Kept onto indvs) c el

/-! ## Entries -/

namespace Onto

variable {onto onto' : Onto} {el x c : String} {t : RelType} {indv : IndividualObj}

@[simp] theorem rel_entry (onto : Onto) (el c x : String) :
    (onto.entry el).rel c x = onto.rel c x := by
  unfold rel entry
  by_cases h : c = el
  · subst h
    dsimp only
    rw [AList.lookup_insert]
    cases onto.relations.lookup c with
    | none => exact AList.lookup_empty x
    | some related => rfl
  · dsimp only
    rw [AList.lookup_insert_ne h]

theorem rel_relate (onto : Onto) (el x : String) (t : RelType) (c y : String) :
    (onto.relate el x t).rel c y = if c = el ∧ y = x then some t else onto.rel c y := by
  unfold rel relate
  dsimp only
  by_cases h : c = el
  · subst h
    rw [AList.lookup_insert, Option.bind_some]
    by_cases hy : y = x
    · rw [if_pos ⟨rfl, hy⟩, hy, AList.lookup_insert]
    · rw [if_neg fun h => hy h.2, AList.lookup_insert_ne hy]
      cases onto.relations.lookup c with
      | none => exact AList.lookup_empty y
      | some related => rfl
  · rw [if_neg fun hc => h hc.1, AList.lookup_insert_ne h]

theorem rel_foldl_relate (onto : Onto) (el : String) (xs : List String) (t : RelType)
    (c y : String) :
    (xs.foldl (fun onto x => onto.relate el x t) onto).rel c y =
      if c = el ∧ y ∈ xs then some t else onto.rel c y := by
  induction xs generalizing onto with
  | nil => simp
  | cons x xs ih =>
    rw [List.foldl_cons, ih, rel_relate]
    by_cases hc : c = el <;> by_cases hxs : y ∈ xs <;> by_cases hx : y = x <;>
      simp [hc, hxs, hx]

theorem rel_foldl_relate_under (onto : Onto) (el : String) (xs : List String) (t : RelType)
    (c y : String) :
    (xs.foldl (fun onto x => onto.relate x el t) onto).rel c y =
      if y = el ∧ c ∈ xs then some t else onto.rel c y := by
  induction xs generalizing onto with
  | nil => simp
  | cons x xs ih =>
    rw [List.foldl_cons, ih, rel_relate]
    by_cases hy : y = el <;> by_cases hxs : c ∈ xs <;> by_cases hx : c = x <;>
      simp [hy, hxs, hx]

/-! ## Collections -/

theorem mem_relatedBy (π : IterOrder String) :
    x ∈ onto.relatedBy π t el ↔ onto.Related t el x := by
  unfold relatedBy Related rel
  cases onto.relations.lookup el with
  | none => simp
  | some related =>
    rw [Option.bind_some]
    constructor
    · intro h
      obtain ⟨⟨k, t'⟩, hmem, heq⟩ := List.mem_filterMap.mp h
      split_ifs at heq with ht
      obtain rfl := Option.some.inj heq
      obtain rfl : t' = t := ht
      exact (HashMap.mem_iter π related _ _).mp hmem
    · intro h
      exact List.mem_filterMap.mpr
        ⟨(x, t), (HashMap.mem_iter π related _ _).mpr h, if_pos rfl⟩

theorem mem_names_of_related (h : onto.Related t el x) : x ∈ onto.names := by
  obtain ⟨related, hrelated, hx⟩ := Option.bind_eq_some_iff.mp h
  refine List.mem_toFinset.mpr (List.mem_flatMap.mpr
    ⟨⟨el, related⟩, AList.mem_lookup_iff.mp hrelated, ?_⟩)
  exact AList.mem_keys.mp (AList.lookup_isSome.mp (Option.isSome_of_eq_some hx))

/-- **A collection over entries of one kind** is the same for every bound that is not smaller than
the number of names, and holds what can be reached. -/
theorem collects_relatedBy (π : IterOrder String) (onto : Onto) (t : RelType) (el : String) :
    ∃ c, (∀ n, onto.names.card < n → collect (onto.relatedBy π t) n el [] = some c) ∧
      ∀ x, x ∈ c ↔ TransGen (onto.Related t) el x := by
  have hadjacent : Adjacent (onto.relatedBy π t) = onto.Related t := by
    funext a b
    exact propext (mem_relatedBy π)
  have hnames : ∀ y, ∀ x ∈ onto.relatedBy π t y, x ∈ onto.names :=
    fun y x hx => mem_names_of_related ((mem_relatedBy π).mp hx)
  obtain ⟨c, hc⟩ : ∃ c, collect (onto.relatedBy π t) (onto.names.card + 1) el [] = some c :=
    collect_isSome hnames (Nat.lt_succ_of_le (Finset.card_le_card Finset.sdiff_subset))
  refine ⟨c, fun n hn => collect_mono hc hn, fun x => ?_⟩
  rw [mem_collect_nil hc, hadjacent]

/-- **Both functions are exact**: on every map and from every name, visited in any order, with an
empty collector, the calls end, however deeply they may be nested beyond the number of names, and
leave the names that can be reached over one or more entries of their kind.

**Proof sketch.** Each call adds at least one name before it goes deeper, so the calls are nested at
most as deeply as there are names (`collect_isSome`). What was collected is closed under the entries
of the elements that were treated, and every element that was collected has been treated
(`Collects`). -/
theorem collects_subs_supers (π : IterOrder String) (onto : Onto) (el : String) :
    (∃ subs, (∀ n, onto.names.card < n → onto.getSubsWithin π n el [] = some subs) ∧
      ∀ x, x ∈ subs ↔ TransGen (onto.Related .sub) el x) ∧
    ∃ supers, (∀ n, onto.names.card < n → onto.getSupersWithin π n el [] = some supers) ∧
      ∀ x, x ∈ supers ↔ TransGen (onto.Related .super) el x :=
  ⟨collects_relatedBy π onto .sub el, collects_relatedBy π onto .super el⟩

theorem mem_relations_of_isSub (h : onto.IsSub el x) : el ∈ onto.relations := by
  obtain ⟨related, hrelated, -⟩ := Option.bind_eq_some_iff.mp h
  exact AList.lookup_isSome.mp (Option.isSome_of_eq_some hrelated)

/-- **`get_subs`** collects what can be reached over `Sub` entries. -/
theorem mem_getSubs (π : IterOrder String) (onto : Onto) (el x : String) :
    x ∈ onto.getSubs π el [] ↔ TransGen onto.IsSub el x := by
  obtain ⟨c, hc, hmem⟩ := collects_relatedBy π onto .sub el
  have hget : collect (onto.subsOf π) (onto.names.card + 1) el [] = some c :=
    hc _ (Nat.lt_succ_self _)
  rw [getSubs, hget, Option.getD_some]
  exact hmem x

/-! ## What is put into the map behind the individuals -/

theorem isSub_closeSubs (π : IterOrder String) (onto : Onto) (el c x : String) :
    (onto.closeSubs π el).IsSub c x ↔ onto.IsSub c x ∨ c = el ∧ TransGen onto.IsSub el x := by
  unfold closeSubs
  dsimp only
  by_cases hempty : (onto.getSubs π el []).isEmpty = true
  · rw [if_pos hempty]
    refine ⟨.inl, ?_⟩
    rintro (h | ⟨-, hreach⟩)
    · exact h
    · rw [← mem_getSubs π, List.isEmpty_iff.mp hempty] at hreach
      cases hreach
  · rw [if_neg hempty]
    have hmem : el ∈ onto.relations := by
      obtain ⟨x, hx⟩ := List.exists_mem_of_ne_nil _ (mt List.isEmpty_iff.mpr hempty)
      obtain ⟨y, hy, -⟩ := TransGen.head'_iff.mp ((mem_getSubs π onto el x).mp hx)
      exact mem_relations_of_isSub hy
    rw [updateSubs, if_pos hmem, IsSub, rel_foldl_relate, ← mem_getSubs π]
    by_cases hc : c = el ∧ x ∈ onto.getSubs π el []
    · rw [if_pos hc]
      exact iff_of_true rfl (.inr hc)
    · rw [if_neg hc]
      exact ⟨.inl, fun h => h.resolve_right hc⟩

theorem transGen_closeSubs (π : IterOrder String) (onto : Onto) (el : String) :
    TransGen (onto.closeSubs π el).IsSub = TransGen onto.IsSub := by
  apply le_antisymm
  · refine TransGen.closed fun c x h => ?_
    rcases (isSub_closeSubs π onto el c x).mp h with h | ⟨rfl, h⟩
    · exact .single h
    · exact h
  · exact TransGen.mono fun c x h => (isSub_closeSubs π onto el c x).mpr (.inl h)

theorem isSub_foldl_closeSubs (π : IterOrder String) (els : List String) (onto : Onto)
    (c x : String) :
    (els.foldl (closeSubs π) onto).IsSub c x ↔
      onto.IsSub c x ∨ c ∈ els ∧ TransGen onto.IsSub c x := by
  induction els generalizing onto with
  | nil => simp
  | cons el els ih =>
    rw [List.foldl_cons, ih, isSub_closeSubs, transGen_closeSubs, List.mem_cons]
    constructor
    · rintro ((h | ⟨rfl, h⟩) | ⟨hc, h⟩)
      · exact .inl h
      · exact .inr ⟨.inl rfl, h⟩
      · exact .inr ⟨.inr hc, h⟩
    · rintro (h | ⟨rfl | hc, h⟩)
      · exact .inl (.inl h)
      · exact .inl (.inr ⟨rfl, h⟩)
      · exact .inr ⟨hc, h⟩

theorem isSub_close (π : IterOrder String) (onto : Onto) (c x : String) :
    ((π.order onto.relations.keys).foldl (closeSubs π) onto).IsSub c x ↔
      TransGen onto.IsSub c x := by
  rw [isSub_foldl_closeSubs]
  constructor
  · rintro (h | ⟨-, h⟩)
    · exact .single h
    · exact h
  · intro h
    obtain ⟨y, hy, -⟩ := TransGen.head'_iff.mp h
    have hkey : c ∈ π.order onto.relations.keys :=
      (π.perm _).mem_iff.mpr (AList.mem_keys.mp (mem_relations_of_isSub hy))
    exact .inr ⟨hkey, h⟩

/-! ## What the individuals put into the map -/

/-- **One individual**: the elements that it is below of, and it under each of them. -/
theorem rel_update (h : onto.update indv = .ok onto') (c x : String) :
    onto'.rel c x = if indv.uri = x ∧ c ∈ indv.supers then some .sub
      else if indv.uri = c ∧ x ∈ indv.supers then some .super
      else onto.rel c x := by
  unfold update at h
  unfold IndividualObj.supers
  cases hread : indv.read .getFirstLiteral "rdf:type" with
  | error p =>
    rw [hread] at h
    cases h
  | ok answer =>
    rw [hread] at h
    cases answer with
    | none =>
      obtain rfl := Except.ok.inj h
      simp
    | some vtype =>
      change (if vtype ∈ elementTypes then _ else _) = _ at h
      by_cases htype : vtype ∈ elementTypes
      · rw [if_pos htype] at h
        obtain rfl := Except.ok.inj h
        rw [rel_foldl_relate_under, rel_foldl_relate, rel_entry]
        simp only [eq_comm]
      · have hnames : superNames vtype indv = [] := by
          rw [superNames, if_neg, if_neg]
          all_goals
            intro hor
            apply htype
            simp only [elementTypes, List.mem_cons]
            tauto
        rw [if_neg htype] at h
        simp only [hnames, List.not_mem_nil, and_false, if_false]
        split_ifs at h
        · cases hurl : indv.read .getFirstLiteral "v-s:fullUrl" with
          | error p =>
            rw [hurl] at h
            cases h
          | ok url =>
            rw [hurl] at h
            cases url with
            | none =>
              obtain rfl := Except.ok.inj h
              rfl
            | some fullUrl =>
              obtain rfl := Except.ok.inj h
              rfl
        · obtain rfl := Except.ok.inj h
          rfl

end Onto

section Load

variable {π : IterOrder String} {onto onto' : Onto} {indvs : List IndividualObj}

theorem kept_concat (onto : Onto) (indvs : List IndividualObj) (indv : IndividualObj)
    (c el : String) :
    Kept onto (indvs ++ [indv]) c el ↔
      if indv.Relates c el then indv.uri = el ∧ c ∈ indv.supers else Kept onto indvs c el := by
  unfold Kept
  rw [List.reverse_concat, List.find?_cons]
  by_cases h : indv.Relates c el
  · rw [if_pos h, decide_eq_true h]
  · rw [if_neg h, decide_eq_false h]

/-- **The individuals**: what they leave in the map. -/
theorem isSub_foldlM_update (h : indvs.foldlM Onto.update onto = .ok onto') (c el : String) :
    onto'.IsSub c el ↔ Kept onto indvs c el := by
  induction indvs using List.reverseRecOn generalizing onto' with
  | nil =>
    obtain rfl := Except.ok.inj h
    rfl
  | append_singleton indvs indv ih =>
    rw [List.foldlM_append] at h
    cases hfirst : indvs.foldlM Onto.update onto with
    | error p =>
      rw [hfirst] at h
      cases h
    | ok onto₁ =>
      rw [hfirst] at h
      have hlast : (onto₁.update indv >>= pure) = .ok onto' := h
      rw [bind_pure] at hlast
      rw [kept_concat, Onto.IsSub, Onto.rel_update hlast]
      by_cases hsub : indv.uri = el ∧ c ∈ indv.supers
      · rw [if_pos hsub, if_pos (.inl hsub)]
        exact iff_of_true rfl hsub
      · rw [if_neg hsub]
        by_cases hsuper : indv.uri = c ∧ el ∈ indv.supers
        · rw [if_pos hsuper, if_pos (.inr hsuper)]
          exact iff_of_false (by decide) hsub
        · rw [if_neg hsuper, if_neg (show ¬ indv.Relates c el from not_or.mpr ⟨hsub, hsuper⟩)]
          exact ih hfirst

theorem isSomeEntered_load (h : loadOnto π indvs onto = .ok onto') (el c : String) :
    onto'.isSomeEntered el [c] = true ↔ TransGen (Kept onto indvs) c el := by
  unfold loadOnto at h
  cases hupdate : indvs.foldlM Onto.update onto with
  | error p =>
    rw [hupdate] at h
    cases h
  | ok onto₁ =>
    rw [hupdate] at h
    obtain rfl := Except.ok.inj h
    have hkept : onto₁.IsSub = Kept onto indvs := by
      funext a b
      exact propext (isSub_foldlM_update hupdate a b)
    rw [← hkept, ← Onto.isSub_close π, Onto.isSomeEntered, List.any_cons, List.any_nil,
      Bool.or_false, decide_eq_true_eq, Onto.IsSub]

theorem Kept.cases {c el : String} (h : Kept onto indvs c el) :
    SubOf indvs c el ∨ onto.IsSub c el ∧ ∀ indv ∈ indvs, ¬ indv.Relates c el := by
  unfold Kept at h
  split at h
  case h_1 indv hfind =>
    exact .inl ⟨indv, List.mem_reverse.mp (List.mem_of_find?_eq_some hfind), h⟩
  case h_2 hfind =>
    refine .inr ⟨h, fun indv hmem hrelates => ?_⟩
    exact List.find?_eq_none.mp hfind indv (List.mem_reverse.mpr hmem) (decide_eq_true hrelates)

theorem kept_of_isSub {c el : String} (h : onto.IsSub c el)
    (hnone : ∀ indv ∈ indvs, ¬ indv.Relates c el) : Kept onto indvs c el := by
  have hfind : indvs.reverse.find? (fun indv => indv.Relates c el) = none :=
    List.find?_eq_none.mpr fun indv hmem hrelates =>
      hnone indv (List.mem_reverse.mp hmem) (of_decide_eq_true hrelates)
  rw [Kept, hfind]
  exact h

/-- **The answers** behind a load are right exactly when the load meets the condition. -/
theorem answersMatch_iff (h : loadOnto π indvs onto = .ok onto') :
    AnswersMatch onto' indvs ↔ LoadFits onto indvs := by
  simp only [AnswersMatch, isSomeEntered_load h]
  constructor
  · intro hmatch
    constructor
    · intro c el hold hnone
      exact (hmatch el c).mp (.single (kept_of_isSub hold hnone))
    · intro c el hsub _
      exact (hmatch el c).mpr (.single hsub)
  · intro hfits el c
    constructor
    · refine fun hreach => TransGen.closed (fun a b hkept => ?_) c el hreach
      rcases hkept.cases with hsub | ⟨hold, hnone⟩
      · exact .single hsub
      · exact hfits.old a b hold hnone
    · refine fun hreach => TransGen.closed (fun a b hsub => ?_) c el hreach
      by_cases hkept : Kept onto indvs a b
      · exact .single hkept
      · exact hfits.opposite a b hsub hkept

end Load

/-! ## Loads of classes -/

/-- A class that is below of others. -/
def ontoClass (uri : String) (supers : List String) : IndividualObj where
  uri := uri
  resources := ((∅ : HashMap String (List Resource)).insert "rdfs:subClassOf"
    (supers.map fun s => ⟨.uri, .uri s, 0⟩)).insert "rdf:type" [⟨.uri, .uri "owl:Class", 0⟩]

/-- A load of two classes into an empty map, and what is asked for it. -/
theorem answersMatch_twoClasses :
    ∃ onto', loadOnto (.stored String) [ontoClass "v-s:Doc" ["v-s:Object"],
        ontoClass "v-s:Letter" ["v-s:Doc"]] .empty = .ok onto' ∧
      (AnswersMatch onto' [ontoClass "v-s:Doc" ["v-s:Object"],
          ontoClass "v-s:Letter" ["v-s:Doc"]] ↔
        LoadFits .empty [ontoClass "v-s:Doc" ["v-s:Object"],
          ontoClass "v-s:Letter" ["v-s:Doc"]]) :=
  ⟨_, rfl, answersMatch_iff (π := .stored String) rfl⟩

/-- Two loads with wrong answers. Of two classes that are below of each other, the one that was loaded
first is not found under the other. And a class that is not below of another one any more is still
found under it when the ontology is loaded again. -/
theorem not_answersMatch_twoClasses :
    (∃ onto', loadOnto (.stored String) [ontoClass "v-s:A" ["v-s:B"], ontoClass "v-s:B" ["v-s:A"]]
        .empty = .ok onto' ∧
      ¬ AnswersMatch onto' [ontoClass "v-s:A" ["v-s:B"], ontoClass "v-s:B" ["v-s:A"]]) ∧
    ∃ onto onto', loadOnto (.stored String) [ontoClass "v-s:A" [], ontoClass "v-s:B" ["v-s:A"]]
        .empty = .ok onto ∧
      loadOnto (.stored String) [ontoClass "v-s:A" [], ontoClass "v-s:B" []] onto = .ok onto' ∧
      ¬ AnswersMatch onto' [ontoClass "v-s:A" [], ontoClass "v-s:B" []] := by
  refine ⟨⟨_, rfl, fun h => ?_⟩, _, _, rfl, rfl, fun h => ?_⟩
  · have hsub : SubOf [ontoClass "v-s:A" ["v-s:B"], ontoClass "v-s:B" ["v-s:A"]] "v-s:B" "v-s:A" :=
      ⟨_, List.mem_cons_self, rfl, by decide +kernel⟩
    exact absurd ((h "v-s:A" "v-s:B").mpr (.single hsub)) (by decide +kernel)
  · obtain ⟨el, ⟨indv, hmem, -, hsuper⟩, -⟩ :=
      TransGen.head'_iff.mp ((h "v-s:B" "v-s:A").mp (by decide +kernel))
    have hnone : ∀ indv ∈ [ontoClass "v-s:A" [], ontoClass "v-s:B" []], indv.supers = [] := by
      decide +kernel
    rw [hnone indv hmem] at hsuper
    cases hsuper

end Veda.Onto
