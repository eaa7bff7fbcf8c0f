import Veda.Mstorage.Operation
import Veda.Onto.Decoded

set_option autoImplicit false

/-!
# The state that an operation stores

The values of the new state come from the previous state and from the individual of the request,
but for the marks that the operation sets itself. So the new state fits into its stored form when
the two have room for each other, and its counter is the one after the counter that was stored,
whatever the individual of the request says.

## Main definitions

* `Mstorage.Built` — an individual made of two others.
* `Mstorage.Room` — two individuals have room for each other.
* `Mstorage.NextState` — the state after a previous one.

## Main results

* `Mstorage.built_indvApplyCmd` — a command on parts of an individual.
* `Mstorage.Built.allFit` — an individual made of two that have room fits.
* `Mstorage.nextState_of_newState` — the new state.
* `Mstorage.readPrev_of_checkRequest` — a request that passes the checks.
-/

namespace Veda.Mstorage

open Veda.Lib Veda.Onto Veda.Authorization

/-! ## Individuals made of others -/

/-- The predicates that an operation sets itself. -/
def ownPredicates : List String := ["v-s:created", "v-s:deleted", "v-s:updateCounter"]

theorem ownPredicates_fit : ∀ p ∈ ownPredicates, (utf8 p).length < 4294967296 := by decide

/-- The values of an individual come from two others or fit, and none is longer than both together
and one value more. -/
structure Built (prev newIndv result : IndividualObj) : Prop where
  length : ∀ p rs, result.resources.lookup p = some rs →
    rs.length ≤ (prev.valuesOf p).length + (newIndv.valuesOf p).length + 1
  values : ∀ p rs, result.resources.lookup p = some rs →
    ∀ r ∈ rs, r ∈ prev.valuesOf p ∨ r ∈ newIndv.valuesOf p ∨ r.Fits
  keys : ∀ p rs, result.resources.lookup p = some rs →
    p ∈ prev.resources.keys ∨ p ∈ newIndv.resources.keys ∨ p ∈ ownPredicates

/-- Two individuals have room for each other and the marks of an operation. -/
structure Room (prev newIndv : IndividualObj) : Prop where
  lists : ∀ p, (prev.valuesOf p).length + (newIndv.valuesOf p).length + 1 < 4294967296
  count : prev.resources.keys.length + newIndv.resources.keys.length + 3 < 4294967296

/-- The predicates and the values of an individual fit. -/
structure PartsFit (obj : IndividualObj) : Prop where
  names : ∀ p ∈ obj.resources.keys, (utf8 p).length < 4294967296
  values : ∀ p, ∀ r ∈ obj.valuesOf p, r.Fits

theorem mem_keys_of_lookup {obj : IndividualObj} {p : String} {rs : List Resource}
    (h : obj.resources.lookup p = some rs) : p ∈ obj.resources.keys :=
  AList.mem_keys.mp (AList.lookup_isSome.mp (Option.isSome_of_eq_some h))

theorem isEmpty_of_lookup {obj : IndividualObj} {p : String} {rs : List Resource}
    (h : obj.resources.lookup p = some rs) : obj.isEmpty = false := by
  have hkey : p ∈ obj.resources.keys :=
    AList.mem_keys.mp (AList.lookup_isSome.mp (by rw [h]; rfl))
  rw [IndividualObj.isEmpty, List.isEmpty_eq_false_iff]
  exact List.ne_nil_of_mem hkey

theorem valuesOf_of_lookup {obj : IndividualObj} {p : String} {rs : List Resource}
    (h : obj.resources.lookup p = some rs) : obj.valuesOf p = rs := by
  rw [IndividualObj.valuesOf, h, Option.getD_some]

theorem valuesOf_cases (obj : IndividualObj) (p : String) :
    obj.valuesOf p = [] ∨ ⟨p, obj.valuesOf p⟩ ∈ obj.resources.entries := by
  cases hlookup : obj.resources.lookup p with
  | none =>
    left
    rw [IndividualObj.valuesOf, hlookup]
    rfl
  | some rs =>
    right
    rw [valuesOf_of_lookup hlookup]
    exact AList.mem_lookup_iff.mp hlookup

theorem PartsFit.of_entries {obj : IndividualObj}
    (h : ∀ e ∈ obj.resources.entries, (utf8 e.1).length < 4294967296 ∧ ∀ r ∈ e.2, r.Fits) :
    PartsFit obj := by
  constructor
  · intro p hp
    obtain ⟨e, he, rfl⟩ := List.mem_map.mp hp
    exact (h e he).1
  · intro p r hr
    rcases valuesOf_cases obj p with hnil | hmem
    · rw [hnil] at hr
      cases hr
    · exact (h _ hmem).2 r hr

theorem Room.of_entries {prev newIndv : IndividualObj}
    (hprev : ∀ e ∈ prev.resources.entries, e.2.length < 2147483647)
    (hnew : ∀ e ∈ newIndv.resources.entries, e.2.length < 2147483647)
    (hcount : prev.resources.keys.length + newIndv.resources.keys.length + 3 < 4294967296) :
    Room prev newIndv := by
  have hlength : ∀ obj : IndividualObj, (∀ e ∈ obj.resources.entries, e.2.length < 2147483647) →
      ∀ p, (obj.valuesOf p).length < 2147483647 := by
    intro obj h p
    rcases valuesOf_cases obj p with hnil | hmem
    · rw [hnil, List.length_nil]
      omega
    · exact h _ hmem
  refine ⟨fun p => ?_, hcount⟩
  have hp := hlength prev hprev p
  have hn := hlength newIndv hnew p
  omega

theorem partsFit_decoded {obj : IndividualObj} (hfits : obj.AllFit) (π : IterOrder String) :
    PartsFit (decoded π obj) := by
  constructor
  · intro p hp
    obtain ⟨rs, hrs⟩ := Option.isSome_iff_exists.mp
      (AList.lookup_isSome.mpr (AList.mem_keys.mpr hp))
    exact (entryFits_decoded hfits π hrs).name
  · intro p r hr
    cases hlookup : (decoded π obj).resources.lookup p with
    | none =>
      rw [IndividualObj.valuesOf, hlookup] at hr
      cases hr
    | some rs =>
      rw [valuesOf_of_lookup hlookup] at hr
      exact (entryFits_decoded hfits π hlookup).values r hr

theorem partsFit_empty : PartsFit .empty := by
  constructor
  · intro p hp
    cases hp
  · intro p r hr
    cases hr

theorem Built.allFit {prev newIndv result : IndividualObj} (h : Built prev newIndv result)
    (huri : (utf8 result.uri).length < 4294967296) (hprev : PartsFit prev)
    (hnew : PartsFit newIndv) (hroom : Room prev newIndv) : result.AllFit := by
  constructor
  · exact huri
  · have hsub : result.resources.keys ⊆
        prev.resources.keys ++ (newIndv.resources.keys ++ ownPredicates) := by
      intro p hp
      obtain ⟨rs, hrs⟩ := Option.isSome_iff_exists.mp
        (AList.lookup_isSome.mpr (AList.mem_keys.mpr hp))
      simp only [List.mem_append]
      exact h.keys p rs hrs
    have hle := (result.resources.keys_nodup.subperm hsub).length_le
    rw [List.length_append, List.length_append] at hle
    have hcount := hroom.count
    have hown : ownPredicates.length = 3 := rfl
    omega
  · intro p rs hrs
    refine ⟨?_, ?_, fun r hr => ?_⟩
    · rcases h.keys p rs hrs with hp | hp | hp
      · exact hprev.names p hp
      · exact hnew.names p hp
      · exact ownPredicates_fit p hp
    · have hlength := h.length p rs hrs
      have hlists := hroom.lists p
      dsimp only
      omega
    · rcases h.values p rs hrs r hr with hr | hr | hr
      · exact hprev.values p r hr
      · exact hnew.values p r hr
      · exact hr

theorem built_right (prev newIndv : IndividualObj) : Built prev newIndv newIndv := by
  constructor
  · intro p rs hrs
    rw [valuesOf_of_lookup hrs]
    omega
  · intro p rs hrs r hr
    rw [valuesOf_of_lookup hrs]
    exact .inr (.inl hr)
  · intro p rs hrs
    exact .inr (.inl (mem_keys_of_lookup hrs))

theorem built_left (prev newIndv : IndividualObj) : Built prev newIndv prev := by
  constructor
  · intro p rs hrs
    rw [valuesOf_of_lookup hrs]
    omega
  · intro p rs hrs r hr
    rw [valuesOf_of_lookup hrs]
    exact .inl hr
  · intro p rs hrs
    exact .inl (mem_keys_of_lookup hrs)

theorem Built.setValue {prev newIndv result : IndividualObj} (h : Built prev newIndv result)
    {predicate : String} (hown : predicate ∈ ownPredicates) {rtype : DataType} {value : Value}
    (hfits : Resource.Fits ⟨rtype, value, 0⟩) :
    Built prev newIndv (result.setValue predicate rtype value) := by
  constructor
  all_goals
    intro p rs hrs
    rw [IndividualObj.lookup_setValue] at hrs
    split_ifs at hrs with hp
  · obtain rfl := Option.some.inj hrs
    rw [List.length_singleton]
    omega
  · exact h.length p rs hrs
  · obtain rfl := Option.some.inj hrs
    intro r hr
    rw [List.mem_singleton] at hr
    subst hr
    exact .inr (.inr hfits)
  · exact h.values p rs hrs
  · subst hp
    exact .inr (.inr hown)
  · exact h.keys p rs hrs

/-! ## Commands on parts of an individual -/

section Apply

variable (cmd : IndvOp) (indv : IndividualObj)

theorem length_pushUnique (values b : List Resource) :
    (IndividualObj.pushUnique values b).length ≤ values.length + b.length := by
  induction b generalizing values with
  | nil => exact le_rfl
  | cons el b ih =>
    have hstep := ih (if values.any fun v => v.content = el.content then values
      else values ++ [el])
    rw [IndividualObj.pushUnique, List.foldl_cons, ← IndividualObj.pushUnique, List.length_cons]
    refine hstep.trans ?_
    split_ifs
    · omega
    · rw [List.length_append, List.length_singleton]
      omega

theorem mem_pushUnique {values b : List Resource} {r : Resource}
    (h : r ∈ IndividualObj.pushUnique values b) : r ∈ values ∨ r ∈ b := by
  induction b generalizing values with
  | nil => exact .inl h
  | cons el b ih =>
    rw [IndividualObj.pushUnique, List.foldl_cons, ← IndividualObj.pushUnique] at h
    rcases ih h with h | h
    · split_ifs at h
      · exact .inl h
      · rw [List.mem_append, List.mem_singleton] at h
        rcases h with h | rfl
        · exact .inl h
        · exact .inr List.mem_cons_self
    · exact .inr (List.mem_cons_of_mem _ h)

theorem lookup_applyPredicate_ne (prev : IndividualObj) {predicate p : String}
    (h : p ≠ predicate) :
    (applyPredicate cmd indv prev predicate).resources.lookup p = prev.resources.lookup p := by
  unfold applyPredicate
  split_ifs
  · rfl
  · cases indv.resources.lookup predicate with
    | none => rfl
    | some v =>
      cases cmd with
      | addTo => exact AList.lookup_insert_ne h
      | setIn => exact AList.lookup_insert_ne h
      | removeFrom =>
        dsimp only [IndividualObj.excludeAndSetResources]
        split_ifs
        · exact AList.lookup_erase_ne h
        · exact AList.lookup_insert_ne h
      | _ => rfl

theorem uri_applyPredicate (prev : IndividualObj) (predicate : String) :
    (applyPredicate cmd indv prev predicate).uri = prev.uri := by
  unfold applyPredicate
  split_ifs
  · rfl
  · cases indv.resources.lookup predicate with
    | none => rfl
    | some v =>
      cases cmd with
      | removeFrom =>
        dsimp only [IndividualObj.excludeAndSetResources]
        split_ifs <;> rfl
      | _ => rfl

theorem lookup_applyPredicate_self (prev : IndividualObj) {predicate : String}
    {rs : List Resource}
    (h : (applyPredicate cmd indv prev predicate).resources.lookup predicate = some rs) :
    rs.length ≤ (prev.valuesOf predicate).length + (indv.valuesOf predicate).length ∧
      (∀ r ∈ rs, r ∈ prev.valuesOf predicate ∨ r ∈ indv.valuesOf predicate) ∧
      (predicate ∈ prev.resources.keys ∨ predicate ∈ indv.resources.keys) := by
  by_cases hsame : prev.resources.lookup predicate = some rs
  · rw [valuesOf_of_lookup hsame]
    exact ⟨Nat.le_add_right _ _, fun r hr => .inl hr, .inl (mem_keys_of_lookup hsame)⟩
  unfold applyPredicate at h
  split_ifs at h
  · exact absurd h hsame
  · cases hindv : indv.resources.lookup predicate with
    | none =>
      rw [hindv] at h
      exact absurd h hsame
    | some v =>
      have hkeys := mem_keys_of_lookup hindv
      rw [hindv] at h
      cases cmd with
      | addTo =>
        simp only [IndividualObj.addUniqueResources, AList.lookup_insert, Option.some.injEq] at h
        subst h
        rw [valuesOf_of_lookup hindv]
        exact ⟨length_pushUnique _ _, fun r hr => mem_pushUnique hr, .inr hkeys⟩
      | setIn =>
        simp only [IndividualObj.setResources, AList.lookup_insert, Option.some.injEq] at h
        subst h
        rw [valuesOf_of_lookup hindv]
        exact ⟨Nat.le_add_left _ _, fun r hr => .inr hr, .inr hkeys⟩
      | removeFrom =>
        simp only [IndividualObj.excludeAndSetResources] at h
        split_ifs at h
        · rw [AList.lookup_erase] at h
          cases h
        · rw [AList.lookup_insert, Option.some.injEq] at h
          subst h
          refine ⟨(List.length_filter_le _ _).trans (Nat.le_add_right _ _), fun r hr => ?_,
            .inr hkeys⟩
          exact .inl (List.mem_of_mem_filter hr)
      | _ => exact absurd h hsame

theorem lookup_applyPredicate_congr {prev prev' : IndividualObj} {p : String}
    (h : prev.resources.lookup p = prev'.resources.lookup p) :
    (applyPredicate cmd indv prev p).resources.lookup p =
      (applyPredicate cmd indv prev' p).resources.lookup p := by
  unfold applyPredicate
  split_ifs
  · exact h
  · cases indv.resources.lookup p with
    | none => exact h
    | some v =>
      cases cmd with
      | addTo =>
        dsimp only [IndividualObj.addUniqueResources]
        rw [AList.lookup_insert, AList.lookup_insert, h]
      | setIn =>
        dsimp only [IndividualObj.setResources]
        rw [AList.lookup_insert, AList.lookup_insert]
      | removeFrom =>
        dsimp only [IndividualObj.excludeAndSetResources]
        rw [h]
        split_ifs
        · rw [AList.lookup_erase, AList.lookup_erase]
        · rw [AList.lookup_insert, AList.lookup_insert]
      | _ => exact h

theorem lookup_foldl_applyPredicate {ks : List String} (hks : ks.Nodup) (prev : IndividualObj)
    (p : String) :
    (ks.foldl (applyPredicate cmd indv) prev).resources.lookup p =
      if p ∈ ks then (applyPredicate cmd indv prev p).resources.lookup p
      else prev.resources.lookup p := by
  induction ks generalizing prev with
  | nil => rfl
  | cons k ks ih =>
    rw [List.nodup_cons] at hks
    rw [List.foldl_cons, ih hks.2]
    by_cases hp : p = k
    · subst hp
      rw [if_neg hks.1, if_pos List.mem_cons_self]
    · have hsame : (applyPredicate cmd indv prev k).resources.lookup p =
          prev.resources.lookup p := lookup_applyPredicate_ne cmd indv prev hp
      simp only [List.mem_cons, hp, false_or]
      rw [lookup_applyPredicate_congr cmd indv hsame, hsame]

theorem lookup_indvApplyCmd (π : IterOrder String) {prev : IndividualObj}
    (hprev : prev.isEmpty = false) (p : String) :
    (indvApplyCmd π cmd prev indv).resources.lookup p =
      (applyPredicate cmd indv prev p).resources.lookup p := by
  unfold indvApplyCmd
  rw [if_neg (by simp [hprev]), lookup_foldl_applyPredicate _ _
    ((π.perm _).nodup_iff.mpr indv.resources.keys_nodup)]
  split_ifs with hmem
  · rfl
  · have hnone : indv.resources.lookup p = none := by
      rw [AList.lookup_eq_none, AList.mem_keys]
      exact fun hkey => hmem ((π.perm _).mem_iff.mpr hkey)
    rw [applyPredicate, hnone]
    split_ifs <;> rfl

/-- **A command on parts of an individual**: the values come from the two individuals.

**Proof sketch.** The predicates of the request are visited one after another, each once; so a
predicate has its previous values when it is visited, and keeps what it gets. -/
theorem built_indvApplyCmd (π : IterOrder String) (prev : IndividualObj) :
    Built prev indv (indvApplyCmd π cmd prev indv) ∧
      (indvApplyCmd π cmd prev indv).uri = prev.uri := by
  have hfold : ∀ (ks : List String) (acc : IndividualObj), ks.Nodup → Built prev indv acc →
      (∀ p ∈ ks, acc.resources.lookup p = prev.resources.lookup p) →
      Built prev indv (ks.foldl (applyPredicate cmd indv) acc) := by
    intro ks
    induction ks with
    | nil => exact fun acc _ h _ => h
    | cons k ks ih =>
      intro acc hnodup h hprev
      rw [List.nodup_cons] at hnodup
      have hvalues : acc.valuesOf k = prev.valuesOf k := by
        rw [IndividualObj.valuesOf, hprev k List.mem_cons_self, IndividualObj.valuesOf]
      have hself := fun rs
          (hrs : (applyPredicate cmd indv acc k).resources.lookup k = some rs) =>
        lookup_applyPredicate_self cmd indv acc hrs
      refine ih (applyPredicate cmd indv acc k) hnodup.2 ⟨?_, ?_, ?_⟩ fun p hp => ?_
      · intro p rs hrs
        by_cases hp : p = k
        · subst hp
          have hlength := (hself rs hrs).1
          rw [hvalues] at hlength
          omega
        · rw [lookup_applyPredicate_ne cmd indv acc hp] at hrs
          exact h.length p rs hrs
      · intro p rs hrs r hr
        by_cases hp : p = k
        · subst hp
          rcases (hself rs hrs).2.1 r hr with hr | hr
          · exact .inl (hvalues ▸ hr)
          · exact .inr (.inl hr)
        · rw [lookup_applyPredicate_ne cmd indv acc hp] at hrs
          exact h.values p rs hrs r hr
      · intro p rs hrs
        by_cases hp : p = k
        · subst hp
          rcases (hself rs hrs).2.2 with hkey | hkey
          · obtain ⟨values, hlookup⟩ := Option.isSome_iff_exists.mp
              (AList.lookup_isSome.mpr (AList.mem_keys.mpr hkey))
            exact h.keys p values hlookup
          · exact .inr (.inl hkey)
        · rw [lookup_applyPredicate_ne cmd indv acc hp] at hrs
          exact h.keys p rs hrs
      · have hne : p ≠ k := fun heq => hnodup.1 (heq ▸ hp)
        rw [lookup_applyPredicate_ne cmd indv acc hne]
        exact hprev p (List.mem_cons_of_mem _ hp)
  have huri : ∀ (ks : List String) (acc : IndividualObj),
      (ks.foldl (applyPredicate cmd indv) acc).uri = acc.uri := by
    intro ks
    induction ks with
    | nil => exact fun acc => rfl
    | cons k ks ih =>
      intro acc
      rw [List.foldl_cons, ih, uri_applyPredicate]
  unfold indvApplyCmd
  split_ifs
  · exact ⟨built_left prev indv, rfl⟩
  · exact ⟨hfold _ _ ((π.perm _).nodup_iff.mpr indv.resources.keys_nodup) (built_left prev indv)
      fun p _ => rfl, huri _ _⟩

end Apply

/-! ## The new state -/

/-- A state after a previous one: its counter is the next one. -/
structure NextState (req : Request) (prev state : IndividualObj) (updCounter : Int64) : Prop where
  counter : ∃ counter, prev.read .getFirstInteger "v-s:updateCounter" = .ok counter ∧
    updCounter = counter.getD 0 + 1
  lookup : state.resources.lookup "v-s:updateCounter" = some [⟨.integer, .int updCounter, 0⟩]
  built : Built prev req.newIndv state
  uri : state.uri = if req.cmd.isPartial then prev.uri else req.newIndv.uri

section NewState

variable {ctx : Context} {req : Request} {st : Server}

theorem getNew_isExists (predicate : String) (newIndv : IndividualObj) :
    getNew .isExists predicate newIndv = .ok !(newIndv.valuesOf predicate).isEmpty := by
  rw [getNew, IndividualObj.read, IndividualObj.valuesOf]
  cases newIndv.resources.lookup predicate <;> rfl

theorem built_addDatetime (prev newIndv : IndividualObj) (time : Int64) :
    Built prev newIndv (newIndv.addDatetime "v-s:created" time) := by
  constructor
  all_goals
    intro p rs hrs
    rw [IndividualObj.addDatetime, IndividualObj.lookup_addValue] at hrs
    split_ifs at hrs with hp
  · obtain rfl := Option.some.inj hrs
    subst hp
    rw [List.length_append, List.length_singleton, ← IndividualObj.valuesOf]
    omega
  · exact (built_right prev newIndv).length p rs hrs
  · obtain rfl := Option.some.inj hrs
    subst hp
    intro r hr
    rw [List.mem_append, List.mem_singleton] at hr
    rcases hr with hr | rfl
    · exact .inr (.inl hr)
    · exact .inr (.inr trivial)
  · exact (built_right prev newIndv).values p rs hrs
  · subst hp
    exact .inr (.inr List.mem_cons_self)
  · exact (built_right prev newIndv).keys p rs hrs

theorem built_markedIndv {marked : IndividualObj} (h : markedIndv req = .ok marked)
    (prev : IndividualObj) :
    Built prev req.newIndv marked ∧ marked.uri = req.newIndv.uri ∧
      (req.cmd.isPartial → marked = req.newIndv) := by
  unfold markedIndv at h
  split_ifs at h with hput hremove
  · rw [getNew_isExists] at h
    refine ⟨?_, ?_, fun hpart => ?_⟩
    · cases hexists : !(req.newIndv.valuesOf "v-s:created").isEmpty with
      | true =>
        rw [hexists] at h
        obtain rfl := Except.ok.inj h
        exact built_right _ _
      | false =>
        rw [hexists] at h
        obtain rfl := Except.ok.inj h
        exact built_addDatetime _ _ _
    · cases hexists : !(req.newIndv.valuesOf "v-s:created").isEmpty with
      | true =>
        rw [hexists] at h
        obtain rfl := Except.ok.inj h
        rfl
      | false =>
        rw [hexists] at h
        obtain rfl := Except.ok.inj h
        rfl
    · rw [hput] at hpart
      cases hpart
  · obtain rfl := Except.ok.inj h
    refine ⟨(built_right _ _).setValue (by decide) trivial, rfl, fun hpart => ?_⟩
    rw [hremove] at hpart
    cases hpart
  · obtain rfl := Except.ok.inj h
    exact ⟨built_right _ _, rfl, fun _ => rfl⟩

/-- **The new state** of an individual whose previous state is decoded. -/
theorem nextState_of_newState {prev : Individual} (hdone : prev.Done) {state : IndividualObj}
    {updCounter : Int64} (h : newState ctx req prev = .ok (state, updCounter)) :
    NextState req prev.obj state updCounter := by
  unfold newState at h
  rw [getPrev, hdone.get] at h
  cases hread : prev.obj.read .getFirstInteger "v-s:updateCounter" with
  | error panic =>
    rw [hread] at h
    cases h
  | ok counter =>
    rw [hread] at h
    change (markedIndv req >>= _) = _ at h
    cases hmarked : markedIndv req with
    | error stop =>
      rw [hmarked] at h
      cases h
    | ok marked =>
      rw [hmarked] at h
      obtain ⟨hbuilt, huri, hsame⟩ := built_markedIndv hmarked prev.obj
      obtain ⟨hstate, hcounter⟩ := Prod.mk.inj (Except.ok.inj h)
      subst hstate
      subst hcounter
      refine ⟨⟨counter, hread, rfl⟩, ?_, ?_, ?_⟩
      · rw [IndividualObj.setInteger, IndividualObj.lookup_setValue, if_pos rfl]
      · refine Built.setValue ?_ (by decide) trivial
        split_ifs with hpart
        · rw [hsame hpart]
          exact (built_indvApplyCmd req.cmd req.newIndv req.order prev.obj).1
        · exact hbuilt
      · rw [IndividualObj.setInteger, IndividualObj.uri_setValue]
        split_ifs with hpart
        · exact (built_indvApplyCmd req.cmd marked req.order prev.obj).2
        · exact huri

/-! ## The checks -/

theorem checkRights_of_done {prevState : List UInt8} {prev prev' : Individual} {answer : Bool}
    (hdone : prev.Done) (h : checkRights ctx req prevState prev = .ok (answer, prev')) :
    prev' = prev := by
  unfold checkRights at h
  split_ifs at h
  · exact (Prod.mk.inj (Except.ok.inj h)).2.symm
  · cases hstate : checkState ctx req prevState with
    | error stop =>
      rw [hstate] at h
      cases h
    | ok allowed =>
      rw [hstate] at h
      cases allowed with
      | false => exact (Prod.mk.inj (Except.ok.inj h)).2.symm
      | true =>
        change (getPrev ctx .getLiterals "rdf:type" prev >>= _) = _ at h
        rw [getPrev, hdone.get] at h
        cases hread : prev.obj.read .getLiterals "rdf:type" with
        | error panic =>
          rw [hread] at h
          cases h
        | ok types =>
          rw [hread] at h
          change (getNew .getLiterals "rdf:type" req.newIndv >>= _) = _ at h
          cases hnew : getNew .getLiterals "rdf:type" req.newIndv with
          | error stop =>
            rw [hnew] at h
            cases h
          | ok newTypes =>
            rw [hnew] at h
            exact (Prod.mk.inj (Except.ok.inj h)).2.symm

/-- **A request that passes the checks** works on the previous state that was read. -/
theorem readPrev_of_checkRequest {prev : Individual} (h : checkRequest ctx req st = .ok (.ok prev))
    (hdone : ∀ read, readPrev ctx (st.prevState req.newIndv.uri) = .ok (some read) → read.Done) :
    readPrev ctx (st.prevState req.newIndv.uri) = .ok (some prev) ∧
      ¬ (prev.obj.isEmpty ∧ req.cmd.isPartial) := by
  obtain ⟨res, hres, -⟩ | ⟨read, prev', hprev, hread, hempty, hrights⟩ := checkRequest_cases h
  · cases hres
  · obtain rfl := Except.ok.inj hprev
    split_ifs at hrights
    · obtain rfl := checkRights_of_done (hdone read hread) hrights
      exact ⟨hread, hempty⟩
    · subst hrights
      exact ⟨hread, hempty⟩

theorem ne_ok_of_checkRequest {res : ResultCode} (h : checkRequest ctx req st = .ok (.error res)) :
    res ≠ .ok := by
  obtain ⟨res', hres, hne⟩ | ⟨read, prev, hprev, -⟩ := checkRequest_cases h
  · obtain rfl := Except.error.inj hres
    exact hne
  · cases hprev

end NewState

end Veda.Mstorage
