import Veda.Authorization.Decision

set_option autoImplicit false

/-!
# Granting never takes away

One more entry at the end of an access control record of a storage without filters leaves every
answer at least as large. What is found earlier may end the search earlier, but a check answers
the same as one that visits every group, and which groups these are does not depend on the records
that grant.

## Main definitions

* `Authorization.Storage.NoFilters` — no object has a filter.
* `Authorization.OneMore` — a storage has one entry more in one access control record.
* `Authorization.SameGroups` — two storages have the same membership records.

## Main results

* `Authorization.objectVisits_congr`, `Authorization.subjectsOf_congr` — the walks
  depend on the membership records only.
* `Authorization.authorize_le_of_oneMore` — one more entry takes no bit away.
-/

namespace Veda.Authorization

open Veda.Lib

/-! ## The two storages -/

/-- The entries that the record under a key lists. -/
def entriesOf (db : Storage) (key : String) : List Right :=
  match db.get key with
  | .ok str => groupsOf str
  | .error _ => []

/-- No object has a filter. -/
def Storage.NoFilters (db : Storage) : Prop := ∀ id s, db.get (filterPrefix ++ id) ≠ .ok s

/-- The second storage has one entry more: it stands at the end of the access control record of
`o`, is for a subject that the record does not list, and only allows. -/
structure OneMore (db db' : Storage) (o : String) (entry : Right) : Prop where
  entries : entriesOf db' (permissionPrefix ++ o) = entriesOf db (permissionPrefix ++ o) ++ [entry]
  other : ∀ key, key ≠ permissionPrefix ++ o → db'.get key = db.get key
  fresh : ∀ r ∈ entriesOf db (permissionPrefix ++ o), r.id ≠ entry.id
  allows : entry.access ≤ 15
  unmarked : entry.marker = noMarker

/-- Two storages have the same membership records. -/
def SameGroups (db db' : Storage) : Prop :=
  ∀ uri, db'.get (membershipPrefix ++ uri) = db.get (membershipPrefix ++ uri)

theorem key_ne {x y : Char} (h : x ≠ y) (s t : String) :
    String.singleton x ++ s ≠ String.singleton y ++ t := by
  intro heq
  have hlist := congrArg String.toList heq
  rw [String.toList_append, String.toList_append, String.toList_singleton,
    String.toList_singleton] at hlist
  exact h (List.cons.inj hlist).1

theorem membershipKey_ne (uri o : String) : membershipPrefix ++ uri ≠ permissionPrefix ++ o :=
  key_ne (show 'M' ≠ 'P' by decide) uri o

theorem filterKey_ne (id o : String) : filterPrefix ++ id ≠ permissionPrefix ++ o :=
  key_ne (show 'F' ≠ 'P' by decide) id o

namespace OneMore

variable {db db' : Storage} {o : String} {entry : Right}

theorem sameGroups (h : OneMore db db' o entry) : SameGroups db db' := fun uri =>
  h.other _ (membershipKey_ne uri o)

theorem noFilters (h : OneMore db db' o entry) (hdb : db.NoFilters) : db'.NoFilters := by
  intro id s hget
  rw [h.other _ (filterKey_ne id o)] at hget
  exact hdb id s hget

theorem reliable (h : OneMore db db' o entry) (hdb : db.Reliable) : db'.Reliable := by
  intro key e hget
  by_cases hkey : key = permissionPrefix ++ o
  · have hentries := h.entries
    rw [hkey] at hget
    rw [entriesOf, hget] at hentries
    exact absurd hentries.symm (by simp)
  · rw [h.other key hkey] at hget
    exact hdb key e hget

theorem entries_subset (h : OneMore db db' o entry) (key : String) :
    entriesOf db key ⊆ entriesOf db' key := by
  by_cases hkey : key = permissionPrefix ++ o
  · rw [hkey, h.entries]
    exact List.subset_append_left _ _
  · rw [entriesOf, entriesOf, h.other key hkey]
    exact fun _ hr => hr

end OneMore

/-! ## The walks read the membership records only -/

section Walks

variable {db db' : Storage}

theorem plainWalk_congr (h : SameGroups db db') (subjectGroups : HashMap String Right) (left : ℕ)
    (uri : String) (access : U8) (w : ObjWalk) :
    plainWalk db' subjectGroups left uri access w =
      plainWalk db subjectGroups left uri access w := by
  induction left generalizing uri access w with
  | zero => rfl
  | succ left ih =>
    rw [plainWalk, plainWalk, h uri]
    simp only [ih]

theorem objectVisits_congr (h : SameGroups db db') (subjectGroups : HashMap String Right)
    (id : String) (pass : Bool) :
    objectVisits db' subjectGroups id pass = objectVisits db subjectGroups id pass := by
  unfold objectVisits
  rw [plainWalk_congr h]

theorem plainSubjects_congr (h : SameGroups db db') (left : ℕ) (uri : String) (access : U8)
    (ignoreExclusive : Bool) (w : Subjects) :
    plainSubjects db' left uri access ignoreExclusive w =
      plainSubjects db left uri access ignoreExclusive w := by
  induction left generalizing uri access ignoreExclusive w with
  | zero => rfl
  | succ left ih =>
    rw [plainSubjects, plainSubjects, h uri]
    simp only [ih]

theorem subjectsOf_congr (h : SameGroups db db') (userId : String) :
    subjectsOf db' userId = subjectsOf db userId := plainSubjects_congr h _ _ _ _ _

end Walks

/-! ## More entries grant more -/

theorem Storage.NoFilters.findFilter_eq {db : Storage} (h : db.NoFilters) (id : String) :
    findFilter db id = none := by
  refine List.findSome?_eq_none_iff.mpr fun grObj _ => ?_
  unfold getFilter
  cases hget : db.get (filterPrefix ++ grObj.id) with
  | ok s => exact absurd hget (h _ s)
  | error e => rfl

theorem Storage.NoFilters.decision_eq {q : Query} (h : q.db.NoFilters) (isOn : Bool) :
    q.decision isOn = if q.visits₁.2.pass then q.unfiltered else 0 := by
  have hfilter : filterValueOf q.db q.id = "" := by
    rw [filterValueOf, h.findFilter_eq]
    rfl
  rw [Query.decision, if_pos (.inl hfilter)]

theorem recordGrants_mono {request objAccess : U8} {subjectGroups : HashMap String Right}
    {entries entries' : List Right} (h : entries ⊆ entries') {a : Access}
    (ha : has (recordGrants request objAccess subjectGroups entries) a = true) :
    has (recordGrants request objAccess subjectGroups entries') a = true := by
  rw [has_recordGrants] at ha ⊢
  obtain ⟨r, hr, hbit⟩ := ha
  exact ⟨r, h hr, hbit⟩

theorem Pass.total_mono (p p' : Pass) (hr : p'.request = p.request)
    (hf : p'.filterValue = p.filterValue) (hs : p'.subjectGroups = p.subjectGroups)
    (hentries : ∀ key, entriesOf p.db key ⊆ entriesOf p'.db key) {vs : List Visit} {a : Access}
    (ha : has (p.total vs) a = true) : has (p'.total vs) a = true := by
  induction vs with
  | nil => exact ha
  | cons v vs ih =>
    rw [Pass.total, has_or, Bool.or_eq_true] at ha ⊢
    refine ha.imp (fun h => ?_) ih
    unfold Pass.grants Authorization.grants at h ⊢
    rw [hr, hf, hs]
    exact recordGrants_mono (hentries _) h

/-- **Granting never takes away**: in a storage whose reads do not fail and in which no object has
a filter, one more entry at the end of an access control record leaves every bit in every answer,
whatever is traced.

**Proof sketch.** Both checks give their decision (`authorize_eq`), which for an object without a
filter is what the records of the visited groups grant. The subjects, the visits and the final
check are the same, since they depend on the membership records only, and the records list the
same entries and one more. -/
theorem authorize_le_of_oneMore {db db' : Storage} (hdb : db.Reliable) (hfilter : db.NoFilters)
    {o : String} {entry : Right} (hmore : OneMore db db' o entry) (id userId : String)
    (requestAccess : U8) (trace trace' : Trace) :
    ∃ m m' trace₁ trace₂, authorize id userId requestAccess db trace = .ok (m, trace₁) ∧
      authorize id userId requestAccess db' trace' = .ok (m', trace₂) ∧
      ∀ a, has m a = true → has m' a = true := by
  obtain ⟨trace₁, h₁⟩ := authorize_eq hdb id userId requestAccess trace
  obtain ⟨trace₂, h₂⟩ := authorize_eq (hmore.reliable hdb) id userId requestAccess trace'
  refine ⟨_, _, trace₁, trace₂, h₁, h₂, fun a ha => ?_⟩
  rw [Storage.NoFilters.decision_eq hfilter] at ha
  rw [Storage.NoFilters.decision_eq (hmore.noFilters hfilter)]
  have hsubjects := subjectsOf_congr hmore.sameGroups userId
  have hgroups : subjectGroupsOf db' userId = subjectGroupsOf db userId := by
    rw [subjectGroupsOf, subjectGroupsOf, hsubjects]
  have hvisits : (⟨db', id, userId, requestAccess⟩ : Query).visits₁ =
      (⟨db, id, userId, requestAccess⟩ : Query).visits₁ := by
    unfold Query.visits₁
    dsimp only
    rw [hsubjects, hgroups, objectVisits_congr hmore.sameGroups]
  have hrequest : requestWithFilter db' id requestAccess =
      requestWithFilter db id requestAccess := by
    rw [requestWithFilter, requestWithFilter, hfilter.findFilter_eq,
      (hmore.noFilters hfilter).findFilter_eq]
  rw [hvisits]
  split_ifs at ha ⊢ with hpass
  · rw [Query.unfiltered, hvisits]
    exact Pass.total_mono (Query.pass₁ ⟨db, id, userId, requestAccess⟩ false)
      (Query.pass₁ ⟨db', id, userId, requestAccess⟩ false) hrequest rfl hgroups
      hmore.entries_subset ha
  · exact ha

theorem Storage.noFilters_ofList {l : List (String × String)}
    (h : ∀ p ∈ l, p.1.toList.head? ≠ some 'F') : (Storage.ofList l).NoFilters := by
  intro id s hget
  unfold Storage.ofList at hget
  dsimp only at hget
  cases hl : l.lookup (filterPrefix ++ id) with
  | none => simp [hl] at hget
  | some value =>
    obtain ⟨l₁, l₂, rfl, -⟩ := List.lookup_eq_some_iff.mp hl
    refine h (filterPrefix ++ id, value) (by simp) ?_
    rw [String.toList_append]
    rfl

/-- A document whose group another user may read. -/
def otherDocument : Storage :=
  .ofList [("Md:doc", "d:docs;F;"), ("Md:user", "d:team;F;"), ("Pd:docs", "d:other;2;")]

/-- The same, and the group of the user may update it. -/
def sharedDocument : Storage :=
  .ofList [("Md:doc", "d:docs;F;"), ("Md:user", "d:team;F;"), ("Pd:docs", "d:other;2;d:team;6;")]

theorem oneMore_sharedDocument :
    OneMore otherDocument sharedDocument "d:docs" { Right.new "d:team" with access := 6 } where
  entries := rfl
  other key hkey := by
    unfold otherDocument sharedDocument Storage.ofList
    have hne : (key == "Pd:docs") = false := beq_eq_false_iff_ne.mpr hkey
    simp only [List.lookup_cons, hne]
  fresh := by decide
  allows := by decide
  unmarked := rfl

/-- Sharing the document with the group of the user takes no bit from the user. -/
theorem authorize_le_sharedDocument :
    ∃ m m' trace₁ trace₂,
      authorize "d:doc" "d:user" 15 otherDocument Trace.off = .ok (m, trace₁) ∧
      authorize "d:doc" "d:user" 15 sharedDocument Trace.off = .ok (m', trace₂) ∧
      ∀ a, has m a = true → has m' a = true :=
  authorize_le_of_oneMore (Storage.reliable_ofList _) (Storage.noFilters_ofList (by decide))
    oneMore_sharedDocument "d:doc" "d:user" 15 Trace.off Trace.off

end Veda.Authorization
