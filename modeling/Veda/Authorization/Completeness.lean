import Veda.Authorization.Granting
import Veda.Authorization.ObjectReach
import Veda.Authorization.SubjectReach

set_option autoImplicit false

/-!
# Every right is found

The converse of what `Soundness` shows: a bit that an access control record grants to a group of
the user, for a group of the object, is in the answer. The check promises this for an object
without a filter, for membership records without markers that agree about the bits of the groups
of the user, and for trails that are not longer than the levels of the walks. The group of all
resources counts itself, its own groups do not.

## Main definitions

* `Authorization.GrantedBy` — the record of a group grants a bit to a subject.
* `Authorization.FindsShortChains` — every right behind chains of 30 records is found.

## Main results

* `Authorization.authorize_complete` — every right is found.
* `Authorization.not_findsShortChains` — what stands in the way otherwise.
-/

namespace Veda.Authorization

open Veda.Lib

/-! ## What the records grant -/

instance (db : Storage) (b : Access) (uri g : String) : Decidable (NamedObjectEdge db b uri g) := by
  unfold NamedObjectEdge ObjectEdge
  infer_instance

/-- The record of a group has an entry for a subject that allows a bit and does not deny it. -/
def GrantedBy (db : Storage) (g s : String) (b : Access) : Prop :=
  ∃ entry ∈ entriesOf db (permissionPrefix ++ g), entry.id = s ∧ has entry.access b = true ∧
    has entry.access b.denial = false

theorem GrantedBy.mem_allowBits {db : Storage} {g s : String} {b : Access}
    (h : GrantedBy db g s b) : b ∈ allowBits := by
  obtain ⟨entry, -, -, hallow, hdeny⟩ := h
  cases b with
  | canCreate | canRead | canUpdate | canDelete => decide
  | cantCreate | cantRead | cantUpdate | cantDelete =>
    exact absurd (hallow.symm.trans hdeny) (by decide)

theorem Pass.has_grants {p : Pass} (hfilter : p.filterValue = "") {g s : String} {b : Access}
    (hgrant : GrantedBy p.db g s b) {r : Right} (hr : p.subjectGroups.lookup s = some r)
    (hsubject : has r.access b = true) (hrequest : has p.request b = true) {objAccess : U8}
    (hobject : has objAccess b = true) : has (p.grants g objAccess) b = true := by
  have hb := hgrant.mem_allowBits
  obtain ⟨entry, hentry, rfl, hallow, hdeny⟩ := hgrant
  have hacl : aclOf p.db p.filterValue g = entriesOf p.db (permissionPrefix ++ g) := by
    rw [hfilter]
    rfl
  unfold Pass.grants Authorization.grants
  rw [hacl, has_recordGrants]
  refine ⟨entry, hentry, (has_entryGrants _ _ hr b).mpr ⟨hb, hrequest, hobject, hsubject, ?_⟩⟩
  rw [has_permissionAccess _ hb, hallow, hdeny]
  rfl

theorem Pass.has_total {p : Pass} {vs : List Visit} {v : Visit} (hv : v ∈ vs) {b : Access}
    (hb : has (p.grants v.group v.access) b = true) : has (p.total vs) b = true := by
  induction vs with
  | nil => cases hv
  | cons u vs ih =>
    rw [Pass.total, has_or, Bool.or_eq_true]
    rcases List.mem_cons.mp hv with rfl | hv
    · exact .inl hb
    · exact .inr (ih hv)

/-! ## The check finds it -/

theorem namedSubjectEdge_of_object {db : Storage} {b : Access} (uri g : String)
    (h : NamedObjectEdge db b uri g) : NamedSubjectEdge db uri g := by
  obtain ⟨⟨group, hgroup, hid, -⟩, hname⟩ := h
  exact ⟨⟨group, hgroup, hid⟩, hname⟩

theorem listed_of_reach {db : Storage} {userId s : String} {b : Access} (hb : b ∈ allowBits)
    (h : Relation.ReflTransGen (NamedObjectEdge db b) userId s) :
    s = userId ∨ s ≠ "" ∧ ∃ x, Listed db userId s x ∧ has x b = true := by
  rcases Relation.ReflTransGen.cases_tail h with h | ⟨uri, hreach, hedge, hname⟩
  · exact .inl h
  · obtain ⟨group, hgroup, rfl, -, hbit⟩ := hedge
    have hreach' : Relation.ReflTransGen (NamedSubjectEdge db) userId uri :=
      hreach.lift id namedSubjectEdge_of_object
    refine .inr ⟨hname, _, ⟨uri, hreach', group, hgroup, rfl, rfl⟩, ?_⟩
    rw [has_and, hbit, has_fifteen, decide_eq_true hb]
    rfl

/-- **Every right is found**: a bit that the record of a group grants to a subject is in the answer
when membership records that list it lead from the user to the subject, and from the object to the
group unless that is the group of all resources.

**Proof sketch.** The check gives its decision (`authorize_eq`), which without a filter and without
exclusive groups is what the records of the visited groups grant. The group is visited with the bit
(`exists_visit`) and the subject is collected with it (`exists_subject`), so its entry counts. -/
theorem authorize_complete {db : Storage} (hdb : db.Reliable) (hmarkers : db.NoMarkers)
    {id userId : String} (hfilter : filterValueOf db id = "") {b : Access}
    (hobject : ShallowBelow (NamedObjectEdge db b) id 32)
    (huser : ShallowBelow (NamedSubjectEdge db) userId 32) (hagree : Agreeing db userId)
    {s g : String} (hs : Relation.ReflTransGen (NamedObjectEdge db b) userId s)
    (hg : g = allResourcesGroup ∨ Relation.ReflTransGen (NamedObjectEdge db b) id g)
    (hgrant : GrantedBy db g s b) {requestAccess : U8} (hrequest : has requestAccess b = true)
    (trace : Trace) :
    ∃ m trace', authorize id userId requestAccess db trace = .ok (m, trace') ∧
      has m b = true := by
  obtain ⟨trace', h⟩ := authorize_eq hdb id userId requestAccess trace
  refine ⟨_, trace', h, ?_⟩
  have hb := hgrant.mem_allowBits
  have hexclusive := isExclusive_subjectsOf hmarkers hagree huser
  obtain ⟨r, hr, hsubject⟩ := exists_subject hmarkers hagree huser hb (listed_of_reach hb hs)
  obtain ⟨v, hv, rfl, hvb⟩ := exists_visit (subjectGroupsOf db userId) hb hobject
    true hg
  have hvisits : (⟨db, id, userId, requestAccess⟩ : Query).visits₁ =
      objectVisits db (subjectGroupsOf db userId) id true := by
    unfold Query.visits₁
    rw [hexclusive]
    rfl
  have hpass : (⟨db, id, userId, requestAccess⟩ : Query).visits₁.2.pass = true := by
    rw [hvisits]
    exact pass_plainWalk _ _ _ _ _ _ rfl
  have hreq : has (requestWithFilter db id requestAccess) b = true := by
    unfold requestWithFilter
    unfold filterValueOf at hfilter
    cases hfind : findFilter db id with
    | none => exact hrequest
    | some found =>
      obtain ⟨value, allow⟩ := found
      rw [hfind] at hfilter
      change value = "" at hfilter
      dsimp only
      rwa [if_pos (String.isEmpty_iff.mpr hfilter)]
  rw [Query.decision, if_pos (.inl hfilter), if_pos hpass, Query.unfiltered, hvisits]
  exact Pass.has_total hv (Pass.has_grants rfl hgrant hr hsubject hreq hvb)

theorem mem_of_memberGroups_ofList {l : List (String × String)} {uri : String} {group : Right}
    (h : group ∈ memberGroups (.ofList l) uri) : ∃ p ∈ l, group ∈ groupsOf p.2 := by
  unfold memberGroups Storage.ofList at h
  dsimp only at h
  cases hl : l.lookup (membershipPrefix ++ uri) with
  | none => simp [hl] at h
  | some value =>
    rw [hl] at h
    obtain ⟨l₁, l₂, rfl, -⟩ := List.lookup_eq_some_iff.mp hl
    exact ⟨(membershipPrefix ++ uri, value), by simp, h⟩

theorem noMarkers_ofList {l : List (String × String)}
    (h : ∀ p ∈ l, ∀ group ∈ groupsOf p.2, group.marker ≠ mIsExclusive ∧
      group.marker ≠ mIgnoreExclusive) : (Storage.ofList l).NoMarkers := by
  intro uri group hgroup
  obtain ⟨p, hp, hmem⟩ := mem_of_memberGroups_ofList hgroup
  exact h p hp group hmem

theorem shallowBelow_ofList {l : List (String × String)} (names : List String)
    (h : ∀ p ∈ l, ∀ group ∈ groupsOf p.2, group.id ∈ names) (hlen : names.length ≤ 32)
    (root : String) : ShallowBelow (NamedSubjectEdge (.ofList l)) root 32 := by
  have hnames : ∀ u v, NamedSubjectEdge (.ofList l) u v → v ∈ names := by
    rintro u v ⟨⟨group, hgroup, rfl⟩, -⟩
    obtain ⟨p, hp, hmem⟩ := mem_of_memberGroups_ofList hgroup
    exact h p hp group hmem
  exact (shallowBelow_of_mem hnames).mono (fun _ _ h => h) hlen

theorem agreeing_ofList {l : List (String × String)}
    (h : ∀ p ∈ l, ∀ q ∈ l, ∀ group ∈ groupsOf p.2, ∀ group' ∈ groupsOf q.2,
      group.id = group'.id → group.access = group'.access) (userId : String) :
    Agreeing (.ofList l) userId := by
  have hsame : ∀ g x y, Listed (.ofList l) userId g x → Listed (.ofList l) userId g y → x = y := by
    rintro g x y ⟨u, -, group, hgroup, rfl, rfl⟩ ⟨u', -, group', hgroup', hid, rfl⟩
    obtain ⟨p, hp, hmem⟩ := mem_of_memberGroups_ofList hgroup
    obtain ⟨q, hq, hmem'⟩ := mem_of_memberGroups_ofList hgroup'
    rw [h p hp q hq group hmem group' hmem' hid.symm]
  refine ⟨fun g x y _ hx hy => ?_, fun g x y _ => hsame g x y⟩
  rw [hsame g x y hx hy]
  exact .inl BitVec.and_self

/-- A document in a folder of a library, which the staff may read. -/
def sharedFolder : Storage :=
  .ofList [("Md:doc", "d:folder;F;"), ("Md:folder", "d:library;3;"), ("Md:user", "d:team;F;"),
    ("Md:team", "d:staff;2;"), ("Pd:library", "d:staff;2;")]

/-- A member of a team of the staff may read the document. -/
theorem authorize_complete_sharedFolder :
    ∃ m trace', authorize "d:doc" "d:user" 6 sharedFolder Trace.off = .ok (m, trace') ∧
      has m .canRead = true := by
  have hshallow : ∀ root, ShallowBelow (NamedSubjectEdge sharedFolder) root 32 :=
    shallowBelow_ofList ["d:folder", "d:library", "d:team", "d:staff"] (by decide) (by decide)
  have huser : Relation.ReflTransGen (NamedObjectEdge sharedFolder .canRead) "d:user" "d:staff" :=
    .tail (.single (show NamedObjectEdge sharedFolder .canRead "d:user" "d:team" by decide))
      (by decide)
  have hobject : Relation.ReflTransGen (NamedObjectEdge sharedFolder .canRead) "d:doc"
      "d:library" :=
    .tail (.single (show NamedObjectEdge sharedFolder .canRead "d:doc" "d:folder" by decide))
      (by decide)
  exact authorize_complete (Storage.reliable_ofList _) (noMarkers_ofList (by decide)) (by decide)
    ((hshallow _).mono namedSubjectEdge_of_object le_rfl) (hshallow _)
    (agreeing_ofList (by decide) _) huser (.inr hobject) (by unfold GrantedBy; decide)
    (by decide) Trace.off

/-! ## What the check passes over -/

/-- Membership records that list a bit lead from one group to another, at most `n` of them. -/
def ChainWithin (db : Storage) (b : Access) (n : ℕ) (x y : String) : Prop :=
  ∃ l : List String, l.length ≤ n ∧ List.IsChain (NamedObjectEdge db b) (x :: l) ∧
    (x :: l).getLast? = some y

/-- Every right behind chains of at most 30 records is found, also behind the groups of the group of
all resources. -/
def FindsShortChains (db : Storage) (id userId : String) : Prop :=
  ∀ (b : Access) (s g : String) (requestAccess : U8) (trace : Trace),
    ChainWithin db b 30 userId s →
    (ChainWithin db b 30 id g ∨ ChainWithin db b 30 allResourcesGroup g) → GrantedBy db g s b →
    has requestAccess b = true →
    ∃ m trace', authorize id userId requestAccess db trace = .ok (m, trace') ∧ has m b = true

theorem not_findsShortChains_of {db : Storage} {id userId : String} (b : Access) (s g : String)
    (requestAccess : U8) (hs : ChainWithin db b 30 userId s)
    (hg : ChainWithin db b 30 id g ∨ ChainWithin db b 30 allResourcesGroup g)
    (hgrant : GrantedBy db g s b) (hrequest : has requestAccess b = true)
    (h : (authorize id userId requestAccess db Trace.off).toOption.map Prod.fst = some 0) :
    ¬ FindsShortChains db id userId := by
  intro hfinds
  obtain ⟨m, trace', hok, hm⟩ := hfinds b s g requestAccess Trace.off hs hg hgrant hrequest
  rw [hok] at h
  obtain rfl : m = 0 := Option.some.inj h
  rw [show has (0 : U8) b = false from has_zero b] at hm
  cases hm

/-- The group of all resources is in a group. -/
def groupOfAll : Storage :=
  .ofList [("Mv-s:AllResourcesGroup", "d:all;F;"), ("Pd:all", "d:user;2;")]

/-- The team of the user is listed twice, for reading and then for updating. -/
def teamTwice : Storage :=
  .ofList [("Md:user", "d:a;F;d:b;F;"), ("Md:a", "d:team;2;"), ("Md:b", "d:team;4;"),
    ("Pd:doc", "d:team;2;")]

/-- A folder is met at the end of a long chain of groups before it is met directly. -/
def deepFolder : Storage :=
  .ofList (("Md:doc", "d:g0;F;d:folder;F;") :: ("Md:folder", "d:shelf;F;") ::
    ("Pd:shelf", "d:user;2;") :: ("Md:g31", "d:folder;F;") ::
    (List.range 31).map fun n => ("Md:g" ++ toString n, "d:g" ++ toString (n + 1) ++ ";F;"))

/-- The check overlooks a right that chains of at most 30 records lead to. -/
structure Overlooks (db : Storage) (id userId : String) : Prop where
  reliable : db.Reliable
  noMarkers : db.NoMarkers
  noFilter : filterValueOf db id = ""
  notFinds : ¬ FindsShortChains db id userId

theorem overlooks_groupOfAll : Overlooks groupOfAll "d:doc" "d:user" where
  reliable := Storage.reliable_ofList _
  noMarkers := noMarkers_ofList (by decide)
  noFilter := by decide
  notFinds := not_findsShortChains_of .canRead "d:user" "d:all" 2 ⟨[], by decide, by simp, rfl⟩
    (.inr ⟨["d:all"], by decide, by decide, rfl⟩) (by unfold GrantedBy; decide) (by decide)
    (by decide)

theorem overlooks_teamTwice : Overlooks teamTwice "d:doc" "d:user" where
  reliable := Storage.reliable_ofList _
  noMarkers := noMarkers_ofList (by decide)
  noFilter := by decide
  notFinds := not_findsShortChains_of .canRead "d:team" "d:doc" 2
    ⟨["d:a", "d:team"], by decide, by decide, rfl⟩ (.inl ⟨[], by decide, by simp, rfl⟩)
    (by unfold GrantedBy; decide) (by decide) (by decide)

theorem overlooks_deepFolder : Overlooks deepFolder "d:doc" "d:user" where
  reliable := Storage.reliable_ofList _
  noMarkers := noMarkers_ofList (by decide +kernel)
  noFilter := by decide +kernel
  notFinds := not_findsShortChains_of .canRead "d:user" "d:shelf" 2 ⟨[], by decide, by simp, rfl⟩
    (.inl ⟨["d:folder", "d:shelf"], by decide, by decide +kernel, rfl⟩)
    (by unfold GrantedBy; decide +kernel) (by decide) (by decide +kernel)

/-- **Rights that are not found**: behind a group of the group of all resources; where a group of
the user is listed for other bits as well; behind a group that a long chain meets first. -/
theorem not_findsShortChains :
    (¬ ∀ (db : Storage) (id userId : String), db.Reliable → db.NoMarkers →
      filterValueOf db id = "" → FindsShortChains db id userId) ∧
    Overlooks groupOfAll "d:doc" "d:user" ∧ Overlooks teamTwice "d:doc" "d:user" ∧
    Overlooks deepFolder "d:doc" "d:user" := by
  refine ⟨fun h => ?_, overlooks_groupOfAll, overlooks_teamTwice, overlooks_deepFolder⟩
  have hall := overlooks_groupOfAll
  exact hall.notFinds (h _ _ _ hall.reliable hall.noMarkers hall.noFilter)

end Veda.Authorization
