import Veda.Authorization.Decision
import Mathlib.Logic.Relation

set_option autoImplicit false

/-!
# Every right is justified

A bit that a check grants has a reason in the records: an object node that is reached along
membership edges that carry the bit, a subject node of the user, and an entry of an access control
record that allows the bit and does not deny it.

## Main definitions

* `Authorization.ObjectEdge`, `Authorization.SubjectEdge` — the membership graph.
* `Authorization.Justified` — a bit has a reason in the records.

## Main results

* `Authorization.authorize_justified` — every bit that a check grants has one.
-/

namespace Veda.Authorization

open Veda.Lib

/-! ## The membership graph -/

/-- The groups that the membership record of a node lists. -/
def memberGroups (db : Storage) (uri : String) : List Right :=
  match db.get (membershipPrefix ++ uri) with
  | .ok groupsStr => groupsOf groupsStr
  | .error _ => []

/-- A group lists a bit for an object, and is not exclusive. -/
def ObjectEdge (db : Storage) (b : Access) (uri g : String) : Prop :=
  ∃ group ∈ memberGroups db uri, group.id = g ∧ group.marker ≠ mIsExclusive ∧
    has group.access b = true

/-- A group lists a subject. -/
def SubjectEdge (db : Storage) (uri g : String) : Prop :=
  ∃ group ∈ memberGroups db uri, group.id = g

/-- A node counts for a user and a bit: it is the user, or it is reached from the user, the last
edge having the bit. -/
def SubjectNode (db : Storage) (userId : String) (b : Access) (s : String) : Prop :=
  s = userId ∨ ∃ uri, Relation.ReflTransGen (SubjectEdge db) userId uri ∧
    ∃ group ∈ memberGroups db uri, group.id = s ∧ has group.access b = true

/-! ## The object -/

theorem mem_plainGroups {subjectGroups : HashMap String Right}
    {walk : String → U8 → ObjWalk → List Visit × ObjWalk} (uri : String) (access level : U8)
    (len : ℕ) (groups : List Right) (idx : ℕ) (suffix : Bool) (w : ObjWalk) {v : Visit}
    (hv : v ∈ (plainGroups subjectGroups walk uri access level len idx groups suffix w).1) :
    ∃ group ∈ groups, group.marker ≠ mIsExclusive ∧
      ((v.group = group.id ∧ v.access = group.access &&& access) ∨
        ∃ w', v ∈ (walk group.id (group.access &&& access) w').1) := by
  induction groups generalizing idx suffix w with
  | nil => cases hv
  | cons group groups ih =>
    have hih : ∀ idx suffix w,
        v ∈ (plainGroups subjectGroups walk uri access level len idx groups suffix w).1 →
        ∃ group' ∈ group :: groups, group'.marker ≠ mIsExclusive ∧
          ((v.group = group'.id ∧ v.access = group'.access &&& access) ∨
            ∃ w', v ∈ (walk group'.id (group'.access &&& access) w').1) := by
      intro idx suffix w hv
      obtain ⟨group', hmem, h⟩ := ih idx suffix w hv
      exact ⟨group', List.mem_cons_of_mem _ hmem, h⟩
    rw [plainGroups] at hv
    dsimp only at hv
    split_ifs at hv with h1 h2 h3 h4
    · exact hih _ _ _ hv
    · exact hih _ _ _ hv
    · exact hih _ _ _ hv
    · exact hih _ _ _ hv
    · rw [List.mem_cons, List.mem_append] at hv
      rcases hv with rfl | hv | hv
      · exact ⟨group, List.mem_cons_self, h2, .inl ⟨rfl, rfl⟩⟩
      · exact ⟨group, List.mem_cons_self, h2, .inr ⟨_, hv⟩⟩
      · exact hih _ _ _ hv

/-- **A visited group is reached with its bits**: along edges all of which have the bit. -/
theorem reach_of_mem_plainWalk {db : Storage} {subjectGroups : HashMap String Right} (left : ℕ)
    (uri : String) (access : U8) (w : ObjWalk) {v : Visit}
    (hv : v ∈ (plainWalk db subjectGroups left uri access w).1) {b : Access}
    (hb : has v.access b = true) :
    has access b = true ∧ Relation.ReflTransGen (ObjectEdge db b) uri v.group := by
  induction left generalizing uri access w with
  | zero => cases hv
  | succ left ih =>
    rw [plainWalk] at hv
    cases hget : db.get (membershipPrefix ++ uri) with
    | error e => rw [hget] at hv; cases hv
    | ok str =>
      rw [hget] at hv
      obtain ⟨group, hmem, hmark, h⟩ := mem_plainGroups _ _ _ _ _ _ _ _ hv
      have hedge : has group.access b = true → ObjectEdge db b uri group.id := by
        intro hg
        refine ⟨group, ?_, rfl, hmark, hg⟩
        rwa [memberGroups, hget]
      rcases h with ⟨hg, ha⟩ | ⟨w', hv'⟩
      · rw [ha, has_and, Bool.and_eq_true] at hb
        rw [hg]
        exact ⟨hb.2, .single (hedge hb.1)⟩
      · obtain ⟨ha, hreach⟩ := ih group.id _ w' hv'
        rw [has_and, Bool.and_eq_true] at ha
        exact ⟨ha.2, .head (hedge ha.1) hreach⟩

theorem reach_of_mem_objectVisits {db : Storage} {subjectGroups : HashMap String Right}
    {id : String} {pass : Bool} {v : Visit}
    (hv : v ∈ (objectVisits db subjectGroups id pass).1) {b : Access}
    (hb : has v.access b = true) :
    v.group = id ∨ v.group = allResourcesGroup ∨
      Relation.ReflTransGen (ObjectEdge db b) id v.group := by
  rcases List.mem_append.mp hv with hv | hv
  · obtain ⟨g, hg, rfl⟩ := List.mem_map.mp hv
    rw [List.mem_cons, List.mem_singleton] at hg
    exact hg.symm.imp_right .inl
  · exact .inr (.inr (reach_of_mem_plainWalk _ _ _ _ hv hb).2)

/-! ## The subject -/

/-- The groups that are collected are nodes of the user. -/
def Collected (db : Storage) (userId : String) (results : HashMap String Right) : Prop :=
  ∀ s r, results.lookup s = some r → ∀ b, has r.access b = true → SubjectNode db userId b s

theorem collected_plainSubject {db : Storage} {userId uri : String}
    {walk : String → Bool → Subjects → Subjects}
    (hwalk : ∀ id ignore w, Relation.ReflTransGen (SubjectEdge db) userId id →
      Collected db userId w.results → Collected db userId (walk id ignore w).results)
    (huri : Relation.ReflTransGen (SubjectEdge db) userId uri) (access level : U8)
    (ignoreExclusive : Bool) {group : Right} (hgroup : group ∈ memberGroups db uri)
    {w : Subjects} (h : Collected db userId w.results) :
    Collected db userId
      (plainSubject walk uri access level ignoreExclusive w group).results := by
  unfold plainSubject
  dsimp only
  split_ifs
  · exact h
  · exact h
  · exact h
  all_goals
    have hedge : Relation.ReflTransGen (SubjectEdge db) userId group.id :=
      huri.tail ⟨group, hgroup, rfl⟩
    intro s r hr b hb
    by_cases hs : s = group.id
    · subst hs
      rw [AList.lookup_insert] at hr
      obtain rfl := Option.some.inj hr
      rw [keptGroup, has_and, Bool.and_eq_true] at hb
      exact .inr ⟨uri, huri, group, hgroup, rfl, hb.1⟩
    · rw [AList.lookup_insert_ne hs] at hr
      refine hwalk _ _ _ hedge ?_ s r hr b hb
      exact h

theorem collected_plainSubjects {db : Storage} {userId : String} (left : ℕ) (uri : String)
    (access : U8) (ignoreExclusive : Bool) (w : Subjects)
    (huri : Relation.ReflTransGen (SubjectEdge db) userId uri)
    (h : Collected db userId w.results) :
    Collected db userId (plainSubjects db left uri access ignoreExclusive w).results := by
  induction left generalizing uri access ignoreExclusive w with
  | zero => exact h
  | succ left ih =>
    rw [plainSubjects]
    cases hget : db.get (membershipPrefix ++ uri) with
    | error e => exact h
    | ok str =>
      have hmem : ∀ group ∈ groupsOf str, group ∈ memberGroups db uri := by
        intro group hg
        rwa [memberGroups, hget]
      dsimp only
      generalize groupsOf str = groups at hmem ⊢
      induction groups generalizing w with
      | nil => exact h
      | cons group groups ihg =>
        refine ihg _ ?_ fun g hg => hmem g (List.mem_cons_of_mem _ hg)
        exact collected_plainSubject (fun id ignore w hid hw => ih id 15 ignore w hid hw) huri
          access _ ignoreExclusive (hmem group List.mem_cons_self) h

theorem subjectNode_of_lookup {db : Storage} {userId s : String} {r : Right}
    (h : (subjectGroupsOf db userId).lookup s = some r) {b : Access}
    (hb : has r.access b = true) : SubjectNode db userId b s := by
  by_cases hs : s = userId
  · exact .inl hs
  · rw [subjectGroupsOf, AList.lookup_insert_ne hs] at h
    refine collected_plainSubjects maxLevels userId 15 false _ .refl ?_ s r h b hb
    intro s r hr
    rw [AList.lookup_empty] at hr
    cases hr

/-! ## The reason of a bit -/

/-- The filter was found for the object or for one of the groups of its own record. -/
def FilterFound (db : Storage) (id filterValue : String) : Prop :=
  ∃ grObj ∈ firstLevelObjectGroups db id, ∃ allow, getFilter grObj.id db = some (filterValue, allow)

/-- A bit has a reason in the records: an object node, a subject node and an entry for the subject
in the record of the object, with the filter or without it, that allows the bit and does not deny
it. -/
def Justified (db : Storage) (id userId : String) (b : Access) : Prop :=
  ∃ g s key, (g = id ∨ g = allResourcesGroup ∨ Relation.ReflTransGen (ObjectEdge db b) id g) ∧
    SubjectNode db userId b s ∧
    (key = permissionPrefix ++ g ∨
      ∃ filterValue, FilterFound db id filterValue ∧ key = permissionPrefix ++ filterValue ++ g) ∧
    ∃ record, db.get key = .ok record ∧ ∃ entry ∈ groupsOf record, entry.id = s ∧
      has entry.access b = true ∧ has entry.access b.denial = false

theorem justified_of_total {db : Storage} {id userId : String} {p : Pass} (hdb : p.db = db)
    (hs : p.subjectGroups = subjectGroupsOf db userId)
    (hf : p.filterValue = "" ∨ FilterFound db id p.filterValue) (pass : Bool) {b : Access}
    (hb : has (p.total (objectVisits db (subjectGroupsOf db userId) id pass).1) b = true) :
    b ∈ allowBits ∧ has p.request b = true ∧ Justified db id userId b := by
  obtain ⟨v, hv, hgrant⟩ : ∃ v ∈ (objectVisits db (subjectGroupsOf db userId) id pass).1,
      has (p.grants v.group v.access) b = true := by
    generalize (objectVisits db (subjectGroupsOf db userId) id pass).1 = vs at hb
    induction vs with
    | nil => simp [Pass.total] at hb
    | cons v vs ih =>
      rw [Pass.total, has_or, Bool.or_eq_true] at hb
      rcases hb with hb | hb
      · exact ⟨v, List.mem_cons_self, hb⟩
      · obtain ⟨u, hu, h⟩ := ih hb
        exact ⟨u, List.mem_cons_of_mem _ hu, h⟩
  unfold Pass.grants grants at hgrant
  obtain ⟨hreq, hacc, hallow⟩ := recordGrants_le _ _ _ _ hgrant
  refine ⟨hallow, hreq, ?_⟩
  obtain ⟨entry, hentry, hbit⟩ := (has_recordGrants _ _ _ _ _).mp hgrant
  cases hl : p.subjectGroups.lookup entry.id with
  | none => simp [entryGrants, hl] at hbit
  | some subjGr =>
    obtain ⟨-, -, -, hsubj, hperm⟩ := (has_entryGrants _ _ hl b).mp hbit
    rw [has_permissionAccess _ hallow, Bool.and_eq_true, Bool.not_eq_true'] at hperm
    rw [hs] at hl
    unfold aclOf at hentry
    cases hget : p.db.get (aclKey p.filterValue v.group) with
    | error e => rw [hget] at hentry; cases hentry
    | ok record =>
      rw [hget] at hentry
      refine ⟨v.group, entry.id, aclKey p.filterValue v.group, reach_of_mem_objectVisits hv hacc,
        subjectNode_of_lookup hl hsubj, ?_, record, hdb ▸ hget, entry, hentry, rfl, hperm⟩
      unfold aclKey
      split_ifs with he
      · exact .inl rfl
      · exact .inr ⟨_, hf.resolve_left fun h => he (String.isEmpty_iff.mpr h), rfl⟩

theorem filterFound_filterValueOf (db : Storage) (id : String) :
    filterValueOf db id = "" ∨ FilterFound db id (filterValueOf db id) := by
  unfold filterValueOf
  cases hfind : findFilter db id with
  | none => exact .inl rfl
  | some found =>
    obtain ⟨value, allow⟩ := found
    obtain ⟨grObj, hmem, hget⟩ := List.exists_of_findSome?_eq_some hfind
    exact .inr ⟨grObj, hmem, allow, hget⟩

theorem requestWithFilter_le {db : Storage} {id : String} {requestAccess : U8} {b : Access}
    (h : has (requestWithFilter db id requestAccess) b = true) : has requestAccess b = true := by
  unfold requestWithFilter at h
  split at h
  · split_ifs at h
    · exact h
    · rw [has_and, Bool.and_eq_true] at h
      exact h.1
  · exact h

/-- **Every right is justified**: a check of a storage whose reads do not fail gives an answer, and
each of its bits is one of the four allow bits, is requested and has a reason in the records. -/
theorem authorize_justified {db : Storage} (hdb : db.Reliable) (id userId : String)
    (requestAccess : U8) (trace : Trace) :
    ∃ m trace', authorize id userId requestAccess db trace = .ok (m, trace') ∧
      ∀ b, has m b = true →
        b ∈ allowBits ∧ has requestAccess b = true ∧ Justified db id userId b := by
  obtain ⟨trace', h⟩ := authorize_eq hdb id userId requestAccess trace
  refine ⟨_, trace', h, fun b hb => ?_⟩
  generalize hq : (⟨db, id, userId, requestAccess⟩ : Query) = q at hb
  have h₁ : has q.unfiltered b = true → b ∈ allowBits ∧ has requestAccess b = true ∧
      Justified db id userId b := by
    subst hq
    intro hu
    obtain ⟨ha, hr, hj⟩ := justified_of_total rfl rfl (.inl rfl) _ hu
    exact ⟨ha, requestWithFilter_le hr, hj⟩
  have h₂ : has q.filtered b = true → b ∈ allowBits ∧ has requestAccess b = true ∧
      Justified db id userId b := by
    subst hq
    exact fun hf => justified_of_total rfl rfl (filterFound_filterValueOf db id) _ hf
  unfold Query.decision at hb
  split_ifs at hb
  · exact h₁ hb
  · rw [show has (0 : U8) b = false from has_zero b] at hb
    cases hb
  · rw [has_or, Bool.or_eq_true] at hb
    exact hb.elim h₁ h₂
  · rw [show has (0 : U8) b = false from has_zero b] at hb
    cases hb

/-- On a document with a filter the check gives reading, which the record of the document allows. -/
theorem authorize_justified_filteredDocument :
    ∃ m trace', authorize "d:doc" "d:user" 6 filteredDocument Trace.off = .ok (m, trace') ∧
      ∀ b, has m b = true →
        b ∈ allowBits ∧ has (6 : U8) b = true ∧ Justified filteredDocument "d:doc" "d:user" b :=
  authorize_justified (Storage.reliable_ofList _) "d:doc" "d:user" 6 Trace.off

end Veda.Authorization
