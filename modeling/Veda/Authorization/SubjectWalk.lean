import Veda.Authorization.RecordCheck

set_option autoImplicit false

/-!
# The plain walk over the groups of a subject

Tracing does not change which groups of a subject are collected. This file defines the walk without
tracing and shows that the traced one collects the same groups.

## Main definitions

* `Authorization.Subjects` — the groups of a subject, as they are collected.
* `Authorization.plainSubjects` — the walk without tracing.

## Main results

* `Authorization.getResourceGroups_eq` — the walk of the source follows it.
-/

namespace Veda.Authorization

open Veda.Lib

/-- The groups of a subject, as they are collected. -/
structure Subjects where
  walked : HashMap String (U8 × Char)
  results : HashMap String Right
  isExclusive : Bool

/-- The entry under which a group is kept. -/
def keptGroup (results : HashMap String Right) (level newAccess : U8) (group : Right) : Right where
  id := group.id
  access := newAccess
  marker := newGroupMarker (results.lookup group.id) group.marker
  isDeleted := group.isDeleted
  level := level
  counters := ∅

/-- One group of a record, as the plain walk meets it. -/
def plainSubject (walk : String → Bool → Subjects → Subjects) (uri : String) (access : U8)
    (level : U8) (ignoreExclusive : Bool) (w : Subjects) (group : Right) : Subjects :=
  if group.id.isEmpty then w
  else
    let newAccess := group.access &&& access
    let walked := w.walked.lookup group.id
    if walkedBefore walked newAccess group.marker then w
    else
      let w := { w with
        walked := w.walked.insert group.id
          (newAccess ||| (walked.map Prod.fst).getD 0, group.marker) }
      if uri = group.id then w
      else
        let w := walk group.id
          (if !ignoreExclusive && group.marker == mIgnoreExclusive then true else ignoreExclusive) w
        { w with
          isExclusive := w.isExclusive || (!ignoreExclusive && group.marker == mIsExclusive)
          results := w.results.insert group.id (keptGroup w.results level newAccess group) }

/-- The plain walk from a group, with `left` levels left. -/
def plainSubjects (db : Storage) (left : ℕ) (uri : String) (access : U8) (ignoreExclusive : Bool)
    (w : Subjects) : Subjects :=
  match left with
  | 0 => w
  | left + 1 =>
    match db.get (membershipPrefix ++ uri) with
    | .ok groupsStr =>
      (groupsOf groupsStr).foldl
        (plainSubject (fun id ignore w => plainSubjects db left id 15 ignore w)
          uri access (BitVec.ofNat 8 (32 - left)) ignoreExclusive) w
    | .error _ => w

/-- The part of the walk that is kept. -/
def SubjectWalk.core (w : SubjectWalk) : Subjects := ⟨w.walkedGroups, w.results, w.outFIsExclusive⟩

/-- A walk that succeeds, collects what the plain one does and keeps the kind of tracing. -/
def Collects (w : SubjectWalk) (plain : Subjects) (w' : SubjectWalk) : Prop :=
  w'.core = plain ∧ w'.trace.isOn = w.trace.isOn

section Visit

variable {walk : String → Bool → SubjectWalk → Except Int (Bool × SubjectWalk)}
  {plain : String → Bool → Subjects → Subjects}

theorem visitSubjectGroup_eq
    (hwalk : ∀ id ignore w, ∃ res w', walk id ignore w = .ok (res, w') ∧
      Collects w (plain id ignore w.core) w')
    (uri : String) (access level : U8) (ignoreExclusive : Bool) (w : SubjectWalk)
    (group : Right) :
    ∃ w', visitSubjectGroup walk uri access level ignoreExclusive w group = .ok w' ∧
      Collects w (plainSubject plain uri access level ignoreExclusive w.core group) w' := by
  unfold visitSubjectGroup plainSubject
  dsimp only
  by_cases h1 : group.id.isEmpty = true
  · rw [if_pos h1, if_pos h1]
    exact ⟨w, rfl, rfl, rfl⟩
  rw [if_neg h1, if_neg h1]
  have hw : w.core.walked = w.walkedGroups := rfl
  rw [hw]
  by_cases h2 : walkedBefore (w.walkedGroups.lookup group.id) (group.access &&& access)
      group.marker = true
  · rw [if_pos h2, if_pos h2]
    exact ⟨w, rfl, rfl, rfl⟩
  rw [if_neg h2, if_neg h2]
  by_cases h3 : uri = group.id
  · rw [if_pos h3, if_pos h3]
    exact ⟨_, rfl, rfl, rfl⟩
  rw [if_neg h3, if_neg h3]
  obtain ⟨res, w', hok, hcore, htrace⟩ := hwalk group.id
    (if !ignoreExclusive && group.marker == mIgnoreExclusive then true else ignoreExclusive)
    { w with
      walkedGroups := w.walkedGroups.insert group.id (group.access &&& access |||
        ((w.walkedGroups.lookup group.id).map Prod.fst).getD 0, group.marker)
      treeGroups := if w.trace.isInfo then w.treeGroups.insert group.id uri else w.treeGroups }
  rw [hok]
  refine ⟨_, rfl, ?_, ?_⟩
  · have hcore' := hcore
    simp only [SubjectWalk.core] at hcore' ⊢
    rw [← hcore']
    by_cases hx : (!ignoreExclusive && group.marker == mIsExclusive) = true
    · simp [hx, SubjectWalk.foundExclusive, keptGroup]
    · simp [hx, keptGroup]
  · refine Eq.trans ?_ htrace
    dsimp only
    split_ifs
    · unfold SubjectWalk.foundExclusive
      dsimp only
      split_ifs <;> rfl
    · rfl

theorem foldlM_visitSubjectGroup
    (hwalk : ∀ id ignore w, ∃ res w', walk id ignore w = .ok (res, w') ∧
      Collects w (plain id ignore w.core) w')
    (uri : String) (access level : U8) (ignoreExclusive : Bool) (groups : List Right)
    (w : SubjectWalk) :
    ∃ w', groups.foldlM (visitSubjectGroup walk uri access level ignoreExclusive) w = .ok w' ∧
      Collects w (groups.foldl (plainSubject plain uri access level ignoreExclusive) w.core) w' := by
  induction groups generalizing w with
  | nil => exact ⟨w, rfl, rfl, rfl⟩
  | cons group groups ih =>
    obtain ⟨w₁, hok₁, hc₁, ht₁⟩ :=
      visitSubjectGroup_eq hwalk uri access level ignoreExclusive w group
    obtain ⟨w₂, hok₂, hc₂, ht₂⟩ := ih w₁
    refine ⟨w₂, ?_, ?_, ht₂.trans ht₁⟩
    · rw [List.foldlM_cons, hok₁]
      exact hok₂
    · rw [hc₂, hc₁, List.foldl_cons]

end Visit

/-- **Tracing collects the same groups.** -/
theorem getResourceGroups_eq {db : Storage} (hdb : db.Reliable) (left : ℕ) (uri : String)
    (access : U8) (ignoreExclusive : Bool) (w : SubjectWalk) :
    ∃ res w', getResourceGroups db left uri access ignoreExclusive w = .ok (res, w') ∧
      Collects w (plainSubjects db left uri access ignoreExclusive w.core) w' := by
  induction left generalizing uri access ignoreExclusive w with
  | zero => exact ⟨_, w, rfl, rfl, rfl⟩
  | succ left ih =>
    rw [getResourceGroups, plainSubjects]
    cases hget : db.get (membershipPrefix ++ uri) with
    | error e =>
      dsimp only
      rw [if_neg (not_lt.mpr (hdb _ _ hget))]
      exact ⟨_, w, rfl, rfl, rfl⟩
    | ok str =>
      obtain ⟨w', hok, hc⟩ := foldlM_visitSubjectGroup
        (fun id ignore w => ih id 15 ignore w) uri access (BitVec.ofNat 8 (32 - left))
        ignoreExclusive (groupsOf str) w
      refine ⟨false, w', ?_, hc⟩
      dsimp only
      rw [hok]
      rfl

end Veda.Authorization
