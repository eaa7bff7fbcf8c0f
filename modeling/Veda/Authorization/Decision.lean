import Veda.Authorization.ObjectWalk
import Veda.Authorization.SubjectWalk

set_option autoImplicit false

/-!
# The decision of a check

The answer of a check in terms of the plain walks: the bits that the records of the visited groups
grant, without and with the filter of the object, and the place at which an untraced check stops.
Tracing a check changes its answer only where it stops before the filter is tried.

## Main definitions

* `Authorization.objectVisits` — the groups that one pass visits.
* `Authorization.Query` — a request, with what the check finds before its first pass.
* `Authorization.Query.decision` — the answer.

## Main results

* `Authorization.authorize_eq` — the check gives this answer.
* `Authorization.authorize_traced_eq_iff` — when tracing does not change the answer.
-/

namespace Veda.Authorization

open Veda.Lib

/-! ## One pass -/

/-- The visits to the groups that are checked before the walk. -/
def firstVisits (pass : Bool) (groups : List String) : List Visit :=
  groups.map fun g => ⟨g, 15, 0, pass⟩

theorem firstVisits_cons (pass : Bool) (g : String) (groups : List String) :
    firstVisits pass (g :: groups) = ⟨g, 15, 0, pass⟩ :: firstVisits pass groups := rfl

/-- The groups that one pass visits, from a state in which the final check passes or not. -/
def objectVisits (db : Storage) (subjectGroups : HashMap String Right) (id : String)
    (pass : Bool) : List Visit × ObjWalk :=
  let out := plainWalk db subjectGroups maxLevels id 15 ⟨∅, pass⟩
  (firstVisits pass [allResourcesGroup, id] ++ out.1, out.2)

theorem pass_of_mem_objectVisits {db : Storage} {subjectGroups : HashMap String Right}
    {id : String} {pass : Bool} {v : Visit}
    (hv : v ∈ (objectVisits db subjectGroups id pass).1) (hp : v.pass = true) :
    (objectVisits db subjectGroups id pass).2.pass = true := by
  rcases List.mem_append.mp hv with hv | hv
  · obtain ⟨g, -, rfl⟩ := List.mem_map.mp hv
    exact pass_plainWalk _ _ _ _ _ _ hp
  · exact pass_of_mem_plainWalk _ _ _ _ _ _ v hv hp

theorem finalCheck_eq (st : AzState) :
    (finalCheck st).1 = st.passes ∧ (finalCheck st).2.azc = st.azc ∧
      (finalCheck st).2.trace.isOn = st.trace.isOn := by
  refine ⟨?_, ?_, ?_⟩
  · unfold finalCheck AzState.passes
    cases hn : st.azc.isNeedExclusiveAz <;> cases hf : st.azc.isFoundExclusiveAz <;> simp [hn, hf]
  · unfold finalCheck
    dsimp only
    split_ifs <;> rfl
  · unfold finalCheck
    dsimp only
    split_ifs <;> rfl

namespace Pass

variable (p : Pass)

instance (level rights : U8) (vs : List Visit) : Decidable (p.AnswersIn level rights vs) :=
  decidable_of_iff ((p.firstStop rights vs).any fun v => v.level == level && v.pass) (by
    unfold AnswersIn
    cases p.firstStop rights vs <;> simp)

theorem Holds.finalCheck {p : Pass} {st : AzState} (h : p.Holds st) :
    p.Holds (finalCheck st).2 := by
  obtain ⟨-, hazc, hon⟩ := finalCheck_eq st
  refine ⟨?_, ?_, ?_, hon.trans h.isOn, ?_⟩
  · rw [hazc]
    exact h.filterValue
  · rw [hazc]
    exact h.subjectGroups
  · rw [hazc]
    exact h.isNeed
  · intro objId objAccess hck a ha
    have hcore : (Authorization.finalCheck st).2.core = st.core := by
      unfold AzState.core
      rw [hazc, hon]
    rw [hcore] at hck ha ⊢
    exact h.checked objId objAccess hck a ha

theorem answersIn_append {level rights : U8} {vs ws : List Visit} :
    p.AnswersIn level rights (vs ++ ws) ↔
      p.AnswersIn level rights vs ∨ p.AnswersIn level (rights ||| p.total vs) ws := by
  unfold AnswersIn
  rw [firstStop_append]
  cases hf : p.firstStop rights vs with
  | none => simp
  | some v => simp [p.firstStop_of_stops (p.stops_of_firstStop hf)]

theorem answersIn_firstVisits (rights : U8) (pass : Bool) (g : String) (groups : List String) :
    p.AnswersIn 0 rights (firstVisits pass (g :: groups)) ↔
      if !p.stops rights && p.stops (rights ||| p.grants g 15) then pass = true
      else p.AnswersIn 0 (rights ||| p.grants g 15) (firstVisits pass groups) := by
  have h := p.answersIn_cons rights ⟨g, 15, 0, pass⟩ (firstVisits pass groups) rfl
    (show ∀ u ∈ ([] : List Visit), u.level ≠ 0 by simp)
  rwa [List.nil_append, total, show ∀ x : U8, x ||| 0 = x from fun _ => BitVec.or_zero] at h

theorem AnswersIn.stops {p : Pass} {level rights : U8} {vs : List Visit}
    (h : p.AnswersIn level rights vs) : p.stops (rights ||| p.total vs) = true := by
  obtain ⟨v, hv, -⟩ := h
  exact p.stops_of_firstStop hv

theorem authorizeFirst_eq (hdb : p.db.Reliable) (groups : List String) (st : AzState)
    (h : p.Holds st) :
    ∃ answer st', authorizeFirst p.db p.request groups st = .ok (answer, st') ∧ p.Holds st' ∧
      st'.azc.calcRightRes =
        st.azc.calcRightRes ||| p.total (firstVisits st.passes groups) ∧
      st'.azc.walkedGroupsO = st.azc.walkedGroupsO ∧ st'.passes = st.passes ∧
      answer = if p.AnswersIn 0 st.azc.calcRightRes (firstVisits st.passes groups) then
        some st'.azc.calcRightRes else none := by
  induction groups generalizing st with
  | nil =>
    refine ⟨none, st, rfl, h, by simp [firstVisits, total], rfl, rfl, ?_⟩
    simp [firstVisits, AnswersIn, firstStop]
  | cons g groups ih =>
    obtain ⟨res, st₁, hok, hh₁, hr₁, hw₁, hp₁, hres⟩ := p.authorizeObjGroup_holds hdb h g 15
    rw [authorizeFirst, hok]
    show ∃ answer st', (if res = true then
      if (finalCheck st₁).1 = true then
        Except.ok (some (finalCheck st₁).2.azc.calcRightRes, (finalCheck st₁).2)
      else authorizeFirst p.db p.request groups (finalCheck st₁).2
      else authorizeFirst p.db p.request groups st₁) = Except.ok (answer, st') ∧ _
    obtain ⟨hfin, hazc, -⟩ := finalCheck_eq st₁
    have hpf : (finalCheck st₁).2.passes = st₁.passes := by
      unfold AzState.passes
      rw [hazc]
    -- the rest of the list, from a state that differs in the trace only
    have hgo : ∀ st₂, p.Holds st₂ → st₂.azc = st₁.azc → st₂.passes = st₁.passes →
        ¬ (res = true ∧ st.passes = true) →
        ∃ answer st', authorizeFirst p.db p.request groups st₂ = .ok (answer, st') ∧ p.Holds st' ∧
          st'.azc.calcRightRes =
            st.azc.calcRightRes ||| p.total (firstVisits st.passes (g :: groups)) ∧
          st'.azc.walkedGroupsO = st.azc.walkedGroupsO ∧ st'.passes = st.passes ∧
          answer = if p.AnswersIn 0 st.azc.calcRightRes (firstVisits st.passes (g :: groups)) then
            some st'.azc.calcRightRes else none := by
      intro st₂ hh₂ hazc₂ hp₂ hnot
      obtain ⟨answer, st', hok', hh', hr', hw', hp', ha'⟩ := ih st₂ hh₂
      rw [hp₂, hp₁, hazc₂, hr₁] at hr' ha'
      refine ⟨answer, st', hok', hh', ?_, ?_, ?_, ?_⟩
      · rw [hr', firstVisits_cons, total, BitVec.or_assoc]
      · rw [hw', hazc₂, hw₁]
      · rw [hp', hp₂, hp₁]
      · rw [ha']
        refine if_congr ?_ rfl rfl
        rw [p.answersIn_firstVisits, ← hres]
        split_ifs with hc
        · refine ⟨?_, fun h => absurd ⟨hc, h⟩ hnot⟩
          rintro ⟨v, hv, -⟩
          rw [hres] at hc
          rw [p.firstStop_of_stops (Bool.and_eq_true_iff.mp hc).2] at hv
          cases hv
        · rfl
    by_cases hstop : res = true ∧ st.passes = true
    · obtain ⟨rfl, hpass⟩ := hstop
      have hstops : p.stops st₁.azc.calcRightRes = true := by
        rw [hr₁]
        exact (Bool.and_eq_true_iff.mp hres.symm).2
      have hall : st₁.azc.calcRightRes =
          st.azc.calcRightRes ||| p.total (firstVisits st.passes (g :: groups)) := by
        rw [firstVisits_cons, total, ← BitVec.or_assoc, ← hr₁]
        exact (p.or_eq_of_stops hstops fun a => p.total_le).symm
      rw [if_pos rfl, hfin, hp₁, if_pos hpass]
      refine ⟨_, _, rfl, hh₁.finalCheck, ?_, ?_, ?_, ?_⟩
      · rw [hazc, hall]
      · rw [hazc, hw₁]
      · rw [hpf, hp₁]
      · rw [if_pos]
        rw [p.answersIn_firstVisits, if_pos hres.symm]
        exact hpass
    · by_cases h1 : res = true
      · have h2 : ¬ (finalCheck st₁).1 = true := fun h2 =>
          hstop ⟨h1, hp₁.symm.trans (hfin.symm.trans h2)⟩
        rw [if_pos h1, if_neg h2]
        exact hgo _ hh₁.finalCheck hazc hpf hstop
      · rw [if_neg h1]
        exact hgo _ hh₁ rfl rfl hstop

theorem Follows.passes {p : Pass} {st : AzState} {w : ObjWalk} (h : p.Follows st w) :
    p.Holds st ∧ st.passes = w.pass := by
  rcases h with h | ⟨h, hw⟩
  · exact ⟨h.holds, h.passes⟩
  · exact ⟨h.holds, h.passes.trans hw.symm⟩

/-- **One pass**: it adds what the records of its visits grant, and answers at the first visit that
completes the request. -/
theorem authorizeObjGroups_eq (hdb : p.db.Reliable) (id : String) (st : AzState) (h : p.Holds st)
    (hw : st.azc.walkedGroupsO = ∅) :
    ∃ answer st', authorizeObjGroups p.db id p.request st = .ok (answer, st') ∧ p.Holds st' ∧
      st'.azc.calcRightRes = st.azc.calcRightRes |||
        p.total (objectVisits p.db p.subjectGroups id st.passes).1 ∧
      st'.passes = (objectVisits p.db p.subjectGroups id st.passes).2.pass ∧
      answer = if p.AnswersIn 0 st.azc.calcRightRes
        (objectVisits p.db p.subjectGroups id st.passes).1 then some st'.azc.calcRightRes
        else none := by
  obtain ⟨answer₁, st₁, hok₁, hh₁, hr₁, hw₁, hp₁, ha₁⟩ :=
    p.authorizeFirst_eq hdb [allResourcesGroup, id] st h
  have ht₁ : p.Tracks st₁ ⟨∅, st.passes⟩ := ⟨hh₁, hw₁.trans hw, hp₁⟩
  obtain ⟨out, hok₂, hr₂, hf₂, ha₂⟩ :=
    p.walks_prepareObjGroup hdb maxLevels le_rfl id 15 st₁ _ ht₁
  obtain ⟨hh₂, hp₂⟩ := hf₂.passes
  rw [authorizeObjGroups, hok₁]
  unfold objectVisits
  dsimp only
  rw [total_append, ← BitVec.or_assoc, ← hr₁]
  by_cases hfirst : p.AnswersIn 0 st.azc.calcRightRes
      (firstVisits st.passes [allResourcesGroup, id])
  · -- the answer is given before the walk
    have hpass : st.passes = true := by
      obtain ⟨v, hv, -, hp⟩ := hfirst
      obtain ⟨g, -, rfl⟩ := List.mem_map.mp (p.firstStop_mem hv)
      exact hp
    have hstops : p.stops st₁.azc.calcRightRes = true := hr₁ ▸ hfirst.stops
    rw [if_pos hfirst] at ha₁
    subst ha₁
    refine ⟨_, st₁, rfl, hh₁, ?_, ?_, ?_⟩
    · exact (p.or_eq_of_stops hstops fun a => p.total_le).symm
    · rw [hp₁, hpass]
      exact (pass_plainWalk _ _ _ _ _ _ rfl).symm
    · rw [if_pos (p.answersIn_append.mpr (.inl hfirst))]
  · -- the answer, if any, is given during the walk
    rw [if_neg hfirst] at ha₁
    subst ha₁
    have hiff : out.1 = true ↔ p.AnswersIn 0 st.azc.calcRightRes
        (firstVisits st.passes [allResourcesGroup, id] ++
          (plainWalk p.db p.subjectGroups maxLevels id 15 ⟨∅, st.passes⟩).1) := by
      rw [ha₂, p.answersIn_append, hr₁]
      exact ⟨.inr, fun h => h.resolve_left hfirst⟩
    obtain ⟨hfin, hazc, -⟩ := finalCheck_eq out.2
    show ∃ answer st', (prepareObjGroup p.db p.request maxLevels id 15 st₁ >>= fun x =>
      if x.1 = true then
        Except.ok (if (finalCheck x.2).1 = true then some (finalCheck x.2).2.azc.calcRightRes
          else none, (finalCheck x.2).2)
      else Except.ok (none, x.2)) = Except.ok (answer, st') ∧ _
    rw [hok₂]
    show ∃ answer st', (if out.1 = true then
        Except.ok (if (finalCheck out.2).1 = true then some (finalCheck out.2).2.azc.calcRightRes
          else none, (finalCheck out.2).2)
      else Except.ok (none, out.2)) = Except.ok (answer, st') ∧ _
    by_cases hout : out.1 = true
    · have hpass : out.2.passes = true := by
        obtain ⟨v, hv, -, hp⟩ := ha₂.mp hout
        rw [hp₂]
        exact pass_of_mem_plainWalk _ _ _ _ _ _ v (p.firstStop_mem hv) hp
      rw [if_pos hout, hfin, if_pos hpass]
      refine ⟨_, _, rfl, hh₂.finalCheck, ?_, ?_, ?_⟩
      · rw [hazc, hr₂]
      · rw [← hp₂]
        unfold AzState.passes
        rw [hazc]
      · rw [if_pos (hiff.mp hout)]
    · rw [if_neg hout]
      refine ⟨_, _, rfl, hh₂, hr₂, hp₂, ?_⟩
      rw [if_neg fun h => hout (hiff.mpr h)]

end Pass

/-! ## The whole check -/

/-- The groups that are collected for a user. -/
def subjectsOf (db : Storage) (userId : String) : Subjects :=
  plainSubjects db maxLevels userId 15 false ⟨∅, ∅, false⟩

/-- The subjects whose permissions count for a user: the groups and the user. -/
def subjectGroupsOf (db : Storage) (userId : String) : HashMap String Right :=
  (subjectsOf db userId).results.insert userId (Right.new userId)

/-- A request for a check. -/
structure Query where
  db : Storage
  id : String
  userId : String
  requestAccess : U8

namespace Query

variable (q : Query)

/-- The pass without the filter. -/
def pass₁ (isOn : Bool) : Pass where
  db := q.db
  request := requestWithFilter q.db q.id q.requestAccess
  filterValue := ""
  subjectGroups := subjectGroupsOf q.db q.userId
  isNeed := (subjectsOf q.db q.userId).isExclusive
  isOn := isOn

/-- The pass with the filter. -/
def pass₂ (isOn : Bool) : Pass where
  db := q.db
  request := q.requestAccess
  filterValue := filterValueOf q.db q.id
  subjectGroups := subjectGroupsOf q.db q.userId
  isNeed := (subjectsOf q.db q.userId).isExclusive
  isOn := isOn

/-- The groups that the first pass visits. -/
def visits₁ : List Visit × ObjWalk :=
  objectVisits q.db (subjectGroupsOf q.db q.userId) q.id (!(subjectsOf q.db q.userId).isExclusive)

/-- The groups that the second pass visits. -/
def visits₂ : List Visit × ObjWalk :=
  objectVisits q.db (subjectGroupsOf q.db q.userId) q.id q.visits₁.2.pass

/-- The bits that the records without the filter grant. -/
def unfiltered : U8 := (q.pass₁ false).total q.visits₁.1

/-- The bits that the records with the filter grant. -/
def filtered : U8 := (q.pass₂ false).total q.visits₂.1

/-- An untraced check answers in its first pass. -/
def AnswersEarly : Prop := (q.pass₁ false).AnswersIn 0 0 q.visits₁.1

instance : Decidable q.AnswersEarly := by unfold AnswersEarly; infer_instance

theorem answersIn_pass₁ (isOn : Bool) :
    (q.pass₁ isOn).AnswersIn 0 0 q.visits₁.1 ↔ isOn = false ∧ q.AnswersEarly := by
  cases isOn with
  | false => exact ⟨fun h => ⟨rfl, h⟩, fun h => h.2⟩
  | true =>
    refine ⟨fun h => ?_, fun h => by cases h.1⟩
    have hs := h.stops
    rw [Pass.stops, Bool.and_eq_true] at hs
    cases hs.2

/-- The answer: the bits of the passes that are made, if the final check passes. -/
def decision (isOn : Bool) : U8 :=
  if filterValueOf q.db q.id = "" ∨ (isOn = false ∧ q.AnswersEarly) then
    if q.visits₁.2.pass then q.unfiltered else 0
  else if q.visits₂.2.pass then q.unfiltered ||| q.filtered else 0

theorem total_congr (p p' : Pass) (hdb : p.db = p'.db) (hr : p.request = p'.request)
    (hf : p.filterValue = p'.filterValue) (hs : p.subjectGroups = p'.subjectGroups)
    (vs : List Visit) : p.total vs = p'.total vs := by
  induction vs with
  | nil => rfl
  | cons v vs ih =>
    rw [Pass.total, Pass.total, ih, Pass.grants, Pass.grants, hdb, hr, hf, hs]

end Query

theorem finish_fst (st : AzState) :
    (finish st).1 = if st.passes then st.azc.calcRightRes else 0 := by
  obtain ⟨hfin, hazc, -⟩ := finalCheck_eq st
  unfold finish
  dsimp only
  rw [hfin, hazc]
  split_ifs <;> rfl

theorem checked_empty (db : Storage) (request : U8) {c : AzCore} (h : c.checkedGroups = ∅) :
    Checked db request c := by
  intro objId objAccess hck
  rw [h, AList.lookup_empty] at hck
  cases hck

theorem Pass.Holds.withFilter {p : Pass} {st : AzState} (h : p.Holds st) (p' : Pass)
    (hs : p'.subjectGroups = p.subjectGroups) (hn : p'.isNeed = p.isNeed)
    (ho : p'.isOn = p.isOn) : p'.Holds (st.withFilter p'.filterValue) where
  filterValue := rfl
  subjectGroups := h.subjectGroups.trans hs.symm
  isNeed := h.isNeed.trans hn.symm
  isOn := h.isOn.trans ho.symm
  checked := checked_empty _ _ rfl

theorem authorizePasses_eq (q : Query) (hdb : q.db.Reliable) (isOn : Bool) (st : AzState)
    (h : (q.pass₁ isOn).Holds st) (hr : st.azc.calcRightRes = 0)
    (hw : st.azc.walkedGroupsO = ∅)
    (hp : st.passes = !(subjectsOf q.db q.userId).isExclusive) :
    ∃ trace', authorizePasses q.db q.id q.requestAccess st = .ok (q.decision isOn, trace') := by
  obtain ⟨answer₁, st₁, hok₁, hh₁, hr₁, hp₁, ha₁⟩ :=
    (q.pass₁ isOn).authorizeObjGroups_eq hdb q.id st h hw
  rw [hr, hp] at hr₁ ha₁
  rw [hp] at hp₁
  change st₁.passes = q.visits₁.2.pass at hp₁
  have hun : st₁.azc.calcRightRes = q.unfiltered := by
    rw [hr₁]
    exact BitVec.zero_or.trans
      (Query.total_congr (q.pass₁ isOn) (q.pass₁ false) rfl rfl rfl rfl q.visits₁.1)
  change answer₁ = if (q.pass₁ isOn).AnswersIn 0 0 q.visits₁.1 then _ else none at ha₁
  rw [authorizePasses]
  show ∃ trace', (authorizeObjGroups (q.pass₁ isOn).db q.id (q.pass₁ isOn).request st >>= _) = _
  rw [hok₁]
  by_cases hearly : (q.pass₁ isOn).AnswersIn 0 0 q.visits₁.1
  · -- the first pass answers
    obtain ⟨v, hv, -, hvp⟩ := id hearly
    have hpass : q.visits₁.2.pass = true :=
      pass_of_mem_objectVisits ((q.pass₁ isOn).firstStop_mem hv) hvp
    rw [if_pos hearly, hun] at ha₁
    subst ha₁
    refine ⟨st₁.trace, ?_⟩
    rw [Query.decision, if_pos (.inr ((q.answersIn_pass₁ isOn).mp hearly)), if_pos hpass]
    rfl
  rw [if_neg hearly] at ha₁
  subst ha₁
  have hearly' : ¬ (isOn = false ∧ q.AnswersEarly) := fun h =>
    hearly ((q.answersIn_pass₁ isOn).mpr h)
  by_cases hfilter : filterValueOf q.db q.id = ""
  · -- there is no second pass
    refine ⟨(finish st₁).2, ?_⟩
    have hfin := finish_fst st₁
    rw [hp₁, hun] at hfin
    rw [Query.decision, if_pos (.inl hfilter), ← hfin]
    show (if (filterValueOf q.db q.id).isEmpty then Except.ok (finish st₁) else _) = _
    rw [if_pos (String.isEmpty_iff.mpr hfilter)]
  · -- the second pass
    have hh₁' : (q.pass₂ isOn).Holds (st₁.withFilter (filterValueOf q.db q.id)) :=
      hh₁.withFilter (q.pass₂ isOn) rfl rfl rfl
    have hp₁' : (st₁.withFilter (filterValueOf q.db q.id)).passes = q.visits₁.2.pass := hp₁
    have hr₁' : (st₁.withFilter (filterValueOf q.db q.id)).azc.calcRightRes = q.unfiltered := hun
    obtain ⟨answer₂, st₂, hok₂, hh₂, hr₂, hp₂, ha₂⟩ :=
      (q.pass₂ isOn).authorizeObjGroups_eq hdb q.id _ hh₁' rfl
    rw [hp₁', hr₁'] at hr₂ ha₂
    rw [hp₁'] at hp₂
    change st₂.azc.calcRightRes = q.unfiltered ||| (q.pass₂ isOn).total q.visits₂.1 at hr₂
    rw [Query.total_congr (q.pass₂ isOn) (q.pass₂ false) rfl rfl rfl rfl q.visits₂.1] at hr₂
    change st₂.passes = q.visits₂.2.pass at hp₂
    change answer₂ = if (q.pass₂ isOn).AnswersIn 0 q.unfiltered q.visits₂.1 then _ else none at ha₂
    rw [Query.decision, if_neg fun h => h.elim hfilter hearly']
    show ∃ trace', (if (filterValueOf q.db q.id).isEmpty then Except.ok (finish st₁) else
      authorizeObjGroups (q.pass₂ isOn).db q.id (q.pass₂ isOn).request
        (st₁.withFilter (filterValueOf q.db q.id)) >>= _) = _
    rw [if_neg fun h => hfilter (String.isEmpty_iff.mp h), hok₂]
    by_cases hans : (q.pass₂ isOn).AnswersIn 0 q.unfiltered q.visits₂.1
    · obtain ⟨v, hv, -, hvp⟩ := id hans
      have hpass : q.visits₂.2.pass = true :=
        pass_of_mem_objectVisits ((q.pass₂ isOn).firstStop_mem hv) hvp
      rw [if_pos hans, hr₂] at ha₂
      subst ha₂
      refine ⟨st₂.trace, ?_⟩
      rw [if_pos hpass]
      rfl
    · rw [if_neg hans] at ha₂
      subst ha₂
      refine ⟨(finish st₂).2, ?_⟩
      have hfin := finish_fst st₂
      rw [hp₂, hr₂] at hfin
      change _ = if q.visits₂.2.pass = true then q.unfiltered ||| q.filtered else 0 at hfin
      rw [← hfin]
      rfl

/-- **The check gives the decision**, whatever is traced. -/
theorem authorize_eq {db : Storage} (hdb : db.Reliable) (id userId : String) (requestAccess : U8)
    (trace : Trace) :
    ∃ trace', authorize id userId requestAccess db trace =
      .ok ((⟨db, id, userId, requestAccess⟩ : Query).decision trace.isOn, trace') := by
  obtain ⟨res, w, hok, hcore, hon⟩ := getResourceGroups_eq hdb maxLevels userId 15 false
    ⟨∅, ∅, if trace.isInfo then printToTraceInfo trace ("authorize uri=" ++ id ++ ", user=" ++
      userId ++ ", request_access=" ++ accessToPrettyString requestAccess ++ "\n") else trace,
      ∅, false⟩
  change w.core = subjectsOf db userId at hcore
  have hon' : w.trace.isOn = trace.isOn := by
    rw [hon]
    dsimp only
    split_ifs <;> rfl
  rw [authorize, hok]
  refine authorizePasses_eq ⟨db, id, userId, requestAccess⟩ hdb trace.isOn _ ?_ rfl rfl ?_
  · refine ⟨rfl, ?_, ?_, hon', checked_empty _ _ rfl⟩
    · rw [Query.pass₁, subjectGroupsOf, ← hcore]
      rfl
    · rw [Query.pass₁, ← hcore]
      rfl
  · rw [AzState.passes, ← hcore]
    exact Bool.or_false _

/-! ## Tracing -/

theorem Query.pass_visits₂ (q : Query) (h : q.visits₁.2.pass = true) :
    q.visits₂.2.pass = true := by
  unfold Query.visits₂ objectVisits
  rw [h]
  exact pass_plainWalk _ _ _ _ _ _ rfl

theorem Query.AnswersEarly.eq {q : Query} (h : q.AnswersEarly) :
    q.unfiltered = requestWithFilter q.db q.id q.requestAccess ∧ q.visits₁.2.pass = true := by
  have hanswer := h
  obtain ⟨v, hv, -, hvp⟩ := hanswer
  refine ⟨?_, pass_of_mem_objectVisits ((q.pass₁ false).firstStop_mem hv) hvp⟩
  have hs := h.stops
  rw [show (0 : U8) ||| (q.pass₁ false).total q.visits₁.1 = q.unfiltered from BitVec.zero_or,
    Pass.stops, Bool.and_eq_true, covers_iff] at hs
  refine ext_has fun a => ?_
  rw [Bool.eq_iff_iff]
  exact ⟨fun ha => (q.pass₁ false).total_le ha, hs.1 a⟩

/-- **When tracing does not change the answer**: exactly when the object has no filter, or the
check does not answer before the filter is tried, or the records with the filter grant nothing
that the filter does not leave to the other records.

**Proof sketch.** Both checks give their decision (`authorize_eq`). The decisions differ only when
the untraced check answers early although there is a filter; then it gives the bits that the
filter leaves to others, and the traced one adds those of the records with the filter. -/
theorem authorize_traced_eq_iff {db : Storage} (hdb : db.Reliable) (id userId : String)
    (requestAccess : U8) {traced untraced : Trace} (htraced : traced.isOn = true)
    (huntraced : untraced.isOn = false) :
    (authorize id userId requestAccess db traced).map Prod.fst =
        (authorize id userId requestAccess db untraced).map Prod.fst ↔
      filterValueOf db id = "" ∨ ¬ (⟨db, id, userId, requestAccess⟩ : Query).AnswersEarly ∨
        ∀ a, has (⟨db, id, userId, requestAccess⟩ : Query).filtered a = true →
          has (requestWithFilter db id requestAccess) a = true := by
  obtain ⟨trace₁, h₁⟩ := authorize_eq hdb id userId requestAccess traced
  obtain ⟨trace₂, h₂⟩ := authorize_eq hdb id userId requestAccess untraced
  rw [h₁, h₂, htraced, huntraced]
  generalize hq : (⟨db, id, userId, requestAccess⟩ : Query) = q
  have hdec : (Except.ok (q.decision true, trace₁) : Except Int (U8 × Trace)).map Prod.fst =
      (Except.ok (q.decision false, trace₂) : Except Int (U8 × Trace)).map Prod.fst ↔
      q.decision true = q.decision false :=
    ⟨fun h => Except.ok.inj h, fun h => congrArg Except.ok h⟩
  rw [hdec]
  have hf : filterValueOf db id = filterValueOf q.db q.id := by rw [← hq]
  have hr : requestWithFilter db id requestAccess =
      requestWithFilter q.db q.id q.requestAccess := by rw [← hq]
  rw [hf, hr]
  unfold Query.decision
  by_cases hfilter : filterValueOf q.db q.id = ""
  · simp [hfilter]
  have htrue : ¬ (filterValueOf q.db q.id = "" ∨ (true = false ∧ q.AnswersEarly)) := by
    simp [hfilter]
  rw [if_neg htrue]
  by_cases hearly : q.AnswersEarly
  · obtain ⟨heq, hpass⟩ := hearly.eq
    rw [if_pos (show _ ∨ (false = false ∧ _) from .inr ⟨rfl, hearly⟩),
      if_pos hpass, if_pos (q.pass_visits₂ hpass), ← heq]
    constructor
    · intro h
      refine .inr (.inr fun a ha => ?_)
      rw [← h, has_or, ha, Bool.or_true]
    · intro h
      have hsub := (h.resolve_left hfilter).resolve_left (not_not.mpr hearly)
      refine ext_has fun a => ?_
      rw [Bool.eq_iff_iff, has_or, Bool.or_eq_true]
      exact ⟨fun h => h.elim (fun h => h) (hsub a), .inl⟩
  · rw [if_neg (show ¬ (_ ∨ (false = false ∧ _)) from fun h => h.elim hfilter fun h => hearly h.2)]
    exact ⟨fun _ => .inr (.inl hearly), fun _ => rfl⟩

/-- A storage with some records, in which other keys are absent. -/
def Storage.ofList (l : List (String × String)) : Storage where
  get key := match l.lookup key with
    | some value => .ok value
    | none => .error 0

theorem Storage.reliable_ofList (l : List (String × String)) : (Storage.ofList l).Reliable := by
  intro key e h
  unfold Storage.ofList at h
  dsimp only at h
  split at h
  · cases h
  · rw [← Except.error.inj h]

/-- A document whose filter leaves reading to the records without it. -/
def filteredDocument : Storage :=
  .ofList [("Fd:doc", "d:flt;2;"), ("Pd:doc", "d:user;2;"), ("Pd:fltd:doc", "d:user;4;")]

/-- On a document without a filter tracing changes nothing. -/
theorem authorize_traced_document :
    (authorize "d:doc" "d:user" 6 (.ofList [("Pd:doc", "d:user;2;")])
        { Trace.off with isGroup := true }).map Prod.fst =
      (authorize "d:doc" "d:user" 6 (.ofList [("Pd:doc", "d:user;2;")]) Trace.off).map Prod.fst :=
  (authorize_traced_eq_iff (Storage.reliable_ofList _) "d:doc" "d:user" 6 rfl rfl).mpr
    (.inl (by decide))

/-- Tracing changes the answer for a document whose filter leaves reading to the records without
it: the untraced check stops with the bit for reading, the traced one finds that for updating. -/
theorem not_authorize_traced_filteredDocument :
    ¬ ∀ (db : Storage) (id userId : String) (requestAccess : U8) (traced untraced : Trace),
      db.Reliable → traced.isOn = true → untraced.isOn = false →
        (authorize id userId requestAccess db traced).map Prod.fst =
          (authorize id userId requestAccess db untraced).map Prod.fst := by
  intro h
  have heq := h filteredDocument "d:doc" "d:user" 6 { Trace.off with isGroup := true } Trace.off
    (Storage.reliable_ofList _) rfl rfl
  have h6 : (authorize "d:doc" "d:user" 6 filteredDocument
      { Trace.off with isGroup := true }).toOption.map Prod.fst = some 6 := by decide
  have h2 : (authorize "d:doc" "d:user" 6 filteredDocument Trace.off).toOption.map Prod.fst =
      some 2 := by decide
  cases h₁ : authorize "d:doc" "d:user" 6 filteredDocument { Trace.off with isGroup := true } with
  | error e => rw [h₁] at h6; cases h6
  | ok x =>
    cases h₂ : authorize "d:doc" "d:user" 6 filteredDocument Trace.off with
    | error e => rw [h₂] at h2; cases h2
    | ok y =>
      rw [h₁, h₂] at heq
      rw [h₁] at h6
      rw [h₂] at h2
      have hx : x.1 = 6 := Option.some.inj h6
      have hy : y.1 = 2 := Option.some.inj h2
      have hxy : x.1 = y.1 := Except.ok.inj heq
      rw [hx, hy] at hxy
      exact absurd hxy (by decide)

end Veda.Authorization
