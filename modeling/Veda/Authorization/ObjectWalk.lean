import Veda.Authorization.RecordCheck

set_option autoImplicit false

/-!
# The plain walk over the groups of an object

Which groups of an object a check visits, with which bits and in which order, depends on the
membership records and on the exclusive groups of the subject alone. This file defines that plain
walk and shows that a pass of the check, traced or not, follows it: the rights are those that the
visited records grant, and an untraced pass stops at the first visit that completes the request.

## Main definitions

* `Authorization.Visit`, `Authorization.plainWalk` — the plain walk.
* `Authorization.Pass` — what is fixed during one pass.
* `Authorization.Pass.firstStop` — the visit that completes the request.

## Main results

* `Authorization.Pass.walks_prepareObjGroup` — a pass follows the plain walk.
-/

namespace Veda.Authorization

open Veda.Lib

/-! ## The plain walk -/

/-- A visit to a group: the bits with which it is reached, the level on which it is listed, and
whether the final check would pass there. -/
structure Visit where
  group : String
  access : U8
  level : U8
  pass : Bool
  deriving DecidableEq

/-- What the plain walk reads and writes. -/
structure ObjWalk where
  walked : HashMap String U8
  pass : Bool

/-- Enter a group with some bits. -/
def ObjWalk.enter (w : ObjWalk) (id : String) (access : U8) : ObjWalk :=
  { w with walked := w.walked.insert id access }

section Loop

variable (subjectGroups : HashMap String Right)
  (walk : String → U8 → ObjWalk → List Visit × ObjWalk)
  (uri : String) (access : U8) (level : U8) (len : ℕ)

/-- The judgement about exclusive groups at one group. -/
def judge (idx : ℕ) (suffix : Bool) (group : Right) (w : ObjWalk) : Bool × ObjWalk :=
  if w.pass then (suffix, w)
  else
    let suffixGroup := containSuffixGroup level suffix group
    (suffixGroup,
      { w with
        pass := judgeExclusive level uri (idx == len - 1) suffixGroup group subjectGroups })

/-- The groups of one record, as the plain walk visits them. -/
def plainGroups : ℕ → List Right → Bool → ObjWalk → List Visit × ObjWalk
  | _, [], _, w => ([], w)
  | idx, group :: groups, suffix, w =>
    if group.id.isEmpty then plainGroups (idx + 1) groups suffix w
    else
      let newAccess := group.access &&& access
      let judged := judge subjectGroups uri level len idx suffix group w
      let w := judged.2
      if group.marker = mIsExclusive then plainGroups (idx + 1) groups judged.1 w
      else
        let walked := w.walked.lookup group.id
        if enteredBefore walked newAccess then plainGroups (idx + 1) groups judged.1 w
        else
          let w := w.enter group.id (newAccess ||| walked.getD 0)
          if uri = group.id then plainGroups (idx + 1) groups judged.1 w
          else
            let inner := walk group.id newAccess w
            let rest := plainGroups (idx + 1) groups judged.1 inner.2
            (⟨group.id, newAccess, level, w.pass⟩ :: (inner.1 ++ rest.1), rest.2)

end Loop

/-- The plain walk from a group, with `left` levels left. -/
def plainWalk (db : Storage) (subjectGroups : HashMap String Right) (left : ℕ) (uri : String)
    (access : U8) (w : ObjWalk) : List Visit × ObjWalk :=
  match left with
  | 0 => ([], w)
  | left + 1 =>
    match db.get (membershipPrefix ++ uri) with
    | .ok groupsStr =>
      let groupsSet := groupsOf groupsStr
      let out := plainGroups subjectGroups
        (fun id access w => plainWalk db subjectGroups left id access w)
        uri access (BitVec.ofNat 8 (32 - left)) groupsSet.length 0 groupsSet false w
      (out.1, { out.2 with pass := out.2.pass || groupsSet.length == 0 })
    | .error _ =>
      ([], { w with pass := w.pass || BitVec.ofNat 8 (32 - left) == 0 })

theorem pass_judge {subjectGroups : HashMap String Right} {uri : String} {level : U8} {len idx : ℕ}
    {suffix : Bool} {group : Right} {w : ObjWalk} (h : w.pass = true) :
    judge subjectGroups uri level len idx suffix group w = (suffix, w) := by
  rw [judge, if_pos h]

theorem pass_plainGroups {subjectGroups : HashMap String Right}
    {walk : String → U8 → ObjWalk → List Visit × ObjWalk}
    (hwalk : ∀ id access w, w.pass = true → (walk id access w).2.pass = true) (uri : String)
    (access level : U8) (len : ℕ) (groups : List Right) (idx : ℕ) (suffix : Bool) (w : ObjWalk)
    (h : w.pass = true) :
    (plainGroups subjectGroups walk uri access level len idx groups suffix w).2.pass = true := by
  induction groups generalizing idx suffix w with
  | nil => exact h
  | cons group groups ih =>
    rw [plainGroups]
    dsimp only
    rw [pass_judge h]
    split_ifs
    · exact ih _ _ _ h
    · exact ih _ _ _ h
    · exact ih _ _ _ h
    · exact ih _ _ _ h
    · exact ih _ _ _ (hwalk _ _ _ h)

theorem pass_plainWalk (db : Storage) (subjectGroups : HashMap String Right) (left : ℕ)
    (uri : String) (access : U8) (w : ObjWalk) (h : w.pass = true) :
    (plainWalk db subjectGroups left uri access w).2.pass = true := by
  induction left generalizing uri access w with
  | zero => exact h
  | succ left ih =>
    rw [plainWalk]
    cases db.get (membershipPrefix ++ uri) with
    | error e => simp [h]
    | ok str => simp [pass_plainGroups (fun id access w hw => ih id access w hw) _ _ _ _ _ _ _ _ h]

theorem pass_of_mem_plainGroups {subjectGroups : HashMap String Right}
    {walk : String → U8 → ObjWalk → List Visit × ObjWalk}
    (hwalk : ∀ id access w, w.pass = true → (walk id access w).2.pass = true)
    (hmem : ∀ id access w, ∀ v ∈ (walk id access w).1, v.pass = true →
      (walk id access w).2.pass = true)
    (uri : String) (access level : U8) (len : ℕ) (groups : List Right) (idx : ℕ) (suffix : Bool)
    (w : ObjWalk) :
    ∀ v ∈ (plainGroups subjectGroups walk uri access level len idx groups suffix w).1,
      v.pass = true →
      (plainGroups subjectGroups walk uri access level len idx groups suffix w).2.pass = true := by
  induction groups generalizing idx suffix w with
  | nil => intro v hv; cases hv
  | cons group groups ih =>
    rw [plainGroups]
    dsimp only
    split_ifs
    · exact ih _ _ _
    · exact ih _ _ _
    · exact ih _ _ _
    · exact ih _ _ _
    · intro v hv hp
      rw [List.mem_cons, List.mem_append] at hv
      rcases hv with rfl | hv | hv
      · exact pass_plainGroups hwalk _ _ _ _ _ _ _ _ (hwalk _ _ _ hp)
      · exact pass_plainGroups hwalk _ _ _ _ _ _ _ _ (hmem _ _ _ v hv hp)
      · exact ih _ _ _ v hv hp

theorem pass_of_mem_plainWalk (db : Storage) (subjectGroups : HashMap String Right) (left : ℕ)
    (uri : String) (access : U8) (w : ObjWalk) :
    ∀ v ∈ (plainWalk db subjectGroups left uri access w).1, v.pass = true →
      (plainWalk db subjectGroups left uri access w).2.pass = true := by
  induction left generalizing uri access w with
  | zero => intro v hv; cases hv
  | succ left ih =>
    rw [plainWalk]
    cases db.get (membershipPrefix ++ uri) with
    | error e => intro v hv; cases hv
    | ok str =>
      intro v hv hp
      have h := pass_of_mem_plainGroups
        (fun id access w hw => pass_plainWalk db subjectGroups left id access w hw)
        (fun id access w => ih id access w) _ _ _ _ _ _ _ _ v hv hp
      dsimp only
      rw [h, Bool.true_or]

theorem level_plainGroups {subjectGroups : HashMap String Right}
    {walk : String → U8 → ObjWalk → List Visit × ObjWalk} (uri : String) (access level : U8)
    (len : ℕ) (P : U8 → Prop) (hwalk : ∀ id access w, ∀ v ∈ (walk id access w).1, P v.level)
    (groups : List Right) (idx : ℕ) (suffix : Bool) (w : ObjWalk) :
    ∀ v ∈ (plainGroups subjectGroups walk uri access level len idx groups suffix w).1,
      v.level = level ∨ P v.level := by
  induction groups generalizing idx suffix w with
  | nil => intro v hv; cases hv
  | cons group groups ih =>
    rw [plainGroups]
    dsimp only
    split_ifs
    · exact ih _ _ _
    · exact ih _ _ _
    · exact ih _ _ _
    · exact ih _ _ _
    · intro v hv
      rw [List.mem_cons, List.mem_append] at hv
      rcases hv with rfl | hv | hv
      · exact .inl rfl
      · exact .inr (hwalk _ _ _ v hv)
      · exact ih _ _ _ v hv

theorem level_plainWalk (db : Storage) (subjectGroups : HashMap String Right) (left : ℕ)
    (hleft : left ≤ maxLevels) (uri : String) (access : U8) (w : ObjWalk) :
    ∀ v ∈ (plainWalk db subjectGroups left uri access w).1,
      maxLevels - left ≤ v.level.toNat := by
  induction left generalizing uri access w with
  | zero => intro v hv; cases hv
  | succ left ih =>
    have hlevel : (BitVec.ofNat 8 (32 - left)).toNat = 32 - left := by
      rw [BitVec.toNat_ofNat]
      exact Nat.mod_eq_of_lt (by omega)
    rw [plainWalk]
    cases db.get (membershipPrefix ++ uri) with
    | error e => intro v hv; cases hv
    | ok str =>
      intro v hv
      unfold maxLevels at hleft ⊢
      rcases level_plainGroups uri access _ _ (fun level => maxLevels - left ≤ level.toNat)
        (fun id access w => ih (by unfold maxLevels; omega) id access w) _ _ _ _ v hv with h | h
      · rw [h, hlevel]
        omega
      · unfold maxLevels at h
        omega

/-! ## One pass of the check -/

/-- What is fixed during one pass. -/
structure Pass where
  db : Storage
  request : U8
  filterValue : String
  subjectGroups : HashMap String Right
  isNeed : Bool
  isOn : Bool

/-- The final check would pass. -/
def AzState.passes (st : AzState) : Bool :=
  !st.azc.isNeedExclusiveAz || st.azc.isFoundExclusiveAz

theorem seeks_eq (st : AzState) : st.seeks = !st.passes := by
  unfold AzState.seeks AzState.passes
  cases st.azc.isNeedExclusiveAz <;> cases st.azc.isFoundExclusiveAz <;> rfl

namespace Pass

variable (p : Pass)

/-- With these rights an untraced pass may stop. -/
def stops (rights : U8) : Bool := covers rights p.request && !p.isOn

/-- The bits that the record of a group grants. -/
def grants (objId : String) (objAccess : U8) : U8 :=
  Authorization.grants p.db p.filterValue p.subjectGroups p.request objId objAccess

/-- The bits that the records of some visited groups grant. -/
def total : List Visit → U8
  | [] => 0
  | v :: vs => p.grants v.group v.access ||| total vs

/-- The visit that completes the request. -/
def firstStop : U8 → List Visit → Option Visit
  | _, [] => none
  | rights, v :: vs =>
    let rights' := rights ||| p.grants v.group v.access
    if !p.stops rights && p.stops rights' then some v else firstStop rights' vs

/-- The visit at which an untraced pass answers: it completes the request, it is one of the groups
that are checked on the first level, and the final check passes. -/
def AnswersIn (level : U8) (rights : U8) (vs : List Visit) : Prop :=
  ∃ v, p.firstStop rights vs = some v ∧ v.level = level ∧ v.pass = true

theorem total_append (vs ws : List Visit) : p.total (vs ++ ws) = p.total vs ||| p.total ws := by
  induction vs with
  | nil => simp [total]
  | cons v vs ih => simp [total, ih, BitVec.or_assoc]

theorem grants_le {objId : String} {objAccess : U8} {a : Access}
    (h : has (p.grants objId objAccess) a = true) : has p.request a = true :=
  (recordGrants_le _ _ _ _ h).1

theorem total_le {vs : List Visit} {a : Access} (h : has (p.total vs) a = true) :
    has p.request a = true := by
  induction vs with
  | nil => simp [total] at h
  | cons v vs ih =>
    rw [total, has_or, Bool.or_eq_true] at h
    exact h.elim p.grants_le ih

theorem or_eq_of_stops {rights x : U8} (h : p.stops rights = true)
    (hx : ∀ a, has x a = true → has p.request a = true) : rights ||| x = rights := by
  rw [stops, Bool.and_eq_true, covers_iff] at h
  refine ext_has fun a => ?_
  rw [Bool.eq_iff_iff, has_or, Bool.or_eq_true]
  exact ⟨fun ha => ha.elim id fun ha => h.1 a (hx a ha), .inl⟩

theorem stops_or {rights : U8} (h : p.stops rights = true) (x : U8) :
    p.stops (rights ||| x) = true := by
  rw [stops, Bool.and_eq_true, covers_iff] at h ⊢
  refine ⟨fun a ha => ?_, h.2⟩
  rw [has_or, h.1 a ha, Bool.true_or]

theorem firstStop_of_stops {rights : U8} (h : p.stops rights = true) (vs : List Visit) :
    p.firstStop rights vs = none := by
  induction vs generalizing rights with
  | nil => rfl
  | cons v vs ih =>
    rw [firstStop, h, Bool.not_true, Bool.false_and, if_neg Bool.false_ne_true]
    exact ih (p.stops_or h _)

theorem firstStop_append (rights : U8) (vs ws : List Visit) :
    p.firstStop rights (vs ++ ws) =
      (p.firstStop rights vs).or (p.firstStop (rights ||| p.total vs) ws) := by
  induction vs generalizing rights with
  | nil => simp [firstStop, total]
  | cons v vs ih =>
    rw [List.cons_append, firstStop, firstStop, total]
    split_ifs with h
    · rfl
    · rw [ih, BitVec.or_assoc]

theorem firstStop_mem {rights : U8} {vs : List Visit} {v : Visit}
    (h : p.firstStop rights vs = some v) : v ∈ vs := by
  induction vs generalizing rights with
  | nil => cases h
  | cons u vs ih =>
    rw [firstStop] at h
    split_ifs at h with hs
    · exact Option.some.inj h ▸ List.mem_cons_self
    · exact List.mem_cons_of_mem _ (ih h)

theorem stops_of_firstStop {rights : U8} {vs : List Visit} {v : Visit}
    (h : p.firstStop rights vs = some v) : p.stops (rights ||| p.total vs) = true := by
  induction vs generalizing rights with
  | nil => cases h
  | cons u vs ih =>
    rw [firstStop] at h
    rw [total, ← BitVec.or_assoc]
    split_ifs at h with hs
    · exact p.stops_or (by simpa using (Bool.and_eq_true_iff.mp hs).2) _
    · exact ih h

/-! ## States of a pass -/

/-- The state belongs to this pass. -/
structure Holds (st : AzState) : Prop where
  filterValue : st.azc.filterValue = p.filterValue
  subjectGroups : st.azc.subjectGroups = p.subjectGroups
  isNeed : st.azc.isNeedExclusiveAz = p.isNeed
  isOn : st.trace.isOn = p.isOn
  checked : Checked p.db p.request st.core

theorem authorizeObjGroup_holds (hdb : p.db.Reliable) {st : AzState} (h : p.Holds st)
    (objId : String) (objAccess : U8) :
    ∃ res st', authorizeObjGroup p.db p.request objId objAccess st = .ok (res, st') ∧
      p.Holds st' ∧
      st'.azc.calcRightRes = st.azc.calcRightRes ||| p.grants objId objAccess ∧
      st'.azc.walkedGroupsO = st.azc.walkedGroupsO ∧ st'.passes = st.passes ∧
      res = (!p.stops st.azc.calcRightRes &&
        p.stops (st.azc.calcRightRes ||| p.grants objId objAccess)) := by
  obtain ⟨⟨res, st'⟩, hok, ⟨ck, hcore⟩, hck, hans⟩ :=
    authorizeObjGroup_eq p.db p.request hdb objId objAccess st h.checked
  have hg : st.core.grants p.db p.request objId objAccess = p.grants objId objAccess := by
    show Authorization.grants p.db st.azc.filterValue st.azc.subjectGroups p.request objId
      objAccess = _
    rw [h.filterValue, h.subjectGroups]
    rfl
  have hstops : ∀ x, (st.core.add x).stops p.request = p.stops (st.azc.calcRightRes ||| x) := by
    intro x
    rw [stops, ← h.isOn]
    rfl
  have hstop : st.core.stops p.request = p.stops st.azc.calcRightRes := by
    rw [stops, ← h.isOn]
    rfl
  rw [hg] at hcore hans
  rw [hstops, hstop] at hans
  refine ⟨res, st', hok, ⟨?_, ?_, ?_, ?_, hck⟩, congrArg AzCore.calcRightRes hcore,
    congrArg AzCore.walkedGroupsO hcore, ?_, hans⟩
  · exact (congrArg AzCore.filterValue hcore).trans h.filterValue
  · exact (congrArg AzCore.subjectGroups hcore).trans h.subjectGroups
  · exact (congrArg AzCore.isNeedExclusiveAz hcore).trans h.isNeed
  · exact (congrArg AzCore.isOn hcore).trans h.isOn
  · exact congrArg (fun c => !c.isNeedExclusiveAz || c.isFoundExclusiveAz) hcore

theorem Holds.setFound {p : Pass} {st : AzState} (h : p.Holds st) (found : Bool) :
    p.Holds (st.setFound found) :=
  ⟨h.filterValue, h.subjectGroups, h.isNeed, h.isOn, h.checked⟩

theorem Holds.enter {p : Pass} {st : AzState} (h : p.Holds st) (uri id : String) (access : U8) :
    p.Holds (st.enter uri id access) :=
  ⟨h.filterValue, h.subjectGroups, h.isNeed, h.isOn, h.checked⟩

/-! ## Following the plain walk -/

/-- The pass may stop and the final check passes: nothing more can change the answer. -/
structure Halted (st : AzState) : Prop where
  holds : p.Holds st
  stops : p.stops st.azc.calcRightRes = true
  passes : st.passes = true

/-- The state and the plain walk are at the same place. -/
structure Tracks (st : AzState) (w : ObjWalk) : Prop where
  holds : p.Holds st
  walked : st.azc.walkedGroupsO = w.walked
  passes : st.passes = w.pass

/-- The state follows the plain walk, or nothing more can change. -/
def Follows (st : AzState) (w : ObjWalk) : Prop :=
  p.Tracks st w ∨ (p.Halted st ∧ w.pass = true)

/-- Where nothing more can change, a walk stays there and does not answer. -/
def Rests (st : AzState) (out : Except Int (Bool × AzState)) : Prop :=
  ∃ st', out = .ok (false, st') ∧ p.Halted st' ∧ st'.azc.calcRightRes = st.azc.calcRightRes

/-- A walk along some visits, begun with some rights. -/
structure Walks (level rights : U8) (plain : List Visit × ObjWalk) (out : Bool × AzState) :
    Prop where
  rights_eq : out.2.azc.calcRightRes = rights ||| p.total plain.1
  follows : p.Follows out.2 plain.2
  answer : out.1 = true ↔ p.AnswersIn level rights plain.1

theorem Rests.walks {p : Pass} {st : AzState} {out : Except Int (Bool × AzState)}
    (h : p.Rests st out) (hst : p.Halted st) (level : U8) {plain : List Visit × ObjWalk}
    (hpass : plain.2.pass = true) :
    ∃ out', out = .ok out' ∧ p.Walks level st.azc.calcRightRes plain out' := by
  obtain ⟨st', hok, hh, hr⟩ := h
  refine ⟨_, hok, ⟨?_, .inr ⟨hh, hpass⟩, ?_⟩⟩
  · exact hr.trans (p.or_eq_of_stops hst.stops fun a => p.total_le).symm
  · constructor
    · intro h
      cases h
    · rintro ⟨v, hv, -⟩
      rw [p.firstStop_of_stops hst.stops] at hv
      cases hv

theorem answersIn_cons {level : U8} (rights : U8) (v : Visit) {inner : List Visit}
    (rest : List Visit) (hv : v.level = level) (hinner : ∀ u ∈ inner, u.level ≠ level) :
    p.AnswersIn level rights (v :: (inner ++ rest)) ↔
      if !p.stops rights && p.stops (rights ||| p.grants v.group v.access) then v.pass = true
      else p.AnswersIn level (rights ||| p.grants v.group v.access ||| p.total inner) rest := by
  unfold AnswersIn
  rw [firstStop]
  split_ifs with h
  · constructor
    · rintro ⟨u, hu, -, hp⟩
      rw [Option.some.inj hu]
      exact hp
    · exact fun hp => ⟨v, rfl, hv, hp⟩
  · rw [firstStop_append]
    cases hf : p.firstStop (rights ||| p.grants v.group v.access) inner with
    | none => rfl
    | some u =>
      constructor
      · rintro ⟨u', hu', hl, -⟩
        obtain rfl := Option.some.inj hu'
        exact absurd hl (hinner u (p.firstStop_mem hf))
      · rintro ⟨u', hu', -⟩
        rw [p.firstStop_of_stops (p.stops_of_firstStop hf)] at hu'
        cases hu'

section Loop

variable (walk : String → U8 → AzState → Except Int (Bool × AzState))
  (uri : String) (access level : U8) (len : ℕ)

theorem rests_visitObjGroups (hdb : p.db.Reliable)
    (hwalk : ∀ id access st, p.Halted st → ∃ res st', walk id access st = .ok (res, st') ∧
      p.Halted st' ∧ st'.azc.calcRightRes = st.azc.calcRightRes)
    (groups : List Right) (idx : ℕ) (suffix : Bool) (st : AzState) (h : p.Halted st) :
    p.Rests st (visitObjGroups p.db walk p.request uri access level len idx groups suffix st) := by
  induction groups generalizing idx suffix st with
  | nil => exact ⟨st, rfl, h, rfl⟩
  | cons group groups ih =>
    have hseek : st.seeks = false := by rw [seeks_eq, h.passes, Bool.not_true]
    rw [visitObjGroups]
    dsimp only
    rw [hseek]
    simp only [Bool.false_eq_true, if_false]
    split_ifs with h1 h2 h3 h4
    · exact ih _ _ st h
    · exact ih _ _ st h
    · exact ih _ _ st h
    · exact ih _ _ _ ⟨h.holds.enter _ _ _, h.stops, h.passes⟩
    · have h₀ : p.Halted (st.enter uri group.id (group.access &&& access |||
          (st.azc.walkedGroupsO.lookup group.id).getD 0)) :=
        ⟨h.holds.enter _ _ _, h.stops, h.passes⟩
      obtain ⟨res, st₁, hok, hh, hr, -, hp, hres⟩ :=
        p.authorizeObjGroup_holds hdb h₀.holds group.id (group.access &&& access)
      have hcalc := hr.trans (p.or_eq_of_stops h₀.stops fun a => p.grants_le)
      have hres' : res = false := by
        rw [hres, h₀.stops]
        rfl
      have hh₁ : p.Halted st₁ := ⟨hh, hcalc ▸ h₀.stops, hp.trans h₀.passes⟩
      obtain ⟨res₂, st₂, hok₂, hh₂, hc₂⟩ := hwalk group.id (group.access &&& access) st₁ hh₁
      obtain ⟨st₃, hok₃, hh₃, hc₃⟩ := ih (idx + 1) suffix st₂ hh₂
      refine ⟨st₃, ?_, hh₃, hc₃.trans (hc₂.trans hcalc)⟩
      rw [hok, hres']
      show (walk group.id (group.access &&& access) st₁ >>= _) = _
      rw [hok₂]
      exact hok₃

theorem tracks_judge (idx : ℕ) (suffix : Bool) (group : Right) {st : AzState} {w : ObjWalk}
    (h : p.Tracks st w) :
    (if st.seeks then containSuffixGroup level suffix group else suffix) =
        (judge p.subjectGroups uri level len idx suffix group w).1 ∧
      p.Tracks
        (if st.seeks then st.setFound (judgeExclusive level uri (idx == len - 1)
            (if st.seeks then containSuffixGroup level suffix group else suffix) group
            st.azc.subjectGroups)
          else st)
        (judge p.subjectGroups uri level len idx suffix group w).2 ∧
      (if st.seeks then st.setFound (judgeExclusive level uri (idx == len - 1)
          (if st.seeks then containSuffixGroup level suffix group else suffix) group
          st.azc.subjectGroups)
        else st).azc.calcRightRes = st.azc.calcRightRes := by
  rw [seeks_eq, h.passes, judge]
  cases hw : w.pass with
  | true => exact ⟨rfl, h, rfl⟩
  | false =>
    refine ⟨rfl, ⟨h.holds.setFound _, h.walked, ?_⟩, rfl⟩
    have hneed : st.azc.isNeedExclusiveAz = true := by
      have hp := h.passes.trans hw
      unfold AzState.passes at hp
      cases hn : st.azc.isNeedExclusiveAz with
      | true => rfl
      | false => simp [hn] at hp
    show (!st.azc.isNeedExclusiveAz || judgeExclusive level uri (idx == len - 1)
      (containSuffixGroup level suffix group) group st.azc.subjectGroups) = _
    rw [hneed, h.holds.subjectGroups]
    rfl

/-- The loop over the groups of a record follows the plain walk.

**Proof sketch.** Induction on the groups. At a group that is checked the pass may stop, exactly
when the visit completes the request and the final check passes. Otherwise the recursive call and
then the rest of the loop follow the plain walk; if the recursive call stopped, its answer is
dropped, but the request is covered and nothing more can change. -/
theorem walks_visitObjGroups (hdb : p.db.Reliable)
    {plain : String → U8 → ObjWalk → List Visit × ObjWalk} {level' : U8}
    (hrest : ∀ id access st, p.Halted st → ∃ res st', walk id access st = .ok (res, st') ∧
      p.Halted st' ∧ st'.azc.calcRightRes = st.azc.calcRightRes)
    (hwalk : ∀ id access st w, p.Tracks st w → ∃ out, walk id access st = .ok out ∧
      p.Walks level' st.azc.calcRightRes (plain id access w) out)
    (hlevel : ∀ id access w, ∀ v ∈ (plain id access w).1, v.level ≠ level)
    (hpass : ∀ id access w, w.pass = true → (plain id access w).2.pass = true)
    (groups : List Right) (idx : ℕ) (suffix : Bool) (st : AzState) (w : ObjWalk)
    (h : p.Tracks st w) :
    ∃ out, visitObjGroups p.db walk p.request uri access level len idx groups suffix st = .ok out ∧
      p.Walks level st.azc.calcRightRes
        (plainGroups p.subjectGroups plain uri access level len idx groups suffix w) out := by
  induction groups generalizing idx suffix st w with
  | nil =>
    refine ⟨_, rfl, ⟨by simp [plainGroups, total], .inl h, ?_⟩⟩
    simp [plainGroups, AnswersIn, firstStop]
  | cons group groups ih =>
    rw [visitObjGroups, plainGroups]
    by_cases h1 : group.id.isEmpty = true
    · rw [if_pos h1, if_pos h1]
      exact ih _ _ st w h
    rw [if_neg h1, if_neg h1]
    dsimp only
    obtain ⟨hs, ht, hr⟩ := p.tracks_judge uri level len idx suffix group h
    generalize (if st.seeks = true then containSuffixGroup level suffix group else suffix) =
      suffixGroup at hs ht hr ⊢
    generalize (if st.seeks = true then st.setFound (judgeExclusive level uri (idx == len - 1)
      suffixGroup group st.azc.subjectGroups) else st) = st₁ at ht hr ⊢
    rw [← hs]
    generalize (judge p.subjectGroups uri level len idx suffix group w).2 = w₁ at ht ⊢
    rw [← hr]
    clear hs h
    by_cases h2 : group.marker = mIsExclusive
    · rw [if_pos h2, if_pos h2]
      exact ih _ _ st₁ w₁ ht
    rw [if_neg h2, if_neg h2, ht.walked]
    by_cases h3 : enteredBefore (w₁.walked.lookup group.id) (group.access &&& access) = true
    · rw [if_pos h3, if_pos h3]
      exact ih _ _ st₁ w₁ ht
    rw [if_neg h3, if_neg h3]
    have ht₂ : ∀ bits, p.Tracks (st₁.enter uri group.id bits) (w₁.enter group.id bits) := by
      intro bits
      refine ⟨ht.holds.enter _ _ _, ?_, ht.passes⟩
      rw [ObjWalk.enter, ← ht.walked]
      rfl
    replace ht₂ := ht₂ (group.access &&& access ||| (w₁.walked.lookup group.id).getD 0)
    by_cases h4 : uri = group.id
    · rw [if_pos h4, if_pos h4]
      exact ih _ _ _ _ ht₂
    rw [if_neg h4, if_neg h4]
    have hr₂ : (st₁.enter uri group.id (group.access &&& access |||
        (w₁.walked.lookup group.id).getD 0)).azc.calcRightRes = st₁.azc.calcRightRes := rfl
    generalize st₁.enter uri group.id (group.access &&& access |||
      (w₁.walked.lookup group.id).getD 0) = st₂ at ht₂ hr₂ ⊢
    generalize w₁.enter group.id (group.access &&& access |||
      (w₁.walked.lookup group.id).getD 0) = w₂ at ht₂ ⊢
    rw [← hr₂]
    -- the group is checked
    obtain ⟨res, st₃, hok₃, hh₃, hr₃, hw₃, hp₃, hres⟩ :=
      p.authorizeObjGroup_holds hdb ht₂.holds group.id (group.access &&& access)
    have ht₃ : p.Tracks st₃ w₂ := ⟨hh₃, hw₃.trans ht₂.walked, hp₃.trans ht₂.passes⟩
    rw [hok₃]
    show ∃ out, (if (res && st₃.passes) = true then Except.ok (true, st₃) else
      walk group.id (group.access &&& access) st₃ >>= fun x =>
        visitObjGroups p.db walk p.request uri access level len (idx + 1) groups suffixGroup
          x.2) = Except.ok out ∧ _
    have hinner := hlevel group.id (group.access &&& access) w₂
    have hpass₂ := hpass group.id (group.access &&& access) w₂
    by_cases hstop : (res && st₃.passes) = true
    · -- the pass stops at this visit
      obtain ⟨rfl, hpass₃⟩ := Bool.and_eq_true_iff.mp hstop
      have hw₂ : w₂.pass = true := ht₃.passes.symm.trans hpass₃
      have hstops : p.stops st₃.azc.calcRightRes = true := by
        rw [hr₃]
        exact (Bool.and_eq_true_iff.mp hres.symm).2
      rw [if_pos hstop]
      refine ⟨_, rfl, ⟨?_, .inr ⟨⟨hh₃, hstops, hpass₃⟩, ?_⟩, ?_⟩⟩
      · rw [total, ← BitVec.or_assoc, ← hr₃]
        exact (p.or_eq_of_stops hstops fun a => p.total_le).symm
      · exact pass_plainGroups hpass _ _ _ _ _ _ _ _ (hpass₂ hw₂)
      · refine .trans ?_ (p.answersIn_cons st₂.azc.calcRightRes
          ⟨group.id, group.access &&& access, level, w₂.pass⟩ _ rfl hinner).symm
        rw [if_pos hres.symm]
        exact ⟨fun _ => hw₂, fun _ => rfl⟩
    · -- the walk goes on behind the group, then with the rest of the record
      rw [if_neg hstop]
      obtain ⟨out₄, hok₄, hr₄, hf₄, -⟩ :=
        hwalk group.id (group.access &&& access) st₃ w₂ ht₃
      rw [hok₄]
      show ∃ out, visitObjGroups p.db walk p.request uri access level len (idx + 1) groups
        suffixGroup out₄.2 = Except.ok out ∧ _
      have hnext : ∃ out, visitObjGroups p.db walk p.request uri access level len (idx + 1) groups
          suffixGroup out₄.2 = .ok out ∧ p.Walks level out₄.2.azc.calcRightRes
            (plainGroups p.subjectGroups plain uri access level len (idx + 1) groups suffixGroup
              (plain group.id (group.access &&& access) w₂).2) out := by
        rcases hf₄ with ht₄ | ⟨hh₄, hp₄⟩
        · exact ih _ _ _ _ ht₄
        · exact (p.rests_visitObjGroups walk uri access level len hdb hrest groups _ _ _ hh₄).walks
            hh₄ level (pass_plainGroups hpass _ _ _ _ _ _ _ _ hp₄)
      obtain ⟨out₅, hok₅, hr₅, hf₅, ha₅⟩ := hnext
      refine ⟨out₅, hok₅, ⟨?_, hf₅, ?_⟩⟩
      · rw [hr₅, hr₄, hr₃, total, total_append]
        simp only [BitVec.or_assoc]
      · refine ha₅.trans (.trans ?_ (p.answersIn_cons st₂.azc.calcRightRes
          ⟨group.id, group.access &&& access, level, w₂.pass⟩ _ rfl hinner).symm)
        rw [hr₄, hr₃]
        split_ifs with hc
        · rw [← hres] at hc
          have hnot : w₂.pass ≠ true := fun hp =>
            hstop (Bool.and_eq_true_iff.mpr ⟨hc, ht₃.passes.trans hp⟩)
          refine ⟨?_, fun hp => absurd hp hnot⟩
          rintro ⟨v, hv, -⟩
          rw [hres] at hc
          rw [p.firstStop_of_stops (p.stops_or (Bool.and_eq_true_iff.mp hc).2 _)] at hv
          cases hv
        · rfl

end Loop

theorem follows_setFound {p : Pass} {st : AzState} {w : ObjWalk} (h : p.Follows st w) (c : Prop)
    [Decidable c] {b : Bool} (hb : b = true ↔ c) :
    p.Follows (if c then st.setFound true else st) { w with pass := w.pass || b } := by
  by_cases hc : c
  · have hpass : (st.setFound true).passes = true := Bool.or_true _
    rw [if_pos hc, hb.mpr hc]
    rcases h with h | ⟨h, hw⟩
    · exact .inl ⟨h.holds.setFound _, h.walked, hpass.trans (Bool.or_true _).symm⟩
    · exact .inr ⟨⟨h.holds.setFound _, h.stops, hpass⟩, Bool.or_true _⟩
  · rw [if_neg hc, Bool.eq_false_of_not_eq_true fun h => hc (hb.mp h), Bool.or_false]
    exact h

theorem rests_prepareObjGroup (hdb : p.db.Reliable) (left : ℕ) (uri : String) (access : U8)
    (st : AzState) (h : p.Halted st) :
    p.Rests st (prepareObjGroup p.db p.request left uri access st) := by
  have hset : ∀ (c : Prop) [Decidable c] (st : AzState), p.Halted st →
      p.Halted (if c then st.setFound true else st) := by
    intro c _ st h
    split_ifs
    · exact ⟨h.holds.setFound _, h.stops, Bool.or_true _⟩
    · exact h
  have hcalc : ∀ (c : Prop) [Decidable c] (st : AzState),
      (if c then st.setFound true else st).azc.calcRightRes = st.azc.calcRightRes := by
    intro c _ st
    split_ifs <;> rfl
  induction left generalizing uri access st with
  | zero => exact ⟨st, rfl, h, rfl⟩
  | succ left ih =>
    rw [prepareObjGroup]
    cases hget : p.db.get (membershipPrefix ++ uri) with
    | error e =>
      dsimp only
      rw [if_neg (not_lt.mpr (hdb _ _ hget))]
      exact ⟨_, rfl, hset _ _ h, hcalc _ _⟩
    | ok str =>
      obtain ⟨st', hok, hh, hr⟩ := p.rests_visitObjGroups
        (fun id access st => prepareObjGroup p.db p.request left id access st) uri access
        (BitVec.ofNat 8 (32 - left)) (groupsOf str).length hdb
        (fun id access st h => by
          obtain ⟨st', hok, hh, hr⟩ := ih id access st h
          exact ⟨_, st', hok, hh, hr⟩) (groupsOf str) 0 false st h
      refine ⟨_, ?_, hset ((groupsOf str).length = 0) _ hh, (hcalc _ _).trans hr⟩
      dsimp only
      rw [hok]
      rfl

/-- **A pass follows the plain walk**: its walk over the groups of the object adds what the records
of the visited groups grant, and answers at the first visit that completes the request if that is
on the first level and the final check passes. -/
theorem walks_prepareObjGroup (hdb : p.db.Reliable) (left : ℕ) (hleft : left ≤ maxLevels)
    (uri : String) (access : U8) (st : AzState) (w : ObjWalk) (h : p.Tracks st w) :
    ∃ out, prepareObjGroup p.db p.request left uri access st = .ok out ∧
      p.Walks (BitVec.ofNat 8 (maxLevels - left)) st.azc.calcRightRes
        (plainWalk p.db p.subjectGroups left uri access w) out := by
  induction left generalizing uri access st w with
  | zero =>
    refine ⟨_, rfl, ⟨by simp [plainWalk, total], .inl h, ?_⟩⟩
    simp [plainWalk, AnswersIn, firstStop]
  | succ left ih =>
    have hl : maxLevels - (left + 1) = 32 - left := by unfold maxLevels; omega
    rw [prepareObjGroup, plainWalk, hl]
    cases hget : p.db.get (membershipPrefix ++ uri) with
    | error e =>
      dsimp only
      rw [if_neg (not_lt.mpr (hdb _ _ hget))]
      refine ⟨_, rfl, ⟨?_, follows_setFound (.inl h) _ beq_iff_eq, ?_⟩⟩
      · rw [total]
        split_ifs <;> simp [AzState.setFound]
      · simp [AnswersIn, firstStop]
    | ok str =>
      have hlevel : ∀ id access w, ∀ v ∈ (plainWalk p.db p.subjectGroups left id access w).1,
          v.level ≠ BitVec.ofNat 8 (32 - left) := by
        intro id access w v hv heq
        have hle := level_plainWalk p.db p.subjectGroups left (by omega) id access w v hv
        rw [heq, BitVec.toNat_ofNat, Nat.mod_eq_of_lt (by omega)] at hle
        unfold maxLevels at hle hleft
        omega
      obtain ⟨⟨res, st'⟩, hok, hr, hf, ha⟩ := p.walks_visitObjGroups
        (fun id access st => prepareObjGroup p.db p.request left id access st) uri access
        (BitVec.ofNat 8 (32 - left)) (groupsOf str).length hdb
        (fun id access st h => by
          obtain ⟨st', hok, hh, hr⟩ := p.rests_prepareObjGroup hdb left id access st h
          exact ⟨_, st', hok, hh, hr⟩)
        (fun id access st w h => ih (by omega) id access st w h) hlevel
        (fun id access w hw => pass_plainWalk _ _ _ _ _ _ hw) (groupsOf str) 0 false st w h
      dsimp only
      rw [hok]
      cases res with
      | true =>
        refine ⟨_, rfl, ⟨hr, ?_, ha⟩⟩
        -- an answer was given at a group, so there are groups
        have hlen : ((groupsOf str).length == 0) = false := by
          obtain ⟨v, hv, -⟩ := ha.mp rfl
          cases hgroups : groupsOf str with
          | nil =>
            rw [hgroups] at hv
            cases hv
          | cons g gs => rfl
        dsimp only
        rw [hlen, Bool.or_false]
        exact hf
      | false =>
        refine ⟨_, rfl, ⟨?_, follows_setFound hf _ beq_iff_eq, ha⟩⟩
        rw [← hr]
        dsimp only
        split_ifs <;> rfl

end Pass

end Veda.Authorization
