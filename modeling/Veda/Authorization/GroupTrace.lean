import Veda.Authorization.Soundness
import Veda.Lib.Outcome

set_option autoImplicit false

/-!
# The trace of groups

A caller that wants to know the groups of an individual asks for the rights with a trace of groups
and looks for a group among the lines of the text. A line is written for every group of the object
that is checked, so that each of them is the group of all resources, the object itself or a group
that is reached from it along the membership records; but a group whose identifier has a line break
makes more than one line.

## Main definitions

* `Authorization.MemberOf` — groups that are reached along the membership records.
* `Authorization.linesOf` — the lines of a text.
* `Authorization.Named` — a trace of groups that are reached.

## Main results

* `Authorization.named_authorize` — the groups that a check traces are reached.
* `Authorization.mem_linesOf` — the lines of a trace without line breaks in the identifiers.
-/

namespace Veda.Authorization

open Veda.Lib

/-- A group is reached from an individual along the membership records. -/
def MemberOf (db : Storage) (uri g : String) : Prop := Relation.ReflTransGen (SubjectEdge db) uri g

/-- The parts of a text between its line breaks (`split('\n')`). -/
def linesOf (text : String) : List (List Char) := text.toList.splitOn '\n'

/-- A trace names some groups, one on each line. -/
def Traces (groups : List String) (trace : Trace) : Prop :=
  trace.group.toList = groups.flatMap fun g => g.toList ++ ['\n']

/-- A trace names groups of an individual only. -/
def Named (db : Storage) (id : String) (trace : Trace) : Prop :=
  ∃ groups, Traces groups trace ∧ ∀ g ∈ groups, g = allResourcesGroup ∨ MemberOf db id g

/-! ## What does not write groups -/

@[simp] theorem group_printToTraceInfo (trace : Trace) (text : String) :
    (printToTraceInfo trace text).group = trace.group := rfl

@[simp] theorem group_printToTraceAcl (trace : Trace) (text : String) :
    (printToTraceAcl trace text).group = trace.group := rfl

theorem group_finalCheck (st : AzState) : (finalCheck st).2.trace.group = st.trace.group := by
  unfold finalCheck
  dsimp only
  split_ifs <;> rfl

theorem group_finish (st : AzState) : (finish st).2.group = st.trace.group := by
  unfold finish
  dsimp only
  rw [← group_finalCheck st]
  split_ifs <;> rfl

theorem group_tracePermission (request permission calcBits prevRes access : U8)
    (subjId objId : String) (st : AzState) :
    (tracePermission request permission calcBits prevRes access subjId objId st).trace.group =
      st.trace.group := by
  unfold tracePermission
  dsimp only
  split_ifs <;> rfl

theorem group_checkBits (request objAccess subjAccess permission : U8) (subjId objId : String)
    (bits : List U8) (st : AzState) :
    (checkBits request objAccess subjAccess permission subjId objId bits st).2.trace.group =
      st.trace.group := by
  induction bits generalizing st with
  | nil => rfl
  | cons access bits ih =>
    unfold checkBits
    dsimp only
    split_ifs
    · rfl
    · rw [ih, group_tracePermission]
    · exact ih st
    · exact ih st

theorem group_checkPermissions (request objAccess : U8) (objId : String)
    (permissions : List Right) (st : AzState) :
    (checkPermissions request objAccess objId permissions st).2.trace.group = st.trace.group := by
  induction permissions generalizing st with
  | nil => rfl
  | cons permission permissions ih =>
    unfold checkPermissions
    cases st.azc.subjectGroups.lookup permission.id with
    | none => exact ih st
    | some subjGr =>
      dsimp only
      split_ifs
      · exact group_checkBits ..
      · rw [ih, group_checkBits]

/-! ## What writes groups -/

theorem Named.congr {db : Storage} {id : String} {trace trace' : Trace} (h : Named db id trace)
    (hgroup : trace'.group = trace.group) : Named db id trace' := by
  obtain ⟨groups, htraces, hgroups⟩ := h
  exact ⟨groups, by rw [Traces, hgroup, htraces], hgroups⟩

theorem Named.print {db : Storage} {id g : String} {trace : Trace} (h : Named db id trace)
    (hg : g = allResourcesGroup ∨ MemberOf db id g) :
    Named db id (printToTraceGroup trace (g ++ "\n")) := by
  obtain ⟨groups, htraces, hgroups⟩ := h
  refine ⟨groups ++ [g], ?_, ?_⟩
  · rw [Traces] at htraces ⊢
    simp [printToTraceGroup, htraces]
  · intro g' hg'
    rcases List.mem_append.mp hg' with hg' | hg'
    · exact hgroups g' hg'
    · rw [List.mem_singleton.mp hg']
      exact hg

section Walk

variable {db : Storage} {id : String}

theorem named_readObjGroup {request objAccess : U8} {g : String} {st : AzState}
    {out : Bool × AzState} (hst : Named db id st.trace)
    (hg : g = allResourcesGroup ∨ MemberOf db id g)
    (h : readObjGroup db request g objAccess st = .ok out) : Named db id out.2.trace := by
  have hprinted : Named db id
      (if st.trace.isGroup then { st with trace := printToTraceGroup st.trace (g ++ "\n") }
        else st).trace := by
    split_ifs
    · exact hst.print hg
    · exact hst
  unfold readObjGroup at h
  dsimp only at h
  generalize (if st.trace.isGroup then { st with trace := printToTraceGroup st.trace (g ++ "\n") }
    else st) = st₁ at h hprinted
  split at h
  · split_ifs at h <;>
    · obtain rfl := Except.ok.inj h
      exact hprinted.congr (group_checkPermissions ..)
  · split_ifs at h
    obtain rfl := Except.ok.inj h
    exact hprinted

theorem named_authorizeObjGroup {request objAccess : U8} {g : String} {st : AzState}
    {out : Bool × AzState} (hst : Named db id st.trace)
    (hg : g = allResourcesGroup ∨ MemberOf db id g)
    (h : authorizeObjGroup db request g objAccess st = .ok out) : Named db id out.2.trace := by
  unfold authorizeObjGroup at h
  dsimp only at h
  split_ifs at h
  · obtain rfl := Except.ok.inj h
    exact hst
  · obtain rfl := Except.ok.inj h
    exact hst
  · refine named_readObjGroup ?_ hg h
    exact hst
  · exact named_readObjGroup hst hg h

/-- The loop over the groups of a record, when the walks that it starts name groups only.

**Proof sketch.** By induction on the groups that are left. A group is passed over, or it is checked
and walked; it is listed in the record of an individual that is reached, and so it is reached. -/
theorem named_visitObjGroups {walk : String → U8 → AzState → Except Int (Bool × AzState)}
    (hwalk : ∀ g access st out, MemberOf db id g → Named db id st.trace →
      walk g access st = .ok out → Named db id out.2.trace)
    {request : U8} {uri : String} (huri : MemberOf db id uri) (access level : U8) (len : ℕ)
    (groups : List Right) (hgroups : ∀ group ∈ groups, SubjectEdge db uri group.id) (idx : ℕ)
    (suffix : Bool) (st : AzState) {out : Bool × AzState} (hst : Named db id st.trace)
    (h : visitObjGroups db walk request uri access level len idx groups suffix st = .ok out) :
    Named db id out.2.trace := by
  induction groups generalizing idx suffix st with
  | nil =>
    obtain rfl := Except.ok.inj h
    exact hst
  | cons group groups ih =>
    have hgroup : MemberOf db id group.id := huri.tail (hgroups group List.mem_cons_self)
    have hrest := ih fun g hg => hgroups g (List.mem_cons_of_mem _ hg)
    unfold visitObjGroups at h
    dsimp only at h
    -- the marks of the exclusive groups are not a part of the trace
    have hfound : Named db id (if st.seeks then
        st.setFound (judgeExclusive level uri (idx == len - 1)
          (if st.seeks then containSuffixGroup level suffix group else suffix) group
          st.azc.subjectGroups) else st).trace := by
      split_ifs <;> exact hst
    generalize (if st.seeks then containSuffixGroup level suffix group else suffix) =
      suffixGroup at h hfound
    generalize (if st.seeks then
      st.setFound (judgeExclusive level uri (idx == len - 1) suffixGroup group
        st.azc.subjectGroups) else st) = st₁ at h hfound
    split_ifs at h
    · exact hrest _ _ _ hst h
    · exact hrest _ _ _ hfound h
    · exact hrest _ _ _ hfound h
    · exact hrest _ _ (st₁.enter ..) hfound h
    · obtain ⟨⟨res, st₂⟩, hcheck, h⟩ := bind_eq_ok h
      have hst₂ : Named db id (res, st₂).2.trace := by
        refine named_authorizeObjGroup ?_ (.inr hgroup) hcheck
        exact hfound
      dsimp only at h
      split_ifs at h
      · obtain rfl := Except.ok.inj h
        exact hst₂
      · obtain ⟨⟨res', st₃⟩, hwalked, h⟩ := bind_eq_ok h
        exact hrest _ _ _ (hwalk _ _ _ _ hgroup hst₂ hwalked) h

theorem named_prepareObjGroup (request : U8) (left : ℕ) (uri : String) (access : U8)
    (st : AzState) {out : Bool × AzState} (huri : MemberOf db id uri)
    (hst : Named db id st.trace)
    (h : prepareObjGroup db request left uri access st = .ok out) : Named db id out.2.trace := by
  induction left generalizing uri access st out with
  | zero =>
    obtain rfl := Except.ok.inj h
    exact hst
  | succ left ih =>
    unfold prepareObjGroup at h
    split at h
    · rename_i groupsStr hget
      obtain ⟨⟨res, st₁⟩, hvisit, h⟩ := bind_eq_ok h
      have hlisted : ∀ group ∈ groupsOf groupsStr, SubjectEdge db uri group.id :=
        fun group hgroup => ⟨group, by rw [memberGroups, hget]; exact hgroup, rfl⟩
      have hst₁ := named_visitObjGroups
        (fun g access st out hg hst h => ih g access st hg hst h) huri access _ _ _ hlisted _ _ _
        hst hvisit
      dsimp only at h
      split_ifs at h <;>
      · obtain rfl := Except.ok.inj h
        exact hst₁
    · split_ifs at h <;>
      · obtain rfl := Except.ok.inj h
        exact hst

theorem named_authorizeFirst {request : U8} (groups : List String)
    (hgroups : ∀ g ∈ groups, g = allResourcesGroup ∨ MemberOf db id g) (st : AzState)
    {out : Option U8 × AzState} (hst : Named db id st.trace)
    (h : authorizeFirst db request groups st = .ok out) : Named db id out.2.trace := by
  induction groups generalizing st with
  | nil =>
    obtain rfl := Except.ok.inj h
    exact hst
  | cons g groups ih =>
    have hrest := ih fun g hg => hgroups g (List.mem_cons_of_mem _ hg)
    unfold authorizeFirst at h
    obtain ⟨⟨res, st₁⟩, hcheck, h⟩ := bind_eq_ok h
    have hst₁ := named_authorizeObjGroup hst (hgroups g List.mem_cons_self) hcheck
    dsimp only at h
    split_ifs at h
    · obtain rfl := Except.ok.inj h
      exact hst₁.congr (group_finalCheck st₁)
    · exact hrest _ (hst₁.congr (group_finalCheck st₁)) h
    · exact hrest _ hst₁ h

theorem named_authorizeObjGroups {request : U8} (st : AzState) {out : Option U8 × AzState}
    (hst : Named db id st.trace) (h : authorizeObjGroups db id request st = .ok out) :
    Named db id out.2.trace := by
  unfold authorizeObjGroups at h
  obtain ⟨⟨answer, st₁⟩, hfirst, h⟩ := bind_eq_ok h
  have hst₁ : Named db id st₁.trace := named_authorizeFirst _
    (by
      intro g hg
      rcases List.mem_cons.mp hg with rfl | hg
      · exact .inl rfl
      · rw [List.mem_singleton.mp hg]
        exact .inr .refl) st hst hfirst
  cases answer with
  | some answer =>
    obtain rfl := Except.ok.inj h
    exact hst₁
  | none =>
    dsimp only at h
    obtain ⟨⟨res, st₂⟩, hprepare, h⟩ := bind_eq_ok h
    have hst₂ := named_prepareObjGroup request maxLevels id 15 st₁ .refl hst₁ hprepare
    dsimp only at h
    split_ifs at h <;> obtain rfl := Except.ok.inj h
    · exact hst₂.congr (group_finalCheck st₂)
    · exact hst₂.congr (group_finalCheck st₂)
    · exact hst₂

end Walk

/-! ## The groups of the subject -/

theorem group_foundExclusive (w : SubjectWalk) (id : String) :
    (w.foundExclusive id).trace.group = w.trace.group := by
  unfold SubjectWalk.foundExclusive
  dsimp only
  split_ifs <;> rfl

theorem group_visitSubjectGroup
    {walk : String → Bool → SubjectWalk → Except Int (Bool × SubjectWalk)}
    (hwalk : ∀ id ignore w out, walk id ignore w = .ok out → out.2.trace.group = w.trace.group)
    {uri : String} {access level : U8} {ignore : Bool} {w w' : SubjectWalk} {group : Right}
    (h : visitSubjectGroup walk uri access level ignore w group = .ok w') :
    w'.trace.group = w.trace.group := by
  unfold visitSubjectGroup at h
  dsimp only at h
  -- the maps of the walk are not a part of the trace
  generalize hentered : ({ w with
    walkedGroups := w.walkedGroups.insert group.id
      (group.access &&& access ||| ((w.walkedGroups.lookup group.id).map Prod.fst).getD 0,
        group.marker)
    treeGroups := if w.trace.isInfo then w.treeGroups.insert group.id uri else w.treeGroups } :
    SubjectWalk) = w₁ at h
  have hgroup : w₁.trace.group = w.trace.group := by rw [← hentered]
  clear hentered
  split at h
  · obtain rfl := Except.ok.inj h
    rfl
  split at h
  · obtain rfl := Except.ok.inj h
    rfl
  split at h
  · obtain rfl := Except.ok.inj h
    exact hgroup
  · obtain ⟨⟨res, w₂⟩, hwalked, h⟩ := bind_eq_ok h
    have hw₂ : w₂.trace.group = w.trace.group := (hwalk _ _ _ _ hwalked).trans hgroup
    obtain rfl := Except.ok.inj h
    dsimp only
    rw [← hw₂]
    split_ifs
    · exact group_foundExclusive w₂ group.id
    · rfl

theorem group_visitSubjectGroups
    {walk : String → Bool → SubjectWalk → Except Int (Bool × SubjectWalk)}
    (hwalk : ∀ id ignore w out, walk id ignore w = .ok out → out.2.trace.group = w.trace.group)
    {uri : String} {access level : U8} {ignore : Bool} (groups : List Right) {w w' : SubjectWalk}
    (h : groups.foldlM (visitSubjectGroup walk uri access level ignore) w = .ok w') :
    w'.trace.group = w.trace.group := by
  induction groups generalizing w with
  | nil =>
    obtain rfl := Except.ok.inj h
    rfl
  | cons group groups ih =>
    rw [List.foldlM_cons] at h
    obtain ⟨w₁, hvisit, h⟩ := bind_eq_ok h
    rw [ih h, group_visitSubjectGroup hwalk hvisit]

theorem group_getResourceGroups (db : Storage) (left : ℕ) (uri : String) (access : U8)
    (ignore : Bool) (w : SubjectWalk) {out : Bool × SubjectWalk}
    (h : getResourceGroups db left uri access ignore w = .ok out) :
    out.2.trace.group = w.trace.group := by
  induction left generalizing uri access ignore w out with
  | zero =>
    obtain rfl := Except.ok.inj h
    rfl
  | succ left ih =>
    unfold getResourceGroups at h
    split at h
    · rename_i groupsStr hget
      obtain ⟨w₁, hfold, h⟩ := bind_eq_ok h
      obtain rfl := Except.ok.inj h
      exact group_visitSubjectGroups (fun id ignore w out h => ih id 15 ignore w h) _ hfold
    · split_ifs at h
      obtain rfl := Except.ok.inj h
      rfl

/-! ## The check -/

theorem named_of_group_eq {db : Storage} {id : String} {trace : Trace} (h : trace.group = "") :
    Named db id trace :=
  ⟨[], by rw [Traces, h]; rfl, fun g hg => absurd hg List.not_mem_nil⟩

/-- **The groups that are traced** are reached from the object. -/
theorem named_authorize {db : Storage} {id userId : String} {requestAccess : U8} {trace : Trace}
    (hempty : trace.group = "") {out : U8 × Trace}
    (h : authorize id userId requestAccess db trace = .ok out) : Named db id out.2 := by
  unfold authorize at h
  obtain ⟨⟨res, w⟩, hwalk, h⟩ := bind_eq_ok h
  have hw : w.trace.group = "" := by
    have hsame := group_getResourceGroups db maxLevels userId 15 false _ hwalk
    dsimp only at hsame
    rw [hsame]
    split_ifs <;> exact hempty
  unfold authorizePasses at h
  obtain ⟨⟨answer, st⟩, hpass, h⟩ := bind_eq_ok h
  have hst : Named db id st.trace :=
    named_authorizeObjGroups ⟨.start id userId requestAccess w, w.trace⟩ (named_of_group_eq hw) hpass
  cases answer with
  | some answer =>
    obtain rfl := Except.ok.inj h
    exact hst
  | none =>
    dsimp only at h
    split_ifs at h
    · obtain rfl := Except.ok.inj h
      exact hst.congr (group_finish st)
    · obtain ⟨⟨answer, st'⟩, hpass', h⟩ := bind_eq_ok h
      have hst' : Named db id st'.trace := named_authorizeObjGroups (st.withFilter _) hst hpass'
      cases answer with
      | some answer =>
        obtain rfl := Except.ok.inj h
        exact hst'
      | none =>
        obtain rfl := Except.ok.inj h
        exact hst'.congr (group_finish st')

/-! ## Lines -/

theorem mem_linesOf {groups : List String} {trace : Trace} (h : Traces groups trace)
    (hbreaks : ∀ g ∈ groups, '\n' ∉ g.toList) {g : String} (hg : g ≠ "") :
    g.toList ∈ linesOf trace.group ↔ g ∈ groups := by
  rw [linesOf, h]
  clear h
  induction groups with
  | nil => simp [List.splitOn_nil, hg]
  | cons g' groups ih =>
    have hrest := ih fun g hg => hbreaks g (List.mem_cons_of_mem _ hg)
    rw [List.flatMap_cons, List.append_assoc, List.singleton_append,
      List.splitOn_append_cons_self_of_not_mem (hbreaks g' List.mem_cons_self),
      List.mem_cons, List.mem_cons, hrest, String.toList_inj]

end Veda.Authorization
