import Veda.Authorization.Walk
import Veda.Authorization.AccessBits

set_option autoImplicit false

/-!
# What one access control record adds

Checking a group adds the bits that its record grants within the request, and nothing else that a
later step looks at. The shortcuts of an untraced check leave out only what would add nothing.

## Main definitions

* `Authorization.AzCore` — the part of the state that the check looks at.
* `Authorization.grants` — the bits that the record of a group grants.
* `Authorization.Checked` — the groups that count as checked have added their bits.

## Main results

* `Authorization.authorizeObjGroup_eq` — one group is checked.
-/

namespace Veda.Authorization

open Veda.Lib

/-! ## Bits -/

@[simp] theorem has_xor (x y : U8) (a : Access) : has (x ^^^ y) a = (has x a ^^ has y a) := by
  simp [has]

theorem covers_iff (x request : U8) :
    covers x request = true ↔ ∀ a, has request a = true → has x a = true := by
  rw [covers, beq_iff_eq]
  constructor
  · intro h a ha
    rw [← h, has_and, Bool.and_eq_true] at ha
    exact ha.1
  · intro h
    refine ext_has fun a => ?_
    rw [has_and, Bool.and_eq_right_iff_imp]
    exact h a

/-- The bits that allow something, in the order of `access8List`. -/
def allowBits : List Access := [.canCreate, .canRead, .canUpdate, .canDelete]

/-- The bit that denies what an allow bit allows. -/
def Access.denial : Access → Access
  | .canCreate => .cantCreate
  | .canRead => .cantRead
  | .canUpdate => .cantUpdate
  | .canDelete => .cantDelete
  | a => a

theorem access8List_eq : access8List = allowBits.map Access.toU8 := by decide

theorem has_permissionAccess (x : U8) {a : Access} (ha : a ∈ allowBits) :
    has (permissionAccess x) a = (has x a && !has x a.denial) := by
  revert x a
  decide

/-! ## The part of the state that is looked at -/

/-- The part of the state of a check that decides how it goes on. -/
@[ext] structure AzCore where
  calcRightRes : U8
  isNeedExclusiveAz : Bool
  isFoundExclusiveAz : Bool
  walkedGroupsO : HashMap String U8
  checkedGroups : HashMap String U8
  subjectGroups : HashMap String Right
  filterValue : String
  isOn : Bool

def AzState.core (st : AzState) : AzCore where
  calcRightRes := st.azc.calcRightRes
  isNeedExclusiveAz := st.azc.isNeedExclusiveAz
  isFoundExclusiveAz := st.azc.isFoundExclusiveAz
  walkedGroupsO := st.azc.walkedGroupsO
  checkedGroups := st.azc.checkedGroups
  subjectGroups := st.azc.subjectGroups
  filterValue := st.azc.filterValue
  isOn := st.trace.isOn

/-- An untraced check may stop here: the request is covered. -/
def AzCore.stops (c : AzCore) (request : U8) : Bool := covers c.calcRightRes request && !c.isOn

theorem core_tracePermission (request permission calcBits prevRes access : U8)
    (subjId objId : String) (st : AzState) :
    (tracePermission request permission calcBits prevRes access subjId objId st).core = st.core := by
  have hfound : ∀ st, (traceFound request permission calcBits subjId objId st).core = st.core :=
    fun _ => rfl
  have hacl : ∀ st, (traceAcl access subjId objId st).core = st.core := fun _ => rfl
  unfold tracePermission
  dsimp only
  split_ifs <;> simp only [hacl, hfound]

/-! ## One permission -/

/-- A permission for a subject of the user gives a bit within the request. -/
def Gives (request objAccess subjAccess permission : U8) (a : Access) : Prop :=
  a ∈ allowBits ∧ has request a = true ∧ has objAccess a = true ∧ has subjAccess a = true ∧
    has permission a = true

/-- What a loop over permissions does to the state: only the calculated rights may grow, by bits
that are `given`; it is left early only when an untraced check may stop, and else has added
them all. -/
structure Adds (request : U8) (given : Access → Prop) (st : AzState) (out : Bool × AzState) :
    Prop where
  core_eq : out.2.core = { st.core with calcRightRes := out.2.core.calcRightRes }
  keeps : ∀ a, has st.core.calcRightRes a = true → has out.2.core.calcRightRes a = true
  only : ∀ a, has out.2.core.calcRightRes a = true → has st.core.calcRightRes a = true ∨ given a
  early : out.1 = true → out.2.core.stops request = true
  all : out.1 = false → ∀ a, given a → has out.2.core.calcRightRes a = true

theorem Adds.refl (request : U8) {given : Access → Prop} (h : ∀ a, ¬ given a) (st : AzState) :
    Adds request given st (false, st) where
  core_eq := rfl
  keeps _ h := h
  only _ h := .inl h
  early h := by cases h
  all _ a ha := absurd ha (h a)

theorem Adds.congr {request : U8} {given given' : Access → Prop} {st : AzState}
    {out : Bool × AzState} (h : Adds request given st out) (hg : ∀ a, given a ↔ given' a) :
    Adds request given' st out := by
  obtain rfl : given = given' := funext fun a => propext (hg a)
  exact h

theorem Adds.stop {request : U8} {given given' : Access → Prop} {st st' : AzState}
    (h : Adds request given st (true, st')) (hg : ∀ a, given a → given' a) :
    Adds request given' st (true, st') where
  core_eq := h.core_eq
  keeps := h.keeps
  only a ha := (h.only a ha).imp_right (hg a)
  early := h.early
  all hf := by cases hf

theorem Adds.trans {request : U8} {given given' given'' : Access → Prop} {st st' : AzState}
    {out : Bool × AzState} (h : Adds request given st (false, st'))
    (h' : Adds request given' st' out) (hg : ∀ a, given'' a ↔ given a ∨ given' a) :
    Adds request given'' st out where
  core_eq := by
    rw [h'.core_eq, h.core_eq]
  keeps a ha := h'.keeps a (h.keeps a ha)
  only a ha := by
    rcases h'.only a ha with ha | ha
    · exact (h.only a ha).imp_right fun hga => (hg a).mpr (.inl hga)
    · exact .inr ((hg a).mpr (.inr ha))
  early := h'.early
  all hf a ha := by
    rcases (hg a).mp ha with ha | ha
    · exact h'.keeps a (h.all rfl a ha)
    · exact h'.all hf a ha

section Loops

variable (request objAccess : U8)

/-- The loop over the bits.

**Proof sketch.** Induction on the bits. A bit that is not given leaves the state alone, a bit that
is given is added, and the loop is left when that covers the request. -/
theorem adds_checkBits (subjAccess permission : U8) (subjId objId : String) (l : List Access)
    (hl : ∀ a ∈ l, a ∈ allowBits) (st : AzState) :
    Adds request (fun a => a ∈ l ∧ Gives request objAccess subjAccess permission a) st
      (checkBits request objAccess subjAccess permission subjId objId (l.map Access.toU8) st) := by
  induction l generalizing st with
  | nil => exact .refl _ (by simp) st
  | cons a l ih =>
    have hrest := ih fun b hb => hl b (List.mem_cons_of_mem _ hb)
    rw [List.map_cons, checkBits]
    have hcond : request &&& a.toU8 &&& objAccess &&& subjAccess ≠ 0 ↔
        has request a = true ∧ has objAccess a = true ∧ has subjAccess a = true := by
      rw [show request &&& a.toU8 &&& objAccess &&& subjAccess =
        a.toU8 &&& (request &&& objAccess &&& subjAccess) by
          ext i; simp; ac_rfl, toU8_and_ne_zero]
      simp [and_assoc]
    have hbits : 0 < a.toU8 &&& permission ↔ has permission a = true := by
      rw [← toU8_and_ne_zero]
      exact BitVec.pos_iff_ne_zero _
    by_cases hgive : Gives request objAccess subjAccess permission a
    · obtain ⟨-, hr, ho, hs, hp⟩ := id hgive
      rw [if_pos (hcond.mpr ⟨hr, ho, hs⟩), if_pos (hbits.mpr hp), and_toU8, if_pos hp]
      -- the bit is added
      have hadd : ∀ st', st'.core = { st.core with
          calcRightRes := st.core.calcRightRes ||| a.toU8 } → ∀ res,
          (res = true → st'.core.stops request = true) →
          Adds request (fun b => b = a) st (res, st') := by
        intro st' hst' res hres
        refine ⟨by rw [hst'], fun b hb => ?_, fun b hb => ?_, hres, fun _ b hb => ?_⟩
        · rw [hst', has_or, hb, Bool.true_or]
        · rw [hst', has_or, has_toU8, Bool.or_eq_true, decide_eq_true_iff] at hb
          exact hb.imp_right Eq.symm
        · rw [hst', hb, has_or, has_toU8, decide_eq_true rfl, Bool.or_true]
      dsimp only
      split_ifs with hstop
      · refine (hadd { st with azc := { st.azc with
          calcRightRes := st.azc.calcRightRes ||| a.toU8 } } rfl true fun _ => hstop).stop
            fun b hb => ?_
        rw [hb]
        exact ⟨List.mem_cons_self, hgive⟩
      · refine (hadd _ ?_ false fun h => by cases h).trans (hrest _) fun b => ?_
        · rw [core_tracePermission]
          rfl
        · constructor
          · rintro ⟨hb, hg⟩
            exact (List.mem_cons.mp hb).imp_right fun hb => ⟨hb, hg⟩
          · rintro (rfl | ⟨hb, hg⟩)
            · exact ⟨List.mem_cons_self, hgive⟩
            · exact ⟨List.mem_cons_of_mem _ hb, hg⟩
    · have hskip := show Adds request
          (fun b => b ∈ a :: l ∧ Gives request objAccess subjAccess permission b) st
          (checkBits request objAccess subjAccess permission subjId objId (l.map Access.toU8) st) from
        (hrest st).congr fun b => by
          rw [List.mem_cons]
          constructor
          · rintro ⟨hb, hg⟩
            exact ⟨.inr hb, hg⟩
          · rintro ⟨rfl | hb, hg⟩
            · exact absurd hg hgive
            · exact ⟨hb, hg⟩
      by_cases h1 : request &&& a.toU8 &&& objAccess &&& subjAccess ≠ 0
      · obtain ⟨hr, ho, hs⟩ := hcond.mp h1
        have h2 : ¬ 0 < a.toU8 &&& permission := fun h2 =>
          hgive ⟨hl a List.mem_cons_self, hr, ho, hs, hbits.mp h2⟩
        rw [if_pos h1, if_neg h2]
        exact hskip
      · rw [if_neg h1]
        exact hskip

/-- The bits that an entry gives to the user. -/
def entryGrants (subjectGroups : HashMap String Right) (permission : Right) : U8 :=
  match subjectGroups.lookup permission.id with
  | some subjGr =>
    request &&& objAccess &&& subjGr.access &&& permissionAccess permission.access &&& 15
  | none => 0

/-- The bits that some entries give to the user. -/
def recordGrants (subjectGroups : HashMap String Right) (permissions : List Right) : U8 :=
  (permissions.map (entryGrants request objAccess subjectGroups)).foldr (· ||| ·) 0

theorem has_fifteen (a : Access) : has (15 : U8) a = decide (a ∈ allowBits) := by cases a <;> decide

theorem has_entryGrants {subjectGroups : HashMap String Right} {permission subjGr : Right}
    (h : subjectGroups.lookup permission.id = some subjGr) (a : Access) :
    has (entryGrants request objAccess subjectGroups permission) a = true ↔
      Gives request objAccess subjGr.access (permissionAccess permission.access) a := by
  simp only [entryGrants, h, has_and, has_fifteen, Bool.and_eq_true, decide_eq_true_iff, Gives]
  tauto

theorem recordGrants_cons (subjectGroups : HashMap String Right) (p : Right) (l : List Right) :
    recordGrants request objAccess subjectGroups (p :: l) =
      entryGrants request objAccess subjectGroups p |||
        recordGrants request objAccess subjectGroups l := rfl

theorem has_recordGrants (subjectGroups : HashMap String Right) (l : List Right) (a : Access) :
    has (recordGrants request objAccess subjectGroups l) a = true ↔
      ∃ p ∈ l, has (entryGrants request objAccess subjectGroups p) a = true := by
  induction l with
  | nil => simp [recordGrants]
  | cons p l ih => simp [recordGrants_cons, ih]

theorem recordGrants_le (subjectGroups : HashMap String Right) (l : List Right) {a : Access}
    (h : has (recordGrants request objAccess subjectGroups l) a = true) :
    has request a = true ∧ has objAccess a = true ∧ a ∈ allowBits := by
  obtain ⟨p, -, hp⟩ := (has_recordGrants _ _ _ _ _).mp h
  cases hl : subjectGroups.lookup p.id with
  | none => simp [entryGrants, hl] at hp
  | some subjGr =>
    obtain ⟨ha, hr, ho, -⟩ := (has_entryGrants _ _ hl a).mp hp
    exact ⟨hr, ho, ha⟩

theorem adds_checkPermissions (objId : String) (l : List Right) (st : AzState) :
    Adds request
      (fun a => has (recordGrants request objAccess st.azc.subjectGroups l) a = true) st
      (checkPermissions request objAccess objId l st) := by
  induction l generalizing st with
  | nil => exact .refl _ (by simp [recordGrants]) st
  | cons p l ih =>
    rw [checkPermissions]
    cases hp : st.azc.subjectGroups.lookup p.id with
    | none =>
      refine (ih st).congr fun a => ?_
      rw [recordGrants_cons, entryGrants, hp]
      simp
    | some subjGr =>
      have hbits : Adds request
          (fun a => has (entryGrants request objAccess st.azc.subjectGroups p) a = true) st
          (checkBits request objAccess subjGr.access (permissionAccess p.access) p.id objId
            access8List st) := by
        rw [access8List_eq]
        refine (adds_checkBits request objAccess subjGr.access (permissionAccess p.access) p.id
          objId allowBits (fun _ h => h) st).congr fun a => ?_
        rw [has_entryGrants _ _ hp]
        exact ⟨fun h => h.2, fun h => ⟨h.1, h⟩⟩
      dsimp only
      generalize checkBits request objAccess subjGr.access (permissionAccess p.access) p.id objId
        access8List st = out at hbits ⊢
      obtain ⟨res, st'⟩ := out
      cases res with
      | true =>
        refine hbits.stop fun a ha => ?_
        rw [recordGrants_cons, has_or, ha, Bool.true_or]
      | false =>
        have hsub : st'.azc.subjectGroups = st.azc.subjectGroups :=
          congrArg AzCore.subjectGroups hbits.core_eq
        refine hbits.trans (ih st') fun a => ?_
        rw [recordGrants_cons, has_or, Bool.or_eq_true, hsub]

end Loops

/-! ## One group -/

/-- The reads of the storage never fail. -/
def Storage.Reliable (db : Storage) : Prop := ∀ key e, db.get key = .error e → 0 ≤ e

/-- The entries of the access control record of a group. -/
def aclOf (db : Storage) (filterValue objId : String) : List Right :=
  match db.get (aclKey filterValue objId) with
  | .ok str => groupsOf str
  | .error _ => []

/-- The bits that the access control record of a group gives to the user. -/
def grants (db : Storage) (filterValue : String) (subjectGroups : HashMap String Right)
    (request : U8) (objId : String) (objAccess : U8) : U8 :=
  recordGrants request objAccess subjectGroups (aclOf db filterValue objId)

/-- The state with some more rights. -/
def AzCore.add (c : AzCore) (x : U8) : AzCore := { c with calcRightRes := c.calcRightRes ||| x }

section Group

variable (db : Storage) (request : U8)

/-- What the state says the record of a group grants. -/
def AzCore.grants (c : AzCore) (objId : String) (objAccess : U8) : U8 :=
  Authorization.grants db c.filterValue c.subjectGroups request objId objAccess

/-- The groups that count as checked have added what their records grant. -/
def Checked (c : AzCore) : Prop :=
  ∀ objId objAccess, c.checkedGroups.lookup objId = some objAccess →
    ∀ a, has (c.grants db request objId objAccess) a = true → has c.calcRightRes a = true

theorem Adds.core_add {request : U8} {x : U8} {st : AzState} {out : Bool × AzState}
    (h : Adds request (fun a => has x a = true) st out)
    (hx : ∀ a, has x a = true → has request a = true) : out.2.core = st.core.add x := by
  have hall : ∀ a, has x a = true → has out.2.core.calcRightRes a = true := by
    intro a ha
    cases hres : out.1 with
    | false => exact h.all hres a ha
    | true =>
      have hstop := h.early hres
      rw [AzCore.stops, Bool.and_eq_true] at hstop
      exact (covers_iff _ _).mp hstop.1 a (hx a ha)
  have hcalc : out.2.core.calcRightRes = st.core.calcRightRes ||| x := by
    refine ext_has fun a => ?_
    rw [Bool.eq_iff_iff, has_or, Bool.or_eq_true]
    exact ⟨h.only a, fun ha => ha.elim (h.keeps a) (hall a)⟩
  rw [h.core_eq, hcalc]
  rfl

theorem readObjGroup_eq (hdb : db.Reliable) (objId : String) (objAccess : U8) (st : AzState) :
    ∃ st', readObjGroup db request objId objAccess st = .ok (st'.core.stops request, st') ∧
      st'.core = st.core.add (st.core.grants db request objId objAccess) := by
  have hcore : ∀ st : AzState, (if st.trace.isGroup then
      { st with trace := printToTraceGroup st.trace (objId ++ "\n") } else st).core = st.core := by
    intro st
    split_ifs <;> rfl
  unfold readObjGroup
  dsimp only
  generalize hst' : (if st.trace.isGroup then
      { st with trace := printToTraceGroup st.trace (objId ++ "\n") } else st) = st'
  have hc : st'.core = st.core := by rw [← hst', hcore]
  have hf : st'.azc.filterValue = st.azc.filterValue := congrArg AzCore.filterValue hc
  have hs : st'.azc.subjectGroups = st.azc.subjectGroups := congrArg AzCore.subjectGroups hc
  have hg : st.core.grants db request objId objAccess =
      recordGrants request objAccess st'.azc.subjectGroups
        (aclOf db st'.azc.filterValue objId) := by
    rw [hf, hs]
    rfl
  rw [hg, aclOf]
  cases hget : db.get (aclKey st'.azc.filterValue objId) with
  | error e =>
    refine ⟨st', ?_, ?_⟩
    · dsimp only
      rw [if_neg (not_lt.mpr (hdb _ _ hget))]
      rfl
    · have hz : recordGrants request objAccess st'.azc.subjectGroups [] = 0 := rfl
      dsimp only
      rw [hz, hc, AzCore.add]
      simp
  | ok str =>
    have hadds := adds_checkPermissions request objAccess objId (groupsOf str) st'
    have hcore := hadds.core_add fun a ha => (recordGrants_le _ _ _ _ ha).1
    rw [hc] at hcore
    dsimp only
    refine ⟨_, ?_, hcore⟩
    cases hres : (checkPermissions request objAccess objId (groupsOf str) st').1 with
    | true => rw [if_pos rfl, hadds.early hres]
    | false => rfl

/-- What checking a group does. -/
structure Checks (objId : String) (objAccess : U8) (st : AzState) (out : Bool × AzState) :
    Prop where
  core_eq : ∃ checked, out.2.core =
    { st.core.add (st.core.grants db request objId objAccess) with checkedGroups := checked }
  checked : Checked db request out.2.core
  answer : out.1 = (!st.core.stops request &&
    (st.core.add (st.core.grants db request objId objAccess)).stops request)

/-- **A group is checked**: the bits its record grants are added, and an untraced check may stop
exactly when they complete the request.

**Proof sketch.** A group that is passed over would add nothing: none of its bits is missing, or
it was checked before with the same bits. -/
theorem authorizeObjGroup_eq (hdb : db.Reliable) (objId : String) (objAccess : U8) (st : AzState)
    (hck : Checked db request st.core) :
    ∃ out, authorizeObjGroup db request objId objAccess st = .ok out ∧
      Checks db request objId objAccess st out := by
  have hle : ∀ c : AzCore, ∀ a, has (c.grants db request objId objAccess) a = true →
      has request a = true ∧ has objAccess a = true := fun c a ha =>
    ⟨(recordGrants_le _ _ _ _ ha).1, (recordGrants_le _ _ _ _ ha).2.1⟩
  have hskip : (∀ a, has (st.core.grants db request objId objAccess) a = true →
      has st.core.calcRightRes a = true) → Checks db request objId objAccess st (false, st) := by
    intro hsub
    have hadd : st.core.add (st.core.grants db request objId objAccess) = st.core := by
      have : st.core.calcRightRes ||| st.core.grants db request objId objAccess =
          st.core.calcRightRes := by
        refine ext_has fun a => ?_
        rw [Bool.eq_iff_iff, has_or, Bool.or_eq_true]
        exact ⟨fun h => h.elim id (hsub a), .inl⟩
      rw [AzCore.add, this]
    exact ⟨⟨st.core.checkedGroups, by rw [hadd]⟩, hck, by rw [hadd, Bool.not_and_self]⟩
  have hmono : ∀ c : AzCore, c.filterValue = st.core.filterValue →
      c.subjectGroups = st.core.subjectGroups → (∀ a, has st.core.calcRightRes a = true →
        has c.calcRightRes a = true) → c.checkedGroups = st.core.checkedGroups →
      Checked db request c := by
    intro c hf hs hr hc o m ho a ha
    rw [hc] at ho
    rw [AzCore.grants, hf, hs] at ha
    exact hr a (hck o m ho a ha)
  unfold authorizeObjGroup
  cases hon : st.trace.isOn with
  | true =>
    obtain ⟨st', hst', hcore⟩ := readObjGroup_eq db request hdb objId objAccess st
    have hstop : ∀ x, (st.core.add x).stops request = false := fun x => by
      rw [AzCore.stops, show (st.core.add x).isOn = true from hon, Bool.not_true, Bool.and_false]
    refine ⟨_, hst', ⟨st'.core.checkedGroups, by rw [hcore]⟩, ?_, ?_⟩
    · refine hmono _ (by rw [hcore]; rfl) (by rw [hcore]; rfl) (fun a ha => ?_) (by rw [hcore]; rfl)
      rw [hcore, AzCore.add, has_or, ha, Bool.true_or]
    · rw [hcore, hstop, Bool.and_false]
  | false =>
    have hleft : ∀ a, has ((st.azc.calcRightRes ^^^ request) &&& request) a = true ↔
        has request a = true ∧ has st.azc.calcRightRes a = false := by
      intro a
      rw [has_and, has_xor]
      cases has st.azc.calcRightRes a <;> cases has request a <;> decide
    dsimp only
    rw [if_pos (by rfl)]
    split_ifs with h1 h2
    · refine ⟨_, rfl, hskip fun a ha => ?_⟩
      by_contra hno
      obtain ⟨hr, ho⟩ := hle _ a ha
      have hz := congrArg (fun x => has x a) h1
      rw [has_and, (hleft a).mpr ⟨hr, Bool.eq_false_of_not_eq_true hno⟩, ho] at hz
      simp at hz
    · exact ⟨_, rfl, hskip fun a ha => hck objId objAccess h2 a ha⟩
    · obtain ⟨st', hst', hcore⟩ := readObjGroup_eq db request hdb objId objAccess
        { st with azc := { st.azc with
          checkedGroups := st.azc.checkedGroups.insert objId objAccess } }
      have hnot : st.core.stops request = false := by
        by_contra hs
        rw [Bool.not_eq_false, AzCore.stops, Bool.and_eq_true, covers_iff] at hs
        refine h1 (ext_has fun a => ?_)
        rw [has_and]
        have h0 : has ((st.azc.calcRightRes ^^^ request) &&& request) a = false := by
          by_contra hl
          obtain ⟨hr, hc⟩ := (hleft a).mp (by simpa using hl)
          rw [show st.azc.calcRightRes = st.core.calcRightRes from rfl, hs.1 a hr] at hc
          cases hc
        rw [h0]
        exact (has_zero a).symm
      refine ⟨_, hst', ⟨_, hcore⟩, ?_, ?_⟩
      · intro o m ho a ha
        rw [hcore] at ho ha ⊢
        rw [AzCore.add, has_or, Bool.or_eq_true]
        by_cases hoe : o = objId
        · subst hoe
          obtain rfl := Option.some.inj ((AList.lookup_insert _).symm.trans ho)
          exact .inr ha
        · exact .inl (hck o m ((AList.lookup_insert_ne hoe).symm.trans ho) a ha)
      · rw [hnot, hcore]
        rfl

end Group

end Veda.Authorization
