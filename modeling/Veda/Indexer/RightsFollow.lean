import Veda.Indexer.RecordUpdate
import Veda.Lib.Latest

set_option autoImplicit false

/-!
# The index follows the statements

Changes of permission statements are delivered one after another, each with the state that the
change before left. As long as every change fits the records it meets, the access index gives
every subject exactly the bits of the statements that are in force.

## Main definitions

* `Indexer.Grants` — the bits that a statement gives to a subject on an object.
* `Indexer.World` — the statements and the index.
* `Indexer.ChangeFits`, `Indexer.RunFits` — a change and a history the indexer follows.

## Main results

* `Indexer.getDisappeared_eq_disappeared_iff` — when dropped resources and subjects are found.
* `Indexer.follows_deliver` — one change.
* `Indexer.has_accessIn_iff_of_runFits` — a whole history.
-/

namespace Veda.Indexer

open Veda.Lib Veda.Onto Veda.Authorization

/-! ## Statements -/

/-- The state of a statement, as it is decoded: no predicate has an empty list of values. -/
structure Statement where
  obj : IndividualObj
  filled : ∀ p vs, obj.resources.lookup p = some vs → vs ≠ []

namespace Statement

/-- A statement without values. -/
def empty : Statement := ⟨.empty, fun p vs h => by simp [IndividualObj.empty] at h⟩

/-- A statement with one value more. -/
def addValue (st : Statement) (predicate : String) (rtype : DataType) (value : Value) :
    Statement where
  obj := st.obj.addValue predicate rtype value
  filled p vs h := by
    by_cases hp : p = predicate
    · subst hp
      rw [IndividualObj.addValue, AList.lookup_insert] at h
      rw [← Option.some.inj h]
      simp
    · rw [IndividualObj.addValue, AList.lookup_insert_ne hp] at h
      exact st.filled p vs h

/-- The answer of a getter, `notFound` where it panics. -/
def answer {ρ : Type} (st : Statement) (g : Getter ρ) (predicate : String) : ρ :=
  match st.obj.read g predicate with
  | .ok v => v
  | .error _ => g.notFound

theorem read_eq {ρ : Type} (st : Statement) {g : Getter ρ}
    (hg : ∀ r vs, ∃ x, g.inspect (r :: vs) = .ok x) (predicate : String) :
    st.obj.read g predicate = .ok (st.answer g predicate) := by
  have hok : ∃ v, st.obj.read g predicate = .ok v := by
    unfold IndividualObj.read
    cases hl : st.obj.resources.lookup predicate with
    | none => exact ⟨_, rfl⟩
    | some vs =>
      cases vs with
      | nil => exact absurd rfl (st.filled _ _ hl)
      | cons r vs =>
        obtain ⟨x, hx⟩ := hg r vs
        exact ⟨x.getD g.notFound, by simp only [hx]; rfl⟩
  obtain ⟨v, hv⟩ := hok
  rw [answer, hv]

theorem read_getFirstBool (st : Statement) (p : String) :
    st.obj.read .getFirstBool p = .ok (st.answer .getFirstBool p) := by
  refine st.read_eq (fun r vs => ?_) p
  cases hr : r.value <;> exact ⟨_, by simp only [Getter.getFirstBool, firstValue, hr]; rfl⟩

theorem read_getLiterals (st : Statement) (p : String) :
    st.obj.read .getLiterals p = .ok (st.answer .getLiterals p) :=
  st.read_eq (fun _ _ => ⟨_, rfl⟩) p

theorem read_getFirstLiteral (st : Statement) (p : String) :
    st.obj.read .getFirstLiteral p = .ok (st.answer .getFirstLiteral p) := by
  refine st.read_eq (fun r vs => ?_) p
  cases hr : r.value <;> exact ⟨_, by simp only [Getter.getFirstLiteral, firstValue, hr]; rfl⟩

/-! ## What a statement grants -/

/-- The flag that an access bit stands for, and its value. -/
def flagOf : Access → String × Bool
  | .canCreate => ("v-s:canCreate", true)
  | .canRead => ("v-s:canRead", true)
  | .canUpdate => ("v-s:canUpdate", true)
  | .canDelete => ("v-s:canDelete", true)
  | .cantCreate => ("v-s:canCreate", false)
  | .cantRead => ("v-s:canRead", false)
  | .cantUpdate => ("v-s:canUpdate", false)
  | .cantDelete => ("v-s:canDelete", false)

/-- The statement is marked as deleted. -/
def deleted (st : Statement) : Bool := (st.answer .getFirstBool "v-s:deleted").getD false

/-- The objects that the statement lists. -/
def objects (st : Statement) : List String :=
  (st.answer .getLiterals "v-s:permissionObject").getD []

/-- The subjects that the statement lists. -/
def subjects (st : Statement) : List String :=
  (st.answer .getLiterals "v-s:permissionSubject").getD []

/-- The flag of the bit has its value. -/
def Sets (st : Statement) (a : Access) : Prop :=
  st.answer .getFirstBool (flagOf a).1 = some (flagOf a).2

instance (st : Statement) (a : Access) : Decidable (st.Sets a) := by unfold Sets; infer_instance

/-- The statement is in force and gives a bit to a subject on an object. -/
def Grants (st : Statement) (o s : String) (a : Access) : Prop :=
  st.deleted = false ∧ o ∈ st.objects ∧ s ∈ st.subjects ∧ st.Sets a

/-- The statement does not use a filter. -/
def Unfiltered (st : Statement) : Prop := st.answer .getFirstLiteral "v-s:useFilter" = none

instance (st : Statement) : Decidable st.Unfiltered := by unfold Unfiltered; infer_instance

/-- The access byte of a statement. -/
def access (st : Statement) : U8 :=
  0 ||| flagAccess .canCreate .cantCreate (st.answer .getFirstBool "v-s:canCreate") |||
    flagAccess .canRead .cantRead (st.answer .getFirstBool "v-s:canRead") |||
    flagAccess .canUpdate .cantUpdate (st.answer .getFirstBool "v-s:canUpdate") |||
    flagAccess .canDelete .cantDelete (st.answer .getFirstBool "v-s:canDelete")

/-- The mark of a statement. -/
def marker (st : Statement) : Char :=
  if (st.answer .getFirstBool "v-s:isExclusive").getD false then mIsExclusive
  else if (st.answer .getFirstBool "v-s:ignoreExclusive").getD false then mIgnoreExclusive
  else noMarker

theorem getAccess_eq (st : Statement) : getAccessFromIndividual st.obj = .ok st.access := by
  simp only [getAccessFromIndividual, read_getFirstBool]
  rfl

theorem has_flagAccess (can cant : Access) (v : Option Bool) (a : Access) :
    has (flagAccess can cant v) a = true ↔ (v = some true ∧ can = a) ∨ (v = some false ∧ cant = a) := by
  rcases v with _ | _ | _
  · simp [flagAccess]
  · simp [flagAccess, has_toU8]
  · simp [flagAccess, has_toU8]

theorem has_access (st : Statement) (a : Access) : has st.access a = true ↔ st.Sets a := by
  simp only [access, has_or, Bool.or_eq_true, has_flagAccess, Sets]
  cases a <;> simp [flagOf]

/-- The references that a statement makes to a bit of a subject on an object. -/
def contribution (st : Statement) (o s : String) (a : Access) : ℕ :=
  if st.deleted then 0 else st.objects.count o * st.subjects.count s * bitOf st.access a

theorem contribution_ne_zero (st : Statement) (o s : String) (a : Access) :
    st.contribution o s a ≠ 0 ↔ st.Grants o s a := by
  unfold contribution Grants
  cases hd : st.deleted with
  | true => simp
  | false =>
    simp only [Bool.false_eq_true, if_false, true_and, ne_eq, Nat.mul_eq_zero, not_or, bitOf,
      ← st.has_access]
    rw [List.count_eq_zero, List.count_eq_zero, not_not, not_not, and_assoc]
    cases has st.access a <;> simp

@[simp] theorem contribution_empty (o s : String) (a : Access) : empty.contribution o s a = 0 := by
  by_contra h
  have := ((contribution_ne_zero _ _ _ _).mp h).2.1
  simp [objects, answer, IndividualObj.read, empty, IndividualObj.empty, Getter.getLiterals] at this

end Statement

/-! ## One change -/

section Change

variable (prev st : Statement)

/-- The lists that a deletion works on. -/
def deletionLists : List String × List String :=
  if st.objects = [] ∧ st.subjects = [] then (prev.objects, prev.subjects)
  else (st.objects, st.subjects)

/-- Take the bits of the previous state back from the subjects of some objects. -/
def withdraw (objects subjects : List String) (access : U8) (ctx : Context) : Context :=
  objects.foldl (rewriteRecord subjects st.marker true prev.access access) ctx

/-- Grant the bits of the new state. -/
def grant (ctx : Context) : Context :=
  st.objects.foldl (rewriteRecord st.subjects st.marker false prev.access st.access) ctx

/-- The index after the change of a statement without a filter. -/
def change (ctx : Context) : Context :=
  if st.deleted then
    if prev.deleted then ctx
    else withdraw prev st (deletionLists prev st).1 (deletionLists prev st).2 st.access ctx
  else if prev.deleted then grant prev st ctx
  else grant prev st (withdraw prev st prev.objects prev.subjects prev.access ctx)

theorem getDisappeared_eq (a b : List String) : getDisappeared a b = [] := by
  unfold getDisappeared
  induction a with
  | nil => rfl
  | cons r a ih => exact ih

/-- What a change dropped: the elements of `a` that are not in `b`, in the order of `a`. -/
def disappeared (a b : List String) : List String := a.filter fun r => r ∉ b

/-- **Nothing is missed** when nothing was dropped, and only then. -/
theorem getDisappeared_eq_disappeared_iff (a b : List String) :
    getDisappeared a b = disappeared a b ↔ a ⊆ b := by
  rw [getDisappeared_eq, eq_comm, disappeared, List.filter_eq_nil_iff, List.subset_def]
  exact forall₂_congr fun r _ => by rw [decide_eq_true_iff, not_not]

theorem getDisappeared_dropped_subject :
    getDisappeared ["d:clerk", "d:guest"] ["d:clerk"] ≠
      disappeared ["d:clerk", "d:guest"] ["d:clerk"] := by
  decide

theorem addOrDelRightSets_eq {mode : Cache} (hmode : mode ≠ .write)
    (resource inSet prevResource prevInSet : List String) (marker : Char) (p x : U8)
    (isDeleted : Bool) (ctx : Context) :
    addOrDelRightSets "" resource inSet prevResource prevInSet marker p x isDeleted
        permissionPrefix mode (ctx, ∅) =
      if isDeleted ∧ resource = [] ∧ inSet = [] then
        (prevResource.foldl (rewriteRecord prevInSet marker isDeleted p x) ctx, ∅)
      else (resource.foldl (rewriteRecord inSet marker isDeleted p x) ctx, ∅) := by
  simp only [addOrDelRightSets, getDisappeared_eq, updateRightSet_eq _ _ _ _ _ hmode, ne_eq,
    not_true_eq_false, if_false]

theorem preparePermissionStatement_eq (hf : st.Unfiltered) (ctx : Context) :
    preparePermissionStatement prev.obj st.obj ctx = .ok (change prev st ctx) := by
  have hzero : ∀ x : U8, (if x = 0 then 0 else x) = x := fun x => by
    split_ifs with h
    · exact h.symm
    · rfl
  simp only [preparePermissionStatement, indexRightSets, Statement.read_getFirstBool,
    Statement.read_getLiterals, Statement.read_getFirstLiteral, Statement.getAccess_eq, hzero]
  rw [show st.answer .getFirstLiteral "v-s:useFilter" = none from hf]
  show (if st.deleted = true ∧ ¬ prev.deleted = true then
      Except.ok (addOrDelRightSets "" st.objects st.subjects prev.objects prev.subjects st.marker
        prev.access st.access st.deleted permissionPrefix .none (ctx, ∅)).1
    else if ¬ st.deleted = true ∧ prev.deleted = true then
      .ok (addOrDelRightSets "" st.objects st.subjects prev.objects prev.subjects st.marker
        prev.access st.access false permissionPrefix .read (ctx, ∅)).1
    else if ¬ st.deleted = true ∧ ¬ prev.deleted = true then
      .ok (addOrDelRightSets "" st.objects st.subjects prev.objects prev.subjects st.marker
        prev.access st.access false permissionPrefix .read
        (if prev.objects ≠ [] then
          addOrDelRightSets "" prev.objects prev.subjects [] [] st.marker prev.access
            prev.access true permissionPrefix .none (ctx, ∅)
        else (ctx, ∅))).1
    else .ok ctx) = .ok (change prev st ctx)
  have hback : (if prev.objects ≠ [] then
      addOrDelRightSets "" prev.objects prev.subjects [] [] st.marker prev.access
        prev.access true permissionPrefix .none (ctx, ∅)
      else (ctx, ∅)) =
      (withdraw prev st prev.objects prev.subjects prev.access ctx, ∅) := by
    by_cases h : prev.objects = []
    · simp [h, withdraw]
    · rw [if_pos h, addOrDelRightSets_eq (by decide), if_neg fun hc => h hc.2.1, withdraw]
  rw [hback, addOrDelRightSets_eq (by decide), addOrDelRightSets_eq (by decide),
    addOrDelRightSets_eq (by decide)]
  unfold change deletionLists
  cases hd : st.deleted <;> cases hp : prev.deleted
  · simp [grant]
  · simp [grant]
  · by_cases hl : st.objects = [] ∧ st.subjects = []
    · simp [hl, withdraw]
    · simp only [hl, withdraw, Bool.false_eq_true, and_false, not_false_eq_true, and_true,
        if_true, if_false]
  · simp

/-- A deletion takes back what the previous state granted: that is nothing, or the lists it works
on name every object and subject as often as the lists of the previous state. -/
def DeletionFits : Prop :=
  prev.access = 0 ∨ ∀ o ∈ (deletionLists prev st).1 ++ prev.objects,
    ∀ s ∈ (deletionLists prev st).2 ++ prev.subjects,
      (deletionLists prev st).1.count o * (deletionLists prev st).2.count s =
        prev.objects.count o * prev.subjects.count s

/-- Taking back fits every record on the way. -/
def WithdrawFits (objects subjects : List String) (access : U8) (ctx : Context) : Prop :=
  LoopFits (RecordWithdrawalFits prev.access subjects)
    (rewriteRecord subjects st.marker true prev.access access) objects ctx

/-- Granting fits every record on the way. -/
def GrantsFit (ctx : Context) : Prop :=
  LoopFits (RecordGrantFits st.access st.subjects)
    (rewriteRecord st.subjects st.marker false prev.access st.access) st.objects ctx

/-- The change fits the records it meets. -/
def ChangeFits (ctx : Context) : Prop :=
  if st.deleted then
    prev.deleted = true ∨ DeletionFits prev st ∧
      WithdrawFits prev st (deletionLists prev st).1 (deletionLists prev st).2 st.access ctx
  else if prev.deleted then GrantsFit prev st ctx
  else WithdrawFits prev st prev.objects prev.subjects prev.access ctx ∧
    GrantsFit prev st (withdraw prev st prev.objects prev.subjects prev.access ctx)

instance : Decidable (DeletionFits prev st) := by unfold DeletionFits; infer_instance

instance (objects subjects : List String) (access : U8) (ctx : Context) :
    Decidable (WithdrawFits prev st objects subjects access ctx) := by
  unfold WithdrawFits; infer_instance

instance (ctx : Context) : Decidable (GrantsFit prev st ctx) := by
  unfold GrantsFit; infer_instance

instance (ctx : Context) : Decidable (ChangeFits prev st ctx) := by
  unfold ChangeFits; infer_instance

variable {prev st} {ctx : Context} {cnt : String → String → Access → ℕ}

theorem DeletionFits.count_eq (h : DeletionFits prev st) (o s : String) (a : Access) :
    (deletionLists prev st).1.count o * (deletionLists prev st).2.count s *
        bitOf prev.access a = prev.objects.count o * prev.subjects.count s * bitOf prev.access a := by
  rcases h with h | h
  · have hbit : bitOf prev.access a = 0 := by simp [h, bitOf]
    rw [hbit, Nat.mul_zero, Nat.mul_zero]
  · congr 1
    by_cases ho : o ∈ (deletionLists prev st).1 ++ prev.objects
    · by_cases hs : s ∈ (deletionLists prev st).2 ++ prev.subjects
      · exact h o ho s hs
      · rw [List.mem_append, not_or] at hs
        rw [List.count_eq_zero.mpr hs.1, List.count_eq_zero.mpr hs.2, Nat.mul_zero, Nat.mul_zero]
    · rw [List.mem_append, not_or] at ho
      rw [List.count_eq_zero.mpr ho.1, List.count_eq_zero.mpr ho.2, Nat.zero_mul, Nat.zero_mul]

/-- **One change** replaces the references of the previous state by those of the new one. -/
theorem holds_change (h : Holds ctx cnt)
    (hle : ∀ o s a, prev.contribution o s a ≤ cnt o s a) (hf : ChangeFits prev st ctx) :
    Holds (change prev st ctx) fun o s a =>
      cnt o s a - prev.contribution o s a + st.contribution o s a := by
  unfold change
  unfold ChangeFits at hf
  unfold Statement.contribution at hle ⊢
  cases hd : st.deleted <;> cases hp : prev.deleted <;>
    simp only [hd, hp, Bool.false_eq_true, reduceIte, false_or, Nat.sub_zero,
      Nat.add_zero] at hf hle ⊢
  · obtain ⟨hw, hg⟩ := hf
    exact holds_grants st.objects (holds_withdrawals prev.objects h hw hle) hg
  · exact holds_grants st.objects h hf
  · obtain ⟨hl, hw⟩ := hf
    have hle' : ∀ o s a, (deletionLists prev st).1.count o * (deletionLists prev st).2.count s *
        bitOf prev.access a ≤ cnt o s a := fun o s a => by
      rw [hl.count_eq]
      exact hle o s a
    refine (holds_withdrawals _ h hw hle').congr fun o s a => ?_
    rw [hl.count_eq]
  · exact h

end Change

/-! ## Histories -/

/-- The latest states of the statements, and the index. -/
structure World where
  latest : String → Statement
  ctx : Context

/-- No statement has a state, and the index has no records. -/
def World.initial (orders : ℕ → HashOrder) : World := ⟨fun _ => .empty, ⟨∅, 2, orders⟩⟩

/-- A change of an individual is delivered with its last state as the previous one. -/
def deliver (w : World) (c : String × Statement) : Except Panic World := do
  let ctx ← preparePermissionStatement (w.latest c.1).obj c.2.obj w.ctx
  return ⟨Function.update w.latest c.1 c.2, ctx⟩

/-- The index gives every subject the bits of the statements in force. -/
def Follows (w : World) : Prop :=
  ∀ o s a, has (accessIn w.ctx o s) a = true ↔ ∃ id, (w.latest id).Grants o s a

/-- Every change of a history fits the records it meets. -/
def RunFits : List (String × Statement) → World → Prop
  | [], _ => True
  | c :: hist, w => ChangeFits (w.latest c.1) c.2 w.ctx ∧
    RunFits hist ⟨Function.update w.latest c.1 c.2, change (w.latest c.1) c.2 w.ctx⟩

instance RunFits.instDecidable : ∀ hist w, Decidable (RunFits hist w)
  | [], _ => .isTrue trivial
  | c :: hist, w =>
    have := RunFits.instDecidable hist
      ⟨Function.update w.latest c.1 c.2, change (w.latest c.1) c.2 w.ctx⟩
    inferInstanceAs (Decidable (_ ∧ _))

theorem deliver_eq (w : World) (c : String × Statement) (hc : c.2.Unfiltered) :
    deliver w c = .ok ⟨Function.update w.latest c.1 c.2, change (w.latest c.1) c.2 w.ctx⟩ := by
  rw [deliver, preparePermissionStatement_eq _ _ hc]
  rfl

/-- The references of the statements of a set. -/
def references (ids : Finset String) (latest : String → Statement) (o s : String) (a : Access) :
    ℕ := ∑ id ∈ ids, (latest id).contribution o s a

/-- What a history keeps: the index holds the references of the statements of a set that covers
all statements with a state. -/
structure WorldHolds (ids : Finset String) (w : World) : Prop where
  cover : ∀ id ∉ ids, w.latest id = .empty
  holds : Holds w.ctx (references ids w.latest)

theorem WorldHolds.follows {ids : Finset String} {w : World} (h : WorldHolds ids w) :
    Follows w := by
  intro o s a
  rw [h.holds.has_accessIn, references, sum_ne_zero_iff (f := (Statement.contribution · o s a))]
  · exact exists_congr fun id => Statement.contribution_ne_zero _ _ _ _
  · intro id hid
    rw [h.cover id hid, Statement.contribution_empty]

theorem WorldHolds.deliver {ids : Finset String} {w : World} (h : WorldHolds ids w)
    {c : String × Statement} (hid : c.1 ∈ ids)
    (hf : ChangeFits (w.latest c.1) c.2 w.ctx) :
    WorldHolds ids
      ⟨Function.update w.latest c.1 c.2, change (w.latest c.1) c.2 w.ctx⟩ := by
  constructor
  · intro id hno
    have hne : id ≠ c.1 := by
      rintro rfl
      exact hno hid
    exact (Function.update_of_ne hne _ _).trans (h.cover id hno)
  · refine (holds_change h.holds (fun o s a => ?_) hf).congr fun o s a => ?_
    · exact Finset.single_le_sum (f := fun id => (w.latest id).contribution o s a)
        (fun _ _ => Nat.zero_le _) hid
    · exact (sum_update hid w.latest c.2 (Statement.contribution · o s a)).symm

theorem WorldHolds.run {ids : Finset String} (hist : List (String × Statement)) {w : World}
    (h : WorldHolds ids w) (hids : ∀ c ∈ hist, c.1 ∈ ids) (hu : ∀ c ∈ hist, c.2.Unfiltered)
    (hf : RunFits hist w) : ∃ w', hist.foldlM Indexer.deliver w = .ok w' ∧ WorldHolds ids w' := by
  induction hist generalizing w with
  | nil => exact ⟨w, rfl, h⟩
  | cons c hist ih =>
    obtain ⟨hfit, hrest⟩ := hf
    obtain ⟨w', hw', hh⟩ := ih (h.deliver (hids c List.mem_cons_self) hfit)
      (fun d hd => hids d (List.mem_cons_of_mem _ hd))
      (fun d hd => hu d (List.mem_cons_of_mem _ hd)) hrest
    refine ⟨w', ?_, hh⟩
    rw [List.foldlM_cons, deliver_eq w c (hu c List.mem_cons_self)]
    exact hw'

/-- **The index follows the statements**: a history of statements without filters, each of whose
changes fits the records it meets, is taken without a panic and leaves an index that gives every
subject exactly the bits of the statements in force, whatever the iteration orders.

**Proof sketch.** The invariant is `WorldHolds`: each entry counts, for each bit, the references
of the statements. A change takes back the references of the previous state and adds those of
the new one (`holds_change`), record by record and entry by entry. -/
theorem follows_of_runFits (hist : List (String × Statement)) (orders : ℕ → HashOrder)
    (hu : ∀ c ∈ hist, c.2.Unfiltered) (hf : RunFits hist (.initial orders)) :
    ∃ w, hist.foldlM deliver (.initial orders) = .ok w ∧ Follows w := by
  have h0 : WorldHolds (hist.map Prod.fst).toFinset (.initial orders) := by
    refine ⟨fun _ _ => rfl, (holds_empty orders).congr fun o s a => ?_⟩
    exact (Finset.sum_eq_zero fun _ _ => Statement.contribution_empty o s a).symm
  obtain ⟨w, hw, h⟩ := h0.run hist
    (fun c hc => List.mem_toFinset.mpr (List.mem_map_of_mem hc)) hu hf
  exact ⟨w, hw, h.follows⟩

/-- A statement about one subject and one object, with some flags. -/
def simpleStatement (flags : List (String × Bool)) : Statement :=
  flags.foldl (fun st f => st.addValue f.1 .boolean (.bool f.2))
    ((Statement.empty.addValue "v-s:permissionObject" .uri (.uri "d:doc")).addValue
      "v-s:permissionSubject" .uri (.uri "d:user"))

/-- Two statements about reading on the same pair, of which the first is deleted again. -/
theorem follows_two_statements :
    ∃ w, [("d:r1", simpleStatement [("v-s:canRead", true)]),
        ("d:r2", simpleStatement [("v-s:canRead", true), ("v-s:canUpdate", true)]),
        ("d:r1", simpleStatement [("v-s:canRead", true), ("v-s:deleted", true)])].foldlM deliver
          (.initial fun _ => .stored) = .ok w ∧ Follows w :=
  follows_of_runFits _ _ (by decide) (by decide)

/-- A statement that forbids reading is indexed as one that allows it: the byte `0x20` is
written in the hex form as `20` and read as `0x02`. -/
theorem not_follows_denyReading :
    ¬ ∀ (hist : List (String × Statement)) (orders : ℕ → HashOrder),
      (∀ c ∈ hist, c.2.Unfiltered) →
        ∀ w, hist.foldlM deliver (.initial orders) = .ok w → Follows w := by
  intro h
  have hu : (simpleStatement [("v-s:canRead", false)]).Unfiltered := by decide
  have hrun := deliver_eq (.initial fun _ => .stored)
    ("d:r1", simpleStatement [("v-s:canRead", false)]) hu
  have hf := h [("d:r1", simpleStatement [("v-s:canRead", false)])] (fun _ => .stored)
    (by simpa using hu) _ (by rw [List.foldlM_cons, hrun]; rfl)
  obtain ⟨id, -, -, -, hs⟩ := (hf "d:doc" "d:user" .canRead).mp (by decide)
  dsimp only at hs
  by_cases hid : id = "d:r1"
  · subst hid
    rw [Function.update_self] at hs
    exact absurd hs (by decide)
  · rw [Function.update_of_ne hid] at hs
    exact absurd hs (show ¬ Statement.empty.Sets .canRead by decide)

end Veda.Indexer
