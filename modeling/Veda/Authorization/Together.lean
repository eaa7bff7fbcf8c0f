import Veda.Authorization.Decision

set_option autoImplicit false

/-!
# Asking for rights together or one by one

Callers ask for all rights at once to show them, and for a single one to enforce it. What the
records grant is the same either way, bit by bit; the answers differ only where one of the checks
answers before the filter of the object is tried, and so loses the bits of the filtered records.

## Main definitions

* `Authorization.rightsOf` — the rights that a check without tracing answers.
* `Authorization.AnswersAlike` — no bit is lost by the checks of one kind only.

## Main results

* `Authorization.Pass.total_eq` — what a pass grants of its request.
* `Authorization.rightsOf_or_iff` — when asking together and one by one is the same.
-/

namespace Veda.Authorization

open Veda.Lib

/-! ## A pass grants its request bit by bit -/

theorem entryGrants_eq (request objAccess : U8) (subjectGroups : HashMap String Right)
    (permission : Right) :
    entryGrants request objAccess subjectGroups permission =
      request &&& entryGrants 15 objAccess subjectGroups permission := by
  unfold entryGrants
  cases subjectGroups.lookup permission.id with
  | none => exact BitVec.and_zero.symm
  | some subjGr =>
    apply ext_has
    intro a
    simp only [has_and]
    cases has request a <;> cases has (15 : U8) a <;> simp

theorem recordGrants_eq (request objAccess : U8) (subjectGroups : HashMap String Right)
    (permissions : List Right) :
    recordGrants request objAccess subjectGroups permissions =
      request &&& recordGrants 15 objAccess subjectGroups permissions := by
  induction permissions with
  | nil => exact BitVec.and_zero.symm
  | cons p l ih =>
    rw [recordGrants_cons, recordGrants_cons, entryGrants_eq, ih]
    apply ext_has
    intro a
    simp only [has_or, has_and, Bool.and_or_distrib_left]

/-- **What a pass grants**: the part of its request that it grants of all bits. -/
theorem Pass.total_eq (p : Pass) (vs : List Visit) :
    p.total vs = p.request &&& ({ p with request := 15 } : Pass).total vs := by
  induction vs with
  | nil => exact BitVec.and_zero.symm
  | cons v vs ih =>
    have hgrants : p.grants v.group v.access =
        p.request &&& ({ p with request := 15 } : Pass).grants v.group v.access :=
      recordGrants_eq _ _ _ _
    rw [Pass.total, Pass.total, ih, hgrants]
    apply ext_has
    intro a
    simp only [has_or, has_and, Bool.and_or_distrib_left]

theorem requestWithFilter_or (db : Storage) (id : String) (r₁ r₂ : U8) :
    requestWithFilter db id (r₁ ||| r₂) =
      requestWithFilter db id r₁ ||| requestWithFilter db id r₂ := by
  unfold requestWithFilter
  cases findFilter db id with
  | none => rfl
  | some filter =>
    dsimp only
    split_ifs
    · rfl
    · apply ext_has
      intro a
      simp only [has_or, has_and, Bool.and_or_distrib_right]

namespace Query

variable (db : Storage) (id userId : String) (r₁ r₂ : U8)

theorem unfiltered_or : (⟨db, id, userId, r₁ ||| r₂⟩ : Query).unfiltered =
    (⟨db, id, userId, r₁⟩ : Query).unfiltered ||| (⟨db, id, userId, r₂⟩ : Query).unfiltered := by
  have hpart : ∀ r, (⟨db, id, userId, r⟩ : Query).unfiltered = requestWithFilter db id r &&&
      ({ (⟨db, id, userId, 0⟩ : Query).pass₁ false with request := 15 } : Pass).total
        (⟨db, id, userId, 0⟩ : Query).visits₁.1 := fun r =>
    Pass.total_eq ((⟨db, id, userId, r⟩ : Query).pass₁ false) _
  rw [hpart, hpart, hpart, requestWithFilter_or]
  apply ext_has
  intro a
  simp only [has_or, has_and, Bool.and_or_distrib_right]

theorem filtered_eq : (⟨db, id, userId, r₁⟩ : Query).filtered = r₁ &&&
    ({ (⟨db, id, userId, 0⟩ : Query).pass₂ false with request := 15 } : Pass).total
      (⟨db, id, userId, 0⟩ : Query).visits₂.1 :=
  Pass.total_eq ((⟨db, id, userId, r₁⟩ : Query).pass₂ false) _

theorem has_filtered_or (a : Access) :
    has (⟨db, id, userId, r₁⟩ : Query).filtered a =
      (has r₁ a && has (⟨db, id, userId, r₁ ||| r₂⟩ : Query).filtered a) := by
  rw [filtered_eq, filtered_eq]
  simp only [has_or, has_and]
  cases has r₁ a <;> simp

theorem has_decision_of_unfiltered {q : Query} (hfilter : filterValueOf q.db q.id = "")
    (a : Access) :
    has (q.decision false) a = (q.visits₁.2.pass && has q.unfiltered a) := by
  rw [decision, if_pos (.inl hfilter)]
  cases q.visits₁.2.pass <;> simp

theorem has_decision_of_filtered {q : Query} (hfilter : filterValueOf q.db q.id ≠ "")
    (a : Access) :
    has (q.decision false) a = true ↔ q.visits₂.2.pass = true ∧
      (has q.unfiltered a = true ∨ ¬ q.AnswersEarly ∧ has q.filtered a = true) := by
  rw [decision]
  by_cases hearly : q.AnswersEarly
  · obtain ⟨-, hpass⟩ := hearly.eq
    rw [if_pos (.inr ⟨rfl, hearly⟩), if_pos hpass, q.pass_visits₂ hpass]
    tauto
  · rw [if_neg fun h => h.elim hfilter fun h => hearly h.2]
    cases q.visits₂.2.pass with
    | false => simp
    | true =>
      rw [if_pos rfl, has_or, Bool.or_eq_true]
      tauto

theorem AnswersEarly.pass {q : Query} (h : q.AnswersEarly) : q.visits₂.2.pass = true :=
  q.pass_visits₂ h.eq.2

end Query

/-! ## Two requests and both together -/

/-- The rights that a check answers. -/
def rightsOf (id userId : String) (requestAccess : U8) (db : Storage) (trace : Trace) :
    Except Int U8 :=
  (authorize id userId requestAccess db trace).map Prod.fst

theorem rightsOf_eq {db : Storage} (hdb : db.Reliable) (id userId : String) (requestAccess : U8)
    {trace : Trace} (htrace : trace.isOn = false) :
    rightsOf id userId requestAccess db trace =
      .ok ((⟨db, id, userId, requestAccess⟩ : Query).decision false) := by
  obtain ⟨trace', h⟩ := authorize_eq hdb id userId requestAccess trace
  rw [rightsOf, h, htrace]
  rfl

/-- No bit is lost by the one check for all rights only, or by the checks for single rights only:
the object has no filter, or for each bit that the records with the filter alone grant the check
for both requests answers before the filter is tried exactly when the check for each of the
requests with this bit does. -/
def AnswersAlike (db : Storage) (id userId : String) (r₁ r₂ : U8) : Prop :=
  filterValueOf db id = "" ∨
    ∀ a, has (⟨db, id, userId, r₁ ||| r₂⟩ : Query).filtered a = true →
      has (⟨db, id, userId, r₁ ||| r₂⟩ : Query).unfiltered a = false →
        ((⟨db, id, userId, r₁ ||| r₂⟩ : Query).AnswersEarly ↔
          (has r₁ a = true → (⟨db, id, userId, r₁⟩ : Query).AnswersEarly) ∧
            (has r₂ a = true → (⟨db, id, userId, r₂⟩ : Query).AnswersEarly))

theorem decision_or_iff (db : Storage) (id userId : String) (r₁ r₂ : U8) :
    (⟨db, id, userId, r₁ ||| r₂⟩ : Query).decision false =
        (⟨db, id, userId, r₁⟩ : Query).decision false |||
          (⟨db, id, userId, r₂⟩ : Query).decision false ↔
      AnswersAlike db id userId r₁ r₂ := by
  have hun := fun a => congrArg (fun x => has x a) (Query.unfiltered_or db id userId r₁ r₂)
  simp only [has_or] at hun
  have hf₁ := Query.has_filtered_or db id userId r₁ r₂
  have hf₂ := fun a => Query.has_filtered_or db id userId r₂ r₁ a
  rw [BitVec.or_comm] at hf₂
  have hle : ∀ a, has (⟨db, id, userId, r₁ ||| r₂⟩ : Query).filtered a = true →
      has r₁ a = true ∨ has r₂ a = true := by
    intro a ha
    rw [Query.filtered_eq, has_and, Bool.and_eq_true, has_or, Bool.or_eq_true] at ha
    exact ha.1
  have hearly : ∀ r, (⟨db, id, userId, r⟩ : Query).AnswersEarly →
      (⟨db, id, userId, 0⟩ : Query).visits₂.2.pass = true := fun r h => h.pass
  by_cases hfilter : filterValueOf db id = ""
  · refine ⟨fun _ => .inl hfilter, fun _ => ?_⟩
    apply ext_has
    intro a
    rw [has_or, Query.has_decision_of_unfiltered hfilter, Query.has_decision_of_unfiltered hfilter,
      Query.has_decision_of_unfiltered hfilter, hun]
    exact Bool.and_or_distrib_left _ _ _
  have hbit := fun r a =>
    Query.has_decision_of_filtered (q := ⟨db, id, userId, r⟩) hfilter a
  change ∀ r a, _ ↔ (⟨db, id, userId, 0⟩ : Query).visits₂.2.pass = true ∧ _ at hbit
  generalize (⟨db, id, userId, 0⟩ : Query).visits₂.2.pass = pass at hbit hearly
  have heq : (⟨db, id, userId, r₁ ||| r₂⟩ : Query).decision false =
        (⟨db, id, userId, r₁⟩ : Query).decision false |||
          (⟨db, id, userId, r₂⟩ : Query).decision false ↔
      ∀ a, has ((⟨db, id, userId, r₁ ||| r₂⟩ : Query).decision false) a = true ↔
        has ((⟨db, id, userId, r₁⟩ : Query).decision false) a = true ∨
          has ((⟨db, id, userId, r₂⟩ : Query).decision false) a = true := by
    refine ⟨fun h a => by rw [h, has_or, Bool.or_eq_true], fun h => ext_has fun a => ?_⟩
    rw [Bool.eq_iff_iff, has_or, Bool.or_eq_true]
    exact h a
  rw [heq, AnswersAlike, or_iff_right hfilter]
  refine forall_congr' fun a => ?_
  rw [hbit, hbit, hbit, hun a, hf₁ a, hf₂ a]
  -- what is left is about the bit `a` alone
  have h₁ := hearly r₁
  have h₂ := hearly r₂
  have h₁₂ := hearly (r₁ ||| r₂)
  have hle' := hle a
  generalize has (⟨db, id, userId, r₁ ||| r₂⟩ : Query).filtered a = f at hle' ⊢
  simp only [Bool.or_eq_true, Bool.and_eq_true, Bool.or_eq_false_iff]
  grind

/-- **Asking for rights together or one by one** gives the same exactly when the checks answer
alike.

**Proof sketch.** All three checks give their decision (`authorize_eq`). What the records grant is
the same for both requests together and for each of them (`Pass.total_eq`), and so is the final
check; only the bits of the filtered records are lost by the checks that answer early. -/
theorem rightsOf_or_iff {db : Storage} (hdb : db.Reliable) (id userId : String) (r₁ r₂ : U8)
    {trace : Trace} (htrace : trace.isOn = false) :
    rightsOf id userId (r₁ ||| r₂) db trace = (do
        let m₁ ← rightsOf id userId r₁ db trace
        let m₂ ← rightsOf id userId r₂ db trace
        return m₁ ||| m₂) ↔
      AnswersAlike db id userId r₁ r₂ := by
  rw [rightsOf_eq hdb id userId _ htrace, rightsOf_eq hdb id userId _ htrace,
    rightsOf_eq hdb id userId _ htrace, ← decision_or_iff]
  exact ⟨fun h => Except.ok.inj h, fun h => congrArg Except.ok h⟩

/-- Reading and updating of a document without a filter. -/
theorem rightsOf_or_document :
    rightsOf "d:doc" "d:user" (2 ||| 4) (.ofList [("Pd:doc", "d:user;2;")]) Trace.off = (do
      let m₁ ← rightsOf "d:doc" "d:user" 2 (.ofList [("Pd:doc", "d:user;2;")]) Trace.off
      let m₂ ← rightsOf "d:doc" "d:user" 4 (.ofList [("Pd:doc", "d:user;2;")]) Trace.off
      return m₁ ||| m₂) :=
  (rightsOf_or_iff (Storage.reliable_ofList _) "d:doc" "d:user" 2 4 rfl).mpr (.inl (by decide))

/-- Asked for reading and updating together, the check of a document whose filter leaves reading
to the records without it stops with the bit for reading; asked for updating alone, it finds that
bit among the records with the filter. -/
theorem not_rightsOf_or_filteredDocument :
    ¬ ∀ (db : Storage) (id userId : String) (r₁ r₂ : U8), db.Reliable → r₁ ≤ 15 → r₂ ≤ 15 →
      rightsOf id userId (r₁ ||| r₂) db Trace.off = (do
        let m₁ ← rightsOf id userId r₁ db Trace.off
        let m₂ ← rightsOf id userId r₂ db Trace.off
        return m₁ ||| m₂) := by
  intro h
  have heq := congrArg Except.toOption (h filteredDocument "d:doc" "d:user" 2 4
    (Storage.reliable_ofList _) (by decide) (by decide))
  revert heq
  decide

end Veda.Authorization
