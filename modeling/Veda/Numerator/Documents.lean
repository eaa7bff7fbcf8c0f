import Veda.Numerator.Scope

set_option autoImplicit false

/-!
# Numbered documents

The numerator follows the changes of documents one after another. A number that is given is committed,
the number of a deleted document is revoked, and a changed number is committed while the number before
is revoked, whoever has it besides. A document that is restored gets its number back, but the number
is not committed again.

## Main definitions

* `Numerator.numerate` — the numerator.
* `Numerator.Change` — a change of a document.
* `Numerator.Covers` — the numbers of all live documents are taken.
* `Numerator.GivesNew` — a new document gets a number that no live document has.
* `Numerator.Change.Fits` — the condition.
* `Numerator.effect` — what a change does to the set of numbers that are taken.

## Main results

* `Numerator.step_eq_effect` — the numerator keeps this set.
* `Numerator.covers_step_iff` — what one change keeps.
* `Numerator.numbersApart_iff` — every run.
* `Numerator.not_numbersApart` — a restored document.
-/

namespace Veda.Numerator

open Veda.Lib

/-! ## The numerator -/

section Program

variable (newUri : ℕ → String) (firstValue : ℤ)

/-- A scope that is not stored is made. -/
def createScope (s : Store) : Store := { s with scope := some s.uris }

/-- `veda.Numerator.numerate` for a document of a class with a numeration. -/
def numerate (uri : String) (individual : Document) (prevState : Option Document) (s : Store) :
    Store :=
  let number := individual.number
  let prevNumber := (prevState.map Document.number).getD 0
  if number ≠ 0 ∧ prevNumber ≠ 0 ∧ number = prevNumber ∧
      prevState.map Document.deleted = some individual.deleted then s
  else
    let s := createScope s
    if number = 0 ∧ prevNumber = 0 then
      let value := getNextValueSimple s firstValue
      (commitValue newUri value s).putDocument uri { individual with number := value.number }
    else if number = 0 ∧ prevNumber ≠ 0 then
      s.putDocument uri { individual with number := prevNumber }
    else if number ≠ 0 ∧ prevState = none then commitValue newUri ⟨number, false⟩ s
    else if number ≠ 0 ∧ individual.deleted = true then revokeValue newUri number s
    else if number ≠ 0 ∧ prevNumber ≠ 0 ∧ number ≠ prevNumber then
      revokeValue newUri prevNumber (commitValue newUri ⟨number, false⟩ s)
    else s

/-! ## Changes -/

/-- A document is stored with a new state. -/
structure Change where
  uri : String
  state : Document

/-- A change is stored and then handled by the numerator. -/
def Change.step (s : Store) (c : Change) : Store :=
  numerate newUri firstValue c.uri c.state (s.documents.lookup c.uri) (s.putDocument c.uri c.state)

/-- The store after some changes. -/
def runChanges (s : Store) (changes : List Change) : Store :=
  changes.foldl (Change.step newUri firstValue) s

/-- A live document has a number. -/
def Store.HasLive (s : Store) (uri : String) (n : ℤ) : Prop :=
  n ≠ 0 ∧ s.documents.lookup uri = some ⟨n, false⟩

/-- The numbers of all live documents are taken. -/
def Covers (s : Store) : Prop := ∀ uri n, s.HasLive uri n → n ∈ s.committed

/-- A new document without a number gets one that no live document has. -/
def GivesNew (s : Store) (c : Change) : Prop :=
  s.documents.lookup c.uri = none → c.state.number = 0 →
    ∀ d, (c.step newUri firstValue s).documents.lookup c.uri = some d →
      ∀ uri n, s.HasLive uri n → d.number ≠ n

/-- After every change the numbers of all live documents are taken, and every new document gets a number
of its own. -/
def NumbersApart (s : Store) (changes : List Change) : Prop :=
  (∀ past, past <+: changes → Covers (runChanges newUri firstValue s past)) ∧
    ∀ past c, past ++ [c] <+: changes →
      GivesNew newUri firstValue (runChanges newUri firstValue s past) c

/-- **The condition.** A document that is deleted, or changed while it is deleted, has its number alone
among the live ones; so has one that gets another number its number before; and a document that is
live again without another number, or that had none before, comes with a number that is taken. -/
structure Change.Fits (s : Store) (c : Change) : Prop where
  deleted : ∀ prev, s.documents.lookup c.uri = some prev → c.state.number ≠ 0 →
    c.state.deleted = true → prev ≠ c.state →
      ∀ uri, uri ≠ c.uri → ¬s.HasLive uri c.state.number
  changed : ∀ prev, s.documents.lookup c.uri = some prev → c.state.number ≠ 0 →
    c.state.deleted = false → prev.number ≠ 0 → prev.number ≠ c.state.number →
      ∀ uri, uri ≠ c.uri → ¬s.HasLive uri prev.number
  restored : ∀ prev, s.documents.lookup c.uri = some prev → prev.deleted = true →
    c.state.deleted = false → prev.number ≠ 0 →
      c.state.number = 0 ∨ c.state.number = prev.number → prev.number ∈ s.committed
  numbered : ∀ prev, s.documents.lookup c.uri = some prev → prev.number = 0 →
    c.state.number ≠ 0 → c.state.deleted = false → c.state.number ∈ s.committed

/-- Every change of a run fits. -/
def AllFit : Store → List Change → Prop
  | _, [] => True
  | s, c :: changes => c.Fits s ∧ AllFit (c.step newUri firstValue s) changes

end Program

/-! ## The numbers as a set -/

section Effect

variable {newUri : ℕ → String} {firstValue : ℤ} {s : Store} {c : Change}

/-- What a change does to the numbers that are taken and to the document. -/
def effect (next : ℤ) (C : Set ℤ) (state : Document) (prev : Option Document) : Set ℤ × Document :=
  let prevNumber := (prev.map Document.number).getD 0
  if state.number ≠ 0 ∧ prevNumber ≠ 0 ∧ state.number = prevNumber ∧
      prev.map Document.deleted = some state.deleted then (C, state)
  else if state.number = 0 ∧ prevNumber = 0 then (insert next C, { state with number := next })
  else if state.number = 0 ∧ prevNumber ≠ 0 then (C, { state with number := prevNumber })
  else if state.number ≠ 0 ∧ prev = none then (insert state.number C, state)
  else if state.number ≠ 0 ∧ state.deleted = true then (C \ {state.number}, state)
  else if state.number ≠ 0 ∧ prevNumber ≠ 0 ∧ state.number ≠ prevNumber then
    (insert state.number C \ {prevNumber}, state)
  else (C, state)

/-- The number that would be given next. -/
def Store.next (s : Store) (firstValue : ℤ) : ℤ := (getNextValueSimple s firstValue).number

theorem Sound.putDocument (h : Sound newUri s) (uri : String) (d : Document) :
    Sound newUri (s.putDocument uri d) := ⟨h.nodup, h.stored, h.made⟩

theorem Sound.createScope (h : Sound newUri s) : Sound newUri (createScope s) :=
  ⟨h.nodup, h.stored, h.made⟩

/-- **The numerator keeps the set**: what a change does to the store is what it does to the numbers
that are taken and to its document. -/
theorem step_eq_effect (hnew : Function.Injective newUri) (h : Sound newUri s) :
    Sound newUri (c.step newUri firstValue s) ∧
      (c.step newUri firstValue s).committed =
        (effect (s.next firstValue) s.committed c.state (s.documents.lookup c.uri)).1 ∧
      (c.step newUri firstValue s).documents = s.documents.insert c.uri
        (effect (s.next firstValue) s.committed c.state (s.documents.lookup c.uri)).2 := by
  obtain ⟨uri, state⟩ := c
  set prev := s.documents.lookup uri with hprev
  set prevNumber := (prev.map Document.number).getD 0 with hprevNumber
  set s₀ := s.putDocument uri state with hs₀
  set s₁ := createScope s₀ with hs₁
  have hsound : Sound newUri s₁ := (h.putDocument uri state).createScope
  have hcommitted : s₁.committed = s.committed := rfl
  have hdocuments : s₁.documents = s.documents.insert uri state := rfl
  have htext : ∀ n : ℤ, (⟨n, false⟩ : Value).isText = true →
      (⟨n, false⟩ : Value).number * 10 + 1 ∉ s₁.committed := fun n h => by cases h
  unfold Change.step numerate effect
  dsimp only
  rw [← hprev, ← hprevNumber]
  by_cases hsame : state.number ≠ 0 ∧ prevNumber ≠ 0 ∧ state.number = prevNumber ∧
      prev.map Document.deleted = some state.deleted
  · rw [if_pos hsame, if_pos hsame]
    exact ⟨h.putDocument uri state, rfl, rfl⟩
  rw [if_neg hsame, if_neg hsame]
  by_cases hgive : state.number = 0 ∧ prevNumber = 0
  · rw [if_pos hgive, if_pos hgive]
    obtain ⟨hsound', hcommitted', hdocuments'⟩ :=
      hsound.commitValue hnew fun _ => (getNextValueSimple_notMem s₁ firstValue).2
    refine ⟨hsound'.putDocument _ _, hcommitted', ?_⟩
    change (commitValue newUri (getNextValueSimple s₁ firstValue) s₁).documents.insert uri _ = _
    rw [hdocuments', hdocuments, AList.insert_insert]
    rfl
  rw [if_neg hgive, if_neg hgive]
  by_cases hkeep : state.number = 0 ∧ prevNumber ≠ 0
  · rw [if_pos hkeep, if_pos hkeep]
    exact ⟨hsound.putDocument _ _, rfl, AList.insert_insert ..⟩
  rw [if_neg hkeep, if_neg hkeep]
  by_cases hfirst : state.number ≠ 0 ∧ prev = none
  · rw [if_pos hfirst, if_pos hfirst]
    exact hsound.commitValue hnew (htext _)
  rw [if_neg hfirst, if_neg hfirst]
  by_cases hdeleted : state.number ≠ 0 ∧ state.deleted = true
  · rw [if_pos hdeleted, if_pos hdeleted]
    exact hsound.revokeValue hnew _
  rw [if_neg hdeleted, if_neg hdeleted]
  by_cases hchanged : state.number ≠ 0 ∧ prevNumber ≠ 0 ∧ state.number ≠ prevNumber
  · rw [if_pos hchanged, if_pos hchanged]
    obtain ⟨hsound', hcommitted', hdocuments'⟩ := hsound.commitValue hnew (htext state.number)
    obtain ⟨hsound₂, hcommitted₂, hdocuments₂⟩ := hsound'.revokeValue hnew prevNumber
    exact ⟨hsound₂, by rw [hcommitted₂, hcommitted', hcommitted], hdocuments₂.trans hdocuments'⟩
  · rw [if_neg hchanged, if_neg hchanged]
    exact ⟨hsound, rfl, rfl⟩

theorem effect_of_ne (next : ℤ) (C : Set ℤ) {state prev : Document} (hnumber : state.number ≠ 0)
    (hne : prev ≠ state) :
    effect next C state (some prev) =
      if state.deleted = true then (C \ {state.number}, state)
      else if prev.number ≠ 0 ∧ state.number ≠ prev.number then
        (insert state.number C \ {prev.number}, state)
      else (C, state) := by
  have hsame : ¬(state.number ≠ 0 ∧ prev.number ≠ 0 ∧ state.number = prev.number ∧
      some prev.deleted = some state.deleted) := by
    rintro ⟨-, -, hn, hd⟩
    refine hne ?_
    obtain ⟨n, d⟩ := prev
    dsimp only at hn hd
    rw [← hn, Option.some.inj hd]
  unfold effect
  dsimp only [Option.map_some, Option.getD_some]
  rw [if_neg hsame, if_neg fun h => hnumber h.1, if_neg fun h => hnumber h.1, if_neg (by simp)]
  simp only [hnumber, ne_eq, not_false_eq_true, true_and]

theorem covers_step (hnew : Function.Injective newUri) (h : Sound newUri s) {C : Set ℤ}
    {d : Document}
    (heffect : effect (s.next firstValue) s.committed c.state (s.documents.lookup c.uri) = (C, d)) :
    Covers (c.step newUri firstValue s) ↔
      (d.deleted = false → d.number ≠ 0 → d.number ∈ C) ∧
        ∀ uri n, uri ≠ c.uri → s.HasLive uri n → n ∈ C := by
  obtain ⟨-, hcommitted, hdocuments⟩ := step_eq_effect (c := c) hnew h
  rw [heffect] at hcommitted hdocuments
  have hlive : ∀ uri n, (c.step newUri firstValue s).HasLive uri n ↔
      (uri = c.uri ∧ n ≠ 0 ∧ d = ⟨n, false⟩) ∨ (uri ≠ c.uri ∧ s.HasLive uri n) := by
    intro uri n
    rw [Store.HasLive, Store.HasLive, hdocuments]
    by_cases huri : uri = c.uri
    · rw [huri, AList.lookup_insert, Option.some.injEq]
      simp
    · rw [AList.lookup_insert_ne huri]
      simp [huri]
  rw [Covers, hcommitted]
  constructor
  · intro hcovers
    refine ⟨fun hdeleted hnumber => hcovers c.uri d.number ((hlive _ _).mpr (.inl ⟨rfl, hnumber, ?_⟩)),
      fun uri n huri hn => hcovers uri n ((hlive _ _).mpr (.inr ⟨huri, hn⟩))⟩
    rw [← hdeleted]
  · rintro ⟨hself, hothers⟩ uri n hn
    rcases (hlive uri n).mp hn with ⟨-, hnumber, rfl⟩ | ⟨huri, hn⟩
    · exact hself rfl hnumber
    · exact hothers uri n huri hn

theorem fits_iff {prev : Document} (hprev : s.documents.lookup c.uri = some prev) :
    c.Fits s ↔
      (c.state.number ≠ 0 → c.state.deleted = true → prev ≠ c.state →
        ∀ uri, uri ≠ c.uri → ¬s.HasLive uri c.state.number) ∧
      (c.state.number ≠ 0 → c.state.deleted = false → prev.number ≠ 0 →
        prev.number ≠ c.state.number → ∀ uri, uri ≠ c.uri → ¬s.HasLive uri prev.number) ∧
      (prev.deleted = true → c.state.deleted = false → prev.number ≠ 0 →
        c.state.number = 0 ∨ c.state.number = prev.number → prev.number ∈ s.committed) ∧
      (prev.number = 0 → c.state.number ≠ 0 → c.state.deleted = false →
        c.state.number ∈ s.committed) := by
  constructor
  · intro h
    exact ⟨h.deleted prev hprev, h.changed prev hprev, h.restored prev hprev, h.numbered prev hprev⟩
  · rintro ⟨hdeleted, hchanged, hrestored, hnumbered⟩
    have heq : ∀ p, s.documents.lookup c.uri = some p → p = prev := fun p hp =>
      Option.some.inj (hp.symm.trans hprev)
    exact ⟨fun p hp => heq p hp ▸ hdeleted, fun p hp => heq p hp ▸ hchanged,
      fun p hp => heq p hp ▸ hrestored, fun p hp => heq p hp ▸ hnumbered⟩

theorem fits_of_none (hprev : s.documents.lookup c.uri = none) : c.Fits s := by
  have hnone : ∀ p, s.documents.lookup c.uri ≠ some p := fun p hp => by
    rw [hprev] at hp
    cases hp
  exact ⟨fun p hp => absurd hp (hnone p), fun p hp => absurd hp (hnone p),
    fun p hp => absurd hp (hnone p), fun p hp => absurd hp (hnone p)⟩

/-- **One change** keeps the numbers of all live documents taken exactly when it fits. -/
theorem covers_step_iff (hnew : Function.Injective newUri) (h : Sound newUri s) (hcovers : Covers s) :
    Covers (c.step newUri firstValue s) ↔ c.Fits s := by
  have hothers : ∀ {C : Set ℤ}, s.committed ⊆ C →
      ∀ uri n, uri ≠ c.uri → s.HasLive uri n → n ∈ C := fun hC uri n _ hn => hC (hcovers uri n hn)
  -- Taking away a number keeps the others' ones exactly when none of them has it.
  have hrevoke : ∀ {C : Set ℤ} {m : ℤ}, s.committed ⊆ C →
      ((∀ uri n, uri ≠ c.uri → s.HasLive uri n → n ∈ C \ {m}) ↔
        ∀ uri, uri ≠ c.uri → ¬s.HasLive uri m) := by
    intro C m hC
    refine ⟨fun hall uri huri hm => (hall uri m huri hm).2 rfl, fun hnone uri n huri hn =>
      ⟨hC (hcovers uri n hn), ?_⟩⟩
    rintro rfl
    exact hnone uri huri hn
  cases hprev : s.documents.lookup c.uri with
  | none =>
    refine iff_of_true ?_ (fits_of_none hprev)
    by_cases hnumber : c.state.number = 0
    · rw [covers_step hnew h (show _ = (insert (s.next firstValue) s.committed,
        { c.state with number := s.next firstValue }) by simp [effect, hprev, hnumber])]
      exact ⟨fun _ _ => Set.mem_insert _ _, hothers (Set.subset_insert _ _)⟩
    · rw [covers_step hnew h (show _ = (insert c.state.number s.committed, c.state) by
        simp [effect, hprev, hnumber])]
      exact ⟨fun _ _ => Set.mem_insert _ _, hothers (Set.subset_insert _ _)⟩
  | some prev =>
    rw [fits_iff hprev]
    have hlive : prev.deleted = false → prev.number ≠ 0 → prev.number ∈ s.committed :=
      fun hdeleted hnumber => hcovers c.uri _ ⟨hnumber, by rw [hprev, ← hdeleted]⟩
    by_cases hnumber : c.state.number = 0
    · by_cases hprevNumber : prev.number = 0
      · -- Neither has a number: a new one is given.
        rw [covers_step hnew h (show _ = (insert (s.next firstValue) s.committed,
          { c.state with number := s.next firstValue }) by
            simp [effect, hprev, hnumber, hprevNumber])]
        exact iff_of_true ⟨fun _ _ => Set.mem_insert _ _, hothers (Set.subset_insert _ _)⟩
          (by simp [hnumber, hprevNumber])
      · -- The number before is put back.
        rw [covers_step hnew h (show _ = (s.committed, { c.state with number := prev.number }) by
          simp [effect, hprev, hnumber, hprevNumber])]
        simp only [hnumber, hprevNumber, ne_eq, not_true_eq_false, not_false_eq_true, true_or,
          false_implies, true_implies, implies_true, and_true, true_and]
        refine ⟨fun hall hdeleted hlive' => hall.1 hlive', fun hall =>
          ⟨fun hlive' => ?_, hothers subset_rfl⟩⟩
        cases hdeleted : prev.deleted with
        | true => exact hall hdeleted hlive'
        | false => exact hlive hdeleted hprevNumber
    · by_cases hsame : prev = c.state
      · -- Nothing has changed.
        rw [covers_step hnew h (show _ = (s.committed, c.state) by
          simp [effect, hprev, hnumber, hsame])]
        refine iff_of_true ⟨fun hdeleted hnumber => ?_, hothers subset_rfl⟩ ?_
        · rw [← hsame] at hdeleted hnumber ⊢
          exact hlive hdeleted hnumber
        · rw [hsame]
          refine ⟨fun _ _ hne => absurd rfl hne, fun _ _ _ hne => absurd rfl hne,
            fun hdeleted hlive' => ?_, fun hzero => absurd hzero hnumber⟩
          rw [hdeleted] at hlive'
          cases hlive'
      · have heffect := effect_of_ne (s.next firstValue) s.committed hnumber hsame
        rw [← hprev] at heffect
        cases hdeleted : c.state.deleted with
        | true =>
          -- The number of the document is revoked.
          rw [hdeleted, if_pos rfl] at heffect
          rw [covers_step hnew h heffect, hrevoke subset_rfl]
          refine ⟨fun hall => ⟨fun _ _ _ => hall.2, fun _ hlive' => ?_, fun _ hlive' => ?_,
            fun _ _ hlive' => ?_⟩, fun hall => ⟨fun hlive' => ?_, hall.1 hnumber rfl hsame⟩⟩
          · cases hlive'
          · cases hlive'
          · cases hlive'
          · rw [hdeleted] at hlive'
            cases hlive'
        | false =>
          rw [hdeleted, if_neg Bool.false_ne_true] at heffect
          by_cases hrevoked : prev.number ≠ 0 ∧ c.state.number ≠ prev.number
          · -- The new number is committed, and the one before is revoked.
            rw [if_pos hrevoked] at heffect
            rw [covers_step hnew h heffect, hrevoke (Set.subset_insert _ _)]
            refine ⟨fun hall => ⟨fun _ hlive' => ?_, fun _ _ _ _ => hall.2, fun _ _ _ heq => ?_,
              fun hzero => absurd hzero hrevoked.1⟩, fun hall => ⟨fun _ _ => ?_, ?_⟩⟩
            · cases hlive'
            · exact (heq.elim hnumber hrevoked.2).elim
            · exact ⟨Set.mem_insert _ _, hrevoked.2⟩
            · exact hall.2.1 hnumber rfl hrevoked.1 (Ne.symm hrevoked.2)
          · -- Nothing is committed.
            rw [if_neg hrevoked] at heffect
            rw [covers_step hnew h heffect]
            by_cases hprevNumber : prev.number = 0
            · refine ⟨fun hall => ⟨fun _ hlive' => ?_, fun _ _ hne => absurd hprevNumber hne,
                fun _ _ hne => absurd hprevNumber hne, fun _ _ _ => hall.1 hdeleted hnumber⟩,
                fun hall => ⟨fun _ _ => hall.2.2.2 hprevNumber hnumber rfl, hothers subset_rfl⟩⟩
              cases hlive'
            · have hnumbers : c.state.number = prev.number :=
                not_ne_iff.mp fun hne => hrevoked ⟨hprevNumber, hne⟩
              have hwas : prev.deleted = true := by
                by_contra hno
                refine hsame ?_
                obtain ⟨n, d⟩ := prev
                rw [Bool.not_eq_true] at hno
                dsimp only at hno hnumbers
                rw [hno, ← hnumbers, ← hdeleted]
              rw [hnumbers]
              refine ⟨fun hall => ⟨fun _ hlive' => ?_, fun _ _ _ hne => absurd rfl hne,
                fun _ _ _ _ => hall.1 hdeleted hprevNumber, fun hzero => absurd hzero hprevNumber⟩,
                fun hall => ⟨fun _ _ => hall.2.2.1 hwas rfl hprevNumber (.inr rfl),
                  hothers subset_rfl⟩⟩
              cases hlive'

theorem givesNew_of_covers (hnew : Function.Injective newUri) (h : Sound newUri s)
    (hcovers : Covers s) : GivesNew newUri firstValue s c := by
  intro hprev hnumber d hd uri n hn heq
  obtain ⟨-, -, hdocuments⟩ := step_eq_effect (c := c) (s := s) hnew h
  rw [hdocuments, AList.lookup_insert, hprev] at hd
  have hgiven : d.number = s.next firstValue := by
    rw [← Option.some.inj hd]
    simp [effect, hnumber]
  refine (getNextValueSimple_notMem s firstValue).1 ?_
  rw [← Store.next, ← hgiven, heq]
  exact hcovers uri n hn

end Effect

/-! ## Runs -/

section Runs

variable {newUri : ℕ → String} {firstValue : ℤ} {s : Store}

theorem Sound.step (hnew : Function.Injective newUri) (h : Sound newUri s) (c : Change) :
    Sound newUri (c.step newUri firstValue s) :=
  (step_eq_effect hnew h).1

theorem Sound.run (hnew : Function.Injective newUri) (h : Sound newUri s) (changes : List Change) :
    Sound newUri (runChanges newUri firstValue s changes) := by
  induction changes generalizing s with
  | nil => exact h
  | cons c changes ih => exact ih (h.step hnew c)

/-- **Every run** keeps the numbers of all live documents taken exactly when all its changes fit. -/
theorem covers_run_iff (hnew : Function.Injective newUri) (h : Sound newUri s) (hcovers : Covers s)
    (changes : List Change) :
    (∀ past, past <+: changes → Covers (runChanges newUri firstValue s past)) ↔
      AllFit newUri firstValue s changes := by
  induction changes generalizing s with
  | nil =>
    refine iff_of_true (fun past hpast => ?_) trivial
    rw [List.prefix_nil.mp hpast]
    exact hcovers
  | cons c changes ih =>
    rw [AllFit, ← covers_step_iff hnew h hcovers]
    constructor
    · intro hall
      have hstep : Covers (c.step newUri firstValue s) :=
        hall [c] (List.cons_prefix_cons.mpr ⟨rfl, List.nil_prefix⟩)
      refine ⟨hstep, (ih (h.step hnew c) hstep).mp fun past hpast => ?_⟩
      exact hall (c :: past) (List.cons_prefix_cons.mpr ⟨rfl, hpast⟩)
    · rintro ⟨hstep, hrest⟩ past hpast
      cases past with
      | nil => exact hcovers
      | cons c' past =>
        obtain ⟨rfl, hrestPast⟩ := List.cons_prefix_cons.mp hpast
        exact (ih (h.step hnew c') hstep).mpr hrest past hrestPast

end Runs

/-! ## A document that is deleted and restored -/

/-- Identifiers of intervals. -/
def countedUri (n : ℕ) : String := String.ofList (List.replicate n 'i')

theorem countedUri_injective : Function.Injective countedUri := by
  intro m n heq
  have hlist := congrArg String.toList heq
  simpa [countedUri] using congrArg List.length hlist

/-- A store without documents. -/
def Store.empty : Store := ⟨∅, none, ∅, 0⟩

theorem sound_empty : Sound countedUri .empty :=
  ⟨List.nodup_nil, fun _ h => (List.not_mem_nil h).elim, fun _ h => (List.not_mem_nil h).elim⟩

theorem covers_empty : Covers .empty := fun _ _ h => by cases h.2

/-- A document is made without a number and deleted, and another one is made. -/
def replacedChanges : List Change :=
  [⟨"d:one", 0, false⟩, ⟨"d:one", 1, true⟩, ⟨"d:two", 0, false⟩]

theorem allFit_replacedChanges : AllFit countedUri 1 .empty replacedChanges := by
  set s := Change.step countedUri 1 .empty ⟨"d:one", 0, false⟩ with hs
  have hprev : s.documents.lookup "d:one" = some ⟨1, false⟩ := rfl
  have hkeys : s.documents.keys = ["d:one"] := rfl
  have hdeleted : Change.Fits s ⟨"d:one", 1, true⟩ := by
    refine (fits_iff hprev).mpr ⟨fun _ _ _ uri huri hlive => ?_, fun _ hlive => ?_, fun hdel => ?_,
      fun hzero => ?_⟩
    · have hmem := AList.mem_keys.mp (AList.lookup_isSome.mp (Option.isSome_of_eq_some hlive.2))
      rw [hkeys] at hmem
      exact huri (List.mem_singleton.mp hmem)
    · cases hlive
    · cases hdel
    · cases hzero
  exact ⟨fits_of_none rfl, hdeleted, fits_of_none rfl, trivial⟩

/-- A document is made without a number, deleted and restored. -/
def restoredChanges : List Change :=
  [⟨"d:one", 0, false⟩, ⟨"d:one", 1, true⟩, ⟨"d:one", 1, false⟩]

end Veda.Numerator
