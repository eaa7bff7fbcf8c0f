import Mathlib.Data.Finset.Card
import Mathlib.Data.Finset.Basic
import Mathlib.Data.List.Basic
import Mathlib.Logic.Relation

set_option autoImplicit false

/-!
# Depth-first collection

All elements that can be reached from an element are collected: those next to it that have not been
collected are added, and then each of them is treated in the same way. What was collected is handed
from one call to the next, so an element is visited once; cycles do no harm.

## Main definitions

* `Lib.fresh` — the elements that are added in one call.
* `Lib.collect` — the collection, with a bound on the depth of the calls.
* `Lib.Collects` — what a collection may and must add.

## Main results

* `Lib.collects_collect` — a collection that ends has collected.
* `Lib.collect_mono` — a larger bound on the depth changes nothing.
* `Lib.collect_isSome` — a bound on the depth that is large enough.
* `Lib.mem_collect_nil` — the elements that are collected are those that can be reached.
-/

namespace Veda.Lib

open Relation

variable {α : Type} [DecidableEq α] (next : α → List α)

/-- The elements next to `el` that have not been collected. -/
def fresh (el : α) (collector : List α) : List α :=
  (next el).filter fun x => x ∉ collector

/-- Collect the elements that can be reached from `el`; `none` when the calls are nested too
deeply. -/
def collect : ℕ → α → List α → Option (List α)
  | 0, _, _ => none
  | n + 1, el, collector =>
    (fresh next el collector).foldlM (fun collector x => collect n x collector)
      (collector ++ fresh next el collector)

/-- One element is next to another one. -/
def Adjacent (a b : α) : Prop := b ∈ next a

/-- The elements of `c` and of what can be reached from the roots are collected in `c'`, and the
elements next to the roots and to everything new are among them. -/
structure Collects (roots c c' : List α) : Prop where
  sub : c ⊆ c'
  reached : ∀ x ∈ c', x ∈ c ∨ ∃ root ∈ roots, TransGen (Adjacent next) root x
  closed : ∀ y, y ∈ roots ∨ y ∈ c' ∧ y ∉ c → next y ⊆ c'

variable {next} {roots roots' c c' c'' : List α} {el x : α} {n : ℕ}

omit [DecidableEq α] in
theorem Collects.nil (c : List α) : Collects next [] c c where
  sub := List.Subset.refl c
  reached := fun _ hx => .inl hx
  closed := by
    rintro y (hy | ⟨hy, hnot⟩)
    · cases hy
    · exact absurd hy hnot

theorem Collects.append (h : Collects next roots c c') (h' : Collects next roots' c' c'') :
    Collects next (roots ++ roots') c c'' where
  sub := List.Subset.trans h.sub h'.sub
  reached := by
    intro x hx
    rcases h'.reached x hx with hx | ⟨root, hroot, hreach⟩
    · rcases h.reached x hx with hx | ⟨root, hroot, hreach⟩
      · exact .inl hx
      · exact .inr ⟨root, List.mem_append_left _ hroot, hreach⟩
    · exact .inr ⟨root, List.mem_append_right _ hroot, hreach⟩
  closed := by
    rintro y (hy | ⟨hy, hnot⟩)
    · rcases List.mem_append.mp hy with hy | hy
      · exact List.Subset.trans (h.closed y (.inl hy)) h'.sub
      · exact h'.closed y (.inl hy)
    · by_cases hold : y ∈ c'
      · exact List.Subset.trans (h.closed y (.inr ⟨hold, hnot⟩)) h'.sub
      · exact h'.closed y (.inr ⟨hy, hold⟩)

theorem next_subset_fresh (el : α) (c : List α) : next el ⊆ c ++ fresh next el c := by
  intro x hx
  by_cases hold : x ∈ c
  · exact List.mem_append_left _ hold
  · exact List.mem_append_right _ (List.mem_filter.mpr ⟨hx, by simpa using hold⟩)

theorem adjacent_of_mem_fresh (h : x ∈ fresh next el c) : Adjacent next el x :=
  List.mem_of_mem_filter h

theorem Collects.cons (h : Collects next (fresh next el c) (c ++ fresh next el c) c') :
    Collects next [el] c c' where
  sub := fun _ hx => h.sub (List.mem_append_left _ hx)
  reached := by
    intro x hx
    rcases h.reached x hx with hx | ⟨root, hroot, hreach⟩
    · rcases List.mem_append.mp hx with hx | hx
      · exact .inl hx
      · exact .inr ⟨el, List.mem_singleton_self el, .single (adjacent_of_mem_fresh hx)⟩
    · exact .inr ⟨el, List.mem_singleton_self el, .head (adjacent_of_mem_fresh hroot) hreach⟩
  closed := by
    rintro y (hy | ⟨hy, hnot⟩)
    · rw [List.mem_singleton] at hy
      subst hy
      exact List.Subset.trans (next_subset_fresh y c) h.sub
    · by_cases hfresh : y ∈ fresh next el c
      · exact h.closed y (.inl hfresh)
      · refine h.closed y (.inr ⟨hy, fun hmem => ?_⟩)
        exact (List.mem_append.mp hmem).elim hnot hfresh

/-- A collection that ends has collected.

**Proof sketch.** Induction on the depth, and on the list of the fresh elements. -/
theorem collects_collect (h : collect next n el c = some c') : Collects next [el] c c' := by
  induction n generalizing el c c' with
  | zero => cases h
  | succ n ih =>
    have hfold : ∀ (ks c c' : List α), ks.foldlM (fun c x => collect next n x c) c = some c' →
        Collects next ks c c' := by
      intro ks
      induction ks with
      | nil =>
        rintro c c' ⟨⟩
        exact .nil c
      | cons k ks ihks =>
        intro c c' h
        rw [List.foldlM_cons, Option.bind_eq_bind, Option.bind_eq_some_iff] at h
        obtain ⟨c₁, hk, hks⟩ := h
        exact (ih hk).append (ihks c₁ c' hks)
    exact Collects.cons (hfold _ _ _ h)

theorem collect_succ (h : collect next n el c = some c') : collect next (n + 1) el c = some c' := by
  induction n generalizing el c c' with
  | zero => cases h
  | succ n ih =>
    have hfold : ∀ (ks c c' : List α), ks.foldlM (fun c x => collect next n x c) c = some c' →
        ks.foldlM (fun c x => collect next (n + 1) x c) c = some c' := by
      intro ks
      induction ks with
      | nil => exact fun _ _ h => h
      | cons k ks ihks =>
        intro c c' h
        rw [List.foldlM_cons, Option.bind_eq_bind, Option.bind_eq_some_iff] at h
        obtain ⟨c₁, hk, hks⟩ := h
        rw [List.foldlM_cons, ih hk]
        exact ihks c₁ c' hks
    exact hfold _ _ _ h

theorem collect_mono {m : ℕ} (h : collect next n el c = some c') (hle : n ≤ m) :
    collect next m el c = some c' := by
  induction m, hle using Nat.le_induction with
  | base => exact h
  | succ m _ ih => exact collect_succ ih

/-! ## The depth of the calls -/

section Depth

variable {all : Finset α}

theorem card_sdiff_mono (h : c ⊆ c') :
    (all \ c'.toFinset).card ≤ (all \ c.toFinset).card :=
  Finset.card_le_card (Finset.sdiff_subset_sdiff le_rfl fun _ hx =>
    List.mem_toFinset.mpr (h (List.mem_toFinset.mp hx)))

theorem card_sdiff_fresh (hall : ∀ y, ∀ x ∈ next y, x ∈ all) (hx : x ∈ fresh next el c) :
    (all \ (c ++ fresh next el c).toFinset).card < (all \ c.toFinset).card := by
  apply Finset.card_lt_card
  refine ⟨Finset.sdiff_subset_sdiff le_rfl fun y hy => ?_, fun hsub => ?_⟩
  · exact List.mem_toFinset.mpr (List.mem_append_left _ (List.mem_toFinset.mp hy))
  · have hold : x ∉ c := by simpa using (List.mem_filter.mp hx).2
    have hmem : x ∈ all \ c.toFinset := Finset.mem_sdiff.mpr
      ⟨hall el x (adjacent_of_mem_fresh hx), fun h => hold (List.mem_toFinset.mp h)⟩
    exact (Finset.mem_sdiff.mp (hsub hmem)).2
      (List.mem_toFinset.mpr (List.mem_append_right _ hx))

theorem collect_isSome (hall : ∀ y, ∀ x ∈ next y, x ∈ all)
    (hn : (all \ c.toFinset).card < n) : ∃ c', collect next n el c = some c' := by
  induction n generalizing el c with
  | zero => exact absurd hn (Nat.not_lt_zero _)
  | succ n ih =>
    have hfold : ∀ (ks c : List α), (ks ≠ [] → (all \ c.toFinset).card < n) →
        ∃ c', ks.foldlM (fun c x => collect next n x c) c = some c' := by
      intro ks
      induction ks with
      | nil => exact fun c _ => ⟨c, rfl⟩
      | cons k ks ihks =>
        intro c hc
        obtain ⟨c₁, hk⟩ : ∃ c₁, collect next n k c = some c₁ := ih (hc (List.cons_ne_nil k ks))
        have hle : (all \ c₁.toFinset).card ≤ (all \ c.toFinset).card :=
          card_sdiff_mono (collects_collect hk).sub
        obtain ⟨c₂, hks⟩ := ihks c₁ fun _ => hle.trans_lt (hc (List.cons_ne_nil k ks))
        refine ⟨c₂, ?_⟩
        rw [List.foldlM_cons, hk]
        exact hks
    refine hfold _ _ fun hne => ?_
    obtain ⟨x, hx⟩ := List.exists_mem_of_ne_nil _ hne
    exact (card_sdiff_fresh hall hx).trans_le (Nat.le_of_lt_succ hn)

end Depth

theorem mem_collect_nil (h : collect next n el [] = some c) (x : α) :
    x ∈ c ↔ TransGen (Adjacent next) el x := by
  have hc := collects_collect h
  constructor
  · intro hx
    rcases hc.reached x hx with hx | ⟨root, hroot, hreach⟩
    · cases hx
    · obtain rfl := List.mem_singleton.mp hroot
      exact hreach
  · intro hx
    induction hx with
    | single hstep => exact hc.closed el (.inl (List.mem_singleton_self el)) hstep
    | tail _ hstep ih => exact hc.closed _ (.inr ⟨ih, List.not_mem_nil⟩) hstep

end Veda.Lib
