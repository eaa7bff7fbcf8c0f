import Mathlib.Data.List.Induction

set_option autoImplicit false

/-!
# What the last writer leaves

A cell is written by some elements of a list, one after another. In the end it has what the last of
them wrote. The elements can come in any order exactly when all of them write the same.

## Main definitions

* `Lib.lastWritten` — what the last writer of a list wrote.

## Main results

* `Lib.foldl_lastWritten` — what a run over a list leaves in a cell.
* `Lib.lastWritten_eq_of_perm`, `Lib.exists_perm_lastWritten` — two orders of the writers.
-/

namespace Veda.Lib

variable {σ α ν : Type}

/-- What the last writer of a list wrote. -/
def lastWritten (writes : α → Option ν) (l : List α) : Option ν := l.reverse.findSome? writes

variable {writes : α → Option ν} {l l' xs : List α} {a : α} {v : ν}

theorem lastWritten_concat (writes : α → Option ν) (l : List α) (a : α) :
    lastWritten writes (l ++ [a]) = (writes a).or (lastWritten writes l) := by
  rw [lastWritten, List.reverse_concat, List.findSome?_cons, lastWritten]
  cases writes a <;> rfl

theorem lastWritten_eq_some (h : lastWritten writes l = some v) : ∃ a ∈ l, writes a = some v := by
  obtain ⟨a, ha, hv⟩ := List.exists_of_findSome?_eq_some h
  exact ⟨a, List.mem_reverse.mp ha, hv⟩

theorem lastWritten_eq_none : lastWritten writes l = none ↔ ∀ a ∈ l, writes a = none := by
  simp [lastWritten]

theorem lastWritten_eq_ite (P : α → Prop) [DecidablePred P] (v : Option ν) (l : List α)
    [Decidable (∃ a ∈ l, P a)] :
    lastWritten (fun a => if P a then v else none) l = if ∃ a ∈ l, P a then v else none := by
  split_ifs with h
  · cases hlast : lastWritten (fun a => if P a then v else none) l with
    | none =>
      obtain ⟨a, ha, hP⟩ := h
      have hnone := lastWritten_eq_none.mp hlast a ha
      rw [if_pos hP] at hnone
      exact hnone.symm
    | some w =>
      obtain ⟨a, -, hw⟩ := lastWritten_eq_some hlast
      split_ifs at hw
      exact hw.symm
  · refine lastWritten_eq_none.mpr fun a ha => if_neg fun hP => h ⟨a, ha, hP⟩

theorem or_ite_none (P Q : Prop) [Decidable P] [Decidable Q] (v : Option ν) :
    (if P then v else none).or (if Q then v else none) = if P ∨ Q then v else none := by
  by_cases hP : P <;> by_cases hQ : Q <;> simp [hP, hQ]

/-- **A run over a list** in which each element writes or leaves a cell. -/
theorem foldl_lastWritten (get : σ → Option ν) (f : σ → α → σ)
    (h : ∀ s a, get (f s a) = (writes a).or (get s)) (l : List α) (s : σ) :
    get (l.foldl f s) = (lastWritten writes l).or (get s) := by
  induction l using List.reverseRecOn with
  | nil => rfl
  | append_singleton l a ih =>
    rw [List.foldl_append, List.foldl_cons, List.foldl_nil, h, ih, lastWritten_concat,
      Option.or_assoc]

/-! ## Orders of the writers -/

theorem lastWritten_eq_of_perm (hl : l.Perm xs) (hl' : l'.Perm xs)
    (hagree : ∀ a ∈ xs, ∀ b ∈ xs, ∀ v w, writes a = some v → writes b = some w → v = w) :
    lastWritten writes l = lastWritten writes l' := by
  have hmem : ∀ a, a ∈ l ↔ a ∈ l' := fun a => hl.mem_iff.trans hl'.mem_iff.symm
  cases hlast : lastWritten writes l with
  | none =>
    refine (lastWritten_eq_none.mpr fun a ha => ?_).symm
    exact lastWritten_eq_none.mp hlast a ((hmem a).mpr ha)
  | some v =>
    cases hlast' : lastWritten writes l' with
    | none =>
      obtain ⟨a, ha, hv⟩ := lastWritten_eq_some hlast
      rw [lastWritten_eq_none.mp hlast' a ((hmem a).mp ha)] at hv
      cases hv
    | some w =>
      obtain ⟨a, ha, hv⟩ := lastWritten_eq_some hlast
      obtain ⟨b, hb, hw⟩ := lastWritten_eq_some hlast'
      rw [hagree a (hl.mem_iff.mp ha) b (hl'.mem_iff.mp hb) v w hv hw]

theorem exists_perm_lastWritten (ha : a ∈ xs) (hv : writes a = some v) :
    ∃ l : List α, l.Perm xs ∧ lastWritten writes l = some v := by
  obtain ⟨s, t, rfl⟩ := List.append_of_mem ha
  refine ⟨s ++ t ++ [a], ?_, ?_⟩
  · exact (List.perm_append_singleton a (s ++ t)).trans List.perm_middle.symm
  · rw [lastWritten_concat, hv, Option.some_or]

end Veda.Lib
