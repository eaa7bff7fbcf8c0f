import Mathlib.Init

set_option autoImplicit false

/-!
# Computations that can fail

Taking apart a sequence of computations that ended well.

## Main definitions

* `Lib.Ends` — a computation ends well.

## Main results

* `Lib.bind_eq_ok` — each part of a sequence that ended well did so.
* `Lib.ends_bind`, `Lib.ends_mapM`, `Lib.ends_foldlM` — when a computation ends well.
* `Lib.eq_foldl_of_foldlM` — what a loop that ended well has computed.
* `Lib.mapM_eq_some`, `Lib.exists_mapM_of_perm` — a function that can fail on every
  element of a list.
-/

namespace Veda.Lib

theorem bind_eq_ok {ε α β : Type} {x : Except ε α} {f : α → Except ε β} {y : β}
    (h : (x >>= f) = .ok y) : ∃ a, x = .ok a ∧ f a = .ok y := by
  cases x with
  | error _ => cases h
  | ok a => exact ⟨a, rfl, h⟩

section Ends

variable {ε α β σ : Type}

/-- A computation ends well. -/
def Ends (x : Except ε α) : Prop := ∃ a, x = .ok a

@[simp] theorem ends_ok (a : α) : Ends (.ok a : Except ε α) := ⟨a, rfl⟩

@[simp] theorem not_ends_error (e : ε) : ¬ Ends (.error e : Except ε α) := fun ⟨_, h⟩ => nomatch h

@[simp] theorem ends_map (f : α → β) (x : Except ε α) : Ends (f <$> x) ↔ Ends x := by
  cases x with
  | error e => exact iff_of_false (not_ends_error e) (not_ends_error e)
  | ok a => exact iff_of_true (ends_ok (f a)) (ends_ok a)

theorem ends_bind (x : Except ε α) (f : α → Except ε β) :
    Ends (x >>= f) ↔ ∃ a, x = .ok a ∧ Ends (f a) := by
  constructor
  · rintro ⟨y, h⟩
    obtain ⟨a, hx, hf⟩ := bind_eq_ok h
    exact ⟨a, hx, y, hf⟩
  · rintro ⟨a, rfl, hf⟩
    exact hf

theorem ends_map_bind {f : α → β} {g : β → Except ε σ} {Q : Prop} (h : ∀ a, Ends (g (f a)) ↔ Q)
    (x : Except ε α) : Ends ((f <$> x) >>= g) ↔ Ends x ∧ Q := by
  cases x with
  | error e => exact iff_of_false (not_ends_error e) fun h => not_ends_error e h.1
  | ok a =>
    rw [and_iff_right (ends_ok a)]
    exact h a

theorem ends_ite (p : Prop) [Decidable p] (a : α) (e : ε) :
    Ends (if p then .ok a else .error e) ↔ p := by
  split
  case isTrue h => exact iff_of_true (ends_ok a) h
  case isFalse h => exact iff_of_false (not_ends_error e) h

theorem ends_foldlM {f : σ → α → Except ε σ} {P : α → Prop} (h : ∀ s a, Ends (f s a) ↔ P a)
    (xs : List α) (s : σ) : Ends (xs.foldlM f s) ↔ ∀ x ∈ xs, P x := by
  induction xs generalizing s with
  | nil => exact iff_of_true (ends_ok s) fun x hx => absurd hx List.not_mem_nil
  | cons x xs ih =>
    rw [List.foldlM_cons, ends_bind, List.forall_mem_cons]
    constructor
    · rintro ⟨s', hs', hrest⟩
      exact ⟨(h s x).mp ⟨s', hs'⟩, (ih s').mp hrest⟩
    · rintro ⟨hx, hrest⟩
      obtain ⟨s', hs'⟩ := (h s x).mpr hx
      exact ⟨s', hs', (ih s').mpr hrest⟩

theorem eq_foldl_of_foldlM {f : σ → α → Except ε σ} {g : σ → α → σ}
    (h : ∀ s a s', f s a = .ok s' → s' = g s a) {xs : List α} {s s' : σ}
    (hend : xs.foldlM f s = .ok s') : s' = xs.foldl g s := by
  induction xs generalizing s with
  | nil => exact (Except.ok.inj hend).symm
  | cons x xs ih =>
    rw [List.foldlM_cons] at hend
    obtain ⟨t, ht, hrest⟩ := bind_eq_ok hend
    rw [List.foldl_cons, ← h s x t ht]
    exact ih hrest

theorem ends_mapM {f : α → Except ε β} (xs : List α) :
    Ends (xs.mapM f) ↔ ∀ x ∈ xs, Ends (f x) := by
  induction xs with
  | nil => exact iff_of_true (ends_ok _) fun x hx => absurd hx List.not_mem_nil
  | cons x xs ih =>
    rw [List.mapM_cons, ends_bind, List.forall_mem_cons, ← ih]
    constructor
    · rintro ⟨y, hy, hrest⟩
      obtain ⟨ys, hys, -⟩ := (ends_bind _ _).mp hrest
      exact ⟨⟨y, hy⟩, ys, hys⟩
    · rintro ⟨⟨y, hy⟩, ys, hys⟩
      exact ⟨y, hy, (ends_bind _ _).mpr ⟨ys, hys, ends_ok _⟩⟩

theorem eq_map_of_mapM {f : α → Except ε β} {g : α → β} (h : ∀ a b, f a = .ok b → b = g a)
    {xs : List α} {ys : List β} (hend : xs.mapM f = .ok ys) : ys = xs.map g := by
  induction xs generalizing ys with
  | nil => exact (Except.ok.inj hend).symm
  | cons x xs ih =>
    rw [List.mapM_cons] at hend
    obtain ⟨y, hy, hrest⟩ := bind_eq_ok hend
    obtain ⟨ys', hys', heq⟩ := bind_eq_ok hrest
    rw [← Except.ok.inj heq, List.map_cons, ← h x y hy, ← ih hys']

end Ends

section MapM

variable {α β : Type} {f : α → Option β} {xs xs' : List α} {ys : List β}

theorem mapM_eq_some : xs.mapM f = some ys ↔ xs.map f = ys.map some := by
  induction xs generalizing ys with
  | nil => cases ys <;> simp
  | cons x xs ih =>
    rw [List.mapM_cons, List.map_cons]
    cases hx : f x with
    | none => cases ys <;> simp
    | some y =>
      cases ys with
      | nil => cases hxs : xs.mapM f <;> simp
      | cons y' ys =>
        rw [List.map_cons, List.cons.injEq, ← ih]
        cases hxs : xs.mapM f <;> simp

theorem exists_of_mem_mapM (h : xs.mapM f = some ys) {y : β} (hy : y ∈ ys) :
    ∃ x ∈ xs, f x = some y := by
  have hmem : some y ∈ xs.map f := by
    rw [mapM_eq_some.mp h]
    exact List.mem_map_of_mem hy
  exact List.mem_map.mp hmem

theorem mapM_of_isSome (h : ∀ x ∈ xs, (f x).isSome) : xs.mapM f = some (xs.filterMap f) := by
  rw [mapM_eq_some]
  induction xs with
  | nil => rfl
  | cons x xs ih =>
    obtain ⟨y, hy⟩ := Option.isSome_iff_exists.mp (h x List.mem_cons_self)
    rw [List.map_cons, List.filterMap_cons_some hy, List.map_cons, hy,
      ih fun x' hx' => h x' (List.mem_cons_of_mem x hx')]

theorem exists_mapM_of_perm (hperm : xs.Perm xs') (h : xs.mapM f = some ys) :
    ∃ ys', xs'.mapM f = some ys' ∧ ys.Perm ys' := by
  have hsome : ∀ x ∈ xs, (f x).isSome := by
    intro x hx
    have hmem : f x ∈ ys.map some := mapM_eq_some.mp h ▸ List.mem_map_of_mem hx
    obtain ⟨y, -, hy⟩ := List.mem_map.mp hmem
    rw [← hy, Option.isSome_some]
  rw [mapM_of_isSome hsome] at h
  rw [← Option.some.inj h]
  exact ⟨_, mapM_of_isSome fun x hx => hsome x (hperm.mem_iff.mpr hx), hperm.filterMap f⟩

end MapM

end Veda.Lib
