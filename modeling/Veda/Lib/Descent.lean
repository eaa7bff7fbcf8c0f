import Veda.Lib.Collect

set_option autoImplicit false

/-!
# Recursion along a successor function

A recursion goes from an element to each of its successors. It ends when the calls are nested to a
limited depth, and that is so if and only if no element that can be reached lies on a cycle, as long
as only finitely many of the elements that can be reached have successors.

## Main definitions

* `Lib.Depth` — the calls from an element are nested to a limited depth.
* `Lib.Descends` — so are they, and every element on the way is good.
* `Lib.NoCycle` — no element that can be reached from an element lies on a cycle.

## Main results

* `Lib.noCycle_of_depth` — a recursion that ends meets no cycle.
* `Lib.depth_of_noCycle` — without cycles, the number of the elements that have successors
  bounds the depth.
* `Lib.descends_iff` — a recursion that stops at elements that are not good.
-/

namespace Veda.Lib

open Relation

section Depth

variable {α : Type} (next : α → List α)

/-- The calls from an element are nested to a depth below `n`. -/
def Depth : ℕ → α → Prop
  | 0, _ => False
  | n + 1, a => ∀ b ∈ next a, Depth n b

/-- The calls from an element are nested to a depth below `n`, and only good elements are met. -/
def Descends (good : α → Prop) : ℕ → α → Prop
  | 0, _ => False
  | n + 1, a => good a ∧ ∀ b ∈ next a, Descends good n b

/-- No element that can be reached lies on a cycle. -/
def NoCycle (a : α) : Prop :=
  ∀ b, ReflTransGen (Adjacent next) a b → ¬ TransGen (Adjacent next) b b

variable {next} {a b : α} {n m : ℕ}

theorem Depth.mono (h : Depth next n a) (hle : n ≤ m) : Depth next m a := by
  induction n generalizing a m with
  | zero => exact h.elim
  | succ n ih =>
    obtain ⟨m, rfl⟩ := Nat.exists_eq_add_one_of_ne_zero (by omega : m ≠ 0)
    exact fun b hb => ih (h b hb) (by omega)

theorem Depth.of_transGen (h : Depth next n a) (hab : TransGen (Adjacent next) a b) :
    ∃ m, m < n ∧ Depth next m b := by
  induction hab with
  | single hab =>
    cases n with
    | zero => exact h.elim
    | succ n => exact ⟨n, Nat.lt_succ_self n, h _ hab⟩
  | tail _ hbc ih =>
    obtain ⟨m, hm, hdepth⟩ := ih
    cases m with
    | zero => exact hdepth.elim
    | succ m => exact ⟨m, by omega, hdepth _ hbc⟩

theorem not_depth_of_cycle (h : TransGen (Adjacent next) a a) : ¬ Depth next n a := by
  induction n using Nat.strong_induction_on with
  | _ n ih =>
    intro hdepth
    obtain ⟨m, hm, hdepth'⟩ := hdepth.of_transGen h
    exact ih m hm hdepth'

/-- **A recursion that ends** meets no cycle. -/
theorem noCycle_of_depth (h : Depth next n a) : NoCycle next a := by
  intro b hab hcycle
  rcases reflTransGen_iff_eq_or_transGen.mp hab with rfl | hab
  · exact not_depth_of_cycle hcycle h
  · obtain ⟨m, -, hdepth⟩ := h.of_transGen hab
    exact not_depth_of_cycle hcycle hdepth

/-- **Without cycles** the number of the elements that have successors bounds the depth.

**Proof sketch.** Induction on this number. The element itself cannot be reached from its
successors, so there is one element less for them. -/
theorem depth_of_noCycle [DecidableEq α] (h : NoCycle next a) (s : Finset α)
    (hs : ∀ b, ReflTransGen (Adjacent next) a b → next b ≠ [] → b ∈ s) :
    Depth next (s.card + 1) a := by
  induction hcard : s.card generalizing s a with
  | zero =>
    rw [Finset.card_eq_zero] at hcard
    intro b hb
    have hmem := hs a .refl (List.ne_nil_of_mem hb)
    rw [hcard] at hmem
    exact absurd hmem (Finset.notMem_empty a)
  | succ k ih =>
    intro b hb
    have hmem := hs a .refl (List.ne_nil_of_mem hb)
    refine ih (fun c hc => h c (.head hb hc)) (s.erase a) (fun c hc hne => ?_) ?_
    · refine Finset.mem_erase.mpr ⟨fun heq => ?_, hs c (.head hb hc) hne⟩
      subst heq
      exact h c .refl (.head' hb hc)
    · rw [Finset.card_erase_of_mem hmem, hcard]
      rfl

/-- **A recursion that stops** at elements that are not good ends when it meets none of these. -/
theorem descends_iff {good : α → Prop} : Descends next good n a ↔
    Depth next n a ∧ ∀ b, ReflTransGen (Adjacent next) a b → good b := by
  induction n generalizing a with
  | zero => exact iff_of_false id fun h => h.1
  | succ n ih =>
    constructor
    · rintro ⟨hgood, hnext⟩
      refine ⟨fun b hb => (ih.mp (hnext b hb)).1, fun c hc => ?_⟩
      rcases hc.cases_head with rfl | ⟨b, hb, hbc⟩
      · exact hgood
      · exact (ih.mp (hnext b hb)).2 c hbc
    · rintro ⟨hdepth, hgood⟩
      exact ⟨hgood a .refl, fun b hb => ih.mpr ⟨hdepth b hb, fun c hc => hgood c (.head hb hc)⟩⟩

end Depth

end Veda.Lib
