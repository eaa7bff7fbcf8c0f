import Mathlib.Algebra.Order.BigOperators.Group.Finset

set_option autoImplicit false

/-!
# Sums over the latest states

Every key has a latest state, and a sum is taken over the keys of a set. A change of one key
replaces its summand.

## Main results

* `Lib.sum_update` — the sum after a change.
* `Lib.sum_ne_zero_iff` — when the sum over a set that covers all states is not zero.
-/

namespace Veda.Lib

variable {κ σ : Type} [DecidableEq κ] {keys : Finset κ}

theorem sum_update {key : κ} (hkey : key ∈ keys) (latest : κ → σ) (s : σ) (f : σ → ℕ) :
    ∑ k ∈ keys, f (Function.update latest key s k) =
      ∑ k ∈ keys, f (latest k) - f (latest key) + f s := by
  rw [← Finset.add_sum_erase keys _ hkey, ← Finset.add_sum_erase keys _ hkey,
    Function.update_self, Nat.add_sub_cancel_left, Nat.add_comm]
  congr 1
  refine Finset.sum_congr rfl fun k hk => ?_
  rw [Function.update_of_ne (Finset.ne_of_mem_erase hk)]

theorem sum_ne_zero_iff {latest : κ → σ} {f : σ → ℕ} (hcover : ∀ k ∉ keys, f (latest k) = 0) :
    ∑ k ∈ keys, f (latest k) ≠ 0 ↔ ∃ k, f (latest k) ≠ 0 := by
  rw [ne_eq, Finset.sum_eq_zero_iff]
  constructor
  · intro hne
    by_contra hno
    refine hne fun k _ => ?_
    by_contra hk
    exact hno ⟨k, hk⟩
  · rintro ⟨k, hk⟩ hz
    by_cases hmem : k ∈ keys
    · exact hk (hz k hmem)
    · exact hk (hcover k hmem)

end Veda.Lib
