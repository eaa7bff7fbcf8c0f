import Mathlib.Data.List.AList
import Mathlib.Algebra.BigOperators.Group.List.Basic

set_option autoImplicit false

/-!
# Hash maps with an arbitrary iteration order

A hash map is a finite map whose iteration order is not determined by its contents. The map
itself is Mathlib's association list with distinct keys; the order in which a program visits
its entries is a separate argument, so that a statement about every `IterOrder` is a statement
about every order the hash function may produce.

## Main definitions

* `Lib.HashMap` — finite maps with distinct keys.
* `Lib.IterOrder` — a rule that reorders the keys of a map.
* `Lib.HashMap.iter` — the entries of a map, in the order a rule gives.
* `Lib.HashMap.insertAll` — insertion of a list of entries, one after another.

## Main results

* `Lib.HashMap.mem_iter` — the entries visited are those of the map.
* `Lib.HashMap.lookup_insertAll_of_mem`, `Lib.HashMap.lookup_insertAll_of_notMem` —
  what a sequence of insertions leaves.
* `Lib.HashMap.sum_values` — the sum of the values, key by key.
-/

namespace Veda.Lib

/-- A finite map from `κ` to `ν` with distinct keys. -/
abbrev HashMap (κ ν : Type) := AList fun _ : κ => ν

/-- An iteration order: any rule that permutes the keys of a map. -/
structure IterOrder (κ : Type) where
  /-- the keys in the order they are visited -/
  order : List κ → List κ
  /-- every key is visited once -/
  perm : ∀ ks, (order ks).Perm ks

/-- The order in which the entries are stored. -/
def IterOrder.stored (κ : Type) : IterOrder κ := ⟨id, fun _ => .refl _⟩

/-- The order opposite to the one in which the entries are stored. -/
def IterOrder.reversed (κ : Type) : IterOrder κ := ⟨List.reverse, fun _ => List.reverse_perm _⟩

namespace HashMap

variable {κ ν : Type} [DecidableEq κ]

/-- The entries of a map in the iteration order `π`. -/
def iter (π : IterOrder κ) (m : HashMap κ ν) : List (κ × ν) :=
  (π.order m.keys).filterMap fun k => (m.lookup k).map fun v => (k, v)

/-- Insert the entries of a list one after another. -/
def insertAll (m : HashMap κ ν) (l : List (κ × ν)) : HashMap κ ν :=
  l.foldl (fun m p => m.insert p.1 p.2) m

@[simp] theorem mem_iter (π : IterOrder κ) (m : HashMap κ ν) (k : κ) (v : ν) :
    (k, v) ∈ iter π m ↔ m.lookup k = some v := by
  simp only [iter, List.mem_filterMap, Option.map_eq_some_iff, Prod.mk.injEq]
  constructor
  · rintro ⟨k', _, v', hv, rfl, rfl⟩
    exact hv
  · intro h
    refine ⟨k, (π.perm _).mem_iff.mpr ?_, v, h, rfl, rfl⟩
    exact AList.mem_keys.mp (AList.lookup_isSome.mp (by simp [h]))

theorem map_fst_iter (π : IterOrder κ) (m : HashMap κ ν) :
    (iter π m).map Prod.fst = π.order m.keys := by
  have hmem : ∀ k ∈ π.order m.keys, ∃ v, m.lookup k = some v := fun k hk =>
    Option.isSome_iff_exists.mp
      (AList.lookup_isSome.mpr (AList.mem_keys.mpr ((π.perm _).mem_iff.mp hk)))
  unfold iter
  generalize π.order m.keys = ks at hmem ⊢
  induction ks with
  | nil => rfl
  | cons k ks ih =>
    obtain ⟨v, hv⟩ := hmem k List.mem_cons_self
    rw [List.filterMap_cons_some (by rw [hv]; rfl), List.map_cons,
      ih fun k' hk' => hmem k' (List.mem_cons_of_mem _ hk')]

theorem nodup_fst_iter (π : IterOrder κ) (m : HashMap κ ν) :
    ((iter π m).map Prod.fst).Nodup := by
  rw [map_fst_iter]
  exact (π.perm _).nodup_iff.mpr m.keys_nodup

@[simp] theorem insertAll_nil (m : HashMap κ ν) : insertAll m [] = m := rfl

@[simp] theorem insertAll_cons (m : HashMap κ ν) (p : κ × ν) (l : List (κ × ν)) :
    insertAll m (p :: l) = insertAll (m.insert p.1 p.2) l := rfl

theorem lookup_insertAll_of_notMem {k : κ} : ∀ (l : List (κ × ν)) (m : HashMap κ ν),
    k ∉ l.map Prod.fst → (insertAll m l).lookup k = m.lookup k
  | [], _, _ => rfl
  | p :: l, m, h => by
    simp only [List.map_cons, List.mem_cons, not_or] at h
    rw [insertAll_cons, lookup_insertAll_of_notMem l _ h.2, AList.lookup_insert_ne h.1]

theorem lookup_insertAll_of_mem {k : κ} {v : ν} : ∀ (l : List (κ × ν)) (m : HashMap κ ν),
    (l.map Prod.fst).Nodup → (k, v) ∈ l → (insertAll m l).lookup k = some v
  | [], _, _, h => by simp at h
  | p :: l, m, hnd, h => by
    simp only [List.map_cons, List.nodup_cons] at hnd
    rw [insertAll_cons]
    rcases List.mem_cons.mp h with rfl | h
    · rw [lookup_insertAll_of_notMem l _ hnd.1, AList.lookup_insert]
    · exact lookup_insertAll_of_mem l _ hnd.2 h

theorem lookup_insert_empty {k k' : κ} {v v' : ν} :
    (AList.insert k v (∅ : HashMap κ ν)).lookup k' = some v' ↔ k' = k ∧ v' = v := by
  by_cases h : k' = k
  · subst h
    rw [AList.lookup_insert]
    simp [eq_comm]
  · rw [AList.lookup_insert_ne h]
    simp [h]

/-! ## Sums of the values -/

/-- The sum of the values, read off under the keys of any duplicate-free list that covers the
keys of the map.

**Proof sketch.** Both sides are sums over the keys: a key outside the map contributes `0`, and
the keys of the map are a sublist up to permutation. Induction on the entries; inserting an
entry at a new key `k` changes the summand of `k` alone. -/
theorem sum_values {M : Type} [AddCommMonoid M] (f : ν → M) (m : HashMap κ ν) (ks : List κ)
    (hks : ks.Nodup) (hsub : ∀ k ∈ m, k ∈ ks) :
    (m.entries.map fun e => f e.2).sum =
      (ks.map fun k => ((m.lookup k).map f).getD 0).sum := by
  obtain ⟨es, hnd⟩ := m
  induction es with
  | nil =>
    have h0 : ∀ k, AList.lookup k (⟨[], hnd⟩ : HashMap κ ν) = none := fun k => rfl
    simp [h0]
  | cons e es ih =>
    obtain ⟨k₀, v₀⟩ := e
    have hnd' : es.NodupKeys := List.nodupKeys_of_nodupKeys_cons hnd
    have hk₀ : k₀ ∉ es.keys := List.notMem_keys_of_nodupKeys_cons hnd
    have hk₀s : k₀ ∈ ks := hsub k₀ (by rw [AList.mem_mk]; simp [List.keys_cons])
    obtain ⟨ks', hperm⟩ : ∃ ks', ks.Perm (k₀ :: ks') :=
      ⟨ks.erase k₀, List.perm_cons_erase hk₀s⟩
    have hnd₀ := List.nodup_cons.mp (hperm.nodup_iff.mp hks)
    have hih := ih hnd' (fun k hk => hsub k (by
      rw [AList.mem_mk] at hk ⊢; simp [List.keys_cons, hk]))
    have hhead : AList.lookup k₀ (⟨⟨k₀, v₀⟩ :: es, hnd⟩ : HashMap κ ν) = some v₀ :=
      List.dlookup_cons_eq _ _ _
    have hnone : AList.lookup k₀ (⟨es, hnd'⟩ : HashMap κ ν) = none :=
      AList.lookup_eq_none.mpr (by simpa using hk₀)
    have htail : ∀ k ∈ ks', AList.lookup k (⟨⟨k₀, v₀⟩ :: es, hnd⟩ : HashMap κ ν) =
        AList.lookup k (⟨es, hnd'⟩ : HashMap κ ν) := fun k hk =>
      List.dlookup_cons_ne _ _ fun h : k = k₀ => hnd₀.1 (h ▸ hk)
    rw [(hperm.map _).sum_eq] at hih ⊢
    simp only [List.map_cons, List.sum_cons, hhead, hnone, Option.map_some, Option.map_none,
      Option.getD_some, Option.getD_none, zero_add] at hih ⊢
    rw [hih]
    congr 2
    exact List.map_congr_left fun k hk => by rw [htail k hk]

theorem sum_insert {M : Type} [AddCommMonoid M] (f : ν → M) (m : HashMap κ ν) (k : κ) (v : ν) :
    ((m.insert k v).entries.map fun e => f e.2).sum + ((m.lookup k).map f).getD 0 =
      (m.entries.map fun e => f e.2).sum + f v := by
  have hk : k ∉ m.keys.erase k := fun h => ((m.keys_nodup.mem_erase_iff).mp h).1 rfl
  have hnd : (k :: m.keys.erase k).Nodup :=
    List.nodup_cons.mpr ⟨hk, m.keys_nodup.erase k⟩
  have hcover : ∀ k' ∈ m, k' ∈ k :: m.keys.erase k := by
    intro k' hk'
    by_cases h : k' = k
    · rw [h]
      exact List.mem_cons_self
    · exact List.mem_cons_of_mem _ ((m.keys_nodup.mem_erase_iff).mpr ⟨h, AList.mem_keys.mp hk'⟩)
  have hcover' : ∀ k' ∈ m.insert k v, k' ∈ k :: m.keys.erase k := by
    intro k' hk'
    rcases AList.mem_insert _ |>.mp hk' with rfl | h
    · exact List.mem_cons_self
    · exact hcover k' h
  have hrest : ((m.keys.erase k).map fun k' => (((m.insert k v).lookup k').map f).getD 0) =
      (m.keys.erase k).map fun k' => ((m.lookup k').map f).getD 0 := by
    apply List.map_congr_left
    intro k' hk'
    have hne : k' ≠ k := by
      rintro rfl
      exact hk hk'
    rw [AList.lookup_insert_ne hne]
  rw [sum_values f m _ hnd hcover, sum_values f (m.insert k v) _ hnd hcover', List.map_cons,
    List.map_cons, List.sum_cons, List.sum_cons, hrest, AList.lookup_insert]
  rw [Option.map_some, Option.getD_some, add_right_comm, add_assoc, add_comm]

end HashMap

end Veda.Lib
