import Veda.Lib.HashMap

set_option autoImplicit false

/-!
# Lists of values under keys, in blocks

Values are collected in a map with one list for each key, and the lists are cut into blocks of a
limited length. The units that come out of it have exactly the values that were collected, whatever
the order in which the keys are visited.

## Main definitions

* `Lib.HashMap.pushAt` — append a value to the list of a key.
* `Lib.blocks` — cut a list into blocks.
* `Lib.HashMap.units` — the blocks of the lists, with their keys.

## Main results

* `Lib.HashMap.lookup_foldl_pushAt` — the list of a key.
* `Lib.flatten_blocks` — the blocks of a list.
* `Lib.HashMap.mem_units_foldl_pushAt` — the values of the units.
-/

namespace Veda.Lib

/-! ## Blocks -/

section Blocks

variable {α : Type}

/-- Cut blocks off a list while it is longer than the limit; what is left is the last block. -/
def blocks (limit : ℕ) (l : List α) : List (List α) :=
  if 0 < limit ∧ limit < l.length then l.take limit :: blocks limit (l.drop limit) else [l]
termination_by l.length
decreasing_by
  rename_i h
  rw [List.length_drop]
  omega

theorem flatten_blocks (limit : ℕ) (l : List α) : (blocks limit l).flatten = l := by
  induction hlength : l.length using Nat.strong_induction_on generalizing l with
  | _ n ih =>
    rw [blocks]
    split_ifs with h
    · rw [List.flatten_cons, ih _ _ _ rfl, List.take_append_drop]
      rw [List.length_drop]
      omega
    · exact List.append_nil l

end Blocks

namespace HashMap

variable {κ ν : Type} [DecidableEq κ]

/-- Append a value to the list of a key. -/
def pushAt (m : HashMap κ (List ν)) (k : κ) (v : ν) : HashMap κ (List ν) :=
  m.insert k ((m.lookup k).getD [] ++ [v])

theorem lookup_foldl_pushAt (l : List (κ × ν)) (m : HashMap κ (List ν)) (k : κ) :
    ((l.foldl (fun m p => m.pushAt p.1 p.2) m).lookup k).getD [] =
      (m.lookup k).getD [] ++ (l.filter fun p => p.1 = k).map Prod.snd := by
  induction l generalizing m with
  | nil => simp
  | cons p l ih =>
    rw [List.foldl_cons, ih, pushAt, List.filter_cons]
    by_cases hk : p.1 = k
    · rw [if_pos (decide_eq_true hk), hk, AList.lookup_insert, List.map_cons, Option.getD_some,
        List.append_assoc]
      rfl
    · rw [if_neg (by simp [hk]), AList.lookup_insert_ne (Ne.symm hk)]

/-- The blocks of the lists, with their keys. -/
def units (π : IterOrder κ) (limit : ℕ) (m : HashMap κ (List ν)) : List (κ × List ν) :=
  (m.iter π).flatMap fun e => (blocks limit e.2).map fun block => (e.1, block)

theorem mem_units_iff {π : IterOrder κ} {limit : ℕ} {m : HashMap κ (List ν)} {k : κ} {v : ν} :
    (∃ unit ∈ m.units π limit, unit.1 = k ∧ v ∈ unit.2) ↔ v ∈ (m.lookup k).getD [] := by
  constructor
  · rintro ⟨unit, hunit, rfl, hv⟩
    obtain ⟨⟨k, vs⟩, hentry, hmap⟩ := List.mem_flatMap.mp hunit
    obtain ⟨block, hblock, rfl⟩ := List.mem_map.mp hmap
    rw [(HashMap.mem_iter π m k vs).mp hentry, Option.getD_some, ← flatten_blocks limit vs]
    exact List.mem_flatten.mpr ⟨block, hblock, hv⟩
  · intro hv
    cases hlookup : m.lookup k with
    | none =>
      rw [hlookup] at hv
      cases hv
    | some vs =>
      rw [hlookup, Option.getD_some, ← flatten_blocks limit vs] at hv
      obtain ⟨block, hblock, hv⟩ := List.mem_flatten.mp hv
      exact ⟨(k, block), List.mem_flatMap.mpr ⟨(k, vs), (HashMap.mem_iter π m k vs).mpr hlookup,
        List.mem_map.mpr ⟨block, hblock, rfl⟩⟩, rfl, hv⟩

theorem mem_units_foldl_pushAt {π : IterOrder κ} {limit : ℕ} {l : List (κ × ν)} {k : κ} {v : ν} :
    (∃ unit ∈ (l.foldl (fun m p => m.pushAt p.1 p.2) ∅ : HashMap κ (List ν)).units π limit,
      unit.1 = k ∧ v ∈ unit.2) ↔ (k, v) ∈ l := by
  rw [mem_units_iff, lookup_foldl_pushAt, AList.lookup_empty, Option.getD_none, List.nil_append,
    List.mem_map]
  constructor
  · rintro ⟨p, hp, rfl⟩
    rw [List.mem_filter, decide_eq_true_eq] at hp
    rw [← hp.2]
    exact hp.1
  · intro h
    exact ⟨(k, v), List.mem_filter.mpr ⟨h, decide_eq_true rfl⟩, rfl⟩

theorem foldl_pushAt_isEmpty {l : List (κ × ν)} :
    (l.foldl (fun m p => m.pushAt p.1 p.2) (∅ : HashMap κ (List ν))).keys = [] ↔ l = [] := by
  constructor
  · intro h
    by_contra hne
    obtain ⟨p, rest, rfl⟩ := List.exists_cons_of_ne_nil hne
    have hlookup := lookup_foldl_pushAt (p :: rest) (∅ : HashMap κ (List ν)) p.1
    have hnone : ((p :: rest).foldl (fun m p => m.pushAt p.1 p.2)
        (∅ : HashMap κ (List ν))).lookup p.1 = none := by
      rw [AList.lookup_eq_none, AList.mem_keys, h]
      exact List.not_mem_nil
    rw [hnone, AList.lookup_empty, List.filter_cons, if_pos (decide_eq_true rfl)] at hlookup
    cases hlookup
  · rintro rfl
    rfl

end HashMap

end Veda.Lib
