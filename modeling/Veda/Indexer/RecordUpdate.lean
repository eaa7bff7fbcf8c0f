import Veda.Indexer.Entries

set_option autoImplicit false

/-!
# The records that a change writes

A change of a statement without a filter rewrites the record of each of its objects. This file
lifts the step of one entry to a record and to the loop over the objects.

## Main definitions

* `Indexer.entries` — the entries of a record of the index.
* `Indexer.Holds` — every entry of the index has given references.
* `Indexer.GrantsFit`, `Indexer.WithdrawalsFit` — what the loop over the objects needs
  of every record it is about to write.

## Main results

* `Indexer.holds_grants`, `Indexer.holds_withdrawals` — the references after the loop.
-/

namespace Veda.Indexer

open Veda.Lib Veda.Authorization

/-! ## Reading the index -/

/-- The entries of the record of an object. -/
def entries (ctx : Context) (o : String) : RightSet :=
  readRightSet ctx.storage ∅ (permissionPrefix ++ o)

/-- The access byte that the record of an object gives to a subject. -/
def accessIn (ctx : Context) (o s : String) : U8 :=
  (((entries ctx o).lookup s).map Right.access).getD 0

/-- Every entry of the index is one that was read, with the given references. -/
structure Holds (ctx : Context) (cnt : String → String → Access → ℕ) : Prop where
  version : ctx.versionOfIndexFormat = 2
  tallies : ∀ o s, Tallies s (cnt o s) ((entries ctx o).lookup s)

theorem holds_empty (orders : ℕ → HashOrder) : Holds ⟨∅, 2, orders⟩ fun _ _ _ => 0 where
  version := rfl
  tallies _ _ := .absent fun _ => rfl

theorem Holds.has_accessIn {ctx : Context} {cnt : String → String → Access → ℕ}
    (h : Holds ctx cnt) (o s : String) (a : Access) :
    has (accessIn ctx o s) a = true ↔ cnt o s a ≠ 0 :=
  (h.tallies o s).has_access a

theorem Holds.congr {ctx : Context} {cnt cnt' : String → String → Access → ℕ}
    (h : Holds ctx cnt) (heq : ∀ o s a, cnt o s a = cnt' o s a) : Holds ctx cnt' := by
  obtain rfl : cnt = cnt' := funext fun o => funext fun s => funext fun a => heq o s a
  exact h

/-! ## One record -/

section Update

variable (inSet : List String) (marker : Char) (isDeleted : Bool) (prev new : U8)

/-- The step of the loop over the objects. -/
def rewriteRecord (ctx : Context) (o : String) : Context :=
  (updateRecord inSet marker isDeleted "" permissionPrefix prev new .none (ctx, ∅) o).1

theorem updateRightSet_eq {mode : Cache} (hmode : mode ≠ .write) (resources : List String)
    (ctx : Context) :
    updateRightSet resources inSet marker isDeleted "" permissionPrefix prev new mode (ctx, ∅) =
      (resources.foldl (rewriteRecord inSet marker isDeleted prev new) ctx, ∅) := by
  unfold updateRightSet
  induction resources generalizing ctx with
  | nil => rfl
  | cons o l ih =>
    have hstep : updateRecord inSet marker isDeleted "" permissionPrefix prev new mode (ctx, ∅) o =
        (rewriteRecord inSet marker isDeleted prev new ctx o, ∅) := by
      simp only [rewriteRecord, updateRecord, if_neg hmode]
      rfl
    rw [List.foldl_cons, hstep, ih, List.foldl_cons]

theorem decode_nonEmptyRecord (record : String) :
    (decodeRecToRightset (nonEmptyRecord record) ∅).2 = (decodeRecToRightset record ∅).2 := by
  unfold nonEmptyRecord
  split_ifs with h
  · rw [String.isEmpty_iff] at h
    rw [h]
    rfl
  · rfl

theorem readRightSet_insert (storage : HashMap String String) (key record : String) :
    readRightSet (storage.insert key record) ∅ key = (decodeRecToRightset record ∅).2 := by
  simp only [readRightSet, AList.lookup_empty, AList.lookup_insert]

/-- The entries of a record after the visits of a change. -/
def visited (ctx : Context) (o s : String) : Option Right :=
  (fun e => some (touch marker prev new isDeleted s e))^[inSet.count s] ((entries ctx o).lookup s)

theorem entries_rewriteRecord_of_ne (ctx : Context) {o o' : String} (h : o' ≠ o) :
    entries (rewriteRecord inSet marker isDeleted prev new ctx o) o' = entries ctx o' := by
  have hkey : permissionPrefix ++ o' ≠ permissionPrefix ++ "" ++ o := by
    rw [String.append_empty]
    exact fun he => h (String.append_right_inj _ |>.mp he)
  simp only [entries, rewriteRecord, updateRecord, readRightSet, AList.lookup_empty,
    reduceCtorEq, if_false, AList.lookup_insert_ne hkey]

theorem lookup_rewriteRecord (ctx : Context) (hv : ctx.versionOfIndexFormat = 2) (o : String)
    (hw : ∀ s r, visited inSet marker isDeleted prev new ctx o s = some r →
      r.isDeleted = false → Writable s r 2) (s : String) :
    (entries (rewriteRecord inSet marker isDeleted prev new ctx o) o).lookup s =
      rewritten ((ctx.orders 0).counters s) s
        (visited inSet marker isDeleted prev new ctx o s) := by
  have hkey : permissionPrefix ++ "" ++ o = permissionPrefix ++ o := by rw [String.append_empty]
  have hlook : ∀ s, (inSet.foldl (updateEntry marker isDeleted prev new)
      (readRightSet ctx.storage ∅ (permissionPrefix ++ o))).lookup s =
        visited inSet marker isDeleted prev new ctx o s := fun s =>
    lookup_foldl_updateEntry marker prev new isDeleted inSet _ s
  have hdec := lookup_decode_encode (ctx.orders 0)
    (inSet.foldl (updateEntry marker isDeleted prev new)
      (readRightSet ctx.storage ∅ (permissionPrefix ++ o))) 2
    (fun k r hk hlive => hw k r (by rw [← hlook]; exact hk) hlive) s
  rw [hlook] at hdec
  simp only [entries, rewriteRecord, updateRecord, hkey, hv, reduceCtorEq, if_false]
  rw [readRightSet_insert, decode_nonEmptyRecord, hdec]
  rfl

end Update

/-! ## The loop over the objects -/

section Loop

/-- A condition on every record that a loop is about to write, in the state in which it does. -/
def LoopFits (fits : RightSet → Prop) (write : Context → String → Context) :
    List String → Context → Prop
  | [], _ => True
  | o :: l, ctx => fits (entries ctx o) ∧ LoopFits fits write l (write ctx o)

instance LoopFits.instDecidable (fits : RightSet → Prop) [DecidablePred fits]
    (write : Context → String → Context) :
    ∀ l ctx, Decidable (LoopFits fits write l ctx)
  | [], _ => .isTrue trivial
  | o :: l, ctx =>
    have := LoopFits.instDecidable fits write l (write ctx o)
    inferInstanceAs (Decidable (fits (entries ctx o) ∧ LoopFits fits write l (write ctx o)))

/-- A grant fits every entry of a record. -/
def RecordGrantFits (x : U8) (inSet : List String) (rights : RightSet) : Prop :=
  ∀ s ∈ rights.keys ++ inSet, GrantFits x s (inSet.count s) (rights.lookup s)

/-- A withdrawal fits every entry of a record. -/
def RecordWithdrawalFits (p : U8) (inSet : List String) (rights : RightSet) : Prop :=
  ∀ s ∈ rights.keys, WithdrawalFits p (inSet.count s) (rights.lookup s)

instance (x : U8) : Decidable (HexStable x) := by unfold HexStable; infer_instance

instance (x : U8) (s : String) (n : ℕ) : ∀ e, Decidable (GrantFits x s n e)
  | none => by unfold GrantFits; infer_instance
  | some r => by unfold GrantFits; infer_instance

instance (p : U8) (n : ℕ) : ∀ e, Decidable (WithdrawalFits p n e)
  | none => .isTrue trivial
  | some r => decidable_of_iff (totalCount r < 2 ^ 16 ∧ (totalCount r - n * weight p < 2 →
      ∀ a ∈ Access.all, has r.access a = true →
        ¬ (has p a = true ∧ refs r a = n) → a.toU8.toNat < 16)) (by
    unfold WithdrawalFits
    simp)

instance (x : U8) (inSet : List String) : DecidablePred (RecordGrantFits x inSet) :=
  fun rights => by unfold RecordGrantFits; infer_instance

instance (p : U8) (inSet : List String) : DecidablePred (RecordWithdrawalFits p inSet) :=
  fun rights => by unfold RecordWithdrawalFits; infer_instance

variable {inSet : List String} {marker : Char} {p x : U8}

theorem RecordGrantFits.fits {rights : RightSet} (h : RecordGrantFits x inSet rights)
    (s : String) : GrantFits x s (inSet.count s) (rights.lookup s) := by
  by_cases hs : s ∈ rights.keys ++ inSet
  · exact h s hs
  · rw [List.mem_append, not_or] at hs
    rw [AList.lookup_eq_none.mpr fun hm => hs.1 (AList.mem_keys.mp hm)]
    exact .inl (List.count_eq_zero.mpr hs.2)

theorem RecordWithdrawalFits.fits {rights : RightSet} (h : RecordWithdrawalFits p inSet rights)
    (s : String) : WithdrawalFits p (inSet.count s) (rights.lookup s) := by
  by_cases hs : s ∈ rights.keys
  · exact h s hs
  · rw [AList.lookup_eq_none.mpr fun hm => hs (AList.mem_keys.mp hm)]
    trivial

theorem version_rewriteRecord (isDeleted : Bool) (ctx : Context) (o : String) :
    (rewriteRecord inSet marker isDeleted p x ctx o).versionOfIndexFormat =
      ctx.versionOfIndexFormat := by
  simp only [rewriteRecord, updateRecord, reduceCtorEq, if_false]

theorem holds_grant {ctx : Context} {cnt : String → String → Access → ℕ} (h : Holds ctx cnt)
    (o : String) (hf : RecordGrantFits x inSet (entries ctx o)) :
    Holds (rewriteRecord inSet marker false p x ctx o) fun o' s a =>
      cnt o' s a + [o].count o' * inSet.count s * bitOf x a := by
  have hstep := fun s => tallies_grant marker ((ctx.orders 0).counters s) (p := p)
    (h.tallies o s) (hf.fits s) (visited inSet marker false p x ctx o s) rfl
  refine ⟨(version_rewriteRecord false ctx o).trans h.version, fun o' s => ?_⟩
  by_cases ho : o' = o
  · subst ho
    rw [lookup_rewriteRecord inSet marker false p x ctx h.version o' fun s => (hstep s).1]
    simpa using (hstep s).2
  · rw [entries_rewriteRecord_of_ne inSet marker false p x ctx ho]
    have hcount : [o].count o' = 0 := by simpa [List.count_singleton] using fun h => ho h.symm
    simpa [hcount] using h.tallies o' s

theorem holds_withdrawal {ctx : Context} {cnt : String → String → Access → ℕ}
    (h : Holds ctx cnt) (o : String) (hf : RecordWithdrawalFits p inSet (entries ctx o))
    (hp : ∀ s a, inSet.count s * bitOf p a ≤ cnt o s a) :
    Holds (rewriteRecord inSet marker true p x ctx o) fun o' s a =>
      cnt o' s a - [o].count o' * inSet.count s * bitOf p a := by
  have hstep := fun s => tallies_withdraw marker (x := x)
    ((ctx.orders 0).counters s) (h.tallies o s) (hf.fits s) (hp s)
    (visited inSet marker true p x ctx o s) rfl
  refine ⟨(version_rewriteRecord true ctx o).trans h.version, fun o' s => ?_⟩
  by_cases ho : o' = o
  · subst ho
    rw [lookup_rewriteRecord inSet marker true p x ctx h.version o' fun s => (hstep s).1]
    simpa using (hstep s).2
  · rw [entries_rewriteRecord_of_ne inSet marker true p x ctx ho]
    have hcount : [o].count o' = 0 := by simpa [List.count_singleton] using fun h => ho h.symm
    simpa [hcount] using h.tallies o' s

/-- **Granting in the records of all objects** adds a reference for each place of an object, each
place of a subject and each bit. -/
theorem holds_grants (resources : List String) {ctx : Context}
    {cnt : String → String → Access → ℕ} (h : Holds ctx cnt)
    (hf : LoopFits (RecordGrantFits x inSet) (rewriteRecord inSet marker false p x)
      resources ctx) :
    Holds (resources.foldl (rewriteRecord inSet marker false p x) ctx) fun o s a =>
      cnt o s a + resources.count o * inSet.count s * bitOf x a := by
  induction resources generalizing ctx cnt with
  | nil => exact h.congr fun o s a => by simp
  | cons o l ih =>
    obtain ⟨hfit, hrest⟩ := hf
    refine (ih (holds_grant (p := p) h o hfit) hrest).congr fun o' s a => ?_
    rw [Nat.add_assoc, ← Nat.add_mul, ← Nat.add_mul, ← List.count_append, List.singleton_append]

/-- **Taking back in the records of all objects** removes these references, if they are all
there.

**Proof sketch.** Induction on the list of objects. The references that the first record must
have are some of those of the whole list, and the others remain for the rest of the list. -/
theorem holds_withdrawals (resources : List String) {ctx : Context}
    {cnt : String → String → Access → ℕ} (h : Holds ctx cnt)
    (hf : LoopFits (RecordWithdrawalFits p inSet) (rewriteRecord inSet marker true p x)
      resources ctx)
    (hp : ∀ o s a, resources.count o * inSet.count s * bitOf p a ≤ cnt o s a) :
    Holds (resources.foldl (rewriteRecord inSet marker true p x) ctx) fun o s a =>
      cnt o s a - resources.count o * inSet.count s * bitOf p a := by
  induction resources generalizing ctx cnt with
  | nil => exact h.congr fun o s a => by simp
  | cons o l ih =>
    obtain ⟨hfit, hrest⟩ := hf
    have hsplit : ∀ o' s a, (o :: l).count o' * inSet.count s * bitOf p a =
        [o].count o' * inSet.count s * bitOf p a + l.count o' * inSet.count s * bitOf p a := by
      intro o' s a
      rw [← Nat.add_mul, ← Nat.add_mul, ← List.count_append, List.singleton_append]
    have hfirst : ∀ s a, inSet.count s * bitOf p a ≤ cnt o s a := by
      intro s a
      have h1 := hp o s a
      rw [hsplit, List.count_singleton_self, Nat.one_mul] at h1
      omega
    refine (ih (holds_withdrawal h o hfit hfirst) hrest fun o' s a => ?_).congr
      fun o' s a => ?_
    · have h1 := hp o' s a
      rw [hsplit] at h1
      omega
    · rw [hsplit, Nat.sub_sub]

end Loop

end Veda.Indexer
