import Veda.Indexer.Visits

set_option autoImplicit false

/-!
# Reference counts by key

The index counts, under each key and for each subject, the references of the states that are in
force: the key is built from the filter and the resource that a state names. As long as every
change takes back what its previous state granted and fits the records that it meets, the counts
are the sums over the latest states.

## Main definitions

* `Indexer.CountsAt` — every entry of the index has given references.
* `Indexer.Kind.contribution` — the references of a state.
* `Indexer.Kind.TakesBack`, `Indexer.RecordsFit`, `Indexer.Kind.RunFits` — what is
  asked of a change and of a history.

## Main results

* `Indexer.CountsAt.change` — the references after a change.
* `Indexer.CountsLatest.run` — the references after a history.
-/

namespace Veda.Indexer

open Veda.Lib Veda.Onto Veda.Authorization

/-! ## One write -/

/-- Every entry of the index is one that was read, with the given references. -/
structure CountsAt (ctx : Context) (cnt : String → String → Access → ℕ) : Prop where
  version : ctx.versionOfIndexFormat = 2
  tallies : ∀ key s, Tallies s (cnt key s) ((entriesAt ctx key).lookup s)

theorem countsAt_empty (orders : ℕ → HashOrder) : CountsAt ⟨∅, 2, orders⟩ fun _ _ _ => 0 where
  version := rfl
  tallies _ _ := .absent fun _ => rfl

theorem CountsAt.congr {ctx : Context} {cnt cnt' : String → String → Access → ℕ}
    (h : CountsAt ctx cnt) (heq : ∀ key s a, cnt key s a = cnt' key s a) : CountsAt ctx cnt' := by
  obtain rfl : cnt = cnt' := funext fun key => funext fun s => funext fun a => heq key s a
  exact h

/-- The references that a write adds or takes back. -/
def Visit.references (v : Visit) (key s : String) (a : Access) : ℕ :=
  [v.key].count key * v.inSet.count s *
    bitOf (if v.isDeleted then v.prevAccess else v.newAccess) a

/-- A write fits the record that it meets. -/
def Visit.RecordFits (v : Visit) (rights : RightSet) : Prop :=
  if v.isDeleted then RecordWithdrawalFits v.prevAccess v.inSet rights
  else RecordGrantFits v.newAccess v.inSet rights

/-- Some writes, one after another, fit the records that they meet. -/
def RecordsFit : List Visit → Context → Prop
  | [], _ => True
  | v :: vs, ctx => v.RecordFits (entriesAt ctx v.key) ∧ RecordsFit vs (write ctx v)

instance (v : Visit) : DecidablePred v.RecordFits := fun rights => by
  unfold Visit.RecordFits
  infer_instance

instance RecordsFit.instDecidable : ∀ vs ctx, Decidable (RecordsFit vs ctx)
  | [], _ => .isTrue trivial
  | v :: vs, ctx =>
    have := RecordsFit.instDecidable vs (write ctx v)
    inferInstanceAs (Decidable (_ ∧ _))

section Write

variable {ctx : Context} {cnt : String → String → Access → ℕ} {v : Visit}

theorem references_of_ne {key : String} (h : key ≠ v.key) (s : String) (a : Access) :
    v.references key s a = 0 := by
  have hcount : [v.key].count key = 0 := by
    simpa [List.count_singleton] using fun he => h he.symm
  rw [Visit.references, hcount, Nat.zero_mul, Nat.zero_mul]

theorem references_self (v : Visit) (s : String) (a : Access) :
    v.references v.key s a =
      v.inSet.count s * bitOf (if v.isDeleted then v.prevAccess else v.newAccess) a := by
  rw [Visit.references, List.count_singleton_self, Nat.one_mul]

theorem CountsAt.entry_grant (h : CountsAt ctx cnt) (hdel : v.isDeleted = false)
    (hf : v.RecordFits (entriesAt ctx v.key)) (s : String) :
    (∀ r, v.entry s ((entriesAt ctx v.key).lookup s) = some r → r.isDeleted = false →
        Writable s r 2) ∧
      Tallies s (fun a => cnt v.key s a + v.references v.key s a)
        (rewritten ((ctx.orders 0).counters s) s
          (v.entry s ((entriesAt ctx v.key).lookup s))) := by
  rw [Visit.RecordFits, hdel, if_neg Bool.false_ne_true] at hf
  have hstep := tallies_grant v.marker ((ctx.orders 0).counters s) (p := v.prevAccess)
    (h.tallies v.key s) (hf.fits s) (v.entry s ((entriesAt ctx v.key).lookup s))
    (by rw [Visit.entry, hdel])
  simp only [references_self, hdel, Bool.false_eq_true, if_false]
  exact hstep

theorem CountsAt.entry_withdraw (h : CountsAt ctx cnt) (hdel : v.isDeleted = true)
    (hf : v.RecordFits (entriesAt ctx v.key))
    (hle : ∀ s a, v.references v.key s a ≤ cnt v.key s a) (s : String) :
    (∀ r, v.entry s ((entriesAt ctx v.key).lookup s) = some r → r.isDeleted = false →
        Writable s r 2) ∧
      Tallies s (fun a => cnt v.key s a - v.references v.key s a)
        (rewritten ((ctx.orders 0).counters s) s
          (v.entry s ((entriesAt ctx v.key).lookup s))) := by
  rw [Visit.RecordFits, if_pos hdel] at hf
  simp only [references_self, hdel, if_true] at hle ⊢
  exact tallies_withdraw v.marker (x := v.newAccess) ((ctx.orders 0).counters s)
    (h.tallies v.key s) (hf.fits s) (hle s) (v.entry s ((entriesAt ctx v.key).lookup s))
    (by rw [Visit.entry, hdel])

theorem CountsAt.rewrite {cnt' : String → String → Access → ℕ} (h : CountsAt ctx cnt)
    (hself : ∀ s, (∀ r, v.entry s ((entriesAt ctx v.key).lookup s) = some r →
        r.isDeleted = false → Writable s r 2) ∧
      Tallies s (cnt' v.key s) (rewritten ((ctx.orders 0).counters s) s
        (v.entry s ((entriesAt ctx v.key).lookup s))))
    (hother : ∀ key, key ≠ v.key → cnt' key = cnt key) : CountsAt (write ctx v) cnt' := by
  refine ⟨h.version, fun key s => ?_⟩
  by_cases hkey : key = v.key
  · subst hkey
    rw [lookup_write ctx v h.version fun s => (hself s).1]
    exact (hself s).2
  · rw [entriesAt_write_of_ne ctx v hkey, hother key hkey]
    exact h.tallies key s

/-- **A write that grants** adds its references. -/
theorem CountsAt.grant (h : CountsAt ctx cnt) (hdel : v.isDeleted = false)
    (hf : v.RecordFits (entriesAt ctx v.key)) :
    CountsAt (write ctx v) fun key s a => cnt key s a + v.references key s a :=
  h.rewrite (h.entry_grant hdel hf) fun key hkey => by simp [references_of_ne hkey]

/-- **A write that takes back** removes its references, if they are there. -/
theorem CountsAt.withdraw (h : CountsAt ctx cnt) (hdel : v.isDeleted = true)
    (hf : v.RecordFits (entriesAt ctx v.key))
    (hle : ∀ s a, v.references v.key s a ≤ cnt v.key s a) :
    CountsAt (write ctx v) fun key s a => cnt key s a - v.references key s a :=
  h.rewrite (h.entry_withdraw hdel hf hle) fun key hkey => by simp [references_of_ne hkey]

end Write

/-! ## The writes of a change -/

/-- The references that some writes add or take back. -/
def totalReferences (vs : List Visit) (key s : String) (a : Access) : ℕ :=
  (vs.map fun v => v.references key s a).sum

section Writes

variable {ctx : Context} {cnt : String → String → Access → ℕ}

/-- The live entries that some writes leave are written whole. -/
def WritesWhole : List Visit → Context → Prop
  | [], _ => True
  | v :: vs, ctx => (∀ s r, v.entry s ((entriesAt ctx v.key).lookup s) = some r →
    r.isDeleted = false → Writable s r 2) ∧ WritesWhole vs (write ctx v)

theorem writesWhole_append {vs us : List Visit} {ctx : Context} :
    WritesWhole (vs ++ us) ctx ↔ WritesWhole vs ctx ∧ WritesWhole us (vs.foldl write ctx) := by
  induction vs generalizing ctx with
  | nil => exact ⟨fun h => ⟨trivial, h⟩, fun h => h.2⟩
  | cons v vs ih => rw [List.cons_append, WritesWhole, WritesWhole, ih, and_assoc, List.foldl_cons]

theorem CountsAt.grants (vs : List Visit) (h : CountsAt ctx cnt)
    (hdel : ∀ v ∈ vs, v.isDeleted = false) (hf : RecordsFit vs ctx) :
    WritesWhole vs ctx ∧
      CountsAt (vs.foldl write ctx) fun key s a => cnt key s a + totalReferences vs key s a := by
  induction vs generalizing ctx cnt with
  | nil => exact ⟨trivial, h⟩
  | cons v vs ih =>
    obtain ⟨hfit, hrest⟩ := hf
    have hv := hdel v List.mem_cons_self
    obtain ⟨hwhole, hcounts⟩ := ih (h.grant hv hfit)
      (fun u hu => hdel u (List.mem_cons_of_mem _ hu)) hrest
    refine ⟨⟨fun s => (h.entry_grant hv hfit s).1, hwhole⟩, hcounts.congr fun key s a => ?_⟩
    rw [totalReferences, totalReferences, List.map_cons, List.sum_cons, Nat.add_assoc]

theorem CountsAt.withdrawals (vs : List Visit) (h : CountsAt ctx cnt)
    (hdel : ∀ v ∈ vs, v.isDeleted = true) (hf : RecordsFit vs ctx)
    (hle : ∀ key s a, totalReferences vs key s a ≤ cnt key s a) :
    WritesWhole vs ctx ∧
      CountsAt (vs.foldl write ctx) fun key s a => cnt key s a - totalReferences vs key s a := by
  induction vs generalizing ctx cnt with
  | nil => exact ⟨trivial, h⟩
  | cons v vs ih =>
    obtain ⟨hfit, hrest⟩ := hf
    have hsplit : ∀ key s a, totalReferences (v :: vs) key s a =
        v.references key s a + totalReferences vs key s a := fun key s a => by
      rw [totalReferences, totalReferences, List.map_cons, List.sum_cons]
    have hfirst : ∀ s a, v.references v.key s a ≤ cnt v.key s a := fun s a => by
      have h1 := hle v.key s a
      rw [hsplit] at h1
      omega
    have hv := hdel v List.mem_cons_self
    obtain ⟨hwhole, hcounts⟩ := ih (h.withdraw hv hfit hfirst)
      (fun u hu => hdel u (List.mem_cons_of_mem _ hu)) hrest fun key s a => by
        have h1 := hle key s a
        rw [hsplit] at h1
        omega
    refine ⟨⟨fun s => (h.entry_withdraw hv hfit hfirst s).1, hwhole⟩,
      hcounts.congr fun key s a => ?_⟩
    rw [hsplit, Nat.sub_sub]

end Writes

/-! ## What a change takes back and grants -/

namespace Kind

variable (k : Kind)

/-- The keys of some resources under a filter. -/
def keysOf (filter : String) (resources : List String) : List String :=
  resources.map fun rs => k.keyPrefix ++ filter ++ rs

/-- The keys under which a state is indexed. -/
def keys (st : Statement) : List String := k.keysOf st.useFilter (k.resources st)

/-- The references that a state in force makes under a key to a bit of a subject. -/
def contribution (st : Statement) (key s : String) (a : Access) : ℕ :=
  if st.deleted then 0 else (k.keys st).count key * (k.sets st).count s * bitOf (k.access st) a

theorem totalReferences_visitsTo (filter : String) (resources inSet : List String)
    (marker : Char) (isDeleted : Bool) (p x : U8) (key s : String) (a : Access) :
    totalReferences (k.visitsTo filter resources inSet marker isDeleted p x) key s a =
      (k.keysOf filter resources).count key * inSet.count s *
        bitOf (if isDeleted then p else x) a := by
  unfold totalReferences visitsTo keysOf
  induction resources with
  | nil => simp
  | cons rs l ih =>
    rw [List.map_cons, List.map_cons, List.sum_cons, ih, Visit.references, List.map_cons]
    dsimp only
    rw [← Nat.add_mul, ← Nat.add_mul, ← List.count_append, List.singleton_append]

variable (prev st : Statement)

/-- The lists that a change takes back, as keys and sets. -/
def withdrawn : List String × List String :=
  if st.deleted then
    (k.keysOf st.useFilter (k.deletedLists prev st).1, (k.deletedLists prev st).2)
  else (k.keysOf st.useFilter (k.resources prev), k.sets prev)

/-- A change takes back what the previous state granted: that is nothing, or the lists that it
works on name every key and set as often as the previous state does. -/
def TakesBack : Prop :=
  prev.deleted = true ∨ k.access prev = 0 ∨
    ∀ key ∈ (k.withdrawn prev st).1 ++ k.keys prev,
      ∀ s ∈ (k.withdrawn prev st).2 ++ k.sets prev,
        (k.withdrawn prev st).1.count key * (k.withdrawn prev st).2.count s =
          (k.keys prev).count key * (k.sets prev).count s

instance : Decidable (k.TakesBack prev st) := by unfold TakesBack; infer_instance

variable {k prev st}

theorem totalReferences_grants (key s : String) (a : Access) :
    totalReferences (k.grants prev st) key s a = k.contribution st key s a := by
  unfold grants contribution
  cases st.deleted with
  | true => rfl
  | false =>
    rw [if_neg Bool.false_ne_true, if_neg Bool.false_ne_true, totalReferences_visitsTo]
    rfl

theorem TakesBack.totalReferences (h : k.TakesBack prev st) (key s : String) (a : Access) :
    totalReferences (k.withdrawals prev st) key s a = k.contribution prev key s a := by
  unfold withdrawals contribution
  by_cases hp : prev.deleted = true
  · rw [if_pos hp, if_pos hp]
    rfl
  rw [if_neg hp, if_neg hp]
  have hlists : Indexer.totalReferences (if st.deleted = true then
        k.visitsTo st.useFilter (k.deletedLists prev st).1 (k.deletedLists prev st).2 st.marker
          true (k.access prev) (k.access st)
      else k.visitsTo st.useFilter (k.resources prev) (k.sets prev) st.marker true
        (k.access prev) (k.access prev)) key s a =
      (k.withdrawn prev st).1.count key * (k.withdrawn prev st).2.count s *
        bitOf (k.access prev) a := by
    unfold withdrawn
    split_ifs <;> rw [totalReferences_visitsTo] <;> rfl
  rw [hlists]
  rcases h with h | h | h
  · exact absurd h hp
  · have hbit : bitOf (k.access prev) a = 0 := by simp [h, bitOf]
    rw [hbit, Nat.mul_zero, Nat.mul_zero]
  · congr 1
    by_cases hkey : key ∈ (k.withdrawn prev st).1 ++ k.keys prev
    · by_cases hs : s ∈ (k.withdrawn prev st).2 ++ k.sets prev
      · exact h key hkey s hs
      · rw [List.mem_append, not_or] at hs
        rw [List.count_eq_zero.mpr hs.1, List.count_eq_zero.mpr hs.2, Nat.mul_zero, Nat.mul_zero]
    · rw [List.mem_append, not_or] at hkey
      rw [List.count_eq_zero.mpr hkey.1, List.count_eq_zero.mpr hkey.2, Nat.zero_mul,
        Nat.zero_mul]

theorem isDeleted_of_mem_withdrawals {v : Visit} (h : v ∈ k.withdrawals prev st) :
    v.isDeleted = true := by
  unfold withdrawals visitsTo at h
  split_ifs at h
  · cases h
  all_goals
    obtain ⟨rs, -, rfl⟩ := List.mem_map.mp h
    rfl

theorem isDeleted_of_mem_grants {v : Visit} (h : v ∈ k.grants prev st) : v.isDeleted = false := by
  unfold grants visitsTo at h
  split_ifs at h
  · cases h
  · obtain ⟨rs, -, rfl⟩ := List.mem_map.mp h
    rfl

end Kind

theorem recordsFit_append {vs us : List Visit} {ctx : Context} :
    RecordsFit (vs ++ us) ctx ↔ RecordsFit vs ctx ∧ RecordsFit us (vs.foldl write ctx) := by
  induction vs generalizing ctx with
  | nil => exact ⟨fun h => ⟨trivial, h⟩, fun h => h.2⟩
  | cons v vs ih => rw [List.cons_append, RecordsFit, RecordsFit, ih, and_assoc, List.foldl_cons]

/-- **A change** replaces the references of the previous state by those of the new one, and writes
whole entries. -/
theorem CountsAt.change {k : Kind} {prev st : Statement} {ctx : Context}
    {cnt : String → String → Access → ℕ} (h : CountsAt ctx cnt) (hback : k.TakesBack prev st)
    (hle : ∀ key s a, k.contribution prev key s a ≤ cnt key s a)
    (hf : RecordsFit (k.visits prev st) ctx) :
    WritesWhole (k.visits prev st) ctx ∧
      CountsAt ((k.visits prev st).foldl write ctx) fun key s a =>
        cnt key s a - k.contribution prev key s a + k.contribution st key s a := by
  obtain ⟨hw, hg⟩ := recordsFit_append.mp hf
  obtain ⟨hfirst, htaken⟩ := h.withdrawals (k.withdrawals prev st)
    (fun v hv => Kind.isDeleted_of_mem_withdrawals hv) hw fun key s a => by
      rw [hback.totalReferences]
      exact hle key s a
  obtain ⟨hsecond, hgranted⟩ := htaken.grants (k.grants prev st)
    (fun v hv => Kind.isDeleted_of_mem_grants hv) hg
  rw [Kind.visits, List.foldl_append]
  refine ⟨writesWhole_append.mpr ⟨hfirst, hsecond⟩, hgranted.congr fun key s a => ?_⟩
  rw [hback.totalReferences, Kind.totalReferences_grants]

/-! ## Histories -/

/-- The references of the states of some individuals. -/
def Kind.latestReferences (k : Kind) (ids : Finset String) (latest : String → Statement)
    (key s : String) (a : Access) : ℕ := ∑ id ∈ ids, k.contribution (latest id) key s a

theorem Kind.contribution_ne_zero (k : Kind) (st : Statement) (key s : String) (a : Access) :
    k.contribution st key s a ≠ 0 ↔
      st.deleted = false ∧ key ∈ k.keys st ∧ s ∈ k.sets st ∧ has (k.access st) a = true := by
  unfold contribution
  cases hd : st.deleted with
  | true => simp
  | false =>
    simp only [Bool.false_eq_true, if_false, true_and, ne_eq, Nat.mul_eq_zero, not_or, bitOf]
    rw [List.count_eq_zero, List.count_eq_zero, not_not, not_not, and_assoc]
    cases has (k.access st) a <;> simp

theorem Kind.contribution_empty (k : Kind) (key s : String) (a : Access) :
    k.contribution .empty key s a = 0 := by
  by_contra h
  have hkey := ((k.contribution_ne_zero _ _ _ _).mp h).2.1
  simp [keys, keysOf, resources, Statement.answer, IndividualObj.read, Statement.empty,
    IndividualObj.empty, Getter.getLiterals] at hkey

/-- The index counts the latest states of a set of individuals that covers all with a state. -/
structure CountsLatest (k : Kind) (ids : Finset String) (w : World) : Prop where
  cover : ∀ id ∉ ids, w.latest id = .empty
  counts : CountsAt w.ctx (k.latestReferences ids w.latest)

theorem countsLatest_initial (k : Kind) (ids : Finset String) (orders : ℕ → HashOrder) :
    CountsLatest k ids (.initial orders) := by
  refine ⟨fun _ _ => rfl, (countsAt_empty orders).congr fun key s a => ?_⟩
  exact (Finset.sum_eq_zero fun _ _ => k.contribution_empty key s a).symm

theorem CountsLatest.after {k : Kind} {ids : Finset String} {w : World}
    (h : CountsLatest k ids w) {c : String × Statement} (hid : c.1 ∈ ids)
    (hback : k.TakesBack (w.latest c.1) c.2)
    (hf : RecordsFit (k.visits (w.latest c.1) c.2) w.ctx) : CountsLatest k ids (k.after w c) := by
  constructor
  · intro id hno
    have hne : id ≠ c.1 := by
      rintro rfl
      exact hno hid
    exact (Function.update_of_ne hne _ _).trans (h.cover id hno)
  · refine (h.counts.change hback (fun key s a => ?_) hf).2.congr fun key s a => ?_
    · exact Finset.single_le_sum (f := fun id => k.contribution (w.latest id) key s a)
        (fun _ _ => Nat.zero_le _) hid
    · exact (sum_update hid w.latest c.2 (k.contribution · key s a)).symm

/-- Every change of a history takes back what its previous state granted, and fits the records
that it meets. -/
def Kind.RunFits (k : Kind) : List (String × Statement) → World → Prop
  | [], _ => True
  | c :: hist, w => (k.TakesBack (w.latest c.1) c.2 ∧
    RecordsFit (k.visits (w.latest c.1) c.2) w.ctx) ∧ k.RunFits hist (k.after w c)

instance Kind.RunFits.instDecidable (k : Kind) : ∀ hist w, Decidable (k.RunFits hist w)
  | [], _ => .isTrue trivial
  | c :: hist, w =>
    have := Kind.RunFits.instDecidable k hist (k.after w c)
    inferInstanceAs (Decidable (_ ∧ _))

theorem CountsLatest.run {k : Kind} {ids : Finset String} (hist : List (String × Statement))
    {w : World} (h : CountsLatest k ids w) (hids : ∀ c ∈ hist, c.1 ∈ ids)
    (hf : k.RunFits hist w) : CountsLatest k ids (hist.foldl k.after w) := by
  induction hist generalizing w with
  | nil => exact h
  | cons c hist ih =>
    obtain ⟨⟨hback, hfit⟩, hrest⟩ := hf
    exact ih (h.after (hids c List.mem_cons_self) hback hfit)
      (fun d hd => hids d (List.mem_cons_of_mem _ hd)) hrest

theorem CountsLatest.ne_zero_iff {k : Kind} {ids : Finset String} {w : World}
    (h : CountsLatest k ids w) (key s : String) (a : Access) :
    k.latestReferences ids w.latest key s a ≠ 0 ↔
      ∃ id, k.contribution (w.latest id) key s a ≠ 0 := by
  refine sum_ne_zero_iff (f := (k.contribution · key s a)) fun id hid => ?_
  rw [h.cover id hid, k.contribution_empty]

/-- The access byte that the record of a key gives to a subject. -/
def accessAt (ctx : Context) (key s : String) : U8 :=
  (((entriesAt ctx key).lookup s).map Right.access).getD 0

theorem CountsAt.has_accessAt {ctx : Context} {cnt : String → String → Access → ℕ}
    (h : CountsAt ctx cnt) (key s : String) (a : Access) :
    has (accessAt ctx key s) a = true ↔ cnt key s a ≠ 0 :=
  (h.tallies key s).has_access a

end Veda.Indexer
