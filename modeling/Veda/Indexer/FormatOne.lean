import Veda.Indexer.KeyCounts

set_option autoImplicit false

/-!
# Grants in the first format

In the first format of the index a record has the access byte of each subject and no counts. A
grant counts the bits that it adds, and the access byte of the entry becomes the one that it
grants; the bits that were there before are only in the counters, which this format does not store.

## Main definitions

* `Indexer.Grant` — a call of `update_right_set` that grants.
* `Indexer.applyGrants` — some grants on one record, one after another.
* `Indexer.KeepsAllRights` — every subject has the bits of all its grants.

## Main results

* `Indexer.lookup_applyGrants` — the entries after some grants.
* `Indexer.keepsAllRights_iff` — when no right is lost.
-/

namespace Veda.Indexer

open Veda.Lib Veda.Authorization

/-- A grant of some bits to some subjects. -/
structure Grant where
  prevAccess : U8
  access : U8
  inSet : List String

/-- The grants are those of allow bits. -/
def AllowOnly (x : U8) : Prop := 1 ≤ x.toNat ∧ x.toNat ≤ 15

instance : DecidablePred AllowOnly := fun _ => inferInstanceAs (Decidable (_ ∧ _))

section Grants

variable (filter keyPrefix rs : String)

/-- One call of `update_right_set` that grants. -/
def applyGrant (ctx : Context) (g : Grant) : Context :=
  (updateRightSet [rs] g.inSet noMarker false filter keyPrefix g.prevAccess g.access .none
    (ctx, ∅)).1

/-- Some calls, one after another. -/
def applyGrants (ctx : Context) (gs : List Grant) : Context :=
  gs.foldl (applyGrant filter keyPrefix rs) ctx

end Grants

/-- The bits that all grants together give to a subject. -/
def granted (gs : List Grant) (s : String) : U8 :=
  gs.foldl (fun x g => if s ∈ g.inSet then x ||| g.access else x) 0

/-- The bits of the last grant to a subject. -/
def lastGranted (gs : List Grant) (s : String) : U8 :=
  gs.foldl (fun x g => if s ∈ g.inSet then g.access else x) 0

/-- **All rights are kept**: the access byte of every subject has the bits of all its grants. -/
def KeepsAllRights (filter keyPrefix rs : String) (ctx : Context) (gs : List Grant) : Prop :=
  ∀ s, accessAt (applyGrants filter keyPrefix rs ctx gs) (keyPrefix ++ filter ++ rs) s =
    granted gs s

/-! ## The keys of a record -/

theorem notMem_of_mem_splitOn {l token : List Char} {c : Char} (h : token ∈ l.splitOn c) :
    c ∉ token := by
  induction l generalizing token with
  | nil =>
    rw [List.splitOn_nil, List.mem_singleton] at h
    rw [h]
    exact List.not_mem_nil
  | cons x l ih =>
    rw [List.splitOn_cons_eq_if_modifyHead] at h
    split_ifs at h with hx
    · rcases List.mem_cons.mp h with rfl | h
      · exact List.not_mem_nil
      · exact ih h
    · cases htokens : l.splitOn c with
      | nil => exact absurd htokens (List.splitOn_ne_nil c l)
      | cons first tokens =>
        rw [htokens] at h ih
        rcases List.mem_cons.mp h with rfl | h
        · have hfirst := ih List.mem_cons_self
          have hne : c ≠ x := fun heq => hx (by rw [heq]; exact beq_self_eq_true x)
          exact fun hmem => (List.mem_cons.mp hmem).elim hne hfirst
        · exact ih (List.mem_cons_of_mem first h)

theorem key_of_drainTokens {s : String} {r : Right} : ∀ (tokens : List (List Char))
    (rights : RightSet),
    (drainTokens true (fun rights key right => rights.insert key right) tokens rights).lookup s =
      some r → rights.lookup s = some r ∨ s.toList ∈ tokens
  | [], _, h => .inl h
  | [_], _, h => .inl h
  | key :: value :: tokens, rights, h => by
    rw [drainTokens] at h
    rcases key_of_drainTokens tokens _ h with h | h
    · split_ifs at h
      · exact .inl h
      · by_cases hs : s = String.ofList key
        · right
          rw [hs, String.toList_ofList]
          exact List.mem_cons_self
        · rw [AList.lookup_insert_ne hs] at h
          exact .inl h
    · exact .inr (List.mem_cons_of_mem _ (List.mem_cons_of_mem _ h))

theorem semicolon_notMem_of_lookup {src s : String} {r : Right}
    (h : (decodeRecToRightset src ∅).2.lookup s = some r) : ';' ∉ s.toList := by
  rw [decodeRecToRightset, decodeIndexRecord] at h
  split_ifs at h
  · cases h
  · rcases key_of_drainTokens _ _ h with h | h
    · cases h
    · exact notMem_of_mem_splitOn h

theorem semicolon_notMem_of_entriesAt {ctx : Context} {key s : String} {r : Right}
    (h : (entriesAt ctx key).lookup s = some r) : ';' ∉ s.toList := by
  rw [entriesAt, readRightSet, AList.lookup_empty] at h
  dsimp only at h
  cases hrecord : ctx.storage.lookup key with
  | none =>
    rw [hrecord] at h
    cases h
  | some record =>
    rw [hrecord] at h
    exact semicolon_notMem_of_lookup h

/-! ## One grant -/

section Grant

variable {s : String} {r : Right} {x : U8}

theorem touch_grant_eq (prev : U8) {e : Option Right} (hid : ∀ r ∈ e, r.id = s) :
    (touch noMarker prev x false s e).id = s ∧ (touch noMarker prev x false s e).access = x ∧
      (touch noMarker prev x false s e).isDeleted = false := by
  cases e with
  | none => exact ⟨rfl, rfl, rfl⟩
  | some r =>
    rw [touch_grant]
    refine ⟨hid r rfl, ext_has fun a => ?_, rfl⟩
    rw [has_updateCounters]
    cases r.counters.lookup a.letter <;> simp [nextBit]

theorem iterate_touch_grant (prev : U8) {e : Option Right} (hid : ∀ r ∈ e, r.id = s) (n : ℕ) :
    ∃ r, (fun e => some (touch noMarker prev x false s e))^[n + 1] e = some r ∧ r.id = s ∧
      r.access = x ∧ r.isDeleted = false := by
  induction n with
  | zero => exact ⟨_, rfl, touch_grant_eq prev hid⟩
  | succ n ih =>
    obtain ⟨r, hr, hrid, -, -⟩ := ih
    rw [Function.iterate_succ_apply', hr]
    refine ⟨_, rfl, touch_grant_eq prev fun r' hr' => ?_⟩
    exact Option.mem_some_iff.mp hr' ▸ hrid

theorem decodeValue_one (π : IterOrder Char) (hx : r.access.toNat < 16) :
    (decodeValue s (encodeValue π r 1) true).id = s ∧
      (decodeValue s (encodeValue π r 1) true).access = r.access ∧
      (decodeValue s (encodeValue π r 1) true).isDeleted = false := by
  have hform : hexForm r 1 := .inr rfl
  have hread := decodeValue_encodeValue π s r 1 (.inl hform)
  refine ⟨hread.id_eq, ext_has fun a => ?_, hread.isDeleted_eq⟩
  rw [hread.has_access, writtenCount, if_pos hform, (readHex_eq_self _).mpr (.inl hx)]
  cases has r.access a <;> simp

end Grant

/-! ## The bits of the last grant -/

section Last

variable (gs : List Grant) (g : Grant) (s : String)

theorem lastGranted_concat :
    lastGranted (gs ++ [g]) s = if s ∈ g.inSet then g.access else lastGranted gs s := by
  rw [lastGranted, List.foldl_append]
  rfl

theorem granted_concat :
    granted (gs ++ [g]) s = if s ∈ g.inSet then granted gs s ||| g.access else granted gs s := by
  rw [granted, List.foldl_append]
  rfl

/-- A subject is listed in one of the grants. -/
def Listed (gs : List Grant) (s : String) : Prop := ∃ g ∈ gs, s ∈ g.inSet

theorem listed_concat : Listed (gs ++ [g]) s ↔ Listed gs s ∨ s ∈ g.inSet := by
  simp [Listed, or_and_right, exists_or]

variable {gs s}

theorem granted_of_not_listed (h : ¬ Listed gs s) : granted gs s = 0 := by
  induction gs using List.reverseRecOn with
  | nil => rfl
  | append_singleton gs g ih =>
    rw [listed_concat, not_or] at h
    rw [granted_concat, if_neg h.2, ih h.1]

theorem lastGranted_of_not_listed (h : ¬ Listed gs s) : lastGranted gs s = 0 := by
  induction gs using List.reverseRecOn with
  | nil => rfl
  | append_singleton gs g ih =>
    rw [listed_concat, not_or] at h
    rw [lastGranted_concat, if_neg h.2, ih h.1]

theorem granted_ne_zero (haccess : ∀ g ∈ gs, AllowOnly g.access) (h : Listed gs s) :
    granted gs s ≠ 0 := by
  induction gs using List.reverseRecOn with
  | nil => obtain ⟨g, hg, -⟩ := h; cases hg
  | append_singleton gs g ih =>
    have hrest : ∀ g ∈ gs, AllowOnly g.access := fun g hg =>
      haccess g (List.mem_append_left _ hg)
    rw [granted_concat]
    split_ifs with hs
    · intro hzero
      have hg := (haccess g (List.mem_append_right _ List.mem_cons_self)).1
      have haccess0 : g.access = 0 := by
        refine ext_has fun a => ?_
        have ha := congrArg (fun x => has x a) hzero
        rw [has_or] at ha
        exact (Bool.or_eq_false_iff.mp (ha.trans (has_zero a))).2.trans (has_zero a).symm
      rw [haccess0] at hg
      exact absurd hg (by decide)
    · exact ih hrest (((listed_concat gs g s).mp h).resolve_right hs)

end Last

/-! ## A run of grants -/

/-- The entry of a subject after some grants: there is one when the subject was listed, with the
bits of its last grant. -/
structure LastOf (gs : List Grant) (s : String) (e : Option Right) : Prop where
  isSome_iff : e.isSome ↔ Listed gs s
  entry : ∀ r ∈ e, r.id = s ∧ r.access = lastGranted gs s ∧ r.access.toNat < 16 ∧
    r.isDeleted = false

section Run

variable {filter keyPrefix rs : String} {ctx : Context} {gs : List Grant}

theorem applyGrant_eq (g : Grant) :
    applyGrant filter keyPrefix rs ctx g =
      write ctx ⟨keyPrefix ++ filter ++ rs, g.inSet, noMarker, false, g.prevAccess, g.access⟩ := by
  rw [applyGrant, updateRightSet, List.foldl_cons, List.foldl_nil, updateRecord_eq (by decide)]

theorem version_applyGrants :
    (applyGrants filter keyPrefix rs ctx gs).versionOfIndexFormat = ctx.versionOfIndexFormat := by
  induction gs using List.reverseRecOn with
  | nil => rfl
  | append_singleton gs g ih =>
    rw [applyGrants, List.foldl_append, List.foldl_cons, List.foldl_nil, ← applyGrants,
      applyGrant_eq, version_write, ih]

theorem visited_grant (key : String) {s : String} {g : Grant} (hg : AllowOnly g.access)
    {e : Option Right} (h : LastOf gs s e) :
    LastOf (gs ++ [g]) s
      (Visit.entry ⟨key, g.inSet, noMarker, false, g.prevAccess, g.access⟩ s e) := by
  unfold Visit.entry
  dsimp only
  by_cases hs : s ∈ g.inSet
  · obtain ⟨n, hn⟩ := Nat.exists_eq_add_one_of_ne_zero (List.count_pos_iff.mpr hs).ne'
    obtain ⟨r, hr, hid, haccess, hlive⟩ := iterate_touch_grant (x := g.access) g.prevAccess
      (fun r hr => (h.entry r hr).1) n
    rw [hn, hr]
    refine ⟨by simp [listed_concat, hs], fun r' hr' => ?_⟩
    obtain rfl := Option.mem_some_iff.mp hr'
    rw [lastGranted_concat, if_pos hs, haccess]
    exact ⟨hid, rfl, Nat.lt_succ_of_le hg.2, hlive⟩
  · rw [List.count_eq_zero_of_not_mem hs, Function.iterate_zero_apply]
    refine ⟨by rw [h.isSome_iff, listed_concat, or_iff_left hs], ?_⟩
    rw [lastGranted_concat, if_neg hs]
    exact h.entry

theorem LastOf.written {s : String} {e : Option Right} (h : LastOf gs s e) (π : IterOrder Char) :
    LastOf gs s ((e.filter fun r => r.isDeleted = false).map fun r =>
      decodeValue s (encodeValue π r 1) true) := by
  cases e with
  | none => exact h
  | some r =>
    obtain ⟨-, haccess, hlt, hlive⟩ := h.entry r rfl
    obtain ⟨hid', haccess', hlive'⟩ := decodeValue_one (s := s) π hlt
    rw [Option.filter_some, if_pos (decide_eq_true hlive), Option.map_some]
    refine ⟨h.isSome_iff, fun r' hr' => ?_⟩
    obtain rfl := Option.mem_some_iff.mp hr'
    rw [haccess']
    exact ⟨hid', haccess, hlt, hlive'⟩

/-- **The entries after some grants** have the bits of the last one.

**Proof sketch.** Induction on the grants, the last one apart. It visits the entries of its
subjects, which have its bits then; the others are read and written as they are. -/
theorem lookup_applyGrants (hversion : ctx.versionOfIndexFormat = 1)
    (hnew : ctx.storage.lookup (keyPrefix ++ filter ++ rs) = none)
    (haccess : ∀ g ∈ gs, AllowOnly g.access)
    (htext : ∀ s, Listed gs s → ';' ∉ s.toList) (s : String) :
    LastOf gs s ((entriesAt (applyGrants filter keyPrefix rs ctx gs)
      (keyPrefix ++ filter ++ rs)).lookup s) := by
  induction gs using List.reverseRecOn generalizing s with
  | nil =>
    have hempty : entriesAt ctx (keyPrefix ++ filter ++ rs) = ∅ := by
      rw [entriesAt, readRightSet, AList.lookup_empty, hnew]
    rw [applyGrants, List.foldl_nil, hempty, AList.lookup_empty]
    exact ⟨by simp [Listed], fun _ h => by cases h⟩
  | append_singleton gs g ih =>
    have hrest := ih (fun g hg => haccess g (List.mem_append_left _ hg))
      (fun s hs => htext s ((listed_concat gs g s).mpr (.inl hs)))
    have hg : AllowOnly g.access := haccess g (List.mem_append_right _ List.mem_cons_self)
    rw [applyGrants, List.foldl_append, List.foldl_cons, List.foldl_nil, ← applyGrants,
      applyGrant_eq]
    generalize hctx : applyGrants filter keyPrefix rs ctx gs = before at hrest
    have hbefore : before.versionOfIndexFormat = 1 := by
      rw [← hctx, version_applyGrants, hversion]
    generalize hkey : keyPrefix ++ filter ++ rs = key at hrest
    have hvisited := fun s => visited_grant key hg (hrest s)
    have hread := lookup_write_version before
      ⟨key, g.inSet, noMarker, false, g.prevAccess, g.access⟩ (fun s r hr _ => by
        rw [hbefore]
        have hentry := hvisited s
        rw [hr] at hentry
        exact ⟨(hentry.entry r rfl).1, htext s (hentry.isSome_iff.mp rfl), .inl (.inr rfl)⟩) s
    rw [hread, hbefore]
    exact (hvisited s).written _

/-- **No right is lost** exactly when the last grant to every subject has the bits of all its
grants, and no subject contains the separator.

**Proof sketch.** An id with the separator is not read of any record. Without one, the access byte
is that of the last grant. -/
theorem keepsAllRights_iff (hversion : ctx.versionOfIndexFormat = 1)
    (hnew : ctx.storage.lookup (keyPrefix ++ filter ++ rs) = none)
    (haccess : ∀ g ∈ gs, AllowOnly g.access) :
    KeepsAllRights filter keyPrefix rs ctx gs ↔
      ∀ s, Listed gs s → ';' ∉ s.toList ∧ lastGranted gs s = granted gs s := by
  have haccessAt : (∀ s, Listed gs s → ';' ∉ s.toList) → ∀ s,
      accessAt (applyGrants filter keyPrefix rs ctx gs) (keyPrefix ++ filter ++ rs) s =
        lastGranted gs s := by
    intro htext s
    have hentry := lookup_applyGrants hversion hnew haccess htext s
    rw [accessAt]
    generalize (entriesAt _ _).lookup s = e at hentry
    cases e with
    | none => exact (lastGranted_of_not_listed fun hs => nomatch hentry.isSome_iff.mpr hs).symm
    | some r => exact (hentry.entry r rfl).2.1
  constructor
  · intro hkeeps
    have htext : ∀ s, Listed gs s → ';' ∉ s.toList := by
      intro s hs
      have hne := granted_ne_zero haccess hs
      rw [← hkeeps s, accessAt] at hne
      cases hlookup : (entriesAt (applyGrants filter keyPrefix rs ctx gs)
          (keyPrefix ++ filter ++ rs)).lookup s with
      | none => rw [hlookup] at hne; exact absurd rfl hne
      | some r => exact semicolon_notMem_of_entriesAt hlookup
    intro s hs
    refine ⟨htext s hs, ?_⟩
    rw [← hkeeps s, haccessAt htext]
  · intro h s
    rw [haccessAt (fun s hs => (h s hs).1)]
    by_cases hs : Listed gs s
    · exact (h s hs).2
    · rw [lastGranted_of_not_listed hs, granted_of_not_listed hs]

end Run

/-! ## Two grants to one subject -/

/-- An index in the first format without records. -/
def emptyIndexOne : Context := ⟨∅, 1, fun _ => .stored⟩

/-- The grants of bits to one subject, one after another. -/
def grantsTo (accesses : List U8) : List Grant := accesses.map fun x => ⟨0, x, ["s"]⟩

/-- The second grant has the bit of the first one, too. -/
theorem keepsAllRights_growing :
    KeepsAllRights "" permissionPrefix "o" emptyIndexOne (grantsTo [2, 6]) := by
  refine (keepsAllRights_iff rfl rfl (by decide)).mpr fun s hs => ?_
  obtain ⟨g, hg, hs⟩ := hs
  obtain ⟨x, -, rfl⟩ := List.mem_map.mp hg
  obtain rfl := List.mem_singleton.mp hs
  exact ⟨by decide, by decide⟩

/-- **A grant of another bit** takes the place of the first one. -/
theorem not_keepsAllRights_replaced :
    ¬ KeepsAllRights "" permissionPrefix "o" emptyIndexOne (grantsTo [2, 4]) := by
  intro h
  have hs := h "s"
  revert hs
  decide +kernel

end Veda.Indexer
