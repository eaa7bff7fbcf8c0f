import Veda.Indexer.RightsFollow

set_option autoImplicit false

/-!
# The writes of a change

A change of any kind of individual is a list of writes, each of which rewrites the record of one
key. This file gives that list, which depends on the two states alone, and says what one write
does to the entries of its record and of the others.

## Main definitions

* `Indexer.Kind` — what is indexed of an individual: statements, memberships and filters.
* `Indexer.Visit` — one write, and what it does to the entries of its record.
* `Indexer.Kind.visits` — the writes of a change.
* `Indexer.Kind.deliver` — the delivery of a change.

## Main results

* `Indexer.Kind.prepare_eq` — the indexer makes these writes.
* `Indexer.lookup_write` — the entries after one write.
-/

namespace Veda.Indexer

open Veda.Lib Veda.Onto Veda.Authorization

/-! ## What is indexed -/

/-- What is indexed of an individual: the predicates of its resources and of the sets they are
put in, the beginning of the keys of its records, and the bits that it gives without flags. -/
structure Kind where
  prdRsc : String
  prdInSet : String
  keyPrefix : String
  defaultAccess : U8

namespace Kind

def permissionStatement : Kind :=
  ⟨"v-s:permissionObject", "v-s:permissionSubject", permissionPrefix, 0⟩

def membership : Kind :=
  ⟨"v-s:resource", "v-s:memberOf", membershipPrefix,
    Access.canCreate.toU8 ||| Access.canRead.toU8 ||| Access.canUpdate.toU8 |||
      Access.canDelete.toU8⟩

def permissionFilter : Kind := ⟨"v-s:permissionObject", "v-s:resource", filterPrefix, 0⟩

variable (k : Kind)

/-- The handling of one change of this kind. -/
def prepare (prevState newState : IndividualObj) (ctx : Context) : Except Panic Context :=
  indexRightSets prevState newState k.prdRsc k.prdInSet k.keyPrefix k.defaultAccess ctx

theorem prepare_permissionStatement :
    permissionStatement.prepare = preparePermissionStatement := rfl

theorem prepare_membership : membership.prepare = prepareMembership := rfl

theorem prepare_permissionFilter : permissionFilter.prepare = preparePermissionFilter := rfl

/-- The resources that a state lists. -/
def resources (st : Statement) : List String := (st.answer .getLiterals k.prdRsc).getD []

/-- The sets that a state lists. -/
def sets (st : Statement) : List String := (st.answer .getLiterals k.prdInSet).getD []

/-- The access byte of a state. -/
def access (st : Statement) : U8 := if st.access = 0 then k.defaultAccess else st.access

end Kind

/-- The filter that a state uses, or no text. -/
def Statement.useFilter (st : Statement) : String :=
  (st.answer .getFirstLiteral "v-s:useFilter").getD ""

/-! ## One write -/

/-- A write: its key, the entries it visits, and what the visits do. -/
structure Visit where
  key : String
  inSet : List String
  marker : Char
  isDeleted : Bool
  prevAccess : U8
  newAccess : U8

/-- The entries of the record of a key. -/
def entriesAt (ctx : Context) (key : String) : RightSet := readRightSet ctx.storage ∅ key

/-- The entries that a write puts into its record. -/
def Visit.entries (v : Visit) (rights : RightSet) : RightSet :=
  v.inSet.foldl (updateEntry v.marker v.isDeleted v.prevAccess v.newAccess) rights

/-- Rewrite the record of one key. -/
def write (ctx : Context) (v : Visit) : Context where
  storage := ctx.storage.insert v.key (nonEmptyRecord
    (encodeRightset (ctx.orders 0) (v.entries (entriesAt ctx v.key)) ctx.versionOfIndexFormat))
  versionOfIndexFormat := ctx.versionOfIndexFormat
  orders n := ctx.orders (n + 1)

theorem updateRecord_eq {mode : Cache} (hmode : mode ≠ .write) (inSet : List String)
    (marker : Char) (isDeleted : Bool) (filter keyPrefix : String) (p x : U8) (ctx : Context)
    (rs : String) :
    updateRecord inSet marker isDeleted filter keyPrefix p x mode (ctx, ∅) rs =
      (write ctx ⟨keyPrefix ++ filter ++ rs, inSet, marker, isDeleted, p, x⟩, ∅) := by
  simp only [updateRecord, if_neg hmode]
  rfl

namespace Kind

variable (k : Kind)

/-- The writes for some resources. -/
def visitsTo (filter : String) (resources inSet : List String) (marker : Char) (isDeleted : Bool)
    (p x : U8) : List Visit :=
  resources.map fun rs => ⟨k.keyPrefix ++ filter ++ rs, inSet, marker, isDeleted, p, x⟩

theorem updateRightSet_eq {mode : Cache} (hmode : mode ≠ .write) (filter : String)
    (resources inSet : List String) (marker : Char) (isDeleted : Bool) (p x : U8)
    (ctx : Context) :
    updateRightSet resources inSet marker isDeleted filter k.keyPrefix p x mode (ctx, ∅) =
      ((k.visitsTo filter resources inSet marker isDeleted p x).foldl write ctx, ∅) := by
  unfold updateRightSet visitsTo
  induction resources generalizing ctx with
  | nil => rfl
  | cons rs l ih => rw [List.foldl_cons, updateRecord_eq hmode, ih, List.map_cons, List.foldl_cons]

theorem addOrDelRightSets_eq {mode : Cache} (hmode : mode ≠ .write) (filter : String)
    (resource inSet prevResource prevInSet : List String) (marker : Char) (p x : U8)
    (isDeleted : Bool) (ctx : Context) :
    addOrDelRightSets filter resource inSet prevResource prevInSet marker p x isDeleted
        k.keyPrefix mode (ctx, ∅) =
      if isDeleted ∧ resource = [] ∧ inSet = [] then
        ((k.visitsTo filter prevResource prevInSet marker isDeleted p x).foldl write ctx, ∅)
      else ((k.visitsTo filter resource inSet marker isDeleted p x).foldl write ctx, ∅) := by
  simp only [addOrDelRightSets, getDisappeared_eq, k.updateRightSet_eq hmode, ne_eq,
    not_true_eq_false, if_false]

variable (prev st : Statement)

/-- The lists that a deletion works on. -/
def deletedLists : List String × List String :=
  if k.resources st = [] ∧ k.sets st = [] then (k.resources prev, k.sets prev)
  else (k.resources st, k.sets st)

/-- The writes that take back what the previous state granted. -/
def withdrawals : List Visit :=
  if prev.deleted then []
  else if st.deleted then
    k.visitsTo st.useFilter (k.deletedLists prev st).1 (k.deletedLists prev st).2 st.marker true
      (k.access prev) (k.access st)
  else
    k.visitsTo st.useFilter (k.resources prev) (k.sets prev) st.marker true (k.access prev)
      (k.access prev)

/-- The writes that grant what the new state grants. -/
def grants : List Visit :=
  if st.deleted then []
  else
    k.visitsTo st.useFilter (k.resources st) (k.sets st) st.marker false (k.access prev)
      (k.access st)

/-- The writes of a change. -/
def visits : List Visit := k.withdrawals prev st ++ k.grants prev st

/-- **The indexer makes the writes of a change**, one after another. -/
theorem prepare_eq (ctx : Context) :
    k.prepare prev.obj st.obj ctx = .ok ((k.visits prev st).foldl write ctx) := by
  simp only [prepare, indexRightSets, Statement.read_getFirstBool, Statement.read_getLiterals,
    Statement.read_getFirstLiteral, Statement.getAccess_eq]
  show (if st.deleted = true ∧ ¬ prev.deleted = true then
      Except.ok (addOrDelRightSets st.useFilter (k.resources st) (k.sets st) (k.resources prev)
        (k.sets prev) st.marker (k.access prev) (k.access st) st.deleted k.keyPrefix .none
        (ctx, ∅)).1
    else if ¬ st.deleted = true ∧ prev.deleted = true then
      .ok (addOrDelRightSets st.useFilter (k.resources st) (k.sets st) (k.resources prev)
        (k.sets prev) st.marker (k.access prev) (k.access st) false k.keyPrefix .read (ctx, ∅)).1
    else if ¬ st.deleted = true ∧ ¬ prev.deleted = true then
      .ok (addOrDelRightSets st.useFilter (k.resources st) (k.sets st) (k.resources prev)
        (k.sets prev) st.marker (k.access prev) (k.access st) false k.keyPrefix .read
        (if k.resources prev ≠ [] then
          addOrDelRightSets st.useFilter (k.resources prev) (k.sets prev) [] [] st.marker
            (k.access prev) (k.access prev) true k.keyPrefix .none (ctx, ∅)
        else (ctx, ∅))).1
    else .ok ctx) = _
  have hback : (if k.resources prev ≠ [] then
      addOrDelRightSets st.useFilter (k.resources prev) (k.sets prev) [] [] st.marker
        (k.access prev) (k.access prev) true k.keyPrefix .none (ctx, ∅)
      else (ctx, ∅)) =
      ((k.visitsTo st.useFilter (k.resources prev) (k.sets prev) st.marker true (k.access prev)
        (k.access prev)).foldl write ctx, ∅) := by
    by_cases h : k.resources prev = []
    · simp [h, visitsTo]
    · rw [if_pos h, k.addOrDelRightSets_eq (by decide), if_neg fun hc => h hc.2.1]
  rw [hback, k.addOrDelRightSets_eq (by decide), k.addOrDelRightSets_eq (by decide),
    k.addOrDelRightSets_eq (by decide)]
  unfold visits withdrawals grants deletedLists
  cases hd : st.deleted <;> cases hp : prev.deleted
  · simp
  · simp
  · by_cases hl : k.resources st = [] ∧ k.sets st = []
    · simp [hl]
    · simp [hl]
  · simp

end Kind

/-! ## The entries after one write -/

section Write

variable (ctx : Context) (v : Visit)

@[simp] theorem version_write :
    (write ctx v).versionOfIndexFormat = ctx.versionOfIndexFormat := rfl

theorem entriesAt_write_of_ne {key : String} (h : key ≠ v.key) :
    entriesAt (write ctx v) key = entriesAt ctx key := by
  simp only [entriesAt, write, readRightSet, AList.lookup_empty, AList.lookup_insert_ne h]

/-- The entry of a subject after the visits of a write. -/
def Visit.entry (v : Visit) (s : String) (e : Option Right) : Option Right :=
  (fun e => some (touch v.marker v.prevAccess v.newAccess v.isDeleted s e))^[v.inSet.count s] e

theorem lookup_entries (rights : RightSet) (s : String) :
    (v.entries rights).lookup s = v.entry s (rights.lookup s) :=
  lookup_foldl_updateEntry v.marker v.prevAccess v.newAccess v.isDeleted v.inSet rights s

/-- **The record of a write** holds the entries that were visited, each as it is read back from
the form of the index. -/
theorem lookup_write_version
    (hw : ∀ s r, v.entry s ((entriesAt ctx v.key).lookup s) = some r → r.isDeleted = false →
      Writable s r ctx.versionOfIndexFormat) (s : String) :
    (entriesAt (write ctx v) v.key).lookup s =
      ((v.entry s ((entriesAt ctx v.key).lookup s)).filter fun r => r.isDeleted = false).map
        fun r => decodeValue s
          (encodeValue ((ctx.orders 0).counters s) r ctx.versionOfIndexFormat) true := by
  have hdec := lookup_decode_encode (ctx.orders 0) (v.entries (entriesAt ctx v.key))
    ctx.versionOfIndexFormat
    (fun k r hk hlive => hw k r (by rw [← lookup_entries]; exact hk) hlive) s
  rw [lookup_entries] at hdec
  have hread : entriesAt (write ctx v) v.key =
      (decodeRecToRightset (encodeRightset (ctx.orders 0) (v.entries (entriesAt ctx v.key))
        ctx.versionOfIndexFormat) ∅).2 := by
    rw [entriesAt, write, readRightSet_insert, decode_nonEmptyRecord]
  rw [hread, hdec]

theorem lookup_write (hv : ctx.versionOfIndexFormat = 2)
    (hw : ∀ s r, v.entry s ((entriesAt ctx v.key).lookup s) = some r → r.isDeleted = false →
      Writable s r 2) (s : String) :
    (entriesAt (write ctx v) v.key).lookup s =
      rewritten ((ctx.orders 0).counters s) s (v.entry s ((entriesAt ctx v.key).lookup s)) := by
  rw [lookup_write_version ctx v (by rw [hv]; exact hw), hv]
  rfl

end Write

/-! ## Histories -/

/-- A change of an individual of this kind is delivered with its last state as the previous
one. -/
def Kind.deliver (k : Kind) (w : World) (c : String × Statement) : Except Panic World := do
  let ctx ← k.prepare (w.latest c.1).obj c.2.obj w.ctx
  return ⟨Function.update w.latest c.1 c.2, ctx⟩

/-- The world after a change. -/
def Kind.after (k : Kind) (w : World) (c : String × Statement) : World :=
  ⟨Function.update w.latest c.1 c.2, (k.visits (w.latest c.1) c.2).foldl write w.ctx⟩

theorem Kind.latest_after (k : Kind) (w : World) (c : String × Statement) :
    (k.after w c).latest = Function.update w.latest c.1 c.2 := rfl

theorem Kind.deliver_eq (k : Kind) (w : World) (c : String × Statement) :
    k.deliver w c = .ok (k.after w c) := by
  rw [deliver, prepare_eq]
  rfl

theorem Kind.deliver_run (k : Kind) (hist : List (String × Statement)) (w : World) :
    hist.foldlM k.deliver w = .ok (hist.foldl k.after w) := by
  induction hist generalizing w with
  | nil => rfl
  | cons c hist ih =>
    rw [List.foldlM_cons, k.deliver_eq]
    exact ih _

theorem Kind.latest_run (k : Kind) (hist : List (String × Statement)) (w : World) (id : String) :
    (hist.foldl k.after w).latest id = w.latest id ∨
      ∃ c ∈ hist, (hist.foldl k.after w).latest id = c.2 := by
  induction hist generalizing w with
  | nil => exact .inl rfl
  | cons c hist ih =>
    rcases ih (k.after w c) with h | ⟨d, hd, h⟩
    · by_cases hc : id = c.1
      · refine .inr ⟨c, List.mem_cons_self, h.trans ?_⟩
        rw [k.latest_after, hc, Function.update_self]
      · exact .inl (h.trans (by rw [k.latest_after, Function.update_of_ne hc]))
    · exact .inr ⟨d, List.mem_cons_of_mem _ hd, h⟩

end Veda.Indexer
