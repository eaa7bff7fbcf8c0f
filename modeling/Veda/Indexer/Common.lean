import Veda.Authorization.Formats
import Veda.Onto.Individual

set_option autoImplicit false

/-!
# The access indexer

The translation of the `veda-az-indexer` service: a change of a permission statement, a
membership or a permission filter, given by the previous and the new state of the individual,
is applied to the records of the access index.

## Main definitions

* `Indexer.Context` — the index and the format version.
* `Indexer.indexRightSets` — the handling of one change.
* `Indexer.preparePermissionStatement`, `Indexer.prepareMembership`,
  `Indexer.preparePermissionFilter` — its three instances.

## Design

The states are decoded individuals. `Context.orders` holds the iteration orders of the hash
maps that the writer of records is still going to visit, one for each record it writes.
-/

namespace Veda.Indexer

open Veda.Lib Veda.Onto Veda.Authorization

/-- The index and the version of its format. -/
structure Context where
  storage : HashMap String String
  versionOfIndexFormat : U8
  orders : ℕ → HashOrder

/-- Where a new record goes. -/
inductive Cache
  | write | read | none
  deriving DecidableEq, Repr

/-- The bits of one flag: the allow bit when it is true, the deny bit when it is false. -/
def flagAccess (can cant : Access) : Option Bool → U8
  | some true => can.toU8
  | some false => cant.toU8
  | none => 0

def getAccessFromIndividual (state : IndividualObj) : Except Panic U8 := do
  let create ← state.read .getFirstBool "v-s:canCreate"
  let read ← state.read .getFirstBool "v-s:canRead"
  let update ← state.read .getFirstBool "v-s:canUpdate"
  let delete ← state.read .getFirstBool "v-s:canDelete"
  return 0 ||| flagAccess .canCreate .cantCreate create ||| flagAccess .canRead .cantRead read |||
    flagAccess .canUpdate .cantUpdate update ||| flagAccess .canDelete .cantDelete delete

/-- The elements of `a` that are not in `b`, as the source computes them: the list that
collects them is a new one in every round of the loop, and the one returned stays empty. -/
def getDisappeared (a b : List String) : List String :=
  let delta := []
  a.foldl (fun returned rA =>
    let _delta := if rA ∈ b then [] else [rA]
    returned) delta

/-- Apply one change to the entry of a subject. -/
def updateEntry (marker : Char) (isDeleted : Bool) (prevAccess newAccess : U8)
    (newRightSet : RightSet) (inSetId : String) : RightSet :=
  match newRightSet.lookup inSetId with
  | some rr =>
    if isDeleted then
      let (counters, access) :=
        updateCounters rr.counters prevAccess (rr.access ||| prevAccess) isDeleted
      newRightSet.insert inSetId
        { rr with
          marker := marker
          access := access
          counters := counters
          isDeleted := !(access ≠ 0 ∧ counters.entries ≠ []) }
    else
      let (counters, access) := updateCounters rr.counters prevAccess newAccess isDeleted
      newRightSet.insert inSetId
        { rr with
          marker := marker
          access := access
          counters := counters
          isDeleted := isDeleted }
  | none =>
    newRightSet.insert inSetId
      { id := inSetId
        access := newAccess
        marker := marker
        isDeleted := isDeleted
        level := 0
        counters := ∅ }

/-- The record that is written when no entry is left. -/
def nonEmptyRecord (record : String) : String := if record.isEmpty then "X" else record

/-- The entries of a record before a change, from the cache or from the storage. -/
def readRightSet (storage cache : HashMap String String) (key : String) : RightSet :=
  match cache.lookup key with
  | some prevDataStr => (decodeRecToRightset prevDataStr ∅).2
  | none =>
    match storage.lookup key with
    | some prevDataStr => (decodeRecToRightset prevDataStr ∅).2
    | none => ∅

/-- Apply one change to the record of one resource. -/
def updateRecord (inSet : List String) (marker : Char) (isDeleted : Bool)
    (filter keyPrefix : String) (prevAccess newAccess : U8) (mode : Cache)
    (st : Context × HashMap String String) (rs : String) : Context × HashMap String String :=
  let (ctx, cache) := st
  let key := keyPrefix ++ filter ++ rs
  let newRightSet := inSet.foldl (updateEntry marker isDeleted prevAccess newAccess)
    (readRightSet ctx.storage cache key)
  let newRecord :=
    nonEmptyRecord (encodeRightset (ctx.orders 0) newRightSet ctx.versionOfIndexFormat)
  let ctx := { ctx with orders := fun n => ctx.orders (n + 1) }
  if mode = .write then (ctx, cache.insert key newRecord)
  else ({ ctx with storage := ctx.storage.insert key newRecord }, cache)

def updateRightSet (resources inSet : List String) (marker : Char) (isDeleted : Bool)
    (filter keyPrefix : String) (prevAccess newAccess : U8) (mode : Cache)
    (st : Context × HashMap String String) : Context × HashMap String String :=
  resources.foldl
    (updateRecord inSet marker isDeleted filter keyPrefix prevAccess newAccess mode) st

def addOrDelRightSets (useFilter : String) (resource inSet prevResource prevInSet : List String)
    (marker : Char) (prevAccess newAccess : U8) (isDeleted : Bool) (keyPrefix : String)
    (mode : Cache) (st : Context × HashMap String String) : Context × HashMap String String :=
  let removedResource := getDisappeared prevResource resource
  let removedInSet := getDisappeared prevInSet inSet
  let st :=
    if isDeleted ∧ resource = [] ∧ inSet = [] then
      updateRightSet prevResource prevInSet marker isDeleted useFilter keyPrefix prevAccess
        newAccess mode st
    else
      updateRightSet resource inSet marker isDeleted useFilter keyPrefix prevAccess newAccess
        mode st
  let st :=
    if removedResource ≠ [] then
      updateRightSet removedResource inSet marker true useFilter keyPrefix prevAccess newAccess
        mode st
    else st
  if removedInSet ≠ [] then
    updateRightSet resource removedInSet marker true useFilter keyPrefix prevAccess newAccess
      mode st
  else st

/-- Apply the change of one individual to the index. -/
def indexRightSets (prevState newState : IndividualObj) (prdRsc prdInSet keyPrefix : String)
    (defaultAccess : U8) (ctx : Context) : Except Panic Context := do
  let nIsDel := (← newState.read .getFirstBool "v-s:deleted").getD false
  let pIsDel := (← prevState.read .getFirstBool "v-s:deleted").getD false
  let nAcs ← getAccessFromIndividual newState
  let pAcs ← getAccessFromIndividual prevState
  let nAcs := if nAcs = 0 then defaultAccess else nAcs
  let pAcs := if pAcs = 0 then defaultAccess else pAcs
  let preResc := (← prevState.read .getLiterals prdRsc).getD []
  let preInSet := (← prevState.read .getLiterals prdInSet).getD []
  let useFilter := (← newState.read .getFirstLiteral "v-s:useFilter").getD ""
  let resc := (← newState.read .getLiterals prdRsc).getD []
  let inSet := (← newState.read .getLiterals prdInSet).getD []
  let ignrExcl := (← newState.read .getFirstBool "v-s:ignoreExclusive").getD false
  let isExcl := (← newState.read .getFirstBool "v-s:isExclusive").getD false
  let marker :=
    if isExcl then mIsExclusive else if ignrExcl then mIgnoreExclusive else noMarker
  if nIsDel ∧ ¬ pIsDel then
    -- deletion
    return (addOrDelRightSets useFilter resc inSet preResc preInSet marker pAcs nAcs nIsDel
      keyPrefix .none (ctx, ∅)).1
  else if ¬ nIsDel ∧ pIsDel then
    -- restoration
    return (addOrDelRightSets useFilter resc inSet preResc preInSet marker pAcs nAcs false
      keyPrefix .read (ctx, ∅)).1
  else if ¬ nIsDel ∧ ¬ pIsDel then
    -- update: take back what the previous state granted, then grant
    let st :=
      if preResc ≠ [] then
        addOrDelRightSets useFilter preResc preInSet [] [] marker pAcs pAcs true keyPrefix .none
          (ctx, ∅)
      else (ctx, ∅)
    return (addOrDelRightSets useFilter resc inSet preResc preInSet marker pAcs nAcs false
      keyPrefix .read st).1
  else return ctx

def preparePermissionStatement (prevState newState : IndividualObj) (ctx : Context) :
    Except Panic Context :=
  indexRightSets prevState newState "v-s:permissionObject" "v-s:permissionSubject"
    permissionPrefix 0 ctx

def prepareMembership (prevState newState : IndividualObj) (ctx : Context) :
    Except Panic Context :=
  indexRightSets prevState newState "v-s:resource" "v-s:memberOf" membershipPrefix
    (Access.canCreate.toU8 ||| Access.canRead.toU8 ||| Access.canUpdate.toU8 |||
      Access.canDelete.toU8) ctx

def preparePermissionFilter (prevState newState : IndividualObj) (ctx : Context) :
    Except Panic Context :=
  indexRightSets prevState newState "v-s:permissionObject" "v-s:resource" filterPrefix 0 ctx

end Veda.Indexer
