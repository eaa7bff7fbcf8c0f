import Veda.Lib.Effects
import Veda.Mstorage.Operation
import Veda.NanoBpmn.ProcessSource
import Veda.Onto.Values

set_option autoImplicit false

/-!
# The storage of the process engine

The engine reads individuals and sends commands, which the main storage carries out and announces.
The announcements come back to the engine one after another.

## Main definitions

* `NanoBpmn.Message`, `NanoBpmn.World` — the announcements and the storage.
* `NanoBpmn.Services` — what the engine uses of other programs.
* `NanoBpmn.Handler` — programs that read and change the world and may stop with an error.
* `NanoBpmn.update`, `NanoBpmn.getIndividual` — commands and reading.
* `NanoBpmn.setAndStoreTokenInto`, `NanoBpmn.addAndStoreTokenInto`,
  `NanoBpmn.storeWorkOrderInto`, `NanoBpmn.storeIsCompletedInto`,
  `NanoBpmn.addRight` — the commands of the engine.

## Design

A command on parts of an individual that is not stored fails; every other one is carried out. The
marks that the main storage makes by itself (`v-s:created`, `v-s:updateCounter`) are left out, as no
handler of the engine reads them.
-/

namespace Veda.NanoBpmn

open Veda.Lib Veda.Onto
open Veda.Mstorage (IndvOp indvApplyCmd)

/-! ## The world -/

/-- The announcement of a change: the command, the signal that came with it and the new state. -/
structure Message where
  cmd : IndvOp
  src : String
  newState : IndividualObj

/-- The individuals, each under its uri, the announcements made so far, how many identifiers were made,
and the process instances for which `end_process` was called. -/
structure World where
  individuals : HashMap String IndividualObj
  queue : List Message
  made : ℕ
  ended : List String
  keyed : ∀ uri obj, individuals.lookup uri = some obj → obj.uri = uri

/-- A script with what it is run on. -/
structure Script where
  id : String
  text : String
  token : IndividualObj
  process : IndividualObj

/-- What the engine uses of other programs. -/
structure Services where
  /-- `generate_unique_uri`, by the number of calls before -/
  newUri : String → ℕ → String
  /-- the order in which predicates and nodes are visited -/
  order : IterOrder String
  /-- `get_process_source` -/
  processSource : IndividualObj → Except String IndexedNodeTree
  /-- the answer of a script that is a truth value -/
  runBool : Script → World → Option Bool
  /-- the answer of a script that is a list -/
  runList : Script → World → List String
  /-- the answer of a script that is an individual -/
  runIndividual : Script → World → Option IndividualObj
  /-- `is_start_form` -/
  isStartForm : List String → Bool

/-- A program of the engine. -/
abbrev Handler (α : Type) := EStateM String World α

/-- Go on with the answer of a computation that may fail. -/
def orStop {α : Type} : Except String α → Handler α
  | .ok a => pure a
  | .error e => throw e

/-! ## Commands -/

/-- The signal of an announcement; one without text is a question mark. -/
def signalOf (src : String) : String := if src = "" then "?" else src

/-- Store an individual and announce it. -/
def World.put (w : World) (cmd : IndvOp) (src : String) (state : IndividualObj) : World :=
  { w with
    individuals := w.individuals.insert state.uri state
    queue := w.queue ++ [⟨cmd, signalOf src, state⟩]
    keyed := by
      intro uri obj h
      by_cases huri : uri = state.uri
      · rw [huri, AList.lookup_insert] at h
        rw [huri, Option.some.inj h]
      · rw [AList.lookup_insert_ne huri] at h
        exact w.keyed uri obj h }

/-- Remove an individual. It is announced with a mark before it is removed. -/
def World.remove (w : World) (src : String) (state : IndividualObj) : World :=
  { w with
    individuals := w.individuals.erase state.uri
    queue := w.queue ++ [⟨.put, signalOf src, state.setBool "v-s:deleted" true⟩,
      ⟨.remove, signalOf src, .empty⟩]
    keyed := by
      intro uri obj h
      by_cases huri : uri = state.uri
      · rw [huri, AList.lookup_erase] at h
        cases h
      · rw [AList.lookup_erase_ne huri] at h
        exact w.keyed uri obj h }

section Program

variable (sv : Services)

/-- `update_or_err`: send a command. -/
def update (src : String) (cmd : IndvOp) (indv : IndividualObj) : Handler Unit := fun w =>
  if cmd = .put then .ok () (w.put .put src indv)
  else if cmd = .remove then .ok () (w.remove src indv)
  else if cmd.isPartial then
    match w.individuals.lookup indv.uri with
    | none => .error "update_or_err" w
    | some prev =>
      if prev.isEmpty then .error "update_or_err" w
      else .ok () (w.put .put src (indvApplyCmd sv.order cmd prev indv))
  else .error "update_or_err" w

/-- `get_individual`. -/
def getIndividual (uri : String) : Handler IndividualObj := fun w =>
  match if uri = "" then none else w.individuals.lookup uri with
  | some indv => .ok indv w
  | none => .error ("individual " ++ uri ++ " not found") w

/-- `generate_unique_uri`. -/
def generateUniqueUri (start : String) : Handler String := fun w =>
  .ok (sv.newUri start w.made) { w with made := w.made + 1 }

def setAndStoreTokenInto (destUri : String) (tokenUris : List String) : Handler Unit :=
  let indv := (IndividualObj.empty.setId destUri).remove "bpmn:hasToken"
  update sv "store-token-into" .setIn
    (tokenUris.foldl (fun indv u => indv.addUri "bpmn:hasToken" u) indv)

def addAndStoreTokenInto (destUri tokenUri : String) : Handler Unit :=
  update sv "store-token-into" .addTo
    ((IndividualObj.empty.setId destUri).addUri "bpmn:hasToken" tokenUri)

def storeWorkOrderInto (destUri workOrderUri : String) : Handler Unit :=
  update sv "store-wo-into" .setIn
    ((IndividualObj.empty.setId destUri).addUri "bpmn:hasWorkOrder" workOrderUri)

def storeIsCompletedInto (uri : String) (value : Bool) (src : String) : Handler Unit :=
  update sv src .setIn ((IndividualObj.empty.setId uri).setBool "bpmn:isCompleted" value)

def addRight (subjUri objUri : String) : Handler Unit := do
  if subjUri = "" ∨ objUri = "" then throw "empty subj_uri or obj_uri"
  else
    let uri ← generateUniqueUri sv "wd:r_"
    let right := IndividualObj.empty.setId uri
    let right := right.addUri "rdf:type" "v-s:PermissionStatement"
    let right := right.addUri "v-s:permissionObject" objUri
    let right := right.addUri "v-s:permissionSubject" subjUri
    let right := right.addBool "v-s:canRead" true
    let right := right.addBool "v-s:canUpdate" true
    update sv "add-right" .put right

end Program

/-- `is_exists_bool`. -/
def isExistsBool (indv : IndividualObj) (predicate : String) (value : Bool) : Bool :=
  (indv.valuesOf predicate).any fun r => r.value = .bool value

end Veda.NanoBpmn
