import Veda.NanoBpmn.Elements

set_option autoImplicit false

/-!
# The process engine

The engine is told of every change. A token that is completed is forwarded along the flows of its
element, a token that is not is handled at it. A decision form with a decision completes its work
order, and a work order that is completed may complete its token.

## Main definitions

* `NanoBpmn.forwardToken`, `NanoBpmn.tokenIngoingTo`, `NanoBpmn.tokenIngoingAt`,
  `NanoBpmn.prepareToken` — tokens.
* `NanoBpmn.prepareDecisionForm`, `NanoBpmn.prepareWorkOrder` — work orders.
* `NanoBpmn.prepareStartForm` — the start of a process.
* `NanoBpmn.prepare` — an announcement.
-/

namespace Veda.NanoBpmn

open Veda.Lib Veda.Onto

section Program

variable (sv : Services)

/-! ## Tokens -/

/-- The flows that leave an element, the default one last. -/
def outgoingOf (element : XNode) : List String :=
  let defaultFlow := (element.getAttribute "default").toOption.getD ""
  let outIds := (element.getValuesOfTag "bpmn:outgoing").filter fun id => id ≠ defaultFlow
  if defaultFlow = "" then outIds else outIds ++ [defaultFlow]

/-- Whether the condition of a flow lets a token pass. -/
def isForward (token process : IndividualObj) (scriptId : String) (flow : XNode) (w : World) :
    Bool :=
  let answer := (flow.getValuesOfTag "bpmn:conditionExpression").head?.bind fun text =>
    sv.runBool { id := scriptId, text, token, process } w
  answer.getD true

/-- A token goes over a flow. The first flow that is taken keeps the token, every other one gets a new
token. -/
def forwardOver (flow : XNode) (processUri processInstanceUri elementId : String)
    (prevTokenUri : Option String) : Handler (Option String) := do
  match flow.getAttribute "targetRef" with
  | .error _ => return prevTokenUri
  | .ok targetRef =>
    let forwarded ← createTokenAndStore sv prevTokenUri processUri processInstanceUri elementId
      targetRef
    if prevTokenUri = none then addAndStoreTokenInto sv processInstanceUri forwarded
    return none

/-- The loop of `forward_token` over the flows. -/
def forwardAlong (token process : IndividualObj) (nt : IndexedNodeTree)
    (processUri processInstanceUri elementId type : String) :
    List String → Option String → Handler Unit
  | [], _ => return
  | outgoingId :: outIds, prevTokenUri => do
    let flow ← orStop (nt.getIdxOfId outgoingId)
    let w ← get
    if isForward sv token process (processUri ++ "+" ++ elementId ++ "+" ++ outgoingId) flow w then
      let prevTokenUri ← forwardOver sv flow processUri processInstanceUri elementId prevTokenUri
      if type = "bpmn:exclusiveGateway" then return
      else
        forwardAlong token process nt processUri processInstanceUri elementId type outIds
          prevTokenUri
    else
      forwardAlong token process nt processUri processInstanceUri elementId type outIds prevTokenUri

def forwardToken (token : IndividualObj) : Handler Unit := do
  let processUri := token.literalOrEmpty "bpmn:hasProcess"
  let processInstanceUri := token.literalOrEmpty "bpmn:hasProcessInstance"
  let process ← getIndividual processUri
  let nt ← orStop (sv.processSource process)
  match token.firstLiteral "bpmn:elementId" with
  | none => return
  | some elementId =>
    let element ← orStop (nt.getIdxOfId elementId)
    forwardAlong sv token process nt processUri processInstanceUri elementId element.tag
      (outgoingOf element) (some token.uri)

/-- What a token does at an element of some type. -/
def tokenIngoingAt (type : String) (token : IndividualObj) (elementId processUri : String)
    (processInstance : IndividualObj) (nt : IndexedNodeTree) : Handler Unit :=
  if type = "bpmn:callActivity" then
    tokenIngoingToCallActivity sv token elementId processUri processInstance nt
  else if type = "bpmn:startEvent" then tokenIngoingToStartEvent sv token
  else if type = "bpmn:endEvent" then
    tokenIngoingToEndEvent sv token elementId processUri processInstance
  else if type = "bpmn:scriptTask" then
    tokenIngoingToScriptTask sv token elementId processInstance nt
  else if type = "bpmn:userTask" then
    tokenIngoingToUserTask sv token elementId processUri processInstance nt
  else if type = "bpmn:task" then tokenIngoingToTask sv token
  else if type = "bpmn:parallelGateway" then
    tokenIngoingToParallelGateway sv token elementId processUri processInstance nt
  else if type = "bpmn:exclusiveGateway" ∨ type = "bpmn:inclusiveGateway" then
    tokenIngoingToXxclusiveGateway sv token elementId nt
  else throw ("unknown element type [" ++ type ++ "]")

def tokenIngoingTo (token : IndividualObj) : Handler Unit := do
  let processUri := token.literalOrEmpty "bpmn:hasProcess"
  let process ← getIndividual processUri
  let processInstance ← getIndividual (token.literalOrEmpty "bpmn:hasProcessInstance")
  let nt ← orStop (sv.processSource process)
  match token.firstLiteral "bpmn:elementId" with
  | none => return
  | some elementId =>
    let element ← orStop (nt.getIdxOfId elementId)
    tokenIngoingAt sv element.tag token elementId processUri processInstance nt

def prepareToken (token : IndividualObj) (signal : String) : Handler Unit := do
  if signal ≠ "go-prepare" then return
  else if isExistsBool token "bpmn:isCompleted" true then forwardToken sv token
  else tokenIngoingTo sv token

/-! ## Work orders -/

/-- `get_literals_of_link`: the first literals of the individuals to which a predicate points. -/
def getLiteralsOfLink (indv : IndividualObj) (link field : String) (w : World) : List String :=
  ((indv.literals link).getD []).filterMap fun uri =>
    (w.individuals.lookup uri).bind fun target => target.firstLiteral field

/-- Whether all work orders but one are completed. -/
def otherWorkOrdersCompleted (workOrderUri : String) : List String → Handler Bool
  | [] => return true
  | uri :: uris => do
    let workOrder ← getIndividual uri
    if workOrder.uri ≠ workOrderUri ∧ isExistsBool workOrder "bpmn:isCompleted" true = false then
      return false
    else otherWorkOrdersCompleted workOrderUri uris

def prepareWorkOrder (workOrder : IndividualObj) (signal : String) : Handler Unit := do
  if signal ≠ "prepare-decision-form" then return
  else if isExistsBool workOrder "bpmn:isCompleted" true = false then return
  else
    let w ← get
    if ← otherWorkOrdersCompleted workOrder.uri
        (getLiteralsOfLink workOrder "bpmn:hasToken" "bpmn:hasWorkOrder" w) then
      match workOrder.firstLiteral "bpmn:hasToken" with
      | some tokenUri => storeIsCompletedInto sv tokenUri true "go-prepare"
      | none => return
    else return

def prepareDecisionForm (decisionForm : IndividualObj) (signal : String) : Handler Unit := do
  if signal ≠ "?" then return
  else
    match decisionForm.firstLiteral "v-wf:takenDecision",
        decisionForm.literals "v-wf:possibleDecisionClass" with
    | some takenDecisionUri, some possibleDecisions =>
      let takenDecision ← getIndividual takenDecisionUri
      match takenDecision.firstLiteral "rdf:type" with
      | none => return
      | some type =>
        if type ∉ possibleDecisions then return
        else
          match decisionForm.firstLiteral "bpmn:hasWorkOrder" with
          | none => return
          | some workOrderUri =>
            storeIsCompletedInto sv decisionForm.uri true "prepare-decision-form"
            storeIsCompletedInto sv workOrderUri true "prepare-decision-form"
    | _, _ => return

/-! ## Announcements -/

/-- `any_exists` for one value. -/
def anyExists (indv : IndividualObj) (predicate value : String) : Bool :=
  (indv.valuesOf predicate).any fun r =>
    match r.value with
    | .str s _ => s = value
    | .uri s => s = value
    | _ => false

def prepareStartForm (startForm : IndividualObj) : Handler Unit := do
  if anyExists startForm "bpmn:hasStatus" "bpmn:ToBeStarted" then
    match startForm.firstLiteral "bpmn:startProcess" with
    | none => return
    | some processUri =>
      let process ← getIndividual processUri
      let nt ← orStop (sv.processSource process)
      let inputVars := (((startForm.remove "bpmn:startProcess").remove "rdfs:label").remove
        "rdfs:isDefinedBy").remove "bpmn:hasStatus"
      startProcess sv (some startForm.uri) none inputVars nt
  else return

/-- `prepare_and_err`: an announcement is handled by the type of the individual. -/
def prepare (m : Message) : Handler Unit := do
  let types := (m.newState.literals "rdf:type").getD []
  if sv.isStartForm types ∧ m.src = "?" then prepareStartForm sv m.newState
  else if "bpmn:Token" ∈ types then prepareToken sv m.newState m.src
  else if "bpmn:DecisionForm" ∈ types then prepareDecisionForm sv m.newState m.src
  else if "bpmn:WorkOrder" ∈ types then prepareWorkOrder sv m.newState m.src
  else return

end Program

end Veda.NanoBpmn
