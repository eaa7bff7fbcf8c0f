import Veda.NanoBpmn.Common

set_option autoImplicit false

/-!
# What tokens do at the elements of a process

## Main definitions

* `NanoBpmn.createTokenAndStore`, `NanoBpmn.checkTokensOfActivity` — tokens.
* `NanoBpmn.createWorkOrder` — work orders.
* `NanoBpmn.startProcess`, `NanoBpmn.endProcess` — process instances.
* `NanoBpmn.tokenIngoingToStartEvent`, `NanoBpmn.tokenIngoingToEndEvent`,
  `NanoBpmn.tokenIngoingToTask`, `NanoBpmn.tokenIngoingToUserTask`,
  `NanoBpmn.tokenIngoingToScriptTask`, `NanoBpmn.tokenIngoingToCallActivity`,
  `NanoBpmn.tokenIngoingToParallelGateway`,
  `NanoBpmn.tokenIngoingToXxclusiveGateway` — the elements.

## Design

A script changes nothing: the transaction in which it runs is not committed. So a script whose answer
is not used does not occur.
-/

namespace Veda.NanoBpmn

open Veda.Lib Veda.Onto
open Veda.Mstorage (IndvOp)

section Program

variable (sv : Services)

/-! ## Tokens -/

/-- The token that is stored at an element. -/
def newToken (uri processUri processInstanceUri incomingElementId elementId : String) :
    IndividualObj :=
  let token := IndividualObj.empty.setId uri
  let token := token.addUri "rdf:type" "bpmn:Token"
  let token := token.addUri "bpmn:hasProcess" processUri
  let token := token.addUri "bpmn:hasProcessInstance" processInstanceUri
  let token := token.addString "bpmn:inElementId" incomingElementId .none
  token.addString "bpmn:elementId" elementId .none

def createTokenAndStore (newTokenUri : Option String)
    (processUri processInstanceUri incomingElementId elementId : String) : Handler String := do
  let uri ← match newTokenUri with
    | some uri => pure uri
    | none => generateUniqueUri sv "wd:tk_"
  update sv "go-prepare" .put
    (newToken uri processUri processInstanceUri incomingElementId elementId)
  return uri

/-- Whether all tokens but a skipped one stand at an element. -/
def checkTokensOfActivity (activityId : String) (skippedId : Option String) :
    List String → Handler Bool
  | [] => return true
  | tokenId :: tokenIds => do
    if some tokenId = skippedId then checkTokensOfActivity activityId skippedId tokenIds
    else
      let token ← getIndividual tokenId
      match token.firstLiteral "bpmn:elementId" with
      | some elementId =>
        if elementId ≠ activityId then return false
        else checkTokensOfActivity activityId skippedId tokenIds
      | none => checkTokensOfActivity activityId skippedId tokenIds

/-! ## Work orders -/

/-- The work order that is stored for a token. -/
def newWorkOrder (uri processInstanceUri tokenUri elementId : String)
    (executorUri decisionFormUri : Option String) : IndividualObj :=
  let workOrder := IndividualObj.empty.setId uri
  let workOrder := workOrder.addUri "rdf:type" "bpmn:WorkOrder"
  let workOrder := workOrder.addUri "bpmn:hasProcessInstance" processInstanceUri
  let workOrder := workOrder.addUri "bpmn:hasToken" tokenUri
  let workOrder := workOrder.addString "bpmn:elementId" elementId .none
  let workOrder := match executorUri with
    | some uri => workOrder.addUri "bpmn:hasExecutor" uri
    | none => workOrder
  match decisionFormUri with
  | some uri => workOrder.addUri "bpmn:hasDecisionForm" uri
  | none => workOrder

def createWorkOrder (processInstanceUri tokenUri elementId : String)
    (executorUri decisionFormUri : Option String) : Handler IndividualObj := do
  let uri ← generateUniqueUri sv "wd:wo_"
  let workOrder := newWorkOrder uri processInstanceUri tokenUri elementId executorUri
    decisionFormUri
  update sv "create-wo" .put workOrder
  return workOrder

/-! ## Process instances -/

/-- Set all values of a list, so that the last one stays; binary ones are passed over. -/
def setVariable (vars : IndividualObj) (target : String) (values : List Resource) :
    IndividualObj :=
  values.foldl (fun vars r =>
    if r.rtype = .binary then vars else vars.setValue target r.rtype r.written) vars

/-- The loop of `set_vars` over the mappings of a call activity. -/
def setVars (varTag : String) (token : IndividualObj) (elementId : String)
    (processInstance : IndividualObj) (processUri : String) :
    List XNode → IndividualObj → Handler IndividualObj
  | [], vars => return vars
  | el :: els, vars => do
    match el.getAttribute "sourceExpression" with
    | .error _ => setVars varTag token elementId processInstance processUri els vars
    | .ok sourceExpression =>
      let target ← orStop (el.getAttribute "target")
      let script : Script :=
        { id := processUri ++ "+" ++ elementId ++ "+" ++ varTag
          text := sourceExpression.replace "&#39;" "'"
          token, process := processInstance }
      let w ← get
      let values := (sv.runIndividual script w).bind fun indv => indv.resources.lookup "0"
      setVars varTag token elementId processInstance processUri els <|
        match values with
        | some values => setVariable vars target values
        | none => vars

/-- The mappings of an element. -/
def mappingsOf (element : XNode) (varTag : String) : List XNode :=
  element.getIdxsOfPath varTag ["bpmn:extensionElements", varTag]

/-- The loop of `start_process` over the start events. -/
def startTokens (nt : IndexedNodeTree) : List XNode → IndividualObj → Handler IndividualObj
  | [], processInstance => return processInstance
  | el :: els, processInstance => do
    let tokenUri ← createTokenAndStore sv none nt.id processInstance.uri el.id el.id
    startTokens nt els (processInstance.addUri "bpmn:hasToken" tokenUri)

/-- The process instance that is stored when a process starts. -/
def newProcessInstance (uri : String) (parentToken : Option IndividualObj)
    (inputVariables : IndividualObj) (nt : IndexedNodeTree) : IndividualObj :=
  let processInstance := (inputVariables.setId uri).setUri "rdf:type" "bpmn:ProcessInstance"
  let processInstance := processInstance.addUri "bpmn:instanceOf" nt.id
  match parentToken with
  | some token => processInstance.addUri "bpmn:parentToken" token.uri
  | none => processInstance

/-- The start form is marked as started, and the process instance remembers it. -/
def markStartForm (startFormUri : Option String) (processInstance : IndividualObj) :
    Handler IndividualObj := do
  match startFormUri with
  | none => return processInstance
  | some form =>
    let started := (IndividualObj.empty.setId form).setUri "bpmn:hasStatus" "bpmn:Started"
    update sv "start-process" .setIn
      (started.setUri "bpmn:startedProcessInstance" processInstance.uri)
    return processInstance.addUri "bpmn:hasStartForm" form

def startProcess (startFormUri : Option String) (parentToken : Option IndividualObj)
    (inputVariables : IndividualObj) (nt : IndexedNodeTree) : Handler Unit := do
  let uri ← generateUniqueUri sv "wd:pr_"
  let processInstance ← markStartForm sv startFormUri
    (newProcessInstance uri parentToken inputVariables nt)
  let processInstance ← startTokens sv nt (nt.getIdxOfType sv.order "bpmn:startEvent")
    processInstance
  update sv "start-process" .put processInstance

/-- `get_first_literal_or_err`. -/
def firstLiteralOrErr (indv : IndividualObj) (predicate : String) : Handler String :=
  match indv.firstLiteral predicate with
  | some s => pure s
  | none => throw predicate

def endProcess (processUri : String) (processInstance : IndividualObj) : Handler Unit := do
  modify fun w => { w with ended := w.ended ++ [processInstance.uri] }
  match processInstance.firstLiteral "bpmn:parentToken" with
  | none => return
  | some parentTokenId =>
    let parentToken ← getIndividual parentTokenId
    let parentInstUri ← firstLiteralOrErr parentToken "bpmn:hasProcessInstance"
    let parentProcInst ← getIndividual parentInstUri
    let parentProcId ← firstLiteralOrErr parentProcInst "bpmn:instanceOf"
    let parentProc ← getIndividual parentProcId
    let nt ← orStop (sv.processSource parentProc)
    let parentElId ← firstLiteralOrErr parentToken "bpmn:elementId"
    let parentEl ← orStop (nt.getIdxOfId parentElId)
    match parentEl.getAttribute "calledElement" with
    | .ok _ =>
      let outVars ← setVars sv "camunda:out" .empty parentElId processInstance processUri
        (mappingsOf parentEl "camunda:out") (IndividualObj.empty.setId parentProcInst.uri)
      if outVars.isEmpty then pure ()
      else update sv "start-process" .setIn outVars
    | .error _ => pure ()
    storeIsCompletedInto sv parentTokenId true "go-prepare"

/-! ## Events and tasks -/

def tokenIngoingToStartEvent (token : IndividualObj) : Handler Unit :=
  storeIsCompletedInto sv token.uri true "go-prepare"

def tokenIngoingToEndEvent (token : IndividualObj) (elementId processUri : String)
    (processInstance : IndividualObj) : Handler Unit := do
  storeIsCompletedInto sv token.uri true "go-prepare"
  match processInstance.literals "bpmn:hasToken" with
  | none => return
  | some tokenIds =>
    if ← checkTokensOfActivity elementId (some token.uri) tokenIds then
      endProcess sv processUri processInstance
    else return

def tokenIngoingToTask (token : IndividualObj) : Handler Unit :=
  storeIsCompletedInto sv token.uri true "go-prepare"

def tokenIngoingToScriptTask (token : IndividualObj) (elementId : String)
    (processInstance : IndividualObj) (nt : IndexedNodeTree) : Handler Unit := do
  let _ ← orStop (nt.getIdxOfId elementId)
  let workOrder ← createWorkOrder sv processInstance.uri token.uri elementId none none
  storeWorkOrderInto sv token.uri workOrder.uri
  storeIsCompletedInto sv token.uri true "go-prepare"

/-- The listeners of a user task: the script for the forms, and the executors. -/
def userTaskListeners (token : IndividualObj) (elementId processUri : String)
    (processInstance : IndividualObj) :
    List XNode → Option XNode → List String → Handler (Option XNode × List String)
  | [], form, executors => return (form, executors)
  | el :: els, form, executors => do
    let event ← orStop (el.getAttribute "event")
    if event = "create" then
      userTaskListeners token elementId processUri processInstance els (some el) executors
    else if event = "assignment" then
      let w ← get
      let found := match (el.getValuesOfTag "camunda:script").head? with
        | some text => sv.runList
          { id := processUri ++ "+" ++ elementId ++ "+assigment", text, token
            process := processInstance } w
        | none => []
      userTaskListeners token elementId processUri processInstance els form (executors ++ found)
    else userTaskListeners token elementId processUri processInstance els form executors

/-- Give a right to the one to whom a literal of an appointment points, and send the form there. -/
def addReceiver (appointment : IndividualObj) (predicate : String) (form : IndividualObj) :
    Handler IndividualObj := do
  match appointment.firstLiteral predicate with
  | some p =>
    addRight sv p form.uri
    return form.addUri "v-wf:to" p
  | none => return form

/-- A form without an identifier gets a new one. -/
def identifyForm (form : IndividualObj) : Handler IndividualObj :=
  if form.uri = "" then form.setId <$> generateUniqueUri sv "wd:f_" else pure form

/-- One executor of a user task: a form and a work order are stored, and the token remembers the work
order. -/
def prepareExecutor (token : IndividualObj) (elementId processUri : String)
    (processInstance : IndividualObj) (listener : Option XNode) (executor : String) :
    Handler Unit := do
  match listener with
  | none => throw ("script create not found for element [" ++ elementId ++ "]")
  | some el =>
    let scriptId := processUri ++ "+" ++ elementId ++ "+create"
    let w ← get
    let made := (el.getValuesOfTag "camunda:script").head?.bind fun text =>
      sv.runIndividual { id := scriptId, text, token, process := processInstance } w
    match made with
    | none => throw ("fail execute script [" ++ scriptId ++ "]")
    | some form =>
      let form ← identifyForm sv form
      let form := form.setBool "v-wf:isCompleted" false
      let workOrder ← createWorkOrder sv processInstance.uri token.uri elementId (some executor)
        (some form.uri)
      let appointment ← getIndividual executor
      let form := form.setResources "v-wf:to" []
      let form ← addReceiver sv appointment "v-s:employee" form
      let form ← addReceiver sv appointment "v-s:occupation" form
      let form := form.setUri "bpmn:hasWorkOrder" workOrder.uri
      update sv "no-prepare" .put form
      storeWorkOrderInto sv token.uri workOrder.uri

/-- The loop over the executors. -/
def prepareExecutors (token : IndividualObj) (elementId processUri : String)
    (processInstance : IndividualObj) (listener : Option XNode) : List String → Handler Unit
  | [] => return
  | executor :: executors => do
    prepareExecutor sv token elementId processUri processInstance listener executor
    prepareExecutors token elementId processUri processInstance listener executors

def tokenIngoingToUserTask (token : IndividualObj) (elementId processUri : String)
    (processInstance : IndividualObj) (nt : IndexedNodeTree) : Handler Unit := do
  let element ← orStop (nt.getIdxOfId elementId)
  let (listener, executors) ← userTaskListeners sv token elementId processUri processInstance
    (element.getIdxsOfPath "camunda:taskListener"
      ["bpmn:extensionElements", "camunda:taskListener"]) none []
  prepareExecutors sv token elementId processUri processInstance listener executors

def tokenIngoingToCallActivity (token : IndividualObj) (elementId processUri : String)
    (processInstance : IndividualObj) (nt : IndexedNodeTree) : Handler Unit := do
  let element ← orStop (nt.getIdxOfId elementId)
  match element.getAttribute "calledElement" with
  | .error _ => return
  | .ok calledElement =>
    let inputVariables ← setVars sv "camunda:in" token elementId processInstance processUri
      (mappingsOf element "camunda:in") .empty
    let process ← getIndividual calledElement
    let nt ← orStop (sv.processSource process)
    startProcess sv none (some token) inputVariables nt

/-! ## Gateways -/

/-- The tokens of a list that stand at an element, and the uris of the others; the token that arrives
is skipped. -/
def splitTokens (arriving elementId : String) :
    List String → Handler (List IndividualObj × List String)
  | [] => return ([], [])
  | tokenId :: tokenIds => do
    if tokenId = arriving then splitTokens arriving elementId tokenIds
    else
      let token ← getIndividual tokenId
      let (incoming, others) ← splitTokens arriving elementId tokenIds
      match token.firstLiteral "bpmn:elementId" with
      | some id =>
        if id = elementId then return (token :: incoming, others)
        else return (incoming, tokenId :: others)
      | none => return (incoming, others)

/-- Remove tokens. -/
def removeTokens : List IndividualObj → Handler Unit
  | [] => return
  | token :: tokens => do
    update sv "" .remove token
    removeTokens tokens

def tokenIngoingToParallelGateway (token : IndividualObj) (elementId processUri : String)
    (processInstance : IndividualObj) (nt : IndexedNodeTree) : Handler Unit := do
  match processInstance.literals "bpmn:hasToken" with
  | none => return
  | some tokenIds =>
    let element ← orStop (nt.getIdxOfId elementId)
    let incoming := element.getValuesOfTag "bpmn:incoming"
    let (incomingTokens, others) ← splitTokens token.uri elementId tokenIds
    if incoming.length ≤ incomingTokens.length + 1 then
      storeIsCompletedInto sv token.uri true "go-prepare"
      removeTokens sv incomingTokens
      setAndStoreTokenInto sv processInstance.uri (token.uri :: others)
      if ← checkTokensOfActivity "bpmn:endEvent" none (token.uri :: others) then
        endProcess sv processUri processInstance
      else return
    else return

/-- The listeners of an exclusive or inclusive gateway need an attribute `event`. -/
def checkListeners : List XNode → Handler Unit
  | [] => return
  | el :: els => do
    let _ ← orStop (el.getAttribute "event")
    checkListeners els

def tokenIngoingToXxclusiveGateway (token : IndividualObj) (elementId : String)
    (nt : IndexedNodeTree) : Handler Unit := do
  let element ← orStop (nt.getIdxOfId elementId)
  checkListeners (element.getIdxsOfPath "camunda:executionListener"
    ["bpmn:extensionElements", "camunda:executionListener"])
  storeIsCompletedInto sv token.uri true "go-prepare"

end Program

end Veda.NanoBpmn
