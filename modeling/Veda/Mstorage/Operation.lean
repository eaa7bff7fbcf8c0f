import Veda.Authorization.Walk
import Veda.Onto.Lazy

set_option autoImplicit false

/-!
# Operations of the main storage

One operation of a request to the main storage, after `operation_prepare` and
`to_storage_and_queue` of `veda-mstorage`: the previous state of the individual is read, the
rights of the user are checked, the new state is computed and stored, and a message about it is
put into the queue.

## Main definitions

* `Mstorage.Server` — what a request can change.
* `Mstorage.toStorageAndQueue` — store a state and put a message into the queue.
* `Mstorage.checkRights` — the checks of the rights.
* `Mstorage.checkRequest`, `Mstorage.newState`, `Mstorage.storeState` — the parts
  of an operation.
* `Mstorage.operationPrepare` — one operation.
* `Mstorage.Server.restart` — the start of the program on what an earlier run has left.

## Main results

* `Mstorage.lookup_queueElement` — the number and the counter of a message.
* `Mstorage.toStorageAndQueue_fst`, `Mstorage.primary_toStorageAndQueue`,
  `Mstorage.queue_toStorageAndQueue`, `Mstorage.opId_toStorageAndQueue`,
  `Mstorage.info_toStorageAndQueue` — what storing a state does.
* `Mstorage.storeState_of_not_stored`, `Mstorage.storeState_of_stored`,
  `Mstorage.storeState_of_not_removed`, `Mstorage.storeState_of_removed` — what becomes
  of a new state.
* `Mstorage.operationPrepare_cases` — the ways in which an operation can answer.

## Design

The answers of `_authorize`, the outcomes of the writes, the iteration orders of the maps and the
readings of the clock are inputs. A write that fails changes nothing. The individual of a request
was parsed from JSON and so has no record of its own; the previous state has one, and it is decoded
with a given fuel. An operation stops when a getter panics or when decoding does not end. A message
of the queue is the individual that is serialised into it. Messages to the log are left out.
-/

namespace Veda.Mstorage

open Veda.Lib Veda.Onto Veda.Authorization

/-! ## Data -/

inductive IndvOp
  | put | get | getTicket | authorize | setIn | addTo | removeFrom | remove | none
  deriving DecidableEq, Repr

def IndvOp.toI64 : IndvOp → Int64
  | .put => 1
  | .get => 2
  | .getTicket => 3
  | .authorize => 8
  | .setIn => 45
  | .addTo => 47
  | .removeFrom => 48
  | .remove => 51
  | .none => 52

def IndvOp.fromI64 (value : Int64) : IndvOp :=
  if value = 1 then .put
  else if value = 2 then .get
  else if value = 51 then .remove
  else if value = 47 then .addTo
  else if value = 45 then .setIn
  else if value = 48 then .removeFrom
  else if value = 8 then .authorize
  else if value = 3 then .getTicket
  else .none

@[simp] theorem IndvOp.fromI64_toI64 (cmd : IndvOp) : IndvOp.fromI64 cmd.toI64 = cmd := by
  cases cmd <;> rfl

/-- The codes with which an operation answers. -/
inductive ResultCode
  | ok | noContent | notAuthorized | failStore | invalidIdentifier
  deriving DecidableEq, Repr

structure Response where
  id : String
  res : ResultCode
  opId : Int64
  counter : Int64
  deriving DecidableEq

/-- An answer of `_authorize` for an object, a user and the requested bits. -/
abbrev Acl := String → String → U8 → Except Int U8

/-- What the operations of one server share. -/
structure Context where
  cbor : CborParser
  fuel : ℕ
  acl : Acl
  sysUserUri : String
  useBackupDb : Bool

/-- An operation of a request. -/
structure Request where
  cmd : IndvOp
  userUri : String
  eventId : Option String
  src : Option String
  assignedSubsystems : Option Int64
  newIndv : IndividualObj
  /-- the time for `v-s:created` -/
  created : Int64
  /-- the order in which the predicates of the individual are visited -/
  order : IterOrder String

/-- How writing the operation number ends. -/
inductive PutOutcome
  | written | seekFailed | writeFailed
  deriving DecidableEq, Repr

/-- The outcomes of one call of `to_storage_and_queue`, and its time. -/
structure Outcomes where
  /-- the state is serialised and written to the main storage, or removed from it -/
  storage : Bool
  /-- the same for the backup storage -/
  backup : Bool
  /-- the message is serialised and pushed into the queue -/
  queue : Bool
  info : PutOutcome
  date : Int64
  /-- the order in which the predicates of the state are written -/
  order : IterOrder String

/-- The file with the operation number: what can be read from it, and whether it is in use. -/
structure ModuleInfo where
  saved : Option (Int64 × Int64)
  isReady : Bool
  deriving DecidableEq

/-- What an operation can change: the storages, the queue, the operation number and the saved
one. -/
structure Server where
  primary : HashMap String (List UInt8)
  backup : HashMap String (List UInt8)
  queue : List IndividualObj
  opId : Int64
  info : ModuleInfo
  deriving DecidableEq

/-- The ways in which an operation can end without an answer. -/
inductive Stop
  | panic (p : Panic)
  | outOfFuel
  deriving DecidableEq, Repr

/-! ## Storing -/

/-- Write the operation number. After a write that failed no other one is tried. -/
def ModuleInfo.putInfo (info : ModuleInfo) (out : PutOutcome) (opId committedOpId : Int64) :
    Bool × ModuleInfo :=
  if info.isReady then
    match out with
    | .written => (true, { info with saved := some (opId, committedOpId) })
    | .seekFailed => (false, info)
    | .writeFailed => (false, { info with isReady := false })
  else (false, info)

/-- The message about a change. -/
def queueElement (cmd : IndvOp) (opId : Int64) (req : Request) (newIndv : IndividualObj)
    (newState prevState : List UInt8) (updateCounter date : Int64) : IndividualObj :=
  let e : IndividualObj := { IndividualObj.empty with uri := toString opId }
  let e := e.setInteger "cmd" cmd.toI64
  let e := e.setUri "uri" newIndv.uri
  let e := if req.userUri.isEmpty then e else e.setUri "user_uri" req.userUri
  let e := if newState.isEmpty then e else e.setBinary "new_state" newState
  let e := if prevState.isEmpty then e else e.setBinary "prev_state" prevState
  let e :=
    match req.eventId with
    | some v => e.setString "event_id" v .none
    | none => e
  let e := e.setInteger "tnx_id" opId
  let src :=
    match req.src with
    | some v => if v.isEmpty then "?" else v
    | none => "?"
  let e := e.setString "src" src .none
  let e := e.addDatetime "date" date
  let e := e.addInteger "op_id" (opId + 1)
  let e := e.addInteger "u_count" updateCounter
  match req.assignedSubsystems with
  | some i => e.addInteger "assigned_subsystems" i
  | none => e

/-- The bytes of a state that is stored; a removal has none. -/
def storedState (cmd : IndvOp) (out : Outcomes) (newIndv : IndividualObj) : List UInt8 :=
  if cmd = .remove then [] else toMsgpack out.order newIndv

/-- The storages after a change. -/
def updateStorages (ctx : Context) (cmd : IndvOp) (out : Outcomes) (newIndv : IndividualObj)
    (st : Server) : Server :=
  let update (db : HashMap String (List UInt8)) :=
    if cmd = .remove then db.erase newIndv.uri
    else db.insert newIndv.uri (storedState cmd out newIndv)
  { st with
    primary := update st.primary
    backup := if ctx.useBackupDb && out.backup then update st.backup else st.backup }

def toStorageAndQueue (ctx : Context) (cmd : IndvOp) (req : Request) (out : Outcomes)
    (newIndv : IndividualObj) (prevState : List UInt8) (updateCounter : Int64) (st : Server) :
    Bool × Server :=
  if out.storage then
    let st := updateStorages ctx cmd out newIndv st
    if out.queue then
      let element := queueElement cmd st.opId req newIndv (storedState cmd out newIndv) prevState
        updateCounter out.date
      let st := { st with queue := st.queue ++ [element], opId := st.opId + 1 }
      let result := st.info.putInfo out.info st.opId st.opId
      (result.1, { st with info := result.2 })
    else (false, st)
  else (false, st)

/-! ## What storing does -/

theorem lookup_ite (c : Prop) [Decidable c] (a b : IndividualObj) (p : String) :
    (if c then a else b).resources.lookup p =
      if c then a.resources.lookup p else b.resources.lookup p := by
  split_ifs <;> rfl

theorem lookup_queueElement (cmd : IndvOp) (opId : Int64) (req : Request)
    (newIndv : IndividualObj) (newState prevState : List UInt8) (updateCounter date : Int64)
    {resources : HashMap String (List Resource)}
    (h : (queueElement cmd opId req newIndv newState prevState updateCounter date).resources =
      resources) :
    resources.lookup "op_id" = some [⟨.integer, .int (opId + 1), 0⟩] ∧
      resources.lookup "u_count" = some [⟨.integer, .int updateCounter, 0⟩] ∧
      resources.lookup "cmd" = some [⟨.integer, .int cmd.toI64, 0⟩] ∧
      resources.lookup "new_state" =
        (if newState.isEmpty then none else some [⟨.binary, .binary newState, 0⟩]) ∧
      resources.lookup "prev_state" =
        (if prevState.isEmpty then none else some [⟨.binary, .binary prevState, 0⟩]) ∧
      resources.lookup "event_id" = req.eventId.map fun v => [⟨.string, .str v .none, 0⟩] := by
  rw [← h]
  unfold queueElement
  cases req.eventId <;> cases req.assignedSubsystems <;>
    simp [IndividualObj.setInteger, IndividualObj.setUri, IndividualObj.setString,
      IndividualObj.setBinary, IndividualObj.addInteger, IndividualObj.addDatetime,
      IndividualObj.lookup_setValue, IndividualObj.lookup_addValue, lookup_ite,
      IndividualObj.empty]

section Storing

variable (ctx : Context) (cmd : IndvOp) (req : Request) (out : Outcomes)
  (newIndv : IndividualObj) (prevState : List UInt8) (updateCounter : Int64) (st : Server)

/-- Every step of a call of `to_storage_and_queue` succeeds. -/
def Outcomes.Succeeds (out : Outcomes) (info : ModuleInfo) : Prop :=
  out.storage = true ∧ out.queue = true ∧ info.isReady = true ∧ out.info = .written

instance (info : ModuleInfo) : Decidable (out.Succeeds info) :=
  inferInstanceAs (Decidable (_ ∧ _ ∧ _ ∧ _))

theorem ModuleInfo.putInfo_fst (info : ModuleInfo) (put : PutOutcome) (opId committed : Int64) :
    (info.putInfo put opId committed).1 = true ↔ info.isReady = true ∧ put = .written := by
  cases hready : info.isReady <;> cases put <;> simp [ModuleInfo.putInfo, hready]

theorem ModuleInfo.putInfo_of_written {info : ModuleInfo} (hready : info.isReady = true)
    (opId committed : Int64) :
    info.putInfo .written opId committed = (true, ⟨some (opId, committed), true⟩) := by
  simp [ModuleInfo.putInfo, hready]

@[simp] theorem queue_updateStorages :
    (updateStorages ctx cmd out newIndv st).queue = st.queue := rfl

@[simp] theorem opId_updateStorages :
    (updateStorages ctx cmd out newIndv st).opId = st.opId := rfl

@[simp] theorem info_updateStorages :
    (updateStorages ctx cmd out newIndv st).info = st.info := rfl

theorem toStorageAndQueue_fst :
    (toStorageAndQueue ctx cmd req out newIndv prevState updateCounter st).1 = true ↔
      out.Succeeds st.info := by
  unfold toStorageAndQueue Outcomes.Succeeds
  cases out.storage <;> cases out.queue <;> simp [ModuleInfo.putInfo_fst]

theorem primary_toStorageAndQueue :
    (toStorageAndQueue ctx cmd req out newIndv prevState updateCounter st).2.primary =
      if out.storage then (updateStorages ctx cmd out newIndv st).primary else st.primary := by
  unfold toStorageAndQueue
  cases out.storage <;> cases out.queue <;> rfl

theorem queue_toStorageAndQueue :
    (toStorageAndQueue ctx cmd req out newIndv prevState updateCounter st).2.queue =
      st.queue ++ if out.storage && out.queue then
        [queueElement cmd st.opId req newIndv (storedState cmd out newIndv) prevState
          updateCounter out.date] else [] := by
  unfold toStorageAndQueue
  cases out.storage <;> cases out.queue <;> simp

theorem opId_toStorageAndQueue :
    (toStorageAndQueue ctx cmd req out newIndv prevState updateCounter st).2.opId =
      if out.storage && out.queue then st.opId + 1 else st.opId := by
  unfold toStorageAndQueue
  cases out.storage <;> cases out.queue <;> rfl

theorem info_toStorageAndQueue :
    (toStorageAndQueue ctx cmd req out newIndv prevState updateCounter st).2.info =
      if out.storage && out.queue then
        (st.info.putInfo out.info (st.opId + 1) (st.opId + 1)).2 else st.info := by
  unfold toStorageAndQueue
  cases out.storage <;> cases out.queue <;> rfl

end Storing

/-! ## Commands on parts of an individual -/

/-- Apply a command to one predicate. -/
def applyPredicate (cmd : IndvOp) (indv : IndividualObj) (prev : IndividualObj)
    (predicate : String) : IndividualObj :=
  if predicate = "v-s:updateCounter" then prev
  else
    match indv.resources.lookup predicate with
    | none => prev
    | some v =>
      match cmd with
      | .addTo => prev.addUniqueResources predicate v
      | .setIn => prev.setResources predicate v
      | .removeFrom => prev.excludeAndSetResources predicate v
      | _ => prev

def indvApplyCmd (π : IterOrder String) (cmd : IndvOp) (prev indv : IndividualObj) :
    IndividualObj :=
  if prev.isEmpty then prev
  else (π.order indv.resources.keys).foldl (applyPredicate cmd indv) prev

/-! ## Rights -/

/-- `_authorize` gives exactly the requested bit. -/
def granted (acl : Acl) (uri userUri : String) (access : Access) : Bool :=
  (match acl uri userUri access.toU8 with
  | .ok answer => answer
  | .error _ => 0) = access.toU8

/-- A getter of the previous state. -/
def getPrev {ρ : Type} (ctx : Context) (g : Getter ρ) (predicate : String) (prev : Individual) :
    Except Stop (ρ × Individual) :=
  match prev.get ctx.cbor g predicate with
  | (.ok answer, prev) => .ok (answer, prev)
  | (.error p, _) => .error (.panic p)

/-- A getter of the individual of a request. -/
def getNew {ρ : Type} (g : Getter ρ) (predicate : String) (newIndv : IndividualObj) :
    Except Stop ρ :=
  match newIndv.read g predicate with
  | .ok answer => .ok answer
  | .error p => .error (.panic p)

/-- The previous state of an individual, decoded; `none` when it cannot be parsed. -/
def readPrev (ctx : Context) (prevState : List UInt8) : Except Stop (Option Individual) :=
  if prevState.isEmpty then .ok (some (.newRaw (.new [])))
  else
    match (Individual.newRaw (.new prevState)).parseRaw ctx.cbor with
    | (.error _, _) => .ok none
    | (.ok (), prev) =>
      match prev.parseAll ctx.cbor ctx.fuel with
      | some prev => .ok (some prev)
      | none => .error .outOfFuel

/-- The check of a change of an individual that exists. -/
def checkState (ctx : Context) (req : Request) (prevState : List UInt8) : Except Stop Bool :=
  if prevState.isEmpty then .ok true
  else do
    match ← getNew .getFirstBool "v-s:deleted" req.newIndv with
    | some isDeleted =>
      return !(isDeleted && !granted ctx.acl req.newIndv.uri req.userUri .canDelete)
    | none => return granted ctx.acl req.newIndv.uri req.userUri .canUpdate

/-- The types of the new state that the previous one lacks. -/
def addedTypes (prevTypes newTypes : List String) : List String :=
  newTypes.filter fun type => !prevTypes.any fun p => p = type

/-- The check of the types of a new state. -/
def checkTypes (ctx : Context) (req : Request) (prevTypes newTypes : List String) : Bool :=
  if newTypes.isEmpty && req.cmd = .put then false
  else (addedTypes prevTypes newTypes).all fun type => granted ctx.acl type req.userUri .canCreate

/-- The checks of the rights of a user. When the right to remove an individual is missing, this is
written to the log and the operation goes on. -/
def checkRights (ctx : Context) (req : Request) (prevState : List UInt8) (prev : Individual) :
    Except Stop (Bool × Individual) :=
  if req.cmd = .remove then .ok (true, prev)
  else do
    if ← checkState ctx req prevState then
      let (prevTypes, prev) ← getPrev ctx .getLiterals "rdf:type" prev
      let newTypes ← getNew .getLiterals "rdf:type" req.newIndv
      return (checkTypes ctx req (prevTypes.getD []) (newTypes.getD []), prev)
    else return (false, prev)

/-! ## The operation -/

/-- The command changes a part of an individual. -/
def IndvOp.isPartial (cmd : IndvOp) : Bool := cmd = .addTo || cmd = .setIn || cmd = .removeFrom

/-- The bytes that are stored for an individual, none when it does not exist. -/
def Server.prevState (st : Server) (id : String) : List UInt8 := (st.primary.lookup id).getD []

/-- The checks of an operation: the previous state of the individual, or the code of a refusal. -/
def checkRequest (ctx : Context) (req : Request) (st : Server) :
    Except Stop (Except ResultCode Individual) := do
  let id := req.newIndv.uri
  if id.isEmpty ∨ (utf8 id).length < 2 then return .error .invalidIdentifier
  else if req.cmd ≠ .remove ∧ req.newIndv.isEmpty then return .error .noContent
  else
    match ← readPrev ctx (st.prevState id) with
    | none => return .error .failStore
    | some prev =>
      if prev.obj.isEmpty ∧ req.cmd.isPartial then return .error .failStore
      else if ctx.sysUserUri ≠ req.userUri then do
        let (isAuthorized, prev) ← checkRights ctx req (st.prevState id) prev
        if isAuthorized then return .ok prev else return .error .notAuthorized
      else return .ok prev

/-- The individual of a request as it is stored, but for its counter. -/
def markedIndv (req : Request) : Except Stop IndividualObj :=
  if req.cmd = .put then do
    if ← getNew .isExists "v-s:created" req.newIndv then return req.newIndv
    else return req.newIndv.addDatetime "v-s:created" req.created
  else if req.cmd = .remove then return req.newIndv.setBool "v-s:deleted" true
  else return req.newIndv

/-- The state that is stored first, and its counter. -/
def newState (ctx : Context) (req : Request) (prev : Individual) :
    Except Stop (IndividualObj × Int64) := do
  let (counter, prev) ← getPrev ctx .getFirstInteger "v-s:updateCounter" prev
  let updCounter := counter.getD 0 + 1
  let newIndv ← markedIndv req
  let state := if req.cmd.isPartial then indvApplyCmd req.order req.cmd prev.obj newIndv
    else newIndv
  return (state.setInteger "v-s:updateCounter" updCounter, updCounter)

/-- Store a state and, when the command is to remove the individual, remove it. -/
def storeState (ctx : Context) (req : Request) (out₁ out₂ : Outcomes) (prevState : List UInt8)
    (state : IndividualObj) (updCounter : Int64) (st : Server) : Response × Server :=
  let failed : Response := ⟨req.newIndv.uri, .failStore, -1, -1⟩
  match toStorageAndQueue ctx .put req out₁ state prevState updCounter st with
  | (false, st) => (failed, st)
  | (true, st) =>
    if req.cmd = .remove then
      match toStorageAndQueue ctx .remove req out₂
        (state.setInteger "v-s:updateCounter" updCounter) [] updCounter st with
      | (false, st) => (failed, st)
      | (true, st) => (⟨req.newIndv.uri, .ok, st.opId, updCounter⟩, st)
    else (⟨req.newIndv.uri, .ok, st.opId, updCounter⟩, st)

/-- One operation of a request. -/
def operationPrepare (ctx : Context) (req : Request) (out₁ out₂ : Outcomes) (st : Server) :
    Except Stop (Response × Server) := do
  match ← checkRequest ctx req st with
  | .error res => return (⟨req.newIndv.uri, res, -1, -1⟩, st)
  | .ok prev =>
    let (state, updCounter) ← newState ctx req prev
    return storeState ctx req out₁ out₂ (st.prevState req.newIndv.uri) state updCounter st

section StoreState

variable (ctx : Context) {req : Request} {out₁ out₂ : Outcomes} (prevState : List UInt8)
  (state : IndividualObj) (updCounter : Int64) {st : Server}

/-- The server after the new state was handled. -/
def stored (ctx : Context) (req : Request) (out : Outcomes) (prevState : List UInt8)
    (state : IndividualObj) (updCounter : Int64) (st : Server) : Server :=
  (toStorageAndQueue ctx .put req out state prevState updCounter st).2

/-- The server after the removal was handled. -/
def removed (ctx : Context) (req : Request) (out : Outcomes) (state : IndividualObj)
    (updCounter : Int64) (st : Server) : Server :=
  (toStorageAndQueue ctx .remove req out (state.setInteger "v-s:updateCounter" updCounter) []
    updCounter st).2

theorem isReady_stored (h : out₁.Succeeds st.info) :
    (stored ctx req out₁ prevState state updCounter st).info.isReady = true := by
  obtain ⟨hstorage, hqueue, hready, hinfo⟩ := h
  rw [stored, info_toStorageAndQueue, hstorage, hqueue, hinfo, ModuleInfo.putInfo_of_written hready]
  rfl

theorem succeeds_stored (h : out₁.Succeeds st.info) :
    out₂.Succeeds (stored ctx req out₁ prevState state updCounter st).info ↔
      out₂.Succeeds st.info := by
  unfold Outcomes.Succeeds
  rw [isReady_stored ctx prevState state updCounter h, h.2.2.1]

theorem storeState_of_not_stored (h : ¬ out₁.Succeeds st.info) :
    storeState ctx req out₁ out₂ prevState state updCounter st =
      (⟨req.newIndv.uri, .failStore, -1, -1⟩,
        stored ctx req out₁ prevState state updCounter st) := by
  rw [← toStorageAndQueue_fst ctx .put req out₁ state prevState updCounter st,
    Bool.not_eq_true] at h
  unfold storeState stored
  generalize toStorageAndQueue ctx .put req out₁ state prevState updCounter st = result at h
  obtain ⟨done, st'⟩ := result
  cases h
  rfl

theorem storeState_of_stored (h : out₁.Succeeds st.info) (hcmd : req.cmd ≠ .remove) :
    storeState ctx req out₁ out₂ prevState state updCounter st =
      (⟨req.newIndv.uri, .ok, (stored ctx req out₁ prevState state updCounter st).opId,
        updCounter⟩, stored ctx req out₁ prevState state updCounter st) := by
  rw [← toStorageAndQueue_fst ctx .put req out₁ state prevState updCounter st] at h
  unfold storeState stored
  generalize toStorageAndQueue ctx .put req out₁ state prevState updCounter st = result at h
  obtain ⟨done, st'⟩ := result
  cases h
  exact if_neg hcmd

theorem storeState_of_remove (h : out₁.Succeeds st.info) (hcmd : req.cmd = .remove) :
    storeState ctx req out₁ out₂ prevState state updCounter st =
      (if out₂.Succeeds st.info then ⟨req.newIndv.uri, .ok, (removed ctx req out₂ state updCounter
          (stored ctx req out₁ prevState state updCounter st)).opId, updCounter⟩
        else ⟨req.newIndv.uri, .failStore, -1, -1⟩,
        removed ctx req out₂ state updCounter
          (stored ctx req out₁ prevState state updCounter st)) := by
  have hsecond := toStorageAndQueue_fst ctx .remove req out₂
    (state.setInteger "v-s:updateCounter" updCounter) [] updCounter
    (stored ctx req out₁ prevState state updCounter st)
  rw [succeeds_stored ctx prevState state updCounter h] at hsecond
  rw [← toStorageAndQueue_fst ctx .put req out₁ state prevState updCounter st] at h
  unfold storeState removed
  unfold stored at hsecond ⊢
  generalize toStorageAndQueue ctx .put req out₁ state prevState updCounter st = result at h hsecond
  obtain ⟨done, st'⟩ := result
  cases h
  dsimp only at hsecond ⊢
  rw [if_pos hcmd]
  generalize toStorageAndQueue ctx .remove req out₂
    (state.setInteger "v-s:updateCounter" updCounter) [] updCounter st' = result at hsecond
  obtain ⟨done, st''⟩ := result
  cases done with
  | false =>
    rw [if_neg fun h₂ => Bool.false_ne_true (hsecond.mpr h₂)]
  | true =>
    rw [if_pos (hsecond.mp rfl)]

theorem storeState_of_not_removed (h : out₁.Succeeds st.info) (hcmd : req.cmd = .remove)
    (h₂ : ¬ out₂.Succeeds st.info) :
    storeState ctx req out₁ out₂ prevState state updCounter st =
      (⟨req.newIndv.uri, .failStore, -1, -1⟩, removed ctx req out₂ state updCounter
        (stored ctx req out₁ prevState state updCounter st)) := by
  rw [storeState_of_remove ctx prevState state updCounter h hcmd, if_neg h₂]

theorem storeState_of_removed (h : out₁.Succeeds st.info) (hcmd : req.cmd = .remove)
    (h₂ : out₂.Succeeds st.info) :
    storeState ctx req out₁ out₂ prevState state updCounter st =
      (⟨req.newIndv.uri, .ok, (removed ctx req out₂ state updCounter
        (stored ctx req out₁ prevState state updCounter st)).opId, updCounter⟩,
        removed ctx req out₂ state updCounter
          (stored ctx req out₁ prevState state updCounter st)) := by
  rw [storeState_of_remove ctx prevState state updCounter h hcmd, if_pos h₂]

end StoreState

section Cases

variable {ctx : Context} {req : Request} {out₁ out₂ : Outcomes} {st : Server}

theorem checkRequest_cases {answer : Except ResultCode Individual}
    (h : checkRequest ctx req st = .ok answer) :
    (∃ res, answer = .error res ∧ res ≠ .ok) ∨
    ∃ read prev, answer = .ok prev ∧
      readPrev ctx (st.prevState req.newIndv.uri) = .ok (some read) ∧
      ¬ (read.obj.isEmpty ∧ req.cmd.isPartial) ∧
      (if ctx.sysUserUri ≠ req.userUri then
        checkRights ctx req (st.prevState req.newIndv.uri) read = .ok (true, prev)
      else read = prev) := by
  unfold checkRequest at h
  dsimp only at h
  by_cases hid : req.newIndv.uri.isEmpty ∨ (utf8 req.newIndv.uri).length < 2
  · rw [if_pos hid] at h
    exact .inl ⟨_, (Except.ok.inj h).symm, nofun⟩
  rw [if_neg hid] at h
  by_cases hcontent : req.cmd ≠ .remove ∧ req.newIndv.isEmpty
  · rw [if_pos hcontent] at h
    exact .inl ⟨_, (Except.ok.inj h).symm, nofun⟩
  rw [if_neg hcontent] at h
  cases hread : readPrev ctx (st.prevState req.newIndv.uri) with
  | error stop =>
    rw [hread] at h
    cases h
  | ok result =>
    rw [hread] at h
    cases result with
    | none => exact .inl ⟨_, (Except.ok.inj h).symm, nofun⟩
    | some read =>
      dsimp only [bind, Except.bind] at h
      split_ifs at h with hempty hneed
      · exact .inl ⟨_, (Except.ok.inj h).symm, nofun⟩
      · cases hrights : checkRights ctx req (st.prevState req.newIndv.uri) read with
        | error stop =>
          rw [hrights] at h
          cases h
        | ok rights =>
          obtain ⟨isAuthorized, prev⟩ := rights
          rw [hrights] at h
          cases isAuthorized with
          | false => exact .inl ⟨_, (Except.ok.inj h).symm, nofun⟩
          | true =>
            refine .inr ⟨read, prev, (Except.ok.inj h).symm, rfl, hempty, ?_⟩
            rw [if_pos hneed, hrights]
      · exact .inr ⟨read, read, (Except.ok.inj h).symm, rfl, hempty, by rw [if_neg hneed]⟩

theorem operationPrepare_cases {resp : Response} {st' : Server}
    (h : operationPrepare ctx req out₁ out₂ st = .ok (resp, st')) :
    (∃ res, checkRequest ctx req st = .ok (.error res) ∧ resp = ⟨req.newIndv.uri, res, -1, -1⟩ ∧
      st' = st) ∨
    ∃ prev state updCounter, checkRequest ctx req st = .ok (.ok prev) ∧
      newState ctx req prev = .ok (state, updCounter) ∧
      (resp, st') =
        storeState ctx req out₁ out₂ (st.prevState req.newIndv.uri) state updCounter st := by
  unfold operationPrepare at h
  cases hchecked : checkRequest ctx req st with
  | error stop =>
    rw [hchecked] at h
    cases h
  | ok answer =>
    rw [hchecked] at h
    cases answer with
    | error res =>
      cases h
      exact .inl ⟨res, rfl, rfl, rfl⟩
    | ok prev =>
      cases hstate : newState ctx req prev with
      | error stop =>
        change (newState ctx req prev >>= _) = _ at h
        rw [hstate] at h
        cases h
      | ok result =>
        change (newState ctx req prev >>= _) = _ at h
        rw [hstate] at h
        exact .inr ⟨prev, result.1, result.2, rfl, hstate, (Except.ok.inj h).symm⟩

theorem operationPrepare_of_checked {prev : Individual} {state : IndividualObj}
    {updCounter : Int64} (hchecked : checkRequest ctx req st = .ok (.ok prev))
    (hstate : newState ctx req prev = .ok (state, updCounter)) :
    operationPrepare ctx req out₁ out₂ st =
      .ok (storeState ctx req out₁ out₂ (st.prevState req.newIndv.uri) state updCounter st) := by
  unfold operationPrepare
  rw [hchecked]
  show (newState ctx req prev >>= _) = _
  rw [hstate]
  rfl

end Cases

/-- An operation with the outcomes of its writes. -/
structure Operation where
  ctx : Context
  req : Request
  out₁ : Outcomes
  out₂ : Outcomes

/-- The server after an operation. One that ends without an answer has changed nothing. -/
def Server.operate (st : Server) (op : Operation) : Server :=
  match operationPrepare op.ctx op.req op.out₁ op.out₂ st with
  | .ok (_, st') => st'
  | .error _ => st

/-! ## The start of the program -/

/-- Open the file with the operation number; a number is written when none can be read. -/
def ModuleInfo.reopen (info : ModuleInfo) (out : PutOutcome) : ModuleInfo :=
  match info.saved with
  | some _ => { info with isReady := true }
  | none => (ModuleInfo.putInfo { info with isReady := true } out 0 0).2

/-- The start of the program: the operation number is the committed one of the file. -/
def Server.restart (st : Server) (out : PutOutcome) : Server :=
  let info := st.info.reopen out
  { st with
    opId :=
      match info.saved with
      | some (_, committedOpId) => committedOpId
      | none => 0
    info }

end Veda.Mstorage
