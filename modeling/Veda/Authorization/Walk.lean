import Veda.Authorization.Formats
import Mathlib.Data.List.Infix

set_option autoImplicit false

/-!
# The access check

The translation of the access check: the groups of the subject are collected, the object and its
groups are walked, and each access control record that is met adds the bits it grants, until the
request is covered or, when tracing is on, to the end.

## Main definitions

* `Authorization.Trace` — what is traced, and the texts.
* `Authorization.getResourceGroups` — the walk over the groups of the subject.
* `Authorization.authorizeObjGroup` — one access control record.
* `Authorization.prepareObjGroup` — the walk over the groups of the object.
* `Authorization.authorize` — the check.

## Design

A function that fails returns no state, since none of its callers looks at it then. The walks are
recursive on the number of levels that are left below the level `32`, the last they enter. Texts
written to the error stream are left out.
-/

namespace Veda.Authorization

open Veda.Lib

/-! ## Tracing -/

/-- What is traced, and the texts so far. -/
structure Trace where
  acl : String
  isAcl : Bool
  group : String
  isGroup : Bool
  info : String
  isInfo : Bool
  strNum : BitVec 32

/-- No tracing. -/
def Trace.off : Trace := ⟨"", false, "", false, "", false, 0⟩

/-- Some kind of tracing is on. -/
def Trace.isOn (trace : Trace) : Bool := trace.isInfo || trace.isGroup || trace.isAcl

def printToTraceAcl (trace : Trace) (text : String) : Trace :=
  { trace with acl := trace.acl ++ text }

def printToTraceGroup (trace : Trace) (text : String) : Trace :=
  { trace with group := trace.group ++ text }

def printToTraceInfo (trace : Trace) (text : String) : Trace :=
  { trace with
    strNum := trace.strNum + 1
    info := trace.info ++ (toString (trace.strNum + 1).toNat ++ " " ++ text) }

/-- The path to an element in a tree of parents; the edges it passes are removed. -/
def getPath (mopc : HashMap String String) (el : String) : String × HashMap String String :=
  match _h : mopc.lookup el with
  | some parent =>
    let (prev, mopc) := getPath (mopc.erase el) parent
    (prev ++ "->" ++ el, mopc)
  | none => ("", mopc)
termination_by mopc.keys.length
decreasing_by
  have hmem : el ∈ mopc.keys := AList.mem_keys.mp (AList.lookup_isSome.mp (by simp [_h]))
  rw [AList.keys_erase, List.length_erase_of_mem hmem]
  have := List.length_pos_of_mem hmem
  omega

def accessToPrettyString (src : U8) : String :=
  (if src &&& 1 = 1 then "C " else "") ++ (if src &&& 2 = 2 then "R " else "") ++
  (if src &&& 4 = 4 then "U " else "") ++ (if src &&& 8 = 8 then "D " else "") ++
  (if src &&& 16 = 16 then "!C " else "") ++ (if src &&& 32 = 32 then "!R " else "") ++
  (if src &&& 64 = 64 then "!U " else "") ++ (if src &&& 128 = 128 then "!D " else "")

/-! ## The groups of the subject -/

/-- What the walk over the groups of the subject reads and writes. -/
structure SubjectWalk where
  walkedGroups : HashMap String (U8 × Char)
  treeGroups : HashMap String String
  trace : Trace
  results : HashMap String Right
  outFIsExclusive : Bool

/-- The groups that a record lists. -/
def groupsOf (src : String) : List Right := (decodeRecToRights src []).2

/-- The group was met before with these bits and this marker. -/
def walkedBefore (walked : Option (U8 × Char)) (newAccess : U8) (marker : Char) : Bool :=
  match walked with
  | some (preurAccess, m) => preurAccess &&& newAccess == newAccess && marker == m
  | none => false

/-- The marker under which a group is kept: the first one that is not empty. -/
def newGroupMarker (val : Option Right) (marker : Char) : Char :=
  match val with
  | some val => if val.marker = noMarker then marker else val.marker
  | none => marker

/-- Mark that a group of the subject is exclusive. -/
def SubjectWalk.foundExclusive (w : SubjectWalk) (id : String) : SubjectWalk :=
  let path := getPath w.treeGroups id
  { w with
    treeGroups := if w.trace.isInfo then path.2 else w.treeGroups
    trace :=
      if w.trace.isInfo then
        printToTraceInfo w.trace ("FOUND EXCLUSIVE RESTRICTIONS, PATH=" ++ path.1 ++ " \n")
      else w.trace
    outFIsExclusive := true }

/-- The body of the loop of `getResourceGroups` for one group; `walk` is the recursive call. -/
def visitSubjectGroup
    (walk : String → Bool → SubjectWalk → Except Int (Bool × SubjectWalk))
    (uri : String) (access : U8) (level : U8) (ignoreExclusive : Bool)
    (w : SubjectWalk) (group : Right) : Except Int SubjectWalk :=
  if group.id.isEmpty then .ok w
  else
    let newAccess := group.access &&& access
    let walked := w.walkedGroups.lookup group.id
    if walkedBefore walked newAccess group.marker then .ok w
    else
      let preurAccess := (walked.map Prod.fst).getD 0
      let w := { w with
        walkedGroups := w.walkedGroups.insert group.id (newAccess ||| preurAccess, group.marker)
        treeGroups := if w.trace.isInfo then w.treeGroups.insert group.id uri else w.treeGroups }
      if uri = group.id then .ok w
      else do
        let tIgnoreExclusive :=
          if !ignoreExclusive && group.marker == mIgnoreExclusive then true else ignoreExclusive
        -- the walk fails with negative codes only
        let (_, w) ← walk group.id tIgnoreExclusive w
        let w :=
          if !ignoreExclusive && group.marker == mIsExclusive then w.foundExclusive group.id else w
        return { w with
          results := w.results.insert group.id
            { id := group.id
              access := newAccess
              marker := newGroupMarker (w.results.lookup group.id) group.marker
              isDeleted := group.isDeleted
              level := level
              counters := ∅ } }

/-- The walk over the groups of the subject, with `left` levels left. -/
def getResourceGroups (db : Storage) (left : ℕ) (uri : String) (access : U8)
    (ignoreExclusive : Bool) (w : SubjectWalk) : Except Int (Bool × SubjectWalk) :=
  match left with
  | 0 => .ok (true, w)
  | left + 1 =>
    match db.get (membershipPrefix ++ uri) with
    | .ok groupsStr => do
      let w ← (groupsOf groupsStr).foldlM
        (visitSubjectGroup (fun id ignore w => getResourceGroups db left id 15 ignore w)
          uri access (BitVec.ofNat 8 (32 - left)) ignoreExclusive) w
      return (false, w)
    | .error e => if e < 0 then .error e else .ok (false, w)

/-- The levels that the walks enter. -/
def maxLevels : ℕ := 33

/-! ## The state of the check -/

structure AzContext where
  id : String
  userId : String
  requestAccess : U8
  calcRightRes : U8
  isNeedExclusiveAz : Bool
  isFoundExclusiveAz : Bool
  walkedGroupsS : HashMap String (U8 × Char)
  treeGroupsS : HashMap String String
  walkedGroupsO : HashMap String U8
  treeGroupsO : HashMap String String
  subjectGroups : HashMap String Right
  checkedGroups : HashMap String U8
  filterValue : String

/-- The context and the trace of a check that is running. -/
structure AzState where
  azc : AzContext
  trace : Trace

/-- The bits that the calculated rights lack are none: the request is covered. -/
def covers (calcRight requestAccess : U8) : Bool := calcRight &&& requestAccess == requestAccess

def finalCheck (st : AzState) : Bool × AzState :=
  let azc := st.azc
  let res :=
    if azc.isNeedExclusiveAz && azc.isFoundExclusiveAz then true else !azc.isNeedExclusiveAz
  (res,
    if st.trace.isInfo && res then
      { st with
        trace := printToTraceInfo st.trace
          ("result: uri=" ++ azc.id ++ ", user=" ++ azc.userId ++ ", request=" ++
            accessToPrettyString azc.requestAccess ++ ", answer=" ++
            accessToPrettyString azc.calcRightRes ++ "\n\n") }
    else st)

/-- The filter of an object, and the bits that it leaves to others. -/
def getFilter (id : String) (db : Storage) : Option (String × U8) :=
  match db.get (filterPrefix ++ id) with
  | .ok data =>
    if data.utf8ByteSize < 3 then some ("", 0)
    else
      match groupsOf data with
      | el :: _ => some (el.id, el.access)
      | [] => some (data, 0)
  | .error _ => none

/-! ## One access control record -/

/-- The bits that an entry grants: a bit that it also denies is not granted. -/
def permissionAccess (access : U8) : U8 :=
  if 15 < access then (((access &&& 0xF0) >>> 4) ^^^ 0x0F) &&& access else access

/-- The bit of the source's list is traced under its predicate. -/
def accessPredicate (access : U8) : String := (accessPredicateList[access.toNat]?).getD ""

/-- The lines about a permission that was found. -/
def traceFound (request permission calcBits : U8) (subjId objId : String) (st : AzState) :
    AzState :=
  let fLogStr := if st.azc.filterValue.isEmpty then "" else ", with filter " ++ st.azc.filterValue
  let oPath := getPath st.azc.treeGroupsO objId
  let sPath := getPath st.azc.treeGroupsS subjId
  let trace := printToTraceInfo st.trace
    ("found permission S:[" ++ subjId ++ "], O:[" ++ objId ++ "], access=" ++
      accessToPrettyString permission ++ " " ++ fLogStr ++ "\n")
  let trace := printToTraceInfo trace
    ("access: request=" ++ accessToPrettyString request ++ ", calc=" ++
      accessToPrettyString calcBits ++ ", total=" ++
      accessToPrettyString st.azc.calcRightRes ++ "\n")
  let trace := printToTraceInfo trace ("O-PATH" ++ oPath.1 ++ "\n")
  { azc := { st.azc with treeGroupsO := oPath.2, treeGroupsS := sPath.2 }
    trace := printToTraceInfo trace ("S-PATH" ++ sPath.1 ++ "\n") }

/-- The line about a bit of a permission that was found. -/
def traceAcl (access : U8) (subjId objId : String) (st : AzState) : AzState :=
  { st with
    trace := printToTraceAcl st.trace
      (objId ++ ";" ++ subjId ++ ";" ++ accessPredicate access ++ "\n") }

/-- What is traced about a permission that was found. -/
def tracePermission (request permission calcBits prevRes access : U8) (subjId objId : String)
    (st : AzState) : AzState :=
  let st :=
    if st.trace.isInfo && prevRes != st.azc.calcRightRes then
      traceFound request permission calcBits subjId objId st
    else st
  if st.trace.isAcl then traceAcl access subjId objId st else st

/-- The loop over the bits of one permission; it is left as soon as the request is covered. -/
def checkBits (request objAccess subjAccess permission : U8) (subjId objId : String) :
    List U8 → AzState → Bool × AzState
  | [], st => (false, st)
  | access :: bits, st =>
    if request &&& access &&& objAccess &&& subjAccess ≠ 0 then
      let calcBits := access &&& permission
      if 0 < calcBits then
        let prevRes := st.azc.calcRightRes
        let st := { st with azc := { st.azc with calcRightRes := prevRes ||| calcBits } }
        if covers st.azc.calcRightRes request && !st.trace.isOn then (true, st)
        else
          checkBits request objAccess subjAccess permission subjId objId bits
            (tracePermission request permission calcBits prevRes access subjId objId st)
      else checkBits request objAccess subjAccess permission subjId objId bits st
    else checkBits request objAccess subjAccess permission subjId objId bits st

/-- The loop over the permissions of a record. -/
def checkPermissions (request objAccess : U8) (objId : String) :
    List Right → AzState → Bool × AzState
  | [], st => (false, st)
  | permission :: permissions, st =>
    match st.azc.subjectGroups.lookup permission.id with
    | some subjGr =>
      let (res, st) := checkBits request objAccess subjGr.access
        (permissionAccess permission.access) permission.id objId access8List st
      if res then (true, st) else checkPermissions request objAccess objId permissions st
    | none => checkPermissions request objAccess objId permissions st

/-- The key of the access control record of a group. -/
def aclKey (filterValue objId : String) : String :=
  if filterValue.isEmpty then permissionPrefix ++ objId
  else permissionPrefix ++ filterValue ++ objId

/-- The part of `authorizeObjGroup` after the shortcuts. -/
def readObjGroup (db : Storage) (request : U8) (objId : String) (objAccess : U8) (st : AzState) :
    Except Int (Bool × AzState) :=
  let st :=
    if st.trace.isGroup then { st with trace := printToTraceGroup st.trace (objId ++ "\n") }
    else st
  match db.get (aclKey st.azc.filterValue objId) with
  | .ok str =>
    let (res, st) := checkPermissions request objAccess objId (groupsOf str) st
    if res then .ok (true, st)
    else .ok (covers st.azc.calcRightRes request && !st.trace.isOn, st)
  | .error e =>
    if e < 0 then .error e else .ok (covers st.azc.calcRightRes request && !st.trace.isOn, st)

/-- Check one group of the object. Without tracing a group is passed over when none of its bits is
missing, or when it was checked with the same bits. -/
def authorizeObjGroup (db : Storage) (request : U8) (objId : String) (objAccess : U8)
    (st : AzState) : Except Int (Bool × AzState) :=
  if !st.trace.isOn then
    let leftToCheck := (st.azc.calcRightRes ^^^ request) &&& request
    if leftToCheck &&& objAccess = 0 then .ok (false, st)
    else if st.azc.checkedGroups.lookup objId = some objAccess then .ok (false, st)
    else
      readObjGroup db request objId objAccess
        { st with azc := { st.azc with
            checkedGroups := st.azc.checkedGroups.insert objId objAccess } }
  else readObjGroup db request objId objAccess st

/-! ## The groups of the object -/

/-- The text contains another one. -/
def containsText (s pat : String) : Bool := decide (pat.toList <:+: s.toList)

/-- The local `is_contain_suffix_group` after a group. -/
def containSuffixGroup (level : U8) (suffixGroup : Bool) (group : Right) : Bool :=
  suffixGroup || (level == 0 && containsText group.id "_group")

/-- Whether a group shows that the exclusive groups of the subject were found. -/
def judgeExclusive (level : U8) (uri : String) (isLast suffixGroup : Bool) (group : Right)
    (subjectGroups : HashMap String Right) : Bool :=
  (level == 0 && ((isLast && !suffixGroup) || containsText group.id "cfg:TTLResourcesGroup")) ||
    ((level == 0 || containsText uri "_group") &&
      (subjectGroups.lookup group.id).any fun sVal => sVal.marker == mIsExclusive)

/-- The exclusive groups are still looked for. -/
def AzState.seeks (st : AzState) : Bool := st.azc.isNeedExclusiveAz && !st.azc.isFoundExclusiveAz

def AzState.setFound (st : AzState) (found : Bool) : AzState :=
  { st with azc := { st.azc with isFoundExclusiveAz := found } }

/-- Enter a group of the object with some bits. -/
def AzState.enter (st : AzState) (uri id : String) (access : U8) : AzState :=
  { st with azc := { st.azc with
    walkedGroupsO := st.azc.walkedGroupsO.insert id access
    treeGroupsO :=
      if st.trace.isInfo then st.azc.treeGroupsO.insert id uri else st.azc.treeGroupsO } }

/-- The group was entered before with all of these bits. -/
def enteredBefore (walked : Option U8) (newAccess : U8) : Bool :=
  walked.any fun preurAccess => preurAccess &&& newAccess == newAccess

section Loop

variable (db : Storage) (walk : String → U8 → AzState → Except Int (Bool × AzState))
  (request : U8) (uri : String) (access : U8) (level : U8) (len : ℕ)

/-- The loop of `prepareObjGroup`; `walk` is the recursive call. -/
def visitObjGroups : ℕ → List Right → Bool → AzState → Except Int (Bool × AzState)
  | _, [], _, st => .ok (false, st)
  | idx, group :: groups, suffix, st =>
    if group.id.isEmpty then visitObjGroups (idx + 1) groups suffix st
    else
      let newAccess := group.access &&& access
      let suffixGroup := if st.seeks then containSuffixGroup level suffix group else suffix
      let st :=
        if st.seeks then
          st.setFound (judgeExclusive level uri (idx == len - 1) suffixGroup group
            st.azc.subjectGroups)
        else st
      if group.marker = mIsExclusive then visitObjGroups (idx + 1) groups suffixGroup st
      else
        let walked := st.azc.walkedGroupsO.lookup group.id
        if enteredBefore walked newAccess then visitObjGroups (idx + 1) groups suffixGroup st
        else
          let st := st.enter uri group.id (newAccess ||| walked.getD 0)
          if uri = group.id then visitObjGroups (idx + 1) groups suffixGroup st
          else do
            let (res, st) ← authorizeObjGroup db request group.id newAccess st
            if res && (!st.azc.isNeedExclusiveAz || st.azc.isFoundExclusiveAz) then
              return (true, st)
            else
              -- the answer of the recursive call is dropped
              let (_, st) ← walk group.id newAccess st
              visitObjGroups (idx + 1) groups suffixGroup st

end Loop

/-- The walk over the groups of the object, with `left` levels left. -/
def prepareObjGroup (db : Storage) (request : U8) (left : ℕ) (uri : String) (access : U8)
    (st : AzState) : Except Int (Bool × AzState) :=
  match left with
  | 0 => .ok (false, st)
  | left + 1 =>
    match db.get (membershipPrefix ++ uri) with
    | .ok groupsStr => do
      let groupsSet := groupsOf groupsStr
      let (res, st) ← visitObjGroups db
        (fun id access st => prepareObjGroup db request left id access st)
        request uri access (BitVec.ofNat 8 (32 - left)) groupsSet.length 0 groupsSet false st
      if res then return (true, st)
      else return (false, if groupsSet.length = 0 then st.setFound true else st)
    | .error e =>
      if e < 0 then .error e
      else .ok (false, if BitVec.ofNat 8 (32 - left) = 0 then st.setFound true else st)

/-! ## The check -/

def allResourcesGroup : String := "v-s:AllResourcesGroup"

/-- The loop of `authorizeObjGroups` over the two groups that are checked first. -/
def authorizeFirst (db : Storage) (request : U8) :
    List String → AzState → Except Int (Option U8 × AzState)
  | [], st => .ok (none, st)
  | gr :: grs, st => do
    let (res, st) ← authorizeObjGroup db request gr 15 st
    if res then
      let (final, st) := finalCheck st
      if final then return (some st.azc.calcRightRes, st) else authorizeFirst db request grs st
    else authorizeFirst db request grs st

/-- One pass over the object and its groups; it may answer before the end. -/
def authorizeObjGroups (db : Storage) (id : String) (request : U8) (st : AzState) :
    Except Int (Option U8 × AzState) := do
  let (answer, st) ← authorizeFirst db request [allResourcesGroup, id] st
  match answer with
  | some answer => return (some answer, st)
  | none =>
    let (res, st) ← prepareObjGroup db request maxLevels id 15 st
    if res then
      let (final, st) := finalCheck st
      return (if final then some st.azc.calcRightRes else none, st)
    else return (none, st)

/-- The object and the groups of its own record. -/
def firstLevelObjectGroups (db : Storage) (id : String) : List Right :=
  Right.new id ::
    match db.get (membershipPrefix ++ id) with
    | .ok groupsStr => groupsOf groupsStr
    | .error _ => []

/-- The first filter found for the object or one of the groups of its own record. -/
def findFilter (db : Storage) (id : String) : Option (String × U8) :=
  (firstLevelObjectGroups db id).findSome? fun grObj => getFilter grObj.id db

/-- The end of a check: the rights when the final check passes, else nothing. -/
def finish (st : AzState) : U8 × Trace :=
  let (final, st) := finalCheck st
  if final then (st.azc.calcRightRes, st.trace)
  else
    let trace := if st.trace.isAcl then { st.trace with acl := "" } else st.trace
    let trace :=
      if trace.isInfo then
        printToTraceInfo trace
          ("result: uri=" ++ st.azc.id ++ ", user=" ++ st.azc.userId ++ ", request=" ++
            accessToPrettyString st.azc.requestAccess ++ ", answer=" ++ accessToPrettyString 0 ++
            "\n\n")
      else trace
    (0, trace)

/-- The context of a check after the groups of the subject are collected. -/
def AzContext.start (id userId : String) (requestAccess : U8) (w : SubjectWalk) : AzContext where
  id := id
  userId := userId
  requestAccess := requestAccess
  calcRightRes := 0
  isNeedExclusiveAz := w.outFIsExclusive
  isFoundExclusiveAz := false
  walkedGroupsS := w.walkedGroups
  treeGroupsS := w.treeGroups
  walkedGroupsO := ∅
  treeGroupsO := ∅
  subjectGroups := w.results.insert userId (Right.new userId)
  checkedGroups := ∅
  filterValue := ""

/-- The request of the first pass: a filter leaves some of its bits to the records without it. -/
def requestWithFilter (db : Storage) (id : String) (requestAccess : U8) : U8 :=
  match findFilter db id with
  | some (value, allow) => if value.isEmpty then requestAccess else requestAccess &&& allow
  | none => requestAccess

/-- The filter of an object, or no text. -/
def filterValueOf (db : Storage) (id : String) : String :=
  ((findFilter db id).map Prod.fst).getD ""

/-- Begin the pass with the filter. -/
def AzState.withFilter (st : AzState) (filterValue : String) : AzState :=
  { st with azc := { st.azc with
    filterValue := filterValue
    checkedGroups := ∅
    walkedGroupsO := ∅ } }

/-- The two passes of a check, of which the second is made for an object with a filter. -/
def authorizePasses (db : Storage) (id : String) (requestAccess : U8) (st : AzState) :
    Except Int (U8 × Trace) := do
  let (answer, st) ← authorizeObjGroups db id (requestWithFilter db id requestAccess) st
  match answer with
  | some answer => return (answer, st.trace)
  | none =>
    if (filterValueOf db id).isEmpty then return finish st
    else
      let (answer, st) ← authorizeObjGroups db id requestAccess
        (st.withFilter (filterValueOf db id))
      match answer with
      | some answer => return (answer, st.trace)
      | none => return finish st

/-- The check of a request of a user for an object. -/
def authorize (id userId : String) (requestAccess : U8) (db : Storage) (trace : Trace) :
    Except Int (U8 × Trace) := do
  let trace :=
    if trace.isInfo then
      printToTraceInfo trace
        ("authorize uri=" ++ id ++ ", user=" ++ userId ++ ", request_access=" ++
          accessToPrettyString requestAccess ++ "\n")
    else trace
  let (_, w) ← getResourceGroups db maxLevels userId 15 false ⟨∅, ∅, trace, ∅, false⟩
  authorizePasses db id requestAccess ⟨.start id userId requestAccess w, w.trace⟩

end Veda.Authorization
