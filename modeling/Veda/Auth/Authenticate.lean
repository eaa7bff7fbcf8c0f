import Veda.Auth.Common
import Veda.Mstorage.Operation

set_option autoImplicit false

/-!
# Login with a password or a secret code

`AuthWorkPlace::authenticate` looks at the accounts that are found for a login, one after another,
until one of them decides. The password and the date found with one account, and the individual of
its credential, are fields of the work place and are still there when the next account is looked at:
a credential that is read is added to what the individual has, and one that cannot be read changes
neither password nor date.

## Main definitions

* `Auth.Services`, `Auth.Request`, `Auth.WorkPlace` — what a login works with.
* `Auth.readInto` — decoding a record into an individual that is in use.
* `Auth.createNewCredential`, `Auth.removeSecret` — changes of a credential.
* `Auth.prepareCandidateAccount`, `Auth.authenticate` — the login.
* `Auth.reqPrepare` — a request to the server, which remembers failed logins.

## Main results

* `Auth.contentOf_readInto` — what is found after a record was decoded.

## Design

The storage and the program that changes it are given by what can be read in a world and by what a
command answers in it. There is one reading of the clock in a request. `none` means that the request
is not answered: a getter panics, or `parse_all` does not end. The number of the last predicate that
was decoded is kept when another record is put into an individual, and so a record with no more
predicates than this number is never decoded. A credential that cannot be read changes nothing in the
individual.
-/

namespace Veda.Auth

open Veda.Lib Veda.Onto Veda.VModule
open Veda.Mstorage (IndvOp)

/-! ## Data -/

/-- What all requests share. -/
structure Services (W : Type) where
  conf : AuthConf
  /-- `to_lowercase` -/
  lower : String → String
  /-- the answers of the search engine to the queries of `cfg:VedaSystem` -/
  search : W → String → QueryResult
  /-- the individuals that can be read -/
  read : W → String → Option IndividualObj
  /-- a command to the main storage with the ticket of the system -/
  update : W → IndvOp → IndividualObj → ResultCode × W

/-- A request, and what its computation takes from outside. -/
structure Request where
  login : String
  password : String
  secret : String
  clock : Clock
  /-- the identifier for a new ticket -/
  ticketUuid : String
  /-- the individual of a new ticket gets into the storage -/
  stored : IndividualObj → Bool
  /-- the number for a new secret code -/
  newSecret : String
  /-- the identifier for a letter -/
  mailUuid : String

/-- The fields of `AuthWorkPlace` that change. -/
structure WorkPlace (W : Type) where
  world : W
  userStat : UserStat
  existPassword : String
  edited : Int
  credential : IndividualObj
  /-- the number of the last predicate that was decoded into `credential` -/
  curPredicates : ℕ

/-- The work place at the beginning of a request. -/
def WorkPlace.start {W : Type} (world : W) (userStat : UserStat) : WorkPlace W :=
  ⟨world, userStat, "", 0, IndividualObj.empty, 0⟩

/-! ## Credentials -/

/-- Append a decoded value to a predicate. -/
def addResource (obj : IndividualObj) (predicate : String) (r : Resource) : IndividualObj :=
  obj.push predicate
    { r with
      order := if r.rtype = .binary then 0 else UInt16.ofNat (obj.valuesOf predicate).length }

/-- Append the values of some predicates. -/
def addDecoded (obj : IndividualObj) (entries : List (String × List Resource)) : IndividualObj :=
  entries.foldl (fun obj e => e.2.foldl (fun obj r => addResource obj e.1 r) obj) obj

/-- Read a record into an individual that may have been in use before, and decode all of it. The
number of the last decoded predicate goes in and out. -/
def readInto (curPredicates : ℕ) (obj stored : IndividualObj) : Option (IndividualObj × ℕ) :=
  let entries := HashMap.iter (.stored String) stored.resources
  if entries = [] then some (obj.setId stored.uri, curPredicates)
  else if curPredicates < entries.length then
    some (addDecoded (obj.setId stored.uri) entries, entries.length - 1)
  else none

/-- The date that a credential has, or zero. -/
def dateFromOf (credential : IndividualObj) : Int :=
  ((credential.firstDatetime "v-s:dateFrom").getD 0).toInt

section Program

variable {W : Type} (sv : Services W) (rq : Request)

/-- Give an account a credential with the password that the account has. The answer comes with the
credential, the account and the world. -/
def createNewCredential (usesCredential account : IndividualObj) (w : W) :
    Bool × IndividualObj × IndividualObj × W :=
  let password := account.literalOrEmpty "v-s:password"
  let credential := ((usesCredential.setId (account.uri ++ "-crdt")).setUri "rdf:type"
    "v-s:Credential").setString "v-s:password" password .none
  let (res, w) := sv.update w .put credential
  if res ≠ .ok then (false, credential, account, w)
  else
    let account := (account.remove "v-s:password").setUri "v-s:usesCredential" credential.uri
    let (res, w) := sv.update w .put account
    (decide (res = .ok), credential, account, w)

/-- Remove the secret code from a credential. -/
def removeSecret (wp : WorkPlace W) : WorkPlace W :=
  if (wp.credential.firstLiteral "v-s:secret").isSome then
    let credential := wp.credential.remove "v-s:secret"
    { wp with credential, world := (sv.update wp.world .remove credential).2 }
  else wp

/-- The password and the date of an account; the account comes out as it is stored afterwards. -/
def getCredential (account : IndividualObj) (wp : WorkPlace W) :
    Option (IndividualObj × WorkPlace W) :=
  match account.firstLiteral "v-s:usesCredential" with
  | some uri =>
    match getIndividual (sv.read wp.world) uri with
    | some stored => do
      let (credential, curPredicates) ← readInto wp.curPredicates wp.credential stored
      return (account, { wp with
        credential, curPredicates
        existPassword := credential.literalOrEmpty "v-s:password"
        edited := dateFromOf credential })
    | none =>
      let (_, credential, account, world) := createNewCredential sv wp.credential account wp.world
      return (account, { wp with credential, world })
  | none =>
    let (_, credential, account', world) := createNewCredential sv wp.credential account wp.world
    return (account', { wp with
      credential, world
      existPassword := account.literalOrEmpty "v-s:password" })

/-! ## Secret codes -/

/-- The letter with a secret code. -/
def mailWithSecret (mailbox : String) : IndividualObj :=
  let mail := IndividualObj.empty.setId ("d:mail_" ++ rq.mailUuid)
  let mail := mail.addUri "rdf:type" "v-s:Email"
  let mail := mail.addString "v-s:recipientMailbox" mailbox .none
  let mail := mail.addDatetime "v-s:created" (Int64.ofInt rq.clock.seconds)
  let mail := mail.addUri "v-s:creator" "cfg:VedaSystemAppointment"
  let mail := mail.addUri "v-wf:from" "cfg:VedaSystemAppointment"
  mail.addString "v-s:messageBody" ("your secret code is " ++ rq.newSecret) .none

/-- Further requests with the login are stopped. -/
def WorkPlace.blockLogin (wp : WorkPlace W) : WorkPlace W :=
  { wp with userStat := { wp.userStat with
      wrongCountLogin := sv.conf.failedAuthAttempts + 1
      lastWrongLoginDate := rq.clock.seconds } }

/-- Store a new secret code with the credential, and send it. -/
def storeNewSecret (account : IndividualObj) (wp : WorkPlace W) : ResultCode × WorkPlace W :=
  let now := rq.clock.seconds
  let wp := { wp with userStat := { wp.userStat with
    attemptChangePass := wp.userStat.attemptChangePass + 1
    lastAttemptChangePassDate := now } }
  let credential := (wp.credential.setString "v-s:secret" rq.newSecret .none).setValue
    "v-s:SecretDateFrom" .datetime (.datetime (Int64.ofInt now))
  let (res, world) := sv.update wp.world .put credential
  let wp := { wp with credential, world }
  if res ≠ .ok then (.internalServerError, wp)
  else
    let mailbox := account.literalOrEmpty "v-s:mailbox"
    if 3 < mailbox.utf8ByteSize then
      let (res, world) := sv.update wp.world .put (mailWithSecret rq mailbox)
      (if res ≠ .ok then .authenticationFailed else .passwordExpired, { wp with world })
    else (.passwordExpired, wp)

/-- `request_new_password`: what is checked before a new secret code is made. -/
def requestNewPassword (account : IndividualObj) (wp : WorkPlace W) :
    ResultCode × WorkPlace W :=
  let now := rq.clock.seconds
  if (account.firstLiteral "v-s:authOrigin").any fun origin => origin ≠ "veda" then
    (.changePasswordForbidden, wp)
  else if 0 < now - wp.edited ∧ now - wp.edited < sv.conf.successPassChangeLockPeriod then
    (.locked, wp)
  else if sv.conf.failedChangePassAttempts ≤ wp.userStat.attemptChangePass then
    let prevSecretDate := ((wp.credential.firstDatetime "v-s:SecretDateFrom").getD 0).toInt
    if now - prevSecretDate < sv.conf.failedPassChangeLockPeriod then
      (.tooManyRequestsChangePassword, wp.blockLogin sv rq)
    else if now - wp.userStat.lastAttemptChangePassDate < sv.conf.failedPassChangeLockPeriod then
      (.tooManyRequestsChangePassword, wp.blockLogin sv rq)
    else
      storeNewSecret sv rq account
        { wp with userStat := { wp.userStat with attemptChangePass := 0 } }
  else storeNewSecret sv rq account wp

/-- Give the credential of a person the password of the request. -/
def updatePassword (person : IndividualObj) (ticket : Ticket) (wp : WorkPlace W) :
    Option (Bool × Ticket × WorkPlace W) :=
  let credential := (((wp.credential.setString "v-s:password" rq.password .none).setValue
    "v-s:dateFrom" .datetime (.datetime (Int64.ofInt rq.clock.seconds))).remove
    "v-s:secret").remove "v-s:SecretDateFrom"
  let (res, world) := sv.update wp.world .put credential
  let wp := { wp with credential, world }
  if res ≠ .ok then some (false, { ticket with result := .authenticationFailed }, wp)
  else do
    let ticket ← createNewTicket rq.clock rq.ticketUuid rq.stored rq.login person.uri
      sv.conf.ticketLifetime ticket
    return (true, ticket, { wp with userStat := { wp.userStat with attemptChangePass := 0 } })

/-- The secret code of a request is compared with the stored one. -/
def prepareSecretCode (person : IndividualObj) (ticket : Ticket) (wp : WorkPlace W) :
    Option (Bool × Ticket × WorkPlace W) :=
  let oldSecret := wp.credential.literalOrEmpty "v-s:secret"
  let now := rq.clock.seconds
  if oldSecret = "" then
    some (false, { ticket with result := .invalidSecret }, removeSecret sv wp)
  else if rq.secret ≠ oldSecret then
    some (false, { ticket with result := .invalidSecret }, removeSecret sv wp)
  else if sv.conf.secretLifetime <
      now - ((wp.credential.firstDatetime "v-s:SecretDateFrom").getD 0).toInt then
    some (false, { ticket with result := .secretExpired }, wp)
  else if wp.existPassword = rq.password then
    some (false, { ticket with result := .newPasswordIsEqualToOld }, removeSecret sv wp)
  else if rq.password = emptySha256Hash then
    some (false, { ticket with result := .emptyPassword }, removeSecret sv wp)
  else if 0 < now - wp.edited ∧ now - wp.edited < sv.conf.successPassChangeLockPeriod then
    some (false, { ticket with result := .locked }, wp)
  else updatePassword sv rq person ticket wp

/-! ## Accounts -/

/-- The request brings a secret code. -/
def Request.hasCode (rq : Request) : Bool := rq.secret ≠ "" ∧ 5 < rq.secret.utf8ByteSize

/-- A new password is asked for, or the password of the account is too old. -/
def isRequestNewPassword (edited : Int) : Bool :=
  rq.secret = "?" ∨
    (0 < sv.conf.passLifetime ∧ 0 < edited ∧ sv.conf.passLifetime < rq.clock.seconds - edited)

/-- Compare the password of the request with that of the account. -/
def attemptAuthentication (userId : String) (ticket : Ticket) (wp : WorkPlace W) :
    Option (Bool × Ticket × WorkPlace W) :=
  if wp.existPassword ≠ "" ∧ rq.password ≠ "" ∧ 63 < rq.password.utf8ByteSize ∧
      wp.existPassword = rq.password then do
    let ticket ← createNewTicket rq.clock rq.ticketUuid rq.stored rq.login userId
      sv.conf.ticketLifetime ticket
    return (true, ticket, { wp with userStat := { wp.userStat with
      wrongCountLogin := 0
      lastWrongLoginDate := 0 } })
  else
    some (false, ticket, { wp with userStat := { wp.userStat with
      wrongCountLogin := wp.userStat.wrongCountLogin + 1
      lastWrongLoginDate := rq.clock.seconds } })

/-- An account that fits the login, and its person. -/
def fittingAccount (w : W) (accountId : String) : Option (IndividualObj × IndividualObj) := do
  let account ← getIndividual (sv.read w) accountId
  if ownerOf account = "" then none
  else if loginOf account = "" then none
  else if sv.lower (loginOf account) ≠ sv.lower rq.login then none
  else
    let person ← getIndividual (sv.read w) (ownerOf account)
    return (account, person)

/-- What a fitting account decides. -/
def prepareFittingAccount (account person : IndividualObj) (ticket : Ticket) (wp : WorkPlace W) :
    Option (Bool × Ticket × WorkPlace W) := do
  let userId := ownerOf account
  let (account, wp) ← getCredential sv account wp
  if rq.hasCode then prepareSecretCode sv rq person ticket wp
  else if isRequestNewPassword sv rq wp.edited then
    let (res, wp) := requestNewPassword sv rq account wp
    if res ≠ .ok then return (true, { ticket with result := res }, wp)
    else attemptAuthentication sv rq userId ticket wp
  else attemptAuthentication sv rq userId ticket wp

/-- One of the accounts found; the answer says whether it decides. -/
def prepareCandidateAccount (accountId : String) (ticket : Ticket) (wp : WorkPlace W) :
    Option (Bool × Ticket × WorkPlace W) :=
  match fittingAccount sv rq wp.world accountId with
  | some (account, person) => prepareFittingAccount sv rq account person ticket wp
  | none => some (false, ticket, wp)

/-- The loop over the accounts found. -/
def prepareCandidates : List String → Ticket → WorkPlace W →
    Option (Bool × Ticket × WorkPlace W)
  | [], ticket, wp => some (false, ticket, wp)
  | accountId :: ids, ticket, wp => do
    let (decided, ticket, wp) ← prepareCandidateAccount sv rq accountId ticket wp
    if decided then return (true, ticket, wp) else prepareCandidates ids ticket wp

/-! ## Requests -/

/-- The answer to a request that is refused before an account is looked at. -/
def refused : Option ResultCode :=
  if rq.login = "" ∨ rq.login.utf8ByteSize < 3 then some .authenticationFailed
  else if rq.hasCode ∧ rq.password = emptySha256Hash then some .emptyPassword
  else if rq.secret = "" ∧ 5 < rq.secret.utf8ByteSize ∧
      (rq.password = "" ∨ rq.password.utf8ByteSize < 64) then some .invalidPassword
  else if rq.secret ≠ "" ∧ rq.secret ≠ "?" ∧ rq.secret.utf8ByteSize < 6 then some .invalidSecret
  else none

/-- Too many logins have failed, or it is too long ago. -/
def checkAttempts (stat : UserStat) : Option UserStat :=
  if sv.conf.failedAuthAttempts ≤ stat.wrongCountLogin then
    if rq.clock.seconds - stat.lastWrongLoginDate < sv.conf.failedAuthLockPeriod then none
    else some { stat with wrongCountLogin := 0, lastWrongLoginDate := rq.clock.seconds }
  else some stat

/-- The accounts that are looked at. -/
def candidatesOf (w : W) : List String :=
  let candidates := sv.search w (candidateQuery rq.login)
  if candidates.resultCode = .ok ∧ 0 < candidates.count then candidates.result else []

def authenticate (wp : WorkPlace W) : Option (Ticket × WorkPlace W) :=
  match refused rq with
  | some res => some ({ Ticket.empty with result := res }, wp)
  | none =>
    match checkAttempts sv rq wp.userStat with
    | none => some ({ Ticket.empty with result := .tooManyRequests }, wp)
    | some userStat => do
      let wp := { wp with userStat }
      let (decided, ticket, wp) ←
        prepareCandidates sv rq (candidatesOf sv rq wp.world) Ticket.empty wp
      if decided then return (ticket, wp)
      else return ({ ticket with result := .authenticationFailed }, wp)

/-- The server: what it remembers of each login, and the world it works in. -/
structure Server (W : Type) where
  suspicious : HashMap String UserStat
  world : W

/-- What the server remembers of a login. -/
def Server.statOf (server : Server W) (login : String) : UserStat :=
  (server.suspicious.lookup login).getD .empty

/-- A request `authenticate`: the answer and the server afterwards. -/
def reqPrepare (server : Server W) : Option (Ticket × Server W) := do
  let (ticket, wp) ← authenticate sv rq (.start server.world (server.statOf rq.login))
  return (ticket, ⟨server.suspicious.insert rq.login wp.userStat, wp.world⟩)

end Program

theorem exists_of_reqPrepare {W : Type} {sv : Services W} {rq : Request} {server server' : Server W}
    {ticket : Ticket} (h : reqPrepare sv rq server = some (ticket, server')) :
    ∃ wp, authenticate sv rq (.start server.world (server.statOf rq.login)) = some (ticket, wp) ∧
      server' = ⟨server.suspicious.insert rq.login wp.userStat, wp.world⟩ := by
  obtain ⟨⟨ticket', wp⟩, hauth, hserver⟩ := Option.bind_eq_some_iff.mp h
  obtain ⟨rfl, rfl⟩ := Prod.mk.inj (Option.some.inj hserver)
  exact ⟨wp, hauth, rfl⟩

/-! ## What is found after a record was decoded -/

/-- The values of a predicate, without their places. -/
def contentOf (obj : IndividualObj) (predicate : String) : List (DataType × Value) :=
  (obj.valuesOf predicate).map Resource.content

/-- The first value of a predicate. -/
def firstValueOf (obj : IndividualObj) (predicate : String) : Option Value :=
  (contentOf obj predicate).head?.map Prod.snd

/-- The text of a value that is a string or a uri. -/
def literalOfValue : Value → Option String
  | .str s _ => some s
  | .uri s => some s
  | _ => none

theorem firstLiteral_eq (obj : IndividualObj) (p : String) :
    obj.firstLiteral p = (firstValueOf obj p).bind literalOfValue := by
  unfold IndividualObj.firstLiteral firstValueOf contentOf IndividualObj.valuesOf
  rcases obj.resources.lookup p with _ | (_ | ⟨⟨rtype, value, order⟩, v⟩)
  · rfl
  · rfl
  · cases value <;> rfl

theorem contentOf_congr {obj obj' : IndividualObj} {p : String}
    (h : obj.resources.lookup p = obj'.resources.lookup p) : contentOf obj p = contentOf obj' p := by
  rw [contentOf, contentOf, IndividualObj.valuesOf, IndividualObj.valuesOf, h]

theorem contentOf_setValue_ne (obj : IndividualObj) {predicate p : String} (rtype : DataType)
    (value : Value) (h : p ≠ predicate) :
    contentOf (obj.setValue predicate rtype value) p = contentOf obj p :=
  contentOf_congr (by rw [IndividualObj.lookup_setValue, if_neg h])

theorem contentOf_addResource (obj : IndividualObj) (p : String) (r : Resource) (q : String) :
    contentOf (addResource obj p r) q =
      contentOf obj q ++ if q = p then [r.content] else [] := by
  unfold contentOf addResource
  by_cases h : q = p
  · rw [if_pos h, h, IndividualObj.valuesOf_push, List.map_append]
    rfl
  · rw [if_neg h, List.append_nil, IndividualObj.valuesOf, IndividualObj.lookup_push_ne _ _ h,
      ← IndividualObj.valuesOf]

theorem contentOf_addResources (obj : IndividualObj) (p : String) (rs : List Resource)
    (q : String) :
    contentOf (rs.foldl (fun obj r => addResource obj p r) obj) q =
      contentOf obj q ++ if q = p then rs.map Resource.content else [] := by
  induction rs generalizing obj with
  | nil => simp
  | cons r rs ih =>
    rw [List.foldl_cons, ih, contentOf_addResource, List.append_assoc]
    by_cases h : q = p
    · rw [if_pos h, if_pos h, if_pos h]
      rfl
    · rw [if_neg h, if_neg h, if_neg h]
      rfl

theorem contentOf_addDecoded_of_notMem (obj : IndividualObj)
    {entries : List (String × List Resource)} {q : String} (h : q ∉ entries.map Prod.fst) :
    contentOf (addDecoded obj entries) q = contentOf obj q := by
  unfold addDecoded
  induction entries generalizing obj with
  | nil => rfl
  | cons e entries ih =>
    rw [List.map_cons, List.mem_cons, not_or] at h
    rw [List.foldl_cons, ih _ h.2, contentOf_addResources, if_neg h.1, List.append_nil]

theorem contentOf_addDecoded_of_mem (obj : IndividualObj)
    {entries : List (String × List Resource)} (hnodup : (entries.map Prod.fst).Nodup)
    {q : String} {rs : List Resource} (h : (q, rs) ∈ entries) :
    contentOf (addDecoded obj entries) q = contentOf obj q ++ rs.map Resource.content := by
  induction entries generalizing obj with
  | nil => cases h
  | cons e entries ih =>
    rw [List.map_cons, List.nodup_cons] at hnodup
    rw [addDecoded, List.foldl_cons, ← addDecoded]
    rcases List.mem_cons.mp h with rfl | h
    · rw [contentOf_addDecoded_of_notMem _ hnodup.1, contentOf_addResources, if_pos rfl]
    · have hne : q ≠ e.1 := fun he => hnodup.1 (he ▸ List.mem_map_of_mem h)
      rw [ih _ hnodup.2 h, contentOf_addResources, if_neg hne, List.append_nil]

/-- **What is found after a record was decoded**: its values are behind those that were there. -/
theorem contentOf_readInto {cur cur' : ℕ} {obj stored obj' : IndividualObj}
    (h : readInto cur obj stored = some (obj', cur')) (q : String) :
    contentOf obj' q = contentOf obj q ++ contentOf stored q := by
  -- with no predicates nothing is appended
  obtain rfl : addDecoded (obj.setId stored.uri)
      (HashMap.iter (.stored String) stored.resources) = obj' := by
    unfold readInto at h
    dsimp only at h
    split_ifs at h with hnil hlt
    · rw [hnil]
      exact (Prod.mk.inj (Option.some.inj h)).1
    · exact (Prod.mk.inj (Option.some.inj h)).1
  have hsame : contentOf (obj.setId stored.uri) q = contentOf obj q := rfl
  cases hq : stored.resources.lookup q with
  | some rs =>
    rw [contentOf_addDecoded_of_mem _ (HashMap.nodup_fst_iter _ _)
      ((HashMap.mem_iter _ _ _ _).mpr hq), hsame]
    rw [contentOf.eq_1 stored, IndividualObj.valuesOf, hq, Option.getD_some]
  | none =>
    rw [contentOf_addDecoded_of_notMem, hsame, contentOf.eq_1 stored, IndividualObj.valuesOf, hq]
    · exact (List.append_nil _).symm
    · rw [HashMap.map_fst_iter, ((IterOrder.stored String).perm _).mem_iff, ← AList.mem_keys,
        ← AList.lookup_isSome, hq]
      simp

theorem firstValueOf_readInto {cur cur' : ℕ} {obj stored obj' : IndividualObj}
    (h : readInto cur obj stored = some (obj', cur')) (q : String) :
    firstValueOf obj' q = (firstValueOf obj q).or (firstValueOf stored q) := by
  unfold firstValueOf
  rw [contentOf_readInto h]
  cases contentOf obj q <;> rfl

theorem uri_readInto {cur cur' : ℕ} {obj stored obj' : IndividualObj}
    (h : readInto cur obj stored = some (obj', cur')) : obj'.uri = stored.uri := by
  have huri : ∀ (entries : List (String × List Resource)) (obj : IndividualObj),
      (addDecoded obj entries).uri = obj.uri := by
    intro entries obj
    unfold addDecoded
    induction entries generalizing obj with
    | nil => rfl
    | cons e entries ih =>
      rw [List.foldl_cons, ih]
      generalize e.2 = rs
      induction rs generalizing obj with
      | nil => rfl
      | cons r rs ihr => exact ihr _
  unfold readInto at h
  dsimp only at h
  split_ifs at h
  · obtain ⟨rfl, -⟩ := Prod.mk.inj (Option.some.inj h)
    rfl
  · obtain ⟨rfl, -⟩ := Prod.mk.inj (Option.some.inj h)
    exact huri _ _

end Veda.Auth
