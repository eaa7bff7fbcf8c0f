import Veda.Auth.Attempts
import Veda.Mstorage.Effects

set_option autoImplicit false

/-!
# What a wrong secret code costs

A secret code that is not the stored one makes `remove_secret` drop the stored code from the
credential in memory and send the credential to the main storage, with the command to remove it. The
main storage then removes the individual, and with it the password. A credential keeps its password
as long as no request with a code finds one.

## Main definitions

* `Auth.ActsAsStorage` — what the main storage does with commands.
* `Auth.answered` — requests that are answered one after another.
* `Auth.CredentialKept` — a credential exists and has its password and its date.
* `Auth.NoCodeFound` — the condition of a step.

## Main results

* `Auth.actsAsStorage_of_mstorage` — operations of the main storage are such commands.
* `Auth.kept_prepareCandidateAccount` — one account.
* `Auth.credentialKept_of_noCodeFound` — when a credential is kept.
* `Auth.not_credentialKept` — a wrong secret code removes it.
-/

namespace Veda.Auth

open Veda.Lib Veda.Onto Veda.VModule
open Veda.Mstorage (IndvOp)

section Definitions

variable {W : Type} (sv : Services W)

/-- The predicates that make a password valid. -/
def passwordPredicates : List String := ["v-s:password", "v-s:dateFrom"]

/-- A credential exists, and it has the password and the date of another one. -/
def CredentialKept (uri : String) (credential : IndividualObj) (w : W) : Prop :=
  ∃ stored, sv.read w uri = some stored ∧
    ∀ p ∈ passwordPredicates, contentOf stored p = contentOf credential p

/-- What the main storage does: an individual is stored under its uri, a command changes this
individual only, and a put leaves what was there or stores what it brings. -/
structure ActsAsStorage : Prop where
  uri_of_read : ∀ w uri stored, sv.read w uri = some stored → stored.uri = uri
  frame : ∀ w cmd (obj : IndividualObj) uri, uri ≠ obj.uri →
    sv.read (sv.update w cmd obj).2 uri = sv.read w uri
  put : ∀ w (obj : IndividualObj), sv.read (sv.update w .put obj).2 obj.uri = sv.read w obj.uri ∨
    CredentialKept sv obj.uri obj (sv.update w .put obj).2

/-- The requests that the server takes, each with the server before it. -/
def answered : Server W → List Request → List (Request × Server W)
  | _, [] => []
  | server, rq :: rqs =>
    (rq, server) ::
      match reqPrepare sv rq server with
      | some (_, server) => answered server rqs
      | none => []

/-- The accounts to which a request to the server comes. -/
def handledBy (p : Request × Server W) : List (String × WorkPlace W) :=
  handledOf sv (⟨p.1, p.2.world⟩, p.2.statOf p.1.login)

/-- A credential is kept through requests: when one comes, when it comes to an account, and when it is
answered. -/
def KeptThrough (uri : String) (credential : IndividualObj) (server : Server W)
    (rqs : List Request) : Prop :=
  ∀ p ∈ answered sv server rqs, CredentialKept sv uri credential p.2.world ∧
    (∀ h ∈ handledBy sv p, CredentialKept sv uri credential h.2.world) ∧
    ∀ ticket server', reqPrepare sv p.1 p.2 = some (ticket, server') →
      CredentialKept sv uri credential server'.world

/-- Every request brings a secret, and none is the one that is stored with the credential then. -/
def WrongSecrets (uri : String) (server : Server W) (rqs : List Request) : Prop :=
  ∀ p ∈ answered sv server rqs, p.1.secret ≠ "" ∧
    ∀ h ∈ handledBy sv p, ∀ stored, sv.read h.2.world uri = some stored →
      stored.firstLiteral "v-s:secret" ≠ some p.1.secret

/-- The condition of a step: a request with a code that reads the credential for an account finds no
code, neither in it nor in memory; and what is written for an account without a credential, and the
letter with a code, are other individuals than the credential. -/
structure NoCodeFound (uri : String) (rq : Request) (accountId : String) (wp : WorkPlace W) :
    Prop where
  read : rq.hasCode = true → ∀ account person, fittingAccount sv rq wp.world accountId =
    some (account, person) → account.firstLiteral "v-s:usesCredential" = some uri →
      wp.credential.firstLiteral "v-s:secret" = none ∧ ∀ stored,
        getIndividual (sv.read wp.world) uri = some stored →
          stored.firstLiteral "v-s:secret" = none
  created : ∀ account person, fittingAccount sv rq wp.world accountId = some (account, person) →
    (∀ link, account.firstLiteral "v-s:usesCredential" = some link →
      getIndividual (sv.read wp.world) link = none) →
    uri ≠ account.uri ++ "-crdt" ∧ uri ≠ account.uri
  mail : uri ≠ "d:mail_" ++ rq.mailUuid

end Definitions

/-! ## The main storage -/

/-- The commands of the services fail, or they are operations of the main storage for individuals
whose values are of their types; what is read is what is stored. -/
structure OverMstorage (cbor : CborParser)
    (sv : Services {st : Mstorage.Server // Mstorage.Records st}) : Prop where
  read : ∀ w uri, sv.read w uri = w.1.recordOf cbor uri
  update : ∀ w cmd (obj : IndividualObj), (sv.update w cmd obj).2 = w ∨
    ∃ op : Mstorage.Operation, op.req.cmd = cmd ∧ op.req.newIndv = obj ∧ op.Fits w.1 ∧
      Mstorage.IsTyped obj ∧ (sv.update w cmd obj).2.1 = w.1.operate op

/-- **The main storage is a storage of individuals**: an operation changes its own individual only, and
a put leaves what was there or stores what it brings. -/
theorem actsAsStorage_of_mstorage {cbor : CborParser}
    {sv : Services {st : Mstorage.Server // Mstorage.Records st}} (h : OverMstorage cbor sv) :
    ActsAsStorage sv where
  uri_of_read := by
    intro w uri stored hread
    rw [h.read] at hread
    exact Mstorage.uri_of_recordOf w.2 hread
  frame := by
    intro w cmd obj uri hne
    rw [h.read, h.read]
    rcases h.update w cmd obj with hsame | ⟨op, -, rfl, hfits, -, hop⟩
    · rw [hsame]
    · rw [hop, Mstorage.Server.recordOf, Mstorage.Server.recordOf,
        Mstorage.lookup_operate_ne w.2 hfits hne]
  put := by
    intro w obj
    rw [h.read, h.read]
    rcases h.update w .put obj with hsame | ⟨op, hcmd, rfl, hfits, htyped, hop⟩
    · rw [hsame]
      exact .inl rfl
    · rw [hop]
      refine (Mstorage.recordOf_operate_put w.2 hfits hcmd htyped cbor).imp_right ?_
      rintro ⟨stored, hread, hsame⟩
      refine ⟨stored, by rw [h.read, hop, hread], fun p hp => hsame p ?_⟩
      rcases List.mem_cons.mp hp with rfl | hp
      · decide
      · rw [List.mem_singleton.mp hp]
        decide

/-- The code of an answer of the main storage. -/
def codeOf : Mstorage.ResultCode → ResultCode
  | .ok => .ok
  | .noContent => .noContent
  | .notAuthorized => .notAuthorized
  | .failStore => .failStore
  | .invalidIdentifier => .invalidIdentifier

open Classical in
/-- Commands to a main storage: one that fits is an operation, another one is not stored. -/
noncomputable def commands (cbor : CborParser) :
    Services {st : Mstorage.Server // Mstorage.Records st} where
  conf := .standard
  lower := String.toLower
  search _ _ := ⟨[], 0, .ok⟩
  read w uri := w.1.recordOf cbor uri
  update w cmd obj :=
    if h : ∃ op : Mstorage.Operation, op.req.cmd = cmd ∧ op.req.newIndv = obj ∧ op.Fits w.1 ∧
        Mstorage.IsTyped obj then
      (match Mstorage.operationPrepare h.choose.ctx h.choose.req h.choose.out₁ h.choose.out₂ w.1 with
        | .ok (resp, _) => codeOf resp.res
        | .error _ => .notReady,
        ⟨w.1.operate h.choose, Mstorage.records_operate w.2 h.choose_spec.2.2.1⟩)
    else (.notReady, w)

theorem actsAsStorage_commands : ActsAsStorage (commands noCbor) :=
  actsAsStorage_of_mstorage
    { read := fun w uri => show _ = w.1.recordOf noCbor uri from rfl
      update := by
        intro w cmd obj
        unfold commands
        dsimp only
        split
        · rename_i h
          obtain ⟨hcmd, hobj, hfits, htyped⟩ := h.choose_spec
          exact .inr ⟨h.choose, hcmd, hobj, hfits, htyped, rfl⟩
        · exact .inl rfl }

/-! ## Commands -/

section Commands

variable {W : Type} {sv : Services W} {rq : Request} {uri : String} {credential : IndividualObj}
  {w : W}

theorem CredentialKept.frame (hacts : ActsAsStorage sv) (h : CredentialKept sv uri credential w)
    (cmd : IndvOp) {obj : IndividualObj} (hne : uri ≠ obj.uri) :
    CredentialKept sv uri credential (sv.update w cmd obj).2 := by
  obtain ⟨stored, hread, hsame⟩ := h
  exact ⟨stored, by rw [hacts.frame w cmd obj uri hne, hread], hsame⟩

theorem CredentialKept.put (hacts : ActsAsStorage sv) (h : CredentialKept sv uri credential w)
    {obj : IndividualObj} (huri : obj.uri = uri)
    (hobj : ∀ p ∈ passwordPredicates, contentOf obj p = contentOf credential p) :
    CredentialKept sv uri credential (sv.update w .put obj).2 := by
  subst huri
  rcases hacts.put w obj with hsame | ⟨stored, hread, hstored⟩
  · obtain ⟨stored, hread, hkept⟩ := h
    exact ⟨stored, by rw [hsame, hread], hkept⟩
  · exact ⟨stored, hread, fun p hp => (hstored p hp).trans (hobj p hp)⟩

theorem CredentialKept.createNewCredential (hacts : ActsAsStorage sv)
    (h : CredentialKept sv uri credential w) (usesCredential : IndividualObj)
    {account : IndividualObj} (hcredential : uri ≠ account.uri ++ "-crdt")
    (haccount : uri ≠ account.uri) :
    CredentialKept sv uri credential (createNewCredential sv usesCredential account w).2.2.2 := by
  unfold Auth.createNewCredential
  dsimp only
  have hfirst : ∀ obj : IndividualObj, obj.uri = account.uri ++ "-crdt" →
      CredentialKept sv uri credential (sv.update w .put obj).2 :=
    fun obj hobj => h.frame hacts .put (by rw [hobj]; exact hcredential)
  split_ifs
  · exact hfirst _ rfl
  · exact (hfirst _ rfl).frame hacts .put haccount

theorem CredentialKept.storeNewSecret (hacts : ActsAsStorage sv) {wp : WorkPlace W}
    (h : CredentialKept sv uri credential wp.world) (hmail : uri ≠ "d:mail_" ++ rq.mailUuid)
    (hsame : wp.credential.uri = uri →
      ∀ p ∈ passwordPredicates, contentOf wp.credential p = contentOf credential p)
    (account : IndividualObj) :
    CredentialKept sv uri credential (storeNewSecret sv rq account wp).2.world := by
  have hput : ∀ obj : IndividualObj, obj.uri = wp.credential.uri →
      (∀ p ∈ passwordPredicates, contentOf obj p = contentOf wp.credential p) →
      CredentialKept sv uri credential (sv.update wp.world .put obj).2 := by
    intro obj huri hobj
    by_cases hne : wp.credential.uri = uri
    · exact h.put hacts (huri.trans hne) fun p hp => (hobj p hp).trans (hsame hne p hp)
    · exact h.frame hacts .put fun heq => hne (huri.symm.trans heq.symm)
  have hstored := hput ((wp.credential.setString "v-s:secret" rq.newSecret .none).setValue
    "v-s:SecretDateFrom" .datetime (.datetime (Int64.ofInt rq.clock.seconds))) rfl (by
      intro p hp
      have hne : p ≠ "v-s:secret" ∧ p ≠ "v-s:SecretDateFrom" := by
        rcases List.mem_cons.mp hp with rfl | hp
        · decide
        · rw [List.mem_singleton.mp hp]
          decide
      rw [contentOf_setValue_ne _ _ _ hne.2]
      exact contentOf_setValue_ne _ _ _ hne.1)
  unfold Auth.storeNewSecret
  dsimp only
  split_ifs
  · exact hstored
  · exact hstored.frame hacts .put hmail
  · exact hstored.frame hacts .put hmail
  · exact hstored

theorem CredentialKept.requestNewPassword (hacts : ActsAsStorage sv) {wp : WorkPlace W}
    (h : CredentialKept sv uri credential wp.world) (hmail : uri ≠ "d:mail_" ++ rq.mailUuid)
    (hsame : wp.credential.uri = uri →
      ∀ p ∈ passwordPredicates, contentOf wp.credential p = contentOf credential p)
    (account : IndividualObj) :
    CredentialKept sv uri credential (requestNewPassword sv rq account wp).2.world := by
  unfold Auth.requestNewPassword
  dsimp only
  split_ifs
  · exact h
  · exact h
  · exact h
  · exact h
  · refine CredentialKept.storeNewSecret hacts ?_ hmail ?_ account
    · exact h
    · exact hsame
  · exact h.storeNewSecret hacts hmail hsame account

end Commands

/-! ## One account -/

section Accounts

variable {W : Type} {sv : Services W} {rq : Request} {uri accountId : String}
  {credential account account' person : IndividualObj} {ticket ticket' : Ticket}
  {wp wp' wp₁ : WorkPlace W} {decided : Bool}

theorem uri_createNewCredential (usesCredential account : IndividualObj) (w : W) :
    (createNewCredential sv usesCredential account w).2.1.uri = account.uri ++ "-crdt" := by
  unfold createNewCredential
  dsimp only
  split_ifs <;> rfl

theorem getCredential_world (h : getCredential sv account wp = some (account', wp₁)) :
    (∃ link stored cur, account.firstLiteral "v-s:usesCredential" = some link ∧
      getIndividual (sv.read wp.world) link = some stored ∧
      readInto wp.curPredicates wp.credential stored = some (wp₁.credential, cur) ∧
      wp₁.world = wp.world) ∨
    ((∀ link, account.firstLiteral "v-s:usesCredential" = some link →
        getIndividual (sv.read wp.world) link = none) ∧
      wp₁.credential = (createNewCredential sv wp.credential account wp.world).2.1 ∧
      wp₁.world = (createNewCredential sv wp.credential account wp.world).2.2.2) := by
  unfold getCredential at h
  cases hlink : account.firstLiteral "v-s:usesCredential" with
  | none =>
    rw [hlink] at h
    cases h
    exact .inr ⟨by simp, rfl, rfl⟩
  | some link =>
    rw [hlink] at h
    dsimp only at h
    cases hstored : getIndividual (sv.read wp.world) link with
    | none =>
      rw [hstored] at h
      cases h
      exact .inr ⟨fun link' hlink' => by rw [← Option.some.inj hlink', hstored], rfl, rfl⟩
    | some stored =>
      rw [hstored] at h
      obtain ⟨⟨read, cur⟩, hread, h⟩ := Option.bind_eq_some_iff.mp h
      cases h
      exact .inl ⟨link, stored, cur, rfl, hstored, hread, rfl⟩

theorem read_of_getIndividual {w : W} {link : String} {stored : IndividualObj}
    (h : getIndividual (sv.read w) link = some stored) : sv.read w link = some stored := by
  unfold getIndividual at h
  split_ifs at h
  exact h

theorem CredentialKept.removeSecret (hacts : ActsAsStorage sv)
    (h : CredentialKept sv uri credential wp.world)
    (hnone : wp.credential.uri = uri → wp.credential.firstLiteral "v-s:secret" = none) :
    CredentialKept sv uri credential (removeSecret sv wp).world := by
  unfold Auth.removeSecret
  split_ifs with hsome
  · refine h.frame hacts .remove fun heq => ?_
    rw [hnone heq.symm] at hsome
    cases hsome
  · exact h

theorem CredentialKept.prepareSecretCode (hacts : ActsAsStorage sv)
    (h : CredentialKept sv uri credential wp.world)
    (hnone : wp.credential.uri = uri → wp.credential.firstLiteral "v-s:secret" = none)
    (hcode : prepareSecretCode sv rq person ticket wp = some (decided, ticket', wp')) :
    CredentialKept sv uri credential wp'.world := by
  have hremoved := h.removeSecret hacts hnone
  unfold Auth.prepareSecretCode at hcode
  dsimp only at hcode
  split_ifs at hcode with hempty
  · cases hcode
    exact hremoved
  · cases hcode
    exact hremoved
  · cases hcode
    exact h
  · cases hcode
    exact hremoved
  · cases hcode
    exact hremoved
  · cases hcode
    exact h
  · -- a code was found, so that the password of another credential is written
    have hne : uri ≠ wp.credential.uri := by
      intro heq
      rw [IndividualObj.literalOrEmpty, hnone heq.symm] at hempty
      exact hempty rfl
    unfold updatePassword at hcode
    dsimp only at hcode
    split_ifs at hcode
    · cases hcode
      exact h.frame hacts .put hne
    · obtain ⟨new, -, heq⟩ := Option.bind_eq_some_iff.mp hcode
      cases heq
      exact h.frame hacts .put hne

/-- **One account** in a request with a secret: the credential is kept, and while the account does not
decide a request without a code has read nothing.

**Proof sketch.** A code is compared with that of another credential, or no code is found and nothing
is removed. With a question mark the first account that fits decides; the individual into which its
credential is read was empty, so that what is stored with the new code is the credential itself. -/
theorem kept_prepareCandidateAccount (hacts : ActsAsStorage sv)
    (hkept : CredentialKept sv uri credential wp.world)
    (hfresh : rq.hasCode = false → wp.credential = .empty)
    (hsecret : rq.hasCode = true ∨ rq.secret = "?")
    (hcond : NoCodeFound sv uri rq accountId wp)
    (h : prepareCandidateAccount sv rq accountId ticket wp = some (decided, ticket', wp')) :
    CredentialKept sv uri credential wp'.world ∧
      (decided = false → rq.hasCode = false → wp'.credential = .empty) := by
  unfold prepareCandidateAccount at h
  cases hfits : fittingAccount sv rq wp.world accountId with
  | none =>
    rw [hfits] at h
    cases h
    exact ⟨hkept, fun _ => hfresh⟩
  | some fits =>
    obtain ⟨account, person⟩ := fits
    rw [hfits] at h
    obtain ⟨⟨account', wp₁⟩, hcredential, hrest⟩ := Option.bind_eq_some_iff.mp h
    have hworld := getCredential_world hcredential
    have hkept₁ : CredentialKept sv uri credential wp₁.world := by
      rcases hworld with ⟨-, -, -, -, -, -, hsame⟩ | ⟨hlost, -, hnew⟩
      · rw [hsame]
        exact hkept
      · rw [hnew]
        obtain ⟨hcrdt, haccount⟩ := hcond.created account person hfits hlost
        exact hkept.createNewCredential hacts wp.credential hcrdt haccount
    dsimp only at hrest
    cases hcode : rq.hasCode with
    | true =>
      rw [if_pos hcode] at hrest
      refine ⟨hkept₁.prepareSecretCode hacts (fun huri => ?_) hrest, fun _ hno => by cases hno⟩
      rcases hworld with ⟨link, stored, cur, hlink, hstored, hread, -⟩ | ⟨hlost, hnew, -⟩
      · obtain rfl : link = uri := by
          rw [← hacts.uri_of_read _ _ _ (read_of_getIndividual hstored), ← uri_readInto hread]
          exact huri
        obtain ⟨hmemory, hfound⟩ := hcond.read hcode account person hfits hlink
        have hfound := hfound stored hstored
        rw [firstLiteral_eq] at hmemory hfound ⊢
        rw [firstValueOf_readInto hread]
        cases hvalue : firstValueOf wp.credential "v-s:secret" with
        | none => rwa [Option.none_or]
        | some v =>
          rw [hvalue] at hmemory
          rwa [Option.some_or]
      · rw [hnew, uri_createNewCredential] at huri
        exact absurd huri.symm (hcond.created account person hfits hlost).1
    | false =>
      have hask : isRequestNewPassword sv rq wp₁.edited = true := by
        have hmark : rq.secret = "?" := hsecret.resolve_left (by rw [hcode]; decide)
        simp [isRequestNewPassword, hmark]
      rw [if_neg (by simp [hcode]), if_pos hask,
        if_pos (requestNewPassword_ne_ok account' wp₁)] at hrest
      cases hrest
      refine ⟨hkept₁.requestNewPassword hacts hcond.mail ?_ account', fun hno => by cases hno⟩
      intro huri p hp
      rcases hworld with ⟨link, stored, cur, hlink, hstored, hread, hsame⟩ | ⟨hlost, hnew, -⟩
      · -- the credential itself was read
        have hread' := read_of_getIndividual hstored
        have hlink' : link = uri := by
          rw [← hacts.uri_of_read _ _ _ hread', ← uri_readInto hread]
          exact huri
        obtain ⟨stored', hstored', hcontent⟩ := hkept
        obtain rfl : stored = stored' := by
          rw [hlink', hstored'] at hread'
          exact (Option.some.inj hread').symm
        rw [contentOf_readInto hread, hfresh hcode]
        exact hcontent p hp
      · rw [hnew, uri_createNewCredential] at huri
        exact absurd huri.symm (hcond.created account person hfits hlost).1

end Accounts

/-! ## Requests -/

section Requests

variable {W : Type} {sv : Services W} {rq : Request} {uri : String} {credential : IndividualObj}

theorem kept_prepareCandidates (hacts : ActsAsStorage sv)
    (hsecret : rq.hasCode = true ∨ rq.secret = "?") {ids : List String} {ticket : Ticket}
    {wp : WorkPlace W} (hkept : CredentialKept sv uri credential wp.world)
    (hfresh : rq.hasCode = false → wp.credential = .empty)
    (hcond : ∀ h ∈ handled sv rq ids ticket wp, NoCodeFound sv uri rq h.1 h.2) :
    (∀ h ∈ handled sv rq ids ticket wp, CredentialKept sv uri credential h.2.world) ∧
      ∀ out, prepareCandidates sv rq ids ticket wp = some out →
        CredentialKept sv uri credential out.2.2.world := by
  induction ids generalizing ticket wp with
  | nil =>
    refine ⟨fun h hh => (List.not_mem_nil hh).elim, fun out hout => ?_⟩
    cases hout
    exact hkept
  | cons id ids ih =>
    rw [handled, prepareCandidates]
    rw [handled] at hcond
    have hone : ∀ decided ticket' wp',
        prepareCandidateAccount sv rq id ticket wp = some (decided, ticket', wp') →
        CredentialKept sv uri credential wp'.world ∧
          (decided = false → rq.hasCode = false → wp'.credential = .empty) := fun _ _ _ =>
      kept_prepareCandidateAccount hacts hkept hfresh hsecret
        (hcond (id, wp) List.mem_cons_self)
    cases hstep : prepareCandidateAccount sv rq id ticket wp with
    | none =>
      refine ⟨fun h hh => ?_, fun out hout => by cases hout⟩
      rw [List.mem_singleton.mp hh]
      exact hkept
    | some out =>
      obtain ⟨decided, ticket', wp'⟩ := out
      obtain ⟨hkept', hfresh'⟩ := hone decided ticket' wp' hstep
      rw [hstep] at hcond
      cases decided with
      | true =>
        refine ⟨fun h hh => ?_, fun out hout => ?_⟩
        · rw [List.mem_singleton.mp hh]
          exact hkept
        · cases hout
          exact hkept'
      | false =>
        have hlater : ∀ h ∈ handled sv rq ids ticket' wp', NoCodeFound sv uri rq h.1 h.2 :=
          fun h hh => hcond h (List.mem_cons_of_mem _ hh)
        obtain ⟨hall, hend⟩ := ih hkept' (hfresh' rfl) hlater
        refine ⟨fun h hh => ?_, fun out hout => hend out hout⟩
        rcases List.mem_cons.mp hh with rfl | hh
        · exact hkept
        · exact hall h hh

theorem secret_of_not_refused (hsecret : rq.secret ≠ "") (h : refused rq = none) :
    rq.hasCode = true ∨ rq.secret = "?" := by
  unfold refused at h
  split_ifs at h with _ _ _ hshort
  by_cases hmark : rq.secret = "?"
  · exact .inr hmark
  · have hlong : ¬rq.secret.utf8ByteSize < 6 := fun hlt => hshort ⟨hsecret, hmark, hlt⟩
    refine .inl ?_
    simp only [Request.hasCode, decide_eq_true_eq]
    exact ⟨hsecret, by omega⟩

/-- **One request** with a secret keeps the credential. -/
theorem kept_request (hacts : ActsAsStorage sv) {server : Server W}
    (hkept : CredentialKept sv uri credential server.world) (hsecret : rq.secret ≠ "")
    (hcond : ∀ h ∈ handledBy sv (rq, server), NoCodeFound sv uri rq h.1 h.2) :
    (∀ h ∈ handledBy sv (rq, server), CredentialKept sv uri credential h.2.world) ∧
      ∀ ticket server', reqPrepare sv rq server = some (ticket, server') →
        CredentialKept sv uri credential server'.world := by
  unfold handledBy handledOf at hcond ⊢
  dsimp only at hcond ⊢
  cases hstart : loopStart sv rq server.world (server.statOf rq.login) with
  | none =>
    refine ⟨fun h hh => (List.not_mem_nil hh).elim, fun ticket server' hreq => ?_⟩
    obtain ⟨wp', hauth, rfl⟩ := exists_of_reqPrepare hreq
    dsimp only
    rw [eq_start_of_loopStart_none hstart hauth]
    exact hkept
  | some wp =>
    rw [hstart] at hcond
    obtain ⟨-, hworld, hauth⟩ := authenticate_of_loopStart hstart
    have hnotRefused : refused rq = none := by
      unfold loopStart at hstart
      split at hstart
      · cases hstart
      · assumption
    have hfresh : rq.hasCode = false → wp.credential = .empty := by
      unfold loopStart at hstart
      rw [hnotRefused] at hstart
      obtain ⟨stat, -, rfl⟩ := Option.map_eq_some_iff.mp hstart
      exact fun _ => rfl
    obtain ⟨hall, hend⟩ := kept_prepareCandidates hacts
      (secret_of_not_refused hsecret hnotRefused) (by rw [hworld]; exact hkept) hfresh hcond
    refine ⟨hall, fun ticket server' hreq => ?_⟩
    obtain ⟨wp', hauth', rfl⟩ := exists_of_reqPrepare hreq
    rw [hauth] at hauth'
    obtain ⟨out, hloop, heq⟩ := Option.map_eq_some_iff.mp hauth'
    obtain ⟨-, rfl⟩ := Prod.mk.inj heq
    exact hend out hloop

/-- **A credential is kept** through all requests with a secret in which no credential with a code is
found by a request with a code. -/
theorem credentialKept_of_noCodeFound (hacts : ActsAsStorage sv) {server : Server W}
    (hread : sv.read server.world uri = some credential) (rqs : List Request)
    (hcond : ∀ p ∈ answered sv server rqs, p.1.secret ≠ "" ∧
      ∀ h ∈ handledBy sv p, NoCodeFound sv uri p.1 h.1 h.2) :
    KeptThrough sv uri credential server rqs := by
  have hkept : CredentialKept sv uri credential server.world := ⟨credential, hread, fun _ _ => rfl⟩
  clear hread
  unfold KeptThrough
  induction rqs generalizing server with
  | nil => exact fun p hp => by cases hp
  | cons rq rqs ih =>
    rw [answered] at hcond ⊢
    obtain ⟨hsecret, hstep⟩ := hcond (rq, server) List.mem_cons_self
    obtain ⟨hall, hend⟩ := kept_request hacts hkept hsecret hstep
    intro p hp
    rcases List.mem_cons.mp hp with rfl | hp
    · exact ⟨hkept, hall, hend⟩
    · cases hreq : reqPrepare sv rq server with
      | none =>
        rw [hreq] at hp
        cases hp
      | some out =>
        obtain ⟨ticket, server'⟩ := out
        rw [hreq] at hp hcond
        exact ih (fun q hq => hcond q (List.mem_cons_of_mem _ hq)) (hend ticket server' hreq) p hp

end Requests

/-! ## A wrong secret code -/

theorem actsAsStorage_smallServices (found : List String) :
    ActsAsStorage (smallServices found) where
  uri_of_read := by
    intro w uri stored h
    have hfind : w.find? (fun indv => indv.uri = uri) = some stored := h
    exact of_decide_eq_true (List.find?_some hfind :)
  frame := by
    intro w cmd obj uri hne
    have hothers : (w.filter fun other => other.uri ≠ obj.uri).find? (fun indv => indv.uri = uri) =
        w.find? fun indv => indv.uri = uri := by
      rw [List.find?_filter]
      congr 1
      funext indv
      by_cases huri : indv.uri = uri
      · simp [huri, hne]
      · simp [huri]
    unfold smallServices
    dsimp only
    split_ifs
    · exact hothers
    · rw [List.find?_cons_of_neg (by simpa using Ne.symm hne)]
      exact hothers
  put := by
    intro w obj
    refine .inr ⟨obj, ?_, fun _ _ => rfl⟩
    unfold smallServices
    dsimp only
    rw [if_neg (by decide), List.find?_cons_of_pos (by simp)]

theorem actsAsStorage_secondServices : ActsAsStorage secondServices :=
  actsAsStorage_smallServices _

/-- A request with a secret code. -/
def codeRequest (secret : String) : Request := { loginRequest "ivan" firstHash with secret }

/-- The server with the second account, whose credential is given. -/
def serverWith (credential : IndividualObj) : Server (List IndividualObj) where
  suspicious := ∅
  world := credential :: otherIndividuals

/-- The credential of the second account, with a code. -/
def codeCredential : IndividualObj :=
  (credentialWith "d:acc2-crdt" secondHash).addString "v-s:secret" "654321" .none

/-- A wrong secret code does not cost only the code: after it the credential does not exist. -/
theorem not_credentialKept :
    ¬ ∀ (W : Type) (sv : Services W) (uri : String) (credential : IndividualObj)
      (server : Server W) (rqs : List Request), ActsAsStorage sv →
      sv.read server.world uri = some credential → WrongSecrets sv uri server rqs →
      KeptThrough sv uri credential server rqs := by
  intro hkeeps
  have hwrong : ((handledBy secondServices (codeRequest "111111", serverWith codeCredential)).all
      fun h => (secondServices.read h.2.world "d:acc2-crdt").all fun stored =>
        stored.firstLiteral "v-s:secret" ≠ some "111111") = true := by decide +kernel
  have hgone : (reqPrepare secondServices (codeRequest "111111")
      (serverWith codeCredential)).any (fun out =>
        (secondServices.read out.2.world "d:acc2-crdt").isNone) = true := by decide +kernel
  obtain ⟨⟨ticket, server'⟩, hreq, hnone⟩ := (Option.any_eq_true _ _).mp hgone
  have hkept := hkeeps _ secondServices "d:acc2-crdt" codeCredential
    (serverWith codeCredential) [codeRequest "111111"] actsAsStorage_secondServices rfl (by
      intro p hp
      rw [answered, hreq] at hp
      obtain rfl := List.mem_singleton.mp hp
      refine ⟨by decide, fun h hh stored hstored => ?_⟩
      have hall := List.all_eq_true.mp hwrong h hh
      rw [hstored] at hall
      exact of_decide_eq_true hall)
  obtain ⟨stored, hstored, -⟩ := (hkept (_, _) List.mem_cons_self).2.2 ticket server' hreq
  rw [hstored] at hnone
  cases hnone

/-- A wrong secret code keeps a credential that has no code. -/
theorem credentialKept_secondAccount :
    KeptThrough secondServices "d:acc2-crdt" (credentialWith "d:acc2-crdt" secondHash)
      (serverWith (credentialWith "d:acc2-crdt" secondHash)) [codeRequest "111111"] :=
  credentialKept_of_noCodeFound actsAsStorage_secondServices rfl [codeRequest "111111"] (by
    intro p hp
    have honly : p = (codeRequest "111111", serverWith (credentialWith "d:acc2-crdt" secondHash)) := by
      rcases List.mem_cons.mp hp with heq | hlater
      · exact heq
      · split at hlater <;> cases hlater
    subst honly
    refine ⟨by decide, fun h hh => ?_⟩
    have hplaces : ((handledBy secondServices (codeRequest "111111",
        serverWith (credentialWith "d:acc2-crdt" secondHash))).all fun h =>
          (h.2.credential.firstLiteral "v-s:secret").isNone &&
          ((getIndividual (secondServices.read h.2.world) "d:acc2-crdt").all fun stored =>
            (stored.firstLiteral "v-s:secret").isNone) &&
          (fittingAccount secondServices (codeRequest "111111") h.2.world h.1).all fun fits =>
            (fits.1.firstLiteral "v-s:usesCredential").any fun link =>
              (getIndividual (secondServices.read h.2.world) link).isSome) = true := by
      decide +kernel
    have hplace := List.all_eq_true.mp hplaces h hh
    simp only [Bool.and_eq_true, Option.isNone_iff_eq_none] at hplace
    obtain ⟨⟨hmemory, hcredential⟩, hfound⟩ := hplace
    refine ⟨fun _ _ _ _ _ => ⟨hmemory, fun stored hstored => ?_⟩, fun account person hfits hlost => ?_,
      by decide⟩
    · rw [hstored] at hcredential
      exact Option.isNone_iff_eq_none.mp hcredential
    · rw [show fittingAccount secondServices (codeRequest "111111") h.2.world h.1 =
        some (account, person) from hfits] at hfound
      obtain ⟨link, hlink, hsome⟩ := (Option.any_eq_true _ _).mp hfound
      rw [hlost link hlink] at hsome
      cases hsome)

end Veda.Auth
