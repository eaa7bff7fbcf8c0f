import Veda.Auth.Authenticate

set_option autoImplicit false

/-!
# What a login proves

A login without a secret code is meant to prove the password of the account in whose name the ticket
is made. It does for an account without a credential, and for one whose credential cannot be read no
ticket is made at all. The password of a credential that is read comes from the individual into which
it is read; when a credential could not be read just before, this individual holds the password of
the account to which that one belongs, which was not compared with anything.

## Main definitions

* `Auth.ownPassword` — the password that an account has.
* `Auth.visits`, `Auth.handled` — the accounts that are found, and those looked at.
* `Auth.LoginProves` — every ticket is made for an owner of the password.
* `Auth.Borrows` — an account is looked at with the password of another one.

## Main results

* `Auth.authenticate_proves_iff` — when a login proves the password.
* `Auth.not_authenticate_proves` — it does not for two accounts with one login.
-/

namespace Veda.Auth

open Veda.Lib Veda.Onto Veda.VModule
open Veda.Mstorage (IndvOp)

section Definitions

variable {W : Type} (sv : Services W) (rq : Request)

/-- The password that an account has: that of its credential, or its own one when it has no
credential. -/
def ownPassword (w : W) (account : IndividualObj) : Option String :=
  match account.firstLiteral "v-s:usesCredential" with
  | some uri =>
    (getIndividual (sv.read w) uri).bind fun credential => credential.firstLiteral "v-s:password"
  | none => account.firstLiteral "v-s:password"

/-- An account of a user fits the login and has the given password. -/
def Proves (w : W) (accountId userId : String) : Prop :=
  ∃ account, getIndividual (sv.read w) accountId = some account ∧ ownerOf account = userId ∧
    sv.lower (loginOf account) = sv.lower rq.login ∧ ownPassword sv w account = some rq.password

/-- The accounts found, each with the world when the loop comes to it or when it has ended. -/
def visits : List String → Ticket → WorkPlace W → List (String × W)
  | [], _, _ => []
  | accountId :: ids, ticket, wp =>
    (accountId, wp.world) ::
      match prepareCandidateAccount sv rq accountId ticket wp with
      | some (false, ticket, wp) => visits ids ticket wp
      | some (true, _, wp) => ids.map fun id => (id, wp.world)
      | none => ids.map fun id => (id, wp.world)

/-- The accounts to which the loop comes, each with the work place before it. -/
def handled : List String → Ticket → WorkPlace W → List (String × WorkPlace W)
  | [], _, _ => []
  | accountId :: ids, ticket, wp =>
    (accountId, wp) ::
      match prepareCandidateAccount sv rq accountId ticket wp with
      | some (false, ticket, wp) => handled ids ticket wp
      | _ => []

/-- The work place with which the loop begins, when the request comes so far. -/
def loopStart (w : W) (stat : UserStat) : Option (WorkPlace W) :=
  match refused rq with
  | some _ => none
  | none => (checkAttempts sv rq stat).map fun stat => .start w stat

/-- Every ticket for a user is made for the owner of an account that fits the login and has the given
password. -/
def LoginProves (w : W) (stat : UserStat) : Prop :=
  ∀ ticket wp', authenticate sv rq (.start w stat) = some (ticket, wp') → ticket.result = .ok →
    ticket.userUri ≠ "" → ∃ wp, loopStart sv rq w stat = some wp ∧
      ∃ v ∈ visits sv rq (candidatesOf sv rq w) Ticket.empty wp, Proves sv rq v.2 v.1 ticket.userUri

/-- The individual of the credential holds the given password. -/
def HoldsGiven (wp : WorkPlace W) : Prop :=
  wp.credential.firstLiteral "v-s:password" = some rq.password

/-- An account is looked at with a password that was there before: it fits the login, its credential
is read into an individual that holds the given password, and this password is not too old. -/
structure Borrows (accountId : String) (wp : WorkPlace W) (account : IndividualObj) : Prop where
  fits : ∃ person, fittingAccount sv rq wp.world accountId = some (account, person)
  reads : ∃ uri stored credential cur, account.firstLiteral "v-s:usesCredential" = some uri ∧
    getIndividual (sv.read wp.world) uri = some stored ∧
    readInto wp.curPredicates wp.credential stored = some (credential, cur) ∧
    isRequestNewPassword sv rq (dateFromOf credential) = false
  holds : HoldsGiven rq wp

/-- A new ticket for a user gets into the storage, and it names the user. -/
def TicketMade (userId : String) : Prop :=
  rq.stored (ticketIndividual rq.clock rq.ticketUuid rq.login userId sv.conf.ticketLifetime) = true ∧
    NamesUser rq.clock sv.conf.ticketLifetime

end Definitions

/-! ## One account -/

section Steps

variable {W : Type} {sv : Services W} {rq : Request} {wp wp' wp₁ : WorkPlace W}
  {accountId : String} {account account' person : IndividualObj} {ticket ticket' : Ticket}
  {decided : Bool}

theorem fittingAccount_eq_some {w : W}
    (h : fittingAccount sv rq w accountId = some (account, person)) :
    getIndividual (sv.read w) accountId = some account ∧ ownerOf account ≠ "" ∧
      sv.lower (loginOf account) = sv.lower rq.login := by
  unfold fittingAccount at h
  obtain ⟨account', hread, h⟩ := Option.bind_eq_some_iff.mp h
  split_ifs at h with howner hlogin hlower
  obtain ⟨person', -, h⟩ := Option.bind_eq_some_iff.mp h
  obtain ⟨rfl, rfl⟩ := Prod.mk.inj (Option.some.inj h)
  exact ⟨hread, howner, not_not.mp hlower⟩

theorem firstLiteral_createNewCredential (credential account : IndividualObj) (w : W) :
    (createNewCredential sv credential account w).2.1.firstLiteral "v-s:password" =
      some (account.literalOrEmpty "v-s:password") := by
  unfold createNewCredential
  dsimp only
  split_ifs <;> exact IndividualObj.firstLiteral_setString ..

/-- **What is found about an account**: its credential was read, or it could not be read, or there is
none. -/
theorem getCredential_cases (h : getCredential sv account wp = some (account', wp₁)) :
    (∃ uri stored credential cur, account.firstLiteral "v-s:usesCredential" = some uri ∧
      getIndividual (sv.read wp.world) uri = some stored ∧
      readInto wp.curPredicates wp.credential stored = some (credential, cur) ∧
      wp₁ = { wp with
        credential := credential
        curPredicates := cur
        existPassword := credential.literalOrEmpty "v-s:password"
        edited := dateFromOf credential }) ∨
    (∃ uri, account.firstLiteral "v-s:usesCredential" = some uri ∧
      getIndividual (sv.read wp.world) uri = none ∧ wp₁.existPassword = wp.existPassword ∧
      wp₁.credential.firstLiteral "v-s:password" =
        some (account.literalOrEmpty "v-s:password")) ∨
    (account.firstLiteral "v-s:usesCredential" = none ∧
      wp₁.existPassword = account.literalOrEmpty "v-s:password" ∧
      wp₁.credential.firstLiteral "v-s:password" =
        some (account.literalOrEmpty "v-s:password")) := by
  have hnew : (createNewCredential sv wp.credential account wp.world).2.1.firstLiteral
      "v-s:password" = some (account.literalOrEmpty "v-s:password") :=
    firstLiteral_createNewCredential wp.credential account wp.world
  unfold getCredential at h
  cases huri : account.firstLiteral "v-s:usesCredential" with
  | none =>
    rw [huri] at h
    obtain ⟨-, rfl⟩ := Prod.mk.inj (Option.some.inj h)
    exact .inr (.inr ⟨rfl, rfl, hnew⟩)
  | some uri =>
    rw [huri] at h
    dsimp only at h
    cases hstored : getIndividual (sv.read wp.world) uri with
    | none =>
      rw [hstored] at h
      obtain ⟨-, rfl⟩ := Prod.mk.inj (Option.some.inj h)
      exact .inr (.inl ⟨uri, rfl, hstored, rfl, hnew⟩)
    | some stored =>
      rw [hstored] at h
      obtain ⟨⟨credential, cur⟩, hread, h⟩ := Option.bind_eq_some_iff.mp h
      obtain ⟨-, rfl⟩ := Prod.mk.inj (Option.some.inj h)
      exact .inl ⟨uri, stored, credential, cur, rfl, hstored, hread, rfl⟩

theorem storeNewSecret_ne_ok (account : IndividualObj) (wp : WorkPlace W) :
    (storeNewSecret sv rq account wp).1 ≠ .ok := by
  unfold storeNewSecret
  dsimp only
  split_ifs <;> simp

theorem requestNewPassword_ne_ok (account : IndividualObj) (wp : WorkPlace W) :
    (requestNewPassword sv rq account wp).1 ≠ .ok := by
  unfold requestNewPassword
  dsimp only
  split_ifs
  · simp
  · simp
  · simp
  · simp
  · exact storeNewSecret_ne_ok _ _
  · exact storeNewSecret_ne_ok _ _

/-- The passwords are the same, and long enough to be compared. -/
def Matches (rq : Request) (existPassword : String) : Prop :=
  63 < rq.password.utf8ByteSize ∧ existPassword = rq.password

theorem ne_empty_of_long {s : String} (h : 63 < s.utf8ByteSize) : s ≠ "" := by
  rintro rfl
  exact absurd h (by decide)

theorem attemptAuthentication_cases {userId : String}
    (h : attemptAuthentication sv rq userId ticket wp₁ = some (decided, ticket', wp')) :
    (Matches rq wp₁.existPassword ∧ decided = true ∧
      createNewTicket rq.clock rq.ticketUuid rq.stored rq.login userId sv.conf.ticketLifetime
        ticket = some ticket') ∨
    (¬Matches rq wp₁.existPassword ∧ decided = false ∧ ticket' = ticket ∧
      wp' = { wp₁ with userStat := { wp₁.userStat with
        wrongCountLogin := wp₁.userStat.wrongCountLogin + 1
        lastWrongLoginDate := rq.clock.seconds } }) := by
  unfold attemptAuthentication at h
  dsimp only at h
  split_ifs at h with hmatch
  · obtain ⟨-, -, hlong, hsame⟩ := hmatch
    obtain ⟨new, hnew, h⟩ := Option.bind_eq_some_iff.mp h
    cases h
    exact .inl ⟨⟨hlong, hsame⟩, rfl, hnew⟩
  · cases h
    refine .inr ⟨fun hm => hmatch ?_, rfl, rfl, rfl⟩
    have hne := ne_empty_of_long hm.1
    exact ⟨hm.2 ▸ hne, hne, hm.1, hm.2⟩

theorem attemptAuthentication_of_matches {userId : String} (h : Matches rq wp₁.existPassword)
    (hticket : createNewTicket rq.clock rq.ticketUuid rq.stored rq.login userId
      sv.conf.ticketLifetime ticket = some ticket') :
    ∃ wp', attemptAuthentication sv rq userId ticket wp₁ =
      some (true, ticket', wp') := by
  obtain ⟨hlong, hsame⟩ := h
  have hne := ne_empty_of_long hlong
  unfold attemptAuthentication
  dsimp only
  rw [if_pos ⟨hsame ▸ hne, hne, hlong, hsame⟩, hticket]
  exact ⟨_, rfl⟩

/-- **One account in a login without a secret code**: it does not fit; or a new password has to be
chosen; or the passwords match and a ticket is made; or they do not and the failure is counted. -/
theorem prepareCandidateAccount_cases (hcode : rq.hasCode = false)
    (h : prepareCandidateAccount sv rq accountId ticket wp = some (decided, ticket', wp')) :
    (fittingAccount sv rq wp.world accountId = none ∧ decided = false ∧ ticket' = ticket ∧
      wp' = wp) ∨
    ∃ account person account' wp₁,
      fittingAccount sv rq wp.world accountId = some (account, person) ∧
      getCredential sv account wp = some (account', wp₁) ∧
      ((isRequestNewPassword sv rq wp₁.edited = true ∧ decided = true ∧ ticket'.result ≠ .ok ∧
          wp' = (requestNewPassword sv rq account' wp₁).2) ∨
        (isRequestNewPassword sv rq wp₁.edited = false ∧
          attemptAuthentication sv rq (ownerOf account) ticket wp₁ =
            some (decided, ticket', wp'))) := by
  unfold prepareCandidateAccount at h
  cases hfits : fittingAccount sv rq wp.world accountId with
  | none =>
    rw [hfits] at h
    cases h
    exact .inl ⟨rfl, rfl, rfl, rfl⟩
  | some fits =>
    obtain ⟨account, person⟩ := fits
    rw [hfits] at h
    obtain ⟨⟨account', wp₁⟩, hcredential, h⟩ := Option.bind_eq_some_iff.mp h
    refine .inr ⟨account, person, account', wp₁, rfl, hcredential, ?_⟩
    dsimp only at h
    rw [if_neg (by simp [hcode])] at h
    split_ifs at h with hnew hres
    · cases h
      exact .inl ⟨hnew, rfl, hres, rfl⟩
    · exact absurd (not_not.mp hres) (requestNewPassword_ne_ok _ _)
    · exact .inr ⟨by simpa using hnew, h⟩

theorem undecided_spec (hcode : rq.hasCode = false)
    (h : prepareCandidateAccount sv rq accountId ticket wp = some (false, ticket', wp')) :
    ticket' = ticket ∧ (¬Matches rq wp.existPassword → ¬Matches rq wp'.existPassword) := by
  obtain ⟨-, -, rfl, rfl⟩ | ⟨account, person, account', wp₁, -, -, hrest⟩ :=
    prepareCandidateAccount_cases hcode h
  · exact ⟨rfl, fun h => h⟩
  · obtain ⟨-, hdecided, -⟩ | ⟨-, hattempt⟩ := hrest
    · cases hdecided
    · obtain ⟨-, hdecided, -⟩ | ⟨hno, -, rfl, rfl⟩ := attemptAuthentication_cases hattempt
      · cases hdecided
      · exact ⟨rfl, fun _ => hno⟩

theorem literalOrEmpty_readInto {cur cur' : ℕ} {obj stored obj' : IndividualObj}
    (h : readInto cur obj stored = some (obj', cur')) {password : String}
    (hne : password ≠ "") (hliteral : obj'.literalOrEmpty "v-s:password" = password) :
    obj.firstLiteral "v-s:password" = some password ∨
      stored.firstLiteral "v-s:password" = some password := by
  rw [IndividualObj.literalOrEmpty, firstLiteral_eq, firstValueOf_readInto h] at hliteral
  rw [firstLiteral_eq, firstLiteral_eq]
  have hget : ∀ o : Option String, o.getD "" = password → o = some password := by
    rintro (_ | s) ho
    · exact absurd ho.symm hne
    · rw [← ho]
      rfl
  cases hobj : firstValueOf obj "v-s:password" with
  | none => exact .inr (hget _ (by rw [hobj, Option.none_or] at hliteral; exact hliteral))
  | some v => exact .inl (hget _ (by rw [hobj, Option.some_or] at hliteral; exact hliteral))

/-- **An account that decides with a ticket** has the given password, or it borrowed it. -/
theorem decided_spec (hcode : rq.hasCode = false) (hno : ¬Matches rq wp.existPassword)
    (h : prepareCandidateAccount sv rq accountId ticket wp = some (true, ticket', wp'))
    (hok : ticket'.result = .ok) :
    ∃ account, ownerOf account ≠ "" ∧ 63 < rq.password.utf8ByteSize ∧
      createNewTicket rq.clock rq.ticketUuid rq.stored rq.login (ownerOf account)
        sv.conf.ticketLifetime ticket = some ticket' ∧
      (Proves sv rq wp.world accountId (ownerOf account) ∨ Borrows sv rq accountId wp account) := by
  obtain ⟨-, hdecided, -⟩ | ⟨account, person, account', wp₁, hfits, hcredential, hrest⟩ :=
    prepareCandidateAccount_cases hcode h
  · cases hdecided
  obtain ⟨-, -, hnot, -⟩ | ⟨hnew, hattempt⟩ := hrest
  · exact absurd hok hnot
  obtain ⟨⟨hlong, hsame⟩, -, hticket⟩ | ⟨-, hdecided, -⟩ := attemptAuthentication_cases hattempt
  · obtain ⟨hread, howner, hlogin⟩ := fittingAccount_eq_some hfits
    have hne := ne_empty_of_long hlong
    refine ⟨account, howner, hlong, hticket, ?_⟩
    obtain ⟨uri, stored, credential, cur, huri, hstored, hreads, rfl⟩ |
      ⟨uri, huri, hlost, hexist, -⟩ | ⟨hnone, hexist, -⟩ := getCredential_cases hcredential
    · rcases literalOrEmpty_readInto hreads hne hsame with hheld | hown
      · exact .inr ⟨⟨person, hfits⟩, ⟨uri, stored, credential, cur, huri, hstored, hreads, hnew⟩,
          hheld⟩
      · exact .inl ⟨account, hread, rfl, hlogin, by
          rw [ownPassword, huri]
          dsimp only
          rw [hstored]
          exact hown⟩
    · -- the password at hand was compared before
      exact absurd ⟨hlong, hexist.symm.trans hsame⟩ hno
    · refine .inl ⟨account, hread, rfl, hlogin, ?_⟩
      rw [ownPassword, hnone]
      dsimp only
      rw [hexist, IndividualObj.literalOrEmpty] at hsame
      cases hpassword : account.firstLiteral "v-s:password" with
      | none =>
        rw [hpassword] at hsame
        exact absurd hsame.symm hne
      | some password =>
        rw [hpassword, Option.getD_some] at hsame
        rw [hsame]
  · cases hdecided

theorem Borrows.decides {account : IndividualObj} (h : Borrows sv rq accountId wp account)
    (hcode : rq.hasCode = false) (hlong : 63 < rq.password.utf8ByteSize) (ticket : Ticket) :
    ownerOf account ≠ "" ∧ ∃ ticket' wp',
      prepareCandidateAccount sv rq accountId ticket wp = some (true, ticket', wp') ∧
        createNewTicket rq.clock rq.ticketUuid rq.stored rq.login (ownerOf account)
          sv.conf.ticketLifetime ticket = some ticket' := by
  obtain ⟨⟨person, hfits⟩, ⟨uri, stored, credential, cur, huri, hstored, hreads, hnew⟩, hholds⟩ := h
  obtain ⟨-, howner, -⟩ := fittingAccount_eq_some hfits
  obtain ⟨ticket', hticket, -⟩ := createNewTicket_eq rq.clock rq.ticketUuid rq.login
    (ownerOf account) sv.conf.ticketLifetime howner rq.stored ticket
  have hsame : credential.literalOrEmpty "v-s:password" = rq.password := by
    rw [HoldsGiven, firstLiteral_eq] at hholds
    obtain ⟨v, hv, hliteral⟩ := Option.bind_eq_some_iff.mp hholds
    rw [IndividualObj.literalOrEmpty, firstLiteral_eq, firstValueOf_readInto hreads, hv,
      Option.some_or, Option.bind_some, hliteral, Option.getD_some]
  obtain ⟨wp', hattempt⟩ : ∃ wp', attemptAuthentication sv rq (ownerOf account) ticket
      { wp with
        credential := credential
        curPredicates := cur
        existPassword := credential.literalOrEmpty "v-s:password"
        edited := dateFromOf credential } = some (true, ticket', wp') :=
    attemptAuthentication_of_matches ⟨hlong, hsame⟩ hticket
  refine ⟨howner, ticket', wp', ?_, hticket⟩
  unfold prepareCandidateAccount prepareFittingAccount getCredential
  simp only [hfits, huri, hstored, hreads, Option.bind_eq_bind, Option.bind_some, hcode, hnew,
    Option.pure_def]
  exact hattempt

theorem not_holdsGiven_start (w : W) (stat : UserStat) : ¬HoldsGiven rq (.start w stat) := by
  rw [HoldsGiven, WorkPlace.start, IndividualObj.firstLiteral_empty]
  simp

end Steps

/-! ## The loop -/

section Loop

variable {W : Type} {sv : Services W} {rq : Request}

theorem prepareCandidates_sound (hcode : rq.hasCode = false) {ids : List String} {ticket : Ticket}
    {wp : WorkPlace W} (hno : ¬Matches rq wp.existPassword) {ticket' : Ticket}
    {wp' : WorkPlace W} (h : prepareCandidates sv rq ids ticket wp = some (true, ticket', wp'))
    (hok : ticket'.result = .ok) :
    ∃ accountId wpAt account, ownerOf account ≠ "" ∧ 63 < rq.password.utf8ByteSize ∧
      createNewTicket rq.clock rq.ticketUuid rq.stored rq.login (ownerOf account)
        sv.conf.ticketLifetime ticket = some ticket' ∧
      (accountId, wpAt) ∈ handled sv rq ids ticket wp ∧
      (((accountId, wpAt.world) ∈ visits sv rq ids ticket wp ∧
          Proves sv rq wpAt.world accountId (ownerOf account)) ∨
        Borrows sv rq accountId wpAt account) := by
  induction ids generalizing ticket wp with
  | nil => cases h
  | cons id ids ih =>
    rw [prepareCandidates] at h
    obtain ⟨⟨decided, ticket₁, wp₁⟩, hstep, hrest⟩ := Option.bind_eq_some_iff.mp h
    dsimp only at hrest
    cases decided with
    | true =>
      cases hrest
      obtain ⟨account, howner, hlong, hticket, hpassword⟩ := decided_spec hcode hno hstep hok
      exact ⟨id, wp, account, howner, hlong, hticket, List.mem_cons_self,
        hpassword.imp_left fun hproves => ⟨List.mem_cons_self, hproves⟩⟩
    | false =>
      obtain ⟨rfl, hno₁⟩ := undecided_spec hcode hstep
      obtain ⟨accountId, wpAt, account, howner, hlong, hticket, hhandled, hpassword⟩ :=
        ih (hno₁ hno) hrest
      refine ⟨accountId, wpAt, account, howner, hlong, hticket, ?_, hpassword.imp_left fun hproves =>
        ⟨?_, hproves.2⟩⟩
      · rw [handled, hstep]
        exact List.mem_cons_of_mem _ hhandled
      · rw [visits, hstep]
        exact List.mem_cons_of_mem _ hproves.1

theorem prepareCandidates_of_borrows (hcode : rq.hasCode = false)
    (hlong : 63 < rq.password.utf8ByteSize) {ids : List String} {ticket : Ticket}
    {wp wpAt : WorkPlace W} {accountId : String} {account : IndividualObj}
    (hhandled : (accountId, wpAt) ∈ handled sv rq ids ticket wp)
    (hborrows : Borrows sv rq accountId wpAt account) :
    ownerOf account ≠ "" ∧ ∃ ticket' wp',
      prepareCandidates sv rq ids ticket wp = some (true, ticket', wp') ∧
        createNewTicket rq.clock rq.ticketUuid rq.stored rq.login (ownerOf account)
          sv.conf.ticketLifetime ticket = some ticket' := by
  induction ids generalizing ticket wp with
  | nil => cases hhandled
  | cons id ids ih =>
    rw [handled] at hhandled
    rcases List.mem_cons.mp hhandled with heq | hlater
    · obtain ⟨rfl, rfl⟩ := Prod.mk.inj heq
      obtain ⟨howner, ticket', wp', hstep, hticket⟩ := hborrows.decides hcode hlong ticket
      refine ⟨howner, ticket', wp', ?_, hticket⟩
      rw [prepareCandidates, hstep]
      rfl
    · cases hstep : prepareCandidateAccount sv rq id ticket wp with
      | none =>
        rw [hstep] at hlater
        cases hlater
      | some out =>
        obtain ⟨decided, ticket₁, wp₁⟩ := out
        rw [hstep] at hlater
        cases decided with
        | true => cases hlater
        | false =>
          obtain ⟨rfl, -⟩ := undecided_spec hcode hstep
          obtain ⟨howner, ticket', wp', hloop, hticket⟩ := ih hlater
          refine ⟨howner, ticket', wp', ?_, hticket⟩
          rw [prepareCandidates, hstep]
          exact hloop

end Loop

/-! ## The login -/

section Login

variable {W : Type} {sv : Services W} {rq : Request}

theorem hasCode_of_secret (h : rq.secret = "") : rq.hasCode = false := by
  rw [Request.hasCode, h]
  rfl

theorem authenticate_of_loopStart {w : W} {stat : UserStat} {wp : WorkPlace W}
    (h : loopStart sv rq w stat = some wp) :
    wp.existPassword = "" ∧ wp.world = w ∧ authenticate sv rq (.start w stat) =
      (prepareCandidates sv rq (candidatesOf sv rq w) Ticket.empty wp).map fun out =>
        (if out.1 then out.2.1 else { out.2.1 with result := .authenticationFailed }, out.2.2) := by
  unfold loopStart at h
  unfold authenticate
  cases hrefused : refused rq with
  | some res =>
    rw [hrefused] at h
    cases h
  | none =>
    rw [hrefused] at h
    obtain ⟨stat', hattempts, rfl⟩ := Option.map_eq_some_iff.mp h
    refine ⟨rfl, rfl, ?_⟩
    rw [show (WorkPlace.start w stat).userStat = stat from rfl, hattempts]
    change (prepareCandidates sv rq (candidatesOf sv rq w) Ticket.empty (.start w stat') >>= _) = _
    cases prepareCandidates sv rq (candidatesOf sv rq w) Ticket.empty (.start w stat') with
    | none => rfl
    | some out =>
      obtain ⟨decided, ticket, wp'⟩ := out
      cases decided <;> rfl

theorem exists_loopStart {w : W} {stat : UserStat} {ticket : Ticket} {wp' : WorkPlace W}
    (h : authenticate sv rq (.start w stat) = some (ticket, wp')) (hok : ticket.result = .ok) :
    ∃ wp, loopStart sv rq w stat = some wp ∧
      prepareCandidates sv rq (candidatesOf sv rq w) Ticket.empty wp = some (true, ticket, wp') := by
  cases hstart : loopStart sv rq w stat with
  | none =>
    exfalso
    unfold loopStart at hstart
    unfold authenticate at h
    cases hrefused : refused rq with
    | some res =>
      rw [hrefused] at h
      cases h
      have hres : res = .ok := hok
      unfold refused at hrefused
      split_ifs at hrefused <;> cases hrefused <;> cases hres
    | none =>
      rw [hrefused] at h hstart
      have hattempts : checkAttempts sv rq stat = none := by simpa using hstart
      rw [show (WorkPlace.start w stat).userStat = stat from rfl, hattempts] at h
      cases h
      cases hok
  | some wp =>
    refine ⟨wp, rfl, ?_⟩
    rw [(authenticate_of_loopStart hstart).2.2] at h
    obtain ⟨⟨decided, ticket₁, wp₁⟩, hloop, heq⟩ := Option.map_eq_some_iff.mp h
    cases decided with
    | true =>
      cases heq
      exact hloop
    | false =>
      cases heq
      cases hok

/-- **A login proves the password** of an account of the user named, unless the loop comes to an
account that fits the login and whose credential is read into an individual that holds the given
password already, and the user owns no account with this password.

**Proof sketch.** A ticket is made for an account whose password at hand is the given one. Without
a credential this is the account's own password; when the credential cannot be read it is the
password that was compared before; else it is the first literal of the individual into which the
credential was read. -/
theorem authenticate_proves_iff (hsecret : rq.secret = "") (w : W) (stat : UserStat) :
    LoginProves sv rq w stat ↔
      ∀ wp, loopStart sv rq w stat = some wp → 63 < rq.password.utf8ByteSize →
        ∀ place ∈ handled sv rq (candidatesOf sv rq w) Ticket.empty wp, ∀ account,
          Borrows sv rq place.1 place.2 account → TicketMade sv rq (ownerOf account) →
            ∃ v ∈ visits sv rq (candidatesOf sv rq w) Ticket.empty wp,
              Proves sv rq v.2 v.1 (ownerOf account) := by
  have hcode := hasCode_of_secret hsecret
  constructor
  · intro hproves wp hstart hlong place hhandled account hborrows hmade
    obtain ⟨howner, ticket, wp', hloop, hticket⟩ :=
      prepareCandidates_of_borrows hcode hlong hhandled hborrows
    obtain ⟨new, hnew, hresult, hnamed⟩ := createNewTicket_eq rq.clock rq.ticketUuid rq.login
      (ownerOf account) sv.conf.ticketLifetime howner rq.stored Ticket.empty
    obtain rfl : new = ticket := Option.some.inj (hnew.symm.trans hticket)
    have hok : new.result = .ok := hresult.mpr hmade.1
    have huser : new.userUri = ownerOf account := (hnamed hok).trans (if_pos hmade.2)
    have hauth := (authenticate_of_loopStart hstart).2.2
    rw [hloop] at hauth
    obtain ⟨wp₀, hstart₀, hvisit⟩ := hproves new wp' hauth hok (huser.trans_ne howner)
    obtain rfl : wp = wp₀ := Option.some.inj (hstart.symm.trans hstart₀)
    rwa [huser] at hvisit
  · intro hcond ticket wp' hauth hok huser
    obtain ⟨wp, hstart, hloop⟩ := exists_loopStart hauth hok
    have hno : ¬Matches rq wp.existPassword := by
      rintro ⟨hlong, hsame⟩
      rw [(authenticate_of_loopStart hstart).1] at hsame
      exact ne_empty_of_long hlong hsame.symm
    obtain ⟨accountId, wpAt, account, howner, hlong, hticket, hhandled, hpassword⟩ :=
      prepareCandidates_sound hcode hno hloop hok
    obtain ⟨new, hnew, hresult, hnamed⟩ := createNewTicket_eq rq.clock rq.ticketUuid rq.login
      (ownerOf account) sv.conf.ticketLifetime howner rq.stored Ticket.empty
    obtain rfl : new = ticket := Option.some.inj (hnew.symm.trans hticket)
    have hnames : NamesUser rq.clock sv.conf.ticketLifetime := by
      by_contra hnot
      exact huser ((hnamed hok).trans (if_neg hnot))
    rw [(hnamed hok).trans (if_pos hnames)]
    refine ⟨wp, hstart, ?_⟩
    rcases hpassword with ⟨hvisit, hproves⟩ | hborrows
    · exact ⟨_, hvisit, hproves⟩
    · exact hcond wp hstart hlong _ hhandled account hborrows ⟨hresult.mp hok, hnames⟩

end Login

/-! ## Two accounts with one login -/

instance {W : Type} (sv : Services W) (rq : Request) (w : W) (accountId userId : String) :
    Decidable (Proves sv rq w accountId userId) :=
  decidable_of_iff ((getIndividual (sv.read w) accountId).any fun account =>
      ownerOf account = userId ∧ sv.lower (loginOf account) = sv.lower rq.login ∧
        ownPassword sv w account = some rq.password) (by
    simp [Proves, Option.any_eq_true])

/-- A storage of a few individuals, in which every command succeeds. The logins are `ivan` and `Ivan`. -/
def smallServices (found : List String) : Services (List IndividualObj) where
  conf := .standard
  lower := fun login => if login = "Ivan" then "ivan" else login
  search := fun _ _ => ⟨found, found.length, .ok⟩
  read := fun w uri => w.find? fun indv => indv.uri = uri
  update := fun w cmd indv =>
    let others := w.filter fun other => other.uri ≠ indv.uri
    (.ok, if cmd = .remove then others else indv :: others)

/-- A request without a secret code in the year 2023. -/
def loginRequest (login password : String) : Request where
  login := login
  password := password
  secret := ""
  clock :=
    { millis := 1672531200000
      text := "2023-01-01T00:00:00"
      parse := fun text => if text = "2023-01-01T00:00:00" then some 1672531200 else none }
  ticketUuid := "t:1"
  stored := fun _ => true
  newSecret := "123456"
  mailUuid := "1"

/-- An account that uses a credential. -/
def accountWith (id owner login credential : String) : IndividualObj :=
  (((IndividualObj.empty.setId id).addUri "v-s:owner" owner).addString "v-s:login" login
    .none).addUri "v-s:usesCredential" credential

/-- The credential of an account. -/
def credentialWith (id password : String) : IndividualObj :=
  (IndividualObj.empty.setId id).addString "v-s:password" password .none

def firstHash : String := "5e884898da28047151d0e56f8dc6292773603d0d6aabbdd62a11ef721d1542d8"

def secondHash : String := "65e84be33532fb784c48129675f9eff3a682b27168c0ea744b2cf58ee02337c5"

/-- An account whose credential is lost, and which still carries its password. -/
def firstAccount : IndividualObj :=
  (accountWith "d:acc1" "d:user1" "ivan" "d:lost").addString "v-s:password" firstHash .none

/-- The accounts with the login and the persons, without the first account. -/
def otherIndividuals : List IndividualObj :=
  [accountWith "d:acc2" "d:user2" "Ivan" "d:acc2-crdt", credentialWith "d:acc2-crdt" secondHash,
    IndividualObj.empty.setId "d:user1", IndividualObj.empty.setId "d:user2"]

/-- Two accounts with the same login. -/
def twoAccounts : List IndividualObj := firstAccount :: otherIndividuals

/-- The credential that is made for the first account. -/
def firstCredential : IndividualObj :=
  ((IndividualObj.empty.setId "d:acc1-crdt").setUri "rdf:type" "v-s:Credential").setString
    "v-s:password" firstHash .none

/-- The work place after the first account was looked at. -/
def afterFirst : WorkPlace (List IndividualObj) where
  world := (firstAccount.remove "v-s:password").setUri "v-s:usesCredential" "d:acc1-crdt" ::
    firstCredential :: otherIndividuals
  userStat := { UserStat.empty with wrongCountLogin := 1, lastWrongLoginDate := 1672531200 }
  existPassword := ""
  edited := 0
  credential := firstCredential
  curPredicates := 0

theorem prepareCandidateAccount_firstAccount :
    prepareCandidateAccount (smallServices ["d:acc1", "d:acc2"]) (loginRequest "ivan" firstHash)
      "d:acc1" Ticket.empty (.start twoAccounts .empty) =
        some (false, Ticket.empty, afterFirst) := by
  rfl

/-- A login does not prove the password: with the password of the first account a ticket is made for
the owner of the second one. -/
theorem not_authenticate_proves :
    ¬ ∀ (W : Type) (sv : Services W) (rq : Request) (w : W) (stat : UserStat), rq.secret = "" →
      LoginProves sv rq w stat := by
  intro hproves
  have hstart : loopStart (smallServices ["d:acc1", "d:acc2"]) (loginRequest "ivan" firstHash)
      twoAccounts .empty = some (.start twoAccounts .empty) := rfl
  have hsecond : (prepareCandidateAccount (smallServices ["d:acc1", "d:acc2"])
      (loginRequest "ivan" firstHash) "d:acc2" Ticket.empty afterFirst).map
        (fun out => (out.1, out.2.1)) =
      some (true, ⟨"t:1", "d:user2", "ivan", .ok, 638081280000000000, 638081640000000000⟩) := by
    decide +kernel
  obtain ⟨⟨decided, ticket, wp'⟩, hsecond, heq⟩ := Option.map_eq_some_iff.mp hsecond
  obtain ⟨rfl, rfl⟩ := Prod.mk.inj heq
  have hcandidates : candidatesOf (smallServices ["d:acc1", "d:acc2"])
      (loginRequest "ivan" firstHash) twoAccounts = ["d:acc1", "d:acc2"] := rfl
  have hauth := (authenticate_of_loopStart hstart).2.2
  rw [hcandidates, prepareCandidates, prepareCandidateAccount_firstAccount] at hauth
  dsimp only [Option.bind_eq_bind, Option.bind_some] at hauth
  rw [if_neg Bool.false_ne_true, prepareCandidates, hsecond] at hauth
  obtain ⟨wp, hstart', v, hv, hproof⟩ := hproves _ _ _ _ _ rfl
    ⟨"t:1", "d:user2", "ivan", .ok, 638081280000000000, 638081640000000000⟩ wp' hauth rfl
    (by decide)
  obtain rfl := Option.some.inj (hstart.symm.trans hstart')
  -- the loop comes to the first account before the world changes, and to the second one after
  rw [hcandidates, visits, prepareCandidateAccount_firstAccount] at hv
  dsimp only at hv
  rw [visits, hsecond] at hv
  have hfirst : ¬Proves (smallServices ["d:acc1", "d:acc2"]) (loginRequest "ivan" firstHash)
      twoAccounts "d:acc1" "d:user2" := by decide +kernel
  have hlast : ¬Proves (smallServices ["d:acc1", "d:acc2"]) (loginRequest "ivan" firstHash)
      afterFirst.world "d:acc2" "d:user2" := by decide +kernel
  rcases List.mem_cons.mp hv with rfl | hv
  · exact hfirst hproof
  · rcases List.mem_cons.mp hv with rfl | hv
    · exact hlast hproof
    · cases hv

/-- With the second account alone its password proves who logs in. -/
theorem authenticate_proves_secondAccount :
    LoginProves (smallServices ["d:acc2"]) (loginRequest "ivan" secondHash) twoAccounts .empty :=
  (authenticate_proves_iff rfl twoAccounts .empty).mpr (by
    intro wp hstart _ place hhandled account hborrows _
    obtain rfl : .start twoAccounts .empty = wp := Option.some.inj hstart
    have honly : place.2 = .start twoAccounts .empty := by
      rcases List.mem_cons.mp hhandled with rfl | hlater
      · rfl
      · split at hlater <;> cases hlater
    have hholds := hborrows.holds
    rw [honly] at hholds
    exact absurd hholds (not_holdsGiven_start _ _))

end Veda.Auth
