import Veda.Auth.Common
import Veda.Authorization.Completeness
import Veda.Authorization.GroupTrace

set_option autoImplicit false

/-!
# Trusted login

A user of the trusted group logs in as somebody else by showing a ticket. `get_ticket_trusted` looks
for the trusted group among the traced groups of the ticket's user and then makes a ticket for the
owner of the first account found that has an owner and a login. It neither asks whether the ticket
is valid nor compares the login of the account with the requested one.

## Main definitions

* `Auth.getTicketTrusted` — the trusted login.
* `Auth.AsStrictAsLogin` — what a login asks for.
* `Auth.PassesChecks` — the checks that a trusted login makes.

## Main results

* `Auth.memberOf_of_getTicketTrusted` — who gets a ticket for somebody else.
* `Auth.getTicketTrusted_strict_iff` — when a trusted login is as strict as a login.
* `Auth.not_getTicketTrusted_strict` — it is not.

## Design

`_authorize` is the check of `Authorization` on the storage of access rights. `none` is a panic.
-/

namespace Veda.Auth

open Veda.Onto Veda.VModule Veda.Authorization

/-! ## The program -/

/-- What a trusted login reads. -/
structure TrustedEnv where
  conf : AuthConf
  clock : Clock
  /-- the identifier for a new ticket -/
  uuid : String
  /-- the individual of a new ticket gets into the storage -/
  stored : IndividualObj → Bool
  tickets : String → Option IndividualObj
  /-- the index of access rights -/
  az : Storage
  /-- the answers of the search engine to the queries of `cfg:VedaSystem` -/
  search : String → QueryResult
  read : String → Option IndividualObj

/-- A trace of groups only. -/
def groupTrace : Trace := { Trace.off with isGroup := true }

/-- The trusted group is a line of the trace of the groups of a user. -/
def isAllowTrusted (az : Storage) (userUri : String) : Bool :=
  match authorize userUri userUri 15 az groupTrace with
  | .ok (_, trace) => (linesOf trace.group).any fun gr => gr = allowTrustedGroup.toList
  | .error _ => false

/-- The account can be read and has an owner and a login. -/
def usable (env : TrustedEnv) (accountId : String) : Option IndividualObj :=
  (getIndividual env.read accountId).filter fun account =>
    ownerOf account ≠ "" ∧ loginOf account ≠ ""

/-- The loop over the candidates: it ends with the first account that can be used. -/
def trustedTicket (env : TrustedEnv) (login : String) : List String → Option (Option Ticket)
  | [] => none
  | accountId :: ids =>
    match usable env accountId with
    | some account =>
      some (createNewTicket env.clock env.uuid env.stored login (ownerOf account)
        env.conf.ticketLifetime Ticket.empty)
    | none => trustedTicket env login ids

def getTicketTrusted (env : TrustedEnv) (trTicketId login : Option String) : Option Ticket :=
  let login := login.getD ""
  let trTicketId := trTicketId.getD ""
  if login = "" ∨ trTicketId.utf8ByteSize < 6 then some Ticket.empty
  else do
    let trTicket ← getTicketFromDb env.clock env.tickets trTicketId
    let failed := { trTicket with result := .authenticationFailed }
    if trTicket.result = .ok ∧ isAllowTrusted env.az trTicket.userUri = true then
      let candidates := env.search (candidateQuery login)
      if candidates.resultCode = .ok ∧ 0 < candidates.count then
        match trustedTicket env login candidates.result with
        | some ticket => ticket
        | none => return failed
      else return failed
    else return failed

/-! ## What a login asks for -/

/-- What has to hold of a presented ticket and of a user for whom a ticket is made. -/
structure AsStrictAsLogin (env : TrustedEnv) (lower : String → String) (login : String)
    (trTicket : Ticket) (userId : String) : Prop where
  /-- the presented ticket is valid -/
  valid : (trTicket.isTicketValid env.clock).1 = true
  /-- its user is in the trusted group -/
  member : MemberOf env.az trTicket.userUri allowTrustedGroup
  /-- the user owns an account with the requested login -/
  owns : ∃ accountId ∈ (env.search (candidateQuery login)).result, ∃ account,
    getIndividual env.read accountId = some account ∧ ownerOf account = userId ∧
      lower (loginOf account) = lower login

/-- A request passes the checks that are made, for a ticket and the first usable account. -/
structure PassesChecks (env : TrustedEnv) (trTicketId login : Option String) (trTicket : Ticket)
    (account : IndividualObj) : Prop where
  login_ne : login.getD "" ≠ ""
  long : 6 ≤ (trTicketId.getD "").utf8ByteSize
  read : getTicketFromDb env.clock env.tickets (trTicketId.getD "") = some trTicket
  ok : trTicket.result = .ok
  allowed : isAllowTrusted env.az trTicket.userUri = true
  found : (env.search (candidateQuery (login.getD ""))).resultCode = .ok ∧
    0 < (env.search (candidateQuery (login.getD ""))).count
  first : (env.search (candidateQuery (login.getD ""))).result.findSome? (usable env) = some account
  stored : env.stored (ticketIndividual env.clock env.uuid (login.getD "") (ownerOf account)
    env.conf.ticketLifetime) = true
  named : NamesUser env.clock env.conf.ticketLifetime

/-- Every ticket for a user that the trusted login makes is made as strictly as by a login. -/
def TrustedIsStrict (env : TrustedEnv) (lower : String → String) (trTicketId login : Option String) :
    Prop :=
  ∀ ticket, getTicketTrusted env trTicketId login = some ticket → ticket.result = .ok →
    ticket.userUri ≠ "" → ∃ trTicket,
      getTicketFromDb env.clock env.tickets (trTicketId.getD "") = some trTicket ∧
        AsStrictAsLogin env lower (login.getD "") trTicket ticket.userUri

/-! ## What the checks show -/

variable {env : TrustedEnv} {lower : String → String} {trTicketId login : Option String}

/-- A line of the trace shows the membership when no identifier of a group of the user has a line
break. -/
theorem memberOf_of_isAllowTrusted {az : Storage} {userUri : String}
    (hbreaks : ∀ g, MemberOf az userUri g → '\n' ∉ g.toList)
    (h : isAllowTrusted az userUri = true) : MemberOf az userUri allowTrustedGroup := by
  unfold isAllowTrusted at h
  split at h
  · rename_i access trace hcheck
    obtain ⟨groups, htraces, hgroups⟩ := named_authorize rfl hcheck
    obtain ⟨line, hline, heq⟩ := List.any_eq_true.mp h
    rw [of_decide_eq_true heq] at hline
    have hno : ∀ g ∈ groups, '\n' ∉ g.toList := fun g hg =>
      (hgroups g hg).elim (fun h => by rw [h]; decide) (hbreaks g)
    have hmem := (mem_linesOf htraces hno (by decide)).mp hline
    exact (hgroups _ hmem).resolve_left (by decide)
  · cases h

theorem trustedTicket_eq (env : TrustedEnv) (login : String) (ids : List String) :
    trustedTicket env login ids = (ids.findSome? (usable env)).map fun account =>
      createNewTicket env.clock env.uuid env.stored login (ownerOf account)
        env.conf.ticketLifetime Ticket.empty := by
  induction ids with
  | nil => rfl
  | cons id ids ih =>
    rw [trustedTicket, List.findSome?_cons, ih]
    cases usable env id <;> rfl

theorem ownerOf_ne_of_first {ids : List String} {account : IndividualObj}
    (h : ids.findSome? (usable env) = some account) : ownerOf account ≠ "" := by
  obtain ⟨id, -, husable⟩ := List.exists_of_findSome?_eq_some h
  exact (of_decide_eq_true (Option.filter_eq_some_iff.mp husable).2).1

theorem PassesChecks.getTicketTrusted {trTicket : Ticket} {account : IndividualObj}
    (h : PassesChecks env trTicketId login trTicket account) : ∃ ticket,
      getTicketTrusted env trTicketId login = some ticket ∧ ticket.result = .ok ∧
        ticket.userUri = ownerOf account := by
  obtain ⟨ticket, hticket, hresult, huser⟩ := createNewTicket_eq env.clock env.uuid (login.getD "")
    (ownerOf account) env.conf.ticketLifetime (ownerOf_ne_of_first h.first) env.stored Ticket.empty
  have hok : ticket.result = .ok := hresult.mpr h.stored
  refine ⟨ticket, ?_, hok, (huser hok).trans (if_pos h.named)⟩
  unfold Auth.getTicketTrusted
  dsimp only
  rw [if_neg (by simpa using ⟨h.login_ne, h.long⟩), h.read]
  dsimp only [Option.bind_eq_bind, Option.bind_some]
  rw [if_pos ⟨h.ok, h.allowed⟩, if_pos h.found, trustedTicket_eq, h.first]
  exact hticket

theorem exists_passesChecks {ticket : Ticket}
    (h : getTicketTrusted env trTicketId login = some ticket) (hok : ticket.result = .ok)
    (huser : ticket.userUri ≠ "") : ∃ trTicket account,
      PassesChecks env trTicketId login trTicket account ∧ ticket.userUri = ownerOf account := by
  unfold Auth.getTicketTrusted at h
  dsimp only at h
  split at h
  · obtain rfl := Option.some.inj h
    cases hok
  rename_i hrequest
  push Not at hrequest
  obtain ⟨trTicket, hread, h⟩ := Option.bind_eq_some_iff.mp h
  -- the answer of a request that is refused does not have the code `ok`
  have hrefused : ∀ t : Ticket, t.result = .authenticationFailed → some t ≠ some ticket := by
    intro t ht heq
    obtain rfl := Option.some.inj heq
    rw [ht] at hok
    cases hok
  split at h
  · rename_i hallowed
    split at h
    · rename_i hfound
      rw [trustedTicket_eq] at h
      cases hfirst : (env.search (candidateQuery (login.getD ""))).result.findSome?
          (usable env) with
      | none =>
        rw [hfirst] at h
        exact absurd h (hrefused _ rfl)
      | some account =>
        rw [hfirst] at h
        obtain ⟨new, hnew, hresult, hnamed⟩ := createNewTicket_eq env.clock env.uuid
          (login.getD "") (ownerOf account) env.conf.ticketLifetime (ownerOf_ne_of_first hfirst)
          env.stored Ticket.empty
        obtain rfl : new = ticket := Option.some.inj (hnew.symm.trans h)
        have hnames : NamesUser env.clock env.conf.ticketLifetime := by
          by_contra hnot
          exact huser ((hnamed hok).trans (if_neg hnot))
        exact ⟨trTicket, account,
          { login_ne := hrequest.1, long := hrequest.2, read := hread, ok := hallowed.1,
            allowed := hallowed.2, found := hfound, first := hfirst, stored := hresult.mp hok,
            named := hnames },
          (hnamed hok).trans (if_pos hnames)⟩
    · exact absurd h (hrefused _ rfl)
  · exact absurd h (hrefused _ rfl)

/-! ## When a trusted login is as strict as a login -/

/-- **A trusted login is as strict as a login** exactly when a request that passes the checks that
are made passes the missing ones, too: the presented ticket is not expired and has a user, the
traced group is a group of this user, and the owner of the first usable account has an account with
the requested login. -/
theorem getTicketTrusted_strict_iff (env : TrustedEnv) (lower : String → String)
    (trTicketId login : Option String) :
    TrustedIsStrict env lower trTicketId login ↔
      ∀ trTicket account, PassesChecks env trTicketId login trTicket account →
        env.clock.seconds ≤ trTicket.endTime ∧ trTicket.userUri ≠ "" ∧
          MemberOf env.az trTicket.userUri allowTrustedGroup ∧
          ∃ accountId ∈ (env.search (candidateQuery (login.getD ""))).result, ∃ account',
            getIndividual env.read accountId = some account' ∧
              ownerOf account' = ownerOf account ∧
              lower (loginOf account') = lower (login.getD "") := by
  constructor
  · intro hstrict trTicket account hpasses
    obtain ⟨ticket, hticket, hok, huser⟩ := hpasses.getTicketTrusted
    obtain ⟨trTicket', hread, hlogin⟩ := hstrict ticket hticket hok
      (huser.trans_ne (ownerOf_ne_of_first hpasses.first))
    obtain rfl : trTicket = trTicket' := Option.some.inj (hpasses.read.symm.trans hread)
    obtain ⟨-, hend, hne⟩ := (trTicket.isTicketValid_iff env.clock).mp hlogin.valid
    exact ⟨hend, hne, hlogin.member, huser ▸ hlogin.owns⟩
  · intro hmissing ticket hticket hok huser
    obtain ⟨trTicket, account, hpasses, howner⟩ := exists_passesChecks hticket hok huser
    obtain ⟨hend, hne, hmember, howns⟩ := hmissing trTicket account hpasses
    exact ⟨trTicket, hpasses.read, (trTicket.isTicketValid_iff env.clock).mpr ⟨hpasses.ok, hend, hne⟩,
      hmember, howner ▸ howns⟩

/-- A ticket of `d:admin` that is valid for ten minutes. -/
def adminTicket : IndividualObj :=
  ((((IndividualObj.empty.setId "t:admin").addString "ticket:accessor" "d:admin" .none).addString
    "ticket:login" "admin" .none).addString "ticket:when" "2022-01-01T00:00:00" .none).addString
    "ticket:duration" "600" .none

/-- The account of `d:user`. -/
def userAccount : IndividualObj :=
  ((IndividualObj.empty.setId "d:account").addUri "v-s:owner" "d:user").addString "v-s:login" "user"
    .none

/-- A year after the ticket of `d:admin` was made. -/
def yearLater : TrustedEnv where
  conf := .standard
  clock :=
    { millis := 1672531200000
      text := "2023-01-01T00:00:00"
      parse := fun text =>
        if text = "2022-01-01T00:00:00" then some 1640995200
        else if text = "2023-01-01T00:00:00" then some 1672531200
        else none }
  uuid := "t:user"
  stored := fun _ => true
  tickets := fun id => if id = "t:admin" then some adminTicket else none
  az := .ofList [("Md:admin", "cfg:TrustedAuthenticationUserGroup;2;")]
  search := fun _ => ⟨["d:account"], 1, .ok⟩
  read := fun uri => if uri = "d:account" then some userAccount else none

/-- A trusted login is not as strict as a login: a ticket that expired a year ago still lets its
user log in as somebody else. -/
theorem not_getTicketTrusted_strict :
    ¬ ∀ (env : TrustedEnv) (lower : String → String) (trTicketId login : Option String),
      TrustedIsStrict env lower trTicketId login := by
  intro hstrict
  have hread : getTicketFromDb yearLater.clock yearLater.tickets "t:admin" =
      some ⟨"t:admin", "d:admin", "admin", .ok, 1640995200, 1640995800⟩ := by decide +kernel
  have hticket : getTicketTrusted yearLater (some "t:admin") (some "user") =
      some ⟨"t:user", "d:user", "user", .ok, 638081280000000000, 638081640000000000⟩ := by
    decide +kernel
  obtain ⟨trTicket, hread', hlogin⟩ := hstrict yearLater String.toLower (some "t:admin")
    (some "user") _ hticket rfl (by decide)
  obtain rfl := Option.some.inj (hread.symm.trans hread')
  exact absurd hlogin.valid (by decide)

/-! ## Who gets a ticket -/

/-- **A ticket for somebody else** is made only for a presented ticket whose user is in the trusted
group, and only for the owner of an account that the search for the login finds. A line of the trace
shows this as long as no group of the user has a line break in its identifier. -/
theorem memberOf_of_getTicketTrusted {ticket : Ticket}
    (hbreaks : ∀ trTicket, getTicketFromDb env.clock env.tickets (trTicketId.getD "") =
      some trTicket → ∀ g, MemberOf env.az trTicket.userUri g → '\n' ∉ g.toList)
    (h : getTicketTrusted env trTicketId login = some ticket) (hok : ticket.result = .ok)
    (huser : ticket.userUri ≠ "") : ∃ trTicket,
      getTicketFromDb env.clock env.tickets (trTicketId.getD "") = some trTicket ∧
        trTicket.result = .ok ∧ MemberOf env.az trTicket.userUri allowTrustedGroup ∧
        ∃ accountId ∈ (env.search (candidateQuery (login.getD ""))).result, ∃ account,
          usable env accountId = some account ∧ ticket.userUri = ownerOf account := by
  obtain ⟨trTicket, account, hpasses, howner⟩ := exists_passesChecks h hok huser
  obtain ⟨accountId, hmem, husable⟩ := List.exists_of_findSome?_eq_some hpasses.first
  exact ⟨trTicket, hpasses.read, hpasses.ok,
    memberOf_of_isAllowTrusted (hbreaks trTicket hpasses.read) hpasses.allowed,
    accountId, hmem, account, husable, howner⟩

/-- The ticket of `d:admin` lets its user log in as `d:user`. -/
theorem memberOf_of_getTicketTrusted_yearLater : ∃ trTicket,
    getTicketFromDb yearLater.clock yearLater.tickets "t:admin" = some trTicket ∧
      trTicket.result = .ok ∧ MemberOf yearLater.az trTicket.userUri allowTrustedGroup ∧
      ∃ accountId ∈ (yearLater.search (candidateQuery "user")).result, ∃ account,
        usable yearLater accountId = some account ∧ "d:user" = ownerOf account := by
  have hread : getTicketFromDb yearLater.clock yearLater.tickets "t:admin" =
      some ⟨"t:admin", "d:admin", "admin", .ok, 1640995200, 1640995800⟩ := by decide +kernel
  refine @memberOf_of_getTicketTrusted yearLater (some "t:admin") (some "user")
    ⟨"t:user", "d:user", "user", .ok, 638081280000000000, 638081640000000000⟩
    ?_ (by decide +kernel) rfl (by decide)
  intro trTicket htrTicket g hg
  obtain rfl := Option.some.inj (hread.symm.trans htrTicket)
  rcases Relation.ReflTransGen.cases_tail hg with rfl | ⟨uri, -, group, hgroup, rfl⟩
  · decide
  · obtain ⟨p, hp, hmem⟩ := mem_of_memberGroups_ofList hgroup
    obtain rfl := List.mem_singleton.mp hp
    exact (show ∀ group ∈ groupsOf "cfg:TrustedAuthenticationUserGroup;2;",
      '\n' ∉ group.id.toList by decide +kernel) group hmem

end Veda.Auth
