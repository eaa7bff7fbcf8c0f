import Veda.VModule.Ticket

set_option autoImplicit false

/-!
# The configuration of the authentication

What both ways to log in share: the configuration, the full-text query for the accounts of a
login, and what is read from an account. The query also finds accounts whose login only resembles
the requested one.

## Main definitions

* `Auth.AuthConf`, `Auth.UserStat` — the configuration and what is remembered of a login.
* `Auth.candidateQuery`, `Auth.QueryResult` — the search for accounts.
* `Auth.getIndividual` — reading an individual.

## Design

The search engine is a parameter, and so is the mapping of a text to lower case. Times and periods
are integers without a bound. An individual that is read has no predicate with an empty list of
values.
-/

namespace Veda.Auth

open Veda.Onto Veda.VModule

/-- The hash of the empty password. -/
def emptySha256Hash : String :=
  "e3b0c44298fc1c149afbf4c8996fb92427ae41e4649b934ca495991b7852b855"

def allowTrustedGroup : String := "cfg:TrustedAuthenticationUserGroup"

/-- What is remembered of the requests with one login. -/
structure UserStat where
  wrongCountLogin : Int
  lastWrongLoginDate : Int
  attemptChangePass : Int
  lastAttemptChangePassDate : Int
  deriving DecidableEq, Repr

/-- `UserStat::default`. -/
def UserStat.empty : UserStat := ⟨0, 0, 0, 0⟩

/-- The limits, and the periods in seconds. -/
structure AuthConf where
  failedAuthAttempts : Int
  failedChangePassAttempts : Int
  failedAuthLockPeriod : Int
  failedPassChangeLockPeriod : Int
  successPassChangeLockPeriod : Int
  ticketLifetime : Int
  secretLifetime : Int
  passLifetime : Int

/-- `AuthConf::default`. -/
def AuthConf.standard : AuthConf where
  failedAuthAttempts := 2
  failedChangePassAttempts := 2
  failedAuthLockPeriod := 30 * 60
  failedPassChangeLockPeriod := 30 * 60
  successPassChangeLockPeriod := 24 * 60 * 60
  ticketLifetime := 10 * 60 * 60
  secretLifetime := 12 * 60 * 60
  passLifetime := 90 * 24 * 60 * 60

/-- The answer of the search engine. -/
structure QueryResult where
  result : List String
  count : Int
  resultCode : ResultCode

/-- The query for the accounts of a login; a minus sign becomes a blank and a plus sign. -/
def candidateQuery (login : String) : String :=
  "'v-s:login' == '" ++
    String.ofList (login.toList.flatMap fun c => if c = '-' then [' ', '+'] else [c]) ++ "'"

/-- `Module::get_individual`. -/
def getIndividual (read : String → Option IndividualObj) (uri : String) : Option IndividualObj :=
  if uri = "" then none else read uri

/-- The owner of an account, or no text. -/
def ownerOf (account : IndividualObj) : String := account.literalOrEmpty "v-s:owner"

/-- The login of an account, or no text. -/
def loginOf (account : IndividualObj) : String := account.literalOrEmpty "v-s:login"

end Veda.Auth
