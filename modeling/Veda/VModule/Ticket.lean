import Mathlib.Algebra.Order.Ring.Int
import Veda.Lib.Decimal
import Veda.Onto.Values

set_option autoImplicit false

/-!
# Tickets

A ticket says who is logged in and until when. It is stored as an individual; a program that
reads it takes the user, the login and the time from there, and `is_ticket_valid` compares the
time with the clock.

## Main definitions

* `VModule.ResultCode` — the codes of answers.
* `VModule.Ticket` — tickets.
* `VModule.Ticket.updateFromIndividual`, `VModule.Ticket.isTicketValid` — reading a ticket
  and checking it.
* `VModule.createNewTicket`, `VModule.getTicketFromDb` — making one and fetching one.

## Main results

* `VModule.createNewTicket_eq` — what a new ticket says.

## Design

Reading a time from a text is done by a library and is a parameter, as is the text that it writes
for a point in time. Seconds and milliseconds are integers without a bound. `Option` is the outcome
of functions that can panic: `unwrap` of a missing `ticket:when` does.
-/

namespace Veda.VModule

open Veda.Lib Veda.Onto

inductive ResultCode
  | zero | ok | created | noContent | badRequest | forbidden | notFound | unprocessableEntity | locked
  | tooManyRequests | tooManyRequestsChangePassword | changePasswordForbidden | secretExpired
  | emptyPassword | newPasswordIsEqualToOld | invalidPassword | invalidSecret | passwordExpired
  | ticketNotFound | ticketExpired | notAuthorized | authenticationFailed | notReady
  | failOpenTransaction | failCommit | failStore | internalServerError | notImplemented
  | serviceUnavailable | invalidIdentifier | databaseModifiedError | diskFull | duplicateKey
  | sizeTooLarge | connectError
  deriving DecidableEq, Repr

structure Ticket where
  id : String
  userUri : String
  userLogin : String
  result : ResultCode
  startTime : Int
  endTime : Int
  deriving DecidableEq, Repr

/-- `Ticket::default`. -/
def Ticket.empty : Ticket := ⟨"", "", "", .authenticationFailed, 0, 0⟩

/-- The clock and the texts of its times. -/
structure Clock where
  /-- `Utc::now().timestamp_millis()` -/
  millis : Int
  /-- the current time as a text -/
  text : String
  /-- the time of a text, in seconds -/
  parse : String → Option Int

/-- `Utc::now().timestamp()`. -/
def Clock.seconds (clock : Clock) : Int := clock.millis / 1000

/-! ## Reading a ticket -/

/-- The largest number of an `i32`. -/
def i32Max : ℕ := 2147483647

/-- The duration that the individual of a ticket states. -/
def ticketDuration (src : IndividualObj) : Int :=
  (parseSigned i32Max (src.literalOrEmpty "ticket:duration").toList).getD 0

def Ticket.updateFromIndividual (clock : Clock) (ticket : Ticket) (src : IndividualObj) :
    Option Ticket :=
  let ticket := { ticket with
    id := src.uri
    userUri := src.literalOrEmpty "ticket:accessor"
    userLogin := src.literalOrEmpty "ticket:login" }
  if ticket.userUri ≠ "" ∧
      (src.firstLiteral "ticket:when" = none ∨ ticketDuration src < 10) then
    some { ticket with userUri := "" }
  else
    match src.firstLiteral "ticket:when" with
    | none => none
    | some text =>
      match clock.parse text with
      | some t => some { ticket with startTime := t, endTime := t + ticketDuration src }
      | none => some { ticket with userUri := "" }

/-- The answer, and the ticket with the code it gets. -/
def Ticket.isTicketValid (clock : Clock) (ticket : Ticket) : Bool × Ticket :=
  if ticket.result ≠ .ok then (false, ticket)
  else if ticket.endTime < clock.seconds then (false, { ticket with result := .ticketExpired })
  else if ticket.userUri = "" then (false, { ticket with result := .notReady })
  else (true, ticket)

/-- Read a ticket from the storage of tickets; a ticket that can be read has the code `ok`. -/
def getTicketFromDb (clock : Clock) (tickets : String → Option IndividualObj) (id : String) :
    Option Ticket :=
  match tickets id with
  | some indv => (Ticket.empty.updateFromIndividual clock indv).map ({ · with result := .ok })
  | none => some .empty

theorem Ticket.isTicketValid_iff (clock : Clock) (ticket : Ticket) :
    (ticket.isTicketValid clock).1 = true ↔
      ticket.result = .ok ∧ clock.seconds ≤ ticket.endTime ∧ ticket.userUri ≠ "" := by
  unfold isTicketValid
  split_ifs with hresult hend huser
  · simp [hresult]
  · exact iff_of_false (by simp) fun h => absurd h.2.1 (Int.not_le.mpr hend)
  · simp [huser]
  · simpa [huser, not_not.mp hresult] using hend

/-! ## Making a ticket -/

/-- The text of the current time in a ticket: at most 28 characters. -/
def Clock.ticketText (clock : Clock) : String :=
  if 28 < clock.text.utf8ByteSize then String.ofList (clock.text.toList.take 28) else clock.text

/-- The individual of a new ticket. -/
def ticketIndividual (clock : Clock) (id login userId : String) (duration : Int) :
    IndividualObj :=
  let indv := IndividualObj.empty.addString "rdf:type" "ticket:ticket" .none
  let indv := indv.setId id
  let indv := indv.addString "ticket:login" login .none
  let indv := indv.addString "ticket:accessor" userId .none
  let indv := indv.addString "ticket:when" clock.ticketText .none
  indv.addString "ticket:duration" (toString duration) .none

/-- The milliseconds before the year 1970. -/
def ticksToUnixEpoch : Int := 62135596800000

/-- Make a ticket for a user. `uuid` is the identifier that is made for a ticket that has none, and
`stored` says whether the individual gets into the storage. -/
def createNewTicket (clock : Clock) (uuid : String) (stored : IndividualObj → Bool)
    (login userId : String) (duration : Int) (ticket : Ticket) : Option Ticket :=
  let ticket := { ticket with result := .failStore }
  let id := if ticket.id = "" then uuid else ticket.id
  let indv := ticketIndividual clock id login userId duration
  if stored indv then
    (ticket.updateFromIndividual clock indv).map fun ticket =>
      let start := (ticksToUnixEpoch + clock.millis) * 10000
      { ticket with
        result := .ok
        startTime := start
        endTime := start + duration * 10000000 }
  else some ticket

section New

variable (clock : Clock) (id login userId : String) (duration : Int)

theorem literals_ticketIndividual :
    (ticketIndividual clock id login userId duration).firstLiteral "ticket:login" = some login ∧
      (ticketIndividual clock id login userId duration).firstLiteral "ticket:accessor" =
        some userId ∧
      (ticketIndividual clock id login userId duration).firstLiteral "ticket:when" =
        some clock.ticketText ∧
      (ticketIndividual clock id login userId duration).firstLiteral "ticket:duration" =
        some (toString duration) := by
  simp [ticketIndividual, IndividualObj.firstLiteral, IndividualObj.addString,
    IndividualObj.lookup_addValue, IndividualObj.empty]

/-- A new ticket names its user: the lifetime is at least ten seconds and no larger than an `i32`,
and the time that is written into it can be read back. -/
def NamesUser (clock : Clock) (duration : Int) : Prop :=
  10 ≤ duration ∧ duration ≤ i32Max ∧ (clock.parse clock.ticketText).isSome

instance : Decidable (NamesUser clock duration) := inferInstanceAs (Decidable (_ ∧ _ ∧ _))

theorem ticketDuration_ticketIndividual :
    ticketDuration (ticketIndividual clock id login userId duration) < 10 ↔
      ¬(10 ≤ duration ∧ duration ≤ i32Max) := by
  have hliteral := (literals_ticketIndividual clock id login userId duration).2.2.2
  rw [ticketDuration, IndividualObj.literalOrEmpty, hliteral, Option.getD_some]
  rcases lt_or_ge duration 0 with hneg | hpos
  · -- a negative number is read as a negative one, or not at all
    obtain ⟨n, rfl⟩ : ∃ n : ℕ, duration = Int.negSucc n :=
      ⟨(-duration - 1).toNat, by omega⟩
    have htext : (toString (Int.negSucc n)).toList = '-' :: Nat.toDigits 10 (n + 1) := by
      simp [toString, Int.repr, Nat.repr]
    rw [htext, parseSigned]
    refine iff_of_true ?_ (by omega)
    cases parseDigits (i32Max + 1) (Nat.toDigits 10 (n + 1)) <;> simp
    omega
  · obtain ⟨n, rfl⟩ := Int.eq_ofNat_of_zero_le hpos
    have htext : (toString (n : Int)).toList = Nat.toDigits 10 n := by
      simp [toString, Int.repr, Nat.repr]
    rw [htext, parseSigned_toDigits]
    split_ifs with h
    · simp only [Option.getD_some]
      omega
    · simp only [Option.getD_none]
      omega

theorem updateFromIndividual_ticketIndividual (huser : userId ≠ "") (ticket : Ticket) : ∃ new,
    ticket.updateFromIndividual clock (ticketIndividual clock id login userId duration) =
        some new ∧ new.userUri = if NamesUser clock duration then userId else "" := by
  obtain ⟨-, haccessor, hwhen, -⟩ := literals_ticketIndividual clock id login userId duration
  have hduration := ticketDuration_ticketIndividual clock id login userId duration
  unfold Ticket.updateFromIndividual
  rw [IndividualObj.literalOrEmpty, haccessor, Option.getD_some, hwhen]
  simp only [hduration]
  by_cases hlong : 10 ≤ duration ∧ duration ≤ i32Max
  · rw [if_neg (by simp [hlong])]
    cases hparse : clock.parse clock.ticketText with
    | some t => exact ⟨_, rfl, by simp [NamesUser, hlong, hparse]⟩
    | none => exact ⟨_, rfl, by simp [NamesUser, hparse]⟩
  · rw [if_pos ⟨huser, .inr hlong⟩]
    exact ⟨_, rfl, (if_neg fun h => hlong ⟨h.1, h.2.1⟩).symm⟩

/-- **A new ticket**: it has the code `ok` exactly when it got into the storage, and then it names
the user or nobody. -/
theorem createNewTicket_eq (huser : userId ≠ "") (stored : IndividualObj → Bool)
    (ticket : Ticket) : ∃ new,
    createNewTicket clock id stored login userId duration ticket = some new ∧
      (new.result = .ok ↔ stored (ticketIndividual clock
        (if ticket.id = "" then id else ticket.id) login userId duration) = true) ∧
      (new.result = .ok → new.userUri = if NamesUser clock duration then userId else "") := by
  unfold createNewTicket
  dsimp only
  generalize (if ticket.id = "" then id else ticket.id) = id'
  by_cases hstored : stored (ticketIndividual clock id' login userId duration) = true
  · rw [if_pos hstored]
    obtain ⟨new, hnew, hnames⟩ := updateFromIndividual_ticketIndividual clock id' login userId
      duration huser { ticket with result := .failStore }
    rw [hnew]
    exact ⟨_, rfl, by simp [hstored], fun _ => hnames⟩
  · rw [if_neg hstored]
    exact ⟨_, rfl, by simp [hstored], by simp⟩

end New

end Veda.VModule
