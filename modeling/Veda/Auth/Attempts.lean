import Veda.Auth.Passwords
import Veda.Lib.Lockout

set_option autoImplicit false

/-!
# How often a password can be guessed

The server counts the failed logins under the login as it was written, while an account fits every
login that is equal to its own one up to the case of letters. So the number of guesses is limited for
each way to write the login, and for the account when all requests that come to the comparison within
one lock period write it in the same way.

## Main definitions

* `Auth.served` — requests that come to the server one after another.
* `Auth.compares` — a request comes to the comparison of the passwords.
* `Auth.Guessing` — requests against one account.
* `Auth.GuessingLimited` — the limit holds in every lock period.
* `Auth.OneSpelling` — the condition.

## Main results

* `Auth.step_of_served` — what one request does to the counter.
* `Auth.steps_served` — what requests do to the counter of a login.
* `Auth.guessingLimited_of_oneSpelling` — when guessing is limited.
* `Auth.not_guessingLimited` — another spelling has a counter of its own.
-/

namespace Veda.Auth

open Veda.Lib Veda.Onto Veda.VModule
open Veda.Lib.Lockout (Counter Try Step Steps)

/-! ## Requests one after another -/

section Definitions

variable {W : Type} (sv : Services W)

/-- A request, and the world in which it finds the server. -/
structure Event (W : Type) where
  rq : Request
  world : W

/-- The requests that the server takes, each with what is remembered of its login then. The server
takes no request after one that it does not answer. -/
def served : HashMap String UserStat → List (Event W) → List (Event W × UserStat)
  | _, [] => []
  | suspicious, e :: es =>
    (e, Server.statOf ⟨suspicious, e.world⟩ e.rq.login) ::
      match reqPrepare sv e.rq ⟨suspicious, e.world⟩ with
      | some (_, server) => served server.suspicious es
      | none => []

/-- The accounts to which a request comes. -/
def handledOf (p : Event W × UserStat) : List (String × WorkPlace W) :=
  match loopStart sv p.1.rq p.1.world p.2 with
  | some wp => handled sv p.1.rq (candidatesOf sv p.1.rq p.1.world) Ticket.empty wp
  | none => []

/-- The work place when the password of the request is compared with that of an account. -/
def comparison (rq : Request) (accountId : String) (wp : WorkPlace W) : Option (WorkPlace W) := do
  let (account, _) ← fittingAccount sv rq wp.world accountId
  let (_, wp₁) ← getCredential sv account wp
  if isRequestNewPassword sv rq wp₁.edited then none else some wp₁

/-- A request comes to the comparison with an account. -/
def compares (accountId : String) (p : Event W × UserStat) : Bool :=
  (handledOf sv p).any fun h => decide (h.1 = accountId) && (comparison sv p.1.rq h.1 h.2).isSome

/-- Requests without a secret code, in the order of time, which no other account fits and none of
which has the right password. -/
structure Guessing (accountId : String) (events : List (Event W)) : Prop where
  noSecret : ∀ e ∈ events, e.rq.secret = ""
  ordered : events.Pairwise fun e e' => e.rq.clock.seconds ≤ e'.rq.clock.seconds
  alone : ∀ p ∈ served sv ∅ events, ∀ h ∈ handledOf sv p,
    (fittingAccount sv p.1.rq h.2.world h.1).isSome → h.1 = accountId
  wrong : ∀ p ∈ served sv ∅ events, ∀ h ∈ handledOf sv p, h.1 = accountId →
    ∀ wp₁, comparison sv p.1.rq h.1 h.2 = some wp₁ → ¬Matches p.1.rq wp₁.existPassword

/-- In every time shorter than the lock period at most the configured number of requests come to the
comparison. -/
def GuessingLimited (accountId : String) (events : List (Event W)) : Prop :=
  ∀ t : Int, (((served sv ∅ events).countP fun p =>
    compares sv accountId p && decide (t ≤ p.1.rq.clock.seconds) &&
      decide (p.1.rq.clock.seconds < t + sv.conf.failedAuthLockPeriod) : ℕ) : Int) ≤
    sv.conf.failedAuthAttempts

/-- Two requests that come to the comparison within one lock period write the login alike. -/
def OneSpelling (accountId : String) (events : List (Event W)) : Prop :=
  ∀ p ∈ served sv ∅ events, ∀ q ∈ served sv ∅ events, compares sv accountId p = true →
    compares sv accountId q = true →
    q.1.rq.clock.seconds - p.1.rq.clock.seconds < sv.conf.failedAuthLockPeriod →
    p.1.rq.clock.seconds ≤ q.1.rq.clock.seconds → p.1.rq.login = q.1.rq.login

/-- The counter of a login. -/
def UserStat.counter (stat : UserStat) : Counter := ⟨stat.wrongCountLogin, stat.lastWrongLoginDate⟩

/-- A request as it counts for an account. -/
def tryOf (accountId : String) (p : Event W × UserStat) : Try :=
  ⟨p.1.rq.clock.seconds, compares sv accountId p⟩

end Definitions

/-! ## What one account does to the counter -/

section Accounts

variable {W : Type} {sv : Services W} {rq : Request} {accountId : String} {ticket ticket' : Ticket}
  {wp wp' wp₁ : WorkPlace W} {account account' : IndividualObj} {decided : Bool}

theorem userStat_getCredential (h : getCredential sv account wp = some (account', wp₁)) :
    wp₁.userStat = wp.userStat := by
  unfold getCredential at h
  split at h
  · split at h
    · obtain ⟨read, -, h⟩ := Option.bind_eq_some_iff.mp h
      cases h
      rfl
    · cases h
      rfl
  · cases h
    rfl

theorem counter_requestNewPassword (account : IndividualObj) (wp : WorkPlace W) :
    (requestNewPassword sv rq account wp).2.userStat.counter = wp.userStat.counter ∨
      (requestNewPassword sv rq account wp).2.userStat.counter =
        ⟨sv.conf.failedAuthAttempts + 1, rq.clock.seconds⟩ := by
  have hstore : ∀ wp : WorkPlace W,
      (storeNewSecret sv rq account wp).2.userStat.counter = wp.userStat.counter := by
    intro wp
    unfold storeNewSecret
    dsimp only
    split_ifs <;> rfl
  unfold requestNewPassword
  dsimp only
  split_ifs
  · exact .inl rfl
  · exact .inl rfl
  · exact .inr rfl
  · exact .inr rfl
  · exact .inl (hstore _)
  · exact .inl (hstore wp)

/-- How a counter that begins with `b` goes on: it does not fall, its time stays or is the present
one, and a comparison raises it now. -/
structure Raised (b now : Int) (compared : Prop) (c c' : Counter) : Prop where
  count : b ≤ c'.count
  last : c'.last = c.last ∨ c'.last = now
  compared : (b < c.count ∧ c.last = now) ∨ compared → b < c'.count ∧ c'.last = now

theorem Raised.refl {b now : Int} {c : Counter} (h : b ≤ c.count) : Raised b now False c c :=
  ⟨h, .inl rfl, fun hc => hc.resolve_right not_false⟩

theorem Raised.trans {b now : Int} {p q : Prop} {c c' c'' : Counter} (h : Raised b now p c c')
    (h' : Raised b now q c' c'') : Raised b now (p ∨ q) c c'' where
  count := h'.count
  last := by
    rcases h'.last with hsame | hnow
    · rw [hsame]
      exact h.last
    · exact .inr hnow
  compared := by
    rintro (hbefore | hp | hq)
    · exact h'.compared (.inl (h.compared (.inl hbefore)))
    · exact h'.compared (.inl (h.compared (.inr hp)))
    · exact h'.compared (.inr hq)

/-- **What one account does to the counter** when its password does not match. -/
theorem raised_prepareCandidateAccount (hcode : rq.hasCode = false) {b : Int}
    (hb : b < sv.conf.failedAuthAttempts) (hle : b ≤ wp.userStat.counter.count)
    (hwrong : ∀ wp₁, comparison sv rq accountId wp = some wp₁ → ¬Matches rq wp₁.existPassword)
    (h : prepareCandidateAccount sv rq accountId ticket wp = some (decided, ticket', wp')) :
    Raised b rq.clock.seconds ((comparison sv rq accountId wp).isSome = true)
      wp.userStat.counter wp'.userStat.counter := by
  unfold comparison at hwrong ⊢
  obtain ⟨hnone, -, -, rfl⟩ | ⟨account, person, account', wp₁, hfits, hcredential, hrest⟩ :=
    prepareCandidateAccount_cases hcode h
  · rw [hnone]
    simpa using Raised.refl hle
  have hstat := userStat_getCredential hcredential
  rw [hfits] at hwrong ⊢
  simp only [Option.bind_eq_bind, Option.bind_some, hcredential] at hwrong ⊢
  obtain ⟨hnew, -, -, rfl⟩ | ⟨hnew, hattempt⟩ := hrest
  · rw [if_pos hnew]
    rcases @counter_requestNewPassword W sv rq account' wp₁ with hsame | hblocked
    · rw [hsame, hstat]
      simpa using Raised.refl hle
    · rw [hblocked]
      refine ⟨?_, .inr rfl, fun _ => ⟨?_, rfl⟩⟩ <;>
      · dsimp only
        omega
  · rw [if_neg (by simp [hnew])] at hwrong ⊢
    obtain ⟨hmatch, -⟩ | ⟨-, -, -, rfl⟩ := attemptAuthentication_cases hattempt
    · exact absurd hmatch (hwrong wp₁ rfl)
    · have hcount : b ≤ wp₁.userStat.wrongCountLogin := by
        rw [hstat]
        exact hle
      refine ⟨?_, .inr rfl, fun _ => ⟨?_, rfl⟩⟩ <;>
      · dsimp only [UserStat.counter]
        omega

/-- **What the loop does to the counter** when no password matches. -/
theorem raised_prepareCandidates (hcode : rq.hasCode = false) {b : Int}
    (hb : b < sv.conf.failedAuthAttempts) {ids : List String} (hle : b ≤ wp.userStat.counter.count)
    (hwrong : ∀ h ∈ handled sv rq ids ticket wp, ∀ wp₁, comparison sv rq h.1 h.2 = some wp₁ →
      ¬Matches rq wp₁.existPassword)
    (h : prepareCandidates sv rq ids ticket wp = some (decided, ticket', wp')) :
    Raised b rq.clock.seconds
      (∃ h ∈ handled sv rq ids ticket wp, (comparison sv rq h.1 h.2).isSome = true)
      wp.userStat.counter wp'.userStat.counter := by
  induction ids generalizing ticket wp with
  | nil =>
    cases h
    simpa [handled] using Raised.refl hle
  | cons id ids ih =>
    rw [prepareCandidates] at h
    obtain ⟨⟨first, ticket₁, wp₁⟩, hstep, hrest⟩ := Option.bind_eq_some_iff.mp h
    have hone := raised_prepareCandidateAccount hcode hb hle
      (hwrong (id, wp) List.mem_cons_self) hstep
    rw [handled, hstep] at hwrong ⊢
    dsimp only at hrest
    cases first with
    | true =>
      cases hrest
      simpa using hone
    | false =>
      have hlater := ih hone.count (fun h hh => hwrong h (List.mem_cons_of_mem _ hh)) hrest
      simpa [or_and_right, exists_or] using hone.trans hlater

end Accounts

/-! ## What one request does to the counter -/

section Requests

variable {W : Type} {sv : Services W} {accountId : String}

theorem checkAttempts_cases {rq : Request} {stat stat' : UserStat}
    (h : checkAttempts sv rq stat = some stat') :
    (stat' = stat ∧ stat.counter.count < sv.conf.failedAuthAttempts) ∨
      (sv.conf.failedAuthLockPeriod ≤ rq.clock.seconds - stat.counter.last ∧
        stat'.counter = ⟨0, rq.clock.seconds⟩) := by
  unfold checkAttempts at h
  split_ifs at h with hmany hlong
  · cases h
    exact .inr ⟨not_lt.mp hlong, rfl⟩
  · cases h
    exact .inl ⟨rfl, not_le.mp hmany⟩

theorem eq_start_of_loopStart_none {rq : Request} {w : W} {stat : UserStat} {ticket : Ticket}
    {wp' : WorkPlace W} (hstart : loopStart sv rq w stat = none)
    (h : authenticate sv rq (.start w stat) = some (ticket, wp')) : wp' = .start w stat := by
  unfold loopStart at hstart
  unfold authenticate at h
  cases hrefused : refused rq with
  | some res =>
    rw [hrefused] at h
    cases h
    rfl
  | none =>
    rw [hrefused] at h hstart
    have hattempts : checkAttempts sv rq stat = none := by simpa using hstart
    rw [show (WorkPlace.start w stat).userStat = stat from rfl, hattempts] at h
    cases h
    rfl

/-- **What one request does to the counter** when no password matches: it is an attempt, or it is
none. Of a request that is not answered the counter is not seen.

**Proof sketch.** The loop begins with a counter below the limit, as the request was let through. The
counter does not fall in the loop, and a comparison raises it. -/
theorem step_of_served (hlimit : 1 ≤ sv.conf.failedAuthAttempts) {e : Event W} {stat : UserStat}
    (hcode : e.rq.hasCode = false) (hpos : 0 ≤ stat.counter.count)
    (hwrong : ∀ h ∈ handledOf sv (e, stat), ∀ wp₁, comparison sv e.rq h.1 h.2 = some wp₁ →
      ¬Matches e.rq wp₁.existPassword) :
    ∃ c', Step sv.conf.failedAuthAttempts sv.conf.failedAuthLockPeriod stat.counter
        e.rq.clock.seconds (compares sv accountId (e, stat)) c' ∧
      ∀ ticket wp', authenticate sv e.rq (.start e.world stat) = some (ticket, wp') →
        wp'.userStat.counter = c' ∧ 0 ≤ c'.count := by
  cases hstart : loopStart sv e.rq e.world stat with
  | none =>
    have hno : compares sv accountId (e, stat) = false := by simp [compares, handledOf, hstart]
    refine ⟨stat.counter, by rw [hno]; exact .raised le_rfl (.inl le_rfl), ?_⟩
    intro ticket wp' hauth
    rw [eq_start_of_loopStart_none hstart hauth]
    exact ⟨rfl, hpos⟩
  | some wp =>
    have hhandled : handledOf sv (e, stat) =
        handled sv e.rq (candidatesOf sv e.rq e.world) Ticket.empty wp := by
      simp only [handledOf, hstart]
    rw [hhandled] at hwrong
    -- the counter with which the loop begins
    have hbegin : (wp.userStat.counter = stat.counter ∧
        stat.counter.count < sv.conf.failedAuthAttempts) ∨
        (sv.conf.failedAuthLockPeriod ≤ e.rq.clock.seconds - stat.counter.last ∧
          wp.userStat.counter = ⟨0, e.rq.clock.seconds⟩) := by
      unfold loopStart at hstart
      split at hstart
      · cases hstart
      · obtain ⟨stat', hattempts, rfl⟩ := Option.map_eq_some_iff.mp hstart
        exact (checkAttempts_cases hattempts).imp (fun h => ⟨congrArg _ h.1, h.2⟩) fun h => h
    have hstep : ∀ c', Raised wp.userStat.counter.count e.rq.clock.seconds
        (compares sv accountId (e, stat) = true) wp.userStat.counter c' →
        Step sv.conf.failedAuthAttempts sv.conf.failedAuthLockPeriod stat.counter
          e.rq.clock.seconds (compares sv accountId (e, stat)) c' ∧ 0 ≤ c'.count := by
      intro c' hraised
      cases hcompares : compares sv accountId (e, stat) with
      | true =>
        obtain ⟨hcount, hlast⟩ := hraised.compared (.inr hcompares)
        rcases hbegin with ⟨hsame, hbelow⟩ | ⟨hlong, hzero⟩
        · rw [hsame] at hcount
          exact ⟨.attempt hbelow hcount (by omega) hlast.ge, by omega⟩
        · rw [hzero] at hcount
          dsimp only at hcount
          exact ⟨.attemptLater hlong hcount hlast.ge, by omega⟩
      | false =>
        have hcount := hraised.count
        rcases hbegin with ⟨hsame, hbelow⟩ | ⟨hlong, hzero⟩
        · rw [hsame] at hcount
          refine ⟨.raised hcount ?_, by omega⟩
          exact hraised.last.imp (fun h => by rw [h, hsame]) fun h => h.ge
        · rw [hzero] at hcount
          exact ⟨.expired hlong, hcount⟩
    have hbelow : wp.userStat.counter.count < sv.conf.failedAuthAttempts := by
      rcases hbegin with ⟨hsame, hbelow⟩ | ⟨-, hzero⟩
      · rw [hsame]
        exact hbelow
      · rw [hzero]
        dsimp only
        omega
    cases hloop : prepareCandidates sv e.rq (candidatesOf sv e.rq e.world) Ticket.empty wp with
    | none =>
      -- the request is not answered
      refine ⟨⟨wp.userStat.counter.count + 1, e.rq.clock.seconds⟩, (hstep _ ?_).1, ?_⟩
      · exact ⟨by dsimp only; omega, .inr rfl, fun _ => ⟨by dsimp only; omega, rfl⟩⟩
      · intro ticket wp' hauth
        rw [(authenticate_of_loopStart hstart).2.2, hloop] at hauth
        cases hauth
    | some out =>
      obtain ⟨decided, ticket', wp''⟩ := out
      have hraised := raised_prepareCandidates hcode hbelow le_rfl hwrong hloop
      have hmore : Raised wp.userStat.counter.count e.rq.clock.seconds
          (compares sv accountId (e, stat) = true) wp.userStat.counter wp''.userStat.counter := by
        refine ⟨hraised.count, hraised.last, fun hc => hraised.compared (hc.imp_right fun h => ?_)⟩
        obtain ⟨p, hp, hpc⟩ := List.any_eq_true.mp h
        rw [hhandled] at hp
        exact ⟨p, hp, (Bool.and_eq_true _ _ ▸ hpc).2⟩
      refine ⟨wp''.userStat.counter, (hstep _ hmore).1, ?_⟩
      intro ticket wp' hauth
      rw [(authenticate_of_loopStart hstart).2.2, hloop] at hauth
      obtain ⟨-, rfl⟩ := Prod.mk.inj (Option.some.inj hauth)
      exact ⟨rfl, (hstep _ hmore).2⟩

end Requests

/-! ## What requests do to the counter of a login -/

section Runs

variable {W : Type} {sv : Services W} {accountId : String}

/-- No request counts below zero. -/
def NonnegCounts (suspicious : HashMap String UserStat) : Prop :=
  ∀ login stat, suspicious.lookup login = some stat → 0 ≤ stat.counter.count

theorem nonneg_statOf {suspicious : HashMap String UserStat} (h : NonnegCounts suspicious) (w : W)
    (login : String) : 0 ≤ (Server.statOf ⟨suspicious, w⟩ login).counter.count := by
  unfold Server.statOf
  cases hstat : suspicious.lookup login with
  | none => exact le_rfl
  | some stat => exact h login stat hstat

/-- **What requests do to the counter of a login**: they are steps of a lockout.

**Proof sketch.** By induction on the requests. A request with another login does not change what is
remembered of this one. -/
theorem steps_served (hlimit : 1 ≤ sv.conf.failedAuthAttempts) (login : String)
    {suspicious : HashMap String UserStat} (hnonneg : NonnegCounts suspicious)
    {events : List (Event W)} (hcode : ∀ e ∈ events, e.rq.hasCode = false)
    (hwrong : ∀ p ∈ served sv suspicious events, ∀ h ∈ handledOf sv p, ∀ wp₁,
      comparison sv p.1.rq h.1 h.2 = some wp₁ → ¬Matches p.1.rq wp₁.existPassword)
    {stat : UserStat} (hstat : stat = (suspicious.lookup login).getD .empty) :
    Steps sv.conf.failedAuthAttempts sv.conf.failedAuthLockPeriod stat.counter
      (((served sv suspicious events).filter fun p => p.1.rq.login = login).map
        (tryOf sv accountId)) := by
  induction events generalizing suspicious stat with
  | nil => exact .nil
  | cons e es ih =>
    rw [served] at hwrong ⊢
    obtain ⟨c', hstep, hcounter⟩ := @step_of_served W sv accountId hlimit e _
      (hcode e List.mem_cons_self) (nonneg_statOf hnonneg e.world e.rq.login)
      (hwrong _ List.mem_cons_self)
    -- the requests that follow
    have hrest : ∀ stat', (∀ ticket server, reqPrepare sv e.rq ⟨suspicious, e.world⟩ =
          some (ticket, server) → stat' = (server.suspicious.lookup login).getD .empty) →
        Steps sv.conf.failedAuthAttempts sv.conf.failedAuthLockPeriod stat'.counter
          (((match reqPrepare sv e.rq ⟨suspicious, e.world⟩ with
            | some (_, server) => served sv server.suspicious es
            | none => []).filter fun p : Event W × UserStat => p.1.rq.login = login).map
              (tryOf sv accountId)) := by
      intro stat' hstat'
      cases hreq : reqPrepare sv e.rq ⟨suspicious, e.world⟩ with
      | none => exact .nil
      | some out =>
        obtain ⟨ticket, server⟩ := out
        rw [hreq] at hwrong
        refine ih ?_ (fun e he => hcode e (List.mem_cons_of_mem _ he))
          (fun p hp => hwrong p (List.mem_cons_of_mem _ hp)) (hstat' ticket server hreq)
        obtain ⟨wp', hauth, rfl⟩ := exists_of_reqPrepare hreq
        intro login' stat'' hlookup
        by_cases hlogin : login' = e.rq.login
        · rw [hlogin, AList.lookup_insert] at hlookup
          obtain rfl := Option.some.inj hlookup
          obtain ⟨hsame, hpos⟩ := hcounter _ _ hauth
          rw [hsame]
          exact hpos
        · rw [AList.lookup_insert_ne hlogin] at hlookup
          exact hnonneg login' stat'' hlookup
    by_cases hlogin : e.rq.login = login
    · rw [List.filter_cons_of_pos (by simpa using hlogin), List.map_cons]
      have hsame : Server.statOf ⟨suspicious, e.world⟩ e.rq.login = stat := by
        rw [hstat, Server.statOf, hlogin]
      rw [hsame] at hstep hcounter ⊢
      cases hreq : reqPrepare sv e.rq ⟨suspicious, e.world⟩ with
      | none => exact .cons hstep .nil
      | some out =>
        obtain ⟨ticket, server⟩ := out
        obtain ⟨wp', hauth, rfl⟩ := exists_of_reqPrepare hreq
        rw [show (WorkPlace.start e.world (Server.statOf ⟨suspicious, e.world⟩ e.rq.login)) =
          .start e.world stat by rw [hsame]] at hauth
        obtain ⟨hcount, -⟩ := hcounter _ _ hauth
        have hlater := hrest wp'.userStat (fun ticket₂ server₂ hreq₂ => by
          rw [hreq] at hreq₂
          obtain ⟨-, rfl⟩ := Prod.mk.inj (Option.some.inj hreq₂)
          rw [hlogin, AList.lookup_insert]
          rfl)
        rw [hreq, hcount] at hlater
        exact .cons hstep hlater
    · rw [List.filter_cons_of_neg (by simpa using hlogin)]
      refine hrest stat fun ticket server hreq => ?_
      obtain ⟨wp', hauth, rfl⟩ := exists_of_reqPrepare hreq
      rw [hstat, AList.lookup_insert_ne (Ne.symm hlogin)]

theorem sublist_served (suspicious : HashMap String UserStat) (events : List (Event W)) :
    ((served sv suspicious events).map Prod.fst).Sublist events := by
  induction events generalizing suspicious with
  | nil => exact .slnil
  | cons e es ih =>
    rw [served, List.map_cons]
    refine .cons_cons e ?_
    split
    · exact ih _
    · exact List.nil_sublist _

theorem Guessing.hasCode {events : List (Event W)} (h : Guessing sv accountId events) :
    ∀ e ∈ events, e.rq.hasCode = false := fun e he => hasCode_of_secret (h.noSecret e he)

theorem Guessing.not_matches {events : List (Event W)} (h : Guessing sv accountId events) :
    ∀ p ∈ served sv ∅ events, ∀ x ∈ handledOf sv p, ∀ wp₁,
      comparison sv p.1.rq x.1 x.2 = some wp₁ → ¬Matches p.1.rq wp₁.existPassword := by
  intro p hp x hx wp₁ hcomparison
  refine h.wrong p hp x hx (h.alone p hp x hx ?_) wp₁ hcomparison
  obtain ⟨fits, hfits, -⟩ := Option.bind_eq_some_iff.mp hcomparison
  rw [hfits]
  rfl

/-- **Guessing is limited** when two requests that come to the comparison within one lock period
write the login alike, and at least one failed login is allowed.

**Proof sketch.** The requests in one lock period that come to the comparison have one login, and what
all requests with this login do to its counter are steps of a lockout. -/
theorem guessingLimited_of_oneSpelling (hlimit : 1 ≤ sv.conf.failedAuthAttempts)
    {events : List (Event W)} (h : Guessing sv accountId events)
    (hspelling : OneSpelling sv accountId events) : GuessingLimited sv accountId events := by
  intro t
  by_cases hsome : ∃ p ∈ served sv ∅ events, compares sv accountId p = true ∧
      t ≤ p.1.rq.clock.seconds ∧ p.1.rq.clock.seconds < t + sv.conf.failedAuthLockPeriod
  · obtain ⟨p, hp, hpc, hpt, hpe⟩ := hsome
    have hsteps : Steps sv.conf.failedAuthAttempts sv.conf.failedAuthLockPeriod
        UserStat.empty.counter (((served sv ∅ events).filter fun q =>
          q.1.rq.login = p.1.rq.login).map (tryOf sv accountId)) :=
      steps_served hlimit p.1.rq.login (fun _ _ hlookup => by cases hlookup) h.hasCode
        h.not_matches rfl
    have hsorted : (((served sv ∅ events).filter fun q => q.1.rq.login = p.1.rq.login).map
        (tryOf sv accountId)).Pairwise fun e e' => e.time ≤ e'.time := by
      rw [List.pairwise_map]
      have hsub : ((served sv ∅ events).map Prod.fst).Sublist events := sublist_served ∅ events
      have hall := List.pairwise_map.mp (h.ordered.sublist hsub)
      exact hall.sublist List.filter_sublist
    have hcount := hsteps.count_le hlimit hsorted t
    rw [List.countP_map, List.countP_filter] at hcount
    refine le_of_eq_of_le (congrArg _ (List.countP_congr fun q hq => ?_)) hcount
    -- a request that is counted writes the login as the first one does
    have hsame : compares sv accountId q = true → t ≤ q.1.rq.clock.seconds →
        q.1.rq.clock.seconds < t + sv.conf.failedAuthLockPeriod →
        q.1.rq.login = p.1.rq.login := by
      intro hqc hqt hqe
      rcases le_total p.1.rq.clock.seconds q.1.rq.clock.seconds with hle | hle
      · exact (hspelling p hp q hq hpc hqc (by omega) hle).symm
      · exact hspelling q hq p hp hqc hpc (by omega) hle
    have hperiod : Try.inPeriod sv.conf.failedAuthLockPeriod t (tryOf sv accountId q) =
        (compares sv accountId q && decide (t ≤ q.1.rq.clock.seconds) &&
          decide (q.1.rq.clock.seconds < t + sv.conf.failedAuthLockPeriod)) := rfl
    simp only [Function.comp_apply, hperiod, Bool.and_eq_true, decide_eq_true_eq]
    exact ⟨fun hin => ⟨hin, hsame hin.1.1 hin.1.2 hin.2⟩, fun hin => hin.1⟩
  · rw [List.countP_eq_zero.mpr]
    · exact (Int.le_of_lt Int.zero_lt_one).trans hlimit
    · intro p hp hin
      simp only [Bool.and_eq_true, decide_eq_true_eq] at hin
      exact hsome ⟨p, hp, hin.1.1, hin.1.2, hin.2⟩

end Runs

/-! ## Two spellings of a login -/

/-- Requests with a wrong password for the second account, one with each of some logins. -/
def guesses (logins : List String) : List (Event (List IndividualObj)) :=
  logins.map fun login => ⟨loginRequest login firstHash, twoAccounts⟩

/-- The services when the second account is found. -/
def secondServices : Services (List IndividualObj) := smallServices ["d:acc2"]

theorem guessing_guesses {logins : List String}
    (halone : ∀ p ∈ served secondServices ∅ (guesses logins), ∀ h ∈ handledOf secondServices p,
      (fittingAccount secondServices p.1.rq h.2.world h.1).isSome → h.1 = "d:acc2")
    (hwrong : ∀ p ∈ served secondServices ∅ (guesses logins), ∀ h ∈ handledOf secondServices p,
      (comparison secondServices p.1.rq h.1 h.2).all fun wp =>
        wp.existPassword ≠ p.1.rq.password) : Guessing secondServices "d:acc2" (guesses logins) where
  noSecret := by
    intro e he
    obtain ⟨login, -, rfl⟩ := List.mem_map.mp he
    rfl
  ordered := by
    rw [guesses, List.pairwise_map]
    exact List.pairwise_of_forall fun _ _ => le_rfl
  alone := halone
  wrong := by
    intro p hp h hh _ wp₁ hcomparison hmatch
    have hall := hwrong p hp h hh
    rw [hcomparison] at hall
    exact absurd hmatch.2 (of_decide_eq_true hall)

/-- Guessing is not limited per account: after two guesses a third one comes to the comparison at the
same time, with another spelling of the login. -/
theorem not_guessingLimited :
    ¬ ∀ (W : Type) (sv : Services W) (accountId : String) (events : List (Event W)),
      Guessing sv accountId events → GuessingLimited sv accountId events := by
  intro hlimited
  have hguessing : Guessing secondServices "d:acc2" (guesses ["ivan", "ivan", "Ivan"]) :=
    guessing_guesses (by decide +kernel) (by decide +kernel)
  have hthree : (served secondServices ∅ (guesses ["ivan", "ivan", "Ivan"])).countP
      (fun p => compares secondServices "d:acc2" p &&
        decide (1672531200 ≤ p.1.rq.clock.seconds) &&
        decide (p.1.rq.clock.seconds < 1672531200 + secondServices.conf.failedAuthLockPeriod)) =
      3 := by decide +kernel
  have htwo := hlimited _ _ _ _ hguessing 1672531200
  rw [hthree] at htwo
  exact absurd htwo (by decide)

/-- With one spelling two guesses are followed by a request that is refused. -/
theorem guessingLimited_ivan :
    GuessingLimited secondServices "d:acc2" (guesses ["ivan", "ivan", "ivan"]) :=
  guessingLimited_of_oneSpelling (by decide)
    (guessing_guesses (by decide +kernel) (by decide +kernel)) (by
      have hlogins : ∀ p ∈ served secondServices ∅ (guesses ["ivan", "ivan", "ivan"]),
          p.1.rq.login = "ivan" := by decide +kernel
      intro p hp q hq _ _ _ _
      rw [hlogins p hp, hlogins q hq])

end Veda.Auth
