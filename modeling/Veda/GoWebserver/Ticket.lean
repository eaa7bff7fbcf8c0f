import Veda.GoWebserver.Connector

set_option autoImplicit false

/-!
# Tickets of the web server

The web server reads a ticket once and keeps it in a cache. In the mode for external users it looks
at the user of a ticket that it reads. A ticket of another user gets the id `?` and a result that
refuses it, and is kept and returned with the code `Ok` all the same.

## Main definitions

* `GoWebserver.Ticket` — tickets.
* `GoWebserver.Services` — the storages, the parsers of texts and the mode.
* `GoWebserver.Services.getTicket` — the request for a ticket.
* `GoWebserver.Services.AdmitsExternal` — a sequence of requests admits external users only.
* `GoWebserver.Services.Refused` — the user of the ticket is looked at and not external.

## Main results

* `GoWebserver.Services.admitsExternal_iff` — when external users only are admitted.

## Design

The outer `none` of a request is a panic. What `time.Parse` and `strconv.ParseInt` make of the
texts of a ticket is arbitrary.
-/

namespace Veda.GoWebserver

open Veda.Lib Veda.Onto

/-! ## Fields -/

/-- `getFirstString`: the first text of a predicate, and whether there is one. -/
def getFirstString (indv : Individual) (predicate : String) : Option (String × Bool) :=
  match (indv.getD []).lookup predicate with
  | some (.arr []) => none
  | some (.arr (.obj members :: _)) =>
    match members.lookup "data" with
    | some (.str s) => some (s, true)
    | _ => some ("", false)
  | some (.arr (_ :: _)) => none
  | _ => some ("", false)

structure Ticket where
  id : String
  userURI : String
  userLogin : String
  result : ResultCode
  startTime : Int64
  endTime : Int64
  deriving DecidableEq

/-- The ticket of a guest. -/
def guestTicket : Ticket := ⟨"guest", "cfg:Guest", "guest", .ok, 0, 0⟩

/-- What a request for a ticket uses. -/
structure Services where
  conn : Connector
  /-- the tickets of the first storage, when it is used -/
  ttTickets : Option (String → Option (List GoValue))
  lmdbTickets : String → Reply
  /-- the seconds that `time.Parse` finds in a text; `none` when the text is longer than the mask -/
  parseTime : String → Option Int64
  parseInt : String → Int64

namespace Services

variable (s : Services)

/-- `Connector.GetTicket` for one ticket. -/
def connGetTicket (ticketKey : String) : Option RequestResponse :=
  let rr : RequestResponse := { RequestResponse.empty with
    commonRC := .ticketNotFound
    uris := [ticketKey] }
  match s.ttTickets with
  | some select =>
    match select ticketKey with
    | none => some { rr with commonRC := .internalServerError }
    | some [] => some { rr with commonRC := .ticketNotFound }
    | some (.slice (_ :: .map record :: _) :: _) =>
      some { (rr.addCode .ok).addTTResult record with commonRC := .ok }
    | some (.slice _ :: _) => none
    | some (_ :: _) => some { rr with commonRC := .internalServerError }
  | none =>
    match s.lmdbTickets ticketKey with
    | .error => some { rr with commonRC := .internalServerError }
    | .json (.arr []) => some { rr.addCode .notFound with commonRC := .ticketNotFound }
    | .json j => some { (rr.addCode .ok).addLMDBResult j with commonRC := .ok }

/-- The ticket of an individual. -/
def ticketOf (ticketKey : String) (individual : Individual) : Option Ticket := do
  let (userURI, _) ← getFirstString individual "ticket:accessor"
  let (userLogin, _) ← getFirstString individual "ticket:login"
  let (tt, _) ← getFirstString individual "ticket:when"
  let startTime ← s.parseTime tt
  let (dd, _) ← getFirstString individual "ticket:duration"
  return ⟨ticketKey, userURI, userLogin, .zero, startTime, startTime + s.parseInt dd⟩

/-- Read a ticket of the storage, or the code of a failure. -/
def readTicket (ticketKey : String) : Option (Except ResultCode Ticket) := do
  let rr ← s.connGetTicket ticketKey
  if rr.commonRC ≠ .ok then return .error rr.commonRC
  else
    let opRC ← rr.opRC[0]?
    if opRC ≠ .ok then return .error opRC
    else
      let (individual, _) ← rr.getIndv 0
      let ticket ← s.ticketOf ticketKey individual
      return .ok ticket

/-- The origin of a user. -/
def originOf (userURI : String) : Option (String × Bool) := do
  let rr ← s.conn.get ⟨false, "cfg:VedaSystem", false⟩ [userURI]
  let (user, _) ← rr.getIndv 0
  getFirstString user "v-s:origin"

/-- Look at the user of a ticket. -/
def checkUser (ticket : Ticket) : Option Ticket := do
  let (origin, ok) ← s.originOf ticket.userURI
  if !ok || origin ≠ "ExternalUser" then
    return { ticket with id := "?", result := .notAuthorized }
  else return ticket

/-- A request for a ticket, with the cache. -/
def getTicket (areExternalUsers : Bool) (now : Int64) (ticketKey : String)
    (ticketCache : HashMap String Ticket) :
    Option ((ResultCode × Ticket) × HashMap String Ticket) :=
  if ticketKey = "" ∨ ticketKey = "systicket" then some ((.ok, guestTicket), ticketCache)
  else
    let empty : Ticket := ⟨"", "", "", .zero, 0, 0⟩
    let tk := (ticketCache.lookup ticketKey).getD empty
    if tk.id ≠ "" then
      if tk.endTime < now then some ((.ticketExpired, tk), ticketCache.erase ticketKey)
      else some ((.ok, tk), ticketCache)
    else do
      match ← s.readTicket ticketKey with
      | .error code => return ((code, empty), ticketCache)
      | .ok ticket =>
        let ticket ← if areExternalUsers then s.checkUser ticket else some ticket
        return ((.ok, ticket), ticketCache.insert ticketKey ticket)

/-! ## Sequences of requests -/

/-- A request: the ticket and the time. -/
structure Call where
  ticketKey : String
  now : Int64
  /-- the empty key and `systicket` stand for the guest -/
  notGuest : ticketKey ≠ "" ∧ ticketKey ≠ "systicket"

/-- The cache after a request; one that panics leaves it. -/
def cacheAfter (ticketCache : HashMap String Ticket) (c : Call) : HashMap String Ticket :=
  match s.getTicket true c.now c.ticketKey ticketCache with
  | some (_, ticketCache) => ticketCache
  | none => ticketCache

/-- The user is external. -/
def IsExternal (userURI : String) : Prop := s.originOf userURI = some ("ExternalUser", true)

/-- Every request that returns the code `Ok` returns a ticket of an external user. -/
def AdmitsExternal (calls : List Call) : Prop :=
  ∀ n c ticket cache, calls[n]? = some c →
    s.getTicket true c.now c.ticketKey ((calls.take n).foldl s.cacheAfter ∅) =
      some ((.ok, ticket), cache) → s.IsExternal ticket.userURI

/-- The ticket can be read, its user is looked at and is not external. -/
def Refused (ticketKey : String) : Prop :=
  ∃ ticket origin, s.readTicket ticketKey = some (.ok ticket) ∧
    s.originOf ticket.userURI = some origin ∧ origin ≠ ("ExternalUser", true)

/-! ## One request -/

section Request

variable {s} {now : Int64} {ticketKey : String} {cache cache' : HashMap String Ticket}
  {code : ResultCode} {ticket : Ticket}

theorem checkUser_eq_some {checked : Ticket} (h : s.checkUser ticket = some checked) :
    checked.userURI = ticket.userURI ∧ ∃ origin, s.originOf ticket.userURI = some origin := by
  unfold checkUser at h
  cases horigin : s.originOf ticket.userURI with
  | none =>
    rw [horigin] at h
    cases h
  | some origin =>
    rw [horigin] at h
    refine ⟨?_, origin, rfl⟩
    dsimp only [Option.bind_eq_bind, Option.bind_some] at h
    split_ifs at h <;> obtain rfl := Option.some.inj h <;> rfl

theorem exists_checkUser {origin : String × Bool} (h : s.originOf ticket.userURI = some origin) :
    ∃ checked, s.checkUser ticket = some checked := by
  unfold checkUser
  rw [h]
  dsimp only [Option.bind_eq_bind, Option.bind_some]
  split_ifs <;> exact ⟨_, rfl⟩

theorem readTicket_error (h : s.readTicket ticketKey = some (.error code)) : code ≠ .ok := by
  unfold readTicket at h
  obtain ⟨rr, -, h⟩ := Option.bind_eq_some_iff.mp h
  split_ifs at h with hcommon
  · obtain rfl := Except.error.inj (Option.some.inj h)
    exact hcommon
  · obtain ⟨opRC, -, h⟩ := Option.bind_eq_some_iff.mp h
    split_ifs at h with hop
    · obtain rfl := Except.error.inj (Option.some.inj h)
      exact hop
    · obtain ⟨⟨individual, rr'⟩, -, h⟩ := Option.bind_eq_some_iff.mp h
      obtain ⟨read, -, h⟩ := Option.bind_eq_some_iff.mp h
      cases h

theorem getTicket_of_read {read : Ticket} (hguest : ticketKey ≠ "" ∧ ticketKey ≠ "systicket")
    (hlookup : cache.lookup ticketKey = none)
    (hread : s.readTicket ticketKey = some (.ok read)) (hcheck : s.checkUser read = some ticket) :
    s.getTicket true now ticketKey cache =
      some ((.ok, ticket), cache.insert ticketKey ticket) := by
  unfold getTicket
  rw [if_neg (by rintro (h | h); exacts [hguest.1 h, hguest.2 h]), hlookup]
  dsimp only [Option.getD_none]
  rw [if_neg (by decide), hread]
  dsimp only [Option.bind_eq_bind, Option.bind_some]
  rw [if_pos rfl, hcheck]
  rfl

/-- **What a request answers:** a code of the storage, an old ticket of the cache, or the ticket of
the storage, which is kept. -/
theorem getTicket_cases (hguest : ticketKey ≠ "" ∧ ticketKey ≠ "systicket")
    (h : s.getTicket true now ticketKey cache = some ((code, ticket), cache')) :
    (code ≠ .ok ∧ (cache' = cache ∨ cache' = cache.erase ticketKey)) ∨
      (cache.lookup ticketKey = some ticket ∧ cache' = cache) ∨
      ∃ read, s.readTicket ticketKey = some (.ok read) ∧ s.checkUser read = some ticket ∧
        cache' = cache.insert ticketKey ticket := by
  unfold getTicket at h
  rw [if_neg (by rintro (h | h); exacts [hguest.1 h, hguest.2 h])] at h
  dsimp only at h
  split at h
  · rename_i hid
    split_ifs at h with hexpired
    · cases h
      exact .inl ⟨by decide, .inr rfl⟩
    · cases hlookup : cache.lookup ticketKey with
      | none =>
        rw [hlookup] at hid
        exact absurd rfl hid
      | some tk =>
        rw [hlookup] at h
        cases h
        exact .inr (.inl ⟨rfl, rfl⟩)
  · obtain ⟨answer, hread, h⟩ := Option.bind_eq_some_iff.mp h
    cases answer with
    | error failure =>
      cases h
      exact .inl ⟨readTicket_error hread, .inl rfl⟩
    | ok read =>
      obtain ⟨checked, hcheck, h⟩ := Option.bind_eq_some_iff.mp h
      cases h
      exact .inr (.inr ⟨read, hread, hcheck, rfl⟩)

end Request

/-! ## All requests -/

section Calls

variable {s}

/-- The tickets of the cache are of external users, and were asked for. -/
structure Inv (s : Services) (Asked : String → Prop) (cache : HashMap String Ticket) : Prop where
  asked : ∀ k ticket, cache.lookup k = some ticket → Asked k
  isExternal : (∀ k, Asked k → ¬ s.Refused k) →
    ∀ k ticket, cache.lookup k = some ticket → s.IsExternal ticket.userURI

theorem isExternal_of_not_refused {k : String} {read checked : Ticket} (h : ¬ s.Refused k)
    (hread : s.readTicket k = some (.ok read)) (hcheck : s.checkUser read = some checked) :
    s.IsExternal checked.userURI := by
  obtain ⟨huser, origin, horigin⟩ := checkUser_eq_some hcheck
  rw [huser, IsExternal, horigin]
  by_contra hne
  exact h ⟨read, origin, hread, horigin, fun heq => hne (congrArg some heq)⟩

theorem Inv.cacheAfter {Asked : String → Prop} {cache : HashMap String Ticket}
    (h : s.Inv Asked cache) {c : Call} (hc : Asked c.ticketKey) :
    s.Inv Asked (s.cacheAfter cache c) := by
  unfold Services.cacheAfter
  cases hanswer : s.getTicket true c.now c.ticketKey cache with
  | none => exact h
  | some answer =>
    obtain ⟨⟨code, ticket⟩, cache'⟩ := answer
    dsimp only
    rcases getTicket_cases c.notGuest hanswer with ⟨-, rfl | rfl⟩ | ⟨-, rfl⟩ |
      ⟨read, hread, hcheck, rfl⟩
    · exact h
    · have hold : ∀ k ticket, (cache.erase c.ticketKey).lookup k = some ticket →
          cache.lookup k = some ticket := by
        intro k ticket hk
        by_cases heq : k = c.ticketKey
        · rw [heq, AList.lookup_erase] at hk
          cases hk
        · rwa [AList.lookup_erase_ne heq] at hk
      exact ⟨fun k ticket hk => h.asked k ticket (hold k ticket hk),
        fun hall k ticket hk => h.isExternal hall k ticket (hold k ticket hk)⟩
    · exact h
    · refine ⟨fun k t hk => ?_, fun hall k t hk => ?_⟩ <;> by_cases heq : k = c.ticketKey
      · rwa [heq]
      · rw [AList.lookup_insert_ne heq] at hk
        exact h.asked k t hk
      · rw [heq, AList.lookup_insert] at hk
        rw [← Option.some.inj hk]
        exact isExternal_of_not_refused (hall _ hc) hread hcheck
      · rw [AList.lookup_insert_ne heq] at hk
        exact h.isExternal hall k t hk

theorem Inv.run {Asked : String → Prop} {cache : HashMap String Ticket} (h : s.Inv Asked cache)
    {calls : List Call} (hcalls : ∀ c ∈ calls, Asked c.ticketKey) :
    s.Inv Asked (calls.foldl s.cacheAfter cache) := by
  induction calls generalizing cache with
  | nil => exact h
  | cons c calls ih =>
    exact ih (h.cacheAfter (hcalls c List.mem_cons_self))
      fun c' hc' => hcalls c' (List.mem_cons_of_mem _ hc')

theorem inv_empty (Asked : String → Prop) : s.Inv Asked ∅ :=
  ⟨fun _ _ h => (nomatch h), fun _ _ _ h => (nomatch h)⟩

/-- **External users only are admitted** exactly when no ticket that is asked for is refused.

**Proof sketch.** Without refusals every ticket of the cache is of an external user. The first
request for a refused ticket finds nothing in the cache, reads the ticket and returns it with the
code `Ok`. -/
theorem admitsExternal_iff (s : Services) (calls : List Call) :
    s.AdmitsExternal calls ↔ ∀ c ∈ calls, ¬ s.Refused c.ticketKey := by
  constructor
  · rintro hadmits c hc ⟨read, origin, hread, horigin, hne⟩
    have hexists : ∃ n : ℕ, ∃ c' : Call, calls[n]? = some c' ∧ c'.ticketKey = c.ticketKey := by
      obtain ⟨n, hn, hget⟩ := List.mem_iff_getElem.mp hc
      exact ⟨n, c, hget ▸ List.getElem?_eq_getElem hn, rfl⟩
    classical
    obtain ⟨c', hc', hkey⟩ := Nat.find_spec hexists
    have hfirst := fun m (hm : m < Nat.find hexists) => Nat.find_min hexists hm
    generalize Nat.find hexists = n at hc' hfirst
    have hasked : ∀ c' ∈ calls.take n, c'.ticketKey ≠ c.ticketKey := by
      intro earlier hearlier hsame
      obtain ⟨m, hm, hget⟩ := List.mem_iff_getElem.mp hearlier
      rw [List.length_take, lt_min_iff] at hm
      refine hfirst m hm.1 ⟨earlier, ?_, hsame⟩
      rw [← hget, List.getElem_take, List.getElem?_eq_getElem hm.2]
    have hinv := (inv_empty (s := s) (fun k => k ≠ c.ticketKey)).run hasked
    have hlookup : ((calls.take n).foldl s.cacheAfter ∅).lookup c'.ticketKey = none := by
      cases hlookup : ((calls.take n).foldl s.cacheAfter ∅).lookup c'.ticketKey with
      | none => rfl
      | some ticket => exact absurd hkey (hinv.asked _ _ hlookup)
    obtain ⟨checked, hcheck⟩ := exists_checkUser horigin
    rw [← hkey] at hread
    have hexternal := hadmits n c' checked _ hc'
      (getTicket_of_read c'.notGuest hlookup hread hcheck)
    rw [IsExternal, (checkUser_eq_some hcheck).1, horigin] at hexternal
    exact hne (Option.some.inj hexternal)
  · intro hall n c ticket cache hc hanswer
    have hasked : ∀ c' ∈ calls.take n, ¬ s.Refused c'.ticketKey :=
      fun c' hc' => hall c' (List.mem_of_mem_take hc')
    have hinv := (inv_empty (s := s) (fun k => ¬ s.Refused k)).run hasked
    rcases getTicket_cases c.notGuest hanswer with ⟨hcode, -⟩ | ⟨hlookup, -⟩ |
      ⟨read, hread, hcheck, -⟩
    · exact absurd rfl hcode
    · exact hinv.isExternal (fun _ h => h) _ _ hlookup
    · exact isExternal_of_not_refused (hall c (List.mem_of_getElem? hc)) hread hcheck

end Calls

/-! ## A user of the system -/

/-- A list with one text. -/
def textMember (name text : String) : String × Json :=
  (name, .arr [.obj [("data", .str text), ("type", .str "String")]])

/-- One ticket, and one user without an origin. -/
def internalUser : Services where
  conn := ⟨none, fun uri => .json (.obj [("@", .str uri)]), fun _ _ _ _ => 2⟩
  ttTickets := none
  lmdbTickets ticketKey := .json (.obj [("@", .str ticketKey), textMember "ticket:accessor" "d:user",
    textMember "ticket:login" "ivan", textMember "ticket:when" "2024-01-01T00:00:00",
    textMember "ticket:duration" "3600"])
  parseTime _ := some 1704067200
  parseInt _ := 3600

/-- The ticket of a user that is not external is returned with the code `Ok`. -/
theorem not_admitsExternal_internalUser :
    ¬ internalUser.AdmitsExternal [⟨"d:ticket", 1704067201, by decide⟩] := by
  intro h
  have hread : internalUser.readTicket "d:ticket" =
      some (.ok ⟨"d:ticket", "d:user", "ivan", .zero, 1704067200, 1704070800⟩) := by
    rfl
  have horigin : internalUser.originOf "d:user" = some ("", false) := by
    have hget : internalUser.conn.get ⟨false, "cfg:VedaSystem", false⟩ ["d:user"] = some
        ⟨.ok, [.ok], [], ["d:user"], [.obj [("@", .str "d:user")]], [], .lmdb⟩ := by
      rw [Connector.get, if_neg (by decide), if_neg (by decide)]
      rfl
    rw [originOf, hget]
    rfl
  have hcheck : internalUser.checkUser
      ⟨"d:ticket", "d:user", "ivan", .zero, 1704067200, 1704070800⟩ =
        some ⟨"?", "d:user", "ivan", .notAuthorized, 1704067200, 1704070800⟩ := by
    rw [checkUser, horigin]
    rfl
  have hexternal := h 0 _ _ _ rfl (getTicket_of_read (by decide) rfl hread hcheck)
  rw [IsExternal, horigin] at hexternal
  exact absurd hexternal (by decide)

end Services

end Veda.GoWebserver
