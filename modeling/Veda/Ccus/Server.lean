import Veda.Lib.Decimal
import Mathlib.Logic.Function.Basic

set_option autoImplicit false

/-!
# The server of change notifications

Clients subscribe to individuals, and the server tells them when the update counter of an individual
changes. The server takes the counter of an individual from the storage when it gets to know the
individual by a subscription, and from the queue of the main storage afterwards.

## Main definitions

* `Ccus.SubscribeElement` — what the server knows of an individual.
* `Ccus.State`, `Ccus.State.step` — the storage, the queue and the server.
* `Ccus.State.Reached` — the states of the runs whose steps meet a condition.

## Design

The thread that reads the storage answers one question at a time, so an answer is the stored counter
of the moment of the question. An individual that is not stored has counter zero. Messages of clients
are texts; `itemOf` is what the server sees in one of their parts. What the server sends is kept as
the pairs of uri and counter of which the text is made. Hash maps and sets are lists in the order of
insertion; no session and uri occurs twice in a batch, so that the order does not matter.

The log of an individual has the counters that the server kept and sent for it and the subscriptions
to it, since the server knows the individual.
-/

namespace Veda.Ccus

open Veda.Lib

abbrev Uri := List Char

structure SubscribeElement where
  counter : ℕ
  sessions : List ℕ
  deriving DecidableEq

/-- `HashSet::insert`. -/
def SubscribeElement.join (el : SubscribeElement) (session : ℕ) : SubscribeElement :=
  if session ∈ el.sessions then el else { el with sessions := el.sessions ++ [session] }

theorem SubscribeElement.mem_join (el : SubscribeElement) (session other : ℕ) :
    other ∈ (el.join session).sessions ↔ other = session ∨ other ∈ el.sessions := by
  unfold join
  split
  case isTrue hin =>
    constructor
    · exact .inr
    · rintro (rfl | hold)
      · exact hin
      · exact hold
  case isFalse =>
    simp only [List.mem_append, List.mem_singleton, or_comm]

@[simp] theorem SubscribeElement.join_counter (el : SubscribeElement) (session : ℕ) :
    (el.join session).counter = el.counter := by
  unfold join
  split <;> rfl

/-- What happens with an individual. -/
inductive Said
  /-- the server keeps the counter -/
  | kept (counter : ℕ)
  /-- a session subscribes and gives the counter that it knows -/
  | subscribed (session counter : ℕ)
  /-- the counter is sent to a session -/
  | sent (session counter : ℕ)
  deriving DecidableEq

/-- The storage, the queue and the server. -/
structure State where
  stored : Uri → ℕ
  /-- the elements of the queue that are not processed -/
  waiting : List (Uri × ℕ)
  /-- the sessions that are connected -/
  sessions : List ℕ
  uri2sessions : Uri → Option SubscribeElement
  log : Uri → List Said

/-- A part of the message of a client. -/
inductive Item
  | handshake
  | subscribe (uri : Uri) (counter : ℕ)
  | unsubscribe (uri : Uri)
  | unsubscribeAll
  | other
  deriving DecidableEq

inductive Op
  | store (uri : Uri) (counter : ℕ)
  | connect (session : ℕ)
  | disconnect (session : ℕ)
  | message (session : ℕ) (text : List Char)
  | check (sizeBatch : ℕ)
  deriving DecidableEq

/-! ## Messages of clients -/

/-- `get(1..)`: what is behind the first byte, when a character ends there. -/
def behindFirst : List Char → Option (List Char)
  | [] => none
  | c :: rest => if c.toNat < 128 then some rest else none

/-- A part of a message. The sign in front of the uri is not looked at. -/
def itemOf (item : List Char) : Item :=
  match item.splitOn '=' with
  | [left, right] =>
    if left = ['c', 'c', 'u', 's'] then .handshake
    else
      match behindFirst left with
      | some uri => .subscribe uri ((parseUnsigned (2 ^ 64 - 1) right).getD 0)
      | none => .other
  | [left] =>
    match behindFirst left with
    | some uri => if uri = ['*'] then .unsubscribeAll else .unsubscribe uri
    | none => .other
  | _ => .other

def itemsOf (text : List Char) : List Item := (text.splitOn ',').map itemOf

namespace State

/-! ## Subscriptions -/

/-- Nothing is stored and nobody is connected. -/
def start : State where
  stored := fun _ => 0
  waiting := []
  sessions := []
  uri2sessions := fun _ => none
  log := fun _ => []

/-- Note something about an individual. -/
def say (s : State) (uri : Uri) (said : Said) : State :=
  { s with log := Function.update s.log uri (s.log uri ++ [said]) }

/-- Keep what is known of an individual. -/
def put (s : State) (uri : Uri) (el : SubscribeElement) : State :=
  { s with uri2sessions := Function.update s.uri2sessions uri (some el) }.say uri (.kept el.counter)

/-- What is known of an individual behind a subscription. -/
def subscribedElement (s : State) (uri : Uri) (session : ℕ) : SubscribeElement :=
  let storageCounter := if (s.uri2sessions uri).isNone then s.stored uri else 0
  let el := ((s.uri2sessions uri).getD ⟨0, []⟩).join session
  if 0 < storageCounter then { el with counter := storageCounter } else el

/-- `subscribe`, with the counter that is registered. -/
def subscribe (s : State) (uri : Uri) (counter session : ℕ) : State × ℕ :=
  let el := s.subscribedElement uri session
  ((s.put uri el).say uri (.subscribed session counter), el.counter)

def unsubscribe (s : State) (uri : Uri) (session : ℕ) : State :=
  let el := (s.uri2sessions uri).getD ⟨0, []⟩
  s.put uri { el with sessions := el.sessions.erase session }

/-- What is left of an individual when a session leaves. -/
def leave (session : ℕ) (isClearUnused : Bool) (el : SubscribeElement) : Option SubscribeElement :=
  let el := { el with sessions := el.sessions.erase session }
  if isClearUnused ∧ el.sessions = [] then none else some el

def unsubscribeAll (s : State) (session : ℕ) (isClearUnused : Bool) : State :=
  let uri2sessions := fun uri => (s.uri2sessions uri).bind (leave session isClearUnused)
  { s with
    uri2sessions
    log := fun uri => if (uri2sessions uri).isNone then [] else s.log uri }

/-- A counter is sent to a session that is connected. -/
def send (s : State) (session : ℕ) (uri : Uri) (counter : ℕ) : State :=
  if session ∈ s.sessions then s.say uri (.sent session counter) else s

/-- The counters of a message or of several ones are sent. -/
def sendAll (s : State) (changes : List ((ℕ × Uri) × ℕ)) : State :=
  changes.foldl (fun s change => s.send change.1.1 change.1.2 change.2) s

/-- One part of a message, with what is to be sent for it. -/
def prepareItem (s : State) (session : ℕ) : Item → State × List ((ℕ × Uri) × ℕ)
  | .subscribe uri counter =>
    let (s, registredCounter) := s.subscribe uri counter session
    (s, if counter < registredCounter ∨ registredCounter = 0 then
        [((session, uri), registredCounter)]
      else [])
  | .unsubscribe uri => (s.unsubscribe uri session, [])
  | .unsubscribeAll => (s.unsubscribeAll session false, [])
  | .handshake | .other => (s, [])

/-- The parts of a message up to a handshake. -/
def prepareItems (session : ℕ) :
    List Item → State × List ((ℕ × Uri) × ℕ) → State × List ((ℕ × Uri) × ℕ)
  | [], acc => acc
  | .handshake :: _, acc => acc
  | item :: items, (s, changes) =>
    prepareItems session items
      ((s.prepareItem session item).1, changes ++ (s.prepareItem session item).2)

def prepareCommand (s : State) (session : ℕ) (text : List Char) : State :=
  let (s, changes) := prepareItems session (itemsOf text) (s, [])
  s.sendAll changes

/-! ## The queue -/

/-- `HashMap::insert`. -/
def insertCounter (changes : List ((ℕ × Uri) × ℕ)) (key : ℕ × Uri) (counter : ℕ) :
    List ((ℕ × Uri) × ℕ) :=
  changes.filter (fun change => change.1 ≠ key) ++ [(key, counter)]

/-- `prepare_queue_el`: the counter of an individual that is known, and who is to be told. -/
def prepareQueueEl (s : State) (session2uris : List ((ℕ × Uri) × ℕ)) (uri : Uri)
    (counterFromQueue : ℕ) : State × List ((ℕ × Uri) × ℕ) :=
  match s.uri2sessions uri with
  | none => (s, session2uris)
  | some el =>
    (s.put uri { el with counter := counterFromQueue },
      el.sessions.foldl
        (fun changes session => insertCounter changes (session, uri) counterFromQueue) session2uris)

/-- The elements of a batch. -/
def prepareBatch : ℕ → State × List ((ℕ × Uri) × ℕ) → State × List ((ℕ × Uri) × ℕ)
  | 0, acc => acc
  | left + 1, (s, session2uris) =>
    match s.waiting with
    | [] => (s, session2uris)
    | (uri, counter) :: waiting =>
      prepareBatch left ({ s with waiting }.prepareQueueEl session2uris uri counter)

/-- The queue is checked. -/
def check (s : State) (sizeBatch : ℕ) : State :=
  let (s, session2uris) := prepareBatch sizeBatch (s, [])
  s.sendAll session2uris

/-! ## Steps -/

/-- An update is stored, and its element is put into the queue. -/
def store (s : State) (uri : Uri) (counter : ℕ) : State :=
  { s with
    stored := Function.update s.stored uri counter
    waiting := s.waiting ++ [(uri, counter)] }

def connect (s : State) (session : ℕ) : State :=
  { s with sessions := if session ∈ s.sessions then s.sessions else s.sessions ++ [session] }

def disconnect (s : State) (session : ℕ) : State :=
  if session ∈ s.sessions then
    { s with sessions := s.sessions.filter (· ≠ session) }.unsubscribeAll session true
  else s

def step (s : State) : Op → State
  | .store uri counter => s.store uri counter
  | .connect session => s.connect session
  | .disconnect session => s.disconnect session
  | .message session text => s.prepareCommand session text
  | .check sizeBatch => s.check sizeBatch

/-- A state of a run whose steps meet a condition. -/
inductive Reached (Allowed : State → Op → Prop) : State → Prop
  | start : Reached Allowed start
  | step {s : State} (op : Op) : Reached Allowed s → Allowed s op → Reached Allowed (s.step op)

/-- The parts of a message meet a condition, each in the state in front of it. -/
def ItemsAllowed (Allowed : State → Item → Prop) (session : ℕ) : List Item → State → Prop
  | [], _ => True
  | .handshake :: _, _ => True
  | item :: items, s =>
    Allowed s item ∧ ItemsAllowed Allowed session items (s.prepareItem session item).1

/-- An element of the individual is in the queue. -/
def Waits (s : State) (uri : Uri) : Prop := ∃ counter, (uri, counter) ∈ s.waiting

/-! ## What the operations change -/

variable {s : State} {uri uri' : Uri} {said : Said} {el el' : SubscribeElement} {session counter : ℕ}

@[simp] theorem say_log_self (s : State) (uri : Uri) (said : Said) :
    (s.say uri said).log uri = s.log uri ++ [said] := Function.update_self ..

theorem say_log_of_ne (s : State) (said : Said) (h : uri' ≠ uri) :
    (s.say uri said).log uri' = s.log uri' := Function.update_of_ne h ..

@[simp] theorem put_uri2sessions_self (s : State) (uri : Uri) (el : SubscribeElement) :
    (s.put uri el).uri2sessions uri = some el := Function.update_self ..

theorem put_uri2sessions_of_ne (s : State) (el : SubscribeElement) (h : uri' ≠ uri) :
    (s.put uri el).uri2sessions uri' = s.uri2sessions uri' := Function.update_of_ne h ..

theorem put_uri2sessions_eq_some {el' : SubscribeElement}
    (h : (s.put uri el).uri2sessions uri' = some el') :
    (uri' = uri ∧ el = el') ∨ (uri' ≠ uri ∧ s.uri2sessions uri' = some el') := by
  by_cases huri : uri' = uri
  · rw [huri, put_uri2sessions_self] at h
    exact .inl ⟨huri, Option.some.inj h⟩
  · exact .inr ⟨huri, (put_uri2sessions_of_ne s el huri).symm.trans h⟩

@[simp] theorem put_log_self (s : State) (uri : Uri) (el : SubscribeElement) :
    (s.put uri el).log uri = s.log uri ++ [.kept el.counter] := Function.update_self ..

theorem put_log_of_ne (s : State) (el : SubscribeElement) (h : uri' ≠ uri) :
    (s.put uri el).log uri' = s.log uri' := Function.update_of_ne h ..

theorem mem_subscribedElement (s : State) (uri : Uri) (session other : ℕ) :
    other ∈ (s.subscribedElement uri session).sessions ↔
      other = session ∨ ∃ el, s.uri2sessions uri = some el ∧ other ∈ el.sessions := by
  have hsessions : (s.subscribedElement uri session).sessions =
      (((s.uri2sessions uri).getD ⟨0, []⟩).join session).sessions := by
    unfold subscribedElement
    dsimp only
    split_ifs <;> rfl
  rw [hsessions, SubscribeElement.mem_join]
  cases s.uri2sessions uri with
  | none => simp
  | some el => simp

theorem subscribedElement_counter_of_none (session : ℕ) (h : s.uri2sessions uri = none) :
    (s.subscribedElement uri session).counter = s.stored uri := by
  rw [subscribedElement, h]
  simp only [Option.isNone_none, Option.getD_none, if_pos]
  split
  · rfl
  · rw [SubscribeElement.join_counter]
    show 0 = s.stored uri
    omega

theorem subscribedElement_counter_of_some (session : ℕ) (h : s.uri2sessions uri = some el) :
    (s.subscribedElement uri session).counter = el.counter := by
  rw [subscribedElement, h]
  simp [SubscribeElement.join_counter]

theorem unsubscribeAll_eq_some {isClearUnused : Bool}
    (h : (s.unsubscribeAll session isClearUnused).uri2sessions uri = some el') :
    ∃ el, s.uri2sessions uri = some el ∧
      el' = { el with sessions := el.sessions.erase session } := by
  obtain ⟨el, hel, hleave⟩ := Option.bind_eq_some_iff.mp h
  unfold leave at hleave
  dsimp only at hleave
  split at hleave
  · cases hleave
  · exact ⟨el, hel, (Option.some.inj hleave).symm⟩

theorem unsubscribeAll_log_of_some {isClearUnused : Bool}
    (h : (s.unsubscribeAll session isClearUnused).uri2sessions uri = some el') :
    (s.unsubscribeAll session isClearUnused).log uri = s.log uri := by
  apply if_neg
  have hsome : (s.uri2sessions uri).bind (leave session isClearUnused) = some el' := h
  dsimp only
  rw [hsome, Option.isNone_some]
  exact Bool.false_ne_true

/-! ## Messages and batches -/

theorem prepareItems_preserves {P : State → List ((ℕ × Uri) × ℕ) → Prop}
    {Allowed : State → Item → Prop}
    (hitem : ∀ s changes item, P s changes → Allowed s item →
      P (s.prepareItem session item).1 (changes ++ (s.prepareItem session item).2))
    (items : List Item) (s : State) (changes : List ((ℕ × Uri) × ℕ))
    (hallowed : ItemsAllowed Allowed session items s) (h : P s changes) :
    P (prepareItems session items (s, changes)).1 (prepareItems session items (s, changes)).2 := by
  induction items generalizing s changes with
  | nil => exact h
  | cons item items ih =>
    cases item with
    | handshake => exact h
    | _ => exact ih _ _ hallowed.2 (hitem _ _ _ h hallowed.1)

theorem prepareBatch_preserves {P : State → List ((ℕ × Uri) × ℕ) → Prop}
    (hel : ∀ s changes uri counter waiting, s.waiting = (uri, counter) :: waiting → P s changes →
      P ({ s with waiting }.prepareQueueEl changes uri counter).1
        ({ s with waiting }.prepareQueueEl changes uri counter).2)
    (sizeBatch : ℕ) (s : State) (changes : List ((ℕ × Uri) × ℕ)) (h : P s changes) :
    P (prepareBatch sizeBatch (s, changes)).1 (prepareBatch sizeBatch (s, changes)).2 := by
  induction sizeBatch generalizing s changes with
  | zero => exact h
  | succ left ih =>
    rw [prepareBatch]
    split
    · exact h
    · rename_i uri counter waiting hwaiting
      exact ih _ _ (hel s changes uri counter waiting hwaiting h)

theorem sendAll_preserves {P : State → List ((ℕ × Uri) × ℕ) → Prop}
    (hsend : ∀ s change changes, P s (change :: changes) →
      P (s.send change.1.1 change.1.2 change.2) changes)
    (s : State) (changes : List ((ℕ × Uri) × ℕ)) (h : P s changes) : P (s.sendAll changes) [] := by
  induction changes generalizing s with
  | nil => exact h
  | cons change changes ih => exact ih _ (hsend s change changes h)

theorem mem_insertCounters (sessions : List ℕ) (changes : List ((ℕ × Uri) × ℕ)) (uri : Uri)
    (counter : ℕ) (change : (ℕ × Uri) × ℕ) :
    change ∈ sessions.foldl (fun changes session => insertCounter changes (session, uri) counter)
        changes ↔
      (change ∈ changes ∧ ∀ session ∈ sessions, change.1 ≠ (session, uri)) ∨
        ∃ session ∈ sessions, change = ((session, uri), counter) := by
  induction sessions generalizing changes with
  | nil => simp
  | cons session sessions ih =>
    rw [List.foldl_cons, ih]
    simp only [insertCounter, List.mem_append, List.mem_filter, decide_eq_true_eq,
      List.mem_cons, List.not_mem_nil, or_false, forall_eq_or_imp, exists_eq_or_imp]
    constructor
    · rintro (⟨⟨hin, hne⟩ | rfl, hrest⟩ | hnew)
      · exact .inl ⟨hin, hne, hrest⟩
      · exact .inr (.inl rfl)
      · exact .inr (.inr hnew)
    · rintro (⟨hin, hne, hrest⟩ | rfl | hnew)
      · exact .inl ⟨.inl ⟨hin, hne⟩, hrest⟩
      · by_cases hlater : session ∈ sessions
        · exact .inr ⟨session, hlater, rfl⟩
        · refine .inl ⟨.inr rfl, ?_⟩
          rintro other hother hsame
          rw [(Prod.mk.inj hsame).1] at hlater
          exact hlater hother
      · exact .inr hnew

end State

end Veda.Ccus
