import Veda.Lib.HashMap

set_option autoImplicit false

/-!
# The update service of the browser

The service tells the server which individuals a browser shows, after `update_service.js`. A
subscription is counted under its individual, but the counter is created only when the individual
has been loaded. A call that is made while the load runs does not see it: a second subscription
begins another load, which starts the counter again, and a cancelled one is entered afterwards.

## Main definitions

* `Browser.UpdateService` — the service, with `subscribe`, `unsubscribe`, `restore` and the
  handlers of its socket.
* `Browser.UpdateService.step` — what happens to it, one event after another.
* `Browser.UpdateService.Counted` — subscriptions are counted.

## Main results

* `Browser.UpdateService.Inv.step` — what every event keeps.
* `Browser.UpdateService.counted_of_meets` — subscriptions are counted when no call is made
  while a load of its individual runs.

## Design

Messages are collected and sent together by a timer, through the socket that was used when the
timer was set; sockets are numbered. What the server was told are the messages that were sent
through the current socket. `list` is a plain object, so that the names of its prototype are found
in it.
-/

namespace Veda.Browser

open Veda.Lib

/-- The names that every plain object inherits. -/
def objectNames : List String :=
  ["constructor", "hasOwnProperty", "isPrototypeOf", "propertyIsEnumerable", "toLocaleString",
    "toString", "valueOf", "__proto__", "__defineGetter__", "__defineSetter__", "__lookupGetter__",
    "__lookupSetter__"]

/-- What is told to the server: `+uri=counter`, `-uri` and `-*`. -/
inductive Message
  | plus (uri : String) (updateCounter : ℤ)
  | minus (uri : String)
  | minusAll
  deriving DecidableEq, Repr

/-- The subscriptions of one individual. -/
structure Subscription (Action : Type) where
  subscribeCounter : ℕ
  updateCounter : ℤ
  action : Option Action

structure UpdateService (Action : Type) where
  list : HashMap String (Subscription Action)
  /-- the loads of `subscribe` that have not ended -/
  loads : List (String × Option Action)
  /-- the messages that wait for the timer -/
  buffer : List Message
  /-- the socket for which the timer is set -/
  socketTimeout : Option ℕ
  /-- the number of the current socket -/
  socket : ℕ
  isOpen : Bool
  /-- what was sent through the current socket -/
  told : List Message

inductive Event (Action : Type)
  | subscribe (uri : String) (action : Option Action)
  | unsubscribe (uri : String)
  /-- a load ends; the individual has this counter -/
  | loaded (i : ℕ) (updateCounter : ℤ)
  | loadFailed (i : ℕ)
  | timeout
  /-- a new socket is created -/
  | initSocket
  | opened (π : IterOrder String)
  | closed
  /-- a change is announced; `known` says whether the individual has this counter already -/
  | received (uri : String) (updateCounter : ℤ) (known : Bool)

namespace UpdateService

variable {Action : Type}

/-- No socket has been created. -/
def start : UpdateService Action := ⟨∅, [], [], none, 0, false, []⟩

/-! ## Calls -/

/-- A message that is sent at once. -/
def sendNow (s : UpdateService Action) (msg : Message) : UpdateService Action :=
  if s.isOpen then { s with told := s.told ++ [msg] } else s

/-- Messages that are collected for the timer. -/
def sendMessages (s : UpdateService Action) (msgs : List Message) : UpdateService Action :=
  if msgs.isEmpty then s
  else { s with buffer := s.buffer ++ msgs, socketTimeout := s.socketTimeout.or (some s.socket) }

def subscribe (s : UpdateService Action) (uri : String) (action : Option Action) :
    UpdateService Action :=
  match s.list.lookup uri with
  | some sub =>
    { s with list := s.list.insert uri { sub with subscribeCounter := sub.subscribeCounter + 1 } }
  | none => if uri ∈ objectNames then s else { s with loads := s.loads ++ [(uri, action)] }

/-- The continuation of `subscribe`. -/
def loaded (s : UpdateService Action) (i : ℕ) (updateCounter : ℤ) : UpdateService Action :=
  match s.loads[i]? with
  | none => s
  | some (uri, action) =>
    { s with
      loads := s.loads.eraseIdx i
      list := s.list.insert uri ⟨1, updateCounter, action⟩ }.sendMessages [.plus uri updateCounter]

def unsubscribe (s : UpdateService Action) (uri : String) : UpdateService Action :=
  if uri = "" then { s with list := ∅ }.sendNow .minusAll
  else
    match s.list.lookup uri with
    | some sub =>
      if 1 < sub.subscribeCounter then
        { s with
          list := s.list.insert uri { sub with subscribeCounter := sub.subscribeCounter - 1 } }
      else { s with list := s.list.erase uri }.sendMessages [.minus uri]
    | none => { s with list := s.list.erase uri }.sendMessages [.minus uri]

def restore (s : UpdateService Action) (π : IterOrder String) : UpdateService Action :=
  (s.sendNow .minusAll).sendMessages
    ((s.list.iter π).map fun e => .plus e.1 e.2.updateCounter)

/-! ## The socket -/

/-- The timer: the messages are sent if its socket is open, and dropped otherwise. -/
def timeout (s : UpdateService Action) : UpdateService Action :=
  match s.socketTimeout with
  | none => s
  | some socket =>
    { s with
      told := if socket = s.socket ∧ s.isOpen then s.told ++ s.buffer else s.told
      buffer := []
      socketTimeout := none }

def initSocket (s : UpdateService Action) : UpdateService Action :=
  { s with socket := s.socket + 1, isOpen := false, told := [] }

def openedHandler (s : UpdateService Action) (π : IterOrder String) : UpdateService Action :=
  { s with isOpen := true }.restore π

/-- One announced change; what its action does are calls of their own. -/
def receiveMessage (s : UpdateService Action) (uri : String) (updateCounter : ℤ) (known : Bool) :
    UpdateService Action :=
  if known then s
  else
    match s.list.lookup uri with
    | some sub => { s with list := s.list.insert uri { sub with updateCounter } }
    | none => s

def step (s : UpdateService Action) : Event Action → UpdateService Action
  | .subscribe uri action => s.subscribe uri action
  | .unsubscribe uri => s.unsubscribe uri
  | .loaded i updateCounter => s.loaded i updateCounter
  | .loadFailed i => { s with loads := s.loads.eraseIdx i }
  | .timeout => s.timeout
  | .initSocket => s.initSocket
  | .opened π => s.openedHandler π
  | .closed => { s with isOpen := false }
  | .received uri updateCounter known => s.receiveMessage uri updateCounter known

def run (s : UpdateService Action) (events : List (Event Action)) : UpdateService Action :=
  events.foldl step s

end UpdateService

/-! ## Counting -/

section Counting

variable {Action : Type}

def Event.isSubscribe (uri : String) : Event Action → Bool
  | .subscribe uri' _ => uri' = uri
  | _ => false

def Event.isUnsubscribe (uri : String) : Event Action → Bool
  | .unsubscribe uri' => uri' = uri
  | _ => false

/-- The number of the calls of `subscribe` for an individual. -/
def subscribes (uri : String) (events : List (Event Action)) : ℕ :=
  events.countP (Event.isSubscribe uri)

/-- The number of the calls of `unsubscribe` for an individual. -/
def unsubscribes (uri : String) (events : List (Event Action)) : ℕ :=
  events.countP (Event.isUnsubscribe uri)

/-- A message that ends the subscription of an individual. -/
def Ends (uri : String) : Message → Prop
  | .plus _ _ => False
  | .minus uri' => uri' = uri
  | .minusAll => True

/-- The messages tell `+uri` behind the last message that ends the subscription. -/
def Tells (uri : String) (msgs : List Message) : Prop :=
  ∃ before updateCounter behind, msgs = before ++ .plus uri updateCounter :: behind ∧
    ∀ msg ∈ behind, ¬ Ends uri msg

end Counting

namespace UpdateService

variable {Action : Type}

/-- A load of an individual runs. -/
def Loads (s : UpdateService Action) (uri : String) : Prop := uri ∈ s.loads.map Prod.fst

/-- Everything that was begun for an individual has ended. -/
structure Settled (s : UpdateService Action) (uri : String) : Prop where
  loads : ¬ s.Loads uri
  buffer : s.buffer = []
  isOpen : s.isOpen = true

/-- **Subscriptions are counted**: behind `n` subscriptions and `m` cancelled ones, the individual is
subscribed to if `m < n`, and the server knows; it is not if they are as many. -/
def Counted (s : UpdateService Action) (uri : String) (n m : ℕ) : Prop :=
  s.Settled uri → (m < n → uri ∈ s.list ∧ Tells uri s.told) ∧ (m = n → uri ∉ s.list)

/-- The condition of an event: no load of the individual runs at a subscription; only what is
subscribed to is cancelled; no load fails; and the timer is not the one of an older socket when a
newer one is open. -/
def Allowed (s : UpdateService Action) : Event Action → Prop
  | .subscribe uri _ => ¬ s.Loads uri ∧ uri ∉ objectNames
  | .unsubscribe uri => uri ≠ "" ∧ uri ∈ s.list
  | .loadFailed _ => False
  | .timeout => s.isOpen = true → ∀ socket, s.socketTimeout = some socket → socket = s.socket
  | _ => True

/-- The events meet their conditions one after another. -/
def Meets : UpdateService Action → List (Event Action) → Prop
  | _, [] => True
  | s, e :: events => s.Allowed e ∧ Meets (s.step e) events

/-! ## The invariant -/

/-- How it stands with one individual behind `n` subscriptions and `m` cancelled ones. -/
inductive Standing (s : UpdateService Action) (uri : String) (n m : ℕ) : Prop
  | absent (hloads : ¬ s.Loads uri) (hlookup : s.list.lookup uri = none) (hcount : n = m)
  | loading (hloads : s.Loads uri) (hlookup : s.list.lookup uri = none) (hcount : n = m + 1)
  | listed (sub : Subscription Action) (hloads : ¬ s.Loads uri)
      (hlookup : s.list.lookup uri = some sub) (hcount : n = m + sub.subscribeCounter)
      (hpos : 1 ≤ sub.subscribeCounter)

/-- What is true between two events. -/
structure Inv (s : UpdateService Action) (n m : String → ℕ) : Prop where
  nodup : (s.loads.map Prod.fst).Nodup
  standing : ∀ uri, s.Standing uri (n uri) (m uri)
  told : s.isOpen = true → ∀ uri ∈ s.list, Tells uri (s.told ++ s.buffer)

end UpdateService

section Messages

variable {uri : String} {msgs extra : List Message}

theorem Tells.append (h : Tells uri msgs) (hextra : ∀ msg ∈ extra, ¬ Ends uri msg) :
    Tells uri (msgs ++ extra) := by
  obtain ⟨before, updateCounter, behind, rfl, hbehind⟩ := h
  refine ⟨before, updateCounter, behind ++ extra, by simp, fun msg hmsg => ?_⟩
  rcases List.mem_append.mp hmsg with hmem | hmem
  · exact hbehind msg hmem
  · exact hextra msg hmem

theorem tells_append_of_mem {updateCounter : ℤ} (hmem : .plus uri updateCounter ∈ extra)
    (hextra : ∀ msg ∈ extra, ¬ Ends uri msg) (msgs : List Message) :
    Tells uri (msgs ++ extra) := by
  obtain ⟨before, behind, rfl⟩ := List.append_of_mem hmem
  refine ⟨msgs ++ before, updateCounter, behind, by simp, fun msg hmsg => hextra msg ?_⟩
  exact List.mem_append_right _ (List.mem_cons_of_mem _ hmsg)

end Messages

namespace UpdateService

variable {Action : Type} {s s' : UpdateService Action} {n m : String → ℕ} {uri uri' : String}

section Fields

variable (s : UpdateService Action) (msgs : List Message)

@[simp] theorem sendMessages_list : (s.sendMessages msgs).list = s.list := by
  rw [sendMessages]
  split_ifs <;> rfl

@[simp] theorem sendMessages_loads : (s.sendMessages msgs).loads = s.loads := by
  rw [sendMessages]
  split_ifs <;> rfl

@[simp] theorem sendMessages_isOpen : (s.sendMessages msgs).isOpen = s.isOpen := by
  rw [sendMessages]
  split_ifs <;> rfl

@[simp] theorem sendMessages_told : (s.sendMessages msgs).told = s.told := by
  rw [sendMessages]
  split_ifs <;> rfl

@[simp] theorem sendMessages_buffer : (s.sendMessages msgs).buffer = s.buffer ++ msgs := by
  rw [sendMessages]
  split_ifs with hempty
  · rw [List.isEmpty_iff.mp hempty, List.append_nil]
  · rfl

end Fields

theorem Standing.congr {k l : ℕ} (h : s.Standing uri k l) (hloads : s'.Loads uri ↔ s.Loads uri)
    (hlookup : s'.list.lookup uri = s.list.lookup uri) : s'.Standing uri k l := by
  cases h with
  | absent hno hnone hcount => exact .absent (hno ∘ hloads.mp) (hlookup.trans hnone) hcount
  | loading hyes hnone hcount => exact .loading (hloads.mpr hyes) (hlookup.trans hnone) hcount
  | listed sub hno hsome hcount hpos =>
    exact .listed sub (hno ∘ hloads.mp) (hlookup.trans hsome) hcount hpos

theorem Inv.of_same (h : s.Inv n m) (hloads : s'.loads = s.loads) (hlist : s'.list = s.list)
    (htold : s'.isOpen = true → ∀ uri ∈ s.list, Tells uri (s'.told ++ s'.buffer)) :
    s'.Inv n m where
  nodup := by rw [hloads]; exact h.nodup
  standing uri := (h.standing uri).congr (by rw [Loads, Loads, hloads]) (by rw [hlist])
  told := by rw [hlist]; exact htold

/-! ## One event -/

theorem Inv.subscribe (h : s.Inv n m) (hloads : ¬ s.Loads uri) (hname : uri ∉ objectNames)
    (action : Option Action) :
    (s.subscribe uri action).Inv (fun u => n u + if uri = u then 1 else 0) m := by
  have hstanding := h.standing uri
  rw [UpdateService.subscribe]
  cases hlookup : s.list.lookup uri with
  | some sub =>
    refine ⟨h.nodup, fun u => ?_, fun hopen u hmem => ?_⟩
    · by_cases hu : u = uri
      · subst hu
        rw [if_pos rfl]
        cases hstanding with
        | absent _ hnone _ => rw [hlookup] at hnone; cases hnone
        | loading hyes _ _ => exact absurd hyes hloads
        | listed sub' _ hsome hcount _ =>
          rw [hlookup] at hsome
          cases hsome
          exact .listed _ hloads (AList.lookup_insert _) (by rw [hcount]; exact Nat.add_assoc _ _ _)
            (Nat.le_add_left _ _)
      · rw [if_neg (Ne.symm hu)]
        exact (h.standing u).congr Iff.rfl (AList.lookup_insert_ne hu)
    · rcases (AList.mem_insert _).mp hmem with rfl | hmem
      · exact h.told hopen _ (AList.lookup_isSome.mp (by rw [hlookup]; rfl))
      · exact h.told hopen u hmem
  | none =>
    dsimp only
    rw [if_neg hname]
    have hmem : ∀ u, uri ∈ (s.loads ++ [(u, action)]).map Prod.fst ↔ s.Loads uri ∨ uri = u := by
      intro u
      rw [List.map_append, List.mem_append]
      exact or_congr_right List.mem_singleton
    refine ⟨?_, fun u => ?_, h.told⟩
    · rw [List.map_append, List.map_singleton]
      exact h.nodup.append (List.nodup_singleton _) (List.disjoint_singleton.mpr hloads)
    · by_cases hu : u = uri
      · subst hu
        rw [if_pos rfl]
        cases hstanding with
        | absent _ _ hcount =>
          exact .loading ((hmem u).mpr (.inr rfl)) hlookup (by rw [hcount])
        | loading hyes _ _ => exact absurd hyes hloads
        | listed _ _ hsome _ _ => rw [hlookup] at hsome; cases hsome
      · rw [if_neg (Ne.symm hu)]
        refine (h.standing u).congr ?_ rfl
        rw [Loads, List.map_append, List.mem_append]
        exact or_iff_left fun hsingle => hu (List.mem_singleton.mp hsingle)

theorem Inv.unsubscribe (h : s.Inv n m) (hname : uri ≠ "") (hmem : uri ∈ s.list) :
    (s.unsubscribe uri).Inv n (fun u => m u + if uri = u then 1 else 0) := by
  have hstanding := h.standing uri
  obtain ⟨sub, hlookup⟩ := Option.isSome_iff_exists.mp (AList.lookup_isSome.mpr hmem)
  rw [UpdateService.unsubscribe, if_neg hname, hlookup]
  dsimp only
  cases hstanding with
  | absent _ hnone _ => rw [hlookup] at hnone; cases hnone
  | loading _ hnone _ => rw [hlookup] at hnone; cases hnone
  | listed sub' hloads hsome hcount hpos =>
    rw [hlookup] at hsome
    cases hsome
    split_ifs with hmore
    · refine ⟨h.nodup, fun u => ?_, fun hopen u hu => ?_⟩
      · by_cases hu : u = uri
        · subst hu
          rw [if_pos rfl]
          refine .listed _ hloads (AList.lookup_insert _) ?_ (Nat.le_sub_of_add_le hmore)
          show n u = m u + 1 + (sub.subscribeCounter - 1)
          omega
        · rw [if_neg (Ne.symm hu)]
          exact (h.standing u).congr Iff.rfl (AList.lookup_insert_ne hu)
      · rcases (AList.mem_insert _).mp hu with rfl | hu
        · exact h.told hopen _ hmem
        · exact h.told hopen u hu
    · refine ⟨by rw [sendMessages_loads]; exact h.nodup, fun u => ?_, fun hopen u hu => ?_⟩
      · by_cases hu : u = uri
        · subst hu
          rw [if_pos rfl]
          refine .absent ?_ ?_ (by omega)
          · rw [Loads, sendMessages_loads]
            exact hloads
          · rw [sendMessages_list]
            exact AList.lookup_erase _ _
        · rw [if_neg (Ne.symm hu)]
          refine (h.standing u).congr (by rw [Loads, Loads, sendMessages_loads]) ?_
          rw [sendMessages_list]
          exact AList.lookup_erase_ne hu
      · rw [sendMessages_list] at hu
        rw [sendMessages_isOpen] at hopen
        obtain ⟨hne, hu⟩ := AList.mem_erase.mp hu
        rw [sendMessages_told, sendMessages_buffer, ← List.append_assoc]
        refine (h.told hopen u hu).append fun msg hmsg => ?_
        rw [List.mem_singleton.mp hmsg]
        exact fun heq => hne heq.symm

theorem Inv.loaded (h : s.Inv n m) (i : ℕ) (updateCounter : ℤ) :
    (s.loaded i updateCounter).Inv n m := by
  rw [UpdateService.loaded]
  cases hload : s.loads[i]? with
  | none => exact h
  | some load =>
    obtain ⟨uri, action⟩ := load
    dsimp only
    have hloads : s.Loads uri :=
      List.mem_map.mpr ⟨(uri, action), List.mem_of_getElem? hload, rfl⟩
    have hfst : (s.loads.map Prod.fst)[i]? = some uri := by rw [List.getElem?_map, hload]; rfl
    have hmap : (s.loads.eraseIdx i).map Prod.fst = (s.loads.map Prod.fst).erase uri := by
      obtain ⟨hi, hget⟩ := List.getElem?_eq_some_iff.mp hfst
      rw [← List.eraseIdx_map, ← hget]
      exact (h.nodup.erase_getElem i hi).symm
    have herase : ∀ u, u ∈ (s.loads.eraseIdx i).map Prod.fst ↔ u ≠ uri ∧ s.Loads u := by
      intro u
      rw [hmap]
      exact h.nodup.mem_erase_iff
    refine ⟨?_, fun u => ?_, fun hopen u hu => ?_⟩
    · rw [sendMessages_loads, hmap]
      exact h.nodup.erase uri
    · by_cases hu : u = uri
      · subst hu
        cases h.standing u with
        | absent hno _ _ => exact absurd hloads hno
        | listed _ hno _ _ _ => exact absurd hloads hno
        | loading _ _ hcount =>
          refine .listed ⟨1, updateCounter, action⟩ ?_ ?_ hcount (Nat.le_refl 1)
          · rw [Loads, sendMessages_loads]
            exact fun hmem => ((herase u).mp hmem).1 rfl
          · rw [sendMessages_list]
            exact AList.lookup_insert _
      · refine (h.standing u).congr ?_ ?_
        · rw [Loads, sendMessages_loads]
          exact (herase u).trans (and_iff_right hu)
        · rw [sendMessages_list]
          exact AList.lookup_insert_ne hu
    · rw [sendMessages_list] at hu
      rw [sendMessages_isOpen] at hopen
      rw [sendMessages_told, sendMessages_buffer, ← List.append_assoc]
      have hends : ∀ v, ∀ msg ∈ [Message.plus uri updateCounter], ¬ Ends v msg := by
        intro v msg hmsg
        rw [List.mem_singleton.mp hmsg]
        exact id
      rcases (AList.mem_insert _).mp hu with rfl | hu
      · exact tells_append_of_mem (List.mem_singleton.mpr rfl) (hends u) _
      · exact (h.told hopen u hu).append (hends u)

theorem Inv.timeout (h : s.Inv n m)
    (hsocket : s.isOpen = true → ∀ socket, s.socketTimeout = some socket → socket = s.socket) :
    s.timeout.Inv n m := by
  rw [UpdateService.timeout]
  cases htimer : s.socketTimeout with
  | none => exact h
  | some socket =>
    refine h.of_same rfl rfl fun hopen uri hmem => ?_
    show Tells uri ((if socket = s.socket ∧ s.isOpen = true then s.told ++ s.buffer else s.told) ++
      [])
    rw [if_pos ⟨hsocket hopen socket htimer, hopen⟩, List.append_nil]
    exact h.told hopen uri hmem

theorem Inv.openedHandler (h : s.Inv n m) (π : IterOrder String) : (s.openedHandler π).Inv n m := by
  have hstate : s.openedHandler π = ({ s with isOpen := true, told := s.told ++ [.minusAll] } :
      UpdateService Action).sendMessages
        ((s.list.iter π).map fun e => .plus e.1 e.2.updateCounter) := rfl
  rw [hstate]
  refine h.of_same (sendMessages_loads _ _) (sendMessages_list _ _) fun _ uri hmem => ?_
  rw [sendMessages_told, sendMessages_buffer, ← List.append_assoc]
  obtain ⟨sub, hsub⟩ := Option.isSome_iff_exists.mp (AList.lookup_isSome.mpr hmem)
  have hplus : Message.plus uri sub.updateCounter ∈
      (s.list.iter π).map fun e => .plus e.1 e.2.updateCounter :=
    List.mem_map.mpr ⟨(uri, sub), (HashMap.mem_iter π s.list uri sub).mpr hsub, rfl⟩
  refine tells_append_of_mem hplus (fun msg hmsg => ?_) _
  obtain ⟨e, -, rfl⟩ := List.mem_map.mp hmsg
  exact id

theorem Inv.receiveMessage (h : s.Inv n m) (uri : String) (updateCounter : ℤ) (known : Bool) :
    (s.receiveMessage uri updateCounter known).Inv n m := by
  rw [UpdateService.receiveMessage]
  split_ifs
  · exact h
  · cases hlookup : s.list.lookup uri with
    | none => exact h
    | some sub =>
      refine ⟨h.nodup, fun u => ?_, fun hopen u hu => ?_⟩
      · by_cases hu : u = uri
        · subst hu
          cases h.standing u with
          | absent _ hnone _ => rw [hlookup] at hnone; cases hnone
          | loading _ hnone _ => rw [hlookup] at hnone; cases hnone
          | listed sub' hloads hsome hcount hpos =>
            rw [hlookup] at hsome
            cases hsome
            exact .listed _ hloads (AList.lookup_insert _) hcount hpos
        · exact (h.standing u).congr Iff.rfl (AList.lookup_insert_ne hu)
      · rcases (AList.mem_insert _).mp hu with rfl | hu
        · exact h.told hopen _ (AList.lookup_isSome.mp (by rw [hlookup]; rfl))
        · exact h.told hopen u hu

/-- **Every event** that meets its condition keeps the invariant. -/
theorem Inv.step (h : s.Inv n m) {e : Event Action} (hallowed : s.Allowed e) :
    (s.step e).Inv (fun u => n u + if e.isSubscribe u then 1 else 0)
      (fun u => m u + if e.isUnsubscribe u then 1 else 0) := by
  cases e with
  | subscribe uri action =>
    have hinv := h.subscribe hallowed.1 hallowed.2 action
    simpa [Event.isSubscribe, Event.isUnsubscribe, UpdateService.step] using hinv
  | unsubscribe uri =>
    have hinv := h.unsubscribe hallowed.1 hallowed.2
    simpa [Event.isSubscribe, Event.isUnsubscribe, UpdateService.step] using hinv
  | loaded i updateCounter => exact h.loaded i updateCounter
  | loadFailed i => exact hallowed.elim
  | timeout => exact h.timeout hallowed
  | initSocket => exact h.of_same rfl rfl nofun
  | opened π => exact h.openedHandler π
  | closed => exact h.of_same rfl rfl nofun
  | received uri updateCounter known => exact h.receiveMessage uri updateCounter known

theorem inv_start : (start : UpdateService Action).Inv (fun _ => 0) fun _ => 0 :=
  ⟨List.nodup_nil, fun _ => .absent List.not_mem_nil rfl rfl, nofun⟩

/-- **Every run** whose events meet their conditions keeps the invariant. -/
theorem Inv.run (h : s.Inv n m) {events : List (Event Action)} (hmeets : s.Meets events) :
    (s.run events).Inv (fun u => n u + subscribes u events)
      (fun u => m u + unsubscribes u events) := by
  induction events generalizing s n m with
  | nil => exact h
  | cons e events ih =>
    have hstep := ih (h.step hmeets.1) hmeets.2
    have hn : ∀ u, n u + (if e.isSubscribe u then 1 else 0) + subscribes u events =
        n u + subscribes u (e :: events) := by
      intro u
      rw [subscribes, subscribes, List.countP_cons, Nat.add_assoc, Nat.add_comm (List.countP _ _)]
    have hm : ∀ u, m u + (if e.isUnsubscribe u then 1 else 0) + unsubscribes u events =
        m u + unsubscribes u (e :: events) := by
      intro u
      rw [unsubscribes, unsubscribes, List.countP_cons, Nat.add_assoc,
        Nat.add_comm (List.countP _ _)]
    simp only [hn, hm] at hstep
    exact hstep

theorem Inv.counted (h : s.Inv n m) (uri : String) : s.Counted uri (n uri) (m uri) := by
  intro hsettled
  cases h.standing uri with
  | absent _ hnone hcount =>
    exact ⟨fun hlt => absurd hcount hlt.ne', fun _ => AList.lookup_eq_none.mp hnone⟩
  | loading hloads _ _ => exact absurd hloads hsettled.loads
  | listed sub _ hsome hcount hpos =>
    have hmem : uri ∈ s.list := AList.lookup_isSome.mp (by rw [hsome]; rfl)
    have htold := h.told hsettled.isOpen uri hmem
    rw [hsettled.buffer, List.append_nil] at htold
    exact ⟨fun _ => ⟨hmem, htold⟩, fun heq => by omega⟩

/-- **Subscriptions are counted** in every run in which no call of `subscribe` is made while a load
of its individual runs, only what is subscribed to is cancelled, and no load fails.

**Proof sketch.** An individual is absent, or it is loaded for its only subscription, or its counter
is the number of subscriptions that are not cancelled. Every event keeps this, and it keeps that the
server is told of everything in the list when the buffer has been sent. -/
theorem counted_of_meets {events : List (Event Action)} (hmeets : start.Meets events)
    (uri : String) :
    (start.run events).Counted uri (subscribes uri events) (unsubscribes uri events) := by
  have hcounted := (inv_start.run hmeets).counted uri
  rwa [Nat.zero_add, Nat.zero_add] at hcounted

/-! ## Calls during a load -/

/-- A connection is opened. -/
def connected : List (Event Unit) := [.initSocket, .opened (.stored String)]

/-- Two subscriptions behind each other, and one of them is cancelled. -/
def oneBehindOther : List (Event Unit) :=
  connected ++ [.subscribe "d:a" none, .loaded 0 7, .subscribe "d:a" none, .unsubscribe "d:a",
    .timeout]

instance (s : UpdateService Action) (uri : String) : Decidable (s.Loads uri) :=
  inferInstanceAs (Decidable (_ ∈ _))

/-- One of two subscriptions is left. -/
theorem counted_oneBehindOther : (start.run oneBehindOther).Counted "d:a" 2 1 := by
  have hmeets : start.Meets oneBehindOther := by
    refine ⟨trivial, trivial, ⟨by decide, by decide⟩, trivial, ⟨by decide, by decide⟩,
      ⟨by decide, by decide⟩, fun _ socket hsocket => ?_, trivial⟩
    exact (Option.some.inj hsocket).symm
  exact counted_of_meets hmeets "d:a"

/-- **A call during a load**: the second of two loads starts the counter again, so that one cancelled
subscription ends both; and a subscription that is cancelled before its load ends is entered. -/
theorem not_counted_duringLoad :
    ¬ (start.run (connected ++ [.subscribe "d:a" none, .subscribe "d:a" none, .loaded 0 7,
        .loaded 0 7, .unsubscribe "d:a", .timeout])).Counted "d:a" 2 1 ∧
      ¬ (start.run (connected ++ [.subscribe "d:a" none, .unsubscribe "d:a", .loaded 0 7,
        .timeout])).Counted "d:a" 1 1 := by
  constructor
  · intro h
    have hmem := ((h ⟨by decide, by decide, by decide⟩).1 (by decide)).1
    revert hmem
    decide
  · intro h
    have hmem := (h ⟨by decide, by decide, by decide⟩).2 rfl
    revert hmem
    decide

end UpdateService

end Veda.Browser
