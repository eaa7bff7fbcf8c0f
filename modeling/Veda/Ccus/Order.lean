import Veda.Ccus.Server
import Mathlib.Order.Nat

set_option autoImplicit false

/-!
# Counters that do not go back

The counter of an individual comes from the storage when the server gets to know the individual,
and from the queue afterwards; neither is compared with the counter that is kept. The queue is behind
the storage, so the element that is processed next can have a smaller counter than the storage had at
the subscription.

## Main definitions

* `Ccus.State.NeverBack` — the counters that were kept and sent for an individual.
* `Ccus.State.SubscribesBehind` — the condition of a subscription.

## Main results

* `Ccus.State.neverBack_of_reached` — the counters do not go back in a run in which no older
  element waits when the server gets to know an individual.
-/

namespace Veda.Ccus

/-- The counter that was kept. -/
def Said.kept? : Said → Option ℕ
  | .kept counter => some counter
  | _ => none

/-- The counter that was sent to the session. -/
def Said.sentTo? (session : ℕ) : Said → Option ℕ
  | .sent session' counter => if session' = session then some counter else none
  | _ => none

/-- The counter that was kept or sent. -/
def Said.counter? : Said → Option ℕ
  | .kept counter => some counter
  | .sent _ counter => some counter
  | .subscribed _ _ => none

namespace State

/-- **The counters do not go back**: neither those that are kept for an individual, nor those that
are sent to a session, as long as the server knows the individual. -/
def NeverBack (s : State) : Prop :=
  ∀ uri, ((s.log uri).filterMap Said.kept?).Pairwise (· ≤ ·) ∧
    ∀ session, ((s.log uri).filterMap (Said.sentTo? session)).Pairwise (· ≤ ·)

/-- The condition of a subscription: when the server does not know the individual, no element waits
whose counter is less than the stored one. -/
def SubscribesBehind (s : State) : Item → Prop
  | .subscribe uri _ =>
    s.uri2sessions uri = none → ∀ element ∈ s.waiting, element.1 = uri → s.stored uri ≤ element.2
  | _ => True

/-- The condition of a step. The stored counter of an individual does not go back. -/
def KeepsOrder (s : State) : Op → Prop
  | .store uri counter => s.stored uri ≤ counter
  | .message session text => ItemsAllowed SubscribesBehind session (itemsOf text) s
  | _ => True

/-! ## The invariant -/

/-- What happened with an individual has counters up to a bound, in their order. -/
structure Rising (log : List Said) (bound : ℕ) : Prop where
  sorted : (log.filterMap Said.counter?).Pairwise (· ≤ ·)
  le : ∀ counter ∈ log.filterMap Said.counter?, counter ≤ bound

/-- **The invariant.** -/
structure Ordered (s : State) : Prop where
  stored_ge : ∀ element ∈ s.waiting, element.2 ≤ s.stored element.1
  waiting : s.waiting.Pairwise fun first second => first.1 = second.1 → first.2 ≤ second.2
  behind : ∀ uri el, s.uri2sessions uri = some el →
    el.counter ≤ s.stored uri ∧ ∀ element ∈ s.waiting, element.1 = uri → el.counter ≤ element.2
  rising : ∀ uri el, s.uri2sessions uri = some el → Rising (s.log uri) el.counter
  unknown : ∀ uri, s.uri2sessions uri = none → s.log uri = []

/-- What is to be sent are the counters that are kept. -/
def Kept (s : State) (changes : List ((ℕ × Uri) × ℕ)) : Prop :=
  ∀ change ∈ changes, ∃ el, s.uri2sessions change.1.2 = some el ∧ change.2 = el.counter

variable {s s' : State} {changes changes' : List ((ℕ × Uri) × ℕ)} {uri : Uri}
  {el : SubscribeElement} {session counter bound : ℕ} {log : List Said} {said : Said}

theorem rising_nil (bound : ℕ) : Rising [] bound :=
  ⟨List.Pairwise.nil, fun _ hin => absurd hin List.not_mem_nil⟩

theorem Rising.append (h : Rising log bound) (hle : bound ≤ counter)
    (hsaid : ∀ n, Said.counter? said = some n → n = counter) : Rising (log ++ [said]) counter := by
  have hnew : ∀ n ∈ List.filterMap Said.counter? [said], n = counter := by
    intro n hin
    obtain ⟨said', hmem, hn⟩ := List.mem_filterMap.mp hin
    obtain rfl := List.mem_singleton.mp hmem
    exact hsaid n hn
  constructor
  · rw [List.filterMap_append, List.pairwise_append]
    refine ⟨h.sorted, ?_, ?_⟩
    · cases hs : Said.counter? said with
      | none => simp [hs]
      | some n => simp [hs]
    · intro a ha b hb
      rw [hnew b hb]
      exact (h.le a ha).trans hle
  · intro n hin
    rw [List.filterMap_append, List.mem_append] at hin
    rcases hin with hold | hin
    · exact (h.le n hold).trans hle
    · exact (hnew n hin).le

theorem Rising.pairwise (h : Rising log bound) {counterOf : Said → Option ℕ}
    (hsome : ∀ said n, counterOf said = some n → Said.counter? said = some n) :
    (log.filterMap counterOf).Pairwise (· ≤ ·) := by
  rw [List.pairwise_filterMap]
  refine (List.pairwise_filterMap.mp h.sorted).imp ?_
  intro first second hle n hn n' hn'
  exact hle n (hsome first n hn) n' (hsome second n' hn')

theorem Ordered.neverBack (h : s.Ordered) : s.NeverBack := by
  intro uri
  have hrising : ∃ bound, Rising (s.log uri) bound := by
    cases hel : s.uri2sessions uri with
    | none =>
      rw [h.unknown uri hel]
      exact ⟨0, rising_nil 0⟩
    | some el => exact ⟨el.counter, h.rising uri el hel⟩
  obtain ⟨bound, hrising⟩ := hrising
  constructor
  · apply hrising.pairwise
    rintro (counter | ⟨_, _⟩ | ⟨_, _⟩) n hn <;> simp_all [Said.kept?, Said.counter?]
  · intro session
    apply hrising.pairwise
    rintro (counter | ⟨_, _⟩ | ⟨_, _⟩) n hn <;> simp_all [Said.sentTo?, Said.counter?]

/-! ## Steps -/

/-- **A counter is kept** that is not less than the one before, and not more than those that
follow. -/
theorem Ordered.put (h : s.Ordered)
    (hbefore : ∀ old, s.uri2sessions uri = some old → old.counter ≤ el.counter)
    (hbehind : el.counter ≤ s.stored uri ∧
      ∀ element ∈ s.waiting, element.1 = uri → el.counter ≤ element.2) :
    (s.put uri el).Ordered where
  stored_ge := h.stored_ge
  waiting := h.waiting
  behind := by
    intro uri' el' hel'
    obtain ⟨rfl, rfl⟩ | ⟨-, hel⟩ := put_uri2sessions_eq_some hel'
    · exact hbehind
    · exact h.behind uri' el' hel
  rising := by
    intro uri' el' hel'
    obtain ⟨rfl, rfl⟩ | ⟨huri, hel⟩ := put_uri2sessions_eq_some hel'
    · rw [put_log_self]
      have hkept : ∀ n, Said.counter? (.kept el.counter) = some n → n = el.counter :=
        fun n hn => (Option.some.inj hn).symm
      cases hold : s.uri2sessions uri' with
      | none =>
        rw [h.unknown uri' hold]
        exact (rising_nil 0).append (Nat.zero_le _) hkept
      | some old => exact (h.rising uri' old hold).append (hbefore old hold) hkept
    · rw [put_log_of_ne _ _ huri]
      exact h.rising uri' el' hel
  unknown := by
    intro uri' hel'
    by_cases huri : uri' = uri
    · subst huri
      rw [put_uri2sessions_self] at hel'
      cases hel'
    · rw [put_log_of_ne _ _ huri]
      exact h.unknown uri' ((put_uri2sessions_of_ne s _ huri).symm.trans hel')

theorem Ordered.say (h : s.Ordered) (hel : s.uri2sessions uri = some el)
    (hsaid : ∀ n, Said.counter? said = some n → n = el.counter) : (s.say uri said).Ordered where
  stored_ge := h.stored_ge
  waiting := h.waiting
  behind := h.behind
  rising := by
    intro uri' el' hel'
    by_cases huri : uri' = uri
    · subst huri
      obtain rfl : el = el' := Option.some.inj (hel.symm.trans hel')
      rw [say_log_self]
      exact (h.rising uri' el hel).append (Nat.le_refl _) hsaid
    · rw [say_log_of_ne _ _ huri]
      exact h.rising uri' el' hel'
  unknown := by
    intro uri' hel'
    by_cases huri : uri' = uri
    · subst huri
      have hel' : s.uri2sessions uri' = none := hel'
      rw [hel] at hel'
      cases hel'
    · rw [say_log_of_ne _ _ huri]
      exact h.unknown uri' hel'

theorem Kept.put (h : s.Kept changes)
    (hsame : ∀ old, s.uri2sessions uri = some old → old.counter = el.counter) :
    (s.put uri el).Kept changes := by
  intro change hin
  obtain ⟨old, hold, heq⟩ := h change hin
  by_cases huri : change.1.2 = uri
  · subst huri
    exact ⟨el, put_uri2sessions_self .., heq.trans (hsame old hold)⟩
  · exact ⟨old, (put_uri2sessions_of_ne s _ huri).trans hold, heq⟩

/-- **A session leaves** all individuals; those that nobody looks at can be forgotten. -/
theorem Ordered.unsubscribeAll (h : s.Ordered) (session : ℕ) (isClearUnused : Bool) :
    (s.unsubscribeAll session isClearUnused).Ordered where
  stored_ge := h.stored_ge
  waiting := h.waiting
  behind := by
    intro uri el' hel'
    obtain ⟨el, hel, rfl⟩ := unsubscribeAll_eq_some hel'
    exact h.behind uri el hel
  rising := by
    intro uri el' hel'
    rw [unsubscribeAll_log_of_some hel']
    obtain ⟨el, hel, rfl⟩ := unsubscribeAll_eq_some hel'
    exact h.rising uri el hel
  unknown := fun uri hnone => if_pos (Option.isNone_iff_eq_none.mpr hnone)

/-- **A part of a message** that meets its condition. -/
theorem Ordered.prepareItem {item : Item} (h : s.Ordered) (hkept : s.Kept changes)
    (hbehind : s.SubscribesBehind item) :
    (s.prepareItem session item).1.Ordered ∧
      (s.prepareItem session item).1.Kept (changes ++ (s.prepareItem session item).2) := by
  cases item with
  | subscribe uri counter =>
    have hsame : ∀ old, s.uri2sessions uri = some old →
        old.counter = (s.subscribedElement uri session).counter :=
      fun old hold => (subscribedElement_counter_of_some session hold).symm
    have hput : (s.put uri (s.subscribedElement uri session)).Ordered := by
      apply h.put (fun old hold => (hsame old hold).le)
      cases hel : s.uri2sessions uri with
      | none =>
        rw [subscribedElement_counter_of_none session hel]
        exact ⟨Nat.le_refl _, hbehind hel⟩
      | some old =>
        rw [subscribedElement_counter_of_some session hel]
        exact h.behind uri old hel
    refine ⟨hput.say (put_uri2sessions_self ..) (fun n hn => by cases hn), ?_⟩
    intro change hin
    rcases List.mem_append.mp hin with hold | hnew
    · exact (hkept.put hsame) change hold
    · have hnew : change ∈ if counter < (s.subscribedElement uri session).counter ∨
        (s.subscribedElement uri session).counter = 0 then
          [((session, uri), (s.subscribedElement uri session).counter)] else [] := hnew
      split at hnew
      · obtain rfl := List.mem_singleton.mp hnew
        exact ⟨_, put_uri2sessions_self .., rfl⟩
      · exact absurd hnew List.not_mem_nil
  | unsubscribe uri =>
    show (s.unsubscribe uri session).Ordered ∧ (s.unsubscribe uri session).Kept (changes ++ [])
    rw [List.append_nil]
    have hsame : ∀ old, s.uri2sessions uri = some old →
        old.counter = ((s.uri2sessions uri).getD ⟨0, []⟩).counter := by
      intro old hold
      rw [hold]
      rfl
    refine ⟨h.put (fun old hold => (hsame old hold).le) ?_, hkept.put hsame⟩
    cases hel : s.uri2sessions uri with
    | none => exact ⟨Nat.zero_le _, fun _ _ _ => Nat.zero_le _⟩
    | some old => exact h.behind uri old hel
  | unsubscribeAll =>
    show (s.unsubscribeAll session false).Ordered ∧
      (s.unsubscribeAll session false).Kept (changes ++ [])
    rw [List.append_nil]
    refine ⟨h.unsubscribeAll session false, ?_⟩
    intro change hin
    obtain ⟨el, hel, heq⟩ := hkept change hin
    refine ⟨{ el with sessions := el.sessions.erase session }, ?_, heq⟩
    show (s.uri2sessions change.1.2).bind (leave session false) = _
    rw [hel]
    rfl
  | handshake | other =>
    show s.Ordered ∧ s.Kept (changes ++ [])
    rw [List.append_nil]
    exact ⟨h, hkept⟩

/-- **A counter is sent**: it is the one that is kept. -/
theorem Ordered.send {change : (ℕ × Uri) × ℕ} (h : s.Ordered)
    (hkept : s.Kept (change :: changes)) :
    (s.send change.1.1 change.1.2 change.2).Ordered ∧
      (s.send change.1.1 change.1.2 change.2).Kept changes := by
  obtain ⟨el, hel, heq⟩ := hkept change List.mem_cons_self
  have hrest : s.Kept changes := fun other hin => hkept other (List.mem_cons_of_mem _ hin)
  unfold State.send
  split
  · exact ⟨h.say hel (fun n hn => (Option.some.inj hn).symm.trans heq), hrest⟩
  · exact ⟨h, hrest⟩

/-- **All counters are sent.** -/
theorem Ordered.sendAll (h : s.Ordered) (hkept : s.Kept changes) : (s.sendAll changes).Ordered :=
  (sendAll_preserves (P := fun s changes => s.Ordered ∧ s.Kept changes)
    (fun _ _ _ hs => hs.1.send hs.2) s changes ⟨h, hkept⟩).1

/-- **A message** whose subscriptions meet their conditions. -/
theorem Ordered.prepareCommand (h : s.Ordered) {text : List Char}
    (hallowed : ItemsAllowed SubscribesBehind session (itemsOf text) s) :
    (s.prepareCommand session text).Ordered := by
  have hitems := prepareItems_preserves (P := fun s changes => s.Ordered ∧ s.Kept changes)
    (fun _ _ _ hs hbehind => hs.1.prepareItem hs.2 hbehind) (itemsOf text) s [] hallowed
    ⟨h, fun _ hin => absurd hin List.not_mem_nil⟩
  exact hitems.1.sendAll hitems.2

/-- What is to be sent behind some elements of a batch: the counters that are kept, to sessions that
are told of the individual. -/
def Batched (s : State) (changes : List ((ℕ × Uri) × ℕ)) : Prop :=
  ∀ change ∈ changes, ∃ el, s.uri2sessions change.1.2 = some el ∧ change.1.1 ∈ el.sessions ∧
    change.2 = el.counter

/-- **An element of the queue** is processed. -/
theorem Ordered.prepareQueueEl {waiting : List (Uri × ℕ)} (h : s.Ordered)
    (hbatched : s.Batched changes) (hwaiting : s.waiting = (uri, counter) :: waiting) :
    ({ s with waiting }.prepareQueueEl changes uri counter).1.Ordered ∧
      ({ s with waiting }.prepareQueueEl changes uri counter).1.Batched
        ({ s with waiting }.prepareQueueEl changes uri counter).2 := by
  have hsub : ∀ element ∈ waiting, element ∈ s.waiting := by
    intro element hin
    rw [hwaiting]
    exact List.mem_cons_of_mem _ hin
  have hsorted : (∀ element ∈ waiting, uri = element.1 → counter ≤ element.2) ∧
      waiting.Pairwise fun first second => first.1 = second.1 → first.2 ≤ second.2 := by
    have hpairwise := h.waiting
    rw [hwaiting] at hpairwise
    exact List.pairwise_cons.mp hpairwise
  have hpopped : State.Ordered { s with waiting } := {
    stored_ge := fun element hin => h.stored_ge element (hsub element hin)
    waiting := hsorted.2
    behind := fun uri' el hel => ⟨(h.behind uri' el hel).1,
      fun element hin => (h.behind uri' el hel).2 element (hsub element hin)⟩
    rising := h.rising
    unknown := h.unknown }
  have hfirst : (uri, counter) ∈ s.waiting := by
    rw [hwaiting]
    exact List.mem_cons_self
  unfold State.prepareQueueEl
  split
  case h_1 => exact ⟨hpopped, hbatched⟩
  case h_2 el hel =>
    constructor
    · apply hpopped.put
      · rintro old hold
        obtain rfl : el = old := Option.some.inj (hel.symm.trans hold)
        exact (h.behind uri el hel).2 (uri, counter) hfirst rfl
      · exact ⟨h.stored_ge (uri, counter) hfirst,
          fun element hin huri => hsorted.1 element hin huri.symm⟩
    · intro change hin
      rcases (mem_insertCounters ..).mp hin with ⟨hold, hother⟩ | ⟨session, hsession, rfl⟩
      · obtain ⟨old, hel', hmem, heq⟩ := hbatched change hold
        have huri : change.1.2 ≠ uri := by
          intro huri
          obtain rfl : el = old := by
            rw [huri] at hel'
            exact Option.some.inj (hel.symm.trans hel')
          exact hother change.1.1 hmem (Prod.ext rfl huri)
        exact ⟨old, (put_uri2sessions_of_ne _ _ huri).trans hel', hmem, heq⟩
      · exact ⟨_, put_uri2sessions_self .., hsession, rfl⟩

/-- **The queue is checked.** -/
theorem Ordered.check (h : s.Ordered) (sizeBatch : ℕ) : (s.check sizeBatch).Ordered := by
  have hbatch := prepareBatch_preserves (P := fun s changes => s.Ordered ∧ s.Batched changes)
    (fun _ _ _ _ _ hwaiting hs => hs.1.prepareQueueEl hs.2 hwaiting) sizeBatch s []
    ⟨h, fun _ hin => absurd hin List.not_mem_nil⟩
  apply hbatch.1.sendAll
  intro change hin
  obtain ⟨el, hel, -, heq⟩ := hbatch.2 change hin
  exact ⟨el, hel, heq⟩

/-- **An update** is stored. -/
theorem Ordered.store (h : s.Ordered) (hle : s.stored uri ≤ counter) :
    (s.store uri counter).Ordered := by
  have hstored : ∀ uri', s.stored uri' ≤ (s.store uri counter).stored uri' := by
    intro uri'
    show _ ≤ Function.update s.stored uri counter uri'
    by_cases huri : uri' = uri
    · subst huri
      rw [Function.update_self]
      exact hle
    · rw [Function.update_of_ne huri]
  have hself : (s.store uri counter).stored uri = counter := Function.update_self ..
  exact {
    stored_ge := by
      intro element hin
      rcases List.mem_append.mp hin with hold | hnew
      · exact (h.stored_ge element hold).trans (hstored element.1)
      · obtain rfl := List.mem_singleton.mp hnew
        exact hself.ge
    waiting := by
      show (s.waiting ++ [(uri, counter)]).Pairwise _
      rw [List.pairwise_append]
      refine ⟨h.waiting, List.pairwise_singleton .., ?_⟩
      intro element hin new hnew huri
      obtain rfl := List.mem_singleton.mp hnew
      have hge := h.stored_ge element hin
      rw [huri] at hge
      exact hge.trans hle
    behind := by
      intro uri' el hel
      refine ⟨(h.behind uri' el hel).1.trans (hstored uri'), ?_⟩
      intro element hin huri
      rcases List.mem_append.mp hin with hold | hnew
      · exact (h.behind uri' el hel).2 element hold huri
      · obtain rfl := List.mem_singleton.mp hnew
        obtain rfl : uri = uri' := huri
        exact (h.behind uri el hel).1.trans hle
    rising := h.rising
    unknown := h.unknown }

/-! ## Runs -/

/-- **A step** that meets its condition keeps the invariant. -/
theorem Ordered.step (h : s.Ordered) {op : Op} (hallowed : s.KeepsOrder op) :
    (s.step op).Ordered := by
  cases op with
  | store uri counter => exact h.store hallowed
  | connect session => exact { h with }
  | disconnect session =>
    show (s.disconnect session).Ordered
    unfold State.disconnect
    split
    · have hleft : State.Ordered { s with sessions := s.sessions.filter (· ≠ session) } :=
        { h with }
      exact hleft.unsubscribeAll session true
    · exact h
  | message session text => exact h.prepareCommand hallowed
  | check sizeBatch => exact h.check sizeBatch

/-- **The states of a run** whose steps meet their conditions. -/
theorem Reached.ordered (h : Reached KeepsOrder s) : s.Ordered := by
  induction h with
  | start =>
    exact {
      stored_ge := fun _ hin => absurd hin List.not_mem_nil
      waiting := List.Pairwise.nil
      behind := fun _ _ hel => nomatch hel
      rising := fun _ _ hel => nomatch hel
      unknown := fun _ _ => rfl }
  | step _ _ hallowed ih => exact ih.step hallowed

/-- **The counters do not go back** in a run in which the stored counters do not, and in which no
element with an older counter waits when the server gets to know an individual. -/
theorem neverBack_of_reached (h : Reached KeepsOrder s) : s.NeverBack := h.ordered.neverBack

/-- A run of small operations. -/
def steps (ops : List Op) : State := ops.foldl step start

/-- An individual is stored and its element is processed before a client subscribes; then it is
stored again. -/
def subscribedBehind : List Op :=
  [.store ['u'] 1, .check 1, .connect 1, .message 1 ['+', 'u', '=', '0'], .store ['u'] 2, .check 1]

/-- The client is sent both counters, one after the other. -/
theorem neverBack_subscribedBehind : (steps subscribedBehind).NeverBack := by
  have hitems : itemsOf ['+', 'u', '=', '0'] = [.subscribe ['u'] 0] := by decide +kernel
  have h₀ : Reached KeepsOrder start := .start
  have h₁ := h₀.step (.store ['u'] 1) (Nat.zero_le _)
  have h₂ := h₁.step (.check 1) trivial
  have h₃ := h₂.step (.connect 1) trivial
  have h₄ := h₃.step (.message 1 ['+', 'u', '=', '0']) (by
    show ItemsAllowed SubscribesBehind 1 (itemsOf ['+', 'u', '=', '0']) _
    rw [hitems]
    exact ⟨fun _ _ hin => absurd hin List.not_mem_nil, trivial⟩)
  have h₅ := h₄.step (.store ['u'] 2) (by
    show State.stored _ ['u'] ≤ 2
    decide +kernel)
  have h₆ := h₅.step (.check 1) trivial
  have hreached : Reached KeepsOrder (steps subscribedBehind) := by
    simpa only [steps, subscribedBehind, List.foldl_cons, List.foldl_nil] using h₆
  exact neverBack_of_reached hreached

/-- **An older element waits**: the client is sent the stored counter, and the older one behind
it. -/
theorem not_neverBack_lagging :
    ¬ (steps [.store ['u'] 1, .store ['u'] 2, .connect 1, .message 1 ['+', 'u', '=', '0'],
      .check 1]).NeverBack := by
  intro hnever
  have hlog : (steps [.store ['u'] 1, .store ['u'] 2, .connect 1, .message 1 ['+', 'u', '=', '0'],
      .check 1]).log ['u'] = [.kept 2, .subscribed 1 0, .sent 1 2, .kept 1, .sent 1 1] := by
    decide +kernel
  have hkept := (hnever ['u']).1
  rw [hlog] at hkept
  exact absurd hkept (by decide)

end State

end Veda.Ccus
