import Veda.Ccus.Server

set_option autoImplicit false

/-!
# Sessions that are told

A session that is subscribed to an individual is told the stored counter when the queue has been
processed. The server knows this counter when it gets to know the individual by a subscription, or
when it processed an element of the queue since then. An individual that the server got to know
because somebody cancelled a subscription has counter zero; whoever subscribes next is told this
zero, although the storage has another counter.

## Main definitions

* `Ccus.State.NoneLeftBehind` — every subscribed session knows the stored counter.
* `Ccus.State.SubscribesWell` — the condition of a subscription.

## Main results

* `Ccus.State.noneLeftBehind_of_reached` — nobody is left behind in a run whose subscriptions
  meet the condition.
-/

namespace Veda.Ccus.State

/-! ## What a session knows -/

/-- The last subscription of a session, with the counter that it gave and what happened since. -/
def LastSubscription (log : List Said) (session counter : ℕ) (behind : List Said) : Prop :=
  ∃ before, log = before ++ Said.subscribed session counter :: behind ∧
    ∀ other, Said.subscribed session other ∉ behind

/-- The session was sent the counter since its last subscription, or gave it there. -/
def Knows (log : List Said) (session counter : ℕ) : Prop :=
  ∃ given behind, LastSubscription log session given behind ∧
    (given = counter ∨ Said.sent session counter ∈ behind)

/-- **Nobody is left behind**: when all elements of the queue are processed, every connected session
that is subscribed to an individual knows its stored counter. -/
def NoneLeftBehind (s : State) : Prop :=
  s.waiting = [] → ∀ uri el session, s.uri2sessions uri = some el → session ∈ el.sessions →
    session ∈ s.sessions → Knows (s.log uri) session (s.stored uri)

/-- The condition of a subscription: an element of the individual waits in the queue, or the
individual is not stored, or else the session gives a counter that the storage has reached and the
server does not know the individual with counter zero. -/
def SubscribesWell (s : State) : Item → Prop
  | .subscribe uri counter =>
    s.Waits uri ∨ s.stored uri = 0 ∨
      (counter ≤ s.stored uri ∧ ∀ el, s.uri2sessions uri = some el → el.counter ≠ 0)
  | _ => True

/-- The condition of a step. The id of a new session is not that of an older one. -/
def TellsAll (s : State) : Op → Prop
  | .connect session => ∀ uri el, s.uri2sessions uri = some el → session ∉ el.sessions
  | .message session text => ItemsAllowed SubscribesWell session (itemsOf text) s
  | _ => True

/-! ## The invariant -/

/-- A session is told of an individual: it knows the stored counter, or an element waits, or the
counter is among those that are to be sent. -/
def Told (s : State) (changes : List ((ℕ × Uri) × ℕ)) (uri : Uri) (session : ℕ) : Prop :=
  ∃ given behind, LastSubscription (s.log uri) session given behind ∧
    (s.Waits uri ∨ given = s.stored uri ∨ Said.sent session (s.stored uri) ∈ behind ∨
      ((session, uri), s.stored uri) ∈ changes)

/-- **The invariant**, with the counters that are still to be sent. -/
structure Current (s : State) (changes : List ((ℕ × Uri) × ℕ)) : Prop where
  /-- the last element of an individual has the stored counter -/
  last : ∀ before uri counter behind, s.waiting = before ++ (uri, counter) :: behind →
    (∀ element ∈ behind, element.1 ≠ uri) → counter = s.stored uri
  counter : ∀ uri el, s.uri2sessions uri = some el →
    s.Waits uri ∨ el.counter = s.stored uri ∨ el.counter = 0
  told : ∀ uri el session, s.uri2sessions uri = some el → session ∈ el.sessions →
    session ∈ s.sessions → s.Told changes uri session

variable {s s' : State} {changes changes' : List ((ℕ × Uri) × ℕ)} {uri : Uri}
  {el : SubscribeElement} {session counter given : ℕ} {log more behind : List Said}

theorem LastSubscription.extend (h : LastSubscription log session given behind)
    (hmore : ∀ other, Said.subscribed session other ∉ more) :
    LastSubscription (log ++ more) session given (behind ++ more) := by
  obtain ⟨before, rfl, hbehind⟩ := h
  refine ⟨before, ?_, ?_⟩
  · rw [List.append_assoc, List.cons_append]
  · intro other hin
    rcases List.mem_append.mp hin with hold | hnew
    · exact hbehind other hold
    · exact hmore other hnew

theorem Knows.mem (h : Knows log session counter) :
    Said.subscribed session counter ∈ log ∨ Said.sent session counter ∈ log := by
  obtain ⟨given, behind, ⟨before, rfl, -⟩, rfl | hsent⟩ := h
  · exact .inl (List.mem_append_right _ List.mem_cons_self)
  · exact .inr (List.mem_append_right _ (List.mem_cons_of_mem _ hsent))

theorem Told.mono (h : s.Told changes uri session) (hwaits : s.Waits uri → s'.Waits uri)
    (hstored : s'.stored uri = s.stored uri) (hlog : s'.log uri = s.log uri ++ more)
    (hmore : ∀ other, Said.subscribed session other ∉ more)
    (hchanges : ((session, uri), s.stored uri) ∈ changes →
      Said.sent session (s.stored uri) ∈ more ∨ ((session, uri), s.stored uri) ∈ changes') :
    s'.Told changes' uri session := by
  obtain ⟨given, behind, hlast, hcases⟩ := h
  refine ⟨given, behind ++ more, ?_, ?_⟩
  · rw [hlog]
    exact hlast.extend hmore
  · rw [hstored]
    rcases hcases with hw | hgiven | hsent | hin
    · exact .inl (hwaits hw)
    · exact .inr (.inl hgiven)
    · exact .inr (.inr (.inl (List.mem_append_left _ hsent)))
    · rcases hchanges hin with hnew | hleft
      · exact .inr (.inr (.inl (List.mem_append_right _ hnew)))
      · exact .inr (.inr (.inr hleft))

theorem Told.same (h : s.Told changes uri session) (hwaits : s.Waits uri → s'.Waits uri)
    (hstored : s'.stored uri = s.stored uri) (hlog : s'.log uri = s.log uri)
    (hchanges : ((session, uri), s.stored uri) ∈ changes →
      ((session, uri), s.stored uri) ∈ changes') :
    s'.Told changes' uri session :=
  h.mono hwaits hstored (hlog.trans (List.append_nil _).symm) (fun _ => List.not_mem_nil)
    (fun hin => .inr (hchanges hin))

/-! ## Messages -/

/-- **A subscription** that meets its condition. -/
theorem Current.subscribe (h : s.Current changes)
    (hwell : s.SubscribesWell (.subscribe uri counter)) :
    (s.prepareItem session (.subscribe uri counter)).1.Current
      (changes ++ (s.prepareItem session (.subscribe uri counter)).2) := by
  have hregistered : s.Waits uri ∨
      (s.subscribedElement uri session).counter = s.stored uri ∨
        (s.subscribedElement uri session).counter = 0 := by
    cases hel : s.uri2sessions uri with
    | none => exact .inr (.inl (subscribedElement_counter_of_none session hel))
    | some el =>
      rw [subscribedElement_counter_of_some session hel]
      exact h.counter uri el hel
  refine ⟨h.last, ?_, ?_⟩
  · intro uri' el' hel'
    have hel' : (s.put uri (s.subscribedElement uri session)).uri2sessions uri' = some el' := hel'
    obtain ⟨rfl, rfl⟩ | ⟨-, hel⟩ := put_uri2sessions_eq_some hel'
    · exact hregistered
    · exact h.counter uri' el' hel
  · intro uri' el' session' hel' hin hconnected
    have hel' : (s.put uri (s.subscribedElement uri session)).uri2sessions uri' = some el' := hel'
    obtain ⟨rfl, rfl⟩ | ⟨huri, hel⟩ := put_uri2sessions_eq_some hel'
    · have hlog : (s.prepareItem session (.subscribe uri' counter)).1.log uri' =
          s.log uri' ++ [.kept (s.subscribedElement uri' session).counter,
            .subscribed session counter] := by
        show ((s.put uri' _).say uri' _).log uri' = _
        rw [say_log_self, put_log_self, List.append_assoc]
        rfl
      by_cases hsession : session' = session
      · -- the session itself: the registered counter is sent, or it is the one that was given
        subst hsession
        refine ⟨counter, [], ⟨s.log uri' ++ [.kept (s.subscribedElement uri' session').counter], ?_,
          fun _ => List.not_mem_nil⟩, ?_⟩
        · rw [hlog, List.append_assoc]
          rfl
        · by_cases hwaits : s.Waits uri'
          · exact .inl hwaits
          · have hzero : s.stored uri' = 0 →
                (s.subscribedElement uri' session').counter = 0 := by
              intro hstored
              rcases hregistered with hw | heq | hzero
              · exact absurd hw hwaits
              · exact heq.trans hstored
              · exact hzero
            have hsent : (s.subscribedElement uri' session').counter = s.stored uri' →
                counter < s.stored uri' ∨ s.stored uri' = 0 →
                ((session', uri'), s.stored uri') ∈
                  changes ++ (s.prepareItem session' (.subscribe uri' counter)).2 := by
              intro heq hlt
              apply List.mem_append_right
              show _ ∈ if counter < (s.subscribedElement uri' session').counter ∨
                (s.subscribedElement uri' session').counter = 0 then _ else _
              rw [heq, if_pos hlt]
              exact List.mem_singleton_self _
            rcases hwell with hw | hstored | ⟨hle, hknown⟩
            · exact absurd hw hwaits
            · exact .inr (.inr (.inr (hsent ((hzero hstored).trans hstored.symm) (.inr hstored))))
            · have heq : (s.subscribedElement uri' session').counter = s.stored uri' := by
                cases hel : s.uri2sessions uri' with
                | none => exact subscribedElement_counter_of_none session' hel
                | some el =>
                  rw [subscribedElement_counter_of_some session' hel]
                  rcases h.counter uri' el hel with hw | heq | hzero
                  · exact absurd hw hwaits
                  · exact heq
                  · exact absurd hzero (hknown el hel)
              rcases Nat.lt_or_eq_of_le hle with hlt | hgiven
              · exact .inr (.inr (.inr (hsent heq (.inl hlt))))
              · exact .inr (.inl hgiven)
      · obtain ⟨el, hel, hold⟩ :=
          ((mem_subscribedElement s uri' session session').mp hin).resolve_left hsession
        refine (h.told uri' el session' hel hold hconnected).mono (fun hw => hw) rfl hlog ?_ ?_
        · intro other hmem
          rcases List.mem_cons.mp hmem with hk | hmem
          · cases hk
          · cases List.mem_singleton.mp hmem
            exact hsession rfl
        · exact fun hin => .inr (List.mem_append_left _ hin)
    · refine (h.told uri' el' session' hel hin hconnected).same (fun hw => hw) rfl ?_ ?_
      · show ((s.put uri _).say uri _).log uri' = _
        rw [say_log_of_ne _ _ huri, put_log_of_ne _ _ huri]
      · exact fun hin => List.mem_append_left _ hin

theorem Current.unsubscribe (h : s.Current changes) (uri : Uri) (session : ℕ) :
    (s.unsubscribe uri session).Current changes := by
  refine ⟨h.last, ?_, ?_⟩
  · intro uri' el' hel'
    obtain ⟨rfl, rfl⟩ | ⟨-, hel⟩ := put_uri2sessions_eq_some hel'
    · cases hel : s.uri2sessions uri' with
      | none => exact .inr (.inr (by simp))
      | some el => exact h.counter uri' el hel
    · exact h.counter uri' el' hel
  · intro uri' el' session' hel' hin hconnected
    obtain ⟨rfl, rfl⟩ | ⟨huri, hel⟩ := put_uri2sessions_eq_some hel'
    · have hold := List.mem_of_mem_erase hin
      cases hel : s.uri2sessions uri' with
      | none =>
        rw [hel] at hold
        exact absurd hold List.not_mem_nil
      | some el =>
        rw [hel] at hold
        refine (h.told uri' el session' hel hold hconnected).mono (fun hw => hw) rfl
          (put_log_self ..) ?_ ?_
        · intro other hmem
          cases List.mem_singleton.mp hmem
        · exact fun hin => .inr hin
    · exact (h.told uri' el' session' hel hin hconnected).same (fun hw => hw) rfl
        (put_log_of_ne _ _ huri) (fun hin => hin)

theorem Current.unsubscribeAll (h : s.Current changes) (session : ℕ) (isClearUnused : Bool) :
    (s.unsubscribeAll session isClearUnused).Current changes := by
  refine ⟨h.last, ?_, ?_⟩
  · intro uri el' hel'
    obtain ⟨el, hel, rfl⟩ := unsubscribeAll_eq_some hel'
    exact h.counter uri el hel
  · intro uri el' session' hel' hin hconnected
    have hlog := unsubscribeAll_log_of_some hel'
    obtain ⟨el, hel, rfl⟩ := unsubscribeAll_eq_some hel'
    exact (h.told uri el session' hel (List.mem_of_mem_erase hin) hconnected).same
      (fun hw => hw) rfl hlog (fun hin => hin)

/-- **A part of a message** that meets its condition. -/
theorem Current.prepareItem (h : s.Current changes) {item : Item} (hwell : s.SubscribesWell item) :
    (s.prepareItem session item).1.Current (changes ++ (s.prepareItem session item).2) := by
  cases item with
  | subscribe uri counter => exact h.subscribe hwell
  | unsubscribe uri =>
    show (s.unsubscribe uri session).Current (changes ++ [])
    rw [List.append_nil]
    exact h.unsubscribe uri session
  | unsubscribeAll =>
    show (s.unsubscribeAll session false).Current (changes ++ [])
    rw [List.append_nil]
    exact h.unsubscribeAll session false
  | handshake | other =>
    show s.Current (changes ++ [])
    rw [List.append_nil]
    exact h

/-- **A counter is sent.** -/
theorem Current.send {change : (ℕ × Uri) × ℕ} (h : s.Current (change :: changes)) :
    (s.send change.1.1 change.1.2 change.2).Current changes := by
  obtain ⟨⟨session, uri⟩, counter⟩ := change
  unfold State.send
  split
  case isTrue hconnected =>
    refine ⟨h.last, h.counter, ?_⟩
    intro uri' el' session' hel' hin hconnected'
    have htold := h.told uri' el' session' hel' hin hconnected'
    by_cases huri : uri' = uri
    · subst huri
      refine htold.mono (fun hw => hw) rfl (say_log_self ..) ?_ ?_
      · intro other hmem
        cases List.mem_singleton.mp hmem
      · intro hin
        rcases List.mem_cons.mp hin with heq | hrest
        · cases heq
          exact .inl (List.mem_singleton_self _)
        · exact .inr hrest
    · refine htold.same (fun hw => hw) rfl (say_log_of_ne _ _ huri) ?_
      intro hin
      rcases List.mem_cons.mp hin with heq | hrest
      · cases heq
        exact absurd rfl huri
      · exact hrest
  case isFalse hconnected =>
    refine ⟨h.last, h.counter, ?_⟩
    intro uri' el' session' hel' hin hconnected'
    refine (h.told uri' el' session' hel' hin hconnected').same (fun hw => hw) rfl rfl ?_
    intro hin
    rcases List.mem_cons.mp hin with heq | hrest
    · cases heq
      exact absurd hconnected' hconnected
    · exact hrest

/-- **A message** whose subscriptions meet their conditions. -/
theorem Current.prepareCommand (h : s.Current []) {text : List Char}
    (hallowed : ItemsAllowed SubscribesWell session (itemsOf text) s) :
    (s.prepareCommand session text).Current [] := by
  have hitems := prepareItems_preserves (P := State.Current)
    (fun _ _ _ hcurrent hwell => hcurrent.prepareItem hwell) (itemsOf text) s [] hallowed h
  exact sendAll_preserves (P := State.Current) (fun _ _ _ hcurrent => hcurrent.send) _ _ hitems

/-! ## The queue -/

/-- **An element of the queue** is processed. -/
theorem Current.prepareQueueEl {waiting : List (Uri × ℕ)} (h : s.Current changes)
    (hwaiting : s.waiting = (uri, counter) :: waiting) :
    ({ s with waiting }.prepareQueueEl changes uri counter).1.Current
      ({ s with waiting }.prepareQueueEl changes uri counter).2 := by
  have hlast : ∀ before uri' counter' behind, waiting = before ++ (uri', counter') :: behind →
      (∀ element ∈ behind, element.1 ≠ uri') → counter' = s.stored uri' := by
    intro before uri' counter' behind hsplit hbehind
    apply h.last ((uri, counter) :: before) uri' counter' behind _ hbehind
    rw [hwaiting, hsplit, List.cons_append]
  have hother : ∀ uri', uri' ≠ uri → s.Waits uri' → State.Waits { s with waiting } uri' := by
    rintro uri' huri ⟨counter', hin⟩
    rw [hwaiting] at hin
    rcases List.mem_cons.mp hin with heq | hrest
    · cases heq
      exact absurd rfl huri
    · exact ⟨counter', hrest⟩
  -- the processed element was the last one of its individual, or another one waits
  have hself : State.Waits { s with waiting } uri ∨ counter = s.stored uri := by
    by_cases hwaits : State.Waits { s with waiting } uri
    · exact .inl hwaits
    · refine .inr (h.last [] uri counter waiting hwaiting ?_)
      rintro ⟨uri', counter'⟩ hin rfl
      exact hwaits ⟨counter', hin⟩
  unfold State.prepareQueueEl
  split
  case h_1 hnone =>
    have hne : ∀ uri' el', s.uri2sessions uri' = some el' → uri' ≠ uri := by
      rintro uri' el' hel' rfl
      have hnone : s.uri2sessions uri' = none := hnone
      rw [hnone] at hel'
      cases hel'
    refine ⟨hlast, ?_, ?_⟩
    · intro uri' el' hel'
      exact (h.counter uri' el' hel').imp_left (hother uri' (hne uri' el' hel'))
    · intro uri' el' session' hel' hin hconnected
      exact (h.told uri' el' session' hel' hin hconnected).same
        (hother uri' (hne uri' el' hel')) rfl rfl (fun hin => hin)
  case h_2 el hel =>
    refine ⟨hlast, ?_, ?_⟩
    · intro uri' el' hel'
      obtain ⟨rfl, rfl⟩ | ⟨huri, hold⟩ := put_uri2sessions_eq_some hel'
      · exact hself.imp_right .inl
      · exact (h.counter uri' el' hold).imp_left (hother uri' huri)
    · intro uri' el' session' hel' hin hconnected
      obtain ⟨rfl, rfl⟩ | ⟨huri, hold⟩ := put_uri2sessions_eq_some hel'
      · obtain ⟨given, behind, hsubscription, -⟩ := h.told uri' el session' hel hin hconnected
        refine ⟨given, behind ++ [.kept counter], ?_, ?_⟩
        · rw [put_log_self]
          apply hsubscription.extend
          intro other hmem
          cases List.mem_singleton.mp hmem
        · rcases hself with hw | heq
          · exact .inl hw
          · refine .inr (.inr (.inr ((mem_insertCounters ..).mpr (.inr ⟨session', hin, ?_⟩))))
            rw [heq]
            rfl
      · refine (h.told uri' el' session' hold hin hconnected).same (hother uri' huri) rfl
          (put_log_of_ne _ _ huri) ?_
        intro hin
        refine (mem_insertCounters ..).mpr (.inl ⟨hin, ?_⟩)
        intro session'' _ hsame
        exact huri (Prod.mk.inj hsame).2

/-- **The queue is checked.** -/
theorem Current.check (h : s.Current []) (sizeBatch : ℕ) : (s.check sizeBatch).Current [] := by
  have hbatch := prepareBatch_preserves (P := State.Current)
    (fun _ _ _ _ _ hwaiting hcurrent => hcurrent.prepareQueueEl hwaiting) sizeBatch s [] h
  exact sendAll_preserves (P := State.Current) (fun _ _ _ hcurrent => hcurrent.send) _ _ hbatch

/-! ## Runs -/

/-- **An update** is stored. -/
theorem Current.store (h : s.Current []) (uri : Uri) (counter : ℕ) :
    (s.store uri counter).Current [] := by
  have hwaits : ∀ uri', s.Waits uri' → (s.store uri counter).Waits uri' :=
    fun uri' ⟨counter', hin⟩ => ⟨counter', List.mem_append_left _ hin⟩
  have hself : (s.store uri counter).Waits uri :=
    ⟨counter, List.mem_append_right _ (List.mem_singleton_self _)⟩
  have hstored : ∀ uri', uri' ≠ uri → (s.store uri counter).stored uri' = s.stored uri' :=
    fun uri' huri => Function.update_of_ne huri ..
  refine ⟨?_, ?_, ?_⟩
  · intro before uri' counter' behind hsplit hbehind
    have hsplit : s.waiting ++ [(uri, counter)] = before ++ (uri', counter') :: behind := hsplit
    rcases List.eq_nil_or_concat behind with rfl | ⟨init, element, rfl⟩
    · obtain ⟨-, heq⟩ := List.append_inj' hsplit rfl
      cases heq
      show counter = Function.update s.stored uri counter uri
      rw [Function.update_self]
    · rw [List.concat_eq_append, ← List.cons_append, ← List.append_assoc] at hsplit
      obtain ⟨hfront, heq⟩ := List.append_inj' hsplit rfl
      cases heq
      have huri : uri' ≠ uri := by
        rintro rfl
        exact hbehind (uri', counter) (by simp) rfl
      rw [hstored uri' huri]
      exact h.last before uri' counter' init hfront fun element hin => hbehind element (by simp [hin])
  · intro uri' el' hel'
    by_cases huri : uri' = uri
    · exact .inl (huri ▸ hself)
    · rw [hstored uri' huri]
      exact (h.counter uri' el' hel').imp_left (hwaits uri')
  · intro uri' el' session' hel' hin hconnected
    have htold := h.told uri' el' session' hel' hin hconnected
    by_cases huri : uri' = uri
    · obtain ⟨given, behind, hsubscription, -⟩ := htold
      exact ⟨given, behind, hsubscription, .inl (huri ▸ hself)⟩
    · exact htold.same (hwaits uri') (hstored uri' huri) rfl (fun hin => hin)

/-- **A step** that meets its condition keeps the invariant. -/
theorem Current.step (h : s.Current []) {op : Op} (hallowed : s.TellsAll op) :
    (s.step op).Current [] := by
  cases op with
  | store uri counter => exact h.store uri counter
  | connect session =>
    refine ⟨h.last, h.counter, ?_⟩
    intro uri el session' hel hin hconnected
    refine (h.told uri el session' hel hin ?_).same (fun hw => hw) rfl rfl (fun hin => hin)
    have hconnected : session' ∈ if session ∈ s.sessions then s.sessions
      else s.sessions ++ [session] := hconnected
    split at hconnected
    · exact hconnected
    · rcases List.mem_append.mp hconnected with hold | hnew
      · exact hold
      · obtain rfl := List.mem_singleton.mp hnew
        exact absurd hin (hallowed uri el hel)
  | disconnect session =>
    show (s.disconnect session).Current []
    unfold State.disconnect
    split
    case isTrue =>
      have hleft : State.Current { s with sessions := s.sessions.filter (· ≠ session) } [] := by
        refine ⟨h.last, h.counter, ?_⟩
        intro uri el session' hel hin hconnected
        exact (h.told uri el session' hel hin (List.mem_of_mem_filter hconnected)).same
          (fun hw => hw) rfl rfl (fun hin => hin)
      exact hleft.unsubscribeAll session true
    case isFalse => exact h
  | message session text => exact h.prepareCommand hallowed
  | check sizeBatch => exact h.check sizeBatch

/-- **The states of a run** whose steps meet their conditions. -/
theorem Reached.current (h : Reached TellsAll s) : s.Current [] := by
  induction h with
  | start =>
    refine ⟨?_, ?_, ?_⟩
    · intro before uri counter behind hsplit
      exact absurd hsplit.symm (List.append_ne_nil_of_right_ne_nil _ (List.cons_ne_nil _ _))
    · intro uri el hel
      cases hel
    · intro uri el session hel
      cases hel
  | step _ _ hallowed ih => exact ih.step hallowed

/-- **Nobody is left behind** in a run in which every subscription meets the condition. -/
theorem noneLeftBehind_of_reached (h : Reached TellsAll s) : s.NoneLeftBehind := by
  intro hempty uri el session hel hin hconnected
  obtain ⟨given, behind, hsubscription, hcases⟩ := h.current.told uri el session hel hin hconnected
  rcases hcases with ⟨counter, hwaits⟩ | hgiven | hsent | hpending
  · rw [hempty] at hwaits
    exact absurd hwaits List.not_mem_nil
  · exact ⟨given, behind, hsubscription, .inl hgiven⟩
  · exact ⟨given, behind, hsubscription, .inr hsent⟩
  · exact absurd hpending List.not_mem_nil

/-- A run of small operations. -/
def run (ops : List Op) : State := ops.foldl step start

/-- An individual is stored, its element is processed, and two clients connect. -/
def connected : List Op := [.store ['u'] 1, .check 1, .connect 1, .connect 2]

theorem reached_connected : Reached TellsAll (run connected) := by
  have h₀ : Reached TellsAll start := .start
  have h₁ := h₀.step (.store ['u'] 1) trivial
  have h₂ := h₁.step (.check 1) trivial
  have h₃ := h₂.step (.connect 1) (fun _ _ hel => nomatch hel)
  have h₄ := h₃.step (.connect 2) (fun _ _ hel => nomatch hel)
  simpa only [run, connected, List.foldl_cons, List.foldl_nil] using h₄

/-- A client that subscribes is told the stored counter. -/
theorem noneLeftBehind_subscribed :
    (run (connected ++ [.message 2 ['+', 'u', '=', '0']])).NoneLeftBehind := by
  have hitems : itemsOf ['+', 'u', '=', '0'] = [.subscribe ['u'] 0] := by decide +kernel
  have hallowed : (run connected).TellsAll (.message 2 ['+', 'u', '=', '0']) := by
    show ItemsAllowed SubscribesWell 2 (itemsOf ['+', 'u', '=', '0']) (run connected)
    rw [hitems]
    exact ⟨.inr (.inr ⟨Nat.zero_le _, fun _ hel => nomatch hel⟩), trivial⟩
  rw [run, List.foldl_append]
  exact noneLeftBehind_of_reached (reached_connected.step _ hallowed)

/-- **A subscription was cancelled before**: a client that subscribes afterwards is told zero, and
never the stored counter. -/
theorem not_noneLeftBehind_cancelled :
    ¬ (run (connected ++ [.message 1 ['-', 'u'], .message 2 ['+', 'u', '=', '0']])).NoneLeftBehind := by
  intro hnone
  have hknows := hnone (by decide +kernel) ['u'] ⟨0, [2]⟩ 2 (by decide +kernel) (by decide)
    (by decide +kernel)
  have hlog : (run (connected ++ [.message 1 ['-', 'u'], .message 2 ['+', 'u', '=', '0']])).log
      ['u'] = [.kept 0, .kept 0, .subscribed 2 0, .sent 2 0] := by decide +kernel
  rw [hlog] at hknows
  have hmem := hknows.mem
  have hstored : (run (connected ++
      [.message 1 ['-', 'u'], .message 2 ['+', 'u', '=', '0']])).stored ['u'] = 1 := by
    decide +kernel
  rw [hstored] at hmem
  exact absurd hmem (by decide)

end Veda.Ccus.State
