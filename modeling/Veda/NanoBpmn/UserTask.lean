import Veda.NanoBpmn.Commands

set_option autoImplicit false

/-!
# When a user task is left

A user task makes a work order for every executor, and is meant to be left when all of them are
completed. The token remembers its work orders under one predicate, which is set anew with every work
order, so that it knows the last one only. A work order that is handled looks at this one, and the
task is left as soon as it is completed.

## Main definitions

* `NanoBpmn.workOrdersMade` — the work orders of a user task.
* `NanoBpmn.Event` — a work order is completed, or handled.
* `NanoBpmn.LeftWhenAll` — the task is left when all work orders are completed.
* `NanoBpmn.LastOneLast` — the condition.

## Main results

* `NanoBpmn.created_tokenIngoingToUserTask` — what a user task makes.
* `NanoBpmn.Waiting.step` — what is kept while the task waits.
* `NanoBpmn.leftWhenAll_iff` — when the task is left in time.
* `NanoBpmn.not_leftWhenAll` — it is left too early.
-/

namespace Veda.NanoBpmn

open Veda.Lib Veda.Onto
open Veda.Mstorage (IndvOp indvApplyCmd isEmpty_of_lookup)

/-! ## Work orders -/

/-- The work orders that were announced between two worlds. -/
def workOrdersMade (w w' : World) : List String :=
  ((w'.queue.drop w.queue.length).filter fun m => m.src = "create-wo").map fun m => m.newState.uri

/-- What happens to work orders: one is completed, or an announcement of one is handled. -/
inductive Event
  | completed (uri : String)
  | handled (m : Message)

section Definitions

variable (sv : Services)

/-- The world after an event. -/
def Event.step (w : World) : Event → World
  | .completed uri => endState (storeIsCompletedInto sv uri true "prepare-decision-form" w)
  | .handled m => endState (prepareWorkOrder sv m.newState m.src w)

/-- An event belongs to some work orders, and only what was announced is handled. -/
def Event.IsOf (orders : List String) (w : World) : Event → Prop
  | .completed uri => uri ∈ orders
  | .handled m => m ∈ w.queue ∧ m.newState.uri ∈ orders

/-- The world after some events. -/
def runEvents (w : World) (events : List Event) : World := events.foldl (Event.step sv) w

/-- All events belong to some work orders. -/
def EventsOf (orders : List String) : World → List Event → Prop
  | _, [] => True
  | w, e :: events => e.IsOf orders w ∧ EventsOf orders (e.step sv w) events

/-- The completion of a work order was handled. -/
def HandledIn (events : List Event) (uri : String) : Prop :=
  ∃ m, .handled m ∈ events ∧ m.src = "prepare-decision-form" ∧ m.newState.uri = uri

/-- At every time the token is marked only when all work orders are completed, and it is marked when
all of them are completed and were handled. -/
def LeftWhenAll (orders : List String) (token : String) (w : World) (events : List Event) : Prop :=
  ∀ past, past <+: events →
    ((runEvents sv w past).isCompleted token → ∀ o ∈ orders, (runEvents sv w past).isCompleted o) ∧
    ((∀ o ∈ orders, (runEvents sv w past).isCompleted o ∧ HandledIn past o) →
      (runEvents sv w past).isCompleted token)

/-- There is a work order; and when a completion is handled after the work order that was made last is
completed, all work orders are. -/
def LastOneLast (orders : List String) (w : World) (events : List Event) : Prop :=
  orders ≠ [] ∧ ∀ past m, past ++ [.handled m] <+: events → m.src = "prepare-decision-form" →
    (∀ o, orders.getLast? = some o → (runEvents sv w past).isCompleted o) →
      ∀ o ∈ orders, (runEvents sv w past).isCompleted o

/-- The identifiers that are made are new, those of work orders differ from the others, and the forms
that scripts make are neither the token nor work orders. -/
structure Fresh (token : String) (w : World) : Prop where
  apart : ∀ p ∈ ["wd:f_", "wd:r_"], ∀ m n, sv.newUri p m ≠ sv.newUri "wd:wo_" n
  unused : ∀ p ∈ ["wd:wo_", "wd:f_", "wd:r_"], ∀ n, w.made ≤ n → sv.newUri p n ≠ "" ∧
    sv.newUri p n ≠ token ∧ ∀ m ∈ w.queue, m.newState.uri ≠ sv.newUri p n
  forms : ∀ script w' form, sv.runIndividual script w' = some form →
    form.uri ≠ token ∧ ∀ n, form.uri ≠ sv.newUri "wd:wo_" n

end Definitions

/-- The only token of a work order. -/
def HasToken (token : String) (workOrder : IndividualObj) : Prop :=
  workOrder.resources.lookup "bpmn:hasToken" = some [⟨.uri, .uri token, 0⟩]

/-! ## What a user task makes -/

section Making

variable {sv : Services} {token : String} {w₀ w w' : World} {orders : List String}

/-- A uri is that of the token or of a work order. -/
def IsWatched (sv : Services) (token uri : String) : Prop :=
  uri = token ∨ ∃ n, uri = sv.newUri "wd:wo_" n

/-- The token and the work orders are left as they are. -/
structure Aside (sv : Services) (token : String) (w w' : World) : Prop where
  made : w.made ≤ w'.made
  queue : ∃ new, w'.queue = w.queue ++ new ∧
    ∀ m ∈ new, m.src ≠ "create-wo" ∧ m.src ≠ "prepare-decision-form"
  same : ∀ uri, IsWatched sv token uri → w'.individuals.lookup uri = w.individuals.lookup uri

theorem Aside.refl (w : World) : Aside sv token w w :=
  ⟨le_rfl, ⟨[], (List.append_nil _).symm, fun _ hm => (List.not_mem_nil hm).elim⟩, fun _ _ => rfl⟩

theorem Aside.trans {w₁ : World} (h : Aside sv token w w₁) (h' : Aside sv token w₁ w') :
    Aside sv token w w' := by
  obtain ⟨new, hqueue, hnew⟩ := h.queue
  obtain ⟨new', hqueue', hnew'⟩ := h'.queue
  refine ⟨h.made.trans h'.made, ⟨new ++ new', ?_, fun m hm => ?_⟩, fun uri huri => ?_⟩
  · rw [hqueue', hqueue, List.append_assoc]
  · exact (List.mem_append.mp hm).elim (hnew m) (hnew' m)
  · rw [h'.same uri huri, h.same uri huri]

theorem aside_put (w : World) {src : String} {state : IndividualObj}
    (hstate : ¬IsWatched sv token state.uri)
    (hsrc : signalOf src ≠ "create-wo" ∧ signalOf src ≠ "prepare-decision-form") :
    Aside sv token w (w.put .put src state) := by
  refine ⟨le_rfl, ⟨_, queue_put .., fun m hm => ?_⟩, fun uri huri => ?_⟩
  · rw [List.mem_singleton.mp hm]
    exact hsrc
  · exact lookup_put_ne w .put src fun heq => hstate (heq ▸ huri)

theorem aside_made (w : World) : Aside sv token w { w with made := w.made + 1 } :=
  ⟨Nat.le_succ _, ⟨[], (List.append_nil _).symm, fun _ hm => (List.not_mem_nil hm).elim⟩,
    fun _ _ => rfl⟩

theorem Fresh.not_isWatched (h : Fresh sv token w₀) {p : String} (hp : p ∈ ["wd:f_", "wd:r_"])
    {n : ℕ} (hn : w₀.made ≤ n) : ¬IsWatched sv token (sv.newUri p n) := by
  rintro (heq | ⟨m, heq⟩)
  · exact (h.unused p (List.mem_cons_of_mem _ hp) n hn).2.1 heq
  · exact h.apart p hp n m heq

theorem Fresh.ne_token (h : Fresh sv token w₀) {n : ℕ} (hn : w₀.made ≤ n) :
    token ≠ sv.newUri "wd:wo_" n :=
  fun heq => (h.unused _ List.mem_cons_self n hn).2.1 heq.symm

theorem aside_addReceiver (h : Fresh sv token w₀) (hmade : w₀.made ≤ w.made)
    {appointment form form' : IndividualObj} {predicate : String}
    (hrun : addReceiver sv appointment predicate form w = .ok form' w') :
    form'.uri = form.uri ∧ Aside sv token w w' := by
  unfold addReceiver at hrun
  cases hp : appointment.firstLiteral predicate with
  | none =>
    rw [hp] at hrun
    cases hrun
    exact ⟨rfl, .refl w⟩
  | some p =>
    rw [hp] at hrun
    obtain ⟨_, w₁, hright, hrun⟩ := run_bind_ok.mp hrun
    cases hrun
    refine ⟨rfl, ?_⟩
    unfold addRight at hright
    split_ifs at hright
    · cases hright
    · cases hright
      exact (aside_made w).trans
        (aside_put _ (h.not_isWatched (by decide) hmade) (by decide))

/-- The work orders that have been made: each is stored with its token, and announced as new. -/
structure Created (sv : Services) (token : String) (w₀ : World) (orders : List String)
    (w : World) : Prop where
  made : w₀.made ≤ w.made
  queue : ∃ new, w.queue = w₀.queue ++ new ∧
    (new.filter fun m => m.src = "create-wo").map (fun m => m.newState.uri) = orders ∧
    ∀ m ∈ new, m.src ≠ "prepare-decision-form"
  order : ∀ o ∈ orders, (∃ n, w₀.made ≤ n ∧ o = sv.newUri "wd:wo_" n) ∧
    ∃ obj, w.individuals.lookup o = some obj ∧ HasToken token obj
  mark : w.isCompleted token = w₀.isCompleted token

/-- The token remembers the last work order. -/
def Linked (token : String) (orders : List String) (w : World) : Prop :=
  ∀ o, orders.getLast? = some o → ∃ obj, w.individuals.lookup token = some obj ∧
    obj.firstLiteral "bpmn:hasWorkOrder" = some o

theorem Created.aside (h : Created sv token w₀ orders w) (haside : Aside sv token w w') :
    Created sv token w₀ orders w' := by
  obtain ⟨new, hqueue, horders, hnew⟩ := h.queue
  obtain ⟨new', hqueue', hnew'⟩ := haside.queue
  refine ⟨h.made.trans haside.made, ⟨new ++ new', ?_, ?_, fun m hm => ?_⟩, fun o ho => ?_, ?_⟩
  · rw [hqueue', hqueue, List.append_assoc]
  · have hnone : new'.filter (fun m => m.src = "create-wo") = [] :=
      List.filter_eq_nil_iff.mpr fun m hm => by simpa using (hnew' m hm).1
    rw [List.filter_append, hnone, List.append_nil, horders]
  · exact (List.mem_append.mp hm).elim (hnew m) fun hm => (hnew' m hm).2
  · obtain ⟨⟨n, hn, rfl⟩, hstored⟩ := h.order o ho
    exact ⟨⟨n, hn, rfl⟩, by rwa [haside.same _ (.inr ⟨n, rfl⟩)]⟩
  · rw [← h.mark, World.isCompleted, World.isCompleted, haside.same _ (.inl rfl)]

theorem hasToken_newWorkOrder (uri processInstanceUri tokenUri elementId : String)
    (executorUri formUri : Option String) :
    HasToken tokenUri
      (newWorkOrder uri processInstanceUri tokenUri elementId executorUri formUri) := by
  unfold newWorkOrder HasToken
  cases executorUri <;> cases formUri <;>
    simp [IndividualObj.addUri, IndividualObj.addString, IndividualObj.lookup_addValue,
      IndividualObj.empty]

theorem createWorkOrder_ok {processInstanceUri elementId : String}
    {executorUri formUri : Option String} {workOrder : IndividualObj}
    (hrun : createWorkOrder sv processInstanceUri token elementId executorUri formUri w =
      .ok workOrder w') :
    workOrder.uri = sv.newUri "wd:wo_" w.made ∧
      HasToken token workOrder ∧
      w' = World.put { w with made := w.made + 1 } .put "create-wo" workOrder := by
  cases hrun
  exact ⟨uri_newWorkOrder .., hasToken_newWorkOrder .., rfl⟩

theorem Created.createWorkOrder (h : Created sv token w₀ orders w) (hfresh : Fresh sv token w₀)
    {processInstanceUri elementId : String} {executorUri formUri : Option String}
    {workOrder : IndividualObj}
    (hrun : createWorkOrder sv processInstanceUri token elementId executorUri formUri w =
      .ok workOrder w') : Created sv token w₀ (orders ++ [workOrder.uri]) w' := by
  obtain ⟨huri, htoken, rfl⟩ := createWorkOrder_ok hrun
  obtain ⟨new, hqueue, horders, hnew⟩ := h.queue
  have hsame : ∀ uri, uri ≠ workOrder.uri →
      (World.put { w with made := w.made + 1 } .put "create-wo" workOrder).individuals.lookup uri =
        w.individuals.lookup uri :=
    fun uri hne => lookup_put_ne _ .put "create-wo" hne
  refine ⟨h.made.trans (Nat.le_succ _), ⟨new ++ [⟨.put, "create-wo", workOrder⟩], ?_, ?_,
    fun m hm => ?_⟩, fun o ho => ?_, ?_⟩
  · rw [queue_put, hqueue, List.append_assoc]
    rfl
  · rw [List.filter_append, List.map_append, horders]
    rfl
  · rcases List.mem_append.mp hm with hm | hm
    · exact hnew m hm
    · rw [List.mem_singleton.mp hm]
      change "create-wo" ≠ "prepare-decision-form"
      decide
  · by_cases hne : o = workOrder.uri
    · rw [hne]
      exact ⟨⟨w.made, h.made, huri⟩, workOrder, lookup_put_self .., htoken⟩
    · have ho' : o ∈ orders := (List.mem_append.mp ho).resolve_right
        fun ho => hne (List.mem_singleton.mp ho)
      obtain ⟨hn, obj, hlookup, htoken'⟩ := h.order o ho'
      exact ⟨hn, obj, (hsame o hne).trans hlookup, htoken'⟩
  · rw [← h.mark, World.isCompleted, World.isCompleted,
      hsame _ (huri ▸ hfresh.ne_token h.made)]

theorem Created.storeWorkOrderInto (h : Created sv token w₀ orders w) (hfresh : Fresh sv token w₀)
    {o : String} (hrun : storeWorkOrderInto sv token o w = .ok () w')
    (hlast : orders.getLast? = some o) :
    Created sv token w₀ orders w' ∧ Linked token orders w' := by
  obtain ⟨prev, hprev, hempty, rfl⟩ := update_partial_ok sv rfl hrun
  change w.individuals.lookup token = some prev at hprev
  set state := indvApplyCmd sv.order .setIn prev ((IndividualObj.empty.setId token).addUri
    "bpmn:hasWorkOrder" o) with hstate
  have huri : state.uri = token := by
    rw [hstate, uri_indvApplyCmd]
    exact w.keyed _ _ hprev
  obtain ⟨new, hqueue, horders, hnew⟩ := h.queue
  refine ⟨⟨h.made, ⟨new ++ [⟨.put, "store-wo-into", state⟩], ?_, ?_, fun m hm => ?_⟩,
    fun o ho => ?_, ?_⟩, fun o' ho' => ⟨state, ?_, ?_⟩⟩
  · rw [queue_put, hqueue, List.append_assoc]
    rfl
  · rw [List.filter_append, List.map_append, horders]
    exact List.append_nil _
  · rcases List.mem_append.mp hm with hm | hm
    · exact hnew m hm
    · rw [List.mem_singleton.mp hm]
      change "store-wo-into" ≠ "prepare-decision-form"
      decide
  · obtain ⟨⟨n, hn, rfl⟩, hstored⟩ := h.order o ho
    refine ⟨⟨n, hn, rfl⟩, ?_⟩
    rwa [lookup_put_ne _ _ _ (huri ▸ (hfresh.ne_token hn).symm)]
  · have hcompleted : state.resources.lookup "bpmn:isCompleted" =
        prev.resources.lookup "bpmn:isCompleted" :=
      lookup_setIn_ne sv.order hempty (by decide) (by decide)
    have hbefore : w.isCompleted token = isExistsBool prev "bpmn:isCompleted" true := by
      rw [World.isCompleted, hprev]
      rfl
    rw [← h.mark, hbefore, World.isCompleted, ← huri, lookup_put_self, Option.any_some,
      isExistsBool, isExistsBool, IndividualObj.valuesOf, IndividualObj.valuesOf, hcompleted]
  · rw [← huri]
    exact lookup_put_self ..
  · obtain rfl : o = o' := Option.some.inj (hlast.symm.trans ho')
    rw [hstate, IndividualObj.firstLiteral, lookup_setIn _ hempty (by decide),
      IndividualObj.addUri, IndividualObj.lookup_addValue, if_pos rfl]
    rfl

/-- **One executor**: one more work order is made, and the token remembers it. -/
theorem Created.prepareExecutor {token : IndividualObj} (h : Created sv token.uri w₀ orders w)
    (hfresh : Fresh sv token.uri w₀) {elementId processUri executor : String}
    {processInstance : IndividualObj} {listener : Option XNode}
    (hrun : prepareExecutor sv token elementId processUri processInstance listener executor w =
      .ok () w') :
    ∃ orders', Created sv token.uri w₀ orders' w' ∧ Linked token.uri orders' w' := by
  unfold NanoBpmn.prepareExecutor at hrun
  cases listener with
  | none => cases hrun
  | some el =>
    obtain ⟨_, _, heq, hrun⟩ := run_bind_ok.mp hrun
    cases heq
    dsimp only at hrun
    cases hmade : (el.getValuesOfTag "camunda:script").head?.bind fun text =>
        sv.runIndividual ⟨processUri ++ "+" ++ elementId ++ "+create", text, token,
          processInstance⟩ w with
    | none =>
      rw [hmade] at hrun
      cases hrun
    | some form =>
      rw [hmade] at hrun
      obtain ⟨text, -, hscript⟩ := Option.bind_eq_some_iff.mp hmade
      obtain ⟨hformToken, hformOrder⟩ := hfresh.forms _ _ _ hscript
      obtain ⟨form₁, w₁, hform, hrun₁⟩ := run_bind_ok.mp hrun
      have hform₁ : ¬IsWatched sv token.uri form₁.uri ∧ Aside sv token.uri w w₁ := by
        unfold identifyForm at hform
        split_ifs at hform
        · cases hform
          exact ⟨hfresh.not_isWatched (by decide) h.made, aside_made w⟩
        · cases hform
          exact ⟨by rintro (heq | ⟨n, heq⟩); exacts [hformToken heq, hformOrder n heq], .refl w⟩
      obtain ⟨workOrder, w₂, horder, hrun₂⟩ := run_bind_ok.mp hrun₁
      have h₂ := (h.aside hform₁.2).createWorkOrder hfresh horder
      obtain ⟨appointment, w₃, happointment, hrun₃⟩ := run_bind_ok.mp hrun₂
      obtain ⟨-, -, rfl⟩ := getIndividual_ok happointment
      obtain ⟨form₂, w₄, hfirst, hrun₄⟩ := run_bind_ok.mp hrun₃
      obtain ⟨form₃, w₅, hsecond, hrun₅⟩ := run_bind_ok.mp hrun₄
      obtain ⟨_, w₆, hput, hrun₆⟩ := run_bind_ok.mp hrun₅
      cases hput
      obtain ⟨huri₂, haside₂⟩ := aside_addReceiver hfresh h₂.made hfirst
      have h₄ := h₂.aside haside₂
      obtain ⟨huri₃, haside₃⟩ := aside_addReceiver hfresh h₄.made hsecond
      have haside₄ : Aside sv token.uri w₅ (w₅.put .put "no-prepare"
          (form₃.setUri "bpmn:hasWorkOrder" workOrder.uri)) := by
        refine aside_put w₅ ?_ (by decide)
        rw [IndividualObj.setUri, IndividualObj.uri_setValue, huri₃, huri₂]
        exact hform₁.1
      have h₆ := (h₄.aside haside₃).aside haside₄
      exact ⟨_, h₆.storeWorkOrderInto hfresh hrun₆ List.getLast?_concat⟩

theorem userTaskListeners_ok {token processInstance : IndividualObj}
    {elementId processUri : String} {els : List XNode} {form : Option XNode}
    {executors : List String} {found : Option XNode × List String}
    (hrun : userTaskListeners sv token elementId processUri processInstance els form executors w =
      .ok found w') : w' = w := by
  induction els generalizing form executors with
  | nil =>
    cases hrun
    rfl
  | cons el els ih =>
    unfold userTaskListeners at hrun
    obtain ⟨event, w₁, hevent, hrest⟩ := run_bind_ok.mp hrun
    obtain ⟨-, rfl⟩ := orStop_ok hevent
    split_ifs at hrest
    · exact ih hrest
    · obtain ⟨_, _, heq, hrest⟩ := run_bind_ok.mp hrest
      cases heq
      exact ih hrest
    · exact ih hrest

/-- **All executors**: the work orders are made, and the token remembers the last one. -/
theorem Created.prepareExecutors {token : IndividualObj} (h : Created sv token.uri w₀ orders w)
    (hlinked : Linked token.uri orders w) (hfresh : Fresh sv token.uri w₀)
    {elementId processUri : String} {processInstance : IndividualObj} {listener : Option XNode}
    {executors : List String}
    (hrun : prepareExecutors sv token elementId processUri processInstance listener executors w =
      .ok () w') :
    ∃ orders', Created sv token.uri w₀ orders' w' ∧ Linked token.uri orders' w' := by
  induction executors generalizing orders w with
  | nil =>
    cases hrun
    exact ⟨orders, h, hlinked⟩
  | cons executor executors ih =>
    obtain ⟨_, w₁, hfirst, hrun⟩ := run_bind_ok.mp hrun
    obtain ⟨orders', h', hlinked'⟩ := h.prepareExecutor hfresh hfirst
    exact ih h' hlinked' hrun

/-- **What a user task makes**: its work orders, each with the token, which remembers the last
one. -/
theorem created_tokenIngoingToUserTask {token processInstance : IndividualObj}
    {elementId processUri : String} {nt : IndexedNodeTree} (hfresh : Fresh sv token.uri w₀)
    (hrun : tokenIngoingToUserTask sv token elementId processUri processInstance nt w₀ =
      .ok () w) :
    Created sv token.uri w₀ (workOrdersMade w₀ w) w ∧
      Linked token.uri (workOrdersMade w₀ w) w := by
  obtain ⟨element, w₁, helement, hrest⟩ := run_bind_ok.mp hrun
  obtain ⟨-, rfl⟩ := orStop_ok helement
  obtain ⟨found, w₂, hlisteners, hloop⟩ := run_bind_ok.mp hrest
  obtain rfl := userTaskListeners_ok hlisteners
  have hstart : Created sv token.uri w₂ [] w₂ :=
    ⟨le_rfl, ⟨[], (List.append_nil _).symm, rfl, fun _ hm => (List.not_mem_nil hm).elim⟩,
      fun _ ho => (List.not_mem_nil ho).elim, rfl⟩
  obtain ⟨orders, h, hlinked⟩ := hstart.prepareExecutors (fun _ ho => by cases ho) hfresh hloop
  obtain ⟨new, hqueue, horders, -⟩ := h.queue
  have hmade : workOrdersMade w₂ w = orders := by
    rw [workOrdersMade, hqueue, List.drop_left, horders]
  rw [hmade]
  exact ⟨h, hlinked⟩

end Making

/-! ## While the task waits -/

section Waiting

variable {sv : Services} {token : String} {orders : List String} {w : World}

/-- The state of a user task that has made its work orders: each has the token, the token remembers
the last one, and announcements of completions are true. -/
structure Waiting (token : String) (orders : List String) (w : World) : Prop where
  named : ∀ o ∈ orders, o ≠ "" ∧ o ≠ token
  order : ∀ o ∈ orders, ∃ obj, w.individuals.lookup o = some obj ∧ HasToken token obj
  linked : Linked token orders w
  message : ∀ m ∈ w.queue, m.newState.uri ∈ orders → m.src = "prepare-decision-form" →
    isExistsBool m.newState "bpmn:isCompleted" true = true ∧ HasToken token m.newState ∧
      w.isCompleted m.newState.uri = true

theorem HasToken.literals {workOrder : IndividualObj} (h : HasToken token workOrder) :
    workOrder.literals "bpmn:hasToken" = some [token] := by
  rw [IndividualObj.literals, h]
  rfl

theorem HasToken.firstLiteral {workOrder : IndividualObj} (h : HasToken token workOrder) :
    workOrder.firstLiteral "bpmn:hasToken" = some token := by
  rw [IndividualObj.firstLiteral, h]

theorem Created.waiting {w₀ : World} (h : Created sv token w₀ orders w)
    (hlinked : Linked token orders w) (hfresh : Fresh sv token w₀) : Waiting token orders w where
  named := by
    intro o ho
    obtain ⟨⟨n, hn, rfl⟩, -⟩ := h.order o ho
    obtain ⟨hempty, htoken, -⟩ := hfresh.unused _ List.mem_cons_self n hn
    exact ⟨hempty, htoken⟩
  order := fun o ho => (h.order o ho).2
  linked := hlinked
  message := by
    intro m hm huri hsrc
    obtain ⟨⟨n, hn, heq⟩, -⟩ := h.order _ huri
    obtain ⟨new, hqueue, -, hnew⟩ := h.queue
    rw [hqueue] at hm
    rcases List.mem_append.mp hm with hm | hm
    · exact absurd heq ((hfresh.unused _ List.mem_cons_self n hn).2.2 m hm)
    · exact absurd hsrc (hnew m hm)

theorem isCompleted_mark {prev : IndividualObj} (hprev : prev.isEmpty = false) (src uri : String) :
    (w.put .put src (completedState sv prev)).isCompleted uri =
      (decide (uri = prev.uri) || w.isCompleted uri) := by
  by_cases huri : uri = prev.uri
  · rw [decide_eq_true huri, Bool.true_or, World.isCompleted, huri,
      ← uri_completedState sv prev, lookup_put_self, Option.any_some,
      isExistsBool_completedState sv hprev]
  · rw [decide_eq_false huri, Bool.false_or, World.isCompleted, World.isCompleted,
      lookup_put_ne w .put src (by rwa [uri_completedState])]

theorem Waiting.mark (h : Waiting token orders w) {prev : IndividualObj}
    (hlookup : w.individuals.lookup prev.uri = some prev) (hprev : prev.isEmpty = false)
    (src : String) : Waiting token orders (w.put .put src (completedState sv prev)) := by
  have hstored : ∀ uri obj, w.individuals.lookup uri = some obj →
      ∃ obj', (w.put .put src (completedState sv prev)).individuals.lookup uri = some obj' ∧
        ∀ p, p ≠ "bpmn:isCompleted" → p ≠ "v-s:updateCounter" →
          obj'.resources.lookup p = obj.resources.lookup p := by
    intro uri obj hobj
    by_cases huri : uri = prev.uri
    · subst huri
      obtain rfl : prev = obj := Option.some.inj (hlookup.symm.trans hobj)
      refine ⟨completedState sv prev, ?_, fun p hp hcounter =>
        lookup_completedState sv hprev hp hcounter⟩
      rw [← uri_completedState sv prev, lookup_put_self]
    · exact ⟨obj, by rw [lookup_put_ne _ _ _ (by rwa [uri_completedState]), hobj],
        fun _ _ _ => rfl⟩
  refine ⟨h.named, fun o ho => ?_, fun o ho => ?_, fun m hm huri hsignal => ?_⟩
  · obtain ⟨obj, hobj, htoken⟩ := h.order o ho
    obtain ⟨obj', hobj', hsame⟩ := hstored o obj hobj
    exact ⟨obj', hobj', (hsame _ (by decide) (by decide)).trans htoken⟩
  · obtain ⟨obj, hobj, hlink⟩ := h.linked o ho
    obtain ⟨obj', hobj', hsame⟩ := hstored token obj hobj
    exact ⟨obj', hobj', (IndividualObj.firstLiteral_congr
      (hsame _ (by decide) (by decide))).trans hlink⟩
  · rw [queue_put] at hm
    rcases List.mem_append.mp hm with hm | hm
    · obtain ⟨hmark, htoken, hcompleted⟩ := h.message m hm huri hsignal
      exact ⟨hmark, htoken, by rw [isCompleted_mark hprev, hcompleted, Bool.or_true]⟩
    · obtain rfl := List.mem_singleton.mp hm
      dsimp only at huri hsignal ⊢
      rw [uri_completedState] at huri ⊢
      obtain ⟨obj, hobj, htoken⟩ := h.order _ huri
      obtain rfl : prev = obj := Option.some.inj (hlookup.symm.trans hobj)
      refine ⟨isExistsBool_completedState sv hprev,
        (lookup_completedState sv hprev (by decide) (by decide)).trans htoken, ?_⟩
      rw [isCompleted_mark hprev, decide_eq_true rfl, Bool.true_or]

/-- **A work order is completed.** -/
theorem Waiting.completed (h : Waiting token orders w) {o : String} (ho : o ∈ orders) :
    Waiting token orders (Event.step sv w (.completed o)) ∧
      ∀ uri, (Event.step sv w (.completed o)).isCompleted uri =
        (decide (uri = o) || w.isCompleted uri) := by
  obtain ⟨obj, hobj, htoken⟩ := h.order o ho
  obtain ⟨prev, hprev, hempty, rfl, hrun⟩ | ⟨hnone, -⟩ :=
    storeIsCompletedInto_cases sv o "prepare-decision-form" w
  · have hstep : Event.step sv w (.completed prev.uri) =
        w.put .put "prepare-decision-form" (completedState sv prev) := congrArg endState hrun
    rw [hstep]
    exact ⟨h.mark hprev hempty _, fun uri => isCompleted_mark hempty _ uri⟩
  · exact absurd (hnone obj hobj) (by simp [isEmpty_of_lookup htoken])

theorem Waiting.getLiteralsOfLink (h : Waiting token orders w) {last : String}
    (hlast : orders.getLast? = some last) {workOrder : IndividualObj}
    (htoken : HasToken token workOrder) :
    getLiteralsOfLink workOrder "bpmn:hasToken" "bpmn:hasWorkOrder" w = [last] := by
  obtain ⟨obj, hobj, hlink⟩ := h.linked last hlast
  rw [NanoBpmn.getLiteralsOfLink, htoken.literals]
  simp [hobj, hlink]

theorem Waiting.otherWorkOrdersCompleted (h : Waiting token orders w) {last : String}
    (hlast : last ∈ orders) {uri : String} (huri : uri = last → w.isCompleted last = true) :
    otherWorkOrdersCompleted uri [last] w = .ok (w.isCompleted last) w := by
  obtain ⟨obj, hobj, -⟩ := h.order last hlast
  have hkeyed := w.keyed _ _ hobj
  have hmark : w.isCompleted last = isExistsBool obj "bpmn:isCompleted" true := by
    rw [World.isCompleted, hobj]
    rfl
  unfold NanoBpmn.otherWorkOrdersCompleted
  rw [run_bind_of_ok _ (getIndividual_of_lookup (h.named last hlast).1 hobj), hkeyed]
  split_ifs with hopen
  · rw [hmark, hopen.2]
    rfl
  · have hdone : w.isCompleted last = true := by
      by_cases hsame : uri = last
      · exact huri hsame
      · rw [hmark]
        by_contra hno
        exact hopen ⟨Ne.symm hsame, by simpa using hno⟩
    rw [hdone]
    rfl

/-- **A work order is handled**: the token is marked when the last work order is completed. -/
theorem Waiting.handled (h : Waiting token orders w) {last : String}
    (hlast : orders.getLast? = some last) {m : Message} (hm : m ∈ w.queue)
    (huri : m.newState.uri ∈ orders) :
    Waiting token orders (Event.step sv w (.handled m)) ∧
      ∀ uri, (Event.step sv w (.handled m)).isCompleted uri =
        (w.isCompleted uri || (decide (uri = token) && decide (m.src = "prepare-decision-form") &&
          w.isCompleted last)) := by
  have hmem : last ∈ orders := List.mem_of_getLast? hlast
  by_cases hsrc : m.src = "prepare-decision-form"
  · obtain ⟨hmark, htoken, hcompleted⟩ := h.message m hm huri hsrc
    have hothers : NanoBpmn.otherWorkOrdersCompleted m.newState.uri [last] w =
        .ok (w.isCompleted last) w :=
      h.otherWorkOrdersCompleted hmem fun heq => heq ▸ hcompleted
    have hrun : prepareWorkOrder sv m.newState m.src w =
        if w.isCompleted last then storeIsCompletedInto sv token true "go-prepare" w
        else .ok () w := by
      unfold prepareWorkOrder
      rw [if_neg (by simp [hsrc]), if_neg (by simp [hmark]), run_get_bind,
        h.getLiteralsOfLink hlast htoken, run_bind_of_ok _ hothers, htoken.firstLiteral]
      split_ifs <;> rfl
    obtain ⟨obj, hobj, hlink⟩ := h.linked last hlast
    cases hlastDone : w.isCompleted last with
    | false =>
      have hstep : Event.step sv w (.handled m) = w := by
        rw [hlastDone, if_neg Bool.false_ne_true] at hrun
        exact congrArg endState hrun
      rw [hstep]
      exact ⟨h, by simp⟩
    | true =>
      rw [hlastDone, if_pos rfl] at hrun
      obtain ⟨prev, hprev, hempty, rfl, hstored⟩ | ⟨hnone, -⟩ :=
        storeIsCompletedInto_cases sv token "go-prepare" w
      · have hstep : Event.step sv w (.handled m) =
            w.put .put "go-prepare" (completedState sv prev) :=
          congrArg endState (hrun.trans hstored)
        rw [hstep]
        refine ⟨h.mark hprev hempty _, fun uri => ?_⟩
        rw [isCompleted_mark hempty, decide_eq_true hsrc, Bool.and_true, Bool.and_true,
          Bool.or_comm]
      · exact absurd (hnone obj hobj) (by simp [isEmpty_of_firstLiteral hlink])
  · have hstep : Event.step sv w (.handled m) = w := by
      have hrun : prepareWorkOrder sv m.newState m.src w = .ok () w := by
        unfold prepareWorkOrder
        rw [if_pos hsrc]
        rfl
      exact congrArg endState hrun
    rw [hstep]
    exact ⟨h, by simp [hsrc]⟩

end Waiting

/-! ## Runs -/

section Runs

variable {sv : Services} {token : String} {orders : List String} {w : World}

theorem runEvents_append (past events : List Event) :
    runEvents sv w (past ++ events) = runEvents sv (runEvents sv w past) events :=
  List.foldl_append

theorem runEvents_concat (past : List Event) (e : Event) :
    runEvents sv w (past ++ [e]) = Event.step sv (runEvents sv w past) e :=
  List.foldl_concat ..

theorem eventsOf_append {past events : List Event} :
    EventsOf sv orders w (past ++ events) ↔
      EventsOf sv orders w past ∧ EventsOf sv orders (runEvents sv w past) events := by
  induction past generalizing w with
  | nil => exact ⟨fun h => ⟨trivial, h⟩, fun h => h.2⟩
  | cons e past ih =>
    change (_ ∧ EventsOf sv orders _ (past ++ events)) ↔ (_ ∧ EventsOf sv orders _ past) ∧ _
    rw [ih, and_assoc]
    exact Iff.rfl

theorem Waiting.step (h : Waiting token orders w) {e : Event} (he : e.IsOf orders w) :
    Waiting token orders (e.step sv w) ∧
      ∀ uri, w.isCompleted uri = true → (e.step sv w).isCompleted uri = true := by
  cases e with
  | completed o =>
    obtain ⟨hwaiting, hcompleted⟩ := @Waiting.completed sv _ _ _ h o he
    exact ⟨hwaiting, fun uri huri => by rw [hcompleted, huri, Bool.or_true]⟩
  | handled m =>
    obtain ⟨last, hlast⟩ := Option.isSome_iff_exists.mp
      (List.getLast?_isSome.mpr (List.ne_nil_of_mem he.2))
    obtain ⟨hwaiting, hcompleted⟩ := @Waiting.handled sv _ _ _ h _ hlast _ he.1 he.2
    exact ⟨hwaiting, fun uri huri => by rw [hcompleted, huri, Bool.true_or]⟩

/-- **Every run** keeps what a user task waits for, and what is completed. -/
theorem Waiting.run (h : Waiting token orders w) {events : List Event}
    (hevents : EventsOf sv orders w events) :
    Waiting token orders (runEvents sv w events) ∧
      ∀ uri, w.isCompleted uri = true → (runEvents sv w events).isCompleted uri = true := by
  induction events generalizing w with
  | nil => exact ⟨h, fun _ huri => huri⟩
  | cons e events ih =>
    obtain ⟨hwaiting, hkeeps⟩ := @Waiting.step sv _ _ _ h _ hevents.1
    obtain ⟨hwaiting', hkeeps'⟩ := ih hwaiting hevents.2
    exact ⟨hwaiting', fun uri huri => hkeeps' uri (hkeeps uri huri)⟩

/-- **When the token is marked**: as soon as a completion was handled while the last work order was
completed. -/
theorem Waiting.isCompleted_token (h : Waiting token orders w) {last : String}
    (hlast : orders.getLast? = some last) (hopen : w.isCompleted token = false)
    {events : List Event} (hevents : EventsOf sv orders w events) :
    (runEvents sv w events).isCompleted token = true ↔
      ∃ past m, past ++ [.handled m] <+: events ∧ m.src = "prepare-decision-form" ∧
        (runEvents sv w past).isCompleted last = true := by
  induction events using List.reverseRecOn with
  | nil =>
    refine iff_of_false (by simp [runEvents, hopen]) ?_
    rintro ⟨past, m, hprefix, -⟩
    simp at hprefix
  | append_singleton events e ih =>
    obtain ⟨hpast, he, -⟩ := eventsOf_append.mp hevents
    have hwaiting := (h.run hpast).1
    rw [runEvents_concat]
    have hearlier : (∃ past m, past ++ [.handled m] <+: events ++ [e] ∧
          m.src = "prepare-decision-form" ∧ (runEvents sv w past).isCompleted last = true) ↔
        (∃ past m, past ++ [.handled m] <+: events ∧ m.src = "prepare-decision-form" ∧
          (runEvents sv w past).isCompleted last = true) ∨
        ∃ m, e = .handled m ∧ m.src = "prepare-decision-form" ∧
          (runEvents sv w events).isCompleted last = true := by
      constructor
      · rintro ⟨past, m, hprefix, hsrc, hdone⟩
        rcases List.prefix_concat_iff.mp hprefix with heq | hprefix
        · obtain ⟨rfl, hlastEvent⟩ := List.append_inj' heq rfl
          exact .inr ⟨m, (List.singleton_inj.mp hlastEvent).symm, hsrc, hdone⟩
        · exact .inl ⟨past, m, hprefix, hsrc, hdone⟩
      · rintro (⟨past, m, hprefix, hrest⟩ | ⟨m, rfl, hrest⟩)
        · exact ⟨past, m, hprefix.trans (List.prefix_append _ _), hrest⟩
        · exact ⟨events, m, List.prefix_rfl, hrest⟩
    rw [hearlier, ← ih hpast]
    cases e with
    | completed o =>
      have hne : token ≠ o := ((h.named o he).2).symm
      rw [(hwaiting.completed he).2, decide_eq_false hne, Bool.false_or]
      simp
    | handled m =>
      rw [(hwaiting.handled hlast he.1 he.2).2]
      simp

/-- **A user task is left in time** exactly when it has made a work order and every completion that is
handled while the last work order is completed finds all of them completed.

**Proof sketch.** The token is marked as soon as a completion is handled while the last work order is
completed; what is completed stays so, and the completion of the last one is handled after it. -/
theorem leftWhenAll_iff {token processInstance : IndividualObj} {elementId processUri : String}
    {nt : IndexedNodeTree} {w₀ w : World} (hfresh : Fresh sv token.uri w₀)
    (hopen : w₀.isCompleted token.uri = false)
    (hrun : tokenIngoingToUserTask sv token elementId processUri processInstance nt w₀ =
      .ok () w) {events : List Event} (hevents : EventsOf sv (workOrdersMade w₀ w) w events) :
    LeftWhenAll sv (workOrdersMade w₀ w) token.uri w events ↔
      LastOneLast sv (workOrdersMade w₀ w) w events := by
  obtain ⟨hcreated, hlinked⟩ := created_tokenIngoingToUserTask hfresh hrun
  have h := hcreated.waiting hlinked hfresh
  have hstart : w.isCompleted token.uri = false := by rw [hcreated.mark, hopen]
  generalize workOrdersMade w₀ w = orders at *
  have hpart : ∀ {past rest : List Event}, past ++ rest = events →
      EventsOf sv orders w past ∧ EventsOf sv orders (runEvents sv w past) rest :=
    fun heq => eventsOf_append.mp (heq ▸ hevents)
  constructor
  · intro hleft
    have hne : orders ≠ [] := by
      rintro rfl
      have hmark := (hleft [] (List.nil_prefix ..)).2 fun _ ho => (List.not_mem_nil ho).elim
      rw [runEvents, List.foldl_nil, hstart] at hmark
      cases hmark
    obtain ⟨last, hlast⟩ := Option.isSome_iff_exists.mp (List.getLast?_isSome.mpr hne)
    refine ⟨hne, fun past m hprefix hsrc hdone o ho => ?_⟩
    obtain ⟨rest, heq⟩ := hprefix
    obtain ⟨hpast, he, -⟩ := eventsOf_append.mp (hpart heq).1
    have hmark := (h.isCompleted_token hlast hstart (hpart heq).1).mpr
      ⟨past, m, List.prefix_rfl, hsrc, hdone last hlast⟩
    have hafter := (hleft _ ⟨rest, heq⟩).1 hmark o ho
    rwa [runEvents_concat, ((h.run hpast).1.handled hlast he.1 he.2).2,
      decide_eq_false (h.named o ho).2, Bool.false_and, Bool.false_and, Bool.or_false] at hafter
  · rintro ⟨hne, hlastOne⟩ past ⟨rest, heq⟩
    obtain ⟨last, hlast⟩ := Option.isSome_iff_exists.mp (List.getLast?_isSome.mpr hne)
    have hmarked := h.isCompleted_token hlast hstart (hpart heq).1
    refine ⟨fun hmark o ho => ?_, fun hall => ?_⟩
    · obtain ⟨early, m, ⟨late, hearly⟩, hsrc, hdone⟩ := hmarked.mp hmark
      have hthen := hlastOne early m ⟨late ++ rest, by rw [← heq, ← hearly, List.append_assoc _ late]⟩
        hsrc (fun o ho => by rwa [← Option.some.inj (hlast.symm.trans ho)]) o ho
      have hsplit : early ++ ([.handled m] ++ late) = past := by
        rw [← List.append_assoc, hearly]
      obtain ⟨hbefore, hafter⟩ := eventsOf_append.mp (hsplit ▸ (hpart heq).1)
      rw [← hsplit, runEvents_append]
      exact ((h.run hbefore).1.run hafter).2 o hthen
    · have hmem : last ∈ orders := List.mem_of_getLast? hlast
      obtain ⟨m, hm, hsrc, huri⟩ := (hall last hmem).2
      obtain ⟨early, late, hsplit⟩ := List.append_of_mem hm
      obtain ⟨hbefore, he, -⟩ := eventsOf_append.mp (hsplit ▸ (hpart heq).1)
      refine hmarked.mpr ⟨early, m, ⟨late, by rw [hsplit, List.append_assoc]; rfl⟩, hsrc, ?_⟩
      rw [← huri]
      exact ((h.run hbefore).1.message m he.1 he.2 hsrc).2.2

end Runs

/-! ## Two executors -/

/-- A node with the text of a script. -/
def scriptNode : XNode :=
  .mk "" "camunda:script" ((∅ : HashMap String String).insert "value" "text") []

/-- A listener of a user task. -/
def listenerNode (event : String) : XNode :=
  .mk "" "camunda:taskListener" ((∅ : HashMap String String).insert "event" event) [scriptNode]

/-- A process with a user task. -/
def userTaskTree : IndexedNodeTree where
  id := "d:process"
  id2nodeId := (∅ : HashMap String XNode).insert "task" (.mk "task" "bpmn:userTask" ∅
    [.mk "" "bpmn:extensionElements" ∅ [listenerNode "create", listenerNode "assignment"]])

/-- A token at the user task. -/
def taskToken : IndividualObj := newToken "d:token" "d:process" "d:instance" "start" "task"

/-- The world with the token and two appointments. -/
def taskWorld : World :=
  .of [taskToken, (IndividualObj.empty.setId "d:first").addUri "rdf:type" "v-s:Appointment",
    (IndividualObj.empty.setId "d:second").addUri "rdf:type" "v-s:Appointment"]

/-- The world after the work orders were made. -/
def madeWorld (executors : List String) : World :=
  endState (tokenIngoingToUserTask (countingServices userTaskTree executors) taskToken "task"
    "d:process" (IndividualObj.empty.setId "d:instance") userTaskTree taskWorld)

/-- A work order is completed, and its completion is handled. -/
def completeAndHandle (executors : List String) (uri : String) : List Event :=
  [.completed uri, .handled (((Event.step (countingServices userTaskTree executors)
    (madeWorld executors) (.completed uri)).queue.getLast?).getD ⟨.none, "", .empty⟩)]

theorem fresh_countingServices (executors : List String) :
    Fresh (countingServices userTaskTree executors) "d:token" taskWorld where
  apart := by
    intro p hp m n heq
    have htake := congrArg (fun s : String => s.toList.take 4) heq
    rcases List.mem_cons.mp hp with rfl | hp
    · simp [countingServices, String.toList_append] at htake
    · rw [List.mem_singleton.mp hp] at htake
      simp [countingServices, String.toList_append] at htake
  unused := by
    intro p hp n _
    have hhead : (p ++ String.ofList (List.replicate n 'a')).toList.head? = some 'w' := by
      simp only [List.mem_cons, List.not_mem_nil, or_false] at hp
      rcases hp with rfl | rfl | rfl <;> simp [String.toList_append]
    refine ⟨fun heq => ?_, fun heq => ?_, fun m hm => (List.not_mem_nil hm).elim⟩
    · rw [show p ++ String.ofList (List.replicate n 'a') = "" from heq] at hhead
      cases hhead
    · rw [show p ++ String.ofList (List.replicate n 'a') = "d:token" from heq] at hhead
      revert hhead
      decide
  forms := by
    intro script w' form hform
    obtain rfl := Option.some.inj hform
    refine ⟨by decide, fun n heq => ?_⟩
    have hhead := congrArg (fun s : String => s.toList.head?) heq
    simp [countingServices, IndividualObj.empty, String.toList_append] at hhead

theorem eventsOf_completeAndHandle {executors orders : List String} {uri : String}
    (huri : uri ∈ orders)
    (hlast : ((Event.step (countingServices userTaskTree executors) (madeWorld executors)
      (.completed uri)).queue.getLast?).any (fun m => m.newState.uri = uri) = true) :
    EventsOf (countingServices userTaskTree executors) orders (madeWorld executors)
      (completeAndHandle executors uri) := by
  obtain ⟨m, hm, hmuri⟩ := (Option.any_eq_true _ _).mp hlast
  have hevents : completeAndHandle executors uri = [.completed uri, .handled m] := by
    rw [completeAndHandle, hm, Option.getD_some]
  rw [hevents]
  refine ⟨huri, ⟨List.mem_of_getLast? hm, ?_⟩, trivial⟩
  rwa [of_decide_eq_true hmuri]

/-- A user task is left too early: with two executors the token is marked when the second work order
is completed and the first one is not. -/
theorem not_leftWhenAll :
    ¬ ∀ (sv : Services) (token processInstance : IndividualObj) (elementId processUri : String)
      (nt : IndexedNodeTree) (w₀ w : World) (events : List Event), Fresh sv token.uri w₀ →
      w₀.isCompleted token.uri = false →
      tokenIngoingToUserTask sv token elementId processUri processInstance nt w₀ = .ok () w →
      EventsOf sv (workOrdersMade w₀ w) w events →
      LeftWhenAll sv (workOrdersMade w₀ w) token.uri w events := by
  intro hleft
  have horders : workOrdersMade taskWorld (madeWorld ["d:first", "d:second"]) =
      ["wd:wo_a", "wd:wo_aaa"] := by decide +kernel
  have h := hleft (countingServices userTaskTree ["d:first", "d:second"]) taskToken
    (IndividualObj.empty.setId "d:instance") "task" "d:process" userTaskTree taskWorld
    (madeWorld ["d:first", "d:second"]) (completeAndHandle ["d:first", "d:second"] "wd:wo_aaa")
    (fresh_countingServices _) (by decide +kernel) rfl
  rw [horders] at h
  have hevents : EventsOf (countingServices userTaskTree ["d:first", "d:second"])
      ["wd:wo_a", "wd:wo_aaa"] (madeWorld ["d:first", "d:second"])
      (completeAndHandle ["d:first", "d:second"] "wd:wo_aaa") :=
    eventsOf_completeAndHandle (by decide) (by decide +kernel)
  have hmark := (h hevents _ List.prefix_rfl).1 (by decide +kernel) "wd:wo_a" (by decide)
  revert hmark
  decide +kernel

/-- With one executor the task is left when the work order is completed. -/
theorem leftWhenAll_oneExecutor :
    LeftWhenAll (countingServices userTaskTree ["d:first"]) ["wd:wo_a"] "d:token"
      (madeWorld ["d:first"]) (completeAndHandle ["d:first"] "wd:wo_a") := by
  have horders : workOrdersMade taskWorld (madeWorld ["d:first"]) = ["wd:wo_a"] := by
    decide +kernel
  have hevents : EventsOf (countingServices userTaskTree ["d:first"]) ["wd:wo_a"]
      (madeWorld ["d:first"]) (completeAndHandle ["d:first"] "wd:wo_a") :=
    eventsOf_completeAndHandle (by decide) (by decide +kernel)
  have hrun : tokenIngoingToUserTask (countingServices userTaskTree ["d:first"]) taskToken "task"
      "d:process" (IndividualObj.empty.setId "d:instance") userTaskTree taskWorld =
        .ok () (madeWorld ["d:first"]) := rfl
  have hiff := leftWhenAll_iff (fresh_countingServices _) (by decide +kernel) hrun
    (horders ▸ hevents)
  rw [horders] at hiff
  exact hiff.mpr ⟨by decide, fun past m _ _ hlast o ho => by
    rw [List.mem_singleton.mp ho]
    exact hlast "wd:wo_a" rfl⟩

end Veda.NanoBpmn
