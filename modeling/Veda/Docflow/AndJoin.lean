import Mathlib.Data.List.Induction
import Veda.Lib.HashMap

set_option autoImplicit false

/-!
# Joins of a net

When a work item of a net is handled, `prepare_work_item` starts it, unless its element joins its
branches with AND and some of them have not arrived. The branches that have arrived are the work
items of the element that the tree of the process has and that are not completed; the element from
which a branch comes is that of the parent of its work item.

## Main definitions

* `Docflow.NetElement`, `Docflow.WorkItem` — nets and trees of work items.
* `Docflow.findIn` — `find_in_work_item_tree`.
* `Docflow.prepareWorkItem` — whether a work item is started.
* `Docflow.Ready` — each branch has arrived.
* `Docflow.Regular` — the condition on the net and the tree.
* `Docflow.StartsOnce` — the element is started when each branch has arrived, and once.

## Main results

* `Docflow.prepareWorkItem_iff` — when a work item is started.
* `Docflow.startsOnce_of_regular` — any arrivals in any order.
-/

namespace Veda.Docflow

open Veda.Lib

/-! ## Nets and trees -/

/-- An element of a net, or a flow. -/
structure NetElement where
  uri : String
  types : List String
  join : List String
  flowsInto : List String
  hasFlow : List String
  deriving DecidableEq

/-- A work item: its element, the first values of `v-wf:isCompleted` and `v-s:isExecuted`, and the
work items that follow it. -/
inductive WorkItem
  | mk (uri : String) (forNetElement : Option String) (isCompleted isExecuted : Option Bool)
    (workItemList : List WorkItem)

/-- A work item that is found in a tree, with the element of its parent. -/
structure Found where
  parent : Option String
  uri : String
  isExecuted : Bool
  deriving DecidableEq

mutual

/-- `rsffiwit`: the work items of an element that are not completed, in a list of trees. -/
def findIn (value : String) (parent : Option String) : List WorkItem → List Found
  | [] => []
  | item :: items => findAt value parent item ++ findIn value parent items

/-- A work item comes before those that follow it. -/
def findAt (value : String) (parent : Option String) : WorkItem → List Found
  | .mk uri forNetElement isCompleted isExecuted workItemList =>
    (if forNetElement = some value ∧ isCompleted.isNone then [⟨parent, uri, isExecuted.isSome⟩]
      else []) ++ findIn value forNetElement workItemList

end

/-- `find_in_work_item_tree`: the parent of the first work items is the process, which has no
element. -/
def findInWorkItemTree (process : List WorkItem) (value : String) : List Found :=
  findIn value none process

/-! ## The join -/

/-- The flows into an element. -/
def inFlows (net : List NetElement) (netElement : String) : List NetElement :=
  net.filter fun e => "v-wf:Flow" ∈ e.types && e.flowsInto.head? = some netElement

/-- The tasks from which the flows come. -/
def task2flow (net : List NetElement) : HashMap String String :=
  net.foldl (fun map e =>
    if "v-wf:Flow" ∈ e.types then map
    else if "v-wf:Task" ∈ e.types then e.hasFlow.foldl (fun map flow => map.insert flow e.uri) map
    else map) ∅

/-- Whether a work item is found whose parent is of the task of a flow; nothing if one is met
before that is executed. -/
def matchFlow (shemaOutTask : Option String) : List Found → Option Bool
  | [] => some false
  | f :: fne =>
    if f.isExecuted then none
    else if shemaOutTask = f.parent then some true
    else matchFlow shemaOutTask fne

/-- The number of flows for which a work item is found (`and_join_count_complete`). -/
def countComplete (net : List NetElement) (fne : List Found) : List NetElement → Option ℕ
  | [] => some 0
  | flow :: flows =>
    match matchFlow ((task2flow net).lookup flow.uri) fne with
    | none => none
    | some isFound =>
      (countComplete net fne flows).map fun count => if isFound then count + 1 else count

/-- `prepare_work_item`, up to where the work item is marked as executed: whether it is. -/
def prepareWorkItem (net : List NetElement) (netElement : NetElement) (process : List WorkItem)
    (isCompleted : Option Bool) : Bool :=
  if isCompleted = some true then false
  else if netElement.join.head? = some "v-wf:AND" then
    let flows := inFlows net netElement.uri
    let fne := findInWorkItemTree process netElement.uri
    if fne.length ≠ flows.length then false
    else countComplete net fne flows = some flows.length
  else true

mutual

/-- A work item is marked as executed. -/
def markIn (uri : String) : List WorkItem → List WorkItem
  | [] => []
  | item :: items => markAt uri item :: markIn uri items

/-- One tree. -/
def markAt (uri : String) : WorkItem → WorkItem
  | .mk uri' forNetElement isCompleted isExecuted workItemList =>
    .mk uri' forNetElement isCompleted (if uri' = uri then some true else isExecuted)
      (markIn uri workItemList)

end

/-! ## The property -/

/-- A flow comes from an element. -/
def IsSource (net : List NetElement) (flow source : NetElement) : Prop :=
  source ∈ net ∧ ("v-wf:Task" ∈ source.types ∨ "v-wf:Condition" ∈ source.types) ∧
    flow.uri ∈ source.hasFlow

/-- For each flow into the element there is a work item that is not completed and whose parent is of
the element from which the flow comes. -/
def Ready (net : List NetElement) (netElement : NetElement) (process : List WorkItem) : Prop :=
  ∀ flow ∈ inFlows net netElement.uri, ∃ source, IsSource net flow source ∧
    ∃ f ∈ findInWorkItemTree process netElement.uri, f.parent = some source.uri

/-- What happens to the tree of a process: work items arrive, or one of them is handled. -/
inductive Happening
  | arrived (process : List WorkItem)
  | handled (uri : String) (isCompleted : Option Bool)

/-- The element is started when each branch has arrived and it was not started before. -/
def StartsOnce (net : List NetElement) (netElement : NetElement) :
    List WorkItem → Bool → List Happening → Prop
  | _, _, [] => True
  | _, started, .arrived process :: happenings =>
    StartsOnce net netElement process started happenings
  | process, started, .handled uri isCompleted :: happenings =>
    let starts := prepareWorkItem net netElement process isCompleted
    (starts = true ↔ Ready net netElement process ∧ started = false) ∧
      StartsOnce net netElement (if starts then markIn uri process else process) (started || starts)
        happenings

/-- The condition on the net and the tree: the flows into the element come from different tasks, and
the work items of the element come from different ones of these. -/
structure Regular (net : List NetElement) (netElement : NetElement) (process : List WorkItem) :
    Prop where
  source : ∀ flow ∈ inFlows net netElement.uri, ∃ source, IsSource net flow source
  isTask : ∀ flow ∈ inFlows net netElement.uri, ∀ source, IsSource net flow source →
    "v-wf:Task" ∈ source.types ∧ "v-wf:Flow" ∉ source.types
  unique : ∀ flow ∈ inFlows net netElement.uri, ∀ source source', IsSource net flow source →
    IsSource net flow source' → source.uri = source'.uri
  different : (inFlows net netElement.uri).Pairwise fun flow flow' => ∀ source source',
    IsSource net flow source → IsSource net flow' source' → source.uri ≠ source'.uri
  apart : ((findInWorkItemTree process netElement.uri).map Found.parent).Nodup
  ofBranch : ∀ f ∈ findInWorkItemTree process netElement.uri, ∃ flow ∈ inFlows net netElement.uri,
    ∃ source, IsSource net flow source ∧ f.parent = some source.uri

/-- The condition on what happens: work items stay when others arrive, and none arrives that is
executed; and what is handled is one of them, in a regular tree. -/
def AllRegular (net : List NetElement) (netElement : NetElement) :
    List WorkItem → List Happening → Prop
  | _, [] => True
  | process, .arrived process' :: happenings =>
    (∀ f ∈ findInWorkItemTree process netElement.uri,
      f ∈ findInWorkItemTree process' netElement.uri) ∧
    (∀ f ∈ findInWorkItemTree process' netElement.uri, f.isExecuted = true →
      f ∈ findInWorkItemTree process netElement.uri) ∧
      AllRegular net netElement process' happenings
  | process, .handled uri isCompleted :: happenings =>
    Regular net netElement process ∧ isCompleted ≠ some true ∧
      (∃ f ∈ findInWorkItemTree process netElement.uri, f.uri = uri) ∧
      AllRegular net netElement
        (if prepareWorkItem net netElement process isCompleted then markIn uri process else process)
        happenings

/-! ## The tasks of the flows -/

section Tasks

variable {net : List NetElement} {key : String}

theorem lookup_foldl_insert (map : HashMap String String) (flows : List String) (uri : String) :
    (flows.foldl (fun map flow => map.insert flow uri) map).lookup key =
      if key ∈ flows then some uri else map.lookup key := by
  induction flows generalizing map with
  | nil => rfl
  | cons flow flows ih =>
    rw [List.foldl_cons, ih]
    by_cases hmem : key ∈ flows
    · rw [if_pos hmem, if_pos (List.mem_cons_of_mem _ hmem)]
    · rw [if_neg hmem]
      by_cases hkey : key = flow
      · rw [hkey, AList.lookup_insert, if_pos List.mem_cons_self]
      · rw [AList.lookup_insert_ne hkey, if_neg fun h => (List.mem_cons.mp h).elim hkey hmem]

/-- The element is a task that is not a flow, and the flow leaves it. -/
def Leaves (key : String) (e : NetElement) : Prop :=
  "v-wf:Flow" ∉ e.types ∧ "v-wf:Task" ∈ e.types ∧ key ∈ e.hasFlow

instance (e : NetElement) : Decidable (Leaves key e) := inferInstanceAs (Decidable (_ ∧ _ ∧ _))

theorem task2flow_append (net : List NetElement) (e : NetElement) :
    (task2flow (net ++ [e])).lookup key =
      if Leaves key e then some e.uri else (task2flow net).lookup key := by
  rw [task2flow, List.foldl_append, List.foldl_cons, List.foldl_nil, ← task2flow]
  by_cases hflow : "v-wf:Flow" ∈ e.types
  · rw [if_pos hflow, if_neg fun h => h.1 hflow]
  · rw [if_neg hflow]
    by_cases htask : "v-wf:Task" ∈ e.types
    · rw [if_pos htask, lookup_foldl_insert]
      by_cases hkey : key ∈ e.hasFlow
      · rw [if_pos hkey, if_pos ⟨hflow, htask, hkey⟩]
      · rw [if_neg hkey, if_neg fun h => hkey h.2.2]
    · rw [if_neg htask, if_neg fun h => htask h.2.1]

theorem lookup_task2flow (net : List NetElement) (key : String) :
    ((task2flow net).lookup key = none ∧ ∀ e ∈ net, ¬ Leaves key e) ∨
      ∃ e ∈ net, Leaves key e ∧ (task2flow net).lookup key = some e.uri := by
  induction net using List.reverseRecOn with
  | nil => exact .inl ⟨rfl, fun _ h => (nomatch h)⟩
  | append_singleton net e ih =>
    rw [task2flow_append]
    by_cases hleaves : Leaves key e
    · exact .inr ⟨e, List.mem_append_right _ (List.mem_singleton_self e), hleaves, if_pos hleaves⟩
    · rw [if_neg hleaves]
      rcases ih with ⟨hnone, hall⟩ | ⟨e', hmem, he', hsome⟩
      · refine .inl ⟨hnone, fun e' he' => ?_⟩
        rcases List.mem_append.mp he' with he' | he'
        · exact hall e' he'
        · rwa [List.mem_singleton.mp he']
      · exact .inr ⟨e', List.mem_append_left _ hmem, he', hsome⟩

theorem Regular.lookup_eq {netElement source flow : NetElement} {process : List WorkItem}
    (h : Regular net netElement process) (hflow : flow ∈ inFlows net netElement.uri)
    (hsource : IsSource net flow source) : (task2flow net).lookup flow.uri = some source.uri := by
  obtain ⟨htask, hnot⟩ := h.isTask flow hflow source hsource
  rcases lookup_task2flow net flow.uri with ⟨-, hall⟩ | ⟨e, he, hleaves, hsome⟩
  · exact absurd ⟨hnot, htask, hsource.2.2⟩ (hall source hsource.1)
  · rw [hsome, h.unique flow hflow e source ⟨he, .inl hleaves.2.1, hleaves.2.2⟩ hsource]

end Tasks

/-! ## The loops -/

section Loops

variable {net : List NetElement} {fne : List Found} {shemaOutTask : Option String}

theorem matchFlow_of_all (h : ∀ f ∈ fne, f.isExecuted = false) :
    matchFlow shemaOutTask fne = some (decide (∃ f ∈ fne, shemaOutTask = f.parent)) := by
  induction fne with
  | nil => simp [matchFlow]
  | cons f fne ih =>
    rw [matchFlow, h f List.mem_cons_self, if_neg Bool.false_ne_true]
    split_ifs with hparent
    · rw [decide_eq_true ⟨f, List.mem_cons_self, hparent⟩]
    · rw [ih fun g hg => h g (List.mem_cons_of_mem _ hg)]
      congr 2
      simp [hparent]

theorem matchFlow_eq_none {f : Found} (hnodup : (fne.map Found.parent).Nodup) (hf : f ∈ fne)
    (hexecuted : f.isExecuted = true) : matchFlow f.parent fne = none := by
  induction fne with
  | nil => cases hf
  | cons g fne ih =>
    rw [List.map_cons, List.nodup_cons] at hnodup
    rw [matchFlow]
    split_ifs with hg hparent
    · rfl
    · rcases List.mem_cons.mp hf with rfl | hf
      · exact absurd hexecuted hg
      · exact absurd (hparent ▸ List.mem_map_of_mem hf) hnodup.1
    · rcases List.mem_cons.mp hf with rfl | hf
      · exact absurd rfl hparent
      · exact ih hnodup.2 hf

theorem countComplete_of_all (h : ∀ f ∈ fne, f.isExecuted = false) (flows : List NetElement) :
    countComplete net fne flows = some (flows.countP fun flow =>
      ∃ f ∈ fne, (task2flow net).lookup flow.uri = f.parent) := by
  induction flows with
  | nil => rfl
  | cons flow flows ih =>
    rw [countComplete, matchFlow_of_all h, ih, List.countP_cons]
    dsimp only [Option.map_some]
    split_ifs <;> simp_all

theorem countComplete_eq_none {flows : List NetElement} {flow : NetElement} (hflow : flow ∈ flows)
    (h : matchFlow ((task2flow net).lookup flow.uri) fne = none) :
    countComplete net fne flows = none := by
  induction flows with
  | nil => cases hflow
  | cons flow' flows ih =>
    rw [countComplete]
    rcases List.mem_cons.mp hflow with rfl | hflow
    · rw [h]
    · rw [ih hflow]
      cases matchFlow ((task2flow net).lookup flow'.uri) fne <;> rfl

end Loops

/-! ## One work item -/

section Start

variable {net : List NetElement} {netElement : NetElement} {process process' : List WorkItem}
  {isCompleted : Option Bool}

theorem Regular.ready_iff (h : Regular net netElement process) :
    Ready net netElement process ↔
      (findInWorkItemTree process netElement.uri).length = (inFlows net netElement.uri).length := by
  have hflows : ((inFlows net netElement.uri).map fun flow =>
      (task2flow net).lookup flow.uri).Nodup := by
    refine List.pairwise_map.mpr (h.different.imp_of_mem fun {flow flow'} hflow hflow' hne heq => ?_)
    obtain ⟨source, hsource⟩ := h.source flow hflow
    obtain ⟨source', hsource'⟩ := h.source flow' hflow'
    rw [h.lookup_eq hflow hsource, h.lookup_eq hflow' hsource'] at heq
    exact hne source source' hsource hsource' (Option.some.inj heq)
  have hsubset : (findInWorkItemTree process netElement.uri).map Found.parent ⊆
      (inFlows net netElement.uri).map fun flow => (task2flow net).lookup flow.uri := by
    intro parent hparent
    obtain ⟨f, hf, rfl⟩ := List.mem_map.mp hparent
    obtain ⟨flow, hflow, source, hsource, heq⟩ := h.ofBranch f hf
    exact List.mem_map.mpr ⟨flow, hflow, by rw [h.lookup_eq hflow hsource, heq]⟩
  constructor
  · intro hready
    have hperm : ((findInWorkItemTree process netElement.uri).map Found.parent).Perm
        ((inFlows net netElement.uri).map fun flow => (task2flow net).lookup flow.uri) := by
      refine (List.perm_ext_iff_of_nodup h.apart hflows).mpr fun parent => ⟨@hsubset parent, ?_⟩
      intro hmem
      obtain ⟨flow, hflow, rfl⟩ := List.mem_map.mp hmem
      obtain ⟨source, hsource, f, hf, hparent⟩ := hready flow hflow
      exact List.mem_map.mpr ⟨f, hf, by rw [h.lookup_eq hflow hsource, hparent]⟩
    have hlen := hperm.length_eq
    rwa [List.length_map, List.length_map] at hlen
  · intro hlen flow hflow
    have hperm := (List.subperm_of_subset h.apart hsubset).perm_of_length_le
      (by rw [List.length_map, List.length_map, hlen])
    obtain ⟨source, hsource⟩ := h.source flow hflow
    have hmem : some source.uri ∈ (findInWorkItemTree process netElement.uri).map Found.parent :=
      hperm.mem_iff.mpr (List.mem_map.mpr ⟨flow, hflow, h.lookup_eq hflow hsource⟩)
    obtain ⟨f, hf, hparent⟩ := List.mem_map.mp hmem
    exact ⟨source, hsource, f, hf, hparent⟩

/-- **When a work item is started**: exactly if each branch has arrived and none is executed.

**Proof sketch.** The work items come from different tasks, so that there are as many of them as
flows exactly if each branch has arrived (`Regular.ready_iff`). Each flow then finds its own work
item, and an executed one ends the count for its flow (`matchFlow_eq_none`). -/
theorem prepareWorkItem_iff (h : Regular net netElement process)
    (hjoin : netElement.join.head? = some "v-wf:AND") (hcompleted : isCompleted ≠ some true) :
    prepareWorkItem net netElement process isCompleted = true ↔ Ready net netElement process ∧
      ∀ f ∈ findInWorkItemTree process netElement.uri, f.isExecuted = false := by
  rw [prepareWorkItem, if_neg hcompleted, if_pos hjoin, h.ready_iff]
  dsimp only
  by_cases hlen : (findInWorkItemTree process netElement.uri).length =
      (inFlows net netElement.uri).length
  · rw [if_neg (not_not.mpr hlen), decide_eq_true_iff]
    by_cases hall : ∀ f ∈ findInWorkItemTree process netElement.uri, f.isExecuted = false
    · refine iff_of_true ?_ ⟨hlen, hall⟩
      rw [countComplete_of_all hall]
      refine congrArg some (List.countP_eq_length.mpr fun flow hflow => decide_eq_true ?_)
      obtain ⟨source, hsource, f, hf, hparent⟩ := h.ready_iff.mpr hlen flow hflow
      exact ⟨f, hf, by rw [h.lookup_eq hflow hsource, hparent]⟩
    · refine iff_of_false ?_ fun hboth => hall hboth.2
      obtain ⟨f, hall⟩ := not_forall.mp hall
      obtain ⟨hf, hexecuted⟩ := Classical.not_imp.mp hall
      obtain ⟨flow, hflow, source, hsource, hparent⟩ := h.ofBranch f hf
      have hnone := matchFlow_eq_none h.apart hf (eq_true_of_ne_false hexecuted)
      rw [hparent, ← h.lookup_eq hflow hsource] at hnone
      rw [countComplete_eq_none hflow hnone]
      exact fun heq => (nomatch heq)
  · rw [if_pos hlen]
    exact iff_of_false Bool.false_ne_true fun hboth => hlen hboth.1

/-! ## Marks -/

/-- A found work item that is marked. -/
def Found.mark (uri : String) (f : Found) : Found :=
  if f.uri = uri then { f with isExecuted := true } else f

mutual

theorem findIn_markIn (value uri : String) (parent : Option String) :
    ∀ items, findIn value parent (markIn uri items) =
      (findIn value parent items).map (Found.mark uri)
  | [] => rfl
  | item :: items => by
    rw [markIn, findIn, findIn, List.map_append, findAt_markAt, findIn_markIn]

theorem findAt_markAt (value uri : String) (parent : Option String) :
    ∀ item, findAt value parent (markAt uri item) =
      (findAt value parent item).map (Found.mark uri)
  | .mk uri' forNetElement isCompleted isExecuted workItemList => by
    rw [markAt, findAt, findAt, List.map_append, findIn_markIn]
    refine congrArg (· ++ _) ?_
    split_ifs with hfound huri
    · rw [List.map_singleton, Found.mark, if_pos huri]
      rfl
    · rw [List.map_singleton, Found.mark, if_neg huri]
    · rfl

end

/-! ## Runs -/

/-- The element is started exactly if one of its work items is executed. -/
def Started (netElement : NetElement) (process : List WorkItem) (started : Bool) : Prop :=
  started = true ↔ ∃ f ∈ findInWorkItemTree process netElement.uri, f.isExecuted = true

theorem Started.arrived {started : Bool} (h : Started netElement process started)
    (hstay : ∀ f ∈ findInWorkItemTree process netElement.uri,
      f ∈ findInWorkItemTree process' netElement.uri)
    (hnew : ∀ f ∈ findInWorkItemTree process' netElement.uri, f.isExecuted = true →
      f ∈ findInWorkItemTree process netElement.uri) :
    Started netElement process' started :=
  h.trans ⟨fun ⟨f, hf, hexecuted⟩ => ⟨f, hstay f hf, hexecuted⟩,
    fun ⟨f, hf, hexecuted⟩ => ⟨f, hnew f hf hexecuted, hexecuted⟩⟩

theorem Started.marked {uri : String} (hmem : ∃ f ∈ findInWorkItemTree process netElement.uri,
    f.uri = uri) : Started netElement (markIn uri process) true := by
  obtain ⟨f, hf, huri⟩ := hmem
  refine iff_of_true rfl ⟨f.mark uri, ?_, ?_⟩
  · rw [findInWorkItemTree, findIn_markIn]
    exact List.mem_map_of_mem hf
  · rw [Found.mark, if_pos huri]

/-- **Any arrivals in any order**: the element is started when each branch has arrived, and once.

**Proof sketch.** An element that was started has an executed work item in the tree (`Started`),
which every later work item of the element meets (`prepareWorkItem_iff`). -/
theorem startsOnce_of_started (hjoin : netElement.join.head? = some "v-wf:AND")
    {happenings : List Happening} {started : Bool} (hstarted : Started netElement process started)
    (h : AllRegular net netElement process happenings) :
    StartsOnce net netElement process started happenings := by
  induction happenings generalizing process started with
  | nil => trivial
  | cons happening happenings ih =>
    cases happening with
    | arrived process' =>
      obtain ⟨hstay, hnew, hall⟩ := h
      exact ih (hstarted.arrived hstay hnew) hall
    | handled uri isCompleted =>
      obtain ⟨hregular, hcompleted, hmem, hall⟩ := h
      have hiff := prepareWorkItem_iff hregular hjoin hcompleted
      have hnone : (∀ f ∈ findInWorkItemTree process netElement.uri, f.isExecuted = false) ↔
          started = false := by
        rw [← Bool.not_eq_true, not_congr hstarted]
        simp
      rw [hnone] at hiff
      refine ⟨hiff, ih ?_ hall⟩
      cases hstarts : prepareWorkItem net netElement process isCompleted with
      | true =>
        rw [if_pos rfl, Bool.or_true]
        exact .marked hmem
      | false =>
        rw [if_neg Bool.false_ne_true, Bool.or_false]
        exact hstarted

/-- **A join of different tasks** is started when each branch has arrived, and once. -/
theorem startsOnce_of_regular (hjoin : netElement.join.head? = some "v-wf:AND")
    (hfresh : ∀ f ∈ findInWorkItemTree process netElement.uri, f.isExecuted = false)
    {happenings : List Happening} (h : AllRegular net netElement process happenings) :
    StartsOnce net netElement process false happenings := by
  refine startsOnce_of_started hjoin (iff_of_false Bool.false_ne_true ?_) h
  rintro ⟨f, hf, hexecuted⟩
  rw [hfresh f hf] at hexecuted
  cases hexecuted

end Start

/-! ## Two branches -/

/-- An element from which a flow goes into `d:join`, and the flow. -/
def branch (type name : String) : List NetElement :=
  [⟨"d:" ++ name, [type], [], [], ["d:flow-" ++ name]⟩,
    ⟨"d:flow-" ++ name, ["v-wf:Flow"], [], ["d:join"], []⟩]

/-- A task that joins its branches. -/
def joining : NetElement := ⟨"d:join", ["v-wf:Task"], ["v-wf:AND"], [], []⟩

/-- A completed work item of a branch, and the work item of the join that follows it. -/
def arrival (name : String) : WorkItem :=
  .mk ("d:item-" ++ name) (some ("d:" ++ name)) (some true) none
    [.mk ("d:join-" ++ name) (some "d:join") none none []]

/-- A net of two tasks whose branches are joined. -/
def twoTasks : List NetElement := branch "v-wf:Task" "left" ++ branch "v-wf:Task" "right"

theorem regular_twoTasks {process : List WorkItem}
    (hapart : ((findInWorkItemTree process joining.uri).map Found.parent).Nodup)
    (hbranch : ∀ f ∈ findInWorkItemTree process joining.uri,
      f.parent = some "d:left" ∨ f.parent = some "d:right") :
    Regular twoTasks joining process := by
  have hflows : inFlows twoTasks joining.uri =
      [⟨"d:flow-left", ["v-wf:Flow"], [], ["d:join"], []⟩,
        ⟨"d:flow-right", ["v-wf:Flow"], [], ["d:join"], []⟩] := by decide
  have hsources : ∀ source ∈ twoTasks, ∀ flow ∈ inFlows twoTasks joining.uri,
      flow.uri ∈ source.hasFlow → "v-wf:Task" ∈ source.types ∧ "v-wf:Flow" ∉ source.types ∧
        source.uri = if flow.uri = "d:flow-left" then "d:left" else "d:right" := by decide
  have hleft : IsSource twoTasks ⟨"d:flow-left", ["v-wf:Flow"], [], ["d:join"], []⟩
      ⟨"d:left", ["v-wf:Task"], [], [], ["d:flow-left"]⟩ := ⟨by decide, by decide, by decide⟩
  have hright : IsSource twoTasks ⟨"d:flow-right", ["v-wf:Flow"], [], ["d:join"], []⟩
      ⟨"d:right", ["v-wf:Task"], [], [], ["d:flow-right"]⟩ := ⟨by decide, by decide, by decide⟩
  constructor
  case source =>
    rw [hflows]
    intro flow hflow
    rcases List.mem_cons.mp hflow with rfl | hflow
    · exact ⟨_, hleft⟩
    · rw [List.mem_singleton.mp hflow]
      exact ⟨_, hright⟩
  case isTask =>
    intro flow hflow source hsource
    obtain ⟨htask, hnot, -⟩ := hsources source hsource.1 flow hflow hsource.2.2
    exact ⟨htask, hnot⟩
  case unique =>
    intro flow hflow source source' hsource hsource'
    rw [(hsources source hsource.1 flow hflow hsource.2.2).2.2,
      (hsources source' hsource'.1 flow hflow hsource'.2.2).2.2]
  case different =>
    have hmem := hflows ▸ List.Subset.refl (inFlows twoTasks joining.uri)
    rw [hflows, List.pairwise_pair]
    intro source source' hsource hsource' heq
    have huri := (hsources source hsource.1 _ (hmem List.mem_cons_self) hsource.2.2).2.2
    have huri' := (hsources source' hsource'.1 _
      (hmem (List.mem_cons_of_mem _ List.mem_cons_self)) hsource'.2.2).2.2
    rw [heq, huri'] at huri
    exact absurd huri (by decide)
  case apart => exact hapart
  case ofBranch =>
    intro f hf
    rw [hflows]
    rcases hbranch f hf with hparent | hparent
    · exact ⟨_, List.mem_cons_self, _, hleft, hparent⟩
    · exact ⟨_, List.mem_cons_of_mem _ List.mem_cons_self, _, hright, hparent⟩

/-- The branches arrive one after the other, and the work items are handled several times. -/
theorem startsOnce_twoTasks :
    StartsOnce twoTasks joining [] false
      [.arrived [arrival "left"], .handled "d:join-left" none,
        .arrived [arrival "left", arrival "right"], .handled "d:join-right" none,
        .handled "d:join-left" none] := by
  have hnone : findInWorkItemTree [] joining.uri = [] := rfl
  have hone : findInWorkItemTree [arrival "left"] joining.uri =
      [⟨some "d:left", "d:join-left", false⟩] := by decide +kernel
  have htwo : findInWorkItemTree [arrival "left", arrival "right"] joining.uri =
      [⟨some "d:left", "d:join-left", false⟩, ⟨some "d:right", "d:join-right", false⟩] := by
    decide +kernel
  have hmarked : findInWorkItemTree (markIn "d:join-right" [arrival "left", arrival "right"])
      joining.uri =
      [⟨some "d:left", "d:join-left", false⟩, ⟨some "d:right", "d:join-right", true⟩] := by
    decide +kernel
  have hwaits : prepareWorkItem twoTasks joining [arrival "left"] none = false := by decide +kernel
  have hstarts : prepareWorkItem twoTasks joining [arrival "left", arrival "right"] none = true := by
    decide +kernel
  have hregularOne : Regular twoTasks joining [arrival "left"] := by
    refine regular_twoTasks ?_ ?_ <;> rw [hone] <;> simp
  have hregularTwo : Regular twoTasks joining [arrival "left", arrival "right"] := by
    refine regular_twoTasks ?_ ?_ <;> rw [htwo] <;> simp
  have hregularMarked : Regular twoTasks joining
      (markIn "d:join-right" [arrival "left", arrival "right"]) := by
    refine regular_twoTasks ?_ ?_ <;> rw [hmarked] <;> simp
  refine startsOnce_of_regular rfl (by rw [hnone]; exact fun _ h => (nomatch h)) ?_
  rw [AllRegular, AllRegular, hwaits, if_neg Bool.false_ne_true, AllRegular, AllRegular, hstarts,
    if_pos rfl, AllRegular, AllRegular, hnone, hone, htwo, hmarked]
  exact ⟨fun _ h => (nomatch h), by simp, hregularOne, nofun, by simp, by simp, by simp,
    hregularTwo, nofun, by simp, hregularMarked, nofun, by simp, trivial⟩

/-- A branch that comes from a condition is never found. -/
theorem not_startsOnce_condition :
    ¬ StartsOnce (branch "v-wf:Task" "left" ++ branch "v-wf:Condition" "right") joining [] false
      [.arrived [arrival "left", arrival "right"], .handled "d:join-left" none] := by
  intro h
  have hfalse : prepareWorkItem (branch "v-wf:Task" "left" ++ branch "v-wf:Condition" "right")
      joining [arrival "left", arrival "right"] none = false := by decide +kernel
  have hflows : inFlows (branch "v-wf:Task" "left" ++ branch "v-wf:Condition" "right") joining.uri =
      [⟨"d:flow-left", ["v-wf:Flow"], [], ["d:join"], []⟩,
        ⟨"d:flow-right", ["v-wf:Flow"], [], ["d:join"], []⟩] := by decide
  have htwo : findInWorkItemTree [arrival "left", arrival "right"] joining.uri =
      [⟨some "d:left", "d:join-left", false⟩, ⟨some "d:right", "d:join-right", false⟩] := by
    decide +kernel
  rw [StartsOnce, StartsOnce] at h
  have hstarts := h.1.mpr ⟨?_, rfl⟩
  · rw [hfalse] at hstarts
    cases hstarts
  · intro flow hflow
    rw [hflows] at hflow
    rw [htwo]
    rcases List.mem_cons.mp hflow with rfl | hflow
    · exact ⟨⟨"d:left", ["v-wf:Task"], [], [], ["d:flow-left"]⟩,
        ⟨by decide, by decide, by decide⟩, _, List.mem_cons_self, rfl⟩
    · rw [List.mem_singleton.mp hflow]
      exact ⟨⟨"d:right", ["v-wf:Condition"], [], [], ["d:flow-right"]⟩,
        ⟨by decide, by decide, by decide⟩, _, List.mem_cons_of_mem _ List.mem_cons_self, rfl⟩

end Veda.Docflow
