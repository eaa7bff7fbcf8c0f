import Veda.NanoBpmn.Gateway

set_option autoImplicit false

/-!
# The flows over which a token leaves

A token that has passed an element goes on over its flows. An exclusive gateway is left over the
first flow whose condition holds, any other element over all of them, and the default flow is for the
case that there is none. The engine looks at the default flow as at one more flow, the last one, whose
own condition is asked; so it is taken beside others, and it can be refused as the last resort.

## Main definitions

* `NanoBpmn.takenFlows` — the flows that the loop takes.
* `NanoBpmn.properFlows` — the flows that are to be taken.
* `NanoBpmn.Placed` — the tokens stand on the targets of some flows.
* `NanoBpmn.AtElement` — the token stands at an element of a process.

## Main results

* `NanoBpmn.forwardAlong_eq` — the loop along the flows.
* `NanoBpmn.placed_forwardEach` — the tokens that are made.
* `NanoBpmn.forwardsProperly_iff` — when the proper flows are taken.
* `NanoBpmn.not_forwardsProperly_default` — a task that is left over its default flow too.

## Design

The results of the conditions are given as a function of the scripts: whatever they are, they do not
depend on how many tokens have been stored.
-/

namespace Veda.NanoBpmn

open Veda.Lib Veda.Onto
open Veda.Mstorage (IndvOp indvApplyCmd lookup_indvApplyCmd isEmpty_of_lookup)

/-! ## Flows -/

/-- The services, with the results of the conditions. -/
def Services.withResults (sv : Services) (results : Script → Option Bool) : Services :=
  { sv with runBool := fun script _ => results script }

/-- The flow that an element names as the default one. -/
def defaultFlowOf (element : XNode) : Option String :=
  let defaultFlow := (element.getAttribute "default").toOption.getD ""
  if defaultFlow = "" then none else some defaultFlow

/-- The other flows of an element, in the order of the document. -/
def otherFlowsOf (element : XNode) : List String :=
  (element.getValuesOfTag "bpmn:outgoing").filter fun id =>
    id ≠ (element.getAttribute "default").toOption.getD ""

theorem outgoingOf_eq (element : XNode) :
    outgoingOf element = otherFlowsOf element ++ (defaultFlowOf element).toList := by
  unfold outgoingOf otherFlowsOf defaultFlowOf
  dsimp only
  split_ifs
  · exact (List.append_nil _).symm
  · rfl

/-- The flows that the loop takes, of those that it looks at. -/
def takenFlows (type : String) (passes : String → Bool) : List String → List String
  | [] => []
  | id :: ids =>
    if passes id then
      if type = "bpmn:exclusiveGateway" then [id] else id :: takenFlows type passes ids
    else takenFlows type passes ids

/-- The flows that are to be taken of the other ones: at an exclusive gateway the first one whose
condition holds, elsewhere all of these. -/
def otherTaken (type : String) (passes : String → Bool) (others : List String) : List String :=
  if type = "bpmn:exclusiveGateway" then (others.find? passes).toList else others.filter passes

/-- The flows that are to be taken: the default one if and only if no other one is. -/
def properFlows (type : String) (passes : String → Bool) (others : List String)
    (defaultFlow : Option String) : List String :=
  if otherTaken type passes others = [] then defaultFlow.toList
  else otherTaken type passes others

/-- The condition on the default flow: its own condition holds when no other flow is taken, and it
does not hold when others are, unless the element is an exclusive gateway. -/
def DefaultFits (type : String) (passes : String → Bool) (others : List String)
    (defaultFlow : Option String) : Prop :=
  ∀ id ∈ defaultFlow,
    (otherTaken type passes others = [] → passes id = true) ∧
    (otherTaken type passes others ≠ [] → type ≠ "bpmn:exclusiveGateway" → passes id = false)

section Flows

variable {type : String} {passes : String → Bool} {others : List String}
  {defaultFlow : Option String}

theorem takenFlows_eq (type : String) (passes : String → Bool) (ids : List String) :
    takenFlows type passes ids = otherTaken type passes ids := by
  unfold otherTaken
  induction ids with
  | nil => split_ifs <;> rfl
  | cons id ids ih =>
    rw [takenFlows, ih]
    cases hpasses : passes id <;> split_ifs <;> simp_all

theorem otherTaken_append (type : String) (passes : String → Bool) (others : List String)
    (id : String) :
    otherTaken type passes (others ++ [id]) =
      if otherTaken type passes others ≠ [] ∧ type = "bpmn:exclusiveGateway" then
        otherTaken type passes others
      else otherTaken type passes others ++ if passes id then [id] else [] := by
  unfold otherTaken
  by_cases htype : type = "bpmn:exclusiveGateway"
  · rw [if_pos htype, if_pos htype, List.find?_append]
    cases others.find? passes with
    | none => cases hpasses : passes id <;> simp [List.find?, hpasses]
    | some other => simp [htype]
  · rw [if_neg htype, if_neg htype, if_neg fun h => htype h.2, List.filter_append]
    cases hpasses : passes id <;> simp [hpasses]

/-- **The flows that are taken** are the proper ones under the condition. -/
theorem takenFlows_of_defaultFits (h : DefaultFits type passes others defaultFlow) :
    takenFlows type passes (others ++ defaultFlow.toList) =
      properFlows type passes others defaultFlow := by
  rw [takenFlows_eq, properFlows]
  cases defaultFlow with
  | none =>
    rw [Option.toList_none, List.append_nil]
    split_ifs with hnil
    · exact hnil
    · rfl
  | some id =>
    obtain ⟨hlast, hbeside⟩ := h id rfl
    rw [Option.toList_some, otherTaken_append]
    by_cases hnil : otherTaken type passes others = []
    · simp [hnil, hlast hnil]
    · by_cases htype : type = "bpmn:exclusiveGateway"
      · rw [if_pos ⟨hnil, htype⟩, if_neg hnil]
      · simp [hnil, htype, hbeside hnil htype]

theorem length_takenFlows_ne (h : ¬ DefaultFits type passes others defaultFlow) :
    (takenFlows type passes (others ++ defaultFlow.toList)).length ≠
      (properFlows type passes others defaultFlow).length := by
  rw [takenFlows_eq, properFlows]
  cases defaultFlow with
  | none => exact absurd (fun id hid => nomatch hid) h
  | some id =>
    rw [Option.toList_some, otherTaken_append]
    by_cases hnil : otherTaken type passes others = []
    · have hpasses : passes id = false := by
        by_contra hpasses
        refine h fun id' hid' => ⟨fun _ => ?_, fun hne => absurd hnil hne⟩
        obtain rfl := Option.some.inj hid'
        simpa using hpasses
      simp [hnil, hpasses]
    · have hpasses : type ≠ "bpmn:exclusiveGateway" ∧ passes id = true := by
        by_contra hno
        refine h fun id' hid' => ⟨fun hnil' => absurd hnil' hnil, fun _ htype => ?_⟩
        obtain rfl := Option.some.inj hid'
        simpa [htype] using hno
      simp [hnil, hpasses.1, hpasses.2]

end Flows

/-! ## The tokens of the flows -/

section Tokens

variable (sv : Services) (processUri instanceUri elementId : String)

/-- The uris of the next new tokens. -/
def newUris (n k : ℕ) : List String := (List.range' n k).map (sv.newUri "wd:tk_")

/-- The uris of the tokens of some flows: the token itself for the first one, and new ones. -/
def tokenUris (tokenUri : String) (made : ℕ) : ℕ → List String
  | 0 => []
  | k + 1 => tokenUri :: newUris sv made k

/-- The uris of the tokens that are announced for the next step. -/
def announcedUris (messages : List Message) : List String :=
  (messages.filter fun m => m.src = "go-prepare").map fun m => m.newState.uri

/-- **Tokens stand on targets**: of these tokens each stands on its target and is announced, some
are added to those of the process instance, and no other individual changes. -/
structure Placed (uris added targets : List String) (w w' : World) : Prop where
  stands : List.Forall₂ (fun uri target => w'.individuals.lookup uri =
    some (newToken uri processUri instanceUri elementId target)) uris targets
  tokens : tokensOf w' instanceUri = tokensOf w instanceUri ++ added
  kept : ∀ uri, uri ∉ uris → uri ≠ instanceUri →
    w'.individuals.lookup uri = w.individuals.lookup uri
  announced : ∃ new, w'.queue = w.queue ++ new ∧ announcedUris new = uris

/-- The new identifiers are not in use, and the process instance is stored. -/
structure Room (w : World) : Prop where
  unique : ∀ m n, sv.newUri "wd:tk_" m = sv.newUri "wd:tk_" n → m = n
  fresh : ∀ n, w.made ≤ n → sv.newUri "wd:tk_" n ∉ instanceUri :: tokensOf w instanceUri
  instanceStored : ∃ obj, w.individuals.lookup instanceUri = some obj ∧ obj.isEmpty = false

/-- What the loop along the flows does for the targets of those that it takes. -/
def forwardEach : List String → Option String → Handler Unit
  | [], _ => return
  | target :: targets, prevTokenUri => do
    let forwarded ← createTokenAndStore sv prevTokenUri processUri instanceUri elementId target
    if prevTokenUri = none then addAndStoreTokenInto sv instanceUri forwarded
    forwardEach targets none

variable {sv processUri instanceUri elementId} {w w' w'' : World}
  {uris uris' added added' targets targets' : List String}

theorem Placed.refl (w : World) : Placed processUri instanceUri elementId [] [] [] w w where
  stands := .nil
  tokens := (List.append_nil _).symm
  kept := fun _ _ _ => rfl
  announced := ⟨[], (List.append_nil _).symm, rfl⟩

theorem Placed.trans (h : Placed processUri instanceUri elementId uris added targets w w')
    (h' : Placed processUri instanceUri elementId uris' added' targets' w' w'')
    (hapart : ∀ uri ∈ uris, uri ∉ uris' ∧ uri ≠ instanceUri) :
    Placed processUri instanceUri elementId (uris ++ uris') (added ++ added') (targets ++ targets')
      w w'' where
  stands := by
    refine List.rel_append ?_ h'.stands
    refine (List.forall₂_iff_get.mpr ⟨h.stands.length_eq, fun i hi hi' => ?_⟩)
    obtain ⟨hnot, hinstance⟩ := hapart _ (List.get_mem uris ⟨i, hi⟩)
    rw [h'.kept _ hnot hinstance]
    exact h.stands.get hi hi'
  tokens := by rw [h'.tokens, h.tokens, List.append_assoc]
  kept := fun uri hnot hinstance => by
    rw [List.mem_append, not_or] at hnot
    rw [h'.kept uri hnot.2 hinstance, h.kept uri hnot.1 hinstance]
  announced := by
    obtain ⟨new, hnew, huris⟩ := h.announced
    obtain ⟨new', hnew', huris'⟩ := h'.announced
    refine ⟨new ++ new', by rw [hnew', hnew, List.append_assoc], ?_⟩
    rw [announcedUris, List.filter_append, List.map_append]
    exact congrArg₂ _ huris huris'

theorem tokensOf_of_lookup {obj : IndividualObj} (h : w.individuals.lookup instanceUri = some obj) :
    tokensOf w instanceUri =
      ((obj.resources.lookup "bpmn:hasToken").getD []).map fun r => literalOf r.value := by
  rw [tokensOf, h, Option.bind_some, IndividualObj.literals]
  cases obj.resources.lookup "bpmn:hasToken" <;> rfl

theorem placed_put {uri : String} (huri : uri ≠ instanceUri) (target : String) :
    Placed processUri instanceUri elementId [uri] [] [target] w
      (w.put .put "go-prepare" (newToken uri processUri instanceUri elementId target)) where
  stands := .cons (lookup_put_self ..) .nil
  tokens := by
    rw [List.append_nil, tokensOf, lookup_put_ne _ _ _ huri.symm, tokensOf]
  kept := fun uri' hnot _ => lookup_put_ne _ _ _ fun huri' => hnot (List.mem_singleton.mpr huri')
  announced := ⟨_, rfl, rfl⟩

theorem placed_addToken (h : Room sv instanceUri w) (target : String) :
    ∃ w' w₁, createTokenAndStore sv none processUri instanceUri elementId target w =
        .ok (sv.newUri "wd:tk_" w.made) w₁ ∧
      addAndStoreTokenInto sv instanceUri (sv.newUri "wd:tk_" w.made) w₁ = .ok () w' ∧
      Placed processUri instanceUri elementId [sv.newUri "wd:tk_" w.made]
        [sv.newUri "wd:tk_" w.made] [target] w w' ∧
      w'.made = w.made + 1 ∧ Room sv instanceUri w' := by
  set uri := sv.newUri "wd:tk_" w.made with huri
  have hfresh := h.fresh w.made le_rfl
  rw [← huri, List.mem_cons, not_or] at hfresh
  obtain ⟨hne, hnot⟩ := hfresh
  set w₁ := World.put { w with made := w.made + 1 } .put "go-prepare"
    (newToken uri processUri instanceUri elementId target) with hw₁
  obtain ⟨prev, hprev, hempty⟩ := h.instanceStored
  have hprev₁ : w₁.individuals.lookup instanceUri = some prev :=
    (lookup_put_ne _ .put "go-prepare" (Ne.symm hne)).trans hprev
  obtain ⟨state, hstateUri, hadd, hstate⟩ := addAndStoreTokenInto_eq sv hprev₁ hempty uri
  -- The values of the process instance have no link to the new token, so it is put behind them.
  have hids := tokensOf_of_lookup hprev
  set rs := (prev.resources.lookup "bpmn:hasToken").getD []
  have happend : IndividualObj.pushUnique rs [⟨.uri, .uri uri, 0⟩] =
      rs ++ [⟨.uri, .uri uri, 0⟩] := by
    rw [IndividualObj.pushUnique, List.foldl_cons, List.foldl_nil, if_neg]
    rw [List.any_eq_true]
    rintro ⟨r, hr, hcontent⟩
    have hvalue : r.value = .uri uri := congrArg Prod.snd (of_decide_eq_true hcontent)
    exact hnot (hids ▸ List.mem_map.mpr ⟨r, hr, by rw [hvalue]; rfl⟩)
  rw [happend] at hstate
  set w₂ := w₁.put .put "store-token-into" state with hw₂
  have htokens : tokensOf w₂ instanceUri = tokensOf w instanceUri ++ [uri] := by
    have hlookup : w₂.individuals.lookup instanceUri = some state := by
      rw [← hstateUri]
      exact lookup_put_self ..
    rw [tokensOf_of_lookup hlookup, hstate, Option.getD_some, List.map_append, hids]
    rfl
  have hother : ∀ uri', uri' ≠ instanceUri →
      w₂.individuals.lookup uri' = w₁.individuals.lookup uri' := fun uri' huri' =>
    lookup_put_ne _ _ _ (by rwa [hstateUri])
  refine ⟨w₂, w₁, rfl, hadd, ⟨.cons ?_ .nil, htokens, fun uri' hnot' hinstance => ?_, ?_⟩, rfl,
    ⟨h.unique, fun n hn hmem => ?_, state, ?_, isEmpty_of_lookup hstate⟩⟩
  · rw [hother _ hne]
    exact lookup_put_self ..
  · rw [hother _ hinstance]
    exact lookup_put_ne _ _ _ fun huri' => hnot' (List.mem_singleton.mpr huri')
  · exact ⟨_, List.append_assoc .., rfl⟩
  · rw [htokens, List.mem_cons, List.mem_append, List.mem_singleton, ← or_assoc] at hmem
    rcases hmem with hmem | hmem
    · exact h.fresh n (Nat.le_of_succ_le hn) (List.mem_cons.mpr hmem)
    · exact absurd (h.unique _ _ hmem) (Nat.ne_of_gt hn)
  · rw [← hstateUri]
    exact lookup_put_self ..

theorem mem_newUris {n k : ℕ} {uri : String} :
    uri ∈ newUris sv n k ↔ ∃ m, n ≤ m ∧ m < n + k ∧ sv.newUri "wd:tk_" m = uri := by
  simp only [newUris, List.mem_map, List.mem_range'_1, and_assoc]

variable (processUri elementId targets) in
theorem placed_forwardEach_none (h : Room sv instanceUri w) :
    ∃ w', forwardEach sv processUri instanceUri elementId targets none w = .ok () w' ∧
      Placed processUri instanceUri elementId (newUris sv w.made targets.length)
        (newUris sv w.made targets.length) targets w w' := by
  induction targets generalizing w with
  | nil => exact ⟨w, rfl, .refl w⟩
  | cons target targets ih =>
    obtain ⟨w₂, w₁, hcreate, hadd, hplaced, hmade, hroom⟩ := placed_addToken h target
    obtain ⟨w', hrest, hplaced'⟩ := ih hroom
    refine ⟨w', ?_, ?_⟩
    · rw [forwardEach, run_bind_of_ok _ hcreate, if_pos rfl, run_bind_of_ok _ hadd]
      exact hrest
    · rw [hmade] at hplaced'
      refine hplaced.trans hplaced' fun uri huri => ?_
      obtain rfl := List.mem_singleton.mp huri
      refine ⟨fun hmem => ?_, fun heq => h.fresh _ le_rfl (heq ▸ List.mem_cons_self)⟩
      obtain ⟨m, hm, -, heq⟩ := mem_newUris.mp hmem
      exact absurd (h.unique _ _ heq) (Nat.ne_of_gt hm)

variable (processUri elementId targets) in
/-- **The tokens that are made**: the token itself goes to the first target, and a new one to every
other. -/
theorem placed_forwardEach {tokenUri : String} (h : Room sv instanceUri w)
    (hne : tokenUri ≠ instanceUri) (htoken : ∀ n, w.made ≤ n → sv.newUri "wd:tk_" n ≠ tokenUri) :
    ∃ w', forwardEach sv processUri instanceUri elementId targets (some tokenUri) w = .ok () w' ∧
      Placed processUri instanceUri elementId (tokenUris sv tokenUri w.made targets.length)
        (tokenUris sv tokenUri w.made targets.length).tail targets w w' := by
  cases targets with
  | nil => exact ⟨w, rfl, .refl w⟩
  | cons target targets =>
    set w₁ := w.put .put "go-prepare" (newToken tokenUri processUri instanceUri elementId target)
      with hw₁
    have hplaced : Placed processUri instanceUri elementId [tokenUri] [] [target] w w₁ :=
      placed_put hne target
    have hroom : Room sv instanceUri w₁ := by
      refine ⟨h.unique, fun n hn hmem => h.fresh n hn ?_, ?_⟩
      · rwa [hplaced.tokens, List.append_nil] at hmem
      · rw [hw₁, lookup_put_ne _ _ _ (Ne.symm hne)]
        exact h.instanceStored
    obtain ⟨w', hrest, hplaced'⟩ := placed_forwardEach_none processUri elementId targets hroom
    refine ⟨w', ?_, hplaced.trans hplaced' fun uri huri => ?_⟩
    · have hcreate : createTokenAndStore sv (some tokenUri) processUri instanceUri elementId target
          w = .ok tokenUri w₁ := rfl
      rw [forwardEach, run_bind_of_ok _ hcreate, if_neg (by simp)]
      exact hrest
    · obtain rfl := List.mem_singleton.mp huri
      refine ⟨fun hmem => ?_, hne⟩
      obtain ⟨m, hm, -, heq⟩ := mem_newUris.mp hmem
      exact htoken m hm heq

theorem length_tokenUris (tokenUri : String) (made k : ℕ) :
    (tokenUris sv tokenUri made k).length = k := by
  cases k with
  | zero => rfl
  | succ k => simp [tokenUris, newUris]

theorem Placed.length_eq (h : Placed processUri instanceUri elementId uris added targets w w')
    (h' : Placed processUri instanceUri elementId uris' added' targets' w w') :
    uris.length = uris'.length := by
  obtain ⟨new, hnew, huris⟩ := h.announced
  obtain ⟨new', hnew', huris'⟩ := h'.announced
  obtain rfl := List.append_cancel_left (hnew.symm.trans hnew')
  rw [← huris, huris']

end Tokens

/-! ## The way along the flows -/

section Along

variable (sv : Services) (results : Script → Option Bool)

/-- The element to which a flow leads. -/
def targetOf (nt : IndexedNodeTree) (id : String) : String :=
  let flow := (nt.getIdxOfId id).toOption
  (flow.bind fun flow => (flow.getAttribute "targetRef").toOption).getD ""

/-- The condition of a flow holds, or there is none. A script that gives no truth value counts as
none. -/
def conditionHolds (token process : IndividualObj) (nt : IndexedNodeTree)
    (processUri elementId id : String) : Bool :=
  let flow := (nt.getIdxOfId id).toOption
  let text := flow.bind fun flow => (flow.getValuesOfTag "bpmn:conditionExpression").head?
  (text.bind fun text =>
    results { id := processUri ++ "+" ++ elementId ++ "+" ++ id, text, token, process }).getD true

/-- A flow of the process leads to an element. -/
def IsFlow (nt : IndexedNodeTree) (id : String) : Prop :=
  ∃ flow target, nt.getIdxOfId id = .ok flow ∧ flow.getAttribute "targetRef" = .ok target

/-- **The loop along the flows** goes to the targets of those that it takes. -/
theorem forwardAlong_eq {token process : IndividualObj} {nt : IndexedNodeTree}
    {processUri instanceUri elementId type : String} {ids : List String}
    (h : ∀ id ∈ ids, IsFlow nt id) (prevTokenUri : Option String) :
    forwardAlong (sv.withResults results) token process nt processUri instanceUri elementId type ids
        prevTokenUri =
      forwardEach (sv.withResults results) processUri instanceUri elementId
        ((takenFlows type (conditionHolds results token process nt processUri elementId) ids).map
          (targetOf nt)) prevTokenUri := by
  induction ids generalizing prevTokenUri with
  | nil => rfl
  | cons id ids ih =>
    obtain ⟨flow, target, hflow, htarget⟩ := h id List.mem_cons_self
    have hpasses : ∀ w, isForward (sv.withResults results) token process
        (processUri ++ "+" ++ elementId ++ "+" ++ id) flow w =
          conditionHolds results token process nt processUri elementId id := by
      intro w
      rw [conditionHolds, hflow]
      rfl
    have htargetOf : targetOf nt id = target := by
      rw [targetOf, hflow]
      simp [Except.toOption, htarget]
    have ih := fun prev => ih (fun id hid => h id (List.mem_cons_of_mem _ hid)) prev
    rw [forwardAlong, hflow, takenFlows]
    simp only [orStop, pure_bind, hpasses, forwardOver, htarget]
    funext w
    cases hpass : conditionHolds results token process nt processUri elementId id with
    | false =>
      rw [run_get_bind]
      simp only [ih]
      rfl
    | true =>
      rw [run_get_bind]
      simp only [ih, if_true, bind_assoc]
      by_cases htype : type = "bpmn:exclusiveGateway"
      · simp only [if_pos htype, List.map_cons, List.map_nil, htargetOf, forwardEach]
        cases prevTokenUri <;> simp
      · simp only [if_neg htype, List.map_cons, htargetOf, forwardEach]
        cases prevTokenUri <;> simp

variable {sv results}

/-- **A token stands at an element**: its process can be read, its process instance is stored, and
all flows of the element lead to some element. -/
structure AtElement (sv : Services) (token process : IndividualObj) (nt : IndexedNodeTree)
    (element : XNode) (processUri instanceUri elementId : String) (w : World) : Prop where
  hasProcess : token.firstLiteral "bpmn:hasProcess" = some processUri
  hasInstance : token.firstLiteral "bpmn:hasProcessInstance" = some instanceUri
  hasElement : token.firstLiteral "bpmn:elementId" = some elementId
  processStored : processUri ≠ "" ∧ w.individuals.lookup processUri = some process
  source : sv.processSource process = .ok nt
  node : nt.getIdxOfId elementId = .ok element
  flows : ∀ id ∈ outgoingOf element, IsFlow nt id
  room : Room sv instanceUri w
  apart : token.uri ≠ instanceUri ∧ ∀ n, w.made ≤ n → sv.newUri "wd:tk_" n ≠ token.uri

/-- The token goes over some flows: on the target of each stands one token, the first one being the
token itself and the others new ones that are added to the process instance. -/
def GoesOver (sv : Services) (token : IndividualObj) (nt : IndexedNodeTree)
    (processUri instanceUri elementId : String) (flows : List String) (w w' : World) : Prop :=
  Placed processUri instanceUri elementId (tokenUris sv token.uri w.made flows.length)
    (tokenUris sv token.uri w.made flows.length).tail (flows.map (targetOf nt)) w w'

variable {token process : IndividualObj} {nt : IndexedNodeTree} {element : XNode}
  {processUri instanceUri elementId : String} {w : World}

variable (results) in
theorem goesOver_forwardToken
    (h : AtElement sv token process nt element processUri instanceUri elementId w) :
    ∃ w', forwardToken (sv.withResults results) token w = .ok () w' ∧
      GoesOver sv token nt processUri instanceUri elementId
        (takenFlows element.tag (conditionHolds results token process nt processUri elementId)
          (outgoingOf element)) w w' := by
  set flows := takenFlows element.tag
    (conditionHolds results token process nt processUri elementId) (outgoingOf element)
  have hroom : Room (sv.withResults results) instanceUri w :=
    ⟨h.room.unique, h.room.fresh, h.room.instanceStored⟩
  obtain ⟨w', hrun, hplaced⟩ := placed_forwardEach processUri elementId
    (flows.map (targetOf nt)) hroom h.apart.1 h.apart.2
  refine ⟨w', ?_, ?_⟩
  · have hsource : (sv.withResults results).processSource process = .ok nt := h.source
    unfold forwardToken
    rw [IndividualObj.literalOrEmpty, IndividualObj.literalOrEmpty, h.hasProcess, h.hasInstance]
    dsimp only [Option.getD_some]
    rw [run_bind_of_ok _ (getIndividual_of_lookup h.processStored.1 h.processStored.2), hsource,
      run_bind_of_ok _ (show orStop (.ok nt) w = .ok nt w from rfl), h.hasElement]
    dsimp only
    rw [h.node, run_bind_of_ok _ (show orStop (.ok element) w = .ok element w from rfl),
      forwardAlong_eq sv results h.flows, hrun]
  · rw [List.length_map] at hplaced
    exact hplaced

/-- **The next element follows the conditions** exactly when the condition of the default flow holds
where no other flow is taken, and does not hold where others are, unless the element is an exclusive
gateway.

**Proof sketch.** The loop takes the flows whose conditions hold, with the default flow as the last
one, and makes one token for each of them. Under the condition these are the proper flows, otherwise
they are one fewer or one more, and so are the tokens that are announced. -/
theorem forwardsProperly_iff
    (h : AtElement sv token process nt element processUri instanceUri elementId w) :
    (∃ w', forwardToken (sv.withResults results) token w = .ok () w' ∧
      GoesOver sv token nt processUri instanceUri elementId
        (properFlows element.tag (conditionHolds results token process nt processUri elementId)
          (otherFlowsOf element) (defaultFlowOf element)) w w') ↔
    DefaultFits element.tag (conditionHolds results token process nt processUri elementId)
      (otherFlowsOf element) (defaultFlowOf element) := by
  obtain ⟨w', hrun, hgoes⟩ := goesOver_forwardToken results h
  rw [outgoingOf_eq] at hgoes
  constructor
  · rintro ⟨w'', hrun', hproper⟩
    obtain rfl : w' = w'' := by
      have heq := hrun.symm.trans hrun'
      cases heq
      rfl
    by_contra hfits
    refine length_takenFlows_ne hfits ?_
    have hlength := Placed.length_eq hgoes hproper
    rwa [length_tokenUris, length_tokenUris] at hlength
  · intro hfits
    rw [takenFlows_of_defaultFits hfits] at hgoes
    exact ⟨w', hrun, hgoes⟩

end Along

/-! ## A task with a default flow -/

/-- A flow to an element. -/
def choiceFlow (id target : String) : XNode :=
  .mk id "bpmn:sequenceFlow" ((∅ : HashMap String String).insert "targetRef" target) []

/-- A flow that leaves an element. -/
def leavingFlow (id : String) : XNode :=
  .mk "" "bpmn:outgoing" ((∅ : HashMap String String).insert "value" id) []

/-- An element with two outgoing flows, one of them the default. -/
def choiceNode (type : String) : XNode :=
  .mk "choice" type ((∅ : HashMap String String).insert "default" "flow2")
    [leavingFlow "flow1", leavingFlow "flow2"]

/-- The process of the element. -/
def choiceTree (type : String) : IndexedNodeTree where
  id := "d:process"
  id2nodeId := (((∅ : HashMap String XNode).insert "choice" (choiceNode type)).insert "flow1"
    (choiceFlow "flow1" "first")).insert "flow2" (choiceFlow "flow2" "second")

/-- The token at the element. -/
def choiceToken : IndividualObj := newToken "d:one" "d:process" "d:instance" "start" "choice"

/-- The process. -/
def choiceProcess : IndividualObj :=
  (IndividualObj.empty.setId "d:process").addUri "rdf:type" "bpmn:Process"

/-- The world with the process, a process instance and its token. -/
def choiceWorld : World :=
  .of [choiceToken, choiceProcess,
    (IndividualObj.empty.setId "d:instance").addUri "bpmn:hasToken" "d:one"]

theorem toList_newUri_countingServices (nt : IndexedNodeTree) (start : String) (n : ℕ) :
    ((countingServices nt []).newUri start n).toList = start.toList ++ List.replicate n 'a' := by
  simp [countingServices]

theorem newUri_countingServices_ne (nt : IndexedNodeTree) (n : ℕ) {uri : String}
    (huri : uri.toList.head? = some 'd') : (countingServices nt []).newUri "wd:tk_" n ≠ uri := by
  rintro rfl
  rw [toList_newUri_countingServices] at huri
  exact absurd (Option.some.inj huri) (by decide)

theorem atElement_choiceWorld (type : String) :
    AtElement (countingServices (choiceTree type) []) choiceToken choiceProcess (choiceTree type)
      (choiceNode type) "d:process" "d:instance" "choice" choiceWorld where
  hasProcess := rfl
  hasInstance := rfl
  hasElement := rfl
  processStored := ⟨by decide, rfl⟩
  source := rfl
  node := rfl
  flows := by
    have hout : outgoingOf (choiceNode type) = ["flow1", "flow2"] := rfl
    rw [hout]
    intro id hid
    rcases List.mem_cons.mp hid with rfl | hid
    · exact ⟨choiceFlow "flow1" "first", "first", rfl, rfl⟩
    · rw [List.mem_singleton.mp hid]
      exact ⟨choiceFlow "flow2" "second", "second", rfl, rfl⟩
  room := by
    refine ⟨fun m n heq => ?_, fun n _ hmem => ?_, _, rfl, rfl⟩
    · have hlist := congrArg String.toList heq
      rw [toList_newUri_countingServices, toList_newUri_countingServices] at hlist
      simpa using congrArg List.length (List.append_cancel_left hlist)
    · have htokens : tokensOf choiceWorld "d:instance" = ["d:one"] := rfl
      rw [htokens, List.mem_cons, List.mem_singleton] at hmem
      exact hmem.elim (newUri_countingServices_ne _ n rfl) (newUri_countingServices_ne _ n rfl)
  apart := ⟨by decide, fun n _ => newUri_countingServices_ne _ n rfl⟩

/-- A gateway with a default flow takes the other flow alone. -/
theorem forwardsProperly_gateway :
    (∃ w', forwardToken ((countingServices (choiceTree "bpmn:exclusiveGateway") []).withResults
        fun _ => none) choiceToken choiceWorld = .ok () w' ∧
      GoesOver (countingServices (choiceTree "bpmn:exclusiveGateway") []) choiceToken
        (choiceTree "bpmn:exclusiveGateway") "d:process" "d:instance" "choice"
        (properFlows (choiceNode "bpmn:exclusiveGateway").tag (conditionHolds (fun _ => none)
          choiceToken choiceProcess (choiceTree "bpmn:exclusiveGateway") "d:process" "choice")
          (otherFlowsOf (choiceNode "bpmn:exclusiveGateway"))
          (defaultFlowOf (choiceNode "bpmn:exclusiveGateway"))) choiceWorld w') ↔
    DefaultFits (choiceNode "bpmn:exclusiveGateway").tag (conditionHolds (fun _ => none) choiceToken
      choiceProcess (choiceTree "bpmn:exclusiveGateway") "d:process" "choice")
      (otherFlowsOf (choiceNode "bpmn:exclusiveGateway"))
      (defaultFlowOf (choiceNode "bpmn:exclusiveGateway")) :=
  forwardsProperly_iff (atElement_choiceWorld _)

/-- A task whose other flow has no condition is left over its default flow too. -/
theorem not_forwardsProperly_default :
    AtElement (countingServices (choiceTree "bpmn:task") []) choiceToken choiceProcess
        (choiceTree "bpmn:task") (choiceNode "bpmn:task") "d:process" "d:instance" "choice"
        choiceWorld ∧
    ¬ ∃ w', forwardToken ((countingServices (choiceTree "bpmn:task") []).withResults fun _ => none)
        choiceToken choiceWorld = .ok () w' ∧
      GoesOver (countingServices (choiceTree "bpmn:task") []) choiceToken (choiceTree "bpmn:task")
        "d:process" "d:instance" "choice"
        (properFlows (choiceNode "bpmn:task").tag (conditionHolds (fun _ => none) choiceToken
          choiceProcess (choiceTree "bpmn:task") "d:process" "choice")
          (otherFlowsOf (choiceNode "bpmn:task")) (defaultFlowOf (choiceNode "bpmn:task")))
        choiceWorld w' := by
  refine ⟨atElement_choiceWorld _, ?_⟩
  rintro ⟨w', hrun, hproper⟩
  have hwrong : ∃ w', forwardToken ((countingServices (choiceTree "bpmn:task") []).withResults
      fun _ => none) choiceToken choiceWorld = .ok () w' ∧
        announcedUris w'.queue = ["d:one", "wd:tk_"] := ⟨_, rfl, by decide +kernel⟩
  obtain ⟨w'', hrun', huris⟩ := hwrong
  obtain rfl : w' = w'' := by
    have heq := hrun.symm.trans hrun'
    cases heq
    rfl
  obtain ⟨new, hnew, hannounced⟩ := hproper.announced
  obtain rfl : new = w'.queue := hnew.symm
  rw [huris] at hannounced
  exact absurd (congrArg List.length hannounced) (by decide)

end Veda.NanoBpmn
