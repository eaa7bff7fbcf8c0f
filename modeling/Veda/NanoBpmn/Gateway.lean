import Veda.NanoBpmn.Commands

set_option autoImplicit false

/-!
# Parallel gateways

A parallel gateway counts the tokens of its process instance that stand at it. When there are as many
as it has incoming flows, it forwards the one that arrives and removes all others at it, wherever they
came from; the tokens at other elements stay. Nothing is kept of the flow over which a token came but
the element before, which the gateway does not read.

## Main definitions

* `NanoBpmn.standingAt`, `NanoBpmn.elsewhere` — the tokens at an element, and the others.
* `NanoBpmn.Arrival` — what a token finds that arrives.
* `NanoBpmn.Joins` — what a gateway does.
* `NanoBpmn.Synchronises` — what a join does that waits for every flow.

## Main results

* `NanoBpmn.splitTokens_eq`, `NanoBpmn.lookup_removed` — the parts of the program.
* `NanoBpmn.joins_tokenIngoingToParallelGateway` — a gateway joins when enough tokens stand at it.
* `NanoBpmn.not_synchronises` — two tokens over one flow are joined.
-/

namespace Veda.NanoBpmn

open Veda.Lib Veda.Onto
open Veda.Mstorage (IndvOp indvApplyCmd lookup_indvApplyCmd isEmpty_of_lookup)

/-! ## Tokens -/

/-- The tokens of a list that stand at an element, without the one that arrives. -/
def standingAt (w : World) (elementId arriving : String) (tokenIds : List String) :
    List IndividualObj :=
  tokenIds.filterMap fun id =>
    if id = arriving then none
    else (w.individuals.lookup id).filter fun t => t.firstLiteral "bpmn:elementId" = some elementId

/-- The tokens of a list that stand at other elements, without the one that arrives. -/
def elsewhere (w : World) (elementId arriving : String) (tokenIds : List String) : List String :=
  tokenIds.filter fun id => id ≠ arriving ∧
    (w.individuals.lookup id).any fun t =>
      (t.firstLiteral "bpmn:elementId").any fun e => e ≠ elementId

/-- The tokens of a process instance. -/
def tokensOf (w : World) (instanceUri : String) : List String :=
  ((w.individuals.lookup instanceUri).bind fun obj => obj.literals "bpmn:hasToken").getD []

/-- A token is forwarded: it is announced as completed. -/
def Forwarded (w w' : World) (tokenUri : String) : Prop :=
  ∃ m ∈ w'.queue.drop w.queue.length, m.src = "go-prepare" ∧ m.newState.uri = tokenUri ∧
    isExistsBool m.newState "bpmn:isCompleted" true = true

/-- A token arrives at a parallel gateway: it stands there, all tokens of the process instance are
stored, and the process instance is none of them. -/
structure Arrival (nt : IndexedNodeTree) (element : XNode) (elementId : String)
    (token processInstance : IndividualObj) (tokenIds : List String) (w : World) : Prop where
  element : nt.getIdxOfId elementId = .ok element
  instanceStored : w.individuals.lookup processInstance.uri = some processInstance
  tokens : processInstance.literals "bpmn:hasToken" = some tokenIds
  arriving : token.uri ≠ "" ∧ ∃ t, w.individuals.lookup token.uri = some t ∧
    t.firstLiteral "bpmn:elementId" = some elementId
  stored : ∀ id ∈ tokenIds, id ≠ "" ∧ ∃ t, w.individuals.lookup id = some t
  apart : processInstance.uri ∉ token.uri :: tokenIds

/-- **What a parallel gateway does.** When the tokens at it are as many as its incoming flows, it
forwards the one that arrives, removes the others at it, and keeps those at other elements; else it
changes nothing. -/
structure Joins (element : XNode) (elementId : String) (token processInstance : IndividualObj)
    (tokenIds : List String) (w w' : World) : Prop where
  forwards : Forwarded w w' token.uri ↔ (element.getValuesOfTag "bpmn:incoming").length ≤
    (standingAt w elementId token.uri tokenIds).length + 1
  tokens : Forwarded w w' token.uri →
    tokensOf w' processInstance.uri = token.uri :: elsewhere w elementId token.uri tokenIds
  removed : Forwarded w w' token.uri → ∀ t ∈ standingAt w elementId token.uri tokenIds,
    w'.individuals.lookup t.uri = none
  kept : Forwarded w w' token.uri → ∀ uri, uri ≠ token.uri → uri ≠ processInstance.uri →
    uri ∉ (standingAt w elementId token.uri tokenIds).map IndividualObj.uri →
      w'.individuals.lookup uri = w.individuals.lookup uri
  waits : ¬Forwarded w w' token.uri → w' = w

/-- A token came over a flow: it was before at the element from which the flow comes. -/
def CameOver (nt : IndexedNodeTree) (flow : String) (token : IndividualObj) : Prop :=
  ∃ node source, nt.getIdxOfId flow = .ok node ∧ node.getAttribute "sourceRef" = .ok source ∧
    token.firstLiteral "bpmn:inElementId" = some source

/-- A join that waits for one token over every flow, consumes these and keeps all others. -/
structure Synchronises (nt : IndexedNodeTree) (element : XNode) (elementId : String)
    (token processInstance : IndividualObj) (tokenIds : List String) (w w' : World) : Prop where
  forwards : Forwarded w w' token.uri ↔ ∀ flow ∈ element.getValuesOfTag "bpmn:incoming",
    ∃ t, (w.individuals.lookup token.uri = some t ∨ t ∈ standingAt w elementId token.uri tokenIds) ∧
      CameOver nt flow t
  consumes : Forwarded w w' token.uri → ∃ consumed : List IndividualObj,
    (consumed.map IndividualObj.uri).Nodup ∧
    List.Forall₂ (CameOver nt) (element.getValuesOfTag "bpmn:incoming") consumed ∧
    (∀ t ∈ consumed, t.uri = token.uri ∨ t ∈ standingAt w elementId token.uri tokenIds) ∧
    ∀ id ∈ tokenIds, id ∈ tokensOf w' processInstance.uri ↔
      id = token.uri ∨ id ∉ consumed.map IndividualObj.uri
  waits : ¬Forwarded w w' token.uri → tokensOf w' processInstance.uri = tokenIds

/-! ## The parts of the program -/

section Parts

variable (sv : Services) {w w' : World} {elementId arriving : String}

theorem splitTokens_eq {tokenIds : List String}
    (h : ∀ id ∈ tokenIds, id ≠ "" ∧ ∃ t, w.individuals.lookup id = some t) :
    splitTokens arriving elementId tokenIds w =
      .ok (standingAt w elementId arriving tokenIds, elsewhere w elementId arriving tokenIds) w := by
  induction tokenIds with
  | nil => rfl
  | cons id ids ih =>
    have hrest := ih fun id hid => h id (List.mem_cons_of_mem _ hid)
    obtain ⟨hne, t, hlookup⟩ := h id List.mem_cons_self
    unfold splitTokens
    by_cases hid : id = arriving
    · rw [if_pos hid, hrest]
      simp [standingAt, elsewhere, hid]
    · rw [if_neg hid, run_bind_of_ok _ (getIndividual_of_lookup hne hlookup),
        run_bind_of_ok _ hrest]
      cases helement : t.firstLiteral "bpmn:elementId" with
      | none =>
        have hstands : standingAt w elementId arriving (id :: ids) =
            standingAt w elementId arriving ids := by
          simp [standingAt, hid, hlookup, helement]
        have hother : elsewhere w elementId arriving (id :: ids) =
            elsewhere w elementId arriving ids := by
          simp [elsewhere, hlookup, helement]
        rw [hstands, hother]
        rfl
      | some e =>
        by_cases he : e = elementId
        · have hstands : standingAt w elementId arriving (id :: ids) =
              t :: standingAt w elementId arriving ids := by
            simp [standingAt, hid, hlookup, helement, he, Option.filter]
          have hother : elsewhere w elementId arriving (id :: ids) =
              elsewhere w elementId arriving ids := by
            simp [elsewhere, hlookup, helement, he]
          rw [hstands, hother]
          dsimp only
          rw [if_pos he]
          rfl
        · have hstands : standingAt w elementId arriving (id :: ids) =
              standingAt w elementId arriving ids := by
            simp [standingAt, hid, hlookup, helement, he, Option.filter]
          have hother : elsewhere w elementId arriving (id :: ids) =
              id :: elsewhere w elementId arriving ids := by
            simp [elsewhere, hid, hlookup, helement, he]
          rw [hstands, hother]
          dsimp only
          rw [if_neg he]
          rfl

/-- The world after some tokens were removed. -/
def removed (w : World) (tokens : List IndividualObj) : World :=
  tokens.foldl (fun w t => w.remove "" t) w

theorem removeTokens_eq (tokens : List IndividualObj) (w : World) :
    removeTokens sv tokens w = .ok () (removed w tokens) := by
  induction tokens generalizing w with
  | nil => rfl
  | cons t tokens ih =>
    unfold removeTokens
    rw [run_bind_of_ok _ (show update sv "" .remove t w = .ok () (w.remove "" t) from rfl), ih]
    rfl

theorem lookup_removed (tokens : List IndividualObj) (w : World) (uri : String) :
    (removed w tokens).individuals.lookup uri =
      if uri ∈ tokens.map IndividualObj.uri then none else w.individuals.lookup uri := by
  induction tokens generalizing w with
  | nil => rfl
  | cons t tokens ih =>
    change (removed (w.remove "" t) tokens).individuals.lookup uri = _
    rw [ih]
    by_cases hrest : uri ∈ tokens.map IndividualObj.uri
    · rw [if_pos hrest, List.map_cons, if_pos (List.mem_cons_of_mem _ hrest)]
    · rw [if_neg hrest]
      by_cases huri : uri = t.uri
      · rw [if_pos (by simp [huri]), huri]
        exact AList.lookup_erase ..
      · rw [if_neg (by simpa [huri] using hrest)]
        exact AList.lookup_erase_ne huri

theorem queue_removed (tokens : List IndividualObj) (w : World) :
    ∃ new, (removed w tokens).queue = w.queue ++ new := by
  induction tokens generalizing w with
  | nil => exact ⟨[], (List.append_nil _).symm⟩
  | cons t tokens ih =>
    obtain ⟨new, hnew⟩ := ih (w.remove "" t)
    exact ⟨_, hnew.trans (List.append_assoc ..)⟩

theorem literals_links (uris : List String) (obj : IndividualObj) (p : String)
    (hne : uris ≠ [] ∨ (obj.resources.lookup p).isSome) :
    (uris.foldl (fun obj u => obj.addUri p u) obj).literals p =
      some ((obj.literals p).getD [] ++ uris) := by
  induction uris generalizing obj with
  | nil =>
    obtain ⟨rs, hrs⟩ := Option.isSome_iff_exists.mp (hne.resolve_left fun h => h rfl)
    simp [IndividualObj.literals, hrs]
  | cons u uris ih =>
    have hlookup : (obj.addUri p u).resources.lookup p =
        some ((obj.resources.lookup p).getD [] ++
          [⟨.uri, .uri u, UInt16.ofNat ((obj.resources.lookup p).getD []).length⟩]) := by
      rw [IndividualObj.addUri, IndividualObj.lookup_addValue, if_pos rfl]
    rw [List.foldl_cons, ih _ (.inr (by rw [hlookup]; rfl))]
    have hliterals : (obj.addUri p u).literals p = some ((obj.literals p).getD [] ++ [u]) := by
      rw [IndividualObj.literals, hlookup, IndividualObj.literals]
      cases obj.resources.lookup p <;> simp [literalOf]
    rw [hliterals, Option.getD_some, List.append_assoc]
    rfl

theorem tokensOf_setAndStoreTokenInto {uri : String} {tokenUris : List String}
    (hne : tokenUris ≠ []) {prev : IndividualObj} (hprev : w.individuals.lookup uri = some prev)
    (hempty : prev.isEmpty = false) :
    ∃ state, state.uri = uri ∧
      setAndStoreTokenInto sv uri tokenUris w = .ok () (w.put .put "store-token-into" state) ∧
      state.literals "bpmn:hasToken" = some tokenUris := by
  have hliterals : (tokenUris.foldl (fun indv u => indv.addUri "bpmn:hasToken" u)
      ((IndividualObj.empty.setId uri).remove "bpmn:hasToken")).literals "bpmn:hasToken" =
        some tokenUris := literals_links tokenUris _ _ (.inl hne)
  have huri : ∀ (uris : List String) (obj : IndividualObj),
      (uris.foldl (fun indv u => indv.addUri "bpmn:hasToken" u) obj).uri = obj.uri := by
    intro uris
    induction uris with
    | nil => exact fun _ => rfl
    | cons u uris ih => exact fun obj => ih _
  refine ⟨_, ?_, update_partial sv rfl (by rw [huri]; exact hprev) hempty, ?_⟩
  · rw [uri_indvApplyCmd, w.keyed _ _ hprev]
  · rw [IndividualObj.literals, lookup_setIn _ hempty (by decide)]
    obtain ⟨rs, hrs, hmap⟩ := Option.map_eq_some_iff.mp hliterals
    rw [hrs, Option.some_or, Option.map_some, hmap]

theorem addAndStoreTokenInto_eq {instanceUri : String} {prev : IndividualObj}
    (hprev : w.individuals.lookup instanceUri = some prev) (hempty : prev.isEmpty = false)
    (uri : String) :
    ∃ state, state.uri = instanceUri ∧
      addAndStoreTokenInto sv instanceUri uri w = .ok () (w.put .put "store-token-into" state) ∧
      state.resources.lookup "bpmn:hasToken" = some (IndividualObj.pushUnique
        ((prev.resources.lookup "bpmn:hasToken").getD []) [⟨.uri, .uri uri, 0⟩]) := by
  set indv := (IndividualObj.empty.setId instanceUri).addUri "bpmn:hasToken" uri with hindv
  have hlink : indv.resources.lookup "bpmn:hasToken" = some [⟨.uri, .uri uri, 0⟩] := rfl
  refine ⟨_, (uri_indvApplyCmd ..).trans (w.keyed _ _ hprev), update_partial sv rfl hprev hempty,
    ?_⟩
  rw [lookup_indvApplyCmd .addTo _ _ hempty]
  unfold Mstorage.applyPredicate
  rw [if_neg (by decide), hlink]
  exact AList.lookup_insert ..

end Parts

/-! ## What a parallel gateway does -/

section Join

variable (sv : Services) {w : World} {elementId processUri : String} {nt : IndexedNodeTree}
  {element : XNode} {token processInstance : IndividualObj} {tokenIds : List String}

theorem checkTokensOfActivity_of_ne {activityId id : String} {ids : List String}
    {t : IndividualObj} (hid : id ≠ "") (ht : w.individuals.lookup id = some t)
    (helement : t.firstLiteral "bpmn:elementId" = some elementId) (hne : elementId ≠ activityId) :
    checkTokensOfActivity activityId none (id :: ids) w = .ok false w := by
  unfold checkTokensOfActivity
  rw [if_neg (by simp), run_bind_of_ok _ (getIndividual_of_lookup hid ht), helement]
  dsimp only
  rw [if_pos hne]
  rfl

theorem mem_standingAt {arriving : String} {t : IndividualObj}
    (h : t ∈ standingAt w elementId arriving tokenIds) : t.uri ∈ tokenIds ∧ t.uri ≠ arriving := by
  obtain ⟨id, hid, h⟩ := List.mem_filterMap.mp h
  split_ifs at h with harriving
  obtain ⟨hlookup, -⟩ := Option.filter_eq_some_iff.mp h
  rw [w.keyed id t hlookup]
  exact ⟨hid, harriving⟩

/-- **A parallel gateway** joins the tokens that stand at it when they are as many as its incoming
flows, and else changes nothing. -/
theorem joins_tokenIngoingToParallelGateway
    (h : Arrival nt element elementId token processInstance tokenIds w)
    (helement : elementId ≠ "bpmn:endEvent") :
    ∃ w', tokenIngoingToParallelGateway sv token elementId processUri processInstance nt w =
        .ok () w' ∧
      Joins element elementId token processInstance tokenIds w w' := by
  obtain ⟨hid, t, ht, htelement⟩ := h.arriving
  have htempty := isEmpty_of_firstLiteral htelement
  have hturi := w.keyed _ _ ht
  set waiting := standingAt w elementId token.uri tokenIds with hwaiting
  have hnever : ∀ w : World, ¬Forwarded w w token.uri := by
    rintro w ⟨m, hm, -⟩
    rw [List.drop_length] at hm
    cases hm
  by_cases henough : (element.getValuesOfTag "bpmn:incoming").length ≤ waiting.length + 1
  · obtain ⟨prev, hprev, -, hprevUri, hmark⟩ | ⟨hnone, -⟩ :=
      storeIsCompletedInto_cases sv token.uri "go-prepare" w
    swap
    · exact absurd (hnone t ht) (by simp [htempty])
    obtain rfl : t = prev := Option.some.inj (ht.symm.trans hprev)
    have hnotToken : ∀ u ∈ waiting, u.uri ≠ token.uri := fun u hu => (mem_standingAt hu).2
    have hnotInstance : ∀ u ∈ waiting, u.uri ≠ processInstance.uri := fun u hu heq =>
      h.apart (heq ▸ List.mem_cons_of_mem _ (mem_standingAt hu).1)
    have hinstance : processInstance.uri ≠ token.uri := fun heq =>
      h.apart (heq ▸ List.mem_cons_self)
    set w₁ := w.put .put "go-prepare" (completedState sv t) with hw₁
    have hlookup₂ : ∀ uri, uri ∉ waiting.map IndividualObj.uri →
        (removed w₁ waiting).individuals.lookup uri = w₁.individuals.lookup uri :=
      fun uri huri => by rw [lookup_removed, if_neg huri]
    have hother₁ : ∀ uri, uri ≠ token.uri →
        w₁.individuals.lookup uri = w.individuals.lookup uri := fun uri huri =>
      lookup_put_ne w .put _ (by rwa [uri_completedState, hturi])
    have hinstance₂ : (removed w₁ waiting).individuals.lookup processInstance.uri =
        some processInstance := by
      rw [hlookup₂, hother₁ _ hinstance, h.instanceStored]
      intro hmem
      obtain ⟨u, hu, heq⟩ := List.mem_map.mp hmem
      exact hnotInstance u hu heq
    have hinstanceFull : processInstance.isEmpty = false := by
      obtain ⟨rs, hrs, -⟩ := Option.map_eq_some_iff.mp h.tokens
      exact isEmpty_of_lookup hrs
    obtain ⟨state, hstateUri, hset, hstate⟩ := tokensOf_setAndStoreTokenInto sv
      (List.cons_ne_nil token.uri (elsewhere w elementId token.uri tokenIds)) hinstance₂
      hinstanceFull
    set w₃ := (removed w₁ waiting).put .put "store-token-into" state with hw₃
    have hother₃ : ∀ uri, uri ≠ processInstance.uri →
        w₃.individuals.lookup uri = (removed w₁ waiting).individuals.lookup uri := fun uri huri =>
      lookup_put_ne _ .put _ (by rwa [hstateUri])
    have htokenKept : token.uri ∉ waiting.map IndividualObj.uri := by
      intro hmem
      obtain ⟨u, hu, heq⟩ := List.mem_map.mp hmem
      exact hnotToken u hu heq
    have htoken₃ : w₃.individuals.lookup token.uri = some (completedState sv t) := by
      rw [hother₃ _ hinstance.symm, hlookup₂ _ htokenKept, hw₁, ← hturi,
        ← uri_completedState sv t, lookup_put_self]
    have helement₃ : (completedState sv t).firstLiteral "bpmn:elementId" = some elementId :=
      (IndividualObj.firstLiteral_congr (lookup_completedState sv htempty (by decide)
        (by decide))).trans htelement
    have hforwarded : Forwarded w w₃ token.uri := by
      obtain ⟨new, hnew⟩ := queue_removed waiting w₁
      refine ⟨⟨.put, "go-prepare", completedState sv t⟩, ?_, rfl, ?_,
        isExistsBool_completedState sv htempty⟩
      · rw [hw₃, queue_put, hnew, hw₁, queue_put, List.append_assoc, List.append_assoc,
          List.drop_left]
        exact List.mem_append_left _ List.mem_cons_self
      · rw [uri_completedState, hturi]
    refine ⟨w₃, ?_, ⟨iff_of_true hforwarded henough, fun _ => ?_, fun _ u hu => ?_,
      fun _ uri htok hinst hnot => ?_, fun hno => absurd hforwarded hno⟩⟩
    · unfold tokenIngoingToParallelGateway
      rw [h.tokens, h.element]
      dsimp only
      rw [run_bind_of_ok _ (show orStop (.ok element) w = .ok element w from rfl),
        run_bind_of_ok _ (splitTokens_eq h.stored)]
      dsimp only
      rw [if_pos henough, run_bind_of_ok _ hmark, run_bind_of_ok _ (removeTokens_eq sv waiting w₁),
        run_bind_of_ok _ hset,
        run_bind_of_ok _ (checkTokensOfActivity_of_ne hid htoken₃ helement₃ helement)]
      rfl
    · rw [tokensOf, hw₃, ← hstateUri, lookup_put_self, Option.bind_some, hstate, Option.getD_some]
    · rw [hother₃ _ (hnotInstance u hu), lookup_removed, if_pos (List.mem_map_of_mem hu)]
    · rw [hother₃ _ hinst, hlookup₂ _ hnot, hother₁ _ htok]
  · refine ⟨w, ?_, ⟨iff_of_false (hnever w) henough, fun hf => absurd hf (hnever w),
      fun hf => absurd hf (hnever w), fun hf => absurd hf (hnever w), fun _ => rfl⟩⟩
    unfold tokenIngoingToParallelGateway
    rw [h.tokens, h.element]
    dsimp only
    rw [run_bind_of_ok _ (show orStop (.ok element) w = .ok element w from rfl),
      run_bind_of_ok _ (splitTokens_eq h.stored)]
    dsimp only
    rw [if_neg henough]
    rfl

end Join

/-! ## Two tokens over one flow -/

/-- A flow that comes from an element. -/
def flowFrom (id source : String) : XNode :=
  .mk id "bpmn:sequenceFlow" ((∅ : HashMap String String).insert "sourceRef" source) []

/-- A flow that comes into an element. -/
def incomingFlow (id : String) : XNode :=
  .mk "" "bpmn:incoming" ((∅ : HashMap String String).insert "value" id) []

/-- A parallel gateway with two incoming flows. -/
def joinNode : XNode :=
  .mk "join" "bpmn:parallelGateway" ∅ [incomingFlow "flow1", incomingFlow "flow2"]

/-- The process of the gateway; its flows come from two tasks. -/
def joinTree : IndexedNodeTree where
  id := "d:process"
  id2nodeId := (((∅ : HashMap String XNode).insert "join" joinNode).insert "flow1"
    (flowFrom "flow1" "first")).insert "flow2" (flowFrom "flow2" "second")

/-- A token that came to the gateway from an element. -/
def joinToken (uri source : String) : IndividualObj :=
  newToken uri "d:process" "d:instance" source "join"

/-- A process instance with two tokens. -/
def joinInstance : IndividualObj :=
  ((IndividualObj.empty.setId "d:instance").addUri "bpmn:hasToken" "d:one").addUri
    "bpmn:hasToken" "d:two"

/-- The world with two tokens at the gateway, the second one with a given source. -/
def joinWorld (source : String) : World :=
  .of [joinToken "d:one" "first", joinToken "d:two" source, joinInstance]

theorem arrival_joinWorld (source : String) :
    Arrival joinTree joinNode "join" (joinToken "d:two" source) joinInstance ["d:one", "d:two"]
      (joinWorld source) where
  element := rfl
  instanceStored := rfl
  tokens := rfl
  arriving := ⟨by change "d:two" ≠ ""; decide, joinToken "d:two" source, rfl, rfl⟩
  stored := by
    intro id hid
    rcases List.mem_cons.mp hid with rfl | hid
    · exact ⟨by decide, joinToken "d:one" "first", rfl⟩
    · rw [List.mem_singleton.mp hid]
      exact ⟨by decide, joinToken "d:two" source, rfl⟩
  apart := by
    change "d:instance" ∉ ["d:two", "d:one", "d:two"]
    decide

/-- Two tokens from different tasks are joined. -/
theorem joins_joinWorld :
    ∃ w', tokenIngoingToParallelGateway (countingServices joinTree []) (joinToken "d:two" "second")
        "join" "d:process" joinInstance joinTree (joinWorld "second") = .ok () w' ∧
      Joins joinNode "join" (joinToken "d:two" "second") joinInstance ["d:one", "d:two"]
        (joinWorld "second") w' :=
  joins_tokenIngoingToParallelGateway (countingServices joinTree []) (arrival_joinWorld "second")
    (by decide)

/-- A parallel gateway does not wait for every flow: two tokens over the first flow are joined. -/
theorem not_synchronises :
    ¬ ∀ (sv : Services) (nt : IndexedNodeTree) (element : XNode) (elementId processUri : String)
      (token processInstance : IndividualObj) (tokenIds : List String) (w w' : World),
      Arrival nt element elementId token processInstance tokenIds w →
      elementId ≠ "bpmn:endEvent" →
      tokenIngoingToParallelGateway sv token elementId processUri processInstance nt w =
        .ok () w' →
      Synchronises nt element elementId token processInstance tokenIds w w' := by
  intro hsync
  have hrun : ∃ w', tokenIngoingToParallelGateway (countingServices joinTree [])
      (joinToken "d:two" "first") "join" "d:process" joinInstance joinTree (joinWorld "first") =
        .ok () w' ∧ w'.queue.any fun m => m.src = "go-prepare" ∧ m.newState.uri = "d:two" ∧
          isExistsBool m.newState "bpmn:isCompleted" true = true := ⟨_, rfl, by decide +kernel⟩
  obtain ⟨w', hrun, hmark⟩ := hrun
  have h := hsync _ _ _ _ _ _ _ _ _ _ (arrival_joinWorld "first") (by decide) hrun
  obtain ⟨m, hm, hforwarded⟩ := List.any_eq_true.mp hmark
  have hforwarded : Forwarded (joinWorld "first") w' (joinToken "d:two" "first").uri :=
    ⟨m, hm, of_decide_eq_true hforwarded⟩
  -- No token came over the second flow, as both came from the element before the first one.
  obtain ⟨t, ht, node, source, hnode, hsource, hfrom⟩ :=
    h.forwards.mp hforwarded "flow2" (List.mem_cons_of_mem _ List.mem_cons_self)
  have hin : t.firstLiteral "bpmn:inElementId" = some "first" := by
    rcases ht with ht | ht
    · obtain rfl : joinToken "d:two" "first" = t := Option.some.inj ht
      rfl
    · obtain rfl : t = joinToken "d:one" "first" := List.mem_singleton.mp ht
      rfl
  obtain rfl : flowFrom "flow2" "second" = node := Except.ok.inj hnode
  obtain rfl : "second" = source := Except.ok.inj hsource
  rw [hin] at hfrom
  exact absurd (Option.some.inj hfrom) (by decide)

end Veda.NanoBpmn
