import Veda.NanoBpmn.Pending

set_option autoImplicit false

/-!
# The end of a process instance

A process instance is finished when all its tokens have come to end events. A token that comes to an
end event ends the instance when all other tokens stand at this very end event, also those that have
not been handled there. With several end events an instance may never end, and with several tokens at
one end event it ends more than once.

## Main definitions

* `NanoBpmn.World.atEnd`, `NanoBpmn.Finished` — tokens at end events, and all of them.
* `NanoBpmn.ProcessEvent` — what happens to a process instance.
* `NanoBpmn.EndedWhenFinished` — an instance was ended once if it is finished, and else not.
* `NanoBpmn.SeesEnd` — an end event takes the right tokens for those at their end.

## Main results

* `NanoBpmn.Steady.handled` — what one announcement does.
* `NanoBpmn.endedWhenFinished_of_seesEnd` — every run.
* `NanoBpmn.not_endedWhenFinished` — two end events.
-/

namespace Veda.NanoBpmn

open Veda.Lib Veda.Onto
open Veda.Mstorage (IndvOp indvApplyCmd)

/-! ## Process instances that are finished -/

section Definitions

/-- An element is an end event. -/
def isEndEvent (nt : IndexedNodeTree) (elementId : String) : Bool :=
  match nt.getIdxOfId elementId with
  | .ok element => element.tag = "bpmn:endEvent"
  | .error _ => false

/-- A token stands at an end event and was handled there. -/
def atEndToken (nt : IndexedNodeTree) (token : IndividualObj) : Bool :=
  isExistsBool token "bpmn:isCompleted" true &&
    (token.firstLiteral "bpmn:elementId").any (isEndEvent nt)

/-- A token has come to its end. -/
def World.atEnd (nt : IndexedNodeTree) (w : World) (id : String) : Bool :=
  (w.individuals.lookup id).any (atEndToken nt)

/-- All tokens of a process instance have come to their ends. -/
def Finished (nt : IndexedNodeTree) (instanceUri : String) (w : World) : Prop :=
  tokensOf w instanceUri ≠ [] ∧ ∀ id ∈ tokensOf w instanceUri, w.atEnd nt id = true

/-- A process instance was ended once if it is finished, and else not. -/
def EndedWhenFinished (nt : IndexedNodeTree) (instanceUri : String) (w : World) : Prop :=
  (Finished nt instanceUri w → w.ended.count instanceUri = 1) ∧
    (¬Finished nt instanceUri w → w.ended.count instanceUri = 0)

/-- A token is stored and does not stand at another element. -/
def World.standsOn (elementId : String) (w : World) (id : String) : Bool :=
  (w.individuals.lookup id).any fun token =>
    (token.firstLiteral "bpmn:elementId").all fun e => e = elementId

/-- What happens to a process instance: an announcement of one of its tokens is handled, or anything
else. -/
inductive ProcessEvent
  | handled (m : Message)
  | elsewhere (w' : World)

/-- What happens elsewhere leaves the list of tokens, those that have come to their ends, and the end
of the process instance. -/
structure Elsewhere (nt : IndexedNodeTree) (instanceUri : String) (w w' : World) : Prop where
  made : w.made ≤ w'.made
  tokens : tokensOf w' instanceUri = tokensOf w instanceUri
  ends : ∀ id ∈ tokensOf w instanceUri, w'.atEnd nt id = w.atEnd nt id
  ended : w'.ended.count instanceUri = w.ended.count instanceUri

/-- An announcement of a token of a process instance. The token that called the process belongs to
another process instance. -/
structure IsOfToken (sv : Services) (nt : IndexedNodeTree) (instanceUri : String) (m : Message)
    (w : World) : Prop where
  queued : m ∈ w.queue
  isToken : "bpmn:Token" ∈ (m.newState.literals "rdf:type").getD []
  noForm : sv.isStartForm ((m.newState.literals "rdf:type").getD []) = false
  ofInstance : m.newState.literalOrEmpty "bpmn:hasProcessInstance" = instanceUri
  ofProcess : ∀ process,
    w.individuals.lookup (m.newState.literalOrEmpty "bpmn:hasProcess") = some process →
      sv.processSource process = .ok nt
  caller : ∀ processInstance parent, w.individuals.lookup instanceUri = some processInstance →
    processInstance.firstLiteral "bpmn:parentToken" = some parent →
      parent ∉ instanceUri :: tokensOf w instanceUri ∧
      ∀ token uri, w.individuals.lookup parent = some token →
        token.firstLiteral "bpmn:hasProcessInstance" = some uri →
          uri ∉ instanceUri :: tokensOf w instanceUri

/-- A token is one of its process instance and stands where it is announced to stand. -/
def InStep (instanceUri : String) (token : IndividualObj) (w : World) : Prop :=
  token.uri ∈ tokensOf w instanceUri ∧ ∃ stored, w.individuals.lookup token.uri = some stored ∧
    stored.firstLiteral "bpmn:elementId" = token.firstLiteral "bpmn:elementId" ∧
    isExistsBool stored "bpmn:isCompleted" true = isExistsBool token "bpmn:isCompleted" true

/-- A token was joined with another one at a parallel gateway before it was handled there. -/
def JoinedBefore (nt : IndexedNodeTree) (token : IndividualObj) (w : World) : Prop :=
  w.individuals.lookup token.uri = none ∧
    isExistsBool token "bpmn:isCompleted" true = false ∧
    ∃ elementId element, token.firstLiteral "bpmn:elementId" = some elementId ∧
      nt.getIdxOfId elementId = .ok element ∧ element.tag = "bpmn:parallelGateway"

/-- **An end event sees the end.** The token that is handled is in step, or was joined before. When it
comes to an end event, all other tokens stand at this event exactly when all of them have come to
their ends. It does not leave an end event over a flow, and no element is named after the type. -/
structure SeesEnd (nt : IndexedNodeTree) (instanceUri : String) (token : IndividualObj) (w : World) :
    Prop where
  known : InStep instanceUri token w ∨ JoinedBefore nt token w
  sees : ∀ elementId, token.firstLiteral "bpmn:elementId" = some elementId →
    isExistsBool token "bpmn:isCompleted" true = false → isEndEvent nt elementId = true →
      ((∀ id ∈ tokensOf w instanceUri, id ≠ token.uri → w.standsOn elementId id = true) ↔
        ∀ id ∈ tokensOf w instanceUri, id ≠ token.uri → w.atEnd nt id = true)
  stays : ∀ elementId element, token.firstLiteral "bpmn:elementId" = some elementId →
    nt.getIdxOfId elementId = .ok element → element.tag = "bpmn:endEvent" →
      isExistsBool token "bpmn:isCompleted" true = true → outgoingOf element = []
  named : token.firstLiteral "bpmn:elementId" ≠ some "bpmn:endEvent"

variable (sv : Services) (nt : IndexedNodeTree) (instanceUri : String)

/-- The world after an event. -/
def ProcessEvent.step (w : World) : ProcessEvent → World
  | .handled m => endState (prepare sv m w)
  | .elsewhere w' => w'

/-- An event may happen. -/
def ProcessEvent.IsOf (w : World) : ProcessEvent → Prop
  | .handled m => IsOfToken sv nt instanceUri m w
  | .elsewhere w' => Elsewhere nt instanceUri w w'

/-- The condition on an event. -/
def ProcessEvent.Sees (w : World) : ProcessEvent → Prop
  | .handled m => m.src = "go-prepare" → SeesEnd nt instanceUri m.newState w
  | .elsewhere _ => True

/-- The world after some events. -/
def runProcess (w : World) (events : List ProcessEvent) : World :=
  events.foldl (ProcessEvent.step sv) w

/-- All events may happen, one after the other, and have a property. -/
def AllProcess (C : World → ProcessEvent → Prop) : World → List ProcessEvent → Prop
  | _, [] => True
  | w, e :: events => C w e ∧ AllProcess C (e.step sv w) events

end Definitions

/-! ## One announcement -/

/-- The state of a process instance between events. -/
structure Steady (sv : Services) (nt : IndexedNodeTree) (instanceUri : String) (w : World) :
    Prop where
  instanceMade : w.HasMade sv "wd:pr_" instanceUri
  tokensMade : ∀ id ∈ tokensOf w instanceUri, w.HasMade sv "wd:tk_" id
  ended : EndedWhenFinished nt instanceUri w

section Steps

variable {sv : Services} {nt : IndexedNodeTree} {instanceUri : String} {w w' : World}

theorem isEndEvent_of_ok {elementId : String} {element : XNode}
    (h : nt.getIdxOfId elementId = .ok element) :
    isEndEvent nt elementId = decide (element.tag = "bpmn:endEvent") := by
  rw [isEndEvent, h]

theorem atEndToken_of_standsAt {elementId : String} {token : IndividualObj}
    (h : StandsAt elementId token) (hend : isEndEvent nt elementId = false) :
    atEndToken nt token = false := by
  rw [atEndToken, h, Option.any_some, hend, Bool.and_false]

theorem Pending.steady {tokenUri : String} {K : IndividualObj → Prop}
    (h : Pending sv instanceUri tokenUri K w)
    (hK : ∀ token, K token → atEndToken nt token = false) : Steady sv nt instanceUri w := by
  refine ⟨h.instanceMade, h.tokensMade, fun hfinished => ?_, fun _ => h.notEnded⟩
  obtain ⟨token, hlookup, htoken⟩ := h.stored
  have hend := hfinished.2 tokenUri h.listed
  rw [World.atEnd, hlookup, Option.any_some, hK token htoken] at hend
  cases hend

theorem Steady.pending (h : Steady sv nt instanceUri w) {stored : IndividualObj}
    {tokenUri : String} {K : IndividualObj → Prop} (hlisted : tokenUri ∈ tokensOf w instanceUri)
    (hlookup : w.individuals.lookup tokenUri = some stored) (hK : K stored)
    (hend : atEndToken nt stored = false) : Pending sv instanceUri tokenUri K w := by
  refine ⟨h.instanceMade, h.tokensMade, hlisted, ⟨stored, hlookup, hK⟩, h.ended.2 ?_⟩
  intro hfinished
  have htrue := hfinished.2 tokenUri hlisted
  rw [World.atEnd, hlookup, Option.any_some, hend] at htrue
  cases htrue

theorem Steady.elsewhere (h : Steady sv nt instanceUri w) (helse : Elsewhere nt instanceUri w w') :
    Steady sv nt instanceUri w' := by
  have hfinished : Finished nt instanceUri w' ↔ Finished nt instanceUri w := by
    rw [Finished, Finished, helse.tokens]
    refine and_congr_right fun _ => forall₂_congr fun id hid => ?_
    rw [helse.ends id hid]
  refine ⟨h.instanceMade.mono helse.made, fun id hid => ?_, fun hf => ?_, fun hf => ?_⟩
  · exact (h.tokensMade id (helse.tokens ▸ hid)).mono helse.made
  · rw [helse.ended]
    exact h.ended.1 (hfinished.mp hf)
  · rw [helse.ended]
    exact h.ended.2 fun hf' => hf (hfinished.mpr hf')

/-! ### Reading -/

theorem endState_getIndividual (uri : String) : endState (getIndividual uri w) = w := by
  unfold getIndividual
  split <;> rfl

theorem tokenIngoingTo_cases {token : IndividualObj}
    (hprocess : ∀ process,
      w.individuals.lookup (token.literalOrEmpty "bpmn:hasProcess") = some process →
        sv.processSource process = .ok nt) :
    endState (tokenIngoingTo sv token w) = w ∨ ∃ processInstance elementId element,
      w.individuals.lookup (token.literalOrEmpty "bpmn:hasProcessInstance") =
        some processInstance ∧
      token.firstLiteral "bpmn:elementId" = some elementId ∧
      nt.getIdxOfId elementId = .ok element ∧
      tokenIngoingTo sv token w = tokenIngoingAt sv element.tag token elementId
        (token.literalOrEmpty "bpmn:hasProcess") processInstance nt w := by
  unfold tokenIngoingTo
  cases hread : getIndividual (token.literalOrEmpty "bpmn:hasProcess") w with
  | error e w₁ =>
    rw [run_bind_of_error _ hread]
    exact .inl ((congrArg endState hread).symm.trans (endState_getIndividual _))
  | ok process w₁ =>
    obtain ⟨-, hlookup, rfl⟩ := getIndividual_ok hread
    rw [run_bind_of_ok _ hread]
    cases hread' : getIndividual (token.literalOrEmpty "bpmn:hasProcessInstance") w₁ with
    | error e w₂ =>
      rw [run_bind_of_error _ hread']
      exact .inl ((congrArg endState hread').symm.trans (endState_getIndividual _))
    | ok processInstance w₂ =>
      obtain ⟨-, hlookup', rfl⟩ := getIndividual_ok hread'
      rw [run_bind_of_ok _ hread', hprocess process hlookup,
        run_bind_of_ok _ (show orStop (.ok nt) w₂ = .ok nt w₂ from rfl)]
      cases helement : token.firstLiteral "bpmn:elementId" with
      | none => exact .inl rfl
      | some elementId =>
        dsimp only
        cases hnode : nt.getIdxOfId elementId with
        | error e => exact .inl rfl
        | ok element => exact .inr ⟨processInstance, elementId, element, hlookup', rfl, hnode, rfl⟩

theorem checkTokensOfActivity_cases (activityId skipped : String) {ids : List String}
    (hids : ∀ id ∈ ids, id ≠ "") :
    ((∀ id ∈ ids, id ≠ skipped → w.standsOn activityId id = true) ∧
      checkTokensOfActivity activityId (some skipped) ids w = .ok true w) ∨
    ((¬∀ id ∈ ids, id ≠ skipped → w.standsOn activityId id = true) ∧
      (checkTokensOfActivity activityId (some skipped) ids w = .ok false w ∨
        ∃ e, checkTokensOfActivity activityId (some skipped) ids w = .error e w)) := by
  induction ids with
  | nil => exact .inl ⟨fun _ h => (List.not_mem_nil h).elim, rfl⟩
  | cons id ids ih =>
    have hrest := ih fun id' hid' => hids id' (List.mem_cons_of_mem _ hid')
    unfold checkTokensOfActivity
    by_cases hskip : id = skipped
    · rw [if_pos (congrArg some hskip)]
      have hall : (∀ id' ∈ id :: ids, id' ≠ skipped → w.standsOn activityId id' = true) ↔
          ∀ id' ∈ ids, id' ≠ skipped → w.standsOn activityId id' = true := by
        rw [List.forall_mem_cons]
        exact and_iff_right fun hne => absurd hskip hne
      rw [hall]
      exact hrest
    · rw [if_neg fun h => hskip (Option.some.inj h)]
      have hall : (∀ id' ∈ id :: ids, id' ≠ skipped → w.standsOn activityId id' = true) ↔
          w.standsOn activityId id = true ∧
            ∀ id' ∈ ids, id' ≠ skipped → w.standsOn activityId id' = true := by
        rw [List.forall_mem_cons]
        exact and_congr_left' ⟨fun h => h hskip, fun h _ => h⟩
      rw [hall]
      cases hlookup : w.individuals.lookup id with
      | none =>
        have hstands : w.standsOn activityId id = false := by
          rw [World.standsOn, hlookup]
          rfl
        have hread : getIndividual id w = .error ("individual " ++ id ++ " not found") w := by
          rw [getIndividual, if_neg (hids id List.mem_cons_self), hlookup]
        refine .inr ⟨fun h => ?_, .inr ⟨_, run_bind_of_error _ hread⟩⟩
        exact absurd (hstands.symm.trans h.1) (by decide)
      | some token =>
        rw [run_bind_of_ok _ (getIndividual_of_lookup (hids id List.mem_cons_self) hlookup)]
        have hstands : w.standsOn activityId id =
            (token.firstLiteral "bpmn:elementId").all fun e => e = activityId := by
          rw [World.standsOn, hlookup]
          rfl
        rw [hstands]
        cases token.firstLiteral "bpmn:elementId" with
        | none => simpa using hrest
        | some elementId =>
          dsimp only
          by_cases heq : elementId = activityId
          · rw [if_neg fun h => h heq]
            simpa [heq] using hrest
          · rw [if_pos heq]
            exact .inr ⟨fun h => heq (by simpa using h.1), .inl rfl⟩

/-! ### The end of a process instance -/

/-- A process instance that was ended: all tokens of its list have come to their ends. -/
structure Ended (sv : Services) (nt : IndexedNodeTree) (instanceUri : String) (ids : List String)
    (w : World) : Prop where
  instanceMade : w.HasMade sv "wd:pr_" instanceUri
  tokensMade : ∀ id ∈ ids, w.HasMade sv "wd:tk_" id
  tokens : tokensOf w instanceUri = ids
  nonempty : ids ≠ []
  ends : ∀ id ∈ ids, w.atEnd nt id = true
  once : w.ended.count instanceUri = 1

theorem Ended.steady {ids : List String} (h : Ended sv nt instanceUri ids w) :
    Steady sv nt instanceUri w := by
  obtain ⟨hinstance, hmade, rfl, hne, hends, honce⟩ := h
  exact ⟨hinstance, hmade, fun _ => honce, fun hf => absurd ⟨hne, hends⟩ hf⟩

theorem keeps_update_ended {ids : List String} (src : String) {indv : IndividualObj}
    (huri : indv.uri ∉ instanceUri :: ids) :
    Keeps (Ended sv nt instanceUri ids) (fun _ => True) (update sv src .setIn indv) := by
  refine fun w hw => ⟨?_, fun _ _ _ => trivial⟩
  cases hrun : update sv src .setIn indv w with
  | error e w' =>
    rw [endState_error, update_error sv hrun]
    exact hw
  | ok _ w' =>
    obtain ⟨prev, hprev, hempty, rfl⟩ := update_partial_ok sv rfl hrun
    have hstate : (indvApplyCmd sv.order .setIn prev indv).uri = indv.uri :=
      (uri_indvApplyCmd ..).trans (w.keyed _ _ hprev)
    have hsame : ∀ uri ∈ instanceUri :: ids,
        (w.put .put src (indvApplyCmd sv.order .setIn prev indv)).individuals.lookup uri =
          w.individuals.lookup uri := fun uri hmem =>
      lookup_put_ne w .put src fun heq => huri (hstate ▸ heq ▸ hmem)
    refine ⟨hw.instanceMade, hw.tokensMade, ?_, hw.nonempty, fun id hid => ?_, hw.once⟩
    · rw [endState_ok, tokensOf, hsame _ List.mem_cons_self, ← tokensOf, hw.tokens]
    · rw [endState_ok, World.atEnd, hsame _ (List.mem_cons_of_mem _ hid), ← World.atEnd]
      exact hw.ends id hid

theorem keeps_firstLiteralOrErr (P : World → Prop) (indv : IndividualObj) (predicate : String) :
    Keeps P (fun s => indv.firstLiteral predicate = some s) (firstLiteralOrErr indv predicate) := by
  unfold firstLiteralOrErr
  split
  · next s h => exact Keeps.pure h
  · exact Keeps.throw _

/-- **The end of a process instance** is noted once; what its caller is told changes others only. -/
theorem ended_endProcess {processUri : String} {processInstance : IndividualObj}
    {ids : List String}
    (h : Ended sv nt processInstance.uri ids
      { w with ended := w.ended ++ [processInstance.uri] })
    (hcaller : ∀ parent, processInstance.firstLiteral "bpmn:parentToken" = some parent →
      parent ∉ processInstance.uri :: ids ∧
      ∀ token uri, w.individuals.lookup parent = some token →
        token.firstLiteral "bpmn:hasProcessInstance" = some uri →
          uri ∉ processInstance.uri :: ids) :
    Ended sv nt processInstance.uri ids (endState (endProcess sv processUri processInstance w)) := by
  set w₁ : World := { w with ended := w.ended ++ [processInstance.uri] } with hw₁
  unfold endProcess
  rw [run_modify_bind, ← hw₁]
  cases hparent : processInstance.firstLiteral "bpmn:parentToken" with
  | none => exact h
  | some parent =>
    obtain ⟨hparentNe, hother⟩ := hcaller parent hparent
    dsimp only
    cases hread : getIndividual parent w₁ with
    | error e w₂ =>
      rw [run_bind_of_error _ hread]
      have hsame : w₂ = w₁ := (congrArg endState hread).symm.trans (endState_getIndividual _)
      rw [hsame]
      exact h
    | ok token w₂ =>
      obtain ⟨-, hlookup, rfl⟩ := getIndividual_ok hread
      rw [run_bind_of_ok _ hread]
      suffices hkeeps : Keeps (Ended sv nt processInstance.uri ids) (fun _ => True) _ from
        (hkeeps w₁ h).1
      refine (keeps_firstLiteralOrErr _ _ _).bind fun uri huri => ?_
      refine (keeps_getIndividual _ _).bind fun parentProcInst hparentUri => ?_
      refine (keeps_firstLiteralOrErr _ _ _).bind fun parentProcId _ => ?_
      refine (keeps_getIndividual _ _).bind fun parentProc _ => ?_
      refine (keeps_orStop _ _).bind fun parentNt _ => ?_
      refine (keeps_firstLiteralOrErr _ _ _).bind fun parentElId _ => ?_
      refine (keeps_orStop _ _).bind fun parentEl _ => ?_
      have hmark : Keeps (Ended sv nt processInstance.uri ids) (fun _ => True)
          (storeIsCompletedInto sv parent true "go-prepare") :=
        keeps_update_ended _ hparentNe
      split
      · refine (keeps_setVars _ _ _ _ _ _ _ _).bind fun outVars houtVars => ?_
        split_ifs
        · exact hmark
        · refine (keeps_update_ended _ ?_).bind fun _ _ => hmark
          rw [houtVars]
          exact hparentUri.symm ▸ hother token uri hlookup huri
      · exact hmark

theorem lookup_mark_ne {prev : IndividualObj} (src : String) {uri : String} (huri : uri ≠ prev.uri) :
    (w.put .put src (completedState sv prev)).individuals.lookup uri = w.individuals.lookup uri :=
  lookup_put_ne w .put src (by rwa [uri_completedState])

/-- **A token comes to an end event.** -/
theorem steady_tokenIngoingToEndEvent (hsv : MakesNew sv) {token processInstance : IndividualObj}
    {elementId processUri : String} (h : Steady sv nt processInstance.uri w)
    (hinstance : w.individuals.lookup processInstance.uri = some processInstance)
    (hstep : InStep processInstance.uri token w)
    (helement : token.firstLiteral "bpmn:elementId" = some elementId)
    (hend : isEndEvent nt elementId = true)
    (hopen : isExistsBool token "bpmn:isCompleted" true = false)
    (hsees : (∀ id ∈ tokensOf w processInstance.uri, id ≠ token.uri →
        w.standsOn elementId id = true) ↔
      ∀ id ∈ tokensOf w processInstance.uri, id ≠ token.uri → w.atEnd nt id = true)
    (hcaller : ∀ parent, processInstance.firstLiteral "bpmn:parentToken" = some parent →
      parent ∉ processInstance.uri :: tokensOf w processInstance.uri ∧
      ∀ token uri, w.individuals.lookup parent = some token →
        token.firstLiteral "bpmn:hasProcessInstance" = some uri →
          uri ∉ processInstance.uri :: tokensOf w processInstance.uri) :
    Steady sv nt processInstance.uri
      (endState (tokenIngoingToEndEvent sv token elementId processUri processInstance w)) := by
  obtain ⟨hlisted, stored, hstored, hsameElement, hsameMark⟩ := hstep
  have hnotEnd : atEndToken nt stored = false := by
    rw [atEndToken, hsameMark, hopen, Bool.false_and]
  have hpending : Pending sv processInstance.uri token.uri (fun t => t = stored) w :=
    h.pending hlisted hstored rfl hnotEnd
  have hne := hpending.instance_ne hsv
  unfold tokenIngoingToEndEvent
  obtain ⟨prev, hprev, hempty, hprevUri, hmark⟩ | ⟨hnone, -⟩ :=
    storeIsCompletedInto_cases sv token.uri "go-prepare" w
  swap
  · exact absurd (hnone stored hstored)
      (by simp [isEmpty_of_firstLiteral (hsameElement.trans helement)])
  obtain rfl : prev = stored := Option.some.inj (hprev.symm.trans hstored)
  rw [run_bind_of_ok _ hmark]
  set w₁ := w.put .put "go-prepare" (completedState sv prev) with hw₁
  have hother : ∀ uri, uri ≠ token.uri →
      w₁.individuals.lookup uri = w.individuals.lookup uri := fun uri huri =>
    lookup_mark_ne "go-prepare" (by rwa [hprevUri])
  have htokens : tokensOf w₁ processInstance.uri = tokensOf w processInstance.uri := by
    rw [tokensOf, hother _ hne, ← tokensOf]
  -- The token has come to its end, and the others are as they were.
  have hself : w₁.atEnd nt token.uri = true := by
    have hlookup : w₁.individuals.lookup token.uri = some (completedState sv prev) := by
      rw [hw₁, ← hprevUri, ← uri_completedState sv prev, lookup_put_self]
    have hstands : (completedState sv prev).firstLiteral "bpmn:elementId" = some elementId :=
      (IndividualObj.firstLiteral_congr (lookup_completedState sv hempty (by decide)
        (by decide))).trans (hsameElement.trans helement)
    rw [World.atEnd, hlookup, Option.any_some, atEndToken,
      isExistsBool_completedState sv hempty, hstands, Option.any_some, hend]
    rfl
  have hothers : ∀ id, id ≠ token.uri → w₁.atEnd nt id = w.atEnd nt id ∧
      w₁.standsOn elementId id = w.standsOn elementId id := fun id hid => by
    rw [World.atEnd, World.standsOn, hother id hid]
    exact ⟨rfl, rfl⟩
  have hfinished : Finished nt processInstance.uri w₁ ↔
      ∀ id ∈ tokensOf w processInstance.uri, id ≠ token.uri → w.atEnd nt id = true := by
    rw [Finished, htokens]
    refine ⟨fun hf id hid hidNe => (hothers id hidNe).1 ▸ hf.2 id hid, fun hall =>
      ⟨List.ne_nil_of_mem hlisted, fun id hid => ?_⟩⟩
    by_cases hidNe : id = token.uri
    · rw [hidNe]
      exact hself
    · rw [(hothers id hidNe).1]
      exact hall id hid hidNe
  cases htokenIds : processInstance.literals "bpmn:hasToken" with
  | none =>
    rw [tokensOf, hinstance, Option.bind_some, htokenIds] at hlisted
    exact (List.not_mem_nil hlisted).elim
  | some ids =>
    have hids : tokensOf w processInstance.uri = ids := by
      rw [tokensOf, hinstance, Option.bind_some, htokenIds, Option.getD_some]
    rw [hids] at hsees hfinished htokens hcaller
    have hnames : ∀ id ∈ ids, id ≠ "" := fun id hid => by
      obtain ⟨n, -, rfl⟩ := h.tokensMade id (hids ▸ hid)
      exact hsv.nonempty n
    have hstandsSame : (∀ id ∈ ids, id ≠ token.uri → w₁.standsOn elementId id = true) ↔
        ∀ id ∈ ids, id ≠ token.uri → w.standsOn elementId id = true :=
      forall₂_congr fun id _ => forall_congr' fun hidNe => by rw [(hothers id hidNe).2]
    have hunfinished : ¬Finished nt processInstance.uri w₁ →
        Steady sv nt processInstance.uri w₁ := fun hf =>
      ⟨h.instanceMade, fun id hid => h.tokensMade id (by rwa [hids, ← htokens]),
        fun hf' => absurd hf' hf, fun _ => hpending.notEnded⟩
    dsimp only
    obtain ⟨hall, hcheck⟩ | ⟨hnot, hcheck | ⟨e, hcheck⟩⟩ :=
      checkTokensOfActivity_cases (w := w₁) elementId token.uri hnames
    · rw [run_bind_of_ok _ hcheck, if_pos rfl]
      have hends := hfinished.mpr (hsees.mp (hstandsSame.mp hall))
      have hcount : w₁.ended.count processInstance.uri = 0 := hpending.notEnded
      have hended : Ended sv nt processInstance.uri ids
          { w₁ with ended := w₁.ended ++ [processInstance.uri] } := by
        refine ⟨h.instanceMade, fun id hid => h.tokensMade id (hids ▸ hid), htokens,
          htokens ▸ hends.1, fun id hid => hends.2 id (htokens ▸ hid), ?_⟩
        change (w₁.ended ++ [processInstance.uri]).count processInstance.uri = 1
        rw [List.count_append, hcount, List.count_singleton_self]
      refine (ended_endProcess hended fun parent hparent => ?_).steady
      obtain ⟨hparentNe, hparentOf⟩ := hcaller parent hparent
      refine ⟨hparentNe, fun t uri ht huri => hparentOf t uri ?_ huri⟩
      rw [← ht, hother]
      rintro rfl
      exact hparentNe (List.mem_cons_of_mem _ (hids ▸ hlisted))
    · rw [run_bind_of_ok _ hcheck, if_neg Bool.false_ne_true]
      exact hunfinished fun hf => hnot (hstandsSame.mpr (hsees.mpr (hfinished.mp hf)))
    · rw [run_bind_of_error _ hcheck]
      exact hunfinished fun hf => hnot (hstandsSame.mpr (hsees.mpr (hfinished.mp hf)))

/-! ### Other elements -/

theorem endState_tokenIngoingToParallelGateway_of_joined {token processInstance : IndividualObj}
    {elementId processUri : String} (hgone : w.individuals.lookup token.uri = none) :
    endState (tokenIngoingToParallelGateway sv token elementId processUri processInstance nt w) =
      w := by
  unfold tokenIngoingToParallelGateway
  cases processInstance.literals "bpmn:hasToken" with
  | none => rfl
  | some ids =>
    dsimp only
    cases nt.getIdxOfId elementId with
    | error e => rfl
    | ok element =>
      rw [run_bind_of_ok _ (show orStop (.ok element) w = .ok element w from rfl)]
      obtain ⟨e, herror⟩ | ⟨incoming, others, hsplit, -⟩ :=
        splitTokens_cases token.uri elementId ids w
      · rw [run_bind_of_error _ herror]
        rfl
      · rw [run_bind_of_ok _ hsplit]
        dsimp only
        split_ifs
        · obtain ⟨prev, hprev, -⟩ | ⟨-, hmark⟩ :=
            storeIsCompletedInto_cases sv token.uri "go-prepare" w
          · exact absurd (hgone.symm.trans hprev) (by simp)
          · rw [run_bind_of_error _ hmark]
            rfl
        · rfl

theorem pending_tokenIngoingAt (hsv : MakesNew sv) {token processInstance : IndividualObj}
    {type elementId processUri : String}
    (h : Pending sv processInstance.uri token.uri (StandsAt elementId) w)
    (hlookup : w.individuals.lookup processInstance.uri = some processInstance)
    (htype : type ≠ "bpmn:endEvent") (helement : elementId ≠ "bpmn:endEvent") :
    Pending sv processInstance.uri token.uri (StandsAt elementId)
      (endState (tokenIngoingAt sv type token elementId processUri processInstance nt w)) := by
  have hne := (h.instance_ne hsv).symm
  have hmark : Keeps (Pending sv processInstance.uri token.uri (StandsAt elementId))
      (fun _ => True) (storeIsCompletedInto sv token.uri true "go-prepare") :=
    keeps_storeIsCompletedInto hsv _ hne
  unfold tokenIngoingAt
  by_cases hcall : type = "bpmn:callActivity"
  · rw [if_pos hcall]
    exact (keeps_tokenIngoingToCallActivity hsv token elementId processUri processInstance nt w h).1
  rw [if_neg hcall]
  by_cases hstart : type = "bpmn:startEvent"
  · rw [if_pos hstart]
    exact (hmark w h).1
  rw [if_neg hstart, if_neg htype]
  by_cases hscript : type = "bpmn:scriptTask"
  · rw [if_pos hscript]
    exact (keeps_tokenIngoingToScriptTask hsv token elementId processInstance nt hne w h).1
  rw [if_neg hscript]
  by_cases huser : type = "bpmn:userTask"
  · rw [if_pos huser]
    exact (keeps_tokenIngoingToUserTask hsv token elementId processUri processInstance nt hne w h).1
  rw [if_neg huser]
  by_cases htask : type = "bpmn:task"
  · rw [if_pos htask]
    exact (hmark w h).1
  rw [if_neg htask]
  by_cases hparallel : type = "bpmn:parallelGateway"
  · rw [if_pos hparallel]
    exact pending_tokenIngoingToParallelGateway hsv h hlookup helement
  rw [if_neg hparallel]
  split_ifs
  · have hkeeps : Keeps (Pending sv processInstance.uri token.uri (StandsAt elementId))
        (fun _ => True) (tokenIngoingToXxclusiveGateway sv token elementId nt) :=
      (keeps_orStop _ _).bind fun _ _ => (keeps_checkListeners _ _).bind fun _ _ => hmark
    exact (hkeeps w h).1
  · exact h

theorem forwardToken_cases {token : IndividualObj}
    (hprocess : ∀ process,
      w.individuals.lookup (token.literalOrEmpty "bpmn:hasProcess") = some process →
        sv.processSource process = .ok nt) :
    endState (forwardToken sv token w) = w ∨ ∃ process elementId element,
      token.firstLiteral "bpmn:elementId" = some elementId ∧
      nt.getIdxOfId elementId = .ok element ∧
      forwardToken sv token w = forwardAlong sv token process nt
        (token.literalOrEmpty "bpmn:hasProcess") (token.literalOrEmpty "bpmn:hasProcessInstance")
        elementId element.tag (outgoingOf element) (some token.uri) w := by
  unfold forwardToken
  cases hread : getIndividual (token.literalOrEmpty "bpmn:hasProcess") w with
  | error e w₁ =>
    rw [run_bind_of_error _ hread]
    exact .inl ((congrArg endState hread).symm.trans (endState_getIndividual _))
  | ok process w₁ =>
    obtain ⟨-, hlookup, rfl⟩ := getIndividual_ok hread
    rw [run_bind_of_ok _ hread, hprocess process hlookup,
      run_bind_of_ok _ (show orStop (.ok nt) w₁ = .ok nt w₁ from rfl)]
    cases helement : token.firstLiteral "bpmn:elementId" with
    | none => exact .inl rfl
    | some elementId =>
      dsimp only
      cases hnode : nt.getIdxOfId elementId with
      | error e => exact .inl rfl
      | ok element => exact .inr ⟨process, elementId, element, rfl, hnode, rfl⟩

theorem steady_forwardToken (hsv : MakesNew sv) {token : IndividualObj}
    (hinstance : token.literalOrEmpty "bpmn:hasProcessInstance" = instanceUri)
    (h : Steady sv nt instanceUri w) (hstep : InStep instanceUri token w)
    (hprocess : ∀ process,
      w.individuals.lookup (token.literalOrEmpty "bpmn:hasProcess") = some process →
        sv.processSource process = .ok nt)
    (hstays : ∀ elementId element, token.firstLiteral "bpmn:elementId" = some elementId →
      nt.getIdxOfId elementId = .ok element → element.tag = "bpmn:endEvent" →
        outgoingOf element = []) :
    Steady sv nt instanceUri (endState (forwardToken sv token w)) := by
  obtain hsame | ⟨process, elementId, element, helement, hnode, hrun⟩ := forwardToken_cases hprocess
  · rw [hsame]
    exact h
  · rw [hrun, hinstance]
    by_cases hend : element.tag = "bpmn:endEvent"
    · rw [hstays elementId element helement hnode hend]
      exact h
    · obtain ⟨hlisted, stored, hstored, hsameElement, -⟩ := hstep
      have hnotEnd : atEndToken nt stored = false :=
        atEndToken_of_standsAt (hsameElement.trans helement)
          (by rw [isEndEvent_of_ok hnode, decide_eq_false hend])
      have hnew : ∀ uri target, atEndToken nt (newToken uri
          (token.literalOrEmpty "bpmn:hasProcess") instanceUri elementId target) = false :=
        fun uri target => rfl
      have hpending : Pending sv instanceUri token.uri (fun t => atEndToken nt t = false) w :=
        h.pending hlisted hstored hnotEnd hnotEnd
      exact (keeps_forwardAlong hsv hnew (outgoingOf element)
        (fun uri huri => (Option.some.inj huri).symm) w hpending).1.steady fun _ ht => ht

theorem prepare_of_isOfToken {m : Message} (hm : IsOfToken sv nt instanceUri m w) :
    prepare sv m w = prepareToken sv m.newState m.src w := by
  unfold prepare
  rw [if_neg (by simp [hm.noForm]), if_pos hm.isToken]

/-- **One announcement** of a token keeps the process instance ended exactly when it is finished. -/
theorem Steady.handled (h : Steady sv nt instanceUri w) (hsv : MakesNew sv) {m : Message}
    (hm : IsOfToken sv nt instanceUri m w)
    (hsees : m.src = "go-prepare" → SeesEnd nt instanceUri m.newState w) :
    Steady sv nt instanceUri (endState (prepare sv m w)) := by
  rw [prepare_of_isOfToken hm]
  unfold prepareToken
  by_cases hsrc : m.src = "go-prepare"
  swap
  · rw [if_pos hsrc]
    exact h
  rw [if_neg fun hne => hne hsrc]
  obtain ⟨hknown, hsees, hstays, hnamed⟩ := hsees hsrc
  by_cases hmark : isExistsBool m.newState "bpmn:isCompleted" true = true
  · rw [if_pos hmark]
    obtain hstep | ⟨-, hopen, -⟩ := hknown
    · exact steady_forwardToken hsv hm.ofInstance h hstep hm.ofProcess
        fun elementId element helement hnode hend => hstays elementId element helement hnode hend hmark
    · exact absurd (hmark.symm.trans hopen) (by decide)
  · rw [if_neg hmark]
    have hopen : isExistsBool m.newState "bpmn:isCompleted" true = false := by simpa using hmark
    obtain hsame | ⟨processInstance, elementId, element, hlookup, helement, hnode, hrun⟩ :=
      tokenIngoingTo_cases hm.ofProcess
    · rw [hsame]
      exact h
    rw [hm.ofInstance] at hlookup
    obtain rfl : processInstance.uri = instanceUri := w.keyed _ _ hlookup
    rw [hrun]
    obtain hstep | ⟨hgone, -, elementId', element', helement', hnode', htype⟩ := hknown
    · by_cases hend : element.tag = "bpmn:endEvent"
      · have hevent : isEndEvent nt elementId = true := by
          rw [isEndEvent_of_ok hnode, decide_eq_true hend]
        rw [hend]
        exact steady_tokenIngoingToEndEvent hsv h hlookup hstep helement hevent hopen
          (hsees elementId helement hopen hevent) fun parent => hm.caller processInstance parent hlookup
      · obtain ⟨hlisted, stored, hstored, hsameElement, -⟩ := hstep
        have hstands : StandsAt elementId stored := hsameElement.trans helement
        have hnotEnd : isEndEvent nt elementId = false := by
          rw [isEndEvent_of_ok hnode, decide_eq_false hend]
        have hpending := h.pending hlisted hstored hstands (atEndToken_of_standsAt hstands hnotEnd)
        exact (pending_tokenIngoingAt hsv hpending hlookup hend
          fun heq => hnamed (heq ▸ helement)).steady
            fun t ht => atEndToken_of_standsAt ht hnotEnd
    · obtain rfl : elementId' = elementId := Option.some.inj (helement'.symm.trans helement)
      obtain rfl : element' = element := Except.ok.inj (hnode'.symm.trans hnode)
      rw [htype]
      have hsame : endState (tokenIngoingAt sv "bpmn:parallelGateway" m.newState elementId'
          (m.newState.literalOrEmpty "bpmn:hasProcess") processInstance nt w) = w :=
        endState_tokenIngoingToParallelGateway_of_joined hgone
      rw [hsame]
      exact h

end Steps

/-! ## From the start on -/

section Runs

variable {sv : Services} {nt : IndexedNodeTree} {w w' : World}

theorem startTokens_ok (hsv : MakesNew sv) {els : List XNode}
    {processInstance started : IndividualObj}
    (hrun : startTokens sv nt els processInstance w = .ok started w') :
    started.uri = processInstance.uri ∧ w.made ≤ w'.made ∧ w'.ended = w.ended ∧
      (∀ uri, (∀ n, w.made ≤ n → uri ≠ sv.newUri "wd:tk_" n) →
        w'.individuals.lookup uri = w.individuals.lookup uri) ∧
      ∃ ids, (started.literals "bpmn:hasToken").getD [] =
          (processInstance.literals "bpmn:hasToken").getD [] ++ ids ∧
        ∀ id ∈ ids, w'.HasMade sv "wd:tk_" id ∧ w'.atEnd nt id = false := by
  induction els generalizing processInstance w with
  | nil =>
    cases hrun
    exact ⟨rfl, le_rfl, rfl, fun _ _ => rfl, [], (List.append_nil _).symm,
      fun _ h => (List.not_mem_nil h).elim⟩
  | cons el els ih =>
    obtain ⟨uri, w₁, hcreate, hrest⟩ := run_bind_ok.mp hrun
    cases hcreate
    set uri := sv.newUri "wd:tk_" w.made with huri
    set token := newToken uri nt.id processInstance.uri el.id el.id with htoken
    obtain ⟨hstarted, hmade, hended, hframe, ids, hids, hnew⟩ := ih hrest
    have hmade' : w.made + 1 ≤ w'.made := hmade
    refine ⟨hstarted, Nat.le_of_succ_le hmade', hended, fun other hother => ?_, uri :: ids, ?_,
      fun id hid => ?_⟩
    · rw [hframe other fun n hn => hother n (Nat.le_of_succ_le hn)]
      exact lookup_put_ne _ .put "go-prepare" (hother w.made le_rfl)
    · have hadd := literals_links [uri] processInstance "bpmn:hasToken" (.inl (by simp))
      rw [List.foldl_cons, List.foldl_nil] at hadd
      rw [hids, hadd, Option.getD_some, List.append_assoc]
      rfl
    · rcases List.mem_cons.mp hid with rfl | hid
      · refine ⟨⟨w.made, hmade', rfl⟩, ?_⟩
        have hlater : ∀ n, w.made + 1 ≤ n → uri ≠ sv.newUri "wd:tk_" n := fun n hn heq =>
          absurd (hsv.unique _ (by decide) _ (by decide) _ _ heq).2
            (Nat.ne_of_lt (Nat.lt_of_succ_le hn))
        have hstored : w'.individuals.lookup uri = some token :=
          (hframe uri hlater).trans (lookup_put_self ..)
        rw [World.atEnd, hstored]
        rfl
      · exact hnew id hid

theorem lookup_addUri_ne (obj : IndividualObj) {p q : String} (h : q ≠ p) (v : String) :
    (obj.addUri p v).resources.lookup q = obj.resources.lookup q := by
  rw [IndividualObj.addUri, IndividualObj.lookup_addValue, if_neg h]

theorem newProcessInstance_hasToken (uri : String) (parentToken : Option IndividualObj)
    (nt : IndexedNodeTree) {inputVariables : IndividualObj}
    (h : inputVariables.resources.lookup "bpmn:hasToken" = none) :
    (newProcessInstance uri parentToken inputVariables nt).uri = uri ∧
      (newProcessInstance uri parentToken inputVariables nt).resources.lookup "bpmn:hasToken" =
        none := by
  have hbase : (((inputVariables.setId uri).setUri "rdf:type" "bpmn:ProcessInstance").addUri
      "bpmn:instanceOf" nt.id).resources.lookup "bpmn:hasToken" = none := by
    rw [lookup_addUri_ne _ (by decide), IndividualObj.setUri, IndividualObj.lookup_setValue,
      if_neg (by decide), IndividualObj.lookup_setId, h]
  cases parentToken with
  | none => exact ⟨rfl, hbase⟩
  | some token => exact ⟨rfl, (lookup_addUri_ne _ (by decide) _).trans hbase⟩

/-- **A process instance that starts** is not finished and was not ended. -/
theorem steady_startProcess (hsv : MakesNew sv) {startFormUri : Option String}
    {parentToken : Option IndividualObj} {inputVariables : IndividualObj} {w₀ : World}
    (hvariables : inputVariables.resources.lookup "bpmn:hasToken" = none)
    (hnew : sv.newUri "wd:pr_" w₀.made ∉ w₀.ended)
    (hstart : startProcess sv startFormUri parentToken inputVariables nt w₀ = .ok () w) :
    Steady sv nt (sv.newUri "wd:pr_" w₀.made) w := by
  set instanceUri := sv.newUri "wd:pr_" w₀.made with hinstanceUri
  obtain ⟨uri, w₁, hmake, hrest⟩ := run_bind_ok.mp hstart
  cases hmake
  obtain ⟨inst, w₂, hform, hrest⟩ := run_bind_ok.mp hrest
  -- Nothing but the start form has changed, and there are no tokens yet.
  obtain ⟨hmade₂, hended₂, huri₂, hnone⟩ : w₂.made = w₀.made + 1 ∧ w₂.ended = w₀.ended ∧
      inst.uri = instanceUri ∧ inst.resources.lookup "bpmn:hasToken" = none := by
    obtain ⟨huri, hnone⟩ := newProcessInstance_hasToken instanceUri parentToken nt hvariables
    cases startFormUri with
    | none =>
      cases hform
      exact ⟨rfl, rfl, huri, hnone⟩
    | some form =>
      obtain ⟨_, w₃, hupdate, hform⟩ := run_bind_ok.mp hform
      obtain ⟨prev, -, -, rfl⟩ := update_partial_ok sv rfl hupdate
      cases hform
      exact ⟨rfl, rfl, huri, (lookup_addUri_ne _ (by decide) _).trans hnone⟩
  obtain ⟨started, w₃, htokens, hput⟩ := run_bind_ok.mp hrest
  cases hput
  obtain ⟨hstarted, hmade, hended, -, ids, hids, hopen⟩ := startTokens_ok hsv htokens
  have huri : started.uri = instanceUri := hstarted.trans huri₂
  have hlist : tokensOf (w₃.put .put "start-process" started) instanceUri = ids := by
    rw [tokensOf, ← huri, lookup_put_self, Option.bind_some, hids, IndividualObj.literals, hnone]
    rfl
  have hinstance : World.HasMade sv (w₃.put .put "start-process" started) "wd:pr_" instanceUri :=
    ⟨w₀.made, Nat.lt_of_lt_of_le (hmade₂ ▸ Nat.lt_succ_self _) hmade, rfl⟩
  refine ⟨hinstance, fun id hid => (hopen id (hlist ▸ hid)).1, fun hfinished => ?_, fun _ => ?_⟩
  · obtain ⟨hne, hall⟩ := hfinished
    rw [hlist] at hne hall
    obtain ⟨id, hid⟩ := List.exists_mem_of_ne_nil ids hne
    obtain ⟨hmadeId, hopenId⟩ := hopen id hid
    have hidNe : id ≠ started.uri := huri ▸ (hsv.ne_of_hasMade hinstance hmadeId).symm
    have htrue := hall id hid
    rw [World.atEnd, lookup_put_ne _ _ _ hidNe, ← World.atEnd, hopenId] at htrue
    cases htrue
  · rw [ended_put, hended, hended₂]
    exact List.count_eq_zero.mpr hnew

/-- **Every run** of a process instance keeps it ended exactly when it is finished. -/
theorem Steady.run {instanceUri : String} (h : Steady sv nt instanceUri w) (hsv : MakesNew sv)
    {events : List ProcessEvent}
    (hevents : AllProcess sv (fun w e => e.IsOf sv nt instanceUri w) w events)
    (hsees : AllProcess sv (fun w e => e.Sees nt instanceUri w) w events) :
    Steady sv nt instanceUri (runProcess sv w events) := by
  induction events generalizing w with
  | nil => exact h
  | cons e events ih =>
    have hstep : Steady sv nt instanceUri (e.step sv w) := by
      cases e with
      | handled m => exact h.handled hsv hevents.1 hsees.1
      | elsewhere w' => exact h.elsewhere hevents.1
    exact ih hstep hevents.2 hsees.2

theorem AllProcess.of_prefix {C : World → ProcessEvent → Prop} {past events : List ProcessEvent}
    (hpast : past <+: events) (h : AllProcess sv C w events) : AllProcess sv C w past := by
  induction past generalizing w events with
  | nil => trivial
  | cons e past ih =>
    obtain ⟨rest, rfl⟩ := hpast
    exact ⟨h.1, ih (List.prefix_append ..) h.2⟩

/-- **A process instance is ended once, when it is finished**, in every run in which its end events
see the end. -/
theorem endedWhenFinished_of_seesEnd (hsv : MakesNew sv) {startFormUri : Option String}
    {parentToken : Option IndividualObj} {inputVariables : IndividualObj} {w₀ : World}
    (hvariables : inputVariables.resources.lookup "bpmn:hasToken" = none)
    (hnew : sv.newUri "wd:pr_" w₀.made ∉ w₀.ended)
    (hstart : startProcess sv startFormUri parentToken inputVariables nt w₀ = .ok () w)
    {events : List ProcessEvent}
    (hevents : AllProcess sv (fun w e => e.IsOf sv nt (sv.newUri "wd:pr_" w₀.made) w) w events)
    (hsees : AllProcess sv (fun w e => e.Sees nt (sv.newUri "wd:pr_" w₀.made) w) w events) :
    ∀ past, past <+: events →
      EndedWhenFinished nt (sv.newUri "wd:pr_" w₀.made) (runProcess sv w past) := by
  intro past hpast
  have hsteady := steady_startProcess hsv hvariables hnew hstart
  exact (hsteady.run hsv (hevents.of_prefix hpast) (hsees.of_prefix hpast)).ended

end Runs

/-! ## One end event and two -/

/-- A start event with some flows. -/
def startNode (flows : List String) : XNode :=
  .mk "start" "bpmn:startEvent" ∅ (flows.map fun f =>
    .mk "" "bpmn:outgoing" ((∅ : HashMap String String).insert "value" f) [])

/-- An end event. -/
def endNode (id : String) : XNode := .mk id "bpmn:endEvent" ∅ []

/-- A flow that goes to an element. -/
def flowTo (id target : String) : XNode :=
  .mk id "bpmn:sequenceFlow" ((∅ : HashMap String String).insert "targetRef" target) []

/-- A process that goes from its start to one end event. -/
def lineTree : IndexedNodeTree where
  id := "d:process"
  id2nodeId := (((∅ : HashMap String XNode).insert "start" (startNode ["flow1"])).insert "end1"
    (endNode "end1")).insert "flow1" (flowTo "flow1" "end1")

/-- A process that goes from its start to two end events. -/
def forkTree : IndexedNodeTree where
  id := "d:process"
  id2nodeId := (((((∅ : HashMap String XNode).insert "start"
    (startNode ["flow1", "flow2"])).insert "end1" (endNode "end1")).insert "end2"
    (endNode "end2")).insert "flow1" (flowTo "flow1" "end1")).insert "flow2" (flowTo "flow2" "end2")

/-- The world with nothing but the process. -/
def processWorld : World :=
  .of [(IndividualObj.empty.setId "d:process").addUri "rdf:type" "bpmn:Process"]

/-- A token that is announced at an element. -/
def announced (uri source element : String) : Message :=
  ⟨.put, "go-prepare", newToken uri "d:process" "wd:pr_" source element⟩

/-- A token that is announced as completed at an element. -/
def announcedDone (uri source element : String) : Message :=
  ⟨.put, "go-prepare", (newToken uri "d:process" "wd:pr_" source element).setBool
    "bpmn:isCompleted" true⟩

theorem makesNew_countingServices (nt : IndexedNodeTree) (executors : List String) :
    MakesNew (countingServices nt executors) where
  unique := by
    intro s hs s' hs' m n heq
    -- The starts are told apart by their fourth characters.
    have hlong : uriStarts.all (fun s => 3 < s.toList.length) = true := by decide +kernel
    have hapart : uriStarts.all (fun s => uriStarts.all fun s' =>
        s.toList[3]? = s'.toList[3]? → s = s') = true := by decide +kernel
    have hlist : s.toList ++ List.replicate m 'a' = s'.toList ++ List.replicate n 'a' := by
      have := congrArg String.toList heq
      simpa [countingServices] using this
    have hchar : ∀ s ∈ uriStarts, ∀ l : List Char, (s.toList ++ l)[3]? = s.toList[3]? :=
      fun s hs l => List.getElem?_append_left (of_decide_eq_true (List.all_eq_true.mp hlong s hs))
    have hstart : s = s' := by
      refine of_decide_eq_true (List.all_eq_true.mp (List.all_eq_true.mp hapart s hs) s' hs') ?_
      rw [← hchar s hs (List.replicate m 'a'), hlist, hchar s' hs']
    subst hstart
    refine ⟨rfl, ?_⟩
    simpa using congrArg List.length (List.append_cancel_left hlist)
  nonempty := by
    intro n heq
    have := congrArg String.toList heq
    simp [countingServices] at this
  forms := by
    intro script w form hform n
    cases hform
    constructor
    all_goals
      intro heq
      have := congrArg String.toList heq
      simp [countingServices, IndividualObj.empty] at this

theorem isOfToken_of_first {nt : IndexedNodeTree} {m : Message} {w : World}
    (hqueued : m ∈ w.queue) (hisToken : "bpmn:Token" ∈ (m.newState.literals "rdf:type").getD [])
    (hinstance : m.newState.literalOrEmpty "bpmn:hasProcessInstance" = "wd:pr_")
    (hparent : ((w.individuals.lookup "wd:pr_").bind fun obj =>
      obj.firstLiteral "bpmn:parentToken") = none) :
    IsOfToken (countingServices nt []) nt "wd:pr_" m w where
  queued := hqueued
  isToken := hisToken
  noForm := rfl
  ofInstance := hinstance
  ofProcess := fun _ _ => rfl
  caller := by
    intro processInstance parent hlookup hcaller
    rw [hlookup, Option.bind_some, hcaller] at hparent
    cases hparent

/-- The announcements of the first token. -/
def lineEvents : List ProcessEvent :=
  [.handled (announced "wd:tk_a" "start" "start"),
    .handled (announcedDone "wd:tk_a" "start" "start"),
    .handled (announced "wd:tk_a" "start" "end1")]

/-- With two end events there is a second token. -/
def forkEvents : List ProcessEvent :=
  lineEvents ++ [.handled (announced "wd:tk_aa" "start" "end2")]

/-- The world in which a process was started. -/
def startedWorld (nt : IndexedNodeTree) : World :=
  endState (startProcess (countingServices nt []) none none .empty nt processWorld)

theorem isOf_lineEvents :
    AllProcess (countingServices lineTree [])
      (fun w e => e.IsOf (countingServices lineTree []) lineTree "wd:pr_" w)
      (startedWorld lineTree) lineEvents :=
  ⟨isOfToken_of_first (List.mem_of_getElem? (i := 0) rfl) (by decide +kernel) rfl rfl,
    isOfToken_of_first (List.mem_of_getElem? (i := 2) rfl) (by decide +kernel) rfl rfl,
    isOfToken_of_first (List.mem_of_getElem? (i := 3) rfl) (by decide +kernel) rfl rfl, trivial⟩

theorem seesEnd_of_alone {nt : IndexedNodeTree} {token : IndividualObj} {w : World}
    {elementId : String} {element : XNode}
    (htokens : tokensOf w "wd:pr_" = [token.uri])
    (hstored : (w.individuals.lookup token.uri).any fun stored =>
      stored.firstLiteral "bpmn:elementId" = token.firstLiteral "bpmn:elementId" ∧
        isExistsBool stored "bpmn:isCompleted" true = isExistsBool token "bpmn:isCompleted" true)
    (helement : token.firstLiteral "bpmn:elementId" = some elementId)
    (hnode : nt.getIdxOfId elementId = .ok element)
    (hstays : element.tag = "bpmn:endEvent" → outgoingOf element = [])
    (hnamed : elementId ≠ "bpmn:endEvent") : SeesEnd nt "wd:pr_" token w where
  known := by
    obtain ⟨stored, hlookup, hsame⟩ := (Option.any_eq_true _ _).mp hstored
    obtain ⟨hsameElement, hsameMark⟩ := of_decide_eq_true hsame
    exact .inl ⟨htokens ▸ List.mem_singleton_self _, stored, hlookup, hsameElement, hsameMark⟩
  sees := by
    intro _ _ _ _
    have halone : ∀ P : String → Prop, ∀ id ∈ tokensOf w "wd:pr_", id ≠ token.uri → P id :=
      fun P id hid hne => absurd (List.mem_singleton.mp (htokens ▸ hid)) hne
    exact iff_of_true (halone _) (halone _)
  stays := by
    intro elementId' element' helement' hnode' hend _
    obtain rfl : elementId' = elementId := Option.some.inj (helement'.symm.trans helement)
    obtain rfl : element' = element := Except.ok.inj (hnode'.symm.trans hnode)
    exact hstays hend
  named := by
    rw [helement]
    exact fun heq => hnamed (Option.some.inj heq)

theorem sees_lineEvents :
    AllProcess (countingServices lineTree []) (fun w e => e.Sees lineTree "wd:pr_" w)
      (startedWorld lineTree) lineEvents := by
  refine ⟨fun _ => seesEnd_of_alone rfl (by decide +kernel) rfl rfl ?_ (by decide),
    fun _ => seesEnd_of_alone rfl (by decide +kernel) rfl rfl ?_ (by decide),
    fun _ => seesEnd_of_alone rfl (by decide +kernel) rfl rfl (fun _ => rfl) (by decide), trivial⟩
  all_goals
    intro h
    exact absurd h (by decide)

/-- A process with one end event is ended when its token has come there. -/
theorem endedWhenFinished_line :
    EndedWhenFinished lineTree "wd:pr_"
      (runProcess (countingServices lineTree []) (startedWorld lineTree) lineEvents) :=
  endedWhenFinished_of_seesEnd (makesNew_countingServices lineTree []) rfl (List.not_mem_nil)
    (show startProcess (countingServices lineTree []) none none .empty lineTree processWorld =
      .ok () (startedWorld lineTree) from rfl) isOf_lineEvents sees_lineEvents lineEvents
    (List.prefix_refl _)

theorem isOf_forkEvents :
    AllProcess (countingServices forkTree [])
      (fun w e => e.IsOf (countingServices forkTree []) forkTree "wd:pr_" w)
      (startedWorld forkTree) forkEvents := by
  refine ⟨isOfToken_of_first (List.mem_of_getElem? (i := 0) rfl) (by decide +kernel) rfl rfl,
    isOfToken_of_first (List.mem_of_getElem? (i := 2) rfl) (by decide +kernel) rfl rfl,
    isOfToken_of_first (List.mem_of_getElem? (i := 3) rfl) (by decide +kernel) rfl rfl,
    isOfToken_of_first (List.mem_of_getElem? (i := 4) rfl) (by decide +kernel) rfl rfl, trivial⟩

/-- **With two end events** a process instance is never ended. -/
theorem not_endedWhenFinished :
    ¬ ∀ (sv : Services) (nt : IndexedNodeTree) (startFormUri : Option String)
      (parentToken : Option IndividualObj) (inputVariables : IndividualObj) (w₀ w : World)
      (events : List ProcessEvent), MakesNew sv →
      inputVariables.resources.lookup "bpmn:hasToken" = none →
      sv.newUri "wd:pr_" w₀.made ∉ w₀.ended →
      startProcess sv startFormUri parentToken inputVariables nt w₀ = .ok () w →
      AllProcess sv (fun w e => e.IsOf sv nt (sv.newUri "wd:pr_" w₀.made) w) w events →
      ∀ past, past <+: events →
        EndedWhenFinished nt (sv.newUri "wd:pr_" w₀.made) (runProcess sv w past) := by
  intro hall
  have hfork := hall (countingServices forkTree []) forkTree none none .empty processWorld
    (startedWorld forkTree) forkEvents (makesNew_countingServices forkTree []) rfl List.not_mem_nil
    rfl isOf_forkEvents forkEvents (List.prefix_refl _)
  have hfinished : Finished forkTree "wd:pr_"
      (runProcess (countingServices forkTree []) (startedWorld forkTree) forkEvents) := by
    have htokens : tokensOf (runProcess (countingServices forkTree []) (startedWorld forkTree)
        forkEvents) "wd:pr_" = ["wd:tk_a", "wd:tk_aa"] := rfl
    rw [Finished, htokens]
    refine ⟨List.cons_ne_nil _ _, fun id hid => ?_⟩
    rcases List.mem_cons.mp hid with rfl | hid
    · decide +kernel
    · rw [List.mem_singleton.mp hid]
      decide +kernel
  have hcount : (runProcess (countingServices forkTree []) (startedWorld forkTree)
      forkEvents).ended = [] := rfl
  have hone := hfork.1 hfinished
  rw [hcount] at hone
  cases hone

end Veda.NanoBpmn
