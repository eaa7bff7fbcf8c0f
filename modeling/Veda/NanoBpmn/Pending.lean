import Veda.NanoBpmn.Gateway

set_option autoImplicit false

/-!
# A process instance with a token that is not at its end

As long as one token of a process instance stands at an element that is no end event, the instance is
not ended, whatever the engine does with this token.

## Main definitions

* `NanoBpmn.MakesNew` — identifiers are made once.
* `NanoBpmn.Pending` — a process instance is not ended, and one of its tokens has a property.
* `NanoBpmn.StandsAt` — a token stands at an element.

## Main results

* `NanoBpmn.keeps_tokenIngoingToUserTask`, `NanoBpmn.keeps_tokenIngoingToCallActivity`,
  `NanoBpmn.pending_tokenIngoingToParallelGateway` — the elements keep the instance pending.
* `NanoBpmn.keeps_forwardAlong` — so does the way along the flows.
-/

namespace Veda.NanoBpmn

open Veda.Lib Veda.Onto
open Veda.Mstorage (IndvOp indvApplyCmd lookup_indvApplyCmd isEmpty_of_lookup)

/-! ## Pending process instances -/

/-- The starts of the identifiers that the engine makes. -/
def uriStarts : List String := ["wd:tk_", "wd:pr_", "wd:wo_", "wd:f_", "wd:r_"]

/-- No identifier is made twice, and scripts make no tokens and no process instances. -/
structure MakesNew (sv : Services) : Prop where
  unique : ∀ s ∈ uriStarts, ∀ s' ∈ uriStarts, ∀ m n,
    sv.newUri s m = sv.newUri s' n → s = s' ∧ m = n
  nonempty : ∀ n, sv.newUri "wd:tk_" n ≠ ""
  forms : ∀ script w form, sv.runIndividual script w = some form →
    ∀ n, form.uri ≠ sv.newUri "wd:tk_" n ∧ form.uri ≠ sv.newUri "wd:pr_" n

/-- An identifier was made. -/
def World.HasMade (sv : Services) (w : World) (start uri : String) : Prop :=
  ∃ n < w.made, uri = sv.newUri start n

/-- A process instance is not ended, and one of its tokens is stored with a property. -/
structure Pending (sv : Services) (instanceUri tokenUri : String) (K : IndividualObj → Prop)
    (w : World) : Prop where
  instanceMade : w.HasMade sv "wd:pr_" instanceUri
  tokensMade : ∀ id ∈ tokensOf w instanceUri, w.HasMade sv "wd:tk_" id
  listed : tokenUri ∈ tokensOf w instanceUri
  stored : ∃ token, w.individuals.lookup tokenUri = some token ∧ K token
  notEnded : w.ended.count instanceUri = 0

/-- A token stands at an element. -/
def StandsAt (elementId : String) (token : IndividualObj) : Prop :=
  token.firstLiteral "bpmn:elementId" = some elementId

section Worlds

variable {sv : Services} {instanceUri tokenUri elementId : String} {K : IndividualObj → Prop}
  {w : World}

theorem World.HasMade.mono {w' : World} {start uri : String} (h : w.HasMade sv start uri)
    (hle : w.made ≤ w'.made) : w'.HasMade sv start uri :=
  h.imp fun _ hn => ⟨hn.1.trans_le hle, hn.2⟩

theorem MakesNew.ne_of_hasMade (hsv : MakesNew sv) {uri uri' : String}
    (h : w.HasMade sv "wd:pr_" uri) (h' : w.HasMade sv "wd:tk_" uri') : uri ≠ uri' := by
  obtain ⟨m, -, rfl⟩ := h
  obtain ⟨n, -, rfl⟩ := h'
  intro heq
  exact absurd (hsv.unique _ (by decide) _ (by decide) m n heq).1 (by decide)

theorem MakesNew.ne_newUri (hsv : MakesNew sv) {start start' uri : String}
    (hstart : start ∈ uriStarts) (hstart' : start' ∈ uriStarts) (h : w.HasMade sv start uri) :
    sv.newUri start' w.made ≠ uri := by
  obtain ⟨n, hn, rfl⟩ := h
  intro heq
  exact absurd (hsv.unique _ hstart' _ hstart _ _ heq).2 hn.ne'

theorem Pending.instance_ne (h : Pending sv instanceUri tokenUri K w) (hsv : MakesNew sv) :
    instanceUri ≠ tokenUri :=
  hsv.ne_of_hasMade h.instanceMade (h.tokensMade _ h.listed)

theorem Pending.congr {w' : World} (h : Pending sv instanceUri tokenUri K w)
    (hmade : w.made ≤ w'.made) (hended : w'.ended = w.ended)
    (hinstance : w'.individuals.lookup instanceUri = w.individuals.lookup instanceUri)
    (htoken : w'.individuals.lookup tokenUri = w.individuals.lookup tokenUri) :
    Pending sv instanceUri tokenUri K w' := by
  have htokens : tokensOf w' instanceUri = tokensOf w instanceUri := by
    rw [tokensOf, hinstance, tokensOf]
  refine ⟨h.instanceMade.mono hmade, fun id hid => ?_, htokens ▸ h.listed, htoken ▸ h.stored,
    hended ▸ h.notEnded⟩
  exact (h.tokensMade id (htokens ▸ hid)).mono hmade

theorem Pending.put_ne (h : Pending sv instanceUri tokenUri K w) (cmd : IndvOp) (src : String)
    {state : IndividualObj} (hinstance : state.uri ≠ instanceUri) (htoken : state.uri ≠ tokenUri) :
    Pending sv instanceUri tokenUri K (w.put cmd src state) :=
  h.congr le_rfl rfl (lookup_put_ne w cmd src hinstance.symm)
    (lookup_put_ne w cmd src htoken.symm)

theorem Pending.put_token (h : Pending sv instanceUri tokenUri K w) (hsv : MakesNew sv)
    (cmd : IndvOp) (src : String) {state : IndividualObj} (huri : state.uri = tokenUri)
    (hstate : K state) : Pending sv instanceUri tokenUri K (w.put cmd src state) := by
  have hinstance : (w.put cmd src state).individuals.lookup instanceUri =
      w.individuals.lookup instanceUri :=
    lookup_put_ne w cmd src (huri ▸ h.instance_ne hsv)
  have htokens : tokensOf (w.put cmd src state) instanceUri = tokensOf w instanceUri := by
    rw [tokensOf, hinstance, tokensOf]
  refine ⟨h.instanceMade, fun id hid => h.tokensMade id (htokens ▸ hid), htokens ▸ h.listed,
    ⟨state, ?_, hstate⟩, h.notEnded⟩
  rw [← huri]
  exact lookup_put_self ..

theorem Pending.put_instance (h : Pending sv instanceUri tokenUri K w) (hsv : MakesNew sv)
    (cmd : IndvOp) (src : String) {state : IndividualObj} {ids : List String}
    (huri : state.uri = instanceUri) (hstate : state.literals "bpmn:hasToken" = some ids)
    (hlisted : tokenUri ∈ ids) (hmade : ∀ id ∈ ids, w.HasMade sv "wd:tk_" id) :
    Pending sv instanceUri tokenUri K (w.put cmd src state) := by
  have htokens : tokensOf (w.put cmd src state) instanceUri = ids := by
    rw [tokensOf, ← huri, lookup_put_self, Option.bind_some, hstate, Option.getD_some]
  refine ⟨h.instanceMade, fun id hid => hmade id (htokens ▸ hid), htokens ▸ hlisted, ?_,
    h.notEnded⟩
  rw [lookup_put_ne w cmd src (huri ▸ (h.instance_ne hsv).symm)]
  exact h.stored

theorem Pending.remove_ne (h : Pending sv instanceUri tokenUri K w) (src : String)
    {state : IndividualObj} (hinstance : state.uri ≠ instanceUri) (htoken : state.uri ≠ tokenUri) :
    Pending sv instanceUri tokenUri K (w.remove src state) :=
  h.congr le_rfl rfl (AList.lookup_erase_ne hinstance.symm) (AList.lookup_erase_ne htoken.symm)

end Worlds

/-! ## Commands -/

section Commands

variable {sv : Services} {instanceUri tokenUri elementId : String} {K : IndividualObj → Prop}

theorem keeps_getIndividual (P : World → Prop) (uri : String) :
    Keeps P (fun obj => obj.uri = uri) (getIndividual uri) := by
  refine fun w hw => ⟨?_, fun obj w' h => ?_⟩
  · unfold getIndividual
    split <;> exact hw
  · obtain ⟨-, hlookup, -⟩ := getIndividual_ok h
    exact w.keyed _ _ hlookup

theorem keeps_orStop {α : Type} (P : World → Prop) (x : Except String α) :
    Keeps P (fun a => x = .ok a) (orStop x) := by
  cases x with
  | ok a => exact Keeps.pure rfl
  | error e => exact Keeps.throw e

theorem keeps_generateUniqueUri (hsv : MakesNew sv) {start : String} (hstart : start ∈ uriStarts) :
    Keeps (Pending sv instanceUri tokenUri K) (fun uri => uri ≠ instanceUri ∧ uri ≠ tokenUri)
      (generateUniqueUri sv start) := by
  refine fun w hw => ⟨hw.congr (Nat.le_succ _) rfl rfl rfl, fun uri w' h => ?_⟩
  cases h
  exact ⟨hsv.ne_newUri (by decide) hstart hw.instanceMade,
    hsv.ne_newUri (by decide) hstart (hw.tokensMade _ hw.listed)⟩

theorem keeps_update_put (src : String) {indv : IndividualObj} (hinstance : indv.uri ≠ instanceUri)
    (htoken : indv.uri ≠ tokenUri) :
    Keeps (Pending sv instanceUri tokenUri K) (fun _ => True) (update sv src .put indv) :=
  fun _ hw => ⟨hw.put_ne .put src hinstance htoken, fun _ _ _ => trivial⟩

theorem keeps_update_setIn (hsv : MakesNew sv) (src : String) {indv : IndividualObj}
    (hinstance : indv.uri ≠ instanceUri)
    (helement : indv.resources.lookup "bpmn:elementId" = none) :
    Keeps (Pending sv instanceUri tokenUri (StandsAt elementId)) (fun _ => True)
      (update sv src .setIn indv) := by
  refine fun w hw => ⟨?_, fun _ _ _ => trivial⟩
  cases hrun : update sv src .setIn indv w with
  | error e w' =>
    rw [endState_error, update_error sv hrun]
    exact hw
  | ok _ w' =>
    obtain ⟨prev, hprev, hempty, rfl⟩ := update_partial_ok sv rfl hrun
    have huri : (indvApplyCmd sv.order .setIn prev indv).uri = indv.uri := by
      rw [uri_indvApplyCmd]
      exact w.keyed _ _ hprev
    by_cases htoken : indv.uri = tokenUri
    · obtain ⟨token, hlookup, hstands⟩ := hw.stored
      obtain rfl : prev = token := by
        rw [htoken] at hprev
        exact Option.some.inj (hprev.symm.trans hlookup)
      refine hw.put_token hsv .put src (huri.trans htoken) ?_
      refine (IndividualObj.firstLiteral_congr ?_).trans hstands
      rw [lookup_setIn _ hempty (by decide), helement]
      rfl
    · exact hw.put_ne .put src (huri ▸ hinstance) (huri ▸ htoken)

theorem keeps_storeIsCompletedInto (hsv : MakesNew sv) (src : String) {uri : String}
    (huri : uri ≠ instanceUri) :
    Keeps (Pending sv instanceUri tokenUri (StandsAt elementId)) (fun _ => True)
      (storeIsCompletedInto sv uri true src) :=
  keeps_update_setIn hsv src huri rfl

theorem keeps_storeWorkOrderInto (hsv : MakesNew sv) (workOrderUri : String) {uri : String}
    (huri : uri ≠ instanceUri) :
    Keeps (Pending sv instanceUri tokenUri (StandsAt elementId)) (fun _ => True)
      (storeWorkOrderInto sv uri workOrderUri) :=
  keeps_update_setIn hsv _ huri rfl

end Commands

/-! ## Programs that read -/

section Reading

variable {sv : Services} (P : World → Prop)

theorem keeps_checkListeners (els : List XNode) : Keeps P (fun _ => True) (checkListeners els) := by
  induction els with
  | nil => exact Keeps.pure trivial
  | cons el els ih => exact (keeps_orStop P _).bind fun _ _ => ih

theorem keeps_userTaskListeners (token : IndividualObj) (elementId processUri : String)
    (processInstance : IndividualObj) (els : List XNode) (form : Option XNode)
    (executors : List String) :
    Keeps P (fun _ => True)
      (userTaskListeners sv token elementId processUri processInstance els form executors) := by
  induction els generalizing form executors with
  | nil => exact Keeps.pure trivial
  | cons el els ih =>
    unfold userTaskListeners
    refine (keeps_orStop P _).bind fun event _ => ?_
    split_ifs
    · exact ih _ _
    · exact (Keeps.get (Q := fun _ => True) fun _ _ => trivial).bind fun w _ => ih _ _
    · exact ih _ _

theorem uri_setVariable (vars : IndividualObj) (target : String) (values : List Resource) :
    (setVariable vars target values).uri = vars.uri := by
  unfold setVariable
  induction values generalizing vars with
  | nil => rfl
  | cons r values ih =>
    rw [List.foldl_cons, ih]
    split_ifs <;> rfl

theorem keeps_setVars (varTag : String) (token : IndividualObj) (elementId : String)
    (processInstance : IndividualObj) (processUri : String) (els : List XNode)
    (vars : IndividualObj) :
    Keeps P (fun vars' => vars'.uri = vars.uri)
      (setVars sv varTag token elementId processInstance processUri els vars) := by
  induction els generalizing vars with
  | nil => exact Keeps.pure rfl
  | cons el els ih =>
    unfold setVars
    split
    · exact ih vars
    · refine (keeps_orStop P _).bind fun target _ => ?_
      refine (Keeps.get (Q := fun _ => True) fun _ _ => trivial).bind fun w _ => ?_
      refine (ih _).weaken fun vars' huri => huri.trans ?_
      split
      · exact uri_setVariable ..
      · rfl

end Reading

/-! ## Elements -/

section Elements

variable {sv : Services} {instanceUri tokenUri elementId : String} (hsv : MakesNew sv)
include hsv

theorem keeps_createWorkOrder (processInstanceUri token element : String)
    (executorUri decisionFormUri : Option String) {K : IndividualObj → Prop} :
    Keeps (Pending sv instanceUri tokenUri K) (fun _ => True)
      (createWorkOrder sv processInstanceUri token element executorUri decisionFormUri) := by
  refine (keeps_generateUniqueUri hsv (by decide)).bind fun uri huri => ?_
  refine (keeps_update_put _ ?_ ?_).bind fun _ _ => Keeps.pure trivial
  · rw [uri_newWorkOrder]
    exact huri.1
  · rw [uri_newWorkOrder]
    exact huri.2

theorem keeps_addReceiver (appointment : IndividualObj) (predicate : String)
    (form : IndividualObj) {K : IndividualObj → Prop} :
    Keeps (Pending sv instanceUri tokenUri K) (fun form' => form'.uri = form.uri)
      (addReceiver sv appointment predicate form) := by
  unfold addReceiver
  split
  · refine Keeps.bind (Q := fun _ => True) ?_ fun _ _ => Keeps.pure rfl
    unfold addRight
    split_ifs
    · exact Keeps.throw _
    · refine (keeps_generateUniqueUri hsv (by decide)).bind fun uri huri => ?_
      exact keeps_update_put _ huri.1 huri.2
  · exact Keeps.pure rfl

theorem keeps_identifyForm (form : IndividualObj) {K : IndividualObj → Prop}
    (hform : form.uri ≠ instanceUri ∧ form.uri ≠ tokenUri) :
    Keeps (Pending sv instanceUri tokenUri K)
      (fun form' => form'.uri ≠ instanceUri ∧ form'.uri ≠ tokenUri) (identifyForm sv form) := by
  unfold identifyForm
  split_ifs
  · exact (keeps_generateUniqueUri hsv (by decide)).bind fun uri huri => Keeps.pure huri
  · exact Keeps.pure hform

/-- **One executor** of a user task. -/
theorem keeps_prepareExecutor (token : IndividualObj) (elementId' processUri : String)
    (processInstance : IndividualObj) (listener : Option XNode) (executor : String)
    (hne : token.uri ≠ instanceUri) :
    Keeps (Pending sv instanceUri tokenUri (StandsAt elementId)) (fun _ => True)
      (prepareExecutor sv token elementId' processUri processInstance listener executor) := by
  -- What a script makes is neither the process instance nor the token.
  have hforms : ∀ w, Pending sv instanceUri tokenUri (StandsAt elementId) w →
      ∀ script w' form, sv.runIndividual script w' = some form →
        form.uri ≠ instanceUri ∧ form.uri ≠ tokenUri := by
    intro w hw script w' form hmade
    obtain ⟨m, -, hm⟩ := hw.instanceMade
    obtain ⟨n, -, hn⟩ := hw.tokensMade _ hw.listed
    exact ⟨hm ▸ (hsv.forms script w' form hmade m).2, hn ▸ (hsv.forms script w' form hmade n).1⟩
  unfold prepareExecutor
  split
  · exact Keeps.throw _
  · next el =>
    refine (Keeps.get (Q := fun _ => ∀ script w' form, sv.runIndividual script w' = some form →
      form.uri ≠ instanceUri ∧ form.uri ≠ tokenUri) hforms).bind fun w hforms => ?_
    dsimp only
    split
    · exact Keeps.throw _
    · next form hform =>
      obtain ⟨text, -, hscript⟩ := Option.bind_eq_some_iff.mp hform
      refine (keeps_identifyForm hsv form (hforms _ _ _ hscript)).bind fun form₁ huri₁ => ?_
      refine (keeps_createWorkOrder hsv _ _ _ _ _).bind fun workOrder _ => ?_
      refine (keeps_getIndividual _ _).bind fun appointment _ => ?_
      refine (keeps_addReceiver hsv appointment _ _).bind fun form₂ huri₂ => ?_
      refine (keeps_addReceiver hsv appointment _ _).bind fun form₃ huri₃ => ?_
      have huri : form₃.uri = form₁.uri := huri₃.trans huri₂
      refine (keeps_update_put _ ?_ ?_).bind fun _ _ => keeps_storeWorkOrderInto hsv _ hne
      · rw [IndividualObj.setUri, IndividualObj.uri_setValue, huri]
        exact huri₁.1
      · rw [IndividualObj.setUri, IndividualObj.uri_setValue, huri]
        exact huri₁.2

theorem keeps_tokenIngoingToUserTask (token : IndividualObj) (elementId' processUri : String)
    (processInstance : IndividualObj) (nt : IndexedNodeTree) (hne : token.uri ≠ instanceUri) :
    Keeps (Pending sv instanceUri tokenUri (StandsAt elementId)) (fun _ => True)
      (tokenIngoingToUserTask sv token elementId' processUri processInstance nt) := by
  refine (keeps_orStop _ _).bind fun element _ => ?_
  refine (keeps_userTaskListeners _ _ _ _ _ _ _ _).bind fun found _ => ?_
  obtain ⟨listener, executors⟩ := found
  dsimp only
  induction executors with
  | nil => exact Keeps.pure trivial
  | cons executor executors ih =>
    exact (keeps_prepareExecutor hsv token elementId' processUri processInstance listener executor
      hne).bind fun _ _ => ih

theorem keeps_tokenIngoingToScriptTask (token : IndividualObj) (elementId' : String)
    (processInstance : IndividualObj) (nt : IndexedNodeTree) (hne : token.uri ≠ instanceUri) :
    Keeps (Pending sv instanceUri tokenUri (StandsAt elementId)) (fun _ => True)
      (tokenIngoingToScriptTask sv token elementId' processInstance nt) := by
  refine (keeps_orStop _ _).bind fun _ _ => ?_
  refine (keeps_createWorkOrder hsv _ _ _ _ _).bind fun workOrder _ => ?_
  refine (keeps_storeWorkOrderInto hsv _ hne).bind fun _ _ => ?_
  exact keeps_storeIsCompletedInto hsv _ hne

/-! ## Sub-processes -/

theorem keeps_createTokenAndStore_none (processUri processInstanceUri incoming element : String)
    {K : IndividualObj → Prop} :
    Keeps (Pending sv instanceUri tokenUri K) (fun _ => True)
      (createTokenAndStore sv none processUri processInstanceUri incoming element) := by
  refine (keeps_generateUniqueUri hsv (by decide)).bind fun uri huri => ?_
  exact (keeps_update_put _ huri.1 huri.2).bind fun _ _ => Keeps.pure trivial

theorem keeps_startTokens (nt : IndexedNodeTree) (els : List XNode)
    (processInstance : IndividualObj) {K : IndividualObj → Prop} :
    Keeps (Pending sv instanceUri tokenUri K) (fun started => started.uri = processInstance.uri)
      (startTokens sv nt els processInstance) := by
  induction els generalizing processInstance with
  | nil => exact Keeps.pure rfl
  | cons el els ih => exact (keeps_createTokenAndStore_none hsv _ _ _ _).bind fun uri _ => ih _

theorem keeps_startProcess (parentToken : Option IndividualObj) (inputVariables : IndividualObj)
    (nt : IndexedNodeTree) {K : IndividualObj → Prop} :
    Keeps (Pending sv instanceUri tokenUri K) (fun _ => True)
      (startProcess sv none parentToken inputVariables nt) := by
  refine (keeps_generateUniqueUri hsv (by decide)).bind fun uri huri => ?_
  have hinstance : (newProcessInstance uri parentToken inputVariables nt).uri = uri := by
    cases parentToken <;> rfl
  have hform : Keeps (Pending sv instanceUri tokenUri K) (fun started => started.uri = uri)
      (markStartForm sv none (newProcessInstance uri parentToken inputVariables nt)) :=
    Keeps.pure hinstance
  refine hform.bind fun processInstance hinstance => ?_
  refine (keeps_startTokens hsv nt _ processInstance).bind fun started hstarted => ?_
  have hstarted : started.uri = uri := hstarted.trans hinstance
  exact keeps_update_put _ (hstarted ▸ huri.1) (hstarted ▸ huri.2)

theorem keeps_tokenIngoingToCallActivity (token : IndividualObj) (elementId' processUri : String)
    (processInstance : IndividualObj) (nt : IndexedNodeTree) {K : IndividualObj → Prop} :
    Keeps (Pending sv instanceUri tokenUri K) (fun _ => True)
      (tokenIngoingToCallActivity sv token elementId' processUri processInstance nt) := by
  refine (keeps_orStop _ _).bind fun element _ => ?_
  split
  · exact Keeps.pure trivial
  · refine (keeps_setVars _ _ _ _ _ _ _ _).bind fun inputVariables _ => ?_
    refine (keeps_getIndividual _ _).bind fun process _ => ?_
    refine (keeps_orStop _ _).bind fun nt' _ => ?_
    exact keeps_startProcess hsv _ _ _

/-! ## Parallel gateways -/

omit hsv in
theorem splitTokens_cases (arriving element : String) (ids : List String) (w : World) :
    (∃ e, splitTokens arriving element ids w = .error e w) ∨
      ∃ incoming others, splitTokens arriving element ids w = .ok (incoming, others) w ∧
        (∀ t ∈ incoming, t.uri ∈ ids ∧ t.uri ≠ arriving) ∧ others ⊆ ids := by
  induction ids with
  | nil =>
    exact .inr ⟨[], [], rfl, fun _ h => (List.not_mem_nil h).elim, List.Subset.refl _⟩
  | cons id ids ih =>
    unfold splitTokens
    by_cases hid : id = arriving
    · rw [if_pos hid]
      obtain herror | ⟨incoming, others, hrun, hin, hothers⟩ := ih
      · exact .inl herror
      · exact .inr ⟨incoming, others, hrun,
          fun t ht => ⟨List.mem_cons_of_mem _ (hin t ht).1, (hin t ht).2⟩,
          List.Subset.trans hothers (List.subset_cons_self ..)⟩
    · rw [if_neg hid]
      cases hread : getIndividual id w with
      | error e w' =>
        have hsame : w' = w := by
          unfold getIndividual at hread
          split at hread
          · cases hread
          · cases hread
            rfl
        rw [run_bind_of_error _ hread, hsame]
        exact .inl ⟨e, rfl⟩
      | ok token w' =>
        obtain ⟨-, hlookup, rfl⟩ := getIndividual_ok hread
        have huri := w'.keyed _ _ hlookup
        rw [run_bind_of_ok _ hread]
        obtain ⟨e, herror⟩ | ⟨incoming, others, hrun, hin, hothers⟩ := ih
        · exact .inl ⟨e, run_bind_of_error _ herror⟩
        · have hin' : ∀ t ∈ incoming, t.uri ∈ id :: ids ∧ t.uri ≠ arriving := fun t ht =>
            ⟨List.mem_cons_of_mem _ (hin t ht).1, (hin t ht).2⟩
          have hothers' : others ⊆ id :: ids := List.Subset.trans hothers (List.subset_cons_self ..)
          rw [run_bind_of_ok _ hrun]
          right
          cases token.firstLiteral "bpmn:elementId" with
          | none => exact ⟨incoming, others, rfl, hin', hothers'⟩
          | some e =>
            dsimp only
            split_ifs
            · refine ⟨token :: incoming, others, rfl, fun t ht => ?_, hothers'⟩
              rcases List.mem_cons.mp ht with rfl | ht
              · exact ⟨huri ▸ List.mem_cons_self, huri ▸ hid⟩
              · exact hin' t ht
            · exact ⟨incoming, id :: others, rfl, hin', List.cons_subset.mpr
                ⟨List.mem_cons_self, hothers'⟩⟩

omit hsv in
theorem made_removed (tokens : List IndividualObj) (w : World) :
    (removed w tokens).made = w.made := by
  induction tokens generalizing w with
  | nil => rfl
  | cons t tokens ih => exact ih (w.remove "" t)

omit hsv in
theorem Pending.removed {K : IndividualObj → Prop} {tokens : List IndividualObj} {w : World}
    (h : Pending sv instanceUri tokenUri K w)
    (htokens : ∀ t ∈ tokens, t.uri ≠ instanceUri ∧ t.uri ≠ tokenUri) :
    Pending sv instanceUri tokenUri K (removed w tokens) := by
  induction tokens generalizing w with
  | nil => exact h
  | cons t tokens ih =>
    obtain ⟨hinstance, htoken⟩ := htokens t List.mem_cons_self
    exact ih (h.remove_ne "" hinstance htoken) fun u hu => htokens u (List.mem_cons_of_mem _ hu)

/-- **A parallel gateway** keeps the token that arrives, so it does not end the process. -/
theorem pending_tokenIngoingToParallelGateway {w : World} {token processInstance : IndividualObj}
    {processUri : String} {nt : IndexedNodeTree}
    (h : Pending sv processInstance.uri token.uri (StandsAt elementId) w)
    (hlookup : w.individuals.lookup processInstance.uri = some processInstance)
    (helement : elementId ≠ "bpmn:endEvent") :
    Pending sv processInstance.uri token.uri (StandsAt elementId)
      (endState (tokenIngoingToParallelGateway sv token elementId processUri processInstance nt
        w)) := by
  unfold tokenIngoingToParallelGateway
  cases htokenIds : processInstance.literals "bpmn:hasToken" with
  | none => exact h
  | some ids =>
    have htokens : tokensOf w processInstance.uri = ids := by
      rw [tokensOf, hlookup, Option.bind_some, htokenIds, Option.getD_some]
    have hmade : ∀ id ∈ ids, w.HasMade sv "wd:tk_" id := fun id hid =>
      h.tokensMade id (htokens ▸ hid)
    dsimp only
    cases nt.getIdxOfId elementId with
    | error e => exact h
    | ok element =>
      rw [run_bind_of_ok _ (show orStop (.ok element) w = .ok element w from rfl)]
      obtain ⟨e, herror⟩ | ⟨incoming, others, hsplit, hin, hothers⟩ :=
        splitTokens_cases token.uri elementId ids w
      · rw [run_bind_of_error _ herror]
        exact h
      · rw [run_bind_of_ok _ hsplit]
        dsimp only
        split_ifs
        swap
        · exact h
        obtain ⟨prev, hprev, hempty, hprevUri, hmark⟩ | ⟨-, hmark⟩ :=
          storeIsCompletedInto_cases sv token.uri "go-prepare" w
        swap
        · rw [run_bind_of_error _ hmark]
          exact h
        rw [run_bind_of_ok _ hmark]
        obtain ⟨stored, hstored, hstands⟩ := h.stored
        obtain rfl : prev = stored := Option.some.inj (hprev.symm.trans hstored)
        have h₁ : Pending sv processInstance.uri token.uri (StandsAt elementId)
            (w.put .put "go-prepare" (completedState sv prev)) := by
          refine h.put_token hsv .put _ ((uri_completedState sv prev).trans hprevUri) ?_
          exact (IndividualObj.firstLiteral_congr (lookup_completedState sv hempty (by decide)
            (by decide))).trans hstands
        rw [run_bind_of_ok _ (removeTokens_eq sv incoming _)]
        have hapart : ∀ t ∈ incoming, t.uri ≠ processInstance.uri ∧ t.uri ≠ token.uri :=
          fun t ht => ⟨(hsv.ne_of_hasMade h.instanceMade (hmade _ (hin t ht).1)).symm,
            (hin t ht).2⟩
        have h₂ := h₁.removed hapart
        have hinstance₂ : (removed (w.put .put "go-prepare" (completedState sv prev))
            incoming).individuals.lookup processInstance.uri = some processInstance := by
          rw [lookup_removed, if_neg, lookup_put_ne, hlookup]
          · rw [uri_completedState, hprevUri]
            exact h.instance_ne hsv
          · intro hmem
            obtain ⟨t, ht, heq⟩ := List.mem_map.mp hmem
            exact (hapart t ht).1 heq
        have hfull : processInstance.isEmpty = false := by
          obtain ⟨rs, hrs, -⟩ := Option.map_eq_some_iff.mp htokenIds
          exact isEmpty_of_lookup hrs
        obtain ⟨state, hstateUri, hset, hstate⟩ := tokensOf_setAndStoreTokenInto sv
          (List.cons_ne_nil token.uri others) hinstance₂ hfull
        rw [run_bind_of_ok _ hset]
        have h₃ := h₂.put_instance hsv .put "store-token-into" hstateUri hstate
          List.mem_cons_self fun id hid => by
            have hid' : id ∈ ids := by
              rcases List.mem_cons.mp hid with rfl | hid
              · exact htokens ▸ h.listed
              · exact hothers hid
            refine (hmade id hid').mono ?_
            rw [made_removed, made_put]
        obtain ⟨kept, hkept, hstands'⟩ := h₃.stored
        have hname : token.uri ≠ "" := by
          obtain ⟨n, -, hn⟩ := h.tokensMade _ h.listed
          exact hn ▸ hsv.nonempty n
        rw [run_bind_of_ok _ (checkTokensOfActivity_of_ne hname hkept hstands' helement)]
        exact h₃

/-! ## Flows -/

omit hsv in
theorem tokensOf_addAndStoreTokenInto {w : World} {prev : IndividualObj} {ids : List String}
    (hprev : w.individuals.lookup instanceUri = some prev)
    (hids : prev.literals "bpmn:hasToken" = some ids) (uri : String) :
    ∃ state ids', state.uri = instanceUri ∧
      addAndStoreTokenInto sv instanceUri uri w = .ok () (w.put .put "store-token-into" state) ∧
      state.literals "bpmn:hasToken" = some ids' ∧ ids ⊆ ids' ∧ ∀ id ∈ ids', id ∈ ids ∨ id = uri := by
  obtain ⟨rs, hrs, rfl⟩ := Option.map_eq_some_iff.mp hids
  obtain ⟨state, huri, hadd, hstate⟩ :=
    addAndStoreTokenInto_eq sv hprev (isEmpty_of_lookup hrs) uri
  rw [hrs, Option.getD_some] at hstate
  refine ⟨state, (IndividualObj.pushUnique rs [⟨.uri, .uri uri, 0⟩]).map fun r =>
    literalOf r.value, huri, hadd, ?_, ?_, ?_⟩
  · rw [IndividualObj.literals, hstate, Option.map_some]
  all_goals
    unfold IndividualObj.pushUnique
    rw [List.foldl_cons, List.foldl_nil]
    split_ifs
  · exact List.Subset.refl _
  · rw [List.map_append]
    exact List.subset_append_left ..
  · exact fun id hid => .inl hid
  · intro id hid
    rw [List.map_append] at hid
    exact (List.mem_append.mp hid).imp_right List.mem_singleton.mp

theorem Pending.addToken {K : IndividualObj → Prop} {w : World}
    (h : Pending sv instanceUri tokenUri K w) (processUri incoming element : String) :
    ∃ w', createTokenAndStore sv none processUri instanceUri incoming element w =
        .ok (sv.newUri "wd:tk_" w.made) w' ∧
      Pending sv instanceUri tokenUri K
        (endState (addAndStoreTokenInto sv instanceUri (sv.newUri "wd:tk_" w.made) w')) := by
  set uri := sv.newUri "wd:tk_" w.made with huri
  set w' := World.put { w with made := w.made + 1 } .put "go-prepare"
    (newToken uri processUri instanceUri incoming element) with hw'
  have hne : uri ≠ instanceUri := hsv.ne_newUri (by decide) (by decide) h.instanceMade
  have hne' : uri ≠ tokenUri :=
    hsv.ne_newUri (by decide) (by decide) (h.tokensMade _ h.listed)
  have hcounted : Pending sv instanceUri tokenUri K { w with made := w.made + 1 } :=
    h.congr (Nat.le_succ _) rfl rfl rfl
  have hstored : Pending sv instanceUri tokenUri K w' := hcounted.put_ne .put _ hne hne'
  have hmadeUri : w'.HasMade sv "wd:tk_" uri := ⟨w.made, Nat.lt_succ_self _, rfl⟩
  refine ⟨w', rfl, ?_⟩
  -- The list is not empty, so the process instance is stored with it.
  obtain ⟨prev, ids, hprev, hids, htokens⟩ : ∃ prev ids,
      w'.individuals.lookup instanceUri = some prev ∧ prev.literals "bpmn:hasToken" = some ids ∧
        tokensOf w' instanceUri = ids := by
    have hlisted := hstored.listed
    unfold tokensOf at hlisted ⊢
    cases hprev : w'.individuals.lookup instanceUri with
    | none =>
      rw [hprev] at hlisted
      exact (List.not_mem_nil hlisted).elim
    | some prev =>
      rw [hprev, Option.bind_some] at hlisted
      cases hids : prev.literals "bpmn:hasToken" with
      | none =>
        rw [hids] at hlisted
        exact (List.not_mem_nil hlisted).elim
      | some ids => exact ⟨prev, ids, rfl, hids, by rw [Option.bind_some, hids, Option.getD_some]⟩
  obtain ⟨state, ids', hstateUri, hadd, hstate, hsub, hall⟩ :=
    tokensOf_addAndStoreTokenInto hprev hids uri
  rw [hadd, endState_ok]
  refine hstored.put_instance hsv .put _ hstateUri hstate (hsub (htokens ▸ hstored.listed))
    fun id hid => ?_
  rcases hall id hid with hid | rfl
  · exact hstored.tokensMade id (htokens ▸ hid)
  · exact hmadeUri

theorem keeps_forwardOver {K : IndividualObj → Prop} {flow : XNode} {processUri element : String}
    (hK : ∀ uri target, K (newToken uri processUri instanceUri element target))
    {prevTokenUri : Option String} (hprev : ∀ uri, prevTokenUri = some uri → uri = tokenUri) :
    Keeps (Pending sv instanceUri tokenUri K) (fun prev => ∀ uri, prev = some uri → uri = tokenUri)
      (forwardOver sv flow processUri instanceUri element prevTokenUri) := by
  unfold forwardOver
  split
  · exact Keeps.pure hprev
  · next target _ =>
    intro w hw
    cases hcase : prevTokenUri with
    | some uri =>
      obtain rfl := hprev uri hcase
      refine ⟨hw.put_token hsv .put "go-prepare" rfl (hK uri target), fun prev w' h => ?_⟩
      cases h
      exact fun uri h => by cases h
    | none =>
      obtain ⟨w', hrun, hadded⟩ := hw.addToken hsv processUri element target
      rw [run_bind_of_ok _ hrun, if_pos rfl]
      cases hadd : addAndStoreTokenInto sv instanceUri (sv.newUri "wd:tk_" w.made) w' with
      | ok _ w₂ =>
        rw [hadd] at hadded
        rw [run_bind_of_ok _ hadd]
        refine ⟨hadded, fun prev w₃ h => ?_⟩
        cases h
        exact fun uri h => by cases h
      | error e w₂ =>
        rw [hadd] at hadded
        rw [run_bind_of_error _ hadd]
        exact ⟨hadded, fun prev w₃ h => by cases h⟩

/-- **Along the flows** the process instance stays pending. -/
theorem keeps_forwardAlong {K : IndividualObj → Prop} {token process : IndividualObj}
    {nt : IndexedNodeTree} {processUri element type : String}
    (hK : ∀ uri target, K (newToken uri processUri instanceUri element target))
    (outIds : List String) {prevTokenUri : Option String}
    (hprev : ∀ uri, prevTokenUri = some uri → uri = tokenUri) :
    Keeps (Pending sv instanceUri tokenUri K) (fun _ => True)
      (forwardAlong sv token process nt processUri instanceUri element type outIds
        prevTokenUri) := by
  induction outIds generalizing prevTokenUri with
  | nil => exact Keeps.pure trivial
  | cons outgoingId outIds ih =>
    unfold forwardAlong
    refine (keeps_orStop _ _).bind fun flow _ => ?_
    refine (Keeps.get (Q := fun _ => True) fun _ _ => trivial).bind fun w _ => ?_
    split_ifs
    · refine (keeps_forwardOver hsv hK hprev).bind fun prev hprev' => ?_
      exact Keeps.pure trivial
    · exact (keeps_forwardOver hsv hK hprev).bind fun prev hprev' => ih hprev'
    · exact ih hprev

end Elements

end Veda.NanoBpmn
