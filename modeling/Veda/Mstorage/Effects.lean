import Veda.Lib.Outcome
import Veda.Mstorage.Counters

set_option autoImplicit false

/-!
# What an operation does to the records

An operation on a storage in which every state can be read either changes nothing or stores one new
state under the uri of its individual. A removal that succeeds takes this state out again, so that
nothing is left of the individual; every other individual stays as it is.

## Main definitions

* `Mstorage.Server.recordOf` — the individual as which a stored state reads.

## Main results

* `Mstorage.records_operate` — the states can be read after an operation.
* `Mstorage.records_run` — whole runs.
* `Mstorage.lookup_operate_ne` — the other individuals stay.
* `Mstorage.recordOf_operate_put`, `Mstorage.lookup_operate_remove` — the individual.
-/

namespace Veda.Mstorage

open Veda.Lib Veda.Lib.Msgpack Veda.Onto

open Classical in
/-- The individual as which the stored state of an individual reads. -/
noncomputable def Server.recordOf (cbor : CborParser) (st : Server) (id : String) :
    Option IndividualObj :=
  (st.primary.lookup id).bind fun bytes =>
    if h : ∃ ctx prev, ctx.cbor = cbor ∧ readPrev ctx bytes = .ok (some prev) then
      some h.choose_spec.choose.obj
    else none

/-- The values of an individual are of the types that are given with them. -/
def IsTyped (obj : IndividualObj) : Prop :=
  ∀ p rs, obj.resources.lookup p = some rs → writtenOf rs = rs.map Resource.content

section Reading

variable {cbor : CborParser} {st : Server} {id : String}

theorem recordOf_eq {π : IterOrder String} {obj : IndividualObj}
    (hlookup : st.primary.lookup id = some (toMsgpack π obj)) (hfits : obj.AllFit) :
    st.recordOf cbor id = some (decoded π obj) := by
  obtain ⟨⟨fuel, prev, hread⟩, -⟩ :=
    readPrev_stored hfits ⟨cbor, 0, fun _ _ _ => .ok 0, "", false⟩ π
  have h : ∃ ctx prev, ctx.cbor = cbor ∧ readPrev ctx (toMsgpack π obj) = .ok (some prev) :=
    ⟨_, prev, rfl, hread⟩
  rw [Server.recordOf, hlookup, Option.bind_some, dif_pos h]
  exact congrArg some ((readPrev_stored hfits h.choose π).2 _ h.choose_spec.choose_spec.2).1

theorem uri_of_recordOf (h : Records st) {stored : IndividualObj}
    (hread : st.recordOf cbor id = some stored) : stored.uri = id := by
  cases hlookup : st.primary.lookup id with
  | none =>
    rw [Server.recordOf, hlookup] at hread
    cases hread
  | some bytes =>
    obtain ⟨π, obj, rfl, huri, hfits⟩ := h id bytes hlookup
    rw [recordOf_eq hlookup hfits] at hread
    rw [← Option.some.inj hread, uri_decoded, huri]

end Reading

section Operate

variable {st : Server} {op : Operation} {id : String}

theorem lookup_newState_put {ctx : Context} {req : Request} (hcmd : req.cmd = .put)
    {prev : Individual} {state : IndividualObj} {updCounter : Int64}
    (h : newState ctx req prev = .ok (state, updCounter)) {p : String}
    (hcreated : p ≠ "v-s:created") (hcounter : p ≠ "v-s:updateCounter") :
    state.resources.lookup p = req.newIndv.resources.lookup p := by
  unfold newState at h
  obtain ⟨⟨counter, prev'⟩, -, h⟩ := bind_eq_ok h
  obtain ⟨marked, hmarked, h⟩ := bind_eq_ok h
  obtain ⟨rfl, -⟩ := Prod.mk.inj (Except.ok.inj h)
  rw [if_neg (by simp [IndvOp.isPartial, hcmd]), IndividualObj.setInteger,
    IndividualObj.lookup_setValue, if_neg hcounter]
  unfold markedIndv at hmarked
  rw [if_pos hcmd] at hmarked
  obtain ⟨found, -, hmarked⟩ := bind_eq_ok hmarked
  split_ifs at hmarked
  · rw [Except.ok.inj hmarked]
  · rw [← Except.ok.inj hmarked, IndividualObj.addDatetime, IndividualObj.lookup_addValue,
      if_neg hcreated]

theorem primary_operate (h : Records st) (hfits : op.Fits st) :
    st.operate op = st ∨
    ∃ prev state updCounter, newState op.ctx op.req prev = .ok (state, updCounter) ∧
      state.uri = op.req.newIndv.uri ∧ state.AllFit ∧
      (st.operate op).primary =
        let primary := st.primary.insert state.uri (toMsgpack op.out₁.order state)
        if op.req.cmd = .remove ∧ op.out₂.storage = true then primary.erase state.uri
        else primary := by
  unfold Server.operate
  cases hop : operationPrepare op.ctx op.req op.out₁ op.out₂ st with
  | error stop => exact .inl rfl
  | ok result =>
    obtain ⟨resp, st'⟩ := result
    rcases operationPrepare_cases hop with ⟨res, hchecked, rfl, rfl⟩ |
      ⟨prev, state, updCounter, hchecked, hstate, heq⟩
    · exact .inl rfl
    · obtain ⟨-, -, huri, hallFit⟩ := allFit_newState h hfits hchecked hstate
      refine .inr ⟨prev, state, updCounter, hstate, huri, hallFit, ?_⟩
      have hstored : (stored op.ctx op.req op.out₁ (st.prevState op.req.newIndv.uri) state
          updCounter st).primary = st.primary.insert state.uri (toMsgpack op.out₁.order state) := by
        rw [stored, primary_toStorageAndQueue, hfits.steps.1]
        rfl
      by_cases hcmd : op.req.cmd = .remove
      · have hst' : st' = removed op.ctx op.req op.out₂ state updCounter
            (stored op.ctx op.req op.out₁ (st.prevState op.req.newIndv.uri) state updCounter
              st) := by
          by_cases hsecond : op.out₂.Succeeds st.info
          · rw [storeState_of_removed op.ctx _ state updCounter hfits.steps hcmd hsecond] at heq
            exact (Prod.mk.inj heq).2
          · rw [storeState_of_not_removed op.ctx _ state updCounter hfits.steps hcmd hsecond] at heq
            exact (Prod.mk.inj heq).2
        dsimp only
        rw [hst', removed, primary_toStorageAndQueue, hstored]
        cases hstorage : op.out₂.storage with
        | true =>
          rw [if_pos rfl, if_pos ⟨hcmd, rfl⟩, ← hstored]
          rfl
        | false => rw [if_neg (by simp), if_neg (by simp)]
      · obtain ⟨-, -, hprimary, -⟩ := storeState_of_fits hfits hcmd _ _ _ heq
        dsimp only
        rw [if_neg fun hboth => hcmd hboth.1]
        exact hprimary

theorem lookup_operate_ne (h : Records st) (hfits : op.Fits st) (hne : id ≠ op.req.newIndv.uri) :
    (st.operate op).primary.lookup id = st.primary.lookup id := by
  rcases primary_operate h hfits with heq | ⟨prev, state, updCounter, -, huri, -, hprimary⟩
  · rw [heq]
  · rw [hprimary]
    rw [← huri] at hne
    dsimp only
    split_ifs
    · rw [AList.lookup_erase_ne hne, AList.lookup_insert_ne hne]
    · rw [AList.lookup_insert_ne hne]

/-- **After an operation** every stored state can be read. -/
theorem records_operate (h : Records st) (hfits : op.Fits st) : Records (st.operate op) := by
  intro id bytes hlookup
  by_cases hne : id = op.req.newIndv.uri
  · rcases primary_operate h hfits with heq | ⟨prev, state, updCounter, -, huri, hallFit, hprimary⟩
    · rw [heq] at hlookup
      exact h id bytes hlookup
    · rw [hprimary, hne, ← huri] at hlookup
      dsimp only at hlookup
      split_ifs at hlookup
      · rw [AList.lookup_erase] at hlookup
        cases hlookup
      · rw [AList.lookup_insert] at hlookup
        exact ⟨_, state, (Option.some.inj hlookup).symm, huri.trans hne.symm, hallFit⟩
  · rw [lookup_operate_ne h hfits hne] at hlookup
    exact h id bytes hlookup

/-- **A put** leaves the individual as it was, or stores the values that it brings. -/
theorem recordOf_operate_put (h : Records st) (hfits : op.Fits st) (hcmd : op.req.cmd = .put)
    (htyped : IsTyped op.req.newIndv) (cbor : CborParser) :
    (st.operate op).recordOf cbor op.req.newIndv.uri = st.recordOf cbor op.req.newIndv.uri ∨
      ∃ stored, (st.operate op).recordOf cbor op.req.newIndv.uri = some stored ∧
        ∀ p ∉ ownPredicates, (stored.valuesOf p).map Resource.content =
          (op.req.newIndv.valuesOf p).map Resource.content := by
  rcases primary_operate h hfits with heq | ⟨prev, state, updCounter, hstate, huri, hallFit, hprimary⟩
  · rw [heq]
    exact .inl rfl
  · dsimp only at hprimary
    rw [if_neg (by simp [hcmd])] at hprimary
    have hlookup : (st.operate op).primary.lookup op.req.newIndv.uri =
        some (toMsgpack op.out₁.order state) := by
      rw [hprimary, ← huri, AList.lookup_insert]
    refine .inr ⟨_, recordOf_eq hlookup hallFit, fun p hp => ?_⟩
    simp only [ownPredicates, List.mem_cons, List.not_mem_nil, or_false, not_or] at hp
    have hsame := lookup_newState_put hcmd hstate hp.1 hp.2.2
    rw [IndividualObj.valuesOf, IndividualObj.valuesOf, lookup_decoded, hsame]
    cases hvalues : op.req.newIndv.resources.lookup p with
    | none => rfl
    | some rs =>
      rw [Option.bind_some]
      split_ifs with hnil
      · rw [hnil]
        rfl
      · rw [Option.getD_some, Option.getD_some, content_storedFrom, htyped p rs hvalues]

/-- **A removal** that is carried out leaves nothing of the individual. -/
theorem lookup_operate_remove (h : Records st) (hfits : op.Fits st) (hcmd : op.req.cmd = .remove)
    (hstorage : op.out₂.storage = true) :
    st.operate op = st ∨ (st.operate op).primary.lookup op.req.newIndv.uri = none := by
  rcases primary_operate h hfits with heq | ⟨prev, state, updCounter, -, huri, -, hprimary⟩
  · exact .inl heq
  · dsimp only at hprimary
    rw [if_pos ⟨hcmd, hstorage⟩] at hprimary
    rw [hprimary, ← huri, AList.lookup_erase]
    exact .inr rfl

/-- **A run of operations** keeps the stored states readable under their uris, and leaves the
individuals alone that no operation names. -/
theorem records_run {ops : List Operation} (h : Records st) (hfits : RunFits st ops) :
    Records (ops.foldl Server.operate st) ∧ ∀ id, (∀ op ∈ ops, id ≠ op.req.newIndv.uri) →
      (ops.foldl Server.operate st).primary.lookup id = st.primary.lookup id := by
  induction ops generalizing st with
  | nil => exact ⟨h, fun _ _ => rfl⟩
  | cons op ops ih =>
    obtain ⟨hrecords, hframe⟩ := ih (records_operate h hfits.1) hfits.2
    refine ⟨hrecords, fun id hne => ?_⟩
    obtain ⟨hop, hne⟩ := List.forall_mem_cons.mp hne
    exact (hframe id hne).trans (lookup_operate_ne h hfits.1 hop)

/-- The first operation puts a document. -/
def firstPut : Operation := ⟨readingContext, putDocument, pushed .written, pushed .written⟩

theorem fits_firstPut : firstPut.Fits firstRun := by
  refine ⟨by decide, by decide, PartsFit.of_entries (by decide), ?_, ?_⟩
  · intro prev hprev
    obtain rfl := Option.some.inj (Except.ok.inj hprev)
    exact Room.of_entries (by decide) (by decide) (by decide)
  · intro prev counter hprev hread
    obtain rfl := Option.some.inj (Except.ok.inj hprev)
    cases hread

theorem records_run_firstPut : Records (firstRun.operate firstPut) ∧
    (firstRun.operate firstPut).primary.lookup "d:other" = none := by
  obtain ⟨hrecords, hframe⟩ := @records_run firstRun [firstPut]
    (fun _ _ hlookup => by cases hlookup) ⟨fits_firstPut, trivial⟩
  exact ⟨hrecords, hframe "d:other" (by decide)⟩

end Operate

end Veda.Mstorage
