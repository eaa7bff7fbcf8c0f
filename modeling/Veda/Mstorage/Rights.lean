import Veda.Mstorage.Counters

set_option autoImplicit false

/-!
# The rights behind an operation

An operation for another user than the system's should succeed only when the user has the rights
that it needs. Two checks are missing: a removal is only written to the log when the right to delete
is missing, and an existing individual that is given `v-s:deleted` with the value false is not
checked at all. So an operation that succeeds is backed by rights exactly when it does not come to a
missing check or the rights that were not checked are there.

## Main definitions

* `Mstorage.required` — the rights that an operation needs.
* `Mstorage.skipped` — those that are not checked.
* `Mstorage.Guarded` — an operation that succeeds has the rights that it needs.
* `Mstorage.SkippedGranted` — the rights that are not checked are there.

## Main results

* `Mstorage.granted_or_skipped` — the checks.
* `Mstorage.guarded_iff` — when exactly an operation is guarded.
-/

namespace Veda.Mstorage

open Veda.Lib Veda.Onto Veda.Authorization

/-- The types in a request. -/
def requestTypes (req : Request) : List String :=
  (req.newIndv.valuesOf "rdf:type").map fun el => literalOf el.value

/-- The types of the previous state. -/
def storedTypes (ctx : Context) (req : Request) (st : Server) : List String :=
  match readPrev ctx (st.prevState req.newIndv.uri) with
  | .ok (some prev) =>
    match (prev.get ctx.cbor .getLiterals "rdf:type").1 with
    | .ok types => types.getD []
    | .error _ => []
  | _ => []

/-- The right to create an individual of each type that the previous state lacks. -/
def typeRights (ctx : Context) (req : Request) (st : Server) : List (String × Access) :=
  (addedTypes (storedTypes ctx req st) (requestTypes req)).map fun type => (type, .canCreate)

/-- The rights that an operation needs: to delete an individual for its removal and for a new
`v-s:deleted` that is true, to update it for another change of one that exists, and to create the
types that are new. -/
def required (ctx : Context) (req : Request) (st : Server) : List (String × Access) :=
  (if req.cmd = .remove then [(req.newIndv.uri, .canDelete)]
  else if (st.prevState req.newIndv.uri).isEmpty then []
  else if req.newIndv.read .getFirstBool "v-s:deleted" = .ok (some true) then
    [(req.newIndv.uri, .canDelete)]
  else [(req.newIndv.uri, .canUpdate)]) ++ typeRights ctx req st

/-- The rights that are not checked. -/
def skipped (ctx : Context) (req : Request) (st : Server) : List (String × Access) :=
  if req.cmd = .remove then (req.newIndv.uri, .canDelete) :: typeRights ctx req st
  else if ¬ (st.prevState req.newIndv.uri).isEmpty ∧
      req.newIndv.read .getFirstBool "v-s:deleted" = .ok (some false) then
    [(req.newIndv.uri, .canUpdate)]
  else []

/-- An operation of another user than the system's that answers `Ok` has the rights that it
needs. -/
def Guarded (ctx : Context) (req : Request) (out₁ out₂ : Outcomes) (st : Server) : Prop :=
  req.userUri ≠ ctx.sysUserUri → ∀ resp st',
    operationPrepare ctx req out₁ out₂ st = .ok (resp, st') → resp.res = .ok →
      ∀ right ∈ required ctx req st, granted ctx.acl right.1 req.userUri right.2 = true

/-- When another user's operation passes the checks and no step fails, the rights that are not
checked are there. -/
def SkippedGranted (ctx : Context) (req : Request) (out₁ out₂ : Outcomes) (st : Server) : Prop :=
  req.userUri ≠ ctx.sysUserUri → ∀ prev state updCounter,
    checkRequest ctx req st = .ok (.ok prev) → newState ctx req prev = .ok (state, updCounter) →
    out₁.Succeeds st.info → (req.cmd = .remove → out₂.Succeeds st.info) →
      ∀ right ∈ skipped ctx req st, granted ctx.acl right.1 req.userUri right.2 = true

section Checks

variable {ctx : Context} {req : Request} {out₁ out₂ : Outcomes} {st : Server}

theorem getNew_getLiterals (newIndv : IndividualObj) :
    ∃ types, getNew .getLiterals "rdf:type" newIndv = .ok types ∧
      types.getD [] = (newIndv.valuesOf "rdf:type").map fun el => literalOf el.value := by
  rw [getNew, IndividualObj.read, IndividualObj.valuesOf]
  cases newIndv.resources.lookup "rdf:type" with
  | none => exact ⟨none, rfl, rfl⟩
  | some values => exact ⟨_, rfl, rfl⟩

theorem granted_of_checkState {prevState : List UInt8}
    (h : checkState ctx req prevState = .ok true) (hexists : ¬ prevState.isEmpty) :
    (req.newIndv.read .getFirstBool "v-s:deleted" = .ok (some true) ∧
        granted ctx.acl req.newIndv.uri req.userUri .canDelete = true) ∨
      req.newIndv.read .getFirstBool "v-s:deleted" = .ok (some false) ∨
      (req.newIndv.read .getFirstBool "v-s:deleted" = .ok none ∧
        granted ctx.acl req.newIndv.uri req.userUri .canUpdate = true) := by
  rw [checkState, if_neg hexists, getNew] at h
  cases hread : req.newIndv.read .getFirstBool "v-s:deleted" with
  | error panic =>
    rw [hread] at h
    cases h
  | ok isDeleted =>
    rw [hread] at h
    cases isDeleted with
    | none => exact .inr (.inr ⟨rfl, Except.ok.inj h⟩)
    | some isDeleted =>
      cases isDeleted with
      | false => exact .inr (.inl rfl)
      | true =>
        have hdelete := Except.ok.inj h
        rw [Bool.true_and, Bool.not_not] at hdelete
        exact .inl ⟨rfl, hdelete⟩

theorem checked_of_checkRights {prevState : List UInt8} {prev prev' : Individual}
    (h : checkRights ctx req prevState prev = .ok (true, prev')) (hcmd : req.cmd ≠ .remove) :
    checkState ctx req prevState = .ok true ∧
      ∃ types, (prev.get ctx.cbor .getLiterals "rdf:type").1 = .ok types ∧
        checkTypes ctx req (types.getD []) (requestTypes req) = true := by
  rw [checkRights, if_neg hcmd] at h
  cases hstate : checkState ctx req prevState with
  | error stop =>
    rw [hstate] at h
    cases h
  | ok allowed =>
    rw [hstate] at h
    cases allowed with
    | false => cases h
    | true =>
      refine ⟨rfl, ?_⟩
      change (getPrev ctx .getLiterals "rdf:type" prev >>= _) = _ at h
      rw [getPrev] at h
      rcases hget : prev.get ctx.cbor .getLiterals "rdf:type" with ⟨answer, prev''⟩
      rw [hget] at h
      cases answer with
      | error panic => cases h
      | ok types =>
        obtain ⟨newTypes, hnew, hvalues⟩ := getNew_getLiterals req.newIndv
        change (getNew .getLiterals "rdf:type" req.newIndv >>= _) = _ at h
        rw [hnew] at h
        have hcheck := (Prod.mk.inj (Except.ok.inj h)).1
        rw [hvalues] at hcheck
        exact ⟨types, rfl, hcheck⟩

theorem checked_of_checkRequest {prev : Individual} (hneed : req.userUri ≠ ctx.sysUserUri)
    (h : checkRequest ctx req st = .ok (.ok prev)) :
    ∃ read, readPrev ctx (st.prevState req.newIndv.uri) = .ok (some read) ∧
      checkRights ctx req (st.prevState req.newIndv.uri) read = .ok (true, prev) := by
  obtain ⟨res, hres, -⟩ | ⟨read, prev', hprev, hread, -, hrights⟩ := checkRequest_cases h
  · cases hres
  · obtain rfl := Except.ok.inj hprev
    rw [if_pos hneed.symm] at hrights
    exact ⟨read, hread, hrights⟩

/-- **The checks**: a right that an operation needs is granted or not checked. -/
theorem granted_or_skipped {prev : Individual} (hneed : req.userUri ≠ ctx.sysUserUri)
    (h : checkRequest ctx req st = .ok (.ok prev)) {right : String × Access}
    (hright : right ∈ required ctx req st) :
    granted ctx.acl right.1 req.userUri right.2 = true ∨ right ∈ skipped ctx req st := by
  by_cases hcmd : req.cmd = .remove
  · right
    rw [required, if_pos hcmd] at hright
    rw [skipped, if_pos hcmd]
    exact hright
  · obtain ⟨read, hread, hrights⟩ := checked_of_checkRequest hneed h
    obtain ⟨hstate, types, htypes, hcheck⟩ := checked_of_checkRights hrights hcmd
    rw [required, if_neg hcmd, List.mem_append] at hright
    rcases hright with hright | hright
    · split_ifs at hright with hempty hdeleted
      · cases hright
      · obtain rfl := List.mem_singleton.mp hright
        rcases granted_of_checkState hstate hempty with ⟨-, hdelete⟩ | hfalse | ⟨hnone, -⟩
        · exact .inl hdelete
        · rw [hdeleted] at hfalse
          cases hfalse
        · rw [hdeleted] at hnone
          cases hnone
      · obtain rfl := List.mem_singleton.mp hright
        rcases granted_of_checkState hstate hempty with ⟨htrue, -⟩ | hfalse | ⟨-, hupdate⟩
        · exact absurd htrue hdeleted
        · right
          rw [skipped, if_neg hcmd, if_pos ⟨hempty, hfalse⟩]
          exact List.mem_singleton_self _
        · exact .inl hupdate
    · left
      obtain ⟨type, htype, rfl⟩ := List.mem_map.mp hright
      have hstored : storedTypes ctx req st = types.getD [] := by
        rw [storedTypes, hread]
        dsimp only
        rw [htypes]
      rw [hstored] at htype
      rw [checkTypes] at hcheck
      split_ifs at hcheck
      exact List.all_eq_true.mp hcheck type htype

theorem mem_required_of_skipped {right : String × Access} (h : right ∈ skipped ctx req st) :
    right ∈ required ctx req st := by
  by_cases hcmd : req.cmd = .remove
  · rw [skipped, if_pos hcmd] at h
    rw [required, if_pos hcmd]
    exact h
  · rw [skipped, if_neg hcmd] at h
    split_ifs at h with hfalse
    · rw [required, if_neg hcmd, if_neg hfalse.1, if_neg (by rw [hfalse.2]; simp)]
      exact List.mem_append_left _ h
    · cases h

theorem succeeds_of_ok {resp : Response} {st' : Server}
    (hop : operationPrepare ctx req out₁ out₂ st = .ok (resp, st')) (hres : resp.res = .ok) :
    ∃ prev state updCounter, checkRequest ctx req st = .ok (.ok prev) ∧
      newState ctx req prev = .ok (state, updCounter) ∧ out₁.Succeeds st.info ∧
      (req.cmd = .remove → out₂.Succeeds st.info) := by
  rcases operationPrepare_cases hop with ⟨res, hchecked, rfl, -⟩ |
    ⟨prev, state, updCounter, hchecked, hstate, heq⟩
  · exact absurd hres (ne_ok_of_checkRequest hchecked)
  · by_cases hfirst : out₁.Succeeds st.info
    · refine ⟨prev, state, updCounter, hchecked, hstate, hfirst, fun hcmd => ?_⟩
      by_contra hsecond
      rw [storeState_of_not_removed ctx _ _ _ hfirst hcmd hsecond] at heq
      obtain ⟨rfl, -⟩ := Prod.mk.inj heq
      cases hres
    · rw [storeState_of_not_stored ctx _ _ _ hfirst] at heq
      obtain ⟨rfl, -⟩ := Prod.mk.inj heq
      cases hres

theorem ok_of_succeeds {prev : Individual} {state : IndividualObj} {updCounter : Int64}
    (hchecked : checkRequest ctx req st = .ok (.ok prev))
    (hstate : newState ctx req prev = .ok (state, updCounter)) (hfirst : out₁.Succeeds st.info)
    (hsecond : req.cmd = .remove → out₂.Succeeds st.info) :
    ∃ resp st', operationPrepare ctx req out₁ out₂ st = .ok (resp, st') ∧ resp.res = .ok := by
  have hop : operationPrepare ctx req out₁ out₂ st = _ :=
    operationPrepare_of_checked hchecked hstate
  by_cases hcmd : req.cmd = .remove
  · rw [storeState_of_removed ctx _ _ _ hfirst hcmd (hsecond hcmd)] at hop
    exact ⟨_, _, hop, rfl⟩
  · rw [storeState_of_stored ctx _ _ _ hfirst hcmd] at hop
    exact ⟨_, _, hop, rfl⟩

end Checks

/-- **The rights behind an operation**: an operation that succeeds has the rights that it needs
exactly when those that are not checked are there. -/
theorem guarded_iff (ctx : Context) (req : Request) (out₁ out₂ : Outcomes) (st : Server) :
    Guarded ctx req out₁ out₂ st ↔ SkippedGranted ctx req out₁ out₂ st := by
  constructor
  · intro hguarded hneed prev state updCounter hchecked hstate hfirst hsecond right hright
    obtain ⟨resp, st', hop, hres⟩ := ok_of_succeeds hchecked hstate hfirst hsecond
    exact hguarded hneed resp st' hop hres right (mem_required_of_skipped hright)
  · intro hskipped hneed resp st' hop hres right hright
    obtain ⟨prev, state, updCounter, hchecked, hstate, hfirst, hsecond⟩ := succeeds_of_ok hop hres
    rcases granted_or_skipped hneed hchecked hright with hgranted | hright
    · exact hgranted
    · exact hskipped hneed prev state updCounter hchecked hstate hfirst hsecond right hright

/-! ## A removal without rights -/

/-- A user removes a document. -/
def removeDocument : Request := { putDocument with cmd := .remove, userUri := "d:user" }

/-- The server after the system user has put a document. -/
def withDocument : Server :=
  firstRun.operate ⟨readingContext, putDocument, pushed .written, pushed .written⟩

/-- A user to whom nothing is granted removes a document. -/
theorem not_guarded_removeDocument :
    ¬ Guarded readingContext removeDocument (pushed .written) (pushed .written) withDocument := by
  intro h
  obtain ⟨resp, st', hop, hres⟩ : ∃ resp st', operationPrepare readingContext removeDocument
      (pushed .written) (pushed .written) withDocument = .ok (resp, st') ∧ resp.res = .ok :=
    ⟨_, _, rfl, rfl⟩
  have hright : ("d:doc", .canDelete) ∈ required readingContext removeDocument withDocument := by
    have hcmd : removeDocument.cmd = .remove := rfl
    rw [required, if_pos hcmd]
    exact List.mem_append_left _ (List.mem_singleton_self _)
  exact absurd (h (by decide) resp st' hop hres _ hright) (by decide)

end Veda.Mstorage
