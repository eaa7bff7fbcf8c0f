import Veda.Mstorage.Operation

set_option autoImplicit false

/-!
# What a failed operation leaves behind

An operation that answers `FailStore` should have changed nothing. The steps of
`to_storage_and_queue` come one after another without going back: the state is stored, the message
is pushed, the number is increased and written. So a step that fails leaves the ones before it done,
and a removal, which stores a state first and removes it afterwards, can also fail in between.

## Main definitions

* `Mstorage.Server.SameAs` — the main storage, the queue and the number are the same.
* `Mstorage.KeepsOnFailStore` — an operation that answers `FailStore` changes nothing.
* `Mstorage.FailsAtOnce` — no step fails behind one that has changed something.

## Main results

* `Mstorage.keepsOnFailStore_iff` — when exactly nothing is changed.
-/

namespace Veda.Mstorage

open Veda.Lib Veda.Onto Veda.Authorization

/-- The main storage, the content of the queue and the operation number are the same. -/
structure Server.SameAs (st st' : Server) : Prop where
  primary : ∀ id, st'.primary.lookup id = st.primary.lookup id
  queue : st'.queue = st.queue
  opId : st'.opId = st.opId

/-- When the operation answers `FailStore` it has changed nothing. -/
def KeepsOnFailStore (ctx : Context) (req : Request) (out₁ out₂ : Outcomes) (st : Server) : Prop :=
  ∀ resp st', operationPrepare ctx req out₁ out₂ st = .ok (resp, st') →
    resp.res = .failStore → st.SameAs st'

/-- When the operation passes its checks, the first write to the storage fails, or no step fails at
all, or the push fails and the state that was written is the one that was stored. -/
def FailsAtOnce (ctx : Context) (req : Request) (out₁ out₂ : Outcomes) (st : Server) : Prop :=
  ∀ prev state updCounter, checkRequest ctx req st = .ok (.ok prev) →
    newState ctx req prev = .ok (state, updCounter) →
    out₁.storage = false ∨
      (out₁.Succeeds st.info ∧ (req.cmd = .remove → out₂.Succeeds st.info)) ∨
      (out₁.queue = false ∧
        st.primary.lookup state.uri = some (toMsgpack out₁.order state))

section Steps

variable {ctx : Context} {req : Request} {out : Outcomes} {prevState : List UInt8}
  {state : IndividualObj} {updCounter : Int64} {st : Server}

theorem length_queue_stored :
    st.queue.length + (if out.storage && out.queue then 1 else 0) =
      (stored ctx req out prevState state updCounter st).queue.length := by
  rw [stored, queue_toStorageAndQueue, List.length_append]
  cases out.storage <;> cases out.queue <;> rfl

theorem length_queue_removed :
    st.queue.length ≤ (removed ctx req out state updCounter st).queue.length := by
  rw [removed, queue_toStorageAndQueue, List.length_append]
  omega

theorem sameAs_of_storage_fails (h : out.storage = false) :
    st.SameAs (stored ctx req out prevState state updCounter st) := by
  constructor
  · intro id
    rw [stored, primary_toStorageAndQueue, h]
    rfl
  · rw [stored, queue_toStorageAndQueue, h]
    exact List.append_nil _
  · rw [stored, opId_toStorageAndQueue, h]
    rfl

theorem sameAs_of_queue_fails (hstorage : out.storage = true) (hqueue : out.queue = false) :
    st.SameAs (stored ctx req out prevState state updCounter st) ↔
      st.primary.lookup state.uri = some (toMsgpack out.order state) := by
  have hprimary : (stored ctx req out prevState state updCounter st).primary =
      st.primary.insert state.uri (toMsgpack out.order state) := by
    rw [stored, primary_toStorageAndQueue, hstorage]
    rfl
  constructor
  · intro h
    rw [← h.primary, hprimary, AList.lookup_insert]
  · intro h
    constructor
    · intro id
      rw [hprimary]
      by_cases hid : id = state.uri
      · rw [hid, AList.lookup_insert, h]
      · rw [AList.lookup_insert_ne hid]
    · rw [stored, queue_toStorageAndQueue, hqueue, Bool.and_false]
      exact List.append_nil _
    · rw [stored, opId_toStorageAndQueue, hqueue, Bool.and_false]
      rfl

theorem not_sameAs_of_pushed (hstorage : out.storage = true) (hqueue : out.queue = true)
    {st' : Server}
    (h : (stored ctx req out prevState state updCounter st).queue.length ≤ st'.queue.length) :
    ¬ st.SameAs st' := by
  intro hsame
  rw [← length_queue_stored, hstorage, hqueue, hsame.queue] at h
  simp at h

end Steps

section Operation

variable {ctx : Context} {req : Request} {out₁ out₂ : Outcomes} {st : Server}

/-- Nothing is left behind when the operation fails at once.

**Proof sketch.** A refusal changes nothing. Behind the checks the answer is `FailStore` when a step
failed; then the first write failed, or the push failed and wrote nothing new. -/
theorem keepsOnFailStore_of_failsAtOnce (h : FailsAtOnce ctx req out₁ out₂ st) :
    KeepsOnFailStore ctx req out₁ out₂ st := by
  intro resp st' hop hres
  rcases operationPrepare_cases hop with ⟨res, -, -, rfl⟩ |
    ⟨prev, state, upd, hchecked, hstate, heq⟩
  · exact ⟨fun _ => rfl, rfl, rfl⟩
  · by_cases hfirst : out₁.Succeeds st.info
    · have hsecond : req.cmd = .remove → out₂.Succeeds st.info := by
        rcases h prev state upd hchecked hstate with hfails | hall | hqueue
        · rw [hfirst.1] at hfails
          cases hfails
        · exact hall.2
        · rw [hfirst.2.1] at hqueue
          cases hqueue.1
      by_cases hcmd : req.cmd = .remove
      · rw [storeState_of_removed ctx _ _ _ hfirst hcmd (hsecond hcmd)] at heq
        cases heq
        cases hres
      · rw [storeState_of_stored ctx _ _ _ hfirst hcmd] at heq
        cases heq
        cases hres
    · rw [storeState_of_not_stored ctx _ _ _ hfirst] at heq
      obtain ⟨-, rfl⟩ := Prod.mk.inj heq
      cases hstorage : out₁.storage with
      | false => exact sameAs_of_storage_fails hstorage
      | true =>
        rcases h prev state upd hchecked hstate with hfails | hall | hqueue
        · rw [hstorage] at hfails
          cases hfails
        · exact absurd hall.1 hfirst
        · exact (sameAs_of_queue_fails hstorage hqueue.1).mpr hqueue.2

theorem not_keepsOnFailStore_of_late {prev : Individual} {state : IndividualObj}
    {updCounter : Int64} (hchecked : checkRequest ctx req st = .ok (.ok prev))
    (hstate : newState ctx req prev = .ok (state, updCounter)) (hstorage : out₁.storage = true)
    (hfails : ¬ (out₁.Succeeds st.info ∧ (req.cmd = .remove → out₂.Succeeds st.info)))
    (hnew : out₁.queue = false →
      st.primary.lookup state.uri ≠ some (toMsgpack out₁.order state)) :
    ¬ KeepsOnFailStore ctx req out₁ out₂ st := by
  intro hkeeps
  have hop : operationPrepare ctx req out₁ out₂ st = _ :=
    operationPrepare_of_checked hchecked hstate
  by_cases hfirst : out₁.Succeeds st.info
  · obtain ⟨hcmd, hsecond⟩ := Classical.not_imp.mp fun h => hfails ⟨hfirst, h⟩
    rw [storeState_of_not_removed ctx _ _ _ hfirst hcmd hsecond] at hop
    exact not_sameAs_of_pushed hstorage hfirst.2.1 length_queue_removed (hkeeps _ _ hop rfl)
  · rw [storeState_of_not_stored ctx _ _ _ hfirst] at hop
    have hsame := hkeeps _ _ hop rfl
    cases hqueue : out₁.queue with
    | false => exact hnew hqueue ((sameAs_of_queue_fails hstorage hqueue).mp hsame)
    | true => exact not_sameAs_of_pushed hstorage hqueue le_rfl hsame

/-- **What `FailStore` means**: an operation that answers so has changed nothing exactly when no step
fails behind one that has changed something. -/
theorem keepsOnFailStore_iff (ctx : Context) (req : Request) (out₁ out₂ : Outcomes) (st : Server) :
    KeepsOnFailStore ctx req out₁ out₂ st ↔ FailsAtOnce ctx req out₁ out₂ st := by
  constructor
  · intro hkeeps prev state upd hchecked hstate
    by_contra hlate
    simp only [not_or, Bool.not_eq_false] at hlate
    obtain ⟨hstorage, hfails, hnew⟩ := hlate
    exact not_keepsOnFailStore_of_late hchecked hstate hstorage hfails
      (fun hqueue hsame => hnew ⟨hqueue, hsame⟩) hkeeps
  · exact keepsOnFailStore_of_failsAtOnce

end Operation

/-! ## A push that fails -/

/-- A server of the system user `cfg:sys` on an empty storage. -/
def firstRun : Server := ⟨∅, ∅, [], 0, ⟨some (0, 0), true⟩⟩

/-- A context in which `_authorize` grants nothing. -/
def closedContext : Context := ⟨noCbor, 1, fun _ _ _ => .ok 0, "cfg:sys", false⟩

/-- The system user puts a document. -/
def putDocument : Request :=
  ⟨.put, "cfg:sys", none, none, none, (⟨"d:doc", ∅⟩ : IndividualObj).addUri "rdf:type" "v-s:Thing",
    0, .stored String⟩

/-- The outcomes of a call in which the push fails. -/
def pushFails : Outcomes := ⟨true, true, false, .written, 0, .stored String⟩

/-- A document whose message could not be pushed is stored although the answer is `FailStore`. -/
theorem not_keepsOnFailStore_putDocument :
    ¬ KeepsOnFailStore closedContext putDocument pushFails pushFails firstRun := by
  refine not_keepsOnFailStore_of_late rfl rfl rfl ?_ ?_
  · intro h
    exact absurd h.1.2.1 Bool.false_ne_true
  · intro _ h
    cases h

end Veda.Mstorage
