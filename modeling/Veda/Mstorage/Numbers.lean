import Veda.Mstorage.FailStore

set_option autoImplicit false

/-!
# Operation numbers

Every message of the queue has an operation number, one more than the number in use when it was
pushed. The number in use is written to a file after the push, and a program that starts goes on
from the number in the file. As long as the file has the number in use when the program is started
again, the messages are numbered from one on without a gap; when it has an older one, numbers are
given out again.

## Main definitions

* `Mstorage.Event`, `Mstorage.Server.run` — requests and restarts, one after another.
* `Mstorage.Server.Numbered` — the messages of the queue are numbered 1, 2, 3, ...
* `Mstorage.Event.KeepsNumber` — the file has the number in use when the program starts.

## Main results

* `Mstorage.read_opId_queueElement` — the number of a message.
* `Mstorage.Server.Clock.step` — one event.
* `Mstorage.numbered_of_keepsNumbers` — every run.
-/

namespace Veda.Mstorage

open Veda.Lib Veda.Onto Veda.Authorization

/-! ## Runs -/

/-- What happens to a server. -/
inductive Event
  | request (op : Operation)
  | restart (out : PutOutcome)

/-- The server after an event. -/
def Server.step (st : Server) : Event → Server
  | .request op => st.operate op
  | .restart out => st.restart out

def Server.run (st : Server) (events : List Event) : Server := events.foldl Server.step st

/-- The messages of the queue have the numbers 1, 2, 3, ... in their order. -/
def Server.Numbered (st : Server) : Prop :=
  ∀ (n : ℕ) (element : IndividualObj), st.queue[n]? = some element →
    ∃ i : Int64, element.read .getFirstInteger "op_id" = .ok (some i) ∧ i.toInt = n + 1

/-- A program is started again only when the file has the number in use, and numbers that are given
out have 64 bits. -/
def Event.KeepsNumber (st : Server) : Event → Prop
  | .request _ => st.opId.toInt + 2 < 9223372036854775808
  | .restart _ =>
    match st.info.saved with
    | some (_, committedOpId) => committedOpId = st.opId
    | none => st.opId = 0

/-- Every event of a run keeps the number. -/
def KeepsNumbers : Server → List Event → Prop
  | _, [] => True
  | st, event :: events => event.KeepsNumber st ∧ KeepsNumbers (st.step event) events

/-! ## One event -/

theorem toInt_add_one {i : Int64} (h : i.toInt + 1 < 9223372036854775808) :
    (i + 1).toInt = i.toInt + 1 := by
  have hle := i.le_toInt
  rw [Int64.toInt_add, show (1 : Int64).toInt = 1 from rfl]
  apply Int.bmod_eq_of_le <;> omega

/-- The messages are numbered, and the number in use is that of the last one. -/
structure Server.Clock (st : Server) : Prop where
  numbered : st.Numbered
  opId : st.opId.toInt = st.queue.length

theorem Server.Clock.push {st : Server} (h : st.Clock) (ctx : Context) (cmd : IndvOp)
    (req : Request) (out : Outcomes) (newIndv : IndividualObj) (prevState : List UInt8)
    (updateCounter : Int64) (hbound : st.opId.toInt + 1 < 9223372036854775808) :
    (toStorageAndQueue ctx cmd req out newIndv prevState updateCounter st).2.Clock ∧
      (toStorageAndQueue ctx cmd req out newIndv prevState updateCounter st).2.opId.toInt ≤
        st.opId.toInt + 1 := by
  have hqueue := queue_toStorageAndQueue ctx cmd req out newIndv prevState updateCounter st
  have hopId := opId_toStorageAndQueue ctx cmd req out newIndv prevState updateCounter st
  have hnext := toInt_add_one hbound
  generalize (toStorageAndQueue ctx cmd req out newIndv prevState updateCounter st).2 = st'
    at hqueue hopId ⊢
  cases hpushed : out.storage && out.queue with
  | false =>
    simp only [hpushed, Bool.false_eq_true, if_false, List.append_nil] at hqueue hopId
    refine ⟨⟨?_, ?_⟩, ?_⟩
    · intro n element hn
      exact h.numbered n element (by rwa [hqueue] at hn)
    · rw [hopId, hqueue]
      exact h.opId
    · rw [hopId]
      omega
  | true =>
    simp only [hpushed, if_true] at hqueue hopId
    refine ⟨⟨?_, ?_⟩, ?_⟩
    · intro n element hn
      rw [hqueue] at hn
      rcases Nat.lt_or_ge n st.queue.length with hlt | hge
      · rw [List.getElem?_append_left hlt] at hn
        exact h.numbered n element hn
      · rw [List.getElem?_append_right hge] at hn
        rw [List.getElem?_singleton, Option.ite_none_right_eq_some, Option.some.injEq] at hn
        obtain ⟨hzero, rfl⟩ := hn
        refine ⟨st.opId + 1, ?_, ?_⟩
        · rw [IndividualObj.read, (lookup_queueElement _ _ _ _ _ _ _ _ rfl).1]
          rfl
        · have hopId := h.opId
          omega
    · rw [hopId, hqueue, hnext, h.opId, List.length_append, List.length_singleton]
      omega
    · rw [hopId, hnext]

theorem Server.Clock.storeState {st : Server} (h : st.Clock) (ctx : Context) (req : Request)
    (out₁ out₂ : Outcomes) (prevState : List UInt8) (state : IndividualObj) (updCounter : Int64)
    (hbound : st.opId.toInt + 2 < 9223372036854775808) :
    (storeState ctx req out₁ out₂ prevState state updCounter st).2.Clock := by
  obtain ⟨hstored, hle⟩ := h.push ctx .put req out₁ state prevState updCounter (by omega)
  by_cases hfirst : out₁.Succeeds st.info
  · by_cases hcmd : req.cmd = .remove
    · have hremoved := (hstored.push ctx .remove req out₂
        (state.setInteger "v-s:updateCounter" updCounter) [] updCounter (by omega)).1
      by_cases hsecond : out₂.Succeeds st.info
      · rw [storeState_of_removed ctx _ _ _ hfirst hcmd hsecond]
        exact hremoved
      · rw [storeState_of_not_removed ctx _ _ _ hfirst hcmd hsecond]
        exact hremoved
    · rw [storeState_of_stored ctx _ _ _ hfirst hcmd]
      exact hstored
  · rw [storeState_of_not_stored ctx _ _ _ hfirst]
    exact hstored

theorem Server.Clock.restart {st : Server} (h : st.Clock) {out : PutOutcome}
    (hsaved : (Event.restart out).KeepsNumber st) : (st.restart out).Clock := by
  refine ⟨h.numbered, ?_⟩
  suffices hopId : (st.restart out).opId = st.opId by
    rw [hopId]
    exact h.opId
  cases hinfo : st.info.saved with
  | some numbers =>
    simp only [Event.KeepsNumber, hinfo] at hsaved
    simp only [Server.restart, ModuleInfo.reopen, hinfo]
    exact hsaved
  | none =>
    simp only [Event.KeepsNumber, hinfo] at hsaved
    cases out <;> simp [Server.restart, ModuleInfo.reopen, ModuleInfo.putInfo, hinfo, hsaved]

theorem Server.Clock.step {st : Server} (h : st.Clock) {event : Event}
    (hkeeps : event.KeepsNumber st) : (st.step event).Clock := by
  cases event with
  | request op =>
    rw [Server.step, Server.operate]
    cases hop : operationPrepare op.ctx op.req op.out₁ op.out₂ st with
    | error stop => exact h
    | ok result =>
      obtain ⟨resp, st'⟩ := result
      rcases operationPrepare_cases hop with ⟨res, -, -, rfl⟩ | ⟨prev, state, upd, -, -, heq⟩
      · exact h
      · have hclock := h.storeState op.ctx op.req op.out₁ op.out₂
          (st.prevState op.req.newIndv.uri) state upd hkeeps
        rw [← heq] at hclock
        exact hclock
  | restart out => exact h.restart hkeeps

/-! ## Every run -/

theorem Server.Clock.run {st : Server} (h : st.Clock) {events : List Event}
    (hkeeps : KeepsNumbers st events) : (st.run events).Clock := by
  induction events generalizing st with
  | nil => exact h
  | cons event events ih => exact ih (h.step hkeeps.1) hkeeps.2

/-- **Operation numbers are a clock**: in every run from an empty queue in which the program is
started again only when the file has the number in use, the messages are numbered 1, 2, 3, ... -/
theorem numbered_of_keepsNumbers {st : Server} (hqueue : st.queue = []) (hopId : st.opId = 0)
    {events : List Event} (hkeeps : KeepsNumbers st events) : (st.run events).Numbered := by
  have hclock : st.Clock := by
    constructor
    · intro n element hn
      rw [hqueue, List.getElem?_nil] at hn
      cases hn
    · rw [hqueue, hopId]
      rfl
  exact (hclock.run hkeeps).numbered

/-! ## Two runs -/

/-- The outcomes of a call in which writing the number ends in the given way. -/
def pushed (info : PutOutcome) : Outcomes := ⟨true, true, true, info, 0, .stored String⟩

/-- The system user puts another document. -/
def putSecond : Request :=
  { putDocument with newIndv := (⟨"d:doc2", ∅⟩ : IndividualObj).addUri "rdf:type" "v-s:Thing" }

/-- A program that was started again after the number was written goes on. -/
theorem numbered_restarted :
    (firstRun.run [.request ⟨closedContext, putDocument, pushed .written, pushed .written⟩,
      .restart .written,
      .request ⟨closedContext, putSecond, pushed .seekFailed, pushed .written⟩]).Numbered := by
  apply numbered_of_keepsNumbers rfl rfl
  refine ⟨?_, rfl, ?_, trivial⟩
  · show (0 : Int64).toInt + 2 < 9223372036854775808
    decide
  · show (1 : Int64).toInt + 2 < 9223372036854775808
    decide

/-- When writing the number fails, the program that is started again gives it out a second time. -/
theorem not_numbered_restarted :
    ¬ (firstRun.run [.request ⟨closedContext, putDocument, pushed .writeFailed, pushed .written⟩,
      .restart .written,
      .request ⟨closedContext, putSecond, pushed .written, pushed .written⟩]).Numbered := by
  intro h
  obtain ⟨i, hread, hi⟩ := h 1 _ rfl
  have hone : (1 : Int64) = i := by
    have hread' : (Except.ok (some 1) : Except Panic (Option Int64)) = .ok (some i) := hread
    cases hread'
    rfl
  subst hone
  exact absurd hi (by decide)

end Veda.Mstorage
