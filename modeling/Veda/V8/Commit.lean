import Veda.V8.Cascade
import Veda.VApi.ApiClient

set_option autoImplicit false

/-!
# The commit of a transaction

The items of a transaction are sent to the main storage one after another, until one fails. An item
whose individual has no valid id is skipped, and the result `NotReady` is passed over.

## Main definitions

* `V8.commit` — the commit, with the items that are sent.
* `V8.ReportsStored` — `Ok` is returned only when every item was answered with `Ok`, and
  nothing is sent behind an item that failed.
* `V8.ReportsSent` — the same for the items that are sent and answered.

## Main results

* `V8.rc_of_mem_transactionOf` — the items of a transaction.
* `V8.reportsSent_transactionOf` — every transaction reports what was sent.
-/

namespace Veda.V8

open Veda.Lib Veda.Onto Veda.Mstorage
open Veda.VApi (Exchange SaysOk)

/-! ## The commit -/

/-- The code of an item as an answer has it. -/
def ResultCode.toApi : ResultCode → VApi.ResultCode
  | .ok => .ok
  | .unprocessableEntity => .unprocessableEntity
  | .notReady => .notReady
  | .storage res => .ofStorage res

/-- The individual has no id that the main storage takes. -/
def TransactionItem.isInvalid (ti : TransactionItem) : Bool :=
  ti.indv.uri.isEmpty || ti.indv.uri.utf8ByteSize < 2

/-- The loop of `commit` from the item with the number `n`, with the numbers of the items that are
sent. -/
def commitLoop (answer : ℕ → Exchange) : ℕ → List TransactionItem → VApi.ResultCode × List ℕ
  | _, [] => (.ok, [])
  | n, ti :: items =>
    if ti.cmd = .remove && ti.indv.uri.isEmpty then commitLoop answer (n + 1) items
    else if ti.rc ≠ .ok then (ti.rc.toApi, [])
    else if ti.isInvalid then commitLoop answer (n + 1) items
    else
      let res := VApi.updateWithEvent (answer n)
      if res ≠ .ok && res ≠ .notReady then (res, [n])
      else
        let result := commitLoop answer (n + 1) items
        (result.1, n :: result.2)

/-- `commit`, with the answers to the items. -/
def commit (tnx : Transaction) (answer : ℕ → Exchange) : VApi.ResultCode × List ℕ :=
  commitLoop answer 0 tnx.queue

/-- Nothing was sent behind the item whose failure is returned. -/
def StopsAtFailure (answer : ℕ → Exchange) (result : VApi.ResultCode × List ℕ) : Prop :=
  result.1 ≠ .ok → ∃ n ∈ result.2, VApi.updateWithEvent (answer n) = result.1 ∧ ∀ m ∈ result.2, m ≤ n

/-- `Ok` is returned only when every item was answered with `Ok`, and nothing is sent behind an item
that failed. -/
def ReportsStored (tnx : Transaction) (answer : ℕ → Exchange) : Prop :=
  ((commit tnx answer).1 = .ok → ∀ n < tnx.queue.length, SaysOk (answer n)) ∧
    StopsAtFailure answer (commit tnx answer)

/-- `Ok` is returned only when every item that has a valid id, and for which the client was ready,
was answered with `Ok`, and nothing is sent behind an item that failed. -/
def ReportsSent (tnx : Transaction) (answer : ℕ → Exchange) : Prop :=
  ((commit tnx answer).1 = .ok → ∀ (n : ℕ) ti, tnx.queue[n]? = some ti → ti.isInvalid = false →
    VApi.updateWithEvent (answer n) ≠ .notReady → n ∈ (commit tnx answer).2 ∧ SaysOk (answer n)) ∧
    StopsAtFailure answer (commit tnx answer)

/-! ## Transactions -/

theorem rc_of_mem_addToTransaction {store : Store} {t : Transaction} {call : Call}
    (h : ∀ ti ∈ t.queue, ti.rc = .ok) {ti : TransactionItem}
    (hti : ti ∈ (t.addToTransaction store call).2.queue) : ti.rc = .ok := by
  have hadd : ∀ (t' : Transaction) item, (∀ ti ∈ t'.queue, ti.rc = .ok) → item.rc = .ok →
      ti ∈ (t'.addItem item).queue → ti.rc = .ok := by
    intro t' item ht' hitem hmem
    rcases List.mem_append.mp hmem with hold | hnew
    · exact ht' ti hold
    · rw [List.mem_singleton.mp hnew]
      exact hitem
  have hset : ∀ id indv, ∀ ti ∈ (t.setIndv id indv).queue, ti.rc = .ok := by
    intro id indv ti hmem
    unfold Transaction.setIndv at hmem
    split at hmem
    · obtain ⟨n, hn, rfl⟩ := List.mem_iff_getElem.mp hmem
      have hold := h _ (List.getElem_mem (List.length_modify .. ▸ hn : n < t.queue.length))
      rw [List.getElem_modify]
      split_ifs
      · exact hold
      · exact hold
    · exact h ti hmem
  unfold Transaction.addToTransaction at hti
  split_ifs at hti
  · exact hadd t _ h rfl hti
  · split at hti
    · exact hadd _ _ (hset _ _) rfl hti
    · split at hti
      · exact hadd t _ h rfl hti
      · exact h ti hti
  · exact hadd t _ h rfl hti

/-- **The items of a transaction** have been accepted. -/
theorem rc_of_mem_transactionOf {calls : List (Store × Call)} {ti : TransactionItem}
    (h : ti ∈ (Process.transactionOf calls).queue) : ti.rc = .ok := by
  induction calls using List.reverseRecOn generalizing ti with
  | nil => cases h
  | append_singleton calls call ih =>
    rw [Process.transactionOf, List.foldl_append, List.foldl_cons, List.foldl_nil] at h
    exact rc_of_mem_addToTransaction (fun ti hti => ih hti) h

/-! ## What is reported -/

section Loop

variable {answer : ℕ → Exchange}

theorem le_of_mem_commitLoop {n m : ℕ} {items : List TransactionItem}
    (h : m ∈ (commitLoop answer n items).2) : n ≤ m := by
  induction items generalizing n with
  | nil => cases h
  | cons ti items ih =>
    unfold commitLoop at h
    dsimp only at h
    split_ifs at h
    · exact Nat.le_of_succ_le (ih h)
    · cases h
    · exact Nat.le_of_succ_le (ih h)
    · exact (List.mem_singleton.mp h).ge
    · rcases List.mem_cons.mp h with rfl | h
      · exact le_rfl
      · exact Nat.le_of_succ_le (ih h)

/-- **The loop reports what was sent.** -/
theorem commitLoop_spec (n : ℕ) {items : List TransactionItem} (h : ∀ ti ∈ items, ti.rc = .ok) :
    ((commitLoop answer n items).1 = .ok → ∀ (k : ℕ) ti, items[k]? = some ti →
      ti.isInvalid = false → VApi.updateWithEvent (answer (n + k)) ≠ .notReady →
        n + k ∈ (commitLoop answer n items).2 ∧ SaysOk (answer (n + k))) ∧
      StopsAtFailure answer (commitLoop answer n items) := by
  induction items generalizing n with
  | nil => exact ⟨fun _ k ti hk => (nomatch hk), fun hne => absurd rfl hne⟩
  | cons ti items ih =>
    have hrest := ih (n + 1) fun ti' hti' => h ti' (List.mem_cons_of_mem _ hti')
    have hskip : ti.isInvalid = true →
        ((commitLoop answer (n + 1) items).1 = .ok → ∀ (k : ℕ) ti', (ti :: items)[k]? = some ti' →
          ti'.isInvalid = false → VApi.updateWithEvent (answer (n + k)) ≠ .notReady →
            n + k ∈ (commitLoop answer (n + 1) items).2 ∧ SaysOk (answer (n + k))) := by
      intro hinvalid hok k ti' hk hvalid hready
      cases k with
      | zero =>
        rw [← Option.some.inj hk, hinvalid] at hvalid
        cases hvalid
      | succ k =>
        rw [← Nat.add_assoc, Nat.add_right_comm] at hready ⊢
        exact hrest.1 hok k ti' hk hvalid hready
    unfold commitLoop
    dsimp only
    split_ifs with hremove hrc hinvalid hfail
    · have hempty := (Bool.and_eq_true_iff.mp hremove).2
      refine ⟨hskip ?_, hrest.2⟩
      rw [TransactionItem.isInvalid, hempty, Bool.true_or]
    · exact absurd (h ti List.mem_cons_self) hrc
    · exact ⟨hskip hinvalid, hrest.2⟩
    · obtain ⟨hne, -⟩ := Bool.and_eq_true_iff.mp hfail
      refine ⟨fun hok => absurd hok (of_decide_eq_true hne), fun _ => ⟨n, ?_, rfl, ?_⟩⟩
      · exact List.mem_singleton_self n
      · exact fun m hm => (List.mem_singleton.mp hm).le
    · refine ⟨fun hok k ti' hk hvalid hready => ?_, fun hne => ?_⟩
      · cases k with
        | zero =>
          have hres : VApi.updateWithEvent (answer n) = .ok := by
            by_contra hne
            exact hfail (by simp [hne, (show VApi.updateWithEvent (answer n) ≠ .notReady from hready)])
          exact ⟨List.mem_cons_self, VApi.saysOk_of_updateWithEvent hres⟩
        | succ k =>
          rw [← Nat.add_assoc, Nat.add_right_comm] at hready ⊢
          obtain ⟨hsent, hsays⟩ := hrest.1 hok k ti' hk hvalid hready
          exact ⟨List.mem_cons_of_mem _ hsent, hsays⟩
      · obtain ⟨m, hm, hres, hlast⟩ := hrest.2 hne
        refine ⟨m, List.mem_cons_of_mem _ hm, hres, fun m' hm' => ?_⟩
        rcases List.mem_cons.mp hm' with rfl | hm'
        · exact Nat.le_of_succ_le (le_of_mem_commitLoop hm)
        · exact hlast m' hm'

end Loop

/-- **Every transaction of a script reports what was sent.** When the commit returns `Ok`, every item
with a valid id was sent and answered with `Ok`, but for those for which the client was not ready;
and when it fails, nothing was sent behind the item that failed. -/
theorem reportsSent_transactionOf (calls : List (Store × Call)) (answer : ℕ → Exchange) :
    ReportsSent (Process.transactionOf calls) answer := by
  obtain ⟨hok, hstops⟩ := @commitLoop_spec answer 0 _
    fun ti (hti : ti ∈ (Process.transactionOf calls).queue) => rc_of_mem_transactionOf hti
  refine ⟨fun hres n ti hn hvalid hready => ?_, hstops⟩
  have hsent := hok hres n ti hn hvalid
  rw [Nat.zero_add] at hsent
  exact hsent hready

/-- An individual with an id of one byte. -/
def putShort : Call where
  cmd := .put
  indv := ⟨"d", AList.singleton "rdf:type" [⟨.uri, .uri "d:Class", 0⟩]⟩
  ticketId := ""
  order := .stored String
  uri_ne := show "d" ≠ "" by decide
  values_ne := by
    intro entry hentry
    obtain rfl := List.mem_singleton.mp hentry
    exact List.cons_ne_nil _ _

/-- An item whose id is too short is skipped, an item for which the client is not ready is passed
over, and both times the commit returns `Ok`. -/
theorem not_reportsStored_passedOver :
    ¬ ReportsStored (Process.transactionOf [(fun _ => none, putShort)]) (fun _ => .notReady) ∧
      ¬ ReportsStored (Process.transactionOf [(fun _ => none, putDocument)])
        fun _ => .notReady := by
  have hshort : (commit (Process.transactionOf [(fun _ => none, putShort)])
      fun _ => .notReady).1 = .ok := by decide +kernel
  have hdocument : (commit (Process.transactionOf [(fun _ => none, putDocument)])
      fun _ => .notReady).1 = .ok := by decide +kernel
  exact ⟨fun h => h.1 hshort 0 (by decide +kernel), fun h => h.1 hdocument 0 (by decide +kernel)⟩

end Veda.V8
