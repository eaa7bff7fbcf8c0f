import Veda.Mstorage.NewState

set_option autoImplicit false

/-!
# The transaction of a script

The changes that a script makes are collected in a transaction. A script that reads an individual
gets it from the transaction when it is there, and from the storage otherwise; a command on parts of
an individual is made to a command that puts the whole individual. A command that removes an
individual is collected under the empty uri, so that the individual can still be read.

## Main definitions

* `V8.Transaction` — a transaction, with `getIndv` and `addToTransaction`.
* `V8.applyCall` — a command that is applied to a store.
* `V8.ActsSequentially` — the script reads what the store would have.
* `V8.CallsFit` — the condition on the commands.

## Main results

* `V8.actsSequentially_iff` — a transaction acts sequentially exactly when its commands meet
  the condition.

## Design

The storage gives the individuals that can be decoded. A command carries the order in which its
predicates are visited, and a uri that is not empty: `fn_callback_update` takes no other. A value
that the storage adds on its own, such as the update counter, is not a part of the result of a
command.
-/

namespace Veda.V8

open Veda.Lib Veda.Onto Veda.Mstorage

inductive ResultCode
  | ok | unprocessableEntity | notReady
  /-- an answer of the main storage -/
  | storage (res : Mstorage.ResultCode)
  deriving DecidableEq, Repr

structure TransactionItem where
  uri : String
  cmd : IndvOp
  indv : IndividualObj
  ticketId : String
  rc : ResultCode
  deriving DecidableEq

structure Transaction where
  buff : HashMap String ℕ
  queue : List TransactionItem
  deriving DecidableEq

/-- A command of a script: its individual has a uri, and no list of values is empty. -/
structure Call where
  cmd : IndvOp
  indv : IndividualObj
  ticketId : String
  /-- the order in which the predicates of the individual are visited -/
  order : IterOrder String
  uri_ne : indv.uri ≠ ""
  values_ne : ∀ entry ∈ indv.resources.entries, entry.2 ≠ []

/-- The individuals of a storage. -/
abbrev Store := String → Option IndividualObj

namespace Transaction

/-- `Transaction::default`. -/
def empty : Transaction := ⟨∅, []⟩

def addItem (t : Transaction) (item : TransactionItem) : Transaction where
  buff := t.buff.insert item.uri t.queue.length
  queue := t.queue ++ [item]

def getIndv (t : Transaction) (id : String) : Option IndividualObj :=
  (t.buff.lookup id).bind fun idx => t.queue[idx]?.map TransactionItem.indv

/-- Change the individual to which `get_indv` gives a reference. -/
def setIndv (t : Transaction) (id : String) (indv : IndividualObj) : Transaction :=
  match t.buff.lookup id with
  | some idx => { t with queue := t.queue.modify idx fun ti => { ti with indv } }
  | none => t

/-- `add_to_transaction`. The individual that a command on parts finds in the transaction is changed
itself, too. -/
def addToTransaction (store : Store) (t : Transaction) (call : Call) : ResultCode × Transaction :=
  if call.cmd = .remove then (.ok, t.addItem ⟨"", call.cmd, call.indv, call.ticketId, .ok⟩)
  else if call.cmd.isPartial then
    match t.getIndv call.indv.uri with
    | some prev =>
      let prev := indvApplyCmd call.order call.cmd prev call.indv
      (.ok, (t.setIndv call.indv.uri prev).addItem
        ⟨call.indv.uri, .put, prev, call.ticketId, .ok⟩)
    | none =>
      match store call.indv.uri with
      | some prev =>
        let prev := indvApplyCmd call.order call.cmd prev call.indv
        (.ok, t.addItem ⟨call.indv.uri, .put, prev, call.ticketId, .ok⟩)
      | none => (.unprocessableEntity, t)
  else (.ok, t.addItem ⟨call.indv.uri, call.cmd, call.indv, call.ticketId, .ok⟩)

/-- What a script reads: the individual of the transaction, or else that of the storage. -/
def read (t : Transaction) (store : Store) (id : String) : Option IndividualObj :=
  (t.getIndv id).or (store id)

end Transaction

/-! ## Sequential execution -/

/-- The individual that a command on parts makes of another one. -/
def appliedTo (call : Call) (prev : IndividualObj) : IndividualObj :=
  (call.order.order call.indv.resources.keys).foldl (applyPredicate call.cmd call.indv) prev

/-- A command is applied to a store: a command on parts changes the individual that is there. -/
def applyCall (store : Store) (call : Call) : Store :=
  if call.cmd = .remove then Function.update store call.indv.uri none
  else if call.cmd.isPartial then
    match store call.indv.uri with
    | some prev => Function.update store call.indv.uri (some (appliedTo call prev))
    | none => store
  else Function.update store call.indv.uri (some call.indv)

/-- A transaction, and the store to which the accepted commands were applied one after another. -/
def acceptedStep (store : Store) (s : Transaction × Store) (call : Call) : Transaction × Store :=
  ((s.1.addToTransaction store call).2,
    if (s.1.addToTransaction store call).1 = .ok then applyCall s.2 call else s.2)

def accepted (store : Store) (calls : List Call) : Transaction × Store :=
  calls.foldl (acceptedStep store) (.empty, store)

/-- **Sequential execution**: after each command the script reads what the store has to which the
accepted commands were applied. -/
def ActsSequentially (store : Store) (calls : List Call) : Prop :=
  ∀ n id, (accepted store (calls.take n)).1.read store id = (accepted store (calls.take n)).2 id

/-- The condition of a command in front of which the individuals are those of `current`: a removal
names an individual that is not there, and it leaves what is read under the empty uri as it is; and
no values are added or set in an individual that has none. -/
def CallFits (current : Store) (call : Call) : Prop :=
  (call.cmd = .remove → current call.indv.uri = none ∧ current "" = some call.indv) ∧
    (call.cmd = .addTo ∨ call.cmd = .setIn →
      ∀ prev, current call.indv.uri = some prev → prev.isEmpty = true →
        ∀ predicate ∈ call.indv.resources.keys, predicate = "v-s:updateCounter")

/-- The condition on all commands of a script. -/
def CallsFit (store : Store) (calls : List Call) : Prop :=
  ∀ n call, calls[n]? = some call → CallFits (accepted store (calls.take n)).2 call

/-! ## What a transaction has -/

namespace Transaction

variable {t : Transaction} {store : Store} {call : Call} {id id' : String}
  {indv : IndividualObj}

/-- What is known of a uri is the place of an item with this uri. -/
def WellBuffered (t : Transaction) : Prop :=
  ∀ id idx, t.buff.lookup id = some idx → ∃ ti, t.queue[idx]? = some ti ∧ ti.uri = id

theorem wellBuffered_empty : empty.WellBuffered := by
  intro id idx h
  cases h

theorem WellBuffered.addItem (h : t.WellBuffered) (item : TransactionItem) :
    (t.addItem item).WellBuffered := by
  intro id idx hlookup
  by_cases hid : id = item.uri
  · subst hid
    obtain rfl : t.queue.length = idx :=
      Option.some.inj ((AList.lookup_insert t.buff).symm.trans hlookup)
    exact ⟨item, List.getElem?_concat_length, rfl⟩
  · have hold : t.buff.lookup id = some idx := (AList.lookup_insert_ne hid).symm.trans hlookup
    obtain ⟨ti, hti, huri⟩ := h id idx hold
    obtain ⟨hlt, -⟩ := List.getElem?_eq_some_iff.mp hti
    exact ⟨ti, (List.getElem?_append_left hlt).trans hti, huri⟩

theorem getIndv_addItem (h : t.WellBuffered) (item : TransactionItem) (id : String) :
    (t.addItem item).getIndv id = if id = item.uri then some item.indv else t.getIndv id := by
  unfold getIndv Transaction.addItem
  dsimp only
  split_ifs with hid
  · subst hid
    rw [AList.lookup_insert, Option.bind_some, List.getElem?_concat_length]
    rfl
  · rw [AList.lookup_insert_ne hid]
    cases hlookup : t.buff.lookup id with
    | none => rfl
    | some idx =>
      obtain ⟨ti, hti, -⟩ := h id idx hlookup
      obtain ⟨hlt, -⟩ := List.getElem?_eq_some_iff.mp hti
      rw [Option.bind_some, Option.bind_some, List.getElem?_append_left hlt]

theorem WellBuffered.setIndv (h : t.WellBuffered) (id : String) (indv : IndividualObj) :
    (t.setIndv id indv).WellBuffered := by
  unfold Transaction.setIndv
  split
  case h_1 idx hidx =>
    intro id' idx' hlookup
    obtain ⟨ti, hti, huri⟩ := h id' idx' hlookup
    by_cases hsame : idx = idx'
    · subst hsame
      exact ⟨{ ti with indv }, by rw [List.getElem?_modify_eq, hti]; rfl, huri⟩
    · exact ⟨ti, (List.getElem?_modify_ne _ _ hsame).trans hti, huri⟩
  case h_2 => exact h

theorem getIndv_setIndv_of_ne (h : t.WellBuffered) (hid : id' ≠ id) :
    (t.setIndv id indv).getIndv id' = t.getIndv id' := by
  unfold Transaction.setIndv
  split
  case h_1 idx hidx =>
    unfold getIndv
    cases hlookup : t.buff.lookup id' with
    | none => rfl
    | some idx' =>
      have hne : idx ≠ idx' := by
        rintro rfl
        obtain ⟨ti, hti, huri⟩ := h id idx hidx
        obtain ⟨ti', hti', huri'⟩ := h id' idx hlookup
        rw [hti] at hti'
        obtain rfl := Option.some.inj hti'
        exact hid (huri'.symm.trans huri)
      rw [Option.bind_some, Option.bind_some]
      exact congrArg _ (List.getElem?_modify_ne _ _ hne)
  case h_2 => rfl

theorem WellBuffered.addToTransaction (h : t.WellBuffered) (store : Store) (call : Call) :
    (t.addToTransaction store call).2.WellBuffered := by
  unfold Transaction.addToTransaction
  split_ifs
  · exact h.addItem _
  · split
    · exact WellBuffered.addItem (h.setIndv _ _) _
    · split
      · exact h.addItem _
      · exact h
  · exact h.addItem _

theorem addToTransaction_fst (t : Transaction) (store : Store) (call : Call) :
    (t.addToTransaction store call).1 = .ok ↔
      ¬ (call.cmd.isPartial = true ∧ t.read store call.indv.uri = none) := by
  unfold Transaction.addToTransaction read
  split_ifs with hremove hpart
  · simp [hremove, IndvOp.isPartial]
  · cases t.getIndv call.indv.uri with
    | some prev => simp
    | none => cases store call.indv.uri <;> simp [hpart]
  · simp [hpart]

/-- **What a script reads behind a command**: a removal puts its individual under the empty uri, a
command on parts changes what was read before, and any other command puts its individual. -/
theorem read_addToTransaction (h : t.WellBuffered) (store : Store) (call : Call) (id : String) :
    (t.addToTransaction store call).2.read store id =
      if call.cmd = .remove then if id = "" then some call.indv else t.read store id
      else if call.cmd.isPartial then
        (t.read store call.indv.uri).elim (t.read store id) fun prev =>
          if id = call.indv.uri then some (indvApplyCmd call.order call.cmd prev call.indv)
          else t.read store id
      else if id = call.indv.uri then some call.indv else t.read store id := by
  unfold Transaction.addToTransaction
  by_cases hremove : call.cmd = .remove
  · rw [if_pos hremove, if_pos hremove, read, getIndv_addItem h]
    dsimp only
    split_ifs with hid
    · rw [Option.some_or]
    · rw [read]
  rw [if_neg hremove, if_neg hremove]
  by_cases hpart : call.cmd.isPartial = true
  · rw [if_pos hpart, if_pos hpart]
    cases hprev : t.getIndv call.indv.uri with
    | some prev =>
      have hread : t.read store call.indv.uri = some prev := by
        rw [read, hprev, Option.some_or]
      rw [hread, Option.elim_some]
      dsimp only
      rw [read, getIndv_addItem (h.setIndv _ _)]
      dsimp only
      split_ifs with huri
      · rw [Option.some_or]
      · rw [getIndv_setIndv_of_ne h huri, read]
    | none =>
      have hread : t.read store call.indv.uri = store call.indv.uri := by
        rw [read, hprev, Option.none_or]
      rw [hread]
      cases hstore : store call.indv.uri with
      | some prev =>
        rw [Option.elim_some]
        dsimp only
        rw [read, getIndv_addItem h]
        dsimp only
        split_ifs with huri
        · rw [Option.some_or]
        · rw [read]
      | none => rfl
  · rw [if_neg hpart, if_neg hpart, read, getIndv_addItem h]
    dsimp only
    split_ifs with huri
    · rw [Option.some_or]
    · rw [read]

end Transaction

/-! ## Commands on parts -/

section Parts

variable {call : Call} {prev : IndividualObj}

theorem lookup_appliedTo (call : Call) (prev : IndividualObj) (predicate : String) :
    (appliedTo call prev).resources.lookup predicate =
      if predicate ∈ call.indv.resources.keys then
        (applyPredicate call.cmd call.indv prev predicate).resources.lookup predicate
      else prev.resources.lookup predicate := by
  rw [appliedTo, lookup_foldl_applyPredicate call.cmd call.indv
    ((call.order.perm _).nodup_iff.mpr call.indv.resources.keys_nodup)]
  simp only [(call.order.perm _).mem_iff]

theorem indvApplyCmd_eq (call : Call) (prev : IndividualObj) :
    indvApplyCmd call.order call.cmd prev call.indv =
      if prev.isEmpty then prev else appliedTo call prev := rfl

theorem applyPredicate_removeFrom (indv : IndividualObj) (hempty : prev.isEmpty = true)
    (predicate : String) : applyPredicate .removeFrom indv prev predicate = prev := by
  have hresources : prev.resources = ∅ := by
    have hkeys := List.isEmpty_iff.mp hempty
    apply AList.ext
    exact List.map_eq_nil_iff.mp hkeys
  unfold applyPredicate
  split_ifs
  · rfl
  · cases indv.resources.lookup predicate with
    | none => rfl
    | some v =>
      dsimp only [IndividualObj.excludeAndSetResources]
      rw [hresources, AList.lookup_empty]
      show (if true then _ else _) = prev
      rw [if_pos rfl]
      obtain ⟨uri, resources⟩ := prev
      cases hresources
      rfl

/-- **An individual without values** stays so exactly when the command removes values or has none
of its own. -/
theorem appliedTo_of_empty (hpart : call.cmd.isPartial = true) (hempty : prev.isEmpty = true) :
    appliedTo call prev = prev ↔
      (call.cmd = .addTo ∨ call.cmd = .setIn →
        ∀ predicate ∈ call.indv.resources.keys, predicate = "v-s:updateCounter") := by
  have hkeys : ∀ predicate, prev.resources.lookup predicate = none := by
    intro predicate
    have hnone : predicate ∉ prev.resources.keys := by
      rw [List.isEmpty_iff.mp hempty]
      exact List.not_mem_nil
    exact AList.lookup_eq_none.mpr fun h => hnone (AList.mem_keys.mp h)
  constructor
  · intro heq hcmd predicate hmem
    by_contra hne
    obtain ⟨v, hv⟩ := Option.isSome_iff_exists.mp
      (AList.lookup_isSome.mpr (AList.mem_keys.mpr hmem))
    have hlookup := lookup_appliedTo call prev predicate
    rw [heq, hkeys, if_pos hmem, applyPredicate, if_neg hne, hv] at hlookup
    rcases hcmd with hcmd | hcmd
    · rw [hcmd] at hlookup
      dsimp only [IndividualObj.addUniqueResources] at hlookup
      rw [AList.lookup_insert] at hlookup
      cases hlookup
    · rw [hcmd] at hlookup
      dsimp only [IndividualObj.setResources] at hlookup
      rw [AList.lookup_insert] at hlookup
      cases hlookup
  · intro hcounter
    have hsame : ∀ predicate ∈ call.order.order call.indv.resources.keys,
        applyPredicate call.cmd call.indv prev predicate = prev := by
      intro predicate hmem
      have hmem : predicate ∈ call.indv.resources.keys := (call.order.perm _).mem_iff.mp hmem
      cases hcmd : call.cmd with
      | addTo => rw [applyPredicate, if_pos (hcounter (.inl hcmd) predicate hmem)]
      | setIn => rw [applyPredicate, if_pos (hcounter (.inr hcmd) predicate hmem)]
      | removeFrom => exact applyPredicate_removeFrom call.indv hempty predicate
      | _ =>
        rw [hcmd] at hpart
        cases hpart
    rw [appliedTo]
    generalize call.order.order call.indv.resources.keys = ks at hsame
    induction ks with
    | nil => rfl
    | cons k ks ih =>
      rw [List.foldl_cons, hsame k List.mem_cons_self]
      exact ih fun predicate hmem => hsame predicate (List.mem_cons_of_mem _ hmem)

theorem indvApplyCmd_eq_appliedTo (hpart : call.cmd.isPartial = true) :
    indvApplyCmd call.order call.cmd prev call.indv = appliedTo call prev ↔
      (call.cmd = .addTo ∨ call.cmd = .setIn → prev.isEmpty = true →
        ∀ predicate ∈ call.indv.resources.keys, predicate = "v-s:updateCounter") := by
  rw [indvApplyCmd_eq]
  by_cases hempty : prev.isEmpty = true
  · rw [if_pos hempty, eq_comm, appliedTo_of_empty hpart hempty]
    exact ⟨fun h hcmd _ => h hcmd, fun h hcmd => h hcmd hempty⟩
  · rw [if_neg hempty]
    exact ⟨fun _ _ h => absurd h hempty, fun _ => rfl⟩

end Parts

/-! ## Runs of commands -/

section Runs

variable {store : Store} {s : Transaction × Store} {call : Call}

/-- The script reads what the store has. -/
def Agrees (store : Store) (s : Transaction × Store) : Prop :=
  ∀ id, s.1.read store id = s.2 id

theorem agrees_remove_iff (hwell : s.1.WellBuffered) (hagrees : Agrees store s)
    (hcmd : call.cmd = .remove) :
    Agrees store (acceptedStep store s call) ↔
      s.2 call.indv.uri = none ∧ s.2 "" = some call.indv := by
  have hok : (s.1.addToTransaction store call).1 = .ok := by
    rw [Transaction.addToTransaction_fst, hcmd]
    rintro ⟨h, -⟩
    cases h
  have hread : ∀ id, (acceptedStep store s call).1.read store id =
      if id = "" then some call.indv else s.2 id := by
    intro id
    rw [acceptedStep, Transaction.read_addToTransaction hwell, if_pos hcmd, hagrees]
  have hstore : (acceptedStep store s call).2 = Function.update s.2 call.indv.uri none := by
    rw [acceptedStep, if_pos hok, applyCall, if_pos hcmd]
  constructor
  · intro h
    have huri := h call.indv.uri
    rw [hread, hstore, if_neg call.uri_ne, Function.update_self] at huri
    have hnil := h ""
    rw [hread, hstore, if_pos rfl, Function.update_of_ne call.uri_ne.symm] at hnil
    exact ⟨huri, hnil.symm⟩
  · rintro ⟨huri, hnil⟩ id
    rw [hread, hstore, ← huri, Function.update_eq_self]
    split_ifs with hid
    · rw [hid, hnil]
    · rfl

theorem agrees_partial_iff (hwell : s.1.WellBuffered) (hagrees : Agrees store s)
    (hpart : call.cmd.isPartial = true) :
    Agrees store (acceptedStep store s call) ↔ ∀ prev, s.2 call.indv.uri = some prev →
      indvApplyCmd call.order call.cmd prev call.indv = appliedTo call prev := by
  have hcmd : call.cmd ≠ .remove := by
    intro h
    rw [h] at hpart
    cases hpart
  have hread : ∀ id, (acceptedStep store s call).1.read store id =
      (s.2 call.indv.uri).elim (s.2 id) fun prev =>
        if id = call.indv.uri then some (indvApplyCmd call.order call.cmd prev call.indv)
        else s.2 id := by
    intro id
    rw [acceptedStep, Transaction.read_addToTransaction hwell, if_neg hcmd, if_pos hpart,
      hagrees, hagrees]
  have hok : (s.1.addToTransaction store call).1 = .ok ↔ s.2 call.indv.uri ≠ none := by
    rw [Transaction.addToTransaction_fst, hagrees]
    exact ⟨fun h hnone => h ⟨hpart, hnone⟩, fun h hnone => h hnone.2⟩
  cases hcurrent : s.2 call.indv.uri with
  | none =>
    have hrefused : (acceptedStep store s call).2 = s.2 := by
      rw [acceptedStep, if_neg (fun h => hok.mp h hcurrent)]
    refine ⟨fun _ _ h => (nomatch h), fun _ id => ?_⟩
    rw [hread, hcurrent, hrefused, Option.elim_none]
  | some prev =>
    have hstore : (acceptedStep store s call).2 =
        Function.update s.2 call.indv.uri (some (appliedTo call prev)) := by
      have haccepted : s.2 call.indv.uri ≠ none := by
        rw [hcurrent]
        exact Option.some_ne_none prev
      rw [acceptedStep, if_pos (hok.mpr haccepted), applyCall, if_neg hcmd, if_pos hpart,
        hcurrent]
    constructor
    · rintro h _ ⟨⟩
      have huri := h call.indv.uri
      rw [hread, hstore, hcurrent, Option.elim_some, if_pos rfl, Function.update_self] at huri
      exact Option.some.inj huri
    · intro h id
      rw [hread, hstore, hcurrent, Option.elim_some, h prev rfl]
      by_cases hid : id = call.indv.uri
      · rw [if_pos hid, hid, Function.update_self]
      · rw [if_neg hid, Function.update_of_ne hid]

theorem agrees_put (hwell : s.1.WellBuffered) (hagrees : Agrees store s)
    (hcmd : call.cmd ≠ .remove) (hpart : call.cmd.isPartial ≠ true) :
    Agrees store (acceptedStep store s call) := by
  have hok : (s.1.addToTransaction store call).1 = .ok :=
    (Transaction.addToTransaction_fst s.1 store call).mpr fun h => hpart h.1
  intro id
  rw [acceptedStep, Transaction.read_addToTransaction hwell, if_pos hok, applyCall, if_neg hcmd,
    if_neg hcmd, if_neg hpart, if_neg hpart, hagrees]
  dsimp only
  by_cases hid : id = call.indv.uri
  · rw [if_pos hid, hid, Function.update_self]
  · rw [if_neg hid, Function.update_of_ne hid]

theorem agrees_acceptedStep_iff (hwell : s.1.WellBuffered) (hagrees : Agrees store s) :
    Agrees store (acceptedStep store s call) ↔ CallFits s.2 call := by
  by_cases hremove : call.cmd = .remove
  · rw [agrees_remove_iff hwell hagrees hremove]
    refine ⟨fun h => ⟨fun _ => h, fun hcmd => ?_⟩, fun h => h.1 hremove⟩
    rcases hcmd with hcmd | hcmd <;> cases hremove.symm.trans hcmd
  by_cases hpart : call.cmd.isPartial = true
  · simp only [agrees_partial_iff hwell hagrees hpart, indvApplyCmd_eq_appliedTo hpart]
    exact ⟨fun h => ⟨fun hcmd => absurd hcmd hremove, fun hcmd prev hprev => h prev hprev hcmd⟩,
      fun h prev hprev hcmd => h.2 hcmd prev hprev⟩
  · refine ⟨fun _ => ⟨fun hcmd => absurd hcmd hremove, fun hcmd => ?_⟩,
      fun _ => agrees_put hwell hagrees hremove hpart⟩
    rcases hcmd with hcmd | hcmd <;> rw [hcmd] at hpart <;> exact absurd rfl hpart

theorem accepted_succ {calls : List Call} {n : ℕ} (h : calls[n]? = some call) :
    accepted store (calls.take (n + 1)) =
      acceptedStep store (accepted store (calls.take n)) call := by
  rw [accepted, List.take_add_one, h, Option.toList_some, List.foldl_append]
  rfl

theorem wellBuffered_accepted (store : Store) (calls : List Call) (n : ℕ) :
    (accepted store (calls.take n)).1.WellBuffered := by
  induction n with
  | zero => exact Transaction.wellBuffered_empty
  | succ n ih =>
    cases hcall : calls[n]? with
    | none => rwa [List.take_add_one, hcall, Option.toList_none, List.append_nil]
    | some call =>
      rw [accepted_succ hcall]
      exact ih.addToTransaction store call

/-- **A transaction acts sequentially** exactly when its commands meet the condition: it removes
nothing that is there, and it adds and sets nothing in an individual without values. -/
theorem actsSequentially_iff (store : Store) (calls : List Call) :
    ActsSequentially store calls ↔ CallsFit store calls := by
  constructor
  · intro h n call hcall
    have hnext : Agrees store (accepted store (calls.take (n + 1))) := h (n + 1)
    rw [accepted_succ hcall] at hnext
    exact (agrees_acceptedStep_iff (wellBuffered_accepted store calls n) (h n)).mp hnext
  · intro h n
    induction n with
    | zero => exact fun _ => rfl
    | succ n ih =>
      cases hcall : calls[n]? with
      | none => rwa [List.take_add_one, hcall, Option.toList_none, List.append_nil]
      | some call =>
        rw [accepted_succ hcall]
        exact (agrees_acceptedStep_iff (wellBuffered_accepted store calls n) ih).mpr
          (h n call hcall)

end Runs

/-! ## A removed individual is still read -/

/-- An individual with a value of one predicate. -/
def labelled (value : Int64) : IndividualObj :=
  ⟨"d:label", AList.singleton "rdfs:label" [⟨.integer, .int value, 0⟩]⟩

/-- A command with a labelled individual. -/
def labelCall (cmd : IndvOp) (value : Int64) : Call where
  cmd := cmd
  indv := labelled value
  ticketId := ""
  order := .stored String
  uri_ne := show "d:label" ≠ "" by decide
  values_ne := by
    intro entry hentry
    obtain rfl := List.mem_singleton.mp hentry
    exact List.cons_ne_nil _ _

/-- The removal of the labelled individual. -/
def removeLabelled : Call where
  cmd := .remove
  indv := ⟨"d:label", ∅⟩
  ticketId := ""
  order := .stored String
  uri_ne := show "d:label" ≠ "" by decide
  values_ne := fun _ hentry => absurd hentry List.not_mem_nil

/-- A removed individual is read as it was in the storage. And when the only value of an individual
was removed from it, the value that is added next is lost. -/
theorem not_actsSequentially_removed :
    ¬ ActsSequentially (fun id => if id = "d:label" then some (labelled 1) else none)
        [removeLabelled] ∧
      ¬ ActsSequentially (fun _ => none)
        [labelCall .put 1, labelCall .removeFrom 1, labelCall .addTo 2] := by
  constructor
  · intro h
    exact absurd (h 1 "d:label") (by decide +kernel)
  · intro h
    have hlabel := congrArg (Option.map fun indv => indv.resources.lookup "rdfs:label")
      (h 3 "d:label")
    exact absurd hlabel (by decide +kernel)

end Veda.V8
