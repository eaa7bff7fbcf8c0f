import Veda.Mstorage.Effects
import Veda.Onto.State

set_option autoImplicit false

/-!
# The changes that the main storage announces

The programs behind the queue see of every change the states of the individual before and after it.
A change that puts a state is one element of the queue. A removal is two: first a mark is put in
place of the state, which has only `v-s:deleted` and `v-s:updateCounter`, then the individual is
removed, and the second element has no states.

## Main definitions

* `Mstorage.Change` — changes.
* `Mstorage.States` — the states that are stored.
* `Mstorage.Element` — an element of the queue as it is read.
* `Mstorage.Change.elements`, `Mstorage.announced` — the elements of one change and of a
  history.
* `Mstorage.Shows`, `Mstorage.Server.Follows` — the messages and the storage of the
  server show the elements and the states.

## Main results

* `Mstorage.follows_operate` — one operation.
* `Mstorage.opId_announced` — the numbers of the elements.
-/

namespace Veda.Mstorage

open Veda.Lib Veda.Lib.Msgpack Veda.Onto

/-! ## Changes -/

/-- The state that a removal puts before it takes the individual out. -/
structure IsMark (s : State) : Prop where
  deleted : s.obj.resources.lookup "v-s:deleted" = some [⟨.boolean, .bool true, 0⟩]
  counter : ∃ i, s.obj.resources.lookup "v-s:updateCounter" = some [⟨.integer, .int i, 0⟩]
  rest : ∀ p, p ≠ "v-s:deleted" → p ≠ "v-s:updateCounter" → s.obj.resources.lookup p = none

/-- The mark of an individual with a counter. -/
def markOf (uri : String) (counter : Int64) : State :=
  ((State.named uri).addValue "v-s:deleted" .boolean (.bool true)).addValue "v-s:updateCounter"
    .integer (.int counter)

theorem isMark_markOf (uri : String) (counter : Int64) : IsMark (markOf uri counter) := by
  have hlookup : ∀ p, (markOf uri counter).obj.resources.lookup p =
      if p = "v-s:updateCounter" then some [⟨.integer, .int counter, 0⟩]
      else if p = "v-s:deleted" then some [⟨.boolean, .bool true, 0⟩] else none := by
    intro p
    simp [markOf, State.addValue, State.named, IndividualObj.lookup_addValue,
      IndividualObj.empty]
  refine ⟨?_, ⟨counter, ?_⟩, fun p hdeleted hcounter => ?_⟩
  · rw [hlookup, if_neg (by decide), if_pos rfl]
  · rw [hlookup, if_pos rfl]
  · rw [hlookup, if_neg hcounter, if_neg hdeleted]

/-- A change of an individual. -/
inductive Change
  | put (state : State)
  | remove (mark : State) (isMark : IsMark mark)

/-- The individual that is changed. -/
def Change.id : Change → String
  | .put state => state.uri
  | .remove mark _ => mark.uri

/-- The states that are stored, each under its uri. -/
structure States where
  stateOf : String → Option State
  named : ∀ id s, stateOf id = some s → s.uri = id

namespace States

/-- Nothing is stored. -/
def none : States := ⟨fun _ => .none, fun _ _ h => nomatch h⟩

/-- The state that a change leaves of its individual. -/
def next : Change → Option State
  | .put state => some state
  | .remove _ _ => .none

/-- The states after a change. -/
def apply (st : States) (c : Change) : States where
  stateOf := Function.update st.stateOf c.id (next c)
  named id s h := by
    by_cases hid : id = c.id
    · rw [hid, Function.update_self] at h
      cases c with
      | put state => rw [hid, ← Option.some.inj h]; rfl
      | remove mark isMark => cases h
    · rw [Function.update_of_ne hid] at h
      exact st.named id s h

@[simp] theorem stateOf_apply_self (st : States) (c : Change) :
    (st.apply c).stateOf c.id = next c := Function.update_self _ _ _

theorem stateOf_apply_of_ne (st : States) {c : Change} {id : String} (h : id ≠ c.id) :
    (st.apply c).stateOf id = st.stateOf id := Function.update_of_ne h _ _

theorem apply_put_remove (st : States) (mark : State) (isMark : IsMark mark) :
    (st.apply (.put mark)).apply (.remove mark isMark) = st.apply (.remove mark isMark) := by
  unfold apply
  congr 1
  exact Function.update_idem _ _ _

end States

/-! ## Elements of the queue -/

/-- An element of the queue as it is read. -/
structure Element where
  cmd : IndvOp
  opId : ℕ
  prevState : Option State
  newState : Option State

/-- The previous state, `Individual::default()` when there is none. -/
def Element.prev (e : Element) : State := e.prevState.getD .empty

/-- The new state, `Individual::default()` when there is none. -/
def Element.new (e : Element) : State := e.newState.getD .empty

/-- The elements of a change. -/
def Change.elements (st : States) (opId : ℕ) : Change → List Element
  | .put state => [⟨.put, opId + 1, st.stateOf state.uri, some state⟩]
  | .remove mark _ =>
    [⟨.put, opId + 1, st.stateOf mark.uri, some mark⟩, ⟨.remove, opId + 2, none, none⟩]

/-- The elements of a history of changes. -/
def announced : States → ℕ → List Change → List Element
  | _, _, [] => []
  | st, opId, c :: cs =>
    c.elements st opId ++ announced (st.apply c) (opId + (c.elements st opId).length) cs

theorem opId_announced (st : States) (opId : ℕ) (cs : List Change) :
    (announced st opId cs).map Element.opId =
      List.range' (opId + 1) (announced st opId cs).length := by
  induction cs generalizing st opId with
  | nil => rfl
  | cons c cs ih =>
    have helements : (c.elements st opId).map Element.opId =
        List.range' (opId + 1) (c.elements st opId).length := by
      cases c <;> rfl
    rw [announced, List.map_append, helements, ih, List.length_append,
      Nat.add_right_comm opId (c.elements st opId).length 1, List.range'_append_1]

/-! ## The server -/

/-- What a message says about a state. -/
def ShowsState (message : IndividualObj) (predicate : String) : Option State → Prop
  | none => message.resources.lookup predicate = none
  | some s => ∃ π obj, s = .ofStored π obj ∧ obj.AllFit ∧
      message.resources.lookup predicate = some [⟨.binary, .binary (toMsgpack π obj), 0⟩]

/-- The message shows the element. -/
structure Shows (message : IndividualObj) (e : Element) : Prop where
  cmd : message.read .getFirstInteger "cmd" = .ok (some e.cmd.toI64)
  opId : ∃ i, message.read .getFirstInteger "op_id" = .ok (some i) ∧ i.toInt = e.opId
  prevState : ShowsState message "prev_state" e.prevState
  newState : ShowsState message "new_state" e.newState

/-- The server stores the states, and its operation number is the given one. -/
structure Server.Follows (st : Server) (states : States) (opId : ℕ) : Prop where
  kept : ∀ id, match states.stateOf id with
    | none => st.primary.lookup id = none
    | some s => ∃ π obj, s = .ofStored π obj ∧ obj.AllFit ∧
        st.primary.lookup id = some (toMsgpack π obj)
  opId : st.opId.toInt = opId

/-- An operation whose writes succeed; the request to remove an individual has only its uri. -/
structure Operation.Announces (op : Operation) (st : Server) : Prop where
  fits : op.Fits st
  removal : op.req.cmd = .remove → op.out₂.Succeeds st.info ∧ op.req.newIndv.resources = ∅
  opId : st.opId.toInt + 2 < 9223372036854775808

section Follows

variable {st : Server} {states : States} {opId : ℕ}

theorem Server.Follows.records (h : st.Follows states opId) : Records st := by
  intro id bytes hlookup
  have hstored := h.kept id
  cases hstate : states.stateOf id with
  | none =>
    rw [hstate, hlookup] at hstored
    cases hstored
  | some s =>
    rw [hstate] at hstored
    obtain ⟨π, obj, rfl, hfits, hbytes⟩ := hstored
    refine ⟨π, obj, Option.some.inj (hlookup.symm.trans hbytes), ?_, hfits⟩
    rw [← State.uri_ofStored π obj]
    exact states.named id _ hstate

theorem showsState_of_lookup {message : IndividualObj} {predicate : String} {s : Option State}
    {bytes : List UInt8}
    (hlookup : message.resources.lookup predicate =
      if bytes.isEmpty then none else some [⟨.binary, .binary bytes, 0⟩])
    (hbytes : match s with
      | none => bytes = []
      | some s => ∃ π obj, s = .ofStored π obj ∧ obj.AllFit ∧ bytes = toMsgpack π obj) :
    ShowsState message predicate s := by
  cases s with
  | none =>
    obtain rfl : bytes = [] := hbytes
    exact hlookup
  | some s =>
    obtain ⟨π, obj, hs, hfits, rfl⟩ := hbytes
    rw [toMsgpack_ne_nil] at hlookup
    exact ⟨π, obj, hs, hfits, hlookup⟩

theorem Server.Follows.prevState (h : st.Follows states opId) (id : String) :
    match states.stateOf id with
    | none => st.prevState id = []
    | some s => ∃ π obj, s = .ofStored π obj ∧ obj.AllFit ∧ st.prevState id = toMsgpack π obj := by
  have hstored := h.kept id
  unfold Server.prevState
  cases hstate : states.stateOf id with
  | none =>
    rw [hstate] at hstored
    dsimp only at hstored ⊢
    rw [hstored]
    rfl
  | some s =>
    rw [hstate] at hstored
    obtain ⟨π, obj, hs, hfits, hlookup⟩ := hstored
    exact ⟨π, obj, hs, hfits, by rw [hlookup]; rfl⟩

theorem Server.Follows.put (h : st.Follows states opId) (ctx : Context) {req : Request}
    {out : Outcomes} (hout : out.Succeeds st.info) (hroom : st.opId.toInt + 1 < 9223372036854775808)
    {state : IndividualObj} (huri : state.uri = req.newIndv.uri) (hfits : state.AllFit)
    {updCounter : Int64} {s : State} (hs : s = .ofStored out.order state) {st' : Server}
    (hst' : st' = stored ctx req out (st.prevState req.newIndv.uri) state updCounter st) :
    st'.Follows (states.apply (.put s)) (opId + 1) ∧
      ∃ message, st'.queue = st.queue ++ [message] ∧
        Shows message ⟨.put, opId + 1, states.stateOf s.uri, some s⟩ := by
  obtain ⟨hstorage, hqueue, -, -⟩ := hout
  have hname : s.uri = state.uri := by rw [hs, State.uri_ofStored]
  have hopId : (st.opId + 1).toInt = (opId + 1 : ℕ) := by
    rw [toInt_add_one hroom, h.opId]
    rfl
  have hprimary : st'.primary = st.primary.insert state.uri (toMsgpack out.order state) := by
    rw [hst', stored, primary_toStorageAndQueue, hstorage]
    rfl
  refine ⟨⟨fun id => ?_, ?_⟩, queueElement .put st.opId req state (storedState .put out state)
    (st.prevState req.newIndv.uri) updCounter out.date, ?_, ?_⟩
  · by_cases hid : id = s.uri
    · rw [hid, show s.uri = (Change.put s).id from rfl, States.stateOf_apply_self, hprimary,
        show (Change.put s).id = state.uri from hname, AList.lookup_insert]
      exact ⟨_, state, hs, hfits, rfl⟩
    · rw [States.stateOf_apply_of_ne _ (c := .put s) hid, hprimary,
        AList.lookup_insert_ne fun heq => hid (heq.trans hname.symm)]
      exact h.kept id
  · rw [hst', stored, opId_toStorageAndQueue, hstorage, hqueue]
    exact hopId
  · rw [hst', stored, queue_toStorageAndQueue, hstorage, hqueue]
    rfl
  · obtain ⟨hnumber, -, hcmd, hnew, hprev, -⟩ := lookup_queueElement .put st.opId req state
      (storedState .put out state) (st.prevState req.newIndv.uri) updCounter out.date rfl
    refine ⟨?_, ⟨st.opId + 1, ?_, hopId⟩, showsState_of_lookup hprev ?_,
      showsState_of_lookup hnew ⟨_, state, hs, hfits, rfl⟩⟩
    · rw [IndividualObj.read, hcmd]
      rfl
    · rw [IndividualObj.read, hnumber]
      rfl
    · rw [hname, huri]
      exact h.prevState req.newIndv.uri

theorem Server.Follows.remove (h : st.Follows states opId) (ctx : Context) {req : Request}
    {out : Outcomes} (hout : out.Succeeds st.info) (hroom : st.opId.toInt + 1 < 9223372036854775808)
    {state : IndividualObj} {mark : State} (isMark : IsMark mark) (huri : mark.uri = state.uri)
    {updCounter : Int64} {st' : Server} (hst' : st' = removed ctx req out state updCounter st) :
    st'.Follows (states.apply (.remove mark isMark)) (opId + 1) ∧
      ∃ message, st'.queue = st.queue ++ [message] ∧
        Shows message ⟨.remove, opId + 1, none, none⟩ := by
  obtain ⟨hstorage, hqueue, -, -⟩ := hout
  have hopId : (st.opId + 1).toInt = (opId + 1 : ℕ) := by
    rw [toInt_add_one hroom, h.opId]
    rfl
  have hprimary : st'.primary = st.primary.erase state.uri := by
    rw [hst', removed, primary_toStorageAndQueue, hstorage]
    rfl
  have hid' : (Change.remove mark isMark).id = state.uri := huri
  let counted := state.setInteger "v-s:updateCounter" updCounter
  refine ⟨⟨fun id => ?_, ?_⟩, queueElement .remove st.opId req counted
    (storedState .remove out counted) [] updCounter out.date, ?_, ?_⟩
  · by_cases hid : id = (Change.remove mark isMark).id
    · rw [hid, States.stateOf_apply_self, hprimary, hid', AList.lookup_erase]
      rfl
    · rw [States.stateOf_apply_of_ne _ hid, hprimary,
        AList.lookup_erase_ne fun heq => hid (heq.trans hid'.symm)]
      exact h.kept id
  · rw [hst', removed, opId_toStorageAndQueue, hstorage, hqueue]
    exact hopId
  · rw [hst', removed, queue_toStorageAndQueue, hstorage, hqueue]
    rfl
  · obtain ⟨hnumber, -, hcmd, hnew, hprev, -⟩ := lookup_queueElement .remove st.opId req counted
      (storedState .remove out counted) [] updCounter out.date rfl
    refine ⟨?_, ⟨st.opId + 1, ?_, hopId⟩, showsState_of_lookup hprev rfl,
      showsState_of_lookup hnew rfl⟩
    · rw [IndividualObj.read, hcmd]
      rfl
    · rw [IndividualObj.read, hnumber]
      rfl

end Follows

/-! ## Operations and runs -/

theorem isMark_newState {ctx : Context} {req : Request} (hcmd : req.cmd = .remove)
    (hempty : req.newIndv.resources = ∅) {prev : Individual} {state : IndividualObj}
    {updCounter : Int64} (h : newState ctx req prev = .ok (state, updCounter))
    (π : IterOrder String) : IsMark (.ofStored π state) := by
  unfold newState at h
  obtain ⟨⟨counter, prev'⟩, -, h⟩ := bind_eq_ok h
  obtain ⟨marked, hmarked, h⟩ := bind_eq_ok h
  obtain ⟨rfl, -⟩ := Prod.mk.inj (Except.ok.inj h)
  rw [markedIndv, if_neg (by simp [hcmd]), if_pos hcmd] at hmarked
  obtain rfl := Except.ok.inj hmarked
  rw [if_neg (by simp [IndvOp.isPartial, hcmd])]
  have hlookup : ∀ p, ((req.newIndv.setBool "v-s:deleted" true).setInteger "v-s:updateCounter"
      (counter.getD 0 + 1)).resources.lookup p =
        if p = "v-s:updateCounter" then some [⟨.integer, .int (counter.getD 0 + 1), 0⟩]
        else if p = "v-s:deleted" then some [⟨.boolean, .bool true, 0⟩] else none := by
    intro p
    rw [IndividualObj.setInteger, IndividualObj.lookup_setValue, IndividualObj.setBool,
      IndividualObj.lookup_setValue, hempty, AList.lookup_empty]
  refine ⟨?_, ⟨counter.getD 0 + 1, ?_⟩, fun p hdeleted hcounter => ?_⟩
  · rw [State.ofStored, lookup_decoded, hlookup, if_neg (by decide), if_pos rfl]
    rfl
  · rw [State.ofStored, lookup_decoded, hlookup, if_pos rfl]
    rfl
  · rw [State.ofStored, lookup_decoded, hlookup, if_neg hcounter, if_neg hdeleted]
    rfl

/-- **One operation** changes nothing, or it makes a change and announces it. -/
theorem follows_operate {st : Server} {states : States} {opId : ℕ} (h : st.Follows states opId)
    {op : Operation} (hop : op.Announces st) :
    st.operate op = st ∨ ∃ c : Change, c.id = op.req.newIndv.uri ∧
      (st.operate op).Follows (states.apply c) (opId + (c.elements states opId).length) ∧
      ∃ messages, (st.operate op).queue = st.queue ++ messages ∧
        List.Forall₂ Shows messages (c.elements states opId) := by
  obtain ⟨hfits, hremoval, hroom⟩ := hop
  unfold Server.operate
  cases hanswer : operationPrepare op.ctx op.req op.out₁ op.out₂ st with
  | error stop => exact .inl rfl
  | ok result =>
    obtain ⟨resp, st'⟩ := result
    rcases operationPrepare_cases hanswer with ⟨res, -, -, rfl⟩ |
      ⟨prev, state, updCounter, hchecked, hstate, heq⟩
    · exact .inl rfl
    · obtain ⟨-, -, huri, hallFit⟩ := allFit_newState h.records hfits hchecked hstate
      have hname := State.uri_ofStored op.out₁.order state
      obtain ⟨hput, message, hqueue, hshows⟩ := h.put op.ctx hfits.steps (by omega) huri hallFit rfl
        (Eq.refl (stored op.ctx op.req op.out₁ (st.prevState op.req.newIndv.uri) state updCounter st))
      right
      by_cases hcmd : op.req.cmd = .remove
      · obtain ⟨hsecond, hempty⟩ := hremoval hcmd
        have isMark := isMark_newState hcmd hempty hstate op.out₁.order
        rw [storeState_of_removed op.ctx _ state updCounter hfits.steps hcmd hsecond] at heq
        obtain ⟨hremove, message', hqueue', hshows'⟩ :=
          hput.remove op.ctx ((succeeds_stored op.ctx _ state updCounter hfits.steps).mpr hsecond)
            (by rw [hput.opId]; have := h.opId; omega) isMark hname (Prod.mk.inj heq).2
        rw [States.apply_put_remove] at hremove
        refine ⟨.remove (.ofStored op.out₁.order state) isMark, hname.trans huri, hremove,
          [message, message'], ?_, .cons hshows (.cons hshows' .nil)⟩
        rw [hqueue', hqueue, List.append_assoc]
        rfl
      · rw [storeState_of_stored op.ctx _ state updCounter hfits.steps hcmd] at heq
        rw [← (Prod.mk.inj heq).2] at hput hqueue
        exact ⟨.put (.ofStored op.out₁.order state), hname.trans huri, hput, [message], hqueue,
          .cons hshows .nil⟩

end Veda.Mstorage
