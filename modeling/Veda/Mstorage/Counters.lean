import Veda.Mstorage.Numbers
import Veda.Mstorage.NewState

set_option autoImplicit false

/-!
# Update counters

Every successful change of an individual stores the next value of its counter, answers with it and
announces it, whatever counters the clients send. This holds as long as no step behind the write to
the storage fails, and as long as the lengths fit: a state that is stored without success is counted
although nobody was told, and a state that is decoded wrongly may have lost its counter.

## Main definitions

* `Mstorage.IsChange` — the counter of a change is stored, answered and announced.
* `Mstorage.ChangesCounted` — the changes of an individual are counted.
* `Mstorage.Operation.Fits` — an operation succeeds and its individual has room.
* `Mstorage.Counted` — the invariant.

## Main results

* `Mstorage.readPrev_of_records` — the previous state of an individual.
* `Mstorage.Counted.operate` — one operation.
* `Mstorage.changesCounted_of_fits` — every run.
-/

namespace Veda.Mstorage

open Veda.Lib Veda.Lib.Msgpack Veda.Onto Veda.Authorization

/-! ## Changes of an individual -/

/-- The change number `k` of the individual `id`: `k` is the counter of the answer, the only value
of the counter in the state that is stored, and the counter of the message. -/
structure IsChange (cbor : CborParser) (id : String) (k : ℕ) (resp : Response) (st st' : Server) :
    Prop where
  answer : resp.counter.toInt = k
  stored : ∃ bytes start fuel full, st'.primary.lookup id = some bytes ∧
    (Individual.newRaw (.new bytes)).parseRaw cbor = (.ok (), start) ∧
    start.parseAll cbor fuel = some full ∧
    full.obj.resources.lookup "v-s:updateCounter" = some [⟨.integer, .int resp.counter, 0⟩]
  announced : ∃ element, st'.queue = st.queue ++ [element] ∧
    element.read .getFirstInteger "u_count" = .ok (some resp.counter)

/-- The changes of an individual that has been changed `k` times are counted. -/
def ChangesCounted (id : String) : ℕ → Server → List Operation → Prop
  | _, _, [] => True
  | k, st, op :: ops =>
    match operationPrepare op.ctx op.req op.out₁ op.out₂ st with
    | .error _ => ChangesCounted id k st ops
    | .ok (resp, st') =>
      if op.req.newIndv.uri = id ∧ resp.res = .ok then
        IsChange op.ctx.cbor id (k + 1) resp st st' ∧ ChangesCounted id (k + 1) st' ops
      else ChangesCounted id k st' ops

/-- Every step of an operation succeeds, the lengths of the individual fit, and so do the previous
state, if there is one, with it and its counter with one more. -/
structure Operation.Fits (op : Operation) (st : Server) : Prop where
  steps : op.out₁.Succeeds st.info
  uri : (utf8 op.req.newIndv.uri).length < 4294967296
  parts : PartsFit op.req.newIndv
  room : ∀ prev, readPrev op.ctx (st.prevState op.req.newIndv.uri) = .ok (some prev) →
    Room prev.obj op.req.newIndv
  counter : ∀ prev counter,
    readPrev op.ctx (st.prevState op.req.newIndv.uri) = .ok (some prev) →
    prev.obj.read .getFirstInteger "v-s:updateCounter" = .ok (some counter) →
    counter.toInt + 1 < 9223372036854775808

/-- Every operation of a run fits. -/
def RunFits : Server → List Operation → Prop
  | _, [] => True
  | st, op :: ops => op.Fits st ∧ RunFits (st.operate op) ops

/-! ## Stored states -/

/-- Every stored state is that of an individual that fits, under its uri. -/
def Records (st : Server) : Prop :=
  ∀ id bytes, st.primary.lookup id = some bytes →
    ∃ π obj, bytes = toMsgpack π obj ∧ obj.uri = id ∧ obj.AllFit

theorem toMsgpack_ne_nil (π : IterOrder String) (obj : IndividualObj) :
    (toMsgpack π obj).isEmpty = false := rfl

theorem readPrev_stored {obj : IndividualObj} (hfits : obj.AllFit) (ctx : Context)
    (π : IterOrder String) :
    (∃ fuel prev, readPrev { ctx with fuel } (toMsgpack π obj) = .ok (some prev)) ∧
    ∀ prev, readPrev ctx (toMsgpack π obj) = .ok (some prev) →
      prev.obj = decoded π obj ∧ prev.Done := by
  obtain ⟨start, hstart, ⟨fuel, full, hfull⟩, hdecoded⟩ := parse_stored hfits ctx.cbor π
  have hread : ∀ fuel, readPrev { ctx with fuel } (toMsgpack π obj) =
      (start.parseAll ctx.cbor fuel).elim (.error .outOfFuel) fun prev => .ok (some prev) := by
    intro fuel
    rw [readPrev, toMsgpack_ne_nil]
    dsimp only
    rw [show (Individual.newRaw (.new (toMsgpack π obj))).parseRaw ctx.cbor = _ from hstart]
    dsimp only
    cases start.parseAll ctx.cbor fuel <;> rfl
  constructor
  · refine ⟨fuel, full, ?_⟩
    rw [hread, hfull]
    rfl
  · intro prev hprev
    have hprev' : readPrev { ctx with fuel := ctx.fuel } (toMsgpack π obj) = _ := hprev
    rw [hread] at hprev'
    cases hall : start.parseAll ctx.cbor ctx.fuel with
    | none =>
      rw [hall] at hprev'
      cases hprev'
    | some full' =>
      rw [hall] at hprev'
      obtain rfl := Option.some.inj (Except.ok.inj hprev')
      exact hdecoded _ _ hall

/-- **The previous state** of an individual is read completely. -/
theorem readPrev_of_records {st : Server} (h : Records st) {ctx : Context} {id : String}
    {prev : Individual} (hread : readPrev ctx (st.prevState id) = .ok (some prev)) :
    prev.Done ∧
      ((st.primary.lookup id = none ∧ prev.obj = .empty) ∨
        ∃ π obj, st.primary.lookup id = some (toMsgpack π obj) ∧ obj.uri = id ∧ obj.AllFit ∧
          prev.obj = decoded π obj) := by
  cases hlookup : st.primary.lookup id with
  | none =>
    rw [Server.prevState, hlookup] at hread
    obtain rfl := Option.some.inj (Except.ok.inj hread)
    exact ⟨le_rfl, .inl ⟨rfl, rfl⟩⟩
  | some bytes =>
    obtain ⟨π, obj, rfl, huri, hfits⟩ := h id bytes hlookup
    rw [Server.prevState, hlookup] at hread
    obtain ⟨hobj, hdone⟩ := (readPrev_stored hfits ctx π).2 prev hread
    exact ⟨hdone, .inr ⟨π, obj, rfl, huri, hfits, hobj⟩⟩

/-! ## One operation -/

/-- The individual `id` has been changed `k` times. -/
structure Counted (id : String) (k : ℕ) (st : Server) : Prop where
  records : Records st
  counter : (k = 0 ∧ st.primary.lookup id = none) ∨
    ∃ π obj counter, st.primary.lookup id = some (toMsgpack π obj) ∧ obj.AllFit ∧
      obj.resources.lookup "v-s:updateCounter" = some [⟨.integer, .int counter, 0⟩] ∧
      counter.toInt = k

section Operate

variable {id : String} {k : ℕ} {st : Server}

theorem lookup_decoded_counter {obj : IndividualObj} {counter : Int64}
    (h : obj.resources.lookup "v-s:updateCounter" = some [⟨.integer, .int counter, 0⟩])
    (π : IterOrder String) :
    (decoded π obj).resources.lookup "v-s:updateCounter" =
      some [⟨.integer, .int counter, 0⟩] := by
  rw [lookup_decoded, h]
  rfl

theorem storeState_of_fits {op : Operation} (hfits : op.Fits st) (hcmd : op.req.cmd ≠ .remove)
    (prevState : List UInt8) (state : IndividualObj) (updCounter : Int64) {resp : Response}
    {st' : Server}
    (h : (resp, st') = storeState op.ctx op.req op.out₁ op.out₂ prevState state updCounter st) :
    resp.res = .ok ∧ resp.counter = updCounter ∧
      st'.primary = st.primary.insert state.uri (toMsgpack op.out₁.order state) ∧
      ∃ element, st'.queue = st.queue ++ [element] ∧
        element.read .getFirstInteger "u_count" = .ok (some updCounter) := by
  obtain ⟨hstorage, hqueue, -, -⟩ := hfits.steps
  rw [storeState_of_stored op.ctx _ _ _ hfits.steps hcmd] at h
  obtain ⟨rfl, rfl⟩ := Prod.mk.inj h
  refine ⟨rfl, rfl, ?_, queueElement .put st.opId op.req state (storedState .put op.out₁ state)
    prevState updCounter op.out₁.date, ?_, ?_⟩
  · rw [stored, primary_toStorageAndQueue, hstorage]
    rfl
  · rw [stored, queue_toStorageAndQueue, hstorage, hqueue]
    rfl
  · rw [IndividualObj.read, (lookup_queueElement _ _ _ _ _ _ _ _ rfl).2.1]
    rfl

theorem allFit_newState (h : Records st) {op : Operation} (hfits : op.Fits st) {prev : Individual}
    {state : IndividualObj} {updCounter : Int64}
    (hchecked : checkRequest op.ctx op.req st = .ok (.ok prev))
    (hstate : newState op.ctx op.req prev = .ok (state, updCounter)) :
    readPrev op.ctx (st.prevState op.req.newIndv.uri) = .ok (some prev) ∧
      NextState op.req prev.obj state updCounter ∧ state.uri = op.req.newIndv.uri ∧
      state.AllFit := by
  obtain ⟨hread, hnonempty⟩ := readPrev_of_checkRequest hchecked fun read hread =>
    (readPrev_of_records h hread).1
  obtain ⟨hdone, hprev⟩ := readPrev_of_records h hread
  have hnext := nextState_of_newState hdone hstate
  have huri : state.uri = op.req.newIndv.uri := by
    rw [hnext.uri]
    split_ifs with hpart
    · rcases hprev with ⟨-, hempty⟩ | ⟨π, obj, -, huri, -, hobj⟩
      · rw [hempty] at hnonempty
        exact absurd ⟨rfl, hpart⟩ hnonempty
      · rw [hobj, uri_decoded, huri]
    · rfl
  have hparts : PartsFit prev.obj := by
    rcases hprev with ⟨-, hempty⟩ | ⟨π, obj, -, -, hallFit, hobj⟩
    · rw [hempty]
      exact partsFit_empty
    · rw [hobj]
      exact partsFit_decoded hallFit π
  exact ⟨hread, hnext, huri,
    hnext.built.allFit (by rw [huri]; exact hfits.uri) hparts hfits.parts (hfits.room prev hread)⟩

theorem Counted.next (h : Counted id k st) {op : Operation} (hfits : op.Fits st)
    (hid : op.req.newIndv.uri = id) {prev : Individual} {state : IndividualObj}
    {updCounter : Int64}
    (hread : readPrev op.ctx (st.prevState op.req.newIndv.uri) = .ok (some prev))
    (hnext : NextState op.req prev.obj state updCounter) : updCounter.toInt = (k + 1 : ℕ) := by
  obtain ⟨counter, hcounter, rfl⟩ := hnext.counter
  rcases h.counter with ⟨rfl, hnone⟩ | ⟨π, obj, last, hlookup, hallFit, hlast, hk⟩
  · have hread' := hread
    rw [hid, Server.prevState, hnone] at hread'
    obtain rfl := Option.some.inj (Except.ok.inj hread')
    obtain rfl : counter = none := (Except.ok.inj hcounter).symm
    rfl
  · have hread' := hread
    rw [hid, Server.prevState, hlookup] at hread'
    have hobj := ((readPrev_stored hallFit op.ctx π).2 prev hread').1
    have hsome : prev.obj.read .getFirstInteger "v-s:updateCounter" = .ok (some last) := by
      rw [hobj, IndividualObj.read, lookup_decoded_counter hlast]
      rfl
    rw [hsome] at hcounter
    obtain rfl := Except.ok.inj hcounter
    rw [Option.getD_some, toInt_add_one (hfits.counter prev last hread hsome), hk]
    rfl

/-- **One operation**: it changes nothing, or it changes its individual and counts the change. -/
theorem Counted.operate (h : Counted id k st) {op : Operation} (hcmd : op.req.cmd ≠ .remove)
    (hfits : op.Fits st) {resp : Response} {st' : Server}
    (hop : operationPrepare op.ctx op.req op.out₁ op.out₂ st = .ok (resp, st')) :
    if op.req.newIndv.uri = id ∧ resp.res = .ok then
      IsChange op.ctx.cbor id (k + 1) resp st st' ∧ Counted id (k + 1) st'
    else Counted id k st' := by
  rcases operationPrepare_cases hop with ⟨res, hchecked, rfl, rfl⟩ |
    ⟨prev, state, updCounter, hchecked, hstate, heq⟩
  · rw [if_neg fun hok => ne_ok_of_checkRequest hchecked hok.2]
    exact h
  · obtain ⟨hread, hnext, huri, hallFit⟩ := allFit_newState h.records hfits hchecked hstate
    obtain ⟨hres, hcounter, hprimary, hqueue⟩ := storeState_of_fits hfits hcmd _ _ _ heq
    rw [huri] at hprimary
    have hrecords : Records st' := by
      intro u bytes hlookup
      rw [hprimary] at hlookup
      by_cases hu : u = op.req.newIndv.uri
      · rw [hu, AList.lookup_insert] at hlookup
        obtain rfl := Option.some.inj hlookup
        exact ⟨_, state, rfl, huri.trans hu.symm, hallFit⟩
      · rw [AList.lookup_insert_ne hu] at hlookup
        exact h.records u bytes hlookup
    split_ifs with hid
    · have hk := h.next hfits hid.1 hread hnext
      have hlookup : st'.primary.lookup id = some (toMsgpack op.out₁.order state) := by
        rw [hprimary, hid.1, AList.lookup_insert]
      refine ⟨⟨by rw [hcounter, hk], ?_, by rw [hcounter]; exact hqueue⟩, hrecords,
        .inr ⟨_, state, updCounter, hlookup, hallFit, hnext.lookup, hk⟩⟩
      obtain ⟨start, hstart, ⟨fuel, full, hfull⟩, hdecoded⟩ :=
        parse_stored hallFit op.ctx.cbor op.out₁.order
      refine ⟨_, start, fuel, full, hlookup, hstart, hfull, ?_⟩
      rw [(hdecoded fuel full hfull).1, lookup_decoded_counter hnext.lookup, hcounter]
    · have hne : id ≠ op.req.newIndv.uri := fun heq => hid ⟨heq.symm, hres⟩
      refine ⟨hrecords, ?_⟩
      rw [hprimary, AList.lookup_insert_ne hne]
      exact h.counter

/-! ## Every run -/

theorem Counted.run (h : Counted id k st) {ops : List Operation}
    (hcmds : ∀ op ∈ ops, op.req.cmd ≠ .remove) (hfits : RunFits st ops) :
    ChangesCounted id k st ops := by
  induction ops generalizing k st with
  | nil => trivial
  | cons op ops ih =>
    obtain ⟨hfit, hrest⟩ := hfits
    have hcmds' : ∀ op ∈ ops, op.req.cmd ≠ .remove :=
      fun x hx => hcmds x (List.mem_cons_of_mem _ hx)
    rw [ChangesCounted]
    rw [Server.operate] at hrest
    cases hop : operationPrepare op.ctx op.req op.out₁ op.out₂ st with
    | error stop =>
      rw [hop] at hrest
      exact ih h hcmds' hrest
    | ok result =>
      obtain ⟨resp, st'⟩ := result
      rw [hop] at hrest
      have hstep := h.operate (hcmds op List.mem_cons_self) hfit hop
      dsimp only at hrest ⊢
      split_ifs at hstep ⊢ with hid
      · exact ⟨hstep.1, ih hstep.2 hcmds' hrest⟩
      · exact ih hstep hcmds' hrest

/-- **Update counters**: on a storage that was empty in the beginning, every run without removals in
which every operation fits counts the changes of every individual. -/
theorem changesCounted_of_fits {st : Server} (hempty : st.primary = ∅) {ops : List Operation}
    (hcmds : ∀ op ∈ ops, op.req.cmd ≠ .remove) (hfits : RunFits st ops) (id : String) :
    ChangesCounted id 0 st ops := by
  have hnone : ∀ id, st.primary.lookup id = none := by
    intro id
    rw [hempty]
    exact AList.lookup_empty id
  refine Counted.run ⟨fun id bytes hlookup => ?_, .inl ⟨rfl, hnone id⟩⟩ hcmds hfits
  rw [hnone] at hlookup
  cases hlookup

end Operate

/-! ## Runs on a document -/

/-- A context in which small records can be decoded. -/
def readingContext : Context := { closedContext with fuel := 3 }

/-- A document that is put twice has been changed twice. -/
theorem changesCounted_putTwice :
    ChangesCounted "d:doc" 0 firstRun
      [⟨readingContext, putDocument, pushed .written, pushed .written⟩,
        ⟨readingContext, putDocument, pushed .written, pushed .written⟩] := by
  have hparts : PartsFit putDocument.newIndv := PartsFit.of_entries (by decide)
  -- the state that the second operation finds
  obtain ⟨found, hfound, hlists, hcount, hcounter⟩ : ∃ found,
      readPrev readingContext ((firstRun.operate
        ⟨readingContext, putDocument, pushed .written, pushed .written⟩).prevState "d:doc") =
        .ok (some found) ∧
      (∀ e ∈ found.obj.resources.entries, e.2.length < 2147483647) ∧
      found.obj.resources.keys.length + 1 + 3 < 4294967296 ∧
      found.obj.read .getFirstInteger "v-s:updateCounter" = .ok (some 1) :=
    ⟨_, rfl, by decide, by decide, rfl⟩
  apply changesCounted_of_fits rfl (by decide)
  refine ⟨⟨by decide, by decide, hparts, ?_, ?_⟩, ⟨by decide, by decide, hparts, ?_, ?_⟩, trivial⟩
  · intro prev hprev
    obtain rfl := Option.some.inj (Except.ok.inj hprev)
    exact Room.of_entries (by decide) (by decide) (by decide)
  · intro prev counter hprev hread
    obtain rfl := Option.some.inj (Except.ok.inj hprev)
    cases hread
  · intro prev hprev
    obtain rfl := Option.some.inj (Except.ok.inj (hfound.symm.trans hprev))
    exact Room.of_entries hlists (by decide) hcount
  · intro prev counter hprev hread
    obtain rfl := Option.some.inj (Except.ok.inj (hfound.symm.trans hprev))
    obtain rfl := Option.some.inj (Except.ok.inj (hcounter.symm.trans hread))
    decide

theorem not_changesCounted_pushFails :
    ¬ ChangesCounted "d:doc" 0 firstRun
      [⟨readingContext, putDocument, pushFails, pushFails⟩,
        ⟨readingContext, putDocument, pushed .written, pushed .written⟩] := by
  intro h
  have hchange : IsChange noCbor "d:doc" 1 ⟨"d:doc", .ok, 1, 2⟩ _ _ ∧ True := h
  exact absurd hchange.1.answer (by decide)

/-! ## A document that is decoded wrongly -/

section Huge

/-- The state of a document that was put once. -/
def onceDocument (content : List UInt8) : IndividualObj :=
  ((document content).addDatetime "v-s:created" 0).setInteger "v-s:updateCounter" 1

/-- The system user puts a document with the given content. -/
def putContent (content : List UInt8) : Request := { putDocument with newIndv := document content }

/-- The outcomes of a call that writes the predicates in the other order. -/
def pushedReversed : Outcomes := { pushed .written with order := .reversed String }

/-- What the operation adds to the document. -/
def marks : List (String × List Resource) :=
  [("v-s:created", [⟨.datetime, .datetime 0, 0⟩]), ("v-s:updateCounter", [⟨.integer, .int 1, 0⟩])]

variable {zeros : List UInt8}

theorem counter_not_found (hlen : (0 :: 0 :: zeros).length = 4294967296) :
    ∃ prev prev', readPrev readingContext
        (toMsgpack (.reversed String) (onceDocument (0 :: 0 :: zeros))) = .ok (some prev) ∧
      prev.get noCbor .getFirstInteger "v-s:updateCounter" = (.ok none, prev') := by
  obtain ⟨start, hstart, h⟩ := parseRaw_toMsgpack noCbor (.reversed String)
    (onceDocument (0 :: 0 :: zeros)) (by show (utf8 "d:doc").length < _; decide)
  have hentries : (onceDocument (0 :: 0 :: zeros)).resources.iter (.reversed String) =
      ("v-s:content", [⟨.binary, .binary (0 :: 0 :: zeros), 0⟩]) :: marks := rfl
  rw [hentries] at h
  have hbytes : bytesOfEntries
      (("v-s:content", [⟨.binary, .binary (0 :: 0 :: zeros), 0⟩]) :: marks) =
      writeStr "v-s:content" ++ (writeArrayLen 1 ++
        (writeResource ⟨.binary, .binary (0 :: 0 :: zeros), 0⟩ ++ bytesOfEntries marks)) := by
    rw [bytesOfEntries_cons, writePredicate, List.flatMap_singleton, List.append_assoc,
      List.append_assoc]
    rfl
  have hname : Reads readStringFromMsgpack (writeStr "v-s:content") "v-s:content" :=
    reads_writeStr (by decide)
  have hread : readStringFromMsgpack.run (0 :: 0 :: zeros ++ bytesOfEntries marks) =
      .error (-1) (0 :: (zeros ++ bytesOfEntries marks)) := rfl
  -- the individual after the content
  obtain ⟨first, hfirst⟩ : ∃ first, first = Individual.mk
    (start.obj.push "v-s:content" ⟨.binary, .binary [], 0⟩)
    { start.raw with curPredicates := 0 } := ⟨_, rfl⟩
  have hcur : start.raw.curPredicates = 0 := Nat.le_zero.mp h.curPredicates
  have hparse₁ : parseToPredicate noCbor "?" start =
      (false, first.setCur (0 :: (zeros ++ bytesOfEntries marks))) := by
    have hrounds : asU32 ([] ++ (("v-s:content",
        [(⟨.binary, .binary (0 :: 0 :: zeros), 0⟩ : Resource)]) :: marks)).length - 0 = 3 := rfl
    rw [h.parse_eq (List.cons_ne_nil _ _) noCbor, hbytes, hcur, hfirst, hrounds, predicateLoop,
      hname]
    dsimp only
    rw [run_parseValues_document hlen]
    dsimp only
    rw [if_neg (by decide), predicateLoop, hread]
    rfl
  have hdata : 0 :: (zeros ++ bytesOfEntries marks) <:+ first.raw.data := by
    obtain ⟨before, hbefore⟩ := suffix_writePredicate "v-s:content" (0 :: 0 :: zeros)
    refine ⟨headerOf (onceDocument (0 :: 0 :: zeros)) ++ (before ++ [0]), ?_⟩
    rw [hfirst]
    show _ = start.raw.data
    rw [h.data, List.nil_append, bytesOfEntries_cons, ← hbefore]
    simp only [List.append_assoc, List.cons_append, List.nil_append]
  have hparse₂ := parse_zeros (by rw [hfirst]; exact h.rawType) hdata
    (by rw [hfirst]; show 0 < start.raw.lenPredicates; rw [h.lenPredicates]; exact Nat.succ_pos 2)
    noCbor "v-s:updateCounter"
  have hlt := h.cur_lt_iff.mpr (List.cons_ne_nil _ _)
  have hall : start.parseAll noCbor 3 =
      some (first.setCur (0 :: (zeros ++ bytesOfEntries marks))) := by
    rw [Individual.parseAll, if_pos hlt, hparse₁]
  have hnone : first.obj.resources.lookup "v-s:updateCounter" = none := by
    rw [hfirst, IndividualObj.lookup_push_ne _ _ (by decide), h.obj]
    exact AList.lookup_empty _
  refine ⟨first.setCur (0 :: (zeros ++ bytesOfEntries marks)),
    (first.setCur (0 :: (zeros ++ bytesOfEntries marks))).setCur (zeros ++ bytesOfEntries marks),
    ?_, ?_⟩
  · rw [readPrev, toMsgpack_ne_nil, if_neg Bool.false_ne_true]
    rw [show (Individual.newRaw (.new (toMsgpack (.reversed String)
      (onceDocument (0 :: 0 :: zeros))))).parseRaw readingContext.cbor = _ from hstart]
    dsimp only
    rw [show start.parseAll readingContext.cbor readingContext.fuel = _ from hall]
  · rw [Individual.get, Individual.getLoop]
    rw [show (first.setCur (0 :: (zeros ++ bytesOfEntries marks))).obj.resources.lookup
      "v-s:updateCounter" = none from hnone]
    dsimp only
    rw [if_pos (setCur_lt hdata (List.cons_ne_nil _ _)), hparse₂]
    rfl

theorem not_changesCounted_of_zeros (hlen : (0 :: 0 :: zeros).length = 4294967296) :
    ¬ ChangesCounted "d:doc" 0 firstRun
      [⟨readingContext, putContent (0 :: 0 :: zeros), pushedReversed, pushedReversed⟩,
        ⟨readingContext, putDocument, pushedReversed, pushedReversed⟩] := by
  have hop₁ : operationPrepare readingContext (putContent (0 :: 0 :: zeros)) pushedReversed
      pushedReversed firstRun = .ok (⟨"d:doc", .ok, 1, 1⟩, stored readingContext
        (putContent (0 :: 0 :: zeros)) pushedReversed [] (onceDocument (0 :: 0 :: zeros)) 1
        firstRun) := rfl
  obtain ⟨prev, prev', hread, hcounter⟩ := counter_not_found hlen
  generalize hst : stored readingContext (putContent (0 :: 0 :: zeros)) pushedReversed []
    (onceDocument (0 :: 0 :: zeros)) 1 firstRun = st at hop₁
  have hprev : st.prevState "d:doc" =
      toMsgpack (.reversed String) (onceDocument (0 :: 0 :: zeros)) := by
    rw [← hst]
    rfl
  have hready : pushedReversed.Succeeds st.info := by
    rw [← hst]
    exact ⟨rfl, rfl, rfl, rfl⟩
  have hchecked : checkRequest readingContext putDocument st = .ok (.ok prev) := by
    rw [← hprev] at hread
    show (readPrev readingContext (st.prevState "d:doc") >>= _) = _
    rw [hread]
    exact (if_neg fun hpart => Bool.false_ne_true hpart.2).trans rfl
  have hstate : newState readingContext putDocument prev =
      .ok (((putDocument.newIndv.addDatetime "v-s:created" 0).setInteger "v-s:updateCounter" 1),
        1) := by
    have hget : getPrev readingContext .getFirstInteger "v-s:updateCounter" prev =
        .ok (none, prev') := by
      rw [getPrev, show prev.get readingContext.cbor .getFirstInteger "v-s:updateCounter" = _ from
        hcounter]
    rw [newState, hget]
    rfl
  have hop₂ : operationPrepare readingContext putDocument pushedReversed pushedReversed st = _ :=
    operationPrepare_of_checked hchecked hstate
  rw [storeState_of_stored readingContext _ _ _ hready (by decide)] at hop₂
  intro h
  rw [ChangesCounted, hop₁] at h
  dsimp only at h
  rw [if_pos ⟨rfl, rfl⟩, ChangesCounted, hop₂] at h
  dsimp only at h
  rw [if_pos ⟨rfl, rfl⟩] at h
  exact absurd (show (1 : Int64).toInt = (2 : ℕ) from h.2.1.answer) (by decide)

end Huge

/-- Two runs in which the changes of a document are not counted: the message of the first change
could not be pushed, and the first state is decoded wrongly. -/
theorem not_changesCounted_document :
    ¬ ChangesCounted "d:doc" 0 firstRun
        [⟨readingContext, putDocument, pushFails, pushFails⟩,
          ⟨readingContext, putDocument, pushed .written, pushed .written⟩] ∧
      ¬ ChangesCounted "d:doc" 0 firstRun
        [⟨readingContext, putContent (0 :: 0 :: List.replicate 4294967294 0), pushedReversed,
            pushedReversed⟩,
          ⟨readingContext, putDocument, pushedReversed, pushedReversed⟩] := by
  refine ⟨not_changesCounted_pushFails, not_changesCounted_of_zeros ?_⟩
  rw [List.length_cons, List.length_cons, List.length_replicate]

end Veda.Mstorage
