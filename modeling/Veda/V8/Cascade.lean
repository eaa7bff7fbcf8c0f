import Veda.Onto.Lossless
import Veda.V8.EventPath
import Veda.V8.Transaction

set_option autoImplicit false

/-!
# Cascades of scripts

The programs that run the event scripts read the queue of the main storage, and the updates of a
script are operations of the main storage, which announces them in the queue again. Clients and any
number of such programs work at the same time.

## Main definitions

* `V8.Process` — what one of the programs is doing, with `Process.script` and `Process.send`.
* `V8.World`, `V8.World.step` — the main storage, the programs and the paths that they
  have produced.

## Main results

* `Mstorage.mem_queue_operate` — the messages of an operation.
* `V8.Inv.step` — the invariant.
* `V8.cutOff_run` — every path that is produced is cut off.

## Design

A program takes any message of the queue, so that it may read some again after a restart, and works
in steps: it looks at one script, or sends one update. What a script does is arbitrary. An update
that a client sends may have an event id: it is the root of the paths that follow from it, and
empty when there is none.
-/

namespace Veda.Mstorage

open Veda.Lib Veda.Onto

/-! ## The messages of an operation -/

section Messages

variable {ctx : Context} {req : Request} {m : IndividualObj}

/-- The message is about a change of the request. -/
def Answers (req : Request) (m : IndividualObj) : Prop :=
  ∃ cmd opId newIndv newState prevState counter date,
    m = queueElement cmd opId req newIndv newState prevState counter date

theorem mem_queue_toStorageAndQueue {cmd : IndvOp} {out : Outcomes} {newIndv : IndividualObj}
    {prevState : List UInt8} {counter : Int64} {st : Server}
    (h : m ∈ (toStorageAndQueue ctx cmd req out newIndv prevState counter st).2.queue) :
    m ∈ st.queue ∨ Answers req m := by
  unfold toStorageAndQueue at h
  split_ifs at h
  · rcases List.mem_append.mp h with hold | hnew
    · exact .inl hold
    · exact .inr ⟨_, _, _, _, _, _, _, List.mem_singleton.mp hnew⟩
  · exact .inl h
  · exact .inl h

theorem mem_queue_storeState {out₁ out₂ : Outcomes} {prevState : List UInt8}
    {state : IndividualObj} {counter : Int64} {st : Server}
    (h : m ∈ (storeState ctx req out₁ out₂ prevState state counter st).2.queue) :
    m ∈ st.queue ∨ Answers req m := by
  have hfirst : m ∈ (toStorageAndQueue ctx .put req out₁ state prevState counter st).2.queue →
      m ∈ st.queue ∨ Answers req m := mem_queue_toStorageAndQueue
  unfold storeState at h
  generalize toStorageAndQueue ctx .put req out₁ state prevState counter st = first at h hfirst
  obtain ⟨isStored, st₁⟩ := first
  cases isStored with
  | false => exact hfirst h
  | true =>
    dsimp only at h
    split_ifs at h
    · have hsecond := @mem_queue_toStorageAndQueue ctx req m .remove out₂
        (state.setInteger "v-s:updateCounter" counter) [] counter st₁
      generalize toStorageAndQueue ctx .remove req out₂
        (state.setInteger "v-s:updateCounter" counter) [] counter st₁ = second at h hsecond
      obtain ⟨isRemoved, st₂⟩ := second
      have hmem : m ∈ st₂.queue := by cases isRemoved <;> exact h
      exact (hsecond hmem).elim hfirst .inr
    · exact hfirst h

/-- **The messages of an operation** are about its request. -/
theorem mem_queue_operate {st : Server} {op : Operation} (h : m ∈ (st.operate op).queue) :
    m ∈ st.queue ∨ Answers op.req m := by
  unfold Server.operate at h
  cases hanswer : operationPrepare op.ctx op.req op.out₁ op.out₂ st with
  | error stop =>
    rw [hanswer] at h
    exact .inl h
  | ok result =>
    rw [hanswer] at h
    obtain ⟨resp, st'⟩ := result
    rcases operationPrepare_cases hanswer with ⟨res, -, -, rfl⟩ | ⟨prev, state, counter, -, -, heq⟩
    · exact .inl h
    · rw [show st' = _ from congrArg Prod.snd heq] at h
      exact mem_queue_storeState h

end Messages

theorem Answers.lookup_eventId {req : Request} {m : IndividualObj} (h : Answers req m) :
    m.resources.lookup "event_id" = req.eventId.map fun v => [⟨.string, .str v .none, 0⟩] := by
  obtain ⟨cmd, opId, newIndv, newState, prevState, counter, date, rfl⟩ := h
  exact (lookup_queueElement cmd opId req newIndv newState prevState counter date rfl).2.2.2.2.2

theorem Answers.get_eventId {req : Request} {m : IndividualObj} (h : Answers req m)
    (order : IterOrder String) :
    ((State.ofStored order m).get .getFirstLiteral "event_id").getD "" =
      req.eventId.getD "" := by
  have hlookup : (State.ofStored order m).obj.resources.lookup "event_id" =
      req.eventId.map fun v => [⟨.string, .str v .none, 0⟩] := by
    rw [State.ofStored, lookup_decoded, h.lookup_eventId]
    cases req.eventId <;> rfl
  unfold State.get IndividualObj.read
  rw [hlookup]
  cases req.eventId <;> rfl

end Veda.Mstorage

namespace Veda.V8

open Veda.Lib Veda.Onto Veda.Mstorage

/-! ## Sending an update -/

/-- The result code of an answer. -/
def ResultCode.ofStorage : Mstorage.ResultCode → ResultCode
  | .ok => .ok
  | res => .storage res

/-- How the main storage is reached with an update. -/
inductive Sending
  /-- the update is not sent -/
  | notSent
  /-- the ticket is refused -/
  | refused (res : Mstorage.ResultCode)
  /-- the operation is done; its answer may be lost -/
  | handled (ctx : Context) (userUri : String) (created : Int64) (order : IterOrder String)
      (out₁ out₂ : Outcomes) (answered : Bool)

/-- `update_with_event`. -/
def updateWithEvent (eventId src : String) (cmd : IndvOp) (indv : IndividualObj) (st : Server) :
    Sending → ResultCode × Server
  | .notSent => (.notReady, st)
  | .refused res => (.ofStorage res, st)
  | .handled ctx userUri created order out₁ out₂ answered =>
    let req : Request :=
      { cmd, userUri, eventId := some eventId, src := some src, assignedSubsystems := some 0,
        newIndv := indv, created, order }
    let res :=
      match operationPrepare ctx req out₁ out₂ st with
      | .ok (resp, _) => if answered then .ofStorage resp.res else .notReady
      | .error _ => .notReady
    (res, st.operate ⟨ctx, req, out₁, out₂⟩)

/-! ## Programs -/

/-- What a program that runs event scripts is doing. -/
inductive Process
  /-- it waits for an element -/
  | idle
  /-- it looks at the scripts that are left -/
  | preparing (ctx : MyContext) (h : Handling) (scripts : List String)
  /-- it sends the updates of a script -/
  | committing (ctx : MyContext) (h : Handling) (scripts : List String) (eventId src : String)
      (items : List TransactionItem)

namespace Process

/-- Take an element of the queue. -/
def prepare (ctx : MyContext) (e : State) : Process :=
  match prepareForJs ctx e with
  | some h => .preparing ctx h ctx.scriptsOrder
  | none => .idle

/-- The transaction after the calls of a script, each with the storage that it reads. -/
def transactionOf (calls : List (Store × Call)) : Transaction :=
  calls.foldl (fun t call => (t.addToTransaction call.1 call.2).2) .empty

/-- Look at the next script; the event id of its updates is the second component when it runs. -/
def script (calls : List (Store × Call)) : Process → Process × Option String
  | preparing ctx h (scriptId :: scripts) =>
    match startsScript ctx h scriptId with
    | none => (preparing ctx h scripts, none)
    | some script =>
      let eventId := Step.eventId ⟨h.docId, scriptId⟩ h.eventId
      let src := if script.context.disallowChangingSource then h.src else ctx.queueName
      (committing ctx h scripts eventId src (transactionOf calls).queue, some eventId)
  | preparing _ _ [] => (idle, none)
  | p => (p, none)

/-- One round of `commit`. -/
def send (sending : Sending) : Process → Server → Process × Server
  | committing ctx h scripts _ _ [], st => (preparing ctx h scripts, st)
  | committing ctx h scripts eventId src (ti :: items), st =>
    let next := committing ctx h scripts eventId src items
    if ti.cmd = .remove && ti.indv.uri.isEmpty then (next, st)
    else if ti.rc ≠ .ok then (idle, st)
    else if ti.indv.uri.isEmpty || ti.indv.uri.utf8ByteSize < 2 then (next, st)
    else
      let result := updateWithEvent eventId src ti.cmd ti.indv st sending
      if result.1 ≠ .ok && result.1 ≠ .notReady then (idle, result.2) else (next, result.2)
  | p, st => (p, st)

end Process

/-- The main storage, the programs and the event ids that they have produced. -/
structure World where
  server : Server
  processes : ℕ → Process
  paths : List String

inductive Event
  /-- a client sends an update -/
  | client (op : Operation)
  /-- a program takes a message of the queue -/
  | prepare (p : ℕ) (ctx : MyContext) (message : ℕ) (order : IterOrder String)
  /-- a program looks at its next script -/
  | script (p : ℕ) (calls : List (Store × Call))
  /-- a program sends its next update -/
  | send (p : ℕ) (sending : Sending)

namespace World

/-- Before the first message. -/
def start (st : Server) : World := ⟨{ st with queue := [] }, fun _ => .idle, []⟩

/-- The element that a program decodes of a message. -/
def element (w : World) (message : ℕ) (order : IterOrder String) : Option State :=
  (w.server.queue[message]?).map (State.ofStored order)

def step (w : World) : Event → World
  | .client op => { w with server := w.server.operate op }
  | .prepare p ctx message order =>
    match w.processes p, w.element message order with
    | .idle, some e =>
      { w with processes := Function.update w.processes p (.prepare ctx e) }
    | _, _ => w
  | .script p calls =>
    let result := (w.processes p).script calls
    { w with
      processes := Function.update w.processes p result.1
      paths := w.paths ++ result.2.toList }
  | .send p sending =>
    let result := (w.processes p).send sending w.server
    { w with processes := Function.update w.processes p result.1, server := result.2 }

def run (w : World) (events : List Event) : World := events.foldl step w

end World

/-- The scripts are safe and have plain ids. -/
structure MyContext.Safe (ctx : MyContext) : Prop where
  plain : ∀ scriptId ∈ ctx.scriptsOrder, ';' ∉ scriptId.toList
  isUnsafe : ∀ scriptId script, ctx.scripts.lookup scriptId = some script →
    script.context.isUnsafe = false

/-- The programs have safe scripts, and the ids of the documents that they see are plain. -/
def Event.Allowed (w : World) : Event → Prop
  | .prepare _ ctx message order => ctx.Safe ∧
      ∀ h ∈ (w.element message order).bind (prepareForJs ctx), ';' ∉ h.docId.toList
  | _ => True

/-- Every event of a run is allowed. -/
def World.Allowed : World → List Event → Prop
  | _, [] => True
  | w, event :: events => event.Allowed w ∧ (w.step event).Allowed events

/-! ## The invariant -/

/-- The event id is a path of steps that is cut off, and its root is one of the given ids. -/
def Grows (IsRoot : String → Prop) (eventId : String) : Prop :=
  ∃ steps root, IsRoot root ∧ (∀ s ∈ steps, s.Plain) ∧ CutOff steps root eventId

/-- What a program knows that looks at its scripts. -/
structure Handling.Ready (IsRoot : String → Prop) (ctx : MyContext) (h : Handling)
    (scripts : List String) : Prop where
  grows : Grows IsRoot h.eventId
  docId : ';' ∉ h.docId.toList
  safe : ctx.Safe
  plain : ∀ scriptId ∈ scripts, ';' ∉ scriptId.toList

/-- What a program holds. -/
def Process.Sound (IsRoot : String → Prop) : Process → Prop
  | .idle => True
  | .preparing ctx h scripts => h.Ready IsRoot ctx scripts
  | .committing ctx h scripts eventId _ _ => h.Ready IsRoot ctx scripts ∧ Grows IsRoot eventId

structure Inv (IsRoot : String → Prop) (w : World) : Prop where
  empty : IsRoot ""
  queue : ∀ m ∈ w.server.queue, ∃ req, Answers req m ∧ Grows IsRoot (req.eventId.getD "")
  processes : ∀ p, (w.processes p).Sound IsRoot
  paths : ∀ path ∈ w.paths, ∃ steps root, IsRoot root ∧ steps ≠ [] ∧ CutOff steps root path

section Invariant

variable {IsRoot : String → Prop} {w : World}

theorem Grows.root {root : String} (h : IsRoot root) : Grows IsRoot root := by
  refine ⟨[], root, h, fun s hs => absurd hs List.not_mem_nil, rfl, ?_,
    fun s hs => absurd hs List.not_mem_nil⟩
  rw [List.map_nil, List.nil_append]
  cases parts root with
  | nil => exact .nil
  | cons part rest => exact .singleton part

theorem inv_start (st : Server) (h : IsRoot "") : Inv IsRoot (World.start st) where
  empty := h
  queue _ hm := absurd hm List.not_mem_nil
  processes _ := trivial
  paths _ hpath := absurd hpath List.not_mem_nil

theorem not_isLooped_of_startsScript {ctx : MyContext} (hsafe : ctx.Safe) {h : Handling}
    {scriptId : String} {script : ScriptInfo}
    (hstarts : startsScript ctx h scriptId = some script) :
    isLooped h.eventId (Step.id ⟨h.docId, scriptId⟩) = false := by
  obtain ⟨hlookup, htest⟩ := Option.filter_eq_some_iff.mp hstarts
  have hdanger := hsafe.isUnsafe scriptId script hlookup
  rw [hdanger, Bool.false_or, Bool.and_eq_true, Bool.not_eq_true'] at htest
  exact htest.2

theorem Process.Sound.script {p : Process} (h : p.Sound IsRoot) (calls : List (Store × Call)) :
    (p.script calls).1.Sound IsRoot ∧ ∀ path ∈ (p.script calls).2,
      ∃ steps root, IsRoot root ∧ steps ≠ [] ∧ CutOff steps root path := by
  cases p with
  | idle => exact ⟨trivial, fun _ hpath => nomatch hpath⟩
  | committing ctx handling scripts eventId src items => exact ⟨h, fun _ hpath => nomatch hpath⟩
  | preparing ctx handling scripts =>
    cases scripts with
    | nil => exact ⟨trivial, fun _ hpath => nomatch hpath⟩
    | cons scriptId scripts =>
      have hrest : handling.Ready IsRoot ctx scripts :=
        ⟨h.grows, h.docId, h.safe, fun id hid => h.plain id (List.mem_cons_of_mem _ hid)⟩
      cases hstarts : startsScript ctx handling scriptId with
      | none =>
        have hscript : (preparing ctx handling (scriptId :: scripts)).script calls =
            (preparing ctx handling scripts, none) := by
          rw [Process.script, hstarts]
        rw [hscript]
        exact ⟨hrest, fun _ hpath => nomatch hpath⟩
      | some script =>
        have hscript : (preparing ctx handling (scriptId :: scripts)).script calls =
            (committing ctx handling scripts (Step.eventId ⟨handling.docId, scriptId⟩
                handling.eventId)
              (if script.context.disallowChangingSource then handling.src else ctx.queueName)
              (transactionOf calls).queue,
            some (Step.eventId ⟨handling.docId, scriptId⟩ handling.eventId)) := by
          rw [Process.script, hstarts]
        obtain ⟨steps, root, hroot, hplain, hcut⟩ := h.grows
        have hstep : Step.Plain ⟨handling.docId, scriptId⟩ :=
          ⟨h.docId, h.plain scriptId List.mem_cons_self⟩
        have hnew := hcut.step hplain hstep (not_isLooped_of_startsScript h.safe hstarts)
        rw [hscript]
        refine ⟨⟨hrest, _, root, hroot, List.forall_mem_cons.mpr ⟨hstep, hplain⟩, hnew⟩, ?_⟩
        intro path hpath
        obtain rfl := Option.some.inj hpath
        exact ⟨_, root, hroot, List.cons_ne_nil _ _, hnew⟩

theorem Process.Sound.send {p : Process} (h : p.Sound IsRoot) (sending : Sending) (st : Server) :
    (p.send sending st).1.Sound IsRoot ∧ ∀ m ∈ (p.send sending st).2.queue,
      m ∈ st.queue ∨ ∃ req, Answers req m ∧ Grows IsRoot (req.eventId.getD "") := by
  cases p with
  | idle => exact ⟨trivial, fun _ hm => .inl hm⟩
  | preparing ctx handling scripts => exact ⟨h, fun _ hm => .inl hm⟩
  | committing ctx handling scripts eventId src items =>
    cases items with
    | nil => exact ⟨h.1, fun _ hm => .inl hm⟩
    | cons ti items =>
      have hmessages : ∀ m ∈ (updateWithEvent eventId src ti.cmd ti.indv st sending).2.queue,
          m ∈ st.queue ∨ ∃ req, Answers req m ∧ Grows IsRoot (req.eventId.getD "") := by
        intro m hm
        cases sending with
        | notSent => exact .inl hm
        | refused res => exact .inl hm
        | handled ctx userUri created order out₁ out₂ answered =>
          refine (mem_queue_operate hm).imp_right fun hanswers => ⟨_, hanswers, ?_⟩
          exact h.2
      unfold Process.send
      dsimp only
      split_ifs
      · exact ⟨h, fun _ hm => .inl hm⟩
      · exact ⟨trivial, fun _ hm => .inl hm⟩
      · exact ⟨h, fun _ hm => .inl hm⟩
      · exact ⟨trivial, hmessages⟩
      · exact ⟨h, hmessages⟩

theorem Inv.update (h : Inv IsRoot w) {p : ℕ} {next : Process} (hnext : next.Sound IsRoot)
    (p' : ℕ) : (Function.update w.processes p next p').Sound IsRoot := by
  by_cases hp : p' = p
  · rw [hp, Function.update_self]
    exact hnext
  · rw [Function.update_of_ne hp]
    exact h.processes p'

theorem Inv.prepare (h : Inv IsRoot w) {p : ℕ} {ctx : MyContext} {message : ℕ}
    {order : IterOrder String} (hallowed : (Event.prepare p ctx message order).Allowed w)
    {e : State} (helement : w.element message order = some e) :
    (Process.prepare ctx e).Sound IsRoot := by
  obtain ⟨hsafe, hplain⟩ := hallowed
  rw [helement] at hplain
  obtain ⟨m, hm, rfl⟩ := Option.map_eq_some_iff.mp helement
  obtain ⟨req, hanswers, hgrows⟩ := h.queue m (List.mem_of_getElem? hm)
  unfold Process.prepare
  cases hprepare : prepareForJs ctx (State.ofStored order m) with
  | none => trivial
  | some handling =>
    refine ⟨?_, hplain handling hprepare, hsafe, hsafe.plain⟩
    rw [eventId_of_prepareForJs hprepare, hanswers.get_eventId]
    exact hgrows

/-- **The invariant** is kept by every event. -/
theorem Inv.step (h : Inv IsRoot w) {event : Event} (hallowed : event.Allowed w)
    (hroot : ∀ op root, event = .client op → op.req.eventId = some root → IsRoot root) :
    Inv IsRoot (w.step event) := by
  cases event with
  | client op =>
    refine ⟨h.empty, fun m hm => ?_, h.processes, h.paths⟩
    rcases mem_queue_operate hm with hold | hnew
    · exact h.queue m hold
    · refine ⟨op.req, hnew, Grows.root ?_⟩
      cases hid : op.req.eventId with
      | none => exact h.empty
      | some root => exact hroot op root rfl hid
  | prepare p ctx message order =>
    change Inv IsRoot (match w.processes p, w.element message order with
      | .idle, some e => { w with processes := Function.update w.processes p (.prepare ctx e) }
      | _, _ => w)
    split
    · rename_i e hidle helement
      exact ⟨h.empty, h.queue, h.update (h.prepare hallowed helement), h.paths⟩
    · exact h
  | script p calls =>
    obtain ⟨hsound, hpaths⟩ := (h.processes p).script calls
    refine ⟨h.empty, h.queue, h.update hsound, fun path hpath => ?_⟩
    rcases List.mem_append.mp hpath with hold | hnew
    · exact h.paths path hold
    · exact hpaths path (Option.mem_toList.mp hnew)
  | send p sending =>
    obtain ⟨hsound, hmessages⟩ := (h.processes p).send sending w.server
    exact ⟨h.empty, fun m hm => (hmessages m hm).elim (h.queue m) id, h.update hsound, h.paths⟩

theorem Inv.run {events : List Event} (h : Inv IsRoot w) (hallowed : w.Allowed events)
    (hroot : ∀ op root, .client op ∈ events → op.req.eventId = some root → IsRoot root) :
    Inv IsRoot (w.run events) := by
  induction events generalizing w with
  | nil => exact h
  | cons event events ih =>
    refine ih (h.step hallowed.1 ?_) hallowed.2 fun op root hop => ?_
    · rintro op root rfl
      exact hroot op root List.mem_cons_self
    · exact hroot op root (List.mem_cons_of_mem _ hop)

end Invariant

/-- **A cascade of scripts is cut off.** Every event id that is produced in a run of the clients and
the programs is the path of some steps that follow the event id of a client's update: no step
follows itself, and none occurs more than `MAX_COUNT_LOOPS + 1` times in the whole path.

**Proof sketch.** The event ids of the messages are such paths: a message has the event id of its
request, and a program puts a step in front of the event id of a message only when the test for
loops passes, where the parts of the event id are the steps of its path. -/
theorem cutOff_run (st : Server) (events : List Event)
    (hallowed : (World.start st).Allowed events) :
    ∀ path ∈ ((World.start st).run events).paths, ∃ steps root,
      (root = "" ∨ ∃ op, .client op ∈ events ∧ op.req.eventId = some root) ∧ steps ≠ [] ∧
        CutOff steps root path :=
  ((inv_start st (.inl rfl)).run hallowed fun op _ hop hroot => .inr ⟨op, hop, hroot⟩).paths

/-! ## A script that changes its own document -/

/-- A main storage that has nothing and takes everything. -/
def emptyServer : Server := ⟨∅, ∅, [], 0, ⟨none, true⟩⟩

def acceptingContext : Context := ⟨noCbor, 10, fun _ _ access => .ok access, "cfg:VedaSystem", false⟩

def succeeding : Outcomes := ⟨true, true, true, .written, 0, .stored String⟩

def typedDocument : IndividualObj :=
  ⟨"d:doc", AList.singleton "rdf:type" [⟨.uri, .uri "d:Class", 0⟩]⟩

/-- The client stores the document, without an event id. -/
def storeDocument : Operation :=
  ⟨acceptingContext, ⟨.put, "cfg:VedaSystem", none, none, none, typedDocument, 0, .stored String⟩,
    succeeding, succeeding⟩

/-- One script that runs on every document. -/
def oneScript : MyContext where
  cbor := noCbor
  queueName := "scripts_main"
  vmId := "main"
  onto := .empty
  scripts := AList.singleton "s:touch" ⟨"s:touch", true, ⟨[], [], [], false, false, "main"⟩⟩
  scriptsOrder := ["s:touch"]

/-- The script puts the document again. -/
def putDocument : Call where
  cmd := .put
  indv := typedDocument
  ticketId := ""
  order := .stored String
  uri_ne := show "d:doc" ≠ "" by decide
  values_ne := by
    intro entry hentry
    obtain rfl := List.mem_singleton.mp hentry
    exact List.cons_ne_nil _ _

/-- The script runs on the client's update, and then its own update is handled. -/
def touching : List Event :=
  [.client storeDocument, .prepare 0 oneScript 0 (.stored String),
    .script 0 [(fun _ => none, putDocument)],
    .send 0 (.handled acceptingContext "cfg:VedaSystem" 0 (.stored String) succeeding succeeding
      true),
    .send 0 .notSent, .script 0 [], .prepare 0 oneScript 1 (.stored String), .script 0 []]

theorem safe_oneScript : oneScript.Safe where
  plain := by decide
  isUnsafe scriptId script h := by
    have hmem := AList.mem_lookup_iff.mp h
    obtain heq := List.mem_singleton.mp hmem
    cases heq
    rfl

theorem plain_of_docId {handling : Option Handling} (h : handling.map Handling.docId = some "d:doc") :
    ∀ h ∈ handling, ';' ∉ h.docId.toList := by
  rintro _ rfl
  rw [Option.some.inj h]
  decide

theorem allowed_touching : (World.start emptyServer).Allowed touching :=
  ⟨trivial, ⟨safe_oneScript, plain_of_docId (by decide +kernel)⟩, trivial, trivial, trivial,
    trivial, ⟨safe_oneScript, plain_of_docId (by decide +kernel)⟩, trivial, trivial⟩

/-- The script runs once. -/
theorem cutOff_run_touching :
    ((World.start emptyServer).run touching).paths = ["d:doc+s:touch;"] ∧
      ∀ path ∈ ((World.start emptyServer).run touching).paths, ∃ steps root,
        (root = "" ∨ ∃ op, .client op ∈ touching ∧ op.req.eventId = some root) ∧ steps ≠ [] ∧
          CutOff steps root path :=
  ⟨by decide +kernel, cutOff_run emptyServer touching allowed_touching⟩

end Veda.V8
