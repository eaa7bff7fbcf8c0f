import Veda.Mstorage.Changes
import Veda.Mstorage.Numbers
import Veda.VQueue.Delivery

set_option autoImplicit false

/-!
# From the main storage to a consumer

The main storage makes a message of every change and pushes it into the queue, and a consumer takes
the messages out again. Between the two, requests, pushes, new starts of either program and the
calls of the consumer come in any order.

## Main definitions

* `Mstorage.Pipeline`, `Mstorage.Pipeline.step` — the main storage with its queue.
* `Mstorage.Pipeline.Reached` — the states of the runs.
* `Mstorage.Carries` — the bytes of a message that shows an element.

## Main results

* `Mstorage.Pipeline.Delivers.step` — the invariant.
* `Mstorage.Pipeline.committed_announced` — a consumer has seen the first changes of the history
  that led to the stored states.
* `Mstorage.Pipeline.catchesUp_announced` — a consumer that is started sees all of them.
-/

namespace Veda.Mstorage

open Veda.Lib Veda.Lib.Msgpack Veda.Onto Veda.VQueue.System
open Veda.VQueue (Crates PlainName)

/-! ## Lists in a row -/

theorem flatMap_range_of_nil {α : Type} {f : ℕ → List α} {n m : ℕ} (hnm : n ≤ m)
    (hnil : ∀ i, n ≤ i → f i = []) : (List.range m).flatMap f = (List.range n).flatMap f := by
  induction m, hnm using Nat.le_induction with
  | base => rfl
  | succ m hm ih =>
    rw [List.range_succ, List.flatMap_append, ih, List.flatMap_singleton, hnil m hm,
      List.append_nil]

theorem flatMap_range_prefix_of_le {α : Type} (f : ℕ → List α) {n m : ℕ} (hnm : n ≤ m) :
    (List.range n).flatMap f <+: (List.range m).flatMap f := by
  induction m, hnm using Nat.le_induction with
  | base => exact List.prefix_rfl
  | succ m hm ih =>
    rw [List.range_succ, List.flatMap_append]
    exact ih.trans (List.prefix_append _ _)

/-! ## The system -/

/-- The main storage with its queue, and the messages that it has not pushed yet. -/
structure Pipeline where
  server : Server
  pending : List IndividualObj
  queue : VQueue.System

inductive PipelineStep
  | request (op : Operation)
  /-- the next message is serialised and pushed -/
  | push (order : IterOrder String)
  /-- the main storage is started again -/
  | restart (out : PutOutcome)
  | consumer (op : VQueue.Op)

namespace Pipeline

section Steps

variable (crates : Crates) (name consumerName : List Char)

/-- The next message, if there is one. -/
def pushNext (p : Pipeline) (order : IterOrder String) : Pipeline :=
  match p.pending with
  | [] => p
  | message :: rest =>
    { p with
      pending := rest
      queue := p.queue.push crates name ⟨.string, toMsgpack order message⟩ }

def step (p : Pipeline) : PipelineStep → Pipeline
  | .request op =>
    { p with
      server := p.server.operate op
      pending := (p.server.operate op).queue.drop p.server.queue.length }
  | .push order => p.pushNext crates name order
  | .restart out =>
    { p with server := p.server.restart out, queue := p.queue.openQueue crates name }
  | .consumer op => { p with queue := p.queue.step crates name consumerName op }

/-- The storage and the queue before the first request. -/
def start (info : ModuleInfo) : Pipeline :=
  ⟨⟨∅, ∅, [], 0, info⟩, [], VQueue.System.start crates name⟩

/-- A message can be pushed: it is not too long, and numbers do not overflow. -/
structure Fits (s : VQueue.System) (body : List UInt8) : Prop where
  length_le : body.length ≤ 2 ^ 31 - 1
  allowed : s.Allowed crates name consumerName (.push ⟨.string, body⟩)

/-- The condition of a step: the writes of a request succeed, its messages are pushed before the
next request and before the program ends, and numbers do not overflow. -/
def Allowed (p : Pipeline) : PipelineStep → Prop
  | .request op => p.pending = [] ∧ op.Announces p.server
  | .push order => ∀ message, p.pending.head? = some message →
    Fits crates name consumerName p.queue (toMsgpack order message)
  | .restart out => p.pending = [] ∧ (Event.restart out).KeepsNumber p.server ∧
    p.queue.Allowed crates name consumerName .openQueue
  | .consumer op => op = .openConsumer ∨ op = .popHeader ∨ op = .popBody ∨ op = .next

/-- A state of a run. -/
inductive Reached (info : ModuleInfo) : Pipeline → Prop
  | start : Reached info (start crates name info)
  | step {p : Pipeline} (event : PipelineStep) : Reached info p →
      p.Allowed crates name consumerName event →
      Reached info (p.step crates name consumerName event)

end Steps

end Pipeline

/-! ## What was sent -/

/-- The bytes are those of the message, in some order of its predicates. -/
def Serialises (body : List UInt8) (message : IndividualObj) : Prop :=
  ∃ π, body = toMsgpack π message

/-- The bytes are those of a message that shows the element. -/
def Carries (body : List UInt8) (e : Element) : Prop :=
  ∃ message, Serialises body message ∧ Shows message e

/-- The states that a history of changes leaves. -/
def statesOf (cs : List Change) : States := cs.foldl States.apply .none

namespace Pipeline

variable {crates : Crates} {name consumerName : List Char} {info : ModuleInfo} {p : Pipeline}
  {newest : ℕ} {cs : List Change}

/-- The invariant: the server stores the states of a history, its messages show the elements, and
the bodies in the parts of the queue are those of the messages that are not pending. -/
structure Delivers (crates : Crates) (name consumerName : List Char) (p : Pipeline) (newest : ℕ)
    (cs : List Change) : Prop where
  whole : p.queue.Whole crates name consumerName newest
  producing : ∃ q, p.queue.producer = some q
  follows : p.server.Follows (statesOf cs) (announced .none 0 cs).length
  shows : List.Forall₂ Shows p.server.queue (announced .none 0 cs)
  sent : ∃ sent, p.server.queue = sent ++ p.pending ∧
    List.Forall₂ Serialises ((List.range (newest + 1)).flatMap p.queue.bodies) sent

/-! ## Steps -/

theorem announced_append (states : States) (opId : ℕ) (cs : List Change) (c : Change) :
    announced states opId (cs ++ [c]) = announced states opId cs ++
      c.elements (cs.foldl States.apply states) (opId + (announced states opId cs).length) := by
  induction cs generalizing states opId with
  | nil => simp [announced]
  | cons c' cs ih =>
    rw [List.cons_append, announced, ih, announced, List.append_assoc, List.length_append,
      Nat.add_assoc, List.foldl_cons]

theorem Delivers.request (h : p.Delivers crates name consumerName newest cs) {op : Operation}
    (hpending : p.pending = []) (hop : op.Announces p.server) :
    ∃ cs', (p.step crates name consumerName (.request op)).Delivers crates name consumerName newest
      cs' := by
  obtain ⟨sent, hsent, hbodies⟩ := h.sent
  rw [hpending, List.append_nil] at hsent
  rcases follows_operate h.follows hop with hsame | ⟨c, -, hfollows, messages, hqueue, hshows⟩
  · refine ⟨cs, { h with follows := ?_, shows := ?_, sent := ⟨sent, ?_, hbodies⟩ }⟩
    · rw [Pipeline.step, hsame]
      exact h.follows
    · rw [Pipeline.step, hsame]
      exact h.shows
    · rw [Pipeline.step, hsame, List.drop_length, hsent, List.append_nil]
  · refine ⟨cs ++ [c], { h with follows := ?_, shows := ?_, sent := ⟨sent, ?_, hbodies⟩ }⟩
    · rw [statesOf, List.foldl_append, announced_append, List.length_append, Nat.zero_add]
      exact hfollows
    · rw [announced_append, Nat.zero_add]
      rw [Pipeline.step, hqueue]
      exact List.rel_append h.shows hshows
    · rw [Pipeline.step, hqueue, List.drop_left, hsent]

theorem flatMap_bodies_push {s s' : VQueue.System} {m : VQueue.Message}
    (h : s'.pushed = VQueue.addMessage s.pushed newest m) :
    (List.range (newest + 1)).flatMap s'.bodies =
      (List.range (newest + 1)).flatMap s.bodies ++ [m.body] := by
  have hbefore : (List.range newest).flatMap s'.bodies = (List.range newest).flatMap s.bodies := by
    refine List.flatMap_congr fun i hi => ?_
    rw [bodies, h, VQueue.addMessage_of_ne _ _ (List.mem_range.mp hi).ne, bodies]
  rw [List.range_succ, List.flatMap_append, List.flatMap_append, hbefore, List.flatMap_singleton,
    List.flatMap_singleton, bodies, h, VQueue.addMessage_self, List.map_append, List.append_assoc]
  rfl

theorem Delivers.pushNext (hname : PlainName name)
    (h : p.Delivers crates name consumerName newest cs) {order : IterOrder String}
    (hfits : p.Allowed crates name consumerName (.push order)) :
    (p.pushNext crates name order).Delivers crates name consumerName newest cs := by
  obtain ⟨sent, hsent, hbodies⟩ := h.sent
  obtain ⟨q, hproducer⟩ := h.producing
  cases hpending : p.pending with
  | nil =>
    rw [Pipeline.pushNext, hpending]
    exact h
  | cons message rest =>
    obtain ⟨hlength, hallowed⟩ := hfits message (by rw [hpending, List.head?_cons])
    obtain ⟨q', hproducer', hpushed⟩ := h.whole.pushed_push hname hallowed hproducer hlength
    rw [Pipeline.pushNext, hpending]
    refine { h with
      whole := h.whole.push hname hallowed
      producing := ⟨q', hproducer'⟩
      sent := ⟨sent ++ [message], ?_, ?_⟩ }
    · rw [hsent, hpending, List.append_assoc, List.singleton_append]
    · rw [flatMap_bodies_push hpushed]
      exact List.rel_append hbodies (.cons ⟨order, rfl⟩ .nil)

theorem opId_restart (st : Server) {out : PutOutcome} (h : (Event.restart out).KeepsNumber st) :
    (st.restart out).opId = st.opId := by
  cases hinfo : st.info.saved with
  | some numbers =>
    simp only [Event.KeepsNumber, hinfo] at h
    simp only [Server.restart, ModuleInfo.reopen, hinfo]
    exact h
  | none =>
    simp only [Event.KeepsNumber, hinfo] at h
    cases out <;> simp [Server.restart, ModuleInfo.reopen, ModuleInfo.putInfo, hinfo, h]

theorem Delivers.restart (hname : PlainName name)
    (h : p.Delivers crates name consumerName newest cs) {out : PutOutcome}
    (hkeeps : (Event.restart out).KeepsNumber p.server)
    (hallowed : p.queue.Allowed crates name consumerName .openQueue) :
    (p.step crates name consumerName (.restart out)).Delivers crates name consumerName (newest + 1)
      cs := by
  obtain ⟨sent, hsent, hbodies⟩ := h.sent
  have hnewest := hallowed newest h.whole.stored.queueInfo
  obtain ⟨q, hopen, -⟩ := h.whole.toInv.producing.openQueue hname hnewest
  have hqueue : (p.queue.openQueue crates name).producer = some q ∧
      (p.queue.openQueue crates name).pushed = p.queue.pushed := by
    rw [VQueue.System.openQueue, hopen]
    exact ⟨rfl, rfl⟩
  refine { h with
    whole := h.whole.openQueue hname hnewest
    producing := ⟨q, hqueue.1⟩
    follows := ⟨h.follows.kept, ?_⟩
    sent := ⟨sent, hsent, ?_⟩ }
  · rw [← h.follows.opId]
    exact congrArg Int64.toInt (opId_restart p.server hkeeps)
  · have hbodies' : (p.queue.openQueue crates name).bodies = p.queue.bodies :=
      funext fun k => congrArg (fun pushed => (pushed k).map VQueue.Message.body) hqueue.2
    have hempty : p.queue.bodies (newest + 1) = [] := by
      rw [bodies, (h.whole.unopened (newest + 1) (Nat.lt_succ_self newest)).2.1, List.map_nil]
    rw [Pipeline.step, hbodies', List.range_succ, List.flatMap_append, List.flatMap_singleton,
      hempty, List.append_nil]
    exact hbodies

theorem producer_consumer {s : VQueue.System} {op : VQueue.Op}
    (hop : op = .openConsumer ∨ op = .popHeader ∨ op = .popBody ∨ op = .next) :
    (s.step crates name consumerName op).producer = s.producer ∧
      (s.step crates name consumerName op).pushed = s.pushed := by
  obtain rfl | rfl | rfl | rfl := hop
  · rw [VQueue.System.step, openConsumer]
    split <;> exact ⟨rfl, rfl⟩
  · rw [VQueue.System.step, popHeader]
    split
    · split <;> exact ⟨rfl, rfl⟩
    · exact ⟨rfl, rfl⟩
  · rw [VQueue.System.step, popBody]
    split
    · split <;> exact ⟨rfl, rfl⟩
    · exact ⟨rfl, rfl⟩
  · rw [VQueue.System.step, next]
    split
    · split <;> exact ⟨rfl, rfl⟩
    · exact ⟨rfl, rfl⟩

theorem Delivers.consumer (hname : PlainName name) (hconsumer : PlainName consumerName)
    (h : p.Delivers crates name consumerName newest cs) {op : VQueue.Op}
    (hop : p.Allowed crates name consumerName (.consumer op)) :
    (p.step crates name consumerName (.consumer op)).Delivers crates name consumerName newest
      cs := by
  obtain ⟨hproducer, hpushed⟩ := @producer_consumer crates name consumerName p.queue op hop
  have hwhole : (p.queue.step crates name consumerName op).Whole crates name consumerName
      newest := by
    obtain rfl | rfl | rfl | rfl := hop
    · exact h.whole.openConsumer
    · exact h.whole.popHeader hname hconsumer
    · exact h.whole.popBody
    · exact h.whole.next hname hconsumer
  obtain ⟨sent, hsent, hbodies⟩ := h.sent
  refine { h with
    whole := hwhole
    producing := ?_
    sent := ⟨sent, hsent, ?_⟩ }
  · rw [Pipeline.step, hproducer]
    exact h.producing
  · have hbodies' : (p.queue.step crates name consumerName op).bodies = p.queue.bodies :=
      funext fun k => congrArg (fun pushed => (pushed k).map VQueue.Message.body) hpushed
    rw [Pipeline.step, hbodies']
    exact hbodies

/-- **A step** keeps the invariant. -/
theorem Delivers.step (hname : PlainName name) (hconsumer : PlainName consumerName)
    (h : p.Delivers crates name consumerName newest cs) {event : PipelineStep}
    (hallowed : p.Allowed crates name consumerName event) :
    ∃ newest' cs', (p.step crates name consumerName event).Delivers crates name consumerName newest'
      cs' := by
  cases event with
  | request op => exact ⟨newest, h.request hallowed.1 hallowed.2⟩
  | push order => exact ⟨newest, cs, h.pushNext hname hallowed⟩
  | restart out => exact ⟨newest + 1, cs, h.restart hname hallowed.2.1 hallowed.2.2⟩
  | consumer op => exact ⟨newest, cs, h.consumer hname hconsumer hallowed⟩

theorem Reached.delivers (hname : PlainName name) (hconsumer : PlainName consumerName)
    (h : Reached crates name consumerName info p) :
    ∃ newest cs, p.Delivers crates name consumerName newest cs := by
  induction h with
  | start =>
    have hempty : (VQueue.System.start crates name).bodies 0 = [] := by
      rw [VQueue.System.start_eq crates hname]
      rfl
    refine ⟨0, [], Whole.start hname, ?_, ⟨fun id => rfl, rfl⟩, .nil, [], rfl, ?_⟩
    · rw [Pipeline.start, VQueue.System.start_eq crates hname]
      exact ⟨_, rfl⟩
    · rw [Pipeline.start, Nat.zero_add, List.range_one, List.flatMap_singleton, hempty]
      exact .nil
  | step event _ hallowed ih =>
    obtain ⟨newest, cs, hdelivers⟩ := ih
    exact hdelivers.step hname hconsumer hallowed

/-! ## What a consumer sees -/

theorem forall₂_carries {bodies : List (List UInt8)} {messages : List IndividualObj}
    {elements : List Element} (hbodies : List.Forall₂ Serialises bodies messages)
    (hshows : List.Forall₂ Shows messages elements) : List.Forall₂ Carries bodies elements := by
  induction hbodies generalizing elements with
  | nil =>
    cases hshows
    exact .nil
  | cons hbody _ ih =>
    cases hshows with
    | cons hshow hrest => exact .cons ⟨_, hbody, hshow⟩ (ih hrest)

theorem Delivers.carries (h : p.Delivers crates name consumerName newest cs) :
    ∃ elements, elements <+: announced .none 0 cs ∧
      (p.pending = [] → elements = announced .none 0 cs) ∧
      List.Forall₂ Carries ((List.range (newest + 1)).flatMap p.queue.bodies) elements := by
  obtain ⟨sent, hsent, hbodies⟩ := h.sent
  have hshows := List.forall₂_take sent.length h.shows
  rw [hsent, List.take_left] at hshows
  refine ⟨_, List.take_prefix _ _, fun hpending => ?_, forall₂_carries hbodies hshows⟩
  rw [hpending, List.append_nil] at hsent
  rw [List.take_of_length_le]
  rw [← hsent, h.shows.length_eq]

/-- **A consumer sees the history**: there is a history of changes that led to the stored states,
and the bodies that were committed, part by part, carry its first elements, each one once and in
order. -/
theorem committed_announced (hname : PlainName name) (hconsumer : PlainName consumerName)
    (h : Reached crates name consumerName info p) :
    ∃ cs : List Change,
      p.server.Follows (cs.foldl States.apply .none) (announced .none 0 cs).length ∧
      ∀ n, ∃ seen, seen <+: announced .none 0 cs ∧
        List.Forall₂ Carries ((List.range n).flatMap p.queue.committed) seen := by
  obtain ⟨newest, cs, hdelivers⟩ := h.delivers hname hconsumer
  obtain ⟨elements, hprefix, -, hcarries⟩ := hdelivers.carries
  refine ⟨cs, hdelivers.follows, fun n => ?_⟩
  have hcommitted : (List.range n).flatMap p.queue.committed <+:
      (List.range (newest + 1)).flatMap p.queue.bodies := by
    refine (hdelivers.whole.flatMap_prefix n).trans ?_
    rcases Nat.le_total n (newest + 1) with hle | hge
    · exact flatMap_range_prefix_of_le _ hle
    · rw [flatMap_range_of_nil hge hdelivers.whole.bodies_unopened]
  obtain ⟨rest, hrest⟩ := hcommitted
  rw [← hrest] at hcarries
  have htake := List.forall₂_take ((List.range n).flatMap p.queue.committed).length hcarries
  rw [List.take_left] at htake
  exact ⟨_, (List.take_prefix _ _).trans hprefix, htake⟩

/-- **A consumer gets to the last change**: when every message is pushed and a consumer is started,
after some rounds the bodies that were committed carry all elements of the history. -/
theorem catchesUp_announced (hname : PlainName name) (hconsumer : PlainName consumerName)
    (h : Reached crates name consumerName info p) (hpending : p.pending = []) :
    ∃ cs : List Change,
      p.server.Follows (cs.foldl States.apply .none) (announced .none 0 cs).length ∧
      ∃ rounds parts, ∀ n, parts ≤ n →
        List.Forall₂ Carries ((List.range n).flatMap ((round crates name consumerName)^[rounds]
          (p.queue.openConsumer crates name consumerName)).committed) (announced .none 0 cs) := by
  obtain ⟨newest, cs, hdelivers⟩ := h.delivers hname hconsumer
  obtain ⟨elements, -, hall, hcarries⟩ := hdelivers.carries
  obtain ⟨rounds, hrounds⟩ := hdelivers.whole.exists_rounds_opened hname hconsumer
  refine ⟨cs, hdelivers.follows, rounds, newest + 1, fun n hn => ?_⟩
  rw [funext hrounds, flatMap_range_of_nil hn hdelivers.whole.bodies_unopened, ← hall hpending]
  exact hcarries

/-! ### A document -/

theorem allowed_of_fits {order : IterOrder String}
    (h : (p.pending.head?.all fun message => decide ((toMsgpack order message).length ≤ 2 ^ 31 - 1) &&
      p.queue.producer.all fun q => decide (q.countPushed + 1 < 2 ^ 32 ∧
        q.rightEdge + VQueue.headerSize + (toMsgpack order message).length < 2 ^ 64)) = true) :
    p.Allowed crates name consumerName (.push order) := by
  intro message hmessage
  rw [hmessage, Option.all_some, Bool.and_eq_true] at h
  exact ⟨of_decide_eq_true h.1, allowed_push h.2⟩

/-- The system user puts a document, and a consumer takes its message. -/
def documentTaken : Pipeline :=
  [.consumer .openConsumer,
    .request firstPut,
    .push (.stored String), .consumer .popHeader, .consumer .popBody, .consumer .next].foldl
    (Pipeline.step VQueue.lineCrates ['q'] ['c'])
    (Pipeline.start VQueue.lineCrates ['q'] firstRun.info)

theorem reached_documentTaken :
    Reached VQueue.lineCrates ['q'] ['c'] firstRun.info documentTaken := by
  have hfits : firstPut.Announces firstRun :=
    ⟨fits_firstPut, fun h => absurd h (by decide), by decide⟩
  have h₁ : Reached VQueue.lineCrates ['q'] ['c'] firstRun.info _ :=
    Reached.start.step (.consumer .openConsumer) (.inl rfl)
  have h₂ := h₁.step (.request _) ⟨rfl, hfits⟩
  have h₃ := h₂.step (.push (.stored String)) (allowed_of_fits (by decide +kernel))
  have h₄ := h₃.step (.consumer .popHeader) (.inr (.inl rfl))
  have h₅ := h₄.step (.consumer .popBody) (.inr (.inr (.inl rfl)))
  exact h₅.step (.consumer .next) (.inr (.inr (.inr rfl)))

theorem committed_announced_documentTaken : ∃ cs : List Change,
    documentTaken.server.Follows (cs.foldl States.apply .none) (announced .none 0 cs).length ∧
    ∀ n, ∃ seen, seen <+: announced .none 0 cs ∧
      List.Forall₂ Carries ((List.range n).flatMap documentTaken.queue.committed) seen :=
  committed_announced plain_names.1 plain_names.2 reached_documentTaken

theorem catchesUp_announced_documentTaken : ∃ cs : List Change,
    documentTaken.server.Follows (cs.foldl States.apply .none) (announced .none 0 cs).length ∧
    ∃ rounds parts, ∀ n, parts ≤ n →
      List.Forall₂ Carries ((List.range n).flatMap ((round VQueue.lineCrates ['q'] ['c'])^[rounds]
        (documentTaken.queue.openConsumer VQueue.lineCrates ['q'] ['c'])).committed)
          (announced .none 0 cs) :=
  catchesUp_announced plain_names.1 plain_names.2 reached_documentTaken (by decide +kernel)

end Pipeline

end Veda.Mstorage
