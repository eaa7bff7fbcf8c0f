import Veda.Exim.RoundTrip
import Veda.VModule.Committing

set_option autoImplicit false

/-!
# The export queue

`send_changes_to_node` takes the elements of the export queue one after another, makes a message of
each of them and sends it, at most ten times, and then saves its position behind the element. The
loop over the attempts ends after ten failed sends as it ends after a successful one: its test for
the last attempt compares the number of the attempt with 10, which is never reached. So an element
that was sent ten times without success is passed.

## Main definitions

* `Exim.attempts` — the loop over the attempts.
* `Exim.Sender`, `Exim.Sender.step` — a queue, its producer and the runs of the sender.
* `Exim.Sender.Delivers` — every element in front of the saved position that is for the node
  was sent, and the elements were sent in their order.
* `Exim.Sender.Allowed` — the condition of a step.

## Main results

* `Exim.attempts_passed` — which sends there are.
* `Exim.Sender.delivers_of_reached` — elements are delivered when not all sends of one of them
  fail.

## Design

A run of the sender opens a new consumer, as the program does that calls it. The batch, the header
and the body are taken as by the loop of a module, whose events say which elements were passed; an
element is passed like a message that is answered with `Ok(true)`. How the sends end is given for
each element; a run can be cut off behind every step. The pauses between the attempts and the log
are left out.
-/

namespace Veda.Exim

open Veda.Lib Veda.Onto Veda.Mstorage
open Veda.VQueue (Crates Message PlainName lineCrates readPopInfo readQueueInfo headerSize)
open Veda.VModule (Listener Phase Event)

/-! ## The attempts -/

/-- The loop over the attempts with one element: the messages that were sent, each with the outcome
of its send, and whether the element is passed or the sender returns. -/
def attempts (cbor : CborParser) (fuel : ℕ) (order : IterOrder String) (nodeId : String)
    (send : ℕ → Bool) :
    ℕ → ℕ → Reading (List (IndividualObj × Bool) × Except ExImCode Unit)
  | 0, _ => return ([], .ok ())
  | left + 1, attemptCount => do
    match ← createExportMessage cbor fuel order nodeId with
    | .ok msg =>
      if send attemptCount then return ([(msg, true)], .ok ())
      else if attemptCount = 10 then return ([(msg, false)], .error .sendFailed)
      else
        let (sends, code) ← attempts cbor fuel order nodeId send left (attemptCount + 1)
        return ((msg, false) :: sends, code)
    | .error .ok => return ([], .ok ())
    | .error _ => return ([], .error .invalidMessage)

section Attempts

variable {cbor : CborParser} {fuel : ℕ} {order : IterOrder String} {nodeId : String}
  {send : ℕ → Bool} {msg : IndividualObj}

/-- **The sends of an element** whose message is created in each attempt: the element is passed, and
a send was successful exactly when one of the outcomes is. -/
theorem attempts_of_created (send : ℕ → Bool) (P : Individual → Prop)
    (hcreate : ∀ iraw, P iraw → ∃ iraw', P iraw' ∧
      createExportMessage cbor fuel order nodeId iraw = .ok (.ok msg) iraw')
    (left attemptCount : ℕ) (hleft : attemptCount + left ≤ 10) (iraw : Individual) (h : P iraw) :
    ∃ sends iraw', attempts cbor fuel order nodeId send left attemptCount iraw =
        .ok (sends, .ok ()) iraw' ∧
      (∀ x ∈ sends, x.1 = msg) ∧
      ((msg, true) ∈ sends ↔
        ∃ i, attemptCount ≤ i ∧ i < attemptCount + left ∧ send i = true) := by
  induction left generalizing attemptCount iraw with
  | zero =>
    refine ⟨[], iraw, rfl, by simp, ?_⟩
    constructor
    · rintro ⟨⟩
    · rintro ⟨i, hle, hlt, -⟩
      omega
  | succ left ih =>
    obtain ⟨iraw', h', hcreated⟩ := hcreate iraw h
    rw [attempts, run_bind_of_ok _ hcreated]
    dsimp only
    cases hsend : send attemptCount with
    | true =>
      refine ⟨[(msg, true)], iraw', rfl, by simp, ?_⟩
      simp only [List.mem_singleton, true_iff]
      exact ⟨attemptCount, Nat.le_refl _, by omega, hsend⟩
    | false =>
      obtain ⟨sends, iraw'', hrest, hsame, hsuccess⟩ := ih (attemptCount + 1) (by omega) iraw' h'
      rw [if_neg Bool.false_ne_true, if_neg (by omega), run_bind_of_ok _ hrest]
      refine ⟨(msg, false) :: sends, iraw'', rfl, ?_, ?_⟩
      · intro x hx
        rcases List.mem_cons.mp hx with rfl | hx
        · rfl
        · exact hsame x hx
      · rw [List.mem_cons, hsuccess]
        constructor
        · rintro (heq | ⟨i, hle, hlt, hi⟩)
          · cases heq
          · exact ⟨i, by omega, by omega, hi⟩
        · rintro ⟨i, hle, hlt, hi⟩
          have hne : i ≠ attemptCount := by
            rintro rfl
            rw [hsend] at hi
            cases hi
          exact .inr ⟨i, by omega, by omega, hi⟩

end Attempts

/-! ## The attempts with a well-formed element -/

section Element

variable {cbor : CborParser} {fuel : ℕ} {π order : IterOrder String} {nodeId : String}
  {send : ℕ → Bool} {e : IndividualObj} {cmd : IndvOp} {sourceVeda targetVeda : String}
  {date : Int64} {state : Option IndividualObj}

/-- The message that a send carries is that of the element. -/
def Carries (e : IndividualObj) (order : IterOrder String) (cmd : IndvOp)
    (sourceVeda targetVeda : String) (date : Int64) (st msg : IndividualObj) : Prop :=
  ∃ π, FirstIs e "new_state" (.binary (toMsgpack π st)) ∧
    msg = messageOf π order st cmd date sourceVeda targetVeda

theorem attempts_none (h : ExportElement e cmd sourceVeda targetVeda date none)
    (haddressed : Addressed targetVeda nodeId) (cbor : CborParser) (fuel : ℕ)
    (π order : IterOrder String) (send : ℕ → Bool) :
    ∃ iraw', attempts cbor fuel order nodeId send 10 0 (recordOf π e) =
      .ok ([], .error .invalidMessage) iraw' := by
  obtain ⟨iraw', hcreate⟩ := h.create_none haddressed cbor π order fuel
  refine ⟨iraw', ?_⟩
  rw [attempts, run_bind_of_ok _ hcreate]
  rfl

/-- **An element with a state**: it is passed after at most ten sends of its message, and a send was
successful exactly when one of the outcomes is; or decoding does not end. -/
theorem attempts_state {st : IndividualObj}
    (h : ExportElement e cmd sourceVeda targetVeda date (some st))
    (haddressed : Addressed targetVeda nodeId) (cbor : CborParser) (π order : IterOrder String) :
    ∃ enough msg, Carries e order cmd sourceVeda targetVeda date st msg ∧ ∀ fuel send,
      (∃ sends iraw', attempts cbor fuel order nodeId send 10 0 (recordOf π e) =
          .ok (sends, .ok ()) iraw' ∧
        (∀ x ∈ sends, x.1 = msg) ∧ ((msg, true) ∈ sends ↔ ∃ i < 10, send i = true)) ∨
      fuel < enough ∧ ∃ iraw', attempts cbor fuel order nodeId send 10 0 (recordOf π e) =
        .error .outOfFuel iraw' := by
  obtain ⟨π', iraw₀, hstate, hkept, hstart⟩ := h.create_state haddressed cbor π order
  obtain ⟨enough, hfinish⟩ := finish_stored (h.state_some st rfl).1 cbor π' order cmd date
    sourceVeda targetVeda
  refine ⟨enough, messageOf π' order st cmd date sourceVeda targetVeda, ⟨π', hstate, rfl⟩,
    fun fuel send => ?_⟩
  rcases hfinish fuel with hok | ⟨hlt, hout⟩
  · -- the first attempt decodes, and the others read what it has found
    obtain ⟨sends, iraw', hattempts, hsame, hsuccess⟩ := attempts_of_created send
      (fun iraw => iraw = recordOf π e ∨
        Kept π e cmd sourceVeda targetVeda date (toMsgpack π' st) iraw)
      (fun iraw hiraw => by
        rcases hiraw with rfl | hiraw
        · exact ⟨iraw₀, .inr hkept, (hstart fuel).trans (hok iraw₀)⟩
        · obtain ⟨iraw₁, hkept₁, hcreate⟩ := hiraw.create h.fits haddressed cbor order
          exact ⟨iraw₁, .inr hkept₁, (hcreate fuel).trans (hok iraw₁)⟩)
      10 0 (Nat.le_refl _) (recordOf π e) (.inl rfl)
    refine .inl ⟨sends, iraw', hattempts, hsame, hsuccess.trans ?_⟩
    simp
  · refine .inr ⟨hlt, iraw₀, ?_⟩
    have hcreate := (hstart fuel).trans (hout iraw₀)
    rw [attempts, run_bind_of_error _ hcreate]

end Element

/-! ## The runs of the sender -/

/-- A send of a message, with the place of its element. -/
structure Sent where
  part : ℕ
  index : ℕ
  msg : IndividualObj
  succeeded : Bool

/-- A queue with its producer and the consumer of a node, and the sends to the node. -/
structure Sender where
  listener : Listener
  sent : List Sent

inductive Op
  | openQueue
  | push (m : Message)
  /-- a run begins -/
  | run
  | popHeader
  | popBody
  /-- the loop over the attempts; the outcome of each send is given -/
  | handle (send : ℕ → Bool)
  | commitAndNext

namespace Sender

section Steps

variable (crates : Crates) (cbor : CborParser) (fuel : ℕ) (order : IterOrder String)
  (name consumerName : List Char) (nodeId : String)

/-- The element is sent, and it is passed or the sender returns. -/
def handle (s : Sender) (send : ℕ → Bool) : Sender :=
  match s.listener.consumer, s.listener.phase with
  | some c, .body b msg =>
    match attempts cbor fuel order nodeId send 10 0 (.newRaw (.new msg)) with
    | .ok (sends, code) _ =>
      let sent := s.sent ++ sends.map fun x => ⟨c.id, c.countPopped, x.1, x.2⟩
      match code with
      | .ok () =>
        { sent
          listener := { s.listener with
            phase := .answered b true
            trace := s.listener.trace ++ [Event.prepared c.id c.countPopped msg (.ok true)] } }
      | .error _ => { sent, listener := { s.listener with phase := .stopped } }
    | .error _ _ => { s with listener := { s.listener with phase := .stopped } }
  | _, _ => s

def step (s : Sender) : Op → Sender
  | .openQueue => { s with listener := s.listener.openQueue crates name }
  | .push m => { s with listener := s.listener.push crates name m }
  | .run =>
    { s with listener :=
        (s.listener.restart crates name consumerName).startBatch crates name none }
  | .popHeader => { s with listener := s.listener.popHeader crates name consumerName }
  | .popBody => { s with listener := s.listener.popBody crates }
  | .handle send => s.handle cbor fuel order nodeId send
  | .commitAndNext => { s with listener := s.listener.next name consumerName }

/-- The state behind the first `Queue::new`. -/
def start : Sender := ⟨.start crates name, []⟩

/-! ## Delivery -/

/-- The message is a well-formed element for the node. -/
def IsElement (body : List UInt8) (e : IndividualObj) (cmd : IndvOp)
    (sourceVeda targetVeda : String) (date : Int64) (state : Option IndividualObj) : Prop :=
  (∃ π, body = toMsgpack π e) ∧ ExportElement e cmd sourceVeda targetVeda date state

/-- An element was sent successfully, if it is for the node. -/
def SentIfAddressed (s : Sender) (k i : ℕ) (body : List UInt8) : Prop :=
  ∀ e cmd sourceVeda targetVeda date state,
    IsElement body e cmd sourceVeda targetVeda date state → Addressed targetVeda nodeId →
    ∃ st msg, state = some st ∧ Carries e order cmd sourceVeda targetVeda date st msg ∧
      ⟨k, i, msg, true⟩ ∈ s.sent

/-- One send is for the same element as another one or for an earlier one. -/
def Sent.before (a b : Sent) : Prop := a.part < b.part ∨ a.part = b.part ∧ a.index ≤ b.index

/-- **Export delivers**: every element in front of the saved position that is for the node was sent
successfully, and the elements were sent in their order. -/
def Delivers (s : Sender) : Prop :=
  (∀ count id, s.listener.SavedAt crates name consumerName count id →
    ∀ k i m, (s.listener.pushed k)[i]? = some m → k < id ∨ k = id ∧ i < count →
      s.SentIfAddressed order nodeId k i m.body) ∧
  s.sent.Pairwise Sent.before

/-- The condition of a step. Elements are well-formed and numbers do not overflow. Not all ten sends
of a message fail. -/
def Allowed (s : Sender) : Op → Prop
  | .openQueue => ∀ newest,
    readQueueInfo crates name (s.listener.disk.infoQueue.getD []) = some newest →
      newest + 1 < 2 ^ 32
  | .push m => (∃ e cmd sourceVeda targetVeda date state,
      IsElement m.body e cmd sourceVeda targetVeda date state) ∧
    ∀ q, s.listener.producer = some q →
      q.countPushed + 1 < 2 ^ 32 ∧ q.rightEdge + headerSize + m.body.length < 2 ^ 64
  | .handle send => ∀ b body, s.listener.phase = .body b body →
    ∀ e cmd sourceVeda targetVeda date st,
      IsElement body e cmd sourceVeda targetVeda date (some st) → Addressed targetVeda nodeId →
      ∃ i < 10, send i = true
  | .run | .popHeader | .popBody | .commitAndNext => True

/-- A state of a run whose steps meet their conditions. -/
inductive Reached : Sender → Prop
  | start : Reached (start crates name)
  | step {s : Sender} (op : Op) : Reached s → s.Allowed crates name nodeId op →
      Reached (s.step crates cbor fuel order name consumerName nodeId op)

end Steps

/-! ## The invariant -/

section Invariant

variable (crates : Crates) (cbor : CborParser) (order : IterOrder String)
  (name consumerName : List Char) (nodeId : String)

/-- **The invariant** of the runs whose steps meet their conditions. -/
structure Inv (s : Sender) (newest : ℕ) : Prop where
  base : Listener.Inv crates name consumerName cbor s.listener newest
  committing : s.listener.Committing crates name consumerName
  passed : ∀ k i body answer, Event.prepared k i body answer ∈ s.listener.trace →
    answer = .ok true ∧ s.SentIfAddressed order nodeId k i body
  ordered : s.sent.Pairwise Sent.before
  behind : ∀ a ∈ s.sent, ∀ count id, s.listener.SavedAt crates name consumerName count id →
    a.part < id ∨ a.part = id ∧ a.index ≤ count

end Invariant

variable {crates : Crates} {cbor : CborParser} {fuel : ℕ} {order : IterOrder String}
  {name consumerName : List Char} {nodeId : String} {s : Sender} {newest newest' k i : ℕ}
  {l : Listener} {body : List UInt8} {m : Message}

/-- **What the invariant is for.** -/
theorem Inv.delivers (h : Inv crates cbor order name consumerName nodeId s newest) :
    s.Delivers crates order name consumerName nodeId := by
  refine ⟨fun count id hsaved k i m hm hfront => ?_, h.ordered⟩
  rcases h.base.noneGivenUp count id hsaved k i m hm hfront with
    hin | ⟨before, behind, htrace, -⟩
  · exact (h.passed k i m.body _ hin).2
  · have hin : Event.prepared k i m.body (.ok false) ∈ s.listener.trace := by
      rw [htrace]
      exact List.mem_append_right _ List.mem_cons_self
    exact absurd (h.passed k i m.body _ hin).1 (by simp)

theorem Inv.moved (h : Inv crates cbor order name consumerName nodeId s newest)
    (hbase : Listener.Inv crates name consumerName cbor l newest')
    (hcommits : Listener.Commits crates name consumerName s.listener l)
    (htrace : l.trace = s.listener.trace) :
    Inv crates cbor order name consumerName nodeId { s with listener := l } newest' where
  base := hbase
  committing := hcommits.1
  passed := by
    intro k i body answer hin
    rw [show ({ s with listener := l } : Sender).listener.trace = s.listener.trace from htrace]
      at hin
    exact h.passed k i body answer hin
  ordered := h.ordered
  behind := by
    intro a ha count' id' hsaved'
    obtain ⟨count, id, hsaved, hle⟩ := hcommits.2 count' id' hsaved'
    have hfront := h.behind a ha count id hsaved
    omega

theorem inv_start (crates : Crates) (cbor : CborParser) (order : IterOrder String)
    (consumerName : List Char) (nodeId : String) (hname : PlainName name) :
    Inv crates cbor order name consumerName nodeId (start crates name) 0 where
  base := Listener.inv_start crates cbor consumerName hname
  committing := by
    rw [start, Listener.start_eq crates hname]
    constructor
    · rintro c ⟨⟩
    · rintro b needCommit ⟨⟩
  passed := by
    intro k i body answer hin
    rw [start, Listener.start_eq crates hname] at hin
    cases hin
  ordered := List.Pairwise.nil
  behind := by
    rintro a ⟨⟩

theorem parses_of_isElement {e : IndividualObj} {cmd : IndvOp} {sourceVeda targetVeda : String}
    {date : Int64} {state : Option IndividualObj}
    (h : IsElement body e cmd sourceVeda targetVeda date state) (cbor : CborParser) :
    Veda.VModule.parses cbor body = true := by
  obtain ⟨⟨π, rfl⟩, helement⟩ := h
  obtain ⟨start, hstart, -⟩ := opened_of_parseRaw helement.fits cbor π
  have hparse : (Individual.newRaw (.new (toMsgpack π e))).parseRaw cbor = (.ok (), start) := hstart
  rw [Veda.VModule.parses, hparse]

/-- **A new part** is opened by the producer. -/
theorem Inv.openQueue (hname : PlainName name)
    (h : Inv crates cbor order name consumerName nodeId s newest) (hnewest : newest + 1 < 2 ^ 32) :
    Inv crates cbor order name consumerName nodeId
      { s with listener := s.listener.openQueue crates name } (newest + 1) := by
  refine h.moved (h.base.openQueue hname hnewest)
    (h.base.committing_openQueue hname h.committing hnewest) ?_
  obtain ⟨q, hopen, -, -⟩ := h.base.producing.openQueue hname hnewest
  rw [Listener.openQueue, hopen]

/-- **An element** is pushed. -/
theorem Inv.push (hname : PlainName name)
    (h : Inv crates cbor order name consumerName nodeId s newest)
    (hallowed : s.listener.Allowed crates cbor name consumerName (.push m)) :
    Inv crates cbor order name consumerName nodeId
      { s with listener := s.listener.push crates name m } newest := by
  refine h.moved (h.base.push hname hallowed)
    (h.base.committing_push hname h.committing hallowed) ?_
  exact (h.base.push_same hname hallowed).2.2.2

/-- **A run begins** with a new consumer. -/
theorem Inv.run (h : Inv crates cbor order name consumerName nodeId s newest) :
    Inv crates cbor order name consumerName nodeId
      { s with listener :=
          (s.listener.restart crates name consumerName).startBatch crates name none } newest := by
  have hrestart := h.moved h.base.restart h.base.committing_restart (by
    unfold Listener.restart
    split <;> rfl)
  refine hrestart.moved (h.base.restart.startBatch none)
    (h.base.restart.committing_startBatch hrestart.committing none) ?_
  show _ = (s.listener.restart crates name consumerName).trace
  unfold Listener.startBatch
  split
  · split <;> rfl
  · rfl

/-- **`pop_header`** at the beginning of a round. -/
theorem Inv.popHeader (hname : PlainName name) (hconsumer : PlainName consumerName)
    (h : Inv crates cbor order name consumerName nodeId s newest) :
    Inv crates cbor order name consumerName nodeId
      { s with listener := s.listener.popHeader crates name consumerName } newest := by
  refine h.moved (h.base.popHeader hname hconsumer fun _ => h.committing.saved)
    (h.base.committing_popHeader hname hconsumer h.committing) ?_
  unfold Listener.popHeader
  split
  · split
    · rfl
    · split <;> rfl
  · rfl

/-- **`pop_body`** behind a header. -/
theorem Inv.popBody (h : Inv crates cbor order name consumerName nodeId s newest) :
    Inv crates cbor order name consumerName nodeId
      { s with listener := s.listener.popBody crates } newest := by
  refine h.moved h.base.popBody h.committing.popBody ?_
  unfold Listener.popBody
  split
  · split <;> rfl
  · rfl

/-- **`commit_and_next`** at the end of a round. -/
theorem Inv.commitAndNext (hname : PlainName name) (hconsumer : PlainName consumerName)
    (h : Inv crates cbor order name consumerName nodeId s newest) :
    Inv crates cbor order name consumerName nodeId
      { s with listener := s.listener.next name consumerName } newest := by
  refine h.moved (h.base.next hname hconsumer)
    (h.base.committing_next hname hconsumer h.committing) ?_
  unfold Listener.next
  split <;> rfl

/-! ## The sends of an element -/

theorem SentIfAddressed.append {sent' : List Sent} (h : s.SentIfAddressed order nodeId k i body)
    (hsent : s.sent ⊆ sent') (l : Listener) :
    SentIfAddressed order nodeId ⟨l, sent'⟩ k i body := by
  intro e cmd sourceVeda targetVeda date state helement haddressed
  obtain ⟨st, msg, hstate, hcarries, hin⟩ :=
    h e cmd sourceVeda targetVeda date state helement haddressed
  exact ⟨st, msg, hstate, hcarries, hsent hin⟩

/-- **A passed element** that is for the node was sent successfully, unless all sends fail. -/
theorem sent_of_attempts {send : ℕ → Bool} {sends : List (IndividualObj × Bool)}
    {iraw' : Individual} {e : IndividualObj} {cmd : IndvOp} {sourceVeda targetVeda : String}
    {date : Int64} {state : Option IndividualObj}
    (hattempts : attempts cbor fuel order nodeId send 10 0 (.newRaw (.new body)) =
      .ok (sends, .ok ()) iraw')
    (helement : IsElement body e cmd sourceVeda targetVeda date state)
    (haddressed : Addressed targetVeda nodeId)
    (hsend : ∀ st, state = some st → ∃ i < 10, send i = true) :
    ∃ st msg, state = some st ∧ Carries e order cmd sourceVeda targetVeda date st msg ∧
      (msg, true) ∈ sends := by
  obtain ⟨⟨π, rfl⟩, helement⟩ := helement
  change attempts cbor fuel order nodeId send 10 0 (recordOf π e) = _ at hattempts
  cases state with
  | none =>
    obtain ⟨iraw, hnone⟩ := attempts_none helement haddressed cbor fuel π order send
    rw [hattempts] at hnone
    cases hnone
  | some st =>
    obtain ⟨enough, msg, hcarries, hall⟩ := attempts_state helement haddressed cbor π order
    rcases hall fuel send with ⟨sends', iraw, hok, -, hsuccess⟩ | ⟨-, iraw, hout⟩
    · rw [hattempts] at hok
      cases hok
      exact ⟨st, msg, rfl, hcarries, hsuccess.mpr (hsend st rfl)⟩
    · rw [hattempts] at hout
      cases hout

theorem Inv.ordered_append (h : Inv crates cbor order name consumerName nodeId s newest)
    {count id : ℕ} (hsaved : s.listener.SavedAt crates name consumerName count id)
    (sends : List (IndividualObj × Bool)) :
    (s.sent ++ sends.map fun x => (⟨id, count, x.1, x.2⟩ : Sent)).Pairwise Sent.before := by
  refine List.pairwise_append.mpr ⟨h.ordered, ?_, ?_⟩
  · rw [List.pairwise_map]
    exact List.pairwise_of_forall fun _ _ => .inr ⟨rfl, Nat.le_refl _⟩
  · intro a ha b hb
    obtain ⟨x, -, rfl⟩ := List.mem_map.mp hb
    exact h.behind a ha count id hsaved

theorem Inv.behind_append (h : Inv crates cbor order name consumerName nodeId s newest)
    {count id : ℕ} (hsaved : s.listener.SavedAt crates name consumerName count id)
    (sends : List (IndividualObj × Bool)) :
    ∀ a ∈ s.sent ++ sends.map fun x => (⟨id, count, x.1, x.2⟩ : Sent),
      ∀ count' id', s.listener.SavedAt crates name consumerName count' id' →
        a.part < id' ∨ a.part = id' ∧ a.index ≤ count' := by
  intro a ha count' id' hsaved'
  rcases List.mem_append.mp ha with ha | ha
  · exact h.behind a ha count' id' hsaved'
  · obtain ⟨x, -, rfl⟩ := List.mem_map.mp ha
    obtain ⟨pos, hread⟩ := hsaved
    obtain ⟨pos', hread'⟩ := hsaved'
    rw [hread] at hread'
    cases hread'
    exact .inr ⟨rfl, Nat.le_refl _⟩

theorem Inv.stopped (h : Inv crates cbor order name consumerName nodeId s newest)
    {c : Veda.VQueue.Consumer} (hc : s.listener.consumer = some c)
    (sends : List (IndividualObj × Bool)) :
    Inv crates cbor order name consumerName nodeId
      ⟨{ s.listener with phase := .stopped },
        s.sent ++ sends.map fun x => ⟨c.id, c.countPopped, x.1, x.2⟩⟩ newest where
  base := by
    have hmoved : Listener.Inv crates name consumerName cbor
        { s.listener with consumer := some c, phase := .stopped } newest := h.base.moved .stopped
    rw [← hc] at hmoved
    exact hmoved
  committing := by
    have hcommits : Listener.Commits crates name consumerName s.listener
        { s.listener with phase := .stopped } :=
      h.committing.of_same rfl rfl (by rintro b needCommit ⟨⟩)
    exact hcommits.1
  passed := by
    intro k i body answer hin
    obtain ⟨hanswer, hsent⟩ := h.passed k i body answer hin
    exact ⟨hanswer, hsent.append (List.subset_append_left _ _) _⟩
  ordered := h.ordered_append (h.committing.saved c hc) sends
  behind := h.behind_append (h.committing.saved c hc) sends

/-- **The attempts**: an element that is passed was sent, when not all of its sends fail. -/
theorem Inv.handle (h : Inv crates cbor order name consumerName nodeId s newest)
    {send : ℕ → Bool} (hallowed : s.Allowed crates name nodeId (.handle send)) :
    Inv crates cbor order name consumerName nodeId (s.handle cbor fuel order nodeId send)
      newest := by
  unfold Sender.handle
  split
  case h_2 => exact h
  case h_1 c b body hc hphase =>
  cases hattempts : attempts cbor fuel order nodeId send 10 0 (.newRaw (.new body)) with
  | error stop iraw' =>
    have hstopped := h.stopped hc []
    rwa [List.map_nil, List.append_nil] at hstopped
  | ok result iraw' =>
  obtain ⟨sends, code⟩ := result
  cases code with
  | error code => exact h.stopped hc sends
  | ok u =>
    have hplace := h.committing.saved c hc
    have hprepared := h.base.prepare_of_body hc hphase
    have hbase : Listener.Inv crates name consumerName cbor (s.listener.prepare cbor (.ok true))
        newest := h.base.prepare (by simp) fun _ => h.committing.saved
    have hcommits := h.base.committing_prepare h.committing
    rw [hprepared] at hbase hcommits
    exact {
      base := hbase
      committing := hcommits.1
      passed := by
        intro k i body' answer hin
        rcases List.mem_append.mp hin with hin | hin
        · obtain ⟨hanswer, hsent⟩ := h.passed k i body' answer hin
          exact ⟨hanswer, hsent.append (List.subset_append_left _ _) _⟩
        · rw [List.mem_singleton] at hin
          cases hin
          refine ⟨rfl, ?_⟩
          intro e cmd sourceVeda targetVeda date state helement haddressed
          obtain ⟨st, msg, hstate, hcarries, hmem⟩ := sent_of_attempts hattempts helement haddressed
            (by
              rintro st rfl
              exact hallowed b body hphase e cmd sourceVeda targetVeda date st helement haddressed)
          refine ⟨st, msg, hstate, hcarries, List.mem_append_right _ ?_⟩
          exact List.mem_map.mpr ⟨(msg, true), hmem, rfl⟩
      ordered := h.ordered_append hplace sends
      behind := h.behind_append hplace sends }

/-! ## Runs -/

/-- **A step** that meets its condition keeps the invariant. -/
theorem Inv.step (hname : PlainName name) (hconsumer : PlainName consumerName) {op : Op}
    (h : Inv crates cbor order name consumerName nodeId s newest)
    (hallowed : s.Allowed crates name nodeId op) :
    ∃ newest', Inv crates cbor order name consumerName nodeId
      (s.step crates cbor fuel order name consumerName nodeId op) newest' := by
  cases op with
  | openQueue =>
    exact ⟨newest + 1, h.openQueue hname (hallowed newest h.base.producing.stored.queueInfo)⟩
  | push m =>
    obtain ⟨⟨e, cmd, sourceVeda, targetVeda, date, state, helement⟩, hnumbers⟩ := hallowed
    exact ⟨newest, h.push hname ⟨parses_of_isElement helement cbor, hnumbers⟩⟩
  | run => exact ⟨newest, h.run⟩
  | popHeader => exact ⟨newest, h.popHeader hname hconsumer⟩
  | popBody => exact ⟨newest, h.popBody⟩
  | handle send => exact ⟨newest, h.handle hallowed⟩
  | commitAndNext => exact ⟨newest, h.commitAndNext hname hconsumer⟩

/-- **The states of a run** whose steps meet their conditions. -/
theorem Reached.inv (hname : PlainName name) (hconsumer : PlainName consumerName)
    (hreached : Reached crates cbor fuel order name consumerName nodeId s) :
    ∃ newest, Inv crates cbor order name consumerName nodeId s newest := by
  induction hreached with
  | start => exact ⟨0, inv_start crates cbor order consumerName nodeId hname⟩
  | step _ _ hallowed ih =>
    obtain ⟨newest, hinv⟩ := ih
    exact hinv.step hname hconsumer hallowed

/-- **Export delivers** in a run in which not all ten sends of a message fail. -/
theorem delivers_of_reached (hname : PlainName name) (hconsumer : PlainName consumerName)
    (h : Reached crates cbor fuel order name consumerName nodeId s) :
    s.Delivers crates order name consumerName nodeId := by
  obtain ⟨newest, hinv⟩ := h.inv hname hconsumer
  exact hinv.delivers

/-! ## Two runs -/

/-- A queue with small names, and the sender to a node. -/
def small (fuel : ℕ) (ops : List Op) : Sender :=
  ops.foldl (step lineCrates noCbor fuel (.stored String) ['q'] ['c'] "sys:b")
    (start lineCrates ['q'])

theorem small_append (fuel : ℕ) (ops : List Op) (op op' : Op) :
    small fuel (ops ++ [op] ++ [op']) =
      ((small fuel ops).step lineCrates noCbor fuel (.stored String) ['q'] ['c'] "sys:b" op).step
        lineCrates noCbor fuel (.stored String) ['q'] ['c'] "sys:b" op' := by
  rw [small, List.foldl_append, List.foldl_append]
  rfl

theorem reached_small {ops : List Op} (op : Op)
    (h : Reached lineCrates noCbor fuel (.stored String) ['q'] ['c'] "sys:b" (small fuel ops))
    (hallowed : (small fuel ops).Allowed lineCrates ['q'] "sys:b" op) :
    Reached lineCrates noCbor fuel (.stored String) ['q'] ['c'] "sys:b"
      (small fuel (ops ++ [op])) := by
  rw [small, List.foldl_append]
  exact h.step op hallowed

/-- The element about the small document. -/
def smallMessage : Message := ⟨.object, toMsgpack (.stored String) (smallElement .put)⟩

theorem isElement_smallMessage :
    IsElement smallMessage.body (smallElement .put) .put smallSource "*" 1700000000
      (some smallDocument) :=
  ⟨⟨_, rfl⟩, exportElement_smallElement (by decide)⟩

/-- The element is pushed, and its header is taken. -/
def headerOps : List Op := [.push smallMessage, .run, .popHeader]

/-- The element is pushed and taken. -/
def taken : List Op := headerOps ++ [.popBody]

theorem reached_headerOps (fuel : ℕ) :
    Reached lineCrates noCbor fuel (.stored String) ['q'] ['c'] "sys:b" (small fuel headerOps) := by
  have hnumbers : ((start lineCrates ['q']).listener.producer.all fun q =>
      decide (q.countPushed + 1 < 2 ^ 32 ∧
        q.rightEdge + headerSize + smallMessage.body.length < 2 ^ 64)) = true := by decide +kernel
  have h₁ : Reached lineCrates noCbor fuel (.stored String) ['q'] ['c'] "sys:b"
      (small fuel ([] ++ [.push smallMessage])) := reached_small (.push smallMessage) .start
    ⟨⟨_, _, _, _, _, _, isElement_smallMessage⟩, fun q hq => by
      change (start lineCrates ['q']).listener.producer = some q at hq
      rw [hq] at hnumbers
      exact of_decide_eq_true hnumbers⟩
  have h₂ := reached_small .run h₁ trivial
  have h₃ := reached_small .popHeader h₂ trivial
  simpa only [headerOps, List.nil_append, List.cons_append] using h₃

theorem reached_taken (fuel : ℕ) :
    Reached lineCrates noCbor fuel (.stored String) ['q'] ['c'] "sys:b" (small fuel taken) :=
  reached_small .popBody (reached_headerOps fuel) trivial

/-- The third send is successful. -/
theorem delivers_thirdSend :
    (small 10 (taken ++ [.handle fun i => i == 2] ++ [.commitAndNext])).Delivers lineCrates
      (.stored String) ['q'] ['c'] "sys:b" := by
  have hhandled := reached_small (.handle fun i => i == 2) (reached_taken 10)
    (fun _ _ _ _ _ _ _ _ _ _ _ => ⟨2, by decide, rfl⟩)
  exact delivers_of_reached Listener.plain_q_c.1 Listener.plain_q_c.2
    (reached_small .commitAndNext hhandled trivial)

/-- The listener that has taken the header of the element. -/
def headerTaken : Listener :=
  Listener.popHeader lineCrates ['q'] ['c']
    ((Listener.restart lineCrates ['q'] ['c']
      (Listener.push lineCrates ['q'] (Listener.start lineCrates ['q']) smallMessage)).startBatch
        lineCrates ['q'] none)

theorem headerTaken_eq :
    headerTaken.phase = .header ⟨1, 1, 0⟩ ∧ (headerTaken.pushed 0)[0]? = some smallMessage ∧
      ∃ c, headerTaken.consumer = some c ∧ c.id = 0 ∧ c.countPopped = 0 := by
  refine ⟨by decide +kernel, by decide +kernel, headerTaken.consumer.get (by decide +kernel),
    (Option.some_get _).symm, by decide +kernel, by decide +kernel⟩

theorem exists_taken :
    ∃ l : Listener, (∀ fuel, small fuel headerOps = ⟨l, []⟩ ∧
        small fuel taken = ⟨l.popBody lineCrates, []⟩) ∧
      l.phase = .header ⟨1, 1, 0⟩ ∧ (l.pushed 0)[0]? = some smallMessage ∧
      ∃ c, l.consumer = some c ∧ c.id = 0 ∧ c.countPopped = 0 := by
  have hheader : ∀ fuel, small fuel headerOps = ⟨headerTaken, []⟩ := by
    intro fuel
    simp only [small, headerOps, List.foldl_cons, List.foldl_nil, step, start, headerTaken]
  refine ⟨headerTaken, fun fuel => ⟨hheader fuel, ?_⟩, headerTaken_eq⟩
  rw [taken, small, List.foldl_append]
  simp only [List.foldl_cons, List.foldl_nil, step]
  rw [← small, hheader]

theorem not_delivers_of_passed {s : Sender} {newest : ℕ} {c : Veda.VQueue.Consumer}
    {b : Veda.VModule.Batch} {m : Message} {e : IndividualObj} {cmd : IndvOp}
    {sourceVeda targetVeda : String} {date : Int64} {state : Option IndividualObj}
    (hname : PlainName name) (hconsumer : PlainName consumerName)
    (h : Inv crates cbor order name consumerName nodeId s newest)
    (hc : s.listener.consumer = some c) (hphase : s.listener.phase = .body b m.body)
    (hm : (s.listener.pushed c.id)[c.countPopped]? = some m)
    {π : IterOrder String} (hbody : m.body = toMsgpack π e)
    (helement : ExportElement e cmd sourceVeda targetVeda date state)
    (haddressed : Addressed targetVeda nodeId) {send : ℕ → Bool}
    {sends : List (IndividualObj × Bool)} {iraw' : Individual}
    (hattempts : attempts cbor fuel order nodeId send 10 0 (recordOf π e) =
      .ok (sends, .ok ()) iraw')
    (hsent : s.sent = []) (hfailed : ∀ msg, (msg, true) ∉ sends) :
    ¬ ((s.step crates cbor fuel order name consumerName nodeId (.handle send)).step crates cbor fuel
      order name consumerName nodeId .commitAndNext).Delivers crates order name consumerName
        nodeId := by
  have hprepared := h.base.prepare_of_body hc hphase
  have hbase : Listener.Inv crates name consumerName cbor (s.listener.prepare cbor (.ok true))
      newest := h.base.prepare (by simp) fun _ => h.committing.saved
  have hhandled : s.step crates cbor fuel order name consumerName nodeId (.handle send) =
      ⟨s.listener.prepare cbor (.ok true),
        sends.map fun x => ⟨c.id, c.countPopped, x.1, x.2⟩⟩ := by
    rw [recordOf, ← hbody] at hattempts
    rw [hprepared, step, handle, hc, hphase]
    dsimp only
    rw [hattempts, hsent, ← hc]
    rfl
  have hcommitting := (h.base.committing_prepare h.committing).1
  have hanswered : (s.listener.prepare cbor (.ok true)).phase = .answered b true := by
    rw [hprepared]
  have hconsumer' : (s.listener.prepare cbor (.ok true)).consumer = some c := by
    rw [hprepared]
    exact hc
  obtain ⟨c', hc', hid, hcount⟩ := hbase.next_of_answered hconsumer' hanswered
  have hsaved := (hbase.committing_next hname hconsumer hcommitting).1.saved c' hc'
  have hpushed : ((s.listener.prepare cbor (.ok true)).next name consumerName).pushed =
      s.listener.pushed := by
    rw [hprepared, Listener.next, hc]
  rw [hid, hcount] at hsaved
  rintro ⟨hall, -⟩
  rw [hhandled] at hall
  obtain ⟨st, msg, -, -, hin⟩ := hall (c.countPopped + 1) c.id hsaved c.id c.countPopped m
    (by
      rw [← hpushed] at hm
      exact hm)
    (.inr ⟨rfl, Nat.lt_succ_self _⟩) e cmd sourceVeda targetVeda date state ⟨⟨π, hbody⟩, helement⟩
    haddressed
  obtain ⟨⟨msg', succeeded⟩, hx, heq⟩ := List.mem_map.mp hin
  cases heq
  exact hfailed _ hx

/-- **All ten sends fail**: the saved position is behind the element, which was never sent
successfully. -/
theorem not_delivers_allFailed :
    ∃ fuel, ¬ (small fuel (taken ++ [.handle fun _ => false] ++ [.commitAndNext])).Delivers
      lineCrates (.stored String) ['q'] ['c'] "sys:b" := by
  obtain ⟨enough, msg, -, hall⟩ := attempts_state
    (exportElement_smallElement (by decide : IndvOp.put ∈ exported))
      (.inl rfl : Addressed "*" "sys:b") noCbor (.stored String) (.stored String)
  refine ⟨enough, ?_⟩
  rcases hall enough (fun _ => false) with ⟨sends, iraw', hattempts, hsame, hsuccess⟩ | ⟨hlt, -⟩
  case inr => exact absurd hlt (Nat.lt_irrefl _)
  -- the element is taken
  obtain ⟨l, hsmall, hphase₀, hpushed, c₀, hc₀, hid₀, hcount₀⟩ := exists_taken
  obtain ⟨newest₀, hinv₀⟩ :=
    (reached_headerOps enough).inv Listener.plain_q_c.1 Listener.plain_q_c.2
  obtain ⟨newest, hinv⟩ := (reached_taken enough).inv Listener.plain_q_c.1 Listener.plain_q_c.2
  rw [(hsmall enough).1] at hinv₀
  rw [(hsmall enough).2] at hinv
  obtain ⟨hphase, c, hc, hid, hcount⟩ := hinv₀.base.popBody_of_header hc₀ hphase₀
    (by rw [hid₀, hcount₀]; exact hpushed)
  have hfailed : ∀ msg', (msg', true) ∉ sends := by
    intro msg' hin
    obtain rfl : msg' = msg := hsame _ hin
    obtain ⟨i, -, hi⟩ := hsuccess.mp hin
    cases hi
  have hpushed' : ((l.popBody lineCrates).pushed c.id)[c.countPopped]? = some smallMessage := by
    rw [hid, hcount, hid₀, hcount₀, Listener.popBody, hc₀, hphase₀]
    dsimp only
    split <;> exact hpushed
  rw [small_append, (hsmall enough).2]
  exact not_delivers_of_passed Listener.plain_q_c.1 Listener.plain_q_c.2 hinv hc hphase hpushed'
    rfl (exportElement_smallElement (by decide)) (.inl rfl) hattempts rfl hfailed

end Sender

end Veda.Exim
