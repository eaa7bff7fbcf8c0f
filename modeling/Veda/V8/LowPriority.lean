import Veda.VModule.Committing

set_option autoImplicit false

/-!
# The order of the script modules

The scripts of a queue are run by several modules, each with its own consumer. A module for scripts
of low priority has a copy of the consumer of the main module. Before it runs the scripts for a
message it compares its place with that of the copy, and as long as it seems to be ahead it reads
the saved position of the main module again.

## Main definitions

* `V8.ScriptModules` — a queue, and the main and the low-priority module.
* `V8.ScriptModules.waits` — the comparison in `prepare` of the low-priority module.
* `V8.ScriptModules.LowPriorityLast` — what the low-priority module ran was committed by the
  main one.
* `V8.ScriptModules.Allowed` — the condition of a step.

## Main results

* `V8.ScriptModules.lowPriorityLast_of_reached` — the order in a run whose steps meet their
  conditions.

## Design

The files of the queue are those of the main module; the low-priority module has another file with
its position. A module is the loop of `listen_queue`, whose `before_batch` and `after_batch` answer
`None` and `false`; `prepare` answers `Ok(true)` or a fatal error. A module that waits stays where
it is. A file that is empty when it is read leaves the copy as it is, so that the moment between the
truncation of the file and the next line in it is left out.
-/

namespace Veda.V8

open Veda.VQueue Veda.VModule

/-- A queue, the main module and a low-priority module. -/
structure ScriptModules where
  main : Listener
  /-- the file with the position of the main module exists -/
  mainOpened : Bool
  /-- the file with the position of the low-priority module -/
  lpPop : List Char
  lpConsumer : Option Consumer
  lpPhase : Phase
  lpTrace : List VModule.Event
  /-- `main_queue_cs` -/
  mainQueueCs : Option Consumer

/-- What a module does. -/
inductive ModuleCall
  | restart
  | startBatch
  | popHeader
  | popBody
  | prepare (fatal : Bool)
  | next
  | endBatch
  deriving DecidableEq

/-- The call of the loop. -/
def ModuleCall.op : ModuleCall → Op
  | .restart => .restart
  | .startBatch => .startBatch none
  | .popHeader => .popHeader
  | .popBody => .popBody
  | .prepare fatal => .prepare (if fatal then .error .fatal else .ok true)
  | .next => .next
  | .endBatch => .endBatch false

/-- A step of the producer or of a module. -/
inductive ScriptOp
  | openQueue
  | push (m : Message)
  | main (call : ModuleCall)
  | lp (call : ModuleCall)
  /-- the low-priority module reads the saved position of the main one -/
  | getInfo

namespace ScriptModules

/-! ## Steps -/

/-- The low-priority module with the files of the queue. -/
def lp (w : ScriptModules) : Listener where
  disk := { w.main.disk with infoPop := w.lpPop }
  producer := w.main.producer
  consumer := w.lpConsumer
  phase := w.lpPhase
  pushed := w.main.pushed
  trace := w.lpTrace

/-- The low-priority module has made a step. -/
def setLp (w : ScriptModules) (s : Listener) : ScriptModules :=
  { w with
    lpPop := s.disk.infoPop
    lpConsumer := s.consumer
    lpPhase := s.phase
    lpTrace := s.trace }

section Steps

variable (crates : Crates) (cbor : Onto.CborParser) (name mainName lpName : List Char)

/-- `get_info`. -/
def getInfo (cs : Consumer) (infoPop : List Char) : Consumer :=
  match firstLine infoPop with
  | none => cs
  | some _ =>
    match readPopInfo crates name mainName infoPop with
    | some (posRecord, countPopped, id) => { cs with posRecord, countPopped, id }
    | none => cs

/-- The place of a consumer seems to be behind that of another one. -/
def seemsAhead (my cs : Consumer) : Bool :=
  cs.countPopped < my.countPopped && cs.id = my.id || cs.id < my.id

/-- The low-priority module is in `prepare`, and the comparison makes it wait. -/
def waits (w : ScriptModules) : Bool :=
  match w.lpPhase, w.lpConsumer, w.mainQueueCs with
  | .body _ msg, some my, some cs => parses cbor msg && seemsAhead my cs
  | _, _, _ => false

/-- The low-priority module starts: its own consumer, and the copy of the main one. Without the copy
it does not come to its loop. -/
def restartLp (w : ScriptModules) : ScriptModules :=
  let w := w.setLp (w.lp.restart crates name lpName)
  match if w.mainOpened then Consumer.new crates name mainName w.main.disk
    else .error .notReady with
  | .ok cs => { w with mainQueueCs := some cs }
  | .error _ => { w with mainQueueCs := none, lpPhase := .stopped }

def stepMain (w : ScriptModules) (call : ModuleCall) : ScriptModules :=
  { w with
    main := w.main.step crates cbor name mainName call.op
    mainOpened := w.mainOpened || decide (call = .restart) }

def stepLp (w : ScriptModules) (call : ModuleCall) : ScriptModules :=
  w.setLp (w.lp.step crates cbor name lpName call.op)

def step (w : ScriptModules) : ScriptOp → ScriptModules
  | .openQueue => { w with main := w.main.openQueue crates name }
  | .push m => { w with main := w.main.push crates name m }
  | .main call => w.stepMain crates cbor name mainName call
  | .lp .restart => w.restartLp crates name mainName lpName
  | .lp (.prepare fatal) =>
    if w.waits cbor then w else w.stepLp crates cbor name lpName (.prepare fatal)
  | .lp call => w.stepLp crates cbor name lpName call
  | .getInfo =>
    if w.waits cbor then
      { w with
        mainQueueCs := w.mainQueueCs.map fun cs =>
          getInfo crates name mainName cs w.main.disk.infoPop }
    else w

/-- A queue with one part, and no module. -/
def start : ScriptModules where
  main := Listener.start crates name
  mainOpened := false
  lpPop := []
  lpConsumer := none
  lpPhase := .stopped
  lpTrace := []
  mainQueueCs := none

/-! ## The order of the modules -/

/-- The main module has committed message `n` of part `k`. -/
def MainCommitted (w : ScriptModules) (k n : ℕ) : Prop :=
  ∃ count id, w.main.SavedAt crates name mainName count id ∧ (k < id ∨ k = id ∧ n < count)

/-- **Low-priority scripts run last**: when they were run for a message, the main module has
committed it. -/
def LowPriorityLast (w : ScriptModules) : Prop :=
  ∀ k n msg answer, VModule.Event.prepared k n msg answer ∈ w.lpTrace →
    w.MainCommitted crates name mainName k n

/-- The condition of a step. Messages are well-formed and numbers do not overflow; and the
low-priority module does not run scripts when its copy is exactly at its own place. -/
def Allowed (w : ScriptModules) : ScriptOp → Prop
  | .openQueue => w.main.Allowed crates cbor name mainName .openQueue
  | .push m => w.main.Allowed crates cbor name mainName (.push m)
  | .lp (.prepare _) => ∀ my cs, w.lpConsumer = some my → w.mainQueueCs = some cs →
      ¬ (cs.id = my.id ∧ cs.countPopped = my.countPopped)
  | _ => True

/-- A state of a run whose steps meet their conditions. -/
inductive Reached : ScriptModules → Prop
  | start : Reached (start crates name)
  | step {w : ScriptModules} (op : ScriptOp) : Reached w → w.Allowed crates cbor name mainName op →
      Reached (w.step crates cbor name mainName lpName op)

/-- The copy is not in front of the saved position of the main module. -/
def Follows (w : ScriptModules) (cs : Consumer) : Prop :=
  ∃ count id, w.main.SavedAt crates name mainName count id ∧
    (cs.id < id ∨ cs.id = id ∧ cs.countPopped ≤ count)

/-- **The invariant** of the runs whose steps meet their conditions. -/
structure Inv (w : ScriptModules) : Prop where
  main : ∃ newest, Listener.Inv crates name mainName cbor w.main newest
  committing : w.main.Committing crates name mainName
  follows : ∀ cs, w.mainQueueCs = some cs → w.Follows crates name mainName cs
  /-- the low-priority module is in its loop only with the copy -/
  copied : w.lpPhase ≠ .stopped → w.mainQueueCs.isSome
  last : w.LowPriorityLast crates name mainName

end Steps

variable {crates : Crates} {cbor : Onto.CborParser} {name mainName lpName : List Char}
  {w : ScriptModules} {s s' : Listener} {newest newest' : ℕ}

/-! ## Saved positions -/

theorem savedAt_unique {count id count' id' : ℕ} (h : s.SavedAt crates name mainName count id)
    (h' : s.SavedAt crates name mainName count' id') : count = count' ∧ id = id' := by
  obtain ⟨pos, hread⟩ := h
  obtain ⟨pos', hread'⟩ := h'
  rw [hread] at hread'
  cases hread'
  exact ⟨rfl, rfl⟩

theorem exists_later (hinv : Listener.Inv crates name mainName cbor s' newest)
    (hlater : Listener.Later crates name mainName s s') {P : ℕ → ℕ → Prop}
    (hP : ∀ {count id count' id' : ℕ}, P count id → id < id' ∨ id = id' ∧ count ≤ count' →
      P count' id')
    (h : ∃ count id, s.SavedAt crates name mainName count id ∧ P count id) :
    ∃ count id, s'.SavedAt crates name mainName count id ∧ P count id := by
  obtain ⟨k, saved, hsaved⟩ := hinv.saved
  obtain ⟨count, id, hat, hrel⟩ := hlater saved k ⟨_, hsaved.read⟩
  obtain ⟨count₀, id₀, hat₀, hp⟩ := h
  obtain ⟨rfl, rfl⟩ := savedAt_unique hat hat₀
  exact ⟨saved, k, ⟨_, hsaved.read⟩, hP hp hrel⟩

theorem mainCommitted_later (hinv : Listener.Inv crates name mainName cbor s' newest)
    (hlater : Listener.Later crates name mainName w.main s') {mainOpened : Bool} {k n : ℕ}
    (h : w.MainCommitted crates name mainName k n) :
    MainCommitted crates name mainName { w with main := s', mainOpened } k n := by
  refine exists_later hinv hlater ?_ h
  rintro count id count' id' hfront hrel
  omega

theorem follows_later (hinv : Listener.Inv crates name mainName cbor s' newest)
    (hlater : Listener.Later crates name mainName w.main s') {mainOpened : Bool} {cs : Consumer}
    (h : w.Follows crates name mainName cs) :
    Follows crates name mainName { w with main := s', mainOpened } cs := by
  refine exists_later hinv hlater ?_ h
  rintro count id count' id' hfront hrel
  omega

/-! ## Steps of the main module -/

theorem Inv.moved (h : w.Inv crates cbor name mainName)
    (hmain : ∃ newest, Listener.Inv crates name mainName cbor s' newest)
    (hcommits : Listener.Commits crates name mainName w.main s') {mainOpened : Bool} :
    Inv crates cbor name mainName { w with main := s', mainOpened } where
  main := hmain
  committing := hcommits.1
  follows := by
    obtain ⟨newest, hinv⟩ := hmain
    exact fun cs hcs => follows_later hinv hcommits.2 (h.follows cs hcs)
  copied := h.copied
  last := by
    obtain ⟨newest, hinv⟩ := hmain
    exact fun k n msg answer hin => mainCommitted_later hinv hcommits.2 (h.last k n msg answer hin)

/-- **A step of the main module.** -/
theorem Inv.stepMain (hname : PlainName name) (hmainName : PlainName mainName)
    (h : w.Inv crates cbor name mainName) (call : ModuleCall) :
    (w.stepMain crates cbor name mainName call).Inv crates cbor name mainName := by
  obtain ⟨newest, hmain⟩ := h.main
  have hs := h.committing
  have hallowed : w.main.Allowed crates cbor name mainName call.op := by
    cases call with
    | popHeader => exact fun _ => hs.saved
    | prepare fatal =>
      refine ⟨?_, fun _ => hs.saved⟩
      cases fatal <;> exact nofun
    | _ => trivial
  have hcommits : Listener.Commits crates name mainName w.main
      (w.main.step crates cbor name mainName call.op) := by
    cases call with
    | restart => exact hmain.committing_restart
    | startBatch => exact hmain.committing_startBatch hs none
    | popHeader => exact hmain.committing_popHeader hname hmainName hs
    | popBody => exact hs.popBody
    | prepare fatal =>
      cases fatal with
      | false => exact hmain.committing_prepare hs
      | true => exact hs.fatal
    | next => exact hmain.committing_next hname hmainName hs
    | endBatch => exact hs.endBatch
  exact h.moved (hmain.step hname hmainName hallowed) hcommits

/-! ## Steps of the low-priority module -/

theorem step_of_stopped {call : ModuleCall} (hcall : call ≠ .restart) (h : s.phase = .stopped) :
    s.step crates cbor name lpName call.op = s := by
  cases call with
  | restart => exact absurd rfl hcall
  | startBatch =>
    change s.startBatch crates name none = s
    rw [Listener.startBatch, h]
    cases s.consumer <;> rfl
  | popHeader =>
    change s.popHeader crates name lpName = s
    rw [Listener.popHeader, h]
    cases s.consumer <;> rfl
  | popBody =>
    change s.popBody crates = s
    rw [Listener.popBody, h]
    cases s.consumer <;> rfl
  | prepare fatal =>
    change s.prepare cbor _ = s
    rw [Listener.prepare, h]
    cases s.consumer <;> rfl
  | next =>
    change s.next name lpName = s
    rw [Listener.next, h]
    cases s.consumer <;> rfl
  | endBatch =>
    change s.endBatch name lpName false = s
    rw [Listener.endBatch, h]
    cases s.consumer <;> rfl

theorem trace_step {call : ModuleCall} (hcall : ∀ fatal, call ≠ .prepare fatal) :
    (s.step crates cbor name lpName call.op).trace = s.trace := by
  cases call with
  | restart =>
    change (s.restart crates name lpName).trace = s.trace
    unfold Listener.restart
    split <;> rfl
  | startBatch =>
    change (s.startBatch crates name none).trace = s.trace
    unfold Listener.startBatch
    split
    · dsimp only
      split <;> rfl
    · rfl
  | popHeader =>
    change (s.popHeader crates name lpName).trace = s.trace
    unfold Listener.popHeader
    split
    · split
      · rfl
      · split <;> rfl
    · rfl
  | popBody =>
    change (s.popBody crates).trace = s.trace
    unfold Listener.popBody
    split
    · split <;> rfl
    · rfl
  | prepare fatal => exact absurd rfl (hcall fatal)
  | next =>
    change (s.next name lpName).trace = s.trace
    unfold Listener.next
    split <;> rfl
  | endBatch =>
    change (s.endBatch name lpName false).trace = s.trace
    unfold Listener.endBatch
    split
    · split_ifs with hleft hcommit
      · rfl
      · exact hcommit.2.elim
      · rfl
    · rfl

theorem mem_trace_prepare {fatal : Bool} {e : VModule.Event}
    (h : e ∈ (s.step crates cbor name lpName (ModuleCall.prepare fatal).op).trace) :
    e ∈ s.trace ∨ ∃ c b msg answer, s.consumer = some c ∧ s.phase = .body b msg ∧
      parses cbor msg = true ∧ e = .prepared c.id c.countPopped msg answer := by
  change e ∈ (s.prepare cbor (if fatal then .error .fatal else .ok true)).trace at h
  generalize (if fatal then .error .fatal else .ok true : Except PrepareError Bool) = answer at h
  unfold Listener.prepare at h
  split at h
  case h_2 => exact .inl h
  case h_1 c b msg hc hphase =>
    split_ifs at h with hparses
    · have hin : e ∈ s.trace ++ [VModule.Event.prepared c.id c.countPopped msg answer] := by
        rcases answer with (_ | _) | _ <;> exact h
      rcases List.mem_append.mp hin with hold | hnew
      · exact .inl hold
      · exact .inr ⟨c, b, msg, _, hc, hphase, hparses, List.mem_singleton.mp hnew⟩
    · exact .inl h

/-- **A step of the low-priority module.** -/
theorem Inv.stepLp (h : w.Inv crates cbor name mainName) {call : ModuleCall}
    (hcall : call ≠ .restart)
    (hlast : (w.stepLp crates cbor name lpName call).LowPriorityLast crates name mainName) :
    (w.stepLp crates cbor name lpName call).Inv crates cbor name mainName where
  main := h.main
  committing := h.committing
  follows := h.follows
  copied := by
    intro hphase
    refine h.copied fun hstopped => hphase ?_
    change (w.lp.step crates cbor name lpName call.op).phase = .stopped
    rw [step_of_stopped hcall hstopped]
    exact hstopped
  last := hlast

/-- **Scripts are run** when the comparison does not make the module wait.

**Proof sketch.** The copy is not behind the place of the module, and by the condition of the step
it is not at it, so it is in front of it; the saved position of the main module is not behind the
copy. -/
theorem Inv.prepareLp (h : w.Inv crates cbor name mainName) {fatal : Bool}
    (hwaits : w.waits cbor = false)
    (hallowed : w.Allowed crates cbor name mainName (.lp (.prepare fatal))) :
    (w.stepLp crates cbor name lpName (.prepare fatal)).Inv crates cbor name mainName := by
  refine h.stepLp (nofun) fun k n msg answer hin => ?_
  rcases mem_trace_prepare hin with hold | ⟨my, b, body, answer', hmy, hphase, hparses, heq⟩
  · exact h.last k n msg answer hold
  · obtain ⟨rfl, rfl, rfl, rfl⟩ := VModule.Event.prepared.inj heq
    have hmy' : w.lpConsumer = some my := hmy
    have hphase' : w.lpPhase = .body b msg := hphase
    obtain ⟨cs, hcs⟩ : ∃ cs, w.mainQueueCs = some cs := by
      refine Option.isSome_iff_exists.mp (h.copied ?_)
      rw [hphase']
      exact nofun
    have hbehind : seemsAhead my cs = false := by
      rw [waits, hphase', hmy', hcs] at hwaits
      dsimp only at hwaits
      rwa [hparses, Bool.true_and] at hwaits
    have hnot := hallowed my cs hmy' hcs
    obtain ⟨count, id, hsaved, hfront⟩ := h.follows cs hcs
    refine ⟨count, id, hsaved, ?_⟩
    simp only [seemsAhead, Bool.or_eq_false_iff, Bool.and_eq_false_iff, decide_eq_false_iff_not]
      at hbehind
    omega

/-- **The low-priority module starts.** -/
theorem Inv.restartLp (h : w.Inv crates cbor name mainName) :
    (w.restartLp crates name mainName lpName).Inv crates cbor name mainName := by
  have hlast : ∀ k n msg answer,
      VModule.Event.prepared k n msg answer ∈ (w.lp.restart crates name lpName).trace →
      w.MainCommitted crates name mainName k n := by
    intro k n msg answer hin
    have htrace : (w.lp.step crates cbor name lpName ModuleCall.restart.op).trace = w.lp.trace :=
      trace_step nofun
    change (w.lp.restart crates name lpName).trace = w.lp.trace at htrace
    rw [htrace] at hin
    exact h.last k n msg answer hin
  unfold ScriptModules.restartLp
  dsimp only
  split
  case h_2 =>
    exact {
      main := h.main
      committing := h.committing
      follows := nofun
      copied := fun hne => absurd rfl hne
      last := hlast }
  case h_1 cs hcs =>
    refine {
      main := h.main
      committing := h.committing
      follows := ?_
      copied := fun _ => rfl
      last := hlast }
    rintro cs' ⟨⟩
    obtain ⟨newest, hmain⟩ := h.main
    obtain ⟨k, saved, hsaved⟩ := hmain.saved
    obtain ⟨c, hnew, hopened⟩ := hmain.producing.stored.new_opens hsaved.read
      (hmain.linked newest (Nat.le_refl _)) rfl
    rw [hmain.linked k hsaved.part_le, if_pos rfl] at hopened
    split_ifs at hcs
    obtain rfl : c = cs := by
      rw [show (w.setLp (w.lp.restart crates name lpName)).main = w.main from rfl, hnew] at hcs
      exact Except.ok.inj hcs
    exact ⟨saved, k, ⟨_, hsaved.read⟩, .inr ⟨hopened.id, hopened.countPopped.le⟩⟩

/-- **The saved position is read again.** -/
theorem Inv.getInfo (h : w.Inv crates cbor name mainName) :
    (w.step crates cbor name mainName lpName .getInfo).Inv crates cbor name mainName := by
  change (if w.waits cbor then _ else w).Inv crates cbor name mainName
  split_ifs with hwaits
  · refine {
      main := h.main
      committing := h.committing
      follows := ?_
      copied := fun hne => by
        rw [Option.isSome_map]
        exact h.copied hne
      last := h.last }
    intro cs' hcs'
    obtain ⟨cs, hcs, rfl⟩ := Option.map_eq_some_iff.mp hcs'
    have hfollows := h.follows cs hcs
    unfold ScriptModules.getInfo
    cases firstLine w.main.disk.infoPop with
    | none => exact hfollows
    | some line =>
      dsimp only
      cases hread : readPopInfo crates name mainName w.main.disk.infoPop with
      | none => exact hfollows
      | some p => exact ⟨p.2.1, p.2.2, ⟨p.1, hread⟩, .inr ⟨rfl, Nat.le_refl _⟩⟩
  · exact h

/-! ## Runs -/

theorem inv_start (crates : Crates) (cbor : Onto.CborParser) (mainName : List Char)
    (hname : PlainName name) : (start crates name).Inv crates cbor name mainName where
  main := ⟨0, Listener.inv_start crates cbor mainName hname⟩
  committing := by
    rw [start, Listener.start_eq crates hname]
    exact ⟨nofun, nofun⟩
  follows := nofun
  copied := fun hne => absurd rfl hne
  last := fun k n msg answer hin => absurd hin List.not_mem_nil

/-- **A step** that meets its condition keeps the invariant. -/
theorem Inv.step (hname : PlainName name) (hmainName : PlainName mainName) {op : ScriptOp}
    (h : w.Inv crates cbor name mainName) (hallowed : w.Allowed crates cbor name mainName op) :
    (w.step crates cbor name mainName lpName op).Inv crates cbor name mainName := by
  obtain ⟨newest, hmain⟩ := h.main
  have hsame : ∀ {call : ModuleCall}, call ≠ .restart → (∀ fatal, call ≠ .prepare fatal) →
      (w.stepLp crates cbor name lpName call).Inv crates cbor name mainName := by
    intro call hrestart hprepare
    refine h.stepLp hrestart fun k n msg answer hin => h.last k n msg answer ?_
    have htrace : (w.stepLp crates cbor name lpName call).lpTrace = w.lpTrace := trace_step hprepare
    rwa [htrace] at hin
  cases op with
  | openQueue =>
    have hnewest := hallowed newest hmain.producing.stored.queueInfo
    exact h.moved ⟨newest + 1, hmain.openQueue hname hnewest⟩
      (hmain.committing_openQueue hname h.committing hnewest)
  | push m =>
    exact h.moved ⟨newest, hmain.push hname hallowed⟩
      (hmain.committing_push hname h.committing hallowed)
  | main call => exact h.stepMain hname hmainName call
  | getInfo => exact h.getInfo
  | lp call =>
    cases call with
    | restart => exact h.restartLp
    | prepare fatal =>
      change (if w.waits cbor then w else _).Inv crates cbor name mainName
      cases hwaits : w.waits cbor with
      | true => exact h
      | false => exact h.prepareLp hwaits hallowed
    | startBatch => exact hsame (nofun) (nofun)
    | popHeader => exact hsame (nofun) (nofun)
    | popBody => exact hsame (nofun) (nofun)
    | next => exact hsame (nofun) (nofun)
    | endBatch => exact hsame (nofun) (nofun)

/-- **Low-priority scripts run last** in every run in which the low-priority module runs no scripts
when its copy of the main consumer is exactly at its own place. -/
theorem lowPriorityLast_of_reached (hname : PlainName name) (hmainName : PlainName mainName)
    (h : Reached crates cbor name mainName lpName w) : w.LowPriorityLast crates name mainName := by
  have hinv : w.Inv crates cbor name mainName := by
    induction h with
    | start => exact inv_start crates cbor mainName hname
    | step op _ hallowed ih => exact ih.step hname hmainName hallowed
  exact hinv.last

/-! ## One message -/

/-- A run of small steps. -/
def run (ops : List ScriptOp) : ScriptModules :=
  ops.foldl (step lineCrates Onto.smallCrate.parser ['q'] ['m'] ['l']) (start lineCrates ['q'])

theorem reached_run {ops : List ScriptOp} (op : ScriptOp)
    (h : Reached lineCrates Onto.smallCrate.parser ['q'] ['m'] ['l'] (run ops))
    (hallowed : (run ops).Allowed lineCrates Onto.smallCrate.parser ['q'] ['m'] op) :
    Reached lineCrates Onto.smallCrate.parser ['q'] ['m'] ['l'] (run (ops ++ [op])) := by
  rw [run, List.foldl_append]
  exact h.step op hallowed

theorem allowed_prepare {fatal : Bool}
    (h : (w.lpConsumer.all fun my => w.mainQueueCs.all fun cs =>
      !decide (cs.id = my.id ∧ cs.countPopped = my.countPopped)) = true) :
    w.Allowed crates cbor name mainName (.lp (.prepare fatal)) := by
  intro my cs hmy hcs hat
  rw [hmy, hcs, Option.all_some, Option.all_some, decide_eq_true hat] at h
  exact Bool.false_ne_true h

/-- The main module commits a message, and the low-priority module takes it. -/
def mainFirst : List ScriptOp :=
  [.push Listener.smallMessage, .main .restart, .main .startBatch, .main .popHeader, .main .popBody,
    .main (.prepare false), .main .next, .lp .restart, .lp .startBatch, .lp .popHeader,
    .lp .popBody]

theorem reached_mainFirst :
    Reached lineCrates Onto.smallCrate.parser ['q'] ['m'] ['l'] (run mainFirst) := by
  have hparses : parses Onto.smallCrate.parser Listener.smallMessage.body = true := by
    decide +kernel
  have h₀ : Reached lineCrates Onto.smallCrate.parser ['q'] ['m'] ['l'] (run []) := .start
  have hpush : (run []).main.Allowed lineCrates Onto.smallCrate.parser ['q'] ['m']
      (.push Listener.smallMessage) := Listener.allowed_push hparses (by decide +kernel)
  have h₁ := reached_run (.push Listener.smallMessage) h₀ hpush
  have h₂ := reached_run (.main .restart) h₁ trivial
  have h₃ := reached_run (.main .startBatch) h₂ trivial
  have h₄ := reached_run (.main .popHeader) h₃ trivial
  have h₅ := reached_run (.main .popBody) h₄ trivial
  have h₆ := reached_run (.main (.prepare false)) h₅ trivial
  have h₇ := reached_run (.main .next) h₆ trivial
  have h₈ := reached_run (.lp .restart) h₇ trivial
  have h₉ := reached_run (.lp .startBatch) h₈ trivial
  have h₁₀ := reached_run (.lp .popHeader) h₉ trivial
  have h₁₁ := reached_run (.lp .popBody) h₁₀ trivial
  simpa only [mainFirst, List.nil_append, List.cons_append] using h₁₁

/-- The low-priority module runs the scripts for the message that was committed. -/
theorem lowPriorityLast_mainFirst :
    (run (mainFirst ++ [.lp (.prepare false)])).LowPriorityLast lineCrates ['q'] ['m'] :=
  lowPriorityLast_of_reached (by decide +kernel) (by decide +kernel)
    (reached_run _ reached_mainFirst (allowed_prepare (by decide +kernel)))

/-- The first message is run with low priority before the main module has taken it. -/
theorem not_lowPriorityLast_firstMessage :
    ¬ (run [.push Listener.smallMessage, .main .restart, .lp .restart, .lp .startBatch,
      .lp .popHeader, .lp .popBody, .lp (.prepare false)]).LowPriorityLast
        lineCrates ['q'] ['m'] := by
  intro hlast
  obtain ⟨count, id, ⟨pos, hread⟩, hfront⟩ :=
    hlast 0 0 Listener.smallMessage.body (.ok true) (by decide +kernel)
  have hempty : readPopInfo lineCrates ['q'] ['m'] (run [.push Listener.smallMessage,
      .main .restart, .lp .restart, .lp .startBatch, .lp .popHeader, .lp .popBody,
      .lp (.prepare false)]).main.disk.infoPop = some (0, 0, 0) := by
    decide +kernel
  rw [hempty] at hread
  cases hread
  omega

end ScriptModules

end Veda.V8
