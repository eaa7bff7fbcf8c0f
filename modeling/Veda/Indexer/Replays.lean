import Veda.Indexer.Visits

set_option autoImplicit false

/-!
# Changes that are read twice

The indexer applies a change by a series of writes and saves its position in the queue after the
last of them. When it stops in between and is started again, the change is handled once more, from
its first write. Every start also grants the system account its right again, since the record that
it looks for is not the one that it writes.

## Main definitions

* `Indexer.Element` — a change in the queue.
* `Indexer.Machine` — what outlives a stop: the index and the saved position.
* `Indexer.Machine.life` — what one life of the program does, from its start on.
* `Indexer.Machine.run` — a run with stops.

## Main results

* `Indexer.sameAsUnstopped_of_stopsClean` — stops between two elements change nothing.
-/

namespace Veda.Indexer

open Veda.Lib Veda.Onto Veda.Authorization

/-! ## Elements of the queue -/

/-- A change in the queue: the two states of an individual. -/
structure Element where
  prev : Statement
  new : Statement

namespace Element

/-- One of the states has a type. -/
def hasType (el : Element) (type : String) : Bool :=
  el.new.answer (.anyExists [type]) "rdf:type" || el.prev.answer (.anyExists [type]) "rdf:type"

/-- What is indexed of the individual of an element. -/
def kind (el : Element) : Option Kind :=
  if el.hasType "v-s:PermissionStatement" then some .permissionStatement
  else if el.hasType "v-s:Membership" then some .membership
  else if el.hasType "v-s:PermissionFilter" then some .permissionFilter
  else none

/-- The handling of an element, up to the number that is put into the info file. -/
def prepare (el : Element) (ctx : Context) : Except Panic Context :=
  match el.kind with
  | some k => k.prepare el.prev.obj el.new.obj ctx
  | none => .ok ctx

/-- The writes of an element. -/
def visits (el : Element) : List Visit :=
  match el.kind with
  | some k => k.visits el.prev el.new
  | none => []

theorem prepare_eq (el : Element) (ctx : Context) :
    el.prepare ctx = .ok (el.visits.foldl write ctx) := by
  unfold prepare visits
  cases el.kind with
  | none => rfl
  | some k => exact k.prepare_eq el.prev el.new ctx

end Element

/-! ## One life of the program -/

/-- The statement about the system account that the start of the program looks after. -/
def sysPermission : Statement :=
  (((Statement.empty.addValue "rdf:type" .uri (.uri "v-s:PermissionStatement")).addValue
    "v-s:canCreate" .boolean (.bool true)).addValue
    "v-s:permissionSubject" .uri (.uri "cfg:VedaSystem")).addValue
    "v-s:permissionObject" .uri (.uri "v-s:AllResourcesGroup")

/-- The writes of a start. -/
def startVisits (storage : HashMap String String) : List Visit :=
  if (storage.lookup "Pcfg:VedaSystem").isNone then
    Kind.permissionStatement.visits .empty sysPermission
  else []

/-- What outlives a stop of the program: the index and the saved position in the queue. -/
structure Machine where
  ctx : Context
  position : ℕ

/-- What the program does between two places where it may stop. -/
inductive Action
  /-- a write of the start, which is made in the format `2` -/
  | begin (v : Visit)
  | write (v : Visit)
  /-- the position behind an element is saved -/
  | save

namespace Machine

/-- The machine after an action. -/
def perform (m : Machine) : Action → Machine
  | .begin v =>
    { m with ctx := { write { m.ctx with versionOfIndexFormat := 2 } v with
      versionOfIndexFormat := m.ctx.versionOfIndexFormat } }
  | .write v => { m with ctx := Indexer.write m.ctx v }
  | .save => { m with position := m.position + 1 }

/-- What is done for an element. -/
def actions (el : Element) : List Action := el.visits.map .write ++ [.save]

/-- What one life of the program does, from its start to the end of the queue. -/
def life (queue : List Element) (m : Machine) : List Action :=
  (startVisits m.ctx.storage).map .begin ++ (queue.drop m.position).flatMap actions

/-- The machine after some actions of a life. -/
def stopAfter (queue : List Element) (n : ℕ) (m : Machine) : Machine :=
  ((m.life queue).take n).foldl perform m

/-- A run in which each of some lives is stopped after a number of actions, and the last comes to
the end of the queue. -/
def run (queue : List Element) : List ℕ → Machine → Machine
  | [], m => (m.life queue).foldl perform m
  | n :: stops, m => run queue stops (m.stopAfter queue n)

/-! ## Stops between two elements -/

/-- A life that is stopped before it has done anything; or after its start and some elements, each
to its end, and the next start has nothing to write. -/
def StopClean (queue : List Element) (n : ℕ) (m : Machine) : Prop :=
  n = 0 ∨ startVisits (m.stopAfter queue n).ctx.storage = [] ∧
    ∃ done, (m.life queue).take n = (startVisits m.ctx.storage).map .begin ++
      ((queue.drop m.position).take done).flatMap actions

/-- All stops of a run are such ones. -/
def StopsClean (queue : List Element) : List ℕ → Machine → Prop
  | [], _ => True
  | n :: stops, m => m.StopClean queue n ∧ StopsClean queue stops (m.stopAfter queue n)

theorem position_begin (vs : List Visit) (m : Machine) :
    ((vs.map Action.begin).foldl perform m).position = m.position := by
  induction vs generalizing m with
  | nil => rfl
  | cons v vs ih => exact ih _

theorem position_write (vs : List Visit) (m : Machine) :
    ((vs.map Action.write).foldl perform m).position = m.position := by
  induction vs generalizing m with
  | nil => rfl
  | cons v vs ih => exact ih _

theorem position_actions (els : List Element) (m : Machine) :
    ((els.flatMap actions).foldl perform m).position = m.position + els.length := by
  induction els generalizing m with
  | nil => rfl
  | cons el els ih =>
    rw [List.flatMap_cons, List.foldl_append, ih, actions, List.foldl_append, List.length_cons]
    change ((el.visits.map Action.write).foldl perform m).position + 1 + els.length = _
    rw [position_write]
    omega

theorem StopClean.foldl_life {queue : List Element} {n : ℕ} {m : Machine}
    (h : m.StopClean queue n) :
    ((m.stopAfter queue n).life queue).foldl perform (m.stopAfter queue n) =
      (m.life queue).foldl perform m := by
  rcases h with rfl | ⟨hstart, done, htake⟩
  · rfl
  · have hposition : (m.stopAfter queue n).position =
        m.position + ((queue.drop m.position).take done).length := by
      rw [stopAfter, htake, List.foldl_append, position_actions, position_begin]
    have hrest : queue.drop (m.stopAfter queue n).position =
        (queue.drop m.position).drop done := by
      rw [hposition, ← List.drop_drop, List.length_take]
      rcases Nat.le_total done (queue.drop m.position).length with hle | hle
      · rw [Nat.min_eq_left hle]
      · rw [Nat.min_eq_right hle, List.drop_length, List.drop_of_length_le hle]
    have hlife : m.life queue = (m.life queue).take n ++
        ((queue.drop m.position).drop done).flatMap actions := by
      rw [htake, List.append_assoc, ← List.flatMap_append, List.take_append_drop]
      rfl
    rw [life, hstart, List.map_nil, List.nil_append, hrest]
    conv_rhs => rw [hlife, List.foldl_append]
    rfl

end Machine

/-! ## The index after a run -/

/-- What the record of a key says about a subject: its access byte, its mark and the references
of each bit. -/
def decodedAt (ctx : Context) (key s : String) : Option (U8 × Char × (Access → ℕ)) :=
  ((entriesAt ctx key).lookup s).map fun r => (r.access, r.marker, refs r)

/-- The index that a run leaves is that of the run without stops. -/
def SameAsUnstopped (queue : List Element) (stops : List ℕ) (m : Machine) : Prop :=
  ∀ key s, decodedAt (Machine.run queue stops m).ctx key s =
    decodedAt (Machine.run queue [] m).ctx key s

theorem run_eq_of_stopsClean (queue : List Element) (stops : List ℕ) (m : Machine)
    (h : Machine.StopsClean queue stops m) :
    Machine.run queue stops m = Machine.run queue [] m := by
  induction stops generalizing m with
  | nil => rfl
  | cons n stops ih =>
    obtain ⟨hclean, hrest⟩ := h
    calc Machine.run queue (n :: stops) m
        = Machine.run queue [] (m.stopAfter queue n) := ih _ hrest
      _ = Machine.run queue [] m := hclean.foldl_life

/-- **A change is counted once** in every run whose stops come before a start has done anything, or
between two elements when the next start has nothing to write.

**Proof sketch.** At such a stop the saved position is that of the next element, and nothing is
written before it, so the next life does exactly what the stopped one has left
(`StopClean.foldl_life`). -/
theorem sameAsUnstopped_of_stopsClean (queue : List Element) (stops : List ℕ) (m : Machine)
    (h : Machine.StopsClean queue stops m) : SameAsUnstopped queue stops m := by
  intro key s
  rw [run_eq_of_stopsClean queue stops m h]

/-- A new statement about reading, on one object for one subject. -/
def newReading (object subject : String) : Element where
  prev := .empty
  new := (((Statement.empty.addValue "rdf:type" .uri (.uri "v-s:PermissionStatement")).addValue
    "v-s:canRead" .boolean (.bool true)).addValue
    "v-s:permissionSubject" .uri (.uri subject)).addValue
    "v-s:permissionObject" .uri (.uri object)

/-- The program has never run. -/
def Machine.initial (orders : ℕ → HashOrder) : Machine := ⟨⟨∅, 2, orders⟩, 0⟩

/-- A stop behind an element that writes the record the start looks for. -/
theorem sameAsUnstopped_systemRecord :
    SameAsUnstopped [newReading "cfg:VedaSystem" "d:user", newReading "d:doc" "d:user"] [3]
      (.initial fun _ => .stored) :=
  sameAsUnstopped_of_stopsClean _ _ _ ⟨.inr ⟨by decide, 1, rfl⟩, trivial⟩

/-- A program that is stopped between the write for a statement and the save of its position
counts the statement twice. -/
theorem not_sameAsUnstopped_newReading :
    ¬ ∀ (queue : List Element) (stops : List ℕ) (orders : ℕ → HashOrder),
      SameAsUnstopped queue stops (.initial orders) := by
  intro h
  have hsame := congrArg (Option.map fun d => d.2.2 .canRead)
    (h [newReading "d:doc" "d:user"] [2] (fun _ => .stored) "Pd:doc" "d:user")
  revert hsame
  decide

end Veda.Indexer
