import Veda.Mstorage.Operation
import Veda.Onto.Hierarchy
import Veda.Onto.Lazy
import Veda.Onto.State

set_option autoImplicit false

/-!
# The paths of events

A script that runs on the event of a document is a step, and the updates that it makes carry the
path of the steps that led to them: the step is put in front of the path of its own event, with a
semicolon between. A script does not run when its step is the last one of the path, and when the
path has its step more than `MAX_COUNT_LOOPS` times.

## Main definitions

* `V8.ScriptInfo`, `V8.MyContext` — event scripts.
* `V8.prepareForJs` — what is read of an element of the queue.
* `V8.startsScript` — whether a script runs, with the test for loops `isLooped`.
* `V8.CutOff` — the path of a cascade that is cut off.

## Main results

* `V8.parts_append` — the parts of a longer path.
* `V8.CutOff.step` — a step that is not looped.

## Design

The element is an individual that the consumer has decoded, the state in it is decoded as it is
asked. The scripts are those that `prepare_script` has compiled. The number of loops does not
overflow: an element of the queue has less than `2 ^ 32` bytes.
-/

namespace Veda.V8

open Veda.Lib Veda.Onto Veda.Mstorage

/-! ## Scripts -/

/-- `MAX_COUNT_LOOPS`. -/
def maxCountLoops : ℕ := 100

structure ScriptInfoContext where
  triggerByUid : List String
  triggerByType : List String
  preventByType : List String
  disallowChangingSource : Bool
  isUnsafe : Bool
  runAt : String

structure ScriptInfo where
  id : String
  /-- the script has been compiled -/
  compiledScript : Bool
  context : ScriptInfoContext

/-- What the program knows when it prepares an element. -/
structure MyContext where
  cbor : CborParser
  queueName : String
  vmId : String
  onto : Onto
  scripts : HashMap String ScriptInfo
  scriptsOrder : List String

/-- One of the types, or one of the types that they are under, is in the list. -/
def entersSome (onto : Onto) (indvTypes types : List String) : Bool :=
  indvTypes.any fun indvType => indvType ∈ types || onto.isSomeEntered indvType types

def isFilterPass (script : ScriptInfo) (individualId : String) (indvTypes : List String)
    (onto : Onto) : Bool :=
  let context := script.context
  if !context.preventByType.isEmpty && entersSome onto indvTypes context.preventByType then false
  else if context.triggerByUid.isEmpty && context.triggerByType.isEmpty then true
  else
    (!context.triggerByUid.isEmpty && individualId ∈ context.triggerByUid) ||
      (!context.triggerByType.isEmpty && entersSome onto indvTypes context.triggerByType)

/-! ## Elements -/

/-- `get_cmd`. -/
def getCmd (e : State) : Option IndvOp := (e.get .getFirstInteger "cmd").map .fromI64

/-- `get_inner_binobj_as_individual`. -/
def getInnerBinobjAsIndividual (cbor : CborParser) (e : State) (fieldName : String) : Individual :=
  match e.get .getFirstBinobj fieldName with
  | some binobj => ((Individual.newRaw (.new binobj)).parseRaw cbor).2
  | none => .newRaw (.new [])

/-- What is read of an element before the scripts are looked at. -/
structure Handling where
  src : String
  eventId : String
  runAt : String
  docId : String
  rdfTypes : List String

/-- The types of documents that no script sees. -/
def ignoredTypes : List String := ["v-s:PermissionStatement", "v-s:Membership"]

/-- `prepare_for_js` up to the scripts; `none` when it returns. -/
def prepareForJs (ctx : MyContext) (e : State) : Option Handling :=
  let src := (e.get .getFirstLiteral "src").getD ""
  if src ≠ "?" && ctx.queueName ≠ src then none
  else
    match getCmd e with
    | none => none
    | some .remove => none
    | some _ =>
      let newState := getInnerBinobjAsIndividual ctx.cbor e "new_state"
      match newState.get ctx.cbor .getLiterals "rdf:type" with
      | (.error _, _) => none
      | (.ok types, newState) =>
        let rdfTypes := types.getD []
        if rdfTypes.any (· ∈ ignoredTypes) then none
        else some {
          src
          eventId := (e.get .getFirstLiteral "event_id").getD ""
          runAt := (e.get .getFirstLiteral "v-s:runAt").getD ""
          docId := newState.obj.uri
          rdfTypes }

theorem eventId_of_prepareForJs {ctx : MyContext} {e : State} {h : Handling}
    (hprepare : prepareForJs ctx e = some h) :
    h.eventId = (e.get .getFirstLiteral "event_id").getD "" := by
  unfold prepareForJs at hprepare
  dsimp only at hprepare
  split_ifs at hprepare
  split at hprepare
  · cases hprepare
  · cases hprepare
  · split at hprepare
    · cases hprepare
    · split_ifs at hprepare
      rw [← Option.some.inj hprepare]

/-! ## Steps -/

/-- A script that runs on the event of a document. -/
structure Step where
  docId : String
  scriptId : String
  deriving DecidableEq

/-- `run_script_id`. -/
def Step.id (s : Step) : String := s.docId ++ "+" ++ s.scriptId

/-- The parts between the semicolons. -/
def parts (eventId : String) : List String := (eventId.toList.splitOn ';').map String.ofList

/-- The event id of the updates of a step. -/
def Step.eventId (s : Step) (eventId : String) : String := s.id ++ ";" ++ eventId

/-- The script is skipped since the sequence is looped. -/
def isLooped (eventId runScriptId : String) : Bool :=
  let fullPathEls := parts eventId
  let lastPartEventId := fullPathEls.head?.getD ""
  !eventId.isEmpty &&
    ((lastPartEventId == runScriptId || lastPartEventId == "IGNORE") ||
      fullPathEls.count runScriptId > maxCountLoops)

/-- The script is one of this machine; asked when the update has no source. -/
def runsAt (ctx : MyContext) (h : Handling) (script : ScriptInfo) : Bool :=
  if h.runAt.isEmpty then script.context.runAt = ctx.vmId else h.runAt = ctx.vmId

/-- The script that runs, when it does. -/
def startsScript (ctx : MyContext) (h : Handling) (scriptId : String) : Option ScriptInfo :=
  (ctx.scripts.lookup scriptId).filter fun script =>
    script.compiledScript && (h.src ≠ "?" || runsAt ctx h script) &&
      isFilterPass script h.docId h.rdfTypes ctx.onto &&
      (script.context.isUnsafe || !isLooped h.eventId (Step.id ⟨h.docId, scriptId⟩))

/-! ## Paths -/

/-- The path of steps, the last one first, that follow an event. -/
def pathOf (steps : List Step) (root : String) : String := steps.foldr Step.eventId root

/-- The path of a cascade that is cut off: no step follows itself, and none occurs more than
`MAX_COUNT_LOOPS + 1` times. -/
structure CutOff (steps : List Step) (root path : String) : Prop where
  path_eq : path = pathOf steps root
  chain : (steps.map Step.id ++ (parts root).take 1).IsChain (· ≠ ·)
  count : ∀ s ∈ steps, (parts path).count s.id ≤ maxCountLoops + 1

/-- The ids of the step have no semicolon. -/
def Step.Plain (s : Step) : Prop := ';' ∉ s.docId.toList ∧ ';' ∉ s.scriptId.toList

theorem Step.id_ne_empty (s : Step) : s.id ≠ "" := by
  intro h
  have hlist := congrArg String.toList h
  simp [Step.id] at hlist

theorem Step.Plain.id {s : Step} (h : s.Plain) : ';' ∉ s.id.toList := by
  simp [Step.id, h.1, h.2]

/-- **The parts of a longer path.** -/
theorem parts_append {s : Step} (h : s.Plain) (eventId : String) :
    parts (s.eventId eventId) = s.id :: parts eventId := by
  have htext : (s.eventId eventId).toList = s.id.toList ++ ';' :: eventId.toList := by
    simp [Step.eventId]
  rw [parts, htext, List.splitOn_append_cons_self_of_not_mem h.id, List.map_cons,
    String.ofList_toList, parts]

theorem parts_empty : parts "" = [""] := rfl

theorem parts_pathOf {steps : List Step} (h : ∀ s ∈ steps, s.Plain) (root : String) :
    parts (pathOf steps root) = steps.map Step.id ++ parts root := by
  induction steps with
  | nil => rfl
  | cons s steps ih =>
    rw [show pathOf (s :: steps) root = s.eventId (pathOf steps root) from rfl,
      parts_append (h s List.mem_cons_self), ih fun s' hs' => h s' (List.mem_cons_of_mem _ hs'),
      List.map_cons, List.cons_append]

theorem of_not_isLooped {eventId : String} {s : Step} (h : isLooped eventId s.id = false) :
    (parts eventId).head? ≠ some s.id ∧ (parts eventId).count s.id ≤ maxCountLoops := by
  unfold isLooped at h
  rw [Bool.and_eq_false_iff, Bool.not_eq_false'] at h
  rcases h with hempty | hparts
  · rw [String.isEmpty_iff] at hempty
    rw [hempty, parts_empty, List.head?_cons, List.count_singleton]
    refine ⟨fun heq => s.id_ne_empty (Option.some.inj heq).symm, ?_⟩
    split_ifs <;> decide
  · rw [Bool.or_eq_false_iff, Bool.or_eq_false_iff, beq_eq_false_iff_ne,
      decide_eq_false_iff_not, not_lt] at hparts
    obtain ⟨⟨hlast, -⟩, hcount⟩ := hparts
    refine ⟨fun heq => ?_, hcount⟩
    rw [heq] at hlast
    exact hlast rfl

/-- **A step that is not looped** keeps the path cut off. -/
theorem CutOff.step {steps : List Step} {root path : String} (h : CutOff steps root path)
    (hsteps : ∀ s ∈ steps, s.Plain) {s : Step} (hs : s.Plain)
    (hloop : isLooped path s.id = false) : CutOff (s :: steps) root (s.eventId path) := by
  obtain ⟨hhead, hcount⟩ := of_not_isLooped hloop
  have hparts : parts path = steps.map Step.id ++ parts root := by
    rw [h.path_eq, parts_pathOf hsteps]
  refine ⟨?_, ?_, fun t ht => ?_⟩
  · rw [h.path_eq]
    rfl
  · rw [List.map_cons, List.cons_append, List.isChain_cons]
    refine ⟨fun next hnext heq => hhead ?_, h.chain⟩
    rw [hparts, heq]
    cases steps with
    | nil =>
      cases hroot : parts root with
      | nil =>
        rw [hroot] at hnext
        cases hnext
      | cons part rest =>
        rw [hroot] at hnext
        exact hnext
    | cons s' steps => exact hnext
  · rw [parts_append hs, List.count_cons]
    by_cases heq : s.id = t.id
    · rw [heq] at hcount ⊢
      rw [if_pos (beq_self_eq_true _)]
      omega
    · rw [if_neg (by rwa [beq_iff_eq])]
      rcases List.mem_cons.mp ht with rfl | hmem
      · exact absurd rfl heq
      · exact h.count t hmem

end Veda.V8
