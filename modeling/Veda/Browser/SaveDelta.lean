import Veda.Browser.UpdateService
import Veda.Mstorage.PartialCommands

set_option autoImplicit false

/-!
# Saving an edited document

The browser saves an individual that is stored already by the difference between the edited
document and the original one, after `individual_model.js` and `util.js`: what was added, what
differs and what is missing are sent to the storage as three commands. The comparison asks for each
original value whether the edited document has it, with a notion of equality that looks at the type
and at the data; the language, and an edited value that was not there, are not looked at.

## Main definitions

* `Browser.diff` — the difference between two documents.
* `Browser.sent` — the commands that `save` sends.
* `Browser.served` — what the storage holds after a command.
* `Browser.Kept` — the difference does not lose the values of a predicate.

## Main results

* `Browser.lookup_afterAll` — what all commands together leave, in any order.
* `Browser.saved_iff` — the edited document is stored if and only if no predicate is lost.

## Design

The values of a document are those that the server reads from it and writes to it; what the browser
shows of their data is a function of them. A document is a plain object, so that the names of its
prototype are found in it: a value under such a name is never found missing or added, and under
`__proto__` nothing can be assigned.
-/

namespace Veda.Browser

open Veda.Lib Veda.Onto
open Veda.Mstorage (IndvOp indvApplyCmd applyPredicate lookup_indvApplyCmd isEmpty_of_lookup
  valuesOf_of_lookup applyPredicate_of_none mem_content_pushUnique)

/-! ## Values as the browser shows them -/

/-- The data of a value in the browser, under `valueOf`. -/
inductive Data (N : Type)
  | text (s : String)
  | number (x : N)
  | bool (b : Bool)
  | date (seconds : Int64)
  deriving DecidableEq

/-- How the browser reads the values of the server. -/
structure View (N : Type) where
  /-- the number of a decimal -/
  number : Int64 → Int64 → N
  /-- the text of a value in a message -/
  textOf : Value → String
  /-- the value of the edited document was made a number or a date -/
  revived : Resource → Bool

/-- A document: the values of its predicates. -/
abbrev Document := HashMap String (List Resource)

section Comparing

variable {N : Type} [DecidableEq N] (view : View N)

/-- The data of a value. Decimals and dates come as texts and are revived by
`decimalDatetimeReviver`. -/
def View.data (revived : Bool) : Value → Data N
  | .str s _ => .text s
  | .uri s => .text s
  | .bool b => .bool b
  | .int i => .number (view.number i 0)
  | .num m e => if revived then .number (view.number m e) else .text (view.textOf (.num m e))
  | .datetime i => if revived then .date i else .text (view.textOf (.datetime i))
  | .binary b => .text (view.textOf (.binary b))

/-- `veda.Util.hasValue` of a value of the original document. -/
def hasValue (changed : List Resource) (value : Resource) : Bool :=
  changed.any fun i =>
    i.rtype = value.rtype && view.data (view.revived i) i.value = view.data true value.value

/-- The comparison of two lists of values finds no difference. -/
def passes (changed base : List Resource) : Bool :=
  base.length = changed.length && base.all (hasValue view changed)

end Comparing

/-! ## The difference -/

/-- The predicates of a document for which `keep` holds. -/
def Document.only (d : Document) (keep : String → Bool) : Document :=
  ⟨d.entries.filter fun e => keep e.1, d.nodupKeys.sublist List.filter_sublist⟩

/-- `key in d`. -/
def Document.has (d : Document) (key : String) : Bool :=
  (d.lookup key).isSome || objectNames.contains key

/-- The `length` of what every plain object inherits under a name. -/
def inheritedLength (key : String) : Option ℕ :=
  if key ∈ ["toLocaleString", "toString", "valueOf"] then some 0
  else if key ∈ ["__defineGetter__", "__defineSetter__"] then some 2
  else if key ∈ ["constructor", "hasOwnProperty", "isPrototypeOf", "propertyIsEnumerable",
    "__lookupGetter__", "__lookupSetter__"] then some 1
  else none

structure Delta where
  added : Document
  missing : Document
  differ : Document

section Diff

variable {N : Type} [DecidableEq N] (view : View N)

/-- The comparison calls `filter` on a function. -/
def throws (changed base : Document) : Bool :=
  base.keys.any fun key =>
    (changed.lookup key).isNone && !((base.lookup key).getD []).isEmpty &&
      inheritedLength key = some ((base.lookup key).getD []).length

/-- The values of a predicate of both documents differ. -/
def differs (changed base : Document) (key : String) : Bool :=
  match base.lookup key, changed.lookup key with
  | some values, some values' => !passes view values' values
  | _, _ => false

def addedPart (changed base : Document) : Document := changed.only fun key => !base.has key

def missingPart (changed base : Document) : Document := base.only fun key => !changed.has key

/-- What differs. What the comparison takes from the prototype are functions, which no message
can hold, and an assignment to `__proto__` makes no property. -/
def differPart (changed base : Document) : Document :=
  changed.only fun key => differs view changed base key && key ≠ "__proto__"

/-- `veda.Util.diff`. -/
def diff (changed base : Document) : Option Delta :=
  if throws changed base then none
  else some ⟨addedPart changed base, missingPart changed base, differPart view changed base⟩

/-- `save` keeps a value: its data is not empty. -/
def isFilled (r : Resource) : Bool := view.data (view.revived r) r.value ≠ .text ""

/-- The document that `save` compares: without empty values and without predicates that have no
other ones. -/
def cleaned (d : Document) : Document :=
  Document.only
    ⟨d.entries.map fun e => ⟨e.1, e.2.filter (isFilled view)⟩, by
      have h := d.nodupKeys
      rw [List.NodupKeys, List.keys] at h ⊢
      rwa [List.map_map]⟩
    fun key => !(((d.lookup key).getD []).filter (isFilled view)).isEmpty

/-- The commands that `save` sends: parts without predicates are not sent. -/
def sent (uri : String) (changed original : Document) : List (IndvOp × IndividualObj) :=
  match diff view (cleaned view changed) original with
  | none => []
  | some delta =>
    [(.addTo, ⟨uri, delta.added⟩), (.setIn, ⟨uri, delta.differ⟩),
      (.removeFrom, ⟨uri, delta.missing⟩)].filter fun c => !c.2.isEmpty

end Diff

/-! ## The storage -/

/-- A command as the storage serves it. -/
structure Call where
  cmd : IndvOp
  indv : IndividualObj
  /-- the order in which its predicates are visited -/
  order : IterOrder String
  updCounter : Int64

/-- What is stored after a command. -/
def served (prev : IndividualObj) (call : Call) : IndividualObj :=
  (indvApplyCmd call.order call.cmd prev call.indv).setInteger "v-s:updateCounter" call.updCounter

/-! ## The property -/

/-- Two lists have the same values, with their types and languages. -/
def SameValues (l l' : List Resource) : Prop :=
  ∀ c, c ∈ l.map Resource.content ↔ c ∈ l'.map Resource.content

/-- The storage holds the edited document, but for its counter. -/
def Holds (stored : IndividualObj) (edited : Document) : Prop :=
  ∀ p, p ≠ "v-s:updateCounter" → SameValues (stored.valuesOf p) ((edited.lookup p).getD [])

/-- A document without empty values. -/
def Filled {N : Type} [DecidableEq N] (view : View N) (d : Document) : Prop :=
  ∀ p rs, d.lookup p = some rs → rs ≠ [] ∧ ∀ r ∈ rs, isFilled view r

/-- **The difference does not lose a predicate**: when the comparison of its values passes, the two
lists have the same values, and what is added or missing is not named like something that every
object inherits. -/
def Kept {N : Type} [DecidableEq N] (view : View N) (edited original : Document) (p : String) :
    Prop :=
  match original.lookup p, edited.lookup p with
  | none, none => True
  | some values, some values' =>
    passes view values' values ∨ p = "__proto__" → SameValues values values'
  | _, _ => p ∉ objectNames

/-! ## The parts of a difference -/

section Parts

theorem lookup_only (d : Document) (keep : String → Bool) (p : String) :
    (d.only keep).lookup p = if keep p then d.lookup p else none := by
  refine Option.ext fun rs => ?_
  have hmem : rs ∈ (d.only keep).lookup p ↔ ⟨p, rs⟩ ∈ d.entries ∧ keep p := by
    rw [AList.mem_lookup_iff, Document.only, List.mem_filter]
  rw [← Option.mem_def, hmem, ← AList.mem_lookup_iff, Option.mem_def]
  split_ifs with h
  · exact and_iff_left h
  · simp [h]

variable {N : Type} [DecidableEq N] {view : View N}

theorem cleaned_of_filled {d : Document} (h : Filled view d) : cleaned view d = d := by
  have hkeep : ∀ e ∈ d.entries, e.2 ≠ [] ∧ e.2.filter (isFilled view) = e.2 := by
    intro e he
    obtain ⟨hne, hall⟩ := h e.1 e.2 (AList.mem_lookup_iff.mpr he)
    exact ⟨hne, List.filter_eq_self.mpr hall⟩
  have hmap : (d.entries.map fun e => (⟨e.1, e.2.filter (isFilled view)⟩ : Sigma fun _ => _)) =
      d.entries := by
    conv_rhs => rw [← List.map_id d.entries]
    refine List.map_congr_left fun e he => ?_
    rw [(hkeep e he).2]
    rfl
  refine AList.ext ?_
  rw [cleaned, Document.only]
  dsimp only
  rw [hmap]
  refine List.filter_eq_self.mpr fun e he => ?_
  have hlookup : d.lookup e.1 = some e.2 := AList.mem_lookup_iff.mpr he
  rw [hlookup, Option.getD_some, (hkeep e he).2]
  simpa using (hkeep e he).1

theorem has_of_lookup {d : Document} {p : String} {rs : List Resource}
    (h : d.lookup p = some rs) : d.has p = true := by
  rw [Document.has, h]
  rfl

theorem has_eq_false_iff {d : Document} {p : String} (h : d.lookup p = none) :
    d.has p = false ↔ p ∉ objectNames := by
  rw [Document.has, h, Option.isSome_none, Bool.false_or, Bool.eq_false_iff, Ne,
    List.contains_iff_mem]

end Parts

/-! ## What commands leave -/

section Serving

/-- Two commands have no predicate in common. -/
def Apart (c c' : IndvOp × IndividualObj) : Prop :=
  ∀ p, c.2.resources.lookup p = none ∨ c'.2.resources.lookup p = none

theorem Apart.symm {c c' : IndvOp × IndividualObj} (h : Apart c c') : Apart c' c :=
  fun p => (h p).symm

theorem isEmpty_served (prev : IndividualObj) (call : Call) :
    (served prev call).isEmpty = false :=
  isEmpty_of_lookup (p := "v-s:updateCounter") (IndividualObj.lookup_setValue _ _ _ _ _)

theorem lookup_served {prev : IndividualObj} (hprev : prev.isEmpty = false) (call : Call)
    {p : String} (hp : p ≠ "v-s:updateCounter") :
    (served prev call).resources.lookup p =
      (applyPredicate call.cmd call.indv prev p).resources.lookup p := by
  rw [served, IndividualObj.setInteger, IndividualObj.lookup_setValue, if_neg hp,
    lookup_indvApplyCmd _ _ _ hprev]

theorem lookup_afterAll_of_none {prev : IndividualObj} (hprev : prev.isEmpty = false)
    {calls : List Call} {p : String} (hp : p ≠ "v-s:updateCounter")
    (hnone : ∀ call ∈ calls, call.indv.resources.lookup p = none) :
    (calls.foldl served prev).resources.lookup p = prev.resources.lookup p := by
  induction calls generalizing prev with
  | nil => rfl
  | cons call calls ih =>
    rw [List.foldl_cons, ih (isEmpty_served prev call) fun c hc => hnone c (.tail _ hc),
      lookup_served hprev call hp, applyPredicate_of_none (hnone call List.mem_cons_self)]

/-- **What all commands together leave**: a predicate has what the command that has it makes of the
values stored first.

**Proof sketch.** The other commands do not have the predicate: those before leave what was stored
first, those after leave what the command made of it. -/
theorem lookup_afterAll {prev : IndividualObj} (hprev : prev.isEmpty = false)
    {calls : List Call}
    (hapart : calls.Pairwise fun c c' => Apart (c.cmd, c.indv) (c'.cmd, c'.indv))
    {call : Call} (hcall : call ∈ calls) {p : String} (hp : p ≠ "v-s:updateCounter")
    (hsome : call.indv.resources.lookup p ≠ none) :
    (calls.foldl served prev).resources.lookup p =
      (applyPredicate call.cmd call.indv prev p).resources.lookup p := by
  induction calls generalizing prev with
  | nil => cases hcall
  | cons c calls ih =>
    rw [List.pairwise_cons] at hapart
    rw [List.foldl_cons]
    rcases List.mem_cons.mp hcall with rfl | hmem
    · have hnone : ∀ c' ∈ calls, c'.indv.resources.lookup p = none := fun c' hc' =>
        (hapart.1 c' hc' p).resolve_left hsome
      rw [lookup_afterAll_of_none (isEmpty_served prev call) hp hnone, lookup_served hprev call hp]
    · have hsame : (served prev c).resources.lookup p = prev.resources.lookup p := by
        have hnone := (hapart.1 call hmem p).resolve_right hsome
        rw [lookup_served hprev c hp, applyPredicate_of_none hnone]
      rw [ih (isEmpty_served prev c) hapart.2 hmem]
      exact Mstorage.lookup_applyPredicate_congr _ _ hsame

theorem lookup_addTo {indv prev : IndividualObj} {p : String} {rs : List Resource}
    (hp : p ≠ "v-s:updateCounter") (h : indv.resources.lookup p = some rs)
    (hnone : prev.resources.lookup p = none) :
    (applyPredicate .addTo indv prev p).resources.lookup p =
      some (IndividualObj.pushUnique [] rs) := by
  rw [Mstorage.lookup_addTo hp h, IndividualObj.valuesOf, hnone]
  rfl

theorem lookup_removeFrom {indv prev : IndividualObj} {p : String} {rs : List Resource}
    (hp : p ≠ "v-s:updateCounter") (h : indv.resources.lookup p = some rs)
    (hprev : prev.resources.lookup p = some rs) :
    (applyPredicate .removeFrom indv prev p).resources.lookup p = none := by
  have hall : ∀ el ∈ rs, (rs.any fun r => r.content = el.content) = true := fun el hel =>
    List.any_eq_true.mpr ⟨el, hel, decide_eq_true rfl⟩
  rw [Mstorage.lookup_removeFrom hp h, valuesOf_of_lookup hprev,
    if_pos (List.all_eq_true.mpr hall)]

theorem SameValues.refl (l : List Resource) : SameValues l l := fun _ => Iff.rfl

theorem sameValues_pushUnique (rs : List Resource) :
    SameValues (IndividualObj.pushUnique [] rs) rs := by
  intro c
  simp only [List.mem_map]
  rw [mem_content_pushUnique]
  simp

theorem not_sameValues_nil {l : List Resource} (h : l ≠ []) :
    ¬SameValues l [] ∧ ¬SameValues [] l := by
  obtain ⟨r, l, rfl⟩ := List.exists_cons_of_ne_nil h
  exact ⟨fun hsame => List.not_mem_nil ((hsame r.content).mp List.mem_cons_self),
    fun hsame => List.not_mem_nil ((hsame r.content).mpr List.mem_cons_self)⟩

end Serving

theorem lost_of_throws {edited original : Document} (hthrows : throws edited original = true) :
    ∃ p rs, original.lookup p = some rs ∧ edited.lookup p = none ∧ rs ≠ [] ∧
      p ∈ objectNames := by
  obtain ⟨p, hp, h⟩ := List.any_eq_true.mp hthrows
  obtain ⟨rs, hrs⟩ := Option.isSome_iff_exists.mp
    (AList.lookup_isSome.mpr (AList.mem_keys.mpr hp))
  rw [hrs, Option.getD_some, Bool.and_eq_true, Bool.and_eq_true, Option.isNone_iff_eq_none,
    Bool.not_eq_true', List.isEmpty_eq_false_iff] at h
  refine ⟨p, rs, hrs, h.1.1, h.1.2, ?_⟩
  by_contra hnot
  have hnone : inheritedLength p = none := by
    simp only [objectNames, List.mem_cons, List.not_mem_nil, or_false, not_or] at hnot
    simp [inheritedLength, hnot]
  rw [hnone] at h
  cases of_decide_eq_true h.2

/-! ## Saving -/

section Saving

variable {N : Type} [DecidableEq N] {view : View N} {edited original : Document} {uri : String}

theorem pairwise_sent : (sent view uri edited original).Pairwise Apart := by
  unfold sent diff
  split
  · exact .nil
  · next delta h =>
    split_ifs at h
    obtain rfl := Option.some.inj h
    refine List.Pairwise.filter _ ?_
    have hadded : ∀ p, (addedPart (cleaned view edited) original).lookup p = none ∨
        original.lookup p = none := by
      intro p
      rw [addedPart, lookup_only]
      cases horiginal : original.lookup p with
      | none => exact .inr rfl
      | some rs => simp [has_of_lookup horiginal]
    simp only [List.pairwise_cons, List.mem_cons, List.not_mem_nil, or_false, forall_eq_or_imp,
      forall_eq, IsEmpty.forall_iff, implies_true, List.Pairwise.nil, and_true]
    refine ⟨⟨fun p => (hadded p).imp_right fun hnone => ?_,
      fun p => (hadded p).imp_right fun hnone => ?_⟩, fun p => ?_⟩
    · rw [differPart, lookup_only, differs, hnone]
      rfl
    · rw [missingPart, lookup_only, hnone, ite_self]
    · rw [differPart, missingPart, lookup_only, lookup_only, differs]
      cases hedited : (cleaned view edited).lookup p with
      | none =>
        left
        exact ite_self _
      | some rs =>
        right
        simp [has_of_lookup hedited]

variable (hedited : Filled view edited)
include hedited

theorem sent_eq (hthrows : throws edited original = false) :
    sent view uri edited original =
      [(IndvOp.addTo, (⟨uri, addedPart edited original⟩ : IndividualObj)),
        (.setIn, ⟨uri, differPart view edited original⟩),
        (.removeFrom, ⟨uri, missingPart edited original⟩)].filter fun c => !c.2.isEmpty := by
  rw [sent, cleaned_of_filled hedited, diff, hthrows]
  rfl

variable {prev : IndividualObj} {calls : List Call}
  (hcalls : (calls.map fun c => (c.cmd, c.indv)).Perm (sent view uri edited prev.resources))
  (hprev : prev.isEmpty = false) {p : String} (hp : p ≠ "v-s:updateCounter")
omit hedited
include hcalls hprev hp

theorem lookup_of_unsent
    (hnone : ∀ c ∈ sent view uri edited prev.resources, c.2.resources.lookup p = none) :
    (calls.foldl served prev).resources.lookup p = prev.resources.lookup p :=
  lookup_afterAll_of_none hprev hp fun _ hcall =>
    hnone _ (hcalls.mem_iff.mp (List.mem_map_of_mem hcall))

theorem lookup_of_sent {c : IndvOp × IndividualObj}
    (hc : c ∈ sent view uri edited prev.resources) (hsome : c.2.resources.lookup p ≠ none) :
    (calls.foldl served prev).resources.lookup p =
      (applyPredicate c.1 c.2 prev p).resources.lookup p := by
  obtain ⟨call, hcall, rfl⟩ := List.mem_map.mp (hcalls.mem_iff.mpr hc)
  refine lookup_afterAll hprev ?_ hcall hp hsome
  rw [← List.pairwise_map (f := fun c : Call => (c.cmd, c.indv)) (R := Apart)]
  exact (hcalls.pairwise_iff fun {_ _} h => h.symm).mpr pairwise_sent

include hedited

theorem valuesOf_of_part (hthrows : throws edited prev.resources = false) {cmd : IndvOp}
    {part : Document}
    (hlist : (cmd, (⟨uri, part⟩ : IndividualObj)) ∈
      [(IndvOp.addTo, (⟨uri, addedPart edited prev.resources⟩ : IndividualObj)),
        (.setIn, ⟨uri, differPart view edited prev.resources⟩),
        (.removeFrom, ⟨uri, missingPart edited prev.resources⟩)])
    {rs : List Resource} (hpart : part.lookup p = some rs) :
    (calls.foldl served prev).valuesOf p =
      ((applyPredicate cmd ⟨uri, part⟩ prev p).resources.lookup p).getD [] := by
  have hsend : (cmd, (⟨uri, part⟩ : IndividualObj)) ∈
      sent view uri edited prev.resources := by
    rw [sent_eq hedited hthrows, List.mem_filter]
    refine ⟨hlist, ?_⟩
    rw [isEmpty_of_lookup (p := p) hpart]
    rfl
  rw [IndividualObj.valuesOf, lookup_of_sent hcalls hprev hp hsend]
  dsimp only
  rw [hpart]
  exact Option.some_ne_none rs

theorem valuesOf_of_noPart (hthrows : throws edited prev.resources = false)
    (hadded : (addedPart edited prev.resources).lookup p = none)
    (hdiffer : (differPart view edited prev.resources).lookup p = none)
    (hmissing : (missingPart edited prev.resources).lookup p = none) :
    (calls.foldl served prev).valuesOf p = (prev.resources.lookup p).getD [] := by
  have hlookup := lookup_of_unsent hcalls hprev hp fun c hc => by
    rw [sent_eq hedited hthrows, List.mem_filter] at hc
    simp only [List.mem_cons, List.not_mem_nil, or_false] at hc
    rcases hc.1 with rfl | rfl | rfl
    · exact hadded
    · exact hdiffer
    · exact hmissing
  rw [IndividualObj.valuesOf, hlookup]

/-- **A predicate is stored as it was edited** if and only if the difference does not lose it.

**Proof sketch.** What is in the original document alone is removed and what is in the edited one
alone is added, unless every object inherits the name. What is in both is set when the comparison
finds a difference, and is left as it was otherwise. -/
theorem sameValues_iff_kept (horiginal : ∀ p, prev.resources.lookup p ≠ some [])
    (hthrows : throws edited prev.resources = false) :
    SameValues ((calls.foldl served prev).valuesOf p) ((edited.lookup p).getD []) ↔
      Kept view edited prev.resources p := by
  have hleft := valuesOf_of_noPart hedited hcalls hprev hp hthrows
  have hadded := lookup_only edited (fun key => !Document.has prev.resources key) p
  have hdiffer := lookup_only edited
    (fun key => differs view edited prev.resources key && key ≠ "__proto__") p
  have hmissing := lookup_only prev.resources (fun key => !edited.has key) p
  rw [← addedPart] at hadded
  rw [← differPart] at hdiffer
  rw [← missingPart] at hmissing
  unfold Kept
  unfold differs at hdiffer
  cases hp₀ : prev.resources.lookup p with
  | none =>
    rw [hp₀] at hdiffer hmissing
    rw [ite_self] at hmissing
    rw [Bool.false_and, if_neg Bool.false_ne_true] at hdiffer
    cases hp₁ : edited.lookup p with
    | none =>
      rw [hp₁, ite_self] at hadded
      rw [hleft hadded hdiffer hmissing, hp₀]
      exact iff_true_intro (SameValues.refl _)
    | some rs' =>
      rw [hp₁] at hadded
      by_cases hname : p ∈ objectNames
      · have hhas : Document.has prev.resources p = true := by
          rw [← Bool.not_eq_false, has_eq_false_iff hp₀]
          exact not_not_intro hname
        rw [hhas] at hadded
        rw [hleft hadded hdiffer hmissing, hp₀]
        exact iff_of_false (not_sameValues_nil (hedited p rs' hp₁).1).2 (not_not_intro hname)
      · rw [(has_eq_false_iff hp₀).mpr hname, Bool.not_false, if_pos rfl] at hadded
        rw [valuesOf_of_part hedited hcalls hprev hp hthrows List.mem_cons_self hadded,
          lookup_addTo hp hadded hp₀]
        exact iff_of_true (sameValues_pushUnique rs') hname
  | some rs =>
    rw [hp₀] at hdiffer hmissing
    rw [has_of_lookup hp₀, Bool.not_true, if_neg Bool.false_ne_true] at hadded
    cases hp₁ : edited.lookup p with
    | none =>
      rw [hp₁] at hdiffer
      rw [Bool.false_and, if_neg Bool.false_ne_true] at hdiffer
      by_cases hname : p ∈ objectNames
      · have hhas : Document.has edited p = true := by
          rw [← Bool.not_eq_false, has_eq_false_iff hp₁]
          exact not_not_intro hname
        rw [hhas] at hmissing
        rw [hleft hadded hdiffer hmissing, hp₀]
        have hne : rs ≠ [] := fun h => horiginal p (h ▸ hp₀)
        exact iff_of_false (not_sameValues_nil hne).1 (not_not_intro hname)
      · rw [(has_eq_false_iff hp₁).mpr hname, Bool.not_false, if_pos rfl] at hmissing
        rw [valuesOf_of_part hedited hcalls hprev hp hthrows
            (.tail _ (.tail _ List.mem_cons_self)) hmissing,
          lookup_removeFrom hp hmissing hp₀]
        exact iff_of_true (SameValues.refl _) hname
    | some rs' =>
      rw [has_of_lookup hp₁, Bool.not_true, if_neg Bool.false_ne_true] at hmissing
      rw [hp₁] at hdiffer
      dsimp only at hdiffer ⊢
      by_cases hpass : passes view rs' rs ∨ p = "__proto__"
      · have hnot : (!passes view rs' rs && decide (p ≠ "__proto__")) = false := by
          rcases hpass with h | h <;> simp [h]
        rw [hnot, if_neg Bool.false_ne_true] at hdiffer
        rw [hleft hadded hdiffer hmissing, hp₀]
        exact ⟨fun h _ => h, fun h => h hpass⟩
      · rw [not_or] at hpass
        rw [if_pos (by simp [hpass])] at hdiffer
        rw [valuesOf_of_part hedited hcalls hprev hp hthrows (.tail _ List.mem_cons_self)
          hdiffer, Mstorage.lookup_setIn hp hdiffer]
        exact iff_of_true (SameValues.refl _) fun h => absurd h (not_or.mpr hpass)

end Saving

/-- A browser in which decimals are pairs of numbers. -/
def plainView : View (Int64 × Int64) := ⟨Prod.mk, fun _ => "", fun _ => true⟩

def label (text : String) (lang : Lang) : Resource := ⟨.string, .str text lang, 0⟩

/-- An individual with these labels. -/
def labelled (labels : List Resource) : IndividualObj :=
  ⟨"d:x", (∅ : Document).insert "rdfs:label" labels⟩

theorem lookup_labelled (labels : List Resource) (p : String) :
    (labelled labels).resources.lookup p = if p = "rdfs:label" then some labels else none := by
  split_ifs with h
  · rw [h]
    exact AList.lookup_insert _
  · exact AList.lookup_insert_ne h

theorem filled_labelled {labels : List Resource}
    (h : labels ≠ [] ∧ ∀ r ∈ labels, isFilled plainView r) :
    Filled plainView (labelled labels).resources := by
  intro p rs hrs
  rw [lookup_labelled] at hrs
  split_ifs at hrs
  obtain rfl := Option.some.inj hrs
  exact h

/-- The commands that are sent, served in their order. -/
def servedInOrder (commands : List (IndvOp × IndividualObj)) : List Call :=
  commands.map fun c => ⟨c.1, c.2, .stored String, 1⟩

end Veda.Browser
