import Veda.SearchIndex.TypeTables

set_option autoImplicit false

/-!
# The rows of a history collapse

The rows that a history of changes asks for: for every element `-1` for each type of the previous
state and `+1` for each type of the new one, unless the new state is not the actual version. As long
as no individual with types begins or ceases to be the actual version, the signs of an individual in
the table of a type add up to one when its state has the type and is the actual version, and to zero
otherwise.

## Main definitions

* `SearchIndexTt.contributions`, `SearchIndexTt.wanted` — the rows of elements.
* `SearchIndexTt.total` — the sum of the signs of an individual in a table.
* `SearchIndexTt.KeepsActuality` — the condition on a change.
* `SearchIndexTt.Balanced` — the signs of the rows of a queue agree with the states.

## Main results

* `SearchIndexTt.addToTypedBatch_eq` — an element is collected.
* `SearchIndexTt.balanced_change` — one change.
-/

namespace Veda.SearchIndexTt

open Veda.Lib Veda.Onto Veda.Mstorage

/-! ## The rows of elements -/

/-- A state with a sign, for each of its types. -/
def stateContributions (opId : ℕ) (sign : ℤ) (s : State) : List (String × BatchElement) :=
  (typesOf s).map fun t => (t, (opId, s, sign))

/-- What the previous state adds to the batches. -/
def previousContributions (opId : ℕ) : Option State → List (String × BatchElement)
  | some prev => stateContributions opId (-1) prev
  | none => []

/-- What an element adds to the batches. -/
def contributions (e : Element) : List (String × BatchElement) :=
  if isSkipped e.new then []
  else previousContributions e.opId e.prevState ++
    if e.cmd = .remove then [] else stateContributions e.opId 1 e.new

theorem addState_eq (opId : ℕ) (s : State) (sign : ℤ) (typedBatch : TypedBatch) :
    addState opId s sign typedBatch =
      (stateContributions opId sign s).foldl (fun m p => m.pushAt p.1 p.2) typedBatch := by
  rw [addState, stateContributions, List.foldl_map]

theorem addToTypedBatch_eq (typedBatch : TypedBatch) (e : Element) :
    addToTypedBatch typedBatch e =
      (contributions e).foldl (fun m p => m.pushAt p.1 p.2) typedBatch := by
  have hprev : (match e.prevState with
      | some prevState => addState e.opId prevState (-1) typedBatch
      | none => typedBatch) =
      (previousContributions e.opId e.prevState).foldl (fun m p => m.pushAt p.1 p.2)
        typedBatch := by
    cases e.prevState with
    | none => rfl
    | some prev => exact addState_eq _ _ _ _
  unfold addToTypedBatch contributions
  split_ifs
  · rfl
  · rw [List.append_nil]
    exact hprev
  · rw [List.foldl_append, ← hprev]
    exact addState_eq _ _ _ _

/-- What the elements of a list add. -/
def contributionsOf (es : List Element) : List (String × BatchElement) := es.flatMap contributions

/-- The rows that the elements of a list ask for. -/
def wanted (es : List Element) : List Row := (contributionsOf es).map fun p => rowOf p.1 p.2

theorem wanted_append (es es' : List Element) : wanted (es ++ es') = wanted es ++ wanted es' := by
  rw [wanted, contributionsOf, List.flatMap_append, List.map_append]
  rfl

theorem mem_stateContributions {opId : ℕ} {sign : ℤ} {s : State} {p : String × BatchElement}
    (h : p ∈ stateContributions opId sign s) : p.2 = (opId, s, sign) := by
  obtain ⟨t, -, rfl⟩ := List.mem_map.mp h
  rfl

theorem mem_contributions {e : Element} {p : String × BatchElement} (h : p ∈ contributions e) :
    (∃ prev, e.prevState = some prev ∧ p.2 = (e.opId, prev, -1)) ∨ p.2 = (e.opId, e.new, 1) := by
  unfold contributions at h
  split_ifs at h
  · cases h
  all_goals
    rcases List.mem_append.mp h with h | h
    · cases hprev : e.prevState with
      | none =>
        rw [hprev] at h
        cases h
      | some prev =>
        rw [hprev] at h
        exact .inl ⟨prev, rfl, mem_stateContributions h⟩
  · cases h
  · exact .inr (mem_stateContributions h)

theorem opId_of_mem_contributions {e : Element} {p : String × BatchElement}
    (h : p ∈ contributions e) : p.2.1 = e.opId := by
  rcases mem_contributions h with ⟨prev, -, hp⟩ | hp <;> rw [hp]

theorem mem_wanted {es : List Element} {r : Row} :
    r ∈ wanted es ↔ ∃ e ∈ es, ∃ p ∈ contributions e, rowOf p.1 p.2 = r := by
  simp only [wanted, contributionsOf, List.mem_map, List.mem_flatMap]
  constructor
  · rintro ⟨p, ⟨e, he, hp⟩, rfl⟩
    exact ⟨e, he, p, hp, rfl⟩
  · rintro ⟨e, he, p, hp, rfl⟩
    exact ⟨p, ⟨e, he, hp⟩, rfl⟩

/-! ## Sums of signs -/

/-- The sum of the signs of an individual in a table. -/
def total (rows : List Row) (id table : String) : ℤ :=
  ∑ r ∈ rows.toFinset with r.id = id ∧ r.table = table, r.sign

theorem total_congr {rows rows' : List Row} (h : ∀ r, r ∈ rows ↔ r ∈ rows') (id table : String) :
    total rows id table = total rows' id table := by
  have heq : rows.toFinset = rows'.toFinset := by
    ext r
    rw [List.mem_toFinset, List.mem_toFinset, h]
  rw [total, heq, total]

theorem total_append {rows rows' : List Row} (h : ∀ r ∈ rows, r ∉ rows') (id table : String) :
    total (rows ++ rows') id table = total rows id table + total rows' id table := by
  rw [total, List.toFinset_append, Finset.filter_union, Finset.sum_union]
  · rfl
  · refine Finset.disjoint_filter_filter (Finset.disjoint_left.mpr fun r hr hr' => ?_)
    exact h r (List.mem_toFinset.mp hr) (List.mem_toFinset.mp hr')

theorem sum_eq_total {rows : List Row} (hnodup : rows.Nodup) (id table : String) :
    ((rows.filter fun r => r.id = id ∧ r.table = table).map Row.sign).sum =
      total rows id table := by
  rw [total, ← List.sum_toFinset _ (hnodup.filter _), List.toFinset_filter]
  simp

theorem total_stateContributions (opId : ℕ) (sign : ℤ) (s : State) (id table : String) :
    total ((stateContributions opId sign s).map fun p => rowOf p.1 p.2) id table =
      if s.uri = id ∧ table ∈ typesOf s then sign else 0 := by
  have hset : (((stateContributions opId sign s).map fun p => rowOf p.1 p.2).toFinset.filter
      fun r => r.id = id ∧ r.table = table) =
        if s.uri = id ∧ table ∈ typesOf s then {rowOf table (opId, s, sign)} else ∅ := by
    ext r
    simp only [Finset.mem_filter, List.mem_toFinset, stateContributions, List.map_map,
      List.mem_map, Function.comp_apply]
    constructor
    · rintro ⟨⟨t, ht, rfl⟩, hid, htable⟩
      obtain rfl : t = table := htable
      rw [if_pos ⟨hid, ht⟩, Finset.mem_singleton]
    · intro hr
      split_ifs at hr with h
      · rw [Finset.mem_singleton] at hr
        rw [hr]
        exact ⟨⟨table, h.2, rfl⟩, h.1, rfl⟩
      · exact absurd hr (Finset.notMem_empty r)
  rw [total, hset]
  split_ifs
  · rw [Finset.sum_singleton]
    rfl
  · rfl

theorem total_previousContributions (opId : ℕ) (before : Option State) (id table : String) :
    total ((previousContributions opId before).map fun p => rowOf p.1 p.2) id table =
      if ∃ s, before = some s ∧ s.uri = id ∧ table ∈ typesOf s then -1 else 0 := by
  cases before with
  | none => simp [previousContributions, total]
  | some prev =>
    rw [previousContributions, total_stateContributions]
    simp

/-! ## The condition on a change -/

/-- The state counts in the table of a type: it has the type, and it is not skipped. -/
def counts (table : String) : Option State → Bool
  | some s => table ∈ typesOf s && !isSkipped s
  | none => false

/-- The previous state has no types, or it is skipped when the given flag is set, and only then. -/
def KeepsSkip (before : Option State) (skip : Bool) : Prop :=
  ∀ s, before = some s → typesOf s = [] ∨ isSkipped s = skip

/-- An individual with types does not begin or cease to be the actual version. -/
def KeepsActuality (st : States) : Change → Prop
  | .put state => KeepsSkip (st.stateOf state.uri) (isSkipped state)
  | .remove mark _ => KeepsSkip (st.stateOf mark.uri) false

/-- The signs of the rows that a queue asks for agree with the states. -/
def Balanced (queue : List Element) (st : States) : Prop :=
  ∀ id table, total (wanted queue) id table = if counts table (st.stateOf id) then 1 else 0

/-- The elements of a queue are numbered one after another. -/
def Numbered (queue : List Element) : Prop := ∀ k e, queue[k]? = some e → e.opId = k + 1

section Change

variable {queue : List Element} {st : States}

theorem Numbered.opId_le (h : Numbered queue) {e : Element} (he : e ∈ queue) :
    e.opId ≤ queue.length := by
  obtain ⟨k, hk, rfl⟩ := List.mem_iff_getElem.mp he
  rw [h k _ (List.getElem?_eq_getElem hk)]
  exact hk

theorem Numbered.append (h : Numbered queue) (c : Change) :
    Numbered (queue ++ c.elements st queue.length) := by
  intro k e hk
  by_cases hlt : k < queue.length
  · rw [List.getElem?_append_left hlt] at hk
    exact h k e hk
  · rw [List.getElem?_append_right (Nat.not_lt.mp hlt)] at hk
    have hnew : (c.elements st queue.length).map Element.opId =
        List.range' (queue.length + 1) (c.elements st queue.length).length := by
      cases c <;> rfl
    have hopId : ((c.elements st queue.length).map Element.opId)[k - queue.length]? =
        some e.opId := by
      rw [List.getElem?_map, hk, Option.map_some]
    rw [hnew, List.getElem?_range' (List.getElem?_eq_some_iff.mp hk).1] at hopId
    have heq := Option.some.inj hopId
    omega

theorem total_put (opId : ℕ) (before : Option State) (state : State) (id table : String) :
    total (wanted [⟨.put, opId, before, some state⟩]) id table =
      if isSkipped state then 0
      else (if ∃ s, before = some s ∧ s.uri = id ∧ table ∈ typesOf s then -1 else 0) +
        if state.uri = id ∧ table ∈ typesOf state then 1 else 0 := by
  have hwanted : wanted [⟨.put, opId, before, some state⟩] =
      if isSkipped state then []
      else ((previousContributions opId before).map fun p => rowOf p.1 p.2) ++
        (stateContributions opId 1 state).map fun p => rowOf p.1 p.2 := by
    have hcontributions : contributions ⟨.put, opId, before, some state⟩ =
        if isSkipped state then []
        else previousContributions opId before ++ stateContributions opId 1 state := rfl
    rw [wanted, contributionsOf, List.flatMap_cons, List.flatMap_nil, List.append_nil,
      hcontributions]
    split_ifs
    · rfl
    · exact List.map_append
  rw [hwanted]
  split_ifs with hskip
  · rfl
  all_goals
    rw [total_append, total_previousContributions, total_stateContributions]
    · simp [*]
    · intro r hr hr'
      obtain ⟨p', hp', rfl⟩ := List.mem_map.mp hr'
      obtain ⟨p, hp, heq⟩ := List.mem_map.mp hr
      have hsign : p.2.2.2 = p'.2.2.2 := congrArg Row.sign heq
      rw [mem_stateContributions hp'] at hsign
      cases before with
      | none => cases hp
      | some prev =>
        rw [mem_stateContributions hp] at hsign
        cases hsign

theorem balanced_put (h : Balanced queue st) (hnumbered : Numbered queue) {state : State}
    {opId : ℕ} (hopId : queue.length < opId)
    (hkeeps : KeepsSkip (st.stateOf state.uri) (isSkipped state)) :
    ∀ id table, total (wanted (queue ++
      [⟨.put, opId, st.stateOf state.uri, some state⟩])) id table =
        if counts table ((st.apply (.put state)).stateOf id) then 1 else 0 := by
  intro id table
  rw [wanted_append, total_append]
  · rw [h id table, total_put]
    by_cases hid : id = state.uri
    · have hafter : (st.apply (.put state)).stateOf id = some state := by
        rw [hid]
        exact States.stateOf_apply_self st (.put state)
      rw [hafter, hid]
      cases hbefore : st.stateOf state.uri with
      | none => by_cases hskip : isSkipped state = true <;> simp [counts, hskip]
      | some s =>
        have huri := st.named _ s hbefore
        rcases hkeeps s hbefore with htypes | hsame
        · by_cases hskip : isSkipped state = true <;> simp [counts, hskip, htypes]
        · by_cases hskip : isSkipped state = true <;> by_cases hbefore : table ∈ typesOf s <;>
            simp [counts, hskip, hsame, huri, hbefore]
    · have hbefore : ¬ ∃ s, st.stateOf state.uri = some s ∧ s.uri = id ∧ table ∈ typesOf s :=
        fun ⟨s, hs, huri, _⟩ => hid (huri.symm.trans (st.named _ s hs))
      have hafter : ¬ (state.uri = id ∧ table ∈ typesOf state) := fun hboth => hid hboth.1.symm
      rw [if_neg hbefore, if_neg hafter, States.stateOf_apply_of_ne st (c := .put state) hid]
      simp
  · intro r hr hr'
    obtain ⟨e, he, p, hp, rfl⟩ := mem_wanted.mp hr
    obtain ⟨e', he', p', hp', heq⟩ := mem_wanted.mp hr'
    have hnumber : p'.2.1 = p.2.1 := congrArg Row.opId heq
    rw [opId_of_mem_contributions hp, opId_of_mem_contributions hp',
      List.mem_singleton.mp he'] at hnumber
    have hle := hnumbered.opId_le he
    dsimp only at hnumber
    omega

/-- **One change** keeps the balance. -/
theorem balanced_change (h : Balanced queue st) (hnumbered : Numbered queue) {c : Change}
    (hkeeps : KeepsActuality st c) :
    Balanced (queue ++ c.elements st queue.length) (st.apply c) := by
  cases c with
  | put state => exact balanced_put h hnumbered (Nat.lt_succ_self _) hkeeps
  | remove mark isMark =>
    have hskip : isSkipped mark = false := by
      rw [isSkipped, State.get_of_lookup_none (isMark.rest _ (by decide) (by decide))]
      rfl
    have htypes : typesOf mark = [] := by
      rw [typesOf, State.get_of_lookup_none (isMark.rest _ (by decide) (by decide))]
      rfl
    have hafter : KeepsSkip (st.stateOf mark.uri) (isSkipped mark) := by
      rw [hskip]
      exact hkeeps
    have hput := balanced_put h hnumbered (Nat.lt_succ_self queue.length) hafter
    intro id table
    have hsecond : wanted [⟨.remove, queue.length + 2, none, none⟩] = [] := rfl
    have hwanted : wanted (queue ++ (Change.remove mark isMark).elements st queue.length) =
        wanted (queue ++ [⟨.put, queue.length + 1, st.stateOf mark.uri, some mark⟩]) := by
      rw [Change.elements, ← List.singleton_append, ← List.append_assoc, wanted_append, hsecond,
        List.append_nil]
    rw [hwanted, hput]
    by_cases hid : id = mark.uri
    · rw [hid, show (st.apply (.put mark)).stateOf mark.uri = some mark from
        States.stateOf_apply_self st (.put mark),
        show (st.apply (.remove mark isMark)).stateOf mark.uri = none from
          States.stateOf_apply_self st (.remove mark isMark)]
      simp [counts, htypes]
    · rw [States.stateOf_apply_of_ne st (c := .put mark) hid,
        States.stateOf_apply_of_ne st (c := .remove mark isMark) hid]

end Change

end Veda.SearchIndexTt
