import Veda.SearchIndex.Collapsing

set_option autoImplicit false

/-!
# The class tables collapse

In every run in which the program crashes only where its log says what was inserted, and in which no
individual with types begins or ceases to be the actual version, each row is inserted once, and when
the queue has been read the signs of an individual in a table add up to what its state is.

## Main definitions

* `SearchIndexTt.Tables.AtMostOnce` — each row is inserted at most once.
* `SearchIndexTt.Tables.Collapsed` — the tables agree with the states when the queue is read.
* `SearchIndexTt.Tables.Allowed`, `SearchIndexTt.Tables.Reached` — the conditions of the
  steps, and the states of the runs that meet them.
* `SearchIndexTt.Tables.Inv` — the invariant.

## Main results

* `SearchIndexTt.Tables.Inv.step` — every step keeps the invariant.
* `SearchIndexTt.Tables.collapsed_of_reached` — every state of a run.
-/

namespace Veda.SearchIndexTt

open Veda.Lib Veda.Onto Veda.Mstorage

/-! ## What the tables are for -/

/-- The state is the actual version: nothing else is named, or the individual itself. -/
def isActual (s : State) : Bool :=
  (s.obj.resources.lookup "v-s:actualVersion").isNone ||
    s.get .getFirstLiteral "v-s:actualVersion" = some s.uri

/-- The individual belongs to the table of a type. -/
def belongs (table : String) : Option State → Bool
  | some s => table ∈ typesOf s && isActual s
  | none => false

/-- The element, the table and the sign of a row. -/
def Row.key (r : Row) : ℕ × String × ℤ := (r.opId, r.table, r.sign)

/-- The operation of a row as it is in the log. -/
def Row.signedOp (r : Row) : ℤ := r.opId * r.sign

/-- The operation of a type can be read from the log. -/
def Logged (log : Option (List LogRecord)) (table : String) (op : ℤ) : Prop :=
  op ∈ opsOf (readLog (log.getD [])) table

/-- A state that has types and is not skipped names no other version, and not an empty one. -/
def Clear (s : State) : Prop := typesOf s = [] ∨ isSkipped s = true ∨ isActual s = true

namespace Tables

/-- **Each row** of an element, a table and a sign is inserted at most once. -/
def AtMostOnce (s : Tables) : Prop := (s.rows.map Row.key).Nodup

/-- **The tables agree with the states** when the queue has been read and no batch is in work. -/
def Collapsed (s : Tables) : Prop :=
  s.phase = .idle → s.position = s.queue.length → ∀ id table,
    ((s.rows.filter fun r => r.id = id ∧ r.table = table).map Row.sign).sum =
      if belongs table (s.states.stateOf id) then 1 else 0

/-- The condition of a step. An individual with types does not begin or cease to be the actual
version, and names no empty one; a batch that is read again has everything that is in the log; the
program does not crash between the insertion of a block and the end of its record, nor between the
removal of the log and the saving of the position. -/
def Allowed (s : Tables) : Op → Prop
  | .change c => KeepsActuality s.states c ∧ ∀ state, c = .put state → Clear state
  | .endReading _ => ∀ taken typedBatch, s.phase = .reading taken typedBatch →
    ∀ table op, Logged s.log table op → op.natAbs ≤ taken
  | .crash => (∀ taken committed record work, s.phase ≠ .inserted taken committed record work) ∧
    ∀ taken, s.phase ≠ .removed taken
  | .tearRecord => False
  | _ => True

/-- A state of a run whose steps meet their conditions. -/
inductive Reached : Tables → Prop
  | start : Reached empty
  | step {s : Tables} (op : Op) : Reached s → s.Allowed op → Reached (s.step op)

/-! ## The invariant -/

/-- The elements of the batch. -/
def batch (s : Tables) (taken : ℕ) : List Element := (s.queue.drop s.position).take (taken - s.position)

/-- The operation was inserted in this batch: it is in the log, or in the record that is to be
written. -/
def Done (s : Tables) (record : Option TypeOps) (table : String) (op : ℤ) : Prop :=
  Logged s.log table op ∨ ∃ r, record = some r ∧ r.typeName = table ∧ op ∈ r.ops

/-- The rows are those of the elements before the position, and those that were inserted since. -/
def Holds (s : Tables) (record : Option TypeOps) : Prop :=
  ∀ r, r ∈ s.rows ↔ r ∈ wanted (s.queue.take s.position) ∨
    r ∈ wanted s.queue ∧ s.Done record r.table r.signedOp

/-- A batch that is inserted. -/
structure Inserts (s : Tables) (record : Option TypeOps) (taken : ℕ) (committed : CommittedTypesOps)
    (work : List (String × List BatchElement)) : Prop where
  holds : s.Holds record
  from_position : s.position ≤ taken
  to_taken : taken ≤ s.queue.length
  committed_iff : ∀ table op, op ∈ opsOf committed table ↔ s.Done record table op
  bounded : ∀ table op, s.Done record table op → op.natAbs ≤ taken
  work_sub : ∀ unit ∈ work, ∀ el ∈ unit.2, (unit.1, el) ∈ contributionsOf (s.batch taken)
  covered : ∀ p ∈ contributionsOf (s.batch taken), s.Done record p.1 (signedOp p.2) ∨
    ∃ unit ∈ work, unit.1 = p.1 ∧ p.2 ∈ unit.2

/-- What holds where the program is. -/
inductive Follows (s : Tables) : Phase → Prop
  | down (holds : s.Holds none) : Follows s .down
  | idle (holds : s.Holds none) : Follows s .idle
  | reading {taken : ℕ} {typedBatch : TypedBatch} (holds : s.Holds none)
    (from_position : s.position ≤ taken) (to_taken : taken ≤ s.queue.length)
    (collected : typedBatch = (s.batch taken).foldl addToTypedBatch ∅) :
    Follows s (.reading taken typedBatch)
  | inserting {taken : ℕ} {committed : CommittedTypesOps}
    {work : List (String × List BatchElement)} (inserts : s.Inserts none taken committed work) :
    Follows s (.inserting taken committed work)
  | inserted {taken : ℕ} {committed : CommittedTypesOps} {record : TypeOps}
    {work : List (String × List BatchElement)}
    (inserts : s.Inserts (some record) taken committed work) :
    Follows s (.inserted taken committed record work)
  | processed {taken : ℕ} (holds : s.Holds none) (from_position : s.position ≤ taken)
    (to_taken : taken ≤ s.queue.length) (nothing : contributionsOf (s.batch taken) = [])
    (unlogged : ∀ table op, ¬ Logged s.log table op) : Follows s (.processed taken)
  | removed {taken : ℕ} (unlogged : ∀ table op, ¬ Logged s.log table op)
    (from_position : s.position ≤ taken) (to_taken : taken ≤ s.queue.length)
    (holds : ∀ r, r ∈ s.rows ↔ r ∈ wanted (s.queue.take taken)) : Follows s (.removed taken)

/-- The record that is to be written. -/
def record (s : Tables) : Option TypeOps :=
  match s.phase with
  | .inserted _ _ record _ => some record
  | _ => none

/-- **The invariant.** -/
structure Inv (s : Tables) : Prop where
  numbered : Numbered s.queue
  balanced : Balanced s.queue s.states
  clear : ∀ id state, s.states.stateOf id = some state → Clear state
  position : s.position ≤ s.queue.length
  once : s.AtMostOnce
  /-- the log has no torn records -/
  whole : ∃ records : List TypeOps, s.log.getD [] = records.map .whole
  /-- what is done belongs to elements behind the position -/
  queued : ∀ table op, s.Done s.record table op →
    ∃ r ∈ wanted (s.queue.drop s.position), r.table = table ∧ r.signedOp = op
  follows : s.Follows s.phase

end Tables

/-! ## Rows and their elements -/

theorem natAbs_signedOp {es : List Element} {r : Row} (h : r ∈ wanted es) :
    r.signedOp.natAbs = r.opId := by
  obtain ⟨e, -, p, hp, rfl⟩ := mem_wanted.mp h
  have hsign : (rowOf p.1 p.2).sign = p.2.2.2 := rfl
  rw [Row.signedOp, hsign]
  rcases mem_contributions hp with ⟨prev, -, heq⟩ | heq <;> rw [heq] <;> simp

section Numbered

variable {queue : List Element}

theorem opId_le_of_mem_take (h : Numbered queue) {k : ℕ} {r : Row}
    (hr : r ∈ wanted (queue.take k)) : r.opId ≤ k := by
  obtain ⟨e, he, p, hp, rfl⟩ := mem_wanted.mp hr
  obtain ⟨j, hj, rfl⟩ := List.mem_iff_getElem.mp he
  have hlt := (List.length_take_le k queue).trans_lt' hj
  rw [List.getElem_take] at hp
  have hopId : (rowOf p.1 p.2).opId = p.2.1 := rfl
  rw [hopId, opId_of_mem_contributions hp,
    h j _ (List.getElem?_eq_getElem (hj.trans_le (by simp)))]
  exact hlt

theorem lt_opId_of_mem_drop (h : Numbered queue) {k : ℕ} {r : Row}
    (hr : r ∈ wanted (queue.drop k)) : k < r.opId := by
  obtain ⟨e, he, p, hp, rfl⟩ := mem_wanted.mp hr
  obtain ⟨j, hj, rfl⟩ := List.mem_iff_getElem.mp he
  rw [List.getElem_drop] at hp
  have hopId : (rowOf p.1 p.2).opId = p.2.1 := rfl
  rw [List.length_drop] at hj
  rw [hopId, opId_of_mem_contributions hp,
    h (k + j) _ (List.getElem?_eq_getElem (by omega))]
  omega

theorem mem_wanted_take_iff (h : Numbered queue) {k : ℕ} {r : Row} :
    r ∈ wanted (queue.take k) ↔ r ∈ wanted queue ∧ r.opId ≤ k := by
  have hsplit : r ∈ wanted queue ↔ r ∈ wanted (queue.take k) ∨ r ∈ wanted (queue.drop k) := by
    rw [← List.mem_append, ← wanted_append, List.take_append_drop]
  constructor
  · exact fun hr => ⟨hsplit.mpr (.inl hr), opId_le_of_mem_take h hr⟩
  · rintro ⟨hr, hle⟩
    rcases hsplit.mp hr with hr | hr
    · exact hr
    · have hlt := lt_opId_of_mem_drop h hr
      omega

theorem mem_wanted_drop_iff (h : Numbered queue) {k : ℕ} {r : Row} :
    r ∈ wanted (queue.drop k) ↔ r ∈ wanted queue ∧ k < r.opId := by
  have hsplit : r ∈ wanted queue ↔ r ∈ wanted (queue.take k) ∨ r ∈ wanted (queue.drop k) := by
    rw [← List.mem_append, ← wanted_append, List.take_append_drop]
  constructor
  · exact fun hr => ⟨hsplit.mpr (.inr hr), lt_opId_of_mem_drop h hr⟩
  · rintro ⟨hr, hlt⟩
    rcases hsplit.mp hr with hr | hr
    · have hle := opId_le_of_mem_take h hr
      omega
    · exact hr

theorem row_eq (h : Numbered queue) {r r' : Row} (hr : r ∈ wanted queue) (hr' : r' ∈ wanted queue)
    (htable : r.table = r'.table) (hop : r.signedOp = r'.signedOp) : r = r' := by
  have hopId : r.opId = r'.opId := by rw [← natAbs_signedOp hr, hop, natAbs_signedOp hr']
  obtain ⟨e, he, p, hp, rfl⟩ := mem_wanted.mp hr
  obtain ⟨e', he', p', hp', rfl⟩ := mem_wanted.mp hr'
  have hnumber : e.opId = e'.opId := by
    rw [← opId_of_mem_contributions hp, ← opId_of_mem_contributions hp']
    exact hopId
  have hsame : e = e' := by
    obtain ⟨j, hj, rfl⟩ := List.mem_iff_getElem.mp he
    obtain ⟨j', hj', rfl⟩ := List.mem_iff_getElem.mp he'
    rw [h j _ (List.getElem?_eq_getElem hj), h j' _ (List.getElem?_eq_getElem hj')] at hnumber
    obtain rfl : j = j' := by omega
    rfl
  subst hsame
  have hpos : 0 < e.opId := by
    obtain ⟨j, hj, rfl⟩ := List.mem_iff_getElem.mp he
    rw [h j _ (List.getElem?_eq_getElem hj)]
    omega
  have hsign : p.2.1 * p.2.2.2 = p'.2.1 * p'.2.2.2 := hop
  have heq : p.2 = p'.2 := by
    rcases mem_contributions hp with ⟨prev, hprev, heq⟩ | heq <;>
      rcases mem_contributions hp' with ⟨prev', hprev', heq'⟩ | heq' <;>
      rw [heq, heq'] at hsign ⊢
    · rw [hprev] at hprev'
      rw [Option.some.inj hprev']
    · dsimp only at hsign
      omega
    · dsimp only at hsign
      omega
  have htype : p.1 = p'.1 := htable
  rw [htype, heq]

end Numbered

namespace Tables

variable {s : Tables} {taken : ℕ}

theorem mem_wanted_batch_iff (h : Numbered s.queue) {r : Row} :
    r ∈ wanted (s.batch taken) ↔ r ∈ wanted s.queue ∧ s.position < r.opId ∧ r.opId ≤ taken := by
  have htake : Numbered (s.queue.take taken) := by
    intro k e hk
    rw [List.getElem?_take] at hk
    split_ifs at hk
    exact h k e hk
  rw [batch, ← List.drop_take, mem_wanted_drop_iff htake, mem_wanted_take_iff h]
  tauto

theorem row_of_mem_contributionsOf {es : List Element} {p : String × BatchElement}
    (hp : p ∈ contributionsOf es) : rowOf p.1 p.2 ∈ wanted es := List.mem_map_of_mem hp

/-! ## Steps -/

section Change

variable (h : s.Inv) (c : Change)

include h

theorem Inv.holds_change {record : Option TypeOps} (hrecord : s.record = record)
    (hholds : s.Holds record) : (s.change c).Holds record := by
  intro r
  have hnew : Numbered (s.queue ++ c.elements s.states s.queue.length) := h.numbered.append c
  have htake : (s.change c).queue.take s.position = s.queue.take s.position :=
    List.take_append_of_le_length h.position
  rw [show (s.change c).rows = s.rows from rfl, hholds r,
    show (s.change c).position = s.position from rfl, htake]
  refine or_congr_right ⟨fun ⟨hr, hdone⟩ => ⟨?_, hdone⟩, fun ⟨hr, hdone⟩ => ⟨?_, hdone⟩⟩
  · rw [show (s.change c).queue = s.queue ++ c.elements s.states s.queue.length from rfl,
      wanted_append]
    exact List.mem_append_left _ hr
  · obtain ⟨r', hr', htable, hop⟩ := h.queued _ _ (hrecord ▸ hdone)
    obtain ⟨hqueue, -⟩ := (mem_wanted_drop_iff h.numbered).mp hr'
    have hqueue' : r' ∈ wanted (s.change c).queue := by
      rw [show (s.change c).queue = s.queue ++ c.elements s.states s.queue.length from rfl,
        wanted_append]
      exact List.mem_append_left _ hqueue
    rwa [row_eq hnew hr hqueue' htable.symm hop.symm]

omit h in
theorem batch_change (hle : s.position ≤ taken) (hto : taken ≤ s.queue.length) :
    (s.change c).batch taken = s.batch taken := by
  unfold batch change
  dsimp only
  rw [List.drop_append_of_le_length (hle.trans hto), List.take_append_of_le_length]
  rw [List.length_drop]
  omega

omit h in
theorem length_change : s.queue.length ≤ (s.change c).queue.length := by
  rw [show (s.change c).queue = s.queue ++ c.elements s.states s.queue.length from rfl,
    List.length_append]
  omega

theorem Inv.inserts_change {record : Option TypeOps} (hrecord : s.record = record)
    {committed : CommittedTypesOps} {work : List (String × List BatchElement)}
    (hinserts : s.Inserts record taken committed work) :
    (s.change c).Inserts record taken committed work := by
  have hbatch := batch_change c hinserts.from_position hinserts.to_taken
  exact ⟨h.holds_change c hrecord hinserts.holds, hinserts.from_position,
    hinserts.to_taken.trans (length_change c), hinserts.committed_iff, hinserts.bounded,
    by rw [hbatch]; exact hinserts.work_sub, by rw [hbatch]; exact hinserts.covered⟩

theorem Inv.change (hkeeps : KeepsActuality s.states c)
    (hclear : ∀ state, c = .put state → Clear state) : (s.change c).Inv := by
  refine ⟨h.numbered.append c, balanced_change h.balanced h.numbered hkeeps, fun id state hstate => ?_,
    h.position.trans (length_change c), h.once, h.whole, fun table op hdone => ?_, ?_⟩
  · by_cases hid : id = c.id
    · rw [hid, show (s.change c).states = s.states.apply c from rfl,
        States.stateOf_apply_self] at hstate
      cases c with
      | put state' =>
        obtain rfl := Option.some.inj hstate
        exact hclear state' rfl
      | remove mark isMark => cases hstate
    · rw [show (s.change c).states = s.states.apply c from rfl,
        States.stateOf_apply_of_ne _ hid] at hstate
      exact h.clear id state hstate
  · obtain ⟨r, hr, hrow⟩ := h.queued table op hdone
    refine ⟨r, ?_, hrow⟩
    rw [show (s.change c).queue.drop (s.change c).position = _ from
      List.drop_append_of_le_length h.position, wanted_append]
    exact List.mem_append_left _ hr
  · have hfollows := h.follows
    rw [show (s.change c).phase = s.phase from rfl]
    have hlength := length_change (s := s) c
    cases hphase : s.phase with
    | down =>
      rw [hphase] at hfollows
      cases hfollows with
      | down hholds => exact .down (h.holds_change c (by rw [Tables.record, hphase]) hholds)
    | idle =>
      rw [hphase] at hfollows
      cases hfollows with
      | idle hholds => exact .idle (h.holds_change c (by rw [Tables.record, hphase]) hholds)
    | reading taken typedBatch =>
      rw [hphase] at hfollows
      cases hfollows with
      | reading hholds hfrom hto hcollected =>
        refine .reading (h.holds_change c (by rw [Tables.record, hphase]) hholds) hfrom
          (hto.trans hlength) ?_
        rw [batch_change c hfrom hto]
        exact hcollected
    | inserting taken committed work =>
      rw [hphase] at hfollows
      cases hfollows with
      | inserting hinserts =>
        exact .inserting (h.inserts_change c (by rw [Tables.record, hphase]) hinserts)
    | inserted taken committed record work =>
      rw [hphase] at hfollows
      cases hfollows with
      | inserted hinserts =>
        exact .inserted (h.inserts_change c (by rw [Tables.record, hphase]) hinserts)
    | processed taken =>
      rw [hphase] at hfollows
      cases hfollows with
      | processed hholds hfrom hto hnothing hunlogged =>
        refine .processed (h.holds_change c (by rw [Tables.record, hphase]) hholds) hfrom
          (hto.trans hlength) ?_ hunlogged
        rw [batch_change c hfrom hto]
        exact hnothing
    | removed taken =>
      rw [hphase] at hfollows
      cases hfollows with
      | removed hunlogged hfrom hto hholds =>
        refine .removed hunlogged hfrom (hto.trans hlength) fun r => ?_
        rw [show (s.change c).queue.take taken = s.queue.take taken from
          List.take_append_of_le_length hto]
        exact hholds r

end Change

theorem Inv.moved (h : s.Inv) {phase : Phase} (hrecord : s.record = none)
    (hnew : ({ s with phase } : Tables).record = none) (hfollows : s.Follows phase) :
    Inv { s with phase } := by
  refine ⟨h.numbered, h.balanced, h.clear, h.position, h.once, h.whole, fun table op hdone => ?_, ?_⟩
  · rw [hnew] at hdone
    refine h.queued table op ?_
    rw [hrecord]
    exact hdone
  · show Follows { s with phase } phase
    cases hfollows with
    | down hholds => exact .down hholds
    | idle hholds => exact .idle hholds
    | reading hholds hfrom hto hcollected => exact .reading hholds hfrom hto hcollected
    | inserting hinserts =>
      exact .inserting ⟨hinserts.holds, hinserts.from_position, hinserts.to_taken,
        hinserts.committed_iff, hinserts.bounded, hinserts.work_sub, hinserts.covered⟩
    | inserted hinserts =>
      exact .inserted ⟨hinserts.holds, hinserts.from_position, hinserts.to_taken,
        hinserts.committed_iff, hinserts.bounded, hinserts.work_sub, hinserts.covered⟩
    | processed hholds hfrom hto hnothing hunlogged =>
      exact .processed hholds hfrom hto hnothing hunlogged
    | removed hunlogged hfrom hto hholds => exact .removed hunlogged hfrom hto hholds

theorem Inv.restart (h : s.Inv) : s.restart.Inv := by
  unfold Tables.restart
  cases hphase : s.phase with
  | down =>
    have hfollows := h.follows
    rw [hphase] at hfollows
    cases hfollows with
    | down hholds => exact h.moved (by rw [record, hphase]) rfl (.idle hholds)
  | _ => exact h

theorem Inv.startBatch (h : s.Inv) : s.startBatch.Inv := by
  unfold Tables.startBatch
  cases hphase : s.phase with
  | idle =>
    have hfollows := h.follows
    rw [hphase] at hfollows
    cases hfollows with
    | idle hholds =>
      refine h.moved (by rw [record, hphase]) rfl (.reading hholds le_rfl h.position ?_)
      rw [batch, Nat.sub_self, List.take_zero]
      rfl
  | _ => exact h

theorem batch_succ {e : Element} (hle : s.position ≤ taken) (he : s.queue[taken]? = some e) :
    s.batch (taken + 1) = s.batch taken ++ [e] := by
  have hget : (s.queue.drop s.position)[taken - s.position]? = some e := by
    rw [List.getElem?_drop, ← he]
    congr 1
    omega
  rw [batch, batch, show taken + 1 - s.position = taken - s.position + 1 by omega,
    List.take_add_one, hget]
  rfl

theorem Inv.read (h : s.Inv) : s.read.Inv := by
  unfold Tables.read
  cases hphase : s.phase with
  | reading taken typedBatch =>
    dsimp only
    cases he : s.queue[taken]? with
    | none => exact h
    | some e =>
      dsimp only
      split_ifs
      · have hfollows := h.follows
        rw [hphase] at hfollows
        cases hfollows with
        | reading hholds hfrom hto hcollected =>
          have hlt := (List.getElem?_eq_some_iff.mp he).1
          refine h.moved (by rw [record, hphase]) rfl
            (.reading hholds (hfrom.trans (Nat.le_succ _)) hlt ?_)
          rw [batch_succ hfrom he, List.foldl_append, ← hcollected]
          rfl
      · exact h
  | _ => exact h

theorem foldl_addToTypedBatch (es : List Element) (typedBatch : TypedBatch) :
    es.foldl addToTypedBatch typedBatch =
      (contributionsOf es).foldl (fun m p => m.pushAt p.1 p.2) typedBatch := by
  induction es generalizing typedBatch with
  | nil => rfl
  | cons e es ih =>
    rw [List.foldl_cons, ih, addToTypedBatch_eq, ← List.foldl_append]
    rfl

theorem Inv.endReading (h : s.Inv) (π : IterOrder String)
    (hbounded : ∀ taken typedBatch, s.phase = .reading taken typedBatch →
      ∀ table op, Logged s.log table op → op.natAbs ≤ taken) : (s.endReading π).Inv := by
  unfold Tables.endReading
  cases hphase : s.phase with
  | reading taken typedBatch =>
    have hfollows := h.follows
    rw [hphase] at hfollows
    cases hfollows with
    | reading hholds hfrom hto hcollected =>
      have hnone : s.record = none := by rw [record, hphase]
      have hlogged := hbounded taken typedBatch hphase
      rw [foldl_addToTypedBatch] at hcollected
      dsimp only
      split_ifs with hempty
      · have hnothing : contributionsOf (s.batch taken) = [] :=
          HashMap.foldl_pushAt_isEmpty.mp (hcollected ▸ List.isEmpty_iff.mp hempty)
        refine h.moved hnone rfl (.processed hholds hfrom hto hnothing fun table op hlog => ?_)
        obtain ⟨r, hr, -, hop⟩ := h.queued table op (.inl hlog)
        obtain ⟨hqueue, hlt⟩ := (mem_wanted_drop_iff h.numbered).mp hr
        have hle := hlogged table op hlog
        rw [← hop, natAbs_signedOp hqueue] at hle
        have hbatch := (mem_wanted_batch_iff h.numbered).mpr ⟨hqueue, hlt, hle⟩
        rw [wanted, hnothing] at hbatch
        cases hbatch
      · have hsame : ∀ table op, Logged (some (s.log.getD [])) table op ↔ Logged s.log table op :=
          fun _ _ => Iff.rfl
        refine ⟨h.numbered, h.balanced, h.clear, h.position, h.once, h.whole, fun table op hdone => ?_,
          .inserting ⟨hholds, hfrom, hto, fun table op => ?_, fun table op hdone => ?_,
            fun unit hunit el hel => ?_, fun p hp => ?_⟩⟩
        · refine h.queued table op ?_
          rw [hnone]
          exact hdone
        · refine ⟨.inl, fun hdone => hdone.elim id ?_⟩
          rintro ⟨_, hr, -⟩
          cases hr
        · refine hdone.elim (hlogged table op) ?_
          rintro ⟨_, hr, -⟩
          cases hr
        · rw [hcollected] at hunit
          exact HashMap.mem_units_foldl_pushAt.mp ⟨unit, hunit, rfl, hel⟩
        · rw [hcollected]
          exact .inr (HashMap.mem_units_foldl_pushAt.mpr hp)
  | _ => exact h

theorem row_of_batch (h : Numbered s.queue) {p : String × BatchElement}
    (hp : p ∈ contributionsOf (s.batch taken)) :
    rowOf p.1 p.2 ∈ wanted s.queue ∧ s.position < (rowOf p.1 p.2).opId ∧
      (rowOf p.1 p.2).opId ≤ taken :=
  (mem_wanted_batch_iff h).mp (row_of_mem_contributionsOf hp)

section Block

variable {typeName : String} {selected : List BatchElement} {committed committed' : CommittedTypesOps}
  {work : List (String × List BatchElement)}

/-- The rows of a block that is inserted, and the record that is to be written for it. -/
def withBlock (s : Tables) (typeName : String) (selected : List BatchElement) (taken : ℕ)
    (committed : CommittedTypesOps) (work : List (String × List BatchElement)) : Tables :=
  { s with
    rows := s.rows ++ selected.map (rowOf typeName)
    phase := .inserted taken committed ⟨typeName, selected.map signedOp⟩ work }

theorem done_withBlock (table : String) (op : ℤ) :
    (s.withBlock typeName selected taken committed work).Done
        (some ⟨typeName, selected.map signedOp⟩) table op ↔
      s.Done none table op ∨ typeName = table ∧ op ∈ selected.map signedOp := by
  constructor
  · rintro (hlog | ⟨r, hr, hrow⟩)
    · exact .inl (.inl hlog)
    · rw [← Option.some.inj hr] at hrow
      exact .inr hrow
  · rintro ((hlog | ⟨r, hr, -⟩) | hrow)
    · exact .inl hlog
    · cases hr
    · exact .inr ⟨_, rfl, hrow⟩

theorem Inv.once_withBlock (h : s.Inv) (hholds : s.Holds none)
    (hrows : ∀ el ∈ selected, (typeName, el) ∈ contributionsOf (s.batch taken))
    (hfresh : ∀ el ∈ selected, ¬ s.Done none typeName (signedOp el))
    (hops : (selected.map signedOp).Nodup) :
    (s.withBlock typeName selected taken committed work).AtMostOnce := by
  have hkeys : ((selected.map (rowOf typeName)).map Row.key).Nodup := by
    refine List.Nodup.of_map (fun key => (key.1 : ℤ) * key.2.2) ?_
    rw [List.map_map, List.map_map]
    exact hops
  rw [AtMostOnce, withBlock, List.map_append, List.nodup_append]
  refine ⟨h.once, hkeys, fun key hkey key' hkey' heq => ?_⟩
  obtain ⟨r, hr, rfl⟩ := List.mem_map.mp hkey
  obtain ⟨r', hr', rfl⟩ := List.mem_map.mp hkey'
  obtain ⟨el, hel, rfl⟩ := List.mem_map.mp hr'
  obtain ⟨hopId, htable, hsign⟩ : r.opId = el.1 ∧ r.table = typeName ∧ r.sign = el.2.2 := by
    simpa [Row.key, rowOf] using heq
  rcases (hholds r).mp hr with hold | ⟨-, hdone⟩
  · have hle := opId_le_of_mem_take h.numbered hold
    have hlt : s.position < el.1 := (row_of_batch h.numbered (hrows el hel)).2.1
    omega
  · refine hfresh el hel ?_
    rw [Row.signedOp, hopId, htable, hsign] at hdone
    exact hdone

theorem Inv.holds_withBlock (h : s.Inv) (hholds : s.Holds none)
    (hrows : ∀ el ∈ selected, (typeName, el) ∈ contributionsOf (s.batch taken)) :
    (s.withBlock typeName selected taken committed work).Holds
      (some ⟨typeName, selected.map signedOp⟩) := by
  intro r
  rw [done_withBlock]
  show r ∈ s.rows ++ selected.map (rowOf typeName) ↔ r ∈ wanted (s.queue.take s.position) ∨
    r ∈ wanted s.queue ∧ _
  rw [List.mem_append, hholds r, and_or_left, or_assoc]
  refine or_congr_right (or_congr_right ⟨fun hr => ?_, fun ⟨hr, htable, hop⟩ => ?_⟩)
  · obtain ⟨el, hel, rfl⟩ := List.mem_map.mp hr
    exact ⟨(row_of_batch h.numbered (hrows el hel)).1, rfl, List.mem_map_of_mem hel⟩
  · obtain ⟨el, hel, hop⟩ := List.mem_map.mp hop
    refine List.mem_map.mpr ⟨el, hel, ?_⟩
    exact row_eq h.numbered (row_of_batch h.numbered (hrows el hel)).1 hr htable hop

theorem Inv.withBlock (h : s.Inv) (hnone : s.record = none) {block : List BatchElement}
    (hinserts : s.Inserts none taken committed ((typeName, block) :: work))
    (hselect : selectBlock typeName committed block = (selected, committed')) :
    (s.withBlock typeName selected taken committed' work).Inv := by
  obtain ⟨hsub, hops, hcommitted, hall⟩ := mem_selectBlock typeName committed block
  rw [hselect] at hsub hops hcommitted hall
  have hrows : ∀ el ∈ selected, (typeName, el) ∈ contributionsOf (s.batch taken) :=
    fun el hel => hinserts.work_sub _ List.mem_cons_self el (hsub el hel).1
  have hfresh : ∀ el ∈ selected, ¬ s.Done none typeName (signedOp el) :=
    fun el hel hdone => (hsub el hel).2 ((hinserts.committed_iff _ _).mpr hdone)
  have hsame : ∀ table op, op ∈ opsOf committed' table ↔
      (s.withBlock typeName selected taken committed' work).Done
        (some ⟨typeName, selected.map signedOp⟩) table op := by
    intro table op
    rw [hcommitted, done_withBlock, ← hinserts.committed_iff, or_comm, eq_comm]
  refine ⟨h.numbered, h.balanced, h.clear, h.position, h.once_withBlock hinserts.holds hrows hfresh
    hops, h.whole, fun table op hdone => ?_, .inserted ⟨h.holds_withBlock hinserts.holds hrows,
      hinserts.from_position, hinserts.to_taken, hsame, fun table op hdone => ?_,
      fun unit hunit => hinserts.work_sub unit (List.mem_cons_of_mem _ hunit), fun p hp => ?_⟩⟩
  · rcases (done_withBlock table op).mp hdone with hold | ⟨rfl, hop⟩
    · exact h.queued table op (hnone ▸ hold)
    · obtain ⟨el, hel, rfl⟩ := List.mem_map.mp hop
      obtain ⟨hqueue, hlt, -⟩ := row_of_batch h.numbered (hrows el hel)
      exact ⟨_, (mem_wanted_drop_iff h.numbered).mpr ⟨hqueue, hlt⟩, rfl, rfl⟩
  · rcases (done_withBlock table op).mp hdone with hold | ⟨rfl, hop⟩
    · exact hinserts.bounded table op hold
    · obtain ⟨el, hel, rfl⟩ := List.mem_map.mp hop
      obtain ⟨hqueue, -, hle⟩ := row_of_batch h.numbered (hrows el hel)
      rw [← natAbs_signedOp hqueue] at hle
      exact hle
  · rcases hinserts.covered p hp with hold | ⟨unit, hunit, htype, hel⟩
    · exact .inl ((done_withBlock _ _).mpr (.inl hold))
    · rcases List.mem_cons.mp hunit with rfl | hunit
      · obtain ⟨t, el⟩ := p
        obtain rfl : typeName = t := htype
        exact .inl ((hsame _ _).mp (hall el hel))
      · exact .inr ⟨unit, hunit, htype, hel⟩

theorem Inv.skipBlock (h : s.Inv) (hnone : s.record = none) {block : List BatchElement}
    (hinserts : s.Inserts none taken committed ((typeName, block) :: work))
    (hselect : selectBlock typeName committed block = ([], committed')) :
    Inv { s with phase := .inserting taken committed' work } := by
  obtain ⟨-, -, hcommitted, hall⟩ := mem_selectBlock typeName committed block
  rw [hselect] at hcommitted hall
  have hsame : ∀ table op, op ∈ opsOf committed' table ↔ s.Done none table op := by
    intro table op
    rw [hcommitted, ← hinserts.committed_iff]
    exact or_iff_right fun hboth => List.not_mem_nil hboth.2
  refine h.moved hnone rfl (.inserting ⟨hinserts.holds, hinserts.from_position, hinserts.to_taken,
    hsame, hinserts.bounded, fun unit hunit => hinserts.work_sub unit (List.mem_cons_of_mem _ hunit),
    fun p hp => ?_⟩)
  rcases hinserts.covered p hp with hdone | ⟨unit, hunit, htype, hel⟩
  · exact .inl hdone
  · rcases List.mem_cons.mp hunit with rfl | hunit
    · obtain ⟨t, el⟩ := p
      obtain rfl : typeName = t := htype
      exact .inl ((hsame _ _).mp (hall el hel))
    · exact .inr ⟨unit, hunit, htype, hel⟩

end Block

theorem Inv.insertBlock (h : s.Inv) : s.insertBlock.Inv := by
  unfold Tables.insertBlock
  cases hphase : s.phase with
  | inserting taken committed work =>
    cases work with
    | nil => exact h
    | cons unit work =>
      obtain ⟨typeName, block⟩ := unit
      have hfollows := h.follows
      rw [hphase] at hfollows
      cases hfollows with
      | inserting hinserts =>
        have hnone : s.record = none := by rw [record, hphase]
        dsimp only
        cases hselect : selectBlock typeName committed block with
        | mk selected committed' =>
          dsimp only
          split_ifs with hempty
          · obtain rfl : selected = [] := List.isEmpty_iff.mp hempty
            exact h.skipBlock hnone hinserts hselect
          · exact h.withBlock hnone hinserts hselect
  | _ => exact h

theorem Inv.writeRecord (h : s.Inv) : s.writeRecord.Inv := by
  unfold Tables.writeRecord
  cases hphase : s.phase with
  | inserted taken committed record work =>
    have hfollows := h.follows
    rw [hphase] at hfollows
    cases hfollows with
    | inserted hinserts =>
      have hsome : s.record = some record := by rw [Tables.record, hphase]
      obtain ⟨records, hrecords⟩ := h.whole
      have hlog : s.log.getD [] ++ [.whole record] = (records ++ [record]).map .whole := by
        rw [hrecords, List.map_append]
        rfl
      have hdone : ∀ table op, Tables.Done { s with
          log := some (s.log.getD [] ++ [.whole record])
          phase := .inserting taken committed work } none table op ↔
            s.Done (some record) table op := by
        intro table op
        have hnew : Logged (some (s.log.getD [] ++ [.whole record])) table op ↔
            Logged s.log table op ∨ record.typeName = table ∧ op ∈ record.ops := by
          rw [Logged, Logged, Option.getD_some, hlog, hrecords, mem_opsOf_readLog,
            mem_opsOf_readLog]
          simp [or_and_right, exists_or]
        constructor
        · rintro (hlogged | ⟨r, hr, -⟩)
          · rcases hnew.mp hlogged with hold | hrow
            · exact .inl hold
            · exact .inr ⟨record, rfl, hrow⟩
          · cases hr
        · rintro (hold | ⟨r, hr, hrow⟩)
          · exact .inl (hnew.mpr (.inl hold))
          · rw [← Option.some.inj hr] at hrow
            exact .inl (hnew.mpr (.inr hrow))
      refine ⟨h.numbered, h.balanced, h.clear, h.position, h.once, ⟨_, hlog⟩,
        fun table op hnew => h.queued table op ?_, .inserting ⟨fun r => ?_, hinserts.from_position,
          hinserts.to_taken, fun table op => ?_, fun table op hnew => ?_, hinserts.work_sub,
          fun p hp => ?_⟩⟩
      · rw [hsome]
        exact (hdone table op).mp hnew
      · rw [hdone]
        exact hinserts.holds r
      · rw [hdone]
        exact hinserts.committed_iff table op
      · exact hinserts.bounded table op ((hdone table op).mp hnew)
      · exact (hinserts.covered p hp).imp_left (hdone _ _).mpr
  | _ => exact h

theorem Inv.removeLog (h : s.Inv) : s.removeLog.Inv := by
  unfold Tables.removeLog
  cases hphase : s.phase with
  | inserting taken committed work =>
    cases work with
    | cons unit work => exact h
    | nil =>
      have hfollows := h.follows
      rw [hphase] at hfollows
      cases hfollows with
      | inserting hinserts =>
        have hunlogged : ∀ table op, ¬ Logged none table op :=
          fun table op hlog => Finset.notMem_empty _ hlog
        refine ⟨h.numbered, h.balanced, h.clear, h.position, h.once, ⟨[], rfl⟩,
          fun table op hdone => ?_, .removed hunlogged hinserts.from_position hinserts.to_taken
            fun r => ?_⟩
        · rcases hdone with hlog | ⟨r, hr, -⟩
          · exact absurd hlog (hunlogged table op)
          · cases hr
        · show r ∈ s.rows ↔ r ∈ wanted (s.queue.take taken)
          rw [hinserts.holds r, mem_wanted_take_iff h.numbered, mem_wanted_take_iff h.numbered]
          constructor
          · rintro (⟨hr, hle⟩ | ⟨hr, hdone⟩)
            · exact ⟨hr, hle.trans hinserts.from_position⟩
            · refine ⟨hr, ?_⟩
              rw [← natAbs_signedOp hr]
              exact hinserts.bounded _ _ hdone
          · rintro ⟨hr, hle⟩
            by_cases hold : r.opId ≤ s.position
            · exact .inl ⟨hr, hold⟩
            · have hbatch := (mem_wanted_batch_iff h.numbered).mpr ⟨hr, by omega, hle⟩
              obtain ⟨p, hp, rfl⟩ := List.mem_map.mp hbatch
              rcases hinserts.covered p hp with hdone | ⟨unit, hunit, -⟩
              · exact .inr ⟨hr, hdone⟩
              · cases hunit
  | _ => exact h

theorem Inv.atPosition (h : s.Inv) (hunlogged : ∀ table op, ¬ Logged s.log table op)
    (hto : taken ≤ s.queue.length) (hholds : ∀ r, r ∈ s.rows ↔ r ∈ wanted (s.queue.take taken)) :
    Inv { s with position := taken, phase := .idle } := by
  have hdone : ∀ table op, ¬ s.Done none table op := by
    rintro table op (hlog | ⟨r, hr, -⟩)
    · exact hunlogged table op hlog
    · cases hr
  refine ⟨h.numbered, h.balanced, h.clear, hto, h.once, h.whole,
    fun table op hnew => absurd hnew (hdone table op), .idle fun r => ?_⟩
  refine (hholds r).trans (or_iff_left ?_).symm
  exact fun hboth => hdone _ _ hboth.2

theorem Inv.commit (h : s.Inv) : s.commit.Inv := by
  unfold Tables.commit
  have hfollows := h.follows
  cases hphase : s.phase with
  | processed taken =>
    rw [hphase] at hfollows
    cases hfollows with
    | processed hholds hfrom hto hnothing hunlogged =>
      refine h.atPosition hunlogged hto fun r => ?_
      rw [hholds r, mem_wanted_take_iff h.numbered, mem_wanted_take_iff h.numbered]
      constructor
      · rintro (⟨hr, hle⟩ | ⟨-, hlog | ⟨r', hr', -⟩⟩)
        · exact ⟨hr, hle.trans hfrom⟩
        · exact absurd hlog (hunlogged _ _)
        · cases hr'
      · rintro ⟨hr, hle⟩
        by_cases hold : r.opId ≤ s.position
        · exact .inl ⟨hr, hold⟩
        · have hbatch := (mem_wanted_batch_iff h.numbered).mpr ⟨hr, by omega, hle⟩
          rw [wanted, hnothing] at hbatch
          cases hbatch
  | removed taken =>
    rw [hphase] at hfollows
    cases hfollows with
    | removed hunlogged hfrom hto hholds => exact h.atPosition hunlogged hto hholds
  | _ => exact h

theorem Inv.crash (h : s.Inv)
    (hinserted : ∀ taken committed record work, s.phase ≠ .inserted taken committed record work)
    (hremoved : ∀ taken, s.phase ≠ .removed taken) : Inv { s with phase := .down } := by
  have hfollows := h.follows
  have hnone : s.record = none := by
    unfold record
    cases hphase : s.phase with
    | inserted taken committed record work => exact absurd hphase (hinserted _ _ _ _)
    | _ => rfl
  have hholds : s.Holds none := by
    cases hphase : s.phase with
    | inserted taken committed record work => exact absurd hphase (hinserted _ _ _ _)
    | removed taken => exact absurd hphase (hremoved taken)
    | _ =>
      rw [hphase] at hfollows
      cases hfollows
      first
      | assumption
      | exact Inserts.holds ‹_›
  exact h.moved hnone rfl (.down hholds)

/-! ## Runs -/

theorem inv_empty : empty.Inv where
  numbered k e hk := nomatch hk
  balanced id table := rfl
  clear id state hstate := nomatch hstate
  position := le_rfl
  once := .nil
  whole := ⟨[], rfl⟩
  queued table op hdone := by
    rcases hdone with hlog | ⟨r, hr, -⟩
    · exact absurd hlog (Finset.notMem_empty op)
    · cases hr
  follows := .down fun r => by simp [empty, wanted, contributionsOf]

/-- **One step** keeps the invariant. -/
theorem Inv.step (h : s.Inv) {op : Op} (hop : s.Allowed op) : (s.step op).Inv := by
  cases op with
  | change c => exact h.change c hop.1 hop.2
  | restart => exact h.restart
  | startBatch => exact h.startBatch
  | read => exact h.read
  | endReading π => exact h.endReading π hop
  | insertBlock => exact h.insertBlock
  | writeRecord => exact h.writeRecord
  | tearRecord => exact hop.elim
  | removeLog => exact h.removeLog
  | commit => exact h.commit
  | crash => exact h.crash hop.1 hop.2

theorem Reached.inv (h : Reached s) : s.Inv := by
  induction h with
  | start => exact inv_empty
  | step op _ hop ih => exact ih.step hop

theorem counts_eq_belongs {state : Option State} (hclear : ∀ s', state = some s' → Clear s')
    (table : String) : counts table state = belongs table state := by
  cases state with
  | none => rfl
  | some s' =>
    have hactual : isActual s' = true → isSkipped s' = false := by
      intro hactual
      rw [isActual, Bool.or_eq_true, Option.isNone_iff_eq_none, decide_eq_true_eq] at hactual
      rcases hactual with hnone | hself
      · rw [isSkipped, State.get_of_lookup_none hnone]
        rfl
      · rw [isSkipped, hself]
        simp
    rw [counts, belongs]
    rcases hclear s' rfl with htypes | hskip | hisActual
    · rw [htypes]
      rfl
    · have hnot : isActual s' = false := by
        rw [← Bool.not_eq_true]
        intro htrue
        rw [hactual htrue] at hskip
        cases hskip
      rw [hskip, hnot]
      rfl
    · rw [hactual hisActual, hisActual]
      rfl

/-- **The class tables**: in every state of a run whose steps meet their conditions, each row was
inserted at most once, and the tables agree with the states when the queue has been read. -/
theorem collapsed_of_reached (h : Reached s) : s.AtMostOnce ∧ s.Collapsed := by
  have hinv := h.inv
  refine ⟨hinv.once, fun hidle hend id table => ?_⟩
  have hnone : s.record = none := by rw [record, hidle]
  have hfollows := hinv.follows
  rw [hidle] at hfollows
  cases hfollows with
  | idle hholds =>
    have hrows : ∀ r, r ∈ s.rows ↔ r ∈ wanted s.queue := by
      intro r
      rw [hholds r, hend, List.take_length]
      refine or_iff_left fun hboth => ?_
      obtain ⟨r', hr', -⟩ := hinv.queued _ _ (hnone ▸ hboth.2)
      rw [hend, List.drop_length] at hr'
      cases hr'
    rw [sum_eq_total (List.Nodup.of_map _ hinv.once), total_congr hrows, hinv.balanced id table,
      counts_eq_belongs (hinv.clear id)]

/-! ### A document -/

/-- The state after some steps. -/
def run (ops : List Op) : Tables := ops.foldl step empty

def document : State := (State.named "d:doc").addValue "rdf:type" .uri (.uri "d:Document")

/-- The document gives way to another version. -/
def oldDocument : State := document.addValue "v-s:actualVersion" .uri (.uri "d:new")

/-- The batch of a document is inserted, and the program crashes before the log is removed. -/
def crashed : List Op :=
  [.change (.put document), .restart, .startBatch, .read, .endReading (.stored String), .insertBlock,
    .writeRecord, .crash, .restart, .startBatch, .read]

/-- The batch is read again. -/
def readAgain : List Op := crashed ++ [.endReading (.stored String), .insertBlock, .removeLog, .commit]

/-- The next block can be inserted. -/
def isInserting (s : Tables) : Bool :=
  match s.phase with
  | .inserting _ _ _ => true
  | _ => false

theorem allowed_crash_of_isInserting (h : s.isInserting = true) : s.Allowed .crash := by
  unfold isInserting at h
  cases hphase : s.phase with
  | inserting taken committed work =>
    refine ⟨fun _ _ _ _ heq => ?_, fun _ heq => ?_⟩ <;> rw [hphase] at heq <;> cases heq
  | _ =>
    rw [hphase] at h
    cases h

theorem reached_crashed : Reached (run crashed) := by
  have h₁ : Reached (run [.change (.put document)]) :=
    .step (.change (.put document)) .start ⟨fun s hs => (nomatch hs), fun s hs => by
      obtain rfl := Change.put.inj hs
      exact .inr (.inr (by decide +kernel))⟩
  have h₂ : Reached (run (crashed.take 4)) :=
    .step .read (.step .startBatch (.step .restart h₁ trivial) trivial) trivial
  have h₃ : Reached (run (crashed.take 5)) := .step (.endReading _) h₂
    fun _ _ _ table op hlog => absurd hlog (Finset.notMem_empty op)
  have h₄ : Reached (run (crashed.take 7)) :=
    .step .writeRecord (.step .insertBlock h₃ trivial) trivial
  have h₅ : Reached (run (crashed.take 8)) :=
    .step .crash h₄ (allowed_crash_of_isInserting (by decide +kernel))
  exact .step .read (.step .startBatch (.step .restart h₅ trivial) trivial) trivial

theorem log_crashed : (run crashed).log.getD [] =
    ([⟨"d:Document", [1]⟩] : List TypeOps).map .whole := by decide +kernel

/-- The number of the elements that were taken. -/
def takenOf (s : Tables) : ℕ :=
  match s.phase with
  | .reading taken _ => taken
  | _ => 0

/-- The document is inserted once, although its batch is read twice. -/
theorem collapsed_readAgain : (run readAgain).AtMostOnce ∧ (run readAgain).Collapsed := by
  have hend : Reached (run (crashed ++ [.endReading (.stored String)])) := by
    refine .step (.endReading (.stored String)) reached_crashed
      fun taken typedBatch hphase table op hlog => ?_
    have htaken : (run crashed).takenOf = 1 := by decide +kernel
    have hphase' : (run crashed).phase = .reading taken typedBatch := hphase
    have hlog' : Logged (run crashed).log table op := hlog
    rw [takenOf, hphase'] at htaken
    rw [Logged, log_crashed, mem_opsOf_readLog] at hlog'
    obtain ⟨record, hrecord, -, hop⟩ := hlog'
    rw [List.mem_singleton.mp hrecord, List.mem_singleton] at hop
    rw [hop]
    exact htaken.ge
  exact collapsed_of_reached
    (.step .commit (.step .removeLog (.step .insertBlock hend trivial) trivial) trivial)

/-- No batch is in work. -/
def isIdle (s : Tables) : Bool :=
  match s.phase with
  | .idle => true
  | _ => false

theorem phase_of_isIdle (h : s.isIdle = true) : s.phase = .idle := by
  unfold isIdle at h
  cases hphase : s.phase <;> rw [hphase] at h <;> first | rfl | cases h

/-- The row of a document stays when another version takes its place, and it is inserted twice when
the program crashes before the record is written. -/
theorem not_collapsed_oldDocument :
    ¬ (run [.change (.put document), .change (.put oldDocument), .restart, .startBatch, .read,
      .read, .endReading (.stored String), .insertBlock, .writeRecord, .removeLog,
      .commit]).Collapsed ∧
    ¬ (run [.change (.put document), .restart, .startBatch, .read, .endReading (.stored String),
      .insertBlock, .crash, .restart, .startBatch, .read, .endReading (.stored String),
      .insertBlock]).AtMostOnce := by
  constructor
  · intro h
    have hsum := h (phase_of_isIdle (by decide +kernel)) (by decide +kernel) "d:doc" "d:Document"
    revert hsum
    decide +kernel
  · unfold AtMostOnce
    decide +kernel

end Tables

end Veda.SearchIndexTt
